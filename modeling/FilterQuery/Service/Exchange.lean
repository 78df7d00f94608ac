import FilterQuery.Json
import FilterQuery.Text.Percent

set_option autoImplicit false

/-! # Requests and responses

What goes in and out of the service, and the parameters of a request. A parameter that the service
knows may be given once only; others are passed over. -/

namespace FilterQuery

open FilterQuery.Text

/-! ## Targets -/

/-- What a request asks for. -/
structure Target where
  path : List Char
  /-- The text behind the question mark. -/
  query : List Char
  deriving DecidableEq, Repr

namespace Target

/-- A path, and behind a question mark the query. -/
def ofPath (cs : List Char) : Target where
  path := cs.takeWhile (· != '?')
  query := (cs.dropWhile (· != '?')).drop 1

def isSchemeChar (c : Char) : Bool := isLetter c || isDigit c || ['+', '-', '.', '~'].contains c

/-- What follows the scheme and the server in `scheme://server/path?query`. -/
def afterServer? (cs : List Char) : Option (List Char) :=
  match cs.dropWhile isSchemeChar with
  | ':' :: '/' :: '/' :: rest => some (rest.dropWhile fun c => c != '/' && c != '?')
  | _ => none

/-- The target of a text. It starts with its path, or with a scheme and a server in front of a path
that may be missing; any other text has no path. A fragment is not part of a target. -/
def ofText (text : List Char) : Target :=
  match text.takeWhile (· != '#') with
  | '/' :: rest => ofPath ('/' :: rest)
  | cs =>
    match afterServer? cs with
    | none => ⟨[], []⟩
    | some rest =>
      let target := ofPath rest
      if target.path.isEmpty then { target with path := ['/'] } else target

end Target

/-! ## Requests -/

structure Request where
  method : String
  target : Target
  headers : List (String × String)

namespace Request

/-- The value of a header, whose name is given in lower case. -/
def header? (r : Request) (name : String) : Option String :=
  (r.headers.find? fun (key, _) => String.ofList (key.toList.map lowerAscii) == name).map Prod.snd

/-- The size that a request states for its body. -/
def contentLength? (r : Request) : Option Nat :=
  (r.header? "content-length").bind fun text => readUnsigned UInt64.size text.toList

end Request

/-! ## Responses -/

inductive Body where
  | empty
  | text (s : String)
  | document (j : Json)

structure Response where
  status : Nat
  headers : List (String × String)
  body : Body

namespace Response

/-- A response with nothing in it. -/
def bare (status : Nat) : Response := ⟨status, [], .empty⟩

def plain (status : Nat) (text : String) : Response :=
  ⟨status, [("content-type", "text/plain; charset=utf-8")], .text text⟩

def document (status : Nat) (j : Json) : Response :=
  ⟨status, [("content-type", "application/json")], .document j⟩

def withHeader (r : Response) (name value : String) : Response :=
  { r with headers := r.headers ++ [(name, value)] }

def withoutBody (r : Response) : Response := { r with body := .empty }

end Response

/-! ## Parameters -/

/-- The values of the parameters that were given. -/
abbrev Parameters := List (String × String)

/-- A parameter that was given twice. -/
structure DuplicateParameter where
  name : String
  deriving DecidableEq, Repr

namespace Parameters

/-- The known ones among pairs of keys and values, behind those given `earlier`. -/
def ofPairs (known : List String) (earlier : Parameters) :
    List (List Char × List Char) → Except DuplicateParameter Parameters
  | [] => .ok earlier
  | (key, value) :: rest =>
    let name := String.ofList key
    if !known.contains name then ofPairs known earlier rest
    else if (earlier.lookup name).isSome then .error ⟨name⟩
    else ofPairs known (earlier ++ [(name, String.ofList value)]) rest

/-- The known parameters of a query. -/
def ofQuery (known : List String) (query : List Char) : Except DuplicateParameter Parameters :=
  ofPairs known [] (formPairs query)

end Parameters

end FilterQuery
