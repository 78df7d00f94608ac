import FilterQuery.Condition.Document
import FilterQuery.Condition.Print
import FilterQuery.Query.Session
import FilterQuery.Service.Exchange
import FilterQuery.Service.Settings

set_option autoImplicit false

/-! # The service

The service answers read requests: whether it is up, what a filter means, and the query for an
entity type. Nothing is executed. Any origin may ask, a large body is refused before anything else
is looked at, and a request that asks for permission only is always granted it. -/

namespace FilterQuery

open FilterQuery.Text

/-! ## Errors -/

inductive ApiError where
  | notFound (message : String)
  | badRequest (message : String)
  | parse (e : ParseError)
  | compile (e : CompileError)
  | sorting (e : SortingError)
  | pagination (e : PaginationError)

namespace ApiError

/-- An unknown entity is a resource that does not exist. -/
def ofCompile : CompileError → ApiError
  | .unknownEntity entity => .notFound (CompileError.unknownEntity entity).message
  | e => .compile e

def status : ApiError → Nat
  | .notFound _ => 404
  | _ => 400

def kind : ApiError → String
  | .notFound _ => "notFound"
  | .badRequest _ => "badRequest"
  | .parse _ => "parseError"
  | .compile _ => "compileError"
  | .sorting _ => "invalidSorting"
  | .pagination _ => "invalidPagination"

def message : ApiError → String
  | .notFound message | .badRequest message => message
  | .parse e => e.message
  | .compile e => e.message
  | .sorting e => e.message
  | .pagination e => e.message

/-- Where in a filter the error is, if it is in one. -/
def position? : ApiError → Option Position
  | .parse e => e.position?
  | _ => none

def response (e : ApiError) : Response :=
  let place := match e.position? with
    | some p => [("line", Json.int p.line), ("column", Json.int p.column)]
    | none => []
  .document e.status (.object [("error", .object ([("type", .string e.kind),
    ("message", .string e.message), ("statusCode", .int e.status)] ++ place))])

end ApiError

/-! ## Routes -/

structure Service where
  settings : Settings
  catalog : Catalog

inductive Route where
  | health
  | ping
  | filter
  /-- The query for an entity type, whose name is still encoded. -/
  | query (segment : List Char)
  deriving DecidableEq, Repr

/-- The route of a path. A name is one segment, which is not empty. -/
def Route.ofPath? (path : List Char) : Option Route :=
  match (splitAll '/' path).map String.ofList with
  | ["", "health"] => some .health
  | ["", "v1", "ping"] => some .ping
  | ["", "v1", "filter"] => some .filter
  | ["", "v1", "query", segment] =>
    if segment.isEmpty then none else some (.query segment.toList)
  | _ => none

namespace Service

/-- What a handler answers: a document, an error, or a fault. -/
abbrev Answer := Except (Failure ApiError)

/-- The filter of a text. -/
def parseFilter (s : Service) (text : String) : Answer Condition :=
  (Condition.parse s.settings.limits text s.settings.zones).mapError (Failure.map .parse)

def healthDocument (s : Service) : Json :=
  .object [("status", .string "ok"), ("entities", .array (s.catalog.typeNames.map .string))]

def pingDocument : Json := .object [("status", .string "ok")]

/-- A filter in its canonical forms. -/
def filterDocument (s : Service) (parameters : Parameters) : Answer Json :=
  match parameters.lookup "filter" with
  | none => refuse (.badRequest "missing 'filter' query parameter")
  | some text => do
    let c ← s.parseFilter text
    return .object [("compact", .text c.compactText),
      ("pretty", .text (c.prettyText Condition.defaultIndent)), ("condition", c.toJson)]

/-- A parameter under a reader, if it was given. -/
def readParameter {α : Type} (parameters : Parameters) (name : String)
    (reader : String → Answer α) : Answer (Option α) :=
  match parameters.lookup name with
  | none => .ok none
  | some text => (reader text).map some

/-- The query for an entity type. A filter of blanks is no filter. -/
def queryDocument (s : Service) (entity : String) (parameters : Parameters) : Answer Json := do
  let filter ← readParameter parameters "filter" fun text =>
    if (trim text.toList).isEmpty then pure none else (s.parseFilter text).map some
  let sorting ← readParameter parameters "sort" fun text =>
    orRefuse .sorting (Sorting.parse text.toList)
  let page ← readParameter parameters "pagination" fun text =>
    orRefuse .pagination (Pagination.parse text.toList)
  let compiled : Compile CompiledQuery := do
    let session ← Session.start s.catalog entity
    ((session.withRename s.settings.naming.transform).withOptions s.settings.compileOptions).compile
      (filter.getD none) sorting (page.getD Pagination.first)
  let query ← compiled.mapError (Failure.map .ofCompile)
  orStop query.toJson

/-- The response to an answer; a fault has none. -/
def answered (answer : Answer Json) : Except Fault Response :=
  match answer with
  | .ok j => .ok (.document 200 j)
  | .error (.error e) => .ok e.response
  | .error (.fault f) => .error f

/-- Answer with the parameters of a query, unless one of them is given twice. -/
def withParameters (known : List String) (query : List Char) (handler : Parameters → Answer Json) :
    Except Fault Response :=
  match Parameters.ofQuery known query with
  | .ok parameters => answered (handler parameters)
  | .error e =>
    .ok (.plain 400 s!"Failed to deserialize query string: duplicate field `{e.name}`")

/-- The response of a route. -/
def get (s : Service) (route : Route) (query : List Char) : Except Fault Response :=
  match route with
  | .health => answered (.ok s.healthDocument)
  | .ping => answered (.ok pingDocument)
  | .filter => withParameters ["filter"] query s.filterDocument
  | .query segment =>
    match pathText? segment with
    | none => .ok (.plain 400 "Invalid URL: Invalid UTF-8 in `entity`")
    | some name =>
      withParameters ["filter", "sort", "pagination"] query
        (s.queryDocument (String.ofList name))

/-! ## Around the routes -/

/-- A body may have so many bytes. -/
def bodyLimit : Nat := 16384

/-- The methods of every route. -/
def readMethods : List String := ["GET", "HEAD"]

/-- The response before any other origin is allowed to see it. A large body is refused. On a known
path a `HEAD` request gets no body back, and the methods are named to a request that has none of
them. -/
def respondWithin (s : Service) (request : Request) : Except Fault Response :=
  let route := Route.ofPath? request.target.path
  let reads := readMethods.contains request.method
  let tooLarge := (request.contentLength?.map fun n => decide (n > bodyLimit)).getD false
  let response : Except Fault Response :=
    if tooLarge then .ok (.plain 413 "length limit exceeded")
    else
      match route with
      | none => .ok (.bare 404)
      | some route => if reads then s.get route request.target.query else .ok (.bare 405)
  response.map fun response =>
    if route.isNone then response
    else if !reads then response.withHeader "allow" "GET,HEAD"
    else if request.method == "HEAD" then response.withoutBody
    else response

/-- The response to a request that only asks what is permitted. -/
def permission (request : Request) : Response :=
  let granted := (Response.bare 200).withHeader "access-control-allow-methods" "GET,OPTIONS"
    |>.withHeader "access-control-allow-headers" "accept,content-type"
  if (Route.ofPath? request.target.path).isSome then granted.withHeader "allow" "GET,HEAD"
  else granted

/-- The response to a request. -/
def respond (s : Service) (request : Request) : Except Fault Response :=
  let response :=
    if request.method == "OPTIONS" then .ok (permission request) else s.respondWithin request
  response.map fun response => response.withHeader "access-control-allow-origin" "*"

end Service

end FilterQuery
