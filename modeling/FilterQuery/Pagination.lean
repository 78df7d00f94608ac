import FilterQuery.Text.Ascii

set_option autoImplicit false

/-! # Pagination

A page is given by its number, counted from one, and by its size. The text of a pagination is
searched for the keys `$page:` and `$size:`; the last number behind a key counts, and everything
else is passed over. Page numbers and sizes are 64-bit words, and an index that exceeds one is not
defined. -/

namespace FilterQuery

open FilterQuery.Text

inductive PaginationError where
  | invalidPage (page : Nat)
  | invalidSize (size : Nat)
  /-- A number that exceeds 64 bits. -/
  | invalidNumber (digits : String)
  deriving DecidableEq, Repr

def PaginationError.message : PaginationError → String
  | .invalidPage page => s!"page '{page}' must be greater than 0"
  | .invalidSize size => s!"size '{size}' must be greater than 0"
  | .invalidNumber digits => s!"invalid number '{digits}' in pagination"

/-- The numbers of a machine word are below this one. -/
def wordLimit : Nat := UInt64.size

structure Pagination where
  page : Nat
  size : Nat
  page_pos : 0 < page
  size_pos : 0 < size
  page_lt : page < wordLimit
  size_lt : size < wordLimit
  deriving DecidableEq

namespace Pagination

def defaultPage : Nat := 1

def defaultSize : Nat := 20

/-- The first page of the default size. -/
def first : Pagination :=
  ⟨defaultPage, defaultSize, by decide, by decide, by decide, by decide⟩

/-- The pagination of two words, neither of which may be zero. -/
def make (page size : UInt64) : Except PaginationError Pagination :=
  if hp : page.toNat = 0 then .error (.invalidPage 0)
  else if hs : size.toNat = 0 then .error (.invalidSize 0)
  else .ok ⟨page.toNat, size.toNat, Nat.pos_of_ne_zero hp, Nat.pos_of_ne_zero hs, page.toNat_lt,
    size.toNat_lt⟩

/-! ## Reading -/

/-- Search for a key while the first `skip` characters belong to the one before. The digits behind a
key are its row; the search goes on at them. -/
def keyedRowsFrom (key : List Char) : Nat → List Char → List (List Char)
  | _, [] => []
  | skip + 1, _ :: rest => keyedRowsFrom key skip rest
  | 0, c :: rest =>
    if key.isPrefixOf (c :: rest) then
      ((c :: rest).drop key.length).takeWhile isDigit :: keyedRowsFrom key (key.length - 1) rest
    else keyedRowsFrom key 0 rest

/-- The rows of digits behind a key, from left to right; a key without a digit has an empty row. -/
def keyedRows (key text : List Char) : List (List Char) := keyedRowsFrom key 0 text

/-- The number of the last row that has digits, or else `fallback`. -/
def lastNumber (fallback : UInt64) : List (List Char) → Except PaginationError UInt64
  | [] => .ok fallback
  | row :: rest =>
    if row.isEmpty then lastNumber fallback rest
    else if ofDigits row < wordLimit then lastNumber (UInt64.ofNat (ofDigits row)) rest
    else .error (.invalidNumber (String.ofList row))

def pageKey : List Char := ['$', 'p', 'a', 'g', 'e', ':']

def sizeKey : List Char := ['$', 's', 'i', 'z', 'e', ':']

def parse (text : List Char) : Except PaginationError Pagination :=
  match lastNumber (UInt64.ofNat defaultPage) (keyedRows pageKey text) with
  | .error e => .error e
  | .ok page =>
    match lastNumber (UInt64.ofNat defaultSize) (keyedRows sizeKey text) with
    | .error e => .error e
    | .ok size => make page size

/-! ## Indices -/

/-- The number, if it fits into a word. -/
def word? (n : Nat) : Option Nat := if n < wordLimit then some n else none

/-- The index of the first item of the page, counted from zero. -/
def offset? (p : Pagination) : Option Nat := word? ((p.page - 1) * p.size)

/-- The index behind the last item of the page. -/
def end? (p : Pagination) : Option Nat := p.offset?.bind fun start => word? (start + p.size)

def text (p : Pagination) : List Char :=
  pageKey ++ natDigits p.page ++ sizeKey ++ natDigits p.size

end Pagination

end FilterQuery
