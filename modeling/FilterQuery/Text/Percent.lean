import FilterQuery.Text.Ascii
import FilterQuery.Text.Replace
import FilterQuery.Text.Utf8

set_option autoImplicit false

/-! # Percent encoding

A byte may be written as `%` and two hexadecimal digits. A form is a row of such texts, in which a
plus stands for a blank: keys with their values, with `&` between the pairs and `=` behind a key. -/

namespace FilterQuery.Text

def hexValue? (b : Nat) : Option Nat :=
  if '0'.toNat ≤ b ∧ b ≤ '9'.toNat then some (b - '0'.toNat)
  else if 'A'.toNat ≤ b ∧ b ≤ 'F'.toNat then some (b - 'A'.toNat + 10)
  else if 'a'.toNat ≤ b ∧ b ≤ 'f'.toNat then some (b - 'a'.toNat + 10)
  else none

/-- The byte that two digits stand for. -/
def hexByte? (high low : Nat) : Option Nat := do
  let high ← hexValue? high
  let low ← hexValue? low
  return 16 * high + low

/-- The bytes that a row of bytes stands for; a percent sign without its digits is left alone. -/
def percentDecode : List Nat → List Nat
  | [] => []
  | [b] => [b]
  | [b, c] => [b, c]
  | b :: high :: low :: rest =>
    if b = '%'.toNat then
      match hexByte? high low with
      | some byte => byte :: percentDecode rest
      | none => b :: percentDecode (high :: low :: rest)
    else b :: percentDecode (high :: low :: rest)

/-- A text of a path; `none` if it is no text behind the encoding. -/
def pathText? (cs : List Char) : Option (List Char) := ofUtf8? (percentDecode (encodeUtf8 cs))

/-- A key or value of a form. -/
def formText (cs : List Char) : List Char :=
  let spaced := cs.map fun c => if c = '+' then ' ' else c
  ofUtf8Lossy (percentDecode (encodeUtf8 spaced))

/-- A key with its value, which is empty if there is none. -/
def formPair (cs : List Char) : List Char × List Char :=
  match splitFirst '=' cs with
  | some (key, value) => (formText key, formText value)
  | none => (formText cs, [])

/-- The pairs of a form in turn. -/
def formPairs (cs : List Char) : List (List Char × List Char) :=
  ((splitAll '&' cs).filter fun pair => !pair.isEmpty).map formPair

end FilterQuery.Text
