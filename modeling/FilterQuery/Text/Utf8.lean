set_option autoImplicit false

/-! # Characters as bytes

The UTF-8 form of a text, and reading it back. Bytes that form no character are read as gaps: a gap
is the longest run of bytes that begins a character without finishing it, or a single byte that
begins none. -/

namespace FilterQuery.Text

/-- The byte at a place, counted in steps of six bits, of a number behind its first byte. -/
def continuation (n place : Nat) : Nat := 0x80 + n / Nat.pow 64 place % 64

def encodeChar (c : Char) : List Nat :=
  let n := c.toNat
  if n < 0x80 then [n]
  else if n < 0x800 then [0xC0 + n / 64, continuation n 0]
  else if n < 0x10000 then [0xE0 + n / 4096, continuation n 1, continuation n 0]
  else [0xF0 + n / 262144, continuation n 2, continuation n 1, continuation n 0]

def encodeUtf8 (cs : List Char) : List Nat := cs.flatMap encodeChar

/-- A character that has begun: its number so far, the bytes still to come, and the range of the
next one of them. -/
structure Begun where
  number : Nat
  more : Nat
  low : Nat
  high : Nat
  deriving DecidableEq, Repr

/-- The character that a first byte of several begins. The second byte of some is restricted, so
that every character has one form only and no surrogate has any. -/
def Begun.ofByte? (b : Nat) : Option Begun :=
  if 0xC2 ≤ b ∧ b ≤ 0xDF then some ⟨b - 0xC0, 1, 0x80, 0xBF⟩
  else if b = 0xE0 then some ⟨0, 2, 0xA0, 0xBF⟩
  else if b = 0xED then some ⟨0xD, 2, 0x80, 0x9F⟩
  else if 0xE1 ≤ b ∧ b ≤ 0xEF then some ⟨b - 0xE0, 2, 0x80, 0xBF⟩
  else if b = 0xF0 then some ⟨0, 3, 0x90, 0xBF⟩
  else if 0xF1 ≤ b ∧ b ≤ 0xF3 then some ⟨b - 0xF0, 3, 0x80, 0xBF⟩
  else if b = 0xF4 then some ⟨4, 3, 0x80, 0x8F⟩
  else none

/-- What a byte does at the start of a character: what it finishes, and what it begins. -/
def firstByte (b : Nat) : List (Option Char) × Option Begun :=
  if b < 0x80 then ([some (Char.ofNat b)], none)
  else
    match Begun.ofByte? b with
    | some begun => ([], some begun)
    | none => ([none], none)

/-- What a byte does behind the bytes read before it. -/
def nextByte (begun : Option Begun) (b : Nat) : List (Option Char) × Option Begun :=
  match begun with
  | none => firstByte b
  | some ⟨number, more, low, high⟩ =>
    if low ≤ b ∧ b ≤ high then
      let number := 64 * number + (b - 0x80)
      if more ≤ 1 then ([some (Char.ofNat number)], none)
      else ([], some ⟨number, more - 1, 0x80, 0xBF⟩)
    else
      let (read, begun) := firstByte b
      (none :: read, begun)

/-- The characters of a row of bytes, and the gaps between them. -/
def decodeUtf8 (begun : Option Begun) : List Nat → List (Option Char)
  | [] => if begun.isSome then [none] else []
  | b :: bytes =>
    let (read, begun) := nextByte begun b
    read ++ decodeUtf8 begun bytes

/-- The text of a row of bytes without gaps. -/
def ofUtf8? (bytes : List Nat) : Option (List Char) := (decodeUtf8 none bytes).mapM id

/-- What stands for a gap. -/
def replacement : Char := '�'

/-- The text of a row of bytes, with a mark for every gap. -/
def ofUtf8Lossy (bytes : List Nat) : List Char := (decodeUtf8 none bytes).map (·.getD replacement)

end FilterQuery.Text
