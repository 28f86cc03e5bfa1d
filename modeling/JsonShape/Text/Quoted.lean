/-!
Strings between double quotes. Writing escapes the quote, the backslash and the characters below
U+0020, and leaves all else as it is; reading knows every escape of JSON.
-/

namespace JsonShape.Quoted

def hexDigit (n : Nat) : Char := Nat.digitChar (n % 16)

def escape (c : Char) : List Char :=
  if c = '"' then ['\\', '"']
  else if c = '\\' then ['\\', '\\']
  else if c = '\x08' then ['\\', 'b']
  else if c = '\x0c' then ['\\', 'f']
  else if c = '\n' then ['\\', 'n']
  else if c = '\r' then ['\\', 'r']
  else if c = '\t' then ['\\', 't']
  else if c.toNat < 32 then ['\\', 'u', '0', '0', hexDigit (c.toNat / 16), hexDigit c.toNat]
  else [c]

def write (s : String) : String :=
  "\"" ++ String.ofList (s.toList.flatMap escape) ++ "\""

def hexValue? (c : Char) : Option Nat :=
  if '0' ≤ c ∧ c ≤ '9' then some (c.toNat - '0'.toNat)
  else if 'a' ≤ c ∧ c ≤ 'f' then some (c.toNat - 'a'.toNat + 10)
  else if 'A' ≤ c ∧ c ≤ 'F' then some (c.toNat - 'A'.toNat + 10)
  else none

def isHigh (unit : Nat) : Bool := 0xd800 ≤ unit && unit < 0xdc00

def isLow (unit : Nat) : Bool := 0xdc00 ≤ unit && unit < 0xe000

def ofPair (high low : Nat) : Char :=
  Char.ofNat (0x10000 + (high - 0xd800) * 0x400 + (low - 0xdc00))

def unescape? (c : Char) : Option Char :=
  if c = '"' ∨ c = '\\' ∨ c = '/' then some c
  else if c = 'b' then some '\x08'
  else if c = 'f' then some '\x0c'
  else if c = 'n' then some '\n'
  else if c = 'r' then some '\r'
  else if c = 't' then some '\t'
  else none

/-- Where in a string the reader stands: between characters, after a backslash, or inside four
hexadecimal digits, with the digits still to come after the next one and the value so far. -/
inductive Place where
  | between
  | escape
  | digits (more value : Nat)

/-- The character that a code unit completes, or the high surrogate it leaves waiting. -/
def complete? (waiting : Option Nat) (unit : Nat) : Option (Char ⊕ Nat) :=
  match waiting with
  | some high => if isLow unit then some (.inl (ofPair high unit)) else none
  | none =>
    if isHigh unit then some (.inr unit)
    else if isLow unit then none
    else some (.inl (Char.ofNat unit))

/-- Reads up to the closing quote. `waiting` is a high surrogate whose other half must come next, and
`read` holds the characters so far, last first. -/
def body : Place → (waiting : Option Nat) → (read : List Char) → List Char →
    Option (String × List Char)
  | _, _, _, [] => none
  | .between, waiting, read, c :: rest =>
    if c = '\\' then body .escape waiting read rest
    else if waiting.isSome ∨ c.toNat < 32 then none
    else if c = '"' then some (String.ofList read.reverse, rest)
    else body .between none (c :: read) rest
  | .escape, waiting, read, c :: rest =>
    if c = 'u' then body (.digits 3 0) waiting read rest
    else if waiting.isSome then none
    else
      match unescape? c with
      | some c => body .between none (c :: read) rest
      | none => none
  | .digits more value, waiting, read, c :: rest =>
    match hexValue? c, more with
    | none, _ => none
    | some d, more + 1 => body (.digits more (16 * value + d)) waiting read rest
    | some d, 0 =>
      match complete? waiting (16 * value + d) with
      | some (.inl c) => body .between none (c :: read) rest
      | some (.inr high) => body .between (some high) read rest
      | none => none

def read? (text : List Char) : Option (String × List Char) := body .between none [] text

end JsonShape.Quoted
