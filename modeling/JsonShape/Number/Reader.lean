import JsonShape.Number.Basic

/-!
Reading number literals. A literal of digits alone, in range, is kept exactly. Of every other literal
the leading digits make a significand below 2^64, and the double is computed from it and a power of ten.
A literal beyond the greatest double is refused.
-/

namespace JsonShape.Number

def digitValue (c : Char) : Nat := c.toNat - '0'.toNat

def digitsValue (digits : List Char) : Nat := digits.foldl (fun n c => 10 * n + digitValue c) 0

def append (significand : Nat) : List Char → Nat × List Char
  | [] => (significand, [])
  | c :: rest =>
    let next := 10 * significand + digitValue c
    if next < 18446744073709551616 then append next rest else (significand, c :: rest)

/-- The double of a literal with the digits `whole` before its point and `fraction` after it. Whole
digits that do not fit into the significand count by their number, and those of the fraction not at
all. -/
def double? (negative : Bool) (whole fraction : List Char) (exponent : Int) : Option Number :=
  let (leading, beyond) := append 0 whole
  let (significand, unread) := append leading fraction
  let places : Int := fraction.length - unread.length
  (Double.ofDecimal? negative significand (exponent + beyond.length - places)).map .double

def ofWhole? (negative : Bool) (whole : List Char) : Option Number :=
  let n := digitsValue whole
  if negative ∧ n = 0 then some (.double (.zero true))
  else
    match ofInt? (if negative then -(n : Int) else n) with
    | some number => some number
    | none => double? negative whole [] 0

def fraction? : List Char → Option (Option (List Char) × List Char)
  | '.' :: rest =>
    match rest.span Char.isDigit with
    | ([], _) => none
    | (digits, rest) => some (some digits, rest)
  | rest => some (none, rest)

def unsignedExponent? (negative : Bool) (text : List Char) : Option (Option Int × List Char) :=
  match text.span Char.isDigit with
  | ([], _) => none
  | (digits, rest) =>
    let n : Int := digitsValue digits
    some (some (if negative then -n else n), rest)

def exponent? : List Char → Option (Option Int × List Char)
  | c :: rest =>
    if c = 'e' ∨ c = 'E' then
      match rest with
      | '-' :: rest => unsignedExponent? true rest
      | '+' :: rest => unsignedExponent? false rest
      | rest => unsignedExponent? false rest
    else some (none, c :: rest)
  | [] => some (none, [])

def unsigned? (negative : Bool) (text : List Char) : Option (Number × List Char) := do
  let (whole, rest) := text.span Char.isDigit
  if whole = [] ∨ (whole.head? = some '0' ∧ 1 < whole.length) then none
  else
    let (fraction, rest) ← fraction? rest
    let (exponent, rest) ← exponent? rest
    let number ←
      if fraction.isNone ∧ exponent.isNone then ofWhole? negative whole
      else double? negative whole (fraction.getD []) (exponent.getD 0)
    some (number, rest)

def read? : List Char → Option (Number × List Char)
  | '-' :: rest => unsigned? true rest
  | text => unsigned? false text

end JsonShape.Number
