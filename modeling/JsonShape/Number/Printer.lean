import JsonShape.Number.Basic
import JsonShape.Number.Shortest

/-!
The text of numbers. Whole numbers are written in full; a double always shows that it is one, by a
decimal point or an exponent.
-/

namespace JsonShape

namespace Decimal

structure Layout where
  least : Int
  greatest : Int

/-- A decimal has at least one digit after its point when written without an exponent; with one, the
point stands only before further digits and the exponent carries its sign. -/
def write (layout : Layout) (d : Decimal) : String :=
  let all := Nat.toDigits 10 d.digits
  let first : Int := all.length - 1 + d.power
  let digits := (all.reverse.dropWhile (· == '0')).reverse
  if first < layout.least ∨ layout.greatest < first then
    let sign := if first < 0 then "-" else "+"
    let fraction := if digits.length ≤ 1 then [] else '.' :: digits.drop 1
    String.ofList (digits.take 1 ++ fraction) ++ "e" ++ sign ++ toString first.natAbs
  else if first < 0 then
    "0." ++ String.ofList (List.replicate (first.natAbs - 1) '0' ++ digits)
  else
    let whole := first.toNat + 1
    let fraction := if digits.length ≤ whole then ['0'] else digits.drop whole
    String.ofList (digits.take whole ++ List.replicate (whole - digits.length) '0') ++ "." ++
      String.ofList fraction

end Decimal

def Double.layout : Decimal.Layout := ⟨-5, 15⟩

def Double.text (d : Double) : String :=
  let magnitude :=
    if d.magnitude.mantissa = 0 then "0.0" else (Decimal.shortest d.magnitude).write Double.layout
  if d.negative then "-" ++ magnitude else magnitude

def Number.text : Number → String
  | .int n _ => toString n
  | .double d => d.text

end JsonShape
