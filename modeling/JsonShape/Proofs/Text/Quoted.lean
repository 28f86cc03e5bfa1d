import JsonShape.Text.Quoted
import Mathlib.Tactic.SplitIfs

/-!
Strings that are written and read again. The reader takes back every character from what the writer makes of it,
and stops at the closing quote; so what is written is read, whatever follows, and no two strings are written alike.
-/

namespace JsonShape.Quoted

theorem hexValue?_hexDigit (n : Nat) : hexValue? (hexDigit n) = some (n % 16) := by
  have each : ∀ d < 16, hexValue? (Nat.digitChar d) = some d := by decide
  exact each (n % 16) (Nat.mod_lt n (by decide))

theorem complete?_none_of_lt {unit : Nat} (h : unit < 32) :
    complete? none unit = some (.inl (Char.ofNat unit)) := by
  have high : isHigh unit = false := by simp [isHigh]; omega
  have low : isLow unit = false := by simp [isLow]; omega
  simp [complete?, high, low]

section Body

variable {c : Char} (read rest : List Char)

theorem body_plain (quote : c ≠ '"') (backslash : c ≠ '\\') (printed : ¬c.toNat < 32) :
    body .between none read (c :: rest) = body .between none (c :: read) rest := by
  simp [body, quote, backslash, printed]

theorem body_short {d : Char} (short : unescape? d = some c) (long : d ≠ 'u') :
    body .between none read ('\\' :: d :: rest) = body .between none (c :: read) rest := by
  simp [body, short, long]

theorem body_control (control : c.toNat < 32) :
    body .between none read
        ('\\' :: 'u' :: '0' :: '0' :: hexDigit (c.toNat / 16) :: hexDigit c.toNat :: rest) =
      body .between none (c :: read) rest := by
  have zero : hexValue? '0' = some 0 := rfl
  have unit : 16 * (c.toNat / 16 % 16) + c.toNat % 16 = c.toNat := by omega
  simp [body, zero, hexValue?_hexDigit, unit, complete?_none_of_lt control]

end Body

theorem body_escape (c : Char) (read rest : List Char) :
    body .between none read (escape c ++ rest) = body .between none (c :: read) rest := by
  unfold escape
  split_ifs with quote backslash backspace feed newline ret tab control
  · subst quote
    exact body_short read rest rfl (by decide)
  · subst backslash
    exact body_short read rest rfl (by decide)
  · subst backspace
    exact body_short read rest rfl (by decide)
  · subst feed
    exact body_short read rest rfl (by decide)
  · subst newline
    exact body_short read rest rfl (by decide)
  · subst ret
    exact body_short read rest rfl (by decide)
  · subst tab
    exact body_short read rest rfl (by decide)
  · exact body_control read rest control
  · exact body_plain read rest quote backslash control

theorem body_flatMap_escape (text read rest : List Char) :
    body .between none read (text.flatMap escape ++ '"' :: rest) =
      some (String.ofList (read.reverse ++ text), rest) := by
  induction text generalizing read with
  | nil => simp [body]
  | cons c text ih =>
      rw [List.flatMap_cons, List.append_assoc, body_escape, ih]
      simp

/-- What is written between quotes is read again, and nothing of what follows. -/
theorem read?_write (s : String) (rest : List Char) :
    ∃ text, (write s).toList ++ rest = '"' :: text ∧ read? text = some (s, rest) := by
  refine ⟨s.toList.flatMap escape ++ '"' :: rest, by simp [write], ?_⟩
  rw [read?, body_flatMap_escape]
  simp

example : write "a\"\\\n\x01é" = "\"a\\\"\\\\\\n\\u0001é\"" := by decide

theorem write_injective {s t : String} (h : write s = write t) : s = t := by
  obtain ⟨text, hs, readS⟩ := read?_write s []
  obtain ⟨_, ht, readT⟩ := read?_write t []
  rw [h, ht] at hs
  cases hs
  exact (Prod.mk.inj (Option.some.inj (readS.symm.trans readT))).1

end JsonShape.Quoted
