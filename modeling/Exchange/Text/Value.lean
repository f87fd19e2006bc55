import Exchange.Text.Fixed
import Mathlib.Data.List.Infix

/-!
# Texts and numbers in JavaScript

`Number(text)` and `parseFloat(text)` for decimals, and the comparison of two values: two
texts are compared character by character, anything else as numbers.

Which decimals are numbers is a parameter, `double`: the number nearest to a decimal.
-/

namespace Text

open Numeral

section Reading

variable (double : ℚ → ℚ)

/-- `Number(text)`; there is none for `NaN`. -/
def Number (s : List Char) : Option ℚ :=
  match s with
  | '-' :: t => (read t).map fun n => double (-n.value)
  | _ => (read s).map fun n => double n.value

/-- The number that as much of a text as possible is. -/
def parseFloat (s : List Char) : Option ℚ := s.inits.reverse.findSome? (Number double)

variable {double}

theorem Number_minus (s : List Char) :
    Number double ('-' :: s) = (read s).map fun n => double (-n.value) := rfl

theorem Number_text_append (a : Numeral) (s : List Char) :
    Number double (a.text ++ s) = (read (a.text ++ s)).map fun n => double n.value := by
  unfold Number
  split
  · next t ht =>
    have hlt := minus_lt_text a t s
    rw [ht] at hlt
    exact absurd hlt (List.lt_irrefl _)
  · rfl

/-- The number of a text that a decimal is. -/
theorem Number_signed (b : Signed) : Number double b.text = some (double b.value) := by
  obtain ⟨_ | _, b⟩ := b
  · have hread : Number double (b.text ++ []) = _ := Number_text_append b []
    rw [List.append_nil, read_text] at hread
    exact hread
  · change Number double ('-' :: b.text) = _
    rw [Number_minus, read_text]
    rfl

/-- The number of a column's text. -/
theorem Number_fixed (scale : ℕ) (q : ℚ) :
    Number double (fixed scale q) = some (double (Store.roundTo scale q)) := by
  rw [fixed, Number_signed, value_column]

theorem parseFloat_eq {s : List Char} {x : ℚ} (h : Number double s = some x) :
    parseFloat double s = some x := by
  have hinits : s.inits.reverse = s.reverse.tails.map List.reverse := by
    rw [List.inits_eq_tails, List.reverse_reverse]
  have htails (t : List Char) : ∃ ts, t.tails = t :: ts := by
    cases t <;> simp
  obtain ⟨ts, hts⟩ := htails s.reverse
  unfold parseFloat
  rw [hinits, hts, List.map_cons, List.reverse_reverse, List.findSome?_cons, h]

end Reading

/-- A value that is compared. -/
inductive Value where
  | undefined
  | null
  | number (x : ℚ)
  | text (s : List Char)
  deriving DecidableEq

namespace Value

/-- `Number(v)`; there is none for `NaN`. -/
def toNumber (double : ℚ → ℚ) : Value → Option ℚ
  | undefined => none
  | null => some 0
  | number x => some x
  | text s => Number double s

/-- `v < w`; `NaN` compares as false. -/
def lt (double : ℚ → ℚ) : Value → Value → Bool
  | text s, text t => s < t
  | v, w => (v.toNumber double).any fun x => (w.toNumber double).any fun y => x < y

/-- `v <= w`. -/
def le (double : ℚ → ℚ) : Value → Value → Bool
  | text s, text t => ¬ t < s
  | v, w => (v.toNumber double).any fun x => (w.toNumber double).any fun y => x ≤ y

end Value

end Text
