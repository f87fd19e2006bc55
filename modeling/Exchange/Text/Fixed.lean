import Exchange.Store.Decimal
import Exchange.Text.Numeral
import Mathlib.Data.Nat.Log

/-!
# The texts of decimal columns

A `decimal(p, s)` column comes back as a text with all its places: a sign, digits before the
point without leading zeros, and `s` digits behind it (`fixed`).

Proved here: the number of that text is the one that is stored (`value_column`), and texts
with equally many digits before the point compare as their numbers do (`fixed_lt_iff`).
-/

namespace Text

/-- A decimal, which may be below 0. -/
structure Signed where
  negative : Bool
  magnitude : Numeral
  deriving DecidableEq

namespace Signed

def text (b : Signed) : List Char :=
  if b.negative then '-' :: b.magnitude.text else b.magnitude.text

def value (b : Signed) : ℚ := if b.negative then -b.magnitude.value else b.magnitude.value

end Signed

/-- What mysql returns for a decimal column: there are digits before and after the point. -/
structure ColumnText where
  negative : Bool
  digits : List Digit
  places : List Digit
  digits_ne : digits ≠ []
  deriving DecidableEq

def ColumnText.signed (f : ColumnText) : Signed :=
  ⟨f.negative, f.digits, some f.places, .inl f.digits_ne⟩

/-! ## Digits of a number -/

/-- The last `k` digits. -/
def lastDigits : ℕ → ℕ → List Digit
  | 0, _ => []
  | k + 1, n => lastDigits k (n / 10) ++ [Fin.ofNat 10 n]

/-- All digits. -/
def digitsOf (n : ℕ) : List Digit := lastDigits (Nat.log 10 n + 1) n

@[simp] theorem length_lastDigits (k n : ℕ) : (lastDigits k n).length = k := by
  induction k generalizing n with
  | zero => rfl
  | succ k ih => simp [lastDigits, ih]

theorem natural_lastDigits (k n : ℕ) : natural (lastDigits k n) = n % 10 ^ k := by
  induction k generalizing n with
  | zero => simp [lastDigits, natural, Nat.mod_one]
  | succ k ih =>
    rw [lastDigits, natural_append, ih, pow_succ' 10 k, Nat.mod_mul]
    simp [natural, Fin.ofNat]
    ring

theorem natural_digitsOf (n : ℕ) : natural (digitsOf n) = n := by
  rw [digitsOf, natural_lastDigits]
  exact Nat.mod_eq_of_lt (Nat.lt_pow_succ_log_self (by norm_num) n)

theorem digitsOf_ne_nil (n : ℕ) : digitsOf n ≠ [] := by
  intro h
  have hlength := congrArg List.length h
  rw [digitsOf, length_lastDigits] at hlength
  cases hlength

/-- Behind a point digits are the number that they are, so many places further on. -/
theorem fraction_eq (ds : List Digit) : fraction ds = natural ds / 10 ^ ds.length := by
  induction ds with
  | nil => simp [fraction, natural]
  | cons d ds ih =>
    rw [fraction_cons, ih, natural, List.length_cons, pow_succ]
    push_cast
    field_simp

/-! ## The text of a column -/

/-- A number in units of the last place. -/
def units (scale : ℕ) (q : ℚ) : ℕ := ⌊|q| * 10 ^ scale + 1 / 2⌋₊

/-- What a `decimal(p, scale)` column returns. -/
def column (scale : ℕ) (q : ℚ) : ColumnText where
  negative := q < 0 ∧ units scale q ≠ 0
  digits := digitsOf (units scale q / 10 ^ scale)
  places := lastDigits scale (units scale q)
  digits_ne := digitsOf_ne_nil _

def fixed (scale : ℕ) (q : ℚ) : List Char := (column scale q).signed.text

theorem units_eq (scale : ℕ) (q : ℚ) :
    (units scale q : ℚ) / 10 ^ scale = |Store.roundTo scale q| := by
  have hfloor (p : ℚ) (hp : 0 ≤ p) :
      ((⌊p * 10 ^ scale + 1 / 2⌋₊ : ℕ) : ℚ) = ⌊p * 10 ^ scale + 1 / 2⌋ :=
    natCast_floor_eq_intCast_floor (by positivity)
  unfold units
  rcases le_or_gt 0 q with hq | hq
  · rw [abs_of_nonneg hq, hfloor q hq, abs_of_nonneg (Store.roundTo_nonneg hq), Store.roundTo,
      if_pos hq]
  · have hneg : 0 ≤ -q := by linarith
    have hround : 0 ≤ Store.roundTo scale (-q) := Store.roundTo_nonneg hneg
    rw [Store.roundTo_neg] at hround
    rw [abs_of_neg hq, hfloor (-q) hneg, abs_of_nonpos (by linarith), Store.roundTo,
      if_neg hq.not_ge, neg_neg]

theorem magnitude_column (scale : ℕ) (q : ℚ) :
    (column scale q).signed.magnitude.value = |Store.roundTo scale q| := by
  have h10 : (10 : ℚ) ^ scale ≠ 0 := by positivity
  rw [← units_eq, eq_div_iff h10]
  simp only [ColumnText.signed, column, Numeral.value, Option.getD_some, fraction_eq,
    natural_digitsOf, natural_lastDigits, length_lastDigits]
  rw [add_mul, div_mul_cancel₀ _ h10]
  exact_mod_cast Nat.div_add_mod' (units scale q) (10 ^ scale)

/-- The number of a column's text is the one that is stored. -/
theorem value_column (scale : ℕ) (q : ℚ) :
    (column scale q).signed.value = Store.roundTo scale q := by
  have hnegative : (column scale q).signed.negative = decide (q < 0 ∧ units scale q ≠ 0) := rfl
  rw [Signed.value, magnitude_column, hnegative]
  by_cases hq : q < 0
  · have hneg : 0 ≤ -q := by linarith
    have hround : 0 ≤ Store.roundTo scale (-q) := Store.roundTo_nonneg hneg
    rw [Store.roundTo_neg] at hround
    have habs : |Store.roundTo scale q| = -Store.roundTo scale q := abs_of_nonpos (by linarith)
    by_cases hzero : units scale q = 0
    · have h0 := units_eq scale q
      rw [hzero, Nat.cast_zero, zero_div] at h0
      simp [hzero, abs_eq_zero.mp h0.symm]
    · simp [hq, hzero, habs]
  · have hround : 0 ≤ Store.roundTo scale q := Store.roundTo_nonneg (not_lt.mp hq)
    simp [hq, abs_of_nonneg hround]

/-! ## The order of the texts -/

theorem fraction_lt_iff {ds es : List Digit} (h : ds.length = es.length) :
    fraction ds < fraction es ↔ natural ds < natural es := by
  rw [fraction_eq, fraction_eq, h, div_lt_div_iff_of_pos_right (by positivity)]
  exact Nat.cast_lt

theorem fraction_inj_iff {ds es : List Digit} (h : ds.length = es.length) :
    fraction ds = fraction es ↔ natural ds = natural es := by
  rw [fraction_eq, fraction_eq, h, div_left_inj' (by positivity)]
  exact Nat.cast_inj

/-- Of numbers with equally many digits before the point the digits decide, then the places. -/
theorem add_fraction_lt_iff {ds es fs gs : List Digit} (h : ds.length = es.length) :
    (natural ds + fraction fs : ℚ) < natural es + fraction gs ↔
      fraction ds < fraction es ∨ fraction ds = fraction es ∧ fraction fs < fraction gs := by
  have hfs := fraction_nonneg fs
  have hfs' := fraction_lt_one fs
  have hgs := fraction_nonneg gs
  have hgs' := fraction_lt_one gs
  rw [fraction_lt_iff h, fraction_inj_iff h]
  rcases lt_trichotomy (natural ds) (natural es) with hlt | heq | hlt
  · have hcast : (natural ds : ℚ) + 1 ≤ natural es := by exact_mod_cast hlt
    exact iff_of_true (by linarith) (.inl hlt)
  · simp [heq]
  · have hcast : (natural es : ℚ) + 1 ≤ natural ds := by exact_mod_cast hlt
    refine iff_of_false (by linarith) ?_
    rintro (h' | ⟨h', -⟩) <;> omega

/-- With equally many digits before the point, and no fewer places in the first, texts
compare as numbers do. -/
theorem Numeral.text_lt_iff {m n : Numeral} {fs gs : List Digit}
    (hdigits : m.digits.length = n.digits.length) (hm : m.places = some fs)
    (hn : n.places = some gs) (hplaces : gs.length ≤ fs.length) :
    m.text < n.text ↔ m.value < n.value := by
  have hpointed : pointed m.places < pointed n.places ↔ fraction fs < fraction gs := by
    have hiff := pointed_lt_iff low_nil m.places gs
    rw [List.append_nil] at hiff
    rw [hn]
    change _ < '.' :: chars gs ↔ _
    rw [hiff, hm]
    simp [hplaces.not_gt]
  rw [text, text, chars_lt_iff (low_pointed _) (low_pointed _), hpointed, value, value, hm, hn,
    Option.getD_some, Option.getD_some, add_fraction_lt_iff hdigits]
  simp [hdigits]

/-- The digits before the point. -/
def wholeDigits (scale : ℕ) (q : ℚ) : ℕ := (column scale q).digits.length

/-- Numbers with equally many digits before the point: their texts compare as they do. -/
theorem fixed_lt_iff {scale : ℕ} {p q : ℚ} (hp : 0 ≤ p) (hq : 0 ≤ q)
    (h : wholeDigits scale p = wholeDigits scale q) :
    fixed scale p < fixed scale q ↔ Store.roundTo scale p < Store.roundTo scale q := by
  have hsign (r : ℚ) (hr : 0 ≤ r) : (column scale r).signed.negative = false := by
    simp [ColumnText.signed, column, hr.not_gt]
  have hvalue (r : ℚ) (hr : 0 ≤ r) :
      (column scale r).signed.magnitude.value = Store.roundTo scale r := by
    rw [magnitude_column, abs_of_nonneg (Store.roundTo_nonneg hr)]
  have hplaces : (column scale q).places.length ≤ (column scale p).places.length := by
    simp [column]
  rw [fixed, fixed, Signed.text, Signed.text, hsign p hp, hsign q hq, ← hvalue p hp, ← hvalue q hq]
  exact Numeral.text_lt_iff (m := (column scale p).signed.magnitude)
    (n := (column scale q).signed.magnitude) h rfl rfl hplaces

end Text
