import Mathlib.Algebra.Order.Floor.Ring
import Mathlib.Data.Rat.Floor
import Mathlib.Tactic.Linarith
import Mathlib.Tactic.Positivity
import Mathlib.Tactic.FieldSimp

/-!
# `decimal(p, s)` columns

A number written to a `decimal(p, s)` column is rounded half away from zero to
`s` places and refused when it needs more than `p - s` digits before the point.
-/

namespace Store

/-- Round half away from zero to `scale` places. -/
def roundTo (scale : Nat) (q : ℚ) : ℚ :=
  if 0 ≤ q then ⌊q * 10 ^ scale + 1 / 2⌋ / 10 ^ scale
  else -(⌊-q * 10 ^ scale + 1 / 2⌋ / 10 ^ scale)

/-- The column `decimal(precision, scale)` can hold `q`. -/
def fits (precision scale : Nat) (q : ℚ) : Bool :=
  |roundTo scale q| < 10 ^ (precision - scale)

/-- `q` has at most `scale` places. -/
def IsDecimal (scale : Nat) (q : ℚ) : Prop := ∃ n : ℤ, q = n / 10 ^ scale

variable {scale : Nat} {p q : ℚ}

theorem isDecimal_roundTo (q : ℚ) : IsDecimal scale (roundTo scale q) := by
  unfold roundTo
  split
  · exact ⟨_, rfl⟩
  · exact ⟨-⌊-q * 10 ^ scale + 1 / 2⌋, by push_cast; ring⟩

theorem IsDecimal.zero : IsDecimal scale 0 := ⟨0, by simp⟩

theorem IsDecimal.natCast (n : ℕ) : IsDecimal scale n :=
  ⟨n * 10 ^ scale, by push_cast; field_simp⟩

theorem IsDecimal.sub (hp : IsDecimal scale p) (hq : IsDecimal scale q) :
    IsDecimal scale (p - q) := by
  obtain ⟨m, rfl⟩ := hp
  obtain ⟨n, rfl⟩ := hq
  exact ⟨m - n, by push_cast; ring⟩

theorem IsDecimal.add (hp : IsDecimal scale p) (hq : IsDecimal scale q) :
    IsDecimal scale (p + q) := by
  obtain ⟨m, rfl⟩ := hp
  obtain ⟨n, rfl⟩ := hq
  exact ⟨m + n, by push_cast; ring⟩

theorem IsDecimal.neg (hq : IsDecimal scale q) : IsDecimal scale (-q) := by
  rw [← zero_sub]
  exact IsDecimal.zero.sub hq

theorem IsDecimal.sum {l : List ℚ} (h : ∀ q ∈ l, IsDecimal scale q) : IsDecimal scale l.sum := by
  induction l with
  | nil => exact IsDecimal.zero
  | cons q l ih =>
    rw [List.forall_mem_cons] at h
    rw [List.sum_cons]
    exact h.1.add (ih h.2)

private theorem floor_add_half (n : ℤ) : ⌊(n : ℚ) + 1 / 2⌋ = n := by
  rw [Int.floor_eq_iff]
  constructor <;> linarith

/-- A number with at most `scale` places is stored as it is. -/
theorem IsDecimal.roundTo_eq (h : IsDecimal scale q) : roundTo scale q = q := by
  obtain ⟨n, rfl⟩ := h
  have h10 : (10 : ℚ) ^ scale ≠ 0 := by positivity
  unfold roundTo
  split
  · rw [div_mul_cancel₀ _ h10, floor_add_half]
  · have h : -((n : ℚ) / 10 ^ scale) * 10 ^ scale = (-n : ℤ) := by
      rw [neg_mul, div_mul_cancel₀ _ h10]
      push_cast
      rfl
    rw [h, floor_add_half]
    push_cast
    ring

/-- What a nullable column holds is stored as it is. -/
theorem map_roundTo (price : Option ℚ) :
    (price.map (roundTo scale)).map (roundTo scale) = price.map (roundTo scale) := by
  cases price with
  | none => rfl
  | some p => exact congrArg some (isDecimal_roundTo p).roundTo_eq

@[simp] theorem roundTo_zero : roundTo scale 0 = 0 := IsDecimal.zero.roundTo_eq

@[simp] theorem fits_zero (precision : Nat) : fits precision scale 0 = true := by
  simp [fits]

theorem roundTo_nonneg (h : 0 ≤ q) : 0 ≤ roundTo scale q := by
  rw [roundTo, if_pos h]
  have : (0 : ℚ) ≤ ⌊q * 10 ^ scale + 1 / 2⌋ := by
    exact_mod_cast Int.floor_nonneg.mpr (by positivity)
  positivity

theorem roundTo_neg (q : ℚ) : roundTo scale (-q) = -roundTo scale q := by
  rcases lt_trichotomy q 0 with hq | rfl | hq
  · rw [roundTo, roundTo, if_pos (by linarith), if_neg (by linarith), neg_neg]
  · simp
  · rw [roundTo, roundTo, if_neg (by linarith), if_pos hq.le, neg_neg]

private theorem roundTo_mono_nonneg (h0 : 0 ≤ p) (h : p ≤ q) :
    roundTo scale p ≤ roundTo scale q := by
  rw [roundTo, roundTo, if_pos h0, if_pos (h0.trans h)]
  have hf : ⌊p * 10 ^ scale + 1 / 2⌋ ≤ ⌊q * 10 ^ scale + 1 / 2⌋ :=
    Int.floor_le_floor (by gcongr)
  gcongr

theorem roundTo_mono (h : p ≤ q) : roundTo scale p ≤ roundTo scale q := by
  by_cases hp : 0 ≤ p
  · exact roundTo_mono_nonneg hp h
  · have hneg : 0 ≤ -p := by linarith
    have hp' : roundTo scale p ≤ 0 := by
      have hround : 0 ≤ roundTo scale (-p) := roundTo_nonneg hneg
      rw [roundTo_neg] at hround
      linarith
    by_cases hq : 0 ≤ q
    · exact hp'.trans (roundTo_nonneg hq)
    · have hle : roundTo scale (-q) ≤ roundTo scale (-p) :=
        roundTo_mono_nonneg (by linarith) (by linarith)
      rw [roundTo_neg, roundTo_neg] at hle
      linarith

theorem fits_roundTo (precision : Nat) (q : ℚ) :
    fits precision scale (roundTo scale q) = fits precision scale q := by
  simp [fits, (isDecimal_roundTo q).roundTo_eq]

/-- Below a number that fits, everything fits. -/
theorem fits_of_le {precision : Nat} (h0 : 0 ≤ p) (h : p ≤ q) (hq : fits precision scale q = true) :
    fits precision scale p = true := by
  simp only [fits, decide_eq_true_eq] at hq ⊢
  rw [abs_of_nonneg (roundTo_nonneg h0)]
  rw [abs_of_nonneg (roundTo_nonneg (h0.trans h))] at hq
  exact (roundTo_mono h).trans_lt hq

end Store
