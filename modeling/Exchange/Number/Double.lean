import Mathlib.Algebra.Order.Floor.Ring
import Mathlib.Data.Int.Log
import Mathlib.Data.Rat.Floor
import Mathlib.Tactic.FieldSimp
import Mathlib.Tactic.Linarith
import Mathlib.Tactic.Positivity
import Mathlib.Tactic.Ring

/-!
# Doubles

The numbers of JavaScript: 53 binary digits and an exponent. Decimals of any length are
rounded to the nearest of them (`fl`), and what an operation gives is rounded again. A
double is printed as the shortest decimal that is rounded to it (`printed`).

Proved here: doubles are rounded to themselves (`fl_of_representable`, `fl_fl`), a printed
double is read back (`fl_printed`), rounding and printing keep the order (`fl_mono`,
`num_mono`) and do the same on either side of 0 (`fl_neg`, `num_neg`), and a difference of
two doubles is positive as the exact one is (`sub_pos`).
-/

namespace Double

/-- The nearest integer; of two the even one. -/
def nearest (q : ℚ) : ℤ :=
  if q - ⌊q⌋ < 1 / 2 then ⌊q⌋
  else if 1 / 2 < q - ⌊q⌋ then ⌊q⌋ + 1
  else if ⌊q⌋ % 2 = 0 then ⌊q⌋ else ⌊q⌋ + 1

/-- The exponent of the last of the 53 digits. -/
def exponent (q : ℚ) : ℤ := max (Int.log 2 |q| - 52) (-1074)

/-- The nearest double. -/
def fl (q : ℚ) : ℚ := nearest (q / 2 ^ exponent q) * 2 ^ exponent q

/-- Decimals with `digits + 1` digits near `x`, the nearest first. -/
def candidates (x : ℚ) (digits : ℕ) : List ℚ :=
  let e := Int.log 10 |x| - digits
  let q := x / 10 ^ e
  [nearest q, ⌊q⌋, ⌊q⌋ + 1].map fun (n : ℤ) => (n : ℚ) * 10 ^ e

/-- What a double is printed as. -/
def printed (x : ℚ) : ℚ :=
  (((List.range 17).flatMap (candidates x)).find? fun c => fl c = x).getD x

/-- A number that a program reads or computes, as it is printed. -/
def num (q : ℚ) : ℚ := printed (fl q)

theorem nearest_intCast (n : ℤ) : nearest n = n := by
  simp [nearest]

@[simp] theorem nearest_zero : nearest 0 = 0 := by
  exact_mod_cast nearest_intCast 0

theorem floor_le_nearest (q : ℚ) : ⌊q⌋ ≤ nearest q := by
  unfold nearest
  split_ifs <;> omega

theorem nearest_nonneg {q : ℚ} (h : 0 ≤ q) : 0 ≤ nearest q :=
  (Int.floor_nonneg.mpr h).trans (floor_le_nearest q)

@[simp] theorem fl_zero : fl 0 = 0 := by
  simp [fl]

theorem fl_nonneg {q : ℚ} (h : 0 ≤ q) : 0 ≤ fl q := by
  have hpow : (0 : ℚ) < 2 ^ exponent q := zpow_pos (by norm_num) _
  have hnearest : (0 : ℚ) ≤ nearest (q / 2 ^ exponent q) := by
    exact_mod_cast nearest_nonneg (div_nonneg h hpow.le)
  exact mul_nonneg hnearest hpow.le

theorem nearest_le_floor_add_one (q : ℚ) : nearest q ≤ ⌊q⌋ + 1 := by
  unfold nearest
  split_ifs <;> omega

/-- A number with 53 binary digits. -/
def Representable (x : ℚ) : Prop :=
  ∃ n e : ℤ, |n| ≤ 2 ^ 53 ∧ -1074 ≤ e ∧ x = n * 2 ^ e

theorem two_zpow_pos (e : ℤ) : (0 : ℚ) < 2 ^ e := zpow_pos (by norm_num) e

/-- A multiple of the last digit is rounded to itself. -/
theorem fl_of_multiple {x : ℚ} (n : ℤ) (h : x = n * 2 ^ exponent x) : fl x = x := by
  have hpow := two_zpow_pos (exponent x)
  have hdiv : x / 2 ^ exponent x = n := by
    rw [div_eq_iff hpow.ne']
    exact h
  rw [fl, hdiv, nearest_intCast]
  exact h.symm

/-- Of 53 digits all are carried where the exponent is above that of the last one. -/
theorem carried {n e : ℤ} (hn : |n| ≤ 2 ^ 53) (hn0 : n ≠ 0) (he : -1074 ≤ e)
    (hlt : e < exponent (n * 2 ^ e)) : exponent (n * 2 ^ e) = e + 1 ∧ |n| = 2 ^ 53 := by
  have hpow := two_zpow_pos e
  have habs : |(n : ℚ) * 2 ^ e| = |n| * 2 ^ e := by
    rw [abs_mul, abs_of_pos hpow, Int.cast_abs]
  have hpos : 0 < |(n : ℚ) * 2 ^ e| := abs_pos.mpr (mul_ne_zero (by exact_mod_cast hn0) hpow.ne')
  have htop : (2 : ℚ) ^ 53 * 2 ^ e = 2 ^ (53 + e) := by
    rw [zpow_add₀ (by norm_num)]
    norm_num
  have hle : |(n : ℚ) * 2 ^ e| ≤ 2 ^ (53 + e) := by
    rw [habs, ← htop]
    have hcast : ((|n| : ℤ) : ℚ) ≤ 2 ^ 53 := by exact_mod_cast hn
    gcongr
  have hlog : Int.log 2 |(n : ℚ) * 2 ^ e| ≤ 53 + e := by
    have hmono := Int.log_mono_right (b := 2) hpos hle
    rwa [show (2 : ℚ) = ((2 : ℕ) : ℚ) by norm_num, Int.log_zpow (by norm_num)] at hmono
  have hexponent : exponent (n * 2 ^ e) = e + 1 := by
    unfold exponent at hlt ⊢
    omega
  have hlogeq : Int.log 2 |(n : ℚ) * 2 ^ e| = 53 + e := by
    unfold exponent at hexponent
    omega
  have hge : (2 : ℚ) ^ (53 + e) ≤ |(n : ℚ) * 2 ^ e| := by
    have hself := Int.zpow_log_le_self (b := 2) (by norm_num) hpos
    rwa [hlogeq] at hself
  rw [habs, ← htop] at hge
  have hn' : (2 : ℚ) ^ 53 ≤ (|n| : ℤ) := le_of_mul_le_mul_right hge hpow
  exact ⟨hexponent, le_antisymm hn (by exact_mod_cast hn')⟩

/-- Doubles are rounded to themselves. -/
theorem fl_of_representable {x : ℚ} (h : Representable x) : fl x = x := by
  obtain ⟨n, e, hn, he, rfl⟩ := h
  rcases le_or_gt (exponent (n * 2 ^ e)) e with hle | hlt
  · obtain ⟨k, hk⟩ := Int.le.dest hle
    apply fl_of_multiple (n * 2 ^ k)
    have hsplit : (2 : ℚ) ^ e = 2 ^ k * 2 ^ exponent (n * 2 ^ e) := by
      rw [← zpow_natCast, ← zpow_add₀ (by norm_num)]
      congr 1
      omega
    push_cast
    rw [mul_assoc, ← hsplit]
  · rcases eq_or_ne n 0 with rfl | hn0
    · simp
    obtain ⟨hexponent, habs⟩ := carried hn hn0 he hlt
    have hcarry (m : ℤ) (hm : n = 2 * m) : fl (n * 2 ^ e) = n * 2 ^ e := by
      apply fl_of_multiple m
      rw [hexponent, hm, zpow_add₀ (by norm_num)]
      push_cast
      ring
    rcases abs_choice n with h | h
    · exact hcarry (2 ^ 52) (by omega)
    · exact hcarry (-2 ^ 52) (by omega)

theorem abs_lt_of_exponent (q : ℚ) : |q| < 2 ^ (exponent q + 53) := by
  have hself : |q| < (2 : ℚ) ^ (Int.log 2 |q| + 1) := by
    exact_mod_cast Int.lt_zpow_succ_log_self (b := 2) (by norm_num) |q|
  apply hself.trans_le
  apply zpow_le_zpow_right₀ (by norm_num)
  unfold exponent
  omega

/-- What is rounded has 53 digits. -/
theorem representable_fl (q : ℚ) : Representable (fl q) := by
  refine ⟨nearest (q / 2 ^ exponent q), exponent q, ?_, le_max_right _ _, rfl⟩
  have hpow := two_zpow_pos (exponent q)
  have hlt : |q / 2 ^ exponent q| < 2 ^ 53 := by
    rw [abs_div, abs_of_pos hpow, div_lt_iff₀ hpow]
    have hq := abs_lt_of_exponent q
    rw [add_comm, zpow_add₀ (by norm_num)] at hq
    exact_mod_cast hq
  obtain ⟨hlow, hhigh⟩ := abs_lt.mp hlt
  have hfloor : -2 ^ 53 ≤ ⌊q / 2 ^ exponent q⌋ := Int.le_floor.mpr (by exact_mod_cast hlow.le)
  have hfloor' : ⌊q / 2 ^ exponent q⌋ < 2 ^ 53 := Int.floor_lt.mpr (by exact_mod_cast hhigh)
  have hle := floor_le_nearest (q / 2 ^ exponent q)
  have hle' := nearest_le_floor_add_one (q / 2 ^ exponent q)
  exact abs_le.mpr ⟨by omega, by omega⟩

@[simp] theorem fl_fl (q : ℚ) : fl (fl q) = fl q := fl_of_representable (representable_fl q)

/-- A printed double is read back. -/
theorem fl_printed {x : ℚ} (h : fl x = x) : fl (printed x) = x := by
  unfold printed
  cases hfind : ((List.range 17).flatMap (candidates x)).find? fun c => fl c = x with
  | none => exact h
  | some c =>
    have hc := List.find?_some hfind
    exact of_decide_eq_true hc

@[simp] theorem fl_num (q : ℚ) : fl (num q) = fl q := fl_printed (fl_fl q)

@[simp] theorem num_num (q : ℚ) : num (num q) = num q := by
  rw [num, fl_num, ← num]

theorem printed_nonneg {x : ℚ} (h : 0 ≤ x) : 0 ≤ printed x := by
  unfold printed
  cases hfind : ((List.range 17).flatMap (candidates x)).find? fun c => fl c = x with
  | none => exact h
  | some c =>
    obtain ⟨digits, -, hc⟩ := List.mem_flatMap.mp (List.mem_of_find?_eq_some hfind)
    obtain ⟨n, hn, rfl⟩ := List.mem_map.mp hc
    have hpow : (0 : ℚ) < 10 ^ (Int.log 10 |x| - digits) := zpow_pos (by norm_num) _
    have hfloor := Int.floor_nonneg.mpr (div_nonneg h hpow.le)
    have hle := floor_le_nearest (x / 10 ^ (Int.log 10 |x| - digits))
    have hn0 : 0 ≤ n := by
      simp only [List.mem_cons, List.not_mem_nil, or_false] at hn
      omega
    exact mul_nonneg (by exact_mod_cast hn0) hpow.le

theorem num_nonneg {q : ℚ} (h : 0 ≤ q) : 0 ≤ num q := printed_nonneg (fl_nonneg h)

@[simp] theorem num_zero : num 0 = 0 := by
  decide +kernel

/-! ## Order -/

theorem nearest_mono {p q : ℚ} (h : p ≤ q) : nearest p ≤ nearest q := by
  have hp := nearest_le_floor_add_one p
  have hq := floor_le_nearest q
  rcases (Int.floor_le_floor h).eq_or_lt with heq | hlt
  · have hsub : p - ⌊p⌋ ≤ q - ⌊q⌋ := by
      rw [heq]
      linarith
    unfold nearest
    rw [heq] at hsub ⊢
    split_ifs <;> first | omega | (exfalso; linarith)
  · omega

theorem nearest_neg (q : ℚ) : nearest (-q) = -nearest q := by
  rcases (Int.floor_le q).eq_or_lt with heq | hlt
  · rw [← heq]
    have hneg := nearest_intCast (-⌊q⌋)
    push_cast at hneg
    rw [hneg, nearest_intCast]
  · have hlt' := Int.lt_floor_add_one q
    have hfloor : ⌊-q⌋ = -⌊q⌋ - 1 := by
      rw [Int.floor_eq_iff]
      push_cast
      constructor <;> linarith
    have hfrac : -q - ⌊-q⌋ = 1 - (q - ⌊q⌋) := by
      rw [hfloor]
      push_cast
      ring
    unfold nearest
    rw [hfrac, hfloor]
    split_ifs <;> first | omega | (exfalso; linarith)

theorem fl_neg (q : ℚ) : fl (-q) = -fl q := by
  have hexponent : exponent (-q) = exponent q := by
    simp [exponent]
  rw [fl, fl, hexponent, neg_div, nearest_neg]
  push_cast
  ring

theorem exponent_mono {p q : ℚ} (hp : 0 < p) (h : p ≤ q) : exponent p ≤ exponent q := by
  have hlog : Int.log 2 |p| ≤ Int.log 2 |q| :=
    Int.log_mono_right (abs_pos.mpr hp.ne') (abs_le_abs_of_nonneg hp.le h)
  unfold exponent
  omega

/-- Numbers above the smallest ones have all 53 digits. -/
theorem le_of_exponent {q : ℚ} (hq : 0 < q) (h : -1074 < exponent q) :
    (2 : ℚ) ^ (exponent q + 52) ≤ q := by
  have hlog : exponent q + 52 = Int.log 2 q := by
    unfold exponent at h ⊢
    rw [abs_of_pos hq] at h ⊢
    omega
  rw [hlog]
  exact_mod_cast Int.zpow_log_le_self (b := 2) (by norm_num) hq

theorem fl_le_of_exponent (q : ℚ) : fl q ≤ 2 ^ (exponent q + 53) := by
  have hpow := two_zpow_pos (exponent q)
  have hle : q / 2 ^ exponent q ≤ ((2 ^ 53 : ℤ) : ℚ) := by
    rw [div_le_iff₀ hpow]
    have hq := (le_abs_self q).trans (abs_lt_of_exponent q).le
    rw [add_comm, zpow_add₀ (by norm_num)] at hq
    exact_mod_cast hq
  have hnearest := nearest_mono hle
  rw [nearest_intCast] at hnearest
  rw [fl, add_comm, zpow_add₀ (by norm_num)]
  gcongr
  exact_mod_cast hnearest

theorem le_fl_of_exponent {q : ℚ} (hq : 0 < q) (h : -1074 < exponent q) :
    (2 : ℚ) ^ (exponent q + 52) ≤ fl q := by
  have hpow := two_zpow_pos (exponent q)
  have hle : ((2 ^ 52 : ℤ) : ℚ) ≤ q / 2 ^ exponent q := by
    rw [le_div_iff₀ hpow]
    have hq := le_of_exponent hq h
    rw [add_comm, zpow_add₀ (by norm_num)] at hq
    exact_mod_cast hq
  have hnearest := nearest_mono hle
  rw [nearest_intCast] at hnearest
  rw [fl, add_comm, zpow_add₀ (by norm_num)]
  gcongr
  exact_mod_cast hnearest

private theorem fl_mono_pos {p q : ℚ} (hp : 0 < p) (h : p ≤ q) : fl p ≤ fl q := by
  rcases (exponent_mono hp h).eq_or_lt with heq | hlt
  · have hpow := two_zpow_pos (exponent q)
    rw [fl, fl, heq]
    gcongr
    exact nearest_mono (by gcongr)
  · calc fl p ≤ 2 ^ (exponent p + 53) := fl_le_of_exponent p
      _ ≤ 2 ^ (exponent q + 52) := zpow_le_zpow_right₀ (by norm_num) (by omega)
      _ ≤ fl q := le_fl_of_exponent (hp.trans_le h) ((le_max_right _ _).trans_lt hlt)

/-- Rounding keeps the order. -/
theorem fl_mono {p q : ℚ} (h : p ≤ q) : fl p ≤ fl q := by
  rcases lt_trichotomy p 0 with hp | rfl | hp
  · rcases le_or_gt 0 q with hq | hq
    · have hneg : 0 ≤ fl (-p) := fl_nonneg (by linarith)
      rw [fl_neg] at hneg
      exact (by linarith : fl p ≤ 0).trans (fl_nonneg hq)
    · have hneg := fl_mono_pos (p := -q) (q := -p) (by linarith) (by linarith)
      rw [fl_neg, fl_neg] at hneg
      linarith
  · rw [fl_zero]
    exact fl_nonneg h
  · exact fl_mono_pos hp h

theorem lt_of_fl_lt {p q : ℚ} (h : fl p < fl q) : p < q := by
  by_contra hle
  exact absurd (fl_mono (not_lt.mp hle)) h.not_ge

/-- Printing keeps the order of doubles. -/
theorem num_mono {p q : ℚ} (h : fl p ≤ fl q) : num p ≤ num q := by
  rcases h.eq_or_lt with heq | hlt
  · rw [num, num, heq]
  · rw [← fl_num p, ← fl_num q] at hlt
    exact (lt_of_fl_lt hlt).le

/-- What is not below the smallest double is not rounded to zero. -/
theorem fl_pos {q : ℚ} (h : (2 : ℚ) ^ (-1074 : ℤ) ≤ q) : 0 < fl q := by
  have hq : 0 < q := (two_zpow_pos _).trans_le h
  have hpow := two_zpow_pos (exponent q)
  have hmin : -1074 ≤ exponent q := le_max_right _ _
  rcases hmin.eq_or_lt with heq | hlt
  · have hle : ((1 : ℤ) : ℚ) ≤ q / 2 ^ exponent q := by
      rw [le_div_iff₀ hpow, ← heq]
      simpa using h
    have hnearest := nearest_mono hle
    rw [nearest_intCast] at hnearest
    exact mul_pos (by exact_mod_cast hnearest) hpow
  · exact (two_zpow_pos _).trans_le (le_fl_of_exponent hq hlt)

/-- Two doubles are apart by at least the smallest one. -/
theorem Representable.le_sub {x y : ℚ} (hx : Representable x) (hy : Representable y) (h : y < x) :
    (2 : ℚ) ^ (-1074 : ℤ) ≤ x - y := by
  have hmultiple {z : ℚ} (hz : Representable z) : ∃ k : ℤ, z = k * 2 ^ (-1074 : ℤ) := by
    obtain ⟨n, e, -, he, rfl⟩ := hz
    obtain ⟨k, hk⟩ := Int.le.dest he
    refine ⟨n * 2 ^ k, ?_⟩
    rw [← hk, zpow_add₀ (by norm_num), zpow_natCast]
    generalize (2 : ℚ) ^ (-1074 : ℤ) = least
    push_cast
    ring
  obtain ⟨m, rfl⟩ := hmultiple hx
  obtain ⟨n, rfl⟩ := hmultiple hy
  have hpow := two_zpow_pos (-1074)
  generalize (2 : ℚ) ^ (-1074 : ℤ) = least at h hpow ⊢
  have hlt : n < m := by exact_mod_cast lt_of_mul_lt_mul_right h hpow.le
  have hone : (1 : ℚ) ≤ m - n := by
    have hle : (n : ℚ) + 1 ≤ m := by exact_mod_cast hlt
    linarith
  rw [← sub_mul]
  exact le_mul_of_one_le_left hpow.le hone

theorem num_pos {q : ℚ} (h : 0 < fl q) : 0 < num q := by
  apply lt_of_fl_lt
  rw [fl_zero, fl_num]
  exact h

/-! ## Signs -/

/-- Of the two whole numbers next to one, the nearer is tried first on either side of 0. -/
theorem find?_nearest_neg {q : ℚ} {p p' : ℤ → Bool} (hp : ∀ n, p' (-n) = p n)
    (hself : ∀ n : ℤ, q = n → p n = true) :
    [nearest (-q), ⌊-q⌋, ⌊-q⌋ + 1].find? p' =
      ([nearest q, ⌊q⌋, ⌊q⌋ + 1].find? p).map fun n => -n := by
  rw [nearest_neg]
  rcases (Int.floor_le q).eq_or_lt with heq | hlt
  · have hnearest : nearest q = ⌊q⌋ := by
      rw [← heq, nearest_intCast, Int.floor_intCast]
    have hfirst := hself ⌊q⌋ heq.symm
    have hfirst' := (hp ⌊q⌋).trans hfirst
    rw [hnearest, List.find?_cons_of_pos hfirst, List.find?_cons_of_pos hfirst']
    rfl
  · have hlt' := Int.lt_floor_add_one q
    have hfloor : ⌊-q⌋ = -(⌊q⌋ + 1) := by
      rw [Int.floor_eq_iff]
      push_cast
      constructor <;> linarith
    have hfloor' : ⌊-q⌋ + 1 = -⌊q⌋ := by omega
    rw [hfloor', hfloor]
    have hle := floor_le_nearest q
    have hge := nearest_le_floor_add_one q
    obtain hnearest | hnearest : nearest q = ⌊q⌋ ∨ nearest q = ⌊q⌋ + 1 := by omega
    · rw [hnearest]
      simp only [List.find?_cons, hp, List.find?_nil]
      cases p ⌊q⌋ <;> cases p (⌊q⌋ + 1) <;> rfl
    · rw [hnearest]
      simp only [List.find?_cons, hp, List.find?_nil]
      cases p ⌊q⌋ <;> cases p (⌊q⌋ + 1) <;> rfl

theorem printed_neg {x : ℚ} (h : fl x = x) : printed (-x) = -printed x := by
  have hneg : ((List.range 17).flatMap (candidates (-x))).find? (fun c => fl c = -x) =
      (((List.range 17).flatMap (candidates x)).find? fun c => fl c = x).map fun c => -c := by
    rw [List.find?_flatMap, List.find?_flatMap, List.map_findSome?]
    congr 1
    funext digits
    unfold candidates
    have hpow : (10 : ℚ) ^ (Int.log 10 |x| - (digits : ℤ)) ≠ 0 := zpow_ne_zero _ (by norm_num)
    simp only [abs_neg, neg_div, Function.comp, List.find?_map]
    rw [find?_nearest_neg (p := fun n => fl (n * 10 ^ (Int.log 10 |x| - (digits : ℤ))) = x),
      Option.map_map, Option.map_map]
    · congr 1
      funext n
      simp
    · intro n
      change decide (fl (((-n : ℤ) : ℚ) * _) = -x) = _
      rw [decide_eq_decide]
      push_cast
      rw [neg_mul, fl_neg, neg_inj]
    · intro n hn
      rw [decide_eq_true_eq, ← hn, div_mul_cancel₀ _ hpow, h]
  unfold printed
  rw [hneg]
  cases ((List.range 17).flatMap (candidates x)).find? fun c => fl c = x <;> rfl

theorem num_neg (q : ℚ) : num (-q) = -num q := by
  rw [num, fl_neg, printed_neg (fl_fl q), ← num]

/-! ## Operations -/

/-- `a - b`. -/
def sub (a b : ℚ) : ℚ := num (fl a - fl b)

/-- `a * b`. -/
def mul (a b : ℚ) : ℚ := num (fl a * fl b)

/-- A product with a larger double is larger. -/
theorem mul_mono {a b c : ℚ} (ha : 0 ≤ a) (h : fl b ≤ fl c) : mul a b ≤ mul a c :=
  num_mono (fl_mono (mul_le_mul_of_nonneg_left h (fl_nonneg ha)))

theorem mul_nonneg {a b : ℚ} (ha : 0 ≤ a) (hb : 0 ≤ b) : 0 ≤ mul a b :=
  num_nonneg (Rat.mul_nonneg (fl_nonneg ha) (fl_nonneg hb))

theorem mul_of_neg (a b : ℚ) : mul (-a) b = -mul a b := by
  rw [mul, fl_neg, neg_mul, num_neg, ← mul]

theorem sub_pos {a b : ℚ} (h : fl b < fl a) : 0 < sub a b :=
  num_pos (fl_pos ((representable_fl a).le_sub (representable_fl b) h))

theorem sub_nonneg {a b : ℚ} (h : fl b ≤ fl a) : 0 ≤ sub a b := by
  apply num_nonneg
  linarith

/-- What is taken away makes no number larger. -/
theorem fl_sub_le {a b : ℚ} (h : 0 ≤ b) : fl (sub a b) ≤ fl a := by
  rw [sub, fl_num, ← fl_fl a]
  apply fl_mono
  rw [fl_fl]
  linarith [fl_nonneg h]

end Double
