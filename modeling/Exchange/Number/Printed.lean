import Exchange.Number.Double
import Exchange.Store.Decimal

/-!
# Decimals as doubles

A decimal with eight places that is read as a double and printed again has eight places or,
if it is too large for that, stays the same double when it is rounded to them. So a number
that a program computes, and that is not larger than the decimal as a double, is not larger
either when it is written to a column (`fl_roundTo_num_le`).
-/

namespace Double

open Store

/-! ## Candidates -/

/-- A printed double has no more digits than a candidate that is read back. -/
theorem printed_mem {x c : ℚ} {digits : ℕ} (hdigits : digits < 17) (hc : c ∈ candidates x digits)
    (hfl : fl c = x) : ∃ d ≤ digits, printed x ∈ candidates x d := by
  have hfound : ∃ c' ∈ candidates x digits, decide (fl c' = x) = true := ⟨c, hc, decide_eq_true hfl⟩
  obtain ⟨found, hsome⟩ : ∃ found, (List.range 17).findSome?
      (fun d => (candidates x d).find? fun c => fl c = x) = some found := by
    rw [← Option.isSome_iff_exists, List.findSome?_isSome_iff]
    exact ⟨digits, List.mem_range.mpr hdigits, List.find?_isSome.mpr hfound⟩
  have hprinted : printed x = found := by
    rw [printed, List.find?_flatMap, hsome, Option.getD_some]
  obtain ⟨before, d, after, hrange, hd, hnone⟩ := List.findSome?_eq_some_iff.mp hsome
  refine ⟨d, ?_, hprinted ▸ List.mem_of_find?_eq_some hd⟩
  -- nothing is found with fewer digits than `d`
  have hmem : digits ∈ before ++ d :: after := hrange ▸ List.mem_range.mpr hdigits
  have hsorted : (before ++ d :: after).Pairwise (· < ·) := hrange ▸ List.pairwise_lt_range
  rcases List.mem_append.mp hmem with hbefore | hafter
  · obtain ⟨c', hc', hread⟩ := hfound
    exact absurd hread (List.find?_eq_none.mp (hnone digits hbefore) c' hc')
  · rcases List.mem_cons.mp hafter with rfl | hafter
    · exact le_refl _
    · exact (List.rel_of_pairwise_cons (List.pairwise_append.mp hsorted).2.1 hafter).le

theorem printed_eq_self {x : ℚ} (h : ∀ d < 17, ∀ c ∈ candidates x d, fl c ≠ x) :
    printed x = x := by
  rw [printed, List.find?_eq_none.mpr, Option.getD_none]
  intro c hc
  obtain ⟨d, hd, hmem⟩ := List.mem_flatMap.mp hc
  simpa using h d (List.mem_range.mp hd) c hmem

theorem isDecimal_candidate {scale : ℕ} {x c : ℚ} {d : ℕ} (hc : c ∈ candidates x d)
    (h : -(scale : ℤ) ≤ Int.log 10 |x| - d) : IsDecimal scale c := by
  obtain ⟨n, -, rfl⟩ := List.mem_map.mp hc
  obtain ⟨k, hk⟩ := Int.le.dest h
  refine ⟨n * 10 ^ k, ?_⟩
  rw [← hk, zpow_add₀ (by norm_num), zpow_neg, zpow_natCast, zpow_natCast]
  push_cast
  ring

/-- Between a decimal and its double there is a candidate with as many places. -/
theorem candidate_of_isDecimal {scale : ℕ} {a : ℚ} (ha : IsDecimal scale a) {d : ℕ}
    (h : Int.log 10 |fl a| - d = -(scale : ℤ)) : ∃ c ∈ candidates (fl a) d, fl c = fl a := by
  obtain ⟨n, rfl⟩ := ha
  generalize hx : fl ((n : ℚ) / 10 ^ scale) = x at h ⊢
  have hpow : (0 : ℚ) < 10 ^ scale := by positivity
  have hunit : (10 : ℚ) ^ (-(scale : ℤ)) = 1 / 10 ^ scale := by
    rw [zpow_neg, zpow_natCast, one_div]
  have hq : x / 10 ^ (Int.log 10 |x| - (d : ℤ)) = x * 10 ^ scale := by
    rw [h, hunit]
    field_simp
  have hread : fl x = x := by rw [← hx, fl_fl]
  have hmem {m : ℤ} (hm : m = ⌊x * 10 ^ scale⌋ ∨ m = ⌊x * 10 ^ scale⌋ + 1) :
      (m : ℚ) / 10 ^ scale ∈ candidates x d := by
    simp only [candidates, hq]
    apply List.mem_map.mpr
    refine ⟨m, ?_, ?_⟩
    · rcases hm with rfl | rfl <;> simp
    · rw [h, hunit, mul_one_div]
  rcases le_or_gt ((n : ℚ) / 10 ^ scale) x with hle | hlt
  · refine ⟨_, hmem (.inl rfl), le_antisymm ?_ ?_⟩
    · conv_rhs => rw [← hread]
      apply fl_mono
      rw [div_le_iff₀ hpow]
      exact Int.floor_le _
    · rw [← hx]
      apply fl_mono
      rw [hx]
      gcongr
      exact Int.le_floor.mpr ((div_le_iff₀ hpow).mp hle)
  · refine ⟨_, hmem (.inr rfl), le_antisymm ?_ ?_⟩
    · rw [← hx]
      apply fl_mono
      rw [hx]
      gcongr
      have hfloor : ⌊x * 10 ^ scale⌋ < n := Int.floor_lt.mpr ((lt_div_iff₀ hpow).mp hlt)
      exact_mod_cast hfloor
    · conv_lhs => rw [← hread]
      apply fl_mono
      rw [le_div_iff₀ hpow]
      push_cast
      exact (Int.lt_floor_add_one _).le

/-! ## Gaps -/

/-- What is less than half a step above a double is not rounded up. -/
theorem fl_le_of_lt {x y : ℚ} (hx : fl x = x) (h0 : 0 < x) (h : y < x + 2 ^ exponent x / 2) :
    fl y ≤ x := by
  rcases le_or_gt y x with hle | hlt
  · exact (fl_mono hle).trans_eq hx
  have hpow := two_zpow_pos (exponent x)
  obtain ⟨n, hn⟩ : ∃ n : ℤ, x = n * 2 ^ exponent x := ⟨_, hx.symm⟩
  have hquot : x / 2 ^ exponent x = n := by
    rw [div_eq_iff hpow.ne']
    exact hn
  have hfull : n + 1 ≤ 2 ^ 53 := by
    have hbound := abs_lt_of_exponent x
    rw [abs_of_pos h0, add_comm, zpow_add₀ (by norm_num), ← div_lt_iff₀ hpow, hquot] at hbound
    have hlt : n < 2 ^ 53 := by exact_mod_cast hbound
    omega
  have hy : y / 2 ^ exponent x < n + 1 / 2 := by
    rw [div_lt_iff₀ hpow, add_mul, ← hn]
    linarith
  have hexponent : exponent y = exponent x := by
    apply le_antisymm _ (exponent_mono h0 hlt.le)
    have hlog : Int.log 2 |y| < exponent x + 53 := by
      have hy0 : 0 < y := h0.trans hlt
      rw [abs_of_pos hy0]
      have hself : (2 : ℚ) ^ Int.log 2 y ≤ y := by
        exact_mod_cast Int.zpow_log_le_self (b := 2) (by norm_num) hy0
      have htop : y < (2 : ℚ) ^ (exponent x + 53) := by
        rw [add_comm, zpow_add₀ (by norm_num), ← div_lt_iff₀ hpow]
        have hcast : (n : ℚ) + 1 ≤ 2 ^ 53 := by exact_mod_cast hfull
        exact hy.trans (by linarith)
      exact (zpow_lt_zpow_iff_right₀ (by norm_num)).mp (hself.trans_lt htop)
    have hmin : -1074 ≤ exponent x := le_max_right _ _
    unfold exponent at hlog hmin ⊢
    omega
  have hnearest : nearest (y / 2 ^ exponent x) ≤ n := by
    have hfloor : ⌊y / 2 ^ exponent x⌋ < n + 1 := by
      apply Int.floor_lt.mpr
      push_cast
      linarith
    rcases (Int.lt_add_one_iff.mp hfloor).eq_or_lt with heq | hbelow
    · unfold nearest
      rw [if_pos (by rw [heq]; linarith), heq]
    · exact (nearest_le_floor_add_one _).trans hbelow
  rw [fl, hexponent]
  calc (nearest (y / 2 ^ exponent x) : ℚ) * 2 ^ exponent x
      ≤ n * 2 ^ exponent x := by gcongr
    _ = x := hn.symm

theorem roundTo_le_add (scale : ℕ) {q : ℚ} (h : 0 ≤ q) :
    roundTo scale q ≤ q + 1 / 2 / 10 ^ scale := by
  have hpow : (0 : ℚ) < 10 ^ scale := by positivity
  rw [roundTo, if_pos h, div_le_iff₀ hpow, add_mul, div_mul_cancel₀ _ hpow.ne']
  exact Int.floor_le _

/-! ## Eight places -/

/-- A double of at least `10 ^ 9` stays the same when it is rounded to eight places. -/
theorem fl_roundTo_large {x : ℚ} (hx : fl x = x) (h : (10 : ℚ) ^ (9 : ℤ) ≤ x) :
    fl (roundTo 8 x) ≤ x := by
  have h0 : 0 < x := (by norm_num : (0 : ℚ) < 10 ^ (9 : ℤ)).trans_le h
  apply fl_le_of_lt hx h0
  apply (roundTo_le_add 8 h0.le).trans_lt
  have hlog : 29 ≤ Int.log 2 |x| := by
    rw [abs_of_pos h0]
    apply (Int.zpow_le_iff_le_log (b := 2) (by norm_num) h0).mp
    apply le_trans _ h
    norm_num
  have hstep : (2 : ℚ) ^ (-23 : ℤ) ≤ 2 ^ exponent x := by
    apply zpow_le_zpow_right₀ (by norm_num)
    unfold exponent
    omega
  have hunit : (1 : ℚ) / 2 / 10 ^ 8 < 2 ^ (-23 : ℤ) / 2 := by norm_num
  generalize (2 : ℚ) ^ (-23 : ℤ) = least at hstep hunit
  generalize (2 : ℚ) ^ exponent x = step at hstep
  linarith

/-- The double of a decimal with eight places, printed and rounded to them. -/
theorem fl_roundTo_printed_le {a : ℚ} (ha : IsDecimal 8 a) (h0 : 0 < a) :
    fl (roundTo 8 (printed (fl a))) ≤ fl a := by
  have hleast : (10 : ℚ) ^ (-8 : ℤ) ≤ fl a := by
    have hunit : (10 : ℚ) ^ (-8 : ℤ) ≤ fl (1 / 10 ^ 8) := by decide +kernel
    apply hunit.trans (fl_mono _)
    obtain ⟨n, rfl⟩ := ha
    have hn : 0 < n := by
      by_contra hle
      have hneg : ((n : ℤ) : ℚ) ≤ 0 := by exact_mod_cast not_lt.mp hle
      exact absurd h0 (not_lt.mpr (div_nonpos_of_nonpos_of_nonneg hneg (by positivity)))
    have hone : (1 : ℚ) ≤ n := by exact_mod_cast hn
    gcongr
  have hpos : 0 < fl a := (by norm_num : (0 : ℚ) < 10 ^ (-8 : ℤ)).trans_le hleast
  have hlog : -8 ≤ Int.log 10 |fl a| := by
    rw [abs_of_pos hpos]
    exact (Int.zpow_le_iff_le_log (b := 10) (by norm_num) hpos).mp hleast
  have hdecimal {d : ℕ} (hd : (d : ℤ) ≤ Int.log 10 |fl a| + 8)
      (hmem : printed (fl a) ∈ candidates (fl a) d) : fl (roundTo 8 (printed (fl a))) ≤ fl a := by
    have hplaces : IsDecimal 8 (printed (fl a)) := isDecimal_candidate hmem (by push_cast; omega)
    rw [hplaces.roundTo_eq, fl_printed (fl_fl a)]
  rcases le_or_gt (Int.log 10 |fl a|) 8 with hsmall | hlarge
  · obtain ⟨d, hd⟩ := Int.eq_ofNat_of_zero_le (by omega : 0 ≤ Int.log 10 |fl a| + 8)
    obtain ⟨c, hc, hread⟩ := candidate_of_isDecimal ha (d := d) (by push_cast; omega)
    obtain ⟨d', hle, hmem⟩ := printed_mem (by omega) hc hread
    exact hdecimal (by omega) hmem
  · by_cases hfound : ∃ d < 17, ∃ c ∈ candidates (fl a) d, fl c = fl a
    · obtain ⟨d, hd, c, hc, hread⟩ := hfound
      obtain ⟨d', hle, hmem⟩ := printed_mem hd hc hread
      exact hdecimal (by omega) hmem
    · rw [printed_eq_self (by push Not at hfound; exact hfound)]
      apply fl_roundTo_large (fl_fl a)
      rw [abs_of_pos hpos] at hlarge
      exact_mod_cast (Int.zpow_le_iff_le_log (b := 10) (by norm_num) hpos).mpr hlarge

/-- A number that a program computes and that is not larger than the decimal `a`, as doubles,
is not larger when it is written to eight places. -/
theorem fl_roundTo_num_le {a y : ℚ} (ha : IsDecimal 8 a) (h0 : 0 ≤ a) (h : fl (num y) ≤ fl a) :
    fl (roundTo 8 (num y)) ≤ fl a := by
  rcases h.eq_or_lt with heq | hlt
  · rcases h0.eq_or_lt with rfl | hpos
    · have hzero : num y = 0 := by
        rw [← num_num y, num, heq, ← num, num_zero]
      rw [hzero, roundTo_zero]
    · rw [fl_num] at heq
      rw [num, heq]
      exact fl_roundTo_printed_le ha hpos
  · rw [← ha.roundTo_eq]
    exact fl_mono (roundTo_mono (lt_of_fl_lt hlt).le)

end Double
