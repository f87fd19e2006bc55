import Mathlib.Algebra.BigOperators.Group.List.Basic
import Mathlib.Algebra.Order.BigOperators.Group.List
import Mathlib.Data.List.Induction
import Mathlib.Data.List.Nodup
import Mathlib.Data.Rat.Defs
import Mathlib.Tactic.Linarith

/-!
# Quotas

Amounts put on keys and amounts drawn from them, as lists of entries. If every
draw stays within what is left on its key, then on each key, and on any set of
keys together, no more is drawn than was put there (`sum_draws_le`).
-/

namespace Store

variable {κ : Type} [DecidableEq κ]

/-- The total of the entries of key `k`. -/
def onKey (entries : List (κ × ℚ)) (k : κ) : ℚ :=
  ((entries.filter fun e => e.1 = k).map Prod.snd).sum

@[simp] theorem onKey_nil (k : κ) : onKey [] k = 0 := rfl

theorem onKey_cons (e : κ × ℚ) (entries : List (κ × ℚ)) (k : κ) :
    onKey (e :: entries) k = (if k = e.1 then e.2 else 0) + onKey entries k := by
  unfold onKey
  by_cases h : e.1 = k
  · simp [h]
  · simp [h, Ne.symm h]

theorem onKey_append (entries entries' : List (κ × ℚ)) (k : κ) :
    onKey (entries ++ entries') k = onKey entries k + onKey entries' k := by
  simp [onKey]

theorem onKey_nonneg {entries : List (κ × ℚ)} (h : ∀ e ∈ entries, 0 ≤ e.2) (k : κ) :
    0 ≤ onKey entries k := by
  apply List.sum_nonneg
  intro q hq
  obtain ⟨e, he, rfl⟩ := List.mem_map.mp hq
  exact h e (List.mem_of_mem_filter he)

theorem sum_ite_key {keys : List κ} (hnd : keys.Nodup) (k : κ) (q : ℚ) :
    (keys.map fun k' => if k' = k then q else 0).sum = if k ∈ keys then q else 0 := by
  induction keys with
  | nil => rfl
  | cons k' keys ih =>
    obtain ⟨hnot, hnd⟩ := List.nodup_cons.mp hnd
    rw [List.map_cons, List.sum_cons, ih hnd]
    by_cases h : k' = k
    · subst h
      simp [hnot]
    · simp [h, Ne.symm h]

/-- Key by key or entry by entry, the total is the same. -/
theorem sum_onKey {keys : List κ} (hnd : keys.Nodup) (entries : List (κ × ℚ)) :
    (keys.map (onKey entries)).sum =
      ((entries.filter fun e => e.1 ∈ keys).map Prod.snd).sum := by
  induction entries with
  | nil =>
    have hzero : onKey ([] : List (κ × ℚ)) = fun _ => 0 := funext onKey_nil
    simp [hzero]
  | cons e entries ih =>
    rw [funext (onKey_cons e entries), List.sum_map_add, sum_ite_key hnd, ih]
    by_cases h : e.1 ∈ keys
    · simp [h]
    · simp [h]

/-- Every draw stays within what the draws before it left on its key. -/
def Within (quota : κ → ℚ) (draws : List (κ × ℚ)) : Prop :=
  ∀ before d after, draws = before ++ d :: after → onKey before d.1 + d.2 ≤ quota d.1

theorem Within.onKey_le {quota : κ → ℚ} {draws : List (κ × ℚ)} (h : Within quota draws) {k : κ}
    (hk : 0 ≤ quota k) : onKey draws k ≤ quota k := by
  induction draws using List.reverseRecOn with
  | nil => exact hk
  | append_singleton draws d ih =>
    rw [onKey_append, onKey_cons, onKey_nil, add_zero]
    by_cases hd : k = d.1
    · rw [if_pos hd, hd]
      exact h draws d [] rfl
    · rw [if_neg hd, add_zero]
      apply ih
      intro before e after he
      exact h before e (after ++ [d]) (by rw [he]; simp)

/-- **Quotas hold.** On a set of keys no more is drawn than was put there. -/
theorem sum_draws_le {keys : List κ} (hnd : keys.Nodup) {puts draws : List (κ × ℚ)}
    (hputs : ∀ e ∈ puts, 0 ≤ e.2) (h : Within (onKey puts) draws) :
    ((draws.filter fun e => e.1 ∈ keys).map Prod.snd).sum ≤
      ((puts.filter fun e => e.1 ∈ keys).map Prod.snd).sum := by
  rw [← sum_onKey hnd, ← sum_onKey hnd]
  apply List.sum_le_sum
  intro k _
  exact h.onKey_le (onKey_nonneg hputs k)

end Store
