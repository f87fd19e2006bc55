import Exchange.Async.Pool
import Mathlib.Data.List.Count

/-!
# Bounded work

A program is `Within A n` if it awaits at most `n` calls as long as the answers satisfy
`A`. `Pool.ended_of_turns`: when the threads of a pool are safe for a relation that
keeps an invariant, and the invariant gives `A`, every thread that has had as many
turns as its bound has ended, whatever the others did in between.
-/

namespace Async

variable {Op : Type} {Res : Op → Type} {ε α β W : Type}

namespace Proc

/-- As long as the answers satisfy `A`, at most `n` calls are awaited. -/
def Within (awaits : Op → Bool) (A : (o : Op) → Except ε (Res o) → Prop) :
    Proc Op Res ε α → Nat → Prop
  | .pure _, _ => True
  | .throw _, _ => True
  | .op o k, n => ∃ m, n = m + (awaits o).toNat ∧ ∀ r, A o r → Within awaits A (k r) m

namespace Within

variable {awaits : Op → Bool} {A : (o : Op) → Except ε (Res o) → Prop}

theorem mono {p : Proc Op Res ε α} {n n' : Nat} (hp : Within awaits A p n) (h : n ≤ n') :
    Within awaits A p n' := by
  induction p generalizing n n' with
  | pure a => trivial
  | throw e => trivial
  | op o k ih =>
    obtain ⟨m, rfl, hk⟩ := hp
    exact ⟨n' - (awaits o).toNat, by omega, fun r hr => ih r (hk r hr) (by omega)⟩

theorem bind {p : Proc Op Res ε α} {f : α → Proc Op Res ε β} {n m : Nat}
    (hp : Within awaits A p n) (hf : ∀ a, Within awaits A (f a) m) :
    Within awaits A (p >>= f) (n + m) := by
  change Within awaits A (Proc.bind p f) (n + m)
  induction p generalizing n with
  | pure a => exact (hf a).mono (Nat.le_add_left m n)
  | throw e => trivial
  | op o k ih =>
    obtain ⟨i, rfl, hk⟩ := hp
    exact ⟨i + m, by omega, fun r hr => ih r (hk r hr)⟩

theorem tryCatch {p : Proc Op Res ε α} {f : ε → Proc Op Res ε α} {n m : Nat}
    (hp : Within awaits A p n) (hf : ∀ e, Within awaits A (f e) m) :
    Within awaits A (Proc.tryCatch p f) (n + m) := by
  induction p generalizing n with
  | pure a => trivial
  | throw e => exact (hf e).mono (Nat.le_add_left m n)
  | op o k ih =>
    obtain ⟨i, rfl, hk⟩ := hp
    exact ⟨i + m, by omega, fun r hr => ih r (hk r hr)⟩

/-- An awaited call. -/
theorem call (o : Op) : Within awaits A (Proc.call o : Proc Op Res ε (Res o)) 1 := by
  cases ho : awaits o with
  | true => exact ⟨0, by rw [ho]; rfl, fun r _ => by cases r <;> trivial⟩
  | false => exact ⟨1, by rw [ho]; rfl, fun r _ => by cases r <;> trivial⟩

/-- An operation that is not awaited, and what is known of its answer. -/
theorem own {o : Op} {f : Res o → Proc Op Res ε β} {n : Nat} (ho : awaits o = false)
    (hf : ∀ a, A o (.ok a) → Within awaits A (f a) n) :
    Within awaits A (Proc.call o >>= f) n := by
  refine ⟨n, by rw [ho]; rfl, fun r hr => ?_⟩
  cases r with
  | ok a => exact hf a hr
  | error e => trivial

end Within

end Proc

namespace Pool

open Proc

variable {H : Handler Op Res ε W} {awaits : Op → Bool} {R : W → W → Prop} {I : W → Prop}
  {A : (o : Op) → Except ε (Res o) → Prop}

/-- Running up to the next await uses none of the bound. -/
theorem within_settle (hI : ∀ w w', R w w' → I w → I w') (hA : ∀ o w, I w → A o (H o w).1)
    {p : Proc Op Res ε α} {Q : Except ε α → W → Prop} {w : W} {n : Nat}
    (hs : Safe H awaits R Q p w) (hw : I w) (hp : p.Within awaits A n) :
    (p.settle H awaits w).1.Within awaits A n := by
  induction p generalizing w n with
  | pure a => trivial
  | throw e => trivial
  | op o k ih =>
    unfold Proc.settle
    split
    · exact hp
    · next ho =>
      obtain ⟨m, rfl, hk⟩ := hp
      rw [Bool.not_eq_true] at ho
      obtain ⟨hR, hs'⟩ := hs w (.inl rfl)
      have hm := ih _ hs' (hI _ _ hR hw) (hk _ (hA o w hw))
      simpa [ho] using hm

/-- Thread `i` awaits at most `budget i` more calls. -/
def Budgeted (awaits : Op → Bool) (A : (o : Op) → Except ε (Res o) → Prop)
    (p : Pool Op Res ε α W) (budget : Nat → Nat) : Prop :=
  ∀ (i : Nat) (t : Proc Op Res ε α), p.threads[i]? = some t → t.Within awaits A (budget i)

/-- A turn of thread `i` uses up one call of its budget. -/
theorem step_budgeted (hI : ∀ w w', R w w' → I w → I w') (hA : ∀ o w, I w → A o (H o w).1)
    {p : Pool Op Res ε α W} {budget : Nat → Nat} (h : p.AllSafe H awaits R) (hw : I p.world)
    (hb : p.Budgeted awaits A budget) (i : Nat) :
    (p.step H awaits i).Budgeted awaits A fun j => budget j - if j = i then 1 else 0 := by
  unfold step
  split
  case h_1 o k hi =>
    have hmem := List.mem_of_getElem? hi
    obtain ⟨hparked, hs⟩ := h _ hmem
    obtain ⟨m, hm, hk⟩ := hb i _ hi
    obtain ⟨hR, hs'⟩ := hs _ (.inl rfl)
    have hcost : (awaits o).toNat = 1 := by rw [show awaits o = true from hparked]; rfl
    intro j t hj
    by_cases hij : i = j
    · subst hij
      rw [List.getElem?_set_self'] at hj
      obtain ⟨r, -, rfl⟩ := Option.map_eq_some_iff.mp hj
      have hrest := within_settle hI hA hs' (hI _ _ hR hw) (hk _ (hA o _ hw))
      have hspent : budget i - 1 = m := by omega
      simpa [hspent] using hrest
    · rw [List.getElem?_set_ne hij] at hj
      simpa [Ne.symm hij] using hb j t hj
  case h_2 hne =>
    intro j t hj
    by_cases hij : j = i
    · subst hij
      cases t with
      | pure a => trivial
      | throw e => trivial
      | op o k => exact absurd hj (hne o k)
    · simpa [hij] using hb j t hj

theorem run_budgeted (refl : ∀ a, R a a) (trans : ∀ a b c, R a b → R b c → R a c)
    (hI : ∀ w w', R w w' → I w → I w') (hA : ∀ o w, I w → A o (H o w).1)
    {p : Pool Op Res ε α W} {budget : Nat → Nat} (h : p.AllSafe H awaits R) (hw : I p.world)
    (hb : p.Budgeted awaits A budget) (schedule : List Nat) :
    (p.run H awaits schedule).Budgeted awaits A fun j => budget j - schedule.count j := by
  induction schedule generalizing p budget with
  | nil => simpa [run] using hb
  | cons i rest ih =>
    obtain ⟨hR, hs⟩ := step_each refl trans (fun _ _ _ _ _ _ => trivial) h.each i
    have hall : (p.step H awaits i).AllSafe H awaits R := by
      intro t ht
      obtain ⟨j, hj⟩ := List.getElem?_of_mem ht
      exact hs j t hj
    have hrest := ih hall (hI _ _ hR hw) (step_budgeted hI hA h hw hb i)
    intro j t hj
    have ht := hrest j t hj
    have hcount : budget j - (i :: rest).count j =
        (budget j - if j = i then 1 else 0) - rest.count j := by
      rw [List.count_cons]
      by_cases hji : j = i
      · subst hji
        simp
        omega
      · simp [hji, Ne.symm hji]
    simpa only [hcount] using ht

/-- **Bounded work.** Threads that have had as many turns as they may await calls have
ended. -/
theorem ended_of_turns (refl : ∀ a, R a a) (trans : ∀ a b c, R a b → R b c → R a c)
    (hI : ∀ w w', R w w' → I w → I w') (hA : ∀ o w, I w → A o (H o w).1)
    {p : Pool Op Res ε α W} {budget : Nat → Nat} (h : p.AllSafe H awaits R) (hw : I p.world)
    (hb : p.Budgeted awaits A budget) {schedule : List Nat}
    (hturns : ∀ i < p.threads.length, budget i ≤ schedule.count i) :
    (p.run H awaits schedule).Ended := by
  intro t ht
  obtain ⟨i, hi⟩ := List.getElem?_of_mem ht
  have hlt : i < p.threads.length := by
    rw [← length_run p schedule]
    exact (List.getElem?_eq_some_iff.mp hi).1
  have hleft := run_budgeted refl trans hI hA h hw hb schedule i t hi
  have hsafe := (run_each refl trans (fun _ _ _ _ _ _ => trivial) h.each schedule).2
  have hparked := (hsafe i t hi).1
  cases t with
  | pure a => exact .inl ⟨a, rfl⟩
  | throw e => exact .inr ⟨e, rfl⟩
  | op o k =>
    -- it still awaits a call, for which nothing of its budget is left
    obtain ⟨m, hm, -⟩ := hleft
    have hawaits : awaits o = true := hparked
    have hspent : budget i - schedule.count i = 0 := Nat.sub_eq_zero_of_le (hturns i hlt)
    simp only [hspent, hawaits, Bool.toNat_true] at hm
    omega

end Pool

end Async
