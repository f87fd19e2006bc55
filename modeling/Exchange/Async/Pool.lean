import Exchange.Async.Proc
import Mathlib.Logic.Relation

/-!
# Interleaving at await points

A pool runs several programs over one world. Between two awaits a program runs
without interruption (`settle`); at an await any program may take the next step
(`Pool.step`), so a schedule is a list of thread numbers.

`Safe R Q p w` is the rely-guarantee reading of `p` at `w`: whatever the other
threads do within `R` at the await points of `p`, every operation of `p` stays
within `R`, and `p` ends in `Q`. The rules `Safe.bind`, `Safe.tryCatch` follow
the program text, and `Pool.run_each` concludes: threads that are safe for the
same `R` change the world within `R` under every schedule, and each that has
ended has ended as its `Q` says.
-/

namespace Async

variable {Op : Type} {Res : Op → Type} {ε α β W : Type}

namespace Proc

/-- Run `p` up to its next await. -/
def settle (H : Handler Op Res ε W) (awaits : Op → Bool) :
    Proc Op Res ε α → W → Proc Op Res ε α × W
  | .pure a, w => (.pure a, w)
  | .throw e, w => (.throw e, w)
  | .op o k, w =>
      if awaits o then (.op o k, w) else settle H awaits (k (H o w).1) (H o w).2

/-- `p` has ended or stands at an await. -/
def Parked (awaits : Op → Bool) : Proc Op Res ε α → Prop
  | .op o _ => awaits o = true
  | _ => True

theorem parked_settle (H : Handler Op Res ε W) (awaits : Op → Bool) (p : Proc Op Res ε α)
    (w : W) : (settle H awaits p w).1.Parked awaits := by
  induction p generalizing w with
  | pure a => trivial
  | throw e => trivial
  | op o k ih =>
    unfold settle
    split
    · assumption
    · exact ih _ _

/-- Rely-guarantee reading of a program: interference within `R` at its awaits,
every operation within `R`, outcome in `Q`. -/
def Safe (H : Handler Op Res ε W) (awaits : Op → Bool) (R : W → W → Prop)
    (Q : Except ε α → W → Prop) : Proc Op Res ε α → W → Prop
  | .pure a, w => Q (.ok a) w
  | .throw e, w => Q (.error e) w
  | .op o k, w => ∀ w', w' = w ∨ awaits o = true ∧ R w w' →
      R w' (H o w').2 ∧ Safe H awaits R Q (k (H o w').1) (H o w').2

namespace Safe

variable {H : Handler Op Res ε W} {awaits : Op → Bool} {R : W → W → Prop} {w w' : W}

theorem bind {p : Proc Op Res ε α} {f : α → Proc Op Res ε β} {Q : Except ε β → W → Prop}
    (h : Safe H awaits R (fun
      | .ok a => Safe H awaits R Q (f a)
      | .error e => Q (.error e)) p w) :
    Safe H awaits R Q (p >>= f) w := by
  change Safe H awaits R Q (Proc.bind p f) w
  induction p generalizing w with
  | pure a => exact h
  | throw e => exact h
  | op o k ih => exact fun w' hw => ⟨(h w' hw).1, ih _ (h w' hw).2⟩

theorem tryCatch {p : Proc Op Res ε α} {f : ε → Proc Op Res ε α} {Q : Except ε α → W → Prop}
    (h : Safe H awaits R (fun
      | .ok a => Q (.ok a)
      | .error e => Safe H awaits R Q (f e)) p w) :
    Safe H awaits R Q (Proc.tryCatch p f) w := by
  induction p generalizing w with
  | pure a => exact h
  | throw e => exact h
  | op o k ih => exact fun w' hw => ⟨(h w' hw).1, ih _ (h w' hw).2⟩

theorem mono {p : Proc Op Res ε α} {Q Q' : Except ε α → W → Prop}
    (h : Safe H awaits R Q p w) (hQ : ∀ r w', Q r w' → Q' r w') : Safe H awaits R Q' p w := by
  induction p generalizing w with
  | pure a => exact hQ _ _ h
  | throw e => exact hQ _ _ h
  | op o k ih => exact fun w' hw => ⟨(h w' hw).1, ih _ (h w' hw).2⟩

/-- One part after the other. -/
theorem seq {p : Proc Op Res ε α} {f : α → Proc Op Res ε β} {Q' : Except ε α → W → Prop}
    {Q : Except ε β → W → Prop} (hp : Safe H awaits R Q' p w)
    (he : ∀ e w', Q' (.error e) w' → Q (.error e) w')
    (hk : ∀ a w', Q' (.ok a) w' → Safe H awaits R Q (f a) w') :
    Safe H awaits R Q (p >>= f) w := by
  apply bind
  apply mono hp
  rintro (e | a) w' h
  · exact he e w' h
  · exact hk a w' h

/-- The same, when nothing is asked of the outcome. -/
theorem seq_any {p : Proc Op Res ε α} {f : α → Proc Op Res ε β} {Q' : Except ε α → W → Prop}
    (hp : Safe H awaits R Q' p w)
    (hk : ∀ a w', Q' (.ok a) w' → Safe H awaits R (fun _ _ => True) (f a) w') :
    Safe H awaits R (fun _ _ => True) (p >>= f) w :=
  seq hp (fun _ _ _ => trivial) hk

/-- The same for what catches an error. -/
theorem tryCatch_any {p : Proc Op Res ε α} {f : ε → Proc Op Res ε α}
    (hp : Safe H awaits R (fun _ _ => True) p w)
    (hf : ∀ e w', Safe H awaits R (fun _ _ => True) (f e) w') :
    Safe H awaits R (fun _ _ => True) (Proc.tryCatch p f) w := by
  apply tryCatch
  apply mono hp
  rintro (e | a) w' -
  · exact hf e w'
  · trivial

theorem call {o : Op} {Q : Except ε (Res o) → W → Prop}
    (h : ∀ w', w' = w ∨ awaits o = true ∧ R w w' → R w' (H o w').2 ∧ Q (H o w').1 (H o w').2) :
    Safe H awaits R Q (Proc.call o) w := by
  intro w' hw
  obtain ⟨hR, hq⟩ := h w' hw
  refine ⟨hR, ?_⟩
  cases hr : (H o w').1 <;> rw [hr] at hq <;> exact hq

/-- A call at which the thread knows `I`, which no step within `R` falsifies. -/
theorem call_of_stable {o : Op} {I : W → Prop} {Q : Except ε (Res o) → W → Prop}
    (stable : ∀ a b, R a b → I a → I b) (hI : I w)
    (h : ∀ w', I w' → R w' (H o w').2 ∧ Q (H o w').1 (H o w').2) :
    Safe H awaits R Q (Proc.call o) w := by
  apply call
  rintro w' (rfl | ⟨-, hR⟩)
  · exact h w' hI
  · exact h w' (stable w w' hR hI)

/-- A parked thread stays safe while others step within `R`, if they keep its outcome. -/
theorem stable (trans : ∀ a b c, R a b → R b c → R a c) {p : Proc Op Res ε α}
    {Q : Except ε α → W → Prop} (hQ : ∀ r a b, R a b → Q r a → Q r b)
    (h : Safe H awaits R Q p w) (hp : p.Parked awaits) (hR : R w w') :
    Safe H awaits R Q p w' := by
  cases p with
  | pure a => exact hQ _ _ _ hR h
  | throw e => exact hQ _ _ _ hR h
  | op o k =>
    rintro w'' (rfl | ⟨ha, hR'⟩)
    · exact h _ (.inr ⟨hp, hR⟩)
    · exact h _ (.inr ⟨ha, trans _ _ _ hR hR'⟩)

/-- Running up to the next await stays within `R` and keeps the thread safe. -/
theorem settle (refl : ∀ a, R a a) (trans : ∀ a b c, R a b → R b c → R a c)
    {p : Proc Op Res ε α} {Q : Except ε α → W → Prop} (h : Safe H awaits R Q p w) :
    R w (p.settle H awaits w).2 ∧
      Safe H awaits R Q (p.settle H awaits w).1 (p.settle H awaits w).2 := by
  induction p generalizing w with
  | pure a => exact ⟨refl _, h⟩
  | throw e => exact ⟨refl _, h⟩
  | op o k ih =>
    unfold Proc.settle
    split
    · exact ⟨refl _, h⟩
    · obtain ⟨hR, hs⟩ := h w (.inl rfl)
      exact ⟨trans _ _ _ hR (ih _ hs).1, (ih _ hs).2⟩

end Safe

end Proc

/-! ## Pools -/

/-- Programs over one world, each ended or standing at an await. -/
structure Pool (Op : Type) (Res : Op → Type) (ε α W : Type) where
  world : W
  threads : List (Proc Op Res ε α)

namespace Pool

open Proc

/-- Thread `i` performs the operation it awaits and runs up to its next await. -/
def step (H : Handler Op Res ε W) (awaits : Op → Bool) (p : Pool Op Res ε α W) (i : Nat) :
    Pool Op Res ε α W :=
  match p.threads[i]? with
  | some (.op o k) =>
      let q := (k (H o p.world).1).settle H awaits (H o p.world).2
      ⟨q.2, p.threads.set i q.1⟩
  | _ => p

def run (H : Handler Op Res ε W) (awaits : Op → Bool) (p : Pool Op Res ε α W)
    (schedule : List Nat) : Pool Op Res ε α W :=
  schedule.foldl (step H awaits) p

/-- Every thread stands at an await, is safe for `R`, and thread `i` ends as `Q i` says. -/
def EachSafe (H : Handler Op Res ε W) (awaits : Op → Bool) (R : W → W → Prop)
    (Q : Nat → Except ε α → W → Prop) (p : Pool Op Res ε α W) : Prop :=
  ∀ i t, p.threads[i]? = some t → t.Parked awaits ∧ Safe H awaits R (Q i) t p.world

/-- Every thread stands at an await and is safe for `R`. -/
def AllSafe (H : Handler Op Res ε W) (awaits : Op → Bool) (R : W → W → Prop)
    (p : Pool Op Res ε α W) : Prop :=
  ∀ t ∈ p.threads, t.Parked awaits ∧ Safe H awaits R (fun _ _ => True) t p.world

/-- No thread has a step left. -/
def Ended (p : Pool Op Res ε α W) : Prop :=
  ∀ t ∈ p.threads, (∃ a, t = .pure a) ∨ ∃ e, t = .throw e

variable {H : Handler Op Res ε W} {awaits : Op → Bool} {R : W → W → Prop}
  {Q : Nat → Except ε α → W → Prop}

theorem AllSafe.each {p : Pool Op Res ε α W} (h : p.AllSafe H awaits R) :
    p.EachSafe H awaits R fun _ _ _ => True :=
  fun _ t hi => h t (List.mem_of_getElem? hi)

theorem step_each (refl : ∀ a, R a a) (trans : ∀ a b c, R a b → R b c → R a c)
    (hQ : ∀ i r a b, R a b → Q i r a → Q i r b) {p : Pool Op Res ε α W}
    (h : p.EachSafe H awaits R Q) (i : Nat) :
    R p.world (p.step H awaits i).world ∧ (p.step H awaits i).EachSafe H awaits R Q := by
  unfold step
  split
  case h_2 => exact ⟨refl _, h⟩
  case h_1 o k hi =>
    obtain ⟨-, hs⟩ := h i _ hi
    obtain ⟨hR, hk⟩ := hs _ (.inl rfl)
    obtain ⟨hR', hk'⟩ := hk.settle refl trans
    have hstep := trans _ _ _ hR hR'
    refine ⟨hstep, fun j t hj => ?_⟩
    by_cases hij : i = j
    · subst hij
      rw [List.getElem?_set_self'] at hj
      obtain ⟨r, -, rfl⟩ := Option.map_eq_some_iff.mp hj
      exact ⟨parked_settle H awaits _ _, hk'⟩
    · rw [List.getElem?_set_ne hij] at hj
      obtain ⟨hp, hs⟩ := h j t hj
      exact ⟨hp, hs.stable trans (hQ j) hp hstep⟩

/-- **Rely-guarantee.** Safe threads change the world within `R` under every
schedule, and stay safe. -/
theorem run_each (refl : ∀ a, R a a) (trans : ∀ a b c, R a b → R b c → R a c)
    (hQ : ∀ i r a b, R a b → Q i r a → Q i r b) {p : Pool Op Res ε α W}
    (h : p.EachSafe H awaits R Q) (schedule : List Nat) :
    R p.world (p.run H awaits schedule).world ∧
      (p.run H awaits schedule).EachSafe H awaits R Q := by
  induction schedule generalizing p with
  | nil => exact ⟨refl _, h⟩
  | cons i rest ih =>
    obtain ⟨hR, hs⟩ := step_each refl trans hQ h i
    obtain ⟨hR', hs'⟩ := ih hs
    exact ⟨trans _ _ _ hR hR', hs'⟩

theorem run_safe (refl : ∀ a, R a a) (trans : ∀ a b c, R a b → R b c → R a c)
    {p : Pool Op Res ε α W} (h : p.AllSafe H awaits R) (schedule : List Nat) :
    R p.world (p.run H awaits schedule).world :=
  (run_each refl trans (fun _ _ _ _ _ _ => trivial) h.each schedule).1

/-- Under a schedule that lets every thread end, each ends as it should. -/
theorem EachSafe.outcome {p : Pool Op Res ε α W} (h : p.EachSafe H awaits R Q) (hp : p.Ended)
    {i : Nat} {t : Proc Op Res ε α} (hi : p.threads[i]? = some t) : ∃ r, Q i r p.world := by
  obtain ⟨-, hs⟩ := h i t hi
  rcases hp t (List.mem_of_getElem? hi) with ⟨a, rfl⟩ | ⟨e, rfl⟩
  · exact ⟨_, hs⟩
  · exact ⟨_, hs⟩

/-- No step adds or removes a thread. -/
theorem length_run (p : Pool Op Res ε α W) (schedule : List Nat) :
    (p.run H awaits schedule).threads.length = p.threads.length := by
  induction schedule generalizing p with
  | nil => rfl
  | cons i rest ih =>
    change ((p.step H awaits i).run H awaits rest).threads.length = _
    rw [ih]
    unfold step
    split
    · exact List.length_set
    · rfl

end Pool

end Async
