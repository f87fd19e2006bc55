import Mathlib.Logic.Basic

/-!
# Asynchronous programs

An `async` function is a tree of operations on a shared world: every operation
is answered by a value or by an error, and the continuation takes the answer.
One program text has three readings: run alone (`run`, this file), run with
some operations failing (the handler decides), and run interleaved with other
programs at its await points (`Pool.lean`).

Proved here, for every handler and every program:

* `run_bind`, `run_tryCatch`: runs compose; `run_map`: they keep to a projection
  of the world;
* `wp_bind`, `wp_tryCatch`, `wp_mono`: the rules of the precondition `wp`;
* the rules of `Asks`: what every operation of a run satisfies;
* the rules of `Strict`: a program that stops at its first failed operation
  ends in an error or in a bad value whenever a given call of its run failed.
-/

namespace Async

/-- A program over the operations `Op`, operation `o` being answered in `Res o`. -/
inductive Proc (Op : Type) (Res : Op → Type) (ε α : Type) where
  | pure (a : α)
  | throw (e : ε)
  | op (o : Op) (k : Except ε (Res o) → Proc Op Res ε α)

/-- What answers the operations of a program. -/
abbrev Handler (Op : Type) (Res : Op → Type) (ε W : Type) :=
  (o : Op) → W → Except ε (Res o) × W

namespace Proc

variable {Op : Type} {Res : Op → Type} {ε α β W : Type}

def bind : Proc Op Res ε α → (α → Proc Op Res ε β) → Proc Op Res ε β
  | .pure a, f => f a
  | .throw e, _ => .throw e
  | .op o k, f => .op o fun r => bind (k r) f

/-- `try p catch h`. -/
def tryCatch : Proc Op Res ε α → (ε → Proc Op Res ε α) → Proc Op Res ε α
  | .pure a, _ => .pure a
  | .throw e, h => h e
  | .op o k, h => .op o fun r => tryCatch (k r) h

instance : Monad (Proc Op Res ε) where
  pure := Proc.pure
  bind := Proc.bind

theorem bind_assoc {γ : Type} (p : Proc Op Res ε α) (f : α → Proc Op Res ε β)
    (g : β → Proc Op Res ε γ) : p >>= f >>= g = p >>= fun a => f a >>= g := by
  change bind (bind p f) g = bind p fun a => bind (f a) g
  induction p with
  | pure a => rfl
  | throw e => rfl
  | op o k ih => exact congrArg (Proc.op o) (funext fun r => ih r)

/-- `await` one operation: an error answer is thrown. -/
def call (o : Op) : Proc Op Res ε (Res o) :=
  .op o fun
    | .ok a => .pure a
    | .error e => .throw e

/-! ## Running alone -/

def run (H : Handler Op Res ε W) : Proc Op Res ε α → W → Except ε α × W
  | .pure a, w => (.ok a, w)
  | .throw e, w => (.error e, w)
  | .op o k, w => run H (k (H o w).1) (H o w).2

theorem run_bind (H : Handler Op Res ε W) (p : Proc Op Res ε α) (f : α → Proc Op Res ε β)
    (w : W) :
    run H (p >>= f) w = match run H p w with
      | (.ok a, w') => run H (f a) w'
      | (.error e, w') => (.error e, w') := by
  change run H (bind p f) w = _
  induction p generalizing w with
  | pure a => rfl
  | throw e => rfl
  | op o k ih => exact ih _ _

theorem run_tryCatch (H : Handler Op Res ε W) (p : Proc Op Res ε α) (h : ε → Proc Op Res ε α)
    (w : W) :
    run H (tryCatch p h) w = match run H p w with
      | (.ok a, w') => (.ok a, w')
      | (.error e, w') => run H (h e) w' := by
  induction p generalizing w with
  | pure a => rfl
  | throw e => rfl
  | op o k ih => exact ih _ _

/-- A world that records more, by a handler that answers alike, changes no run. -/
theorem run_map {V : Type} {H : Handler Op Res ε W} {H' : Handler Op Res ε V} (f : V → W)
    (h : ∀ o v, H o (f v) = ((H' o v).1, f (H' o v).2)) (p : Proc Op Res ε α) (v : V) :
    run H p (f v) = ((run H' p v).1, f (run H' p v).2) := by
  induction p generalizing v with
  | pure a => rfl
  | throw e => rfl
  | op o k ih =>
    simp only [run]
    rw [h]
    exact ih _ _

/-! ## Preconditions -/

/-- Run from `w`, the program ends with an outcome and a world satisfying `Q`. -/
def wp (H : Handler Op Res ε W) (p : Proc Op Res ε α) (Q : Except ε α → W → Prop) (w : W) :
    Prop :=
  Q (run H p w).1 (run H p w).2

section Rules

variable {H : Handler Op Res ε W} {w : W}

@[simp] theorem wp_pure (a : α) (Q : Except ε α → W → Prop) :
    wp H (Pure.pure a : Proc Op Res ε α) Q w ↔ Q (.ok a) w := Iff.rfl

@[simp] theorem wp_throw (e : ε) (Q : Except ε α → W → Prop) :
    wp H (.throw e : Proc Op Res ε α) Q w ↔ Q (.error e) w := Iff.rfl

theorem wp_bind (p : Proc Op Res ε α) (f : α → Proc Op Res ε β) (Q : Except ε β → W → Prop) :
    wp H (p >>= f) Q w ↔ wp H p (fun
      | .ok a => wp H (f a) Q
      | .error e => Q (.error e)) w := by
  unfold wp
  rw [run_bind]
  rcases run H p w with ⟨a | e, w'⟩ <;> rfl

theorem wp_tryCatch (p : Proc Op Res ε α) (h : ε → Proc Op Res ε α)
    (Q : Except ε α → W → Prop) :
    wp H (tryCatch p h) Q w ↔ wp H p (fun
      | .ok a => Q (.ok a)
      | .error e => wp H (h e) Q) w := by
  unfold wp
  rw [run_tryCatch]
  rcases run H p w with ⟨a | e, w'⟩ <;> rfl

theorem wp_mono {p : Proc Op Res ε α} {Q Q' : Except ε α → W → Prop} (h : wp H p Q w)
    (hQ : ∀ r w', Q r w' → Q' r w') : wp H p Q' w :=
  hQ _ _ h

/-- The first part may do anything. -/
theorem wp_bind_any {p : Proc Op Res ε α} {f : α → Proc Op Res ε β} {Q : Except ε β → W → Prop}
    (he : ∀ e w', Q (.error e) w') (hk : ∀ a w', wp H (f a) Q w') : wp H (p >>= f) Q w := by
  rw [wp_bind]
  apply wp_mono (Q := fun _ _ => True) trivial
  rintro (e | a) w' -
  · exact he e w'
  · exact hk a w'

theorem wp_call (o : Op) (Q : Except ε (Res o) → W → Prop) :
    wp H (call o) Q w ↔ Q (H o w).1 (H o w).2 := by
  unfold wp call run
  rcases H o w with ⟨a | e, w'⟩ <;> rfl

/-- A call that changes nothing when it fails. -/
theorem wp_call_fails {o : Op} {fails : Bool} {e : ε} {r : Res o} {w' : W}
    {Q : Except ε (Res o) → W → Prop}
    (hp : H o w = if fails then (.error e, w) else (.ok r, w'))
    (hfail : fails = true → Q (.error e) w) (hok : fails = false → Q (.ok r) w') :
    wp H (call o) Q w := by
  apply (wp_call _ _).mpr
  rw [hp]
  cases fails with
  | true => exact hfail rfl
  | false => exact hok rfl

end Rules

/-! ## What a run asks for -/

/-- Every operation that the run performs satisfies `P`, whether it fails or not. -/
def Asks (H : Handler Op Res ε W) (P : Op → Prop) : Proc Op Res ε α → W → Prop
  | .pure _, _ => True
  | .throw _, _ => True
  | .op o k, w => P o ∧ Asks H P (k (H o w).1) (H o w).2

namespace Asks

variable {H : Handler Op Res ε W} {P : Op → Prop} {w : W}

theorem call {o : Op} (h : P o) : Asks H P (Proc.call o : Proc Op Res ε (Res o)) w := by
  refine ⟨h, ?_⟩
  rcases H o w with ⟨a | e, w'⟩ <;> trivial

/-- The first part and, from where it ends, the second. -/
theorem bind {p : Proc Op Res ε α} {f : α → Proc Op Res ε β} (hp : Asks H P p w)
    (hf : wp H p (fun r w' => ∀ a, r = .ok a → Asks H P (f a) w') w) :
    Asks H P (p >>= f) w := by
  change Asks H P (Proc.bind p f) w
  induction p generalizing w with
  | pure a => exact hf a rfl
  | throw e => trivial
  | op o k ih => exact ⟨hp.1, ih _ hp.2 hf⟩

theorem tryCatch {p : Proc Op Res ε α} {h : ε → Proc Op Res ε α} (hp : Asks H P p w)
    (hh : ∀ e w', Asks H P (h e) w') : Asks H P (Proc.tryCatch p h) w := by
  induction p generalizing w with
  | pure a => trivial
  | throw e => exact hh e w
  | op o k ih => exact ⟨hp.1, ih _ hp.2⟩

end Asks

/-! ## A failing call -/

/-- The calls of a handler are counted, and call number `K` is answered by an error. -/
structure FailsAt (H : Handler Op Res ε W) (calls : W → Nat) (K : Nat) : Prop where
  mono : ∀ o w, calls w ≤ calls (H o w).2
  error : ∀ o w, calls w ≤ K → K < calls (H o w).2 → ∃ e, (H o w).1 = .error e

/-- A run that makes call number `K` ends in an error or in a bad value. -/
def Strict (H : Handler Op Res ε W) (calls : W → Nat) (K : Nat) (bad : α → Prop)
    (p : Proc Op Res ε α) : Prop :=
  ∀ w, wp H p (fun r w' => calls w ≤ calls w' ∧
    (calls w ≤ K → K < calls w' → ∀ a, r = .ok a → bad a)) w

namespace Strict

variable {H : Handler Op Res ε W} {calls : W → Nat} {K : Nat} {bad : α → Prop} {bad' : β → Prop}

theorem pure (a : α) : Strict H calls K bad (Pure.pure a) := by
  intro w
  refine ⟨Nat.le_refl _, fun h h' => ?_⟩
  exact absurd h' (Nat.not_lt.mpr h)

theorem throw (e : ε) : Strict H calls K bad (.throw e) := by
  intro w
  refine ⟨Nat.le_refl _, fun h h' => ?_⟩
  exact absurd h' (Nat.not_lt.mpr h)

theorem call (hH : FailsAt H calls K) (o : Op) (bad : Res o → Prop) :
    Strict H calls K bad (Proc.call o) := by
  intro w
  rw [wp_call]
  refine ⟨hH.mono o w, fun h h' a ha => ?_⟩
  obtain ⟨e, he⟩ := hH.error o w h h'
  rw [he] at ha
  cases ha

/-- A bad value of the first part makes the second part end badly, without a call. -/
theorem bind {p : Proc Op Res ε α} {f : α → Proc Op Res ε β} (hp : Strict H calls K bad p)
    (hf : ∀ a, Strict H calls K bad' (f a))
    (hbad : ∀ a w, bad a → ∀ b, (run H (f a) w).1 = .ok b → bad' b) :
    Strict H calls K bad' (p >>= f) := by
  intro w
  rw [wp_bind]
  refine wp_mono (hp w) ?_
  rintro (e | a) w' ⟨hle, h⟩
  · exact ⟨hle, fun _ _ b hb => by cases hb⟩
  · obtain ⟨hle', h'⟩ := hf a w'
    refine ⟨Nat.le_trans hle hle', fun hK hK' b hb => ?_⟩
    rcases Nat.lt_or_ge K (calls w') with hlt | hge
    · exact hbad a w' (h hK hlt a rfl) b hb
    · exact h' hge hK' b hb

/-- The common case: no value of the first part is bad. -/
theorem seq {p : Proc Op Res ε α} {f : α → Proc Op Res ε β}
    (hp : Strict H calls K (fun _ => False) p) (hf : ∀ a, Strict H calls K bad' (f a)) :
    Strict H calls K bad' (p >>= f) :=
  bind hp hf fun _ _ h => h.elim

/-- Catching an error by a bad value. -/
theorem tryCatch {p : Proc Op Res ε α} {b : α} (hp : Strict H calls K bad p) (hb : bad b) :
    Strict H calls K bad (Proc.tryCatch p fun _ => .pure b) := by
  intro w
  rw [wp_tryCatch]
  refine wp_mono (hp w) ?_
  rintro (e | a) w' ⟨hle, h⟩
  · refine ⟨hle, fun _ _ a ha => ?_⟩
    cases ha
    exact hb
  · exact ⟨hle, h⟩

end Strict

end Proc

end Async
