import Exchange.Async.Session

/-!
# Calls that depend on answers

`Given A P p`: as long as the answers satisfy `A`, every call of `p` satisfies `P`.
Where `Calls` must allow whatever a program may call after any answer, `Given` can
say that what is written is what was answered before. It is a protocol of one phase.
`Loop.given_step`: in a loop whose answers satisfy `A`, this is kept by every turn.
-/

namespace Async.Proc

variable {Op : Type} {Res : Op → Type} {ε α β : Type}

/-- As long as the answers satisfy `A`, every call satisfies `P`. -/
def Given (A : (o : Op) → Except ε (Res o) → Prop) (P : Op → Prop) (p : Proc Op Res ε α) : Prop :=
  p.Keeps ⟨fun _ => P, fun _ _ _ => ()⟩ A (fun _ _ => True) ()

namespace Given

variable {A : (o : Op) → Except ε (Res o) → Prop} {P : Op → Prop}

/-- What is called in any case is called after such answers. -/
theorem of_calls {p : Proc Op Res ε α} (hp : Calls P p) : Given A P p :=
  Keeps.of_calls hp (fun _ h => h) (fun _ _ _ => rfl) fun _ => trivial

theorem call {o : Op} (h : P o) : Given A P (Proc.call o : Proc Op Res ε (Res o)) :=
  of_calls (Calls.call h)

theorem bind {p : Proc Op Res ε α} {f : α → Proc Op Res ε β} (hp : Given A P p)
    (hf : ∀ a, Given A P (f a)) : Given A P (p >>= f) := by
  apply Keeps.bind
  apply Keeps.mono hp
  rintro (e | a) s -
  · trivial
  · exact hf a

/-- A call, and a program that knows what it was answered. -/
theorem answered {o : Op} {f : Res o → Proc Op Res ε β} (ho : P o)
    (hf : ∀ a, A o (.ok a) → Given A P (f a)) : Given A P (Proc.call o >>= f) := by
  apply Keeps.bind
  apply Keeps.call ho
  rintro (e | a) hr
  · trivial
  · exact hf a hr

end Given

end Async.Proc

namespace Async.Loop

open Proc

variable {Op : Type} {Res : Op → Type} {ε W Answer Outside : Type}
  (L : Loop Op Res ε W Answer Outside) {A : (o : Op) → Except ε (Res o) → Prop} {P : Op → Prop}

/-- What is answered and started within the process is as the programs are. -/
def OwnGiven (A : (o : Op) → Except ε (Res o) → Prop) (P : Op → Prop) : Prop :=
  ∀ o w, L.awaits o = false → P o → A o (L.effect o w).1 ∧ ∀ q ∈ (L.effect o w).2.2, Given A P q

theorem burst_given (hown : L.OwnGiven A P) {p : Proc Op Res ε Unit} (w : W) (hp : Given A P p) :
    Given A P (L.burst p w).1 ∧ ∀ q ∈ (L.burst p w).2.2, Given A P q := by
  induction p generalizing w with
  | pure a => exact ⟨trivial, List.forall_mem_nil _⟩
  | throw e => exact ⟨trivial, List.forall_mem_nil _⟩
  | op o k ih =>
    unfold burst
    split
    · exact ⟨hp, List.forall_mem_nil _⟩
    · rename_i ho
      obtain ⟨hr, hstarted⟩ := hown o w (Bool.eq_false_iff.mpr ho) hp.1
      obtain ⟨hrest, hstarted'⟩ := ih (L.effect o w).1 (L.effect o w).2.1 (hp.2 _ hr)
      exact ⟨hrest, List.forall_mem_append.mpr ⟨hstarted, hstarted'⟩⟩

/-- What every program calls is kept by a turn. -/
theorem given_step (hown : L.OwnGiven A P)
    (hanswer : ∀ e o w r w', L.answer e o w = some (r, w') → A o r)
    (hhappen : ∀ c w w' started, L.happen c w = some (w', started) → ∀ q ∈ started, Given A P q)
    {s s' : State Op Res ε W} {t : Turn Answer Outside} (hstep : L.Steps s t s')
    (h : ∀ p ∈ s.threads, Given A P p) : ∀ p ∈ s'.threads, Given A P p := by
  cases hstep with
  | idle => exact h
  | happen hc => exact List.forall_mem_append.mpr ⟨h, hhappen _ _ _ _ hc⟩
  | perform hi ho hr =>
    have hp := h _ (List.mem_of_getElem? hi)
    exact forall_mem_set h (hp.2 _ (hanswer _ _ _ _ _ hr))
  | resume hi ho =>
    obtain ⟨hrest, hstarted⟩ := L.burst_given hown s.world (h _ (List.mem_of_getElem? hi))
    exact List.forall_mem_append.mpr ⟨forall_mem_set h hrest, hstarted⟩

end Async.Loop
