import Exchange.Async.Loop
import Mathlib.Data.List.Forall2
import Mathlib.Data.List.Perm.Basic

/-!
# Programs that keep to a protocol

A protocol says which calls are allowed in a phase, and to which phase an answer leads.
`Keeps`: as long as the answers satisfy `A`, a program makes only calls that are allowed,
and ends in a phase satisfying `Q`.

Proved here:

* `Keeps.bind`, `Keeps.tryCatch`, `Keeps.quiet`: the rules, along the program text;
* `Keeps.detach`: a program among calls of another kind keeps to their protocol;
* `Loop.sessions`: when every program of a loop keeps to the protocol, an invariant of the
  world and the phases need only be kept by the calls that are allowed, those that leave the
  process and those within it;
* `filterMap_set`: what the programs hold in their phases, when one phase changes.
-/

namespace Async

/-- Which calls are allowed in a phase, and the phase after an answer. -/
structure Protocol (Op : Type) (Res : Op → Type) (ε σ : Type) where
  may : σ → Op → Prop
  next : σ → (o : Op) → Except ε (Res o) → σ

namespace Proc

variable {Op : Type} {Res : Op → Type} {ε α β σ : Type}

/-- From a phase, the program makes only calls that are allowed, and ends in a phase
satisfying `Q`. -/
def Keeps (π : Protocol Op Res ε σ) (A : (o : Op) → Except ε (Res o) → Prop) :
    Proc Op Res ε α → (Except ε α → σ → Prop) → σ → Prop
  | .pure a, Q, s => Q (.ok a) s
  | .throw e, Q, s => Q (.error e) s
  | .op o k, Q, s => π.may s o ∧ ∀ r, A o r → Keeps π A (k r) Q (π.next s o r)

/-- A program among calls of another kind; nobody looks at its outcome. -/
def detach {Op' : Type} {Res' : Op' → Type} (f : Op → Op')
    (g : ∀ o, Res' (f o) → Except ε (Res o)) : Proc Op Res ε α → Proc Op' Res' Empty Unit
  | .pure _ => .pure ()
  | .throw _ => .pure ()
  | .op o k => .op (f o) fun
    | .ok r => detach f g (k (g o r))

namespace Keeps

variable {π : Protocol Op Res ε σ} {A : (o : Op) → Except ε (Res o) → Prop} {s : σ}
  {Q Q' : Except ε α → σ → Prop} {R : Except ε β → σ → Prop}

theorem mono {p : Proc Op Res ε α} (hp : Keeps π A p Q s) (h : ∀ r s, Q r s → Q' r s) :
    Keeps π A p Q' s := by
  induction p generalizing s with
  | pure a => exact h _ _ hp
  | throw e => exact h _ _ hp
  | op o k ih => exact ⟨hp.1, fun r hr => ih r (hp.2 r hr)⟩

theorem bind {p : Proc Op Res ε α} {f : α → Proc Op Res ε β}
    (hp : Keeps π A p (fun
      | .ok a => Keeps π A (f a) R
      | .error e => R (.error e)) s) : Keeps π A (p >>= f) R s := by
  show Keeps π A (Proc.bind p f) R s
  induction p generalizing s with
  | pure a => exact hp
  | throw e => exact hp
  | op o k ih => exact ⟨hp.1, fun r hr => ih r (hp.2 r hr)⟩

theorem tryCatch {p : Proc Op Res ε α} {h : ε → Proc Op Res ε α}
    (hp : Keeps π A p (fun
      | .ok a => Q (.ok a)
      | .error e => Keeps π A (h e) Q) s) : Keeps π A (Proc.tryCatch p h) Q s := by
  induction p generalizing s with
  | pure a => exact hp
  | throw e => exact hp
  | op o k ih => exact ⟨hp.1, fun r hr => ih r (hp.2 r hr)⟩

theorem call {o : Op} {Q : Except ε (Res o) → σ → Prop} (ho : π.may s o)
    (hQ : ∀ r, A o r → Q r (π.next s o r)) : Keeps π A (Proc.call o) Q s := by
  refine ⟨ho, fun r hr => ?_⟩
  cases r with
  | ok a => exact hQ _ hr
  | error e => exact hQ _ hr

/-- Calls that are allowed and lead nowhere. -/
theorem of_calls {P : Op → Prop} {p : Proc Op Res ε α} (hp : Calls P p)
    (hmay : ∀ o, P o → π.may s o) (hnext : ∀ o r, P o → π.next s o r = s)
    (hQ : ∀ r, Q r s) : Keeps π A p Q s := by
  induction p with
  | pure a => exact hQ _
  | throw e => exact hQ _
  | op o k ih =>
    refine ⟨hmay o hp.1, fun r _ => ?_⟩
    rw [hnext o r hp.1]
    exact ih r (hp.2 r)

/-- A part that leaves the phase as it is. -/
theorem quiet {P : Op → Prop} {p : Proc Op Res ε α} {f : α → Proc Op Res ε β} (hp : Calls P p)
    (hmay : ∀ o, P o → π.may s o) (hnext : ∀ o r, P o → π.next s o r = s)
    (he : ∀ e, R (.error e) s) (hf : ∀ a, Keeps π A (f a) R s) : Keeps π A (p >>= f) R s := by
  apply bind
  apply of_calls hp hmay hnext
  rintro (e | a)
  · exact he e
  · exact hf a

theorem detach {Op' : Type} {Res' : Op' → Type} {f : Op → Op'}
    {g : ∀ o, Res' (f o) → Except ε (Res o)} {π' : Protocol Op' Res' Empty σ}
    {A' : (o : Op') → Except Empty (Res' o) → Prop}
    (hmay : ∀ s o, π.may s o → π'.may s (f o)) (hanswer : ∀ o r, A' (f o) (.ok r) → A o (g o r))
    (hnext : ∀ s o r, π'.next s (f o) (.ok r) = π.next s o (g o r))
    {p : Proc Op Res ε α} (hp : Keeps π A p (fun _ _ => True) s) :
    Keeps π' A' (p.detach f g) (fun _ _ => True) s := by
  induction p generalizing s with
  | pure a => trivial
  | throw e => trivial
  | op o k ih =>
    rw [Proc.detach]
    refine ⟨hmay s o hp.1, fun r hr => ?_⟩
    cases r with
    | ok r =>
      rw [hnext]
      exact ih _ (hp.2 _ (hanswer o r hr))
    | error e => exact e.elim

end Keeps

end Proc

/-! ## A loop of such programs -/

variable {Op : Type} {Res : Op → Type} {ε W σ Answer Outside : Type}

/-- Each program keeps to the protocol from its phase. -/
def Phased (π : Protocol Op Res ε σ) (A : (o : Op) → Except ε (Res o) → Prop)
    (threads : List (Proc Op Res ε Unit)) (phases : List σ) : Prop :=
  List.Forall₂ (fun p s => p.Keeps π A (fun _ _ => True) s) threads phases

section Phases

variable {π : Protocol Op Res ε σ} {A : (o : Op) → Except ε (Res o) → Prop}
  {threads : List (Proc Op Res ε Unit)} {phases : List σ}

/-- Each program has a phase. -/
theorem Phased.at (h : Phased π A threads phases) {i : Nat} {p : Proc Op Res ε Unit}
    (hi : threads[i]? = some p) :
    ∃ s, phases[i]? = some s ∧ p.Keeps π A (fun _ _ => True) s := by
  unfold Phased at h
  induction h generalizing i with
  | nil => cases hi
  | @cons q s threads phases hq h ih =>
    cases i with
    | zero =>
      obtain rfl : q = p := Option.some.inj hi
      exact ⟨s, rfl, hq⟩
    | succ i => exact ih hi

/-- A program moves on. -/
theorem Phased.set {p : Proc Op Res ε Unit} {i : Nat} {s : σ} (h : Phased π A threads phases)
    (hp : p.Keeps π A (fun _ _ => True) s) :
    Phased π A (threads.set i p) (phases.set i s) := by
  unfold Phased at h ⊢
  induction h generalizing i with
  | nil => exact .nil
  | cons hq h ih =>
    cases i with
    | zero => exact .cons hp h
    | succ i => exact .cons hq ih

/-- The call at which a program stands is allowed in its phase. -/
theorem Phased.call (h : Phased π A threads phases) {i : Nat} {o : Op}
    {k : Except ε (Res o) → Proc Op Res ε Unit} (hi : threads[i]? = some (.op o k)) :
    ∃ s, phases[i]? = some s ∧ π.may s o ∧
      ∀ r, A o r → Phased π A (threads.set i (k r)) (phases.set i (π.next s o r)) := by
  obtain ⟨s, hs, hp⟩ := h.at hi
  exact ⟨s, hs, hp.1, fun r hr => h.set (hp.2 r hr)⟩

variable (L : Loop Op Res ε W Answer Outside)

/-- What a program does up to its next call that leaves the process: its phase moves on, and
it may start other programs. -/
theorem Loop.burst_sessions {Inv : W → List σ → Prop}
    (hown : ∀ o w phases i s, L.awaits o = false → Inv w phases → phases[i]? = some s →
      π.may s o → A o (L.effect o w).1 ∧ ∃ new, Phased π A (L.effect o w).2.2 new ∧
        Inv (L.effect o w).2.1 (phases.set i (π.next s o (L.effect o w).1) ++ new))
    {p : Proc Op Res ε Unit} {w : W} {i : Nat} {s : σ} (hInv : Inv w phases)
    (hi : phases[i]? = some s) (hp : p.Keeps π A (fun _ _ => True) s) :
    ∃ s' new, (L.burst p w).1.Keeps π A (fun _ _ => True) s' ∧
      Phased π A (L.burst p w).2.2 new ∧ Inv (L.burst p w).2.1 (phases.set i s' ++ new) := by
  have hsame : phases.set i s = phases := by
    obtain ⟨hlt, rfl⟩ := List.getElem?_eq_some_iff.mp hi
    simp
  induction p generalizing w phases s with
  | pure a => exact ⟨s, [], trivial, .nil, by simpa [burst, hsame] using hInv⟩
  | throw e => exact ⟨s, [], trivial, .nil, by simpa [burst, hsame] using hInv⟩
  | op o k ih =>
    unfold burst
    split
    · exact ⟨s, [], hp, .nil, by simpa [hsame] using hInv⟩
    · rename_i ho
      obtain ⟨hr, new, hnew, hInv'⟩ := hown o w phases i s (Bool.eq_false_iff.mpr ho) hInv hi hp.1
      have hlt : i < phases.length := (List.getElem?_eq_some_iff.mp hi).1
      have hi' : (phases.set i (π.next s o (L.effect o w).1) ++ new)[i]? =
          some (π.next s o (L.effect o w).1) := by
        simp [List.getElem?_append_left, hlt]
      obtain ⟨s', new', hs', hnew', hInv''⟩ := ih _ hInv' hi' (hp.2 _ hr) (by simp [hlt])
      refine ⟨s', new ++ new', hs', List.rel_append hnew hnew', ?_⟩
      simpa [List.set_append, hlt] using hInv''

/-- **The induction over a run**, for an invariant of the world and the phases. -/
theorem Loop.sessions {ok : Answer → Prop} (Inv : W → List σ → Prop)
    (hhappen : ∀ c w w' started phases, L.happen c w = some (w', started) → Inv w phases →
      ∃ new, Phased π A started new ∧ Inv w' (phases ++ new))
    (hcall : ∀ e o w r w' phases i s, ok e → L.answer e o w = some (r, w') → Inv w phases →
      phases[i]? = some s → π.may s o → A o r ∧ Inv w' (phases.set i (π.next s o r)))
    (hown : ∀ o w phases i s, L.awaits o = false → Inv w phases → phases[i]? = some s →
      π.may s o → A o (L.effect o w).1 ∧ ∃ new, Phased π A (L.effect o w).2.2 new ∧
        Inv (L.effect o w).2.1 (phases.set i (π.next s o (L.effect o w).1) ++ new))
    {s : Loop.State Op Res ε W} {turns : List (Loop.Turn Answer Outside)}
    (hturns : ∀ t ∈ turns, ∀ i e, t = .perform i e → ok e)
    (hs : Phased π A s.threads phases) (hInv : Inv s.world phases) :
    ∃ phases', Phased π A (L.run s turns).threads phases' ∧ Inv (L.run s turns).world phases' := by
  induction turns generalizing s phases with
  | nil => exact ⟨phases, hs, hInv⟩
  | cons t turns ih =>
    obtain ⟨ht, hrest⟩ := List.forall_mem_cons.mp hturns
    show ∃ phases', Phased π A (L.run (L.step s t) turns).threads phases' ∧
      Inv (L.run (L.step s t) turns).world phases'
    have hstep := L.step_cases s t
    generalize L.step s t = s' at hstep
    cases hstep with
    | idle => exact ih hrest hs hInv
    | happen h =>
      obtain ⟨new, hnew, hInv'⟩ := hhappen _ _ _ _ phases h hInv
      exact ih hrest (List.rel_append hs hnew) hInv'
    | @perform i e o k r w hi ho h =>
      obtain ⟨s', hs', hmay, hset⟩ := hs.call hi
      obtain ⟨hr, hInv'⟩ := hcall e o _ r w phases i s' (ht i e rfl) h hInv hs' hmay
      exact ih hrest (hset r hr) hInv'
    | @resume i o k hi ho =>
      obtain ⟨s', hs', hp⟩ := hs.at hi
      obtain ⟨s'', new, hp', hnew, hInv'⟩ := L.burst_sessions hown hInv hs' hp
      exact ih hrest (List.rel_append (hs.set hp') hnew) hInv'

end Phases

/-! ## What the programs hold -/

section Accounts

variable {γ : Type} {f : σ → Option γ} {phases : List σ} {passed lost all : List γ} {x : γ}
  {i : Nat} {s s' : σ}

/-- Of everything that there has been, each thing was passed on, is held in one phase, or
was lost. -/
def Accounted (f : σ → Option γ) (phases : List σ) (passed lost all : List γ) : Prop :=
  (passed ++ phases.filterMap f ++ lost).Perm all

/-- What is held elsewhere, when one phase changes. -/
theorem filterMap_set (f : σ → Option γ) (hi : phases[i]? = some s) (s' : σ) :
    ∃ others, (phases.filterMap f).Perm ((f s).toList ++ others) ∧
      ((phases.set i s').filterMap f).Perm ((f s').toList ++ others) := by
  obtain ⟨hlt, rfl⟩ := List.getElem?_eq_some_iff.mp hi
  have hone : ∀ s, [s].filterMap f = (f s).toList := by
    intro s
    cases hs : f s <;> simp [hs]
  refine ⟨(phases.take i ++ phases.drop (i + 1)).filterMap f, ?_, ?_⟩
  · have hsplit : phases = phases.take i ++ phases[i] :: phases.drop (i + 1) := by simp
    have hperm : phases.Perm ([phases[i]] ++ (phases.take i ++ phases.drop (i + 1))) := by
      conv_lhs => rw [hsplit]
      exact List.perm_middle
    rw [← hone, ← List.filterMap_append]
    exact hperm.filterMap f
  · have hperm : (phases.set i s').Perm ([s'] ++ (phases.take i ++ phases.drop (i + 1))) := by
      rw [List.set_eq_take_append_cons_drop, if_pos hlt]
      exact List.perm_middle
    rw [← hone, ← List.filterMap_append]
    exact hperm.filterMap f

namespace Accounted

theorem same (h : Accounted f phases passed lost all) (hi : phases[i]? = some s)
    (hs : f s' = f s) : Accounted f (phases.set i s') passed lost all := by
  obtain ⟨others, hbefore, hafter⟩ := filterMap_set f hi s'
  rw [hs] at hafter
  have hheld := hafter.trans hbefore.symm
  exact ((hheld.append_left passed).append_right lost).trans h

/-- It is passed on. -/
theorem pass (h : Accounted f phases passed lost all) (hi : phases[i]? = some s)
    (hs : f s = some x) (hs' : f s' = none) :
    Accounted f (phases.set i s') (passed ++ [x]) lost all := by
  obtain ⟨others, hbefore, hafter⟩ := filterMap_set f hi s'
  rw [hs] at hbefore
  rw [hs'] at hafter
  calc (passed ++ [x]) ++ (phases.set i s').filterMap f ++ lost
    _ |>.Perm ((passed ++ [x]) ++ others ++ lost) := (hafter.append_left _).append_right _
    _ = passed ++ ([x] ++ others) ++ lost := by simp
    _ |>.Perm (passed ++ phases.filterMap f ++ lost) :=
        (hbefore.symm.append_left _).append_right _
    _ |>.Perm all := h

theorem lose (h : Accounted f phases passed lost all) (hi : phases[i]? = some s)
    (hs : f s = some x) (hs' : f s' = none) :
    Accounted f (phases.set i s') passed (lost ++ [x]) all := by
  obtain ⟨others, hbefore, hafter⟩ := filterMap_set f hi s'
  rw [hs] at hbefore
  rw [hs'] at hafter
  calc passed ++ (phases.set i s').filterMap f ++ (lost ++ [x])
    _ |>.Perm (passed ++ others ++ (lost ++ [x])) := (hafter.append_left _).append_right _
    _ |>.Perm (passed ++ others ++ ([x] ++ lost)) := List.perm_append_comm.append_left _
    _ |>.Perm (passed ++ ([x] ++ others) ++ lost) := by
        have hswap : (others ++ [x]).Perm ([x] ++ others) := List.perm_append_comm
        simpa using (hswap.append_left passed).append_right lost
    _ |>.Perm (passed ++ phases.filterMap f ++ lost) :=
        (hbefore.symm.append_left _).append_right _
    _ |>.Perm all := h

/-- There is one more, and a program holds it. -/
theorem take (h : Accounted f phases passed lost all) (hi : phases[i]? = some s)
    (hs : f s = none) (hs' : f s' = some x) :
    Accounted f (phases.set i s') passed lost (all ++ [x]) := by
  obtain ⟨others, hbefore, hafter⟩ := filterMap_set f hi s'
  rw [hs] at hbefore
  rw [hs'] at hafter
  calc passed ++ (phases.set i s').filterMap f ++ lost
    _ |>.Perm (passed ++ ([x] ++ others) ++ lost) := (hafter.append_left _).append_right _
    _ |>.Perm ([x] ++ (passed ++ others ++ lost)) := by simp
    _ |>.Perm ([x] ++ (passed ++ phases.filterMap f ++ lost)) :=
        ((hbefore.symm.append_left _).append_right _).append_left _
    _ |>.Perm ([x] ++ all) := h.append_left _
    _ |>.Perm (all ++ [x]) := List.perm_append_comm

/-- There is one more, and it is passed on at once. -/
theorem through (h : Accounted f phases passed lost all) (x : γ) :
    Accounted f phases (passed ++ [x]) lost (all ++ [x]) := by
  calc (passed ++ [x]) ++ phases.filterMap f ++ lost
    _ |>.Perm ([x] ++ (passed ++ phases.filterMap f ++ lost)) := by simp
    _ |>.Perm ([x] ++ all) := h.append_left _
    _ |>.Perm (all ++ [x]) := List.perm_append_comm

/-- A program starts with what it holds. -/
theorem start (h : Accounted f phases passed lost all) (s : σ) :
    Accounted f (phases ++ [s]) passed lost (all ++ (f s).toList) := by
  have hone : [s].filterMap f = (f s).toList := by
    cases hs : f s <;> simp [hs]
  have hswap : (lost ++ (f s).toList).Perm ((f s).toList ++ lost) := List.perm_append_comm
  calc passed ++ (phases ++ [s]).filterMap f ++ lost
    _ = passed ++ phases.filterMap f ++ ((f s).toList ++ lost) := by
        rw [List.filterMap_append, hone]
        simp
    _ |>.Perm (passed ++ phases.filterMap f ++ (lost ++ (f s).toList)) := hswap.symm.append_left _
    _ = passed ++ phases.filterMap f ++ lost ++ (f s).toList := by simp
    _ |>.Perm (all ++ (f s).toList) := h.append_right _

theorem subperm (h : Accounted f phases passed lost all) : passed.Subperm all := by
  have hprefix : passed.Sublist (passed ++ phases.filterMap f ++ lost) := by
    rw [List.append_assoc]
    exact List.sublist_append_left ..
  exact hprefix.subperm.trans (List.Perm.subperm h)

theorem mem_held (h : Accounted f phases passed lost all) (hi : phases[i]? = some s)
    (hs : f s = some x) : x ∈ all := by
  apply (List.Perm.mem_iff h).mp
  have hheld : x ∈ phases.filterMap f := List.mem_filterMap.mpr ⟨s, List.mem_of_getElem? hi, hs⟩
  simp [hheld]

end Accounted

end Accounts

end Async
