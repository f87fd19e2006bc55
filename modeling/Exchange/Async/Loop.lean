import Exchange.Async.Proc
import Mathlib.Data.List.Basic

/-!
# An event loop

Several programs over one world, one of them running at a time. A call that
leaves the process takes two turns: it is performed (`perform`), and later the
program is resumed with the answer (`resume`), so an answer can be stale when it
is read. Between two such calls a program runs without interruption (`burst`)
and may start other programs. What comes from outside is `happen`.

Proved here: what one turn can do (`step_cases`), and that an invariant kept by
every turn that meets a condition holds along every run whose turns meet it
(`Meets.run`, `Meets.along`). `Calls P p` says that the program `p` makes no call
outside `P`, whatever it is answered.
-/

namespace Async

variable {Op : Type} {Res : Op → Type} {ε α β W : Type}

namespace Proc

/-- The call at which a program stands. -/
def next : Proc Op Res ε α → Option Op
  | .op o _ => some o
  | _ => none

/-- The program among calls of another kind. -/
def embed {Op' : Type} {Res' : Op' → Type} (f : Op → Op')
    (g : ∀ o, Except ε (Res' (f o)) → Except ε (Res o)) : Proc Op Res ε α → Proc Op' Res' ε α
  | .pure a => .pure a
  | .throw e => .throw e
  | .op o k => .op (f o) fun r => embed f g (k (g o r))

/-- Every call that the program may make satisfies `P`. -/
def Calls (P : Op → Prop) : Proc Op Res ε α → Prop
  | .pure _ => True
  | .throw _ => True
  | .op o k => P o ∧ ∀ r, Calls P (k r)

namespace Calls

variable {P P' : Op → Prop}

theorem mono (h : ∀ o, P o → P' o) {p : Proc Op Res ε α} (hp : Calls P p) : Calls P' p := by
  induction p with
  | pure a => trivial
  | throw e => trivial
  | op o k ih => exact ⟨h o hp.1, fun r => ih r (hp.2 r)⟩

theorem any (p : Proc Op Res ε α) : Calls (fun _ => True) p := by
  induction p with
  | pure a => trivial
  | throw e => trivial
  | op o k ih => exact ⟨trivial, ih⟩

theorem call {o : Op} (h : P o) : Calls P (Proc.call o : Proc Op Res ε (Res o)) := by
  refine ⟨h, fun r => ?_⟩
  cases r <;> trivial

theorem bind {p : Proc Op Res ε α} {f : α → Proc Op Res ε β} (hp : Calls P p)
    (hf : ∀ a, Calls P (f a)) : Calls P (p >>= f) := by
  change Calls P (Proc.bind p f)
  induction p with
  | pure a => exact hf a
  | throw e => trivial
  | op o k ih => exact ⟨hp.1, fun r => ih r (hp.2 r)⟩

theorem tryCatch {p : Proc Op Res ε α} {f : ε → Proc Op Res ε α} (hp : Calls P p)
    (hf : ∀ e, Calls P (f e)) : Calls P (Proc.tryCatch p f) := by
  induction p with
  | pure a => trivial
  | throw e => exact hf e
  | op o k ih => exact ⟨hp.1, fun r => ih r (hp.2 r)⟩

theorem embed {Op' : Type} {Res' : Op' → Type} {f : Op → Op'}
    {g : ∀ o, Except ε (Res' (f o)) → Except ε (Res o)} {Q : Op' → Prop} (h : ∀ o, P o → Q (f o))
    {p : Proc Op Res ε α} (hp : Calls P p) : Calls Q (Proc.embed f g p) := by
  induction p with
  | pure a => trivial
  | throw e => trivial
  | op o k ih => exact ⟨h o hp.1, fun r => ih (g o r) (hp.2 (g o r))⟩

/-- What every call that may be made keeps, a run keeps. -/
theorem run {H : Handler Op Res ε W} {Inv : W → Prop}
    (h : ∀ o w, P o → Inv w → Inv (H o w).2) {p : Proc Op Res ε α} (hp : Calls P p) {w : W}
    (hw : Inv w) : Inv (p.run H w).2 := by
  induction p generalizing w with
  | pure a => exact hw
  | throw e => exact hw
  | op o k ih => exact ih _ (hp.2 _) (h o w hp.1 hw)

theorem asks {H : Handler Op Res ε W} {p : Proc Op Res ε α} (hp : Calls P p) (w : W) :
    Asks H P p w := by
  induction p generalizing w with
  | pure a => trivial
  | throw e => trivial
  | op o k ih => exact ⟨hp.1, ih _ (hp.2 _) _⟩

end Calls

end Proc

/-- What an event loop runs: which calls leave the process, what the other calls
do and start, how a call that left is answered (`none`: not yet), and what may
happen outside (`none`: not now). -/
structure Loop (Op : Type) (Res : Op → Type) (ε W Answer Outside : Type) where
  awaits : Op → Bool
  effect : (o : Op) → W → Except ε (Res o) × W × List (Proc Op Res ε Unit)
  answer : Answer → (o : Op) → W → Option (Except ε (Res o) × W)
  happen : Outside → W → Option (W × List (Proc Op Res ε Unit))

namespace Loop

/-- A world and the programs over it. -/
structure State (Op : Type) (Res : Op → Type) (ε W : Type) where
  world : W
  threads : List (Proc Op Res ε Unit)

inductive Turn (Answer Outside : Type) where
  | happen (c : Outside)
  | perform (i : Nat) (e : Answer)
  | resume (i : Nat)

variable {Answer Outside : Type} (L : Loop Op Res ε W Answer Outside)

/-- Run a program up to its next call that leaves the process. -/
def burst : Proc Op Res ε Unit → W → Proc Op Res ε Unit × W × List (Proc Op Res ε Unit)
  | .pure a, w => (.pure a, w, [])
  | .throw e, w => (.throw e, w, [])
  | .op o k, w =>
      if L.awaits o then (.op o k, w, [])
      else
        let r := L.effect o w
        let q := burst (k r.1) r.2.1
        (q.1, q.2.1, r.2.2 ++ q.2.2)

def step (s : State Op Res ε W) : Turn Answer Outside → State Op Res ε W
  | .happen c =>
      match L.happen c s.world with
      | some (w, started) => ⟨w, s.threads ++ started⟩
      | none => s
  | .perform i e =>
      match s.threads[i]? with
      | some (.op o k) =>
          if L.awaits o then
            match L.answer e o s.world with
            | some (r, w) => ⟨w, s.threads.set i (k r)⟩
            | none => s
          else s
      | _ => s
  | .resume i =>
      match s.threads[i]? with
      | some (.op o k) =>
          if L.awaits o then s
          else
            let q := L.burst (.op o k) s.world
            ⟨q.2.1, s.threads.set i q.1 ++ q.2.2⟩
      | _ => s

def run (s : State Op Res ε W) (turns : List (Turn Answer Outside)) : State Op Res ε W :=
  turns.foldl L.step s

theorem step_happen {s : State Op Res ε W} {c : Outside} {w : W}
    {started : List (Proc Op Res ε Unit)} (h : L.happen c s.world = some (w, started)) :
    L.step s (.happen c) = ⟨w, s.threads ++ started⟩ := by
  simp only [step, h]

/-- The last program that was started performs its call. -/
theorem step_perform_last {w w' : W} {threads : List (Proc Op Res ε Unit)} {o : Op}
    {k : Except ε (Res o) → Proc Op Res ε Unit} {e : Answer} {r : Except ε (Res o)}
    (ho : L.awaits o = true) (h : L.answer e o w = some (r, w')) :
    L.step ⟨w, threads ++ [.op o k]⟩ (.perform threads.length e) = ⟨w', threads ++ [k r]⟩ := by
  simp [step, ho, h]

/-- A program that has no call leaving the process performs none. -/
theorem step_perform_idle {s : State Op Res ε W} {i : Nat} {p : Proc Op Res ε Unit}
    (hi : s.threads[i]? = some p) (hp : ∀ o, p.next = some o → L.awaits o = false) (e : Answer) :
    L.step s (.perform i e) = s := by
  cases p with
  | pure a => simp only [step, hi]
  | throw e' => simp only [step, hi]
  | op o k => simp [step, hi, hp o rfl]

/-- A program whose call is not answered is not resumed. -/
theorem step_resume_idle {s : State Op Res ε W} {i : Nat} {p : Proc Op Res ε Unit}
    (hi : s.threads[i]? = some p) (hp : ∀ o, p.next = some o → L.awaits o = true) :
    L.step s (.resume i) = s := by
  cases p with
  | pure a => simp only [step, hi]
  | throw e' => simp only [step, hi]
  | op o k => simp [step, hi, hp o rfl]

/-- What a program may call, it and those that it starts may call after a burst. -/
theorem burst_calls {P : Op → Prop}
    (hstart : ∀ o w, P o → ∀ p ∈ (L.effect o w).2.2, p.Calls P) {p : Proc Op Res ε Unit} (w : W)
    (hp : p.Calls P) :
    (L.burst p w).1.Calls P ∧ ∀ q ∈ (L.burst p w).2.2, q.Calls P := by
  induction p generalizing w with
  | pure a => exact ⟨trivial, nofun⟩
  | throw e => exact ⟨trivial, nofun⟩
  | op o k ih =>
    unfold burst
    split
    · exact ⟨hp, nofun⟩
    · obtain ⟨hcalls, hstarted⟩ := ih (L.effect o w).1 (L.effect o w).2.1 (hp.2 _)
      refine ⟨hcalls, fun q hq => ?_⟩
      rcases List.mem_append.mp hq with hq | hq
      · exact hstart o w hp.1 q hq
      · exact hstarted q hq

/-- What no call within the process changes, a burst does not change. -/
theorem burst_frame {B : Type} {f : W → B} (hf : ∀ o w, f (L.effect o w).2.1 = f w)
    (p : Proc Op Res ε Unit) (w : W) : f (L.burst p w).2.1 = f w := by
  induction p generalizing w with
  | pure a => rfl
  | throw e => rfl
  | op o k ih =>
    unfold burst
    split
    · rfl
    · exact (ih _ _).trans (hf o w)

/-- What no call of the program within the process changes, its burst does not change. -/
theorem burst_keeps {B : Type} {f : W → B} {P : Op → Prop}
    (hf : ∀ o w, P o → f (L.effect o w).2.1 = f w) {p : Proc Op Res ε Unit} (hp : p.Calls P)
    (w : W) : f (L.burst p w).2.1 = f w := by
  induction p generalizing w with
  | pure a => rfl
  | throw e => rfl
  | op o k ih =>
    unfold burst
    split
    · rfl
    · exact (ih _ (hp.2 _) _).trans (hf o w hp.1)

/-- Everything that a turn can do. -/
inductive Steps (s : State Op Res ε W) : Turn Answer Outside → State Op Res ε W → Prop where
  | idle (t : Turn Answer Outside) : Steps s t s
  | happen {c : Outside} {w : W} {started : List (Proc Op Res ε Unit)}
      (h : L.happen c s.world = some (w, started)) :
      Steps s (.happen c) ⟨w, s.threads ++ started⟩
  | perform {i : Nat} {e : Answer} {o : Op} {k : Except ε (Res o) → Proc Op Res ε Unit}
      {r : Except ε (Res o)} {w : W} (hi : s.threads[i]? = some (.op o k))
      (ho : L.awaits o = true) (h : L.answer e o s.world = some (r, w)) :
      Steps s (.perform i e) ⟨w, s.threads.set i (k r)⟩
  | resume {i : Nat} {o : Op} {k : Except ε (Res o) → Proc Op Res ε Unit}
      (hi : s.threads[i]? = some (.op o k)) (ho : L.awaits o = false) :
      Steps s (.resume i) ⟨(L.burst (.op o k) s.world).2.1,
        s.threads.set i (L.burst (.op o k) s.world).1 ++ (L.burst (.op o k) s.world).2.2⟩

theorem step_cases (s : State Op Res ε W) (t : Turn Answer Outside) :
    L.Steps s t (L.step s t) := by
  cases t with
  | happen c =>
    simp only [step]
    split
    · rename_i h
      exact .happen h
    · exact .idle _
  | perform i e =>
    simp only [step]
    split
    · rename_i o k hi
      split
      · rename_i ho
        split
        · rename_i h
          exact .perform hi ho h
        · exact .idle _
      · exact .idle _
    · exact .idle _
  | resume i =>
    simp only [step]
    split
    · rename_i o k hi
      split
      · exact .idle _
      · rename_i ho
        exact .resume hi (Bool.eq_false_iff.mpr ho)
    · exact .idle _

/-- Every turn of the run meets `ok` in the state in which it is taken. -/
def Meets (ok : State Op Res ε W → Turn Answer Outside → Prop) :
    State Op Res ε W → List (Turn Answer Outside) → Prop
  | _, [] => True
  | s, t :: turns => ok s t ∧ Meets ok (L.step s t) turns

/-- What is met after every prefix of a run. -/
theorem Meets.of_prefixes {ok : State Op Res ε W → Turn Answer Outside → Prop}
    {s : State Op Res ε W} {turns : List (Turn Answer Outside)}
    (h : ∀ before t, before ++ [t] <+: turns → ok (L.run s before) t) : L.Meets ok s turns := by
  induction turns generalizing s with
  | nil => trivial
  | cons t turns ih =>
    refine ⟨h [] t ⟨turns, rfl⟩, ih fun before t' hbefore => ?_⟩
    exact h (t :: before) t' ((List.prefix_cons_inj t).mpr hbefore)

/-- The induction over a run. -/
theorem Meets.run {ok : State Op Res ε W → Turn Answer Outside → Prop}
    {Inv : State Op Res ε W → Prop} (hstep : ∀ s t, Inv s → ok s t → Inv (L.step s t))
    {s : State Op Res ε W} {turns : List (Turn Answer Outside)} (h : L.Meets ok s turns)
    (hs : Inv s) : Inv (L.run s turns) := by
  induction turns generalizing s with
  | nil => exact hs
  | cons t turns ih => exact ih h.2 (hstep s t hs h.1)

/-- The same, by what a turn can do. -/
theorem Meets.along {ok : State Op Res ε W → Turn Answer Outside → Prop}
    {Inv : State Op Res ε W → Prop}
    (hstep : ∀ {s s' t}, L.Steps s t s' → Inv s → ok s t → Inv s') {s : State Op Res ε W}
    {turns : List (Turn Answer Outside)} (h : L.Meets ok s turns) (hs : Inv s) :
    Inv (L.run s turns) :=
  h.run L (fun s t hs hok => hstep (L.step_cases s t) hs hok) hs

end Loop

section Lists

variable {A : Type} {P : A → Prop} {l : List A} {i j : Nat} {p q : A}

/-! ## Every program, after one has changed or started -/

theorem forall_mem_set (hl : ∀ p ∈ l, P p) (hq : P q) : ∀ p ∈ l.set i q, P p := by
  intro p hp
  rcases List.mem_or_eq_of_mem_set hp with hp | rfl
  · exact hl p hp
  · exact hq

theorem forall_mem_snoc (hl : ∀ p ∈ l, P p) (hq : P q) : ∀ p ∈ l ++ [q], P p :=
  List.forall_mem_append.mpr ⟨hl, List.forall_mem_singleton.mpr hq⟩

/-! ## One holder among the programs -/

/-- `P` holds of no element but perhaps the one at `i`. -/
def OnlyAt (P : A → Prop) (l : List A) (i : Nat) : Prop := ∀ j p, l[j]? = some p → P p → j = i

theorem OnlyAt.of_none (h : ∀ p ∈ l, ¬ P p) : OnlyAt P l i :=
  fun _ p hj hp => absurd hp (h p (List.mem_of_getElem? hj))

theorem OnlyAt.same (h : OnlyAt P l i) (hi : l[i]? = some p) (hj : l[j]? = some q) (hq : P q) :
    q = p := by
  rw [h j q hj hq, hi] at hj
  exact (Option.some.inj hj).symm

/-- The holder may change, and no other element becomes one. -/
theorem OnlyAt.set (h : OnlyAt P l i) (hq : P q → j = i) : OnlyAt P (l.set j q) i := by
  intro k p hk hp
  by_cases hjk : j = k
  · subst hjk
    rw [List.getElem?_set_self'] at hk
    obtain ⟨r, -, rfl⟩ := Option.map_eq_some_iff.mp hk
    exact hq hp
  · exact h k p ((List.getElem?_set_ne hjk).symm.trans hk) hp

theorem OnlyAt.append (h : OnlyAt P l i) (hq : ¬ P q) : OnlyAt P (l ++ [q]) i := by
  intro k p hk hp
  rcases Nat.lt_or_ge k l.length with hlt | hge
  · exact h k p ((List.getElem?_append_left hlt).symm.trans hk) hp
  · rw [List.getElem?_append_right hge] at hk
    exact absurd hp (List.mem_singleton.mp (List.mem_of_getElem? hk) ▸ hq)

/-- The holder lets go. -/
theorem OnlyAt.clear (h : OnlyAt P l i) (hq : ¬ P q) : ∀ p ∈ l.set i q, ¬ P p := by
  intro p hmem hp
  obtain ⟨k, hk⟩ := List.mem_iff_getElem?.mp hmem
  obtain rfl := (h.set fun _ => rfl) k p hk hp
  rw [List.getElem?_set_self'] at hk
  obtain ⟨r, -, rfl⟩ := Option.map_eq_some_iff.mp hk
  exact hq hp

/-- A new element becomes the holder. -/
theorem OnlyAt.last (h : ∀ p ∈ l, ¬ P p) : OnlyAt P (l ++ [q]) l.length := by
  intro k p hk hp
  rcases Nat.lt_or_ge k l.length with hlt | hge
  · rw [List.getElem?_append_left hlt] at hk
    exact absurd hp (h p (List.mem_of_getElem? hk))
  · have hlt := (List.getElem?_eq_some_iff.mp hk).1
    simp only [List.length_append, List.length_singleton] at hlt
    omega

theorem getElem?_set_eq {r : A} (hi : l[i]? = some r) : (l.set i q)[i]? = some q := by
  rw [List.getElem?_set_self', hi]
  rfl

end Lists

end Async
