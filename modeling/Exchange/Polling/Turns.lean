import Exchange.Polling.Queue

/-!
# What a turn of the polling programs does

A program of the loop stands at one of a few places (`Form`), and a turn does
one of a few things (`Moves`), told by the place of the program whose turn it is
(`moves_step`). The claims about the cron and about the remembered job are
proved on `Moves`, without the program texts.
-/

namespace Exchange.Polling

open Async Proc Wallets

variable {σ : Source}

/-- The places where a program may stand. -/
inductive Form : Prog σ Unit → Prop where
  | ended (a : Unit) : Form (.pure a)
  | raised (e : Err) : Form (.throw e)
  | initiateJob : Form initiateJob
  | polled (rows : List σ.Row) : Form (polled rows)
  | adding (rows : List σ.Row) : Form (adding rows)
  | added (job : Nat) : Form (added job)
  | watcher (job : Nat) : Form (watcher job)
  | handler : Form handler
  | save (obj : σ.New) : Form (save obj)
  | saved (obj : σ.New) : Form (saved obj)

/-- The state after thread `i` stands at `p`. -/
def State.at (s : State σ) (w : World σ) (i : Nat) (p : Prog σ Unit) : State σ :=
  ⟨w, s.threads.set i p⟩

/-- What a turn may do. -/
inductive Moves (s : State σ) : Turn σ → State σ → Prop where
  | idle (t : Turn σ) : Moves s t s
  | tick (h : s.world.cron = true) : Moves s (.happen .tick) ⟨s.world, s.threads ++ [initiateJob]⟩
  | save (obj : σ.New) : Moves s (.happen (.save obj)) ⟨s.world, s.threads ++ [save obj]⟩
  | finish (job : Nat) (h : s.world.hasJob job = true) : Moves s (.happen (.finish job))
      ⟨{ s.world with
          unfinished := s.world.without job
          finished := s.world.finished ++ [job] }, s.threads⟩
  | fail (job : Nat) (h : s.world.hasJob job = true) : Moves s (.happen (.fail job))
      ⟨{ s.world with
          unfinished := s.world.without job
          failed := s.world.failed ++ [job] }, s.threads⟩
  | change (c : σ.Change) : Moves s (.happen (.change c))
      ⟨{ s.world with store := σ.change c s.world.store }, s.threads⟩
  | reject (i : Nat) (e : Answer σ) (p : Prog σ Unit) (o : Op σ) (hi : s.threads[i]? = some p)
      (hp : p.next = some o) (ho : o.awaits = true)
      (hjob : ∀ job, o = .finished job → job ∈ s.world.failed) :
      Moves s (.perform i e) (s.at s.world i (.throw .rejected))
  | read (i : Nat) (e : Answer σ) (hi : s.threads[i]? = some initiateJob) :
      Moves s (.perform i e) (s.at s.world i (polled (σ.pending s.world.store)))
  | add (i : Nat) (e : Answer σ) (rows : List σ.Row) (hi : s.threads[i]? = some (adding rows))
      (he : e.failing = false) :
      Moves s (.perform i e) (s.at { s.world with
        unfinished := s.world.unfinished ++ [(s.world.next, rows)]
        next := s.world.next + 1 } i (added s.world.next))
  | notice (i : Nat) (e : Answer σ) (job : Nat) (hi : s.threads[i]? = some (watcher job))
      (hjob : job ∈ s.world.finished) : Moves s (.perform i e) (s.at s.world i handler)
  | insert (i : Nat) (e : Answer σ) (obj : σ.New) (hi : s.threads[i]? = some (Polling.save obj)) :
      Moves s (.perform i e)
        (s.at { s.world with store := σ.insert obj s.world.store } i (saved obj))
  | wait (i : Nat) (rows : List σ.Row) (hi : s.threads[i]? = some (polled rows))
      (hrows : 0 < rows.length) (hjob : s.world.job ≠ none) :
      Moves s (.resume i) (s.at s.world i (.pure ()))
  | choose (i : Nat) (rows : List σ.Row) (hi : s.threads[i]? = some (polled rows))
      (hrows : 0 < rows.length) (hjob : s.world.job = none) :
      Moves s (.resume i) (s.at s.world i (adding rows))
  | stop (i : Nat) (hi : s.threads[i]? = some (polled [])) :
      Moves s (.resume i) (s.at { s.world with job := none, cron := false } i (.pure ()))
  | remember (i job : Nat) (hi : s.threads[i]? = some (added job)) :
      Moves s (.resume i) ⟨{ s.world with job := some job },
        s.threads.set i (.pure ()) ++ [watcher job]⟩
  | forget (i : Nat) (hi : s.threads[i]? = some handler) (hjob : s.world.job ≠ none) :
      Moves s (.resume i) (s.at { s.world with job := none } i (.pure ()))
  | crash (i : Nat) (hi : s.threads[i]? = some handler) (hjob : s.world.job = none) :
      Moves s (.resume i) (s.at s.world i (.throw .typeError))
  | start (i : Nat) (obj : σ.New) (hi : s.threads[i]? = some (saved obj))
      (hchain : σ.onChain obj = true) :
      Moves s (.resume i) (s.at { s.world with cron := true } i (.pure ()))

/-- Every program stands at one of its places. -/
def AllForms (s : State σ) : Prop := ∀ t ∈ s.threads, Form t

section Step

variable {s : State σ}

/-- A call that leaves the process is performed. -/
theorem step_perform {i : Nat} {e : Answer σ} {o : Op σ} {k : Except Err o.Res → Prog σ Unit}
    (hi : s.threads[i]? = some (.op o k)) (ho : o.awaits = true) :
    (loop σ).step s (.perform i e) = match answer e o s.world with
      | some (r, w) => s.at w i (k r)
      | none => s := by
  have ho' : (loop σ).awaits o = true := ho
  have hanswer : (loop σ).answer e o s.world = answer e o s.world := rfl
  simp only [Loop.step, hi, ho', if_true, hanswer]
  cases answer e o s.world <;> rfl

/-- A call that fails, of a program that does not handle it. -/
theorem moves_reject {i : Nat} {e : Answer σ} {o : Op σ} {k : Except Err o.Res → Prog σ Unit}
    {p : Prog σ Unit} (hi : s.threads[i]? = some p) (hp : p = .op o k) (ho : o.awaits = true)
    (hanswer : answer e o s.world = some (.error .rejected, s.world))
    (hk : k (.error .rejected) = .throw .rejected)
    (hjob : ∀ job, o = .finished job → job ∈ s.world.failed) :
    Moves s (.perform i e) ((loop σ).step s (.perform i e)) := by
  rw [step_perform (hp ▸ hi) ho, hanswer]
  dsimp only
  rw [hk]
  exact .reject i e p o hi (by rw [hp]; rfl) ho hjob

theorem answer_failing {e : Answer σ} {o : Op σ} (hf : e.failing = true) (ho : o.awaits = true)
    (hjob : ∀ job, o ≠ .finished job) (w : World σ) :
    answer e o w = some (.error .rejected, w) := by
  cases e with
  | fails =>
    cases o with
    | getPending | add | save | other => rfl
    | finished job => exact absurd rfl (hjob job)
    | _ => cases ho
  | _ => cases hf

/-- A call other than the wait for a job fails. -/
theorem moves_fails {i : Nat} {e : Answer σ} {o : Op σ} {k : Except Err o.Res → Prog σ Unit}
    {p : Prog σ Unit} (hi : s.threads[i]? = some p) (hp : p = .op o k) (ho : o.awaits = true)
    (hf : e.failing = true) (hk : k (.error .rejected) = .throw .rejected)
    (hjob : ∀ job, o ≠ .finished job) :
    Moves s (.perform i e) ((loop σ).step s (.perform i e)) :=
  moves_reject hi hp ho (answer_failing hf ho hjob s.world) hk fun job h => absurd h (hjob job)

/-- The calls of the programs that are to be resumed do not leave the process. -/
theorem polled_answered (rows : List σ.Row) :
    ∀ o, (polled rows).next = some o → o.awaits = false := by
  cases rows with
  | nil =>
    rintro o ⟨⟩
    rfl
  | cons r rows =>
    rintro o ⟨⟩
    rfl

theorem saved_answered (obj : σ.New) : ∀ o, (saved obj).next = some o → o.awaits = false := by
  intro o ho
  rw [saved] at ho
  split at ho
  · cases ho
    rfl
  · cases ho

/-- A program that is to be resumed performs nothing. -/
theorem moves_perform_idle {i : Nat} {e : Answer σ} {p : Prog σ Unit}
    (hi : s.threads[i]? = some p) (hp : ∀ o, p.next = some o → o.awaits = false) :
    Moves s (.perform i e) ((loop σ).step s (.perform i e)) := by
  rw [(loop σ).step_perform_idle hi hp]
  exact .idle _

theorem moves_perform (hforms : AllForms s) (i : Nat) (e : Answer σ) :
    Moves s (.perform i e) ((loop σ).step s (.perform i e)) := by
  cases hi : s.threads[i]? with
  | none =>
    simp only [Loop.step, hi]
    exact .idle _
  | some p =>
    cases hforms p (List.mem_of_getElem? hi) with
    | ended | raised => exact moves_perform_idle hi fun o h => by cases h
    | initiateJob =>
      cases hf : e.failing with
      | true => exact moves_fails hi rfl rfl hf rfl fun _ h => by cases h
      | false =>
        rw [step_perform (o := .getPending) hi rfl]
        simp only [answer, hf]
        exact .read i e hi
    | polled rows => exact moves_perform_idle hi (polled_answered rows)
    | adding rows =>
      cases hf : e.failing with
      | true => exact moves_fails hi rfl rfl hf rfl fun _ h => by cases h
      | false =>
        rw [step_perform (o := .add rows) hi rfl]
        simp only [answer, hf]
        exact .add i e rows hi hf
    | added | handler =>
      refine moves_perform_idle hi ?_
      rintro o ⟨⟩
      rfl
    | watcher job =>
      by_cases hdone : job ∈ s.world.finished
      · rw [step_perform (o := .finished job) hi rfl]
        simp only [answer, if_pos hdone]
        exact .notice i e job hi hdone
      · by_cases hfail : job ∈ s.world.failed
        · have hanswer : answer e (.finished job) s.world = some (.error .rejected, s.world) := by
            simp [answer, hdone, hfail]
          refine moves_reject (o := .finished job) hi rfl rfl hanswer rfl fun job' hjob => ?_
          cases hjob
          exact hfail
        · rw [step_perform (o := .finished job) hi rfl]
          simp only [answer, if_neg hdone, if_neg hfail]
          exact .idle _
    | save obj =>
      cases hf : e.failing with
      | true => exact moves_fails hi rfl rfl hf rfl fun _ h => by cases h
      | false =>
        rw [step_perform (o := .save obj) hi rfl]
        simp only [answer, hf]
        exact .insert i e obj hi
    | saved obj => exact moves_perform_idle hi (saved_answered obj)

/-- A program is resumed and runs up to its next await, starting others. -/
theorem step_resume {i : Nat} {p q : Prog σ Unit} {o : Op σ}
    {k : Except Err o.Res → Prog σ Unit} {w : World σ} {started : List (Prog σ Unit)}
    (hi : s.threads[i]? = some p) (hp : p = .op o k) (ho : o.awaits = false)
    (hburst : (loop σ).burst p s.world = (q, w, started)) :
    (loop σ).step s (.resume i) = ⟨w, s.threads.set i q ++ started⟩ := by
  have ho' : (loop σ).awaits o = false := ho
  subst hp
  simp only [Loop.step, hi, ho', Bool.false_eq_true, if_false, hburst]

theorem burst_polled_nil (w : World σ) : (loop σ).burst (polled []) w =
    (.pure (), { w with job := none, cron := false }, []) := rfl

theorem burst_startCron (w : World σ) : (loop σ).burst (call .startCron) w =
    (.pure (), { w with cron := true }, []) := rfl

theorem burst_handler_none {w : World σ} (hjob : w.job = none) :
    (loop σ).burst handler w = (.throw .typeError, w, []) := by
  change (loop σ).burst (handled w.job) w = _
  rw [hjob]
  rfl

theorem burst_handler_some {w : World σ} {job : Nat} (hjob : w.job = some job) :
    (loop σ).burst handler w = (.pure (), { w with job := none }, []) := by
  change (loop σ).burst (handled w.job) w = _
  rw [hjob]
  rfl

theorem burst_polled_none {w : World σ} {rows : List σ.Row} (hrows : 0 < rows.length)
    (hjob : w.job = none) : (loop σ).burst (polled rows) w = (adding rows, w, []) := by
  rw [polled, if_pos hrows]
  change (loop σ).burst (guarded rows w.job) w = _
  rw [hjob]
  rfl

theorem burst_polled_some {w : World σ} {rows : List σ.Row} (hrows : 0 < rows.length) {job : Nat}
    (hjob : w.job = some job) : (loop σ).burst (polled rows) w = (.pure (), w, []) := by
  rw [polled, if_pos hrows]
  change (loop σ).burst (guarded rows w.job) w = _
  rw [hjob]
  rfl

/-- A program at an await is not resumed. -/
theorem moves_resume_idle {i : Nat} {p : Prog σ Unit} (hi : s.threads[i]? = some p)
    (hp : ∀ o, p.next = some o → o.awaits = true) :
    Moves s (.resume i) ((loop σ).step s (.resume i)) := by
  rw [(loop σ).step_resume_idle hi hp]
  exact .idle _

theorem moves_resume (hforms : AllForms s) (i : Nat) :
    Moves s (.resume i) ((loop σ).step s (.resume i)) := by
  cases hi : s.threads[i]? with
  | none =>
    simp only [Loop.step, hi]
    exact .idle _
  | some p =>
    cases hforms p (List.mem_of_getElem? hi) with
    | ended | raised => exact moves_resume_idle hi fun o h => by cases h
    | initiateJob | adding | watcher | save =>
      refine moves_resume_idle hi ?_
      rintro o ⟨⟩
      rfl
    | polled rows =>
      cases rows with
      | nil =>
        rw [step_resume (o := .setJob none) hi rfl rfl (burst_polled_nil _), List.append_nil]
        exact .stop i hi
      | cons r rows =>
        have hrows : 0 < (r :: rows).length := Nat.succ_pos _
        cases hjob : s.world.job with
        | none =>
          rw [step_resume (o := .job) hi rfl rfl (burst_polled_none hrows hjob), List.append_nil]
          exact .choose i _ hi hrows hjob
        | some job =>
          rw [step_resume (o := .job) hi rfl rfl (burst_polled_some hrows hjob), List.append_nil]
          exact .wait i _ hi hrows (by simp [hjob])
    | added job =>
      rw [step_resume (o := .setJob (some job)) hi rfl rfl rfl]
      exact .remember i job hi
    | handler =>
      cases hjob : s.world.job with
      | none =>
        rw [step_resume (o := .job) hi rfl rfl (burst_handler_none hjob), List.append_nil]
        exact .crash i hi hjob
      | some job =>
        rw [step_resume (o := .job) hi rfl rfl (burst_handler_some hjob), List.append_nil]
        exact .forget i hi (by simp [hjob])
    | saved obj =>
      cases hchain : σ.onChain obj with
      | true =>
        have hstart : s.threads[i]? = some (call .startCron) :=
          hi.trans (by rw [saved, if_pos hchain])
        rw [step_resume (o := .startCron) hstart rfl rfl (burst_startCron _), List.append_nil]
        exact .start i obj hi hchain
      | false =>
        rw [saved, hchain] at hi
        exact moves_resume_idle hi fun o h => by cases h

theorem moves_happen (c : Outside σ) :
    Moves s (.happen c) ((loop σ).step s (.happen c)) := by
  have hhappen : (loop σ).happen c s.world = happen c s.world := rfl
  simp only [Loop.step, hhappen]
  cases c with
  | tick =>
    cases hcron : s.world.cron with
    | true =>
      simp only [happen, hcron, if_true]
      exact .tick hcron
    | false =>
      simp only [happen, hcron]
      exact .idle _
  | save obj => exact .save obj
  | finish job =>
    cases hjob : s.world.hasJob job with
    | true =>
      simp only [happen, hjob, if_true, List.append_nil]
      exact .finish job hjob
    | false =>
      simp only [happen, hjob]
      exact .idle _
  | fail job =>
    cases hjob : s.world.hasJob job with
    | true =>
      simp only [happen, hjob, if_true, List.append_nil]
      exact .fail job hjob
    | false =>
      simp only [happen, hjob]
      exact .idle _
  | change c =>
    simp only [happen, List.append_nil]
    exact .change c

/-- **A turn is a move.** -/
theorem moves_step (hforms : AllForms s) (t : Turn σ) : Moves s t ((loop σ).step s t) := by
  cases t with
  | happen c => exact moves_happen c
  | perform i e => exact moves_perform hforms i e
  | resume i => exact moves_resume hforms i

theorem AllForms.at (hforms : AllForms s) {w : World σ} {i : Nat} {p : Prog σ Unit}
    (hp : Form p) : AllForms (s.at w i p) := forall_mem_set hforms hp

theorem AllForms.append {p : Prog σ Unit} {w : World σ} {threads : List (Prog σ Unit)}
    (hforms : AllForms ⟨w, threads⟩) (hp : Form p) : AllForms ⟨w, threads ++ [p]⟩ :=
  forall_mem_snoc hforms hp

/-- A move leads from place to place. -/
theorem Moves.forms {s' : State σ} {t : Turn σ} (h : Moves s t s') (hforms : AllForms s) :
    AllForms s' := by
  cases h with
  | idle => exact hforms
  | tick => exact hforms.append .initiateJob
  | save obj => exact hforms.append (.save obj)
  | finish | fail | change => exact hforms
  | reject => exact hforms.at (.raised _)
  | read => exact hforms.at (.polled _)
  | add => exact hforms.at (.added _)
  | notice => exact hforms.at .handler
  | insert i e obj => exact hforms.at (.saved obj)
  | wait | stop | forget | start => exact hforms.at (.ended ())
  | choose => exact hforms.at (.adding _)
  | remember i job =>
    have hset : AllForms (s.at { s.world with job := some job } i (.pure ())) :=
      hforms.at (.ended ())
    exact hset.append (.watcher job)
  | crash => exact hforms.at (.raised _)

end Step

end Exchange.Polling
