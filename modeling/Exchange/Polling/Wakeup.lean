import Exchange.Polling.Sources

/-!
# Wake-ups of the polling crons

A tick that read no pending row stops the cron, and a save starts it after its
row is in the table. The tick awaits the answer between its reading and its stop,
so that a row may be saved, and the cron started, in between: the stop is then
stale, and the row is not polled (`withdrawal_not_polled`). As long as every stop
is fresh, whatever is pending is polled (`polled_of_freshStop`).
-/

namespace Exchange.Polling

open Async Wallets

variable {σ : Source}

/-- Neither a tick nor a save: what has ended, and what waits for a job or
handles its end. -/
inductive Idle : Prog σ Unit → Prop where
  | ended (a : Unit) : Idle (.pure a)
  | raised (e : Err) : Idle (.throw e)
  | watcher (job : Nat) : Idle (watcher job)
  | handler : Idle handler

/-- No tick and no save is in progress. -/
def Quiet (s : State σ) : Prop := ∀ p ∈ s.threads, Idle p

/-- The rows that a tick would read now. -/
def State.pending (s : State σ) : List σ.Row := σ.pending s.world.store

/-- A save has inserted its row and is still to start the cron. -/
def Waking (s : State σ) : Prop := ∃ obj, σ.onChain obj = true ∧ saved obj ∈ s.threads

/-- A tick that read no row stops the cron only while there is none, or while a
save is about to start it again. -/
def FreshStop (s : State σ) (t : Turn σ) : Prop :=
  ∀ i, t = .resume i → s.threads[i]? = some (polled []) → s.pending = [] ∨ Waking s

/-- What is pending is polled, or will be when a save goes on. -/
def Awake (s : State σ) : Prop := s.world.cron = true ∨ s.pending = [] ∨ Waking s

section Step

variable {s s' : State σ} {t : Turn σ} {p q : Prog σ Unit} {i : Nat} {w : World σ}

/-- A program that does not start the cron is not the save that is about to. -/
theorem Waking.at (h : Waking s) (hi : s.threads[i]? = some p) (hp : p.next ≠ some .startCron) :
    Waking (s.at w i q) := by
  obtain ⟨obj, hchain, hmem⟩ := h
  obtain ⟨j, hj⟩ := List.mem_iff_getElem?.mp hmem
  refine ⟨obj, hchain, List.mem_iff_getElem?.mpr ⟨j, ?_⟩⟩
  have hne : i ≠ j := by
    rintro rfl
    obtain rfl : p = saved obj := Option.some.inj (hi.symm.trans hj)
    rw [saved, if_pos hchain] at hp
    exact hp rfl
  exact (List.getElem?_set_ne hne).trans hj

theorem Waking.append (h : Waking s) : Waking ⟨w, s.threads ++ [q]⟩ := by
  obtain ⟨obj, hchain, hmem⟩ := h
  exact ⟨obj, hchain, List.mem_append_left _ hmem⟩

/-- A turn that stops nothing, makes nothing pending and ends no such save. -/
theorem Awake.mono (h : Awake s) (hcron : s.world.cron = true → s'.world.cron = true)
    (hpending : s.pending = [] → s'.pending = []) (hwaking : Waking s → Waking s') : Awake s' := by
  rcases h with h | h | h
  · exact .inl (hcron h)
  · exact .inr (.inl (hpending h))
  · exact .inr (.inr (hwaking h))

theorem Awake.at (h : Awake s) (hi : s.threads[i]? = some p) (hp : p.next ≠ some .startCron)
    (hcron : w.cron = s.world.cron) (hstore : w.store = s.world.store) : Awake (s.at w i q) := by
  refine h.mono (fun hc => hcron.trans hc) (fun hr => ?_) (fun hw => hw.at hi hp)
  exact (congrArg σ.pending hstore).trans hr

theorem polled_next {rows : List σ.Row} (h : 0 < rows.length) : (polled rows).next = some .job := by
  cases rows with
  | nil => cases h
  | cons r rows => rfl

/-- A turn keeps the system awake. -/
theorem Moves.awake (h : Moves s t s') (hok : FreshStop s t) (hs : Awake s) : Awake s' := by
  cases h with
  | idle => exact hs
  | tick | save => exact hs.mono id id Waking.append
  | finish | fail => exact hs
  | change c =>
    refine hs.mono id (fun hr => ?_) id
    refine List.eq_nil_iff_forall_not_mem.mpr fun r hmem => ?_
    have hold : r ∈ s.pending := σ.pending_change c s.world.store r hmem
    rw [hr] at hold
    cases hold
  | reject i e p o hi hp ho _ =>
    refine hs.at hi ?_ rfl rfl
    rw [hp]
    rintro ⟨⟩
    cases ho
  | read i e hi => exact hs.at hi nofun rfl rfl
  | add i e rows hi _ => exact hs.at hi nofun rfl rfl
  | notice i e job hi => exact hs.at hi nofun rfl rfl
  | insert i e obj hi =>
    cases hchain : σ.onChain obj with
    | true =>
      have hlt : i < s.threads.length := (List.getElem?_eq_some_iff.mp hi).1
      exact .inr (.inr ⟨obj, hchain, List.mem_set hlt _⟩)
    | false =>
      refine hs.mono id (fun hr => ?_) (fun hw => hw.at hi nofun)
      refine List.eq_nil_iff_forall_not_mem.mpr fun r hmem => ?_
      have hold : r ∈ s.pending := σ.pending_insert obj s.world.store hchain r hmem
      rw [hr] at hold
      cases hold
  | wait i rows hi hrows =>
    refine hs.at hi ?_ rfl rfl
    rw [polled_next hrows]
    nofun
  | choose i rows hi hrows =>
    refine hs.at hi ?_ rfl rfl
    rw [polled_next hrows]
    nofun
  | stop i hi =>
    -- the one turn that stops the cron: what `FreshStop` says of it
    rcases hok i rfl hi with hr | hw
    · exact .inr (.inl hr)
    · exact .inr (.inr (hw.at hi nofun))
  | remember i job hi =>
    have hset : Awake (s.at { s.world with job := some job } i (.pure ())) :=
      hs.at hi nofun rfl rfl
    exact hset.mono id id Waking.append
  | forget i hi => exact hs.at hi nofun rfl rfl
  | crash i hi => exact hs.at hi nofun rfl rfl
  | start => exact .inl rfl

/-- A save that is about to start the cron is in progress. -/
theorem Quiet.not_waking (h : Quiet s) : ¬ Waking s := by
  rintro ⟨obj, hchain, hmem⟩
  have hidle : Idle (saved obj) := h _ hmem
  rw [saved, if_pos hchain] at hidle
  have hnext : ∀ p : Prog σ Unit, Idle p → p.next ≠ some .startCron := by
    intro p hp h
    cases hp <;> cases h
  exact hnext _ hidle rfl

end Step

theorem awake_run {w : World σ} {turns : List (Turn σ)} (hcron : w.cron = true)
    (hturns : (loop σ).Meets FreshStop (State.start w) turns) :
    Awake ((loop σ).run (State.start w) turns) := by
  have hstep : ∀ s t, AllForms s ∧ Awake s → FreshStop s t →
      AllForms ((loop σ).step s t) ∧ Awake ((loop σ).step s t) := by
    intro s t hs hok
    have hmove := moves_step hs.1 t
    exact ⟨hmove.forms hs.1, hmove.awake hok hs.2⟩
  have hinv := Loop.Meets.run (loop σ) hstep hturns ⟨nofun, .inl hcron⟩
  exact hinv.2

/-- **No lost wake-up** of either cron, in a run whose stops are all fresh:
whenever no tick and no save is in progress and a row is pending, the cron runs. -/
theorem polled_of_freshStop (kind : Kind) (w : World kind.source) (turns : List (Turn kind.source))
    (hcron : w.cron = true)
    (hturns : (loop kind.source).Meets FreshStop (State.start w) turns) :
    let s : State kind.source := (loop kind.source).run (State.start w) turns
    Quiet s → s.pending ≠ [] → s.world.cron = true := by
  intro s hquiet hpending
  rcases awake_run hcron hturns with hc | hr | hw
  · exact hc
  · exact absurd hr hpending
  · exact absurd hw hquiet.not_waking

/-! ## A save before and after the stop of a tick -/

def World.polling : World withdrawals := .opened ⟨[], 1, 0⟩

def pendingWithdrawal : NewWithdrawal :=
  ⟨1, some "from", "to", .USDT, "BEP20", 5, some "0x1", .Pending⟩

/-- A tick reads, a withdrawal is saved and the cron started, and the tick stops it. -/
def staleStop : List (Turn withdrawals) :=
  [.happen .tick, .perform 0 .ok, .happen (.save pendingWithdrawal), .perform 1 .ok, .resume 1,
    .resume 0]

/-- The tick stops the cron, and a withdrawal is saved after it. -/
def freshStop : List (Turn withdrawals) :=
  [.happen .tick, .perform 0 .ok, .resume 0, .happen (.save pendingWithdrawal), .perform 1 .ok,
    .resume 1]

def pollingRun (turns : List (Turn withdrawals)) : State withdrawals :=
  (loop withdrawals).run (State.start .polling) turns

theorem quiet_of_ended {s : State withdrawals} (h : s.threads = [.pure (), .pure ()]) :
    Quiet s := by
  intro p hp
  rw [h] at hp
  obtain rfl : p = .pure () := by simpa using hp
  exact .ended ()

theorem pending_of_length {s : State withdrawals} (h : (State.pending s).length = 1) :
    State.pending s ≠ [] := by
  intro hnil
  rw [hnil] at h
  cases h

theorem withdrawal_polled :
    State.pending (pollingRun freshStop) ≠ [] ∧ (pollingRun freshStop).world.cron = true := by
  have hmeets : (loop withdrawals).Meets FreshStop (State.start .polling) freshStop := by
    refine ⟨nofun, nofun, ?_, nofun, nofun, ?_, trivial⟩
    · intro i hi hp
      exact .inl rfl
    · rintro i ⟨⟩ hp
      cases hp
  have hpending : State.pending (pollingRun freshStop) ≠ [] := pending_of_length (by decide +kernel)
  refine ⟨hpending, ?_⟩
  exact polled_of_freshStop .withdrawal .polling freshStop rfl hmeets (quiet_of_ended rfl) hpending

theorem withdrawal_not_polled :
    World.polling.cron = true ∧ Quiet (pollingRun staleStop) ∧
      State.pending (pollingRun staleStop) ≠ [] ∧ (pollingRun staleStop).world.cron = false :=
  ⟨rfl, quiet_of_ended rfl, pending_of_length (by decide +kernel), rfl⟩

end Exchange.Polling
