import Exchange.Polling.Wakeup

/-!
# The guard of the queues

A tick adds a job when it finds the remembered job empty, awaits the queue, and
only then remembers the job; the handler of a finished job empties the field, a
tick without rows empties it too, and nothing does after a job has failed. So two
ticks may add a job each, a handler may find the field empty, and a failed job
may block the polling (`guard_not_exact`). In a run without these three steps the
field says exactly whether there is a job (`exact_of_guarded`).

The proof follows the one program that holds the job: the tick that has added it,
then the watcher, then the handler.
-/

namespace Exchange.Polling

open Async Wallets

variable {σ : Source}

/-- A tick that has not ended. -/
inductive Ticking : Prog σ Unit → Prop where
  | initiateJob : Ticking initiateJob
  | polled (rows : List σ.Row) : Ticking (polled rows)
  | adding (rows : List σ.Row) : Ticking (adding rows)
  | added (job : Nat) : Ticking (added job)

def NoTick (s : State σ) : Prop := ∀ p ∈ s.threads, ¬ Ticking p

/-- A job has finished, and its handler has not run. -/
def Ending (s : State σ) : Prop :=
  (∃ job ∈ s.world.finished, watcher job ∈ s.threads) ∨ handler ∈ s.threads

structure GuardExact (s : State σ) : Prop where
  /-- At most one job is unfinished. -/
  one : s.world.unfinished.length ≤ 1
  /-- A job is remembered exactly while there is one. -/
  guard : NoTick s → (s.world.job ≠ none ↔ s.world.unfinished ≠ [] ∨ Ending s)
  /-- No handler has read the id of no job. -/
  live : ∀ p ∈ s.threads, p ≠ .throw .typeError

/-- No job is added beside another, no tick forgets a job, and no job fails. -/
structure Guarded (s : State σ) (t : Turn σ) : Prop where
  add : ∀ i e rows, t = .perform i e → e.failing = false → s.threads[i]? = some (adding rows) →
    s.world.job = none ∧ s.world.unfinished = [] ∧ ∀ job, added job ∉ s.threads
  stop : ∀ i, t = .resume i → s.threads[i]? = some (polled []) → s.world.job = none
  fail : ∀ job, t = .happen (.fail job) → s.world.hasJob job = false

theorem Guarded.happen {s : State σ} {c : Outside σ} (h : ∀ job, c ≠ .fail job) :
    Guarded s (.happen c) where
  add := nofun
  stop := nofun
  fail := by
    rintro job ⟨⟩
    exact absurd rfl (h job)

theorem Guarded.perform {s : State σ} {i : Nat} {e : Answer σ} {p : Prog σ Unit}
    (hi : s.threads[i]? = some p) (hp : ∀ rows, p.next ≠ some (.add rows)) :
    Guarded s (.perform i e) where
  add := by
    rintro j e rows ⟨⟩ - hj
    exact absurd (congrArg Proc.next (Option.some.inj (hi.symm.trans hj))) (hp rows)
  stop := nofun
  fail := nofun

theorem Guarded.resume {s : State σ} {i : Nat} {p : Prog σ Unit} (hi : s.threads[i]? = some p)
    (hp : p.next ≠ some (.setJob none)) : Guarded s (.resume i) where
  add := nofun
  stop := by
    rintro j ⟨⟩ hj
    exact absurd (congrArg Proc.next (Option.some.inj (hi.symm.trans hj))) hp
  fail := nofun

/-! ## The program that holds the job -/

inductive Busy : Prog σ Unit → Prop where
  | added (job : Nat) : Busy (added job)
  | watcher (job : Nat) : Busy (watcher job)
  | handler : Busy handler

section Busy

variable {p : Prog σ Unit}

theorem Busy.next (h : Busy p) : (∃ job, p.next = some (.setJob (some job))) ∨
    (∃ job, p.next = some (.finished job)) ∨ p.next = some .job := by
  cases h with
  | added job => exact .inl ⟨job, rfl⟩
  | watcher job => exact .inr (.inl ⟨job, rfl⟩)
  | handler => exact .inr (.inr rfl)

theorem not_busy (hset : ∀ job, p.next ≠ some (.setJob (some job)))
    (hfinished : ∀ job, p.next ≠ some (.finished job)) (hjob : p.next ≠ some .job) : ¬ Busy p := by
  intro h
  rcases h.next with ⟨job, h⟩ | ⟨job, h⟩ | h
  · exact hset job h
  · exact hfinished job h
  · exact hjob h

theorem not_busy_ended (a : Unit) : ¬ Busy (.pure a : Prog σ Unit) := not_busy nofun nofun nofun

theorem not_busy_raised (e : Err) : ¬ Busy (.throw e : Prog σ Unit) := not_busy nofun nofun nofun

/-- What a program goes on with when it reads that a job is remembered. -/
def resumed : Prog σ Unit → Option (Op σ)
  | .op .job k => (k (.ok (some 0))).next
  | _ => none

theorem Busy.resumed (h : Busy p) (hp : p.next = some .job) : resumed p = some (.setJob none) := by
  cases h with
  | added | watcher => cases hp
  | handler => rfl

/-- A tick and a handler read the same field, but only the handler writes it then. -/
theorem not_busy_polled (rows : List σ.Row) : ¬ Busy (polled rows) := by
  cases rows with
  | nil => exact not_busy nofun nofun nofun
  | cons r rows =>
    intro h
    have hresumed := h.resumed rfl
    cases hresumed

theorem not_busy_saved (obj : σ.New) : ¬ Busy (saved obj) := by
  rw [saved]
  split
  · intro h
    rcases h.next with ⟨job, h⟩ | ⟨job, h⟩ | h <;> cases h
  · exact not_busy_ended ()

end Busy

/-- Job `j` is the one job, finished or not. -/
def World.Holds (w : World σ) (j : Nat) : Prop :=
  (∃ rows, w.unfinished = [(j, rows)]) ∧ j ∉ w.finished ∨ w.unfinished = [] ∧ j ∈ w.finished

/-- Who holds the job. -/
inductive Phase (s : State σ) : Prop where
  | free (hjob : s.world.job = none) (hnone : s.world.unfinished = [])
      (hclear : ∀ p ∈ s.threads, ¬ Busy p)
  | added (i j : Nat) (hi : s.threads[i]? = some (added j)) (honly : OnlyAt Busy s.threads i)
      (hjob : s.world.job = none) (hholds : s.world.Holds j)
  | watched (i j : Nat) (hi : s.threads[i]? = some (watcher j)) (honly : OnlyAt Busy s.threads i)
      (hjob : s.world.job = some j) (hholds : s.world.Holds j)
  | noticed (i : Nat) (hi : s.threads[i]? = some handler) (honly : OnlyAt Busy s.threads i)
      (hjob : s.world.job ≠ none) (hnone : s.world.unfinished = [])

/-- The ids of jobs are used once. -/
def World.Fresh (w : World σ) : Prop :=
  ∀ j, j ∈ w.finished ∨ w.hasJob j = true → j < w.next

/-! ## What a turn does to the holder -/

section Step

variable {s s' : State σ} {t : Turn σ} {p q : Prog σ Unit} {i j : Nat} {w : World σ}

theorem World.Holds.congr (h : s.world.Holds j) (hun : w.unfinished = s.world.unfinished)
    (hfin : w.finished = s.world.finished) : w.Holds j := by
  simpa only [World.Holds, hun, hfin] using h

/-- A turn of a program that does not hold the job and does not take it. -/
theorem Phase.at (h : Phase s) (hi : s.threads[i]? = some p) (hp : ¬ Busy p) (hq : ¬ Busy q)
    (hjob : w.job = s.world.job) (hun : w.unfinished = s.world.unfinished)
    (hfin : w.finished = s.world.finished) : Phase (s.at w i q) := by
  have hkeeps : ∀ {k : Nat} {r : Prog σ Unit}, s.threads[k]? = some r → Busy r →
      (s.threads.set i q)[k]? = some r := by
    intro k r hk hr
    refine (List.getElem?_set_ne ?_).trans hk
    rintro rfl
    exact hp (Option.some.inj (hi.symm.trans hk) ▸ hr)
  cases h with
  | free hnojob hnone hclear =>
    exact .free (hjob.trans hnojob) (hun.trans hnone) (forall_mem_set hclear hq)
  | added k j hk honly hnojob hholds =>
    exact .added k j (hkeeps hk (.added j)) (honly.set fun hb => absurd hb hq)
      (hjob.trans hnojob) (hholds.congr hun hfin)
  | watched k j hk honly hsome hholds =>
    exact .watched k j (hkeeps hk (.watcher j)) (honly.set fun hb => absurd hb hq)
      (hjob.trans hsome) (hholds.congr hun hfin)
  | noticed k hk honly hsome hnone =>
    exact .noticed k (hkeeps hk .handler) (honly.set fun hb => absurd hb hq)
      (fun h => hsome (hjob.symm.trans h)) (hun.trans hnone)

/-- A program starts that does not hold the job. -/
theorem Phase.append (h : Phase s) (hq : ¬ Busy q) : Phase ⟨s.world, s.threads ++ [q]⟩ := by
  have hkeeps : ∀ {k : Nat} {r : Prog σ Unit}, s.threads[k]? = some r →
      (s.threads ++ [q])[k]? = some r :=
    fun hk => (List.getElem?_append_left (List.getElem?_eq_some_iff.mp hk).1).trans hk
  cases h with
  | free hjob hnone hclear => exact .free hjob hnone (forall_mem_snoc hclear hq)
  | added k j hk honly hjob hholds => exact .added k j (hkeeps hk) (honly.append hq) hjob hholds
  | watched k j hk honly hjob hholds => exact .watched k j (hkeeps hk) (honly.append hq) hjob hholds
  | noticed k hk honly hjob hnone => exact .noticed k (hkeeps hk) (honly.append hq) hjob hnone

theorem World.hasJob_iff : w.hasJob j = true ↔ ∃ x ∈ w.unfinished, x.1 = j := by
  simp [World.hasJob]

theorem World.not_hasJob (h : w.unfinished = []) : w.hasJob j = false := by
  rw [World.hasJob, h]
  rfl

theorem World.Holds.finish (h : w.Holds j) (hjob : w.hasJob i = true) :
    World.Holds { w with unfinished := w.without i, finished := w.finished ++ [i] } j := by
  rcases h with ⟨⟨rows, hone⟩, -⟩ | ⟨hnone, -⟩
  · have hij : j = i := by simpa [World.hasJob, hone] using hjob
    subst hij
    exact .inr ⟨by simp [World.without, hone], List.mem_append_right _ (List.mem_singleton_self _)⟩
  · rw [World.not_hasJob hnone] at hjob
    cases hjob

/-- The one job finishes. -/
theorem Phase.finish (h : Phase s) (hjob : s.world.hasJob i = true) :
    Phase ⟨{ s.world with
      unfinished := s.world.without i
      finished := s.world.finished ++ [i] }, s.threads⟩ := by
  cases h with
  | free _ hnone =>
    rw [World.not_hasJob hnone] at hjob
    cases hjob
  | added k j hk honly hnojob hholds => exact .added k j hk honly hnojob (hholds.finish hjob)
  | watched k j hk honly hsome hholds => exact .watched k j hk honly hsome (hholds.finish hjob)
  | noticed k hk honly hsome hnone =>
    rw [World.not_hasJob hnone] at hjob
    cases hjob

/-- The tick that has added the job remembers it, and its watcher takes over. -/
theorem Phase.remember (h : Phase s) (hi : s.threads[i]? = some (Polling.added j)) :
    Phase ⟨{ s.world with job := some j }, s.threads.set i (.pure ()) ++ [watcher j]⟩ := by
  cases h with
  | free _ _ hclear => exact absurd (.added j) (hclear _ (List.mem_of_getElem? hi))
  | added k j' hk honly _ hholds =>
    have hnext := congrArg Proc.next (honly.same hk hi (.added j))
    obtain rfl : j = j' := by
      cases hnext
      rfl
    obtain rfl := honly i _ hi (.added j)
    have hclear := honly.clear (not_busy_ended ())
    exact .watched _ j (by simp) (OnlyAt.last hclear) rfl hholds
  | watched k j' hk honly => cases congrArg Proc.next (honly.same hk hi (.added j))
  | noticed k hk honly => cases congrArg Proc.next (honly.same hk hi (.added j))

/-- The watcher sees the end of the job, and the handler takes over. -/
theorem Phase.notice (h : Phase s) (hi : s.threads[i]? = some (watcher j))
    (hj : j ∈ s.world.finished) : Phase (s.at s.world i handler) := by
  cases h with
  | free _ _ hclear => exact absurd (.watcher j) (hclear _ (List.mem_of_getElem? hi))
  | added k j' hk honly => cases congrArg Proc.next (honly.same hk hi (.watcher j))
  | watched k j' hk honly hjob hholds =>
    have hnext := congrArg Proc.next (honly.same hk hi (.watcher j))
    obtain rfl : j = j' := by
      cases hnext
      rfl
    obtain rfl := honly i _ hi (.watcher j)
    have hset : OnlyAt Busy (s.threads.set i handler) i := honly.set fun _ => rfl
    refine .noticed i (getElem?_set_eq hi) hset (hjob ▸ nofun) ?_
    rcases hholds with ⟨-, hnot⟩ | ⟨hnone, -⟩
    · exact absurd hj hnot
    · exact hnone
  | noticed k hk honly => cases congrArg Proc.next (honly.same hk hi (.watcher j))

/-- Where a handler is, it holds the job. -/
theorem Phase.of_handler (h : Phase s) (hi : s.threads[i]? = some handler) :
    OnlyAt Busy s.threads i ∧ s.world.job ≠ none ∧ s.world.unfinished = [] := by
  cases h with
  | free _ _ hclear => exact absurd .handler (hclear _ (List.mem_of_getElem? hi))
  | added k j' hk honly => cases congrArg Proc.next (honly.same hk hi .handler)
  | watched k j' hk honly => cases congrArg Proc.next (honly.same hk hi .handler)
  | noticed k hk honly hjob hnone =>
    obtain rfl := honly i _ hi .handler
    exact ⟨honly, hjob, hnone⟩

/-- The tick that adds the job takes it. -/
theorem Phase.add (h : Phase s) {rows : List σ.Row} (hi : s.threads[i]? = some (adding rows))
    (hjob : s.world.job = none) (hnone : s.world.unfinished = [])
    (hadded : ∀ job, Polling.added job ∉ s.threads) (hfresh : s.world.Fresh) :
    Phase (s.at { s.world with
      unfinished := s.world.unfinished ++ [(s.world.next, rows)]
      next := s.world.next + 1 } i (Polling.added s.world.next)) := by
  have honly : OnlyAt Busy s.threads i := by
    cases h with
    | free _ _ hclear => exact OnlyAt.of_none hclear
    | added k j hk => exact absurd (List.mem_of_getElem? hk) (hadded j)
    | watched k j hk _ hsome => cases hsome.symm.trans hjob
    | noticed k hk _ hsome => exact absurd hjob hsome
  refine .added i s.world.next (getElem?_set_eq hi) (honly.set fun _ => rfl) hjob (.inl ⟨?_, ?_⟩)
  · exact ⟨rows, congrArg (· ++ [(s.world.next, rows)]) hnone⟩
  · intro hmem
    exact Nat.lt_irrefl _ (hfresh s.world.next (.inl hmem))

theorem Moves.phase (h : Moves s t s') (hok : Guarded s t) (hs : Phase s)
    (hfailed : s.world.failed = []) (hfresh : s.world.Fresh) : Phase s' := by
  cases h with
  | idle => exact hs
  | tick | save => exact hs.append (not_busy nofun nofun nofun)
  | finish job hjob => exact hs.finish hjob
  | fail job hjob => cases (hok.fail job rfl).symm.trans hjob
  | change c =>
    cases hs with
    | free hjob hnone hclear => exact .free hjob hnone hclear
    | added k j hk honly hjob hholds => exact .added k j hk honly hjob hholds
    | watched k j hk honly hjob hholds => exact .watched k j hk honly hjob hholds
    | noticed k hk honly hjob hnone => exact .noticed k hk honly hjob hnone
  | reject i e p o hi hp ho hjob =>
    have hp' : ¬ Busy p := by
      -- only a watcher awaits, and it is rejected for failed jobs
      apply not_busy <;> rw [hp]
      · rintro job ⟨⟩
        cases ho
      · rintro job ⟨⟩
        have hmem := hjob job rfl
        rw [hfailed] at hmem
        cases hmem
      · rintro ⟨⟩
        cases ho
    exact hs.at hi hp' (not_busy_raised _) rfl rfl rfl
  | read i e hi => exact hs.at hi (not_busy nofun nofun nofun) (not_busy_polled _) rfl rfl rfl
  | add i e rows hi he =>
    obtain ⟨hjob, hnone, hadded⟩ := hok.add i e rows rfl he hi
    exact hs.add hi hjob hnone hadded hfresh
  | notice i e job hi hjob => exact hs.notice hi hjob
  | insert i e obj hi =>
    exact hs.at hi (not_busy nofun nofun nofun) (not_busy_saved obj) rfl rfl rfl
  | wait i rows hi => exact hs.at hi (not_busy_polled rows) (not_busy_ended ()) rfl rfl rfl
  | choose i rows hi =>
    exact hs.at hi (not_busy_polled rows) (not_busy nofun nofun nofun) rfl rfl rfl
  | stop i hi =>
    have hjob : none = s.world.job := (hok.stop i rfl hi).symm
    exact hs.at hi (not_busy_polled []) (not_busy_ended ()) hjob rfl rfl
  | remember i job hi => exact hs.remember hi
  | forget i hi =>
    obtain ⟨honly, -, hnone⟩ := hs.of_handler hi
    exact .free rfl hnone (honly.clear (not_busy_ended ()))
  | crash i hi hjob => exact absurd hjob (hs.of_handler hi).2.1
  | start i obj hi => exact hs.at hi (not_busy_saved obj) (not_busy_ended ()) rfl rfl rfl

theorem World.hasJob_of_without {unfinished : List (Nat × List σ.Row)}
    (hun : unfinished = w.without i)
    (h : World.hasJob { w with unfinished := unfinished } j = true) : w.hasJob j = true := by
  obtain ⟨x, hx, hj⟩ := World.hasJob_iff.mp h
  rw [hun] at hx
  exact World.hasJob_iff.mpr ⟨x, (List.mem_filter.mp hx).1, hj⟩

theorem Moves.fresh (h : Moves s t s') (hfresh : s.world.Fresh) : s'.world.Fresh := by
  cases h with
  | finish job hjob =>
    rintro j (hmem | hhas)
    · rcases List.mem_append.mp hmem with hmem | hmem
      · exact hfresh j (.inl hmem)
      · exact hfresh j (.inr (List.mem_singleton.mp hmem ▸ hjob))
    · exact hfresh j (.inr (World.hasJob_of_without rfl hhas))
  | fail job hjob =>
    rintro j (hmem | hhas)
    · exact hfresh j (.inl hmem)
    · exact hfresh j (.inr (World.hasJob_of_without rfl hhas))
  | add i e rows =>
    rintro j (hmem | hhas)
    · exact Nat.lt_succ_of_lt (hfresh j (.inl hmem))
    · obtain ⟨x, hx, hj⟩ := World.hasJob_iff.mp hhas
      rcases List.mem_append.mp hx with hx | hx
      · exact Nat.lt_succ_of_lt (hfresh j (.inr (World.hasJob_iff.mpr ⟨x, hx, hj⟩)))
      · rw [List.mem_singleton.mp hx] at hj
        exact hj ▸ Nat.lt_succ_self _
  | _ => exact hfresh

theorem polled_live (rows : List σ.Row) : polled rows ≠ .throw .typeError := by
  cases rows <;> nofun

theorem saved_live (obj : σ.New) : saved obj ≠ .throw .typeError := by
  intro h
  rw [saved] at h
  split at h <;> cases h

/-- Only a handler that finds no job raises a `TypeError`. -/
theorem Moves.live (h : Moves s t s') (hs : Phase s)
    (hlive : ∀ p ∈ s.threads, p ≠ .throw .typeError) : ∀ p ∈ s'.threads, p ≠ .throw .typeError := by
  cases h with
  | idle | finish | fail | change => exact hlive
  | tick | save => exact forall_mem_snoc hlive nofun
  | reject | add | notice | wait | choose | stop | forget | start =>
    exact forall_mem_set hlive nofun
  | read => exact forall_mem_set hlive (polled_live _)
  | insert i e obj => exact forall_mem_set hlive (saved_live obj)
  | remember i job => exact forall_mem_snoc (forall_mem_set hlive nofun) nofun
  | crash i hi hjob => exact absurd hjob (hs.of_handler hi).2.1

end Step

/-! ## Runs -/

/-- One program at a time holds a job. -/
structure Exclusive (s : State σ) : Prop where
  forms : AllForms s
  phase : Phase s
  fresh : s.world.Fresh
  failed : s.world.failed = []
  live : ∀ p ∈ s.threads, p ≠ .throw .typeError

theorem exclusive_opened (store : σ.Store) : Exclusive (State.start (.opened store)) where
  forms := nofun
  phase := .free rfl rfl nofun
  fresh := by
    rintro j (hmem | hhas)
    · cases hmem
    · cases hhas
  failed := rfl
  live := nofun

theorem Moves.exclusive {s s' : State σ} {t : Turn σ} (h : Moves s t s') (hok : Guarded s t)
    (hs : Exclusive s) : Exclusive s' where
  forms := h.forms hs.forms
  phase := h.phase hok hs.phase hs.failed hs.fresh
  fresh := h.fresh hs.fresh
  failed := by
    cases h with
    | fail job hjob => cases (hok.fail job rfl).symm.trans hjob
    | _ => exact hs.failed
  live := h.live hs.phase hs.live

theorem World.Holds.length_le {w : World σ} {j : Nat} (h : w.Holds j) :
    w.unfinished.length ≤ 1 := by
  rcases h with ⟨⟨rows, hone⟩, -⟩ | ⟨hnone, -⟩
  · rw [hone]
    exact Nat.le_refl 1
  · rw [hnone]
    exact Nat.zero_le 1

theorem Exclusive.one {s : State σ} (h : Exclusive s) : s.world.unfinished.length ≤ 1 := by
  cases h.phase with
  | free _ hnone => exact hnone ▸ Nat.zero_le 1
  | added i j _ _ _ hholds => exact hholds.length_le
  | watched i j _ _ _ hholds => exact hholds.length_le
  | noticed i _ _ _ hnone => exact hnone ▸ Nat.zero_le 1

theorem Exclusive.guard {s : State σ} (h : Exclusive s) (hnotick : NoTick s) :
    s.world.job ≠ none ↔ s.world.unfinished ≠ [] ∨ Ending s := by
  cases h.phase with
  | free hjob hnone hclear =>
    refine ⟨fun hsome => absurd hjob hsome, ?_⟩
    rintro (hun | ⟨job, -, hmem⟩ | hmem)
    · exact absurd hnone hun
    · exact absurd (.watcher job) (hclear _ hmem)
    · exact absurd .handler (hclear _ hmem)
  | added i j hi => exact absurd (.added j) (hnotick _ (List.mem_of_getElem? hi))
  | watched i j hi honly hjob hholds =>
    refine ⟨fun _ => ?_, fun _ => hjob ▸ nofun⟩
    rcases hholds with ⟨⟨rows, hone⟩, -⟩ | ⟨-, hmem⟩
    · exact .inl (hone ▸ nofun)
    · exact .inr (.inl ⟨j, hmem, List.mem_of_getElem? hi⟩)
  | noticed i hi honly hjob hnone =>
    exact ⟨fun _ => .inr (.inr (List.mem_of_getElem? hi)), fun _ => hjob⟩

/-- **The guard is exact** for either queue, in a run that adds no job beside
another, forgets none and in which none fails. -/
theorem exact_of_guarded (kind : Kind) (store : kind.source.Store) (turns : List (Turn kind.source))
    (hturns : (loop kind.source).Meets Guarded (State.start (.opened store)) turns) :
    GuardExact ((loop kind.source).run (State.start (.opened store)) turns) := by
  have hstep : ∀ s t, Exclusive s → Guarded s t → Exclusive ((loop kind.source).step s t) :=
    fun s t hs hok => (moves_step hs.forms t).exclusive hok hs
  have hinv := Loop.Meets.run (loop kind.source) hstep hturns (exclusive_opened store)
  exact ⟨hinv.one, hinv.guard, hinv.live⟩

/-! ## One job, two jobs, and a job that fails -/

/-- One withdrawal is pending. -/
def onePending : WithdrawalStore := insertWithdrawal pendingWithdrawal ⟨[], 1, 0⟩

/-- Two ticks read the row and add a job each. -/
def twoTicks : List (Turn withdrawals) :=
  [.happen .tick, .happen .tick, .perform 0 .ok, .perform 1 .ok, .resume 0, .resume 1,
    .perform 0 .ok, .perform 1 .ok]

/-- Both jobs are remembered and finish, and both handlers run. -/
def twoEnds : List (Turn withdrawals) :=
  [.resume 0, .resume 1, .happen (.finish 1), .happen (.finish 2), .perform 2 .ok, .perform 3 .ok,
    .resume 2, .resume 3]

/-- A job is added and remembered. -/
def oneJob : List (Turn withdrawals) :=
  [.happen .tick, .perform 0 .ok, .resume 0, .perform 0 .ok, .resume 0]

def guardRun (turns : List (Turn withdrawals)) : State withdrawals :=
  (loop withdrawals).run (State.start (.opened onePending)) turns

/-- Two jobs are unfinished; the second handler finds the field empty; a job that
has failed is still remembered when nothing is in progress. -/
theorem guard_not_exact :
    ¬ (guardRun twoTicks).world.unfinished.length ≤ 1 ∧
      .throw .typeError ∈ (guardRun (twoTicks ++ twoEnds)).threads ∧
      let s := guardRun (oneJob ++ [.happen (.fail 1), .perform 1 .ok])
      NoTick s ∧ s.world.job ≠ none ∧ s.world.unfinished = [] ∧ ¬ Ending s := by
  refine ⟨by decide +kernel, List.mem_of_getElem? (i := 3) rfl, ?_, nofun, rfl, ?_⟩
  · intro p hp hticking
    have hp : p ∈ [.pure (), .throw .rejected] := hp
    have hnext : p.next ≠ none := by
      cases hticking with
      | polled rows => cases rows <;> nofun
      | _ => nofun
    rcases List.mem_cons.mp hp with rfl | hp
    · exact hnext rfl
    · exact hnext (List.mem_singleton.mp hp ▸ rfl)
  · rintro (⟨job, hjob, -⟩ | hmem)
    · cases hjob
    · have hmem : handler ∈ [.pure (), .throw .rejected] := hmem
      rcases List.mem_cons.mp hmem with h | h
      · cases congrArg Proc.next h
      · cases congrArg Proc.next (List.mem_singleton.mp h)

theorem guard_exact_of_one_job :
    GuardExact (guardRun (oneJob ++ [.happen (.finish 1), .perform 1 .ok, .resume 1])) := by
  apply exact_of_guarded .withdrawal onePending
  refine ⟨.happen nofun, .perform (p := initiateJob) rfl nofun, .resume (p := polled _) rfl nofun,
    ⟨?_, nofun, nofun⟩, .resume (p := added 1) rfl nofun, .happen nofun,
    .perform (p := watcher 1) rfl nofun, .resume (p := handler) rfl nofun, trivial⟩
  rintro i e rows ⟨⟩ - -
  refine ⟨rfl, rfl, fun job hmem => ?_⟩
  have hmem : added job ∈
      ([adding (getPendingWithdrawal onePending)] : List (Prog withdrawals Unit)) := hmem
  cases congrArg Proc.next (List.mem_singleton.mp hmem)

end Exchange.Polling
