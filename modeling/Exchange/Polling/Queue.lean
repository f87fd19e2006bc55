import Exchange.Async.Loop
import Exchange.Wallets.Controller

/-!
# Polling crons and their queues

`QueueService` has two methods that are the same up to their names, and
`DatabaseService` two methods that save a row and start the cron. They are
programs over a `Source`: the table that is polled. A tick reads the pending
rows, and adds a job when there are some and no job is remembered; without rows
it forgets the job and stops the cron.
-/

namespace Exchange.Polling

open Async Wallets

abbrev Err := Wallets.Err

/-- A table that is polled. -/
structure Source where
  /-- The table, and what goes with it. -/
  Store : Type
  /-- What is saved. -/
  New : Type
  /-- What a job knows of a pending row. -/
  Row : Type
  pending : Store → List Row
  insert : New → Store → Store
  /-- `network != 'Bitcoin'`: only these rows are polled. -/
  onChain : New → Bool
  pending_insert : ∀ obj s, onChain obj = false → ∀ r ∈ pending (insert obj s), r ∈ pending s
  /-- What time and other programs do; it makes no row pending. -/
  Change : Type
  change : Change → Store → Store
  pending_change : ∀ c s, ∀ r ∈ pending (change c s), r ∈ pending s
  /-- The other calls that programs over the table make. -/
  Other : Type
  Res : Other → Type
  Reply : Type
  perform : Reply → (x : Other) → Store → Except Err (Res x) × Store

variable {σ : Source}

inductive Op (σ : Source) where
  | getPending
  | job
  | setJob (job : Option Nat)
  | add (rows : List σ.Row)
  | watch (job : Nat)
  | finished (job : Nat)
  | startCron
  | stopCron
  | save (obj : σ.New)
  | other (x : σ.Other)

abbrev Op.Res : Op σ → Type
  | getPending => List σ.Row
  | job => Option Nat
  | add _ => Nat
  | other x => σ.Res x
  | _ => Unit

abbrev Prog (σ : Source) := Proc (Op σ) Op.Res Err

/-- The table, the cron, the field that remembers a job, and the jobs of the
queue: those that are not finished, and what became of the others. -/
structure World (σ : Source) where
  store : σ.Store
  cron : Bool
  job : Option Nat
  unfinished : List (Nat × List σ.Row)
  finished : List Nat
  failed : List Nat
  next : Nat

/-- The service has started: the cron runs, no job was added. -/
def World.opened (store : σ.Store) : World σ := ⟨store, true, none, [], [], [], 1⟩

/-! ## Programs -/

def call (o : Op σ) : Prog σ o.Res := Proc.call o

/-- After the handler has read the field. -/
def handled : Option Nat → Prog σ Unit
  | some _ => call (.setJob none)
  | none => .throw .typeError

/-- The handler of a finished job: it reads the id of the job that is remembered. -/
def handler : Prog σ Unit := do
  let job : Option Nat ← call .job
  handled job

/-- `finished().then(…)`, which nobody awaits. -/
def watcher (job : Nat) : Prog σ Unit := do
  call (.finished job)
  handler

/-- After the job is added. -/
def added (job : Nat) : Prog σ Unit := do
  call (.setJob (some job))
  call (.watch job)

def adding (pending : List σ.Row) : Prog σ Unit := do
  let job : Nat ← call (.add pending)
  added job

/-- After the field is read. -/
def guarded (pending : List σ.Row) : Option Nat → Prog σ Unit
  | none => adding pending
  | some _ => pure ()

/-- After the rows are read. -/
def polled (pending : List σ.Row) : Prog σ Unit :=
  if 0 < pending.length then do
    let job : Option Nat ← call .job
    guarded pending job
  else do
    call (.setJob none)
    call .stopCron

/-- `initiateWithdrawalJob`, `initiateDepositJob`. -/
def initiateJob : Prog σ Unit := do
  let pending : List σ.Row ← call .getPending
  polled pending

/-- After the row is saved. -/
def saved (obj : σ.New) : Prog σ Unit := if σ.onChain obj then call .startCron else pure ()

/-- `saveWithdrawal`, `saveDeposit`. -/
def save (obj : σ.New) : Prog σ Unit := do
  call (.save obj)
  saved obj

/-! ## The event loop -/

def Op.awaits : Op σ → Bool
  | .getPending | .add _ | .finished _ | .save _ | .other _ => true
  | _ => false

/-- What a call does that does not leave the process. -/
def effect : (o : Op σ) → World σ → Except Err o.Res × World σ × List (Prog σ Unit)
  | .job, w => (.ok w.job, w, [])
  | .setJob job, w => (.ok (), { w with job := job }, [])
  | .watch job, w => (.ok (), w, [watcher job])
  | .startCron, w => (.ok (), { w with cron := true }, [])
  | .stopCron, w => (.ok (), { w with cron := false }, [])
  | _, w => (.error .rejected, w, [])

/-- How a call is answered: it fails, or with a reply of the outside. -/
inductive Answer (σ : Source) where
  | fails
  | ok
  | reply (e : σ.Reply)

def Answer.failing : Answer σ → Bool
  | .fails => true
  | _ => false

def answer (e : Answer σ) : (o : Op σ) → World σ → Option (Except Err o.Res × World σ)
  | .getPending, w =>
      some (if e.failing then (.error .rejected, w) else (.ok (σ.pending w.store), w))
  | .add rows, w =>
      some (if e.failing then (.error .rejected, w)
        else (.ok w.next,
          { w with unfinished := w.unfinished ++ [(w.next, rows)], next := w.next + 1 }))
  | .finished job, w =>
      if job ∈ w.finished then some (.ok (), w)
      else if job ∈ w.failed then some (.error .rejected, w)
      else none
  | .save obj, w =>
      some (if e.failing then (.error .rejected, w)
        else (.ok (), { w with store := σ.insert obj w.store }))
  | .other x, w =>
      match e with
      | .reply e =>
          let r := σ.perform e x w.store
          some (r.1, { w with store := r.2 })
      | _ => some (.error .rejected, w)
  | _, _ => none

/-- What happens outside of these programs. -/
inductive Outside (σ : Source) where
  | tick
  | save (obj : σ.New)
  | finish (job : Nat)
  | fail (job : Nat)
  | change (c : σ.Change)

def World.hasJob (w : World σ) (job : Nat) : Bool := w.unfinished.any fun j => j.1 = job

def World.without (w : World σ) (job : Nat) : List (Nat × List σ.Row) :=
  w.unfinished.filter fun j => j.1 ≠ job

/-- The cron ticks while it runs; a job ends once. -/
def happen : Outside σ → World σ → Option (World σ × List (Prog σ Unit))
  | .tick, w => if w.cron then some (w, [initiateJob]) else none
  | .save obj, w => some (w, [save obj])
  | .finish job, w =>
      if w.hasJob job then
        some ({ w with unfinished := w.without job, finished := w.finished ++ [job] }, [])
      else none
  | .fail job, w =>
      if w.hasJob job then
        some ({ w with unfinished := w.without job, failed := w.failed ++ [job] }, [])
      else none
  | .change c, w => some ({ w with store := σ.change c w.store }, [])

/-- Ticks, saves and the ends of jobs, interleaved at their awaits. -/
def loop (σ : Source) : Loop (Op σ) Op.Res Err (World σ) (Answer σ) (Outside σ) where
  awaits := Op.awaits
  effect := effect
  answer := answer
  happen := happen

abbrev State (σ : Source) := Loop.State (Op σ) Op.Res Err (World σ)

abbrev Turn (σ : Source) := Loop.Turn (Answer σ) (Outside σ)

/-- A state in which no program is running. -/
def State.start (w : World σ) : State σ := ⟨w, []⟩

end Exchange.Polling
