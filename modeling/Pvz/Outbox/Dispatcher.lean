import Pvz.Audit.Log
import Pvz.Order.Model
import Mathlib.Logic.Relation
import Mathlib.Data.List.Sort

/-!
# The outbox dispatcher

The `audit_tasks` table (`src/unnamed/part_001:3-21`), the repository calls
on it (`PostgresAuditRepository`, `src/pkg/repository/audit.go:30-193`) and the
workers of `OutboxWorkerPool` (`src/pkg/repository/user.go:384-478`).

The db log processor stores each batch of audit events with one task per
event (`CreateLogsWithTasks`). Each worker, on every tick, claims a batch of
tasks (`FetchTasksIDs` sets them to `PROCESSING`) and then takes them one
after another: it reads the event (`GetAuditLog`), publishes it to Kafka
(`SendMessage`), and marks the task completed or failed.

Each repository call is one transaction and one atomic step; any of them, and
the producer's send, may fail, and a failed transaction changes nothing. A
failure is also what a call returns once the batch's 5-second context has
expired, so the model covers every timing of that deadline. The ticker is not
modelled as time: a worker may poll at any step. Error texts
(`error_message`) are not modelled.
-/

namespace Pvz.Outbox

/-- `task_status`. -/
inductive TaskStatus where
  | created
  | processing
  | completed
  | failed
  | noAttemptsLeft
  deriving DecidableEq, Repr

/-- A row of `audit_tasks`. -/
structure Task where
  id : Nat
  logID : Nat
  status : TaskStatus
  attemptsLeft : Int
  nextAttemptAfter : Option Int
  createdAt : Int
  updatedAt : Int
  completedAt : Option Int

/-- `model.AuditIDs`: a claimed task and the event it publishes. -/
structure AuditIDs where
  taskID : Nat
  logID : Nat

/-- `INTERVAL '2 seconds'`, the wait before a failed task may be claimed again. -/
def retryDelay : Int := 2 * second

/-- The `WHERE` clause of `FetchTasksIDs`: a new task, or a failed one with
attempts left whose wait is over. -/
def Task.eligible (now : Int) (t : Task) : Bool :=
  t.status = .created ||
    (t.status = .failed && decide (0 < t.attemptsLeft) && t.nextAttemptAfter.all (· ≤ now))

/-- `FetchTasksIDs(ctx, limit)`: claim up to `limit` eligible tasks, oldest
first, and set them to `PROCESSING`. -/
def fetchTasksIDs (now : Int) (limit : Nat) (tasks : List Task) : List Task × List AuditIDs :=
  let picked := ((tasks.filter (Task.eligible now)).insertionSort (fun a b => a.createdAt ≤ b.createdAt)).take limit
  (tasks.map fun t => if picked.any (·.id = t.id) then { t with status := .processing, updatedAt := now } else t,
    picked.map fun t => ⟨t.id, t.logID⟩)

/-- The `UPDATE` of `MarkTaskFailed`: one attempt fewer, and a retry two
seconds later while attempts are left. -/
def Task.markFailed (now : Int) (t : Task) : Task :=
  { t with
    status := if t.attemptsLeft > 1 then .failed else .noAttemptsLeft
    attemptsLeft := t.attemptsLeft - 1
    nextAttemptAfter := if t.attemptsLeft > 1 then some (now + retryDelay) else none
    updatedAt := now }

/-- The `UPDATE` of `MarkTaskCompleted`. -/
def Task.markCompleted (now : Int) (t : Task) : Task :=
  { t with status := .completed, updatedAt := now, completedAt := some now }

/-- Where a worker stands: at `workerRoutine`'s select, within
`processOutboxBatch` about to take the named call for the first task it holds
(the others follow), or returned. -/
inductive OutboxPc where
  | idle
  | get (ids : List AuditIDs)
  | send (id : AuditIDs) (log : AuditLog) (rest : List AuditIDs)
  | markFailed (id : AuditIDs) (rest : List AuditIDs)
  | markCompleted (id : AuditIDs) (rest : List AuditIDs)
  | exited

/-- The dispatcher: the `audit_logs` and `audit_tasks` tables with their next
`SERIAL` ids, the workers, the clock, what was published to Kafka (each
message keyed by its task's id), the task ids passed to `SendMessage` (a call
that fails counts too), and whether `Stop` cancelled the workers. -/
structure Dispatcher where
  logs : List (Nat × AuditLog)
  tasks : List Task
  nextLogID : Nat
  nextTaskID : Nat
  workers : List OutboxPc
  batchSize : Nat
  clock : Int
  published : List (Nat × AuditLog)
  sendCalls : List Nat
  cancelled : Bool

/-- Empty tables and `workersNum` workers, each at its select. -/
def Dispatcher.init (workersNum batchSize : Nat) : Dispatcher :=
  ⟨[], [], 1, 1, List.replicate workersNum .idle, batchSize, 0, [], [], false⟩

/-- `CreateLogsWithTasks`: one transaction that stores the events and one new
task per event. -/
def Dispatcher.createLogsWithTasks (s : Dispatcher) (batch : List AuditLog) : Dispatcher :=
  let ids := List.range batch.length
  { s with
    logs := s.logs ++ (ids.zip batch).map fun (k, l) => (s.nextLogID + k, l)
    tasks := s.tasks ++ ids.map fun k =>
      ⟨s.nextTaskID + k, s.nextLogID + k, .created, 3, none, s.clock, s.clock, none⟩
    nextLogID := s.nextLogID + batch.length
    nextTaskID := s.nextTaskID + batch.length }

/-- `GetAuditLog(id)`: the stored event, or an error for a missing one. -/
def Dispatcher.getAuditLog (s : Dispatcher) (id : Nat) : Option AuditLog :=
  (s.logs.find? (·.1 = id)).map (·.2)

/-- `MarkTaskFailed` and `MarkTaskCompleted` apply `f` to the task, after a
check that it exists; a missing task is an error that changes nothing. -/
def Dispatcher.markTask (s : Dispatcher) (taskID : Nat) (f : Task → Task) : Dispatcher :=
  if s.tasks.any (·.id = taskID) then
    { s with tasks := s.tasks.map fun t => if t.id = taskID then f t else t }
  else s

/-- Move worker `i` to `pc`. -/
def Dispatcher.setWorker (s : Dispatcher) (i : Nat) (pc : OutboxPc) : Dispatcher :=
  { s with workers := s.workers.set i pc }

/-- One step of worker `i` at `pc`; `fail` makes its repository call or send
fail. -/
def Dispatcher.workerStep (s : Dispatcher) (i : Nat) (fail : Bool) : OutboxPc → Option Dispatcher
  | .idle =>
    -- The ticker case: with the context cancelled it and `ctx.Done()` both return.
    if s.cancelled then some (s.setWorker i .exited)
    else if fail then some s
    else
      let r := fetchTasksIDs s.clock s.batchSize s.tasks
      some ({ s with tasks := r.1 }.setWorker i (.get r.2))
  | .get [] => some (s.setWorker i .idle)
  | .get (id :: rest) =>
    match if fail then none else s.getAuditLog id.logID with
    | some log => some (s.setWorker i (.send id log rest))
    | none => some (s.setWorker i (.markFailed id rest))
  | .send id log rest =>
    let s := { s with sendCalls := s.sendCalls ++ [id.taskID] }
    if fail then some (s.setWorker i (.markFailed id rest))
    else some ({ s with published := s.published ++ [(id.taskID, log)] }.setWorker i (.markCompleted id rest))
  | .markFailed id rest =>
    let s' := if fail then s else s.markTask id.taskID (Task.markFailed s.clock)
    some (s'.setWorker i (.get rest))
  | .markCompleted id rest =>
    let s' := if fail then s else s.markTask id.taskID (Task.markCompleted s.clock)
    some (s'.setWorker i (.get rest))
  | .exited => none

/-- The branches of `workerStep`, one constructor each, with the state each
leads to. -/
inductive Dispatcher.WorkerMove (s : Dispatcher) (i : Nat) : Bool → OutboxPc → Dispatcher → Prop
  /-- `FetchTasksIDs` fails: the worker stays at its select. -/
  | fetchFailed : s.cancelled = false → s.WorkerMove i true .idle s
  /-- `ctx.Done()`, or the ticker case after `Stop`: the worker returns. -/
  | done {fail : Bool} : s.cancelled = true → s.WorkerMove i fail .idle (s.setWorker i .exited)
  /-- `FetchTasksIDs` claims a batch. -/
  | fetch : s.cancelled = false →
      s.WorkerMove i false .idle ({ s with tasks := (fetchTasksIDs s.clock s.batchSize s.tasks).1 }.setWorker i
        (.get (fetchTasksIDs s.clock s.batchSize s.tasks).2))
  /-- The batch is done. -/
  | batchDone {fail : Bool} : s.WorkerMove i fail (.get []) (s.setWorker i .idle)
  /-- `GetAuditLog` reads the task's event. -/
  | getAuditLog {id : AuditIDs} {rest : List AuditIDs} {log : AuditLog} : s.getAuditLog id.logID = some log →
      s.WorkerMove i false (.get (id :: rest)) (s.setWorker i (.send id log rest))
  /-- `GetAuditLog` fails. -/
  | getAuditLogFailed {fail : Bool} {id : AuditIDs} {rest : List AuditIDs} :
      (fail = true ∨ s.getAuditLog id.logID = none) →
      s.WorkerMove i fail (.get (id :: rest)) (s.setWorker i (.markFailed id rest))
  /-- `SendMessage` fails. -/
  | sendFailed {id : AuditIDs} {log : AuditLog} {rest : List AuditIDs} :
      s.WorkerMove i true (.send id log rest)
        ({ s with sendCalls := s.sendCalls ++ [id.taskID] }.setWorker i (.markFailed id rest))
  /-- `SendMessage` publishes the event. -/
  | send {id : AuditIDs} {log : AuditLog} {rest : List AuditIDs} :
      s.WorkerMove i false (.send id log rest)
        ({ s with sendCalls := s.sendCalls ++ [id.taskID], published := s.published ++ [(id.taskID, log)] }.setWorker i
          (.markCompleted id rest))
  /-- `MarkTaskFailed` commits. -/
  | markFailed {id : AuditIDs} {rest : List AuditIDs} :
      s.WorkerMove i false (.markFailed id rest)
        ((s.markTask id.taskID (Task.markFailed s.clock)).setWorker i (.get rest))
  /-- `MarkTaskCompleted` commits. -/
  | markCompleted {id : AuditIDs} {rest : List AuditIDs} :
      s.WorkerMove i false (.markCompleted id rest)
        ((s.markTask id.taskID (Task.markCompleted s.clock)).setWorker i (.get rest))
  /-- A mark fails and changes no row. -/
  | markError {pc : OutboxPc} {id : AuditIDs} {rest : List AuditIDs} :
      (pc = .markFailed id rest ∨ pc = .markCompleted id rest) → s.WorkerMove i true pc (s.setWorker i (.get rest))

/-- Every step of a worker is one of the branches `WorkerMove` names. -/
theorem Dispatcher.workerStep_move {s s' : Dispatcher} {i : Nat} {fail : Bool} {pc : OutboxPc}
    (h : s.workerStep i fail pc = some s') : s.WorkerMove i fail pc s' := by
  cases pc with
  | idle =>
    simp only [Dispatcher.workerStep] at h
    split_ifs at h with hc hf <;> cases h
    · exact .done hc
    · exact hf ▸ .fetchFailed (by simpa using hc)
    · exact (Bool.eq_false_iff.2 hf) ▸ .fetch (by simpa using hc)
  | get ids =>
    cases ids with
    | nil => cases h; exact .batchDone
    | cons id rest =>
      simp only [Dispatcher.workerStep] at h
      split at h <;> cases h <;> rename_i hl
      · cases fail
        · exact .getAuditLog hl
        · cases hl
      · exact .getAuditLogFailed (by cases fail <;> simp_all)
  | send id log rest =>
    simp only [Dispatcher.workerStep] at h
    cases fail <;> cases h
    exacts [.send, .sendFailed]
  | markFailed id rest =>
    cases fail <;> cases h
    exacts [.markFailed, .markError (.inl rfl)]
  | markCompleted id rest =>
    cases fail <;> cases h
    exacts [.markCompleted, .markError (.inr rfl)]
  | exited => cases h

/-- A step of the dispatcher. -/
inductive Act where
  | worker (i : Nat) (fail : Bool)
  | createLogsWithTasks (batch : List AuditLog)
  | tick (t : Int)
  | stop

/-- The state after a step, or `none` when it cannot be taken. -/
def Dispatcher.step (s : Dispatcher) : Act → Option Dispatcher
  | .worker i fail =>
    match s.workers[i]? with
    | some pc => s.workerStep i fail pc
    | none => none
  | .createLogsWithTasks batch => some (s.createLogsWithTasks batch)
  | .tick t => if s.clock ≤ t then some { s with clock := t } else none
  | .stop => some { s with cancelled := true }

/-- A worker's step is the step of its `workerStep` at its current state. -/
theorem Dispatcher.step_worker {s s' : Dispatcher} {i : Nat} {fail : Bool} (h : s.step (.worker i fail) = some s') :
    ∃ pc, s.workers[i]? = some pc ∧ s.workerStep i fail pc = some s' := by
  simp only [Dispatcher.step] at h
  split at h
  · exact ⟨_, ‹_›, h⟩
  · cases h

/-- One step of the dispatcher. -/
def Dispatcher.Step (s s' : Dispatcher) : Prop := ∃ a, s.step a = some s'

/-- Any number of steps. -/
def Dispatcher.Steps : Dispatcher → Dispatcher → Prop := Relation.ReflTransGen Dispatcher.Step

/-- The states the dispatcher reaches from empty tables. -/
def Dispatcher.Reachable (s : Dispatcher) : Prop :=
  ∃ workersNum batchSize, Dispatcher.Steps (Dispatcher.init workersNum batchSize) s

/-- The state a list of steps leads to, skipping a step that cannot be taken. -/
def Dispatcher.replay (s : Dispatcher) (as : List Act) : Dispatcher :=
  as.foldl (fun s a => (s.step a).getD s) s

/-- A replay is a run. -/
theorem Dispatcher.steps_replay (s : Dispatcher) (as : List Act) : s.Steps (s.replay as) := by
  induction as generalizing s with
  | nil => exact .refl
  | cons a as ih =>
    show s.Steps (((s.step a).getD s).replay as)
    cases h : s.step a with
    | none => exact ih s
    | some s' => exact .head ⟨a, h⟩ (ih s')

end Pvz.Outbox
