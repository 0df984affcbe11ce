import Pvz.Audit.Log
import Mathlib.Logic.Relation

/-!
# The audit logger's goroutines

`AuditLogger` (`src/pkg/utils/audit.go`) as the goroutines it runs and the
channels they share:

* `Log` (`:111-121`) puts an event on `mainLogCh`, or, when that channel is
  full, at the back of the overflow list;
* `fanOutLogs` (`:135-166`) takes each event off `mainLogCh` and sends it to
  the stdout pool's `inputCh` and then to the db pool's;
* each worker (`:169-227`) collects events from its pool's `inputCh` into a
  batch, and hands a full batch, a batch whose timer fired and the batch it
  holds at its end to the pool's `processLogs`;
* the overflow drainer (`processOverflow`, `tryFlushOverflow`,
  `tryFlushOverflowOnShutdown`, `:230-306`) moves overflow events back onto
  `mainLogCh`, and prints what is left once the context is cancelled;
* `Shutdown` (`:97-108`) cancels the context, closes `mainLogCh` and waits for
  the others.

A step is one `select` of one goroutine with the case it picks (`Act`), or one
statement of `Shutdown`. Go picks at random among the ready cases of a select,
so every ready case is a possible step. Sending on a closed channel, and
closing one, panics; the model records the panic and changes nothing else.
The timers (the workers' batch timeout, the drainer's 100 ms ticker) are not
modelled as time: they may fire at any step, which covers every timing. A
`Log` call whose caller's context is already done may pick `ctx.Done()` and
return having done nothing; that step changes no state and is left out.

Events carry a ghost number, the number of the `Log` call that handed them
over, so that "the same event" has a meaning. The state records what each
processor's `processLogs` was handed and what `tryFlushOverflowOnShutdown`
printed.
-/

namespace Pvz.Audit

/-- `maxLogChanSize`: the capacity of `mainLogCh` and of each pool's `inputCh`. -/
def maxLogChanSize : Nat := 100

/-- An event handed to `Log`, numbered by the `Log` call that handed it. -/
structure Entry where
  seq : Nat
  log : AuditLog

/-- A buffered channel: what it holds, oldest first, and whether it is closed. -/
structure Chan where
  buf : List Entry
  closed : Bool

/-- A send on the channel is ready: it is closed (the send panics) or has room. -/
def Chan.sendReady (c : Chan) : Bool :=
  c.closed || decide (c.buf.length < maxLogChanSize)

/-- The two pools, in the order `NewAuditLogger` appends them to `workerPools`. -/
inductive PoolId where
  | stdout
  | db
  deriving DecidableEq, Repr

/-- A worker goroutine: its batch, and whether it still runs. -/
structure Worker where
  batch : List Entry
  running : Bool

/-- A `WorkerPool`: its inbox, its workers, its batch size, and every event its
processor's `processLogs` has been handed, in order. -/
structure Pool where
  inputCh : Chan
  workers : List Worker
  batchSize : Nat
  processed : List Entry

/-- Where `fanOutLogs` stands: at its loop's select, sending an event to a
pool, or returned. -/
inductive FanOut where
  | recv
  | send (e : Entry) (p : PoolId)
  | exited

/-- Where the overflow drainer stands: at `processOverflow`'s select, at the
top of `tryFlushOverflow`'s loop, holding the event it took off the overflow
list, or returned. -/
inductive Drainer where
  | loop
  | flush
  | hold (e : Entry)
  | exited

/-- Where `Shutdown` stands: not called, after `cancel`, after closing
`mainLogCh`, or returned. -/
inductive ShutdownPc where
  | notCalled
  | cancelled
  | closed
  | returned
  deriving DecidableEq

/-- The audit logger and its goroutines. -/
structure Logger where
  mainLogCh : Chan
  overflow : List Entry
  /-- `ctx.Done()` of the context the goroutines run under is closed. -/
  cancelled : Bool
  pools : PoolId → Pool
  fanOut : FanOut
  drainer : Drainer
  shutdown : ShutdownPc
  /-- The events `tryFlushOverflowOnShutdown` printed. -/
  printed : List Entry
  /-- The number the next `Log` call gives its event. -/
  nextSeq : Nat
  /-- A goroutine sent on, or closed, a closed channel. -/
  panicked : Bool

/-- `NewAuditLogger` with `workersNum` workers per pool and batches of `batchSize`. -/
def Logger.init (workersNum batchSize : Nat) : Logger where
  mainLogCh := ⟨[], false⟩
  overflow := []
  cancelled := false
  pools _ := ⟨⟨[], false⟩, List.replicate workersNum ⟨[], true⟩, batchSize, []⟩
  fanOut := .recv
  drainer := .loop
  shutdown := .notCalled
  printed := []
  nextSeq := 0
  panicked := false

/-- Replace pool `p`. -/
def Logger.setPool (s : Logger) (p : PoolId) (pool : Pool) : Logger :=
  { s with pools := Function.update s.pools p pool }

/-! ## `Log` -/

/-- `Log` with a live context. Its select's send is ready when `mainLogCh` is
closed (a panic) or has room; otherwise the default case appends the event to
the overflow list. -/
def Logger.log (s : Logger) (l : AuditLog) : Logger :=
  let e : Entry := ⟨s.nextSeq, l⟩
  let s := { s with nextSeq := s.nextSeq + 1 }
  if s.mainLogCh.closed then { s with panicked := true }
  else if s.mainLogCh.buf.length < maxLogChanSize then
    { s with mainLogCh := { s.mainLogCh with buf := s.mainLogCh.buf ++ [e] } }
  else { s with overflow := s.overflow ++ [e] }

/-! ## `fanOutLogs` -/

/-- `close(pool.inputCh)`; closing a closed channel panics. -/
def Logger.closePool (s : Logger) (p : PoolId) : Logger :=
  let pool := s.pools p
  { s.setPool p { pool with inputCh := { pool.inputCh with closed := true } } with
    panicked := s.panicked || pool.inputCh.closed }

/-- The loop that closes every pool's `inputCh`, in pool order. -/
def Logger.closeInputChs (s : Logger) : Logger :=
  (s.closePool .stdout).closePool .db

/-- `fanOutLogs` picks its channel case. At its loop that is the receive from
`mainLogCh`: a buffered event goes to the pools, and a closed, drained channel
makes it close the pools' inboxes and return. While sending an event it is the
send to the pool's `inputCh`, ready when that channel has room or is closed. -/
def Logger.fanOutChannel (s : Logger) : Option Logger :=
  match s.fanOut with
  | .recv =>
    match s.mainLogCh.buf with
    | e :: rest => some { s with mainLogCh := { s.mainLogCh with buf := rest }, fanOut := .send e .stdout }
    | [] => if s.mainLogCh.closed then some { s.closeInputChs with fanOut := .exited } else none
  | .send e p =>
    let pool := s.pools p
    if pool.inputCh.closed then some { s with panicked := true }
    else if pool.inputCh.buf.length < maxLogChanSize then
      some { s.setPool p { pool with inputCh := { pool.inputCh with buf := pool.inputCh.buf ++ [e] } } with
        fanOut := match p with | .stdout => .send e .db | .db => .recv }
    else none
  | .exited => none

/-- `fanOutLogs` picks `ctx.Done()`. At its loop it closes the pools' inboxes
and returns; while sending an event it returns without closing them. -/
def Logger.fanOutDone (s : Logger) : Option Logger :=
  if s.cancelled then
    match s.fanOut with
    | .recv => some { s.closeInputChs with fanOut := .exited }
    | .send _ _ => some { s with fanOut := .exited }
    | .exited => none
  else none

/-! ## Workers -/

/-- `pool.processor.processLogs(ctx, name, batch)`. The worker calls it only
with a non-empty batch; an empty one would add nothing. -/
def Pool.processLogs (pool : Pool) (batch : List Entry) : Pool :=
  { pool with processed := pool.processed ++ batch }

/-- A worker picks the receive from `inputCh`. A received event joins the
batch, and a full batch goes to `processLogs`. A closed, drained channel makes
the worker hand over its batch and return. -/
def Pool.recv (pool : Pool) (w : Worker) : Option (Pool × Worker) :=
  match pool.inputCh.buf with
  | e :: rest =>
    let pool := { pool with inputCh := { pool.inputCh with buf := rest } }
    let batch := w.batch ++ [e]
    if pool.batchSize ≤ batch.length then some (pool.processLogs batch, ⟨[], true⟩)
    else some (pool, ⟨batch, true⟩)
  | [] => if pool.inputCh.closed then some (pool.processLogs w.batch, ⟨[], false⟩) else none

/-- A worker picks its timer: it hands over its batch. -/
def Pool.timer (pool : Pool) (w : Worker) : Option (Pool × Worker) :=
  some (pool.processLogs w.batch, ⟨[], true⟩)

/-- A worker picks `ctx.Done()`: it hands over its batch and returns. -/
def Pool.done (cancelled : Bool) (pool : Pool) (w : Worker) : Option (Pool × Worker) :=
  if cancelled then some (pool.processLogs w.batch, ⟨[], false⟩) else none

/-- One select of worker `i` of pool `p`, if that worker still runs. -/
def Logger.worker (s : Logger) (p : PoolId) (i : Nat) (f : Pool → Worker → Option (Pool × Worker)) :
    Option Logger :=
  match (s.pools p).workers[i]? with
  | some w =>
    if w.running then
      (f (s.pools p) w).map fun r => s.setPool p { r.1 with workers := r.1.workers.set i r.2 }
    else none
  | none => none

/-! ## The overflow drainer -/

/-- `tryFlushOverflowOnShutdown`: print every event of the overflow list and
empty it. -/
def Logger.tryFlushOverflowOnShutdown (s : Logger) : Logger :=
  { s with printed := s.printed ++ s.overflow, overflow := [] }

/-- `processOverflow` picks its ticker. After a tick it checks `ctx.Done()`
first: a cancelled context makes it print the overflow list and return, a live
one makes it call `tryFlushOverflow`. -/
def Logger.drainerTick (s : Logger) : Option Logger :=
  match s.drainer with
  | .loop =>
    some (if s.cancelled then { s.tryFlushOverflowOnShutdown with drainer := .exited }
      else { s with drainer := .flush })
  | _ => none

/-- `processOverflow` picks `ctx.Done()`: it prints the overflow list and returns. -/
def Logger.drainerDone (s : Logger) : Option Logger :=
  match s.drainer with
  | .loop => if s.cancelled then some { s.tryFlushOverflowOnShutdown with drainer := .exited } else none
  | _ => none

/-- The top of `tryFlushOverflow`'s loop, under the mutex: return when the
overflow list is empty, or take its front event. -/
def Logger.drainerPop (s : Logger) : Option Logger :=
  match s.drainer with
  | .flush =>
    match s.overflow with
    | [] => some { s with drainer := .loop }
    | e :: rest => some { s with overflow := rest, drainer := .hold e }
  | _ => none

/-- `tryFlushOverflow`'s select picks the send to `mainLogCh`, ready when the
channel has room or is closed. -/
def Logger.drainerSend (s : Logger) : Option Logger :=
  match s.drainer with
  | .hold e =>
    if s.mainLogCh.closed then some { s with panicked := true }
    else if s.mainLogCh.buf.length < maxLogChanSize then
      some { s with mainLogCh := { s.mainLogCh with buf := s.mainLogCh.buf ++ [e] }, drainer := .flush }
    else none
  | _ => none

/-- `tryFlushOverflow`'s select picks `ctx.Done()`, or its default case when
neither other case is ready. Both put the event back at the front of the list
and return to `processOverflow`'s loop. -/
def Logger.drainerBack (s : Logger) : Option Logger :=
  match s.drainer with
  | .hold e =>
    if s.cancelled || !s.mainLogCh.sendReady then
      some { s with overflow := e :: s.overflow, drainer := .loop }
    else none
  | _ => none

/-! ## `Shutdown` -/

/-- `l.cancel()`. -/
def Logger.cancel (s : Logger) : Option Logger :=
  match s.shutdown with
  | .notCalled => some { s with cancelled := true, shutdown := .cancelled }
  | _ => none

/-- `close(l.mainLogCh)`. -/
def Logger.close (s : Logger) : Option Logger :=
  match s.shutdown with
  | .cancelled =>
    some (if s.mainLogCh.closed then { s with panicked := true }
      else { s with mainLogCh := { s.mainLogCh with closed := true }, shutdown := .closed })
  | _ => none

/-- Every goroutine `Shutdown` waits for has returned: `fanOutLogs`, the
workers of both pools, and the overflow drainer. -/
def Logger.stopped (s : Logger) : Bool :=
  (match s.fanOut with | .exited => true | _ => false) &&
    (match s.drainer with | .exited => true | _ => false) &&
    [PoolId.stdout, .db].all fun p => (s.pools p).workers.all fun w => !w.running

/-- `Shutdown` returns from its waits. -/
def Logger.shutdownReturn (s : Logger) : Option Logger :=
  match s.shutdown with
  | .closed => if s.stopped then some { s with shutdown := .returned } else none
  | _ => none

/-! ## Steps and runs -/

/-- A step: one select of a goroutine with the case it picks, or one
statement of `Shutdown`. -/
inductive Act where
  | log (l : AuditLog)
  | fanOutChannel
  | fanOutDone
  | workerRecv (p : PoolId) (i : Nat)
  | workerTimer (p : PoolId) (i : Nat)
  | workerDone (p : PoolId) (i : Nat)
  | drainerTick
  | drainerDone
  | drainerPop
  | drainerSend
  | drainerBack
  | cancel
  | close
  | shutdownReturn

/-- The state after a step, or `none` when the step is not possible. -/
def Logger.step (s : Logger) : Act → Option Logger
  | .log l => some (s.log l)
  | .fanOutChannel => s.fanOutChannel
  | .fanOutDone => s.fanOutDone
  | .workerRecv p i => s.worker p i Pool.recv
  | .workerTimer p i => s.worker p i Pool.timer
  | .workerDone p i => s.worker p i (Pool.done s.cancelled)
  | .drainerTick => s.drainerTick
  | .drainerDone => s.drainerDone
  | .drainerPop => s.drainerPop
  | .drainerSend => s.drainerSend
  | .drainerBack => s.drainerBack
  | .cancel => s.cancel
  | .close => s.close
  | .shutdownReturn => s.shutdownReturn

/-- One step of the logger. -/
def Logger.Step (s s' : Logger) : Prop := ∃ a, s.step a = some s'

/-- Any number of steps. -/
def Logger.Steps : Logger → Logger → Prop := Relation.ReflTransGen Logger.Step

/-- The states a logger reaches from `NewAuditLogger`. -/
def Logger.Reachable (s : Logger) : Prop :=
  ∃ workersNum batchSize, Logger.Steps (Logger.init workersNum batchSize) s

/-- The state a list of steps leads to, skipping a step that is not possible. -/
def Logger.replay (s : Logger) (as : List Act) : Logger :=
  as.foldl (fun s a => (s.step a).getD s) s

/-- A replay is a run. -/
theorem Logger.steps_replay (s : Logger) (as : List Act) : s.Steps (s.replay as) := by
  induction as generalizing s with
  | nil => exact .refl
  | cons a as ih =>
    show s.Steps (((s.step a).getD s).replay as)
    cases h : s.step a with
    | none => exact ih s
    | some s' => exact .head ⟨a, h⟩ (ih s')

end Pvz.Audit
