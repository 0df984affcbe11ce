import Pvz.Repository.Orders
import Pvz.Cache.OrderCache
import Pvz.Audit.Log
import Pvz.Service.Packager

/-!
# What the order service acts on

`OrderService` (`src/unnamed/part_005`) holds a repository, a cache and an
audit logger. Its world is the committed `orders` table, the cache, the
events handed to `AuditLogger.Log` and the metrics, read against one clock.

Each external call the service makes is an action on the world: a
repository transaction, a cache call, an audit event, a metric update. The
service's operations (`Pvz.Service.Ops`) are sequences of these actions, and
the concurrent model (`Pvz.Service.Calls`) interleaves them one action at a
time. A call that fails returns its error and changes nothing.

Which store and cache calls fail is the environment's choice. The concurrent
model makes it at each action; a service call run alone reads it from
`faults`, the world's schedule of the outcomes of its next store and cache
calls (`true` for a failure), which a new deployment starts empty: past the
schedule, no call fails.
-/

namespace Pvz.Service

open Cache

/-- The counters and the processing-time histogram (`metrics.Orders*`). -/
structure Metrics where
  ordersAccepted : Nat
  ordersDelivered : Nat
  ordersReturned : Nat
  ordersReturnedToCourier : Nat
  ordersProcessingTime : List Int
  deriving Repr

/-- The store, the cache, the audit events handed to the logger (oldest
first), the metrics, the clock, and which of the next store and cache calls
fail. -/
structure World where
  clock : Int
  orders : OrderTable
  cache : OrderCache
  audit : List AuditLog
  metrics : Metrics
  faults : List Bool

/-- A fresh deployment: an empty table and cache at `clock`, no failure
scheduled. -/
def World.init (cache : OrderCache) (clock : Int) : World :=
  ⟨clock, .empty, cache, [], ⟨0, 0, 0, 0, []⟩, []⟩

/-- How a call ends other than normally: it returns an error, or it
dereferences a nil pointer, which no surface recovers from. -/
inductive Fault where
  | err (e : OrderError)
  | nilDereference
  deriving DecidableEq, Repr

/-- The service's monad: the world as state, a fault as early exit. -/
abbrev Svc := ExceptT Fault (StateM World)

/-- `return err` for a Go error. -/
def orThrow {α : Type} : Except OrderError α → Svc α
  | .ok a => pure a
  | .error e => throw (.err e)

/-- `*p`: reading through a pointer that may be nil. -/
def deref {α : Type} : Option α → Svc α
  | some a => pure a
  | none => throw .nilDereference

/-! ## Actions -/

/-- `time.Now()`. -/
def timeNow : StateM World Int := fun w => (w.clock, w)

/-- `cache.GetOrder`. -/
def cacheGetOrder (id : Int) : StateM World (Except OrderError Order) := fun w =>
  let r := w.cache.getOrder w.clock id; (r.1, { w with cache := r.2 })

/-- `cache.SetOrder`. -/
def cacheSetOrder (o : Order) : StateM World (Except OrderError Unit) := fun w =>
  let r := w.cache.setOrder w.clock o; (r.1, { w with cache := r.2 })

/-- `cache.DeleteOrder`. -/
def cacheDeleteOrder (id : Int) : StateM World (Except OrderError Unit) := fun w =>
  let r := w.cache.deleteOrder id; (r.1, { w with cache := r.2 })

/-- `cache.ClearOrderCache`. -/
def cacheClearOrderCache : StateM World (Except OrderError Unit) := fun w =>
  let r := w.cache.clearOrderCache w.clock; (r.1, { w with cache := r.2 })

/-- `repo.GetByID`. -/
def repoGetByID (id : Int) : StateM World (Except OrderError Order) := fun w =>
  (w.orders.getByID id, w)

/-- `repo.List(ctx, "")`. -/
def repoListAll : StateM World (Except OrderError (List Order)) := fun w =>
  (.ok w.orders.listAll, w)

/-- `repo.Create` up to its `INSERT`. -/
def repoCreateCheck (o : Order) : StateM World (Except OrderError Unit) := fun w =>
  (w.orders.createCheck o, w)

/-- `repo.Create`'s `INSERT` and commit. -/
def repoInsert (o : Order) : StateM World (Except OrderError Unit) := fun w =>
  match w.orders.insert o with
  | .ok t => (.ok (), { w with orders := t })
  | .error e => (.error e, w)

/-- `repo.Update`. -/
def repoUpdate (o : Order) : StateM World (Except OrderError Unit) := fun w =>
  match w.orders.update o with
  | .ok t => (.ok (), { w with orders := t })
  | .error e => (.error e, w)

/-- `repo.Delete`. -/
def repoDelete (id : Int) : StateM World (Except OrderError Unit) := fun w =>
  match w.orders.delete id with
  | .ok t => (.ok (), { w with orders := t })
  | .error e => (.error e, w)

/-! ## Failing calls -/

/-- A repository transaction that may fail: then it returns an error and
changes nothing. -/
def repoCall {α : Type} (fail : Bool) (a : StateM World (Except OrderError α)) :
    StateM World (Except OrderError α) :=
  fun w => if fail then (.error .infrastructure, w) else a w

/-- A cache call that may fail: then it returns its backend's error and
changes nothing. -/
def cacheCall {α : Type} (fail : Bool) (a : StateM World (Except OrderError α)) :
    StateM World (Except OrderError α) :=
  fun w => if fail then (.error w.cache.failure, w) else a w

/-- The schedule's outcome for the next call, and the schedule after it. -/
def World.nextFault (w : World) : Bool × World :=
  match w.faults with
  | [] => (false, w)
  | fail :: faults => (fail, { w with faults := faults })

/-- A repository transaction of a call run alone: it fails as the schedule says. -/
def repoStep {α : Type} (a : StateM World (Except OrderError α)) : StateM World (Except OrderError α) :=
  fun w => repoCall w.nextFault.1 a w.nextFault.2

/-- A cache call of a call run alone: it fails as the schedule says. -/
def cacheStep {α : Type} (a : StateM World (Except OrderError α)) : StateM World (Except OrderError α) :=
  fun w => cacheCall w.nextFault.1 a w.nextFault.2

section Steps

variable {α : Type} (a : StateM World (Except OrderError α)) {w : World}

/-- With nothing scheduled, a call runs as it is. -/
@[simp] theorem repoStep_nil (h : w.faults = []) : repoStep a w = a w := by
  simp [repoStep, World.nextFault, h, repoCall]

@[simp] theorem cacheStep_nil (h : w.faults = []) : cacheStep a w = a w := by
  simp [cacheStep, World.nextFault, h, cacheCall]

/-- Taking the next outcome changes nothing but the schedule. -/
theorem World.nextFault_eq (w : World) : w.nextFault.2 = { w with faults := w.faults.tail } := by
  obtain ⟨_, _, _, _, _, _ | _⟩ := w <;> rfl

end Steps

/-- `s.logger.LogOrderStatusChange`: the event goes to the audit logger. -/
def logOrderStatusChange (id : Int) (oldStatus newStatus : String) : StateM World Unit := fun w =>
  ((), { w with audit := w.audit ++ [orderStatusLog w.clock id oldStatus newStatus] })

/-- A metrics update. -/
def record (f : Metrics → Metrics) : StateM World Unit := fun w =>
  ((), { w with metrics := f w.metrics })

end Pvz.Service
