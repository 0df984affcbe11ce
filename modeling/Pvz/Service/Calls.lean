import Pvz.Service.Ops

/-!
# Concurrent calls of `OrderService`

Each call of the service is a thread whose state says which action it takes
next and holds the values it has computed so far. A step runs one action of
one call, which is one repository transaction, one cache call, or the audit
event and metrics at the end; the values computed between two actions are
computed in the step that precedes them. Any repository or cache action may
fail: it then returns an error and changes nothing. Between steps the clock
may advance, new calls may begin, and the in-process cache's reaper may run.

The guards and rows are the ones `Pvz.Service.Ops` computes (`build`,
`deliverRow`, `returnRow`, `courierCheck`), so each thread does what the
sequential operation does, one action at a time.
-/

namespace Pvz.Service

open Cache OrderError

/-- What a call returns when it ends normally. -/
inductive Reply where
  | unit
  | order (o : Order)

/-- A call's next state: more actions to take, or its end. -/
inductive Next (σ : Type) where
  | cont (pc : σ)
  | done (r : Except Fault Reply)

/-- Continue with `k` after an action that succeeded; end with its error
otherwise. -/
def andThen {σ α : Type} (r : Except OrderError α × World) (k : α → σ) : Next σ × World :=
  match r.1 with
  | .ok a => (.cont (k a), r.2)
  | .error e => (.done (.error (.err e)), r.2)

/-- One action of `readThrough`: the cache, or the repository after a cache
error. A cache error moves on to the repository; a repository error ends the
call; an order read goes to `found`. -/
def readThroughStep {σ : Type} (fail fromRepo : Bool) (id : Int) (w : World) (retry : σ)
    (found : Order → Next σ) : Next σ × World :=
  if fromRepo then
    let r := repoCall fail (repoGetByID id) w
    match r.1 with
    | .ok o => (found o, r.2)
    | .error e => (.done (.error (.err e)), r.2)
  else
    let r := cacheCall fail (cacheGetOrder id) w
    match r.1 with
    | .ok o => (found o, r.2)
    | .error _ => (.cont retry, r.2)

/-! ## `AcceptOrder` -/

/-- Where an `AcceptOrder` call stands: at its start, or about to take the
named action for the row it built. -/
inductive AcceptPc where
  | start (a : AcceptArgs)
  | createCheck (order : Order)
  | insert (order : Order)
  | setOrder (order : Order)
  | log (order : Order)

/-- One action of `AcceptOrder`. The first reads the clock, checks the
arguments and calls `repo.GetByID`, whose failure leaves the zero order. -/
def AcceptPc.step (fail : Bool) (w : World) : AcceptPc → Next AcceptPc × World
  | .start a =>
    if a.id ≤ 0 then (.done (.error (.err errInvalidOrderID)), w)
    else if w.clock > a.deadline then (.done (.error (.err errStorageDeadlinePassed)), w)
    else
      let r := repoCall fail (repoGetByID a.id) w
      match a.build w.clock r.1 with
      | .ok o => (.cont (.createCheck o), r.2)
      | .error e => (.done (.error (.err e)), r.2)
  | .createCheck o => andThen (repoCall fail (repoCreateCheck o) w) fun _ => .insert o
  | .insert o => andThen (repoCall fail (repoInsert o) w) fun _ => .setOrder o
  | .setOrder o => andThen (cacheCall fail (cacheSetOrder o) w) fun _ => .log o
  | .log o =>
    let w := (logOrderStatusChange o.id "none" o.state.name w).2
    (.done (.ok .unit), (record (fun m => { m with ordersAccepted := m.ordersAccepted + 1 }) w).2)

/-! ## `DeliverOrder` and `ProcessReturnOrder` -/

/-- Where a `DeliverOrder` call stands: reading, or about to take the named
action with the order it read and the row it writes. -/
inductive DeliverPc where
  | read (fromRepo : Bool)
  | update (order row : Order)
  | setOrder (order row : Order)
  | log (order row : Order)

/-- One action of `DeliverOrder`. -/
def DeliverPc.step (fail : Bool) (id customerID now : Int) (w : World) : DeliverPc → Next DeliverPc × World
  | .read fromRepo => readThroughStep fail fromRepo id w (.read true) fun order =>
    match deliverRow customerID now order with
    | .ok row => .cont (.update order row)
    | .error e => .done (.error (.err e))
  | .update order row => andThen (repoCall fail (repoUpdate row) w) fun _ => .setOrder order row
  | .setOrder order row => andThen (cacheCall fail (cacheSetOrder row) w) fun _ => .log order row
  | .log order row =>
    let w := (logOrderStatusChange id order.state.name row.state.name w).2
    (.done (.ok .unit), (record (deliveredMetrics now order.updatedAt) w).2)

/-- Where a `ProcessReturnOrder` call stands. -/
inductive ReturnPc where
  | read (fromRepo : Bool)
  | update (order row : Order)
  | deleteOrder (order row : Order)
  | log (order row : Order)

/-- One action of `ProcessReturnOrder`. -/
def ReturnPc.step (fail : Bool) (id customerID now : Int) (w : World) : ReturnPc → Next ReturnPc × World
  | .read fromRepo => readThroughStep fail fromRepo id w (.read true) fun order =>
    match returnRow customerID now order with
    | .ok row => .cont (.update order row)
    | .error f => .done (.error f)
  | .update order row => andThen (repoCall fail (repoUpdate row) w) fun _ => .deleteOrder order row
  | .deleteOrder order row => andThen (cacheCall fail (cacheDeleteOrder id) w) fun _ => .log order row
  | .log order row =>
    let w := (logOrderStatusChange id order.state.name row.state.name w).2
    (.done (.ok .unit), (record (fun m => { m with ordersReturned := m.ordersReturned + 1 }) w).2)

/-! ## `ReturnOrderToCourier` and `GetOrderByID` -/

/-- Where a `ReturnOrderToCourier` call stands: before its clock reading, or
reading with it, or about to take the named action for the order it read. -/
inductive CourierPc where
  | start
  | read (now : Int) (fromRepo : Bool)
  | deleteOrder (order : Order)
  | deleteRow (order : Order)
  | log (order : Order)

/-- One action of `ReturnOrderToCourier`. -/
def CourierPc.step (fail : Bool) (id : Int) (w : World) : CourierPc → Next CourierPc × World
  | .start => (.cont (.read w.clock false), w)
  | .read now fromRepo => readThroughStep fail fromRepo id w (.read now true) fun order =>
    match courierCheck now order with
    | .ok () => .cont (.deleteOrder order)
    | .error e => .done (.error (.err e))
  | .deleteOrder order => andThen (cacheCall fail (cacheDeleteOrder id) w) fun _ => .deleteRow order
  | .deleteRow order => andThen (repoCall fail (repoDelete id) w) fun _ => .log order
  | .log order =>
    let w := (logOrderStatusChange id order.state.name "deleted" w).2
    (.done (.ok .unit),
      (record (fun m => { m with ordersReturnedToCourier := m.ordersReturnedToCourier + 1 }) w).2)

/-- Where a `GetOrderByID` call stands: reading, or about to refill the cache
with the order the repository returned. -/
inductive GetPc where
  | read (fromRepo : Bool)
  | setOrder (order : Order)

/-- One action of `GetOrderByID`. After a repository read it reads the clock
to decide whether to refill the cache; the refill's error is dropped. -/
def GetPc.step (fail : Bool) (id : Int) (w : World) : GetPc → Next GetPc × World
  | .read false =>
    let r := cacheCall fail (cacheGetOrder id) w
    match r.1 with
    | .ok o => (.done (.ok (.order o)), r.2)
    | .error _ => (.cont (.read true), r.2)
  | .read true =>
    let r := repoCall fail (repoGetByID id) w
    match r.1 with
    | .ok o =>
      if o.state ≠ .returned ∧ o.deadlineAt > r.2.clock then (.cont (.setOrder o), r.2)
      else (.done (.ok (.order o)), r.2)
    | .error e => (.done (.error (.err e)), r.2)
  | .setOrder o => (.done (.ok (.order o)), (cacheCall fail (cacheSetOrder o) w).2)

/-! ## `ClearDatabase` -/

/-- Where a `ClearDatabase` call stands: before its listing, deleting the
listed rows left, or about to clear the cache. -/
inductive ClearPc where
  | start
  | deleting (rest : List Order)
  | clearCache

/-- One action of `ClearDatabase`. -/
def ClearPc.step (fail : Bool) (w : World) : ClearPc → Next ClearPc × World
  | .start => andThen (repoCall fail repoListAll w) .deleting
  | .deleting [] => (.cont .clearCache, w)
  | .deleting (o :: os) => andThen (repoCall fail (repoDelete o.id) w) fun _ => .deleting os
  | .clearCache =>
    let r := cacheCall fail cacheClearOrderCache w
    match r.1 with
    | .ok () => (.done (.ok .unit), r.2)
    | .error e => (.done (.error (.err e)), r.2)

section Import

variable (parseDeadline : Int → String → Except OrderError Int)
  (processPackaging : Option String → Option String → Option PackageType × Option WrapperType)

/-! ## `AcceptOrdersFromFile` -/

/-- Where an `AcceptOrdersFromFile` call stands: the orders left, an
`AcceptOrder` call in progress for one of them, or its extra audit event. -/
inductive ImportPc where
  | next (rest : List FileOrder)
  | accept (id : Int) (rest : List FileOrder) (pc : AcceptPc)
  | log (id : Int) (rest : List FileOrder)

/-- One action of `AcceptOrdersFromFile`. -/
def ImportPc.step (fail : Bool) (w : World) : ImportPc → Next ImportPc × World
  | .next [] => (.done (.ok .unit), w)
  | .next (o :: os) =>
    match parseDeadline w.clock o.deadlineAt with
    | .error e => (.done (.error (.err e)), w)
    | .ok deadline =>
      let (packageType, wrapper) := processPackaging o.packageType o.wrapper
      (.cont (.accept o.id os (.start ⟨o.id, o.customerID, deadline, o.weight, o.cost, packageType, wrapper⟩)), w)
  | .accept id os pc =>
    let r := pc.step fail w
    match r.1 with
    | .cont pc => (.cont (.accept id os pc), r.2)
    | .done (.ok _) => (.cont (.log id os), r.2)
    | .done (.error f) => (.done (.error f), r.2)
  | .log id os => (.cont (.next os), (logOrderStatusChange id "none" OrderState.accepted.name w).2)

/-! ## Calls -/

/-- A call of the service in flight, or ended. -/
inductive Call where
  | acceptOrder (pc : AcceptPc)
  | acceptOrdersFromFile (pc : ImportPc)
  | deliverOrder (id customerID now : Int) (pc : DeliverPc)
  | processReturnOrder (id customerID now : Int) (pc : ReturnPc)
  | returnOrderToCourier (id : Int) (pc : CourierPc)
  | getOrderByID (id : Int) (pc : GetPc)
  | clearDatabase (pc : ClearPc)
  | done (r : Except Fault Reply)

/-- Put a call's next state back into `Call`. -/
def Next.toCall {σ : Type} (k : σ → Call) : Next σ → Call
  | .cont pc => k pc
  | .done r => .done r

/-- One action of a call. An ended call takes none. -/
def Call.step (fail : Bool) (w : World) : Call → Call × World
  | .acceptOrder pc => let r := pc.step fail w; (r.1.toCall .acceptOrder, r.2)
  | .acceptOrdersFromFile pc =>
    let r := pc.step parseDeadline processPackaging fail w; (r.1.toCall .acceptOrdersFromFile, r.2)
  | .deliverOrder id c now pc =>
    let r := pc.step fail id c now w; (r.1.toCall (.deliverOrder id c now), r.2)
  | .processReturnOrder id c now pc =>
    let r := pc.step fail id c now w; (r.1.toCall (.processReturnOrder id c now), r.2)
  | .returnOrderToCourier id pc => let r := pc.step fail id w; (r.1.toCall (.returnOrderToCourier id), r.2)
  | .getOrderByID id pc => let r := pc.step fail id w; (r.1.toCall (.getOrderByID id), r.2)
  | .clearDatabase pc => let r := pc.step fail w; (r.1.toCall .clearDatabase, r.2)
  | .done r => (.done r, w)

/-- A call as it begins. `AcceptOrdersFromFile` begins once its file is
read; a file that cannot be read ends the call before any action. -/
inductive Call.Begins : Call → Prop
  | acceptOrder (a : AcceptArgs) : Begins (.acceptOrder (.start a))
  | acceptOrdersFromFile (orders : List FileOrder) : Begins (.acceptOrdersFromFile (.next orders))
  | deliverOrder (id customerID now : Int) : Begins (.deliverOrder id customerID now (.read false))
  | processReturnOrder (id customerID now : Int) : Begins (.processReturnOrder id customerID now (.read false))
  | returnOrderToCourier (id : Int) : Begins (.returnOrderToCourier id .start)
  | getOrderByID (id : Int) : Begins (.getOrderByID id (.read false))
  | clearDatabase : Begins (.clearDatabase .start)

/-! ## The system -/

/-- The world and the calls made so far, in the order they began. -/
structure Sys where
  world : World
  calls : List Call

/-- The steps of the system: one action of one call (which may fail), a
call beginning, the clock advancing, the in-process cache's reaper. -/
inductive Step : Sys → Sys → Prop
  | act (s : Sys) (i : Fin s.calls.length) (fail : Bool) :
      Step s ⟨(s.calls.get i).step parseDeadline processPackaging fail s.world |>.2,
        s.calls.set i ((s.calls.get i).step parseDeadline processPackaging fail s.world).1⟩
  | begin (s : Sys) (c : Call) (h : c.Begins) : Step s ⟨s.world, s.calls ++ [c]⟩
  | tick (s : Sys) (t : Int) (h : s.world.clock ≤ t) : Step s ⟨{ s.world with clock := t }, s.calls⟩
  | reap (s : Sys) (c : InMemoryCache) (h : s.world.cache = .inMemory c) :
      Step s ⟨{ s.world with cache := .inMemory (c.cleanupExpiredOrders s.world.clock) }, s.calls⟩

/-- The states a deployment reaches: from an empty table and a new cache,
any sequence of steps. -/
inductive Reachable : Sys → Prop
  | init (cache : OrderCache) (h : cache.New) (clock : Int) : Reachable ⟨World.init cache clock, []⟩
  | step {s s' : Sys} : Reachable s → Step parseDeadline processPackaging s s' → Reachable s'

end Import

end Pvz.Service
