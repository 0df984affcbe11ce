import Pvz.Service.World

/-!
# `OrderService`, one call at a time

The operations of `src/unnamed/part_005`, each a sequence of the world's
actions. A call reads the clock when the source calls `time.Now()`;
`DeliverOrder` and `ProcessReturnOrder` take the caller's reading instead.
Errors are returned by `return err` in Go and thrown here; `fmt.Errorf`
wrapping keeps the sentinel, which is all an error is in this model.

Every store and cache call fails as the world's schedule says
(`repoStep`, `cacheStep`).

The import helpers the service uses (`readOrdersFromFile`, `parseDeadline`,
`processPackaging`) are not among the sources: the file's decoded content is
an argument, and the other two are parameters of the import.
-/

namespace Pvz.Service

open Cache OrderError

/-- The arguments of `AcceptOrder`. -/
structure AcceptArgs where
  id : Int
  customerID : Int
  deadline : Int
  weight : ℚ
  cost : ℚ
  packageType : Option PackageType
  wrapper : Option WrapperType
  deriving DecidableEq, Repr

/-- The cost `AcceptOrder` stores: the given cost plus the surcharge of the
packager for the package type and wrapper, whose weight check must pass. -/
def AcceptArgs.finalCost (a : AcceptArgs) : Except OrderError ℚ :=
  match a.packageType with
  | none => pure a.cost
  | some _ => do
    let packager ← createPackager a.packageType a.wrapper
    packager.validateWeight a.weight
    pure (a.cost + packager.getAdditionalCost)

/-- The `model.Order` literal `AcceptOrder` stores. -/
def AcceptArgs.row (a : AcceptArgs) (now : Int) (finalCost : ℚ) : Order :=
  { id := a.id, customerID := a.customerID, deadlineAt := a.deadline, state := .accepted,
    updatedAt := now, weight := a.weight, cost := finalCost, packageType := a.packageType,
    wrapper := a.wrapper, deliveredAt := none, returnedAt := none }

/-- `AcceptOrder` from its existence check to the row it stores. `existing`
is what `repo.GetByID` returned; its error is ignored and leaves the zero
order, whose id is 0. -/
def AcceptArgs.build (a : AcceptArgs) (now : Int) (existing : Except OrderError Order) :
    Except OrderError Order := do
  if (existing.toOption.map (·.id)).getD 0 = a.id then throw errOrderExists
  if a.weight ≤ 0 then throw errNegativeWeight
  if a.cost ≤ 0 then throw errNegativeCost
  let finalCost ← a.finalCost
  pure (a.row now finalCost)

/-- `AcceptOrder`. -/
def acceptOrder (a : AcceptArgs) : Svc Unit := do
  let now ← timeNow
  if a.id ≤ 0 then throw (.err errInvalidOrderID)
  if now > a.deadline then throw (.err errStorageDeadlinePassed)
  let order ← orThrow (a.build now (← repoStep (repoGetByID a.id)))
  orThrow (← repoStep (repoCreateCheck order))
  orThrow (← repoStep (repoInsert order))
  orThrow (← cacheStep (cacheSetOrder order))
  logOrderStatusChange a.id "none" order.state.name
  record fun m => { m with ordersAccepted := m.ordersAccepted + 1 }

/-- The read every other operation starts with: the cache, then the
repository on any cache error. -/
def readThrough (id : Int) : Svc Order := do
  match ← cacheStep (cacheGetOrder id) with
  | .ok o => pure o
  | .error _ => orThrow (← repoStep (repoGetByID id))

/-- `ReturnOrderToCourier`'s guards on the order it read. -/
def courierCheck (now : Int) (order : Order) : Except OrderError Unit :=
  if order.state = .delivered then .error errOrderAlreadyDelivered
  else if now < order.deadlineAt ∧ order.state ≠ .returned then .error errDeadlineNotExpired
  else .ok ()

/-- `ReturnOrderToCourier`: the cache entry goes first, then the row. -/
def returnOrderToCourier (id : Int) : Svc Unit := do
  let now ← timeNow
  let order ← readThrough id
  orThrow (courierCheck now order)
  orThrow (← cacheStep (cacheDeleteOrder id))
  orThrow (← repoStep (repoDelete id))
  logOrderStatusChange id order.state.name "deleted"
  record fun m => { m with ordersReturnedToCourier := m.ordersReturnedToCourier + 1 }

/-- With the in-process cache, reclaiming an order past its deadline fails
and leaves the row: `GetOrder` finds the entry expired and removes it, the
repository supplies the order, and `DeleteOrder` then reports the id missing.
The configuration is the repository's `config.json`. -/
theorem returnOrderToCourier_expired_inMemory :
    ∃ w w', (acceptOrder ⟨1, 1, hour, 5, 100, none, none⟩).run
        (World.init (.inMemory (.empty (.ofConfig 5 1440 10 1000 60))) 0) = (.ok (), w) ∧
      (returnOrderToCourier 1).run { w with clock := 2 * hour } =
        (.error (.err cacheErrOrderNotFoundInCache), w') ∧ w'.orders.rows.map (·.id) = [1] :=
  ⟨_, _, rfl, rfl, rfl⟩

/-- `DeliverOrder`'s guards on the order it read, and the row it writes. -/
def deliverRow (customerID now : Int) (order : Order) : Except OrderError Order :=
  if order.customerID ≠ customerID then .error errWrongCustomer
  else if order.state ≠ .accepted then .error errWrongState
  else if now > order.deadlineAt then .error errStorageExpired
  else .ok { order with state := .delivered, updatedAt := now, deliveredAt := some now }

/-- `DeliverOrder`'s metrics: the counter, and the time since the order's
last update. -/
def deliveredMetrics (now metricsUpdated : Int) (m : Metrics) : Metrics :=
  { m with ordersDelivered := m.ordersDelivered + 1,
           ordersProcessingTime := m.ordersProcessingTime ++ [goSub now metricsUpdated] }

/-- `DeliverOrder`. -/
def deliverOrder (id customerID now : Int) : Svc Unit := do
  let order ← readThrough id
  let row ← orThrow (deliverRow customerID now order)
  orThrow (← repoStep (repoUpdate row))
  orThrow (← cacheStep (cacheSetOrder row))
  logOrderStatusChange id order.state.name row.state.name
  record (deliveredMetrics now order.updatedAt)

/-- `ProcessReturnOrder`'s guards on the order it read, and the row it writes.
The last guard reads `*order.DeliveredAt`. -/
def returnRow (customerID now : Int) (order : Order) : Except Fault Order :=
  if order.customerID ≠ customerID then .error (.err errWrongCustomer)
  else if order.state ≠ .delivered then .error (.err errNotDelivered)
  else match order.deliveredAt with
    | none => .error .nilDereference
    | some d =>
      if goSub now d > returnedAt then .error (.err errReturnExpired)
      else .ok { order with state := .returned, updatedAt := now, returnedAt := some now }

/-- `ProcessReturnOrder`. -/
def processReturnOrder (id customerID now : Int) : Svc Unit := do
  let order ← readThrough id
  let row ← (returnRow customerID now order : Except Fault Order)
  orThrow (← repoStep (repoUpdate row))
  orThrow (← cacheStep (cacheDeleteOrder id))
  logOrderStatusChange id order.state.name row.state.name
  record fun m => { m with ordersReturned := m.ordersReturned + 1 }

/-- With the in-process cache, a return after the storage deadline commits
the returned row and then reports an error: the cache entry of the delivered
order has expired and been removed by `GetOrder`, so the `DeleteOrder` that
follows the commit finds nothing. -/
theorem processReturnOrder_commits_then_fails :
    ∃ w₁ w₂ w₃, (acceptOrder ⟨1, 1, hour, 5, 100, none, none⟩).run
        (World.init (.inMemory (.empty (.ofConfig 5 1440 10 1000 60))) 0) = (.ok (), w₁) ∧
      (deliverOrder 1 1 (hour / 2)).run { w₁ with clock := hour / 2 } = (.ok (), w₂) ∧
      (processReturnOrder 1 1 (2 * hour)).run { w₂ with clock := 2 * hour } =
        (.error (.err cacheErrOrderNotFoundInCache), w₃) ∧
      w₃.orders.rows.map (·.state) = [.returned] :=
  ⟨_, _, _, rfl, rfl, rfl, rfl⟩

/-- `GetOrderByID`: a repository read refills the cache with an order that is
not returned and whose deadline is ahead; that write's failure is only logged. -/
def getOrderByID (id : Int) : Svc Order := do
  match ← cacheStep (cacheGetOrder id) with
  | .ok o => pure o
  | .error _ =>
    let order ← orThrow (← repoStep (repoGetByID id))
    if order.state ≠ .returned ∧ order.deadlineAt > (← timeNow) then
      discard <| (cacheStep (cacheSetOrder order) : StateM World _)
    pure order

/-- `ClearDatabase`'s loop: delete the listed rows one by one. -/
def deleteEach : List Order → Svc Unit
  | [] => pure ()
  | o :: os => do
    orThrow (← repoStep (repoDelete o.id))
    deleteEach os

/-- `ClearDatabase`. -/
def clearDatabase : Svc Unit := do
  let orders ← orThrow (← repoStep repoListAll)
  deleteEach orders
  orThrow (← cacheStep cacheClearOrderCache)

/-- An order of the import file, as `readOrdersFromFile` decodes it. -/
structure FileOrder where
  id : Int
  customerID : Int
  deadlineAt : String
  weight : ℚ
  cost : ℚ
  packageType : Option String
  wrapper : Option String

section Import

-- `parseDeadline`, at the clock reading it makes, and `processPackaging`.
variable (parseDeadline : Int → String → Except OrderError Int)
  (processPackaging : Option String → Option String → Option PackageType × Option WrapperType)

/-- `AcceptOrdersFromFile`'s loop: each order is accepted, then logged. -/
def importEach : List FileOrder → Svc Unit
  | [] => pure ()
  | o :: os => do
    let deadline ← orThrow (parseDeadline (← timeNow) o.deadlineAt)
    let (packageType, wrapper) := processPackaging o.packageType o.wrapper
    acceptOrder ⟨o.id, o.customerID, deadline, o.weight, o.cost, packageType, wrapper⟩
    logOrderStatusChange o.id "none" OrderState.accepted.name
    importEach os

/-- `AcceptOrdersFromFile`, given what `readOrdersFromFile` returned. -/
def acceptOrdersFromFile (file : Except OrderError (List FileOrder)) : Svc Unit := do
  importEach parseDeadline processPackaging (← orThrow file)

/-- Importing a file of one order commits one row and hands the audit logger
two `none → accepted` events for it: `AcceptOrder` logs the creation, and the
loop over the file's orders logs it again. -/
theorem acceptOrdersFromFile_logs_twice :
    ∃ w, (acceptOrdersFromFile (fun now _ => .ok (now + 24 * hour)) (fun _ _ => (none, none))
        (.ok [⟨1, 1, "24h", 5, 100, none, none⟩])).run
        (World.init (.redis ⟨[], .ofConfig "order:" "history" 1440 10 60⟩) 0) = (.ok (), w) ∧
      w.orders.rows.map (·.id) = [1] ∧ w.metrics.ordersAccepted = 1 ∧
      w.audit.map (fun l => (l.orderID, l.oldStatus, l.newStatus)) =
        [(1, "none", "accepted"), (1, "none", "accepted")] :=
  ⟨_, rfl, rfl, rfl, rfl⟩

end Import

end Pvz.Service
