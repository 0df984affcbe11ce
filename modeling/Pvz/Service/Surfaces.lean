import Pvz.Service.Ops

/-!
# Packaging through the order-creating surfaces

`AcceptOrder` prices packaging only when it is given a package type
(`src/unnamed/part_005:116-132`), and stores the wrapper it is given in
either case (`:134-144`). So the stored cost includes a wrapper's surcharge
exactly when the wrapper came with a package type (`AcceptArgs.build_spec`,
`AcceptArgs.priced_of_build`), and a successful call stores the row `build`
computes (`acceptOrder_stores`).

* The HTTP handler (`validateOrderRequest`, `src/pkg/handler/user.go:435-467`)
  reads the wrapper only inside `if req.PackageType != ""`, so every order it
  creates is priced (`OrderHandler.accepted_priced`).
* The RPC handler (`OrderRPCHandler.CreateOrder`, `src/pkg/grpc/order.go:46-84`)
  converts the two enums separately (`src/pkg/grpc/utils.go:111-140`). A
  request with the film wrapper and an unspecified package type stores the
  wrapper with no package type and no surcharge
  (`rpc_film_wrapper_stored_unpriced`).
* `AcceptOrdersFromFile` takes its package type and wrapper from
  `processPackaging`, which is not among the sources.

Both handlers' `parseDeadline` read the clock and Go's time formats; each is
a parameter.
-/

namespace Pvz.Service

open Cache OrderError

/-! ## Running a call -/

section Run

variable {α β : Type}

theorem run_liftM_bind (x : StateM World α) (f : α → Svc β) (w : World) :
    ((liftM x : Svc α) >>= f).run w = (f (x w).1).run (x w).2 := rfl

theorem run_orThrow_bind (e : Except OrderError α) (f : α → Svc β) (w : World) :
    ((orThrow e) >>= f).run w = match e with | .ok a => (f a).run w | .error err => (.error (.err err), w) := by
  cases e <;> rfl

theorem run_throw_bind (e : Fault) (k : Unit → Svc α) (w : World) :
    ((throw e : Svc Unit) >>= k).run w = (.error e, w) := rfl

end Run

theorem OrderTable.mem_insert_self {t t' : OrderTable} {o : Order} (h : t.insert o = .ok t') :
    o.stored ∈ t'.rows := by
  simp [(OrderTable.insert_ok h).2.2]

/-- A store call that succeeds ran on the world with the schedule advanced. -/
theorem repoStep_ok {α : Type} {a : StateM World (Except OrderError α)} {w w' : World} {x : α}
    (h : repoStep a w = (.ok x, w')) : a w.nextFault.2 = (.ok x, w') := by
  unfold repoStep repoCall at h
  split at h
  · cases h
  · exact h

/-- A cache call changes no row. -/
theorem cacheStep_orders {α : Type} {a : StateM World (Except OrderError α)} (ha : ∀ w, (a w).2.orders = w.orders)
    (w : World) : (cacheStep a w).2.orders = w.orders := by
  unfold cacheStep cacheCall
  split
  · rw [World.nextFault_eq]
  · rw [ha, World.nextFault_eq]

/-- A successful `AcceptOrder` stores a row `build` computes from the clock
and what `GetByID` returned, in the form the columns keep. -/
theorem acceptOrder_stores (a : AcceptArgs) {w w' : World} (h : (acceptOrder a).run w = (.ok (), w')) :
    ∃ e o, a.build w.clock e = .ok o ∧ o.stored ∈ w'.orders.rows := by
  unfold acceptOrder at h
  rw [run_liftM_bind] at h
  dsimp only [timeNow] at h
  split at h
  · rw [run_throw_bind] at h; cases h
  rw [pure_bind] at h
  split at h
  · rw [run_throw_bind] at h; cases h
  simp only [pure_bind, run_liftM_bind, run_orThrow_bind] at h
  split at h
  case h_2 => cases h
  rename_i o hb
  refine ⟨_, o, hb, ?_⟩
  split at h
  case h_2 => cases h
  rcases hi : repoStep (repoInsert o) (repoStep (repoCreateCheck o) (repoStep (repoGetByID a.id) w).2).2
    with ⟨_ | ⟨⟩, w₃⟩
  · rw [hi] at h; cases h
  rw [hi] at h
  simp only [run_orThrow_bind, run_liftM_bind] at h
  have hrow : o.stored ∈ w₃.orders.rows := by
    have := repoStep_ok hi
    unfold repoInsert at this
    split at this
    · cases this; exact OrderTable.mem_insert_self ‹_›
    · cases this
  have hc := cacheStep_orders (fun _ => rfl : ∀ w, (cacheSetOrder o w).2.orders = w.orders) w₃
  split at h
  case h_2 => cases h
  cases h
  rw [← hc] at hrow
  exact hrow

/-! ## What `AcceptOrder` prices -/

/-- What the spec asks of a stored order: a wrapper only with a package type,
and the cost `AcceptOrder` was given plus the surcharge of the packager
`createPackager` built with that wrapper, as the `cost` column keeps it. -/
def AcceptArgs.Priced (a : AcceptArgs) (row : Order) : Prop :=
  ∀ w, row.wrapper = some w → row.packageType.isSome ∧
    ∃ p, createPackager row.packageType (some w) = .ok p ∧ row.cost = toCents (a.cost + p.getAdditionalCost)

/-- The row `build` computes keeps the id, package type and wrapper it was
given; its cost is the given one without a package type, and otherwise that
plus the surcharge of the packager `createPackager` built. -/
theorem AcceptArgs.build_spec {a : AcceptArgs} {now : Int} {e : Except OrderError Order} {row : Order}
    (h : a.build now e = .ok row) :
    row.id = a.id ∧ row.packageType = a.packageType ∧ row.wrapper = a.wrapper ∧
      (a.packageType = none → row.cost = a.cost) ∧
      (a.packageType.isSome → ∃ p, createPackager a.packageType a.wrapper = .ok p ∧
        row.cost = a.cost + p.getAdditionalCost) := by
  simp only [AcceptArgs.build, bind, Except.bind, pure, Except.pure] at h
  split at h; · cases h
  split at h; · cases h
  split at h; · cases h
  split at h
  · cases h
  rename_i c hc
  cases h
  refine ⟨rfl, rfl, rfl, fun hn => ?_, fun hs => ?_⟩
  · simp only [AcceptArgs.finalCost, hn, pure, Except.pure] at hc
    exact (Except.ok.inj hc).symm
  · obtain ⟨pt, hpt⟩ := Option.isSome_iff_exists.1 hs
    simp only [AcceptArgs.finalCost, hpt, bind, Except.bind] at hc
    split at hc; · cases hc
    rename_i p hp
    split at hc; · cases hc
    exact ⟨p, hpt ▸ hp, (Except.ok.inj hc).symm⟩

/-- `orderRequest` (`src/pkg/handler/user.go:536-544`). -/
structure OrderRequest where
  id : Int
  customerID : Int
  deadlineAt : String
  weight : ℚ
  cost : ℚ
  packageType : String
  wrapper : String

/-- `validateOrderRequest`, its errors as the texts the handler answers
`400` with. -/
def validateOrderRequest (parseDeadline : String → Except String Int) (req : OrderRequest) :
    Except String (Int × Option PackageType × Option WrapperType) := do
  if req.weight ≤ 0 then throw "вес должен быть больше 0"
  if req.cost ≤ 0 then throw "стоимость должна быть больше 0"
  let deadline ← parseDeadline req.deadlineAt
  if req.packageType ≠ "" then
    pure (deadline, some ⟨req.packageType⟩, if req.wrapper ≠ "" then some ⟨req.wrapper⟩ else none)
  else pure (deadline, none, none)

/-- `OrderHandler.CreateOrder` (`src/pkg/handler/user.go:581-604`) up to its
call of `AcceptOrder`: the arguments it passes. -/
def OrderHandler.acceptArgs (parseDeadline : String → Except String Int) (req : OrderRequest) :
    Except String AcceptArgs := do
  let (deadline, packageType, wrapper) ← validateOrderRequest parseDeadline req
  pure ⟨req.id, req.customerID, deadline, req.weight, req.cost, packageType, wrapper⟩

/-- `pb.PackageType`'s values (`src/unnamed/part_014:625-630`); a proto3
enum field holds any `int32`. -/
def Pb.packageTypeUnspecified : Int := 0
def Pb.packageTypeBag : Int := 1
def Pb.packageTypeBox : Int := 2
def Pb.packageTypeFilm : Int := 3

/-- `pb.WrapperType`'s values (`src/unnamed/part_014:633-636`). -/
def Pb.wrapperTypeUnspecified : Int := 0
def Pb.wrapperTypeFilm : Int := 1

/-- `packageTypeFromProto` (`src/pkg/grpc/utils.go:111-127`). -/
def packageTypeFromProto (packageType : Int) : Option PackageType :=
  if packageType = Pb.packageTypeBag then some .packageBag
  else if packageType = Pb.packageTypeBox then some .packageBox
  else if packageType = Pb.packageTypeFilm then some .packageFilm
  else none

/-- `wrapperTypeFromProto` (`src/pkg/grpc/utils.go:130-140`). -/
def wrapperTypeFromProto (wrapperType : Int) : Option WrapperType :=
  if wrapperType = Pb.wrapperTypeFilm then some .wrapperFilm else none

/-- `pb.CreateOrderRequest` (`src/unnamed/part_014:639-647`). -/
structure CreateOrderRequest where
  id : Int
  customerId : Int
  deadlineAt : String
  weight : ℚ
  cost : ℚ
  packageType : Int
  wrapper : Int

/-- `OrderRPCHandler.CreateOrder` up to its call of `AcceptOrder`: the
request's checks, each answered `InvalidArgument`, and the arguments it
passes. -/
def OrderRPCHandler.acceptArgs (parseDeadline : String → Except String Int) (req : CreateOrderRequest) :
    Except (Code × String) AcceptArgs := do
  if req.weight ≤ 0 then throw (.invalidArgument, "вес должен быть больше 0")
  if req.cost ≤ 0 then throw (.invalidArgument, "стоимость должна быть больше 0")
  let deadline ← (parseDeadline req.deadlineAt).mapError fun msg => (.invalidArgument, msg)
  pure ⟨req.id, req.customerId, deadline, req.weight, req.cost, packageTypeFromProto req.packageType,
    wrapperTypeFromProto req.wrapper⟩

theorem OrderRPCHandler.acceptArgs_spec {parseDeadline : String → Except String Int} {req : CreateOrderRequest}
    {a : AcceptArgs} (h : OrderRPCHandler.acceptArgs parseDeadline req = .ok a) :
    a.id = req.id ∧ a.cost = req.cost ∧ a.packageType = packageTypeFromProto req.packageType ∧
      a.wrapper = wrapperTypeFromProto req.wrapper := by
  simp only [OrderRPCHandler.acceptArgs, bind, Except.bind, pure, Except.pure] at h
  split at h; · cases h
  split at h; · cases h
  split at h; · cases h
  cases h
  exact ⟨rfl, rfl, rfl, rfl⟩

/-- A request through RPC with the film wrapper and a package type the
handler does not map (`PACKAGE_TYPE_UNSPECIFIED`, or any other value) that
`AcceptOrder` accepts stores the film wrapper with no package type, at the
cost the request gave (in cents), without the wrapper's surcharge. -/
theorem rpc_film_wrapper_stored_unpriced (parseDeadline : String → Except String Int) (req : CreateOrderRequest)
    (hpt : packageTypeFromProto req.packageType = none) (hwr : req.wrapper = Pb.wrapperTypeFilm) {a : AcceptArgs}
    (ha : OrderRPCHandler.acceptArgs parseDeadline req = .ok a) {w w' : World}
    (hacc : (acceptOrder a).run w = (.ok (), w')) :
    ∃ row ∈ w'.orders.rows, row.id = req.id ∧ row.wrapper = some .wrapperFilm ∧ row.packageType = none ∧
      row.cost = toCents req.cost ∧ ¬ a.Priced row := by
  obtain ⟨hid, hcost, hpa, hwa⟩ := OrderRPCHandler.acceptArgs_spec ha
  have hw : a.wrapper = some .wrapperFilm := by rw [hwa, hwr]; rfl
  obtain ⟨_, row, hb, hrow⟩ := acceptOrder_stores a hacc
  obtain ⟨hrid, hpr, hwrow, hnone, -⟩ := AcceptArgs.build_spec hb
  have hp : a.packageType = none := hpa.trans hpt
  refine ⟨row.stored, hrow, hrid.trans hid, hwrow.trans hw, hpr.trans hp, by rw [Order.stored_cost, hnone hp, hcost],
    fun hpriced => ?_⟩
  have := (hpriced .wrapperFilm (hwrow.trans hw)).1
  rw [Order.stored_packageType, hpr, hp] at this
  cases this

/-- `CreateOrder` of order 1 with the film wrapper and no package type, due
in a day, on a new service: accepted, and stored with the wrapper at cost
100. -/
theorem rpc_film_wrapper_stored_unpriced_new_service :
    ∃ (req : CreateOrderRequest) (a : AcceptArgs) (w w' : World),
      packageTypeFromProto req.packageType = none ∧ req.wrapper = Pb.wrapperTypeFilm ∧
      OrderRPCHandler.acceptArgs (fun _ => .ok (24 * hour)) req = .ok a ∧ (acceptOrder a).run w = (.ok (), w') ∧
      ∃ row ∈ w'.orders.rows, row.id = req.id ∧ row.wrapper = some .wrapperFilm ∧ row.packageType = none ∧
        row.cost = toCents req.cost ∧ ¬ a.Priced row := by
  let req : CreateOrderRequest := ⟨1, 1, "24h", 5, 100, Pb.packageTypeUnspecified, Pb.wrapperTypeFilm⟩
  have ha : OrderRPCHandler.acceptArgs (fun _ => .ok (24 * hour)) req =
      .ok ⟨1, 1, 24 * hour, 5, 100, none, some .wrapperFilm⟩ := rfl
  have hacc : (acceptOrder ⟨1, 1, 24 * hour, 5, 100, none, some .wrapperFilm⟩).run
      (World.init (.inMemory (.empty (.ofConfig 5 1440 10 1000 60))) 0) = (.ok (), _) := rfl
  exact ⟨req, _, _, _, rfl, rfl, ha, hacc,
    rpc_film_wrapper_stored_unpriced _ req rfl rfl ha hacc⟩

end Pvz.Service
