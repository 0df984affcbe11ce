import Pvz.Service.Coherence
import Pvz.Auth.Handlers

/-!
# `ProcessCustomer`: a batch of handouts or returns

`OrderHandler.ProcessCustomer` (`src/pkg/handler/user.go:675-723`) and
`OrderRPCHandler.ProcessCustomer` (`src/pkg/grpc/order.go:117-165`) check the
customer id and the action, read the clock once, and then call `DeliverOrder`
(action `handout`) or `ProcessReturnOrder` (action `return`) for each listed
order in turn. A call's error goes into that order's result and the loop goes
on; a nil dereference panics, which neither server recovers from, and ends
the request. An error's text in a result is `err.Error()`, which the model
gives by the sentinel the error wraps.

With the calls run one after another (`Pvz.Service.Coherence`), every read
goes to the table, so a batch reports each order done at most once, and each
order it reports done is, in the table it leaves, delivered to (or returned
by) the customer. Interleaved with other calls this fails: a handout can act
on a stale read (`deliverOrder_stale_write_regresses`).
-/

namespace Pvz

/-- `int32(codes.OK)`. -/
def codeOK : Int := 0

/-- `int32` of the codes `parseGRPCError` returns. -/
def Code.number : Code → Int
  | .invalidArgument => 3
  | .notFound => 5
  | .alreadyExists => 6
  | .permissionDenied => 7
  | .internal => 13

end Pvz

namespace Pvz.Service

open Cache OrderError

/-! ## The loop -/

/-- A call's `error` as a value: `nil`, or the sentinel it wraps. A nil
dereference panics and is not caught. -/
def attempt (m : Svc Unit) : Svc (Option OrderError) := ExceptT.mk fun w =>
  match m.run w with
  | (.ok (), w') => (.ok none, w')
  | (.error (.err e), w') => (.ok (some e), w')
  | (.error .nilDereference, w') => (.error .nilDereference, w')

/-- The call `ProcessCustomer` makes for one order: `DeliverOrder` for
`handout`, `ProcessReturnOrder` for `return`, none for another action (which
validation has refused before). -/
def processCall (action : String) (orderID customerID now : Int) : Svc Unit :=
  if action = "handout" then deliverOrder orderID customerID now
  else if action = "return" then processReturnOrder orderID customerID now
  else pure ()

/-- `ProcessCustomer`'s loop: each order with its call's error or `nil`, in
the order of the request. -/
def processEach (action : String) (customerID now : Int) : List Int → Svc (List (Int × Option OrderError))
  | [] => pure []
  | orderID :: orderIDs => do
    let err ← attempt (processCall action orderID customerID now)
    let results ← processEach action customerID now orderIDs
    pure ((orderID, err) :: results)

/-! ## The HTTP handler -/

/-- `processRequest`, and `pb.ProcessCustomerRequest` with the same fields. -/
structure ProcessRequest where
  customerID : Int
  action : String
  orderIDs : List Int

/-- `ErrInvalidAction`. -/
def errInvalidAction : String := "неизвестное действие"

/-- `validateProcessRequest`. -/
def validateProcessRequest (action : String) (id : Int) : Except String Unit :=
  if id ≤ 0 then .error Auth.errInvalidUserID
  else if action ≠ "handout" ∧ action ≠ "return" then .error errInvalidAction
  else .ok ()

/-- An entry of the HTTP `results`: `{"order_id", "error", "status"}` or
`{"order_id", "message", "status"}`. -/
inductive ProcessResult where
  | error (orderID : Int) (err : OrderError) (status : Nat)
  | message (orderID : Int) (msg : String) (status : Nat)

/-- The order a result reports processed. -/
def ProcessResult.processed : ProcessResult → Option Int
  | .message orderID _ _ => some orderID
  | .error .. => none

/-- The body of `ProcessCustomer`'s answer: `{"error": ...}` or `{"results": ...}`. -/
inductive ProcessBody where
  | error (msg : String)
  | results (rs : List ProcessResult)

/-- An HTTP answer of `ProcessCustomer`. -/
structure ProcessResponse where
  status : Nat
  body : ProcessBody

/-- The HTTP result of one order. -/
def httpResult (action : String) (customerID : Int) : Int × Option OrderError → ProcessResult
  | (orderID, some e) => .error orderID e (processError e)
  | (orderID, none) =>
    .message orderID ("Заказ ID " ++ toString orderID ++ " " ++ action ++ " клиенту " ++ toString customerID)
      Auth.statusOK

/-- `OrderHandler.ProcessCustomer`. A request body the parser refuses is given
by the parser's error text. -/
def OrderHandler.processCustomer (req : Except String ProcessRequest) : Svc ProcessResponse :=
  match req with
  | .error e => pure ⟨statusBadRequest, .error ("Ошибка при разборе запроса: " ++ e)⟩
  | .ok req =>
    match validateProcessRequest req.action req.customerID with
    | .error e => pure ⟨statusBadRequest, .error e⟩
    | .ok () => do
      let now ← timeNow
      let results ← processEach req.action req.customerID now req.orderIDs
      pure ⟨Auth.statusOK, .results (results.map (httpResult req.action req.customerID))⟩

/-! ## The gRPC handler -/

/-- The `Result` of `pb.ProcessingResult`: the error's text or the message. -/
inductive PbResult where
  | error (err : OrderError)
  | message (msg : String)

/-- `pb.ProcessingResult`. -/
structure PbProcessingResult where
  orderId : Int
  status : Int
  result : PbResult

/-- The order a result reports processed. -/
def PbProcessingResult.processed (r : PbProcessingResult) : Option Int :=
  match r.result with
  | .message _ => some r.orderId
  | .error _ => none

/-- The gRPC result of one order. `parseGRPCError` turns every non-nil error
into a status error, so `status.FromError` succeeds and the result carries its
code; the `Internal` fallback is never taken. -/
def rpcResult (action : String) (customerId : Int) : Int × Option OrderError → PbProcessingResult
  | (orderID, some e) => ⟨orderID, (parseGRPCError e).number, .error e⟩
  | (orderID, none) =>
    ⟨orderID, codeOK,
      .message ("Заказ ID " ++ toString orderID ++ " успешно " ++ action ++ " клиенту " ++ toString customerId)⟩

/-- `OrderRPCHandler.ProcessCustomer`: the results, or the code and text of
the status it refuses the request with. -/
def OrderRPCHandler.processCustomer (req : ProcessRequest) :
    Svc (Except (Code × String) (List PbProcessingResult)) :=
  if req.customerID ≤ 0 then pure (.error (.invalidArgument, "ID клиента должен быть положительным числом"))
  else if req.action ≠ "handout" ∧ req.action ≠ "return" then pure (.error (.invalidArgument, "неизвестное действие"))
  else do
    let now ← timeNow
    let results ← processEach req.action req.customerID now req.orderIDs
    pure (.ok (results.map (rpcResult req.action req.customerID)))

/-! ## One call of the loop -/

theorem run_attempt_bind {β : Type} (m : Svc Unit) (f : Option OrderError → Svc β) (w : World) :
    (attempt m >>= f).run w = match m.run w with
      | (.ok (), w') => (f none).run w'
      | (.error (.err e), w') => (f (some e)).run w'
      | (.error .nilDereference, w') => (.error .nilDereference, w') := by
  rw [ExceptT.run_bind]
  rcases hm : m.run w with ⟨⟨e | _⟩ | ⟨⟩, w'⟩ <;> simp only [bind, StateT.bind, attempt, ExceptT.run_mk, hm]
  rfl

/-- The state an order must be in for the action's call to write it, and the
state it writes. -/
def actionStates (action : String) : OrderState × OrderState :=
  if action = "handout" then (.accepted, .delivered) else (.delivered, .returned)

/-- What `deliverRow` checked, and the row it wrote. -/
theorem deliverRow_ok {customerID now : Int} {order row : Order} (h : deliverRow customerID now order = .ok row) :
    order.customerID = customerID ∧ order.state = .accepted ∧ row.id = order.id ∧ row.customerID = customerID ∧
      row.state = .delivered := by
  unfold deliverRow at h
  split_ifs at h with hc hs
  cases h
  exact ⟨not_not.1 hc, not_not.1 hs, rfl, not_not.1 hc, rfl⟩

variable {w : World}

/-- In a coherent world `DeliverOrder` either fails with the table unchanged,
or writes the accepted row of the id as delivered to the customer. -/
theorem World.Coherent.deliverOrder_cases (h : w.Coherent) (id customerID now : Int) :
    (((Service.deliverOrder id customerID now).run w).1 ≠ .ok () ∧
        ((Service.deliverOrder id customerID now).run w).2.orders = w.orders) ∨
      ∃ o ∈ w.orders.rows, o.id = id ∧ o.state = .accepted ∧ ∃ row : Order, row.id = id ∧
        row.customerID = customerID ∧ row.state = .delivered ∧
        w.orders.update row = .ok ((Service.deliverOrder id customerID now).run w).2.orders := by
  have hf := h.faultless
  obtain ⟨c, -, ⟨e, -, hrt⟩ | ⟨order, hg, -, hrt⟩⟩ := h.readThrough id
  · rw [Service.deliverOrder, hrt]; exact .inl ⟨nofun, rfl⟩
  obtain ⟨hm, hid⟩ := OrderTable.getByID_eq_ok.1 hg
  rw [Service.deliverOrder, hrt, run_orThrow_bind]
  split
  case h_2 => exact .inl ⟨nofun, rfl⟩
  rename_i row hrow
  obtain ⟨-, hs, hri, hrc, hrs⟩ := deliverRow_ok hrow
  rw [run_liftM_bind]
  cases hu : w.orders.update row with
  | error e =>
    simp (disch := simp only [hf]) only [repoStep_nil, repoUpdate, hu, run_orThrow_bind]
    exact .inl ⟨nofun, trivial⟩
  | ok t =>
    refine .inr ⟨order.stored, hm, hid, hs, row, hri.trans hid, hrc, hrs, ?_⟩
    simp (disch := simp only [hf]) only [repoStep_nil, cacheStep_nil, repoUpdate, hu, run_orThrow_bind,
      run_liftM_bind, cacheSetOrder]
    split <;> rfl

/-- What `returnRow` checked, and the row it wrote. -/
theorem returnRow_ok {customerID now : Int} {order row : Order} (h : returnRow customerID now order = .ok row) :
    order.customerID = customerID ∧ order.state = .delivered ∧ row.id = order.id ∧ row.customerID = customerID ∧
      row.state = .returned := by
  unfold returnRow at h
  split_ifs at h with hc hs
  split at h
  · cases h
  · split_ifs at h
    cases h
    exact ⟨not_not.1 hc, not_not.1 hs, rfl, not_not.1 hc, rfl⟩

/-- In a coherent world `ProcessReturnOrder` either fails with the table
unchanged, or writes the delivered row of the id as returned by the customer. -/
theorem World.Coherent.processReturnOrder_cases (h : w.Coherent) (id customerID now : Int) :
    (((Service.processReturnOrder id customerID now).run w).1 ≠ .ok () ∧
        ((Service.processReturnOrder id customerID now).run w).2.orders = w.orders) ∨
      ∃ o ∈ w.orders.rows, o.id = id ∧ o.state = .delivered ∧ ∃ row : Order, row.id = id ∧
        row.customerID = customerID ∧ row.state = .returned ∧
        w.orders.update row = .ok ((Service.processReturnOrder id customerID now).run w).2.orders := by
  have hf := h.faultless
  obtain ⟨c, -, ⟨e, -, hrt⟩ | ⟨order, hg, -, hrt⟩⟩ := h.readThrough id
  · rw [Service.processReturnOrder, hrt]; exact .inl ⟨nofun, rfl⟩
  obtain ⟨hm, hid⟩ := OrderTable.getByID_eq_ok.1 hg
  rw [Service.processReturnOrder, hrt, run_liftExcept_bind]
  split
  case h_2 => exact .inl ⟨nofun, rfl⟩
  rename_i row hrow
  obtain ⟨-, hs, hri, hrc, hrs⟩ := returnRow_ok hrow
  rw [run_liftM_bind]
  cases hu : w.orders.update row with
  | error e =>
    simp (disch := simp only [hf]) only [repoStep_nil, repoUpdate, hu, run_orThrow_bind]
    exact .inl ⟨nofun, trivial⟩
  | ok t =>
    refine .inr ⟨order.stored, hm, hid, hs, row, hri.trans hid, hrc, hrs, ?_⟩
    simp (disch := simp only [hf]) only [repoStep_nil, cacheStep_nil, repoUpdate, hu, run_orThrow_bind,
      run_liftM_bind, cacheDeleteOrder]
    split <;> rfl

theorem actionStates_ne (action : String) : (actionStates action).2 ≠ (actionStates action).1 := by
  unfold actionStates; split <;> decide

/-- In a coherent world the call of a handout or a return either fails with
the table unchanged, or writes the row of the id from the action's first
state to its second, for the customer. -/
theorem World.Coherent.processCall_cases (h : w.Coherent) {action : String}
    (ha : action = "handout" ∨ action = "return") (id customerID now : Int) :
    (((processCall action id customerID now).run w).1 ≠ .ok () ∧
        ((processCall action id customerID now).run w).2.orders = w.orders) ∨
      ∃ o ∈ w.orders.rows, o.id = id ∧ o.state = (actionStates action).1 ∧ ∃ row : Order, row.id = id ∧
        row.customerID = customerID ∧ row.state = (actionStates action).2 ∧
        w.orders.update row = .ok ((processCall action id customerID now).run w).2.orders := by
  rcases ha with rfl | rfl
  · simpa only [processCall, actionStates, if_true] using h.deliverOrder_cases id customerID now
  · simpa only [processCall, actionStates, if_neg (show "return" ≠ "handout" by decide), if_true]
      using h.processReturnOrder_cases id customerID now

/-- A row the call leaves where it is: one not in the action's first state. -/
theorem World.Coherent.processCall_keeps (h : w.Coherent) {action : String}
    (ha : action = "handout" ∨ action = "return") (id customerID now : Int) {o : Order} (ho : o ∈ w.orders.rows)
    (hs : o.state ≠ (actionStates action).1) : o ∈ ((processCall action id customerID now).run w).2.orders.rows := by
  rcases h.processCall_cases ha id customerID now with ⟨-, he⟩ | ⟨o₀, hm, hid, hs₀, row, hri, -, -, hu⟩
  · rwa [he]
  · refine OrderTable.mem_update_of_ne hu ho fun hor => hs ?_
    rw [OrderTable.eq_of_mem ho hm (hor.trans (hri.trans hid.symm)), hs₀]

/-- The call fails on an id whose row is not in the action's first state. -/
theorem World.Coherent.processCall_blocked (h : w.Coherent) {action : String}
    (ha : action = "handout" ∨ action = "return") (id customerID now : Int) {o : Order} (ho : o ∈ w.orders.rows)
    (hid : o.id = id) (hs : o.state ≠ (actionStates action).1) :
    ((processCall action id customerID now).run w).1 ≠ .ok () := by
  rcases h.processCall_cases ha id customerID now with ⟨hne, -⟩ | ⟨o₀, hm, hid₀, hs₀, -⟩
  · exact hne
  · rw [OrderTable.eq_of_mem ho hm (hid.trans hid₀.symm)] at hs
    exact absurd hs₀ hs

/-- After the call succeeds, the id's row is in the action's second state,
for the customer. -/
theorem World.Coherent.processCall_done (h : w.Coherent) {action : String}
    (ha : action = "handout" ∨ action = "return") {id customerID now : Int}
    (hok : ((processCall action id customerID now).run w).1 = .ok ()) :
    ∃ o ∈ ((processCall action id customerID now).run w).2.orders.rows, o.id = id ∧ o.customerID = customerID ∧
      o.state = (actionStates action).2 := by
  rcases h.processCall_cases ha id customerID now with ⟨hne, -⟩ | ⟨-, -, -, -, row, hri, hrc, hrs, hu⟩
  · exact absurd hok hne
  · exact ⟨row.stored, OrderTable.mem_update_self hu, hri, hrc, hrs⟩

/-! ## The whole loop -/

/-- The orders whose call returned `nil`, in the order of the results. -/
def doneIDs : List (Int × Option OrderError) → List Int
  | [] => []
  | (id, none) :: rs => id :: doneIDs rs
  | (_, some _) :: rs => doneIDs rs

theorem run_bind_pure_ok {α β : Type} {m : Svc α} {g : α → β} {w w' : World} {b : β}
    (h : (m >>= fun a => pure (g a)).run w = (.ok b, w')) : ∃ a, m.run w = (.ok a, w') ∧ g a = b := by
  rcases hm : m.run w with ⟨_ | a, w₁⟩
  · rw [run_bind_error hm] at h; cases h
  · rw [run_bind_ok hm] at h; cases h; exact ⟨a, rfl, rfl⟩

/-- A loop that answers took the first order's call without a panic, and
went on from the world that call left. -/
theorem processEach_cons_ok {action : String} {customerID now id : Int} {ids : List Int} {w w' : World}
    {rs : List (Int × Option OrderError)} (h : (processEach action customerID now (id :: ids)).run w = (.ok rs, w')) :
    ∃ err rest, rs = (id, err) :: rest ∧ (err = none → ((processCall action id customerID now).run w).1 = .ok ()) ∧
      (processEach action customerID now ids).run ((processCall action id customerID now).run w).2 = (.ok rest, w') := by
  rw [processEach, run_attempt_bind] at h
  rcases hm : (processCall action id customerID now).run w with ⟨⟨e | _⟩ | ⟨⟩, w₁⟩ <;> rw [hm] at h
  · obtain ⟨rest, hr, rfl⟩ := run_bind_pure_ok h
    exact ⟨some e, rest, rfl, nofun, hr⟩
  · cases h
  · obtain ⟨rest, hr, rfl⟩ := run_bind_pure_ok h
    exact ⟨none, rest, rfl, fun _ => rfl, hr⟩

theorem doneIDs_httpResult (action : String) (customerID : Int) : ∀ rs : List (Int × Option OrderError),
    (rs.map (httpResult action customerID)).filterMap ProcessResult.processed = doneIDs rs
  | [] => rfl
  | (_, none) :: rs => congrArg _ (doneIDs_httpResult action customerID rs)
  | (_, some _) :: rs => doneIDs_httpResult action customerID rs

theorem doneIDs_rpcResult (action : String) (customerId : Int) : ∀ rs : List (Int × Option OrderError),
    (rs.map (rpcResult action customerId)).filterMap PbProcessingResult.processed = doneIDs rs
  | [] => rfl
  | (_, none) :: rs => congrArg _ (doneIDs_rpcResult action customerId rs)
  | (_, some _) :: rs => doneIDs_rpcResult action customerId rs

theorem validateProcessRequest_ok {action : String} {id : Int} (h : validateProcessRequest action id = .ok ()) :
    0 < id ∧ (action = "handout" ∨ action = "return") := by
  unfold validateProcessRequest at h
  split_ifs at h with h₁ h₂
  exact ⟨by omega, (not_and_or.1 h₂).imp not_not.1 not_not.1⟩

theorem actionStates_snd (action : String) :
    (actionStates action).2 = if action = "handout" then .delivered else .returned := by
  unfold actionStates; split <;> rfl

section Import

variable (parseDeadline : Int → String → Except OrderError Int)
  (processPackaging : Option String → Option String → Option PackageType × Option WrapperType)

theorem SerialReachable.processCall {w : World} (h : SerialReachable parseDeadline processPackaging w)
    {action : String} (ha : action = "handout" ∨ action = "return") (id customerID now : Int) :
    SerialReachable parseDeadline processPackaging ((processCall action id customerID now).run w).2 := by
  rcases ha with rfl | rfl
  · exact h.step (.deliverOrder w id customerID now)
  · exact h.step (.processReturnOrder w id customerID now)

/-- The loop of a handout or a return batch, from a world reached by serial
calls: it ends in one; each row not in the action's first state stays, and
its id is not reported done; no id is reported done twice; and each id
reported done has its row in the action's second state, for the customer. -/
theorem SerialReachable.processEach {action : String} (ha : action = "handout" ∨ action = "return")
    (customerID now : Int) : ∀ (ids : List Int) {w w' : World} {rs : List (Int × Option OrderError)},
      SerialReachable parseDeadline processPackaging w →
      (Service.processEach action customerID now ids).run w = (.ok rs, w') →
      SerialReachable parseDeadline processPackaging w' ∧
        (∀ o ∈ w.orders.rows, o.state ≠ (actionStates action).1 → o ∈ w'.orders.rows ∧ o.id ∉ doneIDs rs) ∧
        (doneIDs rs).Nodup ∧
        ∀ id ∈ doneIDs rs, ∃ o ∈ w'.orders.rows, o.id = id ∧ o.customerID = customerID ∧
          o.state = (actionStates action).2
  | [], w, w', rs, hw, h => by
    cases h
    exact ⟨hw, fun o ho _ => ⟨ho, List.not_mem_nil _⟩, List.nodup_nil, fun _ h => absurd h (List.not_mem_nil _)⟩
  | id :: ids, w, w', rs, hw, h => by
    obtain ⟨err, rest, rfl, hok, hrest⟩ := processEach_cons_ok h
    have hc := hw.coherent
    obtain ⟨hw', hkeep, hnd, hdone⟩ := SerialReachable.processEach ha customerID now ids (hw.processCall _ _ ha ..) hrest
    have hkeep' := fun o ho hs => hkeep o (hc.processCall_keeps ha id customerID now ho hs) hs
    cases err with
    | some e => exact ⟨hw', hkeep', hnd, hdone⟩
    | none =>
      obtain ⟨row, hm, hri, hrc, hrs⟩ := hc.processCall_done ha (hok rfl)
      have hrow := hkeep row hm (hrs ▸ actionStates_ne action)
      refine ⟨hw', fun o ho hs => ⟨(hkeep' o ho hs).1, ?_⟩, ?_, ?_⟩
      · exact List.not_mem_cons_of_ne_of_not_mem
          (fun hid => hc.processCall_blocked ha id customerID now ho hid hs (hok rfl)) (hkeep' o ho hs).2
      · exact List.nodup_cons.2 ⟨hri ▸ hrow.2, hnd⟩
      · rintro j (_ | ⟨_, hj⟩)
        · exact ⟨row, hrow.1, hri, hrc, hrs⟩
        · exact hdone j hj

/-- A batch's loop, run at the clock's reading, from a world reached by
serial calls. -/
theorem SerialReachable.batch {w w' : World} (h : SerialReachable parseDeadline processPackaging w)
    {action : String} (ha : action = "handout" ∨ action = "return") {customerID : Int} {ids : List Int}
    {results : List (Int × Option OrderError)}
    (hr : (Service.processEach action customerID w.clock ids).run w = (.ok results, w')) :
    SerialReachable parseDeadline processPackaging w' ∧ (doneIDs results).Nodup ∧
      ∀ id ∈ doneIDs results, ∃ o ∈ w'.orders.rows, o.id = id ∧ o.customerID = customerID ∧
        o.state = if action = "handout" then .delivered else .returned := by
  obtain ⟨hw', -, hnd, hdone⟩ := h.processEach _ _ ha customerID w.clock ids hr
  exact ⟨hw', hnd, fun id hid => by simpa only [actionStates_snd] using hdone id hid⟩

/-- On either surface, a batch of handouts or returns, from a world reached by
serial calls, ends in such a world, reports no order done twice, and leaves
each order it reports done delivered to (`handout`) or returned by (`return`)
the request's customer in the table. -/
theorem processCustomer_reports_once {w : World} (h : SerialReachable parseDeadline processPackaging w)
    (req : ProcessRequest) :
    (∀ resp w' rs, (OrderHandler.processCustomer (.ok req)).run w = (.ok resp, w') → resp.body = .results rs →
      SerialReachable parseDeadline processPackaging w' ∧ (rs.filterMap ProcessResult.processed).Nodup ∧
      ∀ id ∈ rs.filterMap ProcessResult.processed, ∃ o ∈ w'.orders.rows, o.id = id ∧
        o.customerID = req.customerID ∧ o.state = if req.action = "handout" then .delivered else .returned) ∧
    (∀ rs w', (OrderRPCHandler.processCustomer req).run w = (.ok (.ok rs), w') →
      SerialReachable parseDeadline processPackaging w' ∧ (rs.filterMap PbProcessingResult.processed).Nodup ∧
      ∀ id ∈ rs.filterMap PbProcessingResult.processed, ∃ o ∈ w'.orders.rows, o.id = id ∧
        o.customerID = req.customerID ∧ o.state = if req.action = "handout" then .delivered else .returned) := by
  constructor
  · intro resp w' rs hr hb
    simp only [OrderHandler.processCustomer] at hr
    split at hr
    · cases hr; cases hb
    · rename_i hv
      rw [run_liftM_bind] at hr
      obtain ⟨results, hrun, rfl⟩ := run_bind_pure_ok hr
      cases hb
      rw [doneIDs_httpResult]
      exact h.batch _ _ (validateProcessRequest_ok hv).2 hrun
  · intro rs w' hr
    simp only [OrderRPCHandler.processCustomer] at hr
    split_ifs at hr with h₁ h₂
    · cases hr
    · cases hr
    rw [run_liftM_bind] at hr
    obtain ⟨results, hrun, hrs⟩ := run_bind_pure_ok hr
    cases hrs
    rw [doneIDs_rpcResult]
    exact h.batch _ _ ((not_and_or.1 h₂).imp not_not.1 not_not.1) hrun

end Import

/-- After one order is accepted, a batch handing it out twice: the first
handout succeeds and the second is refused, so the reached world is one the
theorem speaks about with one order reported done. -/
theorem processCustomer_reports_once_accepted :
    SerialReachable (fun now _ => .ok now) (fun _ _ => (none, none)) ((acceptOrder ⟨1, 1, hour, 5, 100, none, none⟩).run (World.init (.inMemory (.empty configConsts)) 0)).2 ∧
      ((OrderHandler.processCustomer (.ok ⟨1, "handout", [1, 1]⟩)).run ((acceptOrder ⟨1, 1, hour, 5, 100, none, none⟩).run (World.init (.inMemory (.empty configConsts)) 0)).2).1.map
        (fun r => match r.body with | .results rs => rs.map ProcessResult.processed | .error _ => []) =
        .ok [some 1, none] ∧
      (∀ resp w' rs, (OrderHandler.processCustomer (.ok ⟨1, "handout", [1, 1]⟩)).run ((acceptOrder ⟨1, 1, hour, 5, 100, none, none⟩).run (World.init (.inMemory (.empty configConsts)) 0)).2 = (.ok resp, w') →
        resp.body = .results rs →
        SerialReachable (fun now _ => .ok now) (fun _ _ => (none, none)) w' ∧ (rs.filterMap ProcessResult.processed).Nodup ∧
        ∀ id ∈ rs.filterMap ProcessResult.processed, ∃ o ∈ w'.orders.rows, o.id = id ∧
          o.customerID = 1 ∧ o.state = if "handout" = "handout" then .delivered else .returned) ∧
      (∀ rs w', (OrderRPCHandler.processCustomer ⟨1, "handout", [1, 1]⟩).run ((acceptOrder ⟨1, 1, hour, 5, 100, none, none⟩).run (World.init (.inMemory (.empty configConsts)) 0)).2 = (.ok (.ok rs), w') →
        SerialReachable (fun now _ => .ok now) (fun _ _ => (none, none)) w' ∧ (rs.filterMap PbProcessingResult.processed).Nodup ∧
        ∀ id ∈ rs.filterMap PbProcessingResult.processed, ∃ o ∈ w'.orders.rows, o.id = id ∧
          o.customerID = 1 ∧ o.state = if "handout" = "handout" then .delivered else .returned) :=
  have h := SerialReachable.step (.init _ (.inMemory _) trivial 0) (.acceptOrder _ _)
  ⟨h, rfl, processCustomer_reports_once _ _ h ⟨1, "handout", [1, 1]⟩⟩

end Pvz.Service
