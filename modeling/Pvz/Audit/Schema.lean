import Pvz.Audit.Json

/-!
# The `audit_logs` column limits

`fromAuditLog` (`src/pkg/repository/order.go:443-494`) turns an event into the
row `createLogs` inserts (`src/pkg/repository/audit.go:195-240`), and the table
(`src/migrate/migrations/20250322133657_add_logs_table.sql:3-17`) bounds its
text columns with `VARCHAR(n)`. Postgres refuses a longer value unless the
excess is spaces only, which it cuts; `NULL` always fits, and `nullableString`
sends `NULL` for an empty string. One refused row fails the batch's
transaction: `CreateLogsWithTasks` returns the error and the db log processor
(`src/pkg/utils/admin.go:180-187`) drops the whole batch.

`AuditMiddleware` (`src/pkg/router/middleware.go:20-71`) logs a request and
its response with the client's `X-Request-ID` header as it came.

Lengths are in characters, as Postgres counts them in a UTF-8 database. The
body is stored as the text `json.Marshal` writes (`Pvz.Audit.Json`); its
column is `TEXT`, which takes any length.
-/

namespace Pvz

/-- `nullableString`: `NULL` for an empty string. -/
def nullableString (s : String) : Option String := if s = "" then none else some s

/-- `nullableInt32`: `NULL` for zero, else `int32(i)`. -/
def nullableInt32 (i : Int) : Option Int := if i = 0 then none else some ((i + 2147483648) % 4294967296 - 2147483648)

/-- `nullableInt64`: `NULL` for zero. -/
def nullableInt64 (i : Int) : Option Int := if i = 0 then none else some i

/-- `model.AuditLogDB` without its `id`, which the `SERIAL` assigns: the
`sql.Null*` columns as options, `none` for `NULL`. -/
structure AuditLogDB where
  timestamp : Int
  type : String
  path : Option String
  method : Option String
  requestID : Option String
  ip : Option String
  body : Option String
  statusCode : Option Int
  orderID : Option Int
  oldStatus : Option String
  newStatus : Option String

/-- `fromAuditLog`. `json.Marshal` of a JSON-shaped value does not fail: its
only errors are for values `Json` has none of (`NaN`, infinities, channels). -/
def fromAuditLog (log : AuditLog) : AuditLogDB where
  timestamp := log.timestamp
  type := log.type.name
  path := nullableString log.path
  method := nullableString log.method
  requestID := nullableString log.requestID
  ip := nullableString log.ip
  body := match log.body with
    | .null => none
    | b =>
      let bodyJSON := Json.marshal b
      if 0 < bodyJSON.length then nullableString ⟨bodyJSON⟩ else none
  statusCode := nullableInt32 log.statusCode
  orderID := nullableInt64 log.orderID
  oldStatus := nullableString log.oldStatus
  newStatus := nullableString log.newStatus

/-- Whether Postgres stores a value in a `VARCHAR(n)` column. -/
def fitsVarchar (n : Nat) : Option String → Bool
  | none => true
  | some s => s.length ≤ n || (s.toList.drop n).all (· == ' ')

/-- The row's `VARCHAR` columns in `createLogs`' column order, each with its
length. -/
def AuditLogDB.varchars (r : AuditLogDB) : List (Nat × Option String) :=
  [(50, some r.type), (255, r.path), (10, r.method), (100, r.requestID), (45, r.ip), (50, r.oldStatus),
    (50, r.newStatus)]

/-- The length of the first column that refuses the row's value: the `n` of
Postgres's `value too long for type character varying(n)`. -/
def AuditLogDB.tooLong (r : AuditLogDB) : Option Nat :=
  (r.varchars.find? fun c => !fitsVarchar c.1 c.2).map (·.1)

/-- `createLogs`' inserts as the schema judges them: the error of the first
refused row, after which the transaction rolls back, or success. -/
def createLogs (batch : List AuditLog) : Except Nat Unit :=
  match batch.findSome? fun log => (fromAuditLog log).tooLong with
  | some n => .error n
  | none => .ok ()

theorem createLogs_eq_ok (batch : List AuditLog) :
    createLogs batch = .ok () ↔ ∀ log ∈ batch, (fromAuditLog log).tooLong = none := by
  unfold createLogs
  split <;> rename_i h
  · simp only [List.findSome?_eq_some_iff] at h
    obtain ⟨_, l, _, rfl, hl, -⟩ := h
    exact ⟨nofun, fun hall => absurd (hall l (by simp)) (by simp [hl])⟩
  · exact ⟨fun _ => List.findSome?_eq_none_iff.1 h, fun _ => rfl⟩

/-- A batch holding a refused event is refused whole. -/
theorem createLogs_ne_ok {batch : List AuditLog} {log : AuditLog} (hl : log ∈ batch)
    (h : (fromAuditLog log).tooLong ≠ none) : createLogs batch ≠ .ok () :=
  fun hok => h ((createLogs_eq_ok batch).1 hok log hl)

/-- What `AuditMiddleware` reads of a request: `c.Path()`, `c.Method()`, the
`X-Request-ID` header (empty when absent), `c.IP()`, and the body as it logs
it. -/
structure Request where
  path : String
  method : String
  requestID : String
  ip : String
  body : Json

/-- The two events `AuditMiddleware` logs for a request: the id it makes from
the clock's nanoseconds at `now` when the header is empty, the timestamps `t₁`
and `t₂`, and the response. -/
def auditMiddleware (r : Request) (now t₁ t₂ statusCode : Int) (respBody : Json) : List AuditLog :=
  let requestID := if r.requestID = "" then toString now else r.requestID
  [{ requestID, type := .auditLogTypeRequest, timestamp := t₁, statusCode := 0, path := r.path, method := r.method,
      ip := r.ip, body := r.body, orderID := 0, oldStatus := "", newStatus := "" },
    { requestID, type := .auditLogTypeResponse, timestamp := t₂, statusCode, path := r.path, method := r.method,
      ip := r.ip, body := respBody, orderID := 0, oldStatus := "", newStatus := "" }]

/-- A request to `/api/v1/orders` from `127.0.0.1` with an `X-Request-ID` of
101 characters: each of its two events is refused at `request_id`, and so is
every batch that holds one. -/
theorem auditMiddleware_long_request_id_refused :
    ∃ r : Request, r.requestID.length = 101 ∧ r.path.length ≤ 255 ∧ r.method.length ≤ 10 ∧ r.ip.length ≤ 45 ∧
      ∀ (now t₁ t₂ statusCode : Int) (respBody : Json), ∀ e ∈ auditMiddleware r now t₁ t₂ statusCode respBody,
        (fromAuditLog e).tooLong = some 100 ∧ ∀ pre post : List AuditLog, createLogs (pre ++ e :: post) ≠ .ok () := by
  let rid : String := ⟨List.replicate 101 'a'⟩
  have hne : rid ≠ "" := by decide
  refine ⟨⟨"/api/v1/orders", "GET", rid, "127.0.0.1", .null⟩, rfl, by decide, by decide, by decide,
    fun now t₁ t₂ statusCode respBody e he => ?_⟩
  have hlong : (fromAuditLog e).tooLong = some 100 := by
    simp only [auditMiddleware, if_neg hne, List.mem_cons, List.mem_singleton, List.not_mem_nil, or_false] at he
    rcases he with rfl | rfl <;> rfl
  exact ⟨hlong, fun pre post => createLogs_ne_ok (List.mem_append_right _ (List.mem_cons_self _ _))
    (by rw [hlong]; exact Option.some_ne_none _)⟩

end Pvz
