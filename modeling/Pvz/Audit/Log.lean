import Mathlib.Data.Rat.Defs

/-!
# Audit events

`model.AuditLog` (`src/pkg/config/config.go:142-172`): one record for the
three kinds of event, with the fields of the other kinds left at their zero
values. The body is any JSON-shaped Go value; `nil` and JSON `null` are one
value in Go and one value here.
-/

namespace Pvz

/-- A JSON-shaped Go value: `nil`, `bool`, `float64`, `string`, `[]any`,
`map[string]any`. -/
inductive Json where
  | null
  | bool (b : Bool)
  | num (x : ℚ)
  | str (s : String)
  | arr (xs : List Json)
  | obj (kvs : List (String × Json))
  deriving Repr, Inhabited

/-- `model.AuditLogType`, a string type. -/
structure AuditLogType where
  name : String
  deriving DecidableEq, Repr, Inhabited

def AuditLogType.auditLogTypeRequest : AuditLogType := ⟨"REQUEST"⟩
def AuditLogType.auditLogTypeResponse : AuditLogType := ⟨"RESPONSE"⟩
def AuditLogType.auditLogTypeOrderStatus : AuditLogType := ⟨"ORDER_STATUS"⟩

/-- `model.AuditLog`. -/
structure AuditLog where
  requestID : String
  type : AuditLogType
  timestamp : Int
  statusCode : Int
  path : String
  method : String
  ip : String
  body : Json
  orderID : Int
  oldStatus : String
  newStatus : String
  deriving Repr, Inhabited

/-- The event `AuditLogger.LogOrderStatusChange` builds
(`src/pkg/utils/audit.go:124-132`). -/
def orderStatusLog (now orderID : Int) (oldStatus newStatus : String) : AuditLog :=
  { requestID := "", type := .auditLogTypeOrderStatus, timestamp := now, statusCode := 0, path := "",
    method := "", ip := "", body := .null, orderID, oldStatus, newStatus }

end Pvz
