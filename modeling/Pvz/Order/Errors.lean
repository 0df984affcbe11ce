import Pvz.Order.Model

/-!
# Error sentinels and their caller-facing classification

Go errors are compared with `errors.Is`, which looks through every `%w`
wrapping for a sentinel. An error is modelled by the sentinel it wraps: the
service's (`src/unnamed/part_005:15-48`, `src/unnamed/part_006:9-12`), the
repository's (`src/pkg/repository/order.go:15-28`) and the cache's
(`src/unnamed/part_010:18-27`). Errors that wrap none of them are the
failed `INSERT` of `Create` (a duplicate key), a number too large for its
column, a cancelled context, and any other store, cache or bus failure.

`processError` (`src/pkg/handler/user.go:314-360`) and `parseGRPCError`
(`src/pkg/grpc/utils.go:143-183`) map them to HTTP statuses and gRPC codes.
Both return the error's text alongside; the text is not modelled.
-/

namespace Pvz

/-- The sentinel an error wraps, or the kind of failure when it wraps none. -/
inductive OrderError where
  | errStorageDeadlinePassed
  | errOrderExists
  | errDeadlineNotExpired
  | errOrderAlreadyDelivered
  | errWrongCustomer
  | errWrongState
  | errStorageExpired
  | errNotDelivered
  | errReturnExpired
  | errOpenFile
  | errReadFile
  | errParseFile
  | errInvalidDateFormat
  | errNegativeWeight
  | errNegativeCost
  | errInvalidOrderID
  | errUnknownPackageType
  | errPackageWeightExceeded
  | errUnknownWrapperType
  /-- `repository.ErrOrderAlreadyExists`, distinct from `service.ErrOrderExists`. -/
  | repoErrOrderAlreadyExists
  | repoErrOrderNotFound
  | repoErrOrdersNotFound
  | repoErrInvalidOrderID
  | repoErrInvalidCustomerID
  | repoErrTransactionStartError
  | cacheErrOrderNotFoundInCache
  | cacheErrOrderExpired
  | cacheErrOrderNotCached
  | cacheErrHistoryNotFoundInCache
  /-- `INSERT INTO orders` refused a duplicate primary key (SQLSTATE 23505). -/
  | uniqueViolation
  /-- A `numeric(10, 2)` column refused a value that rounds to 10^8 or more
  (SQLSTATE 22003). -/
  | numericOverflow
  /-- `ctx.Err()` of a cancelled or expired context. -/
  | canceled
  /-- Any other failure of the store, the remote cache or the bus. -/
  | infrastructure
  deriving DecidableEq, Repr

/-- The HTTP statuses `processError` answers with. -/
def statusBadRequest : Nat := 400
def statusForbidden : Nat := 403
def statusNotFound : Nat := 404
def statusConflict : Nat := 409
def statusGone : Nat := 410
def statusInternalServerError : Nat := 500

/-- `processError`: the HTTP status of an error. -/
def processError : OrderError → Nat
  | .errStorageDeadlinePassed | .errDeadlineNotExpired | .errNotDelivered | .errOpenFile
  | .errReadFile | .errParseFile | .errInvalidDateFormat | .errNegativeWeight
  | .errInvalidOrderID | .errPackageWeightExceeded | .errUnknownPackageType
  | .errUnknownWrapperType | .errNegativeCost => statusBadRequest
  | .errOrderExists | .errOrderAlreadyDelivered | .errWrongState => statusConflict
  | .errWrongCustomer => statusForbidden
  | .errStorageExpired | .errReturnExpired | .cacheErrOrderExpired
  | .cacheErrOrderNotCached => statusGone
  | .repoErrOrdersNotFound | .repoErrOrderNotFound | .cacheErrOrderNotFoundInCache
  | .cacheErrHistoryNotFoundInCache => statusNotFound
  | _ => statusInternalServerError

/-- gRPC status codes. -/
inductive Code where
  | invalidArgument
  | alreadyExists
  | permissionDenied
  | notFound
  | internal
  deriving DecidableEq, Repr

/-- `parseGRPCError` on a non-nil error. Its `NotFound` case tests `errors.Is`
against a fresh `errors.New` value, which no error wraps, so it never fires. -/
def parseGRPCError : OrderError → Code
  | .errStorageDeadlinePassed | .errDeadlineNotExpired | .errNotDelivered | .errOpenFile
  | .errReadFile | .errParseFile | .errInvalidDateFormat | .errNegativeWeight
  | .errInvalidOrderID | .errPackageWeightExceeded | .errUnknownPackageType
  | .errUnknownWrapperType | .errNegativeCost => .invalidArgument
  | .errOrderExists | .errOrderAlreadyDelivered | .errWrongState => .alreadyExists
  | .errWrongCustomer => .permissionDenied
  | _ => .internal

/-- An error the caller-facing surfaces report as a duplicate order. -/
def ReportedAsOrderExists (e : OrderError) : Prop :=
  processError e = statusConflict ∧ parseGRPCError e = .alreadyExists

instance (e : OrderError) : Decidable (ReportedAsOrderExists e) :=
  inferInstanceAs (Decidable (_ ∧ _))

end Pvz
