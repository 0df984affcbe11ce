import Mathlib.Data.Rat.Defs
import Mathlib.Data.List.Nodup

/-!
# Orders

The `model` package of the service is not among the sources; its `Order`
record is read off its uses: the columns `PostgresOrderRepository.Create` and
`Update` write (`src/pkg/repository/order.go:66-140`), the literal that
`OrderService.AcceptOrder` builds (`src/unnamed/part_005:135-145`) and the
state names seeded by the migration (`src/unnamed/part_002:52-55`).

Instants and durations are `Int` nanoseconds, as `time.Time` and
`time.Duration` count them; one clock serves every reading, so wall and
monotonic readings are not told apart. Weight and cost are `float64` in the
source and exact rationals here.

`Order.Shaped` is the three-way shape of a row that the lifecycle keeps
(spec §8): accepted rows carry no timestamps, delivered rows a delivery
time, returned rows both, at most `returnedAt` (48 hours) apart.
-/

namespace Pvz

/-! ## Durations -/

def millisecond : Int := 1000000
def second : Int := 1000 * millisecond
def minute : Int := 60 * second
def hour : Int := 60 * minute

/-- `service.ReturnedAt`: a delivered order may be returned for 48 hours. -/
def returnedAt : Int := 48 * hour

/-- The bounds of `time.Duration`, an `int64` count of nanoseconds. -/
def maxDuration : Int := 9223372036854775807
def minDuration : Int := -9223372036854775808

/-- `t.Sub(u)`: the exact difference, saturated to the `Duration` range. -/
def goSub (t u : Int) : Int := max minDuration (min maxDuration (t - u))

/-- Addition of two `Duration`s, which wraps around as `int64` does. -/
def wrap64 (x : Int) : Int := (x + 9223372036854775808) % 18446744073709551616 - 9223372036854775808

/-- A `timestamptz` column keeps whole microseconds: pgx sends a `time.Time`
as its count of microseconds, dropping the nanoseconds below. -/
def toMicros (t : Int) : Int := t / 1000 * 1000

theorem toMicros_toMicros (t : Int) : toMicros (toMicros t) = toMicros t := by
  simp only [toMicros, Int.mul_ediv_cancel _ (by decide : (1000 : Int) ≠ 0)]

/-- Truncation keeps the order of instants. -/
theorem toMicros_mono {t u : Int} (h : t ≤ u) : toMicros t ≤ toMicros u := by
  unfold toMicros; have := Int.ediv_le_ediv (by decide : (0 : Int) < 1000) h; omega

/-- A whole number of microseconds added commutes with the truncation. -/
theorem toMicros_add_mul (t k : Int) : toMicros (t + k * 1000) = toMicros t + k * 1000 := by
  simp only [toMicros, Int.add_mul_ediv_right _ _ (by decide : (1000 : Int) ≠ 0), Int.add_mul]

/-- Two instants at most a whole number of microseconds apart stay so. -/
theorem toMicros_sub_le {d r k : Int} (h : r - d ≤ k * 1000) : toMicros r - toMicros d ≤ k * 1000 := by
  have := toMicros_mono (show r ≤ d + k * 1000 by omega)
  rw [toMicros_add_mul] at this; omega

/-! ## The order record -/

/-- `model.OrderState`, one of the three names seeded into `order_states`. -/
inductive OrderState where
  | accepted
  | delivered
  | returned
  deriving DecidableEq, Repr, Inhabited

/-- `string(order.State)`, the name the audit log records. -/
def OrderState.name : OrderState → String
  | .accepted => "accepted"
  | .delivered => "delivered"
  | .returned => "returned"

/-- `model.PackageType`, a string type; the service knows `bag`, `box` and `film`. -/
structure PackageType where
  name : String
  deriving DecidableEq, Repr

def PackageType.packageBag : PackageType := ⟨"bag"⟩
def PackageType.packageBox : PackageType := ⟨"box"⟩
def PackageType.packageFilm : PackageType := ⟨"film"⟩

/-- `model.WrapperType`, a string type; the service knows `film`. -/
structure WrapperType where
  name : String
  deriving DecidableEq, Repr

def WrapperType.wrapperFilm : WrapperType := ⟨"film"⟩

/-- `model.Order`. The optional columns are Go pointers. -/
structure Order where
  id : Int
  customerID : Int
  state : OrderState
  weight : ℚ
  cost : ℚ
  packageType : Option PackageType
  wrapper : Option WrapperType
  deadlineAt : Int
  updatedAt : Int
  deliveredAt : Option Int
  returnedAt : Option Int
  deriving DecidableEq, Repr, Inhabited

/-! ## Shapes -/

/-- The shape of a row: the timestamps its state allows. -/
def ShapeOf : OrderState → Option Int → Option Int → Prop
  | .accepted, none, none => True
  | .delivered, some _, none => True
  | .returned, some d, some r => r - d ≤ returnedAt
  | _, _, _ => False

/-- The order has one of the three shapes of the lifecycle. -/
def Order.Shaped (o : Order) : Prop := ShapeOf o.state o.deliveredAt o.returnedAt

/-- Boolean form of `ShapeOf`, so that a shape can be checked by evaluation. -/
def shapeOfB : OrderState → Option Int → Option Int → Bool
  | .accepted, none, none => true
  | .delivered, some _, none => true
  | .returned, some d, some r => decide (r - d ≤ returnedAt)
  | _, _, _ => false

theorem shapeOfB_iff (s : OrderState) (d r : Option Int) : shapeOfB s d r = true ↔ ShapeOf s d r := by
  cases s <;> cases d <;> cases r <;> simp [shapeOfB, ShapeOf]

instance (o : Order) : Decidable o.Shaped :=
  decidable_of_iff _ (shapeOfB_iff o.state o.deliveredAt o.returnedAt)

/-- An accepted order without timestamps is shaped. -/
theorem shaped_accepted (o : Order) (hs : o.state = .accepted) (hd : o.deliveredAt = none)
    (hr : o.returnedAt = none) : o.Shaped := by
  simp [Order.Shaped, hs, hd, hr, ShapeOf]

/-- A shaped order in state `accepted` carries no timestamps. -/
theorem Order.Shaped.of_accepted {o : Order} (h : o.Shaped) (hs : o.state = .accepted) :
    o.deliveredAt = none ∧ o.returnedAt = none := by
  unfold Order.Shaped at h
  rw [hs] at h
  cases hd : o.deliveredAt <;> cases hr : o.returnedAt <;> simp_all [ShapeOf]

/-- A shaped order in state `delivered` has a delivery time and no return time. -/
theorem Order.Shaped.of_delivered {o : Order} (h : o.Shaped) (hs : o.state = .delivered) :
    (∃ d, o.deliveredAt = some d) ∧ o.returnedAt = none := by
  unfold Order.Shaped at h
  rw [hs] at h
  cases hd : o.deliveredAt <;> cases hr : o.returnedAt <;> simp_all [ShapeOf]

end Pvz
