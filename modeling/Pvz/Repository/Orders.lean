import Mathlib.Data.Rat.Defs
import Mathlib.Tactic.Ring
import Pvz.Order.Errors

/-!
# The `orders` table and `PostgresOrderRepository`

The committed rows of `orders`, keyed by their primary key; the table's
structure carries the key constraint. Each repository method below is one
transaction of `src/pkg/repository/order.go`, taken as atomic, except
`Create`: its `SELECT EXISTS(... FOR UPDATE)` locks nothing when the id is
absent, so a concurrent insert can land between its check (`createCheck`)
and its `INSERT` (`insert`), which the primary key then refuses.

A transaction that fails (a lost connection, a cancelled context) changes
nothing; the callers decide when that happens.

The columns do not keep the Go values (`src/unnamed/part_002:38-50`):
`weight` and `cost` are `DECIMAL(10, 2)`, which rounds to cents, halves away
from zero, and refuses a value that rounds to 10^8 or more; the instants are
`TIMESTAMP WITH TIME ZONE`, which keeps microseconds. A row is the stored form
of the order written (`Order.stored`), and the table says so in its type.
-/

namespace Pvz

/-! ## What a column keeps -/

/-- `numeric`'s rounding of `n / d` to an integer, halves away from zero: for
`n ≥ 0` it is `⌊(2n + d) / 2d⌋ = ⌊n / d + 1/2⌋`. -/
def roundDiv (n : Int) (d : Nat) : Int :=
  if n < 0 then -((2 * -n + d) / (2 * d)) else (2 * n + d) / (2 * d)

/-- An exact quotient is kept. -/
theorem roundDiv_mul (k : Int) {d : Nat} (hd : 0 < d) : roundDiv (k * d) d = k := by
  have hd' : (0 : Int) < d := by exact_mod_cast hd
  unfold roundDiv
  split
  · have e : 2 * -(k * d) + (d : Int) = d * (-2 * k + 1) := by ring
    rw [e, show (2 : Int) * d = d * 2 from Int.mul_comm _ _, Int.mul_ediv_mul_of_pos _ _ hd']; omega
  · have e : 2 * (k * d) + (d : Int) = d * (2 * k + 1) := by ring
    rw [e, show (2 : Int) * d = d * 2 from Int.mul_comm _ _, Int.mul_ediv_mul_of_pos _ _ hd']; omega

/-- The cents a `DECIMAL(10, 2)` column keeps for `q`. -/
def cents (q : ℚ) : Int := roundDiv (q.num * 100) q.den

/-- The value a `DECIMAL(10, 2)` column keeps: `q` rounded to cents. -/
def toCents (q : ℚ) : ℚ := mkRat (cents q) 100

theorem cents_toCents (q : ℚ) : cents (toCents q) = cents q := by
  have h : (toCents q).num * 100 = cents q * (toCents q).den :=
    (Rat.mkRat_eq_iff (toCents q).den_nz (by decide)).1 (Rat.mkRat_self (toCents q))
  unfold cents; rw [h]; exact roundDiv_mul _ (toCents q).den_pos

theorem toCents_toCents (q : ℚ) : toCents (toCents q) = toCents q := by
  show mkRat (cents (toCents q)) 100 = toCents q
  rw [cents_toCents]; rfl

/-- What `INSERT` and `UPDATE` leave in the row for `o`: weight and cost in
cents, the instants in microseconds. -/
def Order.stored (o : Order) : Order :=
  { o with
    weight := toCents o.weight, cost := toCents o.cost
    deadlineAt := toMicros o.deadlineAt, updatedAt := toMicros o.updatedAt
    deliveredAt := o.deliveredAt.map toMicros, returnedAt := o.returnedAt.map toMicros }

section Stored
variable (o : Order)
@[simp] theorem Order.stored_id : o.stored.id = o.id := rfl
@[simp] theorem Order.stored_customerID : o.stored.customerID = o.customerID := rfl
@[simp] theorem Order.stored_state : o.stored.state = o.state := rfl
@[simp] theorem Order.stored_packageType : o.stored.packageType = o.packageType := rfl
@[simp] theorem Order.stored_weight : o.stored.weight = toCents o.weight := rfl
@[simp] theorem Order.stored_cost : o.stored.cost = toCents o.cost := rfl
@[simp] theorem Order.stored_deliveredAt : o.stored.deliveredAt = o.deliveredAt.map toMicros := rfl
@[simp] theorem Order.stored_returnedAt : o.stored.returnedAt = o.returnedAt.map toMicros := rfl
end Stored

/-- Storing a stored row again changes nothing. -/
@[simp] theorem Order.stored_stored (o : Order) : o.stored.stored = o.stored := by
  simp only [Order.stored, toCents_toCents, toMicros_toMicros, Option.map_map]
  cases o.deliveredAt <;> cases o.returnedAt <;> simp [toMicros_toMicros]

/-- The stored row keeps its shape: `returnedAt` is a whole number of
microseconds, so the two truncated instants stay at most that far apart. -/
theorem Order.Shaped.stored {o : Order} (h : o.Shaped) : o.stored.Shaped := by
  have e : Pvz.returnedAt = 172800000000 * 1000 := rfl
  unfold Order.Shaped at *
  simp only [Order.stored_state, Order.stored_deliveredAt, Order.stored_returnedAt]
  revert h
  cases o.state <;> cases o.deliveredAt <;> cases o.returnedAt <;> simp only [ShapeOf, Option.map, imp_self]
  rw [e]; exact toMicros_sub_le

/-- `numeric(10, 2)` holds at most eight digits before the point: both
numbers, rounded to cents, stay below 10^8. -/
def Order.Fits (o : Order) : Prop :=
  (cents o.weight).natAbs < 10000000000 ∧ (cents o.cost).natAbs < 10000000000

instance (o : Order) : Decidable o.Fits := inferInstanceAs (Decidable (_ ∧ _))

/-! ## The table -/

/-- The committed rows of `orders`; `id` is the primary key, and every row is
in the form its columns keep. -/
structure OrderTable where
  rows : List Order
  keys_nodup : (rows.map Order.id).Nodup
  rows_stored : ∀ r ∈ rows, r.stored = r

namespace OrderTable

/-- The table the migration creates. -/
def empty : OrderTable := ⟨[], List.nodup_nil, fun _ h => absurd h (List.not_mem_nil _)⟩

/-- `EXISTS(SELECT 1 FROM orders WHERE id = $1)`. -/
def has (t : OrderTable) (id : Int) : Bool := t.rows.any (·.id == id)

/-- The row with primary key `id`. -/
def find (t : OrderTable) (id : Int) : Option Order := t.rows.find? (·.id == id)

theorem has_iff {t : OrderTable} {id : Int} : t.has id = true ↔ id ∈ t.rows.map Order.id := by
  simp [has]

theorem find_eq_none_iff {t : OrderTable} {id : Int} : t.find id = none ↔ t.has id = false := by
  simp [find, has]

theorem find_mem {t : OrderTable} {id : Int} {o : Order} (h : t.find id = some o) :
    o ∈ t.rows ∧ o.id = id := by
  have := List.find?_some h
  exact ⟨List.mem_of_find?_eq_some h, by simpa using this⟩

/-- `GetByID`. -/
def getByID (t : OrderTable) (id : Int) : Except OrderError Order :=
  match t.find id with
  | some o => .ok o
  | none => .error .repoErrOrderNotFound

/-- `Create` up to its `INSERT`: argument checks, then the existence check. -/
def createCheck (t : OrderTable) (o : Order) : Except OrderError Unit :=
  if o.id ≤ 0 then .error .repoErrInvalidOrderID
  else if o.customerID ≤ 0 then .error .repoErrInvalidCustomerID
  else if t.has o.id then .error .repoErrOrderAlreadyExists
  else .ok ()

theorem keys_nodup_append {t : OrderTable} {o : Order} (h : t.has o.id = false) :
    ((t.rows ++ [o]).map Order.id).Nodup := by
  have hn : o.id ∉ t.rows.map Order.id := fun hm => by simp [has_iff.2 hm] at h
  simpa [List.nodup_append, hn] using t.keys_nodup

theorem rows_stored_append (t : OrderTable) (o : Order) :
    ∀ r ∈ t.rows ++ [o.stored], r.stored = r := by
  intro r hr
  rcases List.mem_append.1 hr with hr | hr
  · exact t.rows_stored r hr
  · rw [List.mem_singleton.1 hr]; exact Order.stored_stored o

/-- `Create`'s `INSERT` and commit. The columns take their values first, where
a number too large fails; then the primary key refuses a present id. -/
def insert (t : OrderTable) (o : Order) : Except OrderError OrderTable :=
  if ¬ o.Fits then .error .numericOverflow
  else if h : t.has o.id then .error .uniqueViolation
  else .ok ⟨t.rows ++ [o.stored], keys_nodup_append (o := o.stored) (by simpa using h),
    rows_stored_append t o⟩

/-- Replacing rows by rows with the same key keeps the key constraint. -/
theorem keys_nodup_map {t : OrderTable} {f : Order → Order} (hf : ∀ r, (f r).id = r.id) :
    ((t.rows.map f).map Order.id).Nodup := by
  rw [List.map_map]
  convert t.keys_nodup using 1
  exact List.map_congr_left fun r _ => hf r

/-- The row with `o`'s key overwritten by `o`, every column at once. -/
def overwrite (o r : Order) : Order := if r.id = o.id then o else r

theorem overwrite_id (o r : Order) : (overwrite o r).id = r.id := by
  unfold overwrite; split <;> simp_all

theorem rows_stored_map (t : OrderTable) (o : Order) :
    ∀ r ∈ t.rows.map (overwrite o.stored), r.stored = r := by
  simp only [List.mem_map, forall_exists_index, and_imp, forall_apply_eq_imp_iff₂, overwrite]
  intro r hr; split
  · exact Order.stored_stored o
  · exact t.rows_stored r hr

/-- `Update`: the row must exist; all its columns are written, where a number
too large fails. -/
def update (t : OrderTable) (o : Order) : Except OrderError OrderTable :=
  if t.has o.id then
    if ¬ o.Fits then .error .numericOverflow
    else .ok ⟨t.rows.map (overwrite o.stored), keys_nodup_map (overwrite_id o.stored),
      rows_stored_map t o⟩
  else .error .repoErrOrderNotFound

/-- `Delete`: the row must exist; it is removed. -/
def delete (t : OrderTable) (id : Int) : Except OrderError OrderTable :=
  if t.has id then
    .ok ⟨t.rows.filter (·.id != id), (List.filter_sublist t.rows).map Order.id |>.nodup t.keys_nodup,
      fun r hr => t.rows_stored r (List.mem_filter.1 hr).1⟩
  else .error .repoErrOrderNotFound

/-- `List` with an empty search term: every row, latest update first. -/
def listAll (t : OrderTable) : List Order :=
  t.rows.mergeSort fun a b => decide (b.updatedAt ≤ a.updatedAt)

/-- `ListActual`: the `accepted` and `delivered` rows, latest update first. -/
def listActual (t : OrderTable) : List Order :=
  (t.rows.filter fun o => o.state = .accepted || o.state = .delivered).mergeSort
    fun a b => decide (b.updatedAt ≤ a.updatedAt)

/-! ## Where rows come from -/

/-- What a successful `INSERT` can do. -/
theorem insert_ok {t t' : OrderTable} {o : Order} (h : t.insert o = .ok t') :
    o.Fits ∧ t.has o.id = false ∧ t'.rows = t.rows ++ [o.stored] := by
  unfold insert at h
  split at h
  · cases h
  · split at h
    · cases h
    · cases h; exact ⟨by simpa using ‹¬ ¬ o.Fits›, by simpa using ‹¬t.has o.id = true›, rfl⟩

/-- What a successful `UPDATE` can do. -/
theorem update_ok {t t' : OrderTable} {o : Order} (h : t.update o = .ok t') :
    t.has o.id = true ∧ o.Fits ∧ t'.rows = t.rows.map (overwrite o.stored) := by
  unfold update at h
  split at h
  · split at h
    · cases h
    · cases h; exact ⟨‹_›, by simpa using ‹¬ ¬ o.Fits›, rfl⟩
  · cases h

theorem mem_insert {t t' : OrderTable} {o r : Order} (h : t.insert o = .ok t') (hr : r ∈ t'.rows) :
    r ∈ t.rows ∨ r = o.stored := by
  simpa [(insert_ok h).2.2] using hr

theorem mem_update {t t' : OrderTable} {o r : Order} (h : t.update o = .ok t') (hr : r ∈ t'.rows) :
    r ∈ t.rows ∨ r = o.stored := by
  rw [(update_ok h).2.2] at hr
  obtain ⟨q, hq, rfl⟩ := List.mem_map.1 hr
  unfold overwrite; split
  · exact .inr rfl
  · exact .inl hq

theorem mem_delete {t t' : OrderTable} {id : Int} {r : Order} (h : t.delete id = .ok t')
    (hr : r ∈ t'.rows) : r ∈ t.rows := by
  unfold delete at h
  split at h
  · cases h; exact (List.mem_filter.1 hr).1
  · cases h

theorem mem_of_getByID {t : OrderTable} {id : Int} {o : Order} (h : t.getByID id = .ok o) :
    o ∈ t.rows := by
  unfold getByID at h
  split at h
  · cases h; exact (find_mem ‹_›).1
  · cases h

end OrderTable

end Pvz
