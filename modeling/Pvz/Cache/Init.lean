import Pvz.Cache.Backends
import Pvz.Repository.Orders

/-!
# Warming the cache at startup

`InitCache` (`src/pkg/cache/redis.go:87-112`, `src/unnamed/part_010:82-106`)
calls `ListActual` (`src/pkg/repository/order.go:377-408`) and then `SetOrder`
on each listed order in turn, returning the first error, wrapped (the wrapping
keeps the sentinel for `errors.Is`). `SetCashType`
(`src/pkg/utils/admin.go:214-240`) returns that error, and `initServices`
(`src/unnamed/part_004:134-137`) stops the process with `Fatalf`.

Both backends' `SetOrder` refuse an order whose deadline has passed with
`ErrOrderNotCached`, before any storage call. `ListActual` lists every
`accepted` and `delivered` row whatever its deadline, so the warm-up succeeds
exactly when no listed order is past its deadline at the clock reading of its
own `SetOrder` (`InMemoryCache.initCache_fst`, `RedisCache.initCache_fst`).
Each `SetOrder` reads `time.Now()` itself: the `i`-th call of the loop reads
`clock i`.
-/

namespace Pvz.Cache

/-- The loop both `InitCache`s run over `ListActual`'s orders: `SetOrder` on
each in turn, the `i`-th call reading the clock at `clock i`, stopping at the
first error. -/
def setOrders {C : Type} (setOrder : C → Int → Order → Except OrderError Unit × C) (c : C) (clock : Nat → Int) :
    List Order → Except OrderError Unit × C
  | [] => (.ok (), c)
  | o :: os =>
    match setOrder c (clock 0) o with
    | (.ok (), c') => setOrders setOrder c' (fun i => clock (i + 1)) os
    | (.error e, c') => (.error e, c')

/-- `InMemoryCache.InitCache`, once `ListActual` has read the table `t`. -/
def InMemoryCache.initCache (c : InMemoryCache) (clock : Nat → Int) (t : OrderTable) :
    Except OrderError Unit × InMemoryCache :=
  setOrders InMemoryCache.setOrder c clock t.listActual

/-- `RedisCache.InitCache`, once `ListActual` has read the table `t` and with
every `SET` succeeding. -/
def RedisCache.initCache (c : RedisCache) (clock : Nat → Int) (t : OrderTable) :
    Except OrderError Unit × RedisCache :=
  setOrders RedisCache.setOrder c clock t.listActual

/-! ## `SetOrder` refuses exactly the orders past their deadline -/

/-- What a `SetOrder` returns: `ErrOrderNotCached` for an order past its
deadline, with the cache untouched, and success otherwise. -/
structure RefusesExpired {C : Type} (setOrder : C → Int → Order → Except OrderError Unit × C) : Prop where
  expired : ∀ c now o, now > o.deadlineAt → setOrder c now o = (.error .cacheErrOrderNotCached, c)
  ok : ∀ c now o, ¬ now > o.deadlineAt → (setOrder c now o).1 = .ok ()

theorem InMemoryCache.refusesExpired : RefusesExpired InMemoryCache.setOrder where
  expired _ _ _ h := if_pos h
  ok c now o h := by
    unfold InMemoryCache.setOrder
    rw [if_neg h]
    split <;> rfl

theorem RedisCache.refusesExpired : RefusesExpired RedisCache.setOrder where
  expired _ _ _ h := if_pos h
  ok _ _ _ h := by unfold RedisCache.setOrder; rw [if_neg h]

theorem forall_lt_length_cons (p : Nat → Order → Prop) {o : Order} {os : List Order} :
    (∀ i (h : i < (o :: os).length), p i (o :: os)[i]) ↔ p 0 o ∧ ∀ i (h : i < os.length), p (i + 1) os[i] :=
  ⟨fun h => ⟨h 0 (Nat.succ_pos _), fun i hi => h (i + 1) (Nat.succ_lt_succ hi)⟩,
    fun ⟨h₀, h⟩ i hi => match i, hi with
      | 0, _ => h₀
      | i + 1, hi => h i (Nat.lt_of_succ_lt_succ hi)⟩

section Loop

variable {C : Type} {setOrder : C → Int → Order → Except OrderError Unit × C} (hs : RefusesExpired setOrder)
include hs

/-- The loop succeeds exactly when every order's deadline is at or after
the clock reading of its own `SetOrder`; otherwise it fails with
`ErrOrderNotCached`. -/
theorem setOrders_fst (c : C) (clock : Nat → Int) (os : List Order) :
    (setOrders setOrder c clock os).1 =
      if ∀ i (h : i < os.length), clock i ≤ os[i].deadlineAt then .ok () else .error .cacheErrOrderNotCached := by
  induction os generalizing c clock with
  | nil => simp [setOrders]
  | cons o os ih =>
    rw [setOrders]
    by_cases hd : clock 0 > o.deadlineAt
    · rw [hs.expired c _ o hd, if_neg fun h => absurd (h 0 (Nat.succ_pos _)) (not_le.2 hd)]
    · have hok := hs.ok c (clock 0) o hd
      rcases hr : setOrder c (clock 0) o with ⟨r, c'⟩
      rw [hr] at hok
      obtain rfl : r = .ok () := hok
      show (setOrders setOrder c' _ os).1 = _
      rw [ih]
      exact if_congr ((and_iff_right (not_lt.1 hd)).symm.trans
        (forall_lt_length_cons fun i o => clock i ≤ o.deadlineAt).symm) rfl rfl

/-- The loop stops at an order past its deadline and leaves the cache as it was. -/
theorem setOrders_expired_head {c : C} {clock : Nat → Int} {o : Order} (os : List Order)
    (hd : clock 0 > o.deadlineAt) : setOrders setOrder c clock (o :: os) = (.error .cacheErrOrderNotCached, c) := by
  rw [setOrders, hs.expired c _ o hd]

end Loop

/-- The in-process warm-up succeeds exactly when no listed order is past its
deadline at its own `SetOrder`. -/
theorem InMemoryCache.initCache_fst (c : InMemoryCache) (clock : Nat → Int) (t : OrderTable) :
    (c.initCache clock t).1 =
      if ∀ i (h : i < t.listActual.length), clock i ≤ t.listActual[i].deadlineAt then .ok ()
      else .error .cacheErrOrderNotCached :=
  setOrders_fst InMemoryCache.refusesExpired c clock _

/-- The same for Redis, with every `SET` succeeding. -/
theorem RedisCache.initCache_fst (c : RedisCache) (clock : Nat → Int) (t : OrderTable) :
    (c.initCache clock t).1 =
      if ∀ i (h : i < t.listActual.length), clock i ≤ t.listActual[i].deadlineAt then .ok ()
      else .error .cacheErrOrderNotCached :=
  setOrders_fst RedisCache.refusesExpired c clock _

/-- Two `accepted` rows: the one updated last is past its deadline at 01:00,
the other is due a day later. At 01:00 `InitCache` fails on the first and
caches neither, on either backend and under any configuration, though
`ListActual` and every storage call succeed. -/
theorem initCache_fails_on_expired_order :
    ∃ t : OrderTable, (∃ o ∈ t.listActual, hour ≤ o.deadlineAt) ∧
      (∀ consts : InmemConstants, InMemoryCache.initCache (.empty consts) (fun _ => hour) t =
        (.error .cacheErrOrderNotCached, .empty consts)) ∧
      ∀ consts : RedisConstants, RedisCache.initCache ⟨[], consts⟩ (fun _ => hour) t =
        (.error .cacheErrOrderNotCached, ⟨[], consts⟩) := by
  let o₁ : Order := ⟨1, 1, .accepted, 5, 100, none, none, 0, 2000, none, none⟩
  let o₂ : Order := ⟨2, 1, .accepted, 5, 100, none, none, 24 * hour, 1000, none, none⟩
  have hs : ([o₁, o₂].filter fun o => o.state = .accepted || o.state = .delivered).mergeSort
      (fun a b => decide (b.updatedAt ≤ a.updatedAt)) = [o₁, o₂] := List.mergeSort_of_sorted (by decide)
  let t : OrderTable := ⟨[o₁, o₂], by decide, by decide⟩
  have ht : t.listActual = [o₁, o₂] := hs
  have hd : hour > o₁.deadlineAt := by decide
  refine ⟨t, ⟨o₂, by rw [ht]; simp, by decide⟩, fun consts => ?_, fun consts => ?_⟩ <;>
    [unfold InMemoryCache.initCache; unfold RedisCache.initCache] <;> rw [ht]
  exacts [setOrders_expired_head InMemoryCache.refusesExpired _ hd,
    setOrders_expired_head RedisCache.refusesExpired _ hd]

end Pvz.Cache
