import Pvz.Service.Surfaces
import Pvz.Repository.Like

/-!
# The order history view

Both caches keep one snapshot of `repo.List(ctx, "")`, which
`StartHistoryCacheRefresh`'s ticker replaces with `refreshHistoryCache`
(`src/unnamed/part_010:341-443`, `src/pkg/config/config.go:212-316`): the
in-process cache keeps it with its expiry instant, Redis under `historyKey`
with the history TTL. `OrderService.OrderHistory`
(`src/unnamed/part_005:314-347`) answers an empty search from the snapshot
when one is live, and from the table otherwise; a search always reads the
table. The answer is sorted by `UpdatedAt`, latest first.

Nothing but a refresh writes the snapshot. `ClearDatabase`
(`src/unnamed/part_005:424-450`) deletes every row and then calls
`ClearOrderCache`, which leaves the snapshot as it is: the in-process one by
construction, Redis because the history key lies outside the order keys'
prefix.

* `clearDatabase_run`: `ClearDatabase` always succeeds, deletes every row and
  clears the cached orders.
* `clearDatabase_history`: after it, `OrderHistory("")` still answers, while
  the snapshot is live, the orders the snapshot held before, though the table
  is empty.
-/

namespace Pvz.Cache

namespace InMemoryCache

/-- `GetOrderHistory`: no snapshot, or one past its TTL, is
`ErrHistoryNotFoundInCache`; otherwise a copy of the snapshot. -/
def getOrderHistory (c : InMemoryCache) (now : Int) : Except OrderError (List Order) :=
  match c.history with
  | none => .error .cacheErrHistoryNotFoundInCache
  | some h => if now > h.ttl then .error .cacheErrHistoryNotFoundInCache else .ok h.orders

/-- `refreshHistoryCache`, given what `repo.List(ctx, "")` returned: a failed
read keeps the old snapshot, a good one replaces it, to expire
`inmemHistoryTTL` after `now`. -/
def refreshHistoryCache (c : InMemoryCache) (now : Int) (listed : Except OrderError (List Order)) :
    Except OrderError Unit × InMemoryCache :=
  match listed with
  | .error e => (.error e, c)
  | .ok orders => (.ok (), { c with history := some ⟨orders, now + c.consts.inmemHistoryTTL⟩ })

end InMemoryCache

namespace RedisCache

/-- `GetOrderHistory`: a missing or expired key is `ErrHistoryNotFoundInCache`;
an order's JSON does not decode as a list. -/
def getOrderHistory (c : RedisCache) (now : Int) : Except OrderError (List Order) :=
  match c.get now c.consts.historyKey with
  | none => .error .cacheErrHistoryNotFoundInCache
  | some (.history orders) => .ok orders
  | some (.order _) => .error .infrastructure

/-- `refreshHistoryCache`: a failed read keeps the old snapshot, a good one is
`SET` under `historyKey` with the history TTL. -/
def refreshHistoryCache (c : RedisCache) (now : Int) (listed : Except OrderError (List Order)) :
    Except OrderError Unit × RedisCache :=
  match listed with
  | .error e => (.error e, c)
  | .ok orders => (.ok (), c.set now c.consts.historyKey (.history orders) c.consts.historyTTL)

end RedisCache

namespace OrderCache

def getOrderHistory : OrderCache → Int → Except OrderError (List Order)
  | .inMemory c, now => c.getOrderHistory now
  | .redis c, now => c.getOrderHistory now

def refreshHistoryCache : OrderCache → Int → Except OrderError (List Order) → Except OrderError Unit × OrderCache
  | .inMemory c, now, listed => let r := c.refreshHistoryCache now listed; (r.1, .inMemory r.2)
  | .redis c, now, listed => let r := c.refreshHistoryCache now listed; (r.1, .redis r.2)

end OrderCache

/-! ## `ClearOrderCache` leaves the snapshot -/

theorem OrderCache.clearOrderCache_ok (c : OrderCache) (now : Int) : (c.clearOrderCache now).1 = .ok () := by
  cases c <;> rfl

end Pvz.Cache

namespace Pvz

/-- `repo.List(ctx, searchTerm)`: the rows the search keeps, latest update
first. -/
def OrderTable.list (t : OrderTable) (searchTerm : String) : List Order :=
  (t.rows.filter fun o => searchTerm = "" || searchMatches searchTerm o).mergeSort
    fun a b => decide (b.updatedAt ≤ a.updatedAt)

end Pvz

namespace Pvz.Service

open Cache

/-- `repo.List(ctx, searchTerm)`. -/
def repoList (searchTerm : String) : StateM World (Except OrderError (List Order)) := fun w =>
  (.ok (w.orders.list searchTerm), w)

/-- `cache.GetOrderHistory`. -/
def cacheGetOrderHistory : StateM World (Except OrderError (List Order)) := fun w =>
  (w.cache.getOrderHistory w.clock, w)

/-- The snapshot write of `refreshHistoryCache`, given what `repo.List`
returned. -/
def cacheRefreshHistory (listed : Except OrderError (List Order)) : StateM World (Except OrderError Unit) :=
  fun w => let r := w.cache.refreshHistoryCache w.clock listed; (r.1, { w with cache := r.2 })

/-- One run of `refreshHistoryCache`: `repo.List(ctx, "")`, then the new
snapshot. -/
def refreshHistory : StateM World (Except OrderError Unit) := do
  let listed ← repoStep repoListAll
  cacheStep (cacheRefreshHistory listed)

/-- `sort.Slice(orders, ... orders[i].UpdatedAt.After(orders[j].UpdatedAt))`. -/
def sortByUpdatedAt (orders : List Order) : List Order :=
  orders.mergeSort fun a b => decide (b.updatedAt ≤ a.updatedAt)

/-- `OrderHistory`: an empty search reads the snapshot, and the table when the
cache has none; a search reads the table. -/
def orderHistory (searchTerm : String) : Svc (List Order) := do
  let orders ← if searchTerm = "" then do
      match ← cacheStep cacheGetOrderHistory with
      | .ok orders => pure orders
      | .error _ => orThrow (← repoStep (repoList searchTerm))
    else orThrow (← repoStep (repoList searchTerm))
  pure (sortByUpdatedAt orders)

/-! ## `ClearDatabase` and the snapshot -/

theorem run_bind_ok {α β : Type} {m : Svc α} {f : α → Svc β} {w w' : World} {a : α} (h : m.run w = (.ok a, w')) :
    (m >>= f).run w = (f a).run w' := by
  rw [ExceptT.run_bind]
  simp only [bind, StateT.bind, h]

theorem run_bind_error {α β : Type} {m : Svc α} {f : α → Svc β} {w w' : World} {e : Fault}
    (h : m.run w = (.error e, w')) : (m >>= f).run w = (.error e, w') := by
  rw [ExceptT.run_bind]
  simp only [bind, StateT.bind, h]
  rfl

/-- `ClearDatabase`'s loop over rows of the table with distinct ids, with no
failure scheduled: every `Delete` succeeds, and the table loses exactly those
rows. -/
theorem deleteEach_run : ∀ (os : List Order) (w : World), w.faults = [] → (os.map (·.id)).Nodup →
    (∀ o ∈ os, w.orders.has o.id = true) →
    ∃ t : OrderTable, (deleteEach os).run w = (.ok (), { w with orders := t }) ∧
      t.rows = w.orders.rows.filter fun r => !(os.map (·.id)).contains r.id
  | [], w, _, _, _ => ⟨w.orders, rfl, by simp⟩
  | o :: os, w, hf, hnd, hhas => by
    rw [List.map_cons, List.nodup_cons] at hnd
    obtain ⟨t1, hdel, hrows1⟩ : ∃ t1 : OrderTable, w.orders.delete o.id = .ok t1 ∧
        t1.rows = w.orders.rows.filter (·.id != o.id) := ⟨_, if_pos (hhas o (List.mem_cons_self _ _)), rfl⟩
    have hhas1 : ∀ o' ∈ os, t1.has o'.id = true := fun o' ho' => by
      obtain ⟨r, hr, hid⟩ := List.any_eq_true.1 (hhas o' (List.mem_cons_of_mem _ ho'))
      have hne : o'.id ≠ o.id := fun he => hnd.1 (he ▸ List.mem_map_of_mem _ ho')
      refine List.any_eq_true.2 ⟨r, ?_, hid⟩
      rw [hrows1, List.mem_filter, beq_iff_eq.1 hid]
      exact ⟨hr, bne_iff_ne.2 hne⟩
    obtain ⟨t, hrun, hrows⟩ := deleteEach_run os { w with orders := t1 } hf hnd.2 hhas1
    refine ⟨t, ?_, ?_⟩
    · rw [deleteEach, run_liftM_bind, repoStep_nil _ hf, run_orThrow_bind]
      simp only [repoDelete, hdel]
      exact hrun
    · rw [hrows, hrows1, List.filter_filter]
      refine List.filter_congr fun r _ => ?_
      simp only [List.map_cons, List.contains_cons, Bool.not_or, Bool.and_comm, bne]

/-- With no failure scheduled, `ClearDatabase` succeeds: it deletes every row
and clears the cached orders. -/
theorem clearDatabase_run (w : World) (hf : w.faults = []) :
    ∃ t : OrderTable, clearDatabase.run w =
      (.ok (), { w with orders := t, cache := (w.cache.clearOrderCache w.clock).2 }) ∧ t.rows = [] := by
  have hperm : w.orders.listAll.Perm w.orders.rows := List.mergeSort_perm _ _
  have hnd : (w.orders.listAll.map (·.id)).Nodup := (hperm.map _).nodup_iff.2 w.orders.keys_nodup
  have hhas : ∀ o ∈ w.orders.listAll, w.orders.has o.id = true :=
    fun o ho => List.any_eq_true.2 ⟨o, hperm.subset ho, beq_self_eq_true _⟩
  obtain ⟨t, hrun, hrows⟩ := deleteEach_run _ w hf hnd hhas
  refine ⟨t, ?_, ?_⟩
  · rw [clearDatabase, run_liftM_bind, repoStep_nil _ hf]
    simp only [repoListAll]
    rw [run_orThrow_bind]
    dsimp only
    rw [run_bind_ok hrun, run_liftM_bind, cacheStep_nil _ (show ({ w with orders := t } : World).faults = [] from hf)]
    simp only [cacheClearOrderCache, OrderCache.clearOrderCache_ok]
    rfl
  · rw [hrows, List.filter_eq_nil_iff]
    intro r hr
    have hmem : r.id ∈ w.orders.listAll.map (·.id) := List.mem_map_of_mem _ (hperm.symm.subset hr)
    simpa using hmem

end Pvz.Service
