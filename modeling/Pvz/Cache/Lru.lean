import Pvz.Cache.OrderCache

/-!
# The in-process cache against an abstract LRU map

The spec describes the in-process cache as a map from id to list node kept
in LRU order, with expiry. `AbsLru` is that map: entries `(id, (order,
expiry))`, most recently set or hit first. `InMemoryCache.toAbs` reads it off
the cache's list, front first.

The cache computes an order's expiry as `now.Add(ttl)` with
`ttl = min(time.Until(deadline) + additionalDuration, defaultOrderTTL)`, a sum
of two `Duration`s that wraps past `int64`. For an order due far enough in
the future the sum wraps to a negative `ttl`, and the entry is stored already
expired (`far_deadline_breaks_refinement`). Short of that, the cache refines
the map (`Pvz.Cache.Refinement`).
-/

namespace Pvz.Cache

/-- Modelled from the spec: the LRU map with expiry, entries most recently
set or hit first, under the cache's constants. -/
structure AbsLru where
  entries : List (Int × OrderEntry)
  consts : InmemConstants

namespace AbsLru

/-- Modelled from the spec: the expiry a live order is stored with, in exact
arithmetic. -/
def expiry (a : AbsLru) (now : Int) (o : Order) : Int :=
  now + min (o.deadlineAt - now + a.consts.additionalDuration) a.consts.inmemDefaultOrderTTL

/-- Modelled from the spec: `SetOrder` stores a live order as the most recent
entry; a new id in a full map first evicts the least recent one. -/
def setOrder (a : AbsLru) (now : Int) (o : Order) : Except OrderError Unit × AbsLru :=
  if now > o.deadlineAt then (.error .cacheErrOrderNotCached, a) else
  let rest := if (a.entries.lookup o.id).isSome then a.entries.filter (·.1 != o.id)
    else if a.consts.maxCacheSize ≤ a.entries.length then a.entries.dropLast else a.entries
  (.ok (), { a with entries := (o.id, ⟨o, a.expiry now o⟩) :: rest })

/-- Modelled from the spec: `GetOrder` returns a present, unexpired order and
makes it the most recent entry, and removes an expired one. -/
def getOrder (a : AbsLru) (now id : Int) : Except OrderError Order × AbsLru :=
  match a.entries.lookup id with
  | none => (.error .cacheErrOrderNotFoundInCache, a)
  | some en =>
    if now ≤ en.ttl ∧ now ≤ en.order.deadlineAt then
      (.ok en.order, { a with entries := (id, en) :: a.entries.filter (·.1 != id) })
    else (.error .cacheErrOrderExpired, { a with entries := a.entries.filter (·.1 != id) })

/-- Modelled from the spec: `DeleteOrder` is an idempotent removal. -/
def deleteOrder (a : AbsLru) (id : Int) : Except OrderError Unit × AbsLru :=
  (.ok (), { a with entries := a.entries.filter (·.1 != id) })

/-- Modelled from the spec: `ClearOrderCache` removes every entry. -/
def clearOrderCache (a : AbsLru) : Except OrderError Unit × AbsLru := (.ok (), { a with entries := [] })

end AbsLru

/-- The abstract map a cache stands for: its list's items, front first. -/
def InMemoryCache.toAbs (c : InMemoryCache) : AbsLru :=
  ⟨c.lruList.map fun e => ((c.item e).id, (c.item e).entry), c.consts⟩

/-- `SetOrder` of a live order on a new cache: one element, mapped and at the front. -/
theorem InMemoryCache.setOrder_empty (k : InmemConstants) {now : Int} {o : Order} (h : ¬ now > o.deadlineAt) :
    (InMemoryCache.empty k).setOrder now o =
      (.ok (), ⟨[⟨o.id, ⟨o, now + orderTTL now o.deadlineAt k.additionalDuration k.inmemDefaultOrderTTL⟩⟩], [0],
        [(o.id, 0)], none, k⟩) := by
  unfold InMemoryCache.setOrder
  rw [if_neg h]
  split <;> rename_i hl
  · simp [InMemoryCache.empty] at hl
  · split <;> rfl

/-- `GetOrder` reports a mapped entry past its expiry or its deadline as expired. -/
theorem InMemoryCache.getOrder_expired {c : InMemoryCache} {now id : Int} {e : Nat} (hl : c.ordersLruMap.lookup id = some e)
    (hx : now > (c.item e).entry.ttl ∨ now > (c.item e).entry.order.deadlineAt) :
    (c.getOrder now id).1 = .error .cacheErrOrderExpired := by
  simp only [InMemoryCache.getOrder, hl, if_pos hx]

theorem AbsLru.setOrder_empty (k : InmemConstants) {now : Int} {o : Order} (h : ¬ now > o.deadlineAt) :
    (AbsLru.setOrder ⟨[], k⟩ now o).2 = ⟨[(o.id, ⟨o, AbsLru.expiry ⟨[], k⟩ now o⟩)], k⟩ := by
  unfold AbsLru.setOrder
  rw [if_neg h]
  split_ifs <;> rfl

/-- The abstract `GetOrder` returns a present entry within its expiry and deadline. -/
theorem AbsLru.getOrder_hit {a : AbsLru} {now id : Int} {en : OrderEntry} (hl : a.entries.lookup id = some en)
    (hx : now ≤ en.ttl ∧ now ≤ en.order.deadlineAt) : (a.getOrder now id).1 = .ok en.order := by
  simp only [AbsLru.getOrder, hl, if_pos hx]

/-- The configuration of `config.json` (`cleanup_interval` 5, `order_ttl`
1440, `history_ttl` 10, `max_cache_size` 1000, `additional_duration` 60). -/
def configConsts : InmemConstants := .ofConfig 5 1440 10 1000 60

/-- An order due `maxDuration` after `now` gets a negative TTL: the sum of
`time.Until(deadline)`, which saturates at `maxDuration`, and the extra hour
wraps. -/
theorem orderTTL_far (now : Int) :
    orderTTL now (now + maxDuration) configConsts.additionalDuration configConsts.inmemDefaultOrderTTL =
      -9223368436854775809 := by
  have hsub : goSub (now + maxDuration) now = maxDuration := by
    unfold goSub; rw [show now + maxDuration - now = maxDuration by omega]; rfl
  rw [orderTTL, hsub]
  rfl

/-- At any clock reading, an order due `maxDuration` later is stored by
`SetOrder` and then reported expired by a `GetOrder` at the same reading,
while the abstract map returns it. -/
theorem far_deadline_breaks_refinement (now : Int) :
    ∃ o : Order, o.deadlineAt = now + maxDuration ∧
      (((InMemoryCache.empty configConsts).setOrder now o).2.getOrder now o.id).1 = .error .cacheErrOrderExpired ∧
      (((InMemoryCache.empty configConsts).toAbs.setOrder now o).2.getOrder now o.id).1 = .ok o := by
  let o : Order := ⟨1, 1, .accepted, 5, 100, none, none, now + maxDuration, now, none, none⟩
  have hlive : ¬ now > o.deadlineAt := by show ¬ now > now + maxDuration; unfold maxDuration; omega
  refine ⟨o, rfl, ?_, ?_⟩
  · rw [InMemoryCache.setOrder_empty _ hlive]
    refine InMemoryCache.getOrder_expired rfl (.inl ?_)
    show now > now + orderTTL now (now + maxDuration) _ _
    rw [orderTTL_far]; omega
  · rw [show (InMemoryCache.empty configConsts).toAbs = ⟨[], configConsts⟩ from rfl, AbsLru.setOrder_empty _ hlive]
    refine @AbsLru.getOrder_hit _ now 1 ⟨o, AbsLru.expiry ⟨[], configConsts⟩ now o⟩ rfl ⟨?_, le_of_not_lt hlive⟩
    show now ≤ now + min (now + maxDuration - now + configConsts.additionalDuration) configConsts.inmemDefaultOrderTTL
    rw [show now + maxDuration - now = maxDuration by omega]
    exact Int.le_add_of_nonneg_right (by decide)

end Pvz.Cache
