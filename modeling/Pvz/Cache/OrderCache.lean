import Pvz.Cache.Backends

/-!
# The `orderCache` interface

The service holds one cache and calls it through the `orderCache` interface
(`src/unnamed/part_005:68-74`); which backend it is was chosen from the
configuration. `OrderCache` is that choice, and each interface method
dispatches to the backend's.

The spec gives both backends one contract (§4.2): `deleteOrder(id)` is an
idempotent removal. The remote backend's is (`DEL` of an absent key
succeeds); the in-process backend's reports `ErrOrderNotFoundInCache` for an
absent id (`src/unnamed/part_010:302-306`). `deleteOrder_absent_diverges`
states the difference on a fresh pair of caches.
-/

namespace Pvz.Cache

/-- The service's cache: one of the two backends. -/
inductive OrderCache where
  | inMemory (c : InMemoryCache)
  | redis (c : RedisCache)

namespace OrderCache

def setOrder : OrderCache → Int → Order → Except OrderError Unit × OrderCache
  | .inMemory c, now, o => let r := c.setOrder now o; (r.1, .inMemory r.2)
  | .redis c, now, o => let r := c.setOrder now o; (r.1, .redis r.2)

def getOrder : OrderCache → Int → Int → Except OrderError Order × OrderCache
  | .inMemory c, now, id => let r := c.getOrder now id; (r.1, .inMemory r.2)
  | .redis c, now, id => let r := c.getOrder now id; (r.1, .redis r.2)

def deleteOrder : OrderCache → Int → Except OrderError Unit × OrderCache
  | .inMemory c, id => let r := c.deleteOrder id; (r.1, .inMemory r.2)
  | .redis c, id => let r := c.deleteOrder id; (r.1, .redis r.2)

def clearOrderCache : OrderCache → Int → Except OrderError Unit × OrderCache
  | .inMemory c, _ => let r := c.clearOrderCache; (r.1, .inMemory r.2)
  | .redis c, now => let r := c.clearOrderCache now; (r.1, .redis r.2)

/-- A new cache: the in-process one as `NewInMemoryCache` builds it, or a
Redis server without keys. -/
inductive New : OrderCache → Prop
  | inMemory (consts : InmemConstants) : New (.inMemory (.empty consts))
  | redis (consts : RedisConstants) : New (.redis ⟨[], consts⟩)

/-- The error a call fails with when its infrastructure does: a cancelled
context for the in-process cache, a remote error for Redis. -/
def failure : OrderCache → OrderError
  | .inMemory _ => .canceled
  | .redis _ => .infrastructure

/-- The orders the cache holds: every list element's and the history
snapshot's, or every stored value's. -/
def Holds : OrderCache → Order → Prop
  | .inMemory c, o => (∃ it ∈ c.elems, it.entry.order = o) ∨ (∃ h, c.history = some h ∧ o ∈ h.orders)
  | .redis c, o => ∃ e ∈ c.keyspace, e.value = .order o ∨ ∃ os, e.value = .history os ∧ o ∈ os

end OrderCache

/-! ## What a cache holds

Every call keeps the orders a cache holds among those it held and the one it
was given, and keeps the in-process map pointing into the elements. The
service's invariants rest on these two facts only. -/

theorem mem_of_lookup {l : List (Int × Nat)} {a : Int} {b : Nat} (h : l.lookup a = some b) :
    (a, b) ∈ l := by
  induction l with
  | nil => simp at h
  | cons p l ih =>
    obtain ⟨x, y⟩ := p
    rw [List.lookup_cons] at h
    split at h
    · simp_all
    · exact List.mem_cons_of_mem _ (ih h)

theorem mem_modify {α : Type} {f : α → α} :
    ∀ {l : List α} {n : Nat} {x : α}, x ∈ l.modify f n → x ∈ l ∨ ∃ y ∈ l, x = f y
  | [], _, _, h => by simp at h
  | a :: l, 0, x, h => by
    rcases List.mem_cons.1 (by simpa using h) with rfl | h
    · exact .inr ⟨a, List.mem_cons_self _ _, rfl⟩
    · exact .inl (List.mem_cons_of_mem _ h)
  | a :: l, n + 1, x, h => by
    rcases List.mem_cons.1 (by simpa using h) with rfl | h
    · exact .inl (List.mem_cons_self _ _)
    · rcases mem_modify h with h | ⟨y, hy, rfl⟩
      · exact .inl (List.mem_cons_of_mem _ h)
      · exact .inr ⟨y, List.mem_cons_of_mem _ hy, rfl⟩

namespace InMemoryCache

/-- Every map entry points to an element that exists. -/
def Valid (c : InMemoryCache) : Prop := ∀ p ∈ c.ordersLruMap, p.2 < c.elems.length

variable {c : InMemoryCache} {now id : Int} {e : Nat}

@[simp] theorem unlink_elems : (c.unlink id e).elems = c.elems := rfl
@[simp] theorem unlink_history : (c.unlink id e).history = c.history := rfl

theorem Valid.unlink (hv : c.Valid) : (c.unlink id e).Valid :=
  fun p hp => hv p (List.mem_filter.1 hp).1

theorem evictBack_eq (c : InMemoryCache) : c.evictBack = c ∨ ∃ id e, c.evictBack = c.unlink id e := by
  unfold evictBack; split
  · exact .inr ⟨_, _, rfl⟩
  · exact .inl rfl

@[simp] theorem evictBack_elems : c.evictBack.elems = c.elems := by
  rcases evictBack_eq c with h | ⟨_, _, h⟩ <;> rw [h]; rfl

@[simp] theorem evictBack_history : c.evictBack.history = c.history := by
  rcases evictBack_eq c with h | ⟨_, _, h⟩ <;> rw [h]; rfl

theorem item_mem (hv : c.Valid) (h : c.ordersLruMap.lookup id = some e) : c.item e ∈ c.elems := by
  have he := hv _ (mem_of_lookup h)
  simp only [item, List.getD_eq_getElem?_getD, List.getElem?_eq_getElem he, Option.getD_some]
  exact List.getElem_mem he

theorem setOrder_elems {o : Order} {it : LruItem} (h : it ∈ (c.setOrder now o).2.elems) :
    it ∈ c.elems ∨ it.entry.order = o := by
  unfold setOrder at h
  split at h
  · exact .inl h
  split at h
  · rcases mem_modify h with h | ⟨y, _, rfl⟩
    · exact .inl h
    · exact .inr rfl
  · have hc : (if c.consts.maxCacheSize ≤ c.lruList.length then c.evictBack else c).elems = c.elems := by
      split <;> simp
    rcases List.mem_append.1 h with h | h
    · exact .inl (hc ▸ h)
    · exact .inr (by simp_all)

theorem setOrder_history {o : Order} : (c.setOrder now o).2.history = c.history := by
  unfold setOrder
  split
  · rfl
  split
  · rfl
  · split <;> simp

theorem Valid.setOrder {o : Order} (hv : c.Valid) : (c.setOrder now o).2.Valid := by
  unfold InMemoryCache.setOrder
  split
  · exact hv
  split
  · intro p hp; simpa [List.length_modify] using hv p hp
  · generalize hc : (if c.consts.maxCacheSize ≤ c.lruList.length then c.evictBack else c) = c'
    have hv' : c'.Valid ∧ c'.elems = c.elems := by
      subst hc; split
      · rcases evictBack_eq c with h | ⟨_, _, h⟩ <;> rw [h]
        exacts [⟨hv, rfl⟩, ⟨hv.unlink, rfl⟩]
      · exact ⟨hv, rfl⟩
    intro p hp
    rcases List.mem_cons.1 hp with rfl | hp
    · simp
    · have := hv'.1 p (List.mem_filter.1 hp).1
      simp only [List.length_append, List.length_singleton]; omega

theorem deleteOrder_eq (c : InMemoryCache) (id : Int) : (c.deleteOrder id).2 = c ∨ ∃ e, (c.deleteOrder id).2 = c.unlink id e := by
  unfold deleteOrder; split
  · exact .inl rfl
  · exact .inr ⟨_, rfl⟩

theorem getOrder_eq (c : InMemoryCache) (now id : Int) : (c.getOrder now id).2.elems = c.elems ∧ (c.getOrder now id).2.history = c.history ∧
    (c.Valid → (c.getOrder now id).2.Valid) := by
  unfold getOrder; split
  · exact ⟨rfl, rfl, fun h => h⟩
  · dsimp only; split
    · rcases deleteOrder_eq c id with h | ⟨_, h⟩ <;> rw [h]
      exacts [⟨rfl, rfl, fun h => h⟩, ⟨rfl, rfl, Valid.unlink⟩]
    · split <;> exact ⟨rfl, rfl, fun h => h⟩

theorem getOrder_ok {o : Order} (hv : c.Valid) (h : (c.getOrder now id).1 = .ok o) :
    ∃ it ∈ c.elems, it.entry.order = o := by
  unfold getOrder at h; split at h
  · cases h
  · dsimp only at h; split at h
    · cases h
    · split at h <;> (cases h; exact ⟨_, item_mem hv ‹_›, rfl⟩)

/-- The reaper's loop over the expired ids. -/
theorem foldl_unlink (ids : List Int) (c : InMemoryCache) :
    let c' := ids.foldl (fun c id => match c.ordersLruMap.lookup id with
      | some e => c.unlink id e
      | none => c) c
    c'.elems = c.elems ∧ c'.history = c.history ∧ (c.Valid → c'.Valid) := by
  induction ids generalizing c with
  | nil => exact ⟨rfl, rfl, fun h => h⟩
  | cons i ids ih =>
    simp only [List.foldl_cons]
    split
    · obtain ⟨h1, h2, h3⟩ := ih (c.unlink i _)
      exact ⟨h1, h2, fun hv => h3 hv.unlink⟩
    · exact ih c

theorem cleanup_eq (c : InMemoryCache) (now : Int) :
    (c.cleanupExpiredOrders now).elems = c.elems ∧
    ((c.cleanupExpiredOrders now).history = none ∨ (c.cleanupExpiredOrders now).history = c.history) ∧
    (c.Valid → (c.cleanupExpiredOrders now).Valid) := by
  obtain ⟨h1, h2, h3⟩ := foldl_unlink (c.ordersLruMap.filterMap fun p =>
    if now > (c.item p.2).entry.ttl then some (c.item p.2).id else none) c
  refine ⟨h1, ?_, fun hv v hp => h1 ▸ h3 hv v hp⟩
  simp only [cleanupExpiredOrders]
  split
  · exact .inl rfl
  · exact .inr h2

end InMemoryCache

namespace RedisCache

variable {c : RedisCache} {now : Int} {key : String}

theorem mem_set {v : RedisValue} {ttl : Int} {x : RedisEntry} (h : x ∈ (c.set now key v ttl).keyspace) :
    x ∈ c.keyspace ∨ x.value = v := by
  rcases List.mem_cons.1 h with rfl | h
  · exact .inr rfl
  · exact .inl (List.mem_filter.1 h).1

theorem mem_del {keys : List String} {x : RedisEntry} (h : x ∈ (c.del keys).keyspace) : x ∈ c.keyspace :=
  (List.mem_filter.1 h).1

theorem get_some {v : RedisValue} (h : c.get now key = some v) : ∃ x ∈ c.keyspace, x.value = v := by
  unfold get at h
  obtain ⟨x, hx, hb⟩ := Option.bind_eq_some.1 h
  refine ⟨x, List.mem_of_find?_eq_some hx, ?_⟩
  split at hb <;> simp_all

end RedisCache

namespace OrderCache

/-- The in-process map points into the elements. -/
def Valid : OrderCache → Prop
  | .inMemory c => c.Valid
  | .redis _ => True

variable {c : OrderCache} {now id : Int} {o o' : Order}

theorem holds_setOrder (hv : c.Valid) (h : (c.setOrder now o).2.Holds o') : c.Holds o' ∨ o' = o := by
  cases c with
  | inMemory c =>
    rcases h with ⟨it, hit, rfl⟩ | ⟨hh, hhist, hm⟩
    · rcases InMemoryCache.setOrder_elems hit with h | h
      · exact .inl (.inl ⟨it, h, rfl⟩)
      · exact .inr h
    · exact .inl (.inr ⟨hh, InMemoryCache.setOrder_history ▸ hhist, hm⟩)
  | redis c =>
    obtain ⟨x, hx, hv'⟩ := h
    unfold RedisCache.setOrder at hx
    split at hx
    · exact .inl ⟨x, hx, hv'⟩
    · rcases RedisCache.mem_set hx with hx | hx
      · exact .inl ⟨x, hx, hv'⟩
      · rw [hx] at hv'; simp at hv'; exact .inr hv'.symm

theorem valid_setOrder (hv : c.Valid) : (c.setOrder now o).2.Valid := by
  cases c with
  | inMemory c => exact InMemoryCache.Valid.setOrder hv
  | redis c => trivial

theorem holds_getOrder (h : (c.getOrder now id).2.Holds o') : c.Holds o' := by
  cases c with
  | inMemory c =>
    obtain ⟨h1, h2, -⟩ := InMemoryCache.getOrder_eq c now id
    simp only [getOrder, Holds, h1, h2] at h
    exact h
  | redis c =>
    obtain ⟨x, hx, hv⟩ := h
    unfold RedisCache.getOrder at hx
    split at hx
    · exact ⟨x, hx, hv⟩
    · split at hx
      · exact ⟨x, RedisCache.mem_del hx, hv⟩
      · exact ⟨x, hx, hv⟩
    · exact ⟨x, hx, hv⟩

theorem valid_getOrder (hv : c.Valid) : (c.getOrder now id).2.Valid := by
  cases c with
  | inMemory c => exact (InMemoryCache.getOrder_eq c now id).2.2 hv
  | redis c => trivial

theorem holds_of_getOrder (hv : c.Valid) (h : (c.getOrder now id).1 = .ok o) : c.Holds o := by
  cases c with
  | inMemory c => exact .inl (InMemoryCache.getOrder_ok hv h)
  | redis c =>
    simp only [getOrder, RedisCache.getOrder] at h
    split at h
    · cases h
    · rename_i o' hg
      split at h
      · cases h
      · cases h
        obtain ⟨x, hx, hv⟩ := RedisCache.get_some hg
        exact ⟨x, hx, .inl hv⟩
    · cases h

theorem holds_deleteOrder (h : (c.deleteOrder id).2.Holds o') : c.Holds o' := by
  cases c with
  | inMemory c =>
    rcases InMemoryCache.deleteOrder_eq c id with he | ⟨_, he⟩ <;>
      simpa [deleteOrder, he] using h
  | redis c =>
    obtain ⟨x, hx, hv⟩ := h
    exact ⟨x, RedisCache.mem_del hx, hv⟩

theorem valid_deleteOrder (hv : c.Valid) : (c.deleteOrder id).2.Valid := by
  cases c with
  | inMemory c =>
    rcases InMemoryCache.deleteOrder_eq c id with he | ⟨_, he⟩
    · simpa [deleteOrder, Valid, he] using hv
    · simpa [deleteOrder, Valid, he] using InMemoryCache.Valid.unlink hv
  | redis c => trivial

theorem holds_clearOrderCache (h : (c.clearOrderCache now).2.Holds o') : c.Holds o' := by
  cases c with
  | inMemory c => exact h
  | redis c =>
    obtain ⟨x, hx, hv⟩ := h
    simp only [clearOrderCache, RedisCache.clearOrderCache] at hx
    split at hx
    · exact ⟨x, hx, hv⟩
    · exact ⟨x, RedisCache.mem_del hx, hv⟩

theorem valid_clearOrderCache (hv : c.Valid) : (c.clearOrderCache now).2.Valid := by
  cases c with
  | inMemory c => intro p hp; cases hp
  | redis c => trivial

end OrderCache

/-! ## The contract's calls and what a caller sees -/

/-- A call of the cache contract, with the clock reading it makes. -/
inductive CacheCall where
  | setOrder (now : Int) (o : Order)
  | getOrder (now : Int) (id : Int)
  | deleteOrder (now : Int) (id : Int)
  | clearOrderCache (now : Int)

/-- What a caller can tell apart: a hit and its order, a miss (`NotFound` or
`Expired`), and the success or failure of a write. -/
inductive Outcome where
  | hit (o : Order)
  | miss
  | success
  | failure
  deriving DecidableEq, Repr

/-- The outcome of a read. -/
def readOutcome : Except OrderError Order → Outcome
  | .ok o => .hit o
  | .error .cacheErrOrderNotFoundInCache | .error .cacheErrOrderExpired => .miss
  | .error _ => .failure

/-- The outcome of a write. -/
def writeOutcome : Except OrderError Unit → Outcome
  | .ok () => .success
  | .error _ => .failure

/-- One call on a cache. -/
def OrderCache.call (c : OrderCache) : CacheCall → Outcome × OrderCache
  | .setOrder now o => let r := c.setOrder now o; (writeOutcome r.1, r.2)
  | .getOrder now id => let r := c.getOrder now id; (readOutcome r.1, r.2)
  | .deleteOrder _ id => let r := c.deleteOrder id; (writeOutcome r.1, r.2)
  | .clearOrderCache now => let r := c.clearOrderCache now; (writeOutcome r.1, r.2)

/-- The outcomes of a sequence of calls. -/
def OrderCache.run (c : OrderCache) : List CacheCall → List Outcome
  | [] => []
  | k :: ks => let r := c.call k; r.1 :: r.2.run ks

/-- The two backends, fresh and built from any configuration, disagree on the
one-call sequence that deletes an id neither holds. -/
theorem deleteOrder_absent_diverges (ci : InmemConstants) (cr : RedisConstants) :
    (OrderCache.inMemory (.empty ci)).run [.deleteOrder 0 1] = [.failure] ∧
    (OrderCache.redis ⟨[], cr⟩).run [.deleteOrder 0 1] = [.success] :=
  ⟨rfl, rfl⟩

end Pvz.Cache
