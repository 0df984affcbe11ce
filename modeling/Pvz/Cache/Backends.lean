import Pvz.Order.Errors

/-!
# The two cache backends

`InMemoryCache` (`src/unnamed/part_010`) and `RedisCache`
(`src/unnamed/part_009`, `src/pkg/cache/redis.go`), one call at a time. A
call takes the clock reading it makes with `time.Now()`.

The in-process cache is a `container/list` LRU list with a map from order id
to list element. Elements are kept in `elems`, addressed by their index, so
that an element stays readable after it leaves the list, as a Go pointer
does; `lruList` holds the indices of the elements in the list, most recent
first. `ctx.Done()` is the only way an in-process call fails; the callers
decide when.

The remote cache is the server's keyspace. A key's expiry is kept in the
server's milliseconds, computed from the TTL as `go-redis` sends it (`PX`
for a TTL that is not a whole number of seconds, `EX` otherwise, `KEEPTTL`
for `-1`, none for any other TTL that is not positive). Values are the
orders the JSON encodes; encoding and decoding are taken as exact.
-/

namespace Pvz.Cache

/-- `min(time.Until(deadline) + additionalDuration, defaultTTL)`: the TTL both
backends give an order, in `Duration` arithmetic. -/
def orderTTL (now deadline additionalDuration defaultTTL : Int) : Int :=
  min (wrap64 (goSub deadline now + additionalDuration)) defaultTTL

/-! ## `InMemoryCache` -/

/-- `orderEntry`: a cached order and the instant its entry expires. -/
structure OrderEntry where
  order : Order
  ttl : Int
  deriving DecidableEq, Repr, Inhabited

/-- `historyEntry`: the cached history and the instant it expires. -/
structure HistoryEntry where
  orders : List Order
  ttl : Int
  deriving DecidableEq, Repr

/-- `lruItem`, the value of a list element. -/
structure LruItem where
  id : Int
  entry : OrderEntry
  deriving DecidableEq, Repr, Inhabited

/-- `inmemConstants`, in nanoseconds. -/
structure InmemConstants where
  cleanupInterval : Int
  inmemDefaultOrderTTL : Int
  inmemHistoryTTL : Int
  maxCacheSize : Int
  additionalDuration : Int
  deriving DecidableEq, Repr

/-- The constants `NewInMemoryCache` derives from `cfg.CacheType`, whose
durations are minutes: `time.Duration(n) * time.Minute`. -/
def InmemConstants.ofConfig (cleanupInterval orderTTL historyTTL maxCacheSize additionalDuration : Int) :
    InmemConstants :=
  ⟨wrap64 (cleanupInterval * minute), wrap64 (orderTTL * minute), wrap64 (historyTTL * minute),
    maxCacheSize, wrap64 (additionalDuration * minute)⟩

/-- `InMemoryCache`: the list elements ever pushed, the LRU list, the map
and the history snapshot. -/
structure InMemoryCache where
  elems : List LruItem
  lruList : List Nat
  ordersLruMap : List (Int × Nat)
  history : Option HistoryEntry
  consts : InmemConstants
  deriving Repr

/-- `delete(m, id)` on a Go map. -/
def mapErase (m : List (Int × Nat)) (id : Int) : List (Int × Nat) := m.filter (·.1 != id)

/-- `m[id] = e` on a Go map. -/
def mapInsert (m : List (Int × Nat)) (id : Int) (e : Nat) : List (Int × Nat) := (id, e) :: mapErase m id

/-- `l.MoveToFront(e)`: a no-op when `e` is not in the list. -/
def moveToFront (e : Nat) (l : List Nat) : List Nat := if e ∈ l then e :: l.erase e else l

namespace InMemoryCache

/-- `NewInMemoryCache`: empty, with the given constants. -/
def empty (consts : InmemConstants) : InMemoryCache := ⟨[], [], [], none, consts⟩

/-- `elem.Value.(*lruItem)`. -/
def item (c : InMemoryCache) (e : Nat) : LruItem := c.elems.getD e default

/-- Remove `id`'s map entry and its element from the list, as `DeleteOrder`
and the reaper do. -/
def unlink (c : InMemoryCache) (id : Int) (e : Nat) : InMemoryCache :=
  { c with ordersLruMap := mapErase c.ordersLruMap id, lruList := c.lruList.erase e }

/-- `SetOrder`'s eviction of the list's back element when the cache is full. -/
def evictBack (c : InMemoryCache) : InMemoryCache :=
  match c.lruList.getLast? with
  | some e => c.unlink (c.item e).id e
  | none => c

/-- `SetOrder`. -/
def setOrder (c : InMemoryCache) (now : Int) (order : Order) : Except OrderError Unit × InMemoryCache :=
  if now > order.deadlineAt then (.error .cacheErrOrderNotCached, c) else
  let ttl := orderTTL now order.deadlineAt c.consts.additionalDuration c.consts.inmemDefaultOrderTTL
  let entry : OrderEntry := ⟨order, now + ttl⟩
  match c.ordersLruMap.lookup order.id with
  | some e =>
    (.ok (), { c with elems := c.elems.modify (fun it => { it with entry := entry }) e,
                      lruList := moveToFront e c.lruList })
  | none =>
    let c := if c.consts.maxCacheSize ≤ c.lruList.length then c.evictBack else c
    let e := c.elems.length
    (.ok (), { c with elems := c.elems ++ [⟨order.id, entry⟩], lruList := e :: c.lruList,
                      ordersLruMap := mapInsert c.ordersLruMap order.id e })

/-- `DeleteOrder`: an absent id is an error. -/
def deleteOrder (c : InMemoryCache) (id : Int) : Except OrderError Unit × InMemoryCache :=
  match c.ordersLruMap.lookup id with
  | none => (.error .cacheErrOrderNotFoundInCache, c)
  | some e => (.ok (), c.unlink id e)

/-- `GetOrder`: an entry past its TTL or its order's deadline is removed. -/
def getOrder (c : InMemoryCache) (now : Int) (id : Int) : Except OrderError Order × InMemoryCache :=
  match c.ordersLruMap.lookup id with
  | none => (.error .cacheErrOrderNotFoundInCache, c)
  | some e =>
    let entry := (c.item e).entry
    if now > entry.ttl ∨ now > entry.order.deadlineAt then
      (.error .cacheErrOrderExpired, (c.deleteOrder id).2)
    else
      (.ok entry.order,
        if (c.ordersLruMap.lookup id).isSome then { c with lruList := moveToFront e c.lruList } else c)

/-- `ClearOrderCache`: the history snapshot stays. -/
def clearOrderCache (c : InMemoryCache) : Except OrderError Unit × InMemoryCache :=
  (.ok (), { c with lruList := [], ordersLruMap := [] })

/-- `cleanupExpiredOrders`, the reaper's sweep. -/
def cleanupExpiredOrders (c : InMemoryCache) (now : Int) : InMemoryCache :=
  let expiredIDs := c.ordersLruMap.filterMap fun p =>
    if now > (c.item p.2).entry.ttl then some (c.item p.2).id else none
  let c := expiredIDs.foldl (fun c id =>
    match c.ordersLruMap.lookup id with
    | some e => c.unlink id e
    | none => c) c
  { c with history := if c.history.any (now > ·.ttl) then none else c.history }

end InMemoryCache

/-! ## `RedisCache` -/

/-- A stored value: the JSON of an order, or of the history list. -/
inductive RedisValue where
  | order (o : Order)
  | history (orders : List Order)
  deriving DecidableEq, Repr

/-- A key of the server with its value and its expiry in server milliseconds. -/
structure RedisEntry where
  key : String
  value : RedisValue
  expireAtMs : Option Int
  deriving DecidableEq, Repr

/-- `redisConstants`. -/
structure RedisConstants where
  orderKeyPrefix : String
  historyKey : String
  defaultOrderTTL : Int
  historyTTL : Int
  additionalDuration : Int
  deriving DecidableEq, Repr

/-- The constants `NewRedisCache` derives from `cfg.CacheType`. -/
def RedisConstants.ofConfig (orderKeyPrefix historyKeyPrefix : String) (orderTTL historyTTL additionalDuration : Int) :
    RedisConstants :=
  ⟨orderKeyPrefix, historyKeyPrefix, wrap64 (orderTTL * minute), wrap64 (historyTTL * minute),
    wrap64 (additionalDuration * minute)⟩

/-- `RedisCache`: the server's keyspace and the constants. -/
structure RedisCache where
  keyspace : List RedisEntry
  consts : RedisConstants
  deriving Repr

/-- The TTL in milliseconds that `go-redis` sends for a positive `Duration`:
`PX` truncated to milliseconds (at least 1), or `EX` in whole seconds. -/
def expiryMs (ttl : Int) : Int :=
  if ttl < second ∨ ttl % second ≠ 0 then (if ttl < millisecond then 1 else ttl / millisecond)
  else ttl / second * 1000

/-- The expiry `SET key value ttl` leaves on a key whose previous expiry was `old`. -/
def setExpiry (now ttl : Int) (old : Option Int) : Option Int :=
  if 0 < ttl then some (now / millisecond + expiryMs ttl)
  else if ttl = -1 then old
  else none

/-! ### `KEYS` patterns

The server matches a key against a `KEYS` pattern with `stringmatchlen`
(Redis `util.c`), byte by byte over the key's UTF-8 encoding: `*` matches any
bytes, `?` one byte, `[...]` one byte of a class (`^` negates it, `a-b` is a
range of signed `char`s, `\` escapes), and `\` escapes outside a class.
Left out are the case-insensitive mode, which `KEYS` does not use, the cut-off
at a nesting of 1000 `*`s, and `skipLongerMatches`, a shortcut that keeps the
answer. -/

/-- The bytes of a string's UTF-8 encoding. -/
def utf8Bytes (s : String) : List Nat := (s.data.flatMap String.utf8EncodeChar).map UInt8.toNat

/-- A byte read as the server's `char`, signed on its platform. -/
def signedChar (b : Nat) : Int := if b < 128 then b else b - 256

/-- `[x-y]` holds the byte `b`; the bounds may come in either order. -/
def inRange (x y b : Nat) : Bool :=
  decide (min (signedChar x) (signedChar y) ≤ signedChar b ∧ signedChar b ≤ max (signedChar x) (signedChar y))

/-- Where `stringmatchlen` is: in its main loop, or inside a class testing the
byte `b`, negated by `^` or not, with `hit` once a member matched it. -/
inductive GlobMode where
  | main
  | cls (b : Nat) (neg hit : Bool)

/-- Any non-empty suffix of the string satisfies `f`: the loop of a `*`. -/
def anySuffix (f : List Nat → Bool) : List Nat → Bool
  | [] => false
  | b :: s => f (b :: s) || anySuffix f s

/-- The end of a round of the main loop, with the pattern and the string
left: a used-up string ends the loop after the pattern's `*`s, and the
pattern must then be used up too; otherwise the loop goes on. -/
def globNext (go : List Nat → Bool) (p s : List Nat) : Bool :=
  if s.isEmpty then (p.dropWhile (· = 42)).isEmpty else go s

/-- `stringmatchlen` from the head of a round, with the pattern left, the mode
and the string left (inside a class, the string after the byte tested). The
cases are by how many pattern bytes the round may read. -/
def globGo : List Nat → GlobMode → List Nat → Bool
  | [], .main, s => s.isEmpty
  | [], .cls _ neg hit, s => neg != hit && s.isEmpty
  | _ :: _, .main, [] => false
  | [x], .main, b :: s =>
    if x = 42 then true
    else if x = 63 then s.isEmpty
    else if x = 91 then globGo [] (.cls b false false) s
    else x = b && s.isEmpty
  | x :: y :: q, .main, b :: s =>
    if x = 42 then
      if y = 42 then globGo (y :: q) .main (b :: s) else anySuffix (globGo (y :: q) .main) (b :: s)
    else if x = 63 then globNext (globGo (y :: q) .main) (y :: q) s
    else if x = 91 then
      if y = 94 then globGo q (.cls b true false) s else globGo (y :: q) (.cls b false false) s
    else if x = 92 then y = b && globNext (globGo q .main) q s
    else x = b && globNext (globGo (y :: q) .main) (y :: q) s
  | [x], .cls b neg hit, s =>
    if x = 93 then neg != hit && s.isEmpty else globGo [] (.cls b neg (hit || x = b)) s
  | [x, y], .cls b neg hit, s =>
    if x = 92 then globGo [] (.cls b neg (hit || y = b)) s
    else if x = 93 then neg != hit && globNext (globGo [y] .main) [y] s
    else globGo [y] (.cls b neg (hit || x = b)) s
  | x :: y :: z :: q, .cls b neg hit, s =>
    if x = 92 then globGo (z :: q) (.cls b neg (hit || y = b)) s
    else if x = 93 then neg != hit && globNext (globGo (y :: z :: q) .main) (y :: z :: q) s
    else if y = 45 then globGo q (.cls b neg (hit || inRange x z b)) s
    else globGo (y :: z :: q) (.cls b neg (hit || x = b)) s

/-- `stringmatch(pattern, key, 0)`. -/
def stringmatch (pattern key : String) : Bool := globGo (utf8Bytes pattern) .main (utf8Bytes key)

/-- Bytes that a pattern reads as themselves: none of `*`, `?`, `[`, `\`. -/
def PlainBytes (p : List Nat) : Prop := ∀ x ∈ p, x ≠ 42 ∧ x ≠ 63 ∧ x ≠ 91 ∧ x ≠ 92

/-- The `*`s a round skips after a plain prefix: exactly the final one. -/
theorem dropWhile_star_isEmpty {p : List Nat} (hp : PlainBytes p) :
    ((p ++ [42]).dropWhile (· = 42)).isEmpty = p.isEmpty := by
  cases p with
  | nil => rfl
  | cons x p => simp [List.dropWhile_cons, (hp x (List.mem_cons_self _ _)).1]

/-- A plain prefix followed by `*` matches exactly the non-empty strings that
begin with it. -/
theorem globGo_prefix_star {p : List Nat} (hp : PlainBytes p) (s : List Nat) :
    globGo (p ++ [42]) .main s = (!s.isEmpty && p.isPrefixOf s) := by
  induction p generalizing s with
  | nil => cases s <;> rfl
  | cons x p ih =>
    obtain ⟨h42, h63, h91, h92⟩ := hp x (List.mem_cons_self _ _)
    have hp' : PlainBytes p := fun y hy => hp y (List.mem_cons_of_mem _ hy)
    obtain ⟨y, q, hq⟩ : ∃ y q, p ++ [42] = y :: q := by cases p <;> exact ⟨_, _, rfl⟩
    cases s with
    | nil => rw [List.cons_append, hq]; simp [globGo]
    | cons b s =>
      have hstep : globGo ((x :: p) ++ [42]) .main (b :: s) =
          (decide (x = b) && globNext (globGo (p ++ [42]) .main) (p ++ [42]) s) := by
        rw [List.cons_append, hq]
        simp only [globGo, if_neg h42, if_neg h63, if_neg h91, if_neg h92]
      have hnext : globNext (globGo (p ++ [42]) .main) (p ++ [42]) s = p.isPrefixOf s := by
        cases s with
        | nil => rw [globNext, if_pos List.isEmpty_nil, dropWhile_star_isEmpty hp']; cases p <;> rfl
        | cons c s => rw [globNext, if_neg (by simp), ih hp']; rfl
      rw [hstep, hnext]
      by_cases hxb : x = b <;> simp [List.isPrefixOf, hxb]

namespace RedisCache

/-- `fmt.Sprintf("%s%d", orderKeyPrefix, id)`. -/
def orderKey (c : RedisCache) (id : Int) : String := c.consts.orderKeyPrefix ++ toString id

/-- A key the server still holds at `now`. -/
def live (now : Int) (e : RedisEntry) : Bool := e.expireAtMs.all (now / millisecond ≤ ·)

/-- `GET key`. -/
def get (c : RedisCache) (now : Int) (key : String) : Option RedisValue :=
  (c.keyspace.find? (·.key == key)).bind fun e => if live now e then some e.value else none

/-- `SET key value` with the given TTL. -/
def set (c : RedisCache) (now : Int) (key : String) (v : RedisValue) (ttl : Int) : RedisCache :=
  let old := ((c.keyspace.find? (·.key == key)).filter (live now)).bind (·.expireAtMs)
  { c with keyspace := ⟨key, v, setExpiry now ttl old⟩ :: c.keyspace.filter (·.key != key) }

/-- `DEL keys...`. -/
def del (c : RedisCache) (keys : List String) : RedisCache :=
  { c with keyspace := c.keyspace.filter fun e => !keys.contains e.key }

/-- `KEYS pattern`: the live keys `stringmatch` matches with the pattern. -/
def keys (c : RedisCache) (now : Int) (pattern : String) : List String :=
  (c.keyspace.filter fun e => live now e && stringmatch pattern e.key).map (·.key)

/-- `SetOrder`. -/
def setOrder (c : RedisCache) (now : Int) (order : Order) : Except OrderError Unit × RedisCache :=
  if now > order.deadlineAt then (.error .cacheErrOrderNotCached, c) else
  let ttl := orderTTL now order.deadlineAt c.consts.additionalDuration c.consts.defaultOrderTTL
  (.ok (), c.set now (c.orderKey order.id) (.order order) ttl)

/-- `DeleteOrder`: `DEL` of an absent key succeeds. -/
def deleteOrder (c : RedisCache) (id : Int) : Except OrderError Unit × RedisCache :=
  (.ok (), c.del [c.orderKey id])

/-- `GetOrder`: an order past its deadline is deleted and reported expired. -/
def getOrder (c : RedisCache) (now : Int) (id : Int) : Except OrderError Order × RedisCache :=
  match c.get now (c.orderKey id) with
  | none => (.error .cacheErrOrderNotFoundInCache, c)
  | some (.order o) =>
    if now > o.deadlineAt then (.error .cacheErrOrderExpired, (c.deleteOrder id).2) else (.ok o, c)
  | some (.history _) => (.error .infrastructure, c)

/-- `ClearOrderCache`: `KEYS` with the pattern `orderKeyPrefix*`, then `DEL`
of what it listed. -/
def clearOrderCache (c : RedisCache) (now : Int) : Except OrderError Unit × RedisCache :=
  let keys := c.keys now (c.consts.orderKeyPrefix ++ "*")
  (.ok (), if keys.isEmpty then c else c.del keys)

end RedisCache

end Pvz.Cache
