import Pvz.Cache.GoList
import Mathlib.Logic.Relation

/-!
# The in-process cache under concurrent calls

The critical sections of `InMemoryCache` (`src/unnamed/part_010:134-337`),
each between a lock and an unlock of `ordersMu`, over the pointer-level
`container/list` of `Pvz.Cache.GoList`. A call is a sequence of steps, and
calls interleave between them:

* `SetOrder`: one section, with the entry it computed before the lock;
* `GetOrder`: the lookup under `RLock`, the unlocked read of the element's
  item, then `DeleteOrder` for an expired entry or the promotion under `Lock`;
* `DeleteOrder` and `ClearOrderCache`: one section each;
* `cleanupExpiredOrders`: the scan under `RLock`, then the removals under
  `Lock`.

Only `ordersLruMap` and `lruList` are modelled; the history has its own
mutex. What a call returns is not modelled, nor the map's iteration order,
which the scan reads in the map's list order.
-/

namespace Pvz.Cache

/-- The fields `ordersMu` guards. -/
structure LruState where
  lruList : GoList
  ordersLruMap : List (Int × Nat)
  maxCacheSize : Int

/-- Where a call stands: before its next critical section or its unlocked
read, or returned. -/
inductive CallPc where
  | setOrder (id : Int) (entry : OrderEntry)
  | getOrder (id now : Int)
  | getRead (id now : Int) (e : Nat)
  | getPromote (id : Int) (e : Nat)
  | deleteOrder (id : Int)
  | clearOrderCache
  | cleanupScan (now : Int)
  | cleanupRemove (ids : List Int)
  | done

namespace LruState

/-- `SetOrder`'s critical section: update and promote a mapped element, or
evict the back element of a full list and push a new one. -/
def setOrder (c : LruState) (id : Int) (entry : OrderEntry) : Option LruState :=
  match c.ordersLruMap.lookup id with
  | some e => do
    let it ← (c.lruList.get e).value
    let l := c.lruList.put e { c.lruList.get e with value := some { it with entry } }
    let l ← l.moveToFront e
    pure { c with lruList := l }
  | none => do
    let c ← if c.maxCacheSize ≤ c.lruList.len then
        match c.lruList.back with
        | some last => do
          let it ← (c.lruList.get last).value
          let l ← c.lruList.removeElem last
          pure { c with lruList := l, ordersLruMap := mapErase c.ordersLruMap it.id }
        | none => pure c
      else pure c
    let (l, e) ← c.lruList.pushFront ⟨id, entry⟩
    pure { c with lruList := l, ordersLruMap := mapInsert c.ordersLruMap id e }

/-- `DeleteOrder`'s critical section; an absent id changes nothing. -/
def deleteOrder (c : LruState) (id : Int) : Option LruState :=
  match c.ordersLruMap.lookup id with
  | none => some c
  | some e => (c.lruList.removeElem e).map fun l => { c with lruList := l, ordersLruMap := mapErase c.ordersLruMap id }

/-- `ClearOrderCache`'s critical section. -/
def clearOrderCache (c : LruState) : LruState := { c with lruList := c.lruList.init, ordersLruMap := [] }

/-- `GetOrder`'s promotion: `MoveToFront` of the element its lookup found,
if the id is still mapped. -/
def promote (c : LruState) (id : Int) (e : Nat) : Option LruState :=
  if (c.ordersLruMap.lookup id).isSome then (c.lruList.moveToFront e).map fun l => { c with lruList := l }
  else some c

/-- The scan of `cleanupExpiredOrders`: the ids of the mapped items whose
entry expired before `now`. -/
def expiredIDs (c : LruState) (now : Int) : Option (List Int) := do
  let items ← c.ordersLruMap.mapM fun p => (c.lruList.get p.2).value
  pure ((items.filter fun it => now > it.entry.ttl).map (·.id))

/-- The removals of `cleanupExpiredOrders`, each as `DeleteOrder` does it. -/
def removeExpired (c : LruState) : List Int → Option LruState
  | [] => some c
  | id :: ids => (c.deleteOrder id).bind fun c => c.removeExpired ids

/-- One step of a call. -/
def callStep (c : LruState) : CallPc → Option (LruState × CallPc)
  | .setOrder id entry => (c.setOrder id entry).map (·, .done)
  | .getOrder id now =>
    some (c, match c.ordersLruMap.lookup id with
      | some e => .getRead id now e
      | none => .done)
  | .getRead id now e => ((c.lruList.get e).value).map fun it =>
    (c, if now > it.entry.ttl ∨ now > it.entry.order.deadlineAt then .deleteOrder id else .getPromote id e)
  | .getPromote id e => (c.promote id e).map (·, .done)
  | .deleteOrder id => (c.deleteOrder id).map (·, .done)
  | .clearOrderCache => some (c.clearOrderCache, .done)
  | .cleanupScan now => (c.expiredIDs now).map fun ids => (c, if ids.isEmpty then .done else .cleanupRemove ids)
  | .cleanupRemove ids => (c.removeExpired ids).map (·, .done)
  | .done => none

/-- The spec's bijection: each mapped element is in the list and carries its
id, each element in the list is the one mapped to its item's id, and the
list's length is the map's size. -/
structure Bij (c : LruState) : Prop where
  map_to_list : ∀ id e, c.ordersLruMap.lookup id = some e →
    e ∈ c.lruList.elems ∧ (c.lruList.get e).value.map (·.id) = some id
  list_to_map : ∀ e ∈ c.lruList.elems, ∃ it, (c.lruList.get e).value = some it ∧ c.ordersLruMap.lookup it.id = some e
  len_eq : c.lruList.len = c.ordersLruMap.length

end LruState

/-- A call as a client issues it, before its first step. -/
def CallPc.start : CallPc → Bool
  | .setOrder .. | .getOrder .. | .deleteOrder .. | .clearOrderCache | .cleanupScan .. => true
  | _ => false

/-- The cache and the calls in flight. -/
structure LruSys where
  cache : LruState
  calls : List CallPc

namespace LruSys

/-- Call `i` takes its next step. -/
def step (s : LruSys) (i : Nat) : Option LruSys :=
  match s.calls[i]? with
  | some pc => (s.cache.callStep pc).map fun r => ⟨r.1, s.calls.set i r.2⟩
  | none => none

def Step (s s' : LruSys) : Prop := ∃ i, s.step i = some s'

def Steps : LruSys → LruSys → Prop := Relation.ReflTransGen Step

/-- `NewInMemoryCache` with the calls that will run on it. -/
def init (maxCacheSize : Int) (calls : List CallPc) : LruSys := ⟨⟨GoList.new, [], maxCacheSize⟩, calls⟩

/-- The states some interleaving reaches of calls as clients issue them. -/
def Reachable (s : LruSys) : Prop :=
  ∃ maxCacheSize calls, (∀ pc ∈ calls, CallPc.start pc = true) ∧ Steps (init maxCacheSize calls) s

/-- The state a schedule leads to, skipping a step that cannot be taken. -/
def replay (s : LruSys) (is : List Nat) : LruSys := is.foldl (fun s i => (s.step i).getD s) s

theorem steps_replay (s : LruSys) (is : List Nat) : s.Steps (s.replay is) := by
  induction is generalizing s with
  | nil => exact .refl
  | cons i is ih =>
    show s.Steps (((s.step i).getD s).replay is)
    cases h : s.step i with
    | none => exact ih s
    | some s' => exact .head ⟨i, h⟩ (ih s')

end LruSys

/-- `SetOrder(1)`; `GetOrder(1)` looks the element up and reads it; then
`ClearOrderCache` and a second `SetOrder(1)` run; then the `GetOrder`
promotes the element it found. The map then sends `1` to the new element,
which the promotion has unlinked, and the list holds the old one. -/
theorem stale_promotion_breaks_bijection : ∃ s : LruSys, s.Reachable ∧ ¬ s.cache.Bij := by
  let entry : OrderEntry := ⟨⟨1, 1, .accepted, 5, 100, none, none, hour, 0, none, none⟩, hour⟩
  let s := (LruSys.init 1000 [.setOrder 1 entry, .getOrder 1 0, .clearOrderCache, .setOrder 1 entry]).replay
    [0, 1, 1, 2, 3, 1]
  refine ⟨s, ⟨1000, _, by decide, LruSys.steps_replay _ _⟩, fun h => ?_⟩
  exact absurd (h.map_to_list 1 2 (by decide)).1 (by decide)

end Pvz.Cache
