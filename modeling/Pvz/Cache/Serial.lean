import Pvz.Cache.Ring
import Pvz.Cache.Concurrent
import Pvz.Cache.Refinement

/-!
# The in-process cache when calls run one at a time

`ordersMu` makes each critical section atomic, but `GetOrder` and
`cleanupExpiredOrders` unlock between their sections, and another call run
there can leave the map and the list apart (`Pvz.Cache.Concurrent`). Run one
at a time, calls keep the cache `Linked`: the list is a ring of
`Pvz.Cache.Ring`, the map's ids are distinct, and the map and the ring are
the bijection `Bij` asks for (`LruState.Linked.bij`).

`LruState.toAbs` reads the abstract LRU map of `Pvz.Cache.Lru` off the cache:
the items a traversal from `Front()` visits, front first. Each critical
section keeps a cache linked and does to the abstract map what the spec's
operation does, one lemma each. A call issued by a client and run alone
returns within three steps and does what the spec's operation does
(`LruState.Linked.runAlone`), and so does a sequence of calls run one after
another from `NewInMemoryCache` (`LruState.runSerial_refines`). The list-level
cache refines the same map (`Pvz.Cache.Refinement`).

Over the concurrent system, a serial run from `NewInMemoryCache` keeps the
cache linked at every step, and no call's next step panics
(`LruSys.serial_runs_keep_bijection`). Between its sections a call holds only
the element `GetOrder`'s lookup found (`CallPc.Ready`), and run alone it
finds that element still mapped.
-/

namespace Pvz.Cache

/-! ## Go maps with distinct keys -/

theorem ne_of_lookup_eq_none {m : List (Int × Nat)} {id : Int} (h : m.lookup id = none) : ∀ p ∈ m, p.1 ≠ id := by
  induction m with
  | nil => exact nofun
  | cons p m ih =>
    obtain ⟨a, b⟩ := p
    rw [List.lookup_cons] at h
    by_cases ha : id = a
    · subst ha; simp at h
    · rw [(beq_eq_false_iff_ne).2 ha] at h
      intro q hq
      rcases List.mem_cons.1 hq with rfl | hq
      · exact Ne.symm ha
      · exact ih h q hq

theorem lookup_of_mem {m : List (Int × Nat)} (hk : (m.map (·.1)).Nodup) {a : Int} {b : Nat} (h : (a, b) ∈ m) :
    m.lookup a = some b := by
  induction m with
  | nil => exact absurd h (List.not_mem_nil _)
  | cons p m ih =>
    obtain ⟨x, y⟩ := p
    rw [List.map_cons, List.nodup_cons] at hk
    rw [List.lookup_cons]
    rcases List.mem_cons.1 h with h | h
    · obtain ⟨rfl, rfl⟩ := Prod.mk.inj h
      rw [beq_self_eq_true]
    · rw [(beq_eq_false_iff_ne).2 fun he => hk.1 (by rw [← he]; exact List.mem_map_of_mem (·.1) h)]
      exact ih hk.2 h

theorem mapErase_of_lookup_eq_none {m : List (Int × Nat)} {id : Int} (h : m.lookup id = none) : mapErase m id = m :=
  List.filter_eq_self.2 fun p hp => bne_iff_ne.2 (ne_of_lookup_eq_none h p hp)

theorem keys_nodup_mapErase {m : List (Int × Nat)} (hk : (m.map (·.1)).Nodup) (id : Int) :
    ((mapErase m id).map (·.1)).Nodup :=
  ((List.filter_sublist m).map _).nodup hk

theorem keys_nodup_mapInsert {m : List (Int × Nat)} (hk : (m.map (·.1)).Nodup) (id : Int) (e : Nat) :
    ((mapInsert m id e).map (·.1)).Nodup := by
  rw [mapInsert, List.map_cons, List.nodup_cons]
  refine ⟨fun hm => ?_, keys_nodup_mapErase hk id⟩
  obtain ⟨p, hp, hpid⟩ := List.mem_map.1 hm
  have hne := List.of_mem_filter (show p ∈ m.filter (·.1 != id) from hp)
  exact bne_iff_ne.1 hne hpid

theorem length_mapErase {m : List (Int × Nat)} (hk : (m.map (·.1)).Nodup) {id : Int} {e : Nat}
    (hl : m.lookup id = some e) : (mapErase m id).length + 1 = m.length := by
  induction m with
  | nil => cases hl
  | cons p m ih =>
    obtain ⟨a, b⟩ := p
    rw [List.map_cons, List.nodup_cons] at hk
    rw [List.lookup_cons] at hl
    by_cases ha : a = id
    · subst ha
      have hrest : ∀ q ∈ m, (q.1 != a) = true := fun q hq =>
        bne_iff_ne.2 fun h => hk.1 (h ▸ List.mem_map_of_mem (·.1) hq)
      rw [mapErase, List.filter_cons_of_neg (by simp), List.filter_eq_self.2 hrest, List.length_cons]
    · rw [(beq_eq_false_iff_ne).2 (Ne.symm ha)] at hl
      rw [mapErase, List.filter_cons_of_pos (by simpa using ha), List.length_cons, List.length_cons, ← mapErase,
        ih hk.2 hl]

theorem mapM_eq_some_map {α β : Type} {f : α → Option β} {g : α → β} : ∀ {l : List α}, (∀ a ∈ l, f a = some (g a)) →
    l.mapM f = some (l.map g)
  | [], _ => rfl
  | a :: l, h => by
    rw [List.mapM_cons, h a (List.mem_cons_self a l), mapM_eq_some_map fun x hx => h x (List.mem_cons_of_mem a hx)]
    rfl

/-! ## The abstract map's store and sweep -/

namespace AbsLru

/-- Modelled from the spec: the store `SetOrder` makes of `en` under `id`: a
present id is updated and made the most recent entry; a new id in a full map
first evicts the least recent one. -/
def setEntry (a : AbsLru) (id : Int) (en : OrderEntry) : AbsLru :=
  let rest := if (a.entries.lookup id).isSome then a.entries.filter (·.1 != id)
    else if a.consts.maxCacheSize ≤ a.entries.length then a.entries.dropLast else a.entries
  { a with entries := (id, en) :: rest }

/-- `SetOrder` of a live order stores it with its expiry. -/
theorem setOrder_live (a : AbsLru) {now : Int} {o : Order} (h : ¬ now > o.deadlineAt) :
    a.setOrder now o = (.ok (), a.setEntry o.id ⟨o, a.expiry now o⟩) :=
  if_neg h

/-- Modelled from the spec: the reaper's sweep drops every entry whose TTL
has elapsed. -/
def cleanup (a : AbsLru) (now : Int) : AbsLru := { a with entries := a.entries.filter fun p => !decide (now > p.2.ttl) }

end AbsLru

/-- Modelled from the spec: what a call issued as `pc` does to the abstract
map. A call's later steps are no call of their own. -/
def CallPc.absCall (a : AbsLru) : CallPc → AbsLru
  | .setOrder id entry => a.setEntry id entry
  | .getOrder id now => (a.getOrder now id).2
  | .deleteOrder id => (a.deleteOrder id).2
  | .clearOrderCache => a.clearOrderCache.2
  | .cleanupScan now => a.cleanup now
  | _ => a

/-! ## A linked cache -/

namespace LruState

/-- The item of element `e`, as `e.Value.(*LruItem)` reads it. -/
def item (c : LruState) (e : Nat) : LruItem := (c.lruList.get e).value.getD default

/-- The abstract map a cache stands for under the constants `k`, with the
cache's own `maxCacheSize`: the items of the elements a traversal from
`Front()` visits, front first. -/
def toAbs (c : LruState) (k : InmemConstants) : AbsLru :=
  ⟨c.lruList.elems.map fun e => ((c.item e).id, (c.item e).entry), { k with maxCacheSize := c.maxCacheSize }⟩

/-- The cache between two calls when calls run one at a time: the list is a
ring through `L`, the map's ids are distinct, each mapped element is in `L`
and carries its id, each element of `L` is mapped from its item's id, and
there are as many ids as elements. -/
structure Linked (c : LruState) (L : List Nat) : Prop where
  ring : c.lruList.Ring L
  keys_nodup : (c.ordersLruMap.map (·.1)).Nodup
  map_to_list : ∀ id e, c.ordersLruMap.lookup id = some e → e ∈ L ∧ (c.lruList.get e).value.map (·.id) = some id
  list_to_map : ∀ e ∈ L, ∃ it, (c.lruList.get e).value = some it ∧ c.ordersLruMap.lookup it.id = some e
  length : c.ordersLruMap.length = L.length

variable {c : LruState} {L : List Nat}

theorem Linked.bij (h : c.Linked L) : c.Bij where
  map_to_list id e hl := h.ring.elems ▸ h.map_to_list id e hl
  list_to_map e he := h.list_to_map e (h.ring.elems ▸ he)
  len_eq := by rw [h.ring.len, h.length]

theorem linked_init (maxCacheSize : Int) : (⟨GoList.new, [], maxCacheSize⟩ : LruState).Linked [] :=
  ⟨GoList.ring_new, List.nodup_nil, (fun _ _ h => by cases h), nofun, rfl⟩

theorem Linked.mapped (h : c.Linked L) {id : Int} {e : Nat} (hl : c.ordersLruMap.lookup id = some e) :
    e ∈ L ∧ (c.lruList.get e).value = some (c.item e) ∧ (c.item e).id = id := by
  obtain ⟨he, hid⟩ := h.map_to_list id e hl
  obtain ⟨it, hit, rfl⟩ := Option.map_eq_some'.1 hid
  exact ⟨he, by rw [item, hit]; rfl, by rw [item, hit]; rfl⟩

theorem Linked.listed (h : c.Linked L) {e : Nat} (he : e ∈ L) :
    (c.lruList.get e).value = some (c.item e) ∧ c.ordersLruMap.lookup (c.item e).id = some e := by
  obtain ⟨it, hit, hl⟩ := h.list_to_map e he
  exact ⟨by rw [item, hit]; rfl, by rw [item, hit]; exact hl⟩

theorem Linked.ids_nodup (h : c.Linked L) : (L.map fun e => (c.item e).id).Nodup :=
  h.ring.nodup.map_on fun _ hx _ hy hxy =>
    Option.some.inj ((h.listed hx).2.symm.trans ((congrArg (List.lookup · c.ordersLruMap) hxy).trans (h.listed hy).2))

theorem Linked.toAbs_eq (h : c.Linked L) (k : InmemConstants) :
    c.toAbs k = ⟨L.map fun e => ((c.item e).id, (c.item e).entry), { k with maxCacheSize := c.maxCacheSize }⟩ := by
  rw [toAbs, h.ring.elems]

/-- The abstract map's lookup reads the element the cache's map points to. -/
theorem Linked.toAbs_lookup (h : c.Linked L) (k : InmemConstants) (id : Int) :
    (c.toAbs k).entries.lookup id = (c.ordersLruMap.lookup id).map fun e => (c.item e).entry := by
  rw [h.toAbs_eq]
  cases hl : c.ordersLruMap.lookup id with
  | none =>
    refine lookup_map_of_forall_ne fun x hx hid => ?_
    rw [← hid, (h.listed hx).2] at hl
    cases hl
  | some e =>
    obtain ⟨he, -, rfl⟩ := h.mapped hl
    exact lookup_map_of_mem h.ids_nodup he

/-- A linked cache whose items agree with `d`'s on its ring stands for the
map of `d`'s items over that ring. -/
theorem Linked.toAbs_of_items {c' : LruState} {L' : List Nat} (h' : c'.Linked L') (d : LruState)
    (hv : ∀ x ∈ L', c'.item x = d.item x) (k : InmemConstants) :
    c'.toAbs k = ⟨L'.map fun e => ((d.item e).id, (d.item e).entry), { k with maxCacheSize := c'.maxCacheSize }⟩ := by
  rw [h'.toAbs_eq, List.map_congr_left fun x hx => by rw [hv x hx]]

theorem Linked.clearOrderCache (h : c.Linked L) :
    c.clearOrderCache.Linked [] ∧ ∀ k, c.clearOrderCache.toAbs k = (c.toAbs k).clearOrderCache.2 := by
  have h' : c.clearOrderCache.Linked [] :=
    ⟨GoList.ring_init h.ring.fresh_pos, List.nodup_nil, (fun _ _ h => by cases h), nofun, rfl⟩
  exact ⟨h', fun k => by rw [h'.toAbs_eq, h.toAbs_eq]; rfl⟩

/-- A new list under the same map keeps the cache linked when its ring holds
the same elements and each element's item keeps its id. -/
theorem Linked.relist (h : c.Linked L) {l : GoList} {L' : List Nat} (hr : l.Ring L') (hp : L'.Perm L)
    (hv : ∀ x, (l.get x).value.map (·.id) = (c.lruList.get x).value.map (·.id)) :
    ({ c with lruList := l } : LruState).Linked L' where
  ring := hr
  keys_nodup := h.keys_nodup
  map_to_list id e hl := by
    obtain ⟨he, hid⟩ := h.map_to_list id e hl
    exact ⟨hp.mem_iff.2 he, (hv e).trans hid⟩
  list_to_map e he := by
    obtain ⟨it, hit, hl⟩ := h.list_to_map e (hp.mem_iff.1 he)
    have hid := hv e
    rw [hit] at hid
    obtain ⟨it', hit', hid⟩ := Option.map_eq_some'.1 hid
    exact ⟨it', hit', hid ▸ hl⟩
  length := h.length.trans hp.length_eq.symm

/-- Moving a mapped element to the front, its item rewritten to one with the
same id, moves its id's entry to the front of the abstract map. -/
theorem Linked.toAbs_front (h : c.Linked L) {id : Int} {e : Nat} (hl : c.ordersLruMap.lookup id = some e)
    {c' : LruState} (h' : c'.Linked (e :: L.erase e)) (hm : c'.maxCacheSize = c.maxCacheSize)
    (hv : ∀ x, x ≠ e → c'.item x = c.item x) (hid : (c'.item e).id = id) (k : InmemConstants) :
    c'.toAbs k = ⟨(id, (c'.item e).entry) :: (c.toAbs k).entries.filter (·.1 != id), (c.toAbs k).consts⟩ := by
  obtain ⟨he, -, hide⟩ := h.mapped hl
  rw [h'.toAbs_eq, h.toAbs_eq, List.map_cons, hid, hm, ← hide, ← map_erase_eq_filter h.ids_nodup he,
    List.map_congr_left fun x hx => by rw [hv x (h.ring.nodup.mem_erase_iff.1 hx).1]]

/-- `Remove` of a mapped element, with its id's entry, keeps the cache linked
and drops the id's entry from the abstract map. -/
theorem Linked.removeMapped (h : c.Linked L) {id : Int} {e : Nat} (hl : c.ordersLruMap.lookup id = some e) :
    ∃ l, c.lruList.removeElem e = some l ∧
      ({ c with lruList := l, ordersLruMap := mapErase c.ordersLruMap id } : LruState).Linked (L.erase e) ∧
      ∀ k, ({ c with lruList := l, ordersLruMap := mapErase c.ordersLruMap id } : LruState).toAbs k =
        ((c.toAbs k).deleteOrder id).2 := by
  obtain ⟨he, hid⟩ := h.map_to_list id e hl
  obtain ⟨l, hrem, hr, -, hv⟩ := h.ring.removeElem he
  have h' : ({ c with lruList := l, ordersLruMap := mapErase c.ordersLruMap id } : LruState).Linked (L.erase e) := by
    refine ⟨hr, keys_nodup_mapErase h.keys_nodup id, fun k x hk => ?_, fun x hx => ?_, ?_⟩
    · rw [lookup_mapErase] at hk
      split at hk
      · cases hk
      · rename_i hkid
        obtain ⟨hx, hxid⟩ := h.map_to_list k x hk
        have hxe : x ≠ e := fun hxe => hkid (Option.some.inj ((hxe ▸ hxid).symm.trans hid))
        exact ⟨h.ring.nodup.mem_erase_iff.2 ⟨hxe, hx⟩, by rw [hv x]; exact hxid⟩
    · obtain ⟨hxe, hx⟩ := h.ring.nodup.mem_erase_iff.1 hx
      obtain ⟨it, hit, hlk⟩ := h.list_to_map x hx
      refine ⟨it, (hv x).trans hit, ?_⟩
      rw [lookup_mapErase, if_neg fun hi => hxe (Option.some.inj ((hi ▸ hlk).symm.trans hl))]
      exact hlk
    · show (mapErase c.ordersLruMap id).length = (L.erase e).length
      have := length_mapErase h.keys_nodup hl
      rw [List.length_erase_of_mem he, ← h.length]
      omega
  refine ⟨l, hrem, h', fun k => ?_⟩
  obtain ⟨-, -, hide⟩ := h.mapped hl
  rw [h'.toAbs_of_items c (fun x _ => by simp only [item, hv x]) k, h.toAbs_eq]
  show AbsLru.mk _ _ = AbsLru.mk _ _
  rw [map_erase_eq_filter h.ids_nodup he, hide]

/-- `PushFront` of an unmapped id's item, with its entry, keeps the cache
linked and puts the entry at the front of the abstract map. -/
theorem Linked.push (h : c.Linked L) {id : Int} (hl : c.ordersLruMap.lookup id = none) (entry : OrderEntry) :
    ∃ l, c.lruList.pushFront ⟨id, entry⟩ = some (l, c.lruList.fresh) ∧
      ({ c with lruList := l, ordersLruMap := mapInsert c.ordersLruMap id c.lruList.fresh } : LruState).Linked
        (c.lruList.fresh :: L) ∧
      ∀ k, ({ c with lruList := l, ordersLruMap := mapInsert c.ordersLruMap id c.lruList.fresh } : LruState).toAbs k =
        ⟨(id, entry) :: (c.toAbs k).entries, (c.toAbs k).consts⟩ := by
  obtain ⟨l, hpush, hr, -, hv⟩ := h.ring.pushFront ⟨id, entry⟩
  have hfL : ∀ x ∈ L, x ≠ c.lruList.fresh := fun x hx he => Nat.lt_irrefl _ (he ▸ h.ring.lt_fresh x hx)
  have h' : ({ c with lruList := l, ordersLruMap := mapInsert c.ordersLruMap id c.lruList.fresh } : LruState).Linked
      (c.lruList.fresh :: L) := by
    refine ⟨hr, keys_nodup_mapInsert h.keys_nodup id _, fun k x hk => ?_, fun x hx => ?_, ?_⟩
    · rw [lookup_mapInsert] at hk
      split at hk
      · rename_i hkid
        obtain rfl := Option.some.inj hk
        rw [hv, if_pos rfl, hkid]
        exact ⟨List.mem_cons_self _ _, rfl⟩
      · obtain ⟨hx, hxid⟩ := h.map_to_list k x hk
        rw [hv, if_neg (hfL x hx)]
        exact ⟨List.mem_cons_of_mem _ hx, hxid⟩
    · rcases List.mem_cons.1 hx with rfl | hx
      · exact ⟨⟨id, entry⟩, by rw [hv, if_pos rfl], by rw [lookup_mapInsert, if_pos rfl]⟩
      · obtain ⟨it, hit, hlk⟩ := h.list_to_map x hx
        refine ⟨it, by rw [hv, if_neg (hfL x hx)]; exact hit, ?_⟩
        rw [lookup_mapInsert, if_neg fun hi => by rw [hi, hl] at hlk; cases hlk]
        exact hlk
    · rw [mapInsert, List.length_cons, mapErase_of_lookup_eq_none hl, h.length, List.length_cons]
  refine ⟨l, hpush, h', fun k => ?_⟩
  rw [h'.toAbs_eq, h.toAbs_eq]
  simp only [item, hv, List.map_cons, if_true]
  rw [List.map_congr_left fun x hx => by rw [if_neg (hfL x hx)]]
  rfl

theorem Linked.deleteOrder (h : c.Linked L) (id : Int) :
    ∃ c' L', c.deleteOrder id = some c' ∧ c'.Linked L' ∧ ∀ k, c'.toAbs k = ((c.toAbs k).deleteOrder id).2 := by
  cases hl : c.ordersLruMap.lookup id with
  | none =>
    refine ⟨c, L, by rw [LruState.deleteOrder, hl], h, fun k => ?_⟩
    rw [h.toAbs_eq]
    show _ = AbsLru.mk _ _
    rw [List.filter_eq_self.2 fun p hp => ?_]
    obtain ⟨x, hx, rfl⟩ := List.mem_map.1 hp
    refine bne_iff_ne.2 fun hid => ?_
    rw [← hid, (h.listed hx).2] at hl
    cases hl
  | some e =>
    obtain ⟨l, hrem, h', hab⟩ := h.removeMapped hl
    exact ⟨_, _, by simp only [LruState.deleteOrder, hl, hrem, Option.map_some'], h', hab⟩

theorem Linked.promote (h : c.Linked L) {id : Int} {e : Nat} (hl : c.ordersLruMap.lookup id = some e) :
    ∃ c' L', c.promote id e = some c' ∧ c'.Linked L' ∧
      ∀ k, c'.toAbs k = ⟨(id, (c.item e).entry) :: (c.toAbs k).entries.filter (·.1 != id), (c.toAbs k).consts⟩ := by
  obtain ⟨he, -, hid⟩ := h.mapped hl
  obtain ⟨l, hmv, hr, -, hv⟩ := h.ring.moveToFront he
  have h' := h.relist hr (List.perm_cons_erase he).symm fun x => by rw [hv x]
  refine ⟨_, _, by rw [LruState.promote, hl, Option.isSome_some, if_pos rfl, hmv]; rfl, h', fun k => ?_⟩
  rw [h.toAbs_front hl h' rfl (fun x _ => by simp only [item, hv x]) (by simp only [item, hv e]; exact hid) k]
  simp only [item, hv e]

theorem Linked.setOrder (h : c.Linked L) (id : Int) (entry : OrderEntry) :
    ∃ c' L', c.setOrder id entry = some c' ∧ c'.Linked L' ∧ ∀ k, c'.toAbs k = (c.toAbs k).setEntry id entry := by
  cases hl : c.ordersLruMap.lookup id with
  | some e =>
    obtain ⟨he, hit, hid⟩ := h.mapped hl
    obtain ⟨l, hmv, hr, -, hv⟩ := (h.ring.setValue e (some { c.item e with entry })).moveToFront he
    have hv' : ∀ x, (l.get x).value = if x = e then some { c.item e with entry } else (c.lruList.get x).value :=
      fun x => by rw [hv x, GoList.get_put]; split <;> rfl
    have h' := h.relist hr (List.perm_cons_erase he).symm fun x => by
      rw [hv' x]; split
      · rename_i hx; rw [hx, hit]; rfl
      · rfl
    refine ⟨_, _, by simp only [LruState.setOrder, hl, hit, hmv, Option.bind_eq_bind, Option.some_bind]; rfl, h',
      fun k => ?_⟩
    rw [h.toAbs_front hl h' rfl (fun x hx => by simp only [item, hv' x, if_neg hx])
      (by simp only [item, hv' e, if_true]; exact hid) k]
    simp only [AbsLru.setEntry, h.toAbs_lookup, hl, Option.map_some', Option.isSome_some, if_true, item, hv' e]
    rfl
  | none =>
    have hlen : ∀ k, ((c.toAbs k).entries.length : Int) = c.lruList.len := fun k => by
      rw [h.toAbs_eq, h.ring.len]; exact congrArg _ (List.length_map _ _)
    have habs : ∀ k, (c.toAbs k).entries.lookup id = none := fun k => by rw [h.toAbs_lookup, hl]; rfl
    simp only [LruState.setOrder, hl, Option.bind_eq_bind, Option.pure_def, Option.some_bind]
    split
    · rename_i hfull
      rw [h.ring.back]
      cases hb : L.getLast? with
      | none =>
        obtain ⟨l, hpush, h', hab⟩ := h.push hl entry
        refine ⟨_, _, by simp only [hpush, Option.some_bind], h', fun k => (hab k).trans ?_⟩
        simp only [AbsLru.setEntry, habs, Option.isSome_none, Bool.false_eq_true, if_false]
        rw [h.toAbs_eq, List.getLast?_eq_none_iff.1 hb]
        simp
      | some last =>
        have hlast := List.mem_of_getLast?_eq_some hb
        obtain ⟨hit, hlk⟩ := h.listed hlast
        obtain ⟨l₁, hrem, h₁, hab₁⟩ := h.removeMapped hlk
        have hl₁ : (mapErase c.ordersLruMap (c.item last).id).lookup id = none := by
          rw [lookup_mapErase, hl]; split <;> rfl
        obtain ⟨l, hpush, h', hab⟩ := h₁.push hl₁ entry
        refine ⟨_, _, by simp only [hit, hrem, hpush, Option.some_bind], h', fun k => (hab k).trans ?_⟩
        rw [hab₁]
        simp only [AbsLru.setEntry, AbsLru.deleteOrder, habs, Option.isSome_none, Bool.false_eq_true, if_false,
          if_pos (show (c.toAbs k).consts.maxCacheSize ≤ ((c.toAbs k).entries.length : Int) by rw [hlen]; exact hfull)]
        rw [h.toAbs_eq, ← map_erase_eq_filter h.ids_nodup hlast, erase_eq_dropLast h.ring.nodup hb, List.map_dropLast]
    · rename_i hfull
      obtain ⟨l, hpush, h', hab⟩ := h.push hl entry
      refine ⟨_, _, by simp only [hpush, Option.some_bind], h', fun k => (hab k).trans ?_⟩
      simp only [AbsLru.setEntry, habs, Option.isSome_none, Bool.false_eq_true, if_false,
        if_neg (show ¬ (c.toAbs k).consts.maxCacheSize ≤ ((c.toAbs k).entries.length : Int) by rw [hlen]; exact hfull)]

/-- The reaper's scan names exactly the ids of the expired items. -/
theorem Linked.expiredIDs (h : c.Linked L) (now : Int) :
    ∃ ids, c.expiredIDs now = some ids ∧ ∀ x ∈ L, (c.item x).id ∈ ids ↔ now > (c.item x).entry.ttl := by
  have hitems := mapM_eq_some_map fun p hp => (h.mapped (lookup_of_mem h.keys_nodup hp)).2.1
  refine ⟨_, by rw [LruState.expiredIDs, hitems]; rfl, fun x hx => ?_⟩
  simp only [List.mem_map, List.mem_filter, decide_eq_true_eq]
  constructor
  · rintro ⟨it, ⟨⟨q, hq, rfl⟩, hexp⟩, hid⟩
    obtain ⟨hqL, -, -⟩ := h.mapped (lookup_of_mem h.keys_nodup hq)
    rwa [List.inj_on_of_nodup_map h.ids_nodup hqL hx hid] at hexp
  · exact fun hexp => ⟨c.item x, ⟨⟨((c.item x).id, x), mem_of_lookup (h.listed hx).2, rfl⟩, hexp⟩, rfl⟩

theorem Linked.removeExpired : ∀ {c : LruState} {L : List Nat}, c.Linked L → ∀ ids : List Int,
    ∃ c' L', c.removeExpired ids = some c' ∧ c'.Linked L' ∧
      ∀ k, c'.toAbs k = ⟨(c.toAbs k).entries.filter fun p => !ids.contains p.1, (c.toAbs k).consts⟩
  | c, L, h, [] => ⟨c, L, rfl, h, fun k => by rw [h.toAbs_eq]; simp⟩
  | _, _, h, id :: ids => by
    obtain ⟨c₁, L₁, hc₁, h₁, hab₁⟩ := h.deleteOrder id
    obtain ⟨c', L', hc', h', hab'⟩ := h₁.removeExpired ids
    refine ⟨c', L', by rw [LruState.removeExpired, hc₁]; exact hc', h', fun k => ?_⟩
    rw [hab', hab₁]
    simp only [AbsLru.deleteOrder, List.filter_filter]
    congr 1
    refine List.filter_congr fun p _ => ?_
    simp only [List.contains_cons, Bool.not_or, bne]
    exact Bool.and_comm _ _

end LruState

/-- What a call in flight relies on: the element `GetOrder`'s lookup found is
still the one its id maps to. -/
def CallPc.Ready (c : LruState) : CallPc → Prop
  | .getRead id _ e | .getPromote id e => c.ordersLruMap.lookup id = some e
  | _ => True

theorem CallPc.ready_of_start {pc : CallPc} (h : pc.start = true ∨ pc = .done) (c : LruState) : pc.Ready c := by
  cases pc <;> first | trivial | (rcases h with h | h <;> cases h)

namespace LruState

variable {c : LruState} {L : List Nat}

/-- On a linked cache a call's next step never panics, and it leaves the
cache linked and the call's own view of it true. -/
theorem Linked.callStep (h : c.Linked L) {pc : CallPc} (hr : pc.Ready c) (hpc : pc ≠ .done) :
    ∃ c' pc', c.callStep pc = some (c', pc') ∧ (∃ L', c'.Linked L') ∧ pc'.Ready c' := by
  cases pc with
  | setOrder id entry =>
    obtain ⟨c', L', hc', h', -⟩ := h.setOrder id entry
    exact ⟨c', .done, by rw [LruState.callStep, hc']; rfl, ⟨L', h'⟩, trivial⟩
  | getOrder id now =>
    refine ⟨c, _, rfl, ⟨L, h⟩, ?_⟩
    cases hl : c.ordersLruMap.lookup id with
    | none => trivial
    | some e => exact hl
  | getRead id now e =>
    obtain ⟨-, hit, -⟩ := h.mapped hr
    refine ⟨c, _, by rw [LruState.callStep, hit]; rfl, ⟨L, h⟩, ?_⟩
    split
    · trivial
    · exact hr
  | getPromote id e =>
    obtain ⟨c', L', hc', h', -⟩ := h.promote hr
    exact ⟨c', .done, by rw [LruState.callStep, hc']; rfl, ⟨L', h'⟩, trivial⟩
  | deleteOrder id =>
    obtain ⟨c', L', hc', h', -⟩ := h.deleteOrder id
    exact ⟨c', .done, by rw [LruState.callStep, hc']; rfl, ⟨L', h'⟩, trivial⟩
  | clearOrderCache => exact ⟨_, .done, rfl, ⟨[], h.clearOrderCache.1⟩, trivial⟩
  | cleanupScan now =>
    obtain ⟨ids, hids, -⟩ := h.expiredIDs now
    refine ⟨c, _, by rw [LruState.callStep, hids]; rfl, ⟨L, h⟩, ?_⟩
    split <;> trivial
  | cleanupRemove ids =>
    obtain ⟨c', L', hc', h', -⟩ := h.removeExpired ids
    exact ⟨c', .done, by rw [LruState.callStep, hc']; rfl, ⟨L', h'⟩, trivial⟩
  | done => exact absurd rfl hpc

end LruState

namespace LruState

/-- A call run alone from `pc` until it returns, at most `fuel` steps of
`callStep`; `none` if a step panics or the fuel runs out. -/
def runAlone (c : LruState) : CallPc → Nat → Option LruState
  | .done, _ => some c
  | _, 0 => none
  | pc, fuel + 1 => (c.callStep pc).bind fun r => runAlone r.1 r.2 fuel

/-- Calls run one after another, each alone until it returns within three
steps. -/
def runSerial (c : LruState) : List CallPc → Option LruState
  | [] => some c
  | pc :: pcs => (c.runAlone pc 3).bind fun c => runSerial c pcs

theorem runAlone_succ (c : LruState) {pc : CallPc} (hpc : pc ≠ .done) (fuel : Nat) :
    c.runAlone pc (fuel + 1) = (c.callStep pc).bind fun r => r.1.runAlone r.2 fuel := by
  cases pc <;> first | rfl | exact absurd rfl hpc

/-- One step of a call run alone. -/
theorem runAlone_step {c c' : LruState} {pc pc' : CallPc} (h : c.callStep pc = some (c', pc')) (fuel : Nat) :
    c.runAlone pc (fuel + 1) = c'.runAlone pc' fuel := by
  have hpc : pc ≠ .done := by rintro rfl; cases h
  rw [runAlone_succ c hpc, h]
  rfl

variable {c : LruState} {L : List Nat}

/-- The reaper's removals drop exactly the expired entries. -/
theorem Linked.sweep (h : c.Linked L) {now : Int} {ids : List Int}
    (hexp : ∀ x ∈ L, (c.item x).id ∈ ids ↔ now > (c.item x).entry.ttl) (k : InmemConstants) :
    (c.toAbs k).entries.filter (fun p => !ids.contains p.1) = ((c.toAbs k).cleanup now).entries := by
  rw [h.toAbs_eq]
  refine List.filter_congr fun p hp => ?_
  obtain ⟨x, hx, rfl⟩ := List.mem_map.1 hp
  exact congrArg (!·) (Bool.eq_iff_iff.2 (List.elem_iff.trans ((hexp x hx).trans decide_eq_true_iff.symm)))

/-- Run alone on a linked cache, a call as a client issues it returns within
three steps, leaves the cache linked, and does to the abstract map what the
spec's operation does. -/
theorem Linked.runAlone (h : c.Linked L) {pc : CallPc} (hs : pc.start = true) :
    ∃ c' L', c.runAlone pc 3 = some c' ∧ c'.Linked L' ∧ ∀ k, c'.toAbs k = pc.absCall (c.toAbs k) := by
  cases pc with
  | setOrder id entry =>
    obtain ⟨c', L', hc', h', hab⟩ := h.setOrder id entry
    have h₁ : c.callStep (.setOrder id entry) = some (c', .done) := by rw [LruState.callStep, hc']; rfl
    exact ⟨c', L', runAlone_step h₁ 2, h', hab⟩
  | getOrder id now =>
    cases hl : c.ordersLruMap.lookup id with
    | none =>
      have h₁ : c.callStep (.getOrder id now) = some (c, .done) := by simp only [LruState.callStep, hl]
      refine ⟨c, L, runAlone_step h₁ 2, h, fun k => ?_⟩
      simp only [CallPc.absCall, AbsLru.getOrder, h.toAbs_lookup, hl, Option.map_none']
    | some e =>
      obtain ⟨-, hit, -⟩ := h.mapped hl
      have h₁ : c.callStep (.getOrder id now) = some (c, .getRead id now e) := by simp only [LruState.callStep, hl]
      by_cases hx : now > (c.item e).entry.ttl ∨ now > (c.item e).entry.order.deadlineAt
      · obtain ⟨c', L', hc', h', hab⟩ := h.deleteOrder id
        have h₂ : c.callStep (.getRead id now e) = some (c, .deleteOrder id) := by
          simp only [LruState.callStep, hit, Option.map_some', if_pos hx]
        have h₃ : c.callStep (.deleteOrder id) = some (c', .done) := by rw [LruState.callStep, hc']; rfl
        have hn : ¬ (now ≤ (c.item e).entry.ttl ∧ now ≤ (c.item e).entry.order.deadlineAt) := by omega
        refine ⟨c', L', (runAlone_step h₁ 2).trans ((runAlone_step h₂ 1).trans (runAlone_step h₃ 0)), h', fun k => ?_⟩
        rw [hab k]
        simp only [CallPc.absCall, AbsLru.getOrder, h.toAbs_lookup, hl, Option.map_some', if_neg hn]
        rfl
      · obtain ⟨c', L', hc', h', hab⟩ := h.promote hl
        have h₂ : c.callStep (.getRead id now e) = some (c, .getPromote id e) := by
          simp only [LruState.callStep, hit, Option.map_some', if_neg hx]
        have h₃ : c.callStep (.getPromote id e) = some (c', .done) := by rw [LruState.callStep, hc']; rfl
        have hn : now ≤ (c.item e).entry.ttl ∧ now ≤ (c.item e).entry.order.deadlineAt := by omega
        refine ⟨c', L', (runAlone_step h₁ 2).trans ((runAlone_step h₂ 1).trans (runAlone_step h₃ 0)), h', fun k => ?_⟩
        rw [hab k]
        simp only [CallPc.absCall, AbsLru.getOrder, h.toAbs_lookup, hl, Option.map_some', if_pos hn]
  | deleteOrder id =>
    obtain ⟨c', L', hc', h', hab⟩ := h.deleteOrder id
    have h₁ : c.callStep (.deleteOrder id) = some (c', .done) := by rw [LruState.callStep, hc']; rfl
    exact ⟨c', L', runAlone_step h₁ 2, h', hab⟩
  | clearOrderCache =>
    have h₁ : c.callStep .clearOrderCache = some (c.clearOrderCache, .done) := rfl
    exact ⟨_, [], runAlone_step h₁ 2, h.clearOrderCache.1, h.clearOrderCache.2⟩
  | cleanupScan now =>
    obtain ⟨ids, hids, hexp⟩ := h.expiredIDs now
    cases hemp : ids.isEmpty
    · obtain ⟨c', L', hc', h', hab⟩ := h.removeExpired ids
      have h₁ : c.callStep (.cleanupScan now) = some (c, .cleanupRemove ids) := by
        simp only [LruState.callStep, hids, hemp, Option.map_some', Bool.false_eq_true, if_false]
      have h₂ : c.callStep (.cleanupRemove ids) = some (c', .done) := by rw [LruState.callStep, hc']; rfl
      refine ⟨c', L', (runAlone_step h₁ 2).trans (runAlone_step h₂ 1), h', fun k => ?_⟩
      rw [hab k, h.sweep hexp k]
      rfl
    · have h₁ : c.callStep (.cleanupScan now) = some (c, .done) := by
        simp only [LruState.callStep, hids, hemp, Option.map_some', if_true]
      refine ⟨c, L, runAlone_step h₁ 2, h, fun k => ?_⟩
      have hsw : (c.toAbs k).entries = ((c.toAbs k).cleanup now).entries := by
        rw [← h.sweep hexp k, List.isEmpty_iff.1 hemp]
        exact (List.filter_eq_self.2 fun _ _ => rfl).symm
      exact congrArg (AbsLru.mk · (c.toAbs k).consts) hsw
  | getRead | getPromote | cleanupRemove | done => cases hs

/-- Run one after another on a linked cache, calls as clients issue them
return, leave the cache linked, and do to the abstract map what the spec's
operations do in turn. -/
theorem Linked.runSerial : ∀ {c : LruState} {L : List Nat}, c.Linked L → ∀ {pcs : List CallPc},
    (∀ pc ∈ pcs, pc.start = true) →
    ∃ c' L', c.runSerial pcs = some c' ∧ c'.Linked L' ∧ ∀ k, c'.toAbs k = pcs.foldl (fun a pc => pc.absCall a) (c.toAbs k)
  | c, L, h, [], _ => ⟨c, L, rfl, h, fun _ => rfl⟩
  | _, _, h, pc :: pcs, hs => by
    obtain ⟨c₁, L₁, hc₁, h₁, hab₁⟩ := h.runAlone (hs pc (List.mem_cons_self pc pcs))
    obtain ⟨c', L', hc', h', hab'⟩ := h₁.runSerial fun q hq => hs q (List.mem_cons_of_mem pc hq)
    exact ⟨c', L', by rw [LruState.runSerial, hc₁]; exact hc', h', fun k => by rw [hab' k, hab₁ k]; rfl⟩

/-- From `NewInMemoryCache`, calls run one after another return, keep the
spec's bijection, and leave the cache standing for the abstract map the
spec's operations make from the empty one. -/
theorem runSerial_refines (maxCacheSize : Int) {pcs : List CallPc} (hs : ∀ pc ∈ pcs, pc.start = true) :
    ∃ c, (⟨GoList.new, [], maxCacheSize⟩ : LruState).runSerial pcs = some c ∧ c.Bij ∧
      ∀ k, c.toAbs k = pcs.foldl (fun a pc => pc.absCall a) ⟨[], { k with maxCacheSize }⟩ := by
  obtain ⟨c, L, hc, h, hab⟩ := (linked_init maxCacheSize).runSerial hs
  exact ⟨c, hc, h.bij, fun k => (hab k).trans (by rw [(linked_init maxCacheSize).toAbs_eq]; rfl)⟩

end LruState

namespace LruSys

/-- Call `i` takes its next step while every other call is at its start or
has returned: the calls run one at a time. -/
def SerialStep (s s' : LruSys) : Prop :=
  ∃ i, (∀ (j : Nat) (pc : CallPc), j ≠ i → s.calls[j]? = some pc → pc.start = true ∨ pc = .done) ∧ s.step i = some s'

def SerialSteps : LruSys → LruSys → Prop := Relation.ReflTransGen SerialStep

/-- A serial run is a run. -/
theorem SerialSteps.steps {s s' : LruSys} (h : s.SerialSteps s') : s.Steps s' :=
  Relation.ReflTransGen.mono (fun _ _ ⟨i, _, hi⟩ => ⟨i, hi⟩) h

/-- What holds between any two steps of a serial run. -/
structure SerialInv (s : LruSys) : Prop where
  linked : ∃ L, s.cache.Linked L
  ready : ∀ (j : Nat) (pc : CallPc), s.calls[j]? = some pc → pc.Ready s.cache

theorem serialInv_init (maxCacheSize : Int) {calls : List CallPc} (hs : ∀ pc ∈ calls, pc.start = true) :
    (init maxCacheSize calls).SerialInv :=
  ⟨⟨[], LruState.linked_init maxCacheSize⟩, fun _ pc hj => CallPc.ready_of_start (.inl (hs pc (List.getElem?_mem hj))) _⟩

/-- No call panics: each call that has not returned can take its next step. -/
theorem SerialInv.step_some {s : LruSys} (h : s.SerialInv) {i : Nat} {pc : CallPc} (hi : s.calls[i]? = some pc)
    (hpc : pc ≠ .done) : ∃ s', s.step i = some s' := by
  obtain ⟨L, hL⟩ := h.linked
  obtain ⟨c', pc', hc, -⟩ := hL.callStep (h.ready i pc hi) hpc
  exact ⟨⟨c', s.calls.set i pc'⟩, by simp only [step, hi, hc, Option.map_some']⟩

theorem SerialInv.serialStep {s s' : LruSys} (h : s.SerialInv) (hs : s.SerialStep s') : s'.SerialInv := by
  obtain ⟨i, hother, hi⟩ := hs
  cases hpc : s.calls[i]? with
  | none => simp [step, hpc] at hi
  | some pc =>
    obtain ⟨L, hL⟩ := h.linked
    have hne : pc ≠ .done := by rintro rfl; simp [step, hpc, LruState.callStep] at hi
    obtain ⟨c', pc', hc, hL', hr'⟩ := hL.callStep (h.ready i pc hpc) hne
    simp only [step, hpc, hc, Option.map_some', Option.some.injEq] at hi
    subst hi
    refine ⟨hL', fun j q hj => ?_⟩
    rw [List.getElem?_set] at hj
    split at hj
    · split at hj
      · obtain rfl := Option.some.inj hj; exact hr'
      · cases hj
    · exact CallPc.ready_of_start (hother j q (Ne.symm ‹_›) hj) _

theorem SerialInv.serialSteps {s s' : LruSys} (h : s.SerialInv) (hs : s.SerialSteps s') : s'.SerialInv := by
  induction hs with
  | refl => exact h
  | tail _ hst ih => exact ih.serialStep hst

/-- A step of a system whose every call is at its start or has returned is a
serial one. -/
theorem SerialStep.of_start_or_done {s s' : LruSys} (hs : ∀ pc ∈ s.calls, pc.start = true ∨ pc = .done) {i : Nat}
    (h : s.step i = some s') : s.SerialStep s' :=
  ⟨i, fun _ pc _ hj => hs pc (List.getElem?_mem hj), h⟩

/-- Run one at a time from `NewInMemoryCache`, calls as clients issue them
never panic and keep the spec's bijection between the map and the list. -/
theorem serial_runs_keep_bijection (maxCacheSize : Int) (calls : List CallPc) (hs : ∀ pc ∈ calls, pc.start = true)
    {s : LruSys} (hr : (init maxCacheSize calls).SerialSteps s) :
    s.cache.Bij ∧ ∀ i pc, s.calls[i]? = some pc → pc ≠ .done → ∃ s', s.step i = some s' := by
  have h := (serialInv_init maxCacheSize hs).serialSteps hr
  obtain ⟨L, hL⟩ := h.linked
  exact ⟨hL.bij, fun _ _ hi hpc => h.step_some hi hpc⟩

/-- `SetOrder(1)` runs to its return, then `GetOrder(1)` takes its lookup: the
cache holds the order, and the `GetOrder` in flight can take its next step. -/
theorem serial_runs_keep_bijection_setGet :
    (∀ pc ∈ [CallPc.setOrder 1 ⟨⟨1, 1, .accepted, 5, 100, none, none, hour, 0, none, none⟩, hour⟩, .getOrder 1 0],
        pc.start = true) ∧
      (init 1000 [.setOrder 1 ⟨⟨1, 1, .accepted, 5, 100, none, none, hour, 0, none, none⟩, hour⟩, .getOrder 1 0]).SerialSteps
        ((init 1000 [.setOrder 1 ⟨⟨1, 1, .accepted, 5, 100, none, none, hour, 0, none, none⟩, hour⟩, .getOrder 1 0]).replay
          [0, 1]) ∧
      ((init 1000 [.setOrder 1 ⟨⟨1, 1, .accepted, 5, 100, none, none, hour, 0, none, none⟩, hour⟩, .getOrder 1 0]).replay
          [0, 1]).calls = [.done, .getRead 1 0 1] ∧
      ((init 1000 [.setOrder 1 ⟨⟨1, 1, .accepted, 5, 100, none, none, hour, 0, none, none⟩, hour⟩, .getOrder 1 0]).replay
          [0, 1]).cache.Bij ∧
      ∀ i pc, ((init 1000 [.setOrder 1 ⟨⟨1, 1, .accepted, 5, 100, none, none, hour, 0, none, none⟩, hour⟩,
          .getOrder 1 0]).replay [0, 1]).calls[i]? = some pc → pc ≠ .done →
        ∃ s', ((init 1000 [.setOrder 1 ⟨⟨1, 1, .accepted, 5, 100, none, none, hour, 0, none, none⟩, hour⟩,
          .getOrder 1 0]).replay [0, 1]).step i = some s' :=
  have hs : ∀ pc ∈ [CallPc.setOrder 1 ⟨⟨1, 1, .accepted, 5, 100, none, none, hour, 0, none, none⟩, hour⟩, .getOrder 1 0],
      pc.start = true := by decide
  have h0 : (init 1000 [.setOrder 1 ⟨⟨1, 1, .accepted, 5, 100, none, none, hour, 0, none, none⟩, hour⟩, .getOrder 1 0]).step 0 = some ((init 1000 [.setOrder 1 ⟨⟨1, 1, .accepted, 5, 100, none, none, hour, 0, none, none⟩, hour⟩, .getOrder 1 0]).replay [0]) := rfl
  have h1 : ((init 1000 [.setOrder 1 ⟨⟨1, 1, .accepted, 5, 100, none, none, hour, 0, none, none⟩, hour⟩, .getOrder 1 0]).replay [0]).step 1 = some ((init 1000 [.setOrder 1 ⟨⟨1, 1, .accepted, 5, 100, none, none, hour, 0, none, none⟩, hour⟩, .getOrder 1 0]).replay [0, 1]) := rfl
  have hc1 : ((init 1000 [.setOrder 1 ⟨⟨1, 1, .accepted, 5, 100, none, none, hour, 0, none, none⟩, hour⟩, .getOrder 1 0]).replay [0]).calls = [.done, .getOrder 1 0] := rfl
  have hr := Relation.ReflTransGen.tail (.single (SerialStep.of_start_or_done (fun pc hpc => .inl (hs pc hpc)) h0))
    (SerialStep.of_start_or_done (fun pc hpc => by
      rw [hc1] at hpc
      rcases List.mem_pair.1 hpc with rfl | rfl
      exacts [.inr rfl, .inl rfl]) h1)
  ⟨hs, hr, rfl, serial_runs_keep_bijection 1000 _ hs hr⟩

/-- Run alone to its return, a call makes a serial run while every other call
is at its start or has returned. -/
theorem serialSteps_runAlone {calls : List CallPc} {i : Nat} (hi : i < calls.length)
    (hs : ∀ pc ∈ calls, pc.start = true ∨ pc = .done) :
    ∀ (fuel : Nat) {c c' : LruState} {pc : CallPc}, c.runAlone pc fuel = some c' →
      SerialSteps ⟨c, calls.set i pc⟩ ⟨c', calls.set i .done⟩ := by
  intro fuel
  induction fuel with
  | zero =>
    intro c c' pc h
    cases pc <;> first | exact Option.noConfusion h | (obtain rfl := Option.some.inj h; exact .refl)
  | succ fuel ih =>
    intro c c' pc h
    by_cases hpc : pc = .done
    · subst hpc
      obtain rfl := Option.some.inj h
      exact .refl
    rw [LruState.runAlone_succ c hpc] at h
    obtain ⟨⟨c₁, pc₁⟩, h₁, h₂⟩ := Option.bind_eq_some.1 h
    have hstep : (⟨c, calls.set i pc⟩ : LruSys).step i = some ⟨c₁, calls.set i pc₁⟩ := by
      simp only [step, List.getElem?_set_self hi, h₁, Option.map_some', List.set_set]
    have hother : ∀ (j : Nat) (q : CallPc), j ≠ i → (calls.set i pc)[j]? = some q → q.start = true ∨ q = .done :=
      fun j q hj hq => hs q (List.getElem?_mem (by rwa [List.getElem?_set_ne (Ne.symm hj)] at hq))
    exact .head ⟨i, hother, hstep⟩ (ih h₂)

/-- Each run to its return before the next starts, calls after `n` returned
ones make a serial run that ends with all returned and the cache `runSerial`
computes. -/
theorem serialSteps_runSerial : ∀ {calls : List CallPc} (n : Nat) {c c' : LruState},
    (∀ pc ∈ calls, pc.start = true) → c.runSerial calls = some c' →
      SerialSteps ⟨c, List.replicate n .done ++ calls⟩ ⟨c', List.replicate (n + calls.length) .done⟩
  | [], n, c, c', _, h => by
    obtain rfl := Option.some.inj h
    rw [List.append_nil, List.length_nil, Nat.add_zero]
    exact .refl
  | pc :: calls, n, c, c', hs, h => by
    obtain ⟨c₁, h₁, h₂⟩ := Option.bind_eq_some.1 h
    have hlen : n < (List.replicate n CallPc.done ++ .done :: calls).length := by simp
    have hall : ∀ q ∈ List.replicate n CallPc.done ++ .done :: calls, q.start = true ∨ q = .done := fun q hq => by
      rcases List.mem_append.1 hq with hq | hq
      · exact .inr (List.eq_of_mem_replicate hq)
      · rcases List.mem_cons.1 hq with rfl | hq
        · exact .inr rfl
        · exact .inl (hs q (List.mem_cons_of_mem pc hq))
    have hset : ∀ q : CallPc, (List.replicate n CallPc.done ++ .done :: calls).set n q =
        List.replicate n .done ++ q :: calls := fun q => by
      rw [List.set_append_right _ _ (List.length_replicate n _).le, List.length_replicate, Nat.sub_self]
      rfl
    have hsucc : List.replicate n CallPc.done ++ .done :: calls = List.replicate (n + 1) .done ++ calls := by
      rw [List.replicate_succ', List.append_assoc]
      rfl
    have hrun := serialSteps_runAlone hlen hall 3 h₁
    rw [hset, hset, hsucc] at hrun
    have hrest := serialSteps_runSerial (n + 1) (fun q hq => hs q (List.mem_cons_of_mem pc hq)) h₂
    rw [show n + 1 + calls.length = n + (pc :: calls).length by rw [List.length_cons]; omega] at hrest
    exact hrun.trans hrest

/-- Scheduled one call at a time in the order issued, the system from
`NewInMemoryCache` returns every call, keeps the spec's bijection, and ends
standing for the abstract map the spec's operations make in that order. -/
theorem serial_schedule_refines (maxCacheSize : Int) {calls : List CallPc} (hs : ∀ pc ∈ calls, pc.start = true) :
    ∃ c, (init maxCacheSize calls).SerialSteps ⟨c, List.replicate calls.length .done⟩ ∧ c.Bij ∧
      ∀ k, c.toAbs k = calls.foldl (fun a pc => pc.absCall a) ⟨[], { k with maxCacheSize }⟩ := by
  obtain ⟨c, hc, hb, hab⟩ := LruState.runSerial_refines maxCacheSize hs
  have hrun := serialSteps_runSerial 0 hs hc
  rw [Nat.zero_add] at hrun
  exact ⟨c, hrun, hb, hab⟩

/-- `SetOrder(1)` and then `GetOrder(1)`, one at a time. -/
theorem serial_schedule_refines_setGet :
    (∀ pc ∈ [CallPc.setOrder 1 ⟨⟨1, 1, .accepted, 5, 100, none, none, hour, 0, none, none⟩, hour⟩, .getOrder 1 0],
        pc.start = true) ∧
      ∃ c, (init 1000 [.setOrder 1 ⟨⟨1, 1, .accepted, 5, 100, none, none, hour, 0, none, none⟩, hour⟩,
          .getOrder 1 0]).SerialSteps ⟨c, List.replicate 2 .done⟩ ∧ c.Bij ∧
        ∀ k, c.toAbs k = [CallPc.setOrder 1 ⟨⟨1, 1, .accepted, 5, 100, none, none, hour, 0, none, none⟩, hour⟩,
          .getOrder 1 0].foldl (fun a pc => pc.absCall a) ⟨[], { k with maxCacheSize := 1000 }⟩ :=
  have hs : ∀ pc ∈ [CallPc.setOrder 1 ⟨⟨1, 1, .accepted, 5, 100, none, none, hour, 0, none, none⟩, hour⟩, .getOrder 1 0],
      pc.start = true := by decide
  ⟨hs, serial_schedule_refines 1000 hs⟩

end LruSys


end Pvz.Cache
