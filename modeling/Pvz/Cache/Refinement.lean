import Pvz.Cache.Ttl

/-!
# The in-process cache refines the abstract LRU map

`InMemoryCache.toAbs` reads the abstract map off the cache's list. A cache is
`Coherent` when its map and its list describe the same elements: the map
sends an id to an element exactly when that element is in the list and
carries the id, and no two listed elements carry one id. `NewInMemoryCache`
is coherent, and each call keeps it so.

On a coherent cache each call answers as the abstract map's and leaves the
cache standing for the abstract map's new state (`Coherent.setOrder`,
`Coherent.getOrder`, `Coherent.deleteOrder`), with two exceptions, both in
the source: a `SetOrder` whose sum `deadline - now + additionalDuration`
passes `maxDuration`, where the TTL wraps (`far_deadline_breaks_refinement`),
and a `DeleteOrder` of an absent id, which the cache reports as
`ErrOrderNotFoundInCache` and the spec's idempotent removal does not. Over
any sequence of calls that avoids both, the cache answers every call as the
abstract map does (`InMemoryCache.Coherent.run`).

The reaper (`cleanupExpiredOrders`) is not part of the abstract map.
-/

namespace Pvz.Cache

/-! ## Association lists keyed by a function of a list -/

section Keyed

variable {key : Nat → Int} {val : Nat → OrderEntry}

theorem lookup_map_of_mem {l : List Nat} (hl : (l.map key).Nodup) {e : Nat} (he : e ∈ l) :
    (l.map fun x => (key x, val x)).lookup (key e) = some (val e) := by
  induction l with
  | nil => exact absurd he (List.not_mem_nil e)
  | cons x l ih =>
    rw [List.map_cons, List.nodup_cons] at hl
    rcases List.mem_cons.1 he with rfl | he
    · exact List.lookup_cons_self
    · have hne : key e ≠ key x := fun h => hl.1 (h ▸ List.mem_map_of_mem key he)
      rw [List.map_cons, List.lookup_cons, (beq_eq_false_iff_ne).2 hne]
      exact ih hl.2 he

theorem lookup_map_of_forall_ne {l : List Nat} {id : Int} (h : ∀ x ∈ l, key x ≠ id) :
    (l.map fun x => (key x, val x)).lookup id = none := by
  induction l with
  | nil => rfl
  | cons x l ih =>
    rw [List.map_cons, List.lookup_cons, (beq_eq_false_iff_ne).2 (h x (List.mem_cons_self _ _)).symm]
    exact ih fun y hy => h y (List.mem_cons_of_mem _ hy)

theorem map_erase_eq_filter {l : List Nat} (hl : (l.map key).Nodup) {e : Nat} (he : e ∈ l) :
    (l.erase e).map (fun x => (key x, val x)) = (l.map fun x => (key x, val x)).filter (·.1 != key e) := by
  induction l with
  | nil => exact absurd he (List.not_mem_nil e)
  | cons x l ih =>
    rw [List.map_cons, List.nodup_cons] at hl
    rcases List.mem_cons.1 he with rfl | he
    · rw [List.erase_cons_head, List.map_cons, List.filter_cons_of_neg (by simp), List.filter_eq_self.2]
      simp only [List.mem_map, bne_iff_ne, ne_eq, forall_exists_index, and_imp]
      rintro _ y hy rfl h
      exact hl.1 (h ▸ List.mem_map_of_mem key hy)
    · have hne : key x ≠ key e := fun h => hl.1 (h ▸ List.mem_map_of_mem key he)
      have hxe : x ≠ e := fun h => hne (h ▸ rfl)
      rw [List.erase_cons_tail (by simpa using hxe), List.map_cons, List.map_cons,
        List.filter_cons_of_pos (by simpa using hne), ih hl.2 he]

theorem erase_eq_dropLast {l : List Nat} (hn : l.Nodup) {e : Nat} (hb : l.getLast? = some e) :
    l.erase e = l.dropLast := by
  obtain ⟨ys, rfl⟩ := List.getLast?_eq_some_iff.1 hb
  have he : e ∉ ys := fun he => (List.nodup_append.1 hn).2.2 he (List.mem_singleton_self e)
  rw [List.erase_append_right _ he, List.erase_cons_head, List.append_nil, List.dropLast_concat]

end Keyed

/-! ## Go maps -/

theorem lookup_mapErase (m : List (Int × Nat)) (id k : Int) :
    (mapErase m id).lookup k = if k = id then none else m.lookup k := by
  induction m with
  | nil => split <;> rfl
  | cons p m ih =>
    obtain ⟨a, b⟩ := p
    by_cases ha : a = id
    · rw [mapErase, List.filter_cons_of_neg (by simpa using ha), ← mapErase, ih]
      split
      · rfl
      · rename_i hk
        rw [List.lookup_cons, (beq_eq_false_iff_ne).2 (fun h => hk (h.trans ha))]
    · rw [mapErase, List.filter_cons_of_pos (by simpa using ha), ← mapErase, List.lookup_cons, List.lookup_cons, ih]
      by_cases hk : k = a
      · subst hk; simp only [beq_self_eq_true, if_neg ha]
      · rw [(beq_eq_false_iff_ne).2 hk]

theorem lookup_mapInsert (m : List (Int × Nat)) (id : Int) (e : Nat) (k : Int) :
    (mapInsert m id e).lookup k = if k = id then some e else m.lookup k := by
  rw [mapInsert, List.lookup_cons]
  by_cases hk : k = id
  · rw [if_pos hk, hk, beq_self_eq_true]
  · rw [if_neg hk, (beq_eq_false_iff_ne).2 hk, lookup_mapErase, if_neg hk]

/-! ## Coherent caches -/

namespace InMemoryCache

/-- The map and the list describe the same elements: every element in the
list was pushed, no two of them carry one id, and the map sends an id to an
element exactly when that element is in the list and carries it. -/
structure Coherent (c : InMemoryCache) : Prop where
  lt : ∀ e ∈ c.lruList, e < c.elems.length
  ids_nodup : (c.lruList.map fun e => (c.item e).id).Nodup
  lookup : ∀ id e, c.ordersLruMap.lookup id = some e ↔ e ∈ c.lruList ∧ (c.item e).id = id

theorem coherent_empty (k : InmemConstants) : (empty k).Coherent :=
  ⟨nofun, List.nodup_nil, fun _ _ => ⟨nofun, fun h => absurd h.1 (List.not_mem_nil _)⟩⟩

variable {c : InMemoryCache}

theorem Coherent.nodup (h : c.Coherent) : c.lruList.Nodup := h.ids_nodup.of_map _

theorem Coherent.lookup_eq_none (h : c.Coherent) {id : Int} :
    c.ordersLruMap.lookup id = none ↔ ∀ e ∈ c.lruList, (c.item e).id ≠ id := by
  constructor
  · intro hn e he hid
    rw [(h.lookup id e).2 ⟨he, hid⟩] at hn
    cases hn
  · intro hne
    cases hl : c.ordersLruMap.lookup id with
    | none => rfl
    | some e => exact absurd ((h.lookup id e).1 hl).2 (hne e ((h.lookup id e).1 hl).1)

/-- The abstract map's lookup reads the element the cache's map points to. -/
theorem Coherent.toAbs_lookup (h : c.Coherent) (id : Int) :
    c.toAbs.entries.lookup id = (c.ordersLruMap.lookup id).map fun e => (c.item e).entry := by
  cases hl : c.ordersLruMap.lookup id with
  | none => exact lookup_map_of_forall_ne (h.lookup_eq_none.1 hl)
  | some e =>
    obtain ⟨he, rfl⟩ := (h.lookup id e).1 hl
    exact lookup_map_of_mem h.ids_nodup he

/-- Removing a mapped element removes its entry from the abstract map. -/
theorem Coherent.unlink (h : c.Coherent) {id : Int} {e : Nat} (hl : c.ordersLruMap.lookup id = some e) :
    (c.unlink id e).Coherent ∧
      (c.unlink id e).toAbs = { c.toAbs with entries := c.toAbs.entries.filter (·.1 != id) } := by
  obtain ⟨he, hid⟩ := (h.lookup id e).1 hl
  have hsub := List.erase_sublist e c.lruList
  refine ⟨⟨fun x hx => h.lt x (hsub.subset hx), h.ids_nodup.sublist (hsub.map _), fun k x => ?_⟩, ?_⟩
  · show (mapErase c.ordersLruMap id).lookup k = some x ↔ x ∈ c.lruList.erase e ∧ (c.item x).id = k
    rw [lookup_mapErase, h.nodup.mem_erase_iff]
    split
    · rename_i hk
      exact ⟨nofun, fun ⟨⟨hxe, hx⟩, hxk⟩ =>
        absurd (List.inj_on_of_nodup_map h.ids_nodup hx he (hxk.trans (hk.trans hid.symm))) hxe⟩
    · rename_i hk
      rw [h.lookup k x]
      exact ⟨fun ⟨hx, hxk⟩ => ⟨⟨fun hxe => hk (by rw [← hxk, hxe, hid]), hx⟩, hxk⟩, fun ⟨⟨_, hx⟩, hxk⟩ => ⟨hx, hxk⟩⟩
  · show AbsLru.mk _ _ = AbsLru.mk _ _
    rw [← hid]
    exact congrArg (AbsLru.mk · c.consts) (map_erase_eq_filter h.ids_nodup he)

/-- Moving a mapped element to the front, its item rewritten to one with the
same id, moves its entry to the front of the abstract map. -/
theorem Coherent.promote (h : c.Coherent) {id : Int} {e : Nat} (hl : c.ordersLruMap.lookup id = some e)
    {elems : List LruItem} (hlen : elems.length = c.elems.length)
    (hsame : ∀ x, x ≠ e → elems.getD x default = c.item x) (hid : (elems.getD e default).id = id) :
    ({ c with elems, lruList := moveToFront e c.lruList } : InMemoryCache).Coherent ∧
      ({ c with elems, lruList := moveToFront e c.lruList } : InMemoryCache).toAbs =
        { c.toAbs with entries := (id, (elems.getD e default).entry) :: c.toAbs.entries.filter (·.1 != id) } := by
  obtain ⟨he, hide⟩ := (h.lookup id e).1 hl
  have hperm : List.Perm c.lruList (e :: c.lruList.erase e) := List.perm_cons_erase he
  have hids : ∀ x, (elems.getD x default).id = (c.item x).id := fun x => by
    by_cases hx : x = e
    · rw [hx, hid, hide]
    · rw [hsame x hx]
  have hrest : (c.lruList.erase e).map (fun x => ((elems.getD x default).id, (elems.getD x default).entry)) =
      (c.lruList.erase e).map fun x => ((c.item x).id, (c.item x).entry) :=
    List.map_congr_left fun x hx => by rw [hsame x (h.nodup.mem_erase_iff.1 hx).1]
  simp only [moveToFront, if_pos he]
  refine ⟨⟨fun x hx => hlen ▸ h.lt x (hperm.mem_iff.2 hx), ?_, fun k x => ?_⟩, ?_⟩
  · show ((e :: c.lruList.erase e).map fun x => (elems.getD x default).id).Nodup
    rw [List.map_congr_left fun x _ => hids x]
    exact (hperm.map _).nodup_iff.1 h.ids_nodup
  · show c.ordersLruMap.lookup k = some x ↔ x ∈ e :: c.lruList.erase e ∧ (elems.getD x default).id = k
    rw [h.lookup k x, hids x, ← hperm.mem_iff]
  · show AbsLru.mk ((e :: c.lruList.erase e).map fun x => ((elems.getD x default).id, (elems.getD x default).entry))
      c.consts = AbsLru.mk ((id, (elems.getD e default).entry) ::
        (c.lruList.map fun x => ((c.item x).id, (c.item x).entry)).filter (·.1 != id)) c.consts
    rw [List.map_cons, hrest, hid, ← hide, ← map_erase_eq_filter h.ids_nodup he]

/-- Evicting the back element drops the abstract map's last entry, and leaves
the pushed elements and every unmapped id as they were. -/
theorem Coherent.evictBack (h : c.Coherent) :
    c.evictBack.Coherent ∧ c.evictBack.toAbs = { c.toAbs with entries := c.toAbs.entries.dropLast } ∧
      c.evictBack.elems = c.elems ∧ ∀ k, c.ordersLruMap.lookup k = none → c.evictBack.ordersLruMap.lookup k = none := by
  unfold InMemoryCache.evictBack
  cases hb : c.lruList.getLast? with
  | none =>
    have hnil : c.lruList = [] := List.getLast?_eq_none_iff.1 hb
    refine ⟨h, ?_, rfl, fun _ hk => hk⟩
    show AbsLru.mk _ _ = AbsLru.mk _ _
    simp only [toAbs, hnil, List.map_nil, List.dropLast_nil]
  | some e =>
    have hl := (h.lookup (c.item e).id e).2 ⟨List.mem_of_getLast?_eq_some hb, rfl⟩
    refine ⟨(h.unlink hl).1, ?_, rfl, fun k hk => ?_⟩
    · show AbsLru.mk ((c.lruList.erase e).map _) c.consts = AbsLru.mk _ _
      rw [erase_eq_dropLast h.nodup hb, List.map_dropLast]
      rfl
    · show (mapErase c.ordersLruMap _).lookup k = none
      rw [lookup_mapErase, hk]
      split <;> rfl

/-- Pushing an item whose id is unmapped puts its entry at the front of the
abstract map. -/
theorem Coherent.push (h : c.Coherent) (it : LruItem) (hl : c.ordersLruMap.lookup it.id = none) :
    ({ c with
        elems := c.elems ++ [it]
        lruList := c.elems.length :: c.lruList
        ordersLruMap := mapInsert c.ordersLruMap it.id c.elems.length } : InMemoryCache).Coherent ∧
      ({ c with
        elems := c.elems ++ [it]
        lruList := c.elems.length :: c.lruList
        ordersLruMap := mapInsert c.ordersLruMap it.id c.elems.length } : InMemoryCache).toAbs =
        { c.toAbs with entries := (it.id, it.entry) :: c.toAbs.entries } := by
  have hold : ∀ x ∈ c.lruList, (c.elems ++ [it]).getD x default = c.item x := fun x hx => by
    rw [List.getD_eq_getElem?_getD, List.getElem?_append_left (h.lt x hx), ← List.getD_eq_getElem?_getD]; rfl
  have hnew : (c.elems ++ [it]).getD c.elems.length default = it := by
    rw [List.getD_eq_getElem?_getD, List.getElem?_concat_length]; rfl
  have hfresh := h.lookup_eq_none.1 hl
  refine ⟨⟨fun x hx => ?_, ?_, fun k x => ?_⟩, ?_⟩
  · rw [List.length_append, List.length_singleton]
    rcases List.mem_cons.1 hx with rfl | hx
    · exact Nat.lt_succ_self _
    · exact Nat.lt_succ_of_lt (h.lt x hx)
  · show ((c.elems.length :: c.lruList).map fun x => ((c.elems ++ [it]).getD x default).id).Nodup
    rw [List.map_cons, hnew, List.map_congr_left fun x hx => by rw [hold x hx], List.nodup_cons]
    exact ⟨fun hm => by obtain ⟨x, hx, hxid⟩ := List.mem_map.1 hm; exact hfresh x hx hxid, h.ids_nodup⟩
  · show (mapInsert c.ordersLruMap it.id c.elems.length).lookup k = some x ↔
      x ∈ c.elems.length :: c.lruList ∧ ((c.elems ++ [it]).getD x default).id = k
    rw [lookup_mapInsert, List.mem_cons]
    split
    · rename_i hk
      subst hk
      refine ⟨fun hx => ⟨.inl (Option.some.inj hx).symm, by rw [← Option.some.inj hx, hnew]⟩, ?_⟩
      rintro ⟨rfl | hx, hxk⟩
      · rfl
      · exact absurd (by rw [← hold x hx]; exact hxk) (hfresh x hx)
    · rename_i hk
      rw [h.lookup k x]
      constructor
      · rintro ⟨hx, rfl⟩; exact ⟨.inr hx, by rw [hold x hx]⟩
      · rintro ⟨rfl | hx, hxk⟩
        · exact absurd (by rw [← hxk, hnew]) hk
        · exact ⟨hx, by rw [← hold x hx]; exact hxk⟩
  · show AbsLru.mk ((c.elems.length :: c.lruList).map fun x => (((c.elems ++ [it]).getD x default).id,
      ((c.elems ++ [it]).getD x default).entry)) c.consts = AbsLru.mk _ _
    rw [List.map_cons, hnew, List.map_congr_left fun x hx => by rw [hold x hx]]
    rfl

/-- Without a wrapped TTL, `SetOrder` does what the abstract map's does. -/
theorem Coherent.setOrder (h : c.Coherent) {now : Int} {o : Order} (ha : 0 ≤ c.consts.additionalDuration)
    (hno : o.deadlineAt - now + c.consts.additionalDuration ≤ maxDuration) :
    (c.setOrder now o).1 = (c.toAbs.setOrder now o).1 ∧ (c.setOrder now o).2.Coherent ∧
      (c.setOrder now o).2.toAbs = (c.toAbs.setOrder now o).2 := by
  by_cases hd : now > o.deadlineAt
  · simp only [InMemoryCache.setOrder, AbsLru.setOrder, if_pos hd, true_and, and_true]
    exact h
  have hexp : now + orderTTL now o.deadlineAt c.consts.additionalDuration c.consts.inmemDefaultOrderTTL =
      c.toAbs.expiry now o := by rw [orderTTL_of_le (le_of_not_lt hd) ha hno]; rfl
  simp only [InMemoryCache.setOrder, AbsLru.setOrder, if_neg hd, h.toAbs_lookup, hexp]
  cases hl : c.ordersLruMap.lookup o.id with
  | some e => 
    simp only [Option.map_some', Option.isSome_some, if_true, true_and]
    have hlt : e < c.elems.length := h.lt e ((h.lookup _ e).1 hl).1
    have hget : (c.elems.modify (fun it => { it with entry := ⟨o, c.toAbs.expiry now o⟩ }) e).getD e default =
        { c.item e with entry := ⟨o, c.toAbs.expiry now o⟩ } := by
      rw [List.getD_eq_getElem?_getD, List.getElem?_modify_eq, item, List.getD_eq_getElem?_getD,
        List.getElem?_eq_getElem hlt]
      rfl
    obtain ⟨h₁, h₂⟩ := h.promote hl
      (List.length_modify (fun it : LruItem => { it with entry := ⟨o, c.toAbs.expiry now o⟩ }) e c.elems)
      (fun x hx => by rw [List.getD_eq_getElem?_getD, List.getElem?_modify_ne _ _ (Ne.symm hx),
        ← List.getD_eq_getElem?_getD]; rfl)
      (by rw [hget]; exact ((h.lookup _ e).1 hl).2)
    exact ⟨h₁, h₂.trans (by rw [hget])⟩
  | none =>
    have hlen : c.toAbs.entries.length = c.lruList.length := List.length_map _ _
    simp only [Option.map_none', Option.isSome_none, Bool.false_eq_true, if_false, true_and, hlen,
      show c.toAbs.consts = c.consts from rfl]
    by_cases hfull : c.consts.maxCacheSize ≤ c.lruList.length
    · simp only [if_pos hfull]
      obtain ⟨h₁, h₂, -, h₄⟩ := h.evictBack
      obtain ⟨p₁, p₂⟩ := h₁.push ⟨o.id, ⟨o, c.toAbs.expiry now o⟩⟩ (h₄ _ hl)
      exact ⟨p₁, p₂.trans (by rw [h₂]; rfl)⟩
    · simp only [if_neg hfull]
      exact h.push ⟨o.id, ⟨o, c.toAbs.expiry now o⟩⟩ hl

/-- `GetOrder` does what the abstract map's does. -/
theorem Coherent.getOrder (h : c.Coherent) (now id : Int) :
    (c.getOrder now id).1 = (c.toAbs.getOrder now id).1 ∧ (c.getOrder now id).2.Coherent ∧
      (c.getOrder now id).2.toAbs = (c.toAbs.getOrder now id).2 := by
  unfold InMemoryCache.getOrder AbsLru.getOrder
  rw [h.toAbs_lookup]
  cases hl : c.ordersLruMap.lookup id with
  | none => exact ⟨rfl, h, rfl⟩
  | some e =>
    simp only [Option.map_some']
    by_cases hx : now > (c.item e).entry.ttl ∨ now > (c.item e).entry.order.deadlineAt
    · have hn : ¬ (now ≤ (c.item e).entry.ttl ∧ now ≤ (c.item e).entry.order.deadlineAt) := by omega
      simp only [if_pos hx, if_neg hn, InMemoryCache.deleteOrder, hl, true_and]
      exact h.unlink hl
    · have hn : now ≤ (c.item e).entry.ttl ∧ now ≤ (c.item e).entry.order.deadlineAt := by omega
      simp only [if_neg hx, if_pos hn, hl, Option.isSome_some, if_true, true_and]
      exact h.promote hl rfl (fun _ _ => rfl) ((h.lookup id e).1 hl).2

/-- `DeleteOrder` keeps the abstract map's state, and answers as it does for
a present id. -/
theorem Coherent.deleteOrder (h : c.Coherent) (id : Int) :
    ((c.toAbs.entries.lookup id).isSome → (c.deleteOrder id).1 = (c.toAbs.deleteOrder id).1) ∧
      (c.deleteOrder id).2.Coherent ∧ (c.deleteOrder id).2.toAbs = (c.toAbs.deleteOrder id).2 := by
  unfold InMemoryCache.deleteOrder AbsLru.deleteOrder
  cases hl : c.ordersLruMap.lookup id with
  | none =>
    refine ⟨?_, h, ?_⟩
    · rw [h.toAbs_lookup, hl]
      exact nofun
    show c.toAbs = { c.toAbs with entries := c.toAbs.entries.filter (·.1 != id) }
    rw [List.filter_eq_self.2]
    simp only [toAbs, List.mem_map, bne_iff_ne, ne_eq, forall_exists_index, and_imp]
    rintro _ x hx rfl
    exact h.lookup_eq_none.1 hl x hx
  | some e => exact ⟨fun _ => rfl, h.unlink hl⟩

theorem coherent_clearOrderCache (c : InMemoryCache) :
    c.clearOrderCache.1 = c.toAbs.clearOrderCache.1 ∧ c.clearOrderCache.2.Coherent ∧
      c.clearOrderCache.2.toAbs = c.toAbs.clearOrderCache.2 :=
  ⟨rfl, ⟨nofun, List.nodup_nil, fun _ _ => ⟨nofun, fun h => absurd h.1 (List.not_mem_nil _)⟩⟩, rfl⟩

end InMemoryCache

/-! ## Whole runs -/

namespace AbsLru

/-- One call on the abstract map. -/
def call (a : AbsLru) : CacheCall → Outcome × AbsLru
  | .setOrder now o => let r := a.setOrder now o; (writeOutcome r.1, r.2)
  | .getOrder now id => let r := a.getOrder now id; (readOutcome r.1, r.2)
  | .deleteOrder _ id => let r := a.deleteOrder id; (writeOutcome r.1, r.2)
  | .clearOrderCache _ => let r := a.clearOrderCache; (writeOutcome r.1, r.2)

/-- The outcomes of a sequence of calls on the abstract map. -/
def run (a : AbsLru) : List CacheCall → List Outcome
  | [] => []
  | k :: ks => let r := a.call k; r.1 :: r.2.run ks

/-- A call the cache is to answer as the abstract map does: a `SetOrder` whose
TTL sum stays within `maxDuration`, a `DeleteOrder` of a present id, any other
call. -/
def allows (a : AbsLru) : CacheCall → Bool
  | .setOrder now o => decide (o.deadlineAt - now + a.consts.additionalDuration ≤ maxDuration)
  | .deleteOrder _ id => (a.entries.lookup id).isSome
  | .getOrder _ _ | .clearOrderCache _ => true

/-- Every call of the sequence is allowed in the state it meets. -/
def admits (a : AbsLru) : List CacheCall → Bool
  | [] => true
  | k :: ks => a.allows k && (a.call k).2.admits ks

theorem setOrder_consts (a : AbsLru) (now : Int) (o : Order) : (a.setOrder now o).2.consts = a.consts := by
  unfold setOrder; split <;> rfl

theorem getOrder_consts (a : AbsLru) (now id : Int) : (a.getOrder now id).2.consts = a.consts := by
  unfold getOrder; split
  · rfl
  · split <;> rfl

theorem call_consts (a : AbsLru) (k : CacheCall) : (a.call k).2.consts = a.consts := by
  cases k with
  | setOrder now o => exact a.setOrder_consts now o
  | getOrder now id => exact a.getOrder_consts now id
  | deleteOrder _ _ | clearOrderCache _ => rfl

end AbsLru

namespace InMemoryCache

variable {c : InMemoryCache}

/-- An allowed call on a coherent cache answers as the abstract map does and
leaves a coherent cache that stands for the abstract map's new state. -/
theorem Coherent.call (h : c.Coherent) (ha : 0 ≤ c.consts.additionalDuration) {k : CacheCall}
    (hk : c.toAbs.allows k = true) :
    ∃ c', (OrderCache.inMemory c).call k = ((c.toAbs.call k).1, .inMemory c') ∧ c'.Coherent ∧
      c'.toAbs = (c.toAbs.call k).2 := by
  cases k with
  | setOrder now o =>
    obtain ⟨h₁, h₂, h₃⟩ := h.setOrder ha (of_decide_eq_true hk)
    exact ⟨_, by simp only [OrderCache.call, OrderCache.setOrder, AbsLru.call, h₁], h₂, h₃⟩
  | getOrder now id =>
    obtain ⟨h₁, h₂, h₃⟩ := h.getOrder now id
    exact ⟨_, by simp only [OrderCache.call, OrderCache.getOrder, AbsLru.call, h₁], h₂, h₃⟩
  | deleteOrder now id =>
    obtain ⟨h₁, h₂, h₃⟩ := h.deleteOrder id
    exact ⟨_, by simp only [OrderCache.call, OrderCache.deleteOrder, AbsLru.call, h₁ hk], h₂, h₃⟩
  | clearOrderCache now =>
    obtain ⟨h₁, h₂, h₃⟩ := coherent_clearOrderCache c
    exact ⟨_, by simp only [OrderCache.call, OrderCache.clearOrderCache, AbsLru.call, h₁], h₂, h₃⟩

/-- Over any sequence of calls the abstract map allows, a coherent cache
answers every call as the abstract map does. -/
theorem Coherent.run (h : c.Coherent) (ha : 0 ≤ c.consts.additionalDuration) {ks : List CacheCall}
    (hks : c.toAbs.admits ks = true) : (OrderCache.inMemory c).run ks = c.toAbs.run ks := by
  induction ks generalizing c with
  | nil => rfl
  | cons k ks ih =>
    rw [AbsLru.admits, Bool.and_eq_true] at hks
    obtain ⟨c', hc, h', ht⟩ := h.call ha hks.1
    have hconsts : c'.consts = c.consts := (congrArg AbsLru.consts ht).trans (AbsLru.call_consts _ _)
    rw [OrderCache.run, AbsLru.run, hc, ← ht]
    exact congrArg _ (ih h' (hconsts ▸ ha) (ht ▸ hks.2))

/-- A new cache stores an order, returns it, deletes it and then misses it. -/
example : (OrderCache.inMemory (.empty configConsts)).run
    [.setOrder 0 ⟨1, 1, .accepted, 5, 100, none, none, hour, 0, none, none⟩, .getOrder 1 1, .deleteOrder 2 1,
      .getOrder 3 1] =
    [.success, .hit ⟨1, 1, .accepted, 5, 100, none, none, hour, 0, none, none⟩, .success, .miss] := by decide

end InMemoryCache

end Pvz.Cache
