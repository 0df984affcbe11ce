import Pvz.Cache.Refinement
import Mathlib.Data.String.Basic
import Mathlib.Data.Nat.Digits

/-!
# What a cache can still answer

`GetOrder(id)` answers an order only from an entry under `id` that is past
neither its TTL nor its order's deadline: the in-process cache checks both
(`src/unnamed/part_010:245-289`), and Redis lets the key expire and checks the
deadline (`src/unnamed/part_009:52-86`). `OrderCache.Live now id o` says the
cache holds such an entry for `o`. For the in-process cache it reads the
abstract map of `Pvz.Cache.Refinement`, whose coherence (`OrderCache.Sound`)
every call keeps.

One lemma per call says which entries can be live after it, at the call's
clock reading or any later one:

* `GetOrder` and the reaper only remove entries or move them to the front;
* `SetOrder` of an order not yet due puts that order under its id and drops
  every other entry under that id; of an order already due it changes nothing;
* `DeleteOrder` drops the id's entry;
* `ClearOrderCache` leaves nothing live.

A later clock reading makes no entry live again (`OrderCache.live_mono`).

Redis keys are `fmt.Sprintf("%s%d", orderKeyPrefix, id)`. Distinct ids give
distinct keys (`RedisCache.orderKey_injective`). `ClearOrderCache` deletes
the keys `KEYS orderKeyPrefix*` lists, which are all the order keys when the
prefix holds no pattern byte (`RedisCache.orderKey_matches`); the prefix is
configuration, and a sound Redis cache has such a prefix and no key twice.
-/

namespace Pvz.Cache

/-! ## Order keys -/

/-- The value of decimal digit characters. -/
def charsValue (cs : List Char) : Nat := cs.foldl (fun a c => a * 10 + (c.toNat - 48)) 0

/-- The integer a decimal text stands for, an optional `-` first: what
`toString` wrote, read back. -/
def decodeInt (s : String) : Int :=
  match s.data with
  | '-' :: cs => -(charsValue cs : Int)
  | cs => (charsValue cs : Int)

theorem digitChar_value : ∀ d < 10, (Nat.digitChar d).toNat - 48 = d := by decide

/-- The digits `toDigitsCore` puts before `ds`, with fuel to spare, read as
the first digits of `ds`. -/
theorem foldl_toDigitsCore (fuel n : Nat) (ds : List Char) (h : n < fuel) :
    (Nat.toDigitsCore 10 fuel n ds).foldl (fun a c => a * 10 + (c.toNat - 48)) 0 =
      ds.foldl (fun a c => a * 10 + (c.toNat - 48)) n := by
  induction fuel generalizing n ds with
  | zero => omega
  | succ fuel ih =>
    simp only [Nat.toDigitsCore]
    split
    · rw [List.foldl_cons, digitChar_value _ (Nat.mod_lt _ (by omega))]
      congr 1
      omega
    · rw [ih _ _ (by omega), List.foldl_cons, digitChar_value _ (Nat.mod_lt _ (by omega))]
      congr 1
      omega

theorem mem_toDigitsCore (fuel n : Nat) (ds : List Char) {c : Char} (hc : c ∈ Nat.toDigitsCore 10 fuel n ds) :
    c ∈ ds ∨ ∃ d < 10, c = Nat.digitChar d := by
  induction fuel generalizing n ds with
  | zero => exact .inl hc
  | succ fuel ih =>
    simp only [Nat.toDigitsCore] at hc
    have hd : ∀ {c}, c = Nat.digitChar (n % 10) → ∃ d < 10, c = Nat.digitChar d :=
      fun h => ⟨_, Nat.mod_lt _ (by omega), h⟩
    split at hc
    · exact (List.mem_cons.1 hc).symm.imp_right hd
    · rcases ih _ _ hc with hc | hc
      · exact (List.mem_cons.1 hc).symm.imp_right hd
      · exact .inr hc

theorem decodeInt_toString (i : Int) : decodeInt (toString i) = i := by
  have hval : ∀ m : Nat, charsValue (Nat.toDigitsCore 10 (m + 1) m []) = m := fun m => by
    rw [charsValue, foldl_toDigitsCore _ _ _ (by omega)]; rfl
  have hne : ∀ (m : Nat) cs, Nat.toDigitsCore 10 (m + 1) m [] ≠ '-' :: cs := fun m cs h => by
    rcases mem_toDigitsCore (m + 1) m [] (h ▸ List.mem_cons_self _ _) with h | ⟨d, hd, hc⟩
    · exact List.not_mem_nil _ h
    · revert hc; revert d; decide
  cases i with
  | ofNat m =>
    show decodeInt ⟨Nat.toDigitsCore 10 (m + 1) m []⟩ = m
    unfold decodeInt
    split
    · rename_i cs h; exact absurd h (hne m cs)
    · rw [hval]
  | negSucc m =>
    show decodeInt ⟨'-' :: Nat.toDigitsCore 10 (m + 1 + 1) (m + 1) []⟩ = Int.negSucc m
    simp only [decodeInt, hval]
    rfl

theorem toString_injective : Function.Injective (toString : Int → String) := fun a b h => by
  rw [← decodeInt_toString a, h, decodeInt_toString]

theorem toString_data_ne_nil (i : Int) : (toString i).data ≠ [] := fun h => by
  have h0 : i = 0 := by rw [← decodeInt_toString i, show toString i = "" from String.ext h]; rfl
  subst h0
  exact absurd h (by decide)

theorem utf8Bytes_append (a b : String) : utf8Bytes (a ++ b) = utf8Bytes a ++ utf8Bytes b := by
  show utf8Bytes ⟨a.data ++ b.data⟩ = _
  simp only [utf8Bytes, List.flatMap_append, List.map_append]

theorem utf8Bytes_ne_nil {s : String} (h : s.data ≠ []) : utf8Bytes s ≠ [] := by
  obtain ⟨cs⟩ := s
  cases cs with
  | nil => exact absurd rfl h
  | cons c cs =>
    have hc : (String.utf8EncodeChar c).length ≠ 0 := by
      rw [String.length_utf8EncodeChar]; exact (Char.utf8Size_pos c).ne'
    intro h
    have := congrArg List.length h
    simp only [utf8Bytes, List.flatMap_cons, List.map_append, List.length_append, List.length_map,
      List.length_nil] at this
    omega

namespace RedisCache

theorem getOrder_consts (c : RedisCache) (now id : Int) : (c.getOrder now id).2.consts = c.consts := by
  unfold getOrder; split <;> (try split) <;> rfl

theorem setOrder_consts (c : RedisCache) (now : Int) (o : Order) : (c.setOrder now o).2.consts = c.consts := by
  unfold setOrder; split <;> rfl

theorem orderKey_injective (c : RedisCache) {a b : Int} (h : c.orderKey a = c.orderKey b) : a = b :=
  toString_injective (String.ext (List.append_cancel_left (congrArg String.data h)))

/-- With a plain prefix, `KEYS orderKeyPrefix*` matches every order key. -/
theorem orderKey_matches (c : RedisCache) (hp : PlainBytes (utf8Bytes c.consts.orderKeyPrefix)) (id : Int) :
    stringmatch (c.consts.orderKeyPrefix ++ "*") (c.orderKey id) = true := by
  rw [stringmatch, utf8Bytes_append, show utf8Bytes "*" = [42] from rfl, globGo_prefix_star hp, orderKey,
    utf8Bytes_append]
  have := utf8Bytes_ne_nil (toString_data_ne_nil id)
  cases h : utf8Bytes (toString id) with
  | nil => exact absurd h this
  | cons b bs => simp

theorem mem_keys {c : RedisCache} {now : Int} {pattern : String} {e : RedisEntry} (he : e ∈ c.keyspace)
    (hl : live now e = true) (hm : stringmatch pattern e.key = true) : e.key ∈ c.keys now pattern :=
  List.mem_map.2 ⟨e, List.mem_filter.2 ⟨he, by rw [hl, hm]; rfl⟩, rfl⟩

theorem live_mono {now now' : Int} (h : now ≤ now') {e : RedisEntry} (hl : live now' e = true) : live now e = true := by
  unfold live at *
  cases hx : e.expireAtMs with
  | none => rfl
  | some x =>
    rw [hx] at hl
    have := Int.ediv_le_ediv (show (0 : Int) < millisecond by decide) h
    simp only [Option.all_some, decide_eq_true_eq] at hl ⊢
    omega

/-! ### No key twice -/

theorem nodup_del {c : RedisCache} (h : (c.keyspace.map (·.key)).Nodup) (ks : List String) :
    ((c.del ks).keyspace.map (·.key)).Nodup :=
  ((List.filter_sublist _).map _).nodup h

theorem nodup_set {c : RedisCache} (h : (c.keyspace.map (·.key)).Nodup) (now : Int) (key : String)
    (v : RedisValue) (ttl : Int) : ((c.set now key v ttl).keyspace.map (·.key)).Nodup := by
  simp only [set, List.map_cons, List.nodup_cons]
  exact ⟨by simp, ((List.filter_sublist _).map _).nodup h⟩

/-- With no key twice, `GET` finds the one entry under a key. -/
theorem find_key_of_mem {c : RedisCache} (h : (c.keyspace.map (·.key)).Nodup) {e : RedisEntry}
    (he : e ∈ c.keyspace) : c.keyspace.find? (·.key == e.key) = some e := by
  cases hf : c.keyspace.find? (·.key == e.key) with
  | none => exact absurd (List.find?_eq_none.1 hf e he) (by simp)
  | some e' =>
    exact congrArg some (List.inj_on_of_nodup_map h (List.mem_of_find?_eq_some hf) he
      (by simpa using List.find?_some hf))

theorem get_of_mem {c : RedisCache} (h : (c.keyspace.map (·.key)).Nodup) {e : RedisEntry}
    (he : e ∈ c.keyspace) {now : Int} (hl : live now e = true) : c.get now e.key = some e.value := by
  simp [get, find_key_of_mem h he, hl]

theorem getOrder_snd (c : RedisCache) (now id : Int) :
    (c.getOrder now id).2 = c ∨ (c.getOrder now id).2 = c.del [c.orderKey id] := by
  unfold getOrder; split <;> (try split) <;> simp [deleteOrder]

end RedisCache

/-! ## Live entries -/

theorem mem_of_lookup_eq_some {l : List (Int × OrderEntry)} {k : Int} {en : OrderEntry} (h : l.lookup k = some en) :
    (k, en) ∈ l := by
  obtain ⟨l₁, l₂, rfl, -⟩ := List.lookup_eq_some_iff.1 h
  simp

namespace InMemoryCache

variable {c : InMemoryCache}

/-- The abstract map holds each id once. -/
theorem Coherent.keys_nodup (h : c.Coherent) : (c.toAbs.entries.map Prod.fst).Nodup := by
  simpa [toAbs, List.map_map, Function.comp_def] using h.ids_nodup

theorem Coherent.not_mem_of_lookup (h : c.Coherent) {id : Int} (hl : c.ordersLruMap.lookup id = none) :
    ∀ x ∈ c.toAbs.entries, x.1 ≠ id := by
  intro x hx
  obtain ⟨e, he, rfl⟩ := List.mem_map.1 hx
  exact h.lookup_eq_none.1 hl e he

/-- `SetOrder` of an order not yet due keeps the cache coherent and puts the
order under its id in front of entries it had, none of them under that id.
Unlike `Coherent.setOrder` this holds whatever TTL the entry gets. -/
theorem Coherent.setOrder_entries (h : c.Coherent) {now : Int} {o : Order} (hd : ¬ now > o.deadlineAt) :
    (c.setOrder now o).2.Coherent ∧ ∀ x ∈ (c.setOrder now o).2.toAbs.entries,
      (x.1 = o.id ∧ x.2.order = o) ∨ (x ∈ c.toAbs.entries ∧ x.1 ≠ o.id) := by
  simp only [InMemoryCache.setOrder, if_neg hd]
  cases hl : c.ordersLruMap.lookup o.id with
  | some e =>
    dsimp only
    have hlt : e < c.elems.length := h.lt e ((h.lookup _ e).1 hl).1
    have hget : (c.elems.modify (fun it => { it with entry := ⟨o, now + orderTTL now o.deadlineAt
        c.consts.additionalDuration c.consts.inmemDefaultOrderTTL⟩ }) e).getD e default =
        { c.item e with entry := ⟨o, now + orderTTL now o.deadlineAt c.consts.additionalDuration
          c.consts.inmemDefaultOrderTTL⟩ } := by
      rw [List.getD_eq_getElem?_getD, List.getElem?_modify_eq, item, List.getD_eq_getElem?_getD,
        List.getElem?_eq_getElem hlt]
      rfl
    obtain ⟨h₁, h₂⟩ := h.promote hl (List.length_modify (fun it : LruItem => { it with entry := ⟨o,
        now + orderTTL now o.deadlineAt c.consts.additionalDuration c.consts.inmemDefaultOrderTTL⟩ }) e c.elems)
      (fun x hx => by rw [List.getD_eq_getElem?_getD, List.getElem?_modify_ne _ _ (Ne.symm hx),
        ← List.getD_eq_getElem?_getD]; rfl)
      (by rw [hget]; exact ((h.lookup _ e).1 hl).2)
    refine ⟨h₁, fun x hx => ?_⟩
    rw [h₂, hget] at hx
    rcases List.mem_cons.1 hx with rfl | hx
    · exact .inl ⟨rfl, rfl⟩
    · obtain ⟨hx, hne⟩ := List.mem_filter.1 hx
      exact .inr ⟨hx, by simpa using hne⟩
  | none =>
    dsimp only
    have hfree := h.not_mem_of_lookup hl
    by_cases hfull : c.consts.maxCacheSize ≤ c.lruList.length
    · simp only [if_pos hfull]
      obtain ⟨h₁, h₂, -, h₄⟩ := h.evictBack
      obtain ⟨p₁, p₂⟩ := h₁.push ⟨o.id, ⟨o, now + orderTTL now o.deadlineAt c.consts.additionalDuration
        c.consts.inmemDefaultOrderTTL⟩⟩ (h₄ _ hl)
      refine ⟨p₁, fun x hx => ?_⟩
      rw [p₂, h₂] at hx
      rcases List.mem_cons.1 hx with rfl | hx
      · exact .inl ⟨rfl, rfl⟩
      · have hx := List.dropLast_subset _ hx
        exact .inr ⟨hx, hfree x hx⟩
    · simp only [if_neg hfull]
      obtain ⟨p₁, p₂⟩ := h.push ⟨o.id, ⟨o, now + orderTTL now o.deadlineAt c.consts.additionalDuration
        c.consts.inmemDefaultOrderTTL⟩⟩ hl
      refine ⟨p₁, fun x hx => ?_⟩
      rw [p₂] at hx
      rcases List.mem_cons.1 hx with rfl | hx
      · exact .inl ⟨rfl, rfl⟩
      · exact .inr ⟨hx, hfree x hx⟩

/-- The reaper's removals keep the cache coherent and only drop entries. -/
theorem Coherent.foldl_unlink (ids : List Int) (h : c.Coherent) :
    (ids.foldl (fun c id => match c.ordersLruMap.lookup id with
      | some e => c.unlink id e
      | none => c) c).Coherent ∧
    ∀ x ∈ (ids.foldl (fun c id => match c.ordersLruMap.lookup id with
      | some e => c.unlink id e
      | none => c) c).toAbs.entries, x ∈ c.toAbs.entries := by
  induction ids generalizing c with
  | nil => exact ⟨h, fun _ hx => hx⟩
  | cons i ids ih =>
    simp only [List.foldl_cons]
    split
    · rename_i e hl
      obtain ⟨hu, hu'⟩ := h.unlink hl
      obtain ⟨h₁, h₂⟩ := ih hu
      refine ⟨h₁, fun x hx => ?_⟩
      have hx := h₂ x hx
      rw [hu'] at hx
      exact (List.mem_filter.1 hx).1
    · exact ih h

theorem Coherent.cleanupExpiredOrders (h : c.Coherent) (now : Int) :
    (c.cleanupExpiredOrders now).Coherent ∧ ∀ x ∈ (c.cleanupExpiredOrders now).toAbs.entries, x ∈ c.toAbs.entries := by
  obtain ⟨h₁, h₂⟩ := h.foldl_unlink (c.ordersLruMap.filterMap fun p =>
    if now > (c.item p.2).entry.ttl then some (c.item p.2).id else none)
  exact ⟨⟨h₁.lt, h₁.ids_nodup, h₁.lookup⟩, h₂⟩

end InMemoryCache

namespace OrderCache

/-- An order `GetOrder(id)` can still answer at `now`: an entry for it under
`id` past neither its TTL nor its deadline. -/
def Live : OrderCache → Int → Int → Order → Prop
  | .inMemory c, now, id, o => ∃ ttl, (id, ⟨o, ttl⟩) ∈ c.toAbs.entries ∧ now ≤ ttl ∧ now ≤ o.deadlineAt
  | .redis c, now, id, o => ∃ e ∈ c.keyspace, e.key = c.orderKey id ∧ e.value = .order o ∧
      RedisCache.live now e = true ∧ now ≤ o.deadlineAt

/-- The in-process cache's map and list describe the same elements; the
Redis keyspace holds no key twice, under an order-key prefix that holds no
byte a pattern reads specially. -/
def Sound : OrderCache → Prop
  | .inMemory c => c.Coherent
  | .redis c => PlainBytes (utf8Bytes c.consts.orderKeyPrefix) ∧ (c.keyspace.map (·.key)).Nodup

/-- The configured order-key prefix holds no byte a pattern reads specially. -/
def PlainPrefix : OrderCache → Prop
  | .inMemory _ => True
  | .redis c => PlainBytes (utf8Bytes c.consts.orderKeyPrefix)

variable {c : OrderCache} {now : Int} {id : Int} {o : Order}

theorem live_mono {now' : Int} (hle : now ≤ now') {k : Int} {o' : Order} (h : c.Live now' k o') : c.Live now k o' := by
  cases c with
  | inMemory c =>
    obtain ⟨ttl, hm, h1, h2⟩ := h
    exact ⟨ttl, hm, by omega, by omega⟩
  | redis c =>
    obtain ⟨e, he, hk, hv, hl, hd⟩ := h
    exact ⟨e, he, hk, hv, RedisCache.live_mono hle hl, by omega⟩

/-- A live entry's order is not yet due. -/
theorem Live.now_le {k : Int} {o' : Order} (h : c.Live now k o') : now ≤ o'.deadlineAt := by
  cases c with
  | inMemory c => obtain ⟨-, -, -, h⟩ := h; exact h
  | redis c => obtain ⟨-, -, -, -, -, h⟩ := h; exact h

theorem new_live (h : c.New) (now k : Int) (o' : Order) : ¬ c.Live now k o' := by
  cases h with
  | inMemory => rintro ⟨_, hm, -⟩; exact List.not_mem_nil _ hm
  | redis => rintro ⟨_, hm, -⟩; exact List.not_mem_nil _ hm

theorem new_sound (h : c.New) (hp : c.PlainPrefix) : c.Sound := by
  cases h with
  | inMemory consts => exact InMemoryCache.coherent_empty consts
  | redis => exact ⟨hp, List.nodup_nil⟩

/-- What `GetOrder` answers is live. -/
theorem Sound.live_of_getOrder (hs : c.Sound) (hg : (c.getOrder now id).1 = .ok o) : c.Live now id o := by
  cases c with
  | inMemory c =>
    change (c.getOrder now id).1 = .ok o at hg
    rw [(InMemoryCache.Coherent.getOrder hs now id).1] at hg
    unfold AbsLru.getOrder at hg
    split at hg
    · cases hg
    · rename_i en hl
      split at hg
      · cases hg
        exact ⟨en.ttl, mem_of_lookup_eq_some hl, ‹_ ∧ _›.1, ‹_ ∧ _›.2⟩
      · cases hg
  | redis c =>
    change (c.getOrder now id).1 = .ok o at hg
    unfold RedisCache.getOrder at hg
    split at hg
    · cases hg
    · rename_i o' hget
      split at hg
      · cases hg
      · cases hg
        unfold RedisCache.get at hget
        obtain ⟨e, hf, hb⟩ := Option.bind_eq_some.1 hget
        split at hb
        · exact ⟨e, List.mem_of_find?_eq_some hf, by simpa using List.find?_some hf, Option.some.inj hb, ‹_›,
            by omega⟩
        · cases hb
    · cases hg

/-- `GetOrder` keeps the cache sound and makes no entry live. -/
theorem Sound.getOrder (hs : c.Sound) (now id : Int) :
    (c.getOrder now id).2.Sound ∧ ∀ t k o', (c.getOrder now id).2.Live t k o' → c.Live t k o' := by
  cases c with
  | inMemory c =>
    obtain ⟨-, h₂, h₃⟩ := InMemoryCache.Coherent.getOrder hs now id
    refine ⟨h₂, fun t k o' ⟨ttl, hm, hl⟩ => ⟨ttl, ?_, hl⟩⟩
    change (k, _) ∈ (c.getOrder now id).2.toAbs.entries at hm
    rw [h₃] at hm
    unfold AbsLru.getOrder at hm
    split at hm
    · exact hm
    · rename_i en hl'
      split at hm
      · rcases List.mem_cons.1 hm with h | h
        · exact h ▸ mem_of_lookup_eq_some hl'
        · exact (List.mem_filter.1 h).1
      · exact (List.mem_filter.1 hm).1
  | redis c =>
    change (OrderCache.redis (c.getOrder now id).2).Sound ∧
      ∀ t k o', (OrderCache.redis (c.getOrder now id).2).Live t k o' → (OrderCache.redis c).Live t k o'
    rcases c.getOrder_snd now id with he | he <;> rw [he]
    · exact ⟨hs, fun _ _ _ h => h⟩
    · exact ⟨⟨hs.1, RedisCache.nodup_del hs.2 _⟩,
        fun t k o' ⟨e, he, hk, hrest⟩ => ⟨e, RedisCache.mem_del he, hk, hrest⟩⟩

/-- `SetOrder` of an order already due fails and changes nothing. -/
theorem setOrder_late (hd : now > o.deadlineAt) : c.setOrder now o = (.error .cacheErrOrderNotCached, c) := by
  cases c <;> simp [setOrder, InMemoryCache.setOrder, RedisCache.setOrder, hd]

/-- `SetOrder` of an order not yet due succeeds, and what is live after it is
that order under its id, or an entry live before under another id. -/
theorem Sound.setOrder (hs : c.Sound) (hd : ¬ now > o.deadlineAt) :
    (c.setOrder now o).1 = .ok () ∧ (c.setOrder now o).2.Sound ∧
      ∀ t k o', (c.setOrder now o).2.Live t k o' → (k = o.id ∧ o' = o) ∨ (c.Live t k o' ∧ k ≠ o.id) := by
  cases c with
  | inMemory c =>
    obtain ⟨h₁, h₂⟩ := InMemoryCache.Coherent.setOrder_entries hs hd
    refine ⟨by simp [OrderCache.setOrder, InMemoryCache.setOrder, hd]; split <;> rfl, h₁,
      fun t k o' ⟨ttl, hm, hl⟩ => ?_⟩
    rcases h₂ _ hm with ⟨hk, ho⟩ | ⟨hm, hk⟩
    · exact .inl ⟨hk, ho⟩
    · exact .inr ⟨⟨ttl, hm, hl⟩, hk⟩
  | redis c =>
    have hsnd : ((OrderCache.redis c).setOrder now o).2.Sound := by
      refine ⟨(RedisCache.setOrder_consts c now o).symm ▸ hs.1, ?_⟩
      change ((c.setOrder now o).2.keyspace.map (·.key)).Nodup
      simp only [RedisCache.setOrder, if_neg hd]
      exact RedisCache.nodup_set hs.2 _ _ _ _
    refine ⟨by simp [OrderCache.setOrder, RedisCache.setOrder, hd], hsnd, fun t k o' ⟨e, he, hk, hv, hl⟩ => ?_⟩
    simp only [RedisCache.orderKey, RedisCache.setOrder_consts] at hk
    change e ∈ (c.setOrder now o).2.keyspace at he
    simp only [RedisCache.setOrder, if_neg hd, RedisCache.set] at he
    rcases List.mem_cons.1 he with rfl | he
    · exact .inl ⟨(c.orderKey_injective hk).symm, by cases hv; rfl⟩
    · obtain ⟨he, hne⟩ := List.mem_filter.1 he
      refine .inr ⟨⟨e, he, hk, hv, hl⟩, fun h => ?_⟩
      rw [hk, h] at hne
      simp at hne
      exact hne rfl

/-- After `DeleteOrder(id)` nothing is live under `id`, and nothing new under
another id. -/
theorem Sound.deleteOrder (hs : c.Sound) (id : Int) :
    (c.deleteOrder id).2.Sound ∧ ∀ t k o', (c.deleteOrder id).2.Live t k o' → c.Live t k o' ∧ k ≠ id := by
  cases c with
  | inMemory c =>
    obtain ⟨-, h₂, h₃⟩ := InMemoryCache.Coherent.deleteOrder hs id
    refine ⟨h₂, fun t k o' ⟨ttl, hm, hl⟩ => ?_⟩
    change (k, _) ∈ (c.deleteOrder id).2.toAbs.entries at hm
    rw [h₃] at hm
    obtain ⟨hm, hk⟩ := List.mem_filter.1 hm
    exact ⟨⟨ttl, hm, hl⟩, by simpa using hk⟩
  | redis c =>
    refine ⟨⟨hs.1, RedisCache.nodup_del hs.2 _⟩, fun t k o' ⟨e, he, hk, hrest⟩ => ?_⟩
    obtain ⟨he, hne⟩ := List.mem_filter.1 he
    refine ⟨⟨e, he, hk, hrest⟩, fun h => ?_⟩
    rw [hk, h] at hne
    simp at hne
    exact hne rfl

/-- After `ClearOrderCache` nothing is live, at its clock reading or later. -/
theorem Sound.clearOrderCache (hs : c.Sound) (now : Int) :
    (c.clearOrderCache now).2.Sound ∧ ∀ t ≥ now, ∀ k o', ¬ (c.clearOrderCache now).2.Live t k o' := by
  cases c with
  | inMemory c =>
    obtain ⟨-, h₂, h₃⟩ := InMemoryCache.coherent_clearOrderCache c
    refine ⟨h₂, fun t _ k o' ⟨ttl, hm, _⟩ => ?_⟩
    change (k, _) ∈ c.clearOrderCache.2.toAbs.entries at hm
    rw [h₃] at hm
    exact List.not_mem_nil _ hm
  | redis c =>
    have hmem : ∀ e ∈ c.keyspace, ∀ t ≥ now, ∀ k, e.key = c.orderKey k → RedisCache.live t e = true →
        e.key ∈ c.keys now (c.consts.orderKeyPrefix ++ "*") := fun e he t ht k hk hl =>
      RedisCache.mem_keys he (RedisCache.live_mono ht hl) (hk ▸ c.orderKey_matches hs.1 k)
    simp only [OrderCache.clearOrderCache, RedisCache.clearOrderCache]
    split
    · rename_i hemp
      exact ⟨hs, fun t ht k o' ⟨e, he, hk, _, hl, _⟩ =>
        absurd (hmem e he t ht k hk hl) (List.isEmpty_iff.1 hemp ▸ List.not_mem_nil _)⟩
    · exact ⟨⟨hs.1, RedisCache.nodup_del hs.2 _⟩, fun t ht k o' ⟨e, he, hk, _, hl, _⟩ =>
        absurd (hmem e (RedisCache.mem_del he) t ht k hk hl) (by simpa using (List.mem_filter.1 he).2)⟩

/-- A sound cache has at most one live order under an id. -/
theorem Sound.live_unique (hs : c.Sound) {o₁ o₂ : Order} (h₁ : c.Live now id o₁) (h₂ : c.Live now id o₂) :
    o₁ = o₂ := by
  cases c with
  | inMemory c =>
    obtain ⟨t₁, m₁, -⟩ := h₁
    obtain ⟨t₂, m₂, -⟩ := h₂
    exact congrArg (fun x => x.2.order) (List.inj_on_of_nodup_map (InMemoryCache.Coherent.keys_nodup hs) m₁ m₂ rfl)
  | redis c =>
    obtain ⟨e₁, m₁, k₁, v₁, -⟩ := h₁
    obtain ⟨e₂, m₂, k₂, v₂, -⟩ := h₂
    cases List.inj_on_of_nodup_map hs.2 m₁ m₂ (k₁.trans k₂.symm)
    rw [v₁] at v₂
    cases v₂
    rfl

/-- After a `GetOrder` that answers an error, nothing is live under its id. -/
theorem Sound.getOrder_miss (hs : c.Sound) {e : OrderError} (hg : (c.getOrder now id).1 = .error e)
    (o' : Order) : ¬ (c.getOrder now id).2.Live now id o' := by
  cases c with
  | inMemory c =>
    obtain ⟨h₁, -, h₃⟩ := InMemoryCache.Coherent.getOrder hs now id
    rintro ⟨ttl, hm, -⟩
    change (id, _) ∈ (c.getOrder now id).2.toAbs.entries at hm
    change (c.getOrder now id).1 = _ at hg
    rw [h₃] at hm
    rw [h₁] at hg
    unfold AbsLru.getOrder at hm hg
    split at hg
    · rename_i hn
      rw [hn] at hm
      exact absurd (List.lookup_eq_none_iff.1 hn _ hm) (by simp)
    · rename_i en hn
      rw [hn] at hm
      split at hg
      · cases hg
      · simp only [if_neg ‹¬(now ≤ en.ttl ∧ now ≤ en.order.deadlineAt)›] at hm
        exact absurd (List.mem_filter.1 hm).2 (by simp)
  | redis c =>
    rintro ⟨en, hm, hk, hv, hl, hd⟩
    change en ∈ (c.getOrder now id).2.keyspace at hm
    change (c.getOrder now id).1 = _ at hg
    change en.key = (c.getOrder now id).2.orderKey id at hk
    rw [RedisCache.orderKey, RedisCache.getOrder_consts] at hk
    change en.key = c.orderKey id at hk
    rcases c.getOrder_snd now id with he | he <;> rw [he] at hm
    · have hget : c.get now (c.orderKey id) = some (.order o') := by
        rw [← hv]; exact hk ▸ RedisCache.get_of_mem hs.2 hm hl
      simp only [RedisCache.getOrder, hget, if_neg (not_lt.2 hd)] at hg
      cases hg
    · exact absurd (List.mem_filter.1 hm).2 (by simp [hk, RedisCache.orderKey])

end OrderCache

end Pvz.Cache
