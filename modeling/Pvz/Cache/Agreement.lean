import Pvz.Cache.Serial

/-!
# The two models of `InMemoryCache` agree

`Pvz.Cache.Refinement` models the in-process cache over a list of element
indices and proves that it refines the abstract LRU map `AbsLru`;
`Pvz.Cache.Serial` models its critical sections over `container/list`'s
pointers and proves the same of them, run one at a time. This module joins
the two:

* `CacheCall.sections` is what a method of the cache contract does before it
  takes `ordersMu` (`src/unnamed/part_010:183-337`): `SetOrder` of an order
  past its deadline returns at once and otherwise computes its entry's
  expiry; the other methods enter their first section directly;
* run in turn, the sections of a call the abstract map allows do to it what
  the call does (`LruState.Linked.sections`), and so do those of a sequence
  of calls (`LruState.Linked.after`);
* from `NewInMemoryCache`, over any sequence of calls the abstract map
  admits, the list-level cache and the pointer-level cache end standing for
  one abstract map (`inMemory_levels_agree`).
-/

namespace Pvz.Cache

/-- The critical sections a call of the contract enters on `InMemoryCache`,
with what it computes before taking `ordersMu`. -/
def CacheCall.sections (k : InmemConstants) : CacheCall → List CallPc
  | .setOrder now o =>
    if now > o.deadlineAt then [] else
    [.setOrder o.id ⟨o, now + orderTTL now o.deadlineAt k.additionalDuration k.inmemDefaultOrderTTL⟩]
  | .getOrder now id => [.getOrder id now]
  | .deleteOrder _ id => [.deleteOrder id]
  | .clearOrderCache _ => [.clearOrderCache]

theorem CacheCall.sections_start (k : InmemConstants) : ∀ (call : CacheCall), ∀ pc ∈ call.sections k, pc.start = true
  | .setOrder now o, pc, hpc => by
    by_cases hd : now > o.deadlineAt
    · simp [sections, hd] at hpc
    · simp only [sections, if_neg hd, List.mem_singleton] at hpc
      rw [hpc]; rfl
  | .getOrder _ _, _, hpc | .deleteOrder _ _, _, hpc | .clearOrderCache _, _, hpc => by
    rw [List.mem_singleton.1 hpc]; rfl

/-- The abstract map after a sequence of calls. -/
def AbsLru.after (a : AbsLru) : List CacheCall → AbsLru
  | [] => a
  | k :: ks => (a.call k).2.after ks

/-- The cache after a sequence of calls. -/
def OrderCache.after (c : OrderCache) : List CacheCall → OrderCache
  | [] => c
  | k :: ks => (c.call k).2.after ks

namespace InMemoryCache

variable {c : InMemoryCache}

/-- Over any sequence of calls the abstract map admits, a coherent cache ends
coherent and standing for the abstract map's state after the calls. -/
theorem Coherent.after (h : c.Coherent) (ha : 0 ≤ c.consts.additionalDuration) {ks : List CacheCall}
    (hks : c.toAbs.admits ks = true) :
    ∃ c', (OrderCache.inMemory c).after ks = .inMemory c' ∧ c'.Coherent ∧ c'.toAbs = c.toAbs.after ks := by
  induction ks generalizing c with
  | nil => exact ⟨c, rfl, h, rfl⟩
  | cons k ks ih =>
    rw [AbsLru.admits, Bool.and_eq_true] at hks
    obtain ⟨c₁, hc, h₁, ht⟩ := h.call ha hks.1
    have hconsts : c₁.consts = c.consts := (congrArg AbsLru.consts ht).trans (AbsLru.call_consts _ _)
    obtain ⟨c', hc', h', ht'⟩ := ih h₁ (hconsts ▸ ha) (ht ▸ hks.2)
    refine ⟨c', ?_, h', ht'.trans (by rw [ht]; rfl)⟩
    rw [OrderCache.after, hc]
    exact hc'

end InMemoryCache

namespace LruState

theorem runSerial_append (c : LruState) (pcs pcs' : List CallPc) :
    c.runSerial (pcs ++ pcs') = (c.runSerial pcs).bind fun c => c.runSerial pcs' := by
  induction pcs generalizing c with
  | nil => rfl
  | cons pc pcs ih =>
    simp only [List.cons_append, runSerial, Option.bind_assoc]
    exact congrArg _ (funext ih)

variable {c : LruState} {L : List Nat}

/-- The sections of a call the abstract map allows, run in turn on a linked
cache, leave it linked and do to the abstract map what the call does. -/
theorem Linked.sections (h : c.Linked L) {k : InmemConstants} (ha : 0 ≤ k.additionalDuration)
    {call : CacheCall} (hk : (c.toAbs k).allows call = true) :
    ∃ c' L', c.runSerial (call.sections k) = some c' ∧ c'.Linked L' ∧ c'.toAbs k = ((c.toAbs k).call call).2 := by
  obtain ⟨c', L', hc', h', hab⟩ := h.runSerial (CacheCall.sections_start k call)
  refine ⟨c', L', hc', h', (hab k).trans ?_⟩
  cases call with
  | setOrder now o =>
    by_cases hd : now > o.deadlineAt
    · simp only [CacheCall.sections, if_pos hd, List.foldl_nil, AbsLru.call, AbsLru.setOrder]
    · have hno : o.deadlineAt - now + k.additionalDuration ≤ maxDuration := of_decide_eq_true hk
      have hexp : now + orderTTL now o.deadlineAt k.additionalDuration k.inmemDefaultOrderTTL =
          (c.toAbs k).expiry now o := by
        rw [orderTTL_of_le (le_of_not_lt hd) ha hno]; rfl
      simp only [CacheCall.sections, if_neg hd, List.foldl_cons, List.foldl_nil, CallPc.absCall, hexp,
        AbsLru.call, (c.toAbs k).setOrder_live hd]
  | getOrder | deleteOrder | clearOrderCache => rfl

/-- Over any sequence of calls the abstract map admits, a linked cache that
runs their sections in turn ends linked and standing for the abstract map's
state after the calls. -/
theorem Linked.after (h : c.Linked L) {k : InmemConstants} (ha : 0 ≤ k.additionalDuration) {ks : List CacheCall}
    (hks : (c.toAbs k).admits ks = true) :
    ∃ c' L', c.runSerial (ks.flatMap (CacheCall.sections k)) = some c' ∧ c'.Linked L' ∧
      c'.toAbs k = (c.toAbs k).after ks := by
  induction ks generalizing c L with
  | nil => exact ⟨c, L, rfl, h, rfl⟩
  | cons call ks ih =>
    rw [AbsLru.admits, Bool.and_eq_true] at hks
    obtain ⟨c₁, L₁, hc₁, h₁, ht⟩ := h.sections ha hks.1
    obtain ⟨c', L', hc', h', ht'⟩ := ih h₁ (ht ▸ hks.2)
    refine ⟨c', L', ?_, h', ht'.trans (by rw [ht]; rfl)⟩
    rw [List.flatMap_cons, runSerial_append, hc₁]
    exact hc'

end LruState

/-- From `NewInMemoryCache`, over any sequence of calls the abstract map
admits, the list-level cache and the pointer-level cache running the calls'
sections one at a time end standing for one abstract map, and the
pointer-level map and list are a bijection. -/
theorem inMemory_levels_agree (k : InmemConstants) (ha : 0 ≤ k.additionalDuration) {ks : List CacheCall}
    (hks : (InMemoryCache.empty k).toAbs.admits ks = true) :
    ∃ c c', (OrderCache.inMemory (.empty k)).after ks = .inMemory c ∧
      (⟨GoList.new, [], k.maxCacheSize⟩ : LruState).runSerial (ks.flatMap (CacheCall.sections k)) = some c' ∧
      c'.Bij ∧ c'.toAbs k = c.toAbs := by
  have hinit : (⟨GoList.new, [], k.maxCacheSize⟩ : LruState).toAbs k = (InMemoryCache.empty k).toAbs := by
    rw [(LruState.linked_init k.maxCacheSize).toAbs_eq]; rfl
  obtain ⟨c, hc, -, ht⟩ := InMemoryCache.coherent_empty k |>.after ha hks
  obtain ⟨c', L', hc', h', ht'⟩ := (LruState.linked_init k.maxCacheSize).after ha (hinit ▸ hks)
  exact ⟨c, c', hc, hc', h'.bij, ht'.trans (hinit ▸ ht.symm)⟩

/-- Storing orders 1 and 2 and reading order 2 under the constants of
`config.json`: the two levels end standing for one abstract map. -/
theorem inMemory_levels_agree_config :
    0 ≤ configConsts.additionalDuration ∧
      (InMemoryCache.empty configConsts).toAbs.admits [.setOrder 0 ⟨1, 1, .accepted, 5, 100, none, none, hour, 0, none, none⟩,
        .setOrder 1 ⟨2, 1, .accepted, 5, 100, none, none, hour, 0, none, none⟩, .getOrder 2 1] = true ∧
      ∃ c c', (OrderCache.inMemory (.empty configConsts)).after
          [.setOrder 0 ⟨1, 1, .accepted, 5, 100, none, none, hour, 0, none, none⟩,
            .setOrder 1 ⟨2, 1, .accepted, 5, 100, none, none, hour, 0, none, none⟩, .getOrder 2 1] = .inMemory c ∧
        (⟨GoList.new, [], configConsts.maxCacheSize⟩ : LruState).runSerial
          ([.setOrder 0 ⟨1, 1, .accepted, 5, 100, none, none, hour, 0, none, none⟩,
            .setOrder 1 ⟨2, 1, .accepted, 5, 100, none, none, hour, 0, none, none⟩, .getOrder 2 1].flatMap
            (CacheCall.sections configConsts)) = some c' ∧
        c'.Bij ∧ c'.toAbs configConsts = c.toAbs :=
  have ha : 0 ≤ configConsts.additionalDuration := by decide
  have hks : (InMemoryCache.empty configConsts).toAbs.admits
      [.setOrder 0 ⟨1, 1, .accepted, 5, 100, none, none, hour, 0, none, none⟩,
        .setOrder 1 ⟨2, 1, .accepted, 5, 100, none, none, hour, 0, none, none⟩, .getOrder 2 1] = true := by decide
  ⟨ha, hks, inMemory_levels_agree configConsts ha hks⟩

/-- Over `container/list` too, reading order 1 after storing 1 and 2 makes it
the most recent. -/
example : ((⟨GoList.new, [], configConsts.maxCacheSize⟩ : LruState).runSerial
    ([.setOrder 0 ⟨1, 1, .accepted, 5, 100, none, none, hour, 0, none, none⟩,
      .setOrder 1 ⟨2, 1, .accepted, 5, 100, none, none, hour, 0, none, none⟩, .getOrder 2 1].flatMap
      (CacheCall.sections configConsts))).map (fun c => (c.toAbs configConsts).entries.map (·.1)) = some [1, 2] := by
  decide

end Pvz.Cache
