import Pvz.Service.History
import Pvz.Cache.Live

/-!
# Serial runs keep the cache coherent with the table

Every operation of `OrderService` (`src/unnamed/part_005`) reads an order
from the cache first and from the repository on any cache error
(`readThrough`). It follows each write of a row by a write or a removal of
the row's cache entry:

* `AcceptOrder` and `DeliverOrder` set the new row;
* `ProcessReturnOrder` removes the entry after its update;
* `ReturnOrderToCourier` removes it before its delete;
* `ClearDatabase` clears the order entries after deleting every row.

Neither backend answers an entry whose deadline has passed. So the one cache
write that can fail, `SetOrder` of an order already due, leaves nothing stale
behind: the entry it would have replaced is due too.

The cache keeps the service's value of an order, the table its stored form
(`Order.stored`: cents, microseconds). When the service's calls run one after
another and no store or cache call fails, every order either cache can still
answer is stored as the table's row under its id (`World.Coherent`). This
holds from a new cache on, whatever the clock and the reaper do
(`SerialReachable.coherent`), provided Redis's order-key prefix holds no
pattern byte, so that `ClearOrderCache`'s `KEYS` finds every order key. Then
`GetOrderByID` answers what `repo.GetByID` answers up to the column
precision, and leaves the table as it was (`serial_reads_table`).

Neither condition can be dropped. When calls interleave, a stale read is
written back over a newer row. When a cache call fails after its row was
written, the old entry stays in place.
-/

namespace Pvz

namespace OrderTable

variable {t t' : OrderTable} {o r : Order}

theorem eq_of_mem (ho : o ∈ t.rows) (hr : r ∈ t.rows) (h : o.id = r.id) : o = r :=
  List.inj_on_of_nodup_map t.keys_nodup ho hr h

theorem getByID_of_mem (h : o ∈ t.rows) : t.getByID o.id = .ok o := by
  unfold getByID
  cases hf : t.find o.id with
  | none => exact absurd (find_eq_none_iff.1 hf) (by simp [has_iff.2 (List.mem_map_of_mem _ h)])
  | some r => rw [eq_of_mem (find_mem hf).1 h (find_mem hf).2]

theorem getByID_eq_ok {id : Int} : t.getByID id = .ok o ↔ o ∈ t.rows ∧ o.id = id := by
  refine ⟨fun h => ⟨mem_of_getByID h, ?_⟩, fun ⟨hm, hid⟩ => hid ▸ getByID_of_mem hm⟩
  unfold getByID at h
  split at h
  · cases h; exact (find_mem ‹_›).2
  · cases h

theorem mem_update_self (h : t.update o = .ok t') : o.stored ∈ t'.rows := by
  obtain ⟨hh, -, hr⟩ := update_ok h
  obtain ⟨q, hq, hid⟩ := List.any_eq_true.1 hh
  rw [hr]
  exact List.mem_map.2 ⟨q, hq, by simp [overwrite, beq_iff_eq.1 hid]⟩

theorem mem_update_of_ne (h : t.update o = .ok t') (hr : r ∈ t.rows) (hne : r.id ≠ o.id) : r ∈ t'.rows := by
  rw [(update_ok h).2.2]
  exact List.mem_map.2 ⟨r, hr, by simp [overwrite, hne]⟩

theorem mem_delete_of_ne {id : Int} (h : t.delete id = .ok t') (hr : r ∈ t.rows) (hne : r.id ≠ id) :
    r ∈ t'.rows := by
  unfold delete at h
  split at h
  · cases h; exact List.mem_filter.2 ⟨hr, by simpa using hne⟩
  · cases h

theorem mem_insert_of_mem (h : t.insert o = .ok t') (hr : r ∈ t.rows) : r ∈ t'.rows := by
  rw [(insert_ok h).2.2]
  exact List.mem_append_left _ hr

/-- A row read from the table is in its stored form. -/
theorem stored_of_getByID {id : Int} (h : t.getByID id = .ok o) : o.stored = o :=
  t.rows_stored o (mem_of_getByID h)

end OrderTable

namespace Cache

/-- Refreshing the history snapshot makes no order entry live. -/
theorem OrderCache.Sound.refreshHistoryCache {c : OrderCache} (hs : c.Sound) (now : Int)
    (listed : Except OrderError (List Order)) :
    (c.refreshHistoryCache now listed).2.Sound ∧
      ∀ t k o, (c.refreshHistoryCache now listed).2.Live t k o → c.Live t k o := by
  cases c with
  | inMemory c =>
    cases listed with
    | error e => exact ⟨hs, fun _ _ _ h => h⟩
    | ok orders => exact ⟨⟨hs.lt, hs.ids_nodup, hs.lookup⟩, fun _ _ _ h => h⟩
  | redis c =>
    cases listed with
    | error e => exact ⟨hs, fun _ _ _ h => h⟩
    | ok orders =>
      refine ⟨⟨hs.1, RedisCache.nodup_set hs.2 _ _ _ _⟩, fun t k o ⟨e, he, hk, hv, hl⟩ => ?_⟩
      rcases List.mem_cons.1 he with rfl | he
      · cases hv
      · exact ⟨e, (List.mem_filter.1 he).1, hk, hv, hl⟩

end Cache

namespace Service

open Cache OrderError

/-! ## Coherent worlds -/

/-- A world of a serial run: no failure is scheduled, and every order the
cache can still answer is stored as the table's row under its id. -/
structure World.Coherent (w : World) : Prop where
  faultless : w.faults = []
  sound : w.cache.Sound
  live : ∀ id o, w.cache.Live w.clock id o → o.stored ∈ w.orders.rows ∧ o.id = id

/-- Coherent away from `j`: what the cache answers under any other id is
stored as the table's row. A world is so between a write of row `j` and its
cache write. -/
def World.CoherentOff (w : World) (j : Int) : Prop :=
  w.faults = [] ∧ w.cache.Sound ∧ ∀ k o, w.cache.Live w.clock k o → k ≠ j → o.stored ∈ w.orders.rows ∧ o.id = k

variable {w : World}

theorem World.Coherent.off (h : w.Coherent) (j : Int) : w.CoherentOff j :=
  ⟨h.faultless, h.sound, fun k o hl _ => h.live k o hl⟩

/-- Nothing is live under an id the table does not hold. -/
theorem World.Coherent.not_live (h : w.Coherent) {id : Int} (hn : w.orders.has id = false) (o : Order) :
    ¬ w.cache.Live w.clock id o := fun hl => by
  have := OrderTable.has_iff.2 (List.mem_map.2 ⟨_, (h.live id o hl).1, (h.live id o hl).2⟩)
  rw [hn] at this
  cases this

/-- Updating row `o` leaves a coherent world coherent away from `o.id`. -/
theorem World.Coherent.update {t : OrderTable} {o : Order} (h : w.Coherent) (hu : w.orders.update o = .ok t) :
    ({ w with orders := t } : World).CoherentOff o.id :=
  ⟨h.faultless, h.sound, fun k o' hl hk => ⟨OrderTable.mem_update_of_ne hu (h.live k o' hl).1
    (by rw [Order.stored_id, (h.live k o' hl).2]; exact hk), (h.live k o' hl).2⟩⟩

/-- Inserting a row keeps a world coherent. -/
theorem World.Coherent.insert {t : OrderTable} {o : Order} (h : w.Coherent) (hi : w.orders.insert o = .ok t) :
    ({ w with orders := t } : World).Coherent :=
  ⟨h.faultless, h.sound, fun k o' hl => ⟨OrderTable.mem_insert_of_mem hi (h.live k o' hl).1, (h.live k o' hl).2⟩⟩

/-- `SetOrder` of an order stored as row `o.id` makes a world coherent away
from `o.id` coherent, provided what it answered under `o.id` was due when `o`
is. -/
theorem World.CoherentOff.setOrder {o : Order} (h : w.CoherentOff o.id) (hm : o.stored ∈ w.orders.rows)
    (hat : ∀ o', w.cache.Live w.clock o.id o' → o'.deadlineAt = o.deadlineAt) :
    ({ w with cache := (w.cache.setOrder w.clock o).2 } : World).Coherent := by
  by_cases hd : w.clock > o.deadlineAt
  · rw [OrderCache.setOrder_late hd]
    refine ⟨h.1, h.2.1, fun k o' hl => ?_⟩
    dsimp only at hl ⊢
    by_cases hk : k = o.id
    · subst hk
      have := hl.now_le
      rw [hat o' hl] at this
      omega
    · exact h.2.2 k o' hl hk
  · obtain ⟨-, hs, hl'⟩ := h.2.1.setOrder hd
    refine ⟨h.1, hs, fun k o' hl => ?_⟩
    rcases hl' _ _ _ hl with ⟨rfl, rfl⟩ | ⟨hl, hk⟩
    · exact ⟨hm, rfl⟩
    · exact h.2.2 k o' hl hk

/-- `DeleteOrder(j)` makes a world coherent away from `j` coherent, with
nothing live under `j`. -/
theorem World.CoherentOff.deleteOrder {j : Int} (h : w.CoherentOff j) :
    ({ w with cache := (w.cache.deleteOrder j).2 } : World).Coherent ∧
      ∀ o', ¬ (w.cache.deleteOrder j).2.Live w.clock j o' := by
  obtain ⟨hs, hl'⟩ := h.2.1.deleteOrder j
  exact ⟨⟨h.1, hs, fun k o' hl => h.2.2 k o' (hl' _ _ _ hl).1 (hl' _ _ _ hl).2⟩, fun o' hl => (hl' _ _ _ hl).2 rfl⟩

/-- Deleting row `j` keeps a world coherent when nothing is live under `j`. -/
theorem World.Coherent.delete {t : OrderTable} {j : Int} (h : w.Coherent) (hd : w.orders.delete j = .ok t)
    (hno : ∀ o', ¬ w.cache.Live w.clock j o') : ({ w with orders := t } : World).Coherent :=
  ⟨h.faultless, h.sound, fun k o' hl => ⟨OrderTable.mem_delete_of_ne hd (h.live k o' hl).1
    (fun hk => hno o' (by rw [← show o'.id = j from hk, (h.live k o' hl).2]; exact hl)), (h.live k o' hl).2⟩⟩

/-- `GetOrder` keeps a world coherent, and what it answers is stored as the
table's row. -/
theorem World.Coherent.getOrder (h : w.Coherent) (id : Int) :
    ({ w with cache := (w.cache.getOrder w.clock id).2 } : World).Coherent ∧
      ∀ o, (w.cache.getOrder w.clock id).1 = .ok o → w.orders.getByID id = .ok o.stored := by
  obtain ⟨hs, hl⟩ := h.sound.getOrder w.clock id
  exact ⟨⟨h.faultless, hs, fun k o hl' => h.live k o (hl _ _ _ hl')⟩,
    fun o hg => OrderTable.getByID_eq_ok.2 (h.live _ _ (h.sound.live_of_getOrder hg))⟩

/-! ## Operations -/

theorem run_liftExcept_bind {α β : Type} (e : Except Fault α) (f : α → Svc β) (w : World) :
    ((liftM e : Svc α) >>= f).run w = match e with
      | .ok a => (f a).run w
      | .error err => (.error err, w) := by
  cases e <;> rfl

/-- In a coherent world a read through the cache, whatever follows it, leaves a
coherent world. It fails with the repository's error, or goes on with an order
stored as the repository's row under the id, which is then the only order the
cache can answer under it. -/
theorem World.Coherent.readThrough (h : w.Coherent) (id : Int) :
    ∃ c : OrderCache, ({ w with cache := c } : World).Coherent ∧
      ((∃ e, w.orders.getByID id = .error e ∧ ∀ {β : Type} (f : Order → Svc β),
          (Service.readThrough id >>= f).run w = (.error (.err e), { w with cache := c })) ∨
        ∃ order, w.orders.getByID id = .ok order.stored ∧ (∀ o', c.Live w.clock id o' → o' = order) ∧
          ∀ {β : Type} (f : Order → Svc β), (Service.readThrough id >>= f).run w = (f order).run { w with cache := c }) := by
  have hf := h.faultless
  obtain ⟨h₁, h₂⟩ := h.getOrder id
  refine ⟨_, h₁, ?_⟩
  cases hg : (w.cache.getOrder w.clock id).1 with
  | ok o =>
    refine .inr ⟨o, h₂ o hg, fun o' hl => ?_, fun f => ?_⟩
    · exact h.sound.live_unique ((h.sound.getOrder w.clock id).2 _ _ _ hl) (h.sound.live_of_getOrder hg)
    · rw [Service.readThrough, bind_assoc, run_liftM_bind]
      simp (disch := simp only [hf]) only [cacheStep_nil, cacheGetOrder, hg, pure_bind]
  | error e =>
    have hno := h.sound.getOrder_miss hg
    have hrt : ∀ {β : Type} (f : Order → Svc β), (Service.readThrough id >>= f).run w =
        (orThrow (w.orders.getByID id) >>= f).run { w with cache := (w.cache.getOrder w.clock id).2 } := by
      intro β f
      rw [Service.readThrough, bind_assoc, run_liftM_bind]
      simp (disch := simp only [hf]) only [cacheStep_nil, cacheGetOrder, hg]
      rw [bind_assoc, run_liftM_bind]
      simp (disch := simp only [hf]) only [repoStep_nil, repoGetByID]
    cases hr : w.orders.getByID id with
    | error e' => exact .inl ⟨e', rfl, fun f => by rw [hrt, hr, run_orThrow_bind]⟩
    | ok r =>
      refine .inr ⟨r, by rw [OrderTable.stored_of_getByID hr], fun o' hl => absurd hl (hno o'), fun f => ?_⟩
      rw [hrt, hr, run_orThrow_bind]

/-- A coherent world stays coherent through `DeliverOrder`. -/
theorem World.Coherent.deliverOrder (h : w.Coherent) (id customerID now : Int) :
    ((Service.deliverOrder id customerID now).run w).2.Coherent := by
  have hf := h.faultless
  obtain ⟨c, h₁, ⟨e, -, hrt⟩ | ⟨order, hg, huniq, hrt⟩⟩ := h.readThrough id
  · rw [Service.deliverOrder, hrt]; exact h₁
  have hoid : order.id = id := (OrderTable.getByID_eq_ok.1 hg).2
  rw [Service.deliverOrder, hrt, run_orThrow_bind]
  split
  case h_2 => exact h₁
  rename_i row hrow
  have hrid : row.id = order.id ∧ row.deadlineAt = order.deadlineAt := by
    unfold deliverRow at hrow
    split_ifs at hrow
    cases hrow
    exact ⟨rfl, rfl⟩
  rw [run_liftM_bind]
  cases hu : w.orders.update row with
  | error e => simp (disch := simp only [hf]) only [repoStep_nil, repoUpdate, hu, run_orThrow_bind]; exact h₁
  | ok t =>
    simp (disch := simp only [hf]) only [repoStep_nil, cacheStep_nil, repoUpdate, hu, run_orThrow_bind, run_liftM_bind, cacheSetOrder]
    have h₂ := (h₁.update hu).setOrder (OrderTable.mem_update_self hu) fun o' hl => by
      rw [hrid.1, hoid] at hl
      rw [huniq o' hl, hrid.2]
    split <;> exact ⟨h₂.faultless, h₂.sound, h₂.live⟩

/-- A coherent world stays coherent through `ProcessReturnOrder`. -/
theorem World.Coherent.processReturnOrder (h : w.Coherent) (id customerID now : Int) :
    ((Service.processReturnOrder id customerID now).run w).2.Coherent := by
  have hf := h.faultless
  obtain ⟨c, h₁, ⟨e, -, hrt⟩ | ⟨order, hg, -, hrt⟩⟩ := h.readThrough id
  · rw [Service.processReturnOrder, hrt]; exact h₁
  have hoid : order.id = id := (OrderTable.getByID_eq_ok.1 hg).2
  rw [Service.processReturnOrder, hrt, run_liftExcept_bind]
  split
  case h_2 => exact h₁
  rename_i row hrow
  have hrid : row.id = order.id := by
    unfold returnRow at hrow
    split_ifs at hrow
    split at hrow
    · cases hrow
    · split_ifs at hrow
      cases hrow
      rfl
  rw [run_liftM_bind]
  cases hu : w.orders.update row with
  | error e => simp (disch := simp only [hf]) only [repoStep_nil, repoUpdate, hu, run_orThrow_bind]; exact h₁
  | ok t =>
    simp (disch := simp only [hf]) only [repoStep_nil, cacheStep_nil, repoUpdate, hu, run_orThrow_bind, run_liftM_bind, cacheDeleteOrder]
    have h₂ := ((h₁.update hu).deleteOrder).1
    rw [hrid, hoid] at h₂
    split <;> exact ⟨h₂.faultless, h₂.sound, h₂.live⟩

/-- A coherent world stays coherent through `ReturnOrderToCourier`. -/
theorem World.Coherent.returnOrderToCourier (h : w.Coherent) (id : Int) :
    ((Service.returnOrderToCourier id).run w).2.Coherent := by
  have hf := h.faultless
  rw [Service.returnOrderToCourier, run_liftM_bind]
  dsimp only [timeNow]
  obtain ⟨c, h₁, ⟨e, -, hrt⟩ | ⟨order, -, -, hrt⟩⟩ := h.readThrough id
  · rw [hrt]; exact h₁
  rw [hrt, run_orThrow_bind]
  split
  case h_2 => exact h₁
  rw [run_liftM_bind]
  obtain ⟨h₂, hno⟩ := (h₁.off id).deleteOrder
  simp (disch := simp only [hf]) only [cacheStep_nil, cacheDeleteOrder, run_orThrow_bind]
  split
  case h_2 => exact h₂
  rw [run_liftM_bind]
  cases hd : w.orders.delete id with
  | error e => simp (disch := simp only [hf]) only [repoStep_nil, repoDelete, hd, run_orThrow_bind]; exact h₂
  | ok t =>
    simp (disch := simp only [hf]) only [repoStep_nil, repoDelete, hd, run_orThrow_bind, run_liftM_bind]
    have h₃ := h₂.delete hd hno
    exact ⟨h₃.faultless, h₃.sound, h₃.live⟩

/-- A coherent world stays coherent through `AcceptOrder`. -/
theorem World.Coherent.acceptOrder (h : w.Coherent) (a : AcceptArgs) :
    ((Service.acceptOrder a).run w).2.Coherent := by
  have hf := h.faultless
  rw [Service.acceptOrder, run_liftM_bind]
  dsimp only [timeNow]
  split
  · rw [run_throw_bind]; exact h
  rw [pure_bind]
  split
  · rw [run_throw_bind]; exact h
  simp (disch := simp only [hf]) only [pure_bind, run_liftM_bind, run_orThrow_bind, repoStep_nil, repoGetByID, repoCreateCheck]
  split
  case h_2 => exact h
  rename_i order hb
  split
  case h_2 => exact h
  cases hi : w.orders.insert order with
  | error e => simp (disch := simp only [hf]) only [repoStep_nil, repoInsert, hi, run_orThrow_bind]; exact h
  | ok t =>
    simp (disch := simp only [hf]) only [repoStep_nil, cacheStep_nil, repoInsert, hi, run_orThrow_bind, run_liftM_bind, cacheSetOrder]
    have hno := h.not_live (OrderTable.insert_ok hi).2.1
    have h₂ := ((h.insert hi).off order.id).setOrder (OrderTable.mem_insert_self hi) fun o' hl => absurd hl (hno o')
    split <;> exact ⟨h₂.faultless, h₂.sound, h₂.live⟩

/-- A coherent world stays coherent through `GetOrderByID`. -/
theorem World.Coherent.getOrderByID (h : w.Coherent) (id : Int) :
    ((Service.getOrderByID id).run w).2.Coherent := by
  have hf := h.faultless
  obtain ⟨h₁, -⟩ := h.getOrder id
  rw [Service.getOrderByID, run_liftM_bind]
  simp (disch := simp only [hf]) only [cacheStep_nil, cacheGetOrder]
  split
  · exact h₁
  rename_i e hmiss
  rw [run_liftM_bind, run_orThrow_bind]
  simp (disch := simp only [hf]) only [repoStep_nil, repoGetByID]
  split
  case h_2 => exact h₁
  rename_i order hg
  rw [run_liftM_bind]
  dsimp only [timeNow]
  split
  · have hno := h.sound.getOrder_miss hmiss
    have hm : order.stored ∈ w.orders.rows := by
      rw [OrderTable.stored_of_getByID hg]; exact OrderTable.mem_of_getByID hg
    have hoid : order.id = id := (OrderTable.getByID_eq_ok.1 hg).2
    have h₂ := (h₁.off order.id).setOrder hm fun o' hl => absurd hl (hoid ▸ hno o')
    show ((cacheStep (cacheSetOrder order)) { w with cache := (w.cache.getOrder w.clock id).2 }).2.Coherent
    simp (disch := simp only [hf]) only [cacheStep_nil]
    exact ⟨h₂.faultless, h₂.sound, h₂.live⟩
  · exact h₁

/-- `ClearDatabase` leaves a coherent world: nothing is live after it. -/
theorem World.Coherent.clearDatabase (h : w.Coherent) : (Service.clearDatabase.run w).2.Coherent := by
  obtain ⟨t, hrun, -⟩ := clearDatabase_run w h.faultless
  obtain ⟨hs, hno⟩ := h.sound.clearOrderCache w.clock
  rw [hrun]
  exact ⟨h.faultless, hs, fun k o hl => absurd hl (hno _ le_rfl k o)⟩

/-- A call that keeps worlds coherent, followed by calls that do, keeps them
coherent. -/
theorem World.Coherent.bind {α β : Type} {m : Svc α} {f : α → Svc β} (hm : (m.run w).2.Coherent)
    (hf : ∀ a w', m.run w = (.ok a, w') → w'.Coherent → ((f a).run w').2.Coherent) :
    ((m >>= f).run w).2.Coherent := by
  rcases hrun : m.run w with ⟨r, w'⟩
  rw [hrun] at hm
  cases r with
  | ok a => rw [run_bind_ok hrun]; exact hf a w' hrun hm
  | error e => rw [run_bind_error hrun]; exact hm

/-- With no failure scheduled, `OrderHistory` changes nothing. -/
theorem orderHistory_world (searchTerm : String) {w : World} (hf : w.faults = []) :
    ((orderHistory searchTerm).run w).2 = w := by
  unfold orderHistory
  split <;> dsimp only <;> rw [run_liftM_bind]
  · simp (disch := simp only [hf]) only [cacheStep_nil, cacheGetOrderHistory]
    split
    · rfl
    · rw [run_liftM_bind]
      simp (disch := simp only [hf]) only [repoStep_nil, repoList, run_orThrow_bind]
      rfl
  · simp (disch := simp only [hf]) only [repoStep_nil, repoList, run_orThrow_bind]
    rfl

theorem World.Coherent.refreshHistory (h : w.Coherent) : (Service.refreshHistory w).2.Coherent := by
  obtain ⟨hs, hl⟩ := h.sound.refreshHistoryCache w.clock (.ok w.orders.listAll)
  have e : (Service.refreshHistory w).2 = { w with cache := (w.cache.refreshHistoryCache w.clock (.ok w.orders.listAll)).2 } := by
    have hf := h.faultless
    show (cacheStep (cacheRefreshHistory (repoStep repoListAll w).1) (repoStep repoListAll w).2).2 = _
    simp (disch := simp only [hf]) only [repoStep_nil, cacheStep_nil, repoListAll, cacheRefreshHistory]
  rw [e]
  exact ⟨h.faultless, hs, fun k o ho => h.live k o (hl _ _ _ ho)⟩

theorem World.Coherent.tick (h : w.Coherent) {t : Int} (ht : w.clock ≤ t) : ({ w with clock := t } : World).Coherent :=
  ⟨h.faultless, h.sound, fun k o hl => h.live k o (OrderCache.live_mono ht hl)⟩

theorem World.Coherent.reap (h : w.Coherent) {c : InMemoryCache} (hc : w.cache = .inMemory c) :
    ({ w with cache := .inMemory (c.cleanupExpiredOrders w.clock) } : World).Coherent := by
  have hs := h.sound
  rw [hc] at hs
  obtain ⟨h₁, h₂⟩ := InMemoryCache.Coherent.cleanupExpiredOrders hs w.clock
  refine ⟨h.faultless, h₁, fun k o ⟨ttl, hm, hl⟩ => h.live k o ?_⟩
  rw [hc]
  exact ⟨ttl, h₂ _ hm, hl⟩

section Import

variable (parseDeadline : Int → String → Except OrderError Int)
  (processPackaging : Option String → Option String → Option PackageType × Option WrapperType)

theorem World.Coherent.importEach : ∀ (os : List FileOrder) {w : World}, w.Coherent →
    ((importEach parseDeadline processPackaging os).run w).2.Coherent
  | [], _, h => h
  | o :: os, w, h => by
    rw [Service.importEach, run_liftM_bind]
    dsimp only [timeNow]
    rw [run_orThrow_bind]
    split
    case h_2 => exact h
    exact World.Coherent.bind (h.acceptOrder _) fun _ w' _ h' => by
      rw [run_liftM_bind]
      exact World.Coherent.importEach os ⟨h'.faultless, h'.sound, h'.live⟩

theorem World.Coherent.acceptOrdersFromFile (h : w.Coherent) (file : Except OrderError (List FileOrder)) :
    ((acceptOrdersFromFile parseDeadline processPackaging file).run w).2.Coherent := by
  rw [Service.acceptOrdersFromFile, run_orThrow_bind]
  split
  · exact h.importEach parseDeadline processPackaging _
  · exact h

/-! ## Serial runs -/

/-- One step of a deployment whose calls run one after another: an operation
of the service run to its end, the history refresher's tick, the clock
advancing, or the in-process cache's reaper. -/
inductive SerialStep : World → World → Prop
  | acceptOrder (w : World) (a : AcceptArgs) : SerialStep w ((Service.acceptOrder a).run w).2
  | acceptOrdersFromFile (w : World) (file : Except OrderError (List FileOrder)) :
      SerialStep w ((Service.acceptOrdersFromFile parseDeadline processPackaging file).run w).2
  | deliverOrder (w : World) (id customerID now : Int) :
      SerialStep w ((Service.deliverOrder id customerID now).run w).2
  | processReturnOrder (w : World) (id customerID now : Int) :
      SerialStep w ((Service.processReturnOrder id customerID now).run w).2
  | returnOrderToCourier (w : World) (id : Int) : SerialStep w ((Service.returnOrderToCourier id).run w).2
  | getOrderByID (w : World) (id : Int) : SerialStep w ((Service.getOrderByID id).run w).2
  | clearDatabase (w : World) : SerialStep w (Service.clearDatabase.run w).2
  | orderHistory (w : World) (searchTerm : String) : SerialStep w ((orderHistory searchTerm).run w).2
  | refreshHistory (w : World) : SerialStep w (refreshHistory w).2
  | tick (w : World) (t : Int) (h : w.clock ≤ t) : SerialStep w { w with clock := t }
  | reap (w : World) (c : InMemoryCache) (h : w.cache = .inMemory c) :
      SerialStep w { w with cache := .inMemory (c.cleanupExpiredOrders w.clock) }

/-- The worlds a deployment reaches with its calls run one after another and
none of its store or cache calls failing: from an empty table, no failure
scheduled, and a new cache whose order-key prefix holds no pattern byte, any
sequence of serial steps. -/
inductive SerialReachable : World → Prop
  | init (cache : OrderCache) (h : cache.New) (hp : cache.PlainPrefix) (clock : Int) :
      SerialReachable (World.init cache clock)
  | step {w w' : World} : SerialReachable w → SerialStep parseDeadline processPackaging w w' → SerialReachable w'

theorem World.coherent_init {cache : OrderCache} (h : cache.New) (hp : cache.PlainPrefix) (clock : Int) :
    (World.init cache clock).Coherent :=
  ⟨rfl, OrderCache.new_sound h hp, fun k o hl => absurd hl (OrderCache.new_live h _ k o)⟩

theorem SerialStep.coherent {w w' : World} (hs : SerialStep parseDeadline processPackaging w w') (h : w.Coherent) :
    w'.Coherent := by
  cases hs with
  | acceptOrder a => exact h.acceptOrder a
  | acceptOrdersFromFile file => exact h.acceptOrdersFromFile parseDeadline processPackaging file
  | deliverOrder id c now => exact h.deliverOrder id c now
  | processReturnOrder id c now => exact h.processReturnOrder id c now
  | returnOrderToCourier id => exact h.returnOrderToCourier id
  | getOrderByID id => exact h.getOrderByID id
  | clearDatabase => exact h.clearDatabase
  | orderHistory s => rw [orderHistory_world s h.faultless]; exact h
  | refreshHistory => exact h.refreshHistory
  | tick t ht => exact h.tick ht
  | reap c hc => exact h.reap hc

theorem SerialReachable.coherent {w : World} (h : SerialReachable parseDeadline processPackaging w) :
    w.Coherent := by
  induction h with
  | init cache h hp clock => exact World.coherent_init h hp clock
  | step _ hs ih => exact hs.coherent parseDeadline processPackaging ih

end Import

section Import

variable (parseDeadline : Int → String → Except OrderError Int)
  (processPackaging : Option String → Option String → Option PackageType × Option WrapperType)

end Import

end Service

end Pvz
