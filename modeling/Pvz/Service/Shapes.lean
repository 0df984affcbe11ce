import Pvz.Service.Races

/-!
# Every reachable row has one of the three shapes

Rows are written whole by `Update`, from whatever copy the writer read, and
that copy may come from a stale cache entry or from before another call's
write. The shapes survive regardless: each call writes a row computed from an
order it read, every order it can read (from the table or from either cache)
is shaped, and the guards of `deliverRow` and `returnRow` turn a shaped order
into a shaped row. A world is `Shapely` when every row and every cached
order is shaped; a call is `Shaped` when every row it still means to write
is. `Keeps` says of one action that it keeps the world shapely and returns
only shaped orders; each operation's step lemma is assembled from these.

`ProcessReturnOrder` dereferences `DeliveredAt` only after seeing the state
`delivered`, which a shaped order has only with a delivery time, so no call
ends in a nil dereference.
-/

namespace Pvz.Service

open Cache

/-- Every stored row and every cached order is shaped, and the in-process
map points into its elements. -/
structure World.Shapely (w : World) : Prop where
  rows : ∀ o ∈ w.orders.rows, o.Shaped
  cached : ∀ o, w.cache.Holds o → o.Shaped
  valid : w.cache.Valid

/-- The action keeps the world shapely, and what it returns satisfies `P`. -/
def Keeps {α : Type} (a : StateM World α) (P : α → Prop) : Prop :=
  ∀ w, w.Shapely → (a w).2.Shapely ∧ P (a w).1

/-- A read result that, when it is an order, is a shaped one. -/
def ShapedRead (r : Except OrderError Order) : Prop := ∀ o, r = .ok o → o.Shaped

theorem shapedRead_error (e : OrderError) : ShapedRead (.error e) := by
  intro o h; cases h

/-! ## Actions -/

section Actions

variable {α : Type} {a : StateM World (Except OrderError α)} {P : Except OrderError α → Prop}
  {fail : Bool} {id : Int} {o : Order}

theorem Keeps.repoCall (h : Keeps a P) (he : ∀ e, P (.error e)) : Keeps (repoCall fail a) P := by
  intro w hw; unfold Service.repoCall; split
  · exact ⟨hw, he _⟩
  · exact h w hw

theorem Keeps.cacheCall (h : Keeps a P) (he : ∀ e, P (.error e)) : Keeps (cacheCall fail a) P := by
  intro w hw; unfold Service.cacheCall; split
  · exact ⟨hw, he _⟩
  · exact h w hw

/-- A change of the cache that holds nothing new keeps the world shapely. -/
theorem shapely_cache {w : World} {c : OrderCache} (hw : w.Shapely)
    (hh : ∀ o, c.Holds o → w.cache.Holds o ∨ o.Shaped) (hv : c.Valid) :
    ({ w with cache := c } : World).Shapely :=
  ⟨hw.rows, fun o ho => (hh o ho).elim (hw.cached o) id, hv⟩

/-- A change of the table that stores nothing new keeps the world shapely. -/
theorem shapely_orders {w : World} {t : OrderTable} (hw : w.Shapely)
    (ht : ∀ o ∈ t.rows, o ∈ w.orders.rows ∨ o.Shaped) : ({ w with orders := t } : World).Shapely :=
  ⟨fun o ho => (ht o ho).elim (hw.rows o) id, hw.cached, hw.valid⟩

theorem keeps_cacheGetOrder : Keeps (cacheGetOrder id) ShapedRead := fun _ hw =>
  ⟨shapely_cache hw (fun _ h => .inl (OrderCache.holds_getOrder h)) (OrderCache.valid_getOrder hw.valid),
   fun _ h => hw.cached _ (OrderCache.holds_of_getOrder hw.valid h)⟩

theorem keeps_cacheSetOrder (ho : o.Shaped) : Keeps (cacheSetOrder o) fun _ => True := fun _ hw =>
  ⟨shapely_cache hw (fun _ h => (OrderCache.holds_setOrder hw.valid h).imp_right fun e => by rw [e]; exact ho)
    (OrderCache.valid_setOrder hw.valid), trivial⟩

theorem keeps_cacheDeleteOrder : Keeps (cacheDeleteOrder id) fun _ => True := fun _ hw =>
  ⟨shapely_cache hw (fun _ h => .inl (OrderCache.holds_deleteOrder h)) (OrderCache.valid_deleteOrder hw.valid),
   trivial⟩

theorem keeps_cacheClearOrderCache : Keeps cacheClearOrderCache fun _ => True := fun _ hw =>
  ⟨shapely_cache hw (fun _ h => .inl (OrderCache.holds_clearOrderCache h))
    (OrderCache.valid_clearOrderCache hw.valid), trivial⟩

theorem keeps_repoGetByID : Keeps (repoGetByID id) ShapedRead := fun _ hw =>
  ⟨hw, fun _ h => hw.rows _ (OrderTable.mem_of_getByID h)⟩

theorem keeps_repoListAll : Keeps repoListAll fun _ => True := fun _ hw => ⟨hw, trivial⟩

theorem keeps_repoCreateCheck : Keeps (repoCreateCheck o) fun _ => True := fun _ hw => ⟨hw, trivial⟩

theorem keeps_repoInsert (ho : o.Shaped) : Keeps (repoInsert o) fun _ => True := by
  intro w hw; unfold repoInsert; split
  · exact ⟨shapely_orders hw fun r hr => (OrderTable.mem_insert ‹_› hr).imp_right fun e => by rw [e]; exact ho.stored, trivial⟩
  · exact ⟨hw, trivial⟩

theorem keeps_repoUpdate (ho : o.Shaped) : Keeps (repoUpdate o) fun _ => True := by
  intro w hw; unfold repoUpdate; split
  · exact ⟨shapely_orders hw fun r hr => (OrderTable.mem_update ‹_› hr).imp_right fun e => by rw [e]; exact ho.stored, trivial⟩
  · exact ⟨hw, trivial⟩

theorem keeps_repoDelete : Keeps (repoDelete id) fun _ => True := by
  intro w hw; unfold repoDelete; split
  · exact ⟨shapely_orders hw fun r hr => .inl (OrderTable.mem_delete ‹_› hr), trivial⟩
  · exact ⟨hw, trivial⟩

theorem shapely_log {w : World} (hw : w.Shapely) (id : Int) (old new : String) :
    (logOrderStatusChange id old new w).2.Shapely := ⟨hw.rows, hw.cached, hw.valid⟩

theorem shapely_record {w : World} (hw : w.Shapely) (f : Metrics → Metrics) : (record f w).2.Shapely :=
  ⟨hw.rows, hw.cached, hw.valid⟩

end Actions

/-! ## Rows the guards let through -/

theorem build_shaped {a : AcceptArgs} {now : Int} {e : Except OrderError Order} {o : Order}
    (h : a.build now e = .ok o) : o.Shaped := by
  simp only [AcceptArgs.build, bind, Except.bind, pure, Except.pure] at h
  split at h; · cases h
  split at h; · cases h
  split at h; · cases h
  split at h
  · cases h
  · cases h; exact shaped_accepted _ rfl rfl rfl

theorem deliverRow_shaped {customerID now : Int} {order row : Order} (ho : order.Shaped)
    (h : deliverRow customerID now order = .ok row) : row.Shaped := by
  unfold deliverRow at h
  split at h; · cases h
  split at h; · cases h
  split at h; · cases h
  cases h
  have hr := (ho.of_accepted (by simpa using ‹¬order.state ≠ _›)).2
  simp [Order.Shaped, ShapeOf, hr]

/-- The guard reads `*order.DeliveredAt` only on a delivered order, which a
shaped order has only with a delivery time. -/
theorem returnRow_ne_nilDereference {customerID now : Int} {order : Order} (ho : order.Shaped) :
    returnRow customerID now order ≠ .error .nilDereference := by
  unfold returnRow
  split; · simp
  split; · simp
  obtain ⟨⟨d, hd⟩, -⟩ := ho.of_delivered (by simpa using ‹¬order.state ≠ _›)
  rw [hd]; dsimp only; split <;> simp

theorem returnRow_shaped {customerID now : Int} {order row : Order}
    (h : returnRow customerID now order = .ok row) : row.Shaped := by
  unfold returnRow at h
  split at h; · cases h
  split at h; · cases h
  split at h
  · cases h
  · rename_i d _
    split at h
    · cases h
    · cases h
      have hle : now - d ≤ returnedAt := by
        simp only [goSub, minDuration, maxDuration, returnedAt, hour, minute, second, millisecond] at *
        omega
      simp [Order.Shaped, ShapeOf, *]

/-! ## Calls -/

/-- A call's next state keeps `P`, or its end is not a nil dereference. -/
def Next.Ok {σ : Type} (P : σ → Prop) : Next σ → Prop
  | .cont pc => P pc
  | .done r => r ≠ .error .nilDereference

section Steps

variable {σ α : Type} {P : σ → Prop} {w : World} {fail : Bool}

@[simp] theorem andThen_world (r : Except OrderError α × World) (k : α → σ) : (andThen r k).2 = r.2 := by
  unfold andThen; split <;> rfl

theorem andThen_ok (r : Except OrderError α × World) {k : α → σ} (hk : ∀ a, P (k a)) :
    (andThen r k).1.Ok P := by
  unfold andThen; split
  · exact hk _
  · simp [Next.Ok]

/-- An action that keeps the world shapely, followed by `andThen`. -/
theorem andThen_keeps {a : StateM World (Except OrderError α)} {Q : Except OrderError α → Prop}
    (ha : Keeps a Q) (hw : w.Shapely) {k : α → σ} (hk : ∀ x, P (k x)) :
    (andThen (a w) k).2.Shapely ∧ (andThen (a w) k).1.Ok P :=
  ⟨by simpa using (ha w hw).1, andThen_ok _ hk⟩

theorem readThroughStep_keeps {fromRepo : Bool} {id : Int} {retry : σ} {found : Order → Next σ}
    (hw : w.Shapely) (hretry : P retry) (hfound : ∀ o, o.Shaped → (found o).Ok P) :
    (readThroughStep fail fromRepo id w retry found).2.Shapely ∧
      (readThroughStep fail fromRepo id w retry found).1.Ok P := by
  unfold readThroughStep
  split <;> dsimp only
  · obtain ⟨hw', hr⟩ := (keeps_repoGetByID.repoCall shapedRead_error) w hw
    split
    · exact ⟨hw', hfound _ (hr _ ‹_›)⟩
    · exact ⟨hw', by simp [Next.Ok]⟩
  · obtain ⟨hw', hr⟩ := (keeps_cacheGetOrder.cacheCall shapedRead_error) w hw
    split
    · exact ⟨hw', hfound _ (hr _ ‹_›)⟩
    · exact ⟨hw', hretry⟩

end Steps

/-- The rows an `AcceptOrder` call still means to write are shaped. -/
def AcceptPc.Shaped : AcceptPc → Prop
  | .start _ => True
  | .createCheck o | .insert o | .setOrder o | .log o => o.Shaped

theorem AcceptPc.step_keeps (fail : Bool) {w : World} {pc : AcceptPc} (hw : w.Shapely) (hp : pc.Shaped) :
    (pc.step fail w).2.Shapely ∧ (pc.step fail w).1.Ok AcceptPc.Shaped := by
  cases pc with
  | start a =>
    simp only [AcceptPc.step]
    split; · exact ⟨hw, by simp [Next.Ok]⟩
    split; · exact ⟨hw, by simp [Next.Ok]⟩
    have hw' : (repoCall fail (repoGetByID a.id) w).2.Shapely :=
      ((keeps_repoGetByID.repoCall shapedRead_error) w hw).1
    split
    · exact ⟨hw', build_shaped ‹_›⟩
    · exact ⟨hw', by simp [Next.Ok]⟩
  | createCheck o => exact andThen_keeps (keeps_repoCreateCheck.repoCall fun _ => trivial) hw fun _ => hp
  | insert o => exact andThen_keeps ((keeps_repoInsert hp).repoCall fun _ => trivial) hw fun _ => hp
  | setOrder o => exact andThen_keeps ((keeps_cacheSetOrder hp).cacheCall fun _ => trivial) hw fun _ => hp
  | log o => simp only [AcceptPc.step]; exact ⟨shapely_record (shapely_log hw _ _ _) _, by simp [Next.Ok]⟩

/-- The row a `DeliverOrder` call still means to write is shaped. -/
def DeliverPc.Shaped : DeliverPc → Prop
  | .read _ => True
  | .update _ row | .setOrder _ row | .log _ row => row.Shaped

theorem DeliverPc.step_keeps (fail : Bool) (id customerID now : Int) {w : World} {pc : DeliverPc}
    (hw : w.Shapely) (hp : pc.Shaped) :
    (pc.step fail id customerID now w).2.Shapely ∧ (pc.step fail id customerID now w).1.Ok DeliverPc.Shaped := by
  cases pc with
  | read fromRepo =>
    refine readThroughStep_keeps hw trivial fun o ho => ?_
    split
    · exact deliverRow_shaped ho ‹_›
    · simp [Next.Ok]
  | update order row => exact andThen_keeps ((keeps_repoUpdate hp).repoCall fun _ => trivial) hw fun _ => hp
  | setOrder order row =>
    exact andThen_keeps ((keeps_cacheSetOrder hp).cacheCall fun _ => trivial) hw fun _ => hp
  | log order row => simp only [DeliverPc.step]; exact ⟨shapely_record (shapely_log hw _ _ _) _, by simp [Next.Ok]⟩

/-- The row a `ProcessReturnOrder` call still means to write is shaped. -/
def ReturnPc.Shaped : ReturnPc → Prop
  | .read _ => True
  | .update _ row | .deleteOrder _ row | .log _ row => row.Shaped

theorem ReturnPc.step_keeps (fail : Bool) (id customerID now : Int) {w : World} {pc : ReturnPc}
    (hw : w.Shapely) (hp : pc.Shaped) :
    (pc.step fail id customerID now w).2.Shapely ∧ (pc.step fail id customerID now w).1.Ok ReturnPc.Shaped := by
  cases pc with
  | read fromRepo =>
    refine readThroughStep_keeps hw trivial fun o ho => ?_
    split
    · exact returnRow_shaped ‹_›
    · rename_i f hf
      exact fun h => returnRow_ne_nilDereference ho (hf.trans (by rw [Except.error.injEq] at h ⊢; rw [h]))
  | update order row => exact andThen_keeps ((keeps_repoUpdate hp).repoCall fun _ => trivial) hw fun _ => hp
  | deleteOrder order row =>
    exact andThen_keeps (keeps_cacheDeleteOrder.cacheCall fun _ => trivial) hw fun _ => hp
  | log order row => simp only [ReturnPc.step]; exact ⟨shapely_record (shapely_log hw _ _ _) _, by simp [Next.Ok]⟩

theorem CourierPc.step_keeps (fail : Bool) (id : Int) (pc : CourierPc) {w : World} (hw : w.Shapely) :
    (pc.step fail id w).2.Shapely ∧ (pc.step fail id w).1.Ok fun _ => True := by
  cases pc with
  | start => exact ⟨hw, trivial⟩
  | read now fromRepo =>
    refine readThroughStep_keeps hw trivial fun o _ => ?_
    split
    · trivial
    · simp [Next.Ok]
  | deleteOrder order => exact andThen_keeps (keeps_cacheDeleteOrder.cacheCall fun _ => trivial) hw fun _ => trivial
  | deleteRow order => exact andThen_keeps (keeps_repoDelete.repoCall fun _ => trivial) hw fun _ => trivial
  | log order => simp only [CourierPc.step]; exact ⟨shapely_record (shapely_log hw _ _ _) _, by simp [Next.Ok]⟩

/-- The order a `GetOrderByID` call means to put into the cache is shaped. -/
def GetPc.Shaped : GetPc → Prop
  | .read _ => True
  | .setOrder o => o.Shaped

theorem GetPc.step_keeps (fail : Bool) (id : Int) {w : World} {pc : GetPc} (hw : w.Shapely) (hp : pc.Shaped) :
    (pc.step fail id w).2.Shapely ∧ (pc.step fail id w).1.Ok GetPc.Shaped := by
  cases pc with
  | read fromRepo =>
    cases fromRepo with
    | false =>
      have hw' : (cacheCall fail (cacheGetOrder id) w).2.Shapely :=
        ((keeps_cacheGetOrder.cacheCall shapedRead_error) w hw).1
      simp only [GetPc.step]
      split
      · exact ⟨hw', by simp [Next.Ok]⟩
      · exact ⟨hw', trivial⟩
    | true =>
      obtain ⟨hw', hr⟩ :=
        (keeps_repoGetByID.repoCall shapedRead_error : Keeps (repoCall fail (repoGetByID id)) _) w hw
      simp only [GetPc.step]
      split
      · split
        · exact ⟨hw', hr _ ‹_›⟩
        · exact ⟨hw', by simp [Next.Ok]⟩
      · exact ⟨hw', by simp [Next.Ok]⟩
  | setOrder o => exact ⟨((keeps_cacheSetOrder hp).cacheCall fun _ => trivial) w hw |>.1, by simp [GetPc.step, Next.Ok]⟩

theorem ClearPc.step_keeps (fail : Bool) (pc : ClearPc) {w : World} (hw : w.Shapely) :
    (pc.step fail w).2.Shapely ∧ (pc.step fail w).1.Ok fun _ => True := by
  cases pc with
  | start => exact andThen_keeps (keeps_repoListAll.repoCall fun _ => trivial) hw fun _ => trivial
  | deleting rest =>
    cases rest with
    | nil => exact ⟨hw, trivial⟩
    | cons o os => exact andThen_keeps (keeps_repoDelete.repoCall fun _ => trivial) hw fun _ => trivial
  | clearCache =>
    have hw' : (cacheCall fail cacheClearOrderCache w).2.Shapely :=
      ((keeps_cacheClearOrderCache.cacheCall fun _ => trivial) w hw).1
    simp only [ClearPc.step]
    split
    · exact ⟨hw', by simp [Next.Ok]⟩
    · exact ⟨hw', by simp [Next.Ok]⟩

section Import

variable (parseDeadline : Int → String → Except OrderError Int)
  (processPackaging : Option String → Option String → Option PackageType × Option WrapperType)

/-- The rows an import still means to write are shaped. -/
def ImportPc.Shaped : ImportPc → Prop
  | .accept _ _ pc => pc.Shaped
  | _ => True

theorem ImportPc.step_keeps (fail : Bool) {w : World} {pc : ImportPc} (hw : w.Shapely) (hp : pc.Shaped) :
    (pc.step parseDeadline processPackaging fail w).2.Shapely ∧
      (pc.step parseDeadline processPackaging fail w).1.Ok ImportPc.Shaped := by
  cases pc with
  | next rest =>
    cases rest with
    | nil => exact ⟨hw, by simp [ImportPc.step, Next.Ok]⟩
    | cons o os =>
      simp only [ImportPc.step]
      split
      · exact ⟨hw, by simp [Next.Ok]⟩
      · exact ⟨hw, trivial⟩
  | accept id os pc =>
    obtain ⟨hw', hn⟩ := AcceptPc.step_keeps fail hw hp
    simp only [ImportPc.step]
    split <;> rename_i h <;> rw [h] at hn
    · exact ⟨hw', hn⟩
    · exact ⟨hw', trivial⟩
    · exact ⟨hw', hn⟩
  | log id os => exact ⟨shapely_log hw _ _ _, trivial⟩

/-- A call's rows still to be written are shaped, and an ended call did not
end in a nil dereference. -/
def Call.Shaped : Call → Prop
  | .acceptOrder pc => pc.Shaped
  | .acceptOrdersFromFile pc => pc.Shaped
  | .deliverOrder _ _ _ pc => pc.Shaped
  | .processReturnOrder _ _ _ pc => pc.Shaped
  | .returnOrderToCourier _ _ => True
  | .getOrderByID _ pc => pc.Shaped
  | .clearDatabase _ => True
  | .done r => r ≠ .error .nilDereference

theorem Next.toCall_shaped {σ : Type} {P : σ → Prop} (k : σ → Call) (hk : ∀ pc, P pc → (k pc).Shaped)
    {n : Next σ} (h : n.Ok P) : (n.toCall k).Shaped := by
  cases n with
  | cont pc => exact hk pc h
  | done r => exact h

/-- One action of a call keeps the world shapely and the call shaped. -/
theorem Call.step_keeps (fail : Bool) {w : World} {c : Call} (hw : w.Shapely) (hc : c.Shaped) :
    (c.step parseDeadline processPackaging fail w).2.Shapely ∧
      (c.step parseDeadline processPackaging fail w).1.Shaped := by
  cases c with
  | acceptOrder pc =>
    obtain ⟨h1, h2⟩ := AcceptPc.step_keeps fail hw hc
    exact ⟨h1, Next.toCall_shaped .acceptOrder (fun _ h => h) h2⟩
  | acceptOrdersFromFile pc =>
    obtain ⟨h1, h2⟩ := ImportPc.step_keeps parseDeadline processPackaging fail hw hc
    exact ⟨h1, Next.toCall_shaped .acceptOrdersFromFile (fun _ h => h) h2⟩
  | deliverOrder id customerID now pc =>
    obtain ⟨h1, h2⟩ := DeliverPc.step_keeps fail id customerID now hw hc
    exact ⟨h1, Next.toCall_shaped (.deliverOrder id customerID now) (fun _ h => h) h2⟩
  | processReturnOrder id customerID now pc =>
    obtain ⟨h1, h2⟩ := ReturnPc.step_keeps fail id customerID now hw hc
    exact ⟨h1, Next.toCall_shaped (.processReturnOrder id customerID now) (fun _ h => h) h2⟩
  | returnOrderToCourier id pc =>
    obtain ⟨h1, h2⟩ := CourierPc.step_keeps fail id pc hw
    exact ⟨h1, Next.toCall_shaped (.returnOrderToCourier id) (fun _ _ => trivial) h2⟩
  | getOrderByID id pc =>
    obtain ⟨h1, h2⟩ := GetPc.step_keeps fail id hw hc
    exact ⟨h1, Next.toCall_shaped (.getOrderByID id) (fun _ h => h) h2⟩
  | clearDatabase pc =>
    obtain ⟨h1, h2⟩ := ClearPc.step_keeps fail pc hw
    exact ⟨h1, Next.toCall_shaped .clearDatabase (fun _ _ => trivial) h2⟩
  | done r => exact ⟨hw, hc⟩

/-- The invariant of the system: a shapely world and shaped calls. -/
structure Sys.Inv (s : Sys) : Prop where
  world : s.world.Shapely
  calls : ∀ c ∈ s.calls, c.Shaped

theorem Sys.Inv.init (cache : OrderCache) (h : cache.New) (clock : Int) :
    Sys.Inv ⟨World.init cache clock, []⟩ := by
  refine ⟨⟨(fun _ h => by cases h), fun o ho => ?_, ?_⟩, fun _ h => by cases h⟩
  · cases h with
    | inMemory consts => rcases ho with ⟨_, h, _⟩ | ⟨_, h, _⟩ <;> cases h
    | redis consts => obtain ⟨_, h, _⟩ := ho; cases h
  · cases h with
    | inMemory consts => intro _ h; cases h
    | redis consts => trivial

theorem Step.inv {s s' : Sys} (h : Step parseDeadline processPackaging s s') (hi : s.Inv) : s'.Inv := by
  cases h with
  | act i fail =>
    obtain ⟨h1, h2⟩ := Call.step_keeps parseDeadline processPackaging fail hi.world
      (hi.calls _ (List.get_mem _ _ _))
    refine ⟨h1, fun c hc => ?_⟩
    rcases List.mem_or_eq_of_mem_set hc with hc | rfl
    · exact hi.calls c hc
    · exact h2
  | begin c hb =>
    refine ⟨hi.world, fun c' hc => ?_⟩
    rcases List.mem_append.1 hc with hc | hc
    · exact hi.calls c' hc
    · rw [List.mem_singleton.1 hc]; cases hb <;> trivial
  | tick t _ => exact ⟨⟨hi.world.rows, hi.world.cached, hi.world.valid⟩, hi.calls⟩
  | reap c hc =>
    obtain ⟨h1, h2, h3⟩ := InMemoryCache.cleanup_eq c s.world.clock
    have hv : c.Valid := by have := hi.world.valid; rw [hc] at this; exact this
    refine ⟨⟨hi.world.rows, fun o ho => hi.world.cached o ?_, h3 hv⟩, hi.calls⟩
    rw [hc]
    rcases ho with ⟨it, hit, rfl⟩ | ⟨e, he, hm⟩
    · exact .inl ⟨it, h1 ▸ hit, rfl⟩
    · rcases h2 with h2 | h2 <;> rw [h2] at he
      · cases he
      · exact .inr ⟨e, he, hm⟩

theorem Reachable.inv {s : Sys} (h : Reachable parseDeadline processPackaging s) : s.Inv := by
  induction h with
  | init cache h clock => exact Sys.Inv.init cache h clock
  | step _ hs ih => exact Step.inv parseDeadline processPackaging hs ih

/-- In every state reachable by any interleaving of the service's calls, with
any store or cache call failing, every stored row and every order either
cache holds has one of the three shapes, and no call has ended by
dereferencing a nil `DeliveredAt`. -/
theorem reachable_rows_shaped {s : Sys} (h : Reachable parseDeadline processPackaging s) :
    (∀ o ∈ s.world.orders.rows, o.Shaped) ∧ (∀ o, s.world.cache.Holds o → o.Shaped) ∧
      ∀ c ∈ s.calls, c ≠ .done (.error .nilDereference) := by
  have hi := Reachable.inv parseDeadline processPackaging h
  refine ⟨hi.world.rows, hi.world.cached, fun c hc he => ?_⟩
  have := hi.calls c hc
  rw [he] at this
  exact this rfl

end Import

/-- `reachable_rows_shaped` after the stale-write schedule: the table holds
the returned order, Redis the delivered one, and one `DeliverOrder` call is
still to write. -/
theorem reachable_rows_shaped_staleWrite :
    Reachable raceParseDeadline raceProcessPackaging (raceStart.replay raceParseDeadline raceProcessPackaging staleWrite) ∧
      (raceStart.replay raceParseDeadline raceProcessPackaging staleWrite).world.orders.rows.map
        (fun o => (o.id, o.state, o.deliveredAt, o.returnedAt)) = [(1, .returned, some (20 * second), some (30 * second))] ∧
      (∀ o ∈ (raceStart.replay raceParseDeadline raceProcessPackaging staleWrite).world.orders.rows, o.Shaped) ∧
      (∀ o, (raceStart.replay raceParseDeadline raceProcessPackaging staleWrite).world.cache.Holds o → o.Shaped) ∧
      ∀ c ∈ (raceStart.replay raceParseDeadline raceProcessPackaging staleWrite).calls, c ≠ .done (.error .nilDereference) :=
  have h := reachable_raceStart.replay _ _ staleWrite
  ⟨h, by decide, reachable_rows_shaped _ _ h⟩

end Pvz.Service
