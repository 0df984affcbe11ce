import Pvz.Outbox.Dispatcher

/-!
# Stranded tasks

`FetchTasksIDs` claims a task by setting it to `PROCESSING`; only the worker
that claimed it ever marks it again, and `FetchTasksIDs` never claims a
`PROCESSING` task. So a `PROCESSING` task that no worker holds is stranded:
no step changes its row, and no step publishes its event
(`Dispatcher.Stranded.step`). A worker lets go of a task it claimed only by a
mark; a mark that succeeds takes the task out of `PROCESSING`, so only a
failed `MarkTaskFailed` or `MarkTaskCompleted` strands it
(`stranded_by_failed_mark`). `processOutboxBatch` logs such a failure and
moves on to its next task (`src/pkg/repository/user.go:452-476`).
-/

namespace Pvz.Outbox

/-- The ids of the tasks a worker holds: the one it is at, and the rest of its
batch. -/
def OutboxPc.held : OutboxPc → List Nat
  | .get ids => ids.map (·.taskID)
  | .send id _ rest | .markFailed id rest | .markCompleted id rest => id.taskID :: rest.map (·.taskID)
  | .idle | .exited => []

/-- The tasks in some worker's in-flight batch. -/
def Dispatcher.inFlight (s : Dispatcher) : List Nat := s.workers.flatMap OutboxPc.held

/-- Task `t` is `PROCESSING` and no worker holds it. -/
structure Dispatcher.Stranded (s : Dispatcher) (t : Nat) : Prop where
  exists_row : ∃ r ∈ s.tasks, r.id = t
  processing : ∀ r ∈ s.tasks, r.id = t → r.status = .processing
  lt_next : t < s.nextTaskID
  not_held : t ∉ s.inFlight

variable {s s' : Dispatcher} {t : Nat}

theorem held_subset_inFlight {i : Nat} {pc : OutboxPc} (hi : s.workers[i]? = some pc) :
    ∀ x ∈ pc.held, x ∈ s.inFlight :=
  fun _ hx => List.mem_flatMap.2 ⟨pc, List.getElem?_mem hi, hx⟩

/-- A worker that moves to a state not holding `t` puts nothing new in flight. -/
theorem not_mem_inFlight_setWorker {i : Nat} {pc : OutboxPc} (h : t ∉ s.inFlight) (hpc : t ∉ pc.held) :
    t ∉ (s.setWorker i pc).inFlight := by
  intro ht
  obtain ⟨q, hq, htq⟩ := List.mem_flatMap.1 ht
  rcases List.mem_or_eq_of_mem_set hq with hq | rfl
  · exact h (List.mem_flatMap.2 ⟨q, hq, htq⟩)
  · exact hpc htq

@[simp] theorem markTask_workers (k : Nat) (f : Task → Task) : (s.markTask k f).workers = s.workers := by
  unfold Dispatcher.markTask; split <;> rfl

@[simp] theorem markTask_nextTaskID (k : Nat) (f : Task → Task) : (s.markTask k f).nextTaskID = s.nextTaskID := by
  unfold Dispatcher.markTask; split <;> rfl

@[simp] theorem markTask_published (k : Nat) (f : Task → Task) : (s.markTask k f).published = s.published := by
  unfold Dispatcher.markTask; split <;> rfl

theorem markFailed_status (now : Int) (r : Task) : (Task.markFailed now r).status ≠ .processing := by
  unfold Task.markFailed; split_ifs <;> simp

theorem markCompleted_status (now : Int) (r : Task) : (Task.markCompleted now r).status ≠ .processing := by
  simp [Task.markCompleted]

/-! ## What a step can do -/

/-- A step is a worker's step, or one that keeps the workers and what was
published and only adds rows with new ids. -/
theorem Dispatcher.step_cases {a : Act} (h : s.step a = some s') :
    (s'.workers = s.workers ∧ s'.published = s.published ∧ s.nextTaskID ≤ s'.nextTaskID ∧
      s.tasks ⊆ s'.tasks ∧ ∀ r ∈ s'.tasks, r ∈ s.tasks ∨ s.nextTaskID ≤ r.id) ∨
    ∃ i fail pc, a = .worker i fail ∧ s.workers[i]? = some pc ∧ s.workerStep i fail pc = some s' := by
  cases a with
  | worker i fail =>
    simp only [Dispatcher.step] at h
    cases hi : s.workers[i]? with
    | none => simp only [hi] at h; cases h
    | some pc => simp only [hi] at h; exact .inr ⟨i, fail, pc, rfl, hi, h⟩
  | createLogsWithTasks batch =>
    cases h
    refine .inl ⟨rfl, rfl, Nat.le_add_right _ _, List.subset_append_left _ _, fun r hr => ?_⟩
    rcases List.mem_append.1 hr with hr | hr
    · exact .inl hr
    · obtain ⟨k, -, rfl⟩ := List.mem_map.1 hr
      exact .inr (Nat.le_add_right _ _)
  | tick t' =>
    simp only [Dispatcher.step] at h
    split at h
    · cases h; exact .inl ⟨rfl, rfl, le_rfl, List.Subset.refl _, fun r hr => .inl hr⟩
    · cases h
  | stop => cases h; exact .inl ⟨rfl, rfl, le_rfl, List.Subset.refl _, fun r hr => .inl hr⟩

/-! ## A stranded task stays stranded -/

/-- A worker that moves to a state not holding `t` keeps `t` stranded. -/
theorem Dispatcher.Stranded.setWorker (h : s.Stranded t) {i : Nat} {pc : OutboxPc} (hpc : t ∉ pc.held) :
    (s.setWorker i pc).Stranded t :=
  ⟨h.exists_row, h.processing, h.lt_next, not_mem_inFlight_setWorker h.not_held hpc⟩

/-- A mark of another task keeps task `t` stranded. -/
theorem Dispatcher.Stranded.markTask (h : s.Stranded t) {k : Nat} (hk : k ≠ t) (f : Task → Task)
    (hf : ∀ r, (f r).id = r.id) : (s.markTask k f).Stranded t := by
  refine ⟨?_, ?_, by simpa using h.lt_next, by simpa [Dispatcher.inFlight] using h.not_held⟩ <;>
    unfold Dispatcher.markTask <;> split
  · obtain ⟨r, hr, rfl⟩ := h.exists_row
    exact ⟨r, List.mem_map.2 ⟨r, hr, by simp [Ne.symm hk]⟩, rfl⟩
  · exact h.exists_row
  · intro r hr hid
    obtain ⟨r₀, hr₀, rfl⟩ := List.mem_map.1 hr
    split at hid
    · exact absurd ((hf r₀).symm.trans hid) (by simp_all)
    · simp only [if_neg ‹_›]; exact h.processing r₀ hr₀ hid
  · exact h.processing

/-- A row `FetchTasksIDs` claims was eligible, so it is not task `t`'s. -/
theorem Dispatcher.Stranded.not_picked (h : s.Stranded t) {x : Task}
    (hx : x ∈ ((s.tasks.filter (Task.eligible s.clock)).insertionSort
      (fun a b => a.createdAt ≤ b.createdAt)).take s.batchSize) : x.id ≠ t := by
  intro hid
  obtain ⟨hx, he⟩ := List.mem_filter.1 ((List.perm_insertionSort _ _).subset (List.mem_of_mem_take hx))
  simp [Task.eligible, h.processing x hx hid] at he

/-- `FetchTasksIDs` keeps task `t` stranded and does not claim it. -/
theorem Dispatcher.Stranded.fetch (h : s.Stranded t) {i : Nat} :
    ({ s with tasks := (fetchTasksIDs s.clock s.batchSize s.tasks).1 }.setWorker i
      (.get (fetchTasksIDs s.clock s.batchSize s.tasks).2)).Stranded t := by
  refine ⟨?_, ?_, h.lt_next, not_mem_inFlight_setWorker h.not_held ?_⟩
  · obtain ⟨r, hr, rfl⟩ := h.exists_row
    exact ⟨_, List.mem_map.2 ⟨r, hr, rfl⟩, by split <;> rfl⟩
  · intro r hr hid
    obtain ⟨r₀, hr₀, rfl⟩ := List.mem_map.1 hr
    split_ifs at hid ⊢
    · rfl
    · exact h.processing r₀ hr₀ hid
  · simp only [fetchTasksIDs, OutboxPc.held, List.map_map, List.mem_map, not_exists, not_and]
    exact fun x hx => h.not_picked hx

/-- A worker's step keeps task `t` stranded, and publishes no message for it. -/
theorem Dispatcher.Stranded.workerStep (h : s.Stranded t) {i : Nat} {fail : Bool} {pc : OutboxPc}
    (hi : s.workers[i]? = some pc) (hs : s.workerStep i fail pc = some s') :
    s'.Stranded t ∧ ∀ m ∈ s'.published, m ∈ s.published ∨ m.1 ≠ t := by
  have hpc : t ∉ pc.held := fun ht => h.not_held (held_subset_inFlight hi t ht)
  -- A move that keeps the rows and what was published.
  have keep : ∀ {s₀ : Dispatcher} {pc' : OutboxPc}, s₀.tasks = s.tasks → s₀.nextTaskID = s.nextTaskID →
      s₀.workers = s.workers → s₀.published = s.published → t ∉ pc'.held →
      (s₀.setWorker i pc').Stranded t ∧ ∀ m ∈ (s₀.setWorker i pc').published, m ∈ s.published ∨ m.1 ≠ t := by
    intro s₀ pc' ht hn hw hp hpc'
    refine ⟨⟨?_, ?_, hn ▸ h.lt_next, not_mem_inFlight_setWorker ?_ hpc'⟩, fun m hm => .inl (hp ▸ hm)⟩
    · exact ht ▸ h.exists_row
    · exact ht ▸ h.processing
    · unfold Dispatcher.inFlight; rw [hw]; exact h.not_held
  cases Dispatcher.workerStep_move hs with
  | fetchFailed _ => exact ⟨h, fun m hm => .inl hm⟩
  | done _ => exact keep rfl rfl rfl rfl (List.not_mem_nil t)
  | fetch _ => exact ⟨h.fetch, fun m hm => .inl hm⟩
  | batchDone => exact keep rfl rfl rfl rfl (List.not_mem_nil t)
  | getAuditLog _ => exact keep rfl rfl rfl rfl hpc
  | getAuditLogFailed _ => exact keep rfl rfl rfl rfl hpc
  | sendFailed => exact keep rfl rfl rfl rfl hpc
  | send =>
    refine ⟨⟨h.1, h.2, h.3, not_mem_inFlight_setWorker h.4 hpc⟩, fun m hm => ?_⟩
    rcases List.mem_append.1 hm with hm | hm
    · exact .inl hm
    · obtain rfl := List.mem_singleton.1 hm
      exact .inr fun he => hpc (he ▸ List.mem_cons_self _ _)
  | @markFailed id rest =>
    obtain ⟨hk, hrest⟩ := List.ne_and_not_mem_of_not_mem_cons hpc
    exact ⟨(h.markTask (Ne.symm hk) (Task.markFailed s.clock) fun _ => rfl).setWorker (hrest : t ∉ (OutboxPc.get rest).held),
      fun m hm => .inl (by simpa [Dispatcher.setWorker] using hm)⟩
  | @markCompleted id rest =>
    obtain ⟨hk, hrest⟩ := List.ne_and_not_mem_of_not_mem_cons hpc
    exact ⟨(h.markTask (Ne.symm hk) (Task.markCompleted s.clock) fun _ => rfl).setWorker (hrest : t ∉ (OutboxPc.get rest).held),
      fun m hm => .inl (by simpa [Dispatcher.setWorker] using hm)⟩
  | markError hk =>
    rcases hk with rfl | rfl <;>
      exact keep rfl rfl rfl rfl (List.not_mem_of_not_mem_cons hpc)

/-- No step touches a stranded task: it stays stranded, and every message a
step publishes is another task's. -/
theorem Dispatcher.Stranded.step (h : s.Stranded t) {a : Act} (hs : s.step a = some s') :
    s'.Stranded t ∧ ∀ m ∈ s'.published, m ∈ s.published ∨ m.1 ≠ t := by
  rcases Dispatcher.step_cases hs with ⟨hw, hp, hn, hsub, hnew⟩ | ⟨i, fail, pc, -, hi, hs⟩
  · refine ⟨⟨?_, fun r hr hid => ?_, Nat.lt_of_lt_of_le h.lt_next hn, ?_⟩, fun m hm => .inl (hp ▸ hm)⟩
    · obtain ⟨r, hr, hid⟩ := h.exists_row
      exact ⟨r, hsub hr, hid⟩
    · rcases hnew r hr with hr | hr
      · exact h.processing r hr hid
      · exact absurd h.lt_next (by omega)
    · unfold Dispatcher.inFlight; rw [hw]; exact h.not_held
  · exact h.workerStep hi hs

/-- Over any run from a state where task `t` is stranded, it stays stranded and
no message for it is published. -/
theorem Dispatcher.Stranded.steps (h : s.Stranded t) (hs : s.Steps s') :
    s'.Stranded t ∧ ∀ m ∈ s'.published, m ∈ s.published ∨ m.1 ≠ t := by
  induction hs with
  | refl => exact ⟨h, fun m hm => .inl hm⟩
  | tail _ hst ih =>
    obtain ⟨a, ha⟩ := hst
    obtain ⟨h', hp⟩ := ih.1.step ha
    exact ⟨h', fun m hm => (hp m hm).elim (ih.2 m) .inr⟩

/-! ## What strands a task -/

/-- A worker's move takes `t` out of flight only if that worker held it and
its new state does not. -/
theorem held_of_setWorker {i : Nat} {pc pc' : OutboxPc} (hi : s.workers[i]? = some pc) (ht : t ∈ s.inFlight)
    (ht' : t ∉ (s.setWorker i pc').inFlight) : t ∈ pc.held ∧ t ∉ pc'.held := by
  obtain ⟨q, hq, htq⟩ := List.mem_flatMap.1 ht
  obtain ⟨j, hj⟩ := List.mem_iff_getElem?.1 hq
  have hmem : ∀ {r : OutboxPc}, (s.setWorker i pc').workers[j]? = some r → t ∈ r.held → False :=
    fun hr htr => ht' (List.mem_flatMap.2 ⟨_, List.getElem?_mem hr, htr⟩)
  by_cases hij : i = j
  · subst hij
    obtain rfl : q = pc := Option.some.inj (hj.symm.trans hi)
    refine ⟨htq, fun hpc' => hmem ?_ hpc'⟩
    simp [Dispatcher.setWorker, List.getElem?_set, (List.getElem?_eq_some_iff.1 hi).1]
  · exact (hmem (by simp [Dispatcher.setWorker, List.getElem?_set_ne hij, hj]) htq).elim

/-- A mark that succeeds takes the task out of `PROCESSING`. -/
theorem markTask_not_processing (k : Nat) (f : Task → Task) (hf : ∀ r, (f r).status ≠ .processing)
    (hr : ∃ r ∈ (s.markTask k f).tasks, r.id = k) :
    ¬ ∀ r ∈ (s.markTask k f).tasks, r.id = k → r.status = .processing := by
  intro hp
  obtain ⟨r, hr, hrk⟩ := hr
  have hp := hp r hr hrk
  unfold Dispatcher.markTask at hr hp
  split at hr
  · obtain ⟨r₀, -, rfl⟩ := List.mem_map.1 hr
    split_ifs at hrk hp with h₀
    · exact hf r₀ hp
    · exact h₀ hrk
  · exact ‹¬ _› (List.any_eq_true.2 ⟨r, hr, by simp [hrk]⟩)

/-- Only a failed mark strands a task: a step that lets go of a task a worker
held and leaves it stranded is a failed `MarkTaskFailed` or
`MarkTaskCompleted` of that task. -/
theorem stranded_by_failed_mark {a : Act} (hs : s.step a = some s') (ht : t ∈ s.inFlight)
    (h' : s'.Stranded t) : ∃ i id rest, a = .worker i true ∧ id.taskID = t ∧
      (s.workers[i]? = some (.markFailed id rest) ∨ s.workers[i]? = some (.markCompleted id rest)) := by
  rcases Dispatcher.step_cases hs with ⟨hw, -⟩ | ⟨i, fail, pc, rfl, hi, hs⟩
  · exact (h'.not_held (by unfold Dispatcher.inFlight; rwa [hw])).elim
  -- The worker let go of `t` by its move to `pc'`.
  have moved : ∀ {pc' : OutboxPc} {s₀ : Dispatcher}, s' = s₀.setWorker i pc' → s₀.workers = s.workers →
      t ∈ pc.held ∧ t ∉ pc'.held := by
    rintro pc' s₀ rfl hw
    exact held_of_setWorker hi ht (by simpa [Dispatcher.setWorker, Dispatcher.inFlight, hw] using h'.not_held)
  -- A move that keeps the rows' holders lets go of nothing.
  have same : ∀ {s₀ : Dispatcher} {pc' : OutboxPc}, s' = s₀.setWorker i pc' → s₀.workers = s.workers →
      pc.held ⊆ pc'.held → False := fun hs hw hsub => (moved hs hw).2 (hsub (moved hs hw).1)
  cases Dispatcher.workerStep_move hs with
  | fetchFailed _ => exact (h'.not_held ht).elim
  | done _ => exact (List.not_mem_nil _ (moved rfl rfl).1).elim
  | fetch _ => exact (List.not_mem_nil _ (moved rfl rfl).1).elim
  | batchDone => exact (List.not_mem_nil _ (moved rfl rfl).1).elim
  | getAuditLog _ => exact (same rfl rfl (List.Subset.refl _)).elim
  | getAuditLogFailed _ => exact (same rfl rfl (List.Subset.refl _)).elim
  | sendFailed => exact (same rfl rfl (List.Subset.refl _)).elim
  | send => exact (same rfl rfl (List.Subset.refl _)).elim
  | @markFailed id rest =>
    obtain ⟨h₁, h₂⟩ := moved rfl (markTask_workers _ _)
    obtain rfl := ((List.mem_cons.1 h₁).resolve_right h₂).symm
    exact (markTask_not_processing _ _ (markFailed_status s.clock) h'.1 h'.2).elim
  | @markCompleted id rest =>
    obtain ⟨h₁, h₂⟩ := moved rfl (markTask_workers _ _)
    obtain rfl := ((List.mem_cons.1 h₁).resolve_right h₂).symm
    exact (markTask_not_processing _ _ (markCompleted_status s.clock) h'.1 h'.2).elim
  | @markError pc id rest hk =>
    obtain ⟨h₁, h₂⟩ := moved rfl rfl
    refine ⟨i, id, rest, rfl, ?_, ?_⟩
    · rcases hk with rfl | rfl <;> exact ((List.mem_cons.1 h₁).resolve_right h₂).symm
    · rcases hk with rfl | rfl
      exacts [.inl hi, .inr hi]

/-- A task is stranded for good. One worker claims the one task; its
`GetAuditLog` fails, and so does the `MarkTaskFailed` that follows. From then
on, whatever the dispatcher does, the task is `PROCESSING`, no worker holds it,
and its event is never published. -/
theorem failed_mark_strands_task :
    ∃ s : Dispatcher, s.Reachable ∧ ∀ s', s.Steps s' → s'.Stranded 1 ∧ ∀ m ∈ s'.published, m.1 ≠ 1 := by
  refine ⟨(Dispatcher.init 1 10).replay [.createLogsWithTasks [orderStatusLog 0 1 "none" "accepted"],
      .worker 0 false, .worker 0 true, .worker 0 true, .worker 0 false], ⟨1, 10, Dispatcher.steps_replay _ _⟩,
    fun s' hs => ?_⟩
  obtain ⟨h', hp⟩ := Dispatcher.Stranded.steps
    (⟨by decide, by decide, by decide, by decide⟩ : Dispatcher.Stranded _ 1) hs
  exact ⟨h', fun m hm => (hp m hm).elim (fun hm => absurd hm (List.not_mem_nil m)) id⟩

end Pvz.Outbox
