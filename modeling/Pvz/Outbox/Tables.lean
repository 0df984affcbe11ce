import Pvz.Outbox.Tasks

/-!
# The link between `audit_logs` and `audit_tasks`

`audit_tasks.log_id` references `audit_logs(id)` (`src/unnamed/part_001:11-21`),
with no uniqueness constraint: that every log has exactly one task is kept by
the code, not by the schema. `CreateLogsWithTasks`
(`src/pkg/repository/audit.go:30-52`) inserts the batch's events with
`RETURNING id`, one id per queued insert, and then one task per returned id,
in one transaction; `FetchTasksIDs` and the marks only update `audit_tasks`
rows; nothing deletes a row.

The tables predate the outbox: `audit_tasks` is created empty over whatever
`audit_logs` holds, and the backfill migration
(`src/migrate/migrations/20250412133238_transfer_logs_to_tasks.sql`) gives a
task to every log that has none. From there the tasks' `log_id`s are a
permutation of the log ids, over every run (`Dispatcher.Linked.steps`).
-/

namespace Pvz.Outbox

/-- The `INSERT INTO audit_tasks (log_id) SELECT ...` of a migration: one task
with the column defaults (`CREATED`, 3 attempts, created now) for each of
`logIDs`, numbered by the `SERIAL`. -/
def Dispatcher.insertTasks (s : Dispatcher) : List Nat → Dispatcher
  | [] => s
  | k :: ks =>
    Dispatcher.insertTasks
      { s with
        tasks := s.tasks ++ [⟨s.nextTaskID, k, .created, 3, none, s.clock, s.clock, none⟩]
        nextTaskID := s.nextTaskID + 1 } ks

/-- The `Up` of the backfill migration: a task for every log, in the table's
order, that no task references. -/
def Dispatcher.backfill (s : Dispatcher) : Dispatcher :=
  s.insertTasks ((s.logs.map (·.1)).filter (· ∉ s.tasks.map (·.logID)))

/-! ## What a step does to the link -/

/-- `s'` has the same `audit_logs`, log `SERIAL` and tasks' `log_id`s as `s`. -/
structure Dispatcher.SameLinks (s s' : Dispatcher) : Prop where
  logs : s'.logs = s.logs
  nextLogID : s'.nextLogID = s.nextLogID
  links : s'.tasks.map (·.logID) = s.tasks.map (·.logID)

theorem Dispatcher.SameLinks.rfl {s : Dispatcher} : s.SameLinks s := ⟨Eq.refl _, Eq.refl _, Eq.refl _⟩

theorem Dispatcher.SameLinks.setWorker {s s' : Dispatcher} (h : s.SameLinks s') (i : Nat) (pc : OutboxPc) :
    s.SameLinks (s'.setWorker i pc) :=
  ⟨h.logs, h.nextLogID, h.links⟩

theorem fetchTasksIDs_logIDs (now : Int) (limit : Nat) (ts : List Task) :
    (fetchTasksIDs now limit ts).1.map (·.logID) = ts.map (·.logID) := by
  simp only [fetchTasksIDs, List.map_map]
  exact List.map_congr_left fun t _ => by simp only [Function.comp]; split <;> rfl

theorem Dispatcher.sameLinks_markTask (s : Dispatcher) (k : Nat) (f : Task → Task)
    (hf : ∀ r, (f r).logID = r.logID) : s.SameLinks (s.markTask k f) := by
  unfold Dispatcher.markTask
  split
  · refine ⟨Eq.refl _, Eq.refl _, ?_⟩
    simp only [List.map_map]
    exact List.map_congr_left fun r _ => by simp only [Function.comp]; split <;> simp only [hf]
  · exact .rfl

/-- A step other than `CreateLogsWithTasks` keeps `audit_logs` and the tasks'
`log_id`s. -/
theorem Dispatcher.step_sameLinks {s s' : Dispatcher} {a : Act} (h : s.step a = some s')
    (ha : ∀ batch, a ≠ .createLogsWithTasks batch) : s.SameLinks s' := by
  cases a with
  | worker i fail =>
    obtain ⟨pc, -, hw⟩ := Dispatcher.step_worker h
    cases Dispatcher.workerStep_move hw with
    | fetch _ => exact ⟨Eq.refl _, Eq.refl _, fetchTasksIDs_logIDs _ _ _⟩
    | markFailed => exact (s.sameLinks_markTask _ (Task.markFailed s.clock) fun _ => Eq.refl _).setWorker _ _
    | markCompleted => exact (s.sameLinks_markTask _ (Task.markCompleted s.clock) fun _ => Eq.refl _).setWorker _ _
    | _ => exact ⟨Eq.refl _, Eq.refl _, Eq.refl _⟩
  | createLogsWithTasks batch => exact absurd rfl (ha batch)
  | tick t =>
    simp only [Dispatcher.step] at h
    split at h <;> cases h
    exact ⟨Eq.refl _, Eq.refl _, Eq.refl _⟩
  | stop => cases h; exact ⟨Eq.refl _, Eq.refl _, Eq.refl _⟩

/-- A step keeps `audit_logs` and the tasks' `log_id`s, or is a
`CreateLogsWithTasks`. -/
theorem Dispatcher.step_tables {s s' : Dispatcher} {a : Act} (h : s.step a = some s') :
    s.SameLinks s' ∨ ∃ batch, s' = s.createLogsWithTasks batch := by
  cases a with
  | createLogsWithTasks batch => cases h; exact .inr ⟨batch, Eq.refl _⟩
  | _ => exact .inl (Dispatcher.step_sameLinks h fun _ => nofun)

/-- The ids `CreateLogsWithTasks` gives a batch of `n` events: the next `n` of
the log `SERIAL`. -/
theorem createLogsWithTasks_logIDs (s : Dispatcher) (batch : List AuditLog) :
    (s.createLogsWithTasks batch).logs.map (·.1) =
      s.logs.map (·.1) ++ (List.range batch.length).map (s.nextLogID + ·) := by
  simp only [Dispatcher.createLogsWithTasks, List.map_append, List.map_map]
  congr 1
  conv_rhs => rw [← List.map_fst_zip (List.range batch.length) batch (by simp)]
  rw [List.map_map]
  rfl

theorem createLogsWithTasks_links (s : Dispatcher) (batch : List AuditLog) :
    (s.createLogsWithTasks batch).tasks.map (·.logID) =
      s.tasks.map (·.logID) ++ (List.range batch.length).map (s.nextLogID + ·) := by
  simp only [Dispatcher.createLogsWithTasks, List.map_append, List.map_map]
  rfl

/-- A batch of `n` events adds `n` logs and `n` tasks. -/
theorem createLogsWithTasks_length (s : Dispatcher) (batch : List AuditLog) :
    (s.createLogsWithTasks batch).logs.length = s.logs.length + batch.length ∧
      (s.createLogsWithTasks batch).tasks.length = s.tasks.length + batch.length := by
  simp [Dispatcher.createLogsWithTasks]

/-- The migration's insert adds a task for each of `logIDs` and leaves `audit_logs` alone. -/
theorem insertTasks_links (s : Dispatcher) (ks : List Nat) :
    (s.insertTasks ks).logs = s.logs ∧ (s.insertTasks ks).nextLogID = s.nextLogID ∧
      (s.insertTasks ks).tasks.map (·.logID) = s.tasks.map (·.logID) ++ ks := by
  induction ks generalizing s with
  | nil => simp only [Dispatcher.insertTasks, List.append_nil, and_self]
  | cons k ks ih =>
    simp only [Dispatcher.insertTasks]
    obtain ⟨h₁, h₂, h₃⟩ := ih _
    exact ⟨h₁, h₂, h₃.trans (by simp)⟩

/-! ## Keys of `audit_logs` -/

/-- `audit_logs.id` is a primary key drawn from its `SERIAL`. -/
structure Dispatcher.LogsKeyed (s : Dispatcher) : Prop where
  ids_nodup : (s.logs.map (·.1)).Nodup
  ids_lt : ∀ k ∈ s.logs.map (·.1), k < s.nextLogID

theorem Dispatcher.LogsKeyed.fresh {s : Dispatcher} (h : s.LogsKeyed) {n k : Nat}
    (hk : k ∈ (List.range n).map (s.nextLogID + ·)) : k ∉ s.logs.map (·.1) := by
  obtain ⟨j, -, rfl⟩ := List.mem_map.1 hk
  exact fun hj => absurd (h.ids_lt _ hj) (by omega)

theorem Dispatcher.LogsKeyed.createLogsWithTasks {s : Dispatcher} (h : s.LogsKeyed) (batch : List AuditLog) :
    (s.createLogsWithTasks batch).LogsKeyed := by
  refine ⟨?_, fun k hk => ?_⟩ <;> rw [createLogsWithTasks_logIDs] at *
  · exact h.ids_nodup.append ((List.nodup_range _).map fun _ _ => Nat.add_left_cancel)
      fun _ hk hk' => h.fresh hk' hk
  · show k < s.nextLogID + batch.length
    rcases List.mem_append.1 hk with hk | hk
    · exact Nat.lt_add_right _ (h.ids_lt k hk)
    · obtain ⟨j, hj, rfl⟩ := List.mem_map.1 hk
      exact Nat.add_lt_add_left (List.mem_range.1 hj) _

theorem Dispatcher.LogsKeyed.sameLinks {s s' : Dispatcher} (h : s.LogsKeyed) (hs : s.SameLinks s') : s'.LogsKeyed :=
  ⟨hs.logs ▸ h.ids_nodup, hs.logs ▸ hs.nextLogID ▸ h.ids_lt⟩

/-! ## The link over a run -/

/-- The tables once linked: every task references a stored log and every log
is referenced by exactly one task, as the tasks' `log_id`s being a permutation
of the log ids. -/
structure Dispatcher.Linked (s : Dispatcher) extends s.LogsKeyed : Prop where
  links : List.Perm (s.tasks.map (·.logID)) (s.logs.map (·.1))

/-- The tables before the backfill, as this code leaves them over a fresh
`audit_tasks`: every task references a stored log (the foreign key) and no log
is referenced twice. -/
structure Dispatcher.Premigrated (s : Dispatcher) extends s.LogsKeyed : Prop where
  links_nodup : (s.tasks.map (·.logID)).Nodup
  links_sub : ∀ k ∈ s.tasks.map (·.logID), k ∈ s.logs.map (·.1)

theorem Dispatcher.Linked.step {s s' : Dispatcher} (h : s.Linked) {a : Act} (hs : s.step a = some s') :
    s'.Linked := by
  rcases Dispatcher.step_tables hs with hl | ⟨batch, rfl⟩
  · exact ⟨h.sameLinks hl, hl.links ▸ hl.logs ▸ h.links⟩
  · refine ⟨h.createLogsWithTasks batch, ?_⟩
    rw [createLogsWithTasks_links, createLogsWithTasks_logIDs]
    exact h.links.append_right _

theorem Dispatcher.Linked.steps {s s' : Dispatcher} (h : s.Linked) (hs : s.Steps s') : s'.Linked := by
  induction hs with
  | refl => exact h
  | tail _ hst ih => obtain ⟨a, ha⟩ := hst; exact ih.step ha

theorem Dispatcher.Premigrated.step {s s' : Dispatcher} (h : s.Premigrated) {a : Act} (hs : s.step a = some s') :
    s'.Premigrated := by
  rcases Dispatcher.step_tables hs with hl | ⟨batch, rfl⟩
  · exact ⟨h.sameLinks hl, hl.links ▸ h.links_nodup, hl.links ▸ hl.logs ▸ h.links_sub⟩
  · refine ⟨h.createLogsWithTasks batch, ?_, ?_⟩ <;> rw [createLogsWithTasks_links]
    · exact h.links_nodup.append ((List.nodup_range _).map fun _ _ => Nat.add_left_cancel)
        fun _ hk hk' => h.fresh hk' (h.links_sub _ hk)
    · rw [createLogsWithTasks_logIDs]
      exact List.append_subset.2 ⟨fun k hk => List.mem_append_left _ (h.links_sub k hk), List.subset_append_right _ _⟩

/-- The backfill links the tables. -/
theorem Dispatcher.Premigrated.backfill {s : Dispatcher} (h : s.Premigrated) : s.backfill.Linked := by
  obtain ⟨hl, hn, ht⟩ := insertTasks_links s ((s.logs.map (·.1)).filter (· ∉ s.tasks.map (·.logID)))
  refine ⟨⟨hl ▸ h.ids_nodup, hl ▸ hn ▸ h.ids_lt⟩, ?_⟩
  rw [Dispatcher.backfill, ht, hl]
  have hd : (s.tasks.map (·.logID)).Disjoint ((s.logs.map (·.1)).filter (· ∉ s.tasks.map (·.logID))) :=
    fun k hk hk' => by simp only [List.mem_filter, decide_eq_true_eq] at hk'; exact hk'.2 hk
  refine (List.perm_ext_iff_of_nodup (h.links_nodup.append (h.ids_nodup.filter _) hd) h.ids_nodup).2 fun k => ?_
  simp only [List.mem_append, List.mem_filter, decide_eq_true_eq]
  by_cases hk : k ∈ s.tasks.map (·.logID)
  · exact ⟨fun _ => h.links_sub k hk, fun _ => .inl hk⟩
  · exact ⟨fun h' => h'.elim (absurd · hk) And.left, fun h' => .inr ⟨h', hk⟩⟩

theorem Dispatcher.Linked.log_once {s : Dispatcher} (h : s.Linked) {l : Nat × AuditLog} (hl : l ∈ s.logs) :
    (s.tasks.map (·.logID)).count l.1 = 1 := by
  rw [h.links.count_eq]
  exact List.count_eq_one_of_mem h.ids_nodup (List.mem_map_of_mem _ hl)

theorem Dispatcher.Linked.task_log {s : Dispatcher} (h : s.Linked) {r : Task} (hr : r ∈ s.tasks) :
    ∃ l ∈ s.logs, l.1 = r.logID :=
  List.mem_map.1 (h.links.subset (List.mem_map_of_mem _ hr))

/-- From empty tables the dispatcher keeps the link. -/
theorem Dispatcher.Reachable.linked {s : Dispatcher} (h : s.Reachable) : s.Linked := by
  obtain ⟨w, b, hs⟩ := h
  have h₀ : (Dispatcher.init w b).Linked := ⟨⟨List.nodup_nil, fun _ => nofun⟩, List.Perm.nil⟩
  exact h₀.steps hs

/-- After the backfill and any run: every log is referenced by exactly one
task, every task references a stored log, and a `CreateLogsWithTasks` of `n`
events adds `n` logs and `n` tasks. -/
theorem backfilled_tables_bijective {s₀ s : Dispatcher} (h₀ : s₀.Premigrated) (hs : s₀.backfill.Steps s) :
    (∀ l ∈ s.logs, (s.tasks.map (·.logID)).count l.1 = 1) ∧ (∀ r ∈ s.tasks, ∃ l ∈ s.logs, l.1 = r.logID) ∧
      ∀ batch : List AuditLog, (s.createLogsWithTasks batch).logs.length = s.logs.length + batch.length ∧
        (s.createLogsWithTasks batch).tasks.length = s.tasks.length + batch.length :=
  have h := h₀.backfill.steps hs
  ⟨fun _ => h.log_once, fun _ => h.task_log, createLogsWithTasks_length s⟩

/-- Two stored logs, the first with a task: the backfill gives the second one
a task, and a batch of one event adds a third log and its task. -/
theorem backfilled_tables_bijective_two_logs :
    ∃ s₀ s : Dispatcher, s₀.Premigrated ∧ s₀.backfill.Steps s ∧ s.logs.length = 3 ∧ s.tasks.length = 3 ∧
      (∀ l ∈ s.logs, (s.tasks.map (·.logID)).count l.1 = 1) ∧ (∀ r ∈ s.tasks, ∃ l ∈ s.logs, l.1 = r.logID) ∧
      ∀ batch : List AuditLog, (s.createLogsWithTasks batch).logs.length = s.logs.length + batch.length ∧
        (s.createLogsWithTasks batch).tasks.length = s.tasks.length + batch.length := by
  let e := orderStatusLog 0 1 "none" "accepted"
  let s₀ : Dispatcher := ⟨[(1, e), (2, e)], [⟨1, 1, .completed, 2, none, 0, 0, some 0⟩], 3, 2, [.idle], 10, 0,
    [(1, e)], [1], false⟩
  have h₀ : s₀.Premigrated := ⟨⟨by decide, by decide⟩, by decide, by decide⟩
  have hs := Dispatcher.steps_replay s₀.backfill [.createLogsWithTasks [e]]
  exact ⟨s₀, _, h₀, hs, by decide, by decide, backfilled_tables_bijective h₀ hs⟩

end Pvz.Outbox
