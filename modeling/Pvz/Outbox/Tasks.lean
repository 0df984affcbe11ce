import Pvz.Outbox.Stranding

/-!
# The task table under the workers

Every run of the dispatcher keeps three things.

* **The rows' shape** (`Task.Wf`). `CreateLogsWithTasks` inserts rows with the
  column defaults. `FetchTasksIDs` claims only `CREATED` rows and `FAILED`
  rows with attempts left. A mark only ever hits a row its worker claimed,
  which is `PROCESSING`. The `CASE` expressions of `MarkTaskFailed` read the
  attempts left before the update (`src/pkg/repository/audit.go:128-161`).
* **Exclusive claims.** A claimed task is `PROCESSING` until its worker marks
  it, and `FetchTasksIDs` never claims a `PROCESSING` row, so no task is in two
  workers' batches at once (`Dispatcher.Inv.inFlight_nodup`).
* **A budget of sends.** Each claim allows one `SendMessage`. Each claim after
  the first needs a `MarkTaskFailed` that committed, and that call spends an
  attempt. So a task is sent at most three times, and never again once it is
  `COMPLETED` (`Dispatcher.Inv.sends`).
-/

namespace Pvz.Outbox

/-! ## What is claimed and what may still be sent -/

/-- The claimed tasks a worker may still pass to `SendMessage`: its batch
before `GetAuditLog`, or the task it is sending and the rest of its batch. -/
def OutboxPc.pending : OutboxPc → List Nat
  | .get ids => ids.map (·.taskID)
  | .send id _ rest => id.taskID :: rest.map (·.taskID)
  | .markFailed _ rest | .markCompleted _ rest => rest.map (·.taskID)
  | .idle | .exited => []

/-- The tasks some worker may still send. -/
def Dispatcher.pending (s : Dispatcher) : List Nat := s.workers.flatMap OutboxPc.pending

theorem OutboxPc.count_pending_le (pc : OutboxPc) (t : Nat) : pc.pending.count t ≤ pc.held.count t := by
  cases pc <;> simp [OutboxPc.pending, OutboxPc.held, List.count_cons]

/-- Replacing one element of a list replaces its part of a `flatMap`. -/
theorem count_flatMap_set {α : Type} (f : α → List Nat) (t : Nat) :
    ∀ {l : List α} {i : Nat} {x : α}, l[i]? = some x → ∀ y,
      ((l.set i y).flatMap f).count t + (f x).count t = (l.flatMap f).count t + (f y).count t
  | [], _, _, h, _ => by cases h
  | a :: l, 0, x, h, y => by
    obtain rfl : a = x := by simpa using h
    simp only [List.set_cons_zero, List.flatMap_cons, List.count_append]
    omega
  | a :: l, i + 1, x, h, y => by
    have := count_flatMap_set f t (by simpa using h : l[i]? = some x) y
    simp only [List.set_cons_succ, List.flatMap_cons, List.count_append]
    omega

theorem count_flatMap_le {α : Type} {f g : α → List Nat} (hfg : ∀ x t, (f x).count t ≤ (g x).count t)
    (t : Nat) : ∀ l : List α, (l.flatMap f).count t ≤ (l.flatMap g).count t
  | [] => le_rfl
  | a :: l => by
    simp only [List.flatMap_cons, List.count_append]
    exact Nat.add_le_add (hfg a t) (count_flatMap_le hfg t l)

theorem Dispatcher.count_pending_le (s : Dispatcher) (t : Nat) : s.pending.count t ≤ s.inFlight.count t :=
  count_flatMap_le OutboxPc.count_pending_le t s.workers

variable {s s' : Dispatcher}

/-- Moving worker `i` from `pc` to `pc'` trades its claims. -/
theorem count_inFlight_set {i : Nat} {pc : OutboxPc} (hi : s.workers[i]? = some pc) {pc' : OutboxPc}
    (hw : s'.workers = s.workers.set i pc') (t : Nat) :
    s'.inFlight.count t + pc.held.count t = s.inFlight.count t + pc'.held.count t := by
  unfold Dispatcher.inFlight; rw [hw]; exact count_flatMap_set _ _ hi pc'

theorem count_pending_set {i : Nat} {pc : OutboxPc} (hi : s.workers[i]? = some pc) {pc' : OutboxPc}
    (hw : s'.workers = s.workers.set i pc') (t : Nat) :
    s'.pending.count t + pc.pending.count t = s.pending.count t + pc'.pending.count t := by
  unfold Dispatcher.pending; rw [hw]; exact count_flatMap_set _ _ hi pc'

/-! ## The shape of a row -/

/-- The shape every `audit_tasks` row keeps: attempts between 0 and 3, all
three on a new row, one or two with a retry time on a failed row, at least one
on a claimed row, none exactly when no attempts are left (and then no retry
time), and a completion time exactly on a completed row. -/
structure Task.Wf (r : Task) : Prop where
  attemptsLeft_nonneg : 0 ≤ r.attemptsLeft
  attemptsLeft_le : r.attemptsLeft ≤ 3
  created : r.status = .created → r.attemptsLeft = 3
  failed : r.status = .failed → (r.attemptsLeft = 1 ∨ r.attemptsLeft = 2) ∧ r.nextAttemptAfter ≠ none
  processing : r.status = .processing → 1 ≤ r.attemptsLeft
  noAttemptsLeft : r.status = .noAttemptsLeft ↔ r.attemptsLeft = 0
  noAttemptsLeft_next : r.status = .noAttemptsLeft → r.nextAttemptAfter = none
  completed : r.status = .completed ↔ r.completedAt ≠ none

/-- The send a claimed or completed task may already have used. -/
def Task.charge (r : Task) : Int := if r.status = .processing ∨ r.status = .completed then 1 else 0

/-- A row as `createTasks` inserts it, with the column defaults. -/
theorem Task.wf_new (id logID : Nat) (now : Int) : (⟨id, logID, .created, 3, none, now, now, none⟩ : Task).Wf where
  attemptsLeft_nonneg := show (0 : Int) ≤ 3 by decide
  attemptsLeft_le := show (3 : Int) ≤ 3 by decide
  created _ := rfl
  failed := nofun
  processing := nofun
  noAttemptsLeft := by simp
  noAttemptsLeft_next := nofun
  completed := by simp

/-- `FetchTasksIDs` claims an eligible row. -/
theorem Task.Wf.claim {r : Task} (h : r.Wf) {now : Int} (he : r.eligible now = true) :
    { r with status := .processing, updatedAt := now }.Wf := by
  have hs : r.status = .created ∨ r.status = .failed ∧ 0 < r.attemptsLeft := by
    simp only [Task.eligible, Bool.or_eq_true, Bool.and_eq_true, decide_eq_true_eq] at he
    exact he.imp_right fun h => h.1
  have h1 : 1 ≤ r.attemptsLeft := by
    rcases hs with hs | ⟨-, hs⟩
    · rw [h.created hs]; decide
    · omega
  have hc : r.completedAt = none := by
    by_contra hc; rcases hs with hs | ⟨hs, -⟩ <;> simp [h.completed.2 hc] at hs
  exact
    { attemptsLeft_nonneg := h.1, attemptsLeft_le := h.2, created := nofun,
      failed := nofun, processing := fun _ => h1,
      noAttemptsLeft := by simp only [reduceCtorEq, false_iff]; omega,
      noAttemptsLeft_next := nofun, completed := by simp [hc] }

/-- `MarkTaskFailed` on a claimed row. -/
theorem Task.Wf.markFailed {r : Task} (h : r.Wf) (hp : r.status = .processing) (now : Int) :
    (r.markFailed now).Wf := by
  have h1 := h.processing hp
  have h3 := h.attemptsLeft_le
  have hc : r.completedAt = none := by by_contra hc; simp [h.completed.2 hc] at hp
  unfold Task.markFailed
  split_ifs with hk
  · exact
      { attemptsLeft_nonneg := by simp only; omega, attemptsLeft_le := by simp only; omega,
        created := nofun, failed := fun _ => ⟨by simp only; omega, by simp⟩,
        processing := nofun, noAttemptsLeft := by simp only [reduceCtorEq, false_iff]; omega,
        noAttemptsLeft_next := nofun, completed := by simp [hc] }
  · exact
      { attemptsLeft_nonneg := by simp only; omega, attemptsLeft_le := by simp only; omega,
        created := nofun, failed := nofun, processing := nofun,
        noAttemptsLeft := by simp only [true_iff]; omega, noAttemptsLeft_next := fun _ => rfl,
        completed := by simp [hc] }

/-- `MarkTaskCompleted` on a claimed row. -/
theorem Task.Wf.markCompleted {r : Task} (h : r.Wf) (hp : r.status = .processing) (now : Int) :
    (r.markCompleted now).Wf where
  attemptsLeft_nonneg := h.1
  attemptsLeft_le := h.2
  created := nofun
  failed := nofun
  processing := nofun
  noAttemptsLeft := by simp only [Task.markCompleted, reduceCtorEq, false_iff]; have := h.processing hp; omega
  noAttemptsLeft_next := nofun
  completed := by simp [Task.markCompleted]

theorem Task.charge_markFailed (now : Int) (r : Task) :
    (r.markFailed now).attemptsLeft - (r.markFailed now).charge ≤ r.attemptsLeft - 1 := by
  unfold Task.markFailed Task.charge; split_ifs <;> simp_all

theorem Task.charge_markCompleted (now : Int) (r : Task) :
    (r.markCompleted now).attemptsLeft - (r.markCompleted now).charge ≤ r.attemptsLeft - 1 := by
  simp [Task.markCompleted, Task.charge]

/-! ## What `FetchTasksIDs` claims and what a mark writes -/

/-- The rows `FetchTasksIDs` claims: eligible ones, oldest first, at most a
batch. -/
def Dispatcher.claimed (s : Dispatcher) : List Task :=
  ((s.tasks.filter (Task.eligible s.clock)).insertionSort (fun a b => a.createdAt ≤ b.createdAt)).take s.batchSize

theorem fetchTasksIDs_eq (s : Dispatcher) :
    fetchTasksIDs s.clock s.batchSize s.tasks =
      (s.tasks.map fun t => if s.claimed.any (·.id = t.id) then { t with status := .processing, updatedAt := s.clock }
        else t, s.claimed.map fun t => ⟨t.id, t.logID⟩) := rfl

theorem mem_claimed {x : Task} (hx : x ∈ s.claimed) : x ∈ s.tasks ∧ x.eligible s.clock = true :=
  List.mem_filter.1 ((List.perm_insertionSort _ _).subset (List.mem_of_mem_take hx))

theorem claimed_ids_nodup (hn : (s.tasks.map (·.id)).Nodup) : (s.claimed.map (·.id)).Nodup :=
  (((List.filter_sublist _).map _).nodup hn |> ((List.perm_insertionSort _ _).map _).nodup_iff.2).sublist
    ((List.take_sublist _ _).map _)

theorem claimed_any_iff (r : Task) : s.claimed.any (·.id = r.id) = true ↔ r.id ∈ s.claimed.map (·.id) := by
  simp only [List.any_eq_true, decide_eq_true_eq, List.mem_map]

theorem markTask_tasks (k : Nat) (f : Task → Task) :
    (s.markTask k f).tasks = s.tasks.map fun r => if r.id = k then f r else r := by
  unfold Dispatcher.markTask
  split
  · rfl
  · rename_i h
    simp only [List.any_eq_true, decide_eq_true_eq, not_exists, not_and] at h
    exact (List.map_congr_left fun r hr => if_neg (h r hr)).trans (List.map_id _) |>.symm

theorem markTask_sendCalls (k : Nat) (f : Task → Task) : (s.markTask k f).sendCalls = s.sendCalls := by
  unfold Dispatcher.markTask; split <;> rfl

/-- A worker's claims are among all claims. -/
theorem count_le_flatMap {α : Type} (f : α → List Nat) (t : Nat) {l : List α} {i : Nat} {x : α}
    (hx : l[i]? = some x) (hnil : ∃ y, f y = []) : (f x).count t ≤ (l.flatMap f).count t := by
  obtain ⟨y, hy⟩ := hnil
  have := count_flatMap_set f t hx y
  rw [hy, List.count_nil] at this
  omega

/-- Two workers' claims are apart among all claims. -/
theorem count_add_le_flatMap {α : Type} (f : α → List Nat) (t : Nat) {l : List α} {i j : Nat} {x y : α}
    (hx : l[i]? = some x) (hy : l[j]? = some y) (hij : i ≠ j) (z : α) (hz : f z = []) :
    (f x).count t + (f y).count t ≤ (l.flatMap f).count t := by
  have h₁ := count_flatMap_set f t hx z
  have h₂ := count_le_flatMap f t (l := l.set i z) (by rwa [List.getElem?_set_ne hij]) ⟨z, hz⟩
  rw [hz, List.count_nil] at h₁
  omega

/-! ## The invariant -/

/-- What every reachable state keeps: the rows' shape, unique task ids below
the next one, claims that are exclusive and on `PROCESSING` rows, sends only
of existing tasks, and each task's budget: its sends so far, the send a
pending claim may still make and its attempts left add up to at most three,
plus the send a claimed or completed task may already have used. -/
structure Dispatcher.Inv (s : Dispatcher) : Prop where
  wf : ∀ r ∈ s.tasks, r.Wf
  ids_nodup : (s.tasks.map (·.id)).Nodup
  ids_lt : ∀ r ∈ s.tasks, r.id < s.nextTaskID
  inFlight_nodup : s.inFlight.Nodup
  inFlight_processing : ∀ t ∈ s.inFlight, ∃ r ∈ s.tasks, r.id = t ∧ r.status = .processing
  sendCalls_row : ∀ t ∈ s.sendCalls, ∃ r ∈ s.tasks, r.id = t
  sends : ∀ r ∈ s.tasks, (s.sendCalls.count r.id : Int) + s.pending.count r.id + r.attemptsLeft ≤ 3 + r.charge

/-- What a step may do to the sends and to completed rows: it passes only
pending claims to `SendMessage`, and keeps every completed row. -/
structure Dispatcher.Tame (s s' : Dispatcher) : Prop where
  sends : ∃ extra, s'.sendCalls = s.sendCalls ++ extra ∧ ∀ t, extra.count t ≤ s.pending.count t
  completed : ∀ r ∈ s.tasks, r.status = .completed → r ∈ s'.tasks

theorem Dispatcher.inv_init (workersNum batchSize : Nat) : (Dispatcher.init workersNum batchSize).Inv := by
  have hf : (Dispatcher.init workersNum batchSize).inFlight = [] := by
    simp only [Dispatcher.inFlight, Dispatcher.init, List.flatMap_eq_nil_iff, List.mem_replicate]
    rintro _ ⟨-, rfl⟩; rfl
  refine ⟨fun _ => nofun, List.nodup_nil, fun _ => nofun, hf ▸ List.nodup_nil, ?_, nofun, fun _ => nofun⟩
  rw [hf]; exact nofun

namespace Dispatcher.Inv

variable (h : s.Inv)
include h

theorem row_unique {r r' : Task} (hr : r ∈ s.tasks) (hr' : r' ∈ s.tasks) (hid : r.id = r'.id) : r = r' :=
  List.inj_on_of_nodup_map h.ids_nodup hr hr' hid

theorem count_inFlight_le (t : Nat) : s.inFlight.count t ≤ 1 :=
  List.nodup_iff_count_le_one.1 h.inFlight_nodup t

theorem processing_of_inFlight {r : Task} (hr : r ∈ s.tasks) (ht : r.id ∈ s.inFlight) : r.status = .processing := by
  obtain ⟨r', hr', hid, hp⟩ := h.inFlight_processing _ ht
  rwa [h.row_unique hr hr' hid.symm]

/-- A step that rewrites rows in place, keeping their ids, and adds no send
keeps the parts of the invariant that read only ids. -/
theorem mapRows {g : Task → Task} (hid : ∀ r, (g r).id = r.id) (ht : s'.tasks = s.tasks.map g)
    (hn : s'.nextTaskID = s.nextTaskID) (hc : s'.sendCalls = s.sendCalls) :
    (s'.tasks.map (·.id)).Nodup ∧ (∀ r ∈ s'.tasks, r.id < s'.nextTaskID) ∧
      ∀ t ∈ s'.sendCalls, ∃ r ∈ s'.tasks, r.id = t := by
  have hids : s'.tasks.map (·.id) = s.tasks.map (·.id) := by
    rw [ht, List.map_map]; exact List.map_congr_left fun r _ => hid r
  refine ⟨hids ▸ h.ids_nodup, ?_, fun t htc => ?_⟩
  · rw [ht, hn, List.forall_mem_map]
    exact fun r hr => (hid r).symm ▸ h.ids_lt r hr
  · obtain ⟨r, hr, rfl⟩ := h.sendCalls_row t (hc ▸ htc)
    exact ⟨g r, ht ▸ List.mem_map_of_mem _ hr, hid r⟩

/-- A move of worker `i` that changes no row: it keeps or drops claims, and
whatever it passes to `SendMessage` was a pending claim it drops. -/
theorem move {i : Nat} {pc pc' : OutboxPc} (hi : s.workers[i]? = some pc) {extra : List Nat}
    (ht : s'.tasks = s.tasks) (hn : s'.nextTaskID = s.nextTaskID) (hw : s'.workers = s.workers.set i pc')
    (hc : s'.sendCalls = s.sendCalls ++ extra) (hheld : ∀ t, pc'.held.count t ≤ pc.held.count t)
    (hpend : ∀ t, extra.count t + pc'.pending.count t ≤ pc.pending.count t) : s'.Inv ∧ s.Tame s' := by
  have hf := count_inFlight_set hi hw
  have hp := count_pending_set hi hw
  have hle : ∀ t, s'.inFlight.count t ≤ s.inFlight.count t := fun t => by have := hf t; have := hheld t; omega
  have hpc : ∀ t, pc.pending.count t ≤ s.pending.count t :=
    fun t => count_le_flatMap _ t hi ⟨.idle, rfl⟩
  refine ⟨⟨?_, ?_, ?_, ?_, fun t htf => ?_, fun t htc => ?_, fun r hr => ?_⟩,
    ⟨⟨extra, hc, fun t => ?_⟩, fun r hr _ => ht ▸ hr⟩⟩
  · rw [ht]; exact h.wf
  · rw [ht]; exact h.ids_nodup
  · rw [ht, hn]; exact h.ids_lt
  · exact List.nodup_iff_count_le_one.2 fun t => (hle t).trans (h.count_inFlight_le t)
  · rw [ht]; exact h.inFlight_processing t (List.count_pos_iff.1 ((List.count_pos_iff.2 htf).trans_le (hle t)))
  · rw [ht]
    rw [hc] at htc
    rcases List.mem_append.1 htc with htc | htc
    · exact h.sendCalls_row t htc
    · have h₁ := hpend t; have h₂ := pc.count_pending_le t; have h₃ := List.count_pos_iff.2 htc
      obtain ⟨r, hr, hid, -⟩ := h.inFlight_processing t (held_subset_inFlight hi t (List.count_pos_iff.1 (by omega)))
      exact ⟨r, hr, hid⟩
  · rw [ht] at hr
    have := h.sends r hr; have := hp r.id; have := hpend r.id
    rw [hc, List.count_append]; push_cast; omega
  · have := hpend t; have := hpc t; omega

/-- `FetchTasksIDs` claims eligible rows, none of them claimed before. -/
theorem fetch {i : Nat} (hi : s.workers[i]? = some .idle) :
    ({ s with tasks := (fetchTasksIDs s.clock s.batchSize s.tasks).1 }.setWorker i
      (.get (fetchTasksIDs s.clock s.batchSize s.tasks).2)).Inv ∧
    s.Tame ({ s with tasks := (fetchTasksIDs s.clock s.batchSize s.tasks).1 }.setWorker i
      (.get (fetchTasksIDs s.clock s.batchSize s.tasks).2)) := by
  rw [fetchTasksIDs_eq]
  generalize hg : (fun t : Task => if s.claimed.any (·.id = t.id) then
    { t with status := .processing, updatedAt := s.clock } else t) = g
  have hid : ∀ r, (g r).id = r.id := fun r => by subst hg; dsimp only; split <;> rfl
  have hcl := claimed_ids_nodup h.ids_nodup
  have hheld : (OutboxPc.get (s.claimed.map fun t => (⟨t.id, t.logID⟩ : AuditIDs))).held = s.claimed.map (·.id) := by
    simp [OutboxPc.held]
  have hpend : (OutboxPc.get (s.claimed.map fun t => (⟨t.id, t.logID⟩ : AuditIDs))).pending =
      s.claimed.map (·.id) := by
    simp [OutboxPc.pending]
  -- A claimed id is an eligible row's, so no claim held it before.
  have helig : ∀ r ∈ s.tasks, r.id ∈ s.claimed.map (·.id) → r.eligible s.clock = true := by
    intro r hr hm
    obtain ⟨x, hx, hxid⟩ := List.mem_map.1 hm
    obtain ⟨hx, he⟩ := mem_claimed hx
    rwa [← h.row_unique hx hr hxid]
  have hfresh : ∀ r ∈ s.tasks, r.id ∈ s.claimed.map (·.id) → r.status ≠ .processing ∧ r.status ≠ .completed := by
    intro r hr hm
    have := helig r hr hm
    constructor <;> intro hs <;> simp [Task.eligible, hs] at this
  have hclaim : ∀ r ∈ s.tasks, r.id ∈ s.claimed.map (·.id) → g r = { r with status := .processing, updatedAt := s.clock } :=
    fun r _ hm => by subst hg; exact if_pos ((claimed_any_iff r).2 hm)
  have hkeep : ∀ r ∈ s.tasks, r.id ∉ s.claimed.map (·.id) → g r = r :=
    fun r _ hm => by subst hg; exact if_neg (mt (claimed_any_iff r).1 hm)
  generalize hs₁ : { s with tasks := s.tasks.map g }.setWorker i
    (.get (s.claimed.map fun x : Task => (⟨x.id, x.logID⟩ : AuditIDs))) = s₁
  have ht₁ : s₁.tasks = s.tasks.map g := by rw [← hs₁]; rfl
  have hc₁ : s₁.sendCalls = s.sendCalls := by rw [← hs₁]; rfl
  have hn₁ : s₁.nextTaskID = s.nextTaskID := by rw [← hs₁]; rfl
  have hf := count_inFlight_set hi (by rw [← hs₁]; rfl : s₁.workers = _)
  have hp := count_pending_set hi (by rw [← hs₁]; rfl : s₁.workers = _)
  simp only [OutboxPc.held, OutboxPc.pending, List.map_map, Function.comp_def, List.count_nil, Nat.add_zero] at hf hp
  -- A row already claimed is not claimed again.
  have hdisj : ∀ t, t ∈ s.claimed.map (·.id) → s.inFlight.count t = 0 := by
    intro t hm
    obtain ⟨x, hx, rfl⟩ := List.mem_map.1 hm
    refine List.count_eq_zero.2 fun ht => (hfresh x (mem_claimed hx).1 hm).1 ?_
    exact h.processing_of_inFlight (mem_claimed hx).1 ht
  obtain ⟨hnd, hlt, hrow⟩ := h.mapRows hid ht₁ hn₁ hc₁
  refine ⟨⟨?_, hnd, hlt, ?_, fun t htf => ?_, hrow, ?_⟩, ⟨⟨[], by rw [hc₁, List.append_nil], fun _ => Nat.zero_le _⟩, ?_⟩⟩
  · rw [ht₁, List.forall_mem_map]
    intro r hr
    by_cases hm : r.id ∈ s.claimed.map (·.id)
    · rw [hclaim r hr hm]; exact (h.wf r hr).claim (helig r hr hm)
    · rw [hkeep r hr hm]; exact h.wf r hr
  · refine List.nodup_iff_count_le_one.2 fun t => ?_
    rw [hf t]
    by_cases hm : t ∈ s.claimed.map (·.id)
    · rw [hdisj t hm, List.count_eq_one_of_mem hcl hm]
    · rw [List.count_eq_zero_of_not_mem hm, Nat.add_zero]; exact h.count_inFlight_le t
  · have := List.count_pos_iff.2 htf
    rw [hf t] at this
    rw [ht₁]
    by_cases hm : t ∈ s.claimed.map (·.id)
    · obtain ⟨x, hx, rfl⟩ := List.mem_map.1 hm
      exact ⟨g x, List.mem_map_of_mem _ (mem_claimed hx).1, hid x, by rw [hclaim x (mem_claimed hx).1 hm]⟩
    · rw [List.count_eq_zero_of_not_mem hm, Nat.add_zero] at this
      obtain ⟨r, hr, rfl, hpr⟩ := h.inFlight_processing t (List.count_pos_iff.1 this)
      exact ⟨g r, List.mem_map_of_mem _ hr, hid r, by rw [hkeep r hr hm]; exact hpr⟩
  · rw [ht₁, List.forall_mem_map]
    intro r hr
    have hs := h.sends r hr
    rw [hc₁, hid, hp r.id]
    by_cases hm : r.id ∈ s.claimed.map (·.id)
    · rw [hclaim r hr hm, List.count_eq_one_of_mem hcl hm]
      obtain ⟨h₁, h₂⟩ := hfresh r hr hm
      simp only [Task.charge, h₁, h₂, or_self, if_false] at hs
      simp only [Task.charge, true_or, if_true]
      push_cast; omega
    · rw [hkeep r hr hm, List.count_eq_zero_of_not_mem hm, Nat.add_zero]; exact hs
  · intro r hr hc
    have hm : r.id ∉ s.claimed.map (·.id) := fun hm => (hfresh r hr hm).2 hc
    rw [ht₁]
    exact hkeep r hr hm ▸ List.mem_map_of_mem _ hr

/-- A mark that commits rewrites the row of the task its worker is at, which
is claimed by that worker alone, and the worker lets go of the task. -/
theorem mark {i : Nat} {pc : OutboxPc} (hi : s.workers[i]? = some pc) {id : AuditIDs} {rest : List AuditIDs}
    (hpc : pc = .markFailed id rest ∨ pc = .markCompleted id rest) {f : Task → Task}
    (hid : ∀ r, (f r).id = r.id)
    (hf : ∀ r, r.Wf → r.status = .processing → (f r).Wf ∧ (f r).attemptsLeft - (f r).charge ≤ r.attemptsLeft - 1) :
    ((s.markTask id.taskID f).setWorker i (.get rest)).Inv ∧
      s.Tame ((s.markTask id.taskID f).setWorker i (.get rest)) := by
  have hheld : pc.held = id.taskID :: (OutboxPc.get rest).held := by rcases hpc with rfl | rfl <;> rfl
  have hpend : pc.pending = (OutboxPc.get rest).pending := by rcases hpc with rfl | rfl <;> rfl
  have ht : id.taskID ∈ s.inFlight := held_subset_inFlight hi _ (hheld ▸ List.mem_cons_self _ _)
  generalize hs₁ : (s.markTask id.taskID f).setWorker i (.get rest) = s₁
  have ht₁ : s₁.tasks = s.tasks.map fun r => if r.id = id.taskID then f r else r := by
    rw [← hs₁]; exact markTask_tasks _ _
  have hc₁ : s₁.sendCalls = s.sendCalls := by rw [← hs₁]; exact markTask_sendCalls _ _
  have hn₁ : s₁.nextTaskID = s.nextTaskID := by rw [← hs₁]; exact markTask_nextTaskID _ _
  have hw₁ : s₁.workers = s.workers.set i (.get rest) := by
    rw [← hs₁]; show (s.markTask _ _).workers.set i _ = _; rw [markTask_workers]
  have hf₁ := count_inFlight_set hi hw₁
  have hp₁ := count_pending_set hi hw₁
  rw [hheld] at hf₁
  rw [hpend] at hp₁
  simp only [List.count_cons, beq_iff_eq] at hf₁
  -- The worker was the task's only holder, and nobody may still send it.
  have hgone : s₁.inFlight.count id.taskID = 0 := by
    have h₁ := hf₁ id.taskID; have h₂ := h.count_inFlight_le id.taskID; rw [if_pos rfl] at h₁; omega
  have hpend₀ : s.pending.count id.taskID = 0 := by
    have := hp₁ id.taskID; have := s₁.count_pending_le id.taskID; omega
  have hmap : ∀ r ∈ s.tasks, r.id ≠ id.taskID → (if r.id = id.taskID then f r else r) = r := fun r _ hr => if_neg hr
  obtain ⟨hnd, hlt, hrow⟩ := h.mapRows (fun r => by split <;> simp only [hid]) ht₁ hn₁ hc₁
  refine ⟨⟨?_, hnd, hlt, ?_, fun t htf => ?_, hrow, ?_⟩, ⟨⟨[], by rw [hc₁, List.append_nil], fun _ => Nat.zero_le _⟩, ?_⟩⟩
  · rw [ht₁, List.forall_mem_map]
    intro r hr
    split
    · exact (hf r (h.wf r hr) (h.processing_of_inFlight hr (by rwa [‹r.id = _›]))).1
    · exact h.wf r hr
  · refine List.nodup_iff_count_le_one.2 fun t => ?_
    have := hf₁ t; have := h.count_inFlight_le t; omega
  · have hpos := List.count_pos_iff.2 htf
    have hne : t ≠ id.taskID := fun he => by rw [he, hgone] at hpos; exact absurd hpos (lt_irrefl 0)
    have := hf₁ t; simp only [hne, if_false] at this
    obtain ⟨r, hr, rfl, hpr⟩ := h.inFlight_processing t (List.count_pos_iff.1 (by omega))
    rw [ht₁]
    exact ⟨r, List.mem_map.2 ⟨r, hr, hmap r hr hne⟩, rfl, hpr⟩
  · rw [ht₁, List.forall_mem_map]
    intro r hr
    have hs := h.sends r hr
    have hpr := hp₁ r.id
    rw [hc₁]
    split
    · rename_i hk
      have hproc := h.processing_of_inFlight hr (by rwa [hk])
      have hb := (hf r (h.wf r hr) hproc).2
      simp only [Task.charge, hproc, true_or, if_true] at hs
      rw [hid]
      omega
    · omega
  · intro r hr hc
    have hne : r.id ≠ id.taskID := fun he => by
      have := h.processing_of_inFlight hr (he ▸ ht); rw [hc] at this; cases this
    rw [ht₁]
    exact List.mem_map.2 ⟨r, hr, hmap r hr hne⟩

/-- `CreateLogsWithTasks` adds rows with fresh ids and the column defaults. -/
theorem createLogsWithTasks (batch : List AuditLog) :
    (s.createLogsWithTasks batch).Inv ∧ s.Tame (s.createLogsWithTasks batch) := by
  have hnew : ∀ r ∈ (s.createLogsWithTasks batch).tasks, r ∈ s.tasks ∨
      ∃ k < batch.length, r = ⟨s.nextTaskID + k, s.nextLogID + k, .created, 3, none, s.clock, s.clock, none⟩ := by
    intro r hr
    rcases List.mem_append.1 hr with hr | hr
    · exact .inl hr
    · obtain ⟨k, hk, rfl⟩ := List.mem_map.1 hr
      exact .inr ⟨k, List.mem_range.1 hk, rfl⟩
  -- A fresh id is nobody's send and nobody's claim.
  have hfresh : ∀ t, s.nextTaskID ≤ t → s.sendCalls.count t = 0 ∧ s.pending.count t = 0 := by
    intro t ht
    refine ⟨List.count_eq_zero.2 fun hc => ?_, Nat.eq_zero_of_le_zero ((s.count_pending_le t).trans
      (Nat.le_of_eq (List.count_eq_zero.2 fun hc => ?_)))⟩
    · obtain ⟨r, hr, rfl⟩ := h.sendCalls_row t hc; exact absurd (h.ids_lt r hr) (by omega)
    · obtain ⟨r, hr, rfl, -⟩ := h.inFlight_processing t hc; exact absurd (h.ids_lt r hr) (by omega)
  refine ⟨⟨fun r hr => ?_, ?_, fun r hr => ?_, h.inFlight_nodup, fun t ht => ?_, fun t ht => ?_, fun r hr => ?_⟩,
    ⟨⟨[], (List.append_nil _).symm, fun _ => Nat.zero_le _⟩, fun r hr _ => List.mem_append_left _ hr⟩⟩
  · rcases hnew r hr with hr | ⟨k, -, rfl⟩
    exacts [h.wf r hr, Task.wf_new _ _ _]
  · simp only [Dispatcher.createLogsWithTasks, List.map_append, List.map_map]
    refine List.nodup_append.2 ⟨h.ids_nodup, (List.nodup_range _).map fun a b hab => by simpa using hab, ?_⟩
    intro a ha hb
    obtain ⟨r, hr, rfl⟩ := List.mem_map.1 ha
    obtain ⟨k, -, hk⟩ := List.mem_map.1 hb
    have := h.ids_lt r hr; simp only [Function.comp_apply] at hk; omega
  · rcases hnew r hr with hr | ⟨k, hk, rfl⟩
    · exact Nat.lt_of_lt_of_le (h.ids_lt r hr) (Nat.le_add_right _ _)
    · show s.nextTaskID + k < s.nextTaskID + batch.length; omega
  · obtain ⟨r, hr, hid, hp⟩ := h.inFlight_processing t ht
    exact ⟨r, List.mem_append_left _ hr, hid, hp⟩
  · obtain ⟨r, hr, hid⟩ := h.sendCalls_row t ht
    exact ⟨r, List.mem_append_left _ hr, hid⟩
  · rcases hnew r hr with hr | ⟨k, -, rfl⟩
    · exact h.sends r hr
    · obtain ⟨h₁, h₂⟩ := hfresh (s.nextTaskID + k) (Nat.le_add_right _ _)
      show (s.sendCalls.count (s.nextTaskID + k) : Int) + s.pending.count (s.nextTaskID + k) + 3 ≤ 3 + Task.charge _
      rw [h₁, h₂]; simp [Task.charge]

/-- Every step keeps the invariant, and is tame. -/
theorem step {a : Act} (hs : s.step a = some s') : s'.Inv ∧ s.Tame s' := by
  cases a with
  | worker i fail =>
    obtain ⟨pc, hi, hs⟩ := Dispatcher.step_worker hs
    cases Dispatcher.workerStep_move hs with
    | fetchFailed _ => exact ⟨h, ⟨[], (List.append_nil _).symm, fun _ => Nat.zero_le _⟩, fun r hr _ => hr⟩
    | done _ => exact h.move hi rfl rfl rfl (List.append_nil _).symm (fun _ => le_rfl) fun _ => by simp [OutboxPc.pending]
    | fetch _ => exact h.fetch hi
    | batchDone => exact h.move hi rfl rfl rfl (List.append_nil _).symm (fun _ => le_rfl) fun _ => by simp [OutboxPc.pending]
    | getAuditLog _ =>
      exact h.move hi rfl rfl rfl (List.append_nil _).symm (fun _ => le_rfl) fun _ => by simp [OutboxPc.pending]
    | getAuditLogFailed _ =>
      exact h.move hi rfl rfl rfl (List.append_nil _).symm (fun _ => le_rfl)
        fun _ => by simp [OutboxPc.pending, List.count_cons]
    | sendFailed =>
      exact h.move hi rfl rfl rfl rfl (fun _ => le_rfl)
        fun _ => by simp [OutboxPc.pending, List.count_cons, List.count_singleton]; omega
    | send =>
      exact h.move hi rfl rfl rfl rfl (fun _ => le_rfl)
        fun _ => by simp [OutboxPc.pending, List.count_cons, List.count_singleton]; omega
    | markFailed =>
      exact h.mark hi (.inl rfl) (fun _ => rfl) fun r hr hp => ⟨hr.markFailed hp _, Task.charge_markFailed _ r⟩
    | markCompleted =>
      exact h.mark hi (.inr rfl) (fun _ => rfl) fun r hr hp => ⟨hr.markCompleted hp _, Task.charge_markCompleted _ r⟩
    | markError hk =>
      rcases hk with rfl | rfl <;>
        exact h.move hi rfl rfl rfl (List.append_nil _).symm (fun _ => by simp [OutboxPc.held, List.count_cons])
          fun _ => by simp [OutboxPc.pending]
  | createLogsWithTasks batch => cases hs; exact h.createLogsWithTasks batch
  | tick t =>
    simp only [Dispatcher.step] at hs
    split at hs
    · cases hs; exact ⟨⟨h.1, h.2, h.3, h.4, h.5, h.6, h.7⟩, ⟨[], (List.append_nil _).symm, fun _ => Nat.zero_le _⟩,
      fun r hr _ => hr⟩
    · cases hs
  | stop =>
    cases hs; exact ⟨⟨h.1, h.2, h.3, h.4, h.5, h.6, h.7⟩, ⟨[], (List.append_nil _).symm, fun _ => Nat.zero_le _⟩,
      fun r hr _ => hr⟩

/-- Over any run from a state that keeps the invariant, it is kept. -/
theorem steps (hs : s.Steps s') : s'.Inv := by
  induction hs with
  | refl => exact h
  | tail _ hst ih => obtain ⟨a, ha⟩ := hst; exact (ih.step ha).1

/-- No task is in two workers' batches. -/
theorem held_disjoint {i j : Nat} {pi pj : OutboxPc} (hij : i ≠ j) (hi : s.workers[i]? = some pi)
    (hj : s.workers[j]? = some pj) {t : Nat} (ht : t ∈ pi.held) : t ∉ pj.held := fun ht' => by
  have := count_add_le_flatMap OutboxPc.held t hi hj hij .idle rfl
  have := h.count_inFlight_le t
  have := List.count_pos_iff.2 ht; have := List.count_pos_iff.2 ht'
  unfold Dispatcher.inFlight at *; omega

/-- A task is passed to `SendMessage` at most three times. -/
theorem count_sendCalls_le (t : Nat) : s.sendCalls.count t ≤ 3 := by
  by_cases ht : t ∈ s.sendCalls
  · obtain ⟨r, hr, rfl⟩ := h.sendCalls_row t ht
    have hs := h.sends r hr
    have hw := h.wf r hr
    have : r.charge ≤ r.attemptsLeft := by
      unfold Task.charge
      split_ifs with hc
      · rcases hc with hc | hc
        · exact hw.processing hc
        · have := hw.attemptsLeft_nonneg; have := mt hw.noAttemptsLeft.2 (by rw [hc]; decide); omega
      · exact hw.attemptsLeft_nonneg
    omega
  · rw [List.count_eq_zero_of_not_mem ht]; omega

/-- A completed task keeps its row and is never passed to `SendMessage` again. -/
theorem completed_steps {r : Task} (hr : r ∈ s.tasks) (hc : r.status = .completed) (hs : s.Steps s') :
    r ∈ s'.tasks ∧ s'.sendCalls.count r.id = s.sendCalls.count r.id := by
  induction hs with
  | refl => exact ⟨hr, rfl⟩
  | @tail s₁ s₂ hs₁ hst ih =>
    obtain ⟨a, ha⟩ := hst
    have h₁ := h.steps hs₁
    obtain ⟨-, ⟨extra, hext, hle⟩, hkeep⟩ := h₁.step ha
    have hnot : s₁.pending.count r.id = 0 := by
      refine Nat.eq_zero_of_le_zero ((s₁.count_pending_le r.id).trans (Nat.le_of_eq (List.count_eq_zero.2 ?_)))
      intro ht
      have := h₁.processing_of_inFlight ih.1 ht
      rw [hc] at this; cases this
    refine ⟨hkeep r ih.1 hc, ?_⟩
    rw [hext, List.count_append, ← ih.2]
    have := hle r.id; omega

end Dispatcher.Inv

theorem Dispatcher.Reachable.inv {s : Dispatcher} (h : s.Reachable) : s.Inv := by
  obtain ⟨w, b, hs⟩ := h
  exact (Dispatcher.inv_init w b).steps hs

/-- The rows of every reachable table keep their shape (`Task.Wf`). -/
theorem reachable_tasks_wf {s : Dispatcher} (h : s.Reachable) : ∀ r ∈ s.tasks, r.Wf := h.inv.wf

/-- The run that fails a task once: claimed, its `GetAuditLog` fails and
`MarkTaskFailed` commits, leaving it `FAILED` with two attempts. -/
theorem reachable_tasks_wf_retried :
    ∃ s : Dispatcher, s.Reachable ∧ (∃ r ∈ s.tasks, r.status = .failed ∧ r.attemptsLeft = 2) ∧
      ∀ r ∈ s.tasks, r.Wf := by
  let s := (Dispatcher.init 1 10).replay [.createLogsWithTasks [orderStatusLog 0 1 "none" "accepted"],
    .worker 0 false, .worker 0 true, .worker 0 false]
  have h : s.Reachable := ⟨1, 10, Dispatcher.steps_replay _ _⟩
  exact ⟨s, h, by decide, reachable_tasks_wf h⟩

/-- For any number of workers and any interleaving: no task is in two workers'
batches at once, no task is passed to `SendMessage` more than three times, and
no task is passed to it again once its `MarkTaskCompleted` has committed. -/
theorem reachable_sends_at_most_three {s : Dispatcher} (h : s.Reachable) :
    (∀ (i j : Nat) pi pj, i ≠ j → s.workers[i]? = some pi → s.workers[j]? = some pj →
      ∀ t ∈ OutboxPc.held pi, t ∉ OutboxPc.held pj) ∧
    (∀ t, s.sendCalls.count t ≤ 3) ∧
    (∀ s' t, s.Steps s' → (∃ r ∈ s.tasks, r.id = t ∧ r.status = .completed) →
      s'.sendCalls.count t = s.sendCalls.count t) :=
  ⟨fun _ _ _ _ hij hi hj _ ht => h.inv.held_disjoint hij hi hj ht, h.inv.count_sendCalls_le,
    fun _ _ hs ⟨_, hr, hid, hc⟩ => hid ▸ (h.inv.completed_steps hr hc hs).2⟩

/-- Two workers, one task claimed by the first and passed to `SendMessage`. -/
theorem reachable_sends_at_most_three_sending :
    ∃ s : Dispatcher, s.Reachable ∧ s.sendCalls = [1] ∧
      (∀ (i j : Nat) pi pj, i ≠ j → s.workers[i]? = some pi → s.workers[j]? = some pj →
        ∀ t ∈ OutboxPc.held pi, t ∉ OutboxPc.held pj) ∧
      (∀ t, s.sendCalls.count t ≤ 3) ∧
      (∀ s' t, s.Steps s' → (∃ r ∈ s.tasks, r.id = t ∧ r.status = .completed) →
        s'.sendCalls.count t = s.sendCalls.count t) := by
  let s := (Dispatcher.init 2 10).replay [.createLogsWithTasks [orderStatusLog 0 1 "none" "accepted"],
    .worker 0 false, .worker 0 false, .worker 0 false, .worker 1 false]
  have h : s.Reachable := ⟨2, 10, Dispatcher.steps_replay _ _⟩
  exact ⟨s, h, by decide, reachable_sends_at_most_three h⟩

end Pvz.Outbox
