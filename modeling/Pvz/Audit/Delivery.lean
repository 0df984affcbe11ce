import Pvz.Audit.Logger
import Mathlib.Data.Multiset.Nodup
import Mathlib.Tactic.Abel

/-!
# What the audit logger delivers, and when it panics

Two results over every run of `Pvz.Audit.Logger`.

* **At most once.** Follow the events bound for one pool: they sit in the
  overflow list, in the drainer's hand, in `mainLogCh`, in `fanOutLogs`'s hand,
  in the pool's inbox, in a worker's batch, with the pool's processor, or in
  the shutdown printout. No step copies an event within that trail; a step
  moves an event along it, drops it, or (`Log`) adds a new one. So no
  processor is handed an event twice, nothing is printed twice, and nothing
  printed reaches a processor (`reachable_at_most_once`).
* **Who closes what.** Only `fanOutLogs` closes the pools' inboxes, after which
  it sends nothing; only `Shutdown` closes `mainLogCh`, once. So the only step
  that can panic is a send on `mainLogCh` after `Shutdown` closed it: a `Log`
  call, or the drainer's `tryFlushOverflow` (`reachable_panic_step`).

Neither says an event is delivered: a step may drop one, and the runs below
show that both a drop and a panic happen.
-/

namespace Pvz.Audit

/-! ## Trails -/

/-- The numbers of a list of events, as a multiset. -/
def seqs (l : List Entry) : Multiset Nat := ↑(l.map Entry.seq)

@[simp] theorem seqs_nil : seqs [] = 0 := rfl

theorem seqs_cons (e : Entry) (l : List Entry) : seqs (e :: l) = {e.seq} + seqs l := by
  simp [seqs, Multiset.singleton_add]

@[simp] theorem seqs_append (l l' : List Entry) : seqs (l ++ l') = seqs l + seqs l' := by
  simp [seqs]

/-- The event the drainer holds between taking it off the overflow list and
its select. -/
def Drainer.held : Drainer → List Entry
  | .hold e => [e]
  | _ => []

/-- The event `fanOutLogs` is sending that pool `p` has yet to receive: pools
are served in order, stdout first. -/
def FanOut.pending (p : PoolId) : FanOut → List Entry
  | .send e q => if q = .stdout ∨ p = .db then [e] else []
  | _ => []

/-- What a pool holds: its inbox, its workers' batches, and what its processor
was handed. -/
def Pool.held (pool : Pool) : Multiset Nat :=
  seqs pool.inputCh.buf + seqs (pool.workers.flatMap Worker.batch) + seqs pool.processed

/-- Every place an event bound for pool `p` can be, and the shutdown printout. -/
def Logger.trail (s : Logger) (p : PoolId) : Multiset Nat :=
  seqs s.overflow + seqs s.drainer.held + seqs s.mainLogCh.buf + seqs (s.fanOut.pending p) +
    (s.pools p).held + seqs s.printed

theorem held_update (pools : PoolId → Pool) (q p : PoolId) (pool : Pool) :
    (Function.update pools q pool p).held = if p = q then pool.held else (pools p).held := by
  rw [Function.update_apply]; split <;> rfl

/-- Replacing worker `i` replaces its batch among the pool's batches. -/
theorem seqs_flatMap_set {ws : List Worker} {i : Nat} {w : Worker} (h : ws[i]? = some w) (w' : Worker) :
    seqs ((ws.set i w').flatMap Worker.batch) + seqs w.batch =
      seqs (ws.flatMap Worker.batch) + seqs w'.batch := by
  induction ws generalizing i with
  | nil => cases h
  | cons v ws ih =>
    cases i with
    | zero =>
      obtain rfl : v = w := by simpa using h
      simp only [List.set_cons_zero, List.flatMap_cons, seqs_append]; abel
    | succ i =>
      rw [List.getElem?_cons_succ] at h
      simp only [List.set_cons_succ, List.flatMap_cons, seqs_append, add_assoc, ih h]

/-- A worker's select that moves events only between its pool's inbox, its own
batch and the processor, and keeps the pool's workers and inbox state. -/
def Pool.Conserves (f : Pool → Worker → Option (Pool × Worker)) : Prop :=
  ∀ pool w r, f pool w = some r → r.1.workers = pool.workers ∧ r.1.inputCh.closed = pool.inputCh.closed ∧
    seqs r.1.inputCh.buf + seqs r.1.processed + seqs r.2.batch =
      seqs pool.inputCh.buf + seqs pool.processed + seqs w.batch

theorem conserves_recv : Pool.Conserves Pool.recv := by
  intro pool w r h
  unfold Pool.recv at h
  split at h
  · dsimp only at h
    split at h <;> cases h <;>
      simp only [Pool.processLogs, seqs_append, seqs_cons, seqs_nil, *, and_self, true_and] <;> abel
  · split at h
    · cases h; simp only [Pool.processLogs, seqs_append, seqs_nil, and_self, true_and]; abel
    · cases h

theorem conserves_timer : Pool.Conserves Pool.timer := by
  rintro pool w r ⟨⟩
  simp only [Pool.processLogs, seqs_append, seqs_nil, and_self, true_and]; abel

theorem conserves_done (c : Bool) : Pool.Conserves (Pool.done c) := by
  intro pool w r h
  unfold Pool.done at h
  split at h
  · cases h; simp only [Pool.processLogs, seqs_append, seqs_nil, and_self, true_and]; abel
  · cases h

/-! ## One step moves, drops or adds events -/

theorem held_closePool (s : Logger) (q p : PoolId) : ((s.closePool q).pools p).held = (s.pools p).held := by
  simp only [Logger.closePool, Logger.setPool, held_update]
  split
  · subst_vars; rfl
  · rfl

/-- Closing the inboxes at `fanOutLogs`'s loop moves no event. -/
theorem trail_closeInputChs {s : Logger} (h : s.fanOut = .recv) (p : PoolId) :
    { s.closeInputChs with fanOut := .exited }.trail p = s.trail p := by
  simp only [Logger.trail, Logger.closeInputChs, held_closePool, h, FanOut.pending]
  rfl

variable {s s' : Logger}

theorem log_trail (l : AuditLog) (p : PoolId) :
    (s.log l).trail p = s.trail p + if s.mainLogCh.closed then 0 else {s.nextSeq} := by
  unfold Logger.log
  dsimp only
  split_ifs <;> simp only [Logger.trail, seqs_append, seqs_cons, seqs_nil, add_zero] <;> abel

theorem fanOutChannel_trail (h : s.fanOutChannel = some s') (p : PoolId) :
    s'.nextSeq = s.nextSeq ∧ s'.trail p = s.trail p := by
  unfold Logger.fanOutChannel at h
  cases hf : s.fanOut with
  | recv =>
    cases hb : s.mainLogCh.buf with
    | cons e rest =>
      simp only [hf, hb, Option.some.injEq] at h; subst h
      refine ⟨rfl, ?_⟩
      simp only [Logger.trail, FanOut.pending, hf, hb, seqs_cons, seqs_nil, true_or, if_true]
      abel
    | nil =>
      simp only [hf, hb] at h
      split_ifs at h
      cases h; exact ⟨rfl, trail_closeInputChs hf p⟩
  | send e q =>
    simp only [hf] at h
    split_ifs at h with hc hr
    · cases h; exact ⟨rfl, by simp only [Logger.trail, hf]⟩
    · cases h
      refine ⟨rfl, ?_⟩
      cases q <;> cases p <;>
        simp [Logger.trail, FanOut.pending, Logger.setPool, held_update, Pool.held, hf] <;> abel
  | exited => simp [hf] at h

theorem fanOutDone_trail (h : s.fanOutDone = some s') (p : PoolId) :
    s'.nextSeq = s.nextSeq ∧ s'.trail p ≤ s.trail p := by
  unfold Logger.fanOutDone at h
  split at h
  · cases hf : s.fanOut with
    | recv =>
      rw [hf, Option.some.injEq] at h; subst h
      exact ⟨rfl, (trail_closeInputChs hf p).le⟩
    | send e q =>
      rw [hf, Option.some.injEq] at h; subst h
      refine ⟨rfl, ?_⟩
      simp only [Logger.trail, hf, FanOut.pending, seqs_nil, add_zero]
      exact Multiset.le_iff_exists_add.2 ⟨seqs (if q = .stdout ∨ p = .db then [e] else []), by abel⟩
    | exited => simp [hf] at h
  · cases h

theorem held_worker {f : Pool → Worker → Option (Pool × Worker)} (hf : Pool.Conserves f) {pool : Pool}
    {i : Nat} {w : Worker} (hw : pool.workers[i]? = some w) {r : Pool × Worker} (hr : f pool w = some r) :
    { r.1 with workers := r.1.workers.set i r.2 }.held = pool.held := by
  obtain ⟨hws, -, hc⟩ := hf _ _ _ hr
  have hs := seqs_flatMap_set hw r.2
  unfold Pool.held
  dsimp only
  rw [hws]
  have key : seqs r.1.inputCh.buf + seqs ((pool.workers.set i r.2).flatMap Worker.batch) +
      seqs r.1.processed + seqs w.batch =
      seqs pool.inputCh.buf + seqs (pool.workers.flatMap Worker.batch) + seqs pool.processed + seqs w.batch :=
    calc _ = seqs r.1.inputCh.buf + seqs r.1.processed +
          (seqs ((pool.workers.set i r.2).flatMap Worker.batch) + seqs w.batch) := by abel
      _ = seqs r.1.inputCh.buf + seqs r.1.processed + seqs r.2.batch +
          seqs (pool.workers.flatMap Worker.batch) := by rw [hs]; abel
      _ = seqs pool.inputCh.buf + seqs pool.processed + seqs w.batch +
          seqs (pool.workers.flatMap Worker.batch) := by rw [hc]
      _ = _ := by abel
  exact add_right_cancel key

theorem worker_trail {f : Pool → Worker → Option (Pool × Worker)} (hf : Pool.Conserves f) {q : PoolId}
    {i : Nat} (h : s.worker q i f = some s') (p : PoolId) :
    s'.nextSeq = s.nextSeq ∧ s'.trail p = s.trail p := by
  unfold Logger.worker at h
  cases hw : (s.pools q).workers[i]? with
  | none => simp only [hw] at h; cases h
  | some w =>
    simp only [hw] at h
    split_ifs at h
    obtain ⟨r, hr, rfl⟩ := Option.map_eq_some'.1 h
    refine ⟨rfl, ?_⟩
    simp only [Logger.trail, Logger.setPool, held_update]
    split
    · subst_vars; rw [held_worker hf hw hr]
    · rfl

/-- Printing the overflow list at shutdown moves its events to the printout. -/
theorem trail_tryFlushOverflowOnShutdown (h : s.drainer = .loop) (p : PoolId) :
    { s.tryFlushOverflowOnShutdown with drainer := .exited }.trail p = s.trail p := by
  simp only [Logger.trail, Logger.tryFlushOverflowOnShutdown, Drainer.held, h, seqs_append, seqs_nil, zero_add]
  abel

theorem drainerTick_trail (h : s.drainerTick = some s') (p : PoolId) :
    s'.nextSeq = s.nextSeq ∧ s'.trail p = s.trail p := by
  unfold Logger.drainerTick at h
  split at h
  · cases h
    split_ifs
    · exact ⟨rfl, trail_tryFlushOverflowOnShutdown ‹_› p⟩
    · exact ⟨rfl, by simp only [Logger.trail, Drainer.held, *]⟩
  · cases h

theorem drainerDone_trail (h : s.drainerDone = some s') (p : PoolId) :
    s'.nextSeq = s.nextSeq ∧ s'.trail p = s.trail p := by
  unfold Logger.drainerDone at h
  split at h
  · split_ifs at h
    cases h
    exact ⟨rfl, trail_tryFlushOverflowOnShutdown ‹_› p⟩
  · cases h

theorem drainerPop_trail (h : s.drainerPop = some s') (p : PoolId) :
    s'.nextSeq = s.nextSeq ∧ s'.trail p = s.trail p := by
  unfold Logger.drainerPop at h
  cases hd : s.drainer with
  | flush =>
    cases ho : s.overflow with
    | nil =>
      simp only [hd, ho, Option.some.injEq] at h; subst h
      exact ⟨rfl, by simp only [Logger.trail, Drainer.held, hd, ho]⟩
    | cons e rest =>
      simp only [hd, ho, Option.some.injEq] at h; subst h
      refine ⟨rfl, ?_⟩
      simp only [Logger.trail, Drainer.held, hd, ho, seqs_cons, seqs_nil]
      abel
  | _ => simp [hd] at h

theorem drainerSend_trail (h : s.drainerSend = some s') (p : PoolId) :
    s'.nextSeq = s.nextSeq ∧ s'.trail p = s.trail p := by
  unfold Logger.drainerSend at h
  cases hd : s.drainer with
  | hold e =>
    simp only [hd] at h
    split_ifs at h
    · cases h; exact ⟨rfl, by simp only [Logger.trail, hd]⟩
    · cases h
      refine ⟨rfl, ?_⟩
      simp only [Logger.trail, Drainer.held, hd, seqs_append, seqs_cons, seqs_nil]
      abel
  | _ => simp [hd] at h

theorem drainerBack_trail (h : s.drainerBack = some s') (p : PoolId) :
    s'.nextSeq = s.nextSeq ∧ s'.trail p = s.trail p := by
  unfold Logger.drainerBack at h
  cases hd : s.drainer with
  | hold e =>
    simp only [hd] at h
    split_ifs at h
    cases h
    refine ⟨rfl, ?_⟩
    simp only [Logger.trail, Drainer.held, hd, seqs_cons, seqs_nil]
    abel
  | _ => simp [hd] at h

theorem cancel_trail (h : s.cancel = some s') (p : PoolId) :
    s'.nextSeq = s.nextSeq ∧ s'.trail p = s.trail p := by
  unfold Logger.cancel at h
  split at h
  · cases h; exact ⟨rfl, rfl⟩
  · cases h

theorem close_trail (h : s.close = some s') (p : PoolId) :
    s'.nextSeq = s.nextSeq ∧ s'.trail p = s.trail p := by
  unfold Logger.close at h
  split at h
  · cases h; split_ifs <;> exact ⟨rfl, rfl⟩
  · cases h

theorem shutdownReturn_trail (h : s.shutdownReturn = some s') (p : PoolId) :
    s'.nextSeq = s.nextSeq ∧ s'.trail p = s.trail p := by
  unfold Logger.shutdownReturn at h
  split at h
  · split_ifs at h
    cases h; exact ⟨rfl, rfl⟩
  · cases h

theorem log_nextSeq (l : AuditLog) : (s.log l).nextSeq = s.nextSeq + 1 := by
  unfold Logger.log; dsimp only; split_ifs <;> rfl

/-- A step adds the event of its `Log` call to a trail, or moves and drops
events along it. -/
theorem step_trail {a : Act} (h : s.step a = some s') (p : PoolId) :
    (∃ l, s' = s.log l) ∨ s'.nextSeq = s.nextSeq ∧ s'.trail p ≤ s.trail p := by
  cases a with
  | log l => exact .inl ⟨l, (Option.some.inj h).symm⟩
  | fanOutDone => exact .inr (fanOutDone_trail h p)
  | fanOutChannel => exact .inr ((fanOutChannel_trail h p).imp_right le_of_eq)
  | workerRecv q i => exact .inr ((worker_trail conserves_recv h p).imp_right le_of_eq)
  | workerTimer q i => exact .inr ((worker_trail conserves_timer h p).imp_right le_of_eq)
  | workerDone q i => exact .inr ((worker_trail (conserves_done _) h p).imp_right le_of_eq)
  | drainerTick => exact .inr ((drainerTick_trail h p).imp_right le_of_eq)
  | drainerDone => exact .inr ((drainerDone_trail h p).imp_right le_of_eq)
  | drainerPop => exact .inr ((drainerPop_trail h p).imp_right le_of_eq)
  | drainerSend => exact .inr ((drainerSend_trail h p).imp_right le_of_eq)
  | drainerBack => exact .inr ((drainerBack_trail h p).imp_right le_of_eq)
  | cancel => exact .inr ((cancel_trail h p).imp_right le_of_eq)
  | close => exact .inr ((close_trail h p).imp_right le_of_eq)
  | shutdownReturn => exact .inr ((shutdownReturn_trail h p).imp_right le_of_eq)

/-! ## At most once -/

/-- No number appears twice on a pool's trail, and every number on it belongs
to a `Log` call already made. -/
structure Logger.Unique (s : Logger) : Prop where
  nodup : ∀ p, (s.trail p).Nodup
  lt : ∀ p, ∀ n ∈ s.trail p, n < s.nextSeq

theorem Logger.unique_init (workersNum batchSize : Nat) : (Logger.init workersNum batchSize).Unique := by
  have h : ∀ p, (Logger.init workersNum batchSize).trail p = 0 := by
    intro p; simp [Logger.trail, Logger.init, Pool.held, Drainer.held, FanOut.pending, seqs]
  exact ⟨fun p => h p ▸ Multiset.nodup_zero, fun p n hn => by simp [h p] at hn⟩

theorem log_trail_le (l : AuditLog) (p : PoolId) : (s.log l).trail p ≤ s.nextSeq ::ₘ s.trail p := by
  rw [log_trail, ← Multiset.singleton_add, add_comm ({s.nextSeq} : Multiset Nat)]
  split_ifs
  · exact add_le_add_left (Multiset.zero_le _) _
  · exact le_rfl

theorem Logger.Unique.step (hs : s.Unique) (h : s.Step s') : s'.Unique := by
  obtain ⟨a, ha⟩ := h
  constructor <;> intro p <;> rcases step_trail ha p with ⟨l, rfl⟩ | ⟨hn, hle⟩
  · refine Multiset.nodup_of_le (log_trail_le l p) (Multiset.nodup_cons.2 ⟨fun hm => ?_, hs.nodup p⟩)
    exact lt_irrefl _ (hs.lt p _ hm)
  · exact Multiset.nodup_of_le hle (hs.nodup p)
  · intro n hm
    rw [log_nextSeq]
    rcases Multiset.mem_cons.1 (Multiset.mem_of_le (log_trail_le l p) hm) with rfl | hm
    · exact Nat.lt_succ_self _
    · exact Nat.lt_succ_of_lt (hs.lt p n hm)
  · intro n hm
    rw [hn]
    exact hs.lt p n (Multiset.mem_of_le hle hm)

theorem Logger.Reachable.unique (h : s.Reachable) : s.Unique := by
  obtain ⟨w, b, hs⟩ := h
  induction hs with
  | refl => exact Logger.unique_init w b
  | tail _ hst ih => exact ih.step hst

/-- Over every run: no processor is handed an event twice,
`tryFlushOverflowOnShutdown` prints no event twice, and no printed event is
handed to a processor. -/
theorem reachable_at_most_once (h : s.Reachable) (p : PoolId) :
    ((s.pools p).processed.map Entry.seq).Nodup ∧ (s.printed.map Entry.seq).Nodup ∧
      ∀ e ∈ s.printed, ∀ e' ∈ (s.pools p).processed, e.seq ≠ e'.seq := by
  have hle : seqs (s.pools p).processed + seqs s.printed ≤ s.trail p :=
    Multiset.le_iff_exists_add.2 ⟨seqs s.overflow + seqs s.drainer.held + seqs s.mainLogCh.buf +
      seqs (s.fanOut.pending p) + seqs (s.pools p).inputCh.buf + seqs ((s.pools p).workers.flatMap Worker.batch),
      by simp only [Logger.trail, Pool.held]; abel⟩
  obtain ⟨h₁, h₂, h₃⟩ := Multiset.nodup_add.1 (Multiset.nodup_of_le hle (h.unique.nodup p))
  refine ⟨Multiset.coe_nodup.1 h₁, Multiset.coe_nodup.1 h₂, fun e he e' he' heq => ?_⟩
  refine Multiset.disjoint_left.1 h₃ (Multiset.mem_coe.2 (List.mem_map_of_mem Entry.seq he')) ?_
  exact heq ▸ Multiset.mem_coe.2 (List.mem_map_of_mem Entry.seq he)

/-- Two status changes logged, fanned out to both pools, and handed by the
db pool's worker to its processor one at a time. -/
theorem reachable_at_most_once_two_events :
    ((Logger.init 1 1).replay [.log (orderStatusLog 0 1 "none" "accepted"), .log (orderStatusLog 1 1 "accepted" "delivered"),
          .fanOutChannel, .fanOutChannel, .fanOutChannel, .fanOutChannel, .fanOutChannel, .fanOutChannel,
          .workerRecv .db 0, .workerRecv .db 0]).Reachable ∧
      (((Logger.init 1 1).replay [.log (orderStatusLog 0 1 "none" "accepted"), .log (orderStatusLog 1 1 "accepted" "delivered"),
          .fanOutChannel, .fanOutChannel, .fanOutChannel, .fanOutChannel, .fanOutChannel, .fanOutChannel,
          .workerRecv .db 0, .workerRecv .db 0]).pools .db).processed.map Entry.seq = [0, 1] ∧
      ((((Logger.init 1 1).replay [.log (orderStatusLog 0 1 "none" "accepted"), .log (orderStatusLog 1 1 "accepted" "delivered"),
          .fanOutChannel, .fanOutChannel, .fanOutChannel, .fanOutChannel, .fanOutChannel, .fanOutChannel,
          .workerRecv .db 0, .workerRecv .db 0]).pools .db).processed.map Entry.seq).Nodup ∧ (((Logger.init 1 1).replay [.log (orderStatusLog 0 1 "none" "accepted"), .log (orderStatusLog 1 1 "accepted" "delivered"),
          .fanOutChannel, .fanOutChannel, .fanOutChannel, .fanOutChannel, .fanOutChannel, .fanOutChannel,
          .workerRecv .db 0, .workerRecv .db 0]).printed.map Entry.seq).Nodup ∧
      ∀ e ∈ ((Logger.init 1 1).replay [.log (orderStatusLog 0 1 "none" "accepted"), .log (orderStatusLog 1 1 "accepted" "delivered"),
          .fanOutChannel, .fanOutChannel, .fanOutChannel, .fanOutChannel, .fanOutChannel, .fanOutChannel,
          .workerRecv .db 0, .workerRecv .db 0]).printed, ∀ e' ∈ (((Logger.init 1 1).replay [.log (orderStatusLog 0 1 "none" "accepted"), .log (orderStatusLog 1 1 "accepted" "delivered"),
          .fanOutChannel, .fanOutChannel, .fanOutChannel, .fanOutChannel, .fanOutChannel, .fanOutChannel,
          .workerRecv .db 0, .workerRecv .db 0]).pools .db).processed, e.seq ≠ e'.seq :=
  have h : ((Logger.init 1 1).replay [.log (orderStatusLog 0 1 "none" "accepted"), .log (orderStatusLog 1 1 "accepted" "delivered"),
          .fanOutChannel, .fanOutChannel, .fanOutChannel, .fanOutChannel, .fanOutChannel, .fanOutChannel,
          .workerRecv .db 0, .workerRecv .db 0]).Reachable := ⟨1, 1, Logger.steps_replay _ _⟩
  ⟨h, by decide, reachable_at_most_once h .db⟩

/-- The at-most-once bound is all there is: an event that `Log` buffered in
`mainLogCh` before `Shutdown` began can be lost. `fanOutLogs` picks
`ctx.Done()` over the buffered event, closes the pools' inboxes and returns;
the workers find their inboxes closed and empty, the drainer finds the
overflow list empty, and `Shutdown` returns with the event neither handed to a
processor nor printed. -/
theorem shutdown_drops_buffered_event :
    ∃ s s' : Logger, s.Reachable ∧ s.shutdown = .notCalled ∧ s.mainLogCh.buf.map Entry.seq = [0] ∧ s.Steps s' ∧
      s'.shutdown = .returned ∧ s'.panicked = false ∧
      (s'.pools .stdout).processed = [] ∧ (s'.pools .db).processed = [] ∧ s'.printed = [] :=
  ⟨_, _, ⟨1, 1, Logger.steps_replay _ [.log (orderStatusLog 0 1 "none" "accepted")]⟩, rfl, rfl,
    Logger.steps_replay _ [.cancel, .fanOutDone, .close, .workerRecv .stdout 0, .workerRecv .db 0,
      .drainerDone, .shutdownReturn], rfl, rfl, rfl, rfl, rfl⟩

/-! ## Who closes what -/

/-- Who has closed which channel: a pool's inbox only once `fanOutLogs` has
returned, `mainLogCh` only once `Shutdown` has closed it. -/
structure Logger.Closure (s : Logger) : Prop where
  inputCh : ∀ p, (s.pools p).inputCh.closed → s.fanOut = .exited
  mainLogCh : s.mainLogCh.closed → s.shutdown = .closed ∨ s.shutdown = .returned

theorem Logger.closure_init (workersNum batchSize : Nat) : (Logger.init workersNum batchSize).Closure :=
  ⟨(fun _ h => by cases h), fun h => by cases h⟩

/-- A step that leaves the pools, `fanOutLogs`, `mainLogCh`'s state and
`Shutdown` where they were keeps `Closure`. -/
theorem Logger.Closure.frame (hs : s.Closure) (hp : ∀ p, (s'.pools p).inputCh.closed = (s.pools p).inputCh.closed)
    (hf : s'.fanOut = s.fanOut) (hm : s'.mainLogCh.closed = s.mainLogCh.closed)
    (hd : s'.shutdown = s.shutdown) : s'.Closure :=
  ⟨fun p h => hf ▸ hs.inputCh p (hp p ▸ h), fun h => hd ▸ hs.mainLogCh (hm ▸ h)⟩

/-- While `fanOutLogs` runs, no pool's inbox is closed. -/
theorem Logger.Closure.open_of_running (hs : s.Closure) (hf : s.fanOut ≠ .exited) (p : PoolId) :
    (s.pools p).inputCh.closed = false := by
  cases hc : (s.pools p).inputCh.closed
  · rfl
  · exact absurd (hs.inputCh p hc) hf

theorem closeInputChs_panicked (s : Logger) :
    s.closeInputChs.panicked = (s.panicked || (s.pools .stdout).inputCh.closed || (s.pools .db).inputCh.closed) := by
  simp [Logger.closeInputChs, Logger.closePool, Logger.setPool, Function.update_noteq]

/-- At `fanOutLogs`'s loop, closing the pools' inboxes and returning panics
nowhere. -/
theorem closure_closeInputChs (hs : s.Closure) (hf : s.fanOut = .recv) :
    { s.closeInputChs with fanOut := .exited }.Closure ∧
      { s.closeInputChs with fanOut := .exited }.panicked = s.panicked := by
  refine ⟨⟨fun _ _ => rfl, hs.mainLogCh⟩, ?_⟩
  simp only [closeInputChs_panicked, hs.open_of_running (by simp [hf]), Bool.or_false]

theorem log_closure (hs : s.Closure) (l : AuditLog) :
    (s.log l).Closure ∧ ((s.log l).panicked = true → s.panicked = true ∨ s.mainLogCh.closed = true) := by
  unfold Logger.log
  dsimp only
  split_ifs with hc
  · exact ⟨hs.frame (fun _ => rfl) rfl rfl rfl, fun _ => .inr hc⟩
  · exact ⟨hs.frame (fun _ => rfl) rfl rfl rfl, .inl⟩
  · exact ⟨hs.frame (fun _ => rfl) rfl rfl rfl, .inl⟩

theorem fanOutChannel_closure (hs : s.Closure) (h : s.fanOutChannel = some s') :
    s'.Closure ∧ s'.panicked = s.panicked := by
  unfold Logger.fanOutChannel at h
  cases hf : s.fanOut with
  | recv =>
    cases hb : s.mainLogCh.buf with
    | cons e rest =>
      simp only [hf, hb, Option.some.injEq] at h; subst h
      refine ⟨⟨fun p hc => ?_, hs.mainLogCh⟩, rfl⟩
      exact absurd hc (by simp [hs.open_of_running (by simp [hf]) p])
    | nil =>
      simp only [hf, hb] at h
      split_ifs at h
      cases h; exact closure_closeInputChs hs hf
  | send e q =>
    simp only [hf] at h
    have hq := hs.open_of_running (by simp [hf]) q
    split_ifs at h with hc
    · exact absurd hc (by simp [hq])
    · cases h
      refine ⟨⟨fun p hc => ?_, hs.mainLogCh⟩, rfl⟩
      have hp := hs.open_of_running (by simp [hf]) p
      simp only [Logger.setPool, Function.update_apply] at hc
      split_ifs at hc <;> simp_all
  | exited => simp [hf] at h

theorem fanOutDone_closure (hs : s.Closure) (h : s.fanOutDone = some s') :
    s'.Closure ∧ s'.panicked = s.panicked := by
  unfold Logger.fanOutDone at h
  split_ifs at h
  cases hf : s.fanOut with
  | recv =>
    rw [hf, Option.some.injEq] at h; subst h
    exact closure_closeInputChs hs hf
  | send e q =>
    rw [hf, Option.some.injEq] at h; subst h
    exact ⟨⟨fun _ _ => rfl, hs.mainLogCh⟩, rfl⟩
  | exited => simp [hf] at h

theorem worker_closure {f : Pool → Worker → Option (Pool × Worker)} (hf : Pool.Conserves f) {q : PoolId}
    {i : Nat} (hs : s.Closure) (h : s.worker q i f = some s') : s'.Closure ∧ s'.panicked = s.panicked := by
  unfold Logger.worker at h
  cases hw : (s.pools q).workers[i]? with
  | none => simp only [hw] at h; cases h
  | some w =>
    simp only [hw] at h
    split_ifs at h
    obtain ⟨r, hr, rfl⟩ := Option.map_eq_some'.1 h
    refine ⟨hs.frame (fun p => ?_) rfl rfl rfl, rfl⟩
    simp only [Logger.setPool, Function.update_apply]
    split
    · subst_vars; exact (hf _ _ _ hr).2.1
    · rfl

theorem drainer_closure (hs : s.Closure) {a : Act} (h : s.step a = some s')
    (ha : a = .drainerTick ∨ a = .drainerDone ∨ a = .drainerPop ∨ a = .drainerBack) :
    s'.Closure ∧ s'.panicked = s.panicked := by
  rcases ha with rfl | rfl | rfl | rfl <;> simp only [Logger.step] at h
  · unfold Logger.drainerTick at h
    split at h
    · cases h; split_ifs <;> exact ⟨hs.frame (fun _ => rfl) rfl rfl rfl, rfl⟩
    · cases h
  · unfold Logger.drainerDone at h
    split at h
    · split_ifs at h; cases h; exact ⟨hs.frame (fun _ => rfl) rfl rfl rfl, rfl⟩
    · cases h
  · unfold Logger.drainerPop at h
    split at h
    · split at h <;> cases h <;> exact ⟨hs.frame (fun _ => rfl) rfl rfl rfl, rfl⟩
    · cases h
  · unfold Logger.drainerBack at h
    split at h
    · split_ifs at h; cases h; exact ⟨hs.frame (fun _ => rfl) rfl rfl rfl, rfl⟩
    · cases h

theorem drainerSend_closure (hs : s.Closure) (h : s.drainerSend = some s') :
    s'.Closure ∧ (s'.panicked = true → s.panicked = true ∨ s.mainLogCh.closed = true) := by
  unfold Logger.drainerSend at h
  split at h
  · split_ifs at h with hc
    · cases h; exact ⟨hs.frame (fun _ => rfl) rfl rfl rfl, fun _ => .inr hc⟩
    · cases h; exact ⟨hs.frame (fun _ => rfl) rfl rfl rfl, .inl⟩
  · cases h

/-- Before `Shutdown` closes it, `mainLogCh` is open. -/
theorem Logger.Closure.mainLogCh_open (hs : s.Closure) (hd : s.shutdown = .notCalled ∨ s.shutdown = .cancelled) :
    s.mainLogCh.closed = false := by
  cases hc : s.mainLogCh.closed
  · rfl
  · rcases hs.mainLogCh hc with h | h <;> rcases hd with h' | h' <;> simp [h] at h'

theorem shutdown_closure (hs : s.Closure) {a : Act} (h : s.step a = some s')
    (ha : a = .cancel ∨ a = .close ∨ a = .shutdownReturn) : s'.Closure ∧ s'.panicked = s.panicked := by
  rcases ha with rfl | rfl | rfl <;> simp only [Logger.step] at h
  · unfold Logger.cancel at h
    split at h
    · cases h
      have hm := hs.mainLogCh_open (.inl ‹_›)
      exact ⟨⟨hs.inputCh, fun hc => absurd (hm ▸ hc) (by simp)⟩, rfl⟩
    · cases h
  · unfold Logger.close at h
    split at h
    · cases h
      rw [hs.mainLogCh_open (.inr ‹_›)]
      exact ⟨⟨hs.inputCh, fun _ => .inl rfl⟩, rfl⟩
    · cases h
  · unfold Logger.shutdownReturn at h
    split at h
    · split_ifs at h
      cases h
      exact ⟨⟨hs.inputCh, fun _ => .inr rfl⟩, rfl⟩
    · cases h

/-- A step keeps `Closure`, and panics only as a send on a closed
`mainLogCh`: a `Log` call, or the drainer's `tryFlushOverflow`. -/
theorem step_closure (hs : s.Closure) {a : Act} (h : s.step a = some s') :
    s'.Closure ∧ (s'.panicked = true → s.panicked = true ∨
      s.mainLogCh.closed = true ∧ ((∃ l, a = .log l) ∨ a = .drainerSend)) := by
  have keep : s'.Closure ∧ s'.panicked = s.panicked → s'.Closure ∧ (s'.panicked = true → s.panicked = true ∨
      s.mainLogCh.closed = true ∧ ((∃ l, a = .log l) ∨ a = .drainerSend)) :=
    fun ⟨hc, hp⟩ => ⟨hc, fun h => .inl (hp ▸ h)⟩
  cases a with
  | log l =>
    cases h
    exact (log_closure hs l).imp_right fun hp h => (hp h).imp_right fun hc => ⟨hc, .inl ⟨l, rfl⟩⟩
  | drainerSend =>
    exact (drainerSend_closure hs h).imp_right fun hp h => (hp h).imp_right fun hc => ⟨hc, .inr rfl⟩
  | fanOutChannel => exact keep (fanOutChannel_closure hs h)
  | fanOutDone => exact keep (fanOutDone_closure hs h)
  | workerRecv q i => exact keep (worker_closure conserves_recv hs h)
  | workerTimer q i => exact keep (worker_closure conserves_timer hs h)
  | workerDone q i => exact keep (worker_closure (conserves_done _) hs h)
  | drainerTick => exact keep (drainer_closure hs h (.inl rfl))
  | drainerDone => exact keep (drainer_closure hs h (.inr (.inl rfl)))
  | drainerPop => exact keep (drainer_closure hs h (.inr (.inr (.inl rfl))))
  | drainerBack => exact keep (drainer_closure hs h (.inr (.inr (.inr rfl))))
  | cancel => exact keep (shutdown_closure hs h (.inl rfl))
  | close => exact keep (shutdown_closure hs h (.inr (.inl rfl)))
  | shutdownReturn => exact keep (shutdown_closure hs h (.inr (.inr rfl)))

theorem Logger.Reachable.closure (h : s.Reachable) : s.Closure := by
  obtain ⟨w, b, hs⟩ := h
  induction hs with
  | refl => exact Logger.closure_init w b
  | tail _ hst ih => obtain ⟨a, ha⟩ := hst; exact (step_closure ih ha).1

/-- Over every run, the only step that panics is a send on `mainLogCh` after
`Shutdown` closed it, by a `Log` call or by the drainer's `tryFlushOverflow`.
`fanOutLogs`, the workers and `Shutdown` itself never panic. -/
theorem reachable_panic_step (h : s.Reachable) {a : Act} (hst : s.step a = some s')
    (hp : s.panicked = false) (hp' : s'.panicked = true) :
    s.mainLogCh.closed = true ∧ (s.shutdown = .closed ∨ s.shutdown = .returned) ∧
      ((∃ l, a = .log l) ∨ a = .drainerSend) := by
  rcases (step_closure h.closure hst).2 hp' with hp'' | ⟨hc, ha⟩
  · simp [hp] at hp''
  · exact ⟨hc, h.closure.mainLogCh hc, ha⟩

set_option maxRecDepth 8000 in
/-- The drainer's send after `Shutdown` closed `mainLogCh`, the run of
`drainer_send_after_close_panics`: the step is the drainer's, and `Shutdown`
had closed the channel. -/
theorem reachable_panic_step_drainer :
    ((Logger.init 1 1).replay (List.replicate 101 (Act.log (orderStatusLog 0 1 "none" "accepted")) ++
          [Act.drainerTick, .drainerPop, .cancel, .close])).Reachable ∧
      ((Logger.init 1 1).replay (List.replicate 101 (Act.log (orderStatusLog 0 1 "none" "accepted")) ++
          [Act.drainerTick, .drainerPop, .cancel, .close])).step .drainerSend = some ((((Logger.init 1 1).replay (List.replicate 101 (Act.log (orderStatusLog 0 1 "none" "accepted")) ++
          [Act.drainerTick, .drainerPop, .cancel, .close])).step .drainerSend).getD ((Logger.init 1 1).replay (List.replicate 101 (Act.log (orderStatusLog 0 1 "none" "accepted")) ++
          [Act.drainerTick, .drainerPop, .cancel, .close]))) ∧
      ((Logger.init 1 1).replay (List.replicate 101 (Act.log (orderStatusLog 0 1 "none" "accepted")) ++
          [Act.drainerTick, .drainerPop, .cancel, .close])).panicked = false ∧ ((((Logger.init 1 1).replay (List.replicate 101 (Act.log (orderStatusLog 0 1 "none" "accepted")) ++
          [Act.drainerTick, .drainerPop, .cancel, .close])).step .drainerSend).getD ((Logger.init 1 1).replay (List.replicate 101 (Act.log (orderStatusLog 0 1 "none" "accepted")) ++
          [Act.drainerTick, .drainerPop, .cancel, .close]))).panicked = true ∧
      ((Logger.init 1 1).replay (List.replicate 101 (Act.log (orderStatusLog 0 1 "none" "accepted")) ++
          [Act.drainerTick, .drainerPop, .cancel, .close])).mainLogCh.closed = true ∧
      (((Logger.init 1 1).replay (List.replicate 101 (Act.log (orderStatusLog 0 1 "none" "accepted")) ++
          [Act.drainerTick, .drainerPop, .cancel, .close])).shutdown = .closed ∨ ((Logger.init 1 1).replay (List.replicate 101 (Act.log (orderStatusLog 0 1 "none" "accepted")) ++
          [Act.drainerTick, .drainerPop, .cancel, .close])).shutdown = .returned) ∧
      ((∃ l, Act.drainerSend = .log l) ∨ Act.drainerSend = .drainerSend) :=
  have h : ((Logger.init 1 1).replay (List.replicate 101 (Act.log (orderStatusLog 0 1 "none" "accepted")) ++
          [Act.drainerTick, .drainerPop, .cancel, .close])).Reachable := ⟨1, 1, Logger.steps_replay _ _⟩
  have hst : ((Logger.init 1 1).replay (List.replicate 101 (Act.log (orderStatusLog 0 1 "none" "accepted")) ++
          [Act.drainerTick, .drainerPop, .cancel, .close])).step .drainerSend = some ((((Logger.init 1 1).replay (List.replicate 101 (Act.log (orderStatusLog 0 1 "none" "accepted")) ++
          [Act.drainerTick, .drainerPop, .cancel, .close])).step .drainerSend).getD ((Logger.init 1 1).replay (List.replicate 101 (Act.log (orderStatusLog 0 1 "none" "accepted")) ++
          [Act.drainerTick, .drainerPop, .cancel, .close]))) := rfl
  ⟨h, hst, rfl, rfl, reachable_panic_step h hst rfl rfl⟩

set_option maxRecDepth 8000 in
/-- The drainer's send does panic. With `mainLogCh` full, the 101st event goes
to the overflow list. The drainer takes it off the list; before its select
runs, `Shutdown` cancels the context and closes `mainLogCh`. The send and
`ctx.Done()` are then both ready, and Go may pick the send. -/
theorem drainer_send_after_close_panics :
    ∃ s s' : Logger, s.Reachable ∧ s.shutdown = .closed ∧ s.panicked = false ∧ s.step .drainerSend = some s' ∧
      s'.panicked = true :=
  ⟨_, _, ⟨1, 1, Logger.steps_replay _ (List.replicate 101 (Act.log (orderStatusLog 0 1 "none" "accepted")) ++
      [Act.drainerTick, .drainerPop, .cancel, .close])⟩, rfl, rfl, rfl, rfl⟩

end Pvz.Audit
