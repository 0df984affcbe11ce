import Pvz.Audit.Logger

/-!
# One audit worker's batches

`worker` (`src/pkg/utils/audit.go:169-227`) at the level of the calls it
makes to `processLogs`. `Pvz.Audit.Logger` keeps only what a pool's processor
was handed altogether; here a worker also records each batch it handed over,
and the logger's worker step is this one with the batches joined
(`Pool.select_is_step`).

The worker's environment is the sequence of cases its `select` picks
(`Pick`): an event, the receive from a closed and drained `inputCh`, the
timer, or `ctx.Done()`. Go picks at random among the ready cases and the
other goroutines decide which are ready, so every sequence is possible; after
a case that makes the worker return, it picks nothing more.

`BatchWorker.Inv.run`: with `batchSize ≥ 1`, every batch handed over has
between one and `batchSize` events, the batches followed by the pending one
are the received events in order, and the pending batch stays below
`batchSize`; once the worker has returned, the batches alone are the
received events.
-/

namespace Pvz.Audit

/-- The case a worker's `select` picks. -/
inductive Pick where
  /-- `logEntry, ok := <-pool.inputCh` with `ok`. -/
  | recv (e : Entry)
  /-- The same receive from a closed, drained channel. -/
  | closed
  /-- `<-timer.C`. -/
  | timer
  /-- `<-ctx.Done()`. -/
  | done

/-- A worker between two selects: its batch, the batches it has handed to
`processLogs` in order, and whether it still runs. -/
structure BatchWorker where
  batch : List Entry
  handed : List (List Entry)
  running : Bool

namespace BatchWorker

/-- `batch := make([]model.AuditLog, 0, pool.batchSize)`, before the loop. -/
def start : BatchWorker := ⟨[], [], true⟩

/-- `if len(batch) > 0 { pool.processor.processLogs(ctx, name, batch) }`. -/
def handOver (w : BatchWorker) : List (List Entry) :=
  if 0 < w.batch.length then w.handed ++ [w.batch] else w.handed

/-- One select of the worker and the case it picks. A returning worker's
batch goes with it. -/
def step (batchSize : Nat) (w : BatchWorker) : Pick → BatchWorker
  | .recv e =>
    if batchSize ≤ (w.batch ++ [e]).length then ⟨[], w.handed ++ [w.batch ++ [e]], true⟩
    else ⟨w.batch ++ [e], w.handed, true⟩
  | .closed => ⟨[], w.handOver, false⟩
  | .timer => ⟨[], w.handOver, true⟩
  | .done => ⟨[], w.handOver, false⟩

/-- The worker picks the cases in turn until one makes it return. -/
def run (batchSize : Nat) : BatchWorker → List Pick → BatchWorker
  | w, [] => w
  | w, p :: ps => if w.running then run batchSize (w.step batchSize p) ps else w

end BatchWorker

/-- The events a worker receives from a sequence of picks: the events picked
before the case that makes it return. -/
def received : List Pick → List Entry
  | [] => []
  | .recv e :: ps => e :: received ps
  | .timer :: ps => received ps
  | .closed :: _ | .done :: _ => []

namespace BatchWorker

/-- What holds between two selects of a worker that has received `rcv`. -/
structure Inv (batchSize : Nat) (w : BatchWorker) (rcv : List Entry) : Prop where
  sizes : ∀ b ∈ w.handed, 1 ≤ b.length ∧ b.length ≤ batchSize
  order : w.handed.flatten ++ w.batch = rcv
  pending : w.batch.length < batchSize
  returned : w.running = false → w.batch = []

section

variable {batchSize : Nat} {w : BatchWorker} {rcv : List Entry}

theorem inv_start (hb : 1 ≤ batchSize) : start.Inv batchSize [] :=
  ⟨nofun, rfl, hb, nofun⟩

/-- Handing the pending batch over keeps the sizes and the order. -/
theorem Inv.handOver (h : w.Inv batchSize rcv) :
    (∀ b ∈ w.handOver, 1 ≤ b.length ∧ b.length ≤ batchSize) ∧ w.handOver.flatten = rcv := by
  unfold BatchWorker.handOver
  split
  · refine ⟨fun b hb => ?_, by rw [List.flatten_append, List.flatten_singleton, h.order]⟩
    rcases List.mem_append.1 hb with hb | hb
    · exact h.sizes b hb
    · rw [List.mem_singleton.1 hb]; exact ⟨‹_›, h.pending.le⟩
  · rename_i hz
    have hnil : w.batch = [] := List.eq_nil_of_length_eq_zero (by omega)
    exact ⟨h.sizes, by rw [← h.order, hnil, List.append_nil]⟩

/-- An event joins the batch, and a batch it fills is handed over. -/
theorem Inv.recv (h : w.Inv batchSize rcv) (e : Entry) :
    (w.step batchSize (.recv e)).Inv batchSize (rcv ++ [e]) := by
  have hlen : (w.batch ++ [e]).length = w.batch.length + 1 := List.length_append _ _
  simp only [step]
  split
  · refine ⟨fun b hb => ?_, ?_, by have := h.pending; simp only [List.length_nil]; omega, fun _ => rfl⟩
    · rcases List.mem_append.1 hb with hb | hb
      · exact h.sizes b hb
      · rw [List.mem_singleton.1 hb]; have := h.pending; omega
    · rw [List.flatten_append, List.flatten_singleton, List.append_nil, ← List.append_assoc, h.order]
  · exact ⟨h.sizes, by rw [← List.append_assoc, h.order], show (w.batch ++ [e]).length < batchSize by omega, nofun⟩

/-- One select of a running worker keeps the invariant, with the event it
received if it picked one. -/
theorem Inv.step (h : w.Inv batchSize rcv) (hb : 1 ≤ batchSize) :
    ∀ p : Pick, (w.step batchSize p).Inv batchSize (rcv ++ received [p])
  | .recv e => h.recv e
  | .closed | .timer | .done => by
    obtain ⟨hs, hj⟩ := h.handOver
    exact ⟨hs, by simp only [BatchWorker.step, received, List.append_nil, hj], hb, fun _ => rfl⟩

theorem step_recv_running (w : BatchWorker) (e : Entry) : (w.step batchSize (.recv e)).running = true := by
  simp only [step]; split <;> rfl

theorem run_stopped (ps : List Pick) (h : w.running = false) : w.run batchSize ps = w := by
  cases ps <;> simp only [run, h, Bool.false_eq_true, if_false]

/-- Run from a running worker, the invariant holds at the end, with every
event it received. -/
theorem Inv.run (hb : 1 ≤ batchSize) :
    ∀ {w : BatchWorker} {rcv : List Entry} (ps : List Pick), w.Inv batchSize rcv → w.running = true →
      (w.run batchSize ps).Inv batchSize (rcv ++ received ps)
  | w, rcv, [], h, _ => by simpa only [received, List.append_nil] using h
  | w, rcv, p :: ps, h, hr => by
    rw [BatchWorker.run, if_pos hr]
    cases p with
    | recv e =>
      simpa only [received, List.append_assoc, List.singleton_append] using
        Inv.run hb ps (h.recv e) (step_recv_running w e)
    | timer => simpa only [received, List.append_nil] using Inv.run hb ps (h.step hb .timer) rfl
    | closed => rw [run_stopped ps rfl]; exact h.step hb .closed
    | done => rw [run_stopped ps rfl]; exact h.step hb .done

end

/-- With batches of at least one event, every run of a worker hands
`processLogs` batches of one to `batchSize` events; the batches followed by
the pending one are the received events in receive order, each once; and a
worker that has returned, on closure or on cancellation, has handed over all
of them. -/
theorem worker_batches_received (batchSize : Nat) (hb : 1 ≤ batchSize) (ps : List Pick) :
    (∀ b ∈ (start.run batchSize ps).handed, 1 ≤ b.length ∧ b.length ≤ batchSize) ∧
      (start.run batchSize ps).handed.flatten ++ (start.run batchSize ps).batch = received ps ∧
      ((start.run batchSize ps).running = false → (start.run batchSize ps).handed.flatten = received ps) := by
  have h := Inv.run hb ps (inv_start hb) rfl
  rw [List.nil_append] at h
  exact ⟨h.sizes, h.order, fun hr => by rw [← h.order, h.returned hr, List.append_nil]⟩

/-- Three events and then `ctx.Done()`, with batches of two: a full batch,
then the partial one at cancellation. -/
theorem worker_batches_received_three_events :
    ∃ ps : List Pick, 1 ≤ 2 ∧ (received ps).length = 3 ∧
      (∀ b ∈ (start.run 2 ps).handed, 1 ≤ b.length ∧ b.length ≤ 2) ∧
      (start.run 2 ps).handed.flatten ++ (start.run 2 ps).batch = received ps ∧
      ((start.run 2 ps).running = false → (start.run 2 ps).handed.flatten = received ps) :=
  ⟨[.recv ⟨0, default⟩, .recv ⟨1, default⟩, .recv ⟨2, default⟩, .done], by decide, rfl,
    worker_batches_received 2 (by decide) _⟩

end BatchWorker

/-! ## The logger's worker step

`Pool.recv`, `Pool.timer` and `Pool.done` are `BatchWorker.step` on the
worker's batch, with the batches it hands over appended to what the pool's
processor was handed. -/

namespace BatchWorker

/-- A logger's worker as a batch worker that has handed nothing over yet. -/
def ofWorker (w : Worker) : BatchWorker := ⟨w.batch, [], w.running⟩

/-- The pool and worker after a step that handed `b.handed` over. -/
def lift (pool : Pool) (b : BatchWorker) : Pool × Worker :=
  (pool.processLogs b.handed.flatten, ⟨b.batch, b.running⟩)

theorem handOver_ofWorker (w : Worker) : (ofWorker w).handOver.flatten = w.batch := by
  unfold handOver
  split
  · simp [ofWorker]
  · rename_i hz
    simp only [ofWorker, List.flatten_nil]
    exact (List.eq_nil_of_length_eq_zero (by simp only [ofWorker] at hz; omega)).symm

end BatchWorker

open BatchWorker

/-- Each select of a logger's worker is `BatchWorker.step` for the case it
picks, with the batches handed over given to the pool's processor: an event at
the head of `inputCh`, the closed and drained channel, the timer, or the
cancelled context. An empty open channel and a live context give no step. -/
theorem Pool.select_is_step (pool : Pool) (w : Worker) :
    (∀ e rest, pool.inputCh.buf = e :: rest →
      pool.recv w = some (lift { pool with inputCh := { pool.inputCh with buf := rest } }
        ((ofWorker w).step pool.batchSize (.recv e)))) ∧
      (pool.inputCh.buf = [] → pool.recv w =
        if pool.inputCh.closed then some (lift pool ((ofWorker w).step pool.batchSize .closed)) else none) ∧
      pool.timer w = some (lift pool ((ofWorker w).step pool.batchSize .timer)) ∧
      ∀ cancelled, Pool.done cancelled pool w =
        if cancelled then some (lift pool ((ofWorker w).step pool.batchSize .done)) else none := by
  refine ⟨fun e rest h => ?recv, fun h => ?closed, ?timer, fun cancelled => ?done⟩
  case recv =>
    unfold Pool.recv
    rw [h]
    simp only [step, ofWorker]
    split <;> simp [lift, Pool.processLogs]
  case closed => simp only [Pool.recv, h, lift, step, handOver_ofWorker]
  case timer => simp only [Pool.timer, lift, step, handOver_ofWorker]
  case done => simp only [Pool.done, lift, step, handOver_ofWorker]

/-- A worker holding one event, in a pool of batch size two, receives a second:
the two go to the processor together. -/
theorem Pool.select_is_step_full_batch :
    (⟨⟨[⟨1, default⟩], false⟩, [], 2, []⟩ : Pool).inputCh.buf = ⟨1, default⟩ :: [] ∧
      (⟨⟨[⟨1, default⟩], false⟩, [], 2, []⟩ : Pool).recv ⟨[⟨0, default⟩], true⟩ =
        some (lift ⟨⟨[], false⟩, [], 2, []⟩ ((ofWorker ⟨[⟨0, default⟩], true⟩).step 2 (.recv ⟨1, default⟩))) ∧
      (((⟨⟨[⟨1, default⟩], false⟩, [], 2, []⟩ : Pool).recv ⟨[⟨0, default⟩], true⟩).map
        fun r => (r.1.processed.map Entry.seq, r.2.batch.length)) = some ([0, 1], 0) :=
  ⟨rfl, (Pool.select_is_step _ _).1 _ _ rfl, rfl⟩

end Pvz.Audit
