import Mathlib.Logic.Relation

/-!
# The reconnect loop of `Consumer.Start`

The goroutine `Consumer.Start` runs (`src/pkg/kafka/consumer.go:52-120`) and
the handler's `Setup` (`:136-140`). Each iteration builds a handler around the
current `handlerReady` channel and calls `c.consumer.Consume`, which may call
the handler's `Setup`, closing that channel, and then returns an error or
`nil`. After an error the loop waits out a backoff and starts over; after
`nil` it waits on `handlerReady` and makes a new channel.

Channels are numbered by the `make` that built them. `Consume` is three
steps of the environment, `setup`, `consumeErr` and `consumeNil`, so that
its three outcomes (an error before any `Setup`; `Setup`, then an error;
`Setup`, then `nil`) are the paths through them, and the context may be
cancelled between any two steps. The backoff's length and
`consecutiveErrors`, which only set it, are not modelled: the timer may fire
at any step.

* After a session that called `Setup` returned an error, the loop goes round
  with the same `handlerReady`, so the next `Setup` closes a closed channel
  and panics (`setup_gets_closed_ready`).
* After each `nil` return the loop waits on a channel `Setup` has closed
  (`ConsumerLoop.Reachable.awaitReady_closed`).
* Over runs in which no session fails after `Setup`, `Setup` is always handed
  an open channel (`ConsumerLoop.CleanSteps.no_panic`).
-/

namespace Pvz.Kafka

/-- Where the goroutine stands. -/
inductive LoopPc where
  /-- The head of the `for` loop and its `select` on `ctx.Done()` (`:68-75`). -/
  | top
  /-- Inside `Consume`, which has called `Setup` or not (`:77`). -/
  | consume (setUp : Bool)
  /-- The `select` on `time.After(backoff)` and `ctx.Done()` (`:89-96`). -/
  | backoff
  /-- The `select` on `handlerReady` and `ctx.Done()` (`:109-117`). -/
  | awaitReady
  /-- Returned, or crashed. -/
  | returned
  deriving DecidableEq, Repr

/-- The goroutine's variables and the channels it made. -/
structure ConsumerLoop where
  /-- The channel in `handlerReady`, and so in the handler `Consume` is given. -/
  handlerReady : Nat
  /-- How many channels `make` has built. -/
  made : Nat
  /-- The channels closed so far. -/
  closed : List Nat
  /-- `ctx.Done()` is closed. -/
  cancelled : Bool
  pc : LoopPc
  /-- `Setup` closed a closed channel. -/
  panicked : Bool
  deriving DecidableEq, Repr

/-- A step of the goroutine or of its environment. -/
inductive Act where
  /-- The context is cancelled: `Stop`'s `cancel`, or the parent's. -/
  | cancel
  /-- The loop head's `select`. -/
  | top
  /-- `Consume` calls the handler's `Setup`. -/
  | setup
  /-- `Consume` returns an error. -/
  | consumeErr
  /-- `Consume` returns `nil`, having called `Setup`. -/
  | consumeNil
  /-- The backoff's `time.After` fires. -/
  | backoffElapsed
  /-- The backoff's `select` picks `ctx.Done()`. -/
  | backoffDone
  /-- The receive from `handlerReady`. -/
  | ready
  /-- The `select` on `handlerReady` picks `ctx.Done()`. -/
  | readyDone
  deriving DecidableEq, Repr

namespace ConsumerLoop

/-- `Start`: the goroutine with its first `handlerReady := make(chan struct{})`. -/
def init : ConsumerLoop := ⟨0, 1, [], false, .top, false⟩

/-- `Setup`: `close(c.ready)`, which panics on a closed channel. -/
def setup (s : ConsumerLoop) : ConsumerLoop :=
  if s.handlerReady ∈ s.closed then { s with panicked := true, pc := .returned }
  else { s with closed := s.handlerReady :: s.closed, pc := .consume true }

/-- The state after a step, or `none` when the step cannot be taken. -/
def step (s : ConsumerLoop) : Act → Option ConsumerLoop
  | .cancel => some { s with cancelled := true }
  | .top =>
    match s.pc with
    | .top => some { s with pc := if s.cancelled then .returned else .consume false }
    | _ => none
  | .setup =>
    match s.pc with
    | .consume false => some s.setup
    | _ => none
  | .consumeErr =>
    match s.pc with
    | .consume _ => some { s with pc := .backoff }
    | _ => none
  | .consumeNil =>
    match s.pc with
    | .consume true => some { s with pc := if s.cancelled then .returned else .awaitReady }
    | _ => none
  | .backoffElapsed =>
    match s.pc with
    | .backoff => some { s with pc := .top }
    | _ => none
  | .backoffDone =>
    match s.pc with
    | .backoff => if s.cancelled then some { s with pc := .returned } else none
    | _ => none
  | .ready =>
    match s.pc with
    | .awaitReady =>
      if s.handlerReady ∈ s.closed then some { s with handlerReady := s.made, made := s.made + 1, pc := .top }
      else none
    | _ => none
  | .readyDone =>
    match s.pc with
    | .awaitReady => if s.cancelled then some { s with pc := .returned } else none
    | _ => none

def Step (s s' : ConsumerLoop) : Prop := ∃ a, s.step a = some s'

def Steps : ConsumerLoop → ConsumerLoop → Prop := Relation.ReflTransGen Step

/-- The states the goroutine reaches from `Start`. -/
def Reachable (s : ConsumerLoop) : Prop := init.Steps s

/-- A step that is not a session failing after its `Setup`. -/
def CleanStep (s s' : ConsumerLoop) : Prop := ∃ a, ¬ (a = .consumeErr ∧ s.pc = .consume true) ∧ s.step a = some s'

def CleanSteps : ConsumerLoop → ConsumerLoop → Prop := Relation.ReflTransGen CleanStep

/-! ## What a step does -/

variable {s s' : ConsumerLoop} {a : Act}

/-- Every step: a cancellation, a return, or one move of the goroutine. -/
theorem step_cases (h : s.step a = some s') :
    s' = { s with cancelled := true } ∨
    s' = { s with pc := .returned } ∨
    (s.pc = .top ∧ s' = { s with pc := .consume false }) ∨
    (a = .setup ∧ s.pc = .consume false ∧ s' = s.setup) ∨
    (a = .consumeErr ∧ (∃ b, s.pc = .consume b) ∧ s' = { s with pc := .backoff }) ∨
    (s.pc = .consume true ∧ s' = { s with pc := .awaitReady }) ∨
    (s.pc = .backoff ∧ s' = { s with pc := .top }) ∨
    (s.pc = .awaitReady ∧ s.handlerReady ∈ s.closed ∧
      s' = { s with handlerReady := s.made, made := s.made + 1, pc := .top }) := by
  cases a <;> simp only [step] at h
  case cancel => exact .inl (Option.some.inj h).symm
  case top =>
    split at h
    · rename_i hpc
      obtain rfl := Option.some.inj h
      by_cases hc : s.cancelled = true
      · exact .inr (.inl (by rw [if_pos hc]))
      · exact .inr (.inr (.inl ⟨hpc, by rw [if_neg hc]⟩))
    · cases h
  case setup =>
    split at h
    · exact .inr (.inr (.inr (.inl ⟨rfl, ‹_›, (Option.some.inj h).symm⟩)))
    · cases h
  case consumeErr =>
    split at h
    · exact .inr (.inr (.inr (.inr (.inl ⟨rfl, ⟨_, ‹_›⟩, (Option.some.inj h).symm⟩))))
    · cases h
  case consumeNil =>
    split at h
    · rename_i hpc
      obtain rfl := Option.some.inj h
      by_cases hc : s.cancelled = true
      · exact .inr (.inl (by rw [if_pos hc]))
      · exact .inr (.inr (.inr (.inr (.inr (.inl ⟨hpc, by rw [if_neg hc]⟩)))))
    · cases h
  case backoffElapsed =>
    split at h
    · exact .inr (.inr (.inr (.inr (.inr (.inr (.inl ⟨‹_›, (Option.some.inj h).symm⟩))))))
    · cases h
  case backoffDone | readyDone =>
    split at h
    · split at h
      · exact .inr (.inl (Option.some.inj h).symm)
      · cases h
    · cases h
  case ready =>
    split at h
    · split at h
      · exact .inr (.inr (.inr (.inr (.inr (.inr (.inr ⟨‹_›, ‹_›, (Option.some.inj h).symm⟩))))))
      · cases h
    · cases h

/-! ## After a `nil` return -/

/-- Between `Setup` and the receive from `handlerReady`, the channel is closed. -/
def ReadyClosed (s : ConsumerLoop) : Prop :=
  s.pc = .consume true ∨ s.pc = .awaitReady → s.handlerReady ∈ s.closed

theorem ReadyClosed.step (hs : s.ReadyClosed) (h : s.step a = some s') : s'.ReadyClosed := by
  have hnot : ∀ {t : ConsumerLoop}, t.pc ≠ .consume true → t.pc ≠ .awaitReady → t.ReadyClosed :=
    fun h₁ h₂ h => (h.elim h₁ h₂).elim
  rcases step_cases h with rfl | rfl | ⟨-, rfl⟩ | ⟨-, -, rfl⟩ | ⟨-, -, rfl⟩ | ⟨hpc, rfl⟩ | ⟨-, rfl⟩ | ⟨-, -, rfl⟩
  · exact hs
  · exact hnot nofun nofun
  · exact hnot nofun nofun
  · -- `Setup` closes the channel, or crashes.
    unfold setup
    split
    · exact hnot nofun nofun
    · exact fun _ => List.mem_cons_self _ _
  · exact hnot nofun nofun
  · exact fun _ => hs (.inl hpc)
  · exact hnot nofun nofun
  · exact hnot nofun nofun

theorem Reachable.readyClosed (h : s.Reachable) : s.ReadyClosed := by
  induction h with
  | refl => rintro (h | h) <;> cases h
  | tail _ hst ih => exact ih.step hst.choose_spec

/-- After each `nil` return the loop waits on a channel `Setup` has closed. -/
theorem Reachable.awaitReady_closed (h : s.Reachable) (hpc : s.pc = .awaitReady) : s.handlerReady ∈ s.closed :=
  h.readyClosed (.inr hpc)

/-- The first session: the loop calls `Consume`, `Setup` closes channel `0`,
and `Consume` returns `nil`. -/
theorem Reachable.awaitReady_closed_first_session :
    (⟨0, 1, [0], false, .awaitReady, false⟩ : ConsumerLoop).Reachable ∧
      (⟨0, 1, [0], false, .awaitReady, false⟩ : ConsumerLoop).pc = .awaitReady ∧
      (⟨0, 1, [0], false, .awaitReady, false⟩ : ConsumerLoop).handlerReady ∈
        (⟨0, 1, [0], false, .awaitReady, false⟩ : ConsumerLoop).closed :=
  have h : (⟨0, 1, [0], false, .awaitReady, false⟩ : ConsumerLoop).Reachable :=
    .tail (.tail (.single ⟨.top, rfl⟩) ⟨.setup, rfl⟩) ⟨.consumeNil, rfl⟩
  ⟨h, rfl, h.awaitReady_closed rfl⟩

/-! ## Runs without a failed session after `Setup` -/

/-- What holds along such runs: `handlerReady` was made last, every closed
channel was made before, and until `Setup` closes it the channel is open. -/
structure Clean (s : ConsumerLoop) : Prop where
  ready_lt : s.handlerReady < s.made
  closed_lt : ∀ c ∈ s.closed, c < s.made
  fresh : s.pc = .top ∨ s.pc = .consume false ∨ s.pc = .backoff → s.handlerReady ∉ s.closed
  not_panicked : s.panicked = false

theorem clean_init : init.Clean := ⟨Nat.one_pos, nofun, fun _ => List.not_mem_nil _, rfl⟩

/-- A state whose `pc` is none of those `fresh` speaks of. -/
theorem fresh_of_pc {s : ConsumerLoop} (h : s.pc ≠ .top ∧ s.pc ≠ .consume false ∧ s.pc ≠ .backoff) :
    s.pc = .top ∨ s.pc = .consume false ∨ s.pc = .backoff → s.handlerReady ∉ s.closed := by
  rintro (h' | h' | h') <;> simp_all

theorem Clean.cleanStep (hs : s.Clean) (h : s.CleanStep s') : s'.Clean := by
  obtain ⟨a, hne, h⟩ := h
  rcases step_cases h with rfl | rfl | ⟨hpc, rfl⟩ | ⟨-, hpc, rfl⟩ | ⟨rfl, ⟨b, hpc⟩, rfl⟩ | ⟨-, rfl⟩ | ⟨hpc, rfl⟩ |
    ⟨-, -, rfl⟩
  · exact ⟨hs.ready_lt, hs.closed_lt, hs.fresh, hs.not_panicked⟩
  · exact ⟨hs.ready_lt, hs.closed_lt, fresh_of_pc ⟨nofun, nofun, nofun⟩, hs.not_panicked⟩
  · exact ⟨hs.ready_lt, hs.closed_lt, fun _ => hs.fresh (.inl hpc), hs.not_panicked⟩
  · -- `Setup` is handed the open channel and closes it.
    simp only [setup, if_neg (hs.fresh (.inr (.inl hpc)))]
    refine ⟨hs.ready_lt, fun c hc => ?_, fresh_of_pc ⟨nofun, nofun, nofun⟩, hs.not_panicked⟩
    rcases List.mem_cons.1 hc with rfl | hc
    · exact hs.ready_lt
    · exact hs.closed_lt c hc
  · -- The session failed before `Setup`: the channel is still open.
    cases b
    · exact ⟨hs.ready_lt, hs.closed_lt, fun _ => hs.fresh (.inr (.inl hpc)), hs.not_panicked⟩
    · exact absurd ⟨rfl, hpc⟩ hne
  · exact ⟨hs.ready_lt, hs.closed_lt, fresh_of_pc ⟨nofun, nofun, nofun⟩, hs.not_panicked⟩
  · exact ⟨hs.ready_lt, hs.closed_lt, fun _ => hs.fresh (.inr (.inr hpc)), hs.not_panicked⟩
  · -- A new channel, made after every closed one.
    exact ⟨Nat.lt_succ_self _, fun c hc => Nat.lt_succ_of_lt (hs.closed_lt c hc),
      fun _ hm => Nat.lt_irrefl _ (hs.closed_lt _ hm), hs.not_panicked⟩

/-- Over runs in which no session fails after its `Setup`, the goroutine never
panics, and `Setup` is always handed an open channel. -/
theorem CleanSteps.no_panic (h : init.CleanSteps s) :
    s.panicked = false ∧ (s.pc = .consume false → s.handlerReady ∉ s.closed) := by
  have hinv : s.Clean := by
    induction h with
    | refl => exact clean_init
    | tail _ hst ih => exact ih.cleanStep hst
  exact ⟨hinv.not_panicked, fun hpc => hinv.fresh (.inr (.inl hpc))⟩

/-- After a first session that returns `nil` and the receive from channel `0`,
the loop calls `Consume` again with the new channel `1`, still open. -/
theorem CleanSteps.no_panic_second_session :
    init.CleanSteps ⟨1, 2, [0], false, .consume false, false⟩ ∧
      (⟨1, 2, [0], false, .consume false, false⟩ : ConsumerLoop).panicked = false ∧
      ((⟨1, 2, [0], false, .consume false, false⟩ : ConsumerLoop).pc = .consume false →
        (⟨1, 2, [0], false, .consume false, false⟩ : ConsumerLoop).handlerReady ∉
          (⟨1, 2, [0], false, .consume false, false⟩ : ConsumerLoop).closed) :=
  have h : init.CleanSteps ⟨1, 2, [0], false, .consume false, false⟩ :=
    .tail (.tail (.tail (.tail (.single ⟨.top, by decide, rfl⟩) ⟨.setup, by decide, rfl⟩) ⟨.consumeNil, by decide, rfl⟩)
      ⟨.ready, by decide, rfl⟩) ⟨.top, by decide, rfl⟩
  ⟨h, CleanSteps.no_panic h⟩

/-! ## A session that fails after `Setup` -/

/-- From the loop's head with a live context, a run hands `Setup` a closed
channel, which it closes again and crashes: at once if `handlerReady` is
closed already, and otherwise after one session that calls `Setup` and then
returns an error, since the error path's `continue` (`:98`) skips the new
channel of `:111`. -/
theorem setup_gets_closed_ready (s : ConsumerLoop) (hpc : s.pc = .top) (hc : s.cancelled = false) :
    ∃ s', s.Steps s' ∧ s'.pc = .consume false ∧ s'.handlerReady ∈ s'.closed ∧
      s'.step .setup = some { s' with panicked := true, pc := .returned } := by
  have htop : s.step .top = some { s with pc := .consume false } := by simp [step, hpc, hc]
  by_cases hr : s.handlerReady ∈ s.closed
  · exact ⟨_, .single ⟨.top, htop⟩, rfl, hr, by simp [step, setup, hr]⟩
  · -- `Setup` closes the channel, the session fails, and the loop goes round with it.
    have h₁ : ({ s with pc := .consume false } : ConsumerLoop).step .setup =
        some { s with closed := s.handlerReady :: s.closed, pc := .consume true } := by
      simp [step, setup, hr]
    have h₄ : ({ s with closed := s.handlerReady :: s.closed, pc := .top } : ConsumerLoop).step .top =
        some { s with closed := s.handlerReady :: s.closed, pc := .consume false } := by
      simp [step, hc]
    refine ⟨_, .head ⟨.top, htop⟩ (.head ⟨.setup, h₁⟩ (.head ⟨.consumeErr, rfl⟩
      (.head ⟨.backoffElapsed, rfl⟩ (.single ⟨.top, h₄⟩)))), rfl, List.mem_cons_self _ _, ?_⟩
    simp [step, setup]

theorem setup_gets_closed_ready_at_start :
    init.pc = .top ∧ init.cancelled = false ∧
      ∃ s', init.Steps s' ∧ s'.pc = .consume false ∧ s'.handlerReady ∈ s'.closed ∧
        s'.step .setup = some { s' with panicked := true, pc := .returned } :=
  ⟨rfl, rfl, setup_gets_closed_ready init rfl rfl⟩

end ConsumerLoop

end Pvz.Kafka
