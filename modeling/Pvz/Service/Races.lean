import Pvz.Service.Calls

/-!
# Schedules, and two races they reach

`Step` says which steps the system can take; a schedule picks them one after
another. `Sys.sched` takes the step a schedule entry names and stays put when
that step cannot be taken (a call index out of range, the clock going back, the
reaper of a Redis deployment), so replaying any schedule is a run of `Step` and
ends in a reachable state (`Reachable.replay`). A replay computes, so a race is
shown by a schedule that reaches it.

Two races follow.

* The guards of `DeliverOrder` and `ProcessReturnOrder` read the order in one
  action, and `PostgresOrderRepository.Update` writes the row in a later one.
  `Update` locks the row only to check that it exists
  (`src/pkg/repository/order.go:101-151`), so a write can follow a stale read.
* `PostgresOrderRepository.Create` runs `SELECT EXISTS ... FOR UPDATE`, which
  locks no row when none exists (`src/pkg/repository/order.go:42-98`). So two
  `AcceptOrder` calls for one id can both pass the service's check, and the
  loser fails in the repository, with an error that no caller-facing surface
  reports as a duplicate order.
-/

namespace Pvz.Service

open Cache OrderError

/-- One entry of a schedule: which step the system takes next. A call begins
only in a form `Call.Begins` allows. -/
inductive Sched where
  | act (i : Nat) (fail : Bool)
  | begin (c : Call) (h : c.Begins)
  | tick (t : Int)
  | reap

section Replay

variable (parseDeadline : Int → String → Except OrderError Int)
  (processPackaging : Option String → Option String → Option PackageType × Option WrapperType)

/-- The step a schedule entry names, or no step when it cannot be taken. -/
def Sys.sched (s : Sys) : Sched → Sys
  | .act i fail =>
    if h : i < s.calls.length then
      let r := (s.calls.get ⟨i, h⟩).step parseDeadline processPackaging fail s.world
      ⟨r.2, s.calls.set i r.1⟩
    else s
  | .begin c _ => ⟨s.world, s.calls ++ [c]⟩
  | .tick t => if s.world.clock ≤ t then ⟨{ s.world with clock := t }, s.calls⟩ else s
  | .reap =>
    match s.world.cache with
    | .inMemory c => ⟨{ s.world with cache := .inMemory (c.cleanupExpiredOrders s.world.clock) }, s.calls⟩
    | .redis _ => s

/-- The state a schedule leads to. -/
def Sys.replay (s : Sys) (es : List Sched) : Sys :=
  es.foldl (Sys.sched parseDeadline processPackaging) s

/-- A schedule entry is a step of the system, or no step at all. -/
theorem Sys.sched_step (s : Sys) (e : Sched) :
    Step parseDeadline processPackaging s (s.sched parseDeadline processPackaging e) ∨
      s.sched parseDeadline processPackaging e = s := by
  cases e with
  | act i fail =>
    dsimp only [Sys.sched]
    split
    · exact .inl (.act s ⟨i, ‹_›⟩ fail)
    · exact .inr rfl
  | begin c h => exact .inl (.begin s c h)
  | tick t =>
    dsimp only [Sys.sched]
    split
    · exact .inl (.tick s t ‹_›)
    · exact .inr rfl
  | reap =>
    dsimp only [Sys.sched]
    split
    · exact .inl (.reap s _ ‹_›)
    · exact .inr rfl

/-- Replaying a schedule from a reachable state ends in a reachable state. -/
theorem Reachable.replay {s : Sys} (h : Reachable parseDeadline processPackaging s) (es : List Sched) :
    Reachable parseDeadline processPackaging (s.replay parseDeadline processPackaging es) := by
  induction es generalizing s with
  | nil => exact h
  | cons e es ih =>
    apply ih
    rcases s.sched_step parseDeadline processPackaging e with hs | hs
    · exact h.step hs
    · rwa [hs]

end Replay

/-- The order `AcceptOrder` stores in both races: id 1 of customer 1, kept
until one hour after the start, weighing 5 and costing 100, not packaged. -/
def raceOrder : AcceptArgs := ⟨1, 1, hour, 5, 100, none, none⟩

/-- A fresh deployment on Redis, at time zero. -/
def raceStart : Sys :=
  ⟨World.init (.redis ⟨[], .ofConfig "order:" "history" 1440 10 60⟩) 0, []⟩

/-- The races need no order file: any date parser and packaging lookup will do. -/
def raceParseDeadline (now : Int) (_ : String) : Except OrderError Int := .ok now

def raceProcessPackaging (_ _ : Option String) : Option PackageType × Option WrapperType :=
  (none, none)

theorem reachable_raceStart : Reachable raceParseDeadline raceProcessPackaging raceStart :=
  .init _ (.redis _) 0

/-- `AcceptOrder` of `raceOrder` runs to completion. The clock reaches 10 s
and a `DeliverOrder` call made then reads the accepted order and pauses;
meanwhile a `DeliverOrder` call at 20 s delivers it and a
`ProcessReturnOrder` call at 30 s commits its return. -/
def staleWrite : List Sched :=
  [.begin _ (.acceptOrder raceOrder), .act 0 false, .act 0 false, .act 0 false, .act 0 false, .act 0 false,
    .tick (10 * second), .begin _ (.deliverOrder 1 1 (10 * second)), .act 1 false,
    .tick (20 * second), .begin _ (.deliverOrder 1 1 (20 * second)), .act 2 false, .act 2 false,
    .act 2 false, .act 2 false,
    .tick (30 * second), .begin _ (.processReturnOrder 1 1 (30 * second)), .act 3 false, .act 3 false]

/-- After `staleWrite`, the paused call's write turns the `RETURNED` row back
into a `DELIVERED` one, with a new `delivered_at` and no `returned_at`. -/
theorem deliverOrder_stale_write_regresses :
    ∃ s s', Reachable raceParseDeadline raceProcessPackaging s ∧ Step raceParseDeadline raceProcessPackaging s s' ∧
      s.world.orders.rows.map (fun o => (o.id, o.state, o.deliveredAt, o.returnedAt)) =
        [(1, .returned, some (20 * second), some (30 * second))] ∧
      s'.world.orders.rows.map (fun o => (o.id, o.state, o.deliveredAt, o.returnedAt)) =
        [(1, .delivered, some (10 * second), none)] :=
  ⟨_, _, reachable_raceStart.replay _ _ staleWrite, .act _ ⟨1, by decide⟩ false, by decide, by decide⟩

/-- Two `AcceptOrder` calls for one id both find it absent; the first commits
and returns nil, the second's `Create` finds the committed row. The loser's
error is the repository's sentinel, which `processError` answers with 500 and
`parseGRPCError` with `Internal`, not `Conflict` and `AlreadyExists`. -/
theorem acceptOrder_race_loser_misreported :
    ∃ s, Reachable raceParseDeadline raceProcessPackaging s ∧
      s.calls = [.done (.ok .unit), .done (.error (.err repoErrOrderAlreadyExists))] ∧
      processError repoErrOrderAlreadyExists = statusInternalServerError ∧
      parseGRPCError repoErrOrderAlreadyExists = .internal :=
  ⟨_, reachable_raceStart.replay _ _
      [.begin _ (.acceptOrder raceOrder), .begin _ (.acceptOrder raceOrder),
        .act 0 false, .act 1 false, .act 0 false, .act 0 false, .act 1 false,
        .act 0 false, .act 0 false],
    rfl, rfl, rfl⟩

end Pvz.Service
