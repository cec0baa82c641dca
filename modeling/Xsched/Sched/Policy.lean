import Mathlib.Algebra.Group.Int.Defs
import Mathlib.Data.Rat.Defs
import Xsched.Core.Unwinding
import Xsched.Sched.Local

/-!
# Policies and their runs

A policy is an object with two entry points. `RecvHint` changes its private
state; `Sched` reads the status, changes the private state and decides by
calls of `Suspend`, `Resume` and `AddTimer`. `LocalScheduler` calls the first
from `UpdateStatus`, for a `HintEvent`, and the second from `Reschedule`.

`PolicyRun` is what a policy lives through: the status is updated by events,
hints arrive, and the policy reschedules, its calls moving XQueues between
running and suspended. Each of these is an `Input`, in any order, so a
history is a list of inputs.

`Hosted` is a `LocalScheduler` with a policy in it: the steps of the worker,
with the calls of a `Sched` those of the policy. Forgetting queue, timers and
program counter, a step of it is an input of `PolicyRun` or none (`step_run`),
so what holds of every history holds of the policy under the scheduler.

**The iteration order.** `xqueue_status` is a `std::unordered_map`, and a
`Sched` goes over it in an order that the library picks, the same for every
loop of one call. The order is part of the input: any permutation of the
handles.

**The clock.** A `Sched` reads the clock at its start, and may read it again
later; each reading is part of the input too. `double`s are rationals.
-/
namespace Xsched.Sched

abbrev Priority := Int
abbrev Utilization := Int
abbrev Timeslice := Int
abbrev Laxity := Int
abbrev Deadline := Int

/-! mirrors include/xsched/types.h:121-147 -/

def PRIORITY_MIN : Priority := -255
def PRIORITY_DEFAULT : Priority := 0
def PRIORITY_MAX : Priority := 255
def UTILIZATION_MIN : Utilization := 0
def UTILIZATION_DEFAULT : Utilization := 100
def UTILIZATION_MAX : Utilization := 100
def TIMESLICE_MIN : Timeslice := 100
def TIMESLICE_DEFAULT : Timeslice := 5000
def TIMESLICE_MAX : Timeslice := 100000
def NO_LAXITY : Laxity := -1
def NO_DEADLINE : Deadline := -1

/-- mirrors sched/include/xsched/sched/protocol/hint.h:16-30 -/
inductive Hint where
  | priority (handle : XQueueHandle) (prio : Priority)
  | utilization (pid : PID) (handle : XQueueHandle) (util : Utilization)
  | timeslice (ts : Timeslice)
  | deadline (handle : XQueueHandle) (ddl : Deadline)
  | kDeadline (k : Nat)
  | laxity (handle : XQueueHandle) (lax : Laxity) (laxPrio critPrio : Priority)
  | windowActive (pid : PID) (display : Nat)
  | memoryIntensity (device : XDevice) (intensity : ℚ)
  deriving DecidableEq

/-- `Handle()`, of the hints for one XQueue. -/
def Hint.xqueue : Hint → Option XQueueHandle
  | .priority h _ | .utilization _ h _ | .deadline h _ | .laxity h _ _ _ => some h
  | .timeslice _ | .kDeadline _ | .windowActive _ _ | .memoryIntensity _ _ => none

/-! ## Time -/

/-- The readings of the system clock in one call: the first, and one on behalf
of an XQueue. -/
structure Clock where
  now : TimePoint
  later : XQueueHandle → TimePoint

/-- `t + microseconds(us)`, in nanoseconds, for the durations that the code keeps in limits. -/
def afterUs (t : Int) (us : Int) : Int := t + us * 1000

/-- `t + microseconds(us)` for the `us` of a hint, which has no limits: a time point has an
`int64_t` of nanoseconds, in which the product and the sum overflow. -/
def afterHintUs (t : Int) (us : Int) : Int := (t + us * 1000).bmod (2 ^ 64)

/-- `duration_cast<microseconds>(now - t).count()`. -/
def sinceUs (now t : TimePoint) : Int := ((now : Int) - t).tdiv 1000

/-- `(std::chrono::system_clock::time_point::max)()`. -/
def timePointMax : Int := 2 ^ 63 - 1

/-- A sum that is a time point does not overflow. -/
theorem afterHintUs_eq {t us : Int} (hmin : -2 ^ 63 ≤ afterUs t us)
    (hmax : afterUs t us ≤ timePointMax) : afterHintUs t us = afterUs t us := by
  unfold timePointMax at hmax
  unfold afterHintUs
  unfold afterUs at *
  exact Int.bmod_eq_of_le (by omega) (by omega)

/-! ## Policies -/

/-- `sched` gets the handles of `xqueue_status` in iteration order; `none`: an
assertion fails. mirrors sched/include/xsched/sched/policy/policy.h:18-42 -/
structure Policy where
  State : Type
  init : State
  recvHint : Clock → Hint → State → State
  sched : Clock → Status → List XQueueHandle → State → Option (List Callback × State)

namespace Status

/-- The entries of `xqueue_status`, as a loop over it meets them. -/
def inOrder (order : List XQueueHandle) (s : Status) : List XQueueStatus :=
  order.filterMap fun h => s.xqueueStatus.lookup h

/-- mirrors sched/src/scheduler/local.cpp:337-370 -/
def callback (s : Status) : Callback → Status
  | .suspend h => s.suspend h
  | .resume h => s.resume h
  | .addTimer _ => s

end Status

/-- A status and the policy that has seen it come about. -/
structure PolicyRun (P : Policy) where
  status : Status
  policy : P.State

inductive Input where
  | event (now : TimePoint) (e : Event)
  | recvHint (clock : Clock) (hint : Hint)
  | reschedule (clock : Clock) (order : List XQueueHandle)

namespace PolicyRun
variable {P : Policy}

def init (P : Policy) : PolicyRun P := ⟨.empty, P.init⟩

/-- The answer to an input is the calls the policy makes.
mirrors sched/src/scheduler/local.cpp:121-125,165-335 -/
def answer (s : PolicyRun P) : Input → Option (List Callback × PolicyRun P)
  | .event now e => (s.status.updateStatus now e).map fun status => ([], { s with status })
  | .recvHint clock hint => some ([], { s with policy := P.recvHint clock hint s.policy })
  | .reschedule clock order =>
    if order.Perm s.status.xqueueStatus.keys then
      (P.sched clock s.status order s.policy).map fun (calls, policy) =>
        (calls, ⟨calls.foldl Status.callback s.status, policy⟩)
    else none

def step (s : PolicyRun P) (i : Input) : Option (PolicyRun P) := (s.answer i).map Prod.snd

def lts (P : Policy) : LTS (PolicyRun P) Input := .ofFn (fun s => s = init P) step

/-- The decisions of the policy in a history, round by round; `none`: it is
not a history from this state. -/
def decisions (s : PolicyRun P) (is : List Input) : Option (List (List Callback)) :=
  outputs answer s is

theorem linked_callbacks {st : Status} (hs : st.Linked) (calls : List Callback) :
    (calls.foldl Status.callback st).Linked := by
  induction calls generalizing st with
  | nil => exact hs
  | cons c calls ih =>
    refine ih ?_
    cases c with
    | suspend h => exact hs.operate true
    | resume h => exact hs.operate false
    | addTimer t => exact hs

/-- An input leaves the two maps of the status in step. -/
theorem linked_answer {s s' : PolicyRun P} {i : Input} {calls : List Callback}
    (hs : s.status.Linked) (h : s.answer i = some (calls, s')) : s'.status.Linked := by
  cases i with
  | event now e =>
    obtain ⟨status, hu, he⟩ := Option.map_eq_some_iff.1 h
    cases he
    exact hs.updateStatus hu
  | recvHint clock hint => cases h; exact hs
  | reschedule clock order =>
    simp only [answer] at h
    split at h
    · obtain ⟨⟨calls', policy⟩, hsched, he⟩ := Option.map_eq_some_iff.1 h
      cases he
      exact linked_callbacks hs calls'
    · cases h

theorem linked_reachable {s : PolicyRun P} (hr : (lts P).Reachable s) : s.status.Linked := by
  refine LTS.reachable_induction (I := fun s => s.status.Linked) ?_ ?_ hr
  · rintro s rfl; exact Status.linked_empty
  · intro s i s' _ hs hstep
    obtain ⟨⟨calls, s₁⟩, ha, rfl⟩ := Option.map_eq_some_iff.1 hstep
    exact linked_answer hs ha

end PolicyRun

/-! ## A policy in the local scheduler -/

/-- A `LocalScheduler` and the state of its policy. -/
structure Hosted (P : Policy) where
  scheduler : LocalScheduler
  policy : P.State

inductive HostedAct where
  /-- A step of the scheduler that does not call the policy. -/
  | own (act : SchedAct)
  /-- `UpdateStatus` of a `HintEvent` with this hint. -/
  | recvHint (now : TimePoint) (clock : Clock) (hint : Hint)
  | reschedule (clock : Clock) (order : List XQueueHandle)

namespace Hosted
variable {P : Policy}

/-- The event that `UpdateStatus` is about to handle is a `HintEvent`. -/
def atHint (s : LocalScheduler) : Bool :=
  match s.worker with
  | .processing (.hint _ :: _) _ => true
  | _ => false

/-- The scheduler with one policy, from its construction on: `SetPolicy` to
another type ends it. mirrors sched/src/scheduler/local.cpp:12-134,165-175 -/
def step (s : Hosted P) : HostedAct → Option (Hosted P)
  | .own (.sched _) => none
  | .own (.setPolicy type) =>
    if type = s.scheduler.policyType then some s else none
  | .own (.update now) =>
    if atHint s.scheduler then none
    else (s.scheduler.step (.update now)).map fun scheduler => { s with scheduler }
  | .own act => (s.scheduler.step act).map fun scheduler => { s with scheduler }
  | .recvHint now clock hint =>
    if atHint s.scheduler then
      (s.scheduler.step (.update now)).map fun scheduler =>
        ⟨scheduler, P.recvHint clock hint s.policy⟩
    else none
  | .reschedule clock order =>
    if order.Perm s.scheduler.status.xqueueStatus.keys then
      (P.sched clock s.scheduler.status order s.policy).bind fun (calls, policy) =>
        (s.scheduler.step (.sched calls)).map fun scheduler => ⟨scheduler, policy⟩
    else none

/-- What the policy has to do with. -/
def run (s : Hosted P) : PolicyRun P := ⟨s.scheduler.status, s.policy⟩

theorem status_callbacks (calls : List Callback) (s : LocalScheduler) :
    (calls.foldl LocalScheduler.callback s).status = calls.foldl Status.callback s.status := by
  induction calls generalizing s with
  | nil => rfl
  | cons c calls ih =>
    rw [List.foldl_cons, List.foldl_cons, ih]
    cases c <;> rfl

/-- A reschedule of the scheduler changes its status by the calls. -/
theorem status_sched {s s' : LocalScheduler} {calls : List Callback}
    (h : s.step (.sched calls) = some s') :
    s'.status = calls.foldl Status.callback s.status := by
  simp only [LocalScheduler.step] at h
  split at h
  · cases h; exact status_callbacks calls s
  · cases h; exact status_callbacks calls s
  · cases h

/-- A hint leaves the status alone. -/
theorem status_hint {s s' : LocalScheduler} {now : TimePoint} (hhint : atHint s = true)
    (h : s.step (.update now) = some s') : s'.status = s.status := by
  unfold atHint at hhint
  split at hhint
  · rename_i pid tmp b hw
    simp only [LocalScheduler.step, hw] at h
    cases h; rfl
  · cases hhint

/-- Without a restart, a step of the scheduler changes the status by an event
or by the calls of a reschedule. -/
theorem status_own {s s' : LocalScheduler} {act : SchedAct} (hr : s.restarts act = false)
    (h : s.StepCases act s') : s'.status = s.status ∨
      (∃ now e, s.status.updateStatus now e = some s'.status) ∨ ∃ calls, act = .sched calls := by
  cases h with
  | run | recvEvent | samePolicy | stopping | wake | terminate => exact Or.inl rfl
  | @joined act next hw hr' =>
    cases next with
    | none => exact Or.inl rfl
    | some type => rw [hr'] at hr; cases hr
  | @update now e tmp b status pc hw hu hpc => exact Or.inr (Or.inl ⟨now, e, hu⟩)
  | @finish calls b hw => exact Or.inr (Or.inr ⟨calls, rfl⟩)
  | @ready calls tmp b hw => exact Or.inr (Or.inr ⟨calls, rfl⟩)

/-- No `SetPolicy` is on its way to another policy. -/
def Stays (s : LocalScheduler) : Prop := ∀ type, s.control ≠ .joining (some type)

theorem Stays.restarts {s : LocalScheduler} (hs : Stays s) {act : SchedAct}
    (hact : ∀ type, act ≠ .setPolicy type) : s.restarts act = false := by
  cases act with
  | setPolicy type => exact absurd rfl (hact type)
  | join =>
    cases hc : s.control with
    | idle => simp only [LocalScheduler.restarts, hc]
    | joining next =>
      cases next with
      | none => simp only [LocalScheduler.restarts, hc]; rfl
      | some type => exact absurd hc (hs type)
  | _ => rfl

theorem control_callbacks (calls : List Callback) (s : LocalScheduler) :
    (calls.foldl LocalScheduler.callback s).control = s.control := by
  induction calls generalizing s with
  | nil => rfl
  | cons c calls ih =>
    rw [List.foldl_cons, ih]
    cases c <;> rfl

/-- What the steps of the scheduler but `SetPolicy` leave of its thread of control. -/
theorem Stays.step {s s' : LocalScheduler} (hs : Stays s) {act : SchedAct}
    (h : s.step act = some s') (hact : ∀ type, act ≠ .setPolicy type) : Stays s' := by
  cases act with
  | setPolicy type => exact absurd rfl (hact type)
  | recvEvent e => cases h; exact hs
  | run =>
    simp only [LocalScheduler.step] at h
    split at h <;> cases h
    exact hs
  | stop =>
    simp only [LocalScheduler.step] at h
    split at h <;> cases h
    unfold LocalScheduler.stopThen
    split <;> intro type hc <;> cases hc
  | join =>
    simp only [LocalScheduler.step] at h
    split at h <;> cases h
    rename_i next hc hw
    cases next <;> intro type hc' <;> cases hc'
  | wake now =>
    simp only [LocalScheduler.step, LocalScheduler.wake] at h
    split at h
    · split at h
      · split at h
        · cases h
        · split at h <;> cases h
          exact hs
      · cases h; exact hs
    · cases h
  | update now =>
    simp only [LocalScheduler.step, LocalScheduler.update] at h
    split at h
    · split at h
      · cases h; exact hs
      · obtain ⟨status, -, rfl⟩ := Option.map_eq_some_iff.1 h; exact hs
      · obtain ⟨status, -, rfl⟩ := Option.map_eq_some_iff.1 h; exact hs
    · cases h
  | sched calls =>
    simp only [LocalScheduler.step] at h
    split at h <;> cases h
    all_goals
      intro type hc
      exact hs type ((control_callbacks calls s).symm.trans hc)

theorem stays_step {s s' : Hosted P} {act : HostedAct} (hs : Stays s.scheduler)
    (h : s.step act = some s') : Stays s'.scheduler := by
  cases act with
  | recvHint now clock hint =>
    simp only [step] at h
    split at h
    · obtain ⟨scheduler, hu, rfl⟩ := Option.map_eq_some_iff.1 h
      exact hs.step hu nofun
    · cases h
  | reschedule clock order =>
    simp only [step] at h
    split at h
    · obtain ⟨⟨calls, policy⟩, -, h⟩ := Option.bind_eq_some_iff.1 h
      obtain ⟨scheduler, hu, rfl⟩ := Option.map_eq_some_iff.1 h
      exact hs.step hu nofun
    · cases h
  | own act =>
    cases act with
    | sched calls => cases h
    | setPolicy type =>
      simp only [step] at h
      split at h <;> cases h
      exact hs
    | update now =>
      simp only [step] at h
      split at h
      · cases h
      · obtain ⟨scheduler, hu, rfl⟩ := Option.map_eq_some_iff.1 h
        exact hs.step hu nofun
    | recvEvent e => cases h; exact hs
    | run | stop | join | wake now =>
      obtain ⟨scheduler, hu, rfl⟩ := Option.map_eq_some_iff.1 h
      exact hs.step hu nofun

/-- A step of the scheduler that does not call the policy. -/
theorem refines_own {s : Hosted P} {scheduler : LocalScheduler} {act : SchedAct}
    (hs : Stays s.scheduler) (h : s.scheduler.step act = some scheduler)
    (hact : ∀ type, act ≠ .setPolicy type) (hsched : ∀ calls, act ≠ .sched calls) :
    run { s with scheduler } = s.run ∨
      ∃ i, s.run.step i = some (run { s with scheduler }) := by
  rcases status_own (hs.restarts hact) (LocalScheduler.step_cases h) with
    he | ⟨now, e, hu⟩ | ⟨calls, rfl⟩
  · exact Or.inl (by simp only [run, he])
  · refine Or.inr ⟨.event now e, ?_⟩
    simp only [PolicyRun.step, PolicyRun.answer, run, hu, Option.map_some]
  · exact absurd rfl (hsched calls)

/-- A step of a hosted policy is an input of its run or leaves the run alone. -/
theorem step_run {s s' : Hosted P} {act : HostedAct} (hs : Stays s.scheduler)
    (hstep : s.step act = some s') : s'.run = s.run ∨ ∃ i, s.run.step i = some s'.run := by
  cases act with
  | recvHint now clock hint =>
    simp only [step] at hstep
    split at hstep
    · rename_i hhint
      obtain ⟨scheduler, hu, rfl⟩ := Option.map_eq_some_iff.1 hstep
      refine Or.inr ⟨.recvHint clock hint, ?_⟩
      simp only [PolicyRun.step, PolicyRun.answer, run, Option.map_some, status_hint hhint hu]
    · cases hstep
  | reschedule clock order =>
    simp only [step] at hstep
    split at hstep
    · rename_i horder
      obtain ⟨⟨calls, policy⟩, hcalls, hstep⟩ := Option.bind_eq_some_iff.1 hstep
      obtain ⟨scheduler, hu, rfl⟩ := Option.map_eq_some_iff.1 hstep
      refine Or.inr ⟨.reschedule clock order, ?_⟩
      simp only [PolicyRun.step, PolicyRun.answer, run, if_pos horder, hcalls, Option.map_some,
        status_sched hu]
    · cases hstep
  | own act =>
    cases act with
    | sched calls => cases hstep
    | setPolicy type =>
      simp only [step] at hstep
      split at hstep <;> cases hstep
      exact Or.inl rfl
    | update now =>
      simp only [step] at hstep
      split at hstep
      · cases hstep
      · obtain ⟨scheduler, hu, rfl⟩ := Option.map_eq_some_iff.1 hstep
        exact refines_own hs hu nofun nofun
    | recvEvent e => cases hstep; exact Or.inl rfl
    | run | stop | join | wake now =>
      obtain ⟨scheduler, hu, rfl⟩ := Option.map_eq_some_iff.1 hstep
      exact refines_own hs hu nofun nofun

end Hosted
end Xsched.Sched
