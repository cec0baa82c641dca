import Mathlib.Data.List.Sort
import Xsched.Core.LTS
import Xsched.Sched.Status

/-!
# Delivery of the scheduler's decisions

`LocalScheduler::Worker` waits for an event or for the first timer, takes
the whole event queue, updates the status event by event and lets the policy
reschedule: after every Ready event and once at the end. A reschedule calls
the policy, whose `Suspend` and `Resume` move handles between the two sets of
a process, and then passes every process with an XQueue a `SchedOperation`
that lists both sets. `SetPolicy` stops the worker, resumes every XQueue in
the status and starts a worker for the new policy.

**The policy.** A policy decides by calls of `Suspend`, `Resume` and
`AddTimer` during `Sched`; `RecvHint` makes none. The model takes any list of
such calls as the outcome of a `Sched` (the label of `sched`), so what is
proved holds of every policy.

**The break.** `SetPolicy` changes the sets outside of a reschedule. The new
worker has its timers cleared and starts with the wait, so with no event in
the queue it blocks at once, and the processes whose XQueues it resumed keep
the operation that suspends them until some unrelated event arrives.

**Results.**
* `delivered`: while `SetPolicy` restarts the worker only with an event in
  the queue or with no XQueue suspended (`Flushes`), a blocked worker has
  passed every process with an XQueue exactly its current sets; a restart
  against the condition leaves the worker blocked with a process that has not
  got its sets.
* `policy_change_not_delivered`: the policy changes while an XQueue is
  suspended.
-/
namespace Xsched.Sched

/-- mirrors include/xsched/types.h:100-117 -/
inductive XPolicyType where
  | kPolicyHighestPriorityFirst
  | kPolicyHeterogeneousHighestPriorityFirst
  | kPolicyUtilizationPartition
  | kPolicyProcessUtilizationPartition
  | kPolicyKEarliestDeadlineFirst
  | kPolicyLaxity
  | kPolicyActiveWindowFirst
  | kPolicyCPUHighestPriorityFirst
  | kPolicyCompletelyFairScheduler
  | kPolicyMultiLevelFeedbackQueue
  | kPolicySLOAdaptive
  | kPolicyInterferenceAwareHeterogeneous
  deriving DecidableEq

/-! ## Operations -/

/-- `offsetof(OperationData, handles)`: the meta data and three words. -/
def kHandlesOffset : Nat := 32

/-- mirrors sched/include/xsched/sched/protocol/operation.h:72-85 -/
structure SchedOperation where
  pid : PID
  size : Nat
  runningCnt : Nat
  suspendedCnt : Nat
  handles : List XQueueHandle
  deriving DecidableEq

namespace SchedOperation

/-- mirrors sched/src/protocol/operation.cpp:33-53 -/
def ofStatus (status : ProcessStatus) : SchedOperation where
  pid := status.info.pid
  size := kHandlesOffset +
    (status.runningXqueues.elems.length + status.suspendedXqueues.elems.length) * 8
  runningCnt := status.runningXqueues.elems.length
  suspendedCnt := status.suspendedXqueues.elems.length
  handles := status.runningXqueues.elems ++ status.suspendedXqueues.elems

/-- The handles that an operation lists as running: the first `running_cnt`. -/
def running (op : SchedOperation) : List XQueueHandle := op.handles.take op.runningCnt

/-- The next `suspended_cnt`. -/
def suspended (op : SchedOperation) : List XQueueHandle :=
  (op.handles.drop op.runningCnt).take op.suspendedCnt

@[simp] theorem running_ofStatus (p : ProcessStatus) :
    (ofStatus p).running = p.runningXqueues.elems := by
  simp [ofStatus, running]

@[simp] theorem suspended_ofStatus (p : ProcessStatus) :
    (ofStatus p).suspended = p.suspendedXqueues.elems := by
  simp [ofStatus, suspended]

end SchedOperation

/-! ## The scheduler -/

/-- The calls of a policy during `Sched`. -/
inductive Callback where
  | suspend (h : XQueueHandle)
  | resume (h : XQueueHandle)
  | addTimer (t : TimePoint)
  deriving DecidableEq

/-- Where the worker thread is; `tmp` is `tmp_queue`. -/
inductive WorkerPc where
  /-- `thread_ == nullptr`. -/
  | stopped
  | waiting
  /-- In the loop over `tmp_queue`, or at the `Reschedule` behind it. -/
  | processing (tmp : List Event) (terminate : Bool)
  /-- At the `Reschedule` after a Ready event. -/
  | ready (tmp : List Event) (terminate : Bool)
  /-- Returned, not joined yet. -/
  | returned
  deriving DecidableEq

/-- The thread that controls the worker: joining it in `Stop`, on its way to a
new policy when `SetPolicy` called it. -/
inductive Control where
  | idle
  | joining (next : Option XPolicyType)
  deriving DecidableEq

/-- `executed` is ghost: the operations passed to `Execute`, oldest first. -/
structure LocalScheduler where
  policyType : XPolicyType
  status : Status
  eventQueue : List Event
  timers : List TimePoint
  worker : WorkerPc
  control : Control
  executed : List SchedOperation

inductive SchedAct where
  | run
  | recvEvent (e : Event)
  | setPolicy (type : XPolicyType)
  | stop
  | join
  | wake (now : TimePoint)
  | update (now : TimePoint)
  | sched (calls : List Callback)
  deriving DecidableEq

/-- The pid of the process the scheduler is in (`GetProcessId()`). -/
def kServerPid : PID := 0

namespace Status

/-- `for (auto &status : status_.xqueue_status) Resume(status.first)`. -/
def resumeAll (s : Status) : Status := s.xqueueStatus.keys.foldl (fun s h => s.resume h) s

theorem Linked.resumeKeys {s : Status} (hs : s.Linked) (ks : List XQueueHandle) :
    (ks.foldl (fun s h => s.resume h) s).Linked := by
  induction ks generalizing s with
  | nil => exact hs
  | cons k ks ih => exact ih (hs.operate false)

theorem lookup_resumeKeys (s : Status) (ks : List XQueueHandle) (h : XQueueHandle) :
    (ks.foldl (fun s h => s.resume h) s).xqueueStatus.lookup h =
      if h ∈ ks then (s.xqueueStatus.lookup h).map fun q => { q with suspended := false }
      else s.xqueueStatus.lookup h := by
  induction ks generalizing s with
  | nil => simp
  | cons k ks ih =>
    rw [List.foldl_cons, ih, resume, lookup_operate]
    by_cases hk : h = k
    · subst hk
      cases s.xqueueStatus.lookup h <;> simp
    · simp [hk]

theorem mem_resumeKeys (s : Status) (ks : List XQueueHandle) (pid : PID) :
    pid ∈ (ks.foldl (fun s h => s.resume h) s).processStatus ↔ pid ∈ s.processStatus := by
  induction ks generalizing s with
  | nil => rfl
  | cons k ks ih => exact (ih (s.resume k)).trans (mem_operate false)

theorem lookup_resumeAll (s : Status) (h : XQueueHandle) :
    s.resumeAll.xqueueStatus.lookup h =
      (s.xqueueStatus.lookup h).map fun q => { q with suspended := false } := by
  rw [resumeAll, lookup_resumeKeys]
  split
  · rfl
  · rename_i hk
    rw [AList.lookup_eq_none.2 hk]; rfl

/-- Resuming every XQueue leaves each where it was if none was suspended. -/
theorem placed_resumeAll {s : Status} {pid : PID} {b : Bool} {h : XQueueHandle} :
    s.resumeAll.Placed pid b h ↔
      b = false ∧ ∃ q, s.xqueueStatus.lookup h = some q ∧ q.pid = pid := by
  unfold Placed
  rw [lookup_resumeAll]
  constructor
  · rintro ⟨q', hq', hpid, hb⟩
    obtain ⟨q, hq, rfl⟩ := Option.map_eq_some_iff.1 hq'
    exact ⟨hb.symm, q, hq, hpid⟩
  · rintro ⟨rfl, q, hq, hpid⟩
    exact ⟨{ q with suspended := false }, by rw [hq]; rfl, hpid, rfl⟩

/-- No XQueue in the status is suspended. -/
def noneSuspended (s : Status) : Bool := s.xqueueStatus.entries.all fun e => !e.2.suspended

theorem noneSuspended_iff {s : Status} :
    s.noneSuspended = true ↔ ∀ h q, s.xqueueStatus.lookup h = some q → q.suspended = false := by
  unfold noneSuspended
  rw [List.all_eq_true]
  constructor
  · intro hall h q hq
    simpa using hall ⟨h, q⟩ (AList.mem_lookup_iff.1 hq)
  · rintro hall ⟨h, q⟩ hmem
    simpa using hall h q (AList.mem_lookup_iff.2 hmem)

end Status

namespace LocalScheduler

/-- mirrors sched/src/scheduler/local.cpp:12-19 -/
def init (type : XPolicyType) : LocalScheduler :=
  ⟨type, .empty, [], [], .stopped, .idle, []⟩

/-- mirrors sched/src/scheduler/local.cpp:337-370 -/
def callback (s : LocalScheduler) : Callback → LocalScheduler
  | .suspend h => { s with status := s.status.suspend h }
  | .resume h => { s with status := s.status.resume h }
  | .addTimer t => { s with timers := s.timers ++ [t] }

/-- The operations of one round: one for each process with an XQueue.
mirrors sched/src/scheduler/local.cpp:127-134 -/
def operations (s : Status) : List SchedOperation :=
  (s.processStatus.entries.filter fun p =>
    !(p.2.runningXqueues.elems.isEmpty && p.2.suspendedXqueues.elems.isEmpty)).map fun p =>
      .ofStatus p.2

def executeOperations (s : LocalScheduler) : LocalScheduler :=
  { s with executed := s.executed ++ operations s.status }

/-- mirrors sched/src/scheduler/local.cpp:121-125 -/
def reschedule (calls : List Callback) (s : LocalScheduler) : LocalScheduler :=
  executeOperations (calls.foldl callback s)

/-- The end of `Stop`, and of `SetPolicy` when it called it.
mirrors sched/src/scheduler/local.cpp:38-39,54-61 -/
def joined (next : Option XPolicyType) (s : LocalScheduler) : LocalScheduler :=
  match next with
  | none => { s with timers := [], worker := .stopped, control := .idle }
  | some type =>
    { s with
      timers := []
      policyType := type
      status := s.status.resumeAll
      worker := .waiting
      control := .idle }

/-- The first half of `Stop`: with no worker there is nothing to join.
mirrors sched/src/scheduler/local.cpp:31-36 -/
def stopThen (next : Option XPolicyType) (s : LocalScheduler) : LocalScheduler :=
  if s.worker = .stopped then s.joined next
  else { s with
    eventQueue := s.eventQueue ++ [.schedulerTerminate kServerPid]
    control := .joining next }

/-- The wait is over: the queue is not empty, or the first timer has expired.
mirrors sched/src/scheduler/local.cpp:72-99 -/
def wake (now : TimePoint) (s : LocalScheduler) : Option LocalScheduler :=
  match s.eventQueue with
  | [] =>
    match s.timers with
    | [] => none
    | first :: _ =>
      if now < first then none
      else some { s with
        timers := s.timers.dropWhile (· ≤ now)
        worker := .processing [] false }
  | e :: es => some { s with eventQueue := [], worker := .processing (e :: es) false }

/-- One turn of the loop over `tmp_queue`.
mirrors sched/src/scheduler/local.cpp:102-112 -/
def update (now : TimePoint) (e : Event) (tmp : List Event) (terminate : Bool)
    (s : LocalScheduler) : Option LocalScheduler :=
  match e with
  | .schedulerTerminate _ => some { s with worker := .processing tmp true }
  | .xQueueReady _ _ _ =>
    (s.status.updateStatus now e).map fun status =>
      { s with status, worker := .ready tmp terminate }
  | _ =>
    (s.status.updateStatus now e).map fun status =>
      { s with status, worker := .processing tmp terminate }

/-- The reschedule at the end of a round.
mirrors sched/src/scheduler/local.cpp:114-117 -/
def finish (calls : List Callback) (terminate : Bool) (s : LocalScheduler) : LocalScheduler :=
  let s := s.reschedule calls
  { s with
    timers := s.timers.insertionSort (· ≤ ·)
    worker := if terminate then .returned else .waiting }

/-- mirrors sched/src/scheduler/local.cpp:26-119 -/
def step (s : LocalScheduler) : SchedAct → Option LocalScheduler
  | .run =>
    if s.worker = .stopped ∧ s.control = .idle then some { s with worker := .waiting } else none
  | .recvEvent e => some { s with eventQueue := s.eventQueue ++ [e] }
  | .setPolicy type =>
    if s.control ≠ .idle then none
    else if type = s.policyType then some s
    else some (s.stopThen (some type))
  | .stop => if s.control ≠ .idle then none else some (s.stopThen none)
  | .join =>
    match s.control, s.worker with
    | .joining next, .returned => some (s.joined next)
    | _, _ => none
  | .wake now =>
    match s.worker with
    | .waiting => s.wake now
    | _ => none
  | .update now =>
    match s.worker with
    | .processing (e :: tmp) terminate => s.update now e tmp terminate
    | _ => none
  | .sched calls =>
    match s.worker with
    | .processing [] terminate => some (s.finish calls terminate)
    | .ready tmp terminate =>
      some { s.reschedule calls with worker := .processing tmp terminate }
    | _ => none

def lts : LTS LocalScheduler SchedAct := .ofFn (fun s => ∃ type, s = init type) step

/-- The events that `UpdateStatus` has not seen yet, in order. -/
def pending (s : LocalScheduler) : List Event :=
  match s.worker with
  | .processing tmp _ | .ready tmp _ => tmp ++ s.eventQueue
  | .stopped | .waiting | .returned => s.eventQueue

theorem pending_append {s s' : LocalScheduler} {e : Event} (hw : s'.worker = s.worker)
    (hq : s'.eventQueue = s.eventQueue ++ [e]) : s'.pending = s.pending ++ [e] := by
  unfold pending
  rw [hw, hq]
  split <;> simp

/-! ## What a step can do -/

/-- With this step `SetPolicy` starts the worker of the new policy. -/
def restarts (s : LocalScheduler) : SchedAct → Bool
  | .setPolicy type => s.worker = .stopped && type ≠ s.policyType
  | .join =>
    match s.control with
    | .joining next => next.isSome
    | .idle => false
  | _ => false

inductive StepCases (s : LocalScheduler) : SchedAct → LocalScheduler → Prop
  | run (hw : s.worker = .stopped) : StepCases s .run { s with worker := .waiting }
  | recvEvent (e : Event) :
    StepCases s (.recvEvent e) { s with eventQueue := s.eventQueue ++ [e] }
  | samePolicy : StepCases s (.setPolicy s.policyType) s
  | stopping {act : SchedAct} {next : Option XPolicyType} (hr : s.restarts act = false) :
    StepCases s act { s with
      eventQueue := s.eventQueue ++ [.schedulerTerminate kServerPid]
      control := .joining next }
  | joined {act : SchedAct} {next : Option XPolicyType}
      (hw : s.worker = .stopped ∨ s.worker = .returned) (hr : s.restarts act = next.isSome) :
    StepCases s act (s.joined next)
  | wake {now : TimePoint} {timers : List TimePoint} (hw : s.worker = .waiting) :
    StepCases s (.wake now) { s with
      eventQueue := []
      timers := timers
      worker := .processing s.eventQueue false }
  | terminate {now : TimePoint} {pid : PID} {tmp : List Event} {b : Bool}
      (hw : s.worker = .processing (.schedulerTerminate pid :: tmp) b) :
    StepCases s (.update now) { s with worker := .processing tmp true }
  | update {now : TimePoint} {e : Event} {tmp : List Event} {b : Bool} {status : Status}
      {pc : WorkerPc} (hw : s.worker = .processing (e :: tmp) b)
      (hu : s.status.updateStatus now e = some status)
      (hpc : pc = .processing tmp b ∨ pc = .ready tmp b) :
    StepCases s (.update now) { s with status := status, worker := pc }
  | finish {calls : List Callback} {b : Bool} (hw : s.worker = .processing [] b) :
    StepCases s (.sched calls) (s.finish calls b)
  | ready {calls : List Callback} {tmp : List Event} {b : Bool} (hw : s.worker = .ready tmp b) :
    StepCases s (.sched calls) { s.reschedule calls with worker := .processing tmp b }

theorem stopThen_cases {s : LocalScheduler} {act : SchedAct} {next : Option XPolicyType}
    (hstop : s.worker = .stopped → s.restarts act = next.isSome)
    (hrun : s.worker ≠ .stopped → s.restarts act = false) : StepCases s act (s.stopThen next) := by
  unfold stopThen
  split
  · rename_i hw; exact .joined (Or.inl hw) (hstop hw)
  · rename_i hw; exact .stopping (hrun hw)

theorem wake_cases {s s' : LocalScheduler} {now : TimePoint} (hw : s.worker = .waiting)
    (h : s.wake now = some s') : StepCases s (.wake now) s' := by
  obtain ⟨policyType, status, eventQueue, timers, worker, control, executed⟩ := s
  simp only [wake] at h
  split at h
  · split at h
    · cases h
    · split at h
      · cases h
      · cases h; exact .wake hw
  · cases h; exact .wake hw

theorem update_cases {s s' : LocalScheduler} {now : TimePoint} {e : Event} {tmp : List Event}
    {b : Bool} (hw : s.worker = .processing (e :: tmp) b)
    (h : s.update now e tmp b = some s') : StepCases s (.update now) s' := by
  unfold update at h
  split at h
  · cases h; exact .terminate hw
  · obtain ⟨status, hu, rfl⟩ := Option.map_eq_some_iff.1 h
    exact .update hw hu (Or.inr rfl)
  · obtain ⟨status, hu, rfl⟩ := Option.map_eq_some_iff.1 h
    exact .update hw hu (Or.inl rfl)

theorem step_cases {s s' : LocalScheduler} {act : SchedAct} (h : step s act = some s') :
    StepCases s act s' := by
  cases act with
  | run =>
    simp only [step] at h
    split at h
    · rename_i hw; cases h; exact .run hw.1
    · cases h
  | recvEvent e => cases h; exact .recvEvent e
  | setPolicy type =>
    simp only [step] at h
    split at h
    · cases h
    · split at h
      · rename_i ht; cases h; rw [ht]; exact .samePolicy
      · rename_i ht
        cases h
        exact stopThen_cases (fun hw => by simp [restarts, hw, ht])
          (fun hw => by simp [restarts, hw])
  | stop =>
    simp only [step] at h
    split at h
    · cases h
    · cases h
      exact stopThen_cases (fun _ => rfl) (fun _ => rfl)
  | join =>
    simp only [step] at h
    split at h
    · rename_i hc hw; cases h; exact .joined (Or.inr hw) (by simp only [restarts, hc])
    · cases h
  | wake now =>
    simp only [step] at h
    split at h
    · rename_i hw; exact wake_cases hw h
    · cases h
  | update now =>
    simp only [step] at h
    split at h
    · rename_i hw; exact update_cases hw h
    · cases h
  | sched calls =>
    simp only [step] at h
    split at h
    · rename_i hw; cases h; exact .finish hw
    · rename_i hw; cases h; exact .ready hw
    · cases h

/-- The calls of a policy change the status and the timers only, keep the maps
in step and leave every process its entry. -/
theorem callbacks_frame (calls : List Callback) (s : LocalScheduler) :
    (calls.foldl callback s).eventQueue = s.eventQueue ∧
    (s.status.Linked → (calls.foldl callback s).status.Linked) ∧
    ∀ pid, pid ∈ (calls.foldl callback s).status.processStatus ↔ pid ∈ s.status.processStatus := by
  induction calls generalizing s with
  | nil => exact ⟨rfl, id, fun pid => Iff.rfl⟩
  | cons c calls ih =>
    obtain ⟨hq, hl, hm⟩ := ih (s.callback c)
    cases c with
    | suspend h =>
      exact ⟨hq, fun hs => hl (hs.operate true), fun pid => (hm pid).trans (Status.mem_operate true)⟩
    | resume h =>
      exact ⟨hq, fun hs => hl (hs.operate false),
        fun pid => (hm pid).trans (Status.mem_operate false)⟩
    | addTimer t => exact ⟨hq, hl, hm⟩

theorem callbacks_executed (calls : List Callback) (s : LocalScheduler) :
    (calls.foldl callback s).executed = s.executed := by
  induction calls generalizing s with
  | nil => rfl
  | cons c calls ih =>
    rw [List.foldl_cons, ih]
    cases c <;> rfl

/-! ## Delivery -/

/-- The last operation passed to `Execute` for a process. -/
def lastOperation (pid : PID) (ops : List SchedOperation) : Option SchedOperation :=
  (ops.filter (·.pid = pid)).getLast?

/-- Every process with an XQueue has last been passed its current sets. -/
def Delivered (s : LocalScheduler) : Prop :=
  ∀ h q, s.status.xqueueStatus.lookup h = some q →
    ∃ p op, s.status.processStatus.lookup q.pid = some p ∧
      lastOperation q.pid s.executed = some op ∧
      op.running.Perm p.runningXqueues.elems ∧ op.suspended.Perm p.suspendedXqueues.elems

/-- The worker is blocked waiting for an event or a timer. -/
def Blocked (s : LocalScheduler) : Prop := s.worker = .waiting ∧ s.eventQueue = []

instance (s : LocalScheduler) : Decidable s.Blocked := inferInstanceAs (Decidable (_ ∧ _))

section
variable {s s' : LocalScheduler}

theorem mem_operations {st : Status} {op : SchedOperation} (hs : st.Linked) {pid : PID}
    {p : ProcessStatus} (hp : st.processStatus.lookup pid = some p) (hop : op ∈ operations st)
    (hpid : op.pid = pid) : op = .ofStatus p := by
  obtain ⟨⟨pid', p'⟩, hmem, rfl⟩ := List.mem_map.1 hop
  have hp' : st.processStatus.lookup pid' = some p' :=
    AList.mem_lookup_iff.2 (List.mem_of_mem_filter hmem)
  have hkey := hs.keyed pid' p' hp'
  obtain rfl : pid' = pid := hkey.symm.trans hpid
  rw [hp] at hp'
  cases hp'; rfl

theorem operations_mem {st : Status} {pid : PID} {p : ProcessStatus}
    (hp : st.processStatus.lookup pid = some p) {b : Bool} {h : XQueueHandle}
    (hx : h ∈ p.xqueues b) : SchedOperation.ofStatus p ∈ operations st := by
  refine List.mem_map.2 ⟨⟨pid, p⟩, List.mem_filter.2 ⟨AList.mem_lookup_iff.1 hp, ?_⟩, rfl⟩
  have hne : (p.xqueues b).elems ≠ [] := List.ne_nil_of_mem hx
  cases b <;> simp only [ProcessStatus.xqueues] at hne <;> simp [hne]

/-- A round passes every process with an XQueue its sets, as the last
operation for that process. -/
theorem lastOperation_round {st : Status} (hs : st.Linked) {pid : PID} {p : ProcessStatus}
    (hp : st.processStatus.lookup pid = some p) {b : Bool} {h : XQueueHandle}
    (hx : h ∈ p.xqueues b) (before : List SchedOperation) :
    lastOperation pid (before ++ operations st) = some (.ofStatus p) := by
  have hin : SchedOperation.ofStatus p ∈ (operations st).filter (·.pid = pid) :=
    List.mem_filter.2 ⟨operations_mem hp hx, decide_eq_true (hs.keyed pid p hp)⟩
  unfold lastOperation
  rw [List.filter_append, List.getLast?_append]
  cases hl : ((operations st).filter (·.pid = pid)).getLast? with
  | none => rw [List.getLast?_eq_none_iff.1 hl] at hin; cases hin
  | some op =>
    obtain ⟨hop, hpid⟩ := List.mem_filter.1 (List.mem_of_getLast? hl)
    rw [mem_operations hs hp hop (by simpa using hpid)]
    rfl

theorem delivered_executeOperations (hs : s.status.Linked) : s.executeOperations.Delivered := by
  intro h q hq
  obtain ⟨p, hp⟩ := Option.isSome_iff_exists.1 (AList.lookup_isSome.2 (hs.home h q hq))
  have hx : h ∈ p.xqueues q.suspended := (hs.sets _ p hp _ h).2 ⟨q, hq, rfl, rfl⟩
  refine ⟨p, .ofStatus p, hp, lastOperation_round hs hp hx s.executed, ?_, ?_⟩
  · rw [SchedOperation.running_ofStatus]
  · rw [SchedOperation.suspended_ofStatus]

/-- A restart that resumes nothing leaves the operations up to date. -/
theorem Delivered.joined (hd : s.Delivered) (hs : s.status.Linked)
    (hnone : s.status.noneSuspended = true) (next : Option XPolicyType) :
    (s.joined next).Delivered := by
  cases next with
  | none => exact hd
  | some type =>
    intro h q' hq'
    simp only [LocalScheduler.joined, Status.lookup_resumeAll] at hq'
    obtain ⟨q, hq, rfl⟩ := Option.map_eq_some_iff.1 hq'
    obtain ⟨p, op, hp, hop, hrun, hsus⟩ := hd h q hq
    have hs' : s.status.resumeAll.Linked := hs.resumeKeys _
    obtain ⟨p', hp'⟩ := Option.isSome_iff_exists.1
      (AList.lookup_isSome.2 (hs'.home h _ (by rw [Status.lookup_resumeAll, hq]; rfl)))
    have hsame : ∀ b h', h' ∈ p.xqueues b ↔ h' ∈ p'.xqueues b := by
      intro b h'
      rw [hs.sets _ p hp, hs'.sets _ p' hp', Status.placed_resumeAll]
      constructor
      · rintro ⟨q₁, hq₁, hpid, rfl⟩
        exact ⟨Status.noneSuspended_iff.1 hnone h' q₁ hq₁, q₁, hq₁, hpid⟩
      · rintro ⟨rfl, q₁, hq₁, hpid⟩
        exact ⟨q₁, hq₁, hpid, Status.noneSuspended_iff.1 hnone h' q₁ hq₁⟩
    refine ⟨p', op, hp', hop, hrun.trans ?_, hsus.trans ?_⟩
    · exact (List.perm_ext_iff_of_nodup p.runningXqueues.nodup p'.runningXqueues.nodup).2
        (hsame false)
    · exact (List.perm_ext_iff_of_nodup p.suspendedXqueues.nodup p'.suspendedXqueues.nodup).2
        (hsame true)

/-- A restart that resumes an XQueue leaves its process with the operation that
suspends it. -/
theorem Delivered.not_joined (hd : s.Delivered) (hs : s.status.Linked) {h : XQueueHandle}
    {q : XQueueStatus} (hq : s.status.xqueueStatus.lookup h = some q) (hsus : q.suspended = true)
    (type : XPolicyType) : ¬ (s.joined (some type)).Delivered := by
  intro hd'
  obtain ⟨p, op, hp, hop, hrun, -⟩ := hd h q hq
  obtain ⟨p', op', hp', hop', hrun', -⟩ := hd' h { q with suspended := false } (by
    simp only [LocalScheduler.joined, Status.lookup_resumeAll, hq, Option.map_some])
  obtain rfl : op = op' := Option.some.inj (hop.symm.trans hop')
  have hs' : s.status.resumeAll.Linked := hs.resumeKeys _
  have hin : h ∈ p'.xqueues false :=
    (hs'.sets _ p' hp' false h).2 (Status.placed_resumeAll.2 ⟨rfl, q, hq, rfl⟩)
  have hold : h ∈ p.xqueues false := hrun.mem_iff.1 (hrun'.mem_iff.2 hin)
  obtain ⟨q₁, hq₁, -, hfalse⟩ := (hs.sets _ p hp false h).1 hold
  rw [hq] at hq₁
  cases hq₁
  rw [hsus] at hfalse
  cases hfalse

/-! ## Runs -/

/-- What every run keeps: the maps agree, and a worker that has returned has
left no decision behind. -/
structure Inv (s : LocalScheduler) : Prop where
  linked : s.status.Linked
  quiet : s.worker = .stopped ∨ s.worker = .returned → s.Delivered

theorem linked_reschedule (hs : s.status.Linked) (calls : List Callback) :
    (s.reschedule calls).status.Linked := (callbacks_frame calls s).2.1 hs

theorem delivered_finish (hs : s.status.Linked) (calls : List Callback) (b : Bool) :
    (s.finish calls b).Delivered :=
  delivered_executeOperations (s := calls.foldl callback s) ((callbacks_frame calls s).2.1 hs)

theorem inv_init (type : XPolicyType) : (init type).Inv := by
  refine ⟨Status.linked_empty, fun _ => ?_⟩
  intro h q hq; cases hq

theorem inv_step {act : SchedAct} (hi : s.Inv) (h : StepCases s act s') : s'.Inv := by
  cases h with
  | run hw =>
    refine ⟨hi.linked, ?_⟩
    rintro (hw' | hw') <;> cases hw'
  | recvEvent e => exact ⟨hi.linked, hi.quiet⟩
  | samePolicy => exact hi
  | stopping hr => exact ⟨hi.linked, hi.quiet⟩
  | @joined act next hw hr =>
    cases next with
    | none => exact ⟨hi.linked, fun _ => hi.quiet hw⟩
    | some type =>
      refine ⟨hi.linked.resumeKeys _, ?_⟩
      rintro (hw' | hw') <;> cases hw'
  | wake hw =>
    refine ⟨hi.linked, ?_⟩
    rintro (hw' | hw') <;> cases hw'
  | terminate hw =>
    refine ⟨hi.linked, ?_⟩
    rintro (hw' | hw') <;> cases hw'
  | update hw hu hpc =>
    refine ⟨hi.linked.updateStatus hu, ?_⟩
    rcases hpc with rfl | rfl <;> rintro (hw' | hw') <;> cases hw'
  | @finish calls b hw =>
    exact ⟨linked_reschedule hi.linked calls, fun _ => delivered_finish hi.linked calls b⟩
  | @ready calls tmp b hw =>
    refine ⟨linked_reschedule hi.linked calls, ?_⟩
    rintro (hw' | hw') <;> cases hw'

theorem inv_reachable (hr : lts.Reachable s) : s.Inv := by
  refine LTS.reachable_induction (I := Inv) ?_ ?_ hr
  · rintro s ⟨type, rfl⟩; exact inv_init type
  · intro s act s' _ hi hs; exact inv_step hi (step_cases hs)

/-- `SetPolicy` restarts the worker with an event to process, or with nothing
to resume. -/
def Flushes (s : LocalScheduler) (act : SchedAct) : Prop :=
  s.restarts act = true → s.eventQueue ≠ [] ∨ s.status.noneSuspended = true

instance (s : LocalScheduler) (act : SchedAct) : Decidable (Flushes s act) :=
  inferInstanceAs (Decidable (_ → _))

/-- A waiting worker has an event to process, or nothing to deliver. -/
def Flushed (s : LocalScheduler) : Prop := s.worker = .waiting → s.eventQueue ≠ [] ∨ s.Delivered

theorem flushed_step {act : SchedAct} (hi : s.Inv) (hf : s.Flushed) (h : StepCases s act s')
    (hok : Flushes s act) : s'.Flushed := by
  cases h with
  | run hw => exact fun _ => Or.inr (hi.quiet (Or.inl hw))
  | recvEvent e => exact fun _ => Or.inl (List.append_ne_nil_of_right_ne_nil _ (List.cons_ne_nil _ _))
  | samePolicy => exact hf
  | stopping hr =>
    exact fun _ => Or.inl (List.append_ne_nil_of_right_ne_nil _ (List.cons_ne_nil _ _))
  | @joined act next hw hr =>
    intro hwait
    cases next with
    | none => cases hwait
    | some type =>
      rcases hok hr with hne | hnone
      · exact Or.inl hne
      · exact Or.inr ((hi.quiet hw).joined hi.linked hnone (some type))
  | wake hw => intro hwait; cases hwait
  | terminate hw => intro hwait; cases hwait
  | update hw hu hpc => intro hwait; rcases hpc with rfl | rfl <;> cases hwait
  | @finish calls b hw => exact fun _ => Or.inr (delivered_finish hi.linked calls b)
  | ready hw => intro hwait; cases hwait

theorem flushed_reachable (hr : (lts.restrict Flushes).Reachable s) : s.Flushed := by
  refine LTS.reachable_induction (I := Flushed) ?_ ?_ hr
  · rintro s ⟨type, rfl⟩ hw; cases hw
  · intro s act s' hr hf hs
    exact flushed_step (inv_reachable hr.of_restrict) hf (step_cases hs.1) hs.2

/-- A restart against the condition leaves the worker blocked at once, with a
decision undelivered. -/
theorem not_flushed {act : SchedAct} (hi : s.Inv) (h : StepCases s act s')
    (hbad : ¬ Flushes s act) : s'.Blocked ∧ ¬ s'.Delivered := by
  simp only [Flushes, Classical.not_imp, not_or, not_not] at hbad
  obtain ⟨hrestart, hempty, hsome⟩ := hbad
  cases h with
  | @joined act next hw hr =>
    rw [hrestart] at hr
    obtain ⟨type, rfl⟩ := Option.isSome_iff_exists.1 hr.symm
    refine ⟨⟨rfl, hempty⟩, ?_⟩
    rw [Status.noneSuspended_iff] at hsome
    push Not at hsome
    obtain ⟨h, q, hq, hsus⟩ := hsome
    exact (hi.quiet hw).not_joined hi.linked hq (by simpa using hsus) type
  | stopping hr => rw [hrestart] at hr; cases hr
  | samePolicy => simp [restarts] at hrestart
  | _ => cases hrestart

end

/-- **Decisions are delivered** while `SetPolicy` restarts the worker only with
an event in the queue or with no XQueue suspended: a blocked worker has passed
every process with an XQueue its current sets. A restart against the condition
leaves the worker blocked and a process without them. -/
theorem delivered (s : LocalScheduler) :
    ((lts.restrict Flushes).Reachable s → s.Blocked → s.Delivered) ∧
    ∀ act s', lts.Reachable s → lts.step s act s' → ¬ Flushes s act →
      s'.Blocked ∧ ¬ s'.Delivered := by
  refine ⟨fun hr hb => ?_, fun act s' hr hs hbad => ?_⟩
  · rcases flushed_reachable hr hb.1 with hne | hd
    · exact absurd hb.2 hne
    · exact hd
  · exact not_flushed (inv_reachable hr) (step_cases hs) hbad

/-- Two processes with an XQueue each on device 1; the hint gives XQueue 20 the
higher priority, so the policy suspends XQueue 10 once both are ready. -/
def suspendTrace : List SchedAct :=
  [.run, .recvEvent (.xQueueCreate 1 10 1 1 4 2), .recvEvent (.xQueueCreate 2 20 1 1 4 2),
   .recvEvent (.hint 2), .recvEvent (.xQueueReady 1 10 5), .recvEvent (.xQueueReady 2 20 6),
   .wake 7, .update 7, .update 7, .update 7, .update 7, .sched [.resume 10, .resume 20],
   .update 7, .sched [.suspend 10, .resume 20], .sched [.suspend 10, .resume 20]]

/-- The worker is stopped for a new policy. -/
def changeTrace : List SchedAct :=
  [.setPolicy .kPolicyUtilizationPartition, .wake 8, .update 8,
   .sched [.suspend 10, .resume 20]]

/-- What a process was told last: the running and the suspended XQueues. -/
def told (pid : PID) (s : LocalScheduler) : Option (List XQueueHandle × List XQueueHandle) :=
  (lastOperation pid s.executed).map fun op => (op.running, op.suspended)

/-- An event that comes while the worker is being stopped is processed by the
new one, and the resumed XQueue is delivered. -/
theorem delivered_with_event : ∃ s : LocalScheduler, s.Blocked ∧ s.Delivered ∧
    s.told 1 = some ([10], []) := by
  have htrace : ((LTS.exec (LTS.guarded Flushes step) (init .kPolicyHighestPriorityFirst)
      (suspendTrace ++ changeTrace ++ [.recvEvent (.xQueueIdle 2 20), .join, .wake 9, .update 9,
        .sched []])).map fun s => (decide s.Blocked, s.told 1)) =
      some (true, some ([10], [])) := by decide
  obtain ⟨s, hs, he⟩ := Option.map_eq_some_iff.1 htrace
  simp only [Prod.mk.injEq, decide_eq_true_eq] at he
  have hr : (lts.restrict Flushes).Reachable s :=
    LTS.reachable_restrict_of_exec ⟨_, rfl⟩ hs
  exact ⟨s, he.1, (delivered s).1 hr he.1, he.2⟩

/-- The policy has changed and the scheduler is at rest. -/
def changed : Option LocalScheduler :=
  LTS.exec step (init .kPolicyHighestPriorityFirst) (suspendTrace ++ changeTrace ++ [.join])

/-- **Counterexample**: the policy changes with no event under way, and the
process of the resumed XQueue keeps the operation that suspends it. -/
theorem policy_change_not_delivered :
    ¬ ∀ s, lts.Reachable s → s.Blocked → s.Delivered := by
  intro h
  have htold : (changed.map fun s => (decide s.Blocked, s.told 1)) =
      some (true, some ([], [10])) := by decide
  have hsets : (changed.map fun s => ((s.status.xqueueStatus.lookup 10).map (·.pid),
      (s.status.processStatus.lookup 1).map (·.runningXqueues.elems))) =
      some (some 1, some [10]) := by decide
  obtain ⟨s, hs, he⟩ := Option.map_eq_some_iff.1 htold
  rw [hs] at hsets
  simp only [Option.map_some, Prod.mk.injEq, Option.some.injEq, decide_eq_true_eq, told] at he hsets
  obtain ⟨q, hq, hpid⟩ := Option.map_eq_some_iff.1 hsets.1
  obtain ⟨p, op, hp, hop, hrun, -⟩ := h s (LTS.reachable_of_exec ⟨_, rfl⟩ hs) he.1 10 q hq
  rw [hpid] at hp hop
  rw [hop] at he
  rw [hp] at hsets
  simp only [Option.map_some, Option.some.injEq, Prod.mk.injEq] at he hsets
  rw [he.2.1, hsets.2] at hrun
  exact absurd hrun.length_eq (by decide)

end LocalScheduler
end Xsched.Sched
