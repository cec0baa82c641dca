import Mathlib.Data.Rat.Init
import Mathlib.Algebra.Order.Ring.Rat
import Mathlib.Logic.Function.Basic
import Mathlib.Order.WithBot
import Std.Data.ExtTreeMap
import Xsched.Sched.Policy

/-!
# The policies that account for time

Four policies measure what each XQueue gets. CFS and SLO add up a virtual
runtime, charged at every `Sched` to the XQueue that has been running since
the last one. MLFQ moves an XQueue between levels by the time it has run and
the time it has waited. UP gives one XQueue after the other a share of the
time slice.

Three of them make their entry for an XQueue when a `Sched` meets it, ready
or not, and none of the three removes an entry. UP has an entry for an XQueue
with a `UtilizationHint`, and every `Sched` first drops those of XQueues that
are not in the status.
-/
namespace Xsched.Sched

/-! ## Completely fair -/

namespace CompletelyFairSchedulerPolicy

/-- mirrors sched/include/xsched/sched/policy/cfs.h:12-18 -/
structure CFSNode where
  weight : ℚ
  vruntime : ℚ
  lastResumeTime : TimePoint
  isRunning : Bool
  priority : Priority
  deriving DecidableEq

/-- `CFSNode()`. -/
def CFSNode.new : CFSNode := ⟨1024, 0, 0, false, PRIORITY_DEFAULT⟩

abbrev State := XQueueHandle → Option CFSNode

/-- `cfs_infos_[handle]`: a missing node is made. -/
def node (infos : State) (handle : XQueueHandle) : CFSNode := (infos handle).getD .new

/-- `cfs_infos_[handle] = node`. -/
def setNode (infos : State) (handle : XQueueHandle) (n : CFSNode) : State :=
  Function.update infos handle (some n)

/-- `time_slice_`, in microseconds. -/
def timeSlice : Nat := 1000

/-- The charge of a running XQueue. mirrors sched/src/policy/cfs.cpp:15-24 -/
def charge (now : TimePoint) (infos : State) (q : XQueueStatus) : State :=
  match infos q.handle with
  | none => infos
  | some n =>
    if n.isRunning then
      setNode infos q.handle
        { n with vruntime := n.vruntime + sinceUs now n.lastResumeTime * (1024 / n.weight) }
    else infos

/-- `min_vruntimes` over the ready XQueues that have a node.
mirrors sched/src/policy/cfs.cpp:30-45 -/
def minVruntimes (infos : State) (xqueues : List XQueueStatus) : XDevice → Option ℚ :=
  xqueues.foldl
    (fun m q =>
      if !q.ready then m
      else
        match infos q.handle with
        | none => m
        | some n =>
          match m q.device with
          | none => Function.update m q.device (some n.vruntime)
          | some v => if n.vruntime < v then Function.update m q.device (some n.vruntime) else m)
    fun _ => none

structure Selection where
  infos : State
  minVruntimes : XDevice → Option ℚ
  minHandles : XDevice → Option XQueueHandle

/-- The first time a ready XQueue is seen. mirrors sched/src/policy/cfs.cpp:54-68 -/
def admitNew (now : TimePoint) (q : XQueueStatus) (s : Selection) : Selection :=
  match s.infos q.handle with
  | some _ => s
  | none =>
    let vruntime := (s.minVruntimes q.device).getD 0
    { s with
      infos := setNode s.infos q.handle { CFSNode.new with lastResumeTime := now, vruntime }
      minVruntimes :=
        match s.minVruntimes q.device with
        | some _ => s.minVruntimes
        | none => Function.update s.minVruntimes q.device (some vruntime) }

/-- mirrors sched/src/policy/cfs.cpp:70-75 -/
def selectMin (q : XQueueStatus) (s : Selection) : Selection :=
  match s.minHandles q.device with
  | none => { s with minHandles := Function.update s.minHandles q.device (some q.handle) }
  | some h =>
    if (node s.infos q.handle).vruntime < (node s.infos h).vruntime then
      { s with minHandles := Function.update s.minHandles q.device (some q.handle) }
    else s

/-- mirrors sched/src/policy/cfs.cpp:47-76 -/
def select (now : TimePoint) (s : Selection) (q : XQueueStatus) : Selection :=
  if !q.ready then s else selectMin q (admitNew now q s)

/-- The decision over one XQueue. mirrors sched/src/policy/cfs.cpp:78-100 -/
def operate (now : TimePoint) (minHandles : XDevice → Option XQueueHandle) (infos : State)
    (q : XQueueStatus) : List Callback × State :=
  let n := node infos q.handle
  if !q.ready then ([], setNode infos q.handle { n with isRunning := false })
  else if minHandles q.device = some q.handle then
    if !n.isRunning then
      ([.resume q.handle],
        setNode infos q.handle { n with isRunning := true, lastResumeTime := now })
    else ([], setNode infos q.handle { n with lastResumeTime := now })
  else ([.suspend q.handle], setNode infos q.handle { n with isRunning := false })

/-- mirrors sched/src/policy/cfs.cpp:10-106 -/
def sched (now : TimePoint) (infos : State) (xqueues : List XQueueStatus) :
    List Callback × State :=
  let infos := xqueues.foldl (charge now) infos
  let s := xqueues.foldl (select now) ⟨infos, minVruntimes infos xqueues, fun _ => none⟩
  let (calls, infos) := forEach (operate now s.minHandles) s.infos xqueues
  (calls ++ (if xqueues.any (·.ready) then [.addTimer (now + timeSlice * 1000)] else []), infos)

/-- mirrors sched/src/policy/cfs.cpp:108-124 -/
def recvHint (infos : State) : Hint → State
  | .priority handle prio =>
    setNode infos handle
      { node infos handle with priority := prio, weight := 1024 * (6 / 5) ^ prio }
  | _ => infos

abbrev policy : Policy where
  State := State
  init _ := none
  recvHint _ hint infos := recvHint infos hint
  sched clock status order infos := some (sched clock.now infos (status.inOrder order))

end CompletelyFairSchedulerPolicy

/-! ## Multi-level feedback queue -/

namespace MultiLevelFeedbackQueuePolicy

/-- Times spent are in microseconds.
mirrors sched/include/xsched/sched/policy/mlfq.h:11-27 -/
structure MLFQNode where
  priority : Nat
  isRunning : Bool
  wasReadyLastTick : Bool
  iA : TimePoint
  pA : TimePoint
  qA : TimePoint
  accumulatedPendingTime : Int
  lastPendingStart : TimePoint
  timeSliceUsed : Int
  lastResumeTime : TimePoint
  deriving DecidableEq

/-- The node of an XQueue that is met the first time.
mirrors sched/src/policy/mlfq.cpp:17-26 -/
def MLFQNode.new (now : TimePoint) : MLFQNode :=
  { priority := 0, isRunning := false, wasReadyLastTick := false, iA := now, pA := now, qA := now
    accumulatedPendingTime := 0, lastPendingStart := now, timeSliceUsed := 0
    lastResumeTime := now }

abbrev State := XQueueHandle → Option MLFQNode

def maxPriority : Nat := 3
def recoveryThreshold : Int := 100000
def defaultTick : Nat := 5000

/-- mirrors sched/include/xsched/sched/policy/mlfq.h:46-49 -/
def getTimeSlice (prio : Nat) : Int := 10000 * 2 ^ prio

/-- `i_a` and `q_a` by edge detection. mirrors sched/src/policy/mlfq.cpp:28-39 -/
def observe (now : TimePoint) (q : XQueueStatus) (n : MLFQNode) : MLFQNode :=
  let n :=
    if q.ready ∧ !n.wasReadyLastTick then { n with qA := now, lastPendingStart := now }
    else if !q.ready ∧ n.wasReadyLastTick then { n with iA := now }
    else n
  { n with wasReadyLastTick := q.ready }

def observeAll (now : TimePoint) (infos : State) (xqueues : List XQueueStatus) : State :=
  xqueues.foldl
    (fun infos q =>
      Function.update infos q.handle
        (some (observe now q ((infos q.handle).getD (.new now)))))
    infos

/-- After `observeAll` every XQueue in the status has a node. -/
def node (now : TimePoint) (infos : State) (handle : XQueueHandle) : MLFQNode :=
  (infos handle).getD (.new now)

/-- `N_count[device][prio]`: the ready XQueues of a device at a level.
mirrors sched/src/policy/mlfq.cpp:42-49 -/
def nCount (now : TimePoint) (infos : State) (xqueues : List XQueueStatus) (device : XDevice)
    (prio : Nat) : Nat :=
  xqueues.countP fun q =>
    q.ready ∧ q.device = device ∧ (node now infos q.handle).priority = prio

/-- The time waited or run since the last `Sched`.
mirrors sched/src/policy/mlfq.cpp:60-69 -/
def elapse (now : TimePoint) (n : MLFQNode) : MLFQNode :=
  if !n.isRunning then
    { n with
      accumulatedPendingTime := n.accumulatedPendingTime + sinceUs now n.lastPendingStart
      lastPendingStart := now }
  else
    { n with
      timeSliceUsed := n.timeSliceUsed + sinceUs now n.lastResumeTime
      lastResumeTime := now }

/-- `effective_time`. mirrors sched/src/policy/mlfq.cpp:71-77 -/
def effectiveTime (now : TimePoint) (count : Nat) (n : MLFQNode) : ℚ :=
  let r : ℚ := if count > 1 then 9 / 10 / count else 1
  sinceUs now n.pA - n.accumulatedPendingTime * r

/-- mirrors sched/src/policy/mlfq.cpp:79-88 -/
def recover (now : TimePoint) (count : Nat) (n : MLFQNode) : MLFQNode :=
  if effectiveTime now count n > recoveryThreshold then
    { n with
      priority := n.priority - 1
      pA := now
      accumulatedPendingTime := 0
      timeSliceUsed := 0 }
  else n

/-- mirrors sched/src/policy/mlfq.cpp:90-104 -/
def demote (now : TimePoint) (handle : XQueueHandle) (n : MLFQNode) : List Callback × MLFQNode :=
  if n.isRunning ∧ n.timeSliceUsed ≥ getTimeSlice n.priority then
    ([.suspend handle],
      { n with
        priority := if n.priority < maxPriority then n.priority + 1 else n.priority
        pA := now
        timeSliceUsed := 0
        accumulatedPendingTime := 0
        isRunning := false
        lastPendingStart := now })
  else ([], n)

/-- The counts are those of before the loop.
mirrors sched/src/policy/mlfq.cpp:51-105 -/
def account (now : TimePoint) (count : XDevice → Nat → Nat) (infos : State) (q : XQueueStatus) :
    List Callback × State :=
  if !q.ready then ([], infos)
  else
    let n := node now infos q.handle
    let n := recover now (count q.device n.priority) (elapse now n)
    let (calls, n) := demote now q.handle n
    (calls, Function.update infos q.handle (some n))

/-- `best_handles`, `best_prios`: the chosen XQueue and its level.
mirrors sched/src/policy/mlfq.cpp:107-129 -/
def bestHandles (now : TimePoint) (infos : State) (xqueues : List XQueueStatus) :
    XDevice → Option (Nat × XQueueHandle) :=
  xqueues.foldl
    (fun m q =>
      if !q.ready then m
      else
        let n := node now infos q.handle
        let best := Function.update m q.device (some (n.priority, q.handle))
        match m q.device with
        | none => best
        | some (p, h) =>
          if n.priority < p then best
          else if n.priority = p ∧
            n.accumulatedPendingTime > (node now infos h).accumulatedPendingTime then
            Function.update m q.device (some (p, q.handle))
          else m)
    fun _ => none

/-- mirrors sched/src/policy/mlfq.cpp:131-161 -/
def operate (now : TimePoint) (best : XDevice → Option (Nat × XQueueHandle)) (infos : State)
    (q : XQueueStatus) : List Callback × State :=
  let n := node now infos q.handle
  let set (n : MLFQNode) : State := Function.update infos q.handle (some n)
  if !q.ready then ([], set { n with isRunning := false })
  else if (best q.device).map Prod.snd = some q.handle then
    if !n.isRunning then
      ([.resume q.handle],
        set { n with isRunning := true, lastResumeTime := now, lastPendingStart := now })
    else ([], set { n with lastResumeTime := now })
  else if n.isRunning then
    ([.suspend q.handle], set { n with isRunning := false, lastPendingStart := now })
  else ([], infos)

/-- mirrors sched/src/policy/mlfq.cpp:7-167 -/
def sched (now : TimePoint) (infos : State) (xqueues : List XQueueStatus) :
    List Callback × State :=
  let infos := observeAll now infos xqueues
  let (demotions, infos) := forEach (account now (nCount now infos xqueues)) infos xqueues
  let (calls, infos) := forEach (operate now (bestHandles now infos xqueues)) infos xqueues
  (demotions ++ calls ++
    (if xqueues.any (·.ready) then [.addTimer (now + defaultTick * 1000)] else []), infos)

/-- Hints are ignored. mirrors sched/src/policy/mlfq.cpp:169-174 -/
abbrev policy : Policy where
  State := State
  init _ := none
  recvHint _ _ infos := infos
  sched clock status order infos := some (sched clock.now infos (status.inOrder order))

end MultiLevelFeedbackQueuePolicy

/-! ## Service levels -/

namespace SLOAdaptivePolicy

/-- mirrors sched/include/xsched/sched/policy/slo.h:13-21 -/
structure SLOQueueInfo where
  priority : Priority
  deadlineUs : Deadline
  utilization : Utilization
  vruntime : ℚ
  running : Bool
  lastResumeTime : TimePoint
  deriving DecidableEq

def SLOQueueInfo.new (now : TimePoint) : SLOQueueInfo :=
  ⟨PRIORITY_DEFAULT, NO_DEADLINE, UTILIZATION_DEFAULT, 0, false, now⟩

abbrev Infos := XQueueHandle → Option SLOQueueInfo

/-- `tick` is in microseconds. -/
structure State where
  queueInfos : Infos
  processUtils : PID → Option Utilization
  tick : Int

/-- A missing entry is made. mirrors sched/src/policy/slo.cpp:11-19 -/
def getInfo (clock : Clock) (infos : Infos) (handle : XQueueHandle) : SLOQueueInfo :=
  (infos handle).getD (.new (clock.later handle))

def setInfo (infos : Infos) (handle : XQueueHandle) (info : SLOQueueInfo) : Infos :=
  Function.update infos handle (some info)

/-- mirrors sched/src/policy/slo.cpp:21-29 -/
def getUtilization (utils : PID → Option Utilization) (q : XQueueStatus) (info : SLOQueueInfo) :
    Utilization :=
  let util := (utils q.pid).getD info.utilization
  if util < UTILIZATION_MIN then UTILIZATION_MIN
  else if util > UTILIZATION_MAX then UTILIZATION_MAX
  else util

/-- mirrors sched/src/policy/slo.cpp:31-34 -/
def isLatencySensitive (info : SLOQueueInfo) : Bool :=
  info.deadlineUs ≠ NO_DEADLINE || info.priority > PRIORITY_DEFAULT

/-- mirrors sched/src/policy/slo.cpp:36-42 -/
def getSlackUs (q : XQueueStatus) (info : SLOQueueInfo) (now : TimePoint) : WithTop ℚ :=
  if info.deadlineUs = NO_DEADLINE then ⊤
  else ((info.deadlineUs - sinceUs now q.readyTime : ℤ) : ℚ)

/-- The charge of one XQueue. mirrors sched/src/policy/slo.cpp:46-58 -/
def charge (clock : Clock) (utils : PID → Option Utilization) (infos : Infos)
    (q : XQueueStatus) : Infos :=
  let info := getInfo clock infos q.handle
  let elapsed := sinceUs clock.now info.lastResumeTime
  if !info.running ∨ elapsed ≤ 0 then setInfo infos q.handle info
  else
    let util := max (getUtilization utils q info) 1
    setInfo infos q.handle
      { info with
        vruntime := info.vruntime + elapsed * (UTILIZATION_DEFAULT / util : ℚ)
        lastResumeTime := clock.now }

/-- mirrors sched/src/policy/slo.cpp:44-59 -/
def updateRuntime (clock : Clock) (utils : PID → Option Utilization) (infos : Infos)
    (xqueues : List XQueueStatus) : Infos :=
  xqueues.foldl (charge clock utils) infos

/-- The best XQueue of each kind so far; handle 0 is none. -/
structure Best where
  urgent : XQueueHandle
  slack : WithTop ℚ
  urgentPrio : Priority
  latency : XQueueHandle
  latencyPrio : Priority
  latencySlack : WithTop ℚ
  batch : XQueueHandle
  vruntime : WithTop ℚ

/-- mirrors sched/src/policy/slo.cpp:75-102 -/
def compare (clock : Clock) (tick : Int) (infos : Infos) (b : Best) (q : XQueueStatus) : Best :=
  let info := getInfo clock infos q.handle
  let slack := getSlackUs q info clock.now
  let latencySensitive := isLatencySensitive info
  let urgent : Bool := info.deadlineUs ≠ NO_DEADLINE ∧ slack ≤ ((tick : ℚ) : WithTop ℚ)
  let b :=
    if urgent ∧ (slack < b.slack ∨ slack = b.slack ∧ info.priority > b.urgentPrio) then
      { b with urgent := q.handle, slack := slack, urgentPrio := info.priority }
    else b
  let b :=
    if latencySensitive ∧ (info.priority > b.latencyPrio ∨
      info.priority = b.latencyPrio ∧ slack < b.latencySlack) then
      { b with latency := q.handle, latencyPrio := info.priority, latencySlack := slack }
    else b
  if !latencySensitive ∧ (info.vruntime : WithTop ℚ) < b.vruntime then
    { b with batch := q.handle, vruntime := info.vruntime }
  else b

/-- mirrors sched/src/policy/slo.cpp:61-107 -/
def pickBestQueue (clock : Clock) (tick : Int) (infos : Infos) (device : XDevice)
    (xqueues : List XQueueStatus) : XQueueHandle :=
  let b := (xqueues.filter fun q => q.ready ∧ q.device = device).foldl
    (compare clock tick infos) ⟨0, ⊤, PRIORITY_MIN, 0, PRIORITY_MIN, ⊤, 0, ⊤⟩
  if b.urgent ≠ 0 then b.urgent else if b.latency ≠ 0 then b.latency else b.batch

/-- The decision over one XQueue; `chosen` is asked for devices of ready
XQueues only. mirrors sched/src/policy/slo.cpp:125-144 -/
def operate (clock : Clock) (chosen : XDevice → XQueueHandle) (infos : Infos)
    (q : XQueueStatus) : List Callback × Infos :=
  let info := getInfo clock infos q.handle
  if !q.ready then ([], setInfo infos q.handle { info with running := false })
  else if chosen q.device = q.handle then
    (if !info.running then [.resume q.handle] else [],
      setInfo infos q.handle { info with running := true, lastResumeTime := clock.now })
  else
    (if info.running ∨ !q.suspended then [.suspend q.handle] else [],
      setInfo infos q.handle { info with running := false })

/-- mirrors sched/src/policy/slo.cpp:109-147 -/
def sched (clock : Clock) (s : State) (xqueues : List XQueueStatus) : List Callback × State :=
  let infos := updateRuntime clock s.processUtils s.queueInfos xqueues
  let chosen device := pickBestQueue clock s.tick infos device xqueues
  let (calls, infos) := forEach (operate clock chosen) infos xqueues
  (calls ++ (if xqueues.any (·.ready) then [.addTimer (afterUs clock.now s.tick).toNat] else []),
    { s with queueInfos := infos })

/-- mirrors sched/src/policy/slo.cpp:149-201 -/
def recvHint (clock : Clock) (s : State) : Hint → State
  | .priority handle prio =>
    { s with
      queueInfos := setInfo s.queueInfos handle
        { getInfo clock s.queueInfos handle with
          priority := min (max prio PRIORITY_MIN) PRIORITY_MAX } }
  | .deadline handle ddl =>
    { s with
      queueInfos := setInfo s.queueInfos handle
        { getInfo clock s.queueInfos handle with deadlineUs := ddl } }
  | .utilization pid handle util =>
    let util := min (max util UTILIZATION_MIN) UTILIZATION_MAX
    let s :=
      if handle ≠ 0 then
        { s with
          queueInfos := setInfo s.queueInfos handle
            { getInfo clock s.queueInfos handle with utilization := util } }
      else s
    if pid ≠ 0 then { s with processUtils := Function.update s.processUtils pid (some util) }
    else s
  | .timeslice ts =>
    if ts ≥ TIMESLICE_MIN ∧ ts ≤ TIMESLICE_MAX then { s with tick := ts } else s
  | _ => s

abbrev policy : Policy where
  State := State
  init := ⟨fun _ => none, fun _ => none, TIMESLICE_DEFAULT⟩
  recvHint := fun clock hint s => recvHint clock s hint
  sched clock status order s := some (sched clock s (status.inOrder order))

end SLOAdaptivePolicy

/-! ## Utilization partition -/

namespace UtilizationPartitionPolicy

/-- `std::map<XQueueHandle, Utilization>`. -/
abbrev Utils := Std.ExtTreeMap XQueueHandle Utilization

/-- `curRunning` is 0 when nothing is; `timeslice` is in microseconds. -/
structure State where
  curRunning : XQueueHandle
  curEnd : Int
  utils : Utils
  timeslice : Int

/-- mirrors sched/src/policy/up.cpp:119-126 -/
def getBudget (utils : Utils) (timeslice : Int) (util : Utilization) : Int :=
  let total := utils.foldl (fun total _ util => total + util) 0
  if total = 0 then TIMESLICE_DEFAULT else (timeslice * util).tdiv total

/-- The calls and the state of a switch to an XQueue. -/
def start (clock : Clock) (s : State) (handle : XQueueHandle) (util : Utilization) : State :=
  { s with
    curRunning := handle
    curEnd := afterUs (clock.later handle) (getBudget s.utils s.timeslice util) }

/-- mirrors sched/src/policy/up.cpp:152-164 -/
def switchTo (clock : Clock) (s : State) (handle : XQueueHandle) (util : Utilization)
    (xqueues : List XQueueStatus) : List Callback × State :=
  let s := start clock s handle util
  ((xqueues.filter (·.handle ≠ handle)).map (fun q => .suspend q.handle) ++
    [.resume handle, .addTimer s.curEnd.toNat], s)

/-- One turn of the loop of `SwitchToAny`; the flag is `selected`.
mirrors sched/src/policy/up.cpp:132-149 -/
def offer (clock : Clock) (s : Bool × State) (q : XQueueStatus) :
    List Callback × Bool × State :=
  if s.1 ∨ !q.ready then ([.suspend q.handle], s)
  else
    match s.2.utils[q.handle]? with
    | none => ([.suspend q.handle], s)
    | some util =>
      let s' := start clock s.2 q.handle util
      ([.resume q.handle, .addTimer s'.curEnd.toNat], true, s')

/-- mirrors sched/src/policy/up.cpp:128-150 -/
def switchToAny (clock : Clock) (s : State) (xqueues : List XQueueStatus) :
    List Callback × State :=
  let (calls, s) := forEach (offer clock) (false, { s with curRunning := 0 }) xqueues
  (calls, s.2)

/-- A loop over part of `utils_`, for the first key that is ready; keys that
are not in the status are erased on the way.
mirrors sched/src/policy/up.cpp:52-66,68-84 -/
def firstReady (status : Status) (utils : Utils) : List XQueueHandle → Option XQueueHandle × Utils
  | [] => (none, utils)
  | h :: hs =>
    match status.xqueueStatus.lookup h with
    | none => firstReady status (utils.erase h) hs
    | some q => if q.ready then (some h, utils) else firstReady status utils hs

/-- The keys after the current one, then those before it.
mirrors sched/src/policy/up.cpp:47-87 -/
def rotate (clock : Clock) (status : Status) (s : State) (xqueues : List XQueueStatus) :
    List Callback × State :=
  let (next, utils) := firstReady status s.utils (s.utils.keys.filter (s.curRunning < ·))
  let (next, utils) :=
    match next with
    | some h => (some h, utils)
    | none => firstReady status utils (utils.keys.filter (· < s.curRunning))
  let s := { s with utils }
  match next with
  | some h => switchTo clock s h (utils[h]?.getD 0) xqueues
  | none => ([], { s with curRunning := 0 })

/-- What is left of destroyed XQueues is deleted.
mirrors sched/src/policy/up.cpp:8-22 -/
def purge (status : Status) (s : State) : State :=
  { s with
    utils := s.utils.filter fun h _ => h ∈ status.xqueueStatus
    curRunning :=
      if s.curRunning ≠ 0 ∧ s.curRunning ∉ status.xqueueStatus then 0 else s.curRunning }

/-- After `purge` the current XQueue is in the status, or it is 0.
mirrors sched/src/policy/up.cpp:6-88 -/
def sched (clock : Clock) (status : Status) (s : State) (xqueues : List XQueueStatus) :
    Option (List Callback × State) :=
  let s := purge status s
  if s.utils.isEmpty then some ([], s)
  else if s.curRunning = 0 then some (switchToAny clock s xqueues)
  else
    match status.xqueueStatus.lookup s.curRunning with
    | none =>
      if s.curRunning ∉ s.utils then none
      else some (switchToAny clock { s with utils := s.utils.erase s.curRunning } xqueues)
    | some q =>
      if clock.now < s.curEnd ∧ q.ready then some ([], s)
      else if s.curRunning ∉ s.utils then none
      else some (rotate clock status s xqueues)

/-- mirrors sched/src/policy/up.cpp:90-117 -/
def recvHint (s : State) : Hint → State
  | .utilization _ handle util =>
    if util < UTILIZATION_MIN ∨ util > UTILIZATION_MAX then s
    else { s with utils := s.utils.insert handle util }
  | .timeslice ts => { s with timeslice := ts }
  | _ => s

abbrev policy : Policy where
  State := State
  init := ⟨0, 0, ∅, TIMESLICE_DEFAULT⟩
  recvHint _ hint s := recvHint s hint
  sched clock status order s := sched clock status s (status.inOrder order)

end UtilizationPartitionPolicy
end Xsched.Sched
