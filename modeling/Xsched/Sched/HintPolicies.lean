import Mathlib.Data.Rat.Init
import Mathlib.Logic.Function.Basic
import Xsched.Sched.Policy

/-!
# The policies that remember hints

Five policies keep nothing but the hints they got: three a priority for each
XQueue (HPF, HHPF and IAH, which adds an intensity for each device), one a
deadline (KEDF) and one a laxity with two priorities (LAX). Their `Sched`
reads the hints and the status and changes neither.

HPF and HHPF differ in what a priority is compared with: the maximum over the
ready XQueues of the device, or of the system. IAH runs one XQueue per device
and lets a device run behind the highest priority when the memory traffic of
the two devices together is low. KEDF resumes the first `k` XQueues in the
order of their deadlines, with `std::sort` as a parameter (`StdSort`), for it
may leave equal keys in any order. LAX raises the priority of an XQueue from
`lax_prio` to `crit_prio` when its laxity has passed, and sets a timer for
the next one to pass.

A hint for an XQueue is stored under its handle. Nothing removes it.
-/
namespace Xsched.Sched

/-- `std::unordered_map<XQueueHandle, Priority>`. -/
abbrev Priorities := XQueueHandle → Option Priority

def clampPriority (prio : Priority) : Priority :=
  let prio := if prio < PRIORITY_MIN then PRIORITY_MIN else prio
  if prio > PRIORITY_MAX then PRIORITY_MAX else prio

/-- The `GetPriority` that HPF, HHPF and IAH each have. -/
def getPriority (priorities : Priorities) (handle : XQueueHandle) : Priority :=
  (priorities handle).getD PRIORITY_DEFAULT

/-- The handling of a `PriorityHint` that HPF, HHPF and IAH each have. -/
def recvPriority (priorities : Priorities) : Hint → Priorities
  | .priority handle prio => Function.update priorities handle (some (clampPriority prio))
  | _ => priorities

/-! ## Highest priority first -/

namespace HighestPriorityFirstPolicy

/-- `running_prio_max`: the maximum over the ready XQueues of each device. -/
def runningPrioMax (prio : XQueueHandle → Priority) (xqueues : List XQueueStatus) :
    XDevice → Option Priority :=
  xqueues.foldl
    (fun m q =>
      if !q.ready then m
      else
        match m q.device with
        | none => Function.update m q.device (some (prio q.handle))
        | some p =>
          if prio q.handle > p then Function.update m q.device (some (prio q.handle)) else m)
    fun _ => none

/-- mirrors sched/src/policy/hpf.cpp:8-42 -/
def sched (prio : XQueueHandle → Priority) (xqueues : List XQueueStatus) : List Callback :=
  let prioMax := runningPrioMax prio xqueues
  xqueues.map fun q =>
    if prio q.handle < (prioMax q.device).getD PRIORITY_MIN then .suspend q.handle
    else .resume q.handle

/-- mirrors sched/src/policy/hpf.cpp:44-68 -/
abbrev policy : Policy where
  State := Priorities
  init _ := none
  recvHint _ hint priorities := recvPriority priorities hint
  sched _ status order priorities :=
    some (sched (getPriority priorities) (status.inOrder order), priorities)

end HighestPriorityFirstPolicy

namespace HeterogeneousHighestPriorityFirstPolicy

/-- `prio_max`: the maximum over the ready XQueues of the system. -/
def prioMax (prio : XQueueHandle → Priority) (xqueues : List XQueueStatus) : Priority :=
  xqueues.foldl
    (fun m q => if !q.ready then m else if prio q.handle > m then prio q.handle else m)
    PRIORITY_MIN

/-- mirrors sched/src/policy/hhpf.cpp:8-30 -/
def sched (prio : XQueueHandle → Priority) (xqueues : List XQueueStatus) : List Callback :=
  let prioMax := prioMax prio xqueues
  xqueues.map fun q =>
    if prio q.handle < prioMax then .suspend q.handle else .resume q.handle

/-- mirrors sched/src/policy/hhpf.cpp:32-56 -/
abbrev policy : Policy where
  State := Priorities
  init _ := none
  recvHint _ hint priorities := recvPriority priorities hint
  sched _ status order priorities :=
    some (sched (getPriority priorities) (status.inOrder order), priorities)

end HeterogeneousHighestPriorityFirstPolicy

/-! ## Interference-aware -/

namespace InterferenceAwareHeterogeneousPolicy

def kIntensityDefault : ℚ := 1 / 2
def kIntensityThreshold : ℚ := 6 / 5

structure State where
  priorities : Priorities
  deviceIntensities : XDevice → Option ℚ

/-- mirrors sched/src/policy/iah.cpp:119-124 -/
def getDeviceIntensity (intensities : XDevice → Option ℚ) (device : XDevice) : ℚ :=
  (intensities device).getD kIntensityDefault

/-- mirrors sched/src/policy/iah.cpp:126-133 -/
def isHighInterference (intensities : XDevice → Option ℚ) (devA devB : XDevice) : Bool :=
  if devA = devB then true
  else getDeviceIntensity intensities devA + getDeviceIntensity intensities devB >
    kIntensityThreshold

/-- `global_max_prio` and `global_max_device`, with the first XQueue that has
the maximum. mirrors sched/src/policy/iah.cpp:11-21 -/
def globalMax (prio : XQueueHandle → Priority) (xqueues : List XQueueStatus) :
    Priority × XDevice :=
  xqueues.foldl
    (fun m q =>
      if !q.ready then m
      else if prio q.handle > m.1 then (prio q.handle, q.device) else m)
    (PRIORITY_MIN, 0)

/-- `device_max_prio` and `device_best_handle`, which have the same keys.
mirrors sched/src/policy/iah.cpp:23-37 -/
def deviceBest (prio : XQueueHandle → Priority) (xqueues : List XQueueStatus) :
    XDevice → Option (Priority × XQueueHandle) :=
  xqueues.foldl
    (fun m q =>
      if !q.ready then m
      else
        match m q.device with
        | none => Function.update m q.device (some (prio q.handle, q.handle))
        | some (p, _) =>
          if prio q.handle > p then Function.update m q.device (some (prio q.handle, q.handle))
          else m)
    fun _ => none

/-- `should_run`. mirrors sched/src/policy/iah.cpp:47-65 -/
def shouldRun (prio : XQueueHandle → Priority) (intensities : XDevice → Option ℚ)
    (globalMax : Priority × XDevice) (best : XDevice → Option (Priority × XQueueHandle))
    (q : XQueueStatus) : Bool :=
  match best q.device with
  | none => false
  | some (_, handle) =>
    if handle ≠ q.handle then false
    else if prio q.handle ≥ globalMax.1 then true
    else if globalMax.2 = q.device then false
    else !isHighInterference intensities q.device globalMax.2

/-- An XQueue that is not ready gets no decision.
mirrors sched/src/policy/iah.cpp:9-73 -/
def sched (prio : XQueueHandle → Priority) (intensities : XDevice → Option ℚ)
    (xqueues : List XQueueStatus) : List Callback :=
  let globalMax := globalMax prio xqueues
  let best := deviceBest prio xqueues
  (xqueues.filter (·.ready)).map fun q =>
    if shouldRun prio intensities globalMax best q then .resume q.handle else .suspend q.handle

def clampIntensity (intensity : ℚ) : ℚ :=
  let intensity := if intensity < 0 then 0 else intensity
  if intensity > 1 then 1 else intensity

/-- mirrors sched/src/policy/iah.cpp:75-110 -/
def recvHint (s : State) (hint : Hint) : State :=
  match hint with
  | .priority _ _ => { s with priorities := recvPriority s.priorities hint }
  | .memoryIntensity device intensity =>
    { s with
      deviceIntensities :=
        Function.update s.deviceIntensities device (some (clampIntensity intensity)) }
  | _ => s

abbrev policy : Policy where
  State := State
  init := ⟨fun _ => none, fun _ => none⟩
  recvHint _ hint s := recvHint s hint
  sched _ status order s :=
    some (sched (getPriority s.priorities) s.deviceIntensities (status.inOrder order), s)

end InterferenceAwareHeterogeneousPolicy

/-! ## Earliest deadline first -/

/-- mirrors sched/include/xsched/sched/policy/kedf.h:12-16 -/
structure DeadlineEntry where
  xqueue : XQueueHandle
  deadline : Int
  deriving DecidableEq

/-- `std::sort` by deadline: some permutation of its input in order. -/
structure StdSort where
  sort : List DeadlineEntry → List DeadlineEntry
  perm : ∀ ddls, (sort ddls).Perm ddls
  sorted : ∀ ddls, (sort ddls).Pairwise fun a b => a.deadline ≤ b.deadline

namespace KEarliestDeadlineFirstPolicy

structure State where
  k : Nat
  deadlines : XQueueHandle → Option Deadline

/-- mirrors sched/src/policy/kedf.cpp:16-32 -/
def entry (deadlines : XQueueHandle → Option Deadline) (q : XQueueStatus) : DeadlineEntry :=
  if !q.ready then ⟨q.handle, timePointMax⟩
  else
    match deadlines q.handle with
    | none => ⟨q.handle, timePointMax⟩
    | some ddl => ⟨q.handle, afterHintUs q.readyTime ddl⟩

/-- mirrors sched/src/policy/kedf.cpp:10-48 -/
def sched (sort : StdSort) (s : State) (xqueues : List XQueueStatus) : List Callback :=
  let ddls := sort.sort (xqueues.map (entry s.deadlines))
  (ddls.take s.k).map (fun d => .resume d.xqueue) ++
    (ddls.drop s.k).map fun d => .suspend d.xqueue

/-- mirrors sched/src/policy/kedf.cpp:50-78 -/
def recvHint (s : State) : Hint → State
  | .deadline handle ddl =>
    { s with deadlines := Function.update s.deadlines handle (some ddl) }
  | .kDeadline k => if k < 1 then s else { s with k }
  | _ => s

abbrev policy (sort : StdSort) : Policy where
  State := State
  init := ⟨1, fun _ => none⟩
  recvHint _ hint s := recvHint s hint
  sched _ status order s := some (sched sort s (status.inOrder order), s)

end KEarliestDeadlineFirstPolicy

/-! ## Laxity -/

namespace LaxityPolicy

/-- mirrors sched/include/xsched/sched/policy/lax.h:22-27 -/
structure LaxityInfo where
  lax : Laxity
  laxPrio : Priority
  critPrio : Priority
  deriving DecidableEq

abbrev State := XQueueHandle → Option LaxityInfo

/-- `highest_prio`, `has_laxity` and `earliest_laxity`. -/
structure Search where
  highestPrio : Priority
  hasLaxity : Bool
  earliestLaxity : Int

/-- mirrors sched/src/policy/lax.cpp:16-35 -/
def visit (current : TimePoint) (infos : State) (m : Search) (q : XQueueStatus) : Search :=
  if !q.ready then m
  else
    match infos q.handle with
    | none =>
      if PRIORITY_DEFAULT > m.highestPrio then { m with highestPrio := PRIORITY_DEFAULT } else m
    | some info =>
      let laxity := afterHintUs q.readyTime info.lax
      let prio := if current < laxity then info.laxPrio else info.critPrio
      let m := if prio > m.highestPrio then { m with highestPrio := prio } else m
      if current < laxity ∧ laxity < m.earliestLaxity then
        { m with hasLaxity := true, earliestLaxity := laxity }
      else m

def search (current : TimePoint) (infos : State) (xqueues : List XQueueStatus) : Search :=
  xqueues.foldl (visit current infos) ⟨PRIORITY_MIN, false, timePointMax⟩

/-- The priority that decides over an XQueue.
mirrors sched/src/policy/lax.cpp:39-47 -/
def priority (current : TimePoint) (infos : State) (q : XQueueStatus) : Priority :=
  match infos q.handle with
  | none => PRIORITY_DEFAULT
  | some info =>
    if !q.ready ∨ current < afterHintUs q.readyTime info.lax then info.laxPrio else info.critPrio

/-- mirrors sched/src/policy/lax.cpp:8-56 -/
def sched (current : TimePoint) (infos : State) (xqueues : List XQueueStatus) :
    List Callback :=
  let m := search current infos xqueues
  xqueues.map (fun q =>
      if priority current infos q < m.highestPrio then .suspend q.handle
      else .resume q.handle) ++
    if m.hasLaxity then [.addTimer m.earliestLaxity.toNat] else []

/-- mirrors sched/src/policy/lax.cpp:58-72 -/
def recvHint (infos : State) : Hint → State
  | .laxity handle lax laxPrio critPrio =>
    Function.update infos handle (some ⟨if lax < 0 then NO_LAXITY else lax, laxPrio, critPrio⟩)
  | _ => infos

abbrev policy : Policy where
  State := State
  init _ := none
  recvHint _ hint infos := recvHint infos hint
  sched clock status order infos := some (sched clock.now infos (status.inOrder order), infos)

end LaxityPolicy
end Xsched.Sched
