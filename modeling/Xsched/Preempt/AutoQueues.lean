import Xsched.Preempt.Managers
import Xsched.Sched.Config
import Xsched.Sched.Policy

/-!
# Queues that are created for streams

With `XSCHED_AUTO_XQUEUE` set, the shims make an HwQueue and an XQueue for every
stream that the application creates (`XQueueManager::AutoCreate`), and those of HIP, CUDA
and Level Zero destroy both with the stream (`AutoDestroy`). The shims of VPI, cuDLA
and Ascend hand the destruction of a stream to the driver as it is. The shim of CUDA
looks for an XQueue first, and makes one at the first use of a stream where the
creation has made none; the creations here are those of the other shims.

The handle of an HwQueue is made from the address of the stream, and the driver uses an
address again. An HwQueue object is made for one stream; which it is, `made` says.

Each call runs alone here. What it does to the maps is what the steps of `Managers` do,
one after another (`runXq`, `runHw`), so a run of calls is a run of `Managers` and has
its invariant.

**The end of the process.** `SetLaunchConfig` asserts that the batch size is not above
the threshold. Where only one of them is in the environment it is compared with the
default of the other, so that a threshold of 4 alone ends the process at the first
creation: a step that is none.

**The break.** `AutoDestroy` does not reach `HwQueueDestroy` when there is no XQueue,
which is so for every stream when the level in the environment is none.

**Results**
* `fresh_iff`: in every run, the map of HwQueues has those of living streams only, if and
  only if the queues are not created at all, or the shim calls `AutoDestroy` and the
  level is valid, or no stream is destroyed.
* `served`: in the second case, with a launch configuration that passes the assertion,
  every living stream has its HwQueue with an XQueue, which are in the maps with nothing
  else, each XQueue got what the environment says once, and every further creation
  succeeds.
-/
namespace Xsched.Preempt.AutoQueues
open Function (update)
open Sched (XQueueHandle Hint)
open Managers (HwQueueHandle HwQueue XQueue addAllowed)

/-! ## The environment -/

/-- `getenv` of `XSCHED_AUTO_XQUEUE`, and `GetEnvInt64` of the other variables: `none`, if
one is not set or is no number. -/
structure AutoEnv where
  env : Option (List Char)
  level : Option Int
  threshold : Option Int
  batchSize : Option Int
  priority : Option Int
  utilization : Option Int
  timeslice : Option Int
  deadline : Option Int
  kDeadline : Option Int
  laxity : Option Int

/-- mirrors preempt/src/xqueue/xqueue.cpp:117-122 -/
def AutoEnv.autoXQueue (env : AutoEnv) : Bool :=
  match env.env with
  | none => false
  | some env => !(env = [] || env = ['0'] || env.map Char.toLower = ['o', 'f', 'f'])

def XSCHED_DEFAULT_PREEMPT_LEVEL : Sched.XPreemptLevel := 1

/-- `(int32_t)val` -/
def toInt32 (val : Int) : Int := (BitVec.ofInt 32 val).toInt

/-- What an XQueue is told after it was created. -/
inductive Setting where
  | launchConfig (xq : XQueueHandle) (threshold batchSize : Int)
  | hint (hint : Hint)

/-- The level of an XQueue; the enumeration is unsigned.
mirrors preempt/src/xqueue/xqueue.cpp:131-136 -/
def autoLevel (env : AutoEnv) : Sched.XPreemptLevel :=
  match env.level with
  | none => XSCHED_DEFAULT_PREEMPT_LEVEL
  | some val => ((BitVec.ofInt 32 val).toNat : Int)

/-- The assertion of `SetLaunchConfig` passes for a new XQueue; one that is found had
the same values set when it was new. mirrors preempt/src/xqueue/async_xqueue.cpp:185-208 -/
def launchConfigValid (env : AutoEnv) : Bool :=
  ((Sched.XQueueConfig.new 0 (autoLevel env) false 0).setLaunchConfig (env.threshold.getD (-1))
    (env.batchSize.getD (-1))).isSome

/-- `XQueueSetLaunchConfig` and the hints, in this order; `pid` is the process.
mirrors preempt/src/xqueue/xqueue.cpp:147-226 -/
def settings (env : AutoEnv) (pid : Sched.PID) (xq : XQueueHandle) : List Setting :=
  let threshold := env.threshold.getD (-1)
  let batchSize := env.batchSize.getD (-1)
  let priority := env.priority.getD Sched.PRIORITY_DEFAULT
  (if (env.threshold.isSome ∨ env.batchSize.isSome) ∧ ¬ (threshold ≤ 0 ∧ batchSize ≤ 0)
    then [.launchConfig xq threshold batchSize] else []) ++
  (env.priority.toList.map fun val => .hint (.priority xq (toInt32 val))) ++
  (env.utilization.toList.map fun val => .hint (.utilization pid xq (toInt32 val))) ++
  (env.timeslice.toList.map fun val => .hint (.timeslice val)) ++
  (env.deadline.toList.map fun val => .hint (.deadline xq val)) ++
  -- `size_t k`
  (env.kDeadline.toList.map fun val => .hint (.kDeadline (BitVec.ofInt 64 val).toNat)) ++
  (env.laxity.toList.map fun val =>
    .hint (.laxity xq val Sched.PRIORITY_DEFAULT (toInt32 priority)))

/-! ## Calls that run alone -/

/-- The rest of a call of `XQueueManager`; `xh` is the address of a new XQueue. -/
def runXq : Nat → XQueueHandle → Managers → Option Managers
  | 0, _, m => if m.xqRegion.isSome then none else some m
  | n + 1, xh, m =>
    if m.xqRegion.isSome then (Managers.step m (.xqStep xh)).bind (runXq n xh) else some m

/-- The rest of a call of `HwQueueManager`. -/
def runHw : Nat → Managers → Option Managers
  | 0, m => if m.hwRegion.isSome then none else some m
  | n + 1, m => if m.hwRegion.isSome then (Managers.step m .hwStep).bind (runHw n) else some m

def xQueueCreate (hwq : HwQueueHandle) (level : Sched.XPreemptLevel) (xh : XQueueHandle)
    (m : Managers) : Option Managers :=
  (Managers.step m (.xqAdd hwq level 0)).bind (runXq 5 xh)

def xQueueDestroy (xq : XQueueHandle) (m : Managers) : Option Managers :=
  (Managers.step m (.xqDel xq)).bind (runXq 2 0)

def hwQueueDestroy (hwq : HwQueueHandle) (m : Managers) : Option Managers :=
  (Managers.step m (.hwDel hwq)).bind (runHw 2)

/-- mirrors preempt/src/hal/hw_queue.cpp:51-64 -/
def getXQueue (m : Managers) (hwq : HwQueueHandle) : Option XQueue := (m.hwqs hwq).bind m.xq

/-- Whether the platform's shim calls `AutoDestroy` when a stream is destroyed. -/
structure Config where
  env : AutoEnv
  pid : Sched.PID
  autoDestroys : Bool

def Config.levelValid (cfg : Config) : Bool := addAllowed (autoLevel cfg.env) 0

/-- `none`: the process ends. The `create_hwq` of the shims fails for no stream of the
driver. mirrors preempt/src/xqueue/xqueue.cpp:115-229 -/
def autoCreate (cfg : Config) (hwq : HwQueueHandle) (xh : XQueueHandle) (m : Managers) :
    Option (Managers × List Setting) :=
  if !cfg.env.autoXQueue then some (m, [])
  else do
    let m ← Managers.step m (.hwAdd hwq true)
    let m ← xQueueCreate hwq (autoLevel cfg.env) xh m
    -- the level is refused, or there is an XQueue now
    if !cfg.levelValid then some (m, [])
    else
      match getXQueue m hwq with
      | none => some (m, [])
      | some x =>
        if launchConfigValid cfg.env then some (m, settings cfg.env cfg.pid (m.kHandle x))
        else none

/-- mirrors preempt/src/xqueue/xqueue.cpp:231-259 -/
def autoDestroy (cfg : Config) (hwq : HwQueueHandle) (m : Managers) : Option Managers :=
  if !cfg.env.autoXQueue then some m
  else
    match getXQueue m hwq with
    | none => some m
    | some x => do
      let m ← xQueueDestroy (m.kHandle x) m
      hwQueueDestroy hwq m

/-! ## Streams -/

/-- A stream of the driver. -/
abbrev Stream := Nat

structure Streams where
  managers : Managers
  /-- The living streams by the handles of their HwQueues. -/
  live : HwQueueHandle → Option Stream
  next : Stream
  /-- The stream that an HwQueue object was made for. -/
  made : HwQueue → Stream
  settings : List Setting

inductive Act where
  /-- `XStreamCreate`: the driver picks the address; `xh` is that of a new XQueue. -/
  | create (hwq : HwQueueHandle) (xh : XQueueHandle)
  /-- `XStreamDestroy` -/
  | destroy (hwq : HwQueueHandle)
  deriving DecidableEq

def Act.destroys : Act → Bool
  | .destroy _ => true
  | .create _ _ => false

def init : Streams where
  managers := Managers.init
  live _ := none
  next := 0
  made _ := 0
  settings := []

/-- mirrors platforms/hip/shim/src/shim.cpp:288-320 and, without `AutoDestroy`,
platforms/vpi/shim/src/shim.cpp:57-64 -/
def step (cfg : Config) (s : Streams) : Act → Option Streams
  | .create hwq xh =>
    -- no address of a living stream
    if (s.live hwq).isSome then none
    else
      (autoCreate cfg hwq xh s.managers).map fun (m, settings) =>
        { managers := m, live := update s.live hwq (some s.next), next := s.next + 1,
          made := update s.made s.managers.nextHw s.next, settings := s.settings ++ settings }
  | .destroy hwq =>
    if (s.live hwq).isNone then none
    else
      (if cfg.autoDestroys then autoDestroy cfg hwq s.managers else some s.managers).map fun m =>
        { s with managers := m, live := update s.live hwq none }

/-! ## What the calls do -/

/-- Nobody is in a call. -/
structure Free (m : Managers) : Prop where
  xq : m.xqRegion = none
  hw : m.hwRegion = none
  running : m.aborted = false

section
variable {m : Managers} {hwq : HwQueueHandle} {xh : XQueueHandle} {level : Sched.XPreemptLevel}

theorem xQueueCreate_refused (hf : Free m) (hlevel : addAllowed level 0 = false) :
    xQueueCreate hwq level xh m = some m := by
  simp [xQueueCreate, Managers.step, hlevel, runXq, hf.xq]

/-- The maps with a new XQueue of `w` at the address `xh`. -/
def created (w : HwQueue) (xh : XQueueHandle) (m : Managers) : Managers :=
  { m with kHandle := update m.kHandle m.nextXq xh, kHwQueue := update m.kHwQueue m.nextXq w,
           xq := update m.xq w (some m.nextXq), xqs := update m.xqs xh (some m.nextXq),
           nextXq := m.nextXq + 1 }

theorem xQueueCreate_new (hf : Free m) (hlevel : addAllowed level 0 = true) {w : HwQueue}
    (hw : m.hwqs hwq = some w) (hx : m.xq w = none) (hxh : m.xqs xh = none) :
    xQueueCreate hwq level xh m = some (created w xh m) := by
  obtain ⟨hxq, hhw, hrun⟩ := hf
  simp [xQueueCreate, Managers.step, hlevel, runXq, hxq, hhw, hrun, Managers.xqStep, hw, hx, hxh,
    created]

theorem xQueueCreate_found (hf : Free m) (hlevel : addAllowed level 0 = true) {w : HwQueue}
    {x : XQueue} (hw : m.hwqs hwq = some w) (hx : m.xq w = some x)
    (hin : m.xqs (m.kHandle x) = some x) : xQueueCreate hwq level xh m = some m := by
  obtain ⟨hxq, hhw, hrun⟩ := hf
  have hback : { m with xqRegion := none, hwRegion := none, aborted := false } = m := by
    cases m
    simp_all only
  simp [xQueueCreate, Managers.step, hlevel, runXq, hxq, hhw, hrun, Managers.xqStep, hw, hx, hin,
    hback]

/-- A new XQueue has an address that is free. -/
theorem xQueueCreate_free {m' : Managers} (hf : Free m) (hlevel : addAllowed level 0 = true)
    {w : HwQueue} (hw : m.hwqs hwq = some w) (hx : m.xq w = none)
    (hs : xQueueCreate hwq level xh m = some m') : m.xqs xh = none := by
  obtain ⟨hxq, hhw, hrun⟩ := hf
  by_contra hxh
  rw [← Option.isNone_iff_eq_none, Bool.not_eq_true, Option.isNone_eq_false_iff] at hxh
  simp [xQueueCreate, Managers.step, hlevel, runXq, hxq, hhw, hrun, Managers.xqStep, hw, hx,
    hxh] at hs

/-- The maps without the XQueue `x`. -/
def destroyed (x : XQueue) (m : Managers) : Managers :=
  { m with xq := update m.xq (m.kHwQueue x) none, xqs := update m.xqs (m.kHandle x) none }

theorem xQueueDestroy_found (hf : Free m) {x : XQueue} (hin : m.xqs (m.kHandle x) = some x) :
    xQueueDestroy (m.kHandle x) m = some (destroyed x m) := by
  obtain ⟨hxq, hhw, hrun⟩ := hf
  simp [xQueueDestroy, Managers.step, runXq, hxq, hrun, Managers.xqStep, hin, destroyed]

theorem hwQueueDestroy_found (hf : Free m) {w : HwQueue} (hw : m.hwqs hwq = some w)
    (hx : m.xq w = none) :
    hwQueueDestroy hwq m = some { m with hwqs := update m.hwqs hwq none } := by
  obtain ⟨hxq, hhw, hrun⟩ := hf
  simp [hwQueueDestroy, Managers.step, runHw, hhw, Managers.hwStep, hw, hx]

end

/-! ## Runs of the managers -/

section
variable {m m' : Managers} {xh : XQueueHandle}

theorem reachable_runXq {n : Nat} (hr : Managers.lts.Reachable m)
    (hs : runXq n xh m = some m') : Managers.lts.Reachable m' := by
  induction n generalizing m with
  | zero =>
    obtain ⟨-, hs⟩ := Option.ite_none_left_eq_some.1 hs
    cases hs
    exact hr
  | succ n ih =>
    rw [runXq] at hs
    split at hs
    · obtain ⟨m₁, h₁, hs⟩ := Option.bind_eq_some_iff.1 hs
      exact ih (hr.step h₁) hs
    · cases hs
      exact hr

theorem reachable_runHw {n : Nat} (hr : Managers.lts.Reachable m) (hs : runHw n m = some m') :
    Managers.lts.Reachable m' := by
  induction n generalizing m with
  | zero =>
    obtain ⟨-, hs⟩ := Option.ite_none_left_eq_some.1 hs
    cases hs
    exact hr
  | succ n ih =>
    rw [runHw] at hs
    split at hs
    · obtain ⟨m₁, h₁, hs⟩ := Option.bind_eq_some_iff.1 hs
      exact ih (hr.step h₁) hs
    · cases hs
      exact hr

theorem reachable_xQueueCreate {hwq : HwQueueHandle} {level : Sched.XPreemptLevel}
    (hr : Managers.lts.Reachable m) (hs : xQueueCreate hwq level xh m = some m') :
    Managers.lts.Reachable m' := by
  obtain ⟨m₁, h₁, hs⟩ := Option.bind_eq_some_iff.1 hs
  exact reachable_runXq (hr.step h₁) hs

theorem reachable_xQueueDestroy (hr : Managers.lts.Reachable m)
    (hs : xQueueDestroy xh m = some m') : Managers.lts.Reachable m' := by
  obtain ⟨m₁, h₁, hs⟩ := Option.bind_eq_some_iff.1 hs
  exact reachable_runXq (hr.step h₁) hs

theorem reachable_hwQueueDestroy {hwq : HwQueueHandle} (hr : Managers.lts.Reachable m)
    (hs : hwQueueDestroy hwq m = some m') : Managers.lts.Reachable m' := by
  obtain ⟨m₁, h₁, hs⟩ := Option.bind_eq_some_iff.1 hs
  exact reachable_runHw (hr.step h₁) hs

end

/-! ## What a step can do -/

/-- What `AutoCreate` makes of the maps, and what it tells the XQueue. -/
inductive Creates (cfg : Config) (hwq : HwQueueHandle) (xh : XQueueHandle) (m : Managers) :
    Managers → List Setting → Prop where
  | off (hoff : cfg.env.autoXQueue = false) : Creates cfg hwq xh m m []
  | refused (hon : cfg.env.autoXQueue = true) (hlevel : cfg.levelValid = false) :
      Creates cfg hwq xh m (m.hwAdd hwq true) []
  | new (hon : cfg.env.autoXQueue = true) (hlevel : cfg.levelValid = true)
      (hnone : m.hwqs hwq = none) (hxh : m.xqs xh = none) :
      Creates cfg hwq xh m (created m.nextHw xh (m.hwAdd hwq true)) (settings cfg.env cfg.pid xh)
  /-- The HwQueue is that of a stream that is gone. -/
  | found (hon : cfg.env.autoXQueue = true) (hlevel : cfg.levelValid = true) {w : HwQueue}
      {x : XQueue} (hw : m.hwqs hwq = some w) (hx : m.xq w = some x) :
      Creates cfg hwq xh m m (settings cfg.env cfg.pid (m.kHandle x))

/-- What is made of the maps when a stream is destroyed. -/
inductive Destroys (cfg : Config) (hwq : HwQueueHandle) (m : Managers) : Managers → Prop where
  | kept (hkept : cfg.env.autoXQueue = false ∨ cfg.autoDestroys = false ∨
      cfg.levelValid = false) : Destroys cfg hwq m m
  | both (hon : cfg.env.autoXQueue = true) (hauto : cfg.autoDestroys = true)
      (hlevel : cfg.levelValid = true) {w : HwQueue} {x : XQueue} (hw : m.hwqs hwq = some w)
      (hx : m.xq w = some x) :
      Destroys cfg hwq m { destroyed x m with hwqs := update m.hwqs hwq none }

/-- The maps between two calls: without the variable no HwQueue is made, with a valid
level an HwQueue has an XQueue, and without one none has. -/
structure MapsOk (cfg : Config) (m : Managers) : Prop where
  reachable : Managers.lts.Reachable m
  free : Free m
  off : cfg.env.autoXQueue = false → ∀ h, m.hwqs h = none
  unset : cfg.levelValid = false → ∀ w, m.xq w = none
  has : cfg.levelValid = true → ∀ h w, m.hwqs h = some w → ∃ x, m.xq w = some x
  registered : m.Registered

/-- Nothing takes the HwQueue of a living stream out of the map. -/
structure Inv (cfg : Config) (s : Streams) : Prop where
  maps : MapsOk cfg s.managers
  kept : cfg.env.autoXQueue = true → ∀ h t, s.live h = some t → ∃ w, s.managers.hwqs h = some w

section
variable {cfg : Config} {s s' : Streams} {hwq : HwQueueHandle} {xh : XQueueHandle}

theorem MapsOk.inv {m : Managers} (hm : MapsOk cfg m) : m.Inv :=
  Managers.inv_reachable hm.reachable

/-- The XQueue of an HwQueue is in the map. -/
theorem MapsOk.in_xqs {m : Managers} (hm : MapsOk cfg m) {w : HwQueue} {x : XQueue}
    (hx : m.xq w = some x) : m.xqs (m.kHandle x) = some x ∧ m.kHwQueue x = w := by
  obtain ⟨-, hw, hin⟩ := hm.inv.back w x hx
  exact ⟨hin.resolve_right (Managers.whole_of_free hm.free.xq x).1, hw⟩

theorem step_hwAdd {m : Managers} (hf : Free m) :
    Managers.step m (.hwAdd hwq true) = some (m.hwAdd hwq true) := by
  simp [Managers.step, hf.hw]

theorem hwAdd_new {m : Managers} (hnone : m.hwqs hwq = none) :
    m.hwAdd hwq true =
      { m with hwqs := update m.hwqs hwq (some m.nextHw),
               hwHandle := update m.hwHandle m.nextHw hwq, nextHw := m.nextHw + 1 } := by
  simp [Managers.hwAdd, hnone]

theorem hwAdd_found {m : Managers} {w : HwQueue} (hw : m.hwqs hwq = some w) :
    m.hwAdd hwq true = m := by simp [Managers.hwAdd, hw]

theorem free_hwAdd {m : Managers} (hf : Free m) : Free (m.hwAdd hwq true) := by
  obtain ⟨hxq, hhw, hrun⟩ := hf
  unfold Managers.hwAdd
  split <;> exact ⟨hxq, hhw, hrun⟩

theorem autoCreate_cases {m m' : Managers} (hm : MapsOk cfg m) {set : List Setting}
    (hs : autoCreate cfg hwq xh m = some (m', set)) : Creates cfg hwq xh m m' set := by
  have hf := hm.free
  have hf₁ : Free (m.hwAdd hwq true) := free_hwAdd hf
  unfold autoCreate at hs
  split at hs
  · rename_i hoff
    cases hs
    exact .off (by simpa using hoff)
  · rename_i hon
    have hon : cfg.env.autoXQueue = true := by simpa using hon
    obtain ⟨m₁, h₁, hs⟩ := Option.bind_eq_some_iff.1 hs
    cases (step_hwAdd hf).symm.trans h₁
    obtain ⟨m₂, h₂, hs⟩ := Option.bind_eq_some_iff.1 hs
    cases hlevel : cfg.levelValid with
    | false =>
      cases (xQueueCreate_refused hf₁ hlevel).symm.trans h₂
      rw [hlevel] at hs
      cases hs
      exact .refused hon hlevel
    | true =>
      simp only [hlevel, Bool.not_true, Bool.false_eq_true, if_false] at hs
      cases hw : m.hwqs hwq with
      | some w =>
        obtain ⟨x, hx⟩ := hm.has hlevel _ _ hw
        rw [hwAdd_found hw, xQueueCreate_found hf hlevel hw hx (hm.in_xqs hx).1] at h₂
        cases h₂
        simp only [getXQueue, hw, Option.bind_some, hx] at hs
        obtain ⟨-, hs⟩ := Option.ite_none_right_eq_some.1 hs
        cases hs
        exact .found hon hlevel hw hx
      | none =>
        have hw₁ : (m.hwAdd hwq true).hwqs hwq = some m.nextHw := by
          rw [hwAdd_new hw]
          exact Function.update_self ..
        have hx₁ : (m.hwAdd hwq true).xq m.nextHw = none := by
          rw [hwAdd_new hw]
          exact hm.inv.unused _ (Nat.le_refl _)
        have hxh := xQueueCreate_free hf₁ hlevel hw₁ hx₁ h₂
        rw [xQueueCreate_new hf₁ hlevel hw₁ hx₁ hxh] at h₂
        cases h₂
        simp only [getXQueue, created, hw₁, Option.bind_some, Function.update_self] at hs
        obtain ⟨-, hs⟩ := Option.ite_none_right_eq_some.1 hs
        cases hs
        rw [hwAdd_new hw] at hxh
        exact .new hon hlevel hw hxh

theorem autoDestroy_cases {m m' : Managers} (hm : MapsOk cfg m)
    (hkept : cfg.env.autoXQueue = true → ∃ w, m.hwqs hwq = some w)
    (hs : (if cfg.autoDestroys then autoDestroy cfg hwq m else some m) = some m') :
    Destroys cfg hwq m m' := by
  split at hs
  · rename_i hauto
    unfold autoDestroy at hs
    split at hs
    · rename_i hoff
      cases hs
      exact .kept (.inl (by simpa using hoff))
    · rename_i hon
      have hon : cfg.env.autoXQueue = true := by simpa using hon
      obtain ⟨w, hw⟩ := hkept hon
      cases hlevel : cfg.levelValid with
      | false =>
        simp only [getXQueue, hw, Option.bind_some, hm.unset hlevel w] at hs
        cases hs
        exact .kept (.inr (.inr hlevel))
      | true =>
        obtain ⟨x, hx⟩ := hm.has hlevel _ _ hw
        obtain ⟨hin, hback⟩ := hm.in_xqs hx
        simp only [getXQueue, hw, Option.bind_some, hx] at hs
        obtain ⟨m₁, h₁, hs⟩ := Option.bind_eq_some_iff.1 hs
        cases (xQueueDestroy_found hm.free hin).symm.trans h₁
        have hf₁ : Free (destroyed x m) := ⟨hm.free.xq, hm.free.hw, hm.free.running⟩
        have hx₁ : (destroyed x m).xq w = none := by
          rw [← hback]
          exact Function.update_self ..
        have hdestroy : hwQueueDestroy hwq (destroyed x m) =
            some { destroyed x m with hwqs := update m.hwqs hwq none } :=
          hwQueueDestroy_found hf₁ hw hx₁
        cases hdestroy.symm.trans hs
        exact .both hon hauto hlevel hw hx
  · rename_i hauto
    cases hs
    exact .kept (.inr (.inl (by simpa using hauto)))

/-- What a step can do. -/
inductive StepCases (cfg : Config) (s : Streams) : Act → Streams → Prop where
  | create {hwq : HwQueueHandle} {xh : XQueueHandle} {m : Managers} {set : List Setting}
      (dead : s.live hwq = none) (hm : Creates cfg hwq xh s.managers m set) :
      StepCases cfg s (.create hwq xh)
        { managers := m, live := update s.live hwq (some s.next), next := s.next + 1,
          made := update s.made s.managers.nextHw s.next, settings := s.settings ++ set }
  | destroy {hwq : HwQueueHandle} {t : Stream} {m : Managers} (alive : s.live hwq = some t)
      (hm : Destroys cfg hwq s.managers m) :
      StepCases cfg s (.destroy hwq) { s with managers := m, live := update s.live hwq none }

theorem step_cases (hi : Inv cfg s) {act : Act} (hs : step cfg s act = some s') :
    StepCases cfg s act s' := by
  cases act with
  | create hwq xh =>
    obtain ⟨hdead, hs⟩ := Option.ite_none_left_eq_some.1 hs
    obtain ⟨⟨m, set⟩, hm, rfl⟩ := Option.map_eq_some_iff.1 hs
    exact .create (by simpa using hdead) (autoCreate_cases hi.maps hm)
  | destroy hwq =>
    obtain ⟨halive, hs⟩ := Option.ite_none_left_eq_some.1 hs
    obtain ⟨m, hm, rfl⟩ := Option.map_eq_some_iff.1 hs
    obtain ⟨t, ht⟩ := Option.ne_none_iff_exists'.1 (by simpa using halive)
    exact .destroy ht (autoDestroy_cases hi.maps (fun hon => hi.kept hon _ _ ht) hm)

/-! ## The invariant -/

theorem reachable_autoCreate {m m' : Managers} (hr : Managers.lts.Reachable m)
    {set : List Setting} (hs : autoCreate cfg hwq xh m = some (m', set)) :
    Managers.lts.Reachable m' := by
  unfold autoCreate at hs
  split at hs
  · cases hs
    exact hr
  · obtain ⟨m₁, h₁, hs⟩ := Option.bind_eq_some_iff.1 hs
    obtain ⟨m₂, h₂, hs⟩ := Option.bind_eq_some_iff.1 hs
    have hr₂ := reachable_xQueueCreate (hr.step h₁) h₂
    split at hs
    · cases hs
      exact hr₂
    · split at hs
      · cases hs
        exact hr₂
      · obtain ⟨-, hs⟩ := Option.ite_none_right_eq_some.1 hs
        cases hs
        exact hr₂

theorem reachable_autoDestroy {m m' : Managers} (hr : Managers.lts.Reachable m)
    (hs : autoDestroy cfg hwq m = some m') : Managers.lts.Reachable m' := by
  unfold autoDestroy at hs
  split at hs
  · cases hs
    exact hr
  · split at hs
    · cases hs
      exact hr
    · obtain ⟨m₁, h₁, hs⟩ := Option.bind_eq_some_iff.1 hs
      exact reachable_hwQueueDestroy (reachable_xQueueDestroy hr h₁) hs

/-- An XQueue that is not the new one. -/
theorem xq_old {m : Managers} (hm : MapsOk cfg m) {w : HwQueue} {x : XQueue}
    (hx : m.xq w = some x) : w ≠ m.nextHw ∧ m.hwqs (m.hwHandle w) = some w := by
  refine ⟨?_, hm.registered w x hx⟩
  rintro rfl
  rw [hm.inv.unused _ (Nat.le_refl _)] at hx
  cases hx

theorem MapsOk.refused {m : Managers} (hm : MapsOk cfg m) (hon : cfg.env.autoXQueue = true)
    (hlevel : cfg.levelValid = false) : MapsOk cfg (m.hwAdd hwq true) where
  reachable := hm.reachable.step (step_hwAdd hm.free)
  free := free_hwAdd hm.free
  off hoff := by rw [hon] at hoff; cases hoff
  unset _ w := by
    have hw := hm.unset hlevel w
    unfold Managers.hwAdd
    split <;> exact hw
  has hvalid := by rw [hlevel] at hvalid; cases hvalid
  registered w x hx := by
    have hnone : (m.hwAdd hwq true).xq w = m.xq w := by
      unfold Managers.hwAdd
      split <;> rfl
    rw [hnone, hm.unset hlevel w] at hx
    cases hx

theorem MapsOk.new {m : Managers} (hm : MapsOk cfg m) (hon : cfg.env.autoXQueue = true)
    (hlevel : cfg.levelValid = true) (hnone : m.hwqs hwq = none)
    (hr : Managers.lts.Reachable (created m.nextHw xh (m.hwAdd hwq true))) :
    MapsOk cfg (created m.nextHw xh (m.hwAdd hwq true)) := by
  rw [hwAdd_new hnone] at hr ⊢
  refine ⟨hr, ⟨hm.free.xq, hm.free.hw, hm.free.running⟩, fun hoff => ?_, fun hno => ?_,
    fun _ h w hw => ?_, fun w x hx => ?_⟩
  · rw [hon] at hoff
    cases hoff
  · rw [hlevel] at hno
    cases hno
  · change update m.hwqs hwq (some m.nextHw) h = some w at hw
    by_cases hh : h = hwq
    · rw [hh, Function.update_self] at hw
      cases hw
      exact ⟨m.nextXq, Function.update_self ..⟩
    · rw [Function.update_of_ne hh] at hw
      obtain ⟨x, hx⟩ := hm.has hlevel h w hw
      exact ⟨x, (Function.update_of_ne (xq_old hm hx).1 _ _).trans hx⟩
  · change update m.xq m.nextHw (some m.nextXq) w = some x at hx
    change update m.hwqs hwq (some m.nextHw) (update m.hwHandle m.nextHw hwq w) = some w
    by_cases hw : w = m.nextHw
    · rw [hw, Function.update_self, Function.update_self]
    · rw [Function.update_of_ne hw] at hx ⊢
      have hin := (xq_old hm hx).2
      rw [Function.update_of_ne ?_, hin]
      intro hh
      rw [hh, hnone] at hin
      cases hin

theorem MapsOk.both {m : Managers} (hm : MapsOk cfg m) (hon : cfg.env.autoXQueue = true)
    (hlevel : cfg.levelValid = true) {w : HwQueue} {x : XQueue} (hw : m.hwqs hwq = some w)
    (hx : m.xq w = some x)
    (hr : Managers.lts.Reachable { destroyed x m with hwqs := update m.hwqs hwq none }) :
    MapsOk cfg { destroyed x m with hwqs := update m.hwqs hwq none } := by
  have hback := (hm.in_xqs hx).2
  refine ⟨hr, ⟨hm.free.xq, hm.free.hw, hm.free.running⟩, fun hoff => ?_, fun hno => ?_,
    fun _ h w' hw' => ?_, fun w' x' hx' => ?_⟩
  · rw [hon] at hoff
    cases hoff
  · rw [hlevel] at hno
    cases hno
  · change update m.hwqs hwq none h = some w' at hw'
    by_cases hh : h = hwq
    · rw [hh, Function.update_self] at hw'
      cases hw'
    · rw [Function.update_of_ne hh] at hw'
      obtain ⟨x', hx'⟩ := hm.has hlevel h w' hw'
      refine ⟨x', (Function.update_of_ne ?_ _ _).trans hx'⟩
      rw [hback]
      rintro rfl
      exact hh ((hm.inv.hwMap h _ hw').2.symm.trans (hm.inv.hwMap hwq _ hw).2)
  · change update m.xq (m.kHwQueue x) none w' = some x' at hx'
    rw [hback] at hx'
    by_cases hww : w' = w
    · rw [hww, Function.update_self] at hx'
      cases hx'
    · rw [Function.update_of_ne hww] at hx'
      have hin := hm.registered w' x' hx'
      refine (Function.update_of_ne ?_ _ _).trans hin
      intro hh
      change m.hwHandle w' = hwq at hh
      rw [hh, hw] at hin
      exact hww (Option.some.inj hin).symm

theorem MapsOk.create {m m' : Managers} (hm : MapsOk cfg m) {set : List Setting}
    (hs : autoCreate cfg hwq xh m = some (m', set)) : MapsOk cfg m' := by
  have hr := reachable_autoCreate hm.reachable hs
  cases autoCreate_cases hm hs with
  | off hoff => exact hm
  | refused hon hlevel => exact hm.refused hon hlevel
  | new hon hlevel hnone hxh => exact hm.new hon hlevel hnone hr
  | found hon hlevel hw hx => exact hm

theorem MapsOk.destroy {m m' : Managers} (hm : MapsOk cfg m)
    (hkept : cfg.env.autoXQueue = true → ∃ w, m.hwqs hwq = some w)
    (hs : (if cfg.autoDestroys then autoDestroy cfg hwq m else some m) = some m') :
    MapsOk cfg m' := by
  have hr : Managers.lts.Reachable m' := by
    split at hs
    · exact reachable_autoDestroy hm.reachable hs
    · cases hs
      exact hm.reachable
  cases autoDestroy_cases hm hkept hs with
  | kept => exact hm
  | both hon hauto hlevel hw hx => exact hm.both hon hlevel hw hx hr

theorem hwqs_created {m : Managers} (hnone : m.hwqs hwq = none) :
    (created m.nextHw xh (m.hwAdd hwq true)).hwqs = update m.hwqs hwq (some m.nextHw) := by
  rw [hwAdd_new hnone]
  rfl

/-- `AutoCreate` takes no HwQueue away and leaves one for the stream. -/
theorem Creates.hwqs {m m' : Managers} {set : List Setting} (hc : Creates cfg hwq xh m m' set)
    (hon : cfg.env.autoXQueue = true) :
    (∀ h w, m.hwqs h = some w → m'.hwqs h = some w) ∧ ∃ w, m'.hwqs hwq = some w := by
  have hupdate (hnone : m.hwqs hwq = none) :
      (∀ h w, m.hwqs h = some w → update m.hwqs hwq (some m.nextHw) h = some w) ∧
        ∃ w, update m.hwqs hwq (some m.nextHw) hwq = some w := by
    refine ⟨fun h w hw => ?_, m.nextHw, Function.update_self ..⟩
    rw [Function.update_of_ne ?_, hw]
    rintro rfl
    rw [hnone] at hw
    cases hw
  cases hc with
  | off hoff => rw [hon] at hoff; cases hoff
  | refused =>
    cases hw : m.hwqs hwq with
    | none =>
      rw [hwAdd_new hw]
      exact hupdate hw
    | some w =>
      rw [hwAdd_found hw]
      exact ⟨fun _ _ h => h, w, hw⟩
  | new hon hlevel hnone hxh =>
    rw [hwqs_created hnone]
    exact hupdate hnone
  | found hon hlevel hw hx => exact ⟨fun _ _ h => h, _, hw⟩

theorem inv_step {act : Act} (hi : Inv cfg s) (hs : step cfg s act = some s') : Inv cfg s' := by
  cases act with
  | create hwq xh =>
    obtain ⟨-, hs⟩ := Option.ite_none_left_eq_some.1 hs
    obtain ⟨⟨m, set⟩, hm, rfl⟩ := Option.map_eq_some_iff.1 hs
    refine ⟨hi.maps.create hm, fun hon h t ht => ?_⟩
    obtain ⟨hkeeps, hnew⟩ := (autoCreate_cases hi.maps hm).hwqs hon
    by_cases hh : h = hwq
    · rw [hh]
      exact hnew
    · obtain ⟨w, hw⟩ := hi.kept hon h t ((Function.update_of_ne hh _ s.live).symm.trans ht)
      exact ⟨w, hkeeps h w hw⟩
  | destroy hwq =>
    obtain ⟨halive, hs⟩ := Option.ite_none_left_eq_some.1 hs
    obtain ⟨m, hm, rfl⟩ := Option.map_eq_some_iff.1 hs
    obtain ⟨t, ht⟩ := Option.ne_none_iff_exists'.1 (by simpa using halive)
    have hkept := fun hon => hi.kept hon hwq t ht
    refine ⟨hi.maps.destroy hkept hm, fun hon h t' ht' => ?_⟩
    change update s.live hwq none h = some t' at ht'
    by_cases hh : h = hwq
    · rw [hh, Function.update_self] at ht'
      cases ht'
    · rw [Function.update_of_ne hh] at ht'
      obtain ⟨w, hw⟩ := hi.kept hon h t' ht'
      refine ⟨w, ?_⟩
      cases autoDestroy_cases hi.maps hkept hm with
      | kept => exact hw
      | both => exact (Function.update_of_ne hh _ _).trans hw

end

def lts (cfg : Config) : LTS Streams Act := .ofFn (fun s => s = init) (step cfg)

theorem inv_reachable {cfg : Config} {s : Streams} (hr : (lts cfg).Reachable s) : Inv cfg s := by
  refine LTS.reachable_induction (M := lts cfg) (I := Inv cfg) ?_ ?_ hr
  · rintro s rfl
    refine ⟨⟨LTS.reachable_init rfl, ⟨rfl, rfl, rfl⟩, fun _ _ => rfl, fun _ _ => rfl, ?_, ?_⟩, ?_⟩
    · intro _ h w hw
      cases hw
    · intro w x hx
      cases hx
    · intro _ h t ht
      cases ht
  · exact fun s act s' _ hi hs => inv_step hi hs

/-! ## HwQueues of living streams -/

/-- The HwQueue in the map was made for the stream that now has the handle. -/
def Fresh (s : Streams) : Prop :=
  ∀ h w, s.managers.hwqs h = some w → s.live h = some (s.made w)

/-- Queues are not created, or they are destroyed. -/
def Config.Settled (cfg : Config) : Prop :=
  cfg.env.autoXQueue = false ∨ cfg.autoDestroys = true ∧ cfg.levelValid = true

section
variable {cfg : Config} {s s' : Streams} {act : Act}

/-- Before a stream is created there is no HwQueue with its handle. -/
theorem Fresh.unused (hfresh : Fresh s) {hwq : HwQueueHandle} (dead : s.live hwq = none) :
    s.managers.hwqs hwq = none := by
  cases hw : s.managers.hwqs hwq with
  | none => rfl
  | some w =>
    have hlive := hfresh hwq w hw
    rw [dead] at hlive
    cases hlive

theorem fresh_create (hi : Inv cfg s) (hfresh : Fresh s) {hwq : HwQueueHandle}
    {xh : XQueueHandle} {m : Managers} {set : List Setting} (dead : s.live hwq = none)
    (hm : Creates cfg hwq xh s.managers m set) :
    Fresh { managers := m, live := update s.live hwq (some s.next), next := s.next + 1,
            made := update s.made s.managers.nextHw s.next, settings := s.settings ++ set } := by
  have hnone := hfresh.unused dead
  -- an HwQueue of before is that of another stream
  have hold {h : HwQueueHandle} {w : HwQueue} (hw : s.managers.hwqs h = some w) :
      update s.live hwq (some s.next) h = some (update s.made s.managers.nextHw s.next w) := by
    have hh : h ≠ hwq := by
      rintro rfl
      rw [hnone] at hw
      cases hw
    have hlt : w < s.managers.nextHw := (hi.maps.inv.hwMap h w hw).1
    rw [Function.update_of_ne hh, Function.update_of_ne (Nat.ne_of_lt hlt)]
    exact hfresh h w hw
  have hnew (h : HwQueueHandle) (w : HwQueue)
      (hw : update s.managers.hwqs hwq (some s.managers.nextHw) h = some w) :
      update s.live hwq (some s.next) h = some (update s.made s.managers.nextHw s.next w) := by
    by_cases hh : h = hwq
    · rw [hh, Function.update_self] at hw
      cases hw
      rw [hh, Function.update_self, Function.update_self]
    · exact hold ((Function.update_of_ne hh _ _).symm.trans hw)
  intro h w hw
  cases hm with
  | off hoff => exact hold hw
  | refused hon hlevel =>
    rw [hwAdd_new hnone] at hw
    exact hnew h w hw
  | new hon hlevel _ hxh =>
    change (created s.managers.nextHw xh (s.managers.hwAdd hwq true)).hwqs h = some w at hw
    rw [hwqs_created hnone] at hw
    exact hnew h w hw
  | found hon hlevel hw' hx => exact hold hw

theorem fresh_step (hi : Inv cfg s) (hfresh : Fresh s) (hs : step cfg s act = some s') :
    Fresh s' ↔ cfg.Settled ∨ act.destroys = false := by
  cases step_cases hi hs with
  | create dead hm => exact iff_of_true (fresh_create hi hfresh dead hm) (.inr rfl)
  | @destroy hwq t m alive hm =>
    cases hm with
    | kept hkept =>
      constructor
      · intro hfresh'
        refine .inl (.inl ?_)
        -- the HwQueue of the stream is still in the map
        cases hon : cfg.env.autoXQueue with
        | false => rfl
        | true =>
          obtain ⟨w, hw⟩ := hi.kept hon hwq t alive
          have hlive : update s.live hwq none hwq = some (s.made w) := hfresh' hwq w hw
          rw [Function.update_self] at hlive
          cases hlive
      · rintro (hsettled | hact)
        · have hoff : cfg.env.autoXQueue = false := by
            rcases hsettled with hoff | ⟨hauto, hlevel⟩
            · exact hoff
            · simpa [hauto, hlevel] using hkept
          intro h w hw
          cases (hi.maps.off hoff h).symm.trans hw
        · cases hact
    | both hon hauto hlevel hw hx =>
      refine iff_of_true (fun h w' hw' => ?_) (.inl (.inr ⟨hauto, hlevel⟩))
      change update s.managers.hwqs hwq none h = some w' at hw'
      by_cases hh : h = hwq
      · rw [hh, Function.update_self] at hw'
        cases hw'
      · exact (Function.update_of_ne hh _ _).trans
          (hfresh h w' ((Function.update_of_ne hh _ _).symm.trans hw'))

end

/-- In every run the map has the HwQueues of living streams only, if and only if no queues
are created, or they are destroyed with their streams, or no stream is destroyed. -/
theorem fresh_iff (cfg : Config) (acts : List Act) :
    LTS.Throughout (step cfg) Fresh init acts ↔
      LTS.EachStep (step cfg) (fun _ act => cfg.Settled ∨ act.destroys = false) init acts := by
  have hinit : (lts cfg).Reachable init := LTS.reachable_init rfl
  refine LTS.throughout_iff ?_ hinit ?_ acts
  · exact fun s act s' hr hfresh hs => fresh_step (inv_reachable hr) hfresh hs
  · intro h w hw
    cases hw

/-! ## Queues that serve their streams -/

/-- What each XQueue is told that is created for a stream. -/
def told (cfg : Config) : Act → List Setting
  | .create _ xh => settings cfg.env cfg.pid xh
  | .destroy _ => []

section
variable {cfg : Config}

/-- Where each HwQueue is that of a living stream, every stream that is created gets new
queues. -/
theorem settings_step (hon : cfg.env.autoXQueue = true) (hlevel : cfg.levelValid = true)
    {s s' : Streams} {act : Act} (hi : Inv cfg s) (hfresh : Fresh s)
    (hs : step cfg s act = some s') : s'.settings = s.settings ++ told cfg act := by
  cases step_cases hi hs with
  | create dead hm =>
    cases hm with
    | off hoff =>
      rw [hon] at hoff
      cases hoff
    | refused _ hinvalid =>
      rw [hlevel] at hinvalid
      cases hinvalid
    | new => rfl
    | found _ _ hw =>
      cases (hfresh.unused dead).symm.trans hw
  | destroy => exact (List.append_nil _).symm

theorem served_run (hon : cfg.env.autoXQueue = true) (hauto : cfg.autoDestroys = true)
    (hlevel : cfg.levelValid = true) {acts : List Act} {s : Streams}
    (hrun : (lts cfg).Run init acts s) : Fresh s ∧ s.settings = acts.flatMap (told cfg) := by
  refine LTS.Run.snoc_induction (M := lts cfg)
    (P := fun acts s => Fresh s ∧ s.settings = acts.flatMap (told cfg)) ⟨?_, rfl⟩ ?_ hrun
  · intro h w hw
    cases hw
  · rintro acts s act s' hrun ⟨hfresh, hset⟩ hs
    have hi := inv_reachable ((LTS.reachable_init rfl).run hrun)
    refine ⟨(fresh_step hi hfresh hs).2 (.inl (.inr ⟨hauto, hlevel⟩)), ?_⟩
    rw [settings_step hon hlevel hi hfresh hs, hset, List.flatMap_append, List.flatMap_singleton]

end

/-- A creation at a free address succeeds. -/
theorem autoCreate_isSome {cfg : Config} (hon : cfg.env.autoXQueue = true)
    (hlevel : cfg.levelValid = true) (hlaunch : launchConfigValid cfg.env = true) {m : Managers}
    (hm : MapsOk cfg m) {hwq : HwQueueHandle} {xh : XQueueHandle} (hnone : m.hwqs hwq = none)
    (hxh : m.xqs xh = none) : (autoCreate cfg hwq xh m).isSome = true := by
  have hf₁ : Free (m.hwAdd hwq true) := free_hwAdd hm.free
  have hw₁ : (m.hwAdd hwq true).hwqs hwq = some m.nextHw := by
    rw [hwAdd_new hnone]
    exact Function.update_self ..
  have hx₁ : (m.hwAdd hwq true).xq m.nextHw = none := by
    rw [hwAdd_new hnone]
    exact hm.inv.unused _ (Nat.le_refl _)
  have hxh₁ : (m.hwAdd hwq true).xqs xh = none := by
    rw [hwAdd_new hnone]
    exact hxh
  have hget : getXQueue (created m.nextHw xh (m.hwAdd hwq true)) hwq =
      some (m.hwAdd hwq true).nextXq := by
    simp only [getXQueue, created, hw₁, Option.bind_some, Function.update_self]
  simp only [autoCreate, hon, Bool.not_true, Bool.false_eq_true, if_false, step_hwAdd hm.free,
    Option.bind_eq_bind, Option.bind_some, xQueueCreate_new hf₁ hlevel hw₁ hx₁ hxh₁, hlevel, hget,
    hlaunch, if_true, Option.isSome_some]

/-- A shim that destroys the queues, with a valid level and launch configuration: each
living stream has its HwQueue with an XQueue, the maps have nothing else, and a stream can
be created. -/
theorem served {cfg : Config} (hon : cfg.env.autoXQueue = true) (hauto : cfg.autoDestroys = true)
    (hlevel : cfg.levelValid = true) (hlaunch : launchConfigValid cfg.env = true)
    {acts : List Act} {s : Streams}
    (hexec : LTS.exec (step cfg) init acts = some s) :
    (∀ h t, s.live h = some t → ∃ w x, s.managers.hwqs h = some w ∧ s.made w = t ∧
      s.managers.xq w = some x ∧ s.managers.xqs (s.managers.kHandle x) = some x) ∧
    (∀ h w, s.managers.hwqs h = some w → s.live h = some (s.made w)) ∧
    (∀ k x, s.managers.xqs k = some x →
      ∃ h t, s.live h = some t ∧ s.managers.hwqs h = some (s.managers.kHwQueue x)) ∧
    s.settings = acts.flatMap (told cfg) ∧
    ∀ hwq xh, s.live hwq = none → s.managers.xqs xh = none →
      (step cfg s (.create hwq xh)).isSome = true := by
  have hrun : (lts cfg).Run init acts s := LTS.run_of_exec hexec
  obtain ⟨hfresh, hset⟩ := served_run hon hauto hlevel hrun
  have hi := inv_reachable ((LTS.reachable_init rfl).run hrun)
  refine ⟨fun h t ht => ?_, hfresh, fun k x hx => ?_, hset, fun hwq xh dead hxh => ?_⟩
  · obtain ⟨w, hw⟩ := hi.kept hon h t ht
    obtain ⟨x, hx⟩ := hi.maps.has hlevel h w hw
    have hlive := hfresh h w hw
    rw [ht] at hlive
    exact ⟨w, x, hw, (Option.some.inj hlive).symm, hx, (hi.maps.in_xqs hx).1⟩
  · have hback : s.managers.xq (s.managers.kHwQueue x) = some x :=
      (hi.maps.inv.fwd k x hx).resolve_right (Managers.whole_of_free hi.maps.free.xq x).2
    have hin := hi.maps.registered _ x hback
    exact ⟨_, _, hfresh _ _ hin, hin⟩
  · simp only [step, dead, Option.isSome_none, Bool.false_eq_true, if_false, Option.isSome_map]
    exact autoCreate_isSome hon hlevel hlaunch hi.maps (hfresh.unused dead) hxh

/-- A level, a priority and a threshold are set, with HIP's shim. -/
def hipConfig : Config where
  env := { env := some ['o', 'n'], level := some 1, priority := some 5, threshold := some 32,
           batchSize := none, utilization := none, timeslice := none, deadline := none,
           kDeadline := none, laxity := none }
  pid := 1
  autoDestroys := true

/-- The second stream gets the address of the first. -/
def reusedTrace : List Act := [.create 7 100, .destroy 7, .create 7 100, .create 8 200]

theorem served_reused : ∃ s, LTS.exec (step hipConfig) init reusedTrace = some s ∧
    s.settings.length = 6 := by
  have hsome : (LTS.exec (step hipConfig) init reusedTrace).isSome = true := by decide
  obtain ⟨s, hs⟩ := Option.isSome_iff_exists.1 hsome
  refine ⟨s, hs, ?_⟩
  rw [(served (by decide) rfl (by decide) (by decide) hs).2.2.2.1]
  decide

/-- A threshold below the default batch size ends the process. -/
example : step { hipConfig with env := { hipConfig.env with threshold := some 4 } } init
    (.create 7 100) = none := by rfl

end Xsched.Preempt.AutoQueues
