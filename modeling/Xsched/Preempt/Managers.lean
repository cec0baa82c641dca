import Mathlib.Logic.Function.Basic
import Xsched.Core.LTS
import Xsched.Sched.Status

/-!
# The managers of HwQueues and XQueues

`HwQueueManager` and `XQueueManager` each have a map and a lock. An HwQueue points to
its XQueue and the XQueue to its HwQueue; `XQueueManager::Add` makes the circle and
`Del` breaks it. Handles of XQueues are addresses, so a new XQueue may have the
handle of one that is gone.

**The system** is any number of threads in the functions of both managers. A step is
one access to what they share; only the holder of a lock is in a region of it, so a
region is kept once for the lock and not for each thread.

**The break.** `HwQueueManager::Del` reads `xq_` under its own lock, which is not the
one under which it is set, and `XQueueManager::Add` does not look again
whether the HwQueue that it has got is still in the map.

**Results.**
* `assertions_hold`: the assertions of `XQueueManager::Add` hold in every interleaving,
  and when its lock is free an HwQueue points to an XQueue exactly if that is in the
  map and belongs to it.
* `registered_iff`: in a run every HwQueue with an XQueue is always in its map exactly
  if no HwQueue is erased after it got an XQueue, and none gets one after it was erased.
  Then there is one XQueue at most for a handle of an HwQueue.
* `two_xQueues`: otherwise there are two.
-/
namespace Xsched.Preempt
open Function (update)
open Sched (XQueueHandle kPreemptLevelUnknown)

namespace Managers

abbrev HwQueueHandle := Nat
/-- An HwQueue object. -/
abbrev HwQueue := Nat
/-- An XQueue object. -/
abbrev XQueue := Nat

def kPreemptLevelMax : Sched.XPreemptLevel := 4
def kQueueCreateFlagBlockingSubmit : Nat := 1

/-- What the holder of `XQueueManager::mtx_` does next. -/
inductive XqRegion where
  /-- `HwQueueManager::Get` -/
  | get (hwq : HwQueueHandle)
  /-- `GetXQueue() != nullptr` -/
  | check (w : HwQueue)
  /-- The look-up of the XQueue that the HwQueue has, with its assertions. -/
  | found (x : XQueue)
  /-- `std::make_shared<AsyncXQueue>` -/
  | construct (w : HwQueue)
  /-- `SetXQueue(xq_shptr)` -/
  | set (w : HwQueue) (x : XQueue)
  /-- `xqs_[xq_h] = xq_shptr` -/
  | insert (x : XQueue)
  /-- `SetXQueue(nullptr)` -/
  | reset (x : XQueue)
  /-- `xqs_.erase(it)` -/
  | erase (x : XQueue)
  deriving DecidableEq

/-- What the holder of `HwQueueManager::mtx_` does next, in `Del`. -/
inductive HwRegion where
  /-- `it->second->GetXQueue()` -/
  | read (h : HwQueueHandle) (w : HwQueue)
  /-- `hwqs_.erase(it)` -/
  | erase (h : HwQueueHandle) (w : HwQueue)
  deriving DecidableEq

end Managers

open Managers

/-- `xq`: the `xq_` of an HwQueue; `hwHandle`, `kHandle` and `kHwQueue` are the constants
of the objects. -/
structure Managers where
  hwqs : HwQueueHandle → Option HwQueue
  xqs : XQueueHandle → Option XQueue
  xq : HwQueue → Option XQueue
  hwHandle : HwQueue → HwQueueHandle
  kHandle : XQueue → XQueueHandle
  kHwQueue : XQueue → HwQueue
  nextHw : HwQueue
  nextXq : XQueue
  xqRegion : Option XqRegion
  hwRegion : Option HwRegion
  /-- An assertion of `XQueueManager::Add` has failed. -/
  aborted : Bool

namespace Managers

inductive Act where
  /-- `HwQueueManager::Add`; `created`: `create` makes an HwQueue with the handle. -/
  | hwAdd (hwq : HwQueueHandle) (created : Bool)
  /-- `HwQueueManager::Del`, up to its look-up -/
  | hwDel (hwq : HwQueueHandle)
  | hwStep
  | xqAdd (hwq : HwQueueHandle) (level : Sched.XPreemptLevel) (flags : Nat)
  /-- `XQueueManager::Del`, up to its look-up -/
  | xqDel (xq : XQueueHandle)
  /-- `handle` is the one of the XQueue that is constructed. -/
  | xqStep (handle : XQueueHandle)
  deriving DecidableEq

def init : Managers where
  hwqs _ := none
  xqs _ := none
  xq _ := none
  hwHandle _ := 0
  kHandle _ := 0
  kHwQueue _ := 0
  nextHw := 0
  nextXq := 0
  xqRegion := none
  hwRegion := none
  aborted := false

/-- mirrors preempt/src/hal/hw_queue.cpp:10-28 -/
def hwAdd (hwq : HwQueueHandle) (created : Bool) (s : Managers) : Managers :=
  if (s.hwqs hwq).isSome ∨ !created then s
  else { s with hwqs := update s.hwqs hwq (some s.nextHw),
                hwHandle := update s.hwHandle s.nextHw hwq, nextHw := s.nextHw + 1 }

/-- mirrors preempt/src/hal/hw_queue.cpp:30-49 -/
def hwStep (s : Managers) : HwRegion → Managers
  | .read h w =>
    if (s.xq w).isSome then { s with hwRegion := none }
    else { s with hwRegion := some (.erase h w) }
  | .erase h _ => { s with hwqs := update s.hwqs h none, hwRegion := none }

/-- The checks before the lock of `XQueueManager::Add`. -/
def addAllowed (level : Sched.XPreemptLevel) (flags : Nat) : Bool :=
  kPreemptLevelUnknown < level && level < kPreemptLevelMax &&
    decide (flags &&& kQueueCreateFlagBlockingSubmit = 0)

/-- mirrors preempt/src/xqueue/xqueue.cpp:13-50,54-64 -/
def xqStep (handle : XQueueHandle) (s : Managers) : XqRegion → Option Managers
  | .get hwq =>
    if s.hwRegion.isSome then none
    else
      match s.hwqs hwq with
      | none => some { s with xqRegion := none }
      | some w => some { s with xqRegion := some (.check w) }
  | .check w =>
    match s.xq w with
    | none => some { s with xqRegion := some (.construct w) }
    | some x => some { s with xqRegion := some (.found x) }
  | .found x =>
    if s.xqs (s.kHandle x) = some x then some { s with xqRegion := none }
    else some { s with aborted := true }
  | .construct w =>
    -- the address of an XQueue in the map is in use
    if (s.xqs handle).isSome then none
    else some { s with kHandle := update s.kHandle s.nextXq handle,
                       kHwQueue := update s.kHwQueue s.nextXq w,
                       xqRegion := some (.set w s.nextXq), nextXq := s.nextXq + 1 }
  | .set w x => some { s with xq := update s.xq w (some x), xqRegion := some (.insert x) }
  | .insert x => some { s with xqs := update s.xqs (s.kHandle x) (some x), xqRegion := none }
  | .reset x =>
    some { s with xq := update s.xq (s.kHwQueue x) none, xqRegion := some (.erase x) }
  | .erase x => some { s with xqs := update s.xqs (s.kHandle x) none, xqRegion := none }

def step (s : Managers) : Act → Option Managers
  | .hwAdd hwq created => if s.hwRegion.isSome then none else some (s.hwAdd hwq created)
  | .hwDel hwq =>
    if s.hwRegion.isSome then none
    else
      match s.hwqs hwq with
      | none => some s
      | some w => some { s with hwRegion := some (.read hwq w) }
  | .hwStep => s.hwRegion.map s.hwStep
  | .xqAdd hwq level flags =>
    if !addAllowed level flags then some s
    else if s.xqRegion.isSome then none
    else some { s with xqRegion := some (.get hwq) }
  | .xqDel xq =>
    if s.xqRegion.isSome then none
    else
      match s.xqs xq with
      | none => some s
      | some x => some { s with xqRegion := some (.reset x) }
  | .xqStep handle => if s.aborted then none else s.xqRegion.bind (s.xqStep handle)

def lts : LTS Managers Act := .ofFn (fun s => s = init) step

/-! ## What a step can do -/

/-- The call goes on in a region. -/
def Act.inRegion : Act → Bool
  | .hwStep | .xqStep _ => true
  | _ => false

/-- The steps that change something, with their guards. -/
inductive StepCases (s : Managers) : Act → Managers → Prop where
  | same {act : Act} (hact : act.inRegion = false) : StepCases s act s
  | hwCreate {hwq : HwQueueHandle} (free : s.hwRegion = none) (hnone : s.hwqs hwq = none) :
      StepCases s (.hwAdd hwq true)
        { s with hwqs := update s.hwqs hwq (some s.nextHw),
                 hwHandle := update s.hwHandle s.nextHw hwq, nextHw := s.nextHw + 1 }
  | hwDel {hwq : HwQueueHandle} {w : HwQueue} (free : s.hwRegion = none)
      (hw : s.hwqs hwq = some w) :
      StepCases s (.hwDel hwq) { s with hwRegion := some (.read hwq w) }
  | hwRefused {h : HwQueueHandle} {w : HwQueue} (hregion : s.hwRegion = some (.read h w)) :
      StepCases s .hwStep { s with hwRegion := none }
  | hwRead {h : HwQueueHandle} {w : HwQueue} (hregion : s.hwRegion = some (.read h w)) :
      StepCases s .hwStep { s with hwRegion := some (.erase h w) }
  | hwErase {h : HwQueueHandle} {w : HwQueue} (hregion : s.hwRegion = some (.erase h w)) :
      StepCases s .hwStep { s with hwqs := update s.hwqs h none, hwRegion := none }
  | xqAdd {hwq : HwQueueHandle} {level : Sched.XPreemptLevel} {flags : Nat}
      (free : s.xqRegion = none) :
      StepCases s (.xqAdd hwq level flags) { s with xqRegion := some (.get hwq) }
  | xqDel {h : XQueueHandle} {x : XQueue} (free : s.xqRegion = none) (hx : s.xqs h = some x) :
      StepCases s (.xqDel h) { s with xqRegion := some (.reset x) }
  | notFound {h : XQueueHandle} {hwq : HwQueueHandle} (hregion : s.xqRegion = some (.get hwq)) :
      StepCases s (.xqStep h) { s with xqRegion := none }
  | get {h : XQueueHandle} {hwq : HwQueueHandle} {w : HwQueue}
      (hregion : s.xqRegion = some (.get hwq)) (hw : s.hwqs hwq = some w) :
      StepCases s (.xqStep h) { s with xqRegion := some (.check w) }
  | checkNone {h : XQueueHandle} {w : HwQueue} (hregion : s.xqRegion = some (.check w))
      (hx : s.xq w = none) : StepCases s (.xqStep h) { s with xqRegion := some (.construct w) }
  | checkSome {h : XQueueHandle} {w : HwQueue} {x : XQueue}
      (hregion : s.xqRegion = some (.check w)) (hx : s.xq w = some x) :
      StepCases s (.xqStep h) { s with xqRegion := some (.found x) }
  | found {h : XQueueHandle} {x : XQueue} (hregion : s.xqRegion = some (.found x)) :
      StepCases s (.xqStep h) { s with xqRegion := none }
  | abort {h : XQueueHandle} {x : XQueue} (hregion : s.xqRegion = some (.found x))
      (hx : s.xqs (s.kHandle x) ≠ some x) : StepCases s (.xqStep h) { s with aborted := true }
  | construct {h : XQueueHandle} {w : HwQueue} (hregion : s.xqRegion = some (.construct w))
      (hfree : s.xqs h = none) :
      StepCases s (.xqStep h)
        { s with kHandle := update s.kHandle s.nextXq h, kHwQueue := update s.kHwQueue s.nextXq w,
                 xqRegion := some (.set w s.nextXq), nextXq := s.nextXq + 1 }
  | set {h : XQueueHandle} {w : HwQueue} {x : XQueue} (hregion : s.xqRegion = some (.set w x)) :
      StepCases s (.xqStep h)
        { s with xq := update s.xq w (some x), xqRegion := some (.insert x) }
  | insert {h : XQueueHandle} {x : XQueue} (hregion : s.xqRegion = some (.insert x)) :
      StepCases s (.xqStep h)
        { s with xqs := update s.xqs (s.kHandle x) (some x), xqRegion := none }
  | reset {h : XQueueHandle} {x : XQueue} (hregion : s.xqRegion = some (.reset x)) :
      StepCases s (.xqStep h)
        { s with xq := update s.xq (s.kHwQueue x) none, xqRegion := some (.erase x) }
  | erase {h : XQueueHandle} {x : XQueue} (hregion : s.xqRegion = some (.erase x)) :
      StepCases s (.xqStep h)
        { s with xqs := update s.xqs (s.kHandle x) none, xqRegion := none }

section
variable {s s' : Managers} {act : Act}

theorem xqStep_cases {h : XQueueHandle} {r : XqRegion} (hregion : s.xqRegion = some r)
    (hs : s.xqStep h r = some s') : StepCases s (.xqStep h) s' := by
  cases r with
  | get hwq =>
    obtain ⟨-, hs⟩ := Option.ite_none_left_eq_some.1 hs
    split at hs <;> cases hs
    · exact .notFound hregion
    · exact .get hregion ‹_›
  | check w =>
    simp only [Managers.xqStep] at hs
    split at hs <;> cases hs
    · exact .checkNone hregion ‹_›
    · exact .checkSome hregion ‹_›
  | found x =>
    simp only [Managers.xqStep] at hs
    split at hs <;> cases hs
    · exact .found hregion
    · exact .abort hregion ‹_›
  | construct w =>
    obtain ⟨hfree, hs⟩ := Option.ite_none_left_eq_some.1 hs
    cases hs
    exact .construct hregion (by simpa using hfree)
  | set w x => cases hs; exact .set hregion
  | insert x => cases hs; exact .insert hregion
  | reset x => cases hs; exact .reset hregion
  | erase x => cases hs; exact .erase hregion

theorem step_cases (hs : step s act = some s') : StepCases s act s' := by
  cases act with
  | hwAdd hwq created =>
    obtain ⟨hfree, hs⟩ := Option.ite_none_left_eq_some.1 hs
    cases hs
    unfold Managers.hwAdd
    split
    · exact .same rfl
    · rename_i hcond
      simp only [not_or, Bool.not_eq_true, Option.isSome_eq_false_iff, Option.isNone_iff_eq_none,
        Bool.not_eq_false'] at hcond
      obtain ⟨hnone, rfl⟩ := hcond
      exact .hwCreate (by simpa using hfree) hnone
  | hwDel hwq =>
    obtain ⟨hfree, hs⟩ := Option.ite_none_left_eq_some.1 hs
    split at hs <;> cases hs
    · exact .same rfl
    · exact .hwDel (by simpa using hfree) ‹_›
  | hwStep =>
    obtain ⟨r, hregion, rfl⟩ := Option.map_eq_some_iff.1 hs
    cases r with
    | read h w =>
      simp only [Managers.hwStep]
      split
      · exact .hwRefused hregion
      · exact .hwRead hregion
    | erase h w => exact .hwErase hregion
  | xqAdd hwq level flags =>
    simp only [step] at hs
    split at hs
    · cases hs; exact .same rfl
    · obtain ⟨hfree, hs⟩ := Option.ite_none_left_eq_some.1 hs
      cases hs
      exact .xqAdd (by simpa using hfree)
  | xqDel xq =>
    obtain ⟨hfree, hs⟩ := Option.ite_none_left_eq_some.1 hs
    split at hs <;> cases hs
    · exact .same rfl
    · exact .xqDel (by simpa using hfree) ‹_›
  | xqStep handle =>
    obtain ⟨-, hs⟩ := Option.ite_none_left_eq_some.1 hs
    obtain ⟨r, hregion, hs⟩ := Option.bind_eq_some_iff.1 hs
    exact xqStep_cases hregion hs

end

/-! ## The invariant -/

/-- What the holder of `XQueueManager::mtx_` knows. -/
def RegionOk (s : Managers) : XqRegion → Prop
  | .get _ => True
  | .check w => w < s.nextHw
  | .found x => s.xqs (s.kHandle x) = some x
  | .construct w => w < s.nextHw ∧ s.xq w = none
  | .set w x =>
    w < s.nextHw ∧ s.xq w = none ∧ s.kHwQueue x = w ∧ x < s.nextXq ∧ s.xqs (s.kHandle x) = none
  | .insert x => x < s.nextXq ∧ s.xq (s.kHwQueue x) = some x ∧ s.xqs (s.kHandle x) = none
  | .reset x => s.xqs (s.kHandle x) = some x
  | .erase x => s.xqs (s.kHandle x) = some x ∧ s.xq (s.kHwQueue x) = none

/-- The pointers and the maps; `back` and `fwd` are the circle. -/
structure Inv (s : Managers) : Prop where
  hwMap : ∀ h w, s.hwqs h = some w → w < s.nextHw ∧ s.hwHandle w = h
  unused : ∀ w, s.nextHw ≤ w → s.xq w = none
  map : ∀ h x, s.xqs h = some x → x < s.nextXq ∧ s.kHandle x = h
  back : ∀ w x, s.xq w = some x → x < s.nextXq ∧ s.kHwQueue x = w ∧
    (s.xqs (s.kHandle x) = some x ∨ s.xqRegion = some (.insert x))
  fwd : ∀ h x, s.xqs h = some x →
    s.xq (s.kHwQueue x) = some x ∨ s.xqRegion = some (.erase x)
  region : ∀ r, s.xqRegion = some r → s.RegionOk r
  hwErase : ∀ h w, s.hwRegion = some (.read h w) ∨ s.hwRegion = some (.erase h w) →
    s.hwqs h = some w
  running : s.aborted = false

section
variable {s s' : Managers} {act : Act}

theorem inv_init : init.Inv where
  hwMap _ _ h := by cases h
  unused _ _ := rfl
  map _ _ h := by cases h
  back _ _ h := by cases h
  fwd _ _ h := by cases h
  region _ h := by cases h
  hwErase _ _ h := by rcases h with h | h <;> cases h
  running := rfl

/-- The circle is whole. -/
def Whole (s : Managers) : Prop :=
  ∀ x, s.xqRegion ≠ some (.insert x) ∧ s.xqRegion ≠ some (.erase x)

theorem whole_of_region {r : XqRegion} (hregion : s.xqRegion = some r)
    (hr : ∀ x, r ≠ .insert x ∧ r ≠ .erase x) : s.Whole := fun x =>
  ⟨fun h => (hr x).1 (Option.some.inj (hregion.symm.trans h)),
    fun h => (hr x).2 (Option.some.inj (hregion.symm.trans h))⟩

theorem whole_of_free (hregion : s.xqRegion = none) : s.Whole := fun x => by
  rw [hregion]
  exact ⟨nofun, nofun⟩

/-- A region begins, goes on or ends, and the maps stay. -/
theorem Inv.goto (hi : s.Inv) (hwhole : s.Whole) {r : Option XqRegion}
    (hr : ∀ r', r = some r' → s.RegionOk r') : { s with xqRegion := r }.Inv where
  hwMap := hi.hwMap
  unused := hi.unused
  map := hi.map
  back w x hx := by
    obtain ⟨hlt, hw, hin⟩ := hi.back w x hx
    exact ⟨hlt, hw, .inl (hin.resolve_right (hwhole x).1)⟩
  fwd h x hx := .inl ((hi.fwd h x hx).resolve_right (hwhole x).2)
  region r' hr' := by
    have hok := hr r' hr'
    cases r' <;> exact hok
  hwErase := hi.hwErase
  running := hi.running

/-- A step under the other lock that keeps the map. -/
theorem Inv.hwGoto (hi : s.Inv) {r : Option HwRegion}
    (hr : ∀ h w, r = some (.read h w) ∨ r = some (.erase h w) → s.hwqs h = some w) :
    { s with hwRegion := r }.Inv where
  hwMap := hi.hwMap
  unused := hi.unused
  map := hi.map
  back := hi.back
  fwd := hi.fwd
  region r' hr' := by
    have hok := hi.region r' hr'
    cases r' <;> exact hok
  hwErase := hr
  running := hi.running

theorem Inv.hwCreate (hi : s.Inv) {hwq : HwQueueHandle} (free : s.hwRegion = none)
    (hnone : s.hwqs hwq = none) :
    { s with hwqs := update s.hwqs hwq (some s.nextHw),
             hwHandle := update s.hwHandle s.nextHw hwq, nextHw := s.nextHw + 1 }.Inv where
  hwMap h w hw := by
    by_cases hh : h = hwq
    · subst hh
      cases (Function.update_self _ _ s.hwqs).symm.trans hw
      exact ⟨Nat.lt_succ_self _, Function.update_self ..⟩
    · obtain ⟨hlt, heq⟩ := hi.hwMap h w ((Function.update_of_ne hh _ s.hwqs).symm.trans hw)
      exact ⟨Nat.lt_succ_of_lt hlt, (Function.update_of_ne (Nat.ne_of_lt hlt) _ _).trans heq⟩
  unused w hw := hi.unused w (Nat.le_of_succ_le hw)
  map := hi.map
  back := hi.back
  fwd := hi.fwd
  region r hr := by
    have hok := hi.region r hr
    cases r with
    | check w => exact Nat.lt_succ_of_lt hok
    | construct w => exact ⟨Nat.lt_succ_of_lt hok.1, hok.2⟩
    | set w x => exact ⟨Nat.lt_succ_of_lt hok.1, hok.2⟩
    | _ => exact hok
  hwErase h w hw := by
    change s.hwRegion = _ ∨ s.hwRegion = _ at hw
    rw [free] at hw
    rcases hw with hw | hw <;> cases hw
  running := hi.running

theorem Inv.hwEraseStep (hi : s.Inv) (h : HwQueueHandle) :
    { s with hwqs := update s.hwqs h none, hwRegion := none }.Inv where
  hwMap h' w hw := by
    by_cases hh : h' = h
    · subst hh; cases (Function.update_self _ _ s.hwqs).symm.trans hw
    · exact hi.hwMap h' w ((Function.update_of_ne hh _ s.hwqs).symm.trans hw)
  unused := hi.unused
  map := hi.map
  back := hi.back
  fwd := hi.fwd
  region r hr := by
    have hok := hi.region r hr
    cases r <;> exact hok
  hwErase h w hw := by rcases hw with hw | hw <;> cases hw
  running := hi.running

theorem Inv.construct (hi : s.Inv) {h : XQueueHandle} {w : HwQueue}
    (hregion : s.xqRegion = some (.construct w)) (hfree : s.xqs h = none) :
    { s with kHandle := update s.kHandle s.nextXq h, kHwQueue := update s.kHwQueue s.nextXq w,
             xqRegion := some (.set w s.nextXq), nextXq := s.nextXq + 1 }.Inv := by
  have hwhole := whole_of_region hregion fun x => ⟨nofun, nofun⟩
  have hkeep {x : XQueue} (hx : x < s.nextXq) : update s.kHandle s.nextXq h x = s.kHandle x ∧
      update s.kHwQueue s.nextXq w x = s.kHwQueue x :=
    ⟨Function.update_of_ne (Nat.ne_of_lt hx) _ _, Function.update_of_ne (Nat.ne_of_lt hx) _ _⟩
  refine ⟨hi.hwMap, hi.unused, fun h' x hx => ?_, fun w' x hx => ?_, fun h' x hx => ?_,
    fun r hr => ?_, hi.hwErase, hi.running⟩
  · obtain ⟨hlt, heq⟩ := hi.map h' x hx
    exact ⟨Nat.lt_succ_of_lt hlt, (hkeep hlt).1.trans heq⟩
  · obtain ⟨hlt, hw, hin⟩ := hi.back w' x hx
    refine ⟨Nat.lt_succ_of_lt hlt, (hkeep hlt).2.trans hw, .inl ?_⟩
    change s.xqs (update s.kHandle s.nextXq h x) = some x
    rw [(hkeep hlt).1]
    exact hin.resolve_right (hwhole x).1
  · refine .inl ?_
    change s.xq (update s.kHwQueue s.nextXq w x) = some x
    rw [(hkeep (hi.map h' x hx).1).2]
    exact (hi.fwd h' x hx).resolve_right (hwhole x).2
  · cases hr
    obtain ⟨hlt, hnone⟩ := hi.region _ hregion
    refine ⟨hlt, hnone, Function.update_self .., Nat.lt_succ_self _, ?_⟩
    change s.xqs (update s.kHandle s.nextXq h s.nextXq) = none
    rw [Function.update_self]
    exact hfree

theorem Inv.set (hi : s.Inv) {w : HwQueue} {x : XQueue} (hregion : s.xqRegion = some (.set w x)) :
    { s with xq := update s.xq w (some x), xqRegion := some (.insert x) }.Inv := by
  have hwhole := whole_of_region hregion fun x => ⟨nofun, nofun⟩
  obtain ⟨hlt, hnone, hw, hx, hfree⟩ := hi.region _ hregion
  refine ⟨hi.hwMap, fun w' hw' => ?_, hi.map, fun w' x' hx' => ?_, fun h x' hx' => ?_,
    fun r hr => ?_, hi.hwErase, hi.running⟩
  · exact (Function.update_of_ne (Nat.ne_of_gt (Nat.lt_of_lt_of_le hlt hw')) _ _).trans
      (hi.unused w' hw')
  · by_cases hww : w' = w
    · subst hww
      cases (Function.update_self _ _ s.xq).symm.trans hx'
      exact ⟨hx, hw, .inr rfl⟩
    · obtain ⟨hlt', heq, hin⟩ := hi.back w' x' ((Function.update_of_ne hww _ s.xq).symm.trans hx')
      exact ⟨hlt', heq, .inl (hin.resolve_right (hwhole x').1)⟩
  · refine .inl ?_
    have hback := (hi.fwd h x' hx').resolve_right (hwhole x').2
    have hne : s.kHwQueue x' ≠ w := by
      rintro rfl
      rw [hnone] at hback
      cases hback
    exact (Function.update_of_ne hne _ _).trans hback
  · cases hr
    refine ⟨hx, ?_, hfree⟩
    change update s.xq w (some x) (s.kHwQueue x) = some x
    rw [hw, Function.update_self]

theorem Inv.insert (hi : s.Inv) {x : XQueue} (hregion : s.xqRegion = some (.insert x)) :
    { s with xqs := update s.xqs (s.kHandle x) (some x), xqRegion := none }.Inv := by
  obtain ⟨hx, hback, hfree⟩ := hi.region _ hregion
  refine ⟨hi.hwMap, hi.unused, fun h x' hx' => ?_, fun w x' hx' => ?_, fun h x' hx' => ?_,
    fun r hr => ?_, hi.hwErase, hi.running⟩
  · by_cases hh : h = s.kHandle x
    · subst hh
      cases (Function.update_self _ _ s.xqs).symm.trans hx'
      exact ⟨hx, rfl⟩
    · exact hi.map h x' ((Function.update_of_ne hh _ s.xqs).symm.trans hx')
  · obtain ⟨hlt, heq, hin⟩ := hi.back w x' hx'
    refine ⟨hlt, heq, .inl ?_⟩
    change update s.xqs (s.kHandle x) (some x) (s.kHandle x') = some x'
    rcases hin with hin | hin
    · have hne : s.kHandle x' ≠ s.kHandle x := by
        intro h
        rw [h, hfree] at hin
        cases hin
      rw [Function.update_of_ne hne, hin]
    · cases hregion.symm.trans hin
      rw [Function.update_self]
  · refine .inl ?_
    by_cases hh : h = s.kHandle x
    · subst hh
      cases (Function.update_self _ _ s.xqs).symm.trans hx'
      exact hback
    · refine (hi.fwd h x' ((Function.update_of_ne hh _ s.xqs).symm.trans hx')).resolve_right ?_
      rw [hregion]
      exact nofun
  · cases hr

theorem Inv.reset (hi : s.Inv) {x : XQueue} (hregion : s.xqRegion = some (.reset x)) :
    { s with xq := update s.xq (s.kHwQueue x) none, xqRegion := some (.erase x) }.Inv := by
  have hwhole := whole_of_region hregion fun x => ⟨nofun, nofun⟩
  have hmap : s.xqs (s.kHandle x) = some x := hi.region _ hregion
  refine ⟨hi.hwMap, fun w hw => ?_, hi.map, fun w x' hx' => ?_, fun h x' hx' => ?_,
    fun r hr => ?_, hi.hwErase, hi.running⟩
  · by_cases hww : w = s.kHwQueue x
    · subst hww; exact Function.update_self ..
    · exact (Function.update_of_ne hww _ _).trans (hi.unused w hw)
  · by_cases hww : w = s.kHwQueue x
    · subst hww; cases (Function.update_self _ _ s.xq).symm.trans hx'
    · obtain ⟨hlt, heq, hin⟩ := hi.back w x' ((Function.update_of_ne hww _ s.xq).symm.trans hx')
      exact ⟨hlt, heq, .inl (hin.resolve_right (hwhole x').1)⟩
  · have hback := (hi.fwd h x' hx').resolve_right (hwhole x').2
    by_cases hww : s.kHwQueue x' = s.kHwQueue x
    · have hbackx := (hi.fwd _ x hmap).resolve_right (hwhole x).2
      rw [hww, hbackx] at hback
      cases hback
      exact .inr rfl
    · exact .inl ((Function.update_of_ne hww _ _).trans hback)
  · cases hr
    exact ⟨hmap, Function.update_self ..⟩

theorem Inv.erase (hi : s.Inv) {x : XQueue} (hregion : s.xqRegion = some (.erase x)) :
    { s with xqs := update s.xqs (s.kHandle x) none, xqRegion := none }.Inv := by
  obtain ⟨hmap, hnone⟩ := hi.region _ hregion
  refine ⟨hi.hwMap, hi.unused, fun h x' hx' => ?_, fun w x' hx' => ?_, fun h x' hx' => ?_,
    fun r hr => ?_, hi.hwErase, hi.running⟩
  · by_cases hh : h = s.kHandle x
    · subst hh; cases (Function.update_self _ _ s.xqs).symm.trans hx'
    · exact hi.map h x' ((Function.update_of_ne hh _ s.xqs).symm.trans hx')
  · obtain ⟨hlt, heq, hin⟩ := hi.back w x' hx'
    have hin := hin.resolve_right (by rw [hregion]; exact nofun)
    refine ⟨hlt, heq, .inl ?_⟩
    have hne : s.kHandle x' ≠ s.kHandle x := by
      intro h
      rw [h, hmap] at hin
      cases hin
      rw [heq, hx'] at hnone
      cases hnone
    exact (Function.update_of_ne hne _ _).trans hin
  · refine .inl ?_
    by_cases hh : h = s.kHandle x
    · subst hh; cases (Function.update_self _ _ s.xqs).symm.trans hx'
    · have hx' := (Function.update_of_ne hh _ s.xqs).symm.trans hx'
      refine (hi.fwd h x' hx').resolve_right fun hreg => hh ?_
      cases hregion.symm.trans hreg
      exact (hi.map h x hx').2.symm
  · cases hr

theorem Inv.step (hi : s.Inv) (hs : StepCases s act s') : s'.Inv := by
  cases hs with
  | same hact => exact hi
  | hwCreate free hnone => exact hi.hwCreate free hnone
  | hwDel free hw =>
    refine hi.hwGoto fun h w' h' => ?_
    rcases h' with h' | h' <;> cases h'
    exact hw
  | hwRefused hregion =>
    exact hi.hwGoto fun h w h' => by rcases h' with h' | h' <;> cases h'
  | hwRead hregion =>
    refine hi.hwGoto fun h w' h' => ?_
    rcases h' with h' | h' <;> cases h'
    exact hi.hwErase _ _ (.inl hregion)
  | hwErase hregion => exact hi.hwEraseStep _
  | xqAdd free => exact hi.goto (whole_of_free free) fun r hr => by cases hr; trivial
  | xqDel free hx =>
    refine hi.goto (whole_of_free free) fun r hr => ?_
    cases hr
    change s.xqs (s.kHandle _) = _
    rw [(hi.map _ _ hx).2]
    exact hx
  | notFound hregion =>
    exact hi.goto (whole_of_region hregion fun x => ⟨nofun, nofun⟩) fun r hr => by cases hr
  | get hregion hw =>
    refine hi.goto (whole_of_region hregion fun x => ⟨nofun, nofun⟩) fun r hr => ?_
    cases hr
    exact (hi.hwMap _ _ hw).1
  | checkNone hregion hx =>
    refine hi.goto (whole_of_region hregion fun x => ⟨nofun, nofun⟩) fun r hr => ?_
    cases hr
    exact ⟨hi.region _ hregion, hx⟩
  | checkSome hregion hx =>
    have hwhole := whole_of_region hregion fun x => ⟨nofun, nofun⟩
    refine hi.goto hwhole fun r hr => ?_
    cases hr
    exact (hi.back _ _ hx).2.2.resolve_right (hwhole _).1
  | found hregion =>
    exact hi.goto (whole_of_region hregion fun x => ⟨nofun, nofun⟩) fun r hr => by cases hr
  | abort hregion hx => exact absurd (hi.region _ hregion) hx
  | construct hregion hfree => exact hi.construct hregion hfree
  | set hregion => exact hi.set hregion
  | insert hregion => exact hi.insert hregion
  | reset hregion => exact hi.reset hregion
  | erase hregion => exact hi.erase hregion

theorem inv_reachable (hr : lts.Reachable s) : s.Inv := by
  refine LTS.reachable_induction (M := lts) (I := Inv) ?_ ?_ hr
  · rintro s rfl
    exact inv_init
  · exact fun s act s' _ hi hs => hi.step (step_cases hs)

end

/-- The assertions of `XQueueManager::Add` hold, and outside of its lock the pointers
are those of the map. -/
theorem assertions_hold {s : Managers} (hr : lts.Reachable s) :
    s.aborted = false ∧ (s.xqRegion = none → ∀ w x,
      s.xq w = some x ↔ s.xqs (s.kHandle x) = some x ∧ s.kHwQueue x = w) := by
  have hi := inv_reachable hr
  refine ⟨hi.running, fun hfree w x => ?_⟩
  have hwhole := whole_of_free hfree
  constructor
  · intro hx
    obtain ⟨-, hw, hin⟩ := hi.back w x hx
    exact ⟨hin.resolve_right (hwhole x).1, hw⟩
  · rintro ⟨hx, rfl⟩
    exact (hi.fwd _ x hx).resolve_right (hwhole x).2

/-- An HwQueue gets its XQueue, and is asked for another, which looks up the one it has. -/
def addTrace : List Act :=
  [.hwAdd 7 true, .xqAdd 7 1 0, .xqStep 0, .xqStep 0, .xqStep 100, .xqStep 0, .xqStep 0,
    .xqAdd 7 1 0, .xqStep 0, .xqStep 0]

theorem assertions_hold_added : ∃ s s', LTS.exec step init addTrace = some s ∧
    s.xqRegion = some (.found 0) ∧ step s (.xqStep 0) = some s' ∧ s'.aborted = false ∧
    s'.xq 0 = some 0 := by
  have htrace : ((LTS.exec step init addTrace).bind fun s =>
      (step s (.xqStep 0)).map fun s' => (s.xqRegion, s'.xqRegion, s'.xqs 100, s'.kHandle 0,
        s'.kHwQueue 0)) = some (some (.found 0), none, some 0, 100, 0) := by decide
  obtain ⟨s, hs, htrace⟩ := Option.bind_eq_some_iff.1 htrace
  obtain ⟨s', hs', heq⟩ := Option.map_eq_some_iff.1 htrace
  simp only [Prod.mk.injEq] at heq
  obtain ⟨hfound, hfree, hin, hhandle, hw⟩ := heq
  obtain ⟨hrunning, hiff⟩ := assertions_hold (.step (LTS.reachable_of_exec rfl hs) hs')
  exact ⟨s, s', hs, hfound, hs', hrunning, (hiff hfree 0 0).2 ⟨by rw [hhandle]; exact hin, hw⟩⟩

/-! ## HwQueues that are not in the map -/

/-- Every HwQueue that has an XQueue is in the map. -/
def Registered (s : Managers) : Prop :=
  ∀ w x, s.xq w = some x → s.hwqs (s.hwHandle w) = some w

/-- An HwQueue is erased only if it has no XQueue by then, and gets an XQueue only
if it is still in the map. -/
def inTime (s : Managers) : Act → Bool
  | .hwStep =>
    match s.hwRegion with
    | some (.erase _ w) => (s.xq w).isNone
    | _ => true
  | .xqStep _ =>
    match s.xqRegion with
    | some (.set w _) => decide (s.hwqs (s.hwHandle w) = some w)
    | _ => true
  | _ => true

def InTime (s : Managers) (act : Act) : Prop := s.inTime act = true

instance (s : Managers) (act : Act) : Decidable (InTime s act) :=
  inferInstanceAs (Decidable (_ = true))

section
variable {s s' : Managers} {act : Act}

theorem registered_step (hi : s.Inv) (hreg : s.Registered) (hs : StepCases s act s') :
    s'.Registered ↔ s.InTime act := by
  have hother {r : XqRegion} (hregion : s.xqRegion = some r) (hr : ∀ w x, r ≠ .set w x)
      (h : XQueueHandle) : s.InTime (.xqStep h) := by
    simp only [InTime, inTime, hregion]
    cases r <;> first | rfl | exact absurd rfl (hr _ _)
  have hread {h : HwQueueHandle} {w : HwQueue} (hregion : s.hwRegion = some (.read h w)) :
      s.InTime .hwStep := by simp only [InTime, inTime, hregion]
  cases hs with
  | same hact =>
    refine iff_of_true hreg ?_
    cases act <;> trivial
  | hwCreate free hnone =>
    refine iff_of_true (fun w x hx => ?_) rfl
    have hw : w ≠ s.nextHw := by
      rintro rfl
      rw [hi.unused _ (Nat.le_refl _)] at hx
      cases hx
    have hold := hreg w x hx
    change update s.hwqs _ _ (update s.hwHandle s.nextHw _ w) = some w
    rw [Function.update_of_ne hw]
    refine (Function.update_of_ne ?_ _ _).trans hold
    intro heq
    rw [heq, hnone] at hold
    cases hold
  | hwRefused hregion => exact iff_of_true hreg (hread hregion)
  | hwRead hregion => exact iff_of_true hreg (hread hregion)
  | @hwErase h w hregion =>
    have hmap := hi.hwErase h w (.inr hregion)
    have hhandle := (hi.hwMap h w hmap).2
    simp only [InTime, inTime, hregion, Option.isNone_iff_eq_none]
    constructor
    · intro hreg'
      cases hx : s.xq w with
      | none => rfl
      | some x =>
        have hin : update s.hwqs h none (s.hwHandle w) = some w := hreg' w x hx
        rw [hhandle, Function.update_self] at hin
        cases hin
    · intro hin w' x hx
      have hold := hreg w' x hx
      refine (Function.update_of_ne ?_ _ _).trans hold
      intro heq
      rw [heq, hmap] at hold
      cases hold
      rw [show s.xq w = some x from hx] at hin
      cases hin
  | @set h w x hregion =>
    simp only [InTime, inTime, hregion, decide_eq_true_eq]
    constructor
    · exact fun hreg' => hreg' w x (Function.update_self ..)
    · intro hin w' x' hx'
      by_cases hw : w' = w
      · subst hw
        exact hin
      · exact hreg w' x' ((Function.update_of_ne hw _ s.xq).symm.trans hx')
  | @reset _ y hregion =>
    refine iff_of_true (fun w x hx => ?_) (hother hregion (fun _ _ => nofun) _)
    by_cases hw : w = s.kHwQueue y
    · subst hw
      cases (Function.update_self _ _ s.xq).symm.trans hx
    · exact hreg w x ((Function.update_of_ne hw _ s.xq).symm.trans hx)
  | hwDel free hw => exact iff_of_true hreg rfl
  | xqAdd free => exact iff_of_true hreg rfl
  | xqDel free hx => exact iff_of_true hreg rfl
  | notFound hregion => exact iff_of_true hreg (hother hregion (fun _ _ => nofun) _)
  | get hregion hw => exact iff_of_true hreg (hother hregion (fun _ _ => nofun) _)
  | checkNone hregion hx => exact iff_of_true hreg (hother hregion (fun _ _ => nofun) _)
  | checkSome hregion hx => exact iff_of_true hreg (hother hregion (fun _ _ => nofun) _)
  | found hregion => exact iff_of_true hreg (hother hregion (fun _ _ => nofun) _)
  | abort hregion hx => exact iff_of_true hreg (hother hregion (fun _ _ => nofun) _)
  | construct hregion hfree => exact iff_of_true hreg (hother hregion (fun _ _ => nofun) _)
  | insert hregion => exact iff_of_true hreg (hother hregion (fun _ _ => nofun) _)
  | erase hregion => exact iff_of_true hreg (hother hregion (fun _ _ => nofun) _)

/-- One XQueue at most for a handle of an HwQueue. -/
def OneEach (s : Managers) : Prop :=
  ∀ h₁ x₁ h₂ x₂, s.xqs h₁ = some x₁ → s.xqs h₂ = some x₂ →
    s.hwHandle (s.kHwQueue x₁) = s.hwHandle (s.kHwQueue x₂) → x₁ = x₂

theorem oneEach_of_registered (hi : s.Inv) (hreg : s.Registered) (hfree : s.xqRegion = none) :
    s.OneEach := by
  intro h₁ x₁ h₂ x₂ hx₁ hx₂ heq
  have hwhole := whole_of_free hfree
  have hb₁ := (hi.fwd h₁ x₁ hx₁).resolve_right (hwhole x₁).2
  have hb₂ := (hi.fwd h₂ x₂ hx₂).resolve_right (hwhole x₂).2
  have hr₁ := hreg _ _ hb₁
  have hr₂ := hreg _ _ hb₂
  rw [heq, hr₂] at hr₁
  rw [Option.some.inj hr₁, hb₁] at hb₂
  exact Option.some.inj hb₂

end

/-- A run keeps every HwQueue with an XQueue in its map exactly if its steps are in time. -/
theorem registered_iff (acts : List Act) :
    (LTS.Throughout step Registered init acts ↔ LTS.EachStep step InTime init acts) ∧
      ∀ s, LTS.EachStep step InTime init acts → LTS.exec step init acts = some s →
        s.xqRegion = none → s.OneEach := by
  have hiff : LTS.Throughout step Registered init acts ↔ LTS.EachStep step InTime init acts := by
    have hinit : lts.Reachable init := LTS.reachable_init rfl
    refine LTS.throughout_iff ?_ hinit ?_ acts
    · exact fun s act s' hr hreg hs => registered_step (inv_reachable hr) hreg (step_cases hs)
    · intro w x hx
      cases hx
  refine ⟨hiff, fun s hin hexec hfree => ?_⟩
  exact oneEach_of_registered (inv_reachable (LTS.reachable_of_exec rfl hexec))
    ((hiff.2 hin).last hexec) hfree

/-- An HwQueue and its XQueue are created and destroyed. -/
def onceTrace : List Act :=
  [.hwAdd 7 true, .xqAdd 7 1 0, .xqStep 0, .xqStep 0, .xqStep 100, .xqStep 0, .xqStep 0,
    .hwDel 7, .hwStep, .xqDel 100, .xqStep 0, .xqStep 0, .hwDel 7, .hwStep, .hwStep]

theorem registered_iff_once : LTS.Throughout step Registered init onceTrace := by
  have hexec : (LTS.exec (LTS.guarded InTime step) init onceTrace).isSome = true := by decide
  obtain ⟨s, hs⟩ := Option.isSome_iff_exists.1 hexec
  exact (registered_iff onceTrace).1.2 (LTS.eachStep_of_exec hs).1

/-- `XQueueManager::Add` has found the HwQueue, which is destroyed and created again
before it gets its XQueue. -/
def twoTrace : List Act :=
  [.hwAdd 7 true, .xqAdd 7 1 0, .xqStep 0, .xqStep 0, .xqStep 100,
    .hwDel 7, .hwStep, .hwStep, .hwAdd 7 true,
    .xqStep 0, .xqStep 0, .xqAdd 7 1 0, .xqStep 0, .xqStep 0, .xqStep 200, .xqStep 0, .xqStep 0]

/-- Two XQueues for one handle. -/
theorem two_xQueues : ∃ s, lts.Reachable s ∧ s.xqRegion = none ∧ ¬ s.OneEach := by
  have htrace : ((LTS.exec step init twoTrace).map fun s =>
      (s.xqRegion, s.xqs 100, s.xqs 200, s.hwHandle (s.kHwQueue 0), s.hwHandle (s.kHwQueue 1))) =
        some (none, some 0, some 1, 7, 7) := by decide
  obtain ⟨s, hs, heq⟩ := Option.map_eq_some_iff.1 htrace
  simp only [Prod.mk.injEq] at heq
  obtain ⟨hfree, h₁, h₂, hw₁, hw₂⟩ := heq
  refine ⟨s, LTS.reachable_of_exec rfl hs, hfree, fun hone => ?_⟩
  exact absurd (hone 100 0 200 1 h₁ h₂ (hw₁.trans hw₂.symm)) (by decide)

end Managers
end Xsched.Preempt
