import Mathlib.Logic.Function.Basic
import Xsched.Sched.Config

/-!
# One child in flight

A suspended XQueue stops between two commands, so the children of a split
launch are to run one by one: before the first of them `SetLpSplitThresholdOnce`
sets the threshold and the batch size of the XQueue to 1. That it does so once
is kept in a global set of handles.

**The break.** The handle of an XQueue is its address, and the set is never
emptied: an XQueue at the address of a destroyed one is taken for it and is never
configured. The handle is also inserted before the configuration has begun, so a
second launch does not wait for the first and submits its children to an XQueue
with a threshold of 16.

**The system.** `Obj` is an XQueue, which no other one is, whatever its handle; its
log is what the LaunchWorker has in flight. A launch holds the XQueue from its
beginning to its end.

**Results.**
* `children_single_flight`: in a run, each child is submitted to an XQueue that was
  configured exactly if each is to one whose handle was new and which nobody is
  about to configure (`Settled`); then no log has two children, and none is
  launched while another one was in flight when the XQueue was suspended.
* `children_in_flight`: one XQueue after the other at one address; two launches.
-/
namespace Xsched.HbSplit
namespace SingleFlight

open Sched (XQueueHandle XQueueConfig XDevice XPreemptLevel)
open Function (update)

/-! ## An XQueue -/

inductive Command where
  | child
  | other
  deriving DecidableEq

/-- `buffer` ends with the youngest command, as `log` does. Ghosts: `known`, whether the
handle was in the set when the XQueue was created; `configured`, whether a
`SetLaunchConfig(1, 1)` has returned; `ran`, the children that were in flight at the
last suspension or launched after it. -/
structure Obj where
  handle : XQueueHandle
  config : XQueueConfig
  suspended : Bool
  buffer : List Command
  log : List Command
  known : Bool
  configured : Bool
  ran : Nat

/-- What is done with an XQueue but its configuration. -/
inductive Work where
  | submit (cmd : Command)
  | launch
  | skip
  | complete (n : Nat)
  | suspend
  | resume (drop : Bool)
  deriving DecidableEq

namespace Obj

/-- mirrors preempt/src/xqueue/async_xqueue.cpp:13-33 -/
def new (handle : XQueueHandle) (config : XQueueConfig) (known : Bool) : Obj where
  handle
  config
  suspended := false
  buffer := []
  log := []
  known
  configured := false
  ran := 0

def work (x : Obj) : Work → Option Obj
  -- mirrors preempt/src/xqueue/async_xqueue.cpp:47-54
  | .submit cmd => some { x with buffer := x.buffer ++ [cmd] }
  -- mirrors preempt/src/xqueue/launch_worker.cpp:192-249; a worker that has
  -- waited for room does not look at the pause
  | .launch =>
    match x.buffer with
    | [] => none
    | cmd :: buffer =>
      if (x.log.length : Int) < x.config.threshold then
        some { x with
          buffer
          log := x.log ++ [cmd]
          ran := if cmd = .child then x.ran + 1 else x.ran }
      else none
  -- a command up to the drop index: mirrors preempt/src/xqueue/launch_worker.cpp:229-232
  | .skip => some { x with buffer := x.buffer.tail }
  -- not across a pause: mirrors preempt/src/xqueue/launch_worker.cpp:257-359
  | .complete n => if x.suspended then none else some { x with log := x.log.drop n }
  -- mirrors preempt/src/xqueue/launch_worker.cpp:33-39
  | .suspend =>
    if x.suspended then none
    else some { x with suspended := true, ran := x.log.count .child }
  -- mirrors preempt/src/xqueue/async_xqueue.cpp:122-159
  | .resume drop =>
    if x.suspended then
      if drop then some { x with suspended := false, buffer := [], log := [] }
      else some { x with suspended := false }
    else none

/-- mirrors preempt/src/xqueue/async_xqueue.cpp:213 -/
def setLaunchConfig (x : Obj) : Obj :=
  { x with
    config := ((x.config.setLaunchConfig 1 1).map Prod.fst).getD x.config
    configured := true }

end Obj

/-! ## The launches -/

abbrev ObjId := Nat
abbrev LaunchId := Nat

/-- Where a split launch is. -/
inductive Pc where
  | start
  /-- It has inserted the handle, and waits in `SetLaunchConfig` for what was submitted. -/
  | waiting
  /-- `WaitAll` has returned. -/
  | configuring
  | submitting
  | finished
  deriving DecidableEq

structure Launch where
  obj : ObjId
  pc : Pc
  deriving DecidableEq

/-- `adjusted` is `g_threshold_adjusted_xqueues`. -/
structure State where
  objs : ObjId → Option Obj
  created : Nat
  launches : List Launch
  adjusted : XQueueHandle → Bool

inductive Act where
  | create (handle : XQueueHandle) (device : XDevice) (level : XPreemptLevel)
      (dynamicLevel : Bool) (maxLevel : XPreemptLevel)
  | destroy (id : ObjId)
  | launch (id : ObjId)
  | guard (l : LaunchId)
  | waitAll (l : LaunchId)
  | setLaunchConfig (l : LaunchId)
  | submit (l : LaunchId)
  | finish (l : LaunchId)
  | work (id : ObjId) (work : Work)

namespace State

def setObj (s : State) (id : ObjId) (x : Option Obj) : State :=
  { s with objs := update s.objs id x }

def goto (s : State) (l : LaunchId) (pc : Pc) : State :=
  { s with launches := s.launches.modify l fun launch => { launch with pc } }

/-- The XQueue of a launch that is at `pc`. -/
def objAt (s : State) (l : LaunchId) (pc : Pc) : Option (ObjId × Obj) :=
  match s.launches[l]? with
  | none => none
  | some launch =>
    if launch.pc = pc then (s.objs launch.obj).map fun x => (launch.obj, x) else none

end State

def init : State where
  objs := fun _ => none
  created := 0
  launches := []
  adjusted := fun _ => false

def step (s : State) : Act → Option State
  -- no two XQueues have one address
  | .create handle device level dynamicLevel maxLevel =>
    if ∀ id < s.created, (s.objs id).all fun x => x.handle ≠ handle then
      some { s with
        objs := update s.objs s.created
          (some (.new handle (.new device level dynamicLevel maxLevel) (s.adjusted handle)))
        created := s.created + 1 }
    else none
  -- mirrors preempt/src/xqueue/async_xqueue.cpp:35-45
  | .destroy id =>
    match s.objs id with
    | none => none
    | some x =>
      if x.buffer = [] ∧ x.log = [] ∧
          ∀ launch ∈ s.launches, launch.obj = id → launch.pc = .finished then
        some (s.setObj id none)
      else none
  | .launch id =>
    if (s.objs id).isSome then some { s with launches := s.launches ++ [⟨id, .start⟩] } else none
  -- mirrors platforms/cuda/hal/src/hb_split/backend.cpp:796-800
  | .guard l =>
    match s.objAt l .start with
    | none => none
    | some (_, x) =>
      if s.adjusted x.handle then some (s.goto l .submitting)
      else some { s.goto l .waiting with adjusted := update s.adjusted x.handle true }
  -- mirrors preempt/src/xqueue/async_xqueue.cpp:212
  | .waitAll l =>
    match s.objAt l .waiting with
    | none => none
    | some (_, x) => if x.log = [] then some (s.goto l .configuring) else none
  -- mirrors preempt/src/xqueue/async_xqueue.cpp:213
  | .setLaunchConfig l =>
    match s.objAt l .configuring with
    | none => none
    | some (id, x) => some ((s.goto l .submitting).setObj id (some x.setLaunchConfig))
  -- mirrors platforms/cuda/hal/src/hb_split/backend.cpp:908
  | .submit l =>
    match s.objAt l .submitting with
    | none => none
    | some (id, x) => (x.work (.submit .child)).map fun x' => s.setObj id (some x')
  | .finish l =>
    match s.objAt l .submitting with
    | none => none
    | some _ => some (s.goto l .finished)
  -- the children are submitted by the launches
  | .work id work =>
    match s.objs id with
    | none => none
    | some x =>
      if work = .submit .child then none
      else (x.work work).map fun x' => s.setObj id (some x')

def system : LTS State Act := .ofFn (· = init) step

/-! ## What is to hold -/

/-- A child is submitted to an XQueue that was configured. -/
def Configured (s : State) : Act → Prop
  | .submit l => ∀ r ∈ s.objAt l .submitting, r.2.configured = true
  | _ => True

/-- The launch is in `SetLaunchConfig` for the XQueue. -/
def Launch.Configures (launch : Launch) (id : ObjId) : Prop :=
  launch.obj = id ∧ (launch.pc = .waiting ∨ launch.pc = .configuring)

instance (launch : Launch) (id : ObjId) : Decidable (launch.Configures id) :=
  inferInstanceAs (Decidable (_ ∧ _))

/-- A child is submitted to an XQueue whose handle was new, and nobody is about to
configure it. -/
def Settled (s : State) : Act → Prop
  | .submit l => ∀ r ∈ s.objAt l .submitting,
      r.2.known = false ∧ ∀ launch ∈ s.launches, ¬ launch.Configures r.1
  | _ => True

instance (s : State) : (a : Act) → Decidable (Configured s a)
  | .submit l => inferInstanceAs (Decidable (∀ r ∈ s.objAt l .submitting, _))
  | .create .. | .destroy _ | .launch _ | .guard _ | .waitAll _ | .setLaunchConfig _ | .finish _
  | .work .. => .isTrue trivial

instance (s : State) : (a : Act) → Decidable (Settled s a)
  | .submit l => inferInstanceAs (Decidable (∀ r ∈ s.objAt l .submitting, _))
  | .create .. | .destroy _ | .launch _ | .guard _ | .waitAll _ | .setLaunchConfig _ | .finish _
  | .work .. => .isTrue trivial

/-- One child is in flight at most, and one runs in a suspension. -/
def OneInFlight (s : State) : Prop :=
  ∀ id x, s.objs id = some x → x.log.count .child ≤ 1 ∧ (x.suspended = true → x.ran ≤ 1)

/-! ## The set and the XQueues -/

/-- The launch `l` is in `SetLaunchConfig` for the XQueue. -/
def Configuring (s : State) (id : ObjId) (l : LaunchId) : Prop :=
  ∃ launch, s.launches[l]? = some launch ∧ launch.Configures id

/-- What the set knows of an XQueue, and who configures it. -/
inductive Stage (s : State) (id : ObjId) (x : Obj) : Prop where
  | fresh (hset : s.adjusted x.handle = false) (hknown : x.known = false)
      (hconf : x.configured = false) (hwho : ∀ l, ¬ Configuring s id l)
  | known (hset : s.adjusted x.handle = true) (hknown : x.known = true)
      (hconf : x.configured = false) (hwho : ∀ l, ¬ Configuring s id l)
  | configuring (hset : s.adjusted x.handle = true) (hknown : x.known = false)
      (hconf : x.configured = false) (l : LaunchId) (hwho : ∀ i, Configuring s id i ↔ i = l)
  | configured (hset : s.adjusted x.handle = true) (hknown : x.known = false)
      (hconf : x.configured = true) (hthreshold : x.config.threshold = 1)
      (hwho : ∀ l, ¬ Configuring s id l)

/-- What holds of the XQueues and of who holds them. -/
structure Objects (s : State) : Prop where
  fresh : ∀ id, s.created ≤ id → s.objs id = none
  distinct : ∀ id id' x x', s.objs id = some x → s.objs id' = some x' → x.handle = x'.handle →
    id = id'
  held : ∀ (l : LaunchId) (launch : Launch), s.launches[l]? = some launch →
    launch.pc ≠ .finished → ∃ x, s.objs launch.obj = some x
  guarded : ∀ (l : LaunchId) (launch : Launch) (x : Obj), s.launches[l]? = some launch →
    launch.pc = .submitting → s.objs launch.obj = some x → s.adjusted x.handle = true

structure Inv (s : State) : Prop extends Objects s where
  stage : ∀ id x, s.objs id = some x → Stage s id x

section
variable {s s' : State} {id : ObjId} {x x' : Obj} {l i : LaunchId} {launch : Launch} {pc : Pc}

theorem objAt_eq_some :
    s.objAt l pc = some (id, x) ↔ s.launches[l]? = some ⟨id, pc⟩ ∧ s.objs id = some x := by
  unfold State.objAt
  cases hl : s.launches[l]? with
  | none => simp
  | some launch =>
    obtain ⟨obj, pc'⟩ := launch
    dsimp only
    constructor
    · intro h
      split at h
      · next hpc =>
        obtain ⟨y, hy, he⟩ := Option.map_eq_some_iff.1 h
        cases he
        exact ⟨by rw [hpc], hy⟩
      · cases h
    · rintro ⟨he, hx⟩
      cases he
      rw [if_pos rfl, hx]
      rfl

theorem goto_launches (hl : s.launches[l]? = some launch) :
    (s.goto l pc).launches[i]? = if i = l then some ⟨launch.obj, pc⟩ else s.launches[i]? := by
  unfold State.goto
  dsimp only
  rw [List.getElem?_modify]
  split
  · next he =>
    rw [if_pos he.symm, ← he, hl]
    rfl
  · next hne =>
    rw [if_neg (Ne.symm hne)]
    exact Option.map_id'

/-- A step between two places that are both in `SetLaunchConfig`, or both not. -/
theorem configuring_goto (hl : s.launches[l]? = some launch)
    (hpc : (launch.pc = .waiting ∨ launch.pc = .configuring) ↔ (pc = .waiting ∨ pc = .configuring)) :
    Configuring (s.goto l pc) id i ↔ Configuring s id i := by
  unfold Configuring
  rw [goto_launches hl]
  split
  · next hi =>
    rw [hi, hl]
    simp only [Option.some.injEq, exists_eq_left', Launch.Configures, hpc]
  · exact Iff.rfl

theorem Stage.congr (h : Stage s id x) (hset : s'.adjusted x'.handle = s.adjusted x.handle)
    (hknown : x'.known = x.known) (hconf : x'.configured = x.configured)
    (hconfig : x'.config = x.config) (hwho : ∀ l, Configuring s' id l ↔ Configuring s id l) :
    Stage s' id x' := by
  cases h with
  | fresh hs hk hc hw =>
    exact .fresh (hset.trans hs) (hknown.trans hk) (hconf.trans hc) fun l h => hw l ((hwho l).1 h)
  | known hs hk hc hw =>
    exact .known (hset.trans hs) (hknown.trans hk) (hconf.trans hc) fun l h => hw l ((hwho l).1 h)
  | configuring hs hk hc l hw =>
    exact .configuring (hset.trans hs) (hknown.trans hk) (hconf.trans hc) l
      fun i => (hwho i).trans (hw i)
  | configured hs hk hc ht hw =>
    exact .configured (hset.trans hs) (hknown.trans hk) (hconf.trans hc) (by rw [hconfig, ht])
      fun l h => hw l ((hwho l).1 h)

/-! ## Steps -/

theorem Obj.work_keeps {w : Work} (h : x.work w = some x') :
    x'.handle = x.handle ∧ x'.known = x.known ∧ x'.configured = x.configured ∧
      x'.config = x.config := by
  cases w with
  | submit cmd | skip =>
    cases h
    exact ⟨rfl, rfl, rfl, rfl⟩
  | launch =>
    unfold Obj.work at h
    dsimp only at h
    split at h
    · cases h
    split at h
    · cases h
      exact ⟨rfl, rfl, rfl, rfl⟩
    · cases h
  | complete n | suspend =>
    unfold Obj.work at h
    dsimp only at h
    split at h
    · cases h
    · cases h
      exact ⟨rfl, rfl, rfl, rfl⟩
  | resume drop =>
    unfold Obj.work at h
    dsimp only at h
    split at h
    · split at h
      · cases h
        exact ⟨rfl, rfl, rfl, rfl⟩
      · cases h
        exact ⟨rfl, rfl, rfl, rfl⟩
    · cases h

/-- What a step does to the XQueues, the launches and the set. -/
inductive Does (s : State) (a : Act) (s' : State) : Prop where
  | creates (handle : XQueueHandle) (config : XQueueConfig)
      (hnew : ∀ id x, id < s.created → s.objs id = some x → x.handle ≠ handle)
      (hs : s' = { s with
        objs := update s.objs s.created (some (.new handle config (s.adjusted handle)))
        created := s.created + 1 })
  | destroys (id : ObjId) (hdone : ∀ launch ∈ s.launches, launch.obj = id → launch.pc = .finished)
      (hs : s' = s.setObj id none)
  | launches (id : ObjId) (x : Obj) (hx : s.objs id = some x)
      (hs : s' = { s with launches := s.launches ++ [⟨id, .start⟩] })
  | passes (l : LaunchId) (id : ObjId) (x : Obj) (hat : s.objAt l .start = some (id, x))
      (hset : s.adjusted x.handle = true) (hs : s' = s.goto l .submitting)
  | inserts (l : LaunchId) (id : ObjId) (x : Obj) (hat : s.objAt l .start = some (id, x))
      (hset : s.adjusted x.handle = false)
      (hs : s' = { s.goto l .waiting with adjusted := update s.adjusted x.handle true })
  | waits (l : LaunchId) (id : ObjId) (x : Obj) (hat : s.objAt l .waiting = some (id, x))
      (hs : s' = s.goto l .configuring)
  | configures (l : LaunchId) (id : ObjId) (x : Obj) (hat : s.objAt l .configuring = some (id, x))
      (hs : s' = (s.goto l .submitting).setObj id (some x.setLaunchConfig))
  | ends (l : LaunchId) (id : ObjId) (x : Obj) (hat : s.objAt l .submitting = some (id, x))
      (hs : s' = s.goto l .finished)
  | works (id : ObjId) (w : Work) (x x' : Obj) (hx : s.objs id = some x)
      (hw : x.work w = some x') (hs : s' = s.setObj id (some x'))
      (hchild : w = .submit .child → ∃ l, a = .submit l ∧ s.objAt l .submitting = some (id, x))

theorem step_does {a : Act} (h : step s a = some s') : Does s a s' := by
  cases a with
  | create handle device level dynamicLevel maxLevel =>
    unfold step at h
    dsimp only at h
    split at h
    · next hnew =>
      cases h
      refine .creates handle _ (fun id x hid hx => ?_) rfl
      have := hnew id hid
      rw [hx] at this
      exact of_decide_eq_true this
    · cases h
  | destroy id =>
    unfold step at h
    dsimp only at h
    split at h
    · cases h
    split at h
    · next hdone =>
      cases h
      exact .destroys id hdone.2.2 rfl
    · cases h
  | launch id =>
    unfold step at h
    dsimp only at h
    split at h
    · next hsome =>
      cases h
      obtain ⟨x, hx⟩ := Option.isSome_iff_exists.1 hsome
      exact .launches id x hx rfl
    · cases h
  | guard l =>
    unfold step at h
    dsimp only at h
    split at h
    · cases h
    · next id x hat =>
      split at h
      · next hset =>
        cases h
        exact .passes l id x hat hset rfl
      · next hset =>
        cases h
        exact .inserts l id x hat (Bool.eq_false_iff.2 hset) rfl
  | waitAll l =>
    unfold step at h
    dsimp only at h
    split at h
    · cases h
    · next id x hat =>
      split at h
      · cases h
        exact .waits l id x hat rfl
      · cases h
  | setLaunchConfig l =>
    unfold step at h
    dsimp only at h
    split at h
    · cases h
    · next id x hat =>
      cases h
      exact .configures l id x hat rfl
  | submit l =>
    unfold step at h
    dsimp only at h
    split at h
    · cases h
    · next id x hat =>
      obtain ⟨x', hw, rfl⟩ := Option.map_eq_some_iff.1 h
      exact .works id _ x x' (objAt_eq_some.1 hat).2 hw rfl fun _ => ⟨l, rfl, hat⟩
  | finish l =>
    unfold step at h
    dsimp only at h
    split at h
    · cases h
    · next r hat =>
      cases h
      exact .ends l r.1 r.2 hat rfl
  | work id w =>
    unfold step at h
    dsimp only at h
    split at h
    · cases h
    · next x hx =>
      split at h
      · cases h
      · next hne =>
        obtain ⟨x', hw, rfl⟩ := Option.map_eq_some_iff.1 h
        exact .works id w x x' hx hw rfl fun he => absurd he hne

theorem not_configuring_of_obj (hl : s.launches[l]? = some launch) (hne : launch.obj ≠ id) :
    ¬ Configuring s id l := by
  rintro ⟨launch', hl', hobj, -⟩
  rw [hl] at hl'
  cases hl'
  exact hne hobj

/-- Another launch than the one that moves. -/
theorem configuring_goto_of_ne (hl : s.launches[l]? = some launch) (hne : i ≠ l) :
    Configuring (s.goto l pc) id i ↔ Configuring s id i := by
  unfold Configuring
  rw [goto_launches hl, if_neg hne]

theorem configuring_goto_self (hl : s.launches[l]? = some launch) :
    Configuring (s.goto l pc) id l ↔
      launch.obj = id ∧ (pc = .waiting ∨ pc = .configuring) := by
  unfold Configuring
  rw [goto_launches hl, if_pos rfl]
  simp only [Option.some.injEq, exists_eq_left', Launch.Configures]

theorem objs_setObj {y : Option Obj} {id' : ObjId} :
    (s.setObj id y).objs id' = if id' = id then y else s.objs id' := by
  unfold State.setObj
  dsimp only
  split
  · next he => rw [he, Function.update_self]
  · next hne => exact Function.update_of_ne hne ..

theorem Objects.goto (hi : Objects s) (hat : s.objAt l pc = some (id, x)) {pc' : Pc}
    (hset : pc' = .submitting → s.adjusted x.handle = true) : Objects (s.goto l pc') := by
  obtain ⟨hl, hx⟩ := objAt_eq_some.1 hat
  refine ⟨hi.fresh, hi.distinct, ?_, ?_⟩
  · intro i launch hi' hne
    rw [goto_launches hl] at hi'
    split at hi'
    · cases hi'
      exact ⟨x, hx⟩
    · exact hi.held i launch hi' hne
  · intro i launch y hi' hsub hy
    rw [goto_launches hl] at hi'
    split at hi'
    · cases hi'
      cases hx.symm.trans hy
      exact hset hsub
    · exact hi.guarded i launch y hi' hsub hy

theorem Objects.setObj (hi : Objects s) (hx : s.objs id = some x) (hhandle : x'.handle = x.handle) :
    Objects (s.setObj id (some x')) := by
  have hsame : ∀ id' y, (s.setObj id (some x')).objs id' = some y →
      ∃ y₀, s.objs id' = some y₀ ∧ y.handle = y₀.handle := by
    intro id' y hy
    rw [objs_setObj] at hy
    split at hy
    · next he =>
      cases hy
      exact ⟨x, he ▸ hx, hhandle⟩
    · exact ⟨y, hy, rfl⟩
  refine ⟨?_, ?_, ?_, ?_⟩
  · intro id' hid'
    rw [objs_setObj]
    split
    · next he =>
      subst he
      cases hx.symm.trans (hi.fresh id' hid')
    · exact hi.fresh id' hid'
  · intro id₁ id₂ y₁ y₂ hy₁ hy₂ he
    obtain ⟨z₁, hz₁, he₁⟩ := hsame id₁ y₁ hy₁
    obtain ⟨z₂, hz₂, he₂⟩ := hsame id₂ y₂ hy₂
    exact hi.distinct id₁ id₂ z₁ z₂ hz₁ hz₂ (he₁.symm.trans (he.trans he₂))
  · intro i launch hi' hne
    obtain ⟨y, hy⟩ := hi.held i launch hi' hne
    rw [objs_setObj]
    split
    · exact ⟨x', rfl⟩
    · exact ⟨y, hy⟩
  · intro i launch y hi' hsub hy
    obtain ⟨z, hz, he⟩ := hsame launch.obj y hy
    rw [he]
    exact hi.guarded i launch z hi' hsub hz

/-- A move of a launch that neither begins nor ends a configuration. -/
theorem Inv.goto (hi : Inv s) (hat : s.objAt l pc = some (id, x)) {pc' : Pc}
    (hpc : (pc = .waiting ∨ pc = .configuring) ↔ (pc' = .waiting ∨ pc' = .configuring))
    (hset : pc' = .submitting → s.adjusted x.handle = true) : Inv (s.goto l pc') := by
  refine ⟨hi.toObjects.goto hat hset, fun id' y hy => ?_⟩
  exact (hi.stage id' y hy).congr rfl rfl rfl rfl
    fun i => configuring_goto (objAt_eq_some.1 hat).1 hpc

/-- The configuration is over. -/
theorem Inv.configures (hi : Inv s) (hat : s.objAt l .configuring = some (id, x)) :
    Inv ((s.goto l .submitting).setObj id (some x.setLaunchConfig)) := by
  obtain ⟨hl, hx⟩ := objAt_eq_some.1 hat
  have hme : Configuring s id l := ⟨_, hl, rfl, .inr rfl⟩
  have hother : ∀ id' i, i ≠ l →
      (Configuring (s.goto l .submitting) id' i ↔ Configuring s id' i) :=
    fun _ _ hne => configuring_goto_of_ne hl hne
  have hdone : ∀ id', ¬ Configuring (s.goto l .submitting) id' l := by
    intro id' h
    rcases ((configuring_goto_self hl).1 h).2 with h | h
    · cases h
    · cases h
  cases hi.stage id x hx with
  | fresh _ _ _ hwho | known _ _ _ hwho | configured _ _ _ _ hwho => exact absurd hme (hwho l)
  | configuring hset hknown _ l' hwho =>
    cases (hwho l).1 hme
    refine ⟨(hi.toObjects.goto hat fun _ => hset).setObj hx rfl, fun id' y hy => ?_⟩
    rw [objs_setObj] at hy
    split at hy
    · next he =>
      subst he
      cases hy
      refine .configured hset hknown rfl rfl fun i h => ?_
      by_cases hne : i = l
      · exact hdone id' (hne ▸ h)
      · exact hne ((hwho i).1 ((hother id' i hne).1 h))
    · next hne =>
      refine (hi.stage id' y hy).congr rfl rfl rfl rfl fun i => ?_
      by_cases hi' : i = l
      · subst hi'
        exact iff_of_false (hdone id') (not_configuring_of_obj hl (Ne.symm hne))
      · exact hother id' i hi'

/-- The handle was not in the set. -/
theorem Inv.inserts (hi : Inv s) (hat : s.objAt l .start = some (id, x))
    (hset : s.adjusted x.handle = false) :
    Inv { s.goto l .waiting with adjusted := update s.adjusted x.handle true } := by
  obtain ⟨hl, hx⟩ := objAt_eq_some.1 hat
  have hgrow : ∀ handle, s.adjusted handle = true →
      update s.adjusted x.handle true handle = true := by
    intro handle h
    by_cases he : handle = x.handle
    · rw [he, Function.update_self]
    · rw [Function.update_of_ne he, h]
  have hobjs : Objects (s.goto l .waiting) := hi.toObjects.goto hat nofun
  refine ⟨⟨hobjs.fresh, hobjs.distinct, hobjs.held, ?_⟩, ?_⟩
  · exact fun i launch y hi' hsub hy => hgrow _ (hobjs.guarded i launch y hi' hsub hy)
  intro id' y hy
  by_cases he : id' = id
  · subst he
    cases hx.symm.trans hy
    cases hi.stage id' x hx with
    | known h | configuring h | configured h =>
      rw [hset] at h
      cases h
    | fresh _ hknown hconf hwho =>
      refine .configuring (Function.update_self ..) hknown hconf l fun i => ?_
      by_cases hne : i = l
      · rw [hne]
        exact iff_of_true ((configuring_goto_self hl).2 ⟨rfl, .inl rfl⟩) rfl
      · exact iff_of_false (fun h => hwho i ((configuring_goto_of_ne hl hne).1 h)) hne
  · have hhandle : y.handle ≠ x.handle := fun hh => he (hi.distinct id' id y x hy hx hh)
    refine (hi.stage id' y hy).congr (Function.update_of_ne hhandle ..) rfl rfl rfl fun i => ?_
    by_cases hne : i = l
    · subst hne
      have hobj := Ne.symm he
      exact iff_of_false (fun h => hobj ((configuring_goto_self hl).1 h).1)
        (not_configuring_of_obj hl hobj)
    · exact configuring_goto_of_ne hl hne

/-- No launch has the XQueue yet. -/
theorem Inv.creates (hi : Inv s) {handle : XQueueHandle} {config : XQueueConfig}
    (hnew : ∀ id x, id < s.created → s.objs id = some x → x.handle ≠ handle) :
    Inv { s with
      objs := update s.objs s.created (some (.new handle config (s.adjusted handle)))
      created := s.created + 1 } := by
  have hnone := hi.fresh s.created le_rfl
  have hbound : ∀ id x, s.objs id = some x → id < s.created := by
    intro id x hx
    by_contra hlt
    rw [hi.fresh id (not_lt.1 hlt)] at hx
    cases hx
  have hold : ∀ id x, update s.objs s.created
      (some (.new handle config (s.adjusted handle))) id = some x →
      id = s.created ∧ x = .new handle config (s.adjusted handle) ∨ s.objs id = some x := by
    intro id x hx
    rw [Function.update_apply] at hx
    split at hx
    · next he => exact .inl ⟨he, (Option.some.inj hx).symm⟩
    · exact .inr hx
  refine ⟨⟨?_, ?_, ?_, ?_⟩, ?_⟩
  · intro id hid
    have hlt : s.created < id := hid
    exact (Function.update_of_ne (Nat.ne_of_gt hlt) ..).trans (hi.fresh id (Nat.le_of_lt hlt))
  · intro id id' x x' hx hx' he
    rcases hold id x hx with ⟨hid, rfl⟩ | hx
    · rcases hold id' x' hx' with ⟨hid', -⟩ | hx'
      · rw [hid, hid']
      · exact absurd he.symm (hnew id' x' (hbound id' x' hx') hx')
    · rcases hold id' x' hx' with ⟨-, rfl⟩ | hx'
      · exact absurd he (hnew id x (hbound id x hx) hx)
      · exact hi.distinct id id' x x' hx hx' he
  · intro i launch hi' hne
    obtain ⟨x, hx⟩ := hi.held i launch hi' hne
    exact ⟨x, (Function.update_of_ne (Nat.ne_of_lt (hbound _ x hx)) ..).trans hx⟩
  · intro i launch x hi' hsub hx
    rcases hold launch.obj x hx with ⟨hid, -⟩ | hx
    · obtain ⟨y, hy⟩ := hi.held i launch hi' (by rw [hsub]; nofun)
      rw [hid, hnone] at hy
      cases hy
    · exact hi.guarded i launch x hi' hsub hx
  · intro id x hx
    rcases hold id x hx with ⟨rfl, rfl⟩ | hx
    · have hwho : ∀ i, ¬ Configuring s s.created i := by
        rintro i ⟨launch, hi', hobj, hpc⟩
        obtain ⟨y, hy⟩ := hi.held i launch hi' (by rcases hpc with h | h <;> rw [h] <;> nofun)
        rw [hobj, hnone] at hy
        cases hy
      cases hset : s.adjusted handle with
      | false => exact .fresh hset rfl rfl hwho
      | true => exact .known hset rfl rfl hwho
    · exact (hi.stage id x hx).congr rfl rfl rfl rfl fun _ => Iff.rfl

theorem Inv.destroys (hi : Inv s)
    (hdone : ∀ launch ∈ s.launches, launch.obj = id → launch.pc = .finished) :
    Inv (s.setObj id none) := by
  have hold : ∀ id' x, (s.setObj id none).objs id' = some x → s.objs id' = some x := by
    intro id' x hx
    rw [objs_setObj] at hx
    split at hx
    · cases hx
    · exact hx
  refine ⟨⟨?_, ?_, ?_, ?_⟩, ?_⟩
  · intro id' hid'
    rw [objs_setObj]
    split
    · rfl
    · exact hi.fresh id' hid'
  · intro id₁ id₂ x₁ x₂ hx₁ hx₂ he
    exact hi.distinct id₁ id₂ x₁ x₂ (hold id₁ x₁ hx₁) (hold id₂ x₂ hx₂) he
  · intro i launch hi' hne
    obtain ⟨x, hx⟩ := hi.held i launch hi' hne
    refine ⟨x, ?_⟩
    rw [objs_setObj, if_neg]
    · exact hx
    · exact fun he => hne (hdone launch (List.mem_of_getElem? hi') he)
  · exact fun i launch x hi' hsub hx => hi.guarded i launch x hi' hsub (hold launch.obj x hx)
  · intro id' x hx
    exact (hi.stage id' x (hold id' x hx)).congr rfl rfl rfl rfl fun _ => Iff.rfl

theorem Inv.launches (hi : Inv s) (hx : s.objs id = some x) :
    Inv { s with launches := s.launches ++ [⟨id, .start⟩] } := by
  have hold : ∀ (i : LaunchId) (launch : Launch),
      (s.launches ++ [⟨id, .start⟩])[i]? = some launch →
      s.launches[i]? = some launch ∨ launch = ⟨id, .start⟩ := by
    intro i launch h
    rw [List.getElem?_append] at h
    split at h
    · exact .inl h
    · exact .inr (List.mem_singleton.1 (List.mem_of_getElem? h))
  refine ⟨⟨hi.fresh, hi.distinct, ?_, ?_⟩, ?_⟩
  · intro i launch h hne
    rcases hold i launch h with h | rfl
    · exact hi.held i launch h hne
    · exact ⟨x, hx⟩
  · intro i launch y h hsub hy
    rcases hold i launch h with h | rfl
    · exact hi.guarded i launch y h hsub hy
    · cases hsub
  · intro id' y hy
    refine (hi.stage id' y hy).congr rfl rfl rfl rfl fun i => ?_
    constructor
    · rintro ⟨launch, h, hconf⟩
      rcases hold i launch h with h | rfl
      · exact ⟨launch, h, hconf⟩
      · rcases hconf.2 with h | h
        · cases h
        · cases h
    · rintro ⟨launch, h, hconf⟩
      obtain ⟨hlt, -⟩ := List.getElem?_eq_some_iff.1 h
      exact ⟨launch, (List.getElem?_append_left hlt).trans h, hconf⟩

theorem inv_step {a : Act} (hi : Inv s) (h : step s a = some s') : Inv s' := by
  cases step_does h with
  | creates handle config hnew hs =>
    subst hs
    exact hi.creates hnew
  | destroys id hdone hs =>
    subst hs
    exact hi.destroys hdone
  | launches id x hx hs =>
    subst hs
    exact hi.launches hx
  | passes l id x hat hset hs =>
    subst hs
    exact hi.goto hat (by simp) fun _ => hset
  | inserts l id x hat hset hs =>
    subst hs
    exact hi.inserts hat hset
  | waits l id x hat hs =>
    subst hs
    exact hi.goto hat (by simp) nofun
  | configures l id x hat hs =>
    subst hs
    exact hi.configures hat
  | ends l id x hat hs =>
    subst hs
    exact hi.goto hat (by simp) nofun
  | works id w x x' hx hw hs =>
    subst hs
    obtain ⟨hhandle, hknown, hconf, hconfig⟩ := Obj.work_keeps hw
    refine ⟨hi.toObjects.setObj hx hhandle, fun id' y hy => ?_⟩
    rw [objs_setObj] at hy
    split at hy
    · next he =>
      subst he
      cases hy
      exact (hi.stage id' x hx).congr (congrArg s.adjusted hhandle) hknown hconf hconfig
        fun _ => Iff.rfl
    · exact (hi.stage id' y hy).congr rfl rfl rfl rfl fun _ => Iff.rfl

theorem inv_reachable (hr : system.Reachable s) : Inv s := by
  refine LTS.Inductive.reachable (I := Inv) ⟨?_, ?_⟩ s hr
  · intro s hs
    have hobjs : ∀ id, s.objs id = none := by
      rw [show s = init from hs]
      exact fun _ => rfl
    have hlaunches : s.launches = [] := by
      rw [show s = init from hs]
      rfl
    refine ⟨⟨fun id _ => hobjs id, ?_, ?_, ?_⟩, ?_⟩
    · intro id id' x x' hx
      rw [hobjs] at hx
      cases hx
    · intro l launch h
      rw [hlaunches] at h
      cases h
    · intro l launch x h
      rw [hlaunches] at h
      cases h
    · intro id x hx
      rw [hobjs] at hx
      cases hx
  · intro s a s' hi hs
    exact inv_step hi hs

/-- In a launch that submits, the set has the handle already; so the XQueue was
configured, or known before, or somebody is at it. -/
theorem configured_iff (hr : system.Reachable s) (a : Act) : Configured s a ↔ Settled s a := by
  have hi := inv_reachable hr
  cases a with
  | submit l =>
    refine forall_congr' fun r => forall_congr' fun hat => ?_
    obtain ⟨id, x⟩ := r
    dsimp only
    obtain ⟨hl, hx⟩ := objAt_eq_some.1 hat
    have hadj := hi.guarded l ⟨id, .submitting⟩ x hl rfl hx
    have hmem : (∀ launch ∈ s.launches, ¬ launch.Configures id) ↔ ∀ i, ¬ Configuring s id i := by
      constructor
      · rintro h i ⟨launch, hi', hc⟩
        exact h launch (List.mem_of_getElem? hi') hc
      · intro h launch hin hc
        obtain ⟨i, hi'⟩ := List.mem_iff_getElem?.1 hin
        exact h i ⟨launch, hi', hc⟩
    rw [hmem]
    cases hi.stage id x hx with
    | fresh hset =>
      rw [hadj] at hset
      cases hset
    | known _ hknown hconf _ =>
      rw [hknown, hconf]
      simp
    | configuring _ _ hconf l' hwho =>
      rw [hconf]
      refine iff_of_false nofun fun h => h.2 l' ((hwho l').2 rfl)
    | configured _ hknown hconf _ hwho => exact iff_of_true hconf ⟨hknown, hwho⟩
  | create | destroy | launch | guard | waitAll | setLaunchConfig | finish | work => exact Iff.rfl

/-! ## One child in flight -/

/-- A child has the XQueue for itself. -/
structure Alone (x : Obj) : Prop where
  configured : .child ∈ x.buffer ∨ .child ∈ x.log → x.configured = true
  alone : .child ∈ x.log → x.log.length = 1
  ran : x.suspended = true → x.ran = x.log.count .child

theorem Alone.work (ha : Alone x) (hthreshold : x.configured = true → x.config.threshold = 1)
    {w : Work} (hw : x.work w = some x') (hchild : w = .submit .child → x.configured = true) :
    Alone x' := by
  cases w with
  | submit cmd =>
    cases hw
    refine ⟨fun h => ?_, ha.alone, ha.ran⟩
    rcases h with h | h
    · rcases List.mem_append.1 h with h | h
      · exact ha.configured (.inl h)
      · exact hchild (by rw [List.mem_singleton.1 h])
    · exact ha.configured (.inr h)
  | launch =>
    unfold Obj.work at hw
    dsimp only at hw
    split at hw
    · cases hw
    next cmd buffer hbuffer =>
    split at hw
    · next hroom =>
      cases hw
      have hconf : .child ∈ cmd :: buffer ∨ .child ∈ x.log → x.configured = true :=
        fun h => ha.configured (by rwa [hbuffer])
      have hempty : x.configured = true → x.log = [] := by
        intro h
        rw [hthreshold h] at hroom
        exact List.length_eq_zero_iff.1 (by omega)
      refine ⟨fun h => ?_, fun h => ?_, fun h => ?_⟩
      · rcases h with h | h
        · exact hconf (.inl (List.mem_cons_of_mem _ h))
        · rcases List.mem_append.1 h with h | h
          · exact hconf (.inr h)
          · exact hconf (.inl (List.mem_cons.2 (.inl (List.mem_singleton.1 h))))
      · have hlog : x.log = [] := by
          rcases List.mem_append.1 h with h | h
          · exact hempty (hconf (.inr h))
          · exact hempty (hconf (.inl (List.mem_cons.2 (.inl (List.mem_singleton.1 h)))))
        dsimp only
        rw [hlog]
        rfl
      · have hran := ha.ran h
        dsimp only
        rw [List.count_append, hran]
        cases cmd with
        | child => rfl
        | other => rfl
    · cases hw
  | skip =>
    cases hw
    exact ⟨fun h => ha.configured (h.imp_left List.mem_of_mem_tail), ha.alone, ha.ran⟩
  | complete n =>
    unfold Obj.work at hw
    dsimp only at hw
    split at hw
    · cases hw
    · next hrun =>
      cases hw
      refine ⟨fun h => ha.configured (h.imp_right List.mem_of_mem_drop), fun h => ?_,
        fun h => absurd h hrun⟩
      have hone := ha.alone (List.mem_of_mem_drop h)
      have hpos := List.length_pos_of_mem h
      simp only [List.length_drop] at hpos ⊢
      omega
  | suspend =>
    unfold Obj.work at hw
    dsimp only at hw
    split at hw
    · cases hw
    · cases hw
      exact ⟨ha.configured, ha.alone, fun _ => rfl⟩
  | resume drop =>
    unfold Obj.work at hw
    dsimp only at hw
    split at hw
    · split at hw
      · cases hw
        exact ⟨by simp, nofun, nofun⟩
      · cases hw
        exact ⟨ha.configured, ha.alone, nofun⟩
    · cases hw

theorem alone_reachable (hr : (system.restrict Settled).Reachable s) :
    ∀ id x, s.objs id = some x → Alone x := by
  refine LTS.reachable_induction (I := fun s => ∀ id x, s.objs id = some x → Alone x) ?_ ?_ hr
  · intro s hs id x hx
    rw [show s = init from hs] at hx
    cases hx
  · rintro s a s' hr ha ⟨hs, hok⟩ id y hy
    have hconf := (configured_iff hr.of_restrict a).2 hok
    have hi := inv_reachable hr.of_restrict
    cases step_does hs with
    | creates handle config _ hs =>
      subst hs
      dsimp only at hy
      rw [Function.update_apply] at hy
      split at hy
      · cases hy
        exact ⟨by simp [Obj.new], nofun, nofun⟩
      · exact ha id y hy
    | destroys id' _ hs =>
      subst hs
      rw [objs_setObj] at hy
      split at hy
      · cases hy
      · exact ha id y hy
    | launches _ _ _ hs | passes _ _ _ _ _ hs | inserts _ _ _ _ _ hs | waits _ _ _ _ hs
    | ends _ _ _ _ hs =>
      subst hs
      exact ha id y hy
    | configures l id' x hat hs =>
      subst hs
      rw [objs_setObj] at hy
      split at hy
      · cases hy
        have hx := ha id' x (objAt_eq_some.1 hat).2
        exact ⟨fun _ => rfl, hx.alone, hx.ran⟩
      · exact ha id y hy
    | works id' w x x' hx hw hs hchild =>
      subst hs
      rw [objs_setObj] at hy
      split at hy
      · cases hy
        refine (ha id' x hx).work ?_ hw ?_
        · intro hc
          cases hi.stage id' x hx with
          | fresh _ _ h | known _ _ h | configuring _ _ h =>
            rw [hc] at h
            cases h
          | configured _ _ _ hthreshold => exact hthreshold
        · intro he
          obtain ⟨l, rfl, hat⟩ := hchild he
          exact hconf (id', x) hat
      · exact ha id y hy

end

/-- **Split children run one by one** exactly in the runs in which each is submitted to
an XQueue with a new handle that nobody is about to configure. -/
theorem children_single_flight (acts : List Act) :
    (LTS.EachStep step Configured init acts ↔ LTS.EachStep step Settled init acts) ∧
      (LTS.EachStep step Settled init acts →
        ∀ s, LTS.exec step init acts = some s → OneInFlight s) := by
  have h0 : system.Reachable init := LTS.reachable_init rfl
  constructor
  · exact LTS.eachStep_congr (fun s a s' hr _ => configured_iff hr a) h0 acts
  · intro h s hs id x hx
    have hr : (system.restrict Settled).Reachable s := ⟨init, acts, rfl, h.run hs⟩
    have ha := alone_reachable hr id x hx
    have hone : x.log.count .child ≤ 1 := by
      by_cases hin : .child ∈ x.log
      · exact Nat.le_trans List.count_le_length (Nat.le_of_eq (ha.alone hin))
      · rw [List.count_eq_zero_of_not_mem hin]
        exact Nat.zero_le 1
    refine ⟨hone, fun hsusp => ?_⟩
    rw [ha.ran hsusp]
    exact hone

/-- The first launch on an XQueue, up to its children. -/
def configureTrace (id : ObjId) (l : LaunchId) : List Act :=
  [.launch id, .guard l, .waitAll l, .setLaunchConfig l]

/-- Two launches on an XQueue, the second after the configuration, and a suspension. -/
def inTurnTrace : List Act :=
  .create 7 0 1 false 1 :: configureTrace 0 0 ++
    [.submit 0, .submit 0, .launch 0, .guard 1, .work 0 .launch, .submit 1, .work 0 .suspend]

theorem children_single_flight_in_turn :
    ∃ s, LTS.exec step init inTurnTrace = some s ∧ OneInFlight s ∧
      (s.objs 0).map (fun x => (x.buffer.length, x.log.length, x.ran)) = some (2, 1, 1) := by
  have htrace : ((LTS.exec (LTS.guarded Settled step) init inTurnTrace).bind fun s =>
      (s.objs 0).map fun x => (x.buffer.length, x.log.length, x.ran)) = some (2, 1, 1) := by
    decide
  obtain ⟨s, hs, he⟩ := Option.bind_eq_some_iff.1 htrace
  obtain ⟨hsettled, hexec⟩ := LTS.eachStep_of_exec hs
  exact ⟨s, hexec, (children_single_flight inTurnTrace).2 hsettled s hexec, he⟩

/-- The XQueue is destroyed, and the next one is at its address. -/
def reusedTrace : List Act :=
  .create 7 0 1 false 1 :: configureTrace 0 0 ++
    [.finish 0, .destroy 0, .create 7 0 1 false 1, .launch 1, .guard 1, .submit 1]

/-- A second launch, before the first one has configured the XQueue. -/
def overtakenTrace : List Act :=
  [.create 7 0 1 false 1, .launch 0, .launch 0, .guard 0, .guard 1, .submit 1]

/-- **Counterexample**: in both runs the child is submitted to an XQueue that was not
configured, and with the next one there are two in flight and a suspension waits for
both. -/
theorem children_in_flight :
    ¬ LTS.EachStep step Configured init reusedTrace ∧
      ¬ LTS.EachStep step Configured init overtakenTrace ∧
      ∀ id acts, (id, acts) ∈ [(1, reusedTrace), (0, overtakenTrace)] →
        ((LTS.exec step init (acts ++
            [.submit 1, .work id .launch, .work id .launch, .work id .suspend])).bind fun s =>
          (s.objs id).map fun x => (x.log, x.ran)) = some ([.child, .child], 2) := by
  have hrefused : ∀ acts, LTS.exec (LTS.guarded Configured step) init acts = none →
      (LTS.exec step init acts).isSome = true → ¬ LTS.EachStep step Configured init acts := by
    intro acts hnone hsome h
    rw [← h.exec_guarded, hnone] at hsome
    cases hsome
  refine ⟨hrefused _ (by decide) (by decide), hrefused _ (by decide) (by decide), ?_⟩
  intro id acts h
  rcases List.mem_pair.1 h with h | h
  · cases h
    decide
  · cases h
    decide

end SingleFlight
end Xsched.HbSplit
