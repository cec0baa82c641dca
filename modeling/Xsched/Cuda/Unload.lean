import Xsched.Preempt.Drop
import Xsched.Cuda.Device

/-!
# Unloading a module behind the launches of its functions

Modules, functions and the XQueues their kernels are launched on. A launch
that the HB backend splits submits its children with a function of the hidden
transformed module; any other launch submits the user's function. Either way
`XLaunchKernel` returns when its commands are in the buffer, and the launch
worker calls the driver later.

`XModuleUnload` takes the module's HB metadata out of the tables, and if that
names a hidden module it waits for all XQueues. A module without a hidden one
is unloaded at once. `Waits` says when that is safe: the launches that had
returned are completed. In every run that meets it no worker launches a
function of an unloaded module (`module_unload`); in any other a suspended or
busy queue does (`module_unload_launches`).

**The queues.** Each is an `AsyncXQueue`. `XQueueDestroy` is not a step here:
`xqs_` only grows. The lock that `ForEachWaitAll` holds while it enqueues is
left out, which allows more interleavings. A new module has a handle of its
own, never used before.

`SetLpSplitThresholdOnce`, which a split launch calls before its first child
(hb_split/backend.cpp:792,849), is left out: where it changes the launch
configuration it waits for what the queue holds, and submits no launch.
-/
namespace Xsched.Cuda
open Preempt
open Preempt.AsyncXQueue (XAct)

abbrev CUmodule := Nat

structure CUfunction where
  module : CUmodule
  name : Nat
  deriving DecidableEq, Repr

/-- The entry of `g_functions`: the module it was taken from and its
counterpart in the hidden module, if it can be split.
mirrors platforms/cuda/hal/src/hb_split/backend.cpp:643-701 -/
structure FunctionInfo where
  originalModule : CUmodule
  transformedFunction : Option CUfunction
  deriving DecidableEq, Repr

/-- A HwCommand that launches `function`, on XQueue `queue`. -/
structure KernelLaunch where
  queue : Nat
  cmd : HwCommand
  function : CUfunction
  deriving DecidableEq, Repr

/-- A call of `Driver::ModuleUnload`. -/
structure Unloaded where
  module : CUmodule
  /-- ghost: the launches that had returned when `XModuleUnload` was called -/
  before : List KernelLaunch
  deriving DecidableEq, Repr

/-- A thread in one of the calls; `before` is as in `Unloaded`. -/
inductive ThreadPc where
  | idle
  | getFunction (f : CUfunction) (transformedModule : Option CUmodule)
  | launch (i : Nat) (todo : List CUfunction) (submitted : List KernelLaunch)
  | moduleUnload (m : CUmodule) (before : List KernelLaunch)
  | submitWaitAll (m hidden : CUmodule) (before : List KernelLaunch) (queues : List Nat)
      (waitCmds : List (Nat × XCommand))
  | wait (m hidden : CUmodule) (before : List KernelLaunch) (waitCmds : List (Nat × XCommand))
  | unloadHidden (m hidden : CUmodule) (before : List KernelLaunch)
  | unload (m : CUmodule) (before : List KernelLaunch)
  deriving DecidableEq, Repr

structure Modules where
  xq : Nat → AsyncXQueue
  /-- the keys of the manager's map -/
  xqs : List Nat
  /-- the modules with HB metadata, each with its hidden module -/
  gModules : CUmodule → Option (Option CUmodule)
  gFunctions : CUfunction → Option FunctionInfo
  nextModule : CUmodule
  threads : Nat → ThreadPc
  /-- ghost: the commands of the launches that have returned -/
  returned : List KernelLaunch
  /-- ghost: the calls of `Driver::ModuleUnload` -/
  unloaded : List Unloaded

/-- `metadata` and `hidden` say whether the image is PTX text that the HB
backend takes and whether its transformed module was loaded, `splittable`
whether the kernel was transformed, `children` how many pieces the grid makes
(0 when another condition of `TryLaunchKernel` fails), and `success` answers
`Driver::ModuleUnload` of the hidden module. -/
inductive ModuleAct where
  | xQueueCreate (i : Nat)
  | moduleLoad (metadata hidden : Bool)
  | getFunction (t : Nat) (f : CUfunction)
  | launchKernel (t i : Nat) (f : CUfunction) (children : Nat)
  | moduleUnload (t : Nat) (m : CUmodule)
  | getFunctionReturn (t : Nat) (splittable : Bool)
  | thread (t : Nat) (success : Bool)
  | xq (i : Nat) (act : XAct)
  deriving DecidableEq, Repr

namespace Modules

def init : Modules where
  xq := fun _ => AsyncXQueue.init
  xqs := []
  gModules := fun _ => none
  gFunctions := fun _ => none
  nextModule := 0
  threads := fun _ => .idle
  returned := []
  unloaded := []

def setThread (t : Nat) (pc : ThreadPc) (p : Modules) : Modules :=
  { p with threads := Function.update p.threads t pc }

def setXq (i : Nat) (x : AsyncXQueue) (p : Modules) : Modules :=
  { p with xq := Function.update p.xq i x }

/-- mirrors platforms/cuda/hal/src/hb_split/backend.cpp:611-625,916-974 -/
def moduleLoad (metadata hidden : Bool) (p : Modules) : Modules :=
  { p with
    gModules := if metadata
      then Function.update p.gModules p.nextModule
        (some (if hidden then some (p.nextModule + 1) else none))
      else p.gModules
    nextModule := p.nextModule + 2 }

/-- `TransformedFunction` of a registered function, if it can be split. -/
def transformed (p : Modules) (f : CUfunction) : Option CUfunction :=
  (p.gFunctions f).bind FunctionInfo.transformedFunction

/-- The functions that the commands of a launch of `f` launch.
mirrors platforms/cuda/hal/src/hb_split/backend.cpp:807-912,1046-1141; a grid
in one piece is not split. -/
def launchFunctions (p : Modules) (f : CUfunction) (children : Nat) : List CUfunction :=
  match p.transformed f with
  | some hidden => if 2 ≤ children then List.replicate children hidden else [f]
  | none => [f]

/-- mirrors platforms/cuda/hal/src/hb_split/backend.cpp:703-720 -/
def removeModuleInfo (m : CUmodule) (p : Modules) : Modules :=
  { p with
    gModules := Function.update p.gModules m none
    gFunctions := fun f =>
      (p.gFunctions f).filter fun info => decide (info.originalModule ≠ m) }

/-- What `RemoveModuleInfo` returns. -/
def transformedModule (p : Modules) (m : CUmodule) : Option CUmodule := (p.gModules m).join

def driverUnload (m : CUmodule) (before : List KernelLaunch) (p : Modules) : Modules :=
  { p with unloaded := p.unloaded ++ [⟨m, before⟩] }

/-- `Submit` of the next command of a launch, up to its index; the steps of
the Submit follow. -/
def submitNext (cfg : Nat → Config) (t i : Nat) (f : CUfunction) (todo : List CUfunction)
    (submitted : List KernelLaunch) (p : Modules) : Option Modules :=
  let c : HwCommand := ⟨(p.xq i).nextHwCmdIdx, kCommandPropertyDeactivatable, .hal⟩
  (AsyncXQueue.step (cfg i) (p.xq i) (.submit t c.props c.kind)).map fun x =>
    setThread t (.launch i todo (submitted ++ [⟨i, c, f⟩])) (setXq i x p)

/-- The next step of thread `t` in its call.
mirrors platforms/cuda/hal/src/hb_split/backend.cpp:976-986 and
preempt/src/xqueue/xqueue.cpp:91-103 -/
def stepThread (cfg : Nat → Config) (strict success : Bool) (t : Nat) (p : Modules) :
    Option Modules :=
  match p.threads t with
  | .idle => none
  | .getFunction _ _ => none
  | .launch i (f :: todo) submitted => submitNext cfg t i f todo submitted p
  | .launch i [] submitted =>
    if (p.xq i).submits t = .idle then
      some (setThread t .idle { p with returned := p.returned ++ submitted })
    else none
  | .moduleUnload m before =>
    match p.transformedModule m with
    | some hidden =>
      some (setThread t (.submitWaitAll m hidden before p.xqs []) (removeModuleInfo m p))
    | none => some (setThread t (.unload m before) (removeModuleInfo m p))
  | .submitWaitAll m hidden before (i :: queues) waitCmds =>
    (AsyncXQueue.submitWaitAll (cfg i) (p.xq i)).map fun (x, w) =>
      setThread t (.submitWaitAll m hidden before queues (waitCmds ++ [(i, w)])) (setXq i x p)
  | .submitWaitAll m hidden before [] waitCmds =>
    some (setThread t (.wait m hidden before waitCmds) p)
  | .wait m hidden before ((i, w) :: waitCmds) =>
    if (p.xq i).machine.cmdState w = .completed then
      some (setThread t (.wait m hidden before waitCmds) p)
    else none
  | .wait m hidden before [] => some (setThread t (.unloadHidden m hidden before) p)
  | .unloadHidden m hidden before =>
    let pc := if !success && strict then ThreadPc.idle else .unload m before
    some (setThread t pc (driverUnload hidden before p))
  | .unload m before => some (setThread t .idle (driverUnload m before p))

/-- A step of a queue of its own: not of its destructor, and a thread submits
only while it is in no other call. -/
def mayStep (p : Modules) (i : Nat) : XAct → Bool
  | .submit t _ _ => decide (i ∈ p.xqs ∧ p.threads t = .idle)
  | .terminate => false
  | _ => decide (i ∈ p.xqs)

def step (cfg : Nat → Config) (strict : Bool) (p : Modules) : ModuleAct → Option Modules
  | .xQueueCreate i => if i ∈ p.xqs then none else some { p with xqs := p.xqs ++ [i] }
  | .moduleLoad metadata hidden => some (moduleLoad metadata hidden p)
  | .getFunction t f =>
    if p.threads t = .idle then
      some ((p.gModules f.module).elim p fun hidden => setThread t (.getFunction f hidden) p)
    else none
  | .getFunctionReturn t splittable =>
    match p.threads t with
    | .getFunction f hidden =>
      let info := ⟨f.module, if splittable then hidden.map (⟨·, f.name⟩) else none⟩
      some (setThread t .idle { p with gFunctions := Function.update p.gFunctions f (some info) })
    | _ => none
  | .launchKernel t i f children =>
    if p.threads t = .idle ∧ i ∈ p.xqs then
      some (setThread t (.launch i (p.launchFunctions f children) []) p)
    else none
  | .moduleUnload t m =>
    if p.threads t = .idle then some (setThread t (.moduleUnload m p.returned) p) else none
  | .thread t success => stepThread cfg strict success t p
  | .xq i act =>
    if p.mayStep i act then
      (AsyncXQueue.step (cfg i) (p.xq i) act).map fun x => setXq i x p
    else none

def lts (cfg : Nat → Config) (strict : Bool) : LTS Modules ModuleAct :=
  LTS.ofFn (· = init) (step cfg strict)

/-! ## What a step can do -/

/-- The steps of a thread in a call. -/
inductive ThreadStep (cfg : Nat → Config) (p : Modules) (t : Nat) : Modules → Prop
  | submit (i : Nat) (f : CUfunction) (todo : List CUfunction) (submitted : List KernelLaunch)
      (x : AsyncXQueue) (c : HwCommand) (hpc : p.threads t = .launch i (f :: todo) submitted)
      (hs : (AsyncXQueue.lts (cfg i)).step (p.xq i) (.submit t c.props c.kind) x)
      (hc : (x.submits t).pending = some c) :
      ThreadStep cfg p t
        (setThread t (.launch i todo (submitted ++ [⟨i, c, f⟩])) (setXq i x p))
  | launched (i : Nat) (submitted : List KernelLaunch) (hpc : p.threads t = .launch i [] submitted)
      (hidle : (p.xq i).submits t = .idle) :
      ThreadStep cfg p t (setThread t .idle { p with returned := p.returned ++ submitted })
  | removeHidden (m hidden : CUmodule) (before : List KernelLaunch)
      (hpc : p.threads t = .moduleUnload m before)
      (hm : p.transformedModule m = some hidden) :
      ThreadStep cfg p t
        (setThread t (.submitWaitAll m hidden before p.xqs []) (removeModuleInfo m p))
  | removePlain (m : CUmodule) (before : List KernelLaunch)
      (hpc : p.threads t = .moduleUnload m before) (hm : p.transformedModule m = none) :
      ThreadStep cfg p t (setThread t (.unload m before) (removeModuleInfo m p))
  | submitWaitAll (m hidden : CUmodule) (before : List KernelLaunch) (i : Nat) (queues : List Nat)
      (waitCmds : List (Nat × XCommand)) (x : AsyncXQueue) (w : XCommand)
      (hpc : p.threads t = .submitWaitAll m hidden before (i :: queues) waitCmds)
      (hw : AsyncXQueue.submitWaitAll (cfg i) (p.xq i) = some (x, w)) :
      ThreadStep cfg p t
        (setThread t (.submitWaitAll m hidden before queues (waitCmds ++ [(i, w)])) (setXq i x p))
  | submitted (m hidden : CUmodule) (before : List KernelLaunch) (waitCmds : List (Nat × XCommand))
      (hpc : p.threads t = .submitWaitAll m hidden before [] waitCmds) :
      ThreadStep cfg p t (setThread t (.wait m hidden before waitCmds) p)
  | waitOne (m hidden : CUmodule) (before : List KernelLaunch) (i : Nat) (w : XCommand)
      (waitCmds : List (Nat × XCommand))
      (hpc : p.threads t = .wait m hidden before ((i, w) :: waitCmds))
      (hdone : (p.xq i).machine.cmdState w = .completed) :
      ThreadStep cfg p t (setThread t (.wait m hidden before waitCmds) p)
  | waited (m hidden : CUmodule) (before : List KernelLaunch)
      (hpc : p.threads t = .wait m hidden before []) :
      ThreadStep cfg p t (setThread t (.unloadHidden m hidden before) p)
  | unloadHidden (m hidden : CUmodule) (before : List KernelLaunch) (pc : ThreadPc)
      (hpc : p.threads t = .unloadHidden m hidden before)
      (hnext : pc = .idle ∨ pc = .unload m before) :
      ThreadStep cfg p t (setThread t pc (driverUnload hidden before p))
  | unload (m : CUmodule) (before : List KernelLaunch) (hpc : p.threads t = .unload m before) :
      ThreadStep cfg p t (setThread t .idle (driverUnload m before p))

/-- Every step; `tables` are those that touch no queue and no launch. -/
inductive Step (cfg : Nat → Config) (p : Modules) : ModuleAct → Modules → Prop
  | xQueueCreate (i : Nat) : Step cfg p (.xQueueCreate i) { p with xqs := p.xqs ++ [i] }
  | tables (act : ModuleAct) (gModules : CUmodule → Option (Option CUmodule))
      (gFunctions : CUfunction → Option FunctionInfo) (nextModule : CUmodule)
      (hact : ∀ i a, act ≠ .xq i a) :
      Step cfg p act { p with gModules := gModules, gFunctions := gFunctions,
                              nextModule := nextModule }
  | getFunction (t : Nat) (f : CUfunction) (hidden : Option CUmodule)
      (hpc : p.threads t = .idle) :
      Step cfg p (.getFunction t f) (setThread t (.getFunction f hidden) p)
  | getFunctionReturn (t : Nat) (splittable : Bool)
      (gFunctions : CUfunction → Option FunctionInfo) :
      Step cfg p (.getFunctionReturn t splittable)
        (setThread t .idle { p with gFunctions := gFunctions })
  | launchKernel (t i : Nat) (f : CUfunction) (children : Nat) (hpc : p.threads t = .idle)
      (hi : i ∈ p.xqs) :
      Step cfg p (.launchKernel t i f children)
        (setThread t (.launch i (p.launchFunctions f children) []) p)
  | moduleUnload (t : Nat) (m : CUmodule) (hpc : p.threads t = .idle) :
      Step cfg p (.moduleUnload t m) (setThread t (.moduleUnload m p.returned) p)
  | thread (t : Nat) (success : Bool) (p' : Modules) (ht : ThreadStep cfg p t p') :
      Step cfg p (.thread t success) p'
  | xq (i : Nat) (act : XAct) (x : AsyncXQueue)
      (hs : (AsyncXQueue.lts (cfg i)).step (p.xq i) act x) : Step cfg p (.xq i act) (setXq i x p)

variable {cfg : Nat → Config} {strict : Bool} {p p' : Modules}

/-- A Submit starts with an index of its own for the command. -/
theorem submit_pending {cfg : Config} {t : Nat} {props : XCommandProperties} {kind : HwCommandKind}
    {x x' : AsyncXQueue} (h : AsyncXQueue.step cfg x (.submit t props kind) = some x') :
    (x'.submits t).pending = some ⟨x.nextHwCmdIdx, props, kind⟩ := by
  unfold AsyncXQueue.step at h
  split at h
  · cases h
  · simp only at h
    split at h
    · simp only [Option.some.injEq] at h; subst h
      rw [AsyncXQueue.allocate, AsyncXQueue.setSubmit_submits, if_pos rfl]
      rfl
    · cases h

theorem stepThread_cases {t : Nat} {success : Bool}
    (h : stepThread cfg strict success t p = some p') : ThreadStep cfg p t p' := by
  unfold stepThread at h
  cases hpc : p.threads t with
  | idle => simp [hpc] at h
  | getFunction f hidden => simp [hpc] at h
  | launch i todo submitted =>
    cases todo with
    | nil =>
      simp only [hpc] at h
      split at h
      · rename_i hidle
        simp only [Option.some.injEq] at h; subst h
        exact .launched i submitted hpc hidle
      · cases h
    | cons f todo =>
      simp only [hpc, submitNext] at h
      obtain ⟨x, hs, rfl⟩ := Option.map_eq_some_iff.1 h
      exact .submit i f todo submitted x _ hpc hs (submit_pending hs)
  | moduleUnload m before =>
    simp only [hpc] at h
    cases hm : p.transformedModule m with
    | some hidden =>
      simp only [hm, Option.some.injEq] at h; subst h
      exact .removeHidden m hidden before hpc hm
    | none =>
      simp only [hm, Option.some.injEq] at h; subst h
      exact .removePlain m before hpc hm
  | submitWaitAll m hidden before queues waitCmds =>
    cases queues with
    | nil =>
      simp only [hpc, Option.some.injEq] at h; subst h
      exact .submitted m hidden before waitCmds hpc
    | cons i queues =>
      simp only [hpc] at h
      obtain ⟨⟨x, w⟩, hw, rfl⟩ := Option.map_eq_some_iff.1 h
      exact .submitWaitAll m hidden before i queues waitCmds x w hpc hw
  | wait m hidden before waitCmds =>
    cases waitCmds with
    | nil =>
      simp only [hpc, Option.some.injEq] at h; subst h
      exact .waited m hidden before hpc
    | cons e waitCmds =>
      obtain ⟨i, w⟩ := e
      simp only [hpc] at h
      split at h
      · rename_i hdone
        simp only [Option.some.injEq] at h; subst h
        exact .waitOne m hidden before i w waitCmds hpc hdone
      · cases h
  | unloadHidden m hidden before =>
    simp only [hpc, Option.some.injEq] at h; subst h
    refine .unloadHidden m hidden before _ hpc ?_
    split
    · exact .inl rfl
    · exact .inr rfl
  | unload m before =>
    simp only [hpc, Option.some.injEq] at h; subst h
    exact .unload m before hpc

theorem step_cases {act : ModuleAct} (h : (lts cfg strict).step p act p') : Step cfg p act p' := by
  have h' : step cfg strict p act = some p' := h
  cases act with
  | xQueueCreate i =>
    simp only [step] at h'
    split at h'
    · cases h'
    · simp only [Option.some.injEq] at h'; subst h'
      exact .xQueueCreate i
  | moduleLoad metadata hidden =>
    simp only [step, Option.some.injEq] at h'; subst h'
    exact .tables _ _ _ _ nofun
  | getFunction t f =>
    simp only [step] at h'
    split at h'
    · rename_i hpc
      simp only [Option.some.injEq] at h'; subst h'
      cases p.gModules f.module with
      | none => exact .tables _ p.gModules p.gFunctions p.nextModule nofun
      | some hidden => exact .getFunction t f hidden hpc
    · cases h'
  | getFunctionReturn t splittable =>
    simp only [step] at h'
    split at h'
    · simp only [Option.some.injEq] at h'; subst h'
      exact .getFunctionReturn t splittable _
    · cases h'
  | launchKernel t i f children =>
    simp only [step] at h'
    split at h'
    · rename_i hg
      simp only [Option.some.injEq] at h'; subst h'
      exact .launchKernel t i f children hg.1 hg.2
    · cases h'
  | moduleUnload t m =>
    simp only [step] at h'
    split at h'
    · rename_i hpc
      simp only [Option.some.injEq] at h'; subst h'
      exact .moduleUnload t m hpc
    · cases h'
  | thread t success => exact .thread t success p' (stepThread_cases h')
  | xq i act =>
    simp only [step] at h'
    split at h'
    · obtain ⟨x, hs, rfl⟩ := Option.map_eq_some_iff.1 h'
      exact .xq i act x hs
    · cases h'

/-! ## One queue of the process -/

theorem setXq_self (i : Nat) (x : AsyncXQueue) (p : Modules) : (setXq i x p).xq i = x :=
  Function.update_self _ _ _

theorem setXq_other {i j : Nat} (x : AsyncXQueue) (p : Modules) (h : j ≠ i) :
    (setXq i x p).xq j = p.xq j := Function.update_of_ne h _ _

/-- The step of queue `i`, if there is one; a thread in a call makes none that
suspends or resumes. -/
theorem Step.xq_step {act : ModuleAct} (h : Step cfg p act p') (i : Nat) :
    p'.xq i = p.xq i ∨ ∃ a, (AsyncXQueue.lts (cfg i)).step (p.xq i) a (p'.xq i) ∧
      (act = .xq i a ∨ ∀ t, a ≠ .controller t) := by
  have hset {j : Nat} {a : XAct} {x : AsyncXQueue}
      (hs : (AsyncXQueue.lts (cfg j)).step (p.xq j) a x)
      (ha : act = .xq j a ∨ ∀ t, a ≠ .controller t) :
      (setXq j x p).xq i = p.xq i ∨
        ∃ a, (AsyncXQueue.lts (cfg i)).step (p.xq i) a ((setXq j x p).xq i) ∧
          (act = .xq i a ∨ ∀ t, a ≠ .controller t) := by
    by_cases hi : i = j
    · subst hi
      rw [setXq_self]
      exact .inr ⟨a, hs, ha⟩
    · exact .inl (setXq_other x p hi)
  cases h with
  | xq j a x hs => exact hset hs (.inl rfl)
  | thread t success p' ht =>
    cases ht with
    | submit j f todo submitted x c hpc hs hc => exact hset hs (.inr nofun)
    | submitWaitAll m hidden before j queues waitCmds x w hpc hw =>
      exact hset (AsyncXQueue.submitWaitAll_cases hw).1 (.inr nofun)
    | _ => exact .inl rfl
  | _ => exact .inl rfl

def Completed (p : Modules) (l : KernelLaunch) : Prop :=
  (p.xq l.queue).machine.cmdState (.hardware l.cmd) = .completed

instance (p : Modules) (l : KernelLaunch) : Decidable (p.Completed l) :=
  inferInstanceAs (Decidable (_ = _))

/-- Where a thread is about to look for the hidden module, there is one or the
launches that had returned are completed; and no queue drops commands. -/
def Waits (p : Modules) : ModuleAct → Prop
  | .thread t _ => ∀ m before, p.threads t = .moduleUnload m before →
      p.transformedModule m = none → ∀ l ∈ before, l.function.module = m → p.Completed l
  | .xq i act => AsyncXQueue.NoDrop (p.xq i) act
  | _ => True

theorem xq_reachable (hr : ((lts cfg strict).restrict Waits).Reachable p) (i : Nat) :
    ((AsyncXQueue.lts (cfg i)).restrict AsyncXQueue.NoDrop).Reachable (p.xq i) := by
  refine LTS.reachable_map (fun p => p.xq i) ?_ ?_ hr
  · rintro p rfl; rfl
  · intro p act p' _ hs
    rcases (step_cases hs.1).xq_step i with he | ⟨a, ha, hact⟩
    · exact .inl he
    · refine .inr ⟨a, ha, ?_⟩
      rcases hact with rfl | hact
      · exact hs.2
      · exact fun t _ he => absurd he (hact t)

/-! ## What stays -/

/-- What a step of a queue does not undo. -/
structure Kept (x x' : AsyncXQueue) : Prop where
  enqueued : x.machine.enqueued ⊆ x'.machine.enqueued
  waitAlls : x.machine.waitAlls ⊆ x'.machine.waitAlls
  completed : ∀ c, x.machine.cmdState (.hardware c) = .completed →
    x'.machine.cmdState (.hardware c) = .completed
  pending : ∀ t c, (x.submits t).pending = some c →
    (x'.submits t).pending = some c ∨ c ∈ x'.machine.enqueued

theorem Kept.refl (x : AsyncXQueue) : Kept x x :=
  ⟨List.Subset.refl _, List.Subset.refl _, fun _ h => h, fun _ _ h => .inl h⟩

theorem pending_step {cfg : Config} {x x' : AsyncXQueue} {act : XAct} {t : Nat} {c : HwCommand}
    (hr : (AsyncXQueue.lts cfg).Reachable x) (hs : AsyncXQueue.Step cfg x act x')
    (hc : (x.submits t).pending = some c) :
    (x'.submits t).pending = some c ∨ c ∈ x'.machine.enqueued := by
  have hset {u : Nat} {pc : SubmitPc} {y : AsyncXQueue} (hy : y.submits = x.submits)
      (hpc : t = u → pc.pending = some c) :
      ((AsyncXQueue.setSubmit u pc y).submits t).pending = some c := by
    rw [AsyncXQueue.setSubmit_submits]
    split
    · rename_i hu; exact hpc hu
    · rw [hy]; exact hc
  cases hs with
  | allocate u props kind hpc =>
    refine .inl (hset rfl fun hu => ?_)
    rw [hu, hpc] at hc; cases hc
  | hook u d hpc =>
    refine .inl (hset rfl fun hu => ?_)
    rw [hu, hpc] at hc; exact hc
  | enqueue u d m hpc hm =>
    by_cases hu : t = u
    · right
      rw [hu, hpc] at hc
      obtain rfl := Option.some.inj hc
      show d ∈ m.enqueued
      rw [AsyncXQueue.enqueued_eq hr hm]
      exact List.mem_append_right _ List.mem_cons_self
    · exact .inl (hset rfl fun he => absurd he hu)
  | submitReturn u d hpc =>
    refine .inl (hset rfl fun hu => ?_)
    rw [hu, hpc] at hc; cases hc
  | _ => exact .inl hc

theorem kept_step {cfg : Config} {x x' : AsyncXQueue} {act : XAct}
    (hr : (AsyncXQueue.lts cfg).Reachable x) (hs : (AsyncXQueue.lts cfg).step x act x') :
    Kept x x' := by
  have hstep := AsyncXQueue.step_of_lts hs
  have hpend := fun t c => pending_step (t := t) (c := c) hr hstep
  rcases hstep.machine_step with he | ⟨a, ha⟩
  · refine ⟨?_, ?_, ?_, hpend⟩
    · rw [he]; exact List.Subset.refl _
    · rw [he]; exact List.Subset.refl _
    · rw [he]; exact fun _ h => h
  · have hm := AsyncXQueue.machine_reachable hr
    have ht := step_of_reachable hm ha
    refine ⟨fun c hc => enqueued_stays ht hc, fun e he => ?_, fun c hc => ?_, hpend⟩
    · rcases step_waitAlls ht with hw | ⟨-, hw⟩
      · rw [hw]; exact he
      · rw [hw]; exact List.mem_append_left _ he
    · exact completed_stays (logInv_reachable hm) ht hc

/-- The process later in a run. -/
structure Later (p p' : Modules) : Prop where
  xq : ∀ i, Kept (p.xq i) (p'.xq i)
  xqs : p.xqs ⊆ p'.xqs

theorem later_of_eq (hx : p'.xq = p.xq) (hxqs : p.xqs ⊆ p'.xqs) : Later p p' :=
  ⟨fun i => by rw [hx]; exact Kept.refl _, hxqs⟩

theorem later_update {i : Nat} {x : AsyncXQueue} (h : Kept (p.xq i) x)
    (hx : p'.xq = Function.update p.xq i x) (hxqs : p'.xqs = p.xqs) : Later p p' := by
  refine ⟨fun j => ?_, by rw [hxqs]; exact List.Subset.refl _⟩
  rw [hx]
  by_cases hj : j = i
  · subst hj; rw [Function.update_self]; exact h
  · rw [Function.update_of_ne hj]; exact Kept.refl _

/-- The command of a launch is in the buffer of a queue of the process, or has
left it. -/
def Buffered (p : Modules) (l : KernelLaunch) : Prop :=
  l.queue ∈ p.xqs ∧ l.cmd ∈ (p.xq l.queue).machine.enqueued

/-- One of the commands waited for stands behind the launch. -/
def Covered (p : Modules) (waitCmds : List (Nat × XCommand)) (l : KernelLaunch) : Prop :=
  ∃ w pre, (l.queue, w) ∈ waitCmds ∧ (w, pre) ∈ (p.xq l.queue).machine.waitAlls ∧ l.cmd ∈ pre

/-- What a thread in a call relies on. -/
def CallOk (p : Modules) (t : Nat) : ThreadPc → Prop
  | .launch i _ submitted => i ∈ p.xqs ∧ ∀ l ∈ submitted, l.queue = i ∧
      (((p.xq i).submits t).pending = some l.cmd ∨ l.cmd ∈ (p.xq i).machine.enqueued)
  | .moduleUnload _ before => ∀ l ∈ before, p.Buffered l
  | .submitWaitAll _ _ before queues waitCmds =>
    ∀ l ∈ before, l.queue ∈ queues ∧ p.Buffered l ∨ p.Covered waitCmds l
  | .wait _ _ before waitCmds => ∀ l ∈ before, p.Covered waitCmds l ∨ p.Completed l
  | .unloadHidden _ _ before => ∀ l ∈ before, p.Completed l
  | .unload m before => ∀ l ∈ before, l.function.module = m → p.Completed l
  | _ => True

/-- Every launch of an unloaded module's functions that had returned when
`XModuleUnload` was called is completed. -/
def Safe (p : Modules) : Prop :=
  ∀ u ∈ p.unloaded, ∀ l ∈ u.before, l.function.module = u.module → p.Completed l

structure Inv (p : Modules) : Prop where
  returned : ∀ l ∈ p.returned, p.Buffered l
  calls : ∀ t, p.CallOk t (p.threads t)
  safe : p.Safe

section
variable {l : KernelLaunch} {t : Nat} {waitCmds waitCmds' : List (Nat × XCommand)}

theorem Completed.mono (h : p.Completed l) (hl : Later p p') : p'.Completed l :=
  (hl.xq l.queue).completed l.cmd h

theorem Buffered.mono (h : p.Buffered l) (hl : Later p p') : p'.Buffered l :=
  ⟨hl.xqs h.1, (hl.xq l.queue).enqueued h.2⟩

theorem Covered.mono (h : p.Covered waitCmds l) (hl : Later p p') (hw : waitCmds ⊆ waitCmds') :
    p'.Covered waitCmds' l := by
  obtain ⟨w, pre, hmem, hpre, hc⟩ := h
  exact ⟨w, pre, hw hmem, (hl.xq l.queue).waitAlls hpre, hc⟩

theorem CallOk.mono {pc : ThreadPc} (h : p.CallOk t pc) (hl : Later p p') : p'.CallOk t pc := by
  cases pc with
  | launch i todo submitted =>
    refine ⟨hl.xqs h.1, fun l hm => ⟨(h.2 l hm).1, ?_⟩⟩
    rcases (h.2 l hm).2 with hp | he
    · exact (hl.xq i).pending t l.cmd hp
    · exact .inr ((hl.xq i).enqueued he)
  | moduleUnload m before => exact fun l hm => (h l hm).mono hl
  | submitWaitAll m hidden before queues waitCmds =>
    refine fun l hm => (h l hm).imp (fun hb => ⟨hb.1, hb.2.mono hl⟩) fun hc => ?_
    exact hc.mono hl (List.Subset.refl _)
  | wait m hidden before waitCmds =>
    exact fun l hm => (h l hm).imp (fun hc => hc.mono hl (List.Subset.refl _)) fun hd => hd.mono hl
  | unloadHidden m hidden before => exact fun l hm => (h l hm).mono hl
  | unload m before => exact fun l hm he => (h l hm he).mono hl
  | idle => trivial
  | getFunction f hidden => trivial

theorem Safe.mono (h : p.Safe) (hl : Later p p') (hu : p'.unloaded = p.unloaded) : p'.Safe := by
  intro u hm l hmem he
  rw [hu] at hm
  exact (h u hm l hmem he).mono hl

theorem safe_driverUnload {m : CUmodule} {before : List KernelLaunch} (h : p.Safe)
    (hm : ∀ l ∈ before, l.function.module = m → p.Completed l) :
    (driverUnload m before p).Safe := by
  intro u hu l hl he
  rcases List.mem_append.1 hu with hu | hu
  · exact h u hu l hl he
  · obtain rfl := List.mem_singleton.1 hu
    exact hm l hl he

end

/-! ## Every step keeps it -/

/-- A step of thread `t`. -/
theorem Inv.thread {t : Nat} {pc : ThreadPc} (h : Inv p) (hl : Later p p')
    (hth : p'.threads = Function.update p.threads t pc) (hpc : p'.CallOk t pc)
    (hret : p'.returned = p.returned) (hsafe : p'.Safe) : Inv p' := by
  refine ⟨fun l hm => ?_, fun u => ?_, hsafe⟩
  · rw [hret] at hm
    exact (h.returned l hm).mono hl
  · rw [hth, Function.update_apply]
    split
    · rename_i hu; rw [hu]; exact hpc
    · exact (h.calls u).mono hl

theorem waited_completed {i : Nat} {w : XCommand} {pre : List HwCommand}
    (hr : ((lts cfg strict).restrict Waits).Reachable p)
    (hw : (w, pre) ∈ (p.xq i).machine.waitAlls)
    (hdone : (p.xq i).machine.cmdState w = .completed) :
    ∀ c ∈ pre, (p.xq i).machine.cmdState (.hardware c) = .completed :=
  wait_all_sound (AsyncXQueue.noDrop_machine (xq_reachable hr i)) hw hdone

theorem inv_threadStep {t : Nat} {success : Bool}
    (hr : ((lts cfg strict).restrict Waits).Reachable p) (h : Inv p) (hs : ThreadStep cfg p t p')
    (hok : Waits p (.thread t success)) : Inv p' := by
  have hq (i : Nat) := (xq_reachable hr i).of_restrict
  have hcall := h.calls t
  have hself {p' : Modules} (hx : p'.xq = p.xq) (hxqs : p'.xqs = p.xqs) : Later p p' :=
    later_of_eq hx (by rw [hxqs]; exact List.Subset.refl _)
  cases hs with
  | submit i f todo submitted x c hpc hs hc =>
    have hl {q : Modules} (hx : q.xq = Function.update p.xq i x) (hxqs : q.xqs = p.xqs) :
        Later p q := later_update (kept_step (hq i) hs) hx hxqs
    rw [hpc] at hcall
    have hold : (setXq i x p).CallOk t (.launch i (f :: todo) submitted) :=
      hcall.mono (hl rfl rfl)
    refine h.thread (hl rfl rfl) rfl ⟨hcall.1, fun l hm => ?_⟩ rfl (h.safe.mono (hl rfl rfl) rfl)
    rcases List.mem_append.1 hm with hm | hm
    · exact hold.2 l hm
    · obtain rfl := List.mem_singleton.1 hm
      refine ⟨rfl, .inl ?_⟩
      show (((setXq i x p).xq i).submits t).pending = some c
      rw [setXq_self]; exact hc
  | launched i submitted hpc hidle =>
    rw [hpc] at hcall
    have hin : ∀ l ∈ submitted, p.Buffered l := by
      intro l hm
      obtain ⟨rfl, hp | he⟩ := hcall.2 l hm
      · rw [hidle] at hp; cases hp
      · exact ⟨hcall.1, he⟩
    refine ⟨fun l hm => ?_, fun u => ?_, h.safe⟩
    · exact (List.mem_append.1 hm).elim (h.returned l) (hin l)
    · show CallOk _ u (Function.update p.threads t .idle u)
      rw [Function.update_apply]
      split
      · trivial
      · exact (h.calls u).mono (hself rfl rfl)
  | removeHidden m hidden before hpc hm =>
    rw [hpc] at hcall
    refine h.thread (hself rfl rfl) rfl (fun l hl => ?_) rfl h.safe
    exact .inl ⟨(hcall l hl).1, hcall l hl⟩
  | removePlain m before hpc hm =>
    exact h.thread (hself rfl rfl) rfl (hok m before hpc hm) rfl h.safe
  | submitWaitAll m hidden before i queues waitCmds x w hpc hw =>
    obtain ⟨hs, hall, -⟩ := AsyncXQueue.submitWaitAll_cases hw
    have hl {q : Modules} (hx : q.xq = Function.update p.xq i x) (hxqs : q.xqs = p.xqs) :
        Later p q := later_update (kept_step (hq i) hs) hx hxqs
    rw [hpc] at hcall
    refine h.thread (hl rfl rfl) rfl (fun l hb => ?_) rfl (h.safe.mono (hl rfl rfl) rfl)
    rcases hcall l hb with ⟨hin, hbuf⟩ | hcov
    · rcases List.mem_cons.1 hin with rfl | hin
      · refine .inr ⟨w, _, List.mem_append_right _ List.mem_cons_self, ?_, hbuf.2⟩
        show _ ∈ ((setXq l.queue x p).xq l.queue).machine.waitAlls
        rw [setXq_self, hall]
        exact List.mem_append_right _ List.mem_cons_self
      · exact .inl ⟨hin, hbuf.mono (hl rfl rfl)⟩
    · exact .inr (hcov.mono (hl rfl rfl) (List.subset_append_left _ _))
  | submitted m hidden before waitCmds hpc =>
    rw [hpc] at hcall
    refine h.thread (hself rfl rfl) rfl (fun l hb => ?_) rfl h.safe
    rcases hcall l hb with ⟨hin, -⟩ | hcov
    · cases hin
    · exact .inl hcov
  | waitOne m hidden before i w waitCmds hpc hdone =>
    rw [hpc] at hcall
    refine h.thread (hself rfl rfl) rfl (fun l hb => ?_) rfl h.safe
    rcases hcall l hb with ⟨w', pre, hmem, hpre, hc⟩ | hd
    · rcases List.mem_cons.1 hmem with he | hmem
      · simp only [Prod.mk.injEq] at he
        obtain ⟨rfl, rfl⟩ := he
        exact .inr (waited_completed hr hpre hdone l.cmd hc)
      · exact .inl ⟨w', pre, hmem, hpre, hc⟩
    · exact .inr hd
  | waited m hidden before hpc =>
    rw [hpc] at hcall
    refine h.thread (hself rfl rfl) rfl (fun l hb => ?_) rfl h.safe
    rcases hcall l hb with ⟨w, pre, hmem, -⟩ | hd
    · cases hmem
    · exact hd
  | unloadHidden m hidden before pc hpc hnext =>
    rw [hpc] at hcall
    refine h.thread (hself rfl rfl) rfl ?_ rfl
      (safe_driverUnload h.safe fun l hb _ => hcall l hb)
    rcases hnext with rfl | rfl
    · trivial
    · exact fun l hb _ => hcall l hb
  | unload m before hpc =>
    rw [hpc] at hcall
    exact h.thread (hself rfl rfl) rfl trivial rfl (safe_driverUnload h.safe hcall)

theorem inv_step {act : ModuleAct} (hr : ((lts cfg strict).restrict Waits).Reachable p) (h : Inv p)
    (hs : Step cfg p act p') (hok : Waits p act) : Inv p' := by
  have hself {q : Modules} (hx : q.xq = p.xq) (hxqs : p.xqs ⊆ q.xqs) : Later p q :=
    later_of_eq hx hxqs
  have hsame : p.xqs ⊆ p.xqs := List.Subset.refl _
  cases hs with
  | xQueueCreate i =>
    have hl {q : Modules} (hx : q.xq = p.xq) (hq : q.xqs = p.xqs ++ [i]) : Later p q :=
      hself hx (by rw [hq]; exact List.subset_append_left _ _)
    exact ⟨fun l hm => (h.returned l hm).mono (hl rfl rfl),
      fun u => (h.calls u).mono (hl rfl rfl), h.safe⟩
  | tables _ gModules gFunctions nextModule hact =>
    exact ⟨h.returned, fun u => (h.calls u).mono (hself rfl hsame), h.safe⟩
  | getFunction t f hidden hpc => exact h.thread (hself rfl hsame) rfl trivial rfl h.safe
  | getFunctionReturn t splittable gFunctions =>
    exact h.thread (hself rfl hsame) rfl trivial rfl h.safe
  | launchKernel t i f children hpc hi =>
    exact h.thread (hself rfl hsame) rfl ⟨hi, fun l hm => nomatch hm⟩ rfl h.safe
  | moduleUnload t m hpc => exact h.thread (hself rfl hsame) rfl h.returned rfl h.safe
  | thread t success p' ht => exact inv_threadStep hr h ht hok
  | xq i act x hs =>
    have hk := kept_step (xq_reachable hr i).of_restrict hs
    have hl : Later p (setXq i x p) := later_update hk rfl rfl
    exact ⟨fun l hm => (h.returned l hm).mono hl, fun u => (h.calls u).mono hl,
      h.safe.mono hl rfl⟩

theorem inv_reachable (hr : ((lts cfg strict).restrict Waits).Reachable p) : Inv p := by
  refine LTS.reachable_induction (I := Inv) ?_ ?_ hr
  · rintro p rfl
    exact ⟨nofun, fun _ => trivial, nofun⟩
  · exact fun p act p' hr h hs => inv_step hr h (step_cases hs.1) hs.2

/-! ## Unloading -/

/-- A command that a step launches was Pending. -/
theorem newLaunch_pending {cfg : Config} {x x' : AsyncXQueue} {act : XAct} {c : HwCommand}
    (hr : (AsyncXQueue.lts cfg).Reachable x) (hs : (AsyncXQueue.lts cfg).step x act x')
    (hc : Device.newLaunch x x' = some c) :
    x.machine.cmdState (.hardware c) = .pending := by
  have hm := AsyncXQueue.machine_reachable hr
  have hnone (hla : x'.machine.launched = x.machine.launched) : False := by
    rw [Device.newLaunch, hla, List.getElem?_eq_none (Nat.le_refl _)] at hc
    cases hc
  rcases (AsyncXQueue.step_of_lts hs).machine_step with he | ⟨a, ha⟩
  · exact (hnone (by rw [he])).elim
  · cases step_pipe (step_of_reachable hm ha) with
    | launch _ d hp hl hid hd hla he =>
      rw [Device.newLaunch, hla, List.getElem?_concat_length] at hc
      obtain rfl := Option.some.inj hc
      exact (logInv_reachable hm).pipeline_pending (by rw [hp]; exact List.mem_cons_self)
    | stay _ hp hl hid hla he => exact (hnone hla).elim
    | push _ y hy hp hl hid hla he hst hb hds => exact (hnone hla).elim
    | finish _ y hy hpc hp hl hid hla he => exact (hnone hla).elim
    | drop _ d hp hl hid hd hla he hst => exact (hnone hla).elim
    | dropAll hp hl hid hla he hst => exact (hnone hla).elim

/-- The step of queue `i` launches no function of an unloaded module for a
launch that returned before the unload. -/
def LaunchesLoaded (p : Modules) (i : Nat) (x : AsyncXQueue) : Prop :=
  ∀ l : KernelLaunch, l.queue = i → Device.newLaunch (p.xq i) x = some l.cmd →
    ∀ u ∈ p.unloaded, l ∈ u.before → l.function.module ≠ u.module

/-- What a thread does that finds no hidden module. -/
theorem plain_unloads (cfg : Nat → Config) (strict : Bool) {t : Nat} {m : CUmodule}
    {before : List KernelLaunch} (success : Bool)
    (hpc : p.threads t = .moduleUnload m before) (hm : p.transformedModule m = none) :
    ∃ p', (lts cfg strict).Run p [ModuleAct.thread t success, ModuleAct.thread t success] p' ∧
      p'.xq = p.xq ∧ p'.unloaded = p.unloaded ++ [⟨m, before⟩] := by
  have h₁ : step cfg strict p (.thread t success) =
      some (setThread t (.unload m before) (removeModuleInfo m p)) := by
    simp only [step, stepThread, hpc, hm]
  have hpc' : (setThread t (.unload m before) (removeModuleInfo m p)).threads t =
      .unload m before := Function.update_self _ _ _
  have h₂ : step cfg strict (setThread t (.unload m before) (removeModuleInfo m p))
      (.thread t success) = some (setThread t .idle (driverUnload m before
        (setThread t (.unload m before) (removeModuleInfo m p)))) := by
    simp only [step, stepThread, hpc']
  exact ⟨_, .cons h₁ (.cons h₂ (.nil _)), rfl, rfl⟩

/-- **No launch after module unload** in every run that meets `Waits`; and
where a thread finds no hidden module and a launch is not completed, going on
unloads the module under it. -/
theorem module_unload (cfg : Nat → Config) (strict : Bool) :
    (∀ p, ((lts cfg strict).restrict Waits).Reachable p → p.Safe ∧
      ∀ i act p', (lts cfg strict).step p (.xq i act) p' → p.LaunchesLoaded i (p'.xq i)) ∧
    ∀ p t m before success, (lts cfg strict).Reachable p →
      p.threads t = .moduleUnload m before → p.transformedModule m = none →
      (∃ l ∈ before, l.function.module = m ∧ ¬ p.Completed l) →
      ∃ p', (lts cfg strict).Run p [ModuleAct.thread t success, ModuleAct.thread t success] p' ∧
        ¬ p'.Safe := by
  refine ⟨fun p hr => ?_, fun p t m before success _ hpc hm ⟨l, hl, hmod, hopen⟩ => ?_⟩
  · have hsafe := (inv_reachable hr).safe
    refine ⟨hsafe, fun i act p' hs l hi hc u hu hl he => ?_⟩
    cases step_cases hs with
    | tables _ _ _ _ hact => exact hact i act rfl
    | xq _ _ x hq =>
      rw [setXq_self] at hc
      have hpend := newLaunch_pending (xq_reachable hr i).of_restrict hq hc
      have hdone : p.Completed l := hsafe u hu l hl he
      rw [Completed, hi, hpend] at hdone
      cases hdone
  · obtain ⟨p', hrun, hxq, hu⟩ := plain_unloads cfg strict success hpc hm
    refine ⟨p', hrun, fun hsafe => hopen ?_⟩
    have hmem : ⟨m, before⟩ ∈ p'.unloaded := by
      rw [hu]; exact List.mem_append_right _ List.mem_cons_self
    have hdone := hsafe ⟨m, before⟩ hmem l hl hmod
    rw [Completed, hxq] at hdone
    exact hdone

/-- A condition on steps that implies `Waits` and can be evaluated: the module
has a hidden one, and nobody suspends or resumes. -/
def waits (p : Modules) : ModuleAct → Bool
  | .thread t _ =>
    match p.threads t with
    | .moduleUnload m _ => (p.transformedModule m).isSome
    | _ => true
  | .xq _ (.controller _) => false
  | _ => true

theorem waits_ok {act : ModuleAct} (h : p.waits act = true) : Waits p act := by
  cases act with
  | thread t success =>
    intro m before hpc hm
    simp only [waits, hpc, hm, Option.isSome_none, Bool.false_eq_true] at h
  | xq i act =>
    rintro t a rfl
    cases h
  | _ => trivial

def kernel : CUfunction := ⟨0, 0⟩

/-- One thread submits a command of a launch. -/
def submitTrace : List ModuleAct :=
  ModuleAct.thread 0 true :: List.replicate 3 (ModuleAct.xq 0 (.submitter 0))

/-- A launch in two pieces, and the unload of the module: the worker runs
while the thread waits for the queue. -/
def hiddenTrace : List ModuleAct :=
  [ModuleAct.xQueueCreate 0, ModuleAct.moduleLoad true true, ModuleAct.getFunction 0 kernel,
    ModuleAct.getFunctionReturn 0 true, ModuleAct.launchKernel 0 0 kernel 2] ++
  submitTrace ++ submitTrace ++ [ModuleAct.thread 0 true, ModuleAct.moduleUnload 0 0] ++
  List.replicate 3 (ModuleAct.thread 0 true) ++
  List.replicate 20 (ModuleAct.xq 0 (.machine (.worker true))) ++
  List.replicate 4 (ModuleAct.thread 0 true)

/-- A launch of a module without HB metadata, and its unload. -/
def plainTrace : List ModuleAct :=
  [ModuleAct.xQueueCreate 0, ModuleAct.moduleLoad false false,
    ModuleAct.launchKernel 0 0 kernel 0] ++
  submitTrace ++ [ModuleAct.thread 0 true, ModuleAct.moduleUnload 0 0, ModuleAct.thread 0 true,
    ModuleAct.thread 0 true]

/-- Both pieces are completed when the two modules are unloaded. -/
theorem module_unload_hidden : ∃ p, (lts (fun _ => cfgOne) false).Reachable p ∧ p.Safe ∧
    p.unloaded.map (fun u => (u.module, u.before.length)) = [(1, 2), (0, 2)] := by
  have htrace : ((LTS.exec (LTS.guarded (waits · · = true) (step (fun _ => cfgOne) false)) init
      hiddenTrace).map fun p => p.unloaded.map fun u => (u.module, u.before.length)) =
      some [(1, 2), (0, 2)] := by decide
  obtain ⟨p, hp, hu⟩ := Option.map_eq_some_iff.1 htrace
  have hr : ((lts (fun _ => cfgOne) false).restrict (waits · · = true)).Reachable p :=
    LTS.reachable_restrict_of_exec rfl hp
  exact ⟨p, hr.of_restrict,
    ((module_unload (fun _ => cfgOne) false).1 p (hr.restrict_mono fun _ _ => waits_ok)).1, hu⟩

/-- **Counterexample**: the module of a launch that is still in the buffer is
unloaded. -/
theorem module_unload_launches :
    ¬ ∀ (cfg : Nat → Config) (strict : Bool) (p : Modules),
      (lts cfg strict).Reachable p → p.Safe := by
  intro h
  let l : KernelLaunch := ⟨0, ⟨1, kCommandPropertyDeactivatable, .hal⟩, kernel⟩
  have htrace : ((LTS.exec (step (fun _ => cfgOne) false) init plainTrace).map fun p =>
      (p.unloaded, (p.xq 0).machine.cmdState (.hardware l.cmd))) =
      some ([⟨0, [l]⟩], .pending) := by decide
  obtain ⟨p, hp, he⟩ := Option.map_eq_some_iff.1 htrace
  simp only [Prod.mk.injEq] at he
  have hdone := h (fun _ => cfgOne) false p (LTS.reachable_of_exec rfl hp) ⟨0, [l]⟩
    (by rw [he.1]; exact List.mem_cons_self) l List.mem_cons_self rfl
  rw [Completed, he.2] at hdone
  cases hdone

end Modules
end Xsched.Cuda
