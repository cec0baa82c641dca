import Xsched.Cuda.Device
import Xsched.LevelZero.KernelArg
import Xsched.Preempt.Drop

/-!
# Immediate command lists and kernel arguments

The calls of one application thread on kernels and command lists: the
`zeKernelSet*` calls, `zeCommandListAppendLaunchKernel`, and the appends that
are redirects to the driver. On an immediate list with an XQueue a launch is
a `ZeKernelCommand` that the queue's worker launches later: it calls `Set` on
the kernel and then the driver. Everywhere else the append does the same at
once. Each list with an XQueue has an `AsyncXQueue` of its own, with all of
its other threads; `ZeList` supports `kPreemptLevelBlock` only, so nothing is
ever dropped.

**The breaks.** A `Set` takes the front of the kernel's frozen arguments,
whoever calls it: a launch that overtakes an older one of the same kernel in
another list gets the arguments of the older one. And a redirected append
reaches the driver before the launches that still wait in the XQueue of its
list.

**Results.**
* `own_arguments_iff`: in a run every launch sees the arguments that were in
  effect at its append exactly if, at each launch, these are what was in
  effect at the append in turn (`InTurn`): where `n` launches of the kernel
  were made, its append number `n`. `arguments_swapped` is a run without.
* `append_order_iff`: the driver has received a list's appends in their order
  exactly if each redirected append was made with no launch waiting in the
  XQueue (`Clear`). `copy_overtakes` is a run without.
-/
namespace Xsched.LevelZero

open Function (update)
open Preempt
open Preempt.AsyncXQueue (XAct)

/-! ## An XQueue with one submitting thread -/

section Queue
variable {cfg : Config} {x x' : AsyncXQueue}

/-- The commands of a queue that are not launched, oldest first, where thread 0
is the only one that submits. -/
def waiting (x : AsyncXQueue) : List HwCommand :=
  hwCmds x.machine.pipeline ++ (x.submits 0).pending.toList

/-- The commands that a queue was given, oldest first. -/
def given (x : AsyncXQueue) : List HwCommand :=
  x.machine.enqueued ++ (x.submits 0).pending.toList

/-- A queue of an immediate list: nobody but thread 0 submits. -/
abbrev ListQueue (cfg : Config) : LTS AsyncXQueue XAct :=
  (AsyncXQueue.lts cfg).restrict (AsyncXQueue.SubmitsFrom 0)

theorem given_eq (hl : cfg.level = .block) (hr : (ListQueue cfg).Reachable x) :
    x.machine.launched ++ waiting x = given x := by
  have hfifo := (fifoInv_reachable (AsyncXQueue.block_machine hl hr.of_restrict)).conserve
  unfold waiting given
  rw [← List.append_assoc, hfifo]

theorem waiting_allocate (hpc : x.submits 0 = .idle) :
    waiting (AsyncXQueue.allocate 0 kCommandPropertyNone .hal x) =
      waiting x ++ [⟨x.nextHwCmdIdx, kCommandPropertyNone, .hal⟩] := by
  simp [waiting, AsyncXQueue.allocate, AsyncXQueue.setSubmit, hpc, SubmitPc.pending]

theorem submit_start {t : Nat} {props : XCommandProperties} {kind : HwCommandKind}
    (h : AsyncXQueue.step cfg x (.submit t props kind) = some x') :
    x.submits t = .idle ∧ x' = AsyncXQueue.allocate t props kind x := by
  unfold AsyncXQueue.step at h
  split at h
  · cases h
  · simp only [Option.ite_none_right_eq_some, Option.some.injEq] at h
    exact ⟨h.1, h.2.symm⟩

/-- A queue is given no command twice. -/
theorem given_nodup (hr : (ListQueue cfg).Reachable x) : (given x).Nodup := by
  have hlog := logInv_reachable (AsyncXQueue.machine_reachable hr.of_restrict)
  have hsub := AsyncXQueue.submitInv_reachable hr.of_restrict
  unfold given
  cases hp : (x.submits 0).pending with
  | none => simpa using hlog.nodup
  | some c =>
    refine List.nodup_append.2 ⟨hlog.nodup, List.nodup_singleton c, fun d hd e he hde => ?_⟩
    rw [List.mem_singleton.1 he] at hde
    exact hsub.distinct 0 c hp d hd (by rw [hde])

/-- No step but the start of a Submit gives a command to the queue. -/
theorem given_step {a : XAct} (hr : (ListQueue cfg).Reachable x)
    (ha : ∀ t props kind, a ≠ .submit t props kind) (hs : (AsyncXQueue.lts cfg).step x a x') :
    given x' = given x := by
  have hr' := hr.of_restrict
  have hsame {b : Act} {m : State} (hm : (Preempt.lts cfg).step x.machine b m)
      (hb : b.submitted = []) : m.enqueued = x.machine.enqueued := by
    rw [AsyncXQueue.enqueued_eq hr' hm, hb, List.append_nil]
  have honly {t : Nat} (h : x.submits t ≠ .idle) : t = 0 := by
    by_contra hne
    exact h (AsyncXQueue.submits_idle hr hne)
  unfold given
  cases AsyncXQueue.step_of_lts hs with
  | machine b m hd hm => rw [hsame hm (AsyncXQueue.direct_submitted hd)]
  | allocate t props kind hpc => exact absurd rfl (ha t props kind)
  | hook t c hpc =>
    obtain rfl := honly (t := t) (by rw [hpc]; exact nofun)
    simp [AsyncXQueue.setSubmit, hpc, SubmitPc.pending]
  | enqueue t c m hpc hm =>
    obtain rfl := honly (t := t) (by rw [hpc]; exact nofun)
    have henq : m.enqueued = x.machine.enqueued ++ [c] := AsyncXQueue.enqueued_eq hr' hm
    simp [AsyncXQueue.setSubmit, hpc, SubmitPc.pending, henq]
  | submitReturn t c hpc =>
    obtain rfl := honly (t := t) (by rw [hpc]; exact nofun)
    simp [AsyncXQueue.setSubmit, hpc, SubmitPc.pending]
  | pause t flags m hpc hm => rw [← hsame hm rfl]; rfl
  | resume t call m hpc hm => rw [← hsame hm rfl]; rfl
  | dropAll t call m hpc hm => rw [← hsame hm rfl]; rfl
  | resumeAndDrop t call d m hpc hm => rw [← hsame hm rfl]; rfl
  | _ => rfl

/-- The oldest waiting command is launched, or none is. -/
theorem waiting_step {a : XAct} (hl : cfg.level = .block) (hr : (ListQueue cfg).Reachable x)
    (ha : ∀ t props kind, a ≠ .submit t props kind) (hs : (AsyncXQueue.lts cfg).step x a x') :
    Cuda.Device.newLaunch x x' = none ∧ waiting x' = waiting x ∨
      ∃ c, Cuda.Device.newLaunch x x' = some c ∧ waiting x = c :: waiting x' := by
  have hr' : (ListQueue cfg).Reachable x' :=
    hr.step ⟨hs, fun t props kind h => (ha t props kind h).elim⟩
  have hgiven := given_step hr ha hs
  rw [← given_eq hl hr, ← given_eq hl hr'] at hgiven
  have hlaunched : x'.machine.launched = x.machine.launched ∨
      ∃ c, x'.machine.launched = x.machine.launched ++ [c] := by
    rcases (AsyncXQueue.step_of_lts hs).machine_step with he | ⟨b, hb⟩
    · exact .inl (by rw [he])
    · exact step_launches
        (step_of_reachable (AsyncXQueue.machine_reachable hr.of_restrict) hb)
  unfold Cuda.Device.newLaunch
  rcases hlaunched with he | ⟨c, he⟩
  · rw [he] at hgiven
    refine .inl ⟨?_, List.append_cancel_left hgiven⟩
    rw [he, List.getElem?_eq_none (Nat.le_refl _)]
  · rw [he, List.append_assoc] at hgiven
    refine .inr ⟨c, ?_, (List.append_cancel_left hgiven).symm⟩
    rw [he, List.getElem?_concat_length]

end Queue

/-! ## The shim -/

/-- `ze_command_list_handle_t` -/
abbrev CommandList := Nat

inductive ListKind where
  | immediateXQueue | immediate | regular
  deriving DecidableEq, Repr

/-- An append as the driver receives it: the launch of a command, or one that
the application's thread makes itself, with its number among the list's appends. -/
inductive Append where
  | launch (c : HwCommand)
  | direct (n : Nat)
  deriving DecidableEq, Repr

/-- mirrors platforms/levelzero/hal/include/xsched/levelzero/hal/ze_command.h:39-63 -/
structure ZeKernelCommand where
  hCommandList : CommandList
  hKernel : Kernel
  cmd : HwCommand
  /-- ghost: the kernel's arguments at the append, in program order -/
  inEffect : DriverKernel

/-- A call of `Driver::CommandListAppendLaunchKernel`. -/
structure KernelLaunch where
  hCommandList : CommandList
  hKernel : Kernel
  /-- ghost: the kernel's arguments at the append, in program order -/
  inEffect : DriverKernel
  /-- what the driver holds for the kernel -/
  seen : DriverKernel

structure ZeShim where
  xq : CommandList → AsyncXQueue
  args : KernelArgsManager
  /-- the driver's -/
  kernels : Kernel → DriverKernel
  /-- the commands that are not launched -/
  commands : List ZeKernelCommand
  /-- the list in whose `Submit` the application's thread was last -/
  calling : Option CommandList
  launches : List KernelLaunch
  /-- the appends that the driver has received -/
  received : CommandList → List Append
  /-- ghost: the appends made, in program order -/
  appended : CommandList → List Append
  /-- ghost: the arguments of each kernel in program order -/
  program : Kernel → DriverKernel
  /-- ghost: what they were at each append of the kernel -/
  appends : Kernel → List DriverKernel

inductive ZeAct where
  | kernelSet (hKernel : Kernel) (x : KernelSet)
  | appendLaunchKernel (hCommandList : CommandList) (hKernel : Kernel)
  /-- an append of another kind: a copy, a fill, a barrier -/
  | appendRedirected (hCommandList : CommandList)
  /-- a step of a list's XQueue, or of a thread in one of its calls -/
  | xq (hCommandList : CommandList) (act : XAct)
  deriving DecidableEq, Repr

namespace ZeShim

/-- `defaults`: the kernels as the driver has created them. -/
def init (defaults : Kernel → DriverKernel) : ZeShim where
  xq _ := AsyncXQueue.init
  args := .init
  kernels := defaults
  commands := []
  calling := none
  launches := []
  received _ := []
  appended _ := []
  program := defaults
  appends _ := []

/-- mirrors platforms/levelzero/hal/include/xsched/levelzero/hal/ze_queue.h:66-67 -/
def listConfig (cfg : CommandList → Config) (l : CommandList) : Config :=
  { cfg l with level := .block }

/-- The application's thread is in no call. -/
def mayCall (s : ZeShim) : Bool :=
  match s.calling with
  | none => true
  | some l => decide ((s.xq l).submits 0 = .idle)

/-- mirrors platforms/levelzero/shim/src/shim.cpp:154-173 -/
def kernelSet (hKernel : Kernel) (x : KernelSet) (s : ZeShim) : ZeShim :=
  { s with
    args := s.args.add hKernel x
    program := update s.program hKernel (x.apply (s.program hKernel)) }

/-- mirrors platforms/levelzero/shim/src/shim.cpp:177 -/
def freeze (hKernel : Kernel) (s : ZeShim) : ZeShim :=
  { s with
    args := s.args.freeze hKernel
    appends := update s.appends hKernel (s.appends hKernel ++ [s.program hKernel]) }

/-- `Set` on the kernel and then the driver's append.
mirrors platforms/levelzero/shim/src/shim.cpp:182-183,192-196 and
platforms/levelzero/hal/src/ze_command.cpp:95-103 -/
def setAndAppend (l : CommandList) (hKernel : Kernel) (inEffect : DriverKernel) (a : Append)
    (s : ZeShim) : ZeShim :=
  { s with
    args := (s.args.set hKernel s.kernels).1
    kernels := (s.args.set hKernel s.kernels).2
    launches := s.launches ++
      [⟨l, hKernel, inEffect, (s.args.set hKernel s.kernels).2 hKernel⟩]
    received := update s.received l (s.received l ++ [a]) }

/-- The number of the list's next append. -/
def next (s : ZeShim) (l : CommandList) : Append := .direct (s.appended l).length

def append (l : CommandList) (a : Append) (s : ZeShim) : ZeShim :=
  { s with appended := update s.appended l (s.appended l ++ [a]) }

/-- The queue has given the new command its index; the rest of `Submit` is left
to the queue.
mirrors platforms/levelzero/shim/src/shim.cpp:185-188 -/
def submit (l : CommandList) (hKernel : Kernel) (x : AsyncXQueue) (c : HwCommand) (s : ZeShim) :
    ZeShim :=
  append l (.launch c)
    { s with
      xq := update s.xq l x
      commands := s.commands ++ [⟨l, hKernel, c, s.program hKernel⟩]
      calling := some l }

/-- `HwCommand()`: no property. -/
def newCommand (x : AsyncXQueue) : HwCommand := ⟨x.nextHwCmdIdx, kCommandPropertyNone, .hal⟩

/-- mirrors platforms/levelzero/shim/src/shim.cpp:175-197 -/
def appendLaunchKernel (cfg : CommandList → Config) (kind : CommandList → ListKind)
    (l : CommandList) (hKernel : Kernel) (s : ZeShim) : Option ZeShim :=
  match kind l with
  | .immediateXQueue =>
    (AsyncXQueue.step (listConfig cfg l) (s.xq l) (.submit 0 kCommandPropertyNone .hal)).map
      fun x => submit l hKernel x (newCommand (s.xq l)) (freeze hKernel s)
  | .immediate | .regular =>
    some (setAndAppend l hKernel (s.program hKernel) (s.next l)
      (append l (s.next l) (freeze hKernel s)))

/-- mirrors platforms/levelzero/shim/src/intercept.cpp:49,56-67 -/
def appendRedirected (l : CommandList) (s : ZeShim) : ZeShim :=
  append l (s.next l) { s with received := update s.received l (s.received l ++ [s.next l]) }

def isCommand (l : CommandList) (c : HwCommand) (z : ZeKernelCommand) : Bool :=
  decide (z.hCommandList = l ∧ z.cmd = c)

/-- The worker of the list's queue launches `c`.
mirrors platforms/levelzero/hal/src/ze_queue.cpp:73-78 -/
def launch (l : CommandList) (c : HwCommand) (s : ZeShim) : ZeShim :=
  match s.commands.find? (isCommand l c) with
  | none => s
  | some z =>
    setAndAppend l z.hKernel z.inEffect (.launch c)
      { s with commands := s.commands.eraseP (isCommand l c) }

def afterXq (l : CommandList) (x : AsyncXQueue) (s : ZeShim) : ZeShim :=
  match Cuda.Device.newLaunch (s.xq l) x with
  | none => { s with xq := update s.xq l x }
  | some c => launch l c { s with xq := update s.xq l x }

/-- The application's thread starts a Submit by an append only. -/
def startsSubmit : XAct → Bool
  | .submit _ _ _ => true
  | _ => false

def step (cfg : CommandList → Config) (kind : CommandList → ListKind) (s : ZeShim) :
    ZeAct → Option ZeShim
  | .kernelSet hKernel x => if s.mayCall then some (kernelSet hKernel x s) else none
  | .appendLaunchKernel l hKernel =>
    if s.mayCall then appendLaunchKernel cfg kind l hKernel s else none
  | .appendRedirected l => if s.mayCall then some (appendRedirected l s) else none
  | .xq l act =>
    if startsSubmit act then none
    else (AsyncXQueue.step (listConfig cfg l) (s.xq l) act).map fun x => afterXq l x s

def lts (cfg : CommandList → Config) (kind : CommandList → ListKind)
    (defaults : Kernel → DriverKernel) : LTS ZeShim ZeAct :=
  .ofFn (· = init defaults) (step cfg kind)

/-! ## Every step -/

variable {cfg : CommandList → Config} {kind : CommandList → ListKind}
  {defaults : Kernel → DriverKernel} {s s' : ZeShim}

/-- Every step, by what it is. -/
inductive Step (cfg : CommandList → Config) (kind : CommandList → ListKind) (s : ZeShim) :
    ZeAct → ZeShim → Prop
  | kernelSet (hKernel : Kernel) (x : KernelSet) :
      Step cfg kind s (.kernelSet hKernel x) (kernelSet hKernel x s)
  | submit (l : CommandList) (hKernel : Kernel) (hk : kind l = .immediateXQueue)
      (hpc : (s.xq l).submits 0 = .idle)
      (hx : (AsyncXQueue.lts (listConfig cfg l)).step (s.xq l)
        (.submit 0 kCommandPropertyNone .hal)
        (AsyncXQueue.allocate 0 kCommandPropertyNone .hal (s.xq l))) :
      Step cfg kind s (.appendLaunchKernel l hKernel)
        (submit l hKernel (AsyncXQueue.allocate 0 kCommandPropertyNone .hal (s.xq l))
          (newCommand (s.xq l)) (freeze hKernel s))
  | atOnce (l : CommandList) (hKernel : Kernel) (hk : kind l ≠ .immediateXQueue) :
      Step cfg kind s (.appendLaunchKernel l hKernel)
        (setAndAppend l hKernel (s.program hKernel) (s.next l)
          (append l (s.next l) (freeze hKernel s)))
  | redirected (l : CommandList) : Step cfg kind s (.appendRedirected l) (appendRedirected l s)
  | xq (l : CommandList) (act : XAct) (x : AsyncXQueue)
      (ha : ∀ t props kind, act ≠ .submit t props kind)
      (hx : (AsyncXQueue.lts (listConfig cfg l)).step (s.xq l) act x) :
      Step cfg kind s (.xq l act) (afterXq l x s)

theorem step_cases {act : ZeAct} (h : (lts cfg kind defaults).step s act s') :
    Step cfg kind s act s' := by
  have h' : step cfg kind s act = some s' := h
  cases act with
  | kernelSet hKernel x =>
    obtain ⟨-, rfl⟩ : _ ∧ _ = s' := by simpa [step] using h'
    exact .kernelSet hKernel x
  | appendRedirected l =>
    obtain ⟨-, rfl⟩ : _ ∧ _ = s' := by simpa [step] using h'
    exact .redirected l
  | appendLaunchKernel l hKernel =>
    have happ : appendLaunchKernel cfg kind l hKernel s = some s' := by
      simp only [step] at h'
      split at h'
      · exact h'
      · cases h'
    unfold appendLaunchKernel at happ
    cases hk : kind l with
    | immediateXQueue =>
      simp only [hk] at happ
      obtain ⟨x, hx, rfl⟩ := Option.map_eq_some_iff.1 happ
      obtain ⟨hpc, rfl⟩ := submit_start hx
      exact .submit l hKernel hk hpc hx
    | immediate =>
      simp only [hk, Option.some.injEq] at happ
      subst happ
      exact .atOnce l hKernel (by simp [hk])
    | regular =>
      simp only [hk, Option.some.injEq] at happ
      subst happ
      exact .atOnce l hKernel (by simp [hk])
  | xq l act =>
    simp only [step] at h'
    split at h'
    · cases h'
    · rename_i ha
      obtain ⟨x, hx, rfl⟩ := Option.map_eq_some_iff.1 h'
      refine .xq l act x (fun t props kind he => ha ?_) hx
      rw [he]; rfl

theorem afterXq_xq (l : CommandList) (x : AsyncXQueue) (s : ZeShim) :
    (afterXq l x s).xq = update s.xq l x := by
  unfold afterXq launch
  cases Cuda.Device.newLaunch (s.xq l) x with
  | none => rfl
  | some c =>
    dsimp only
    cases s.commands.find? (isCommand l c) <;> rfl

/-- An XQueue makes steps of its own only, and only the application's thread
submits to it. -/
theorem queue_reachable (hr : (lts cfg kind defaults).Reachable s) (l : CommandList) :
    (ListQueue (listConfig cfg l)).Reachable (s.xq l) := by
  refine LTS.reachable_map (fun s => s.xq l) ?_ ?_ hr
  · rintro s rfl; rfl
  · intro s act s' _ hs
    have hupdate (l' : CommandList) (act : XAct) (x : AsyncXQueue) (h0 : ∀ t props kind,
        act = .submit t props kind → t = 0)
        (hx : (AsyncXQueue.lts (listConfig cfg l')).step (s.xq l') act x) :
        update s.xq l' x l = s.xq l ∨
          ∃ a, (ListQueue (listConfig cfg l)).step (s.xq l) a (update s.xq l' x l) := by
      by_cases hl : l = l'
      · subst hl
        rw [Function.update_self]
        exact .inr ⟨act, hx, h0⟩
      · exact .inl (Function.update_of_ne hl _ _)
    cases step_cases hs with
    | submit l' hKernel hk hpc hx =>
      refine hupdate l' _ _ (fun t props kind he => ?_) hx
      cases he; rfl
    | xq l' act x ha hx =>
      rw [afterXq_xq]
      exact hupdate l' act x (fun t props kind he => absurd he (ha t props kind)) hx
    | _ => exact .inl rfl

/-! ## The arguments of a kernel -/

/-- What the launches of a kernel have seen, in order. -/
def seenBy (s : ZeShim) (k : Kernel) : List DriverKernel :=
  (s.launches.filter fun x => decide (x.hKernel = k)).map KernelLaunch.seen

/-- The manager's arguments are those of the program; what the launches of a
kernel saw and what the waiting ones will see is what its appends have frozen. -/
structure ArgsInv (s : ZeShim) : Prop where
  program : s.args.current s.kernels = s.program
  appends : ∀ k, s.appends k = s.seenBy k ++ s.args.effects s.kernels k

theorem argsInv_kernelSet (h : ArgsInv s) (hKernel : Kernel) (x : KernelSet) :
    ArgsInv (kernelSet hKernel x s) where
  program := by
    show (s.args.add hKernel x).current s.kernels = update s.program hKernel _
    rw [KernelArgsManager.current_add, h.program]
  appends k := by
    show s.appends k = s.seenBy k ++ (s.args.add hKernel x).effects s.kernels k
    rw [KernelArgsManager.effects_add]
    exact h.appends k

theorem argsInv_freeze (h : ArgsInv s) (hKernel : Kernel) : ArgsInv (freeze hKernel s) where
  program := by
    show (s.args.freeze hKernel).current s.kernels = s.program
    rw [KernelArgsManager.current_freeze, h.program]
  appends k := by
    show update s.appends hKernel (s.appends hKernel ++ [s.program hKernel]) k =
      s.seenBy k ++ (s.args.freeze hKernel).effects s.kernels k
    rw [KernelArgsManager.effects_freeze]
    by_cases hk : k = hKernel
    · subst hk
      rw [Function.update_self, Function.update_self, h.program, h.appends, List.append_assoc]
    · rw [Function.update_of_ne hk, Function.update_of_ne hk, h.appends]

theorem seenBy_set (l : CommandList) (hKernel k : Kernel) (w : DriverKernel) (a : Append)
    (s : ZeShim) : (setAndAppend l hKernel w a s).seenBy k = s.seenBy k ++
      if k = hKernel then [(s.args.set hKernel s.kernels).2 hKernel] else [] := by
  unfold seenBy setAndAppend
  by_cases hk : k = hKernel
  · simp [hk]
  · simp [hk, Ne.symm hk]

/-- A `Set` makes of the kernel what the append in turn has frozen. -/
theorem ArgsInv.effects (h : ArgsInv s) {hKernel : Kernel} (hf : s.args.frozenArgs hKernel ≠ []) :
    s.appends hKernel = s.seenBy hKernel ++ (s.args.set hKernel s.kernels).2 hKernel ::
      (s.args.set hKernel s.kernels).1.effects (s.args.set hKernel s.kernels).2 hKernel := by
  rw [h.appends, KernelArgsManager.effects_set hf, Function.update_self]

theorem argsInv_set (h : ArgsInv s) {hKernel : Kernel} (hf : s.args.frozenArgs hKernel ≠ [])
    (l : CommandList) (w : DriverKernel) (a : Append) :
    ArgsInv (setAndAppend l hKernel w a s) where
  program := by
    show (s.args.set hKernel s.kernels).1.current (s.args.set hKernel s.kernels).2 = s.program
    rw [KernelArgsManager.current_set, h.program]
  appends k := by
    show s.appends k = (setAndAppend l hKernel w a s).seenBy k ++
      (s.args.set hKernel s.kernels).1.effects (s.args.set hKernel s.kernels).2 k
    rw [seenBy_set]
    by_cases hk : k = hKernel
    · subst hk
      rw [if_pos rfl, List.append_assoc]
      exact h.effects hf
    · rw [if_neg hk, List.append_nil, h.appends, KernelArgsManager.effects_set hf,
        Function.update_of_ne hk]

/-! ## The commands -/

/-- Each command that is not launched has its frozen arguments, and each queue
finds its commands. -/
structure CommandInv (s : ZeShim) : Prop where
  count : ∀ k, (s.args.frozenArgs k).length = s.commands.countP fun z => decide (z.hKernel = k)
  found : ∀ l, ∀ c ∈ waiting (s.xq l), ∃ z ∈ s.commands, isCommand l c z

theorem erase_command {p : ZeKernelCommand → Bool} {z : ZeKernelCommand}
    {commands : List ZeKernelCommand} (h : commands.find? p = some z) :
    ∃ as bs, commands = as ++ z :: bs ∧ commands.eraseP p = as ++ bs := by
  obtain ⟨hz, as, bs, rfl, has⟩ := List.find?_eq_some_iff_append.1 h
  refine ⟨as, bs, rfl, ?_⟩
  rw [List.eraseP_append_right _ fun b hb => by simpa using has b hb, List.eraseP_cons_of_pos hz]

theorem isCommand_iff {l : CommandList} {c : HwCommand} {z : ZeKernelCommand} :
    isCommand l c z ↔ z.hCommandList = l ∧ z.cmd = c := by
  simp [isCommand]

/-- A queue that launches a command finds it, with frozen arguments. -/
theorem CommandInv.find (h : CommandInv s) {l : CommandList} {c : HwCommand}
    (hc : c ∈ waiting (s.xq l)) : ∃ z, s.commands.find? (isCommand l c) = some z ∧
      s.args.frozenArgs z.hKernel ≠ [] := by
  obtain ⟨y, hy, hyc⟩ := h.found l c hc
  have hsome : (s.commands.find? (isCommand l c)).isSome := by
    rw [List.find?_isSome]
    exact ⟨y, hy, hyc⟩
  obtain ⟨z, hz⟩ := Option.isSome_iff_exists.1 hsome
  refine ⟨z, hz, fun hnil => ?_⟩
  have hpos : 0 < s.commands.countP fun y : ZeKernelCommand => decide (y.hKernel = z.hKernel) :=
    List.countP_pos_iff.2 ⟨z, List.mem_of_find?_eq_some hz, by simp⟩
  have hcount := h.count z.hKernel
  rw [hnil] at hcount
  simp only [List.length_nil] at hcount
  omega

theorem freeze_length (hKernel k : Kernel) (s : ZeShim) :
    ((freeze hKernel s).args.frozenArgs k).length =
      (s.args.frozenArgs k).length + if k = hKernel then 1 else 0 := by
  by_cases hk : k = hKernel
  · subst hk
    simp [freeze, KernelArgsManager.freeze]
  · simp [freeze, KernelArgsManager.freeze, hk]

theorem set_length (l : CommandList) (hKernel k : Kernel) (w : DriverKernel) (a : Append)
    (s : ZeShim) : ((setAndAppend l hKernel w a s).args.frozenArgs k).length =
      (s.args.frozenArgs k).length - if k = hKernel then 1 else 0 := by
  show ((s.args.set hKernel s.kernels).1.frozenArgs k).length = _
  rw [KernelArgsManager.set_frozenArgs]
  by_cases hk : k = hKernel
  · subst hk
    simp
  · simp [hk]

theorem commandInv_submit (h : CommandInv s) {l : CommandList} (hKernel : Kernel)
    (hpc : (s.xq l).submits 0 = .idle) :
    CommandInv (submit l hKernel (AsyncXQueue.allocate 0 kCommandPropertyNone .hal (s.xq l))
      (newCommand (s.xq l)) (freeze hKernel s)) where
  count k := by
    show ((freeze hKernel s).args.frozenArgs k).length =
      (s.commands ++ [_]).countP fun z : ZeKernelCommand => decide (z.hKernel = k)
    rw [freeze_length, h.count k, List.countP_append]
    simp [List.countP_cons, eq_comm]
  found l' c hc := by
    have hwait : c ∈ waiting (s.xq l') ∨ l' = l ∧ c = newCommand (s.xq l) := by
      by_cases hl : l' = l
      · subst hl
        have hc : c ∈ waiting (AsyncXQueue.allocate 0 kCommandPropertyNone .hal (s.xq l')) := by
          simpa [submit, append, freeze] using hc
        rw [waiting_allocate hpc, List.mem_append, List.mem_singleton] at hc
        exact hc.imp_right fun hc => ⟨rfl, hc⟩
      · exact .inl (by simpa [submit, append, freeze, hl] using hc)
    obtain hold | ⟨rfl, rfl⟩ := hwait
    · obtain ⟨z, hz, hzc⟩ := h.found l' c hold
      exact ⟨z, List.mem_append_left _ hz, hzc⟩
    · exact ⟨_, List.mem_append_right _ (List.mem_singleton.2 rfl), isCommand_iff.2 ⟨rfl, rfl⟩⟩

/-- A command leaves with its frozen arguments. -/
theorem commandInv_launch (h : CommandInv s) (hr : (lts cfg kind defaults).Reachable s)
    {l : CommandList} {x : AsyncXQueue} {c : HwCommand} {z : ZeKernelCommand}
    (hw : waiting (s.xq l) = c :: waiting x)
    (hz : s.commands.find? (isCommand l c) = some z) :
    CommandInv (setAndAppend l z.hKernel z.inEffect (.launch c)
      { s with xq := update s.xq l x, commands := s.commands.eraseP (isCommand l c) }) := by
  obtain ⟨as, bs, hcommands, herase⟩ := erase_command hz
  have hzc := isCommand_iff.1 (List.find?_some hz)
  have hnodup : (waiting (s.xq l)).Nodup := by
    have hgiven := given_nodup (queue_reachable hr l)
    rw [← given_eq rfl (queue_reachable hr l)] at hgiven
    exact (List.nodup_append.1 hgiven).2.1
  constructor
  · intro k
    rw [set_length]
    show (s.args.frozenArgs k).length - _ = (s.commands.eraseP (isCommand l c)).countP _
    rw [h.count k, herase, hcommands]
    by_cases hk : k = z.hKernel
    · subst hk
      simp [List.countP_append]
    · simp [List.countP_append, hk, Ne.symm hk]
  · intro l' c' hc'
    have hne : c' ∈ waiting (s.xq l') ∧ (l' = l → c' ≠ c) := by
      by_cases hl : l' = l
      · subst hl
        have hc' : c' ∈ waiting x := by simpa [setAndAppend] using hc'
        rw [hw] at hnodup ⊢
        refine ⟨List.mem_cons_of_mem _ hc', fun _ he => ?_⟩
        exact (List.nodup_cons.1 hnodup).1 (he ▸ hc')
      · exact ⟨by simpa [setAndAppend, hl] using hc', fun he => absurd he hl⟩
    obtain ⟨y, hy, hyc⟩ := h.found l' c' hne.1
    refine ⟨y, ?_, hyc⟩
    show y ∈ s.commands.eraseP (isCommand l c)
    rw [hcommands] at hy
    rw [herase]
    rcases List.mem_append.1 hy with hy | hy
    · exact List.mem_append_left _ hy
    · rcases List.mem_cons.1 hy with rfl | hy
      · have hyc := isCommand_iff.1 hyc
        exact absurd (hyc.2.symm.trans hzc.2) (hne.2 (hyc.1.symm.trans hzc.1))
      · exact List.mem_append_right _ hy

/-- A step of a list's queue launches its oldest waiting command, or nothing. -/
theorem afterXq_cases (h : CommandInv s) (hr : (lts cfg kind defaults).Reachable s)
    {l : CommandList} {act : XAct} {x : AsyncXQueue}
    (ha : ∀ t props kind, act ≠ .submit t props kind)
    (hx : (AsyncXQueue.lts (listConfig cfg l)).step (s.xq l) act x) :
    afterXq l x s = { s with xq := update s.xq l x } ∧ waiting x = waiting (s.xq l) ∧
        Cuda.Device.newLaunch (s.xq l) x = none ∨
      ∃ c z, Cuda.Device.newLaunch (s.xq l) x = some c ∧ waiting (s.xq l) = c :: waiting x ∧
        s.commands.find? (isCommand l c) = some z ∧ s.args.frozenArgs z.hKernel ≠ [] ∧
        afterXq l x s = setAndAppend l z.hKernel z.inEffect (.launch c)
          { s with xq := update s.xq l x, commands := s.commands.eraseP (isCommand l c) } := by
  rcases waiting_step rfl (queue_reachable hr l) ha hx with ⟨hnew, hw⟩ | ⟨c, hnew, hw⟩
  · exact .inl ⟨by rw [afterXq, hnew], hw, hnew⟩
  · have hmem : c ∈ waiting (s.xq l) := by
      rw [hw]
      exact List.mem_cons_self
    obtain ⟨z, hz, hf⟩ := h.find hmem
    refine .inr ⟨c, z, hnew, hw, hz, hf, ?_⟩
    simp only [afterXq, hnew, launch, hz]

structure Inv (s : ZeShim) : Prop where
  args : ArgsInv s
  commands : CommandInv s

theorem freeze_ne_nil (hKernel : Kernel) (s : ZeShim) :
    (freeze hKernel s).args.frozenArgs hKernel ≠ [] := by
  intro hnil
  have hlength := freeze_length hKernel hKernel s
  rw [hnil, if_pos rfl] at hlength
  simp only [List.length_nil] at hlength
  omega

theorem inv_step {act : ZeAct} (hr : (lts cfg kind defaults).Reachable s) (h : Inv s)
    (hs : Step cfg kind s act s') : Inv s' := by
  cases hs with
  | kernelSet hKernel x =>
    refine ⟨argsInv_kernelSet h.args hKernel x, ?_, h.commands.found⟩
    intro k
    show ((s.args.add hKernel x).frozenArgs k).length = _
    rw [KernelArgsManager.add_frozenArgs]
    exact h.commands.count k
  | submit l hKernel hk hpc hx =>
    have hargs := argsInv_freeze h.args hKernel
    exact ⟨⟨hargs.program, hargs.appends⟩, commandInv_submit h.commands hKernel hpc⟩
  | atOnce l hKernel hk =>
    have hargs := argsInv_freeze h.args hKernel
    have hcalled : ArgsInv (append l (s.next l) (freeze hKernel s)) :=
      ⟨hargs.program, hargs.appends⟩
    refine ⟨argsInv_set hcalled (freeze_ne_nil hKernel s) l _ _, ?_, h.commands.found⟩
    intro k
    rw [set_length]
    show ((freeze hKernel s).args.frozenArgs k).length - _ = _
    rw [freeze_length]
    have hcount := h.commands.count k
    show _ = s.commands.countP fun z => decide (z.hKernel = k)
    omega
  | redirected l => exact ⟨⟨h.args.program, h.args.appends⟩, h.commands.count, h.commands.found⟩
  | xq l act x ha hx =>
    rcases afterXq_cases h.commands hr ha hx with
      ⟨he, hw, -⟩ | ⟨c, z, -, hw, hz, hf, he⟩
    · rw [he]
      refine ⟨⟨h.args.program, h.args.appends⟩, h.commands.count, fun l' c hc => ?_⟩
      refine h.commands.found l' c ?_
      by_cases hl : l' = l
      · subst hl
        rw [← hw]
        simpa using hc
      · simpa [hl] using hc
    · rw [he]
      refine ⟨argsInv_set (s := { s with
        xq := update s.xq l x, commands := s.commands.eraseP (isCommand l c) })
        ⟨h.args.program, h.args.appends⟩ hf l _ _, ?_⟩
      exact commandInv_launch h.commands hr hw hz

theorem inv_reachable (hr : (lts cfg kind defaults).Reachable s) : Inv s := by
  refine LTS.reachable_induction (I := Inv) ?_ ?_ hr
  · rintro s rfl
    exact ⟨⟨rfl, fun _ => rfl⟩, fun _ => rfl, fun l c hc => nomatch hc⟩
  · exact fun s act s' hr h hs => inv_step hr h (step_cases hs)

/-! ## Own arguments -/

/-- Every launch has seen the arguments of its append. -/
def OwnArguments (s : ZeShim) : Prop := ∀ x ∈ s.launches, x.seen = x.inEffect

/-- The kernel's arguments at the append in turn: as many appends of the kernel
came before it as launches of the kernel were made. -/
def inTurn (s : ZeShim) (k : Kernel) : Option DriverKernel := (s.appends k)[(s.seenBy k).length]?

/-- A launch is that of the append in turn, or of one with the same arguments. -/
def InTurn (cfg : CommandList → Config) (kind : CommandList → ListKind) (s : ZeShim) :
    ZeAct → Prop
  | .appendLaunchKernel l k =>
    kind l ≠ .immediateXQueue → (freeze k s).inTurn k = some (s.program k)
  | .xq l act => ∀ x c z, AsyncXQueue.step (listConfig cfg l) (s.xq l) act = some x →
      Cuda.Device.newLaunch (s.xq l) x = some c → s.commands.find? (isCommand l c) = some z →
      s.inTurn z.hKernel = some z.inEffect
  | .kernelSet _ _ | .appendRedirected _ => True

/-- A launch sees the arguments of the append in turn. -/
theorem ArgsInv.inTurn (h : ArgsInv s) {hKernel : Kernel} (hf : s.args.frozenArgs hKernel ≠ []) :
    s.inTurn hKernel = some ((s.args.set hKernel s.kernels).2 hKernel) := by
  unfold ZeShim.inTurn
  rw [h.effects hf]
  simp

theorem ownArguments_set (l : CommandList) (hKernel : Kernel) (w : DriverKernel) (a : Append)
    (s : ZeShim) : OwnArguments (setAndAppend l hKernel w a s) ↔
      OwnArguments s ∧ (s.args.set hKernel s.kernels).2 hKernel = w := by
  unfold OwnArguments setAndAppend
  simp only [List.forall_mem_append, List.forall_mem_singleton]

theorem ownArguments_step {act : ZeAct} (hr : (lts cfg kind defaults).Reachable s)
    (hs : Step cfg kind s act s') :
    OwnArguments s' ↔ OwnArguments s ∧ InTurn cfg kind s act := by
  have hi := inv_reachable hr
  cases hs with
  | kernelSet hKernel x => exact (and_iff_left trivial).symm
  | redirected l => exact (and_iff_left trivial).symm
  | submit l hKernel hk hpc hx =>
    have hturn : InTurn cfg kind s (.appendLaunchKernel l hKernel) := fun h => absurd hk h
    exact (and_iff_left hturn).symm
  | atOnce l hKernel hk =>
    have hargs := argsInv_freeze hi.args hKernel
    have hturn := hargs.inTurn (freeze_ne_nil hKernel s)
    rw [ownArguments_set]
    refine and_congr_right fun _ => ?_
    show (_ : DriverKernel) = _ ↔ (_ → (freeze hKernel s).inTurn hKernel = _)
    rw [hturn, Option.some.injEq]
    exact ⟨fun h _ => h, fun h => h hk⟩
  | xq l act x ha hx =>
    rcases afterXq_cases hi.commands hr ha hx with
      ⟨he, -, hnew⟩ | ⟨c, z, hnew, hw, hz, hf, he⟩
    · rw [he]
      refine (and_iff_left fun y d w hy hd => ?_).symm
      obtain rfl : x = y := Option.some.inj (hx.symm.trans hy)
      rw [hnew] at hd
      cases hd
    · rw [he, ownArguments_set]
      refine and_congr_right fun _ => ?_
      have hturn := hi.args.inTurn hf
      show (s.args.set z.hKernel s.kernels).2 z.hKernel = z.inEffect ↔ _
      rw [← Option.some.injEq, ← hturn]
      refine ⟨fun h y d w hy hd hw => ?_, fun h => h x c z hx hnew hz⟩
      obtain rfl : x = y := Option.some.inj (hx.symm.trans hy)
      obtain rfl : c = d := Option.some.inj (hnew.symm.trans hd)
      obtain rfl : z = w := Option.some.inj (hz.symm.trans hw)
      exact h

/-- **Own arguments.** After a run every launch has seen the arguments that were
in effect at its append if and only if each launch of the run was in turn. -/
theorem own_arguments_iff {s : ZeShim} {acts : List ZeAct}
    (h : (lts cfg kind defaults).Run (init defaults) acts s) :
    OwnArguments s ↔ ((lts cfg kind defaults).restrict (InTurn cfg kind)).Run (init defaults)
      acts s :=
  h.restrict_iff (fun _ _ _ hr hs => ownArguments_step hr (step_cases hs))
    (LTS.reachable_init rfl) fun _ hx => nomatch hx

/-! ## The order of a list's appends -/

def Append.launched : Append → Option HwCommand
  | .launch c => some c
  | .direct _ => none

def Append.number : Append → Option Nat
  | .launch _ => none
  | .direct n => some n

/-- The driver has received what was appended to the list, but for the launches
that wait in the list's queue. -/
def Ordered (l : CommandList) (s : ZeShim) : Prop :=
  s.received l ++ (waiting (s.xq l)).map .launch = s.appended l

/-- On every list the driver lacks the waiting launches and nothing else. -/
structure ReceivedInv (s : ZeShim) (l : CommandList) : Prop where
  launched : (s.appended l).filterMap Append.launched =
    (s.received l).filterMap Append.launched ++ waiting (s.xq l)
  number : (s.appended l).filterMap Append.number = (s.received l).filterMap Append.number

/-- A redirected append finds no launch waiting in the queue of list `l`. -/
def Clear (l : CommandList) (s : ZeShim) : ZeAct → Prop
  | .appendRedirected l' => l' = l → waiting (s.xq l) = []
  | _ => True

theorem append_launches {rest : List Append} (h : rest.filterMap Append.number = []) :
    rest = (rest.filterMap Append.launched).map .launch := by
  induction rest with
  | nil => rfl
  | cons a rest ih =>
    cases a with
    | launch c => simpa [Append.launched] using ih (by simpa [Append.number] using h)
    | direct n => simp [Append.number] at h

/-- Received in order is ordered, the rest being launches. -/
theorem ReceivedInv.prefix_iff {l : CommandList} (h : ReceivedInv s l) :
    s.received l <+: s.appended l ↔ Ordered l s := by
  constructor
  · rintro ⟨rest, hrest⟩
    have hlaunched := h.launched
    have hnumber := h.number
    rw [← hrest, List.filterMap_append] at hlaunched hnumber
    have hrest' := append_launches (List.append_right_eq_self.1 hnumber)
    unfold Ordered
    rw [← List.append_cancel_left hlaunched, ← hrest', hrest]
  · exact fun ho => ⟨_, ho⟩

/-- What a step does to a list that has an XQueue. -/
inductive ListStep (l : CommandList) (s s' : ZeShim) : ZeAct → Prop
  | other (act : ZeAct) (hact : act ≠ .appendRedirected l) (hr : s'.received l = s.received l)
      (hw : waiting (s'.xq l) = waiting (s.xq l)) (ha : s'.appended l = s.appended l) :
      ListStep l s s' act
  | submit (act : ZeAct) (c : HwCommand) (hact : act ≠ .appendRedirected l)
      (hr : s'.received l = s.received l) (hw : waiting (s'.xq l) = waiting (s.xq l) ++ [c])
      (ha : s'.appended l = s.appended l ++ [.launch c]) : ListStep l s s' act
  | launch (act : ZeAct) (c : HwCommand) (hact : act ≠ .appendRedirected l)
      (hr : s'.received l = s.received l ++ [.launch c])
      (hw : waiting (s.xq l) = c :: waiting (s'.xq l)) (ha : s'.appended l = s.appended l) :
      ListStep l s s' act
  | redirected (n : Nat) (hr : s'.received l = s.received l ++ [.direct n])
      (hw : s'.xq l = s.xq l) (ha : s'.appended l = s.appended l ++ [.direct n]) :
      ListStep l s s' (.appendRedirected l)

theorem list_step {l : CommandList} (hl : kind l = .immediateXQueue) {act : ZeAct}
    (hr : (lts cfg kind defaults).Reachable s) (hs : Step cfg kind s act s') :
    ListStep l s s' act := by
  cases hs with
  | kernelSet hKernel x => exact .other _ nofun rfl rfl rfl
  | submit l' hKernel hk hpc hx =>
    by_cases h : l = l'
    · subst h
      refine .submit _ (newCommand (s.xq l)) nofun rfl ?_ (Function.update_self ..)
      show waiting (update s.xq l _ l) = _
      rw [Function.update_self]
      exact waiting_allocate hpc
    · refine .other _ nofun rfl ?_ (Function.update_of_ne h ..)
      show waiting (update s.xq l' _ l) = _
      rw [Function.update_of_ne h]
  | atOnce l' hKernel hk =>
    have h : l ≠ l' := by
      rintro rfl
      exact hk hl
    exact .other _ nofun (Function.update_of_ne h ..) rfl (Function.update_of_ne h ..)
  | redirected l' =>
    by_cases h : l = l'
    · subst h
      exact .redirected _ (Function.update_self ..) rfl (Function.update_self ..)
    · refine .other _ (fun he => h ?_) (Function.update_of_ne h ..) rfl (Function.update_of_ne h ..)
      cases he; rfl
  | xq l' act x ha hx =>
    rcases afterXq_cases (inv_reachable hr).commands hr ha hx with
      ⟨he, hw, -⟩ | ⟨c, z, -, hw, hz, hf, he⟩
    · rw [he]
      refine .other _ nofun rfl ?_ rfl
      show waiting (update s.xq l' x l) = _
      by_cases h : l = l'
      · subst h
        rw [Function.update_self, hw]
      · rw [Function.update_of_ne h]
    · rw [he]
      by_cases h : l = l'
      · subst h
        refine .launch _ c nofun (Function.update_self ..) ?_ rfl
        show _ = c :: waiting (update s.xq l x l)
        rw [Function.update_self, hw]
      · refine .other _ nofun (Function.update_of_ne h ..) ?_ rfl
        show waiting (update s.xq l' x l) = _
        rw [Function.update_of_ne h]

theorem receivedInv_reachable {l : CommandList} (hl : kind l = .immediateXQueue)
    (hr : (lts cfg kind defaults).Reachable s) : ReceivedInv s l := by
  refine LTS.reachable_induction (I := fun s => ReceivedInv s l) ?_ ?_ hr
  · rintro s rfl
    exact ⟨rfl, rfl⟩
  · intro s act s' hr h hs
    have hlaunched := h.launched
    have hnumber := h.number
    cases list_step hl hr (step_cases hs) with
    | other _ _ hr hw ha => exact ⟨by rw [hr, hw, ha, hlaunched], by rw [hr, ha, hnumber]⟩
    | submit _ c _ hr hw ha =>
      constructor
      · rw [hr, hw, ha, List.filterMap_append, hlaunched, List.append_assoc]; rfl
      · rw [hr, ha, List.filterMap_append, hnumber]
        exact List.append_nil _
    | launch _ c _ hr hw ha =>
      constructor
      · rw [hr, ha, hlaunched, hw, List.filterMap_append, List.append_assoc]; rfl
      · rw [hr, ha, hnumber, List.filterMap_append]
        exact (List.append_nil _).symm
    | redirected n hr hw ha =>
      constructor
      · rw [hr, hw, ha, List.filterMap_append, List.filterMap_append, hlaunched]
        simp [List.filterMap_cons, Append.launched]
      · rw [hr, ha, List.filterMap_append, List.filterMap_append, hnumber]

/-- A launch that waits while a redirected append goes to the driver is never in
order again. -/
theorem ordered_step {l : CommandList} (hl : kind l = .immediateXQueue) {act : ZeAct}
    (hr : (lts cfg kind defaults).Reachable s) (hs : Step cfg kind s act s') :
    Ordered l s' ↔ Ordered l s ∧ Clear l s act := by
  have hclear {act : ZeAct} (hact : act ≠ .appendRedirected l) : Clear l s act := by
    cases act with
    | appendRedirected l' => exact fun he => absurd (by rw [he]) hact
    | _ => trivial
  unfold Ordered
  cases list_step hl hr hs with
  | other _ hact hr hw ha => rw [hr, hw, ha, and_iff_left (hclear hact)]
  | submit _ c hact hr hw ha =>
    rw [hr, hw, ha, and_iff_left (hclear hact), List.map_append, ← List.append_assoc]
    exact List.append_left_inj _
  | launch _ c hact hr hw ha =>
    rw [hr, hw, ha, and_iff_left (hclear hact), List.append_assoc]
    rfl
  | redirected n hr hw ha =>
    rw [hr, hw, ha]
    constructor
    · intro h
      have hnil : waiting (s.xq l) = [] := by
        by_contra hne
        have hlast := congrArg List.getLast? h
        rw [List.getLast?_append, List.getLast?_map,
          List.getLast?_eq_some_getLast hne] at hlast
        simp at hlast
      rw [hnil] at h ⊢
      exact ⟨by simpa using h, fun _ => hnil⟩
    · rintro ⟨h, hnil⟩
      rw [hnil rfl] at h ⊢
      simpa using h

/-- **Append order.** On an immediate list with an XQueue the driver has received
the first of the appends in the order in which they were made, if and only if
no redirected append of the run was made while a launch waited in the queue. -/
theorem append_order_iff {s : ZeShim} {acts : List ZeAct} {l : CommandList}
    (hl : kind l = .immediateXQueue)
    (h : (lts cfg kind defaults).Run (init defaults) acts s) :
    s.received l <+: s.appended l ↔
      ((lts cfg kind defaults).restrict (Clear l)).Run (init defaults) acts s := by
  have hr : (lts cfg kind defaults).Reachable s := ⟨_, _, rfl, h⟩
  rw [(receivedInv_reachable hl hr).prefix_iff]
  exact h.restrict_iff (fun _ _ _ hr hs => ordered_step hl hr (step_cases hs))
    (LTS.reachable_init rfl) rfl

/-! ## Concrete runs -/

/-- List 0 has an XQueue, the other lists have none. -/
def oneQueue : CommandList → ListKind
  | 0 => .immediateXQueue
  | _ => .immediate

def createdKernel : DriverKernel := ⟨⟨1, 1, 1⟩, fun _ => none, ⟨0⟩, ⟨0⟩, ⟨0, 0, 0⟩⟩

/-- Kernel 7 is appended to list 0 with group size 8; the Submit returns. -/
def deferredTrace : List ZeAct :=
  [.kernelSet 7 (.groupSize ⟨8, 1, 1⟩), .appendLaunchKernel 0 7] ++
    List.replicate 3 (.xq 0 (.submitter 0))

/-- The worker of list 0 comes to the first launch. -/
def workerTrace : List ZeAct := List.replicate 7 (.xq 0 (.machine (.worker true)))

/-- What the launches saw of the group sizes, and what was in effect. -/
def groupSizes (s : ZeShim) : List (UInt32 × UInt32) :=
  s.launches.map fun x => (x.seen.groupSize.groupSizeX, x.inEffect.groupSize.groupSizeX)

/-- The kernel is given an offset and appended once more, before the worker comes; the
group size is not set again. -/
def carriedTrace : List ZeAct :=
  deferredTrace ++ [.kernelSet 7 (.globalOffset ⟨3, 0, 0⟩), .appendLaunchKernel 0 7] ++
    List.replicate 3 (.xq 0 (.submitter 0)) ++ List.replicate 13 (.xq 0 (.machine (.worker true)))

/-- The offset that a launch saw. -/
def offsets (s : ZeShim) : List UInt32 := s.launches.map fun x => x.seen.globalOffset.offsetX

/-- Two launches that their worker makes in turn, the second with the group size of the
first. -/
theorem own_arguments_one : ∃ s,
    (lts (fun _ => cfgOne) oneQueue fun _ => createdKernel).Run (init fun _ => createdKernel)
      carriedTrace s ∧ s.groupSizes = [(8, 8), (8, 8)] ∧ s.offsets = [0, 3] ∧
    (OwnArguments s ↔ ((lts (fun _ => cfgOne) oneQueue fun _ => createdKernel).restrict
      (InTurn (fun _ => cfgOne) oneQueue)).Run (init fun _ => createdKernel) carriedTrace s) := by
  have htrace : ((LTS.exec (step (fun _ => cfgOne) oneQueue) (init fun _ => createdKernel)
      carriedTrace).map fun s => (s.groupSizes, s.offsets)) =
      some ([(8, 8), (8, 8)], [0, 3]) := by
    decide +kernel
  obtain ⟨s, hs, he⟩ := Option.map_eq_some_iff.1 htrace
  obtain ⟨hsizes, hoffsets⟩ := Prod.mk.inj he
  exact ⟨s, LTS.run_of_exec hs, hsizes, hoffsets, own_arguments_iff (LTS.run_of_exec hs)⟩

/-- **Arguments swapped.** Kernel 7 is appended to list 0 with group size 8 and
waits there; it is appended to list 1 with group size 2 and launched at once,
with group size 8. -/
theorem arguments_swapped : ∃ s,
    (lts (fun _ => cfgOne) oneQueue fun _ => createdKernel).Reachable s ∧
      s.groupSizes = [(8, 2)] ∧ ¬ OwnArguments s := by
  have htrace : ((LTS.exec (step (fun _ => cfgOne) oneQueue) (init fun _ => createdKernel)
      (deferredTrace ++ [.kernelSet 7 (.groupSize ⟨2, 1, 1⟩), .appendLaunchKernel 1 7])).map
      groupSizes) = some [(8, 2)] := by
    decide +kernel
  obtain ⟨s, hs, he⟩ := Option.map_eq_some_iff.1 htrace
  refine ⟨s, LTS.reachable_of_exec rfl hs, he, fun hown => ?_⟩
  obtain ⟨x, hx, hsizes⟩ := List.map_eq_singleton_iff.1 he
  rw [hown x (by rw [hx]; exact List.mem_singleton.2 rfl)] at hsizes
  obtain ⟨h8, h2⟩ := Prod.mk.inj hsizes
  exact absurd (h8.symm.trans h2) (by decide)

/-- A launch, and a copy after it was launched. -/
theorem append_order_one : ∃ s, s.received 0 = [.launch (halCmd 1), .direct 1] ∧
    (s.received 0 <+: s.appended 0 ↔ ((lts (fun _ => cfgOne) oneQueue
      fun _ => createdKernel).restrict (Clear 0)).Run (init fun _ => createdKernel)
        (deferredTrace ++ workerTrace ++ [.appendRedirected 0]) s) := by
  have htrace : ((LTS.exec (step (fun _ => cfgOne) oneQueue) (init fun _ => createdKernel)
      (deferredTrace ++ workerTrace ++ [.appendRedirected 0])).map fun s => s.received 0) =
      some [.launch (halCmd 1), .direct 1] := by
    decide +kernel
  obtain ⟨s, hs, he⟩ := Option.map_eq_some_iff.1 htrace
  exact ⟨s, he, append_order_iff rfl (LTS.run_of_exec hs)⟩

/-- **A copy overtakes.** A copy is appended to list 0 behind a launch that waits
in its queue; the driver receives the copy first. -/
theorem copy_overtakes : ∃ s,
    (lts (fun _ => cfgOne) oneQueue fun _ => createdKernel).Reachable s ∧
      s.appended 0 = [.launch (halCmd 1), .direct 1] ∧
      s.received 0 = [.direct 1, .launch (halCmd 1)] := by
  have htrace : ((LTS.exec (step (fun _ => cfgOne) oneQueue) (init fun _ => createdKernel)
      (deferredTrace ++ [.appendRedirected 0] ++ workerTrace)).map
      fun s => (s.appended 0, s.received 0)) =
      some ([.launch (halCmd 1), .direct 1], [.direct 1, .launch (halCmd 1)]) := by
    decide +kernel
  obtain ⟨s, hs, he⟩ := Option.map_eq_some_iff.1 htrace
  exact ⟨s, LTS.reachable_of_exec rfl hs, congrArg Prod.fst he, congrArg Prod.snd he⟩

end ZeShim
end Xsched.LevelZero
