import Mathlib.Logic.Function.Basic
import Xsched.Core.LTS

/-!
# Entry points and the launches of a context

A kernel is launched through the guardian by changing the entry point that the
driver keeps for its function: `InstrumentContext::Launch` sets the parameters
of the guardian and the entry point, launches, and sets the entry point back.
`Instrument` reads the entry point of a function it does not know, copies its code
behind the guardian's and remembers both addresses. Any number of threads are in
any number of these calls; `launch_mtx_` keeps the entry point apart for the ones
and the others, `instrument_mtx_` the map of the kernels.

**The steps.** What is done under `instrument_mtx_` is one step, as is the
reading of an entry point; a `Launch` is opened up. `level_` is read twice: when a
command is submitted, where it says whether the command is instrumented, and when
it is launched, where it says through what. The level of a queue may change at any
time: `SetPreemptLevel` waits for the commands that are enqueued, and a command is
enqueued only after `OnHwCommandSubmit`.

**The breaks.** The null stream is launched on by `CudaQueueLv1`, without the lock.
While a `Launch` has the entry point of the same function changed, such a kernel
enters at the guardian or at the resume code, with the parameters of another. And a
command that was submitted below level Deactivate is not instrumented: if the level
rises before it is launched, it enters at the null address.

**Results**
* `launches_right_iff`: every kernel is launched at the entry point that is meant,
  with the parameters of its own command and the registers and the barrier that the
  guardian needs, if and only if no launch on the null stream meets a changed entry
  point of its function and no command goes through the guardian that was submitted
  below level Deactivate.
* `unlocked_entryPoint`: while nobody has the lock, every function enters at its own
  code.
-/
namespace Xsched.Cuda.Instrument
open Function (update)

abbrev Thread := Nat
abbrev CUfunction := Nat
abbrev CUdeviceptr := Nat
/-- A `CudaQueueLv2`. -/
abbrev Queue := Nat
abbrev XPreemptLevel := Nat

/-- mirrors include/xsched/types.h:47-54 -/
def kPreemptLevelUnknown : XPreemptLevel := 0
def kPreemptLevelDeactivate : XPreemptLevel := 2

/-! ## The driver -/

/-- The arguments behind `cuXtraSetDebuggerParams`, as in `args_buf`.
mirrors platforms/cuda/hal/src/level2/instrument.cpp:63-67 -/
structure DebuggerParams where
  preemptBuf : CUdeviceptr
  guardian : CUdeviceptr
  kernelIdx : Int
  killable : Bool
  deriving DecidableEq

/-- What the driver keeps for a function. -/
structure FunctionInfo where
  entryPoint : CUdeviceptr
  debuggerParams : DebuggerParams
  localRegsPerThread : Nat
  barrierCnt : Nat
  deriving DecidableEq

/-- The code at an address: the kernel of a function, its copy behind the
guardian's instructions, or the resume instructions. -/
inductive Code where
  | original (func : CUfunction)
  | guarded (func : CUfunction)
  | resume
  deriving DecidableEq

/-! ## The context -/

/-- `queue` is the one that the command is submitted to. mirrors
platforms/cuda/hal/include/xsched/cuda/hal/common/cuda_command.h:41-62 -/
structure CudaKernelCommand where
  kFunc : CUfunction
  queue : Queue
  idx : Int
  killable : Bool
  preemptBuffer : CUdeviceptr
  entryPointOriginal : CUdeviceptr
  entryPointGuardian : CUdeviceptr
  deriving DecidableEq

/-- The members that `Instrument` sets are as they begin. -/
def CudaKernelCommand.IsNew (kernel : CudaKernelCommand) : Prop :=
  kernel.preemptBuffer = 0 ∧ kernel.entryPointOriginal = 0 ∧ kernel.entryPointGuardian = 0

instance (kernel : CudaKernelCommand) : Decidable kernel.IsNew :=
  inferInstanceAs (Decidable (_ ∧ _ ∧ _))

/-- mirrors platforms/cuda/hal/include/xsched/cuda/hal/level2/instrument.h:16-21 -/
structure InstrumentedKernel where
  entryPointOriginal : CUdeviceptr
  entryPointGuardian : CUdeviceptr
  deriving DecidableEq

/-- mirrors platforms/cuda/hal/include/xsched/cuda/hal/level2/instrument.h:23-28 -/
inductive LaunchType where
  | original
  | guardian
  | resume
  deriving DecidableEq

/-- Where a thread is. `Instrument`: before the look into the map, before the
entry point is read, before the copy. `Launch`: before each of its steps. -/
inductive Pc where
  | idle
  | find (kernel : CudaKernelCommand) (buf : CUdeviceptr)
  | read (kernel : CudaKernelCommand) (buf : CUdeviceptr)
  | copy (kernel : CudaKernelCommand) (buf epOrig : CUdeviceptr)
  | lock (kernel : CudaKernelCommand) (type : LaunchType)
  | setParams (kernel : CudaKernelCommand) (type : LaunchType)
  | setEntryPoint (kernel : CudaKernelCommand) (type : LaunchType)
  | launch (kernel : CudaKernelCommand) (type : LaunchType)
  | restore (kernel : CudaKernelCommand) (type : LaunchType)
  | unlock
  deriving DecidableEq

/-- The thread has `launch_mtx_`. -/
def Pc.holds : Pc → Bool
  | setParams _ _ | setEntryPoint _ _ | launch _ _ | restore _ _ | unlock => true
  | _ => false

/-- The launch for which the entry point of its function is changed. -/
def Pc.entered : Pc → Option (CudaKernelCommand × LaunchType)
  | launch kernel type => if type = .original then none else some (kernel, type)
  | restore kernel type => some (kernel, type)
  | _ => none

/-- The command that goes to the driver next, through the guardian. -/
def Pc.guarded : Pc → Option CudaKernelCommand
  | launch kernel type => if type = .original then none else some kernel
  | _ => none

/-- How a kernel came to the driver: from `Launch`, or from `CudaQueueLv1`. -/
inductive Way where
  | context (type : LaunchType)
  | direct
  deriving DecidableEq

/-- A kernel as the driver launched it; `entered` is the code at its entry point and
`guardian` the code at the address in its parameters. -/
structure Launched where
  kernel : CudaKernelCommand
  way : Way
  info : FunctionInfo
  entered : Option Code
  guardian : Option Code
  deriving DecidableEq

/-- `level` and `preemptIdx` are those of the queues, `code` is the instruction
memory and `functions` the driver's. mirrors
platforms/cuda/hal/include/xsched/cuda/hal/level2/instrument.h:31-80 -/
structure InstrumentContext where
  entryPointResume : CUdeviceptr
  preemptBuf : CUdeviceptr
  kernels : CUfunction → Option InstrumentedKernel
  launchMtx : Option Thread
  threads : Thread → Pc
  level : Queue → XPreemptLevel
  preemptIdx : Queue → Int
  functions : CUfunction → FunctionInfo
  code : CUdeviceptr → Option Code
  /-- the commands whose `OnHwCommandSubmit` has returned -/
  submitted : List CudaKernelCommand
  /-- ghost: those of them that `Instrument` was called for -/
  instrumented : List CudaKernelCommand
  /-- ghost: what the driver was given -/
  launched : List Launched

namespace InstrumentContext

def setPc (t : Thread) (pc : Pc) (s : InstrumentContext) : InstrumentContext :=
  { s with threads := update s.threads t pc }

def setFunction (f : CUfunction) (info : FunctionInfo) (s : InstrumentContext) :
    InstrumentContext :=
  { s with functions := update s.functions f info }

/-- What `Launch` puts into `args_buf`.
mirrors platforms/cuda/hal/src/level2/instrument.cpp:63-88 -/
def argsBuf (s : InstrumentContext) (kernel : CudaKernelCommand) : LaunchType → DebuggerParams
  | .original => ⟨s.preemptBuf, 0, 0, false⟩
  | .guardian | .resume =>
    ⟨kernel.preemptBuffer, kernel.entryPointGuardian, kernel.idx, kernel.killable⟩

/-- mirrors platforms/cuda/hal/src/level2/instrument.cpp:89-91 -/
def entryPoint (s : InstrumentContext) (kernel : CudaKernelCommand) : LaunchType → CUdeviceptr
  | .resume => s.entryPointResume
  | _ => kernel.entryPointGuardian

/-- `LaunchWrapper`: the driver launches with what it keeps for the function. -/
def launchWrapper (kernel : CudaKernelCommand) (way : Way) (s : InstrumentContext) :
    InstrumentContext :=
  let info := s.functions kernel.kFunc
  { s with launched := s.launched ++
      [⟨kernel, way, info, s.code info.entryPoint, s.code info.debuggerParams.guardian⟩] }

/-- The command as `InstrumentManager::Instrument` leaves it.
mirrors platforms/cuda/hal/src/level2/instrument.cpp:223-230 -/
def prepared (kernel : CudaKernelCommand) (buf : CUdeviceptr) (i : InstrumentedKernel) :
    CudaKernelCommand :=
  { kernel with
    preemptBuffer := buf
    entryPointOriginal := i.entryPointOriginal
    entryPointGuardian := i.entryPointGuardian }

/-- The end of an `OnHwCommandSubmit` that instruments. -/
def returned (kernel : CudaKernelCommand) (buf : CUdeviceptr) (i : InstrumentedKernel)
    (s : InstrumentContext) : InstrumentContext :=
  { s with
    submitted := prepared kernel buf i :: s.submitted
    instrumented := prepared kernel buf i :: s.instrumented }

/-- mirrors platforms/cuda/hal/src/level2/instrument.cpp:211-221 -/
def launchType (s : InstrumentContext) (kernel : CudaKernelCommand) : LaunchType :=
  if kPreemptLevelDeactivate ≤ s.level kernel.queue then
    if s.preemptIdx kernel.queue = kernel.idx then .resume else .guardian
  else .original

/-- The kernel is copied behind the guardian's instructions at `epInst`.
mirrors platforms/cuda/hal/src/level2/instrument.cpp:130-165 -/
def instrument (kernel : CudaKernelCommand) (epOrig epInst : CUdeviceptr)
    (s : InstrumentContext) : InstrumentContext :=
  let info := s.functions kernel.kFunc
  { s.setFunction kernel.kFunc { info with
      localRegsPerThread := if info.localRegsPerThread < 32 then 32 else info.localRegsPerThread
      barrierCnt := if info.barrierCnt < 1 then 1 else info.barrierCnt } with
    code := update s.code epInst (some (.guarded kernel.kFunc))
    kernels := update s.kernels kernel.kFunc (some ⟨epOrig, epInst⟩) }

inductive Act where
  /-- `CudaQueueLv2::OnHwCommandSubmit`; `buf` is the preempt buffer of the queue. -/
  | submit (t : Thread) (kernel : CudaKernelCommand) (buf : CUdeviceptr)
  /-- `InstrMemAllocator::Alloc` answers `epInst`. -/
  | copy (t : Thread) (epInst : CUdeviceptr)
  | onPreemptLevelChange (q : Queue) (level : XPreemptLevel)
  /-- `InstrumentManager::Reactivate` reads `preemptIdx`. -/
  | reactivate (q : Queue) (preemptIdx : Int)
  /-- `CudaQueueLv2::Launch` of a command of the queue. -/
  | launch (t : Thread) (kernel : CudaKernelCommand)
  /-- `CudaQueueLv2::DirectLaunch` -/
  | directLaunch (t : Thread) (kernel : CudaKernelCommand)
  /-- The next step of the thread's call. -/
  | call (t : Thread)
  /-- A launch by `CudaQueueLv1`, on the null stream. -/
  | direct (kernel : CudaKernelCommand)
  deriving DecidableEq

/-- mirrors platforms/cuda/hal/src/level2/instrument.cpp:60-101,109-128 -/
def call (t : Thread) (s : InstrumentContext) : Option InstrumentContext :=
  match s.threads t with
  | .idle | .copy _ _ _ => none
  | .find kernel buf =>
    match s.kernels kernel.kFunc with
    | some i => some ((s.returned kernel buf i).setPc t .idle)
    | none => some (s.setPc t (.read kernel buf))
  | .read kernel buf =>
    if s.launchMtx = none then
      some (s.setPc t (.copy kernel buf (s.functions kernel.kFunc).entryPoint))
    else none
  | .lock kernel type =>
    if s.launchMtx = none then
      some ({ s with launchMtx := some t }.setPc t (.setParams kernel type))
    else none
  | .setParams kernel type =>
    some ((s.setFunction kernel.kFunc { s.functions kernel.kFunc with
        debuggerParams := s.argsBuf kernel type }).setPc t
      (if type = .original then .launch kernel type else .setEntryPoint kernel type))
  | .setEntryPoint kernel type =>
    some ((s.setFunction kernel.kFunc { s.functions kernel.kFunc with
        entryPoint := s.entryPoint kernel type }).setPc t (.launch kernel type))
  | .launch kernel type =>
    some ((s.launchWrapper kernel (.context type)).setPc t
      (if type = .original then .unlock else .restore kernel type))
  | .restore kernel _ =>
    some ((s.setFunction kernel.kFunc { s.functions kernel.kFunc with
        entryPoint := kernel.entryPointOriginal }).setPc t .unlock)
  | .unlock => some ({ s with launchMtx := none }.setPc t .idle)

/-- Instruction memory is handed out once, and not at the null address.
mirrors platforms/cuda/hal/src/level2/cuda_queue.cpp:13-18,43-61 and
platforms/cuda/hal/src/level2/instrument.cpp:184-221 -/
def step (s : InstrumentContext) : Act → Option InstrumentContext
  | .submit t kernel buf =>
    if s.threads t = .idle ∧ kernel.IsNew then
      if s.level kernel.queue < kPreemptLevelDeactivate then
        some { s with submitted := kernel :: s.submitted }
      else some (s.setPc t (.find kernel buf))
    else none
  | .copy t epInst =>
    match s.threads t with
    | .copy kernel buf epOrig =>
      if s.code epInst = none ∧ epInst ≠ 0 then
        some (((s.instrument kernel epOrig epInst).returned kernel buf ⟨epOrig, epInst⟩).setPc t
          .idle)
      else none
    | _ => none
  | .onPreemptLevelChange q level => some { s with level := update s.level q level }
  | .reactivate q preemptIdx => some { s with preemptIdx := update s.preemptIdx q preemptIdx }
  | .launch t kernel =>
    if s.threads t = .idle ∧ kernel ∈ s.submitted then
      some (s.setPc t (.lock kernel (s.launchType kernel)))
    else none
  | .directLaunch t kernel =>
    if s.threads t = .idle then some (s.setPc t (.lock kernel .original)) else none
  | .call t => s.call t
  | .direct kernel => some (s.launchWrapper kernel .direct)

/-- The context is new: the driver has every function at its own code, and there is
no code at the null address. -/
structure Init (s : InstrumentContext) : Prop where
  kernels : ∀ f, s.kernels f = none
  launchMtx : s.launchMtx = none
  threads : ∀ t, s.threads t = .idle
  level : ∀ q, s.level q = kPreemptLevelUnknown
  preemptIdx : ∀ q, s.preemptIdx q = 0
  entryPoint : ∀ f, s.code (s.functions f).entryPoint = some (.original f)
  resume : s.code s.entryPointResume = some .resume
  null : s.code 0 = none
  submitted : s.submitted = []
  instrumented : s.instrumented = []
  launched : s.launched = []

def lts : LTS InstrumentContext Act := .ofFn Init step

/-! ## What is right -/

/-- The guardian is given its own entry point, and has the registers and the barrier
that its instructions use. -/
structure Guarded (l : Launched) : Prop where
  guardian : l.guardian = some (.guarded l.kernel.kFunc)
  regs : 32 ≤ l.info.localRegsPerThread
  barrier : 1 ≤ l.info.barrierCnt

/-- The kernel was launched as its launch was meant. -/
def Right (s : InstrumentContext) (l : Launched) : Prop :=
  match l.way with
  | .direct => l.entered = some (.original l.kernel.kFunc)
  | .context type =>
    l.info.debuggerParams = s.argsBuf l.kernel type ∧
      match type with
      | .original => l.entered = some (.original l.kernel.kFunc)
      | .guardian => l.info.entryPoint = l.info.debuggerParams.guardian ∧ Guarded l
      | .resume => l.entered = some .resume ∧ Guarded l

def AllRight (s : InstrumentContext) : Prop := ∀ l ∈ s.launched, s.Right l

/-- The function whose entry point is changed. -/
def changed (s : InstrumentContext) : Option CUfunction :=
  s.launchMtx.bind fun t => (s.threads t).entered.map fun l => l.1.kFunc

/-- A launch on the null stream finds the entry point of its function unchanged, and
a command that the driver is given through the guardian was instrumented. -/
def Apart (s : InstrumentContext) : Act → Prop
  | .direct kernel => s.changed ≠ some kernel.kFunc
  | .call t => ∀ kernel ∈ (s.threads t).guarded, kernel ∈ s.instrumented
  | _ => True

instance (s : InstrumentContext) : (a : Act) → Decidable (Apart s a)
  | .direct _ => inferInstanceAs (Decidable (_ ≠ _))
  | .call t => inferInstanceAs (Decidable (∀ kernel ∈ (s.threads t).guarded, _))
  | .submit _ _ _ | .copy _ _ | .onPreemptLevelChange _ _ | .reactivate _ _ | .launch _ _
  | .directLaunch _ _ => instDecidableTrue

/-! ## What a step can do -/

inductive StepCases (s : InstrumentContext) : Act → InstrumentContext → Prop
  | below {t kernel buf} (hnew : kernel.IsNew) :
    StepCases s (.submit t kernel buf) { s with submitted := kernel :: s.submitted }
  | submit {t kernel buf} (hpc : s.threads t = .idle) :
    StepCases s (.submit t kernel buf) (s.setPc t (.find kernel buf))
  | found {t kernel buf i} (hpc : s.threads t = .find kernel buf)
      (hf : s.kernels kernel.kFunc = some i) :
    StepCases s (.call t) ((s.returned kernel buf i).setPc t .idle)
  | unknown {t kernel buf} (hpc : s.threads t = .find kernel buf)
      (hf : s.kernels kernel.kFunc = none) :
    StepCases s (.call t) (s.setPc t (.read kernel buf))
  | read {t kernel buf} (hpc : s.threads t = .read kernel buf) (hmtx : s.launchMtx = none) :
    StepCases s (.call t) (s.setPc t (.copy kernel buf (s.functions kernel.kFunc).entryPoint))
  | copy {t kernel buf epOrig epInst} (hpc : s.threads t = .copy kernel buf epOrig)
      (hcode : s.code epInst = none) (hnull : epInst ≠ 0) :
    StepCases s (.copy t epInst)
      (((s.instrument kernel epOrig epInst).returned kernel buf ⟨epOrig, epInst⟩).setPc t .idle)
  | onPreemptLevelChange {q level} :
    StepCases s (.onPreemptLevelChange q level) { s with level := update s.level q level }
  | reactivate {q preemptIdx} :
    StepCases s (.reactivate q preemptIdx)
      { s with preemptIdx := update s.preemptIdx q preemptIdx }
  | launch {t kernel} (hpc : s.threads t = .idle) (hk : kernel ∈ s.submitted) :
    StepCases s (.launch t kernel) (s.setPc t (.lock kernel (s.launchType kernel)))
  | directLaunch {t kernel} (hpc : s.threads t = .idle) :
    StepCases s (.directLaunch t kernel) (s.setPc t (.lock kernel .original))
  | lock {t kernel type} (hpc : s.threads t = .lock kernel type) (hmtx : s.launchMtx = none) :
    StepCases s (.call t) ({ s with launchMtx := some t }.setPc t (.setParams kernel type))
  | setParams {t kernel type} (hpc : s.threads t = .setParams kernel type) :
    StepCases s (.call t) ((s.setFunction kernel.kFunc { s.functions kernel.kFunc with
        debuggerParams := s.argsBuf kernel type }).setPc t
      (if type = .original then .launch kernel type else .setEntryPoint kernel type))
  | setEntryPoint {t kernel type} (hpc : s.threads t = .setEntryPoint kernel type) :
    StepCases s (.call t) ((s.setFunction kernel.kFunc { s.functions kernel.kFunc with
        entryPoint := s.entryPoint kernel type }).setPc t (.launch kernel type))
  | launchWrapper {t kernel type} (hpc : s.threads t = .launch kernel type) :
    StepCases s (.call t) ((s.launchWrapper kernel (.context type)).setPc t
      (if type = .original then .unlock else .restore kernel type))
  | restore {t kernel type} (hpc : s.threads t = .restore kernel type) :
    StepCases s (.call t) ((s.setFunction kernel.kFunc { s.functions kernel.kFunc with
        entryPoint := kernel.entryPointOriginal }).setPc t .unlock)
  | unlock {t} (hpc : s.threads t = .unlock) :
    StepCases s (.call t) ({ s with launchMtx := none }.setPc t .idle)
  | direct {kernel} : StepCases s (.direct kernel) (s.launchWrapper kernel .direct)

theorem call_cases {s s' : InstrumentContext} {t : Thread} (h : s.call t = some s') :
    StepCases s (.call t) s' := by
  unfold call at h
  split at h
  · cases h
  · cases h
  · rename_i hpc
    split at h
    · rename_i hf; cases h; exact .found hpc hf
    · rename_i hf; cases h; exact .unknown hpc hf
  · rename_i hpc
    split at h
    · rename_i hmtx; cases h; exact .read hpc hmtx
    · cases h
  · rename_i hpc
    split at h
    · rename_i hmtx; cases h; exact .lock hpc hmtx
    · cases h
  · rename_i hpc; cases h; exact .setParams hpc
  · rename_i hpc; cases h; exact .setEntryPoint hpc
  · rename_i hpc; cases h; exact .launchWrapper hpc
  · rename_i hpc; cases h; exact .restore hpc
  · rename_i hpc; cases h; exact .unlock hpc

theorem step_cases {s s' : InstrumentContext} {a : Act} (h : step s a = some s') :
    StepCases s a s' := by
  cases a with
  | submit t kernel buf =>
    obtain ⟨⟨hpc, hnew⟩, hs⟩ := Option.ite_none_right_eq_some.1 h
    split at hs
    · cases hs; exact .below hnew
    · cases hs; exact .submit hpc
  | copy t epInst =>
    simp only [step] at h
    split at h
    · rename_i hpc
      obtain ⟨⟨hcode, hnull⟩, hs⟩ := Option.ite_none_right_eq_some.1 h
      cases hs
      exact .copy hpc hcode hnull
    · cases h
  | onPreemptLevelChange q level => cases h; exact .onPreemptLevelChange
  | reactivate q preemptIdx => cases h; exact .reactivate
  | launch t kernel =>
    obtain ⟨⟨hpc, hk⟩, hs⟩ := Option.ite_none_right_eq_some.1 h
    cases hs
    exact .launch hpc hk
  | directLaunch t kernel =>
    obtain ⟨hpc, hs⟩ := Option.ite_none_right_eq_some.1 h
    cases hs
    exact .directLaunch hpc
  | call t => exact call_cases h
  | direct kernel => cases h; exact .direct

/-! ## The invariant -/

/-- `guardian` is a copy of the function's own code at `original`. -/
structure Copied (s : InstrumentContext) (f : CUfunction) (original guardian : CUdeviceptr) :
    Prop where
  original : s.code original = some (.original f)
  guardian : s.code guardian = some (.guarded f)
  regs : 32 ≤ (s.functions f).localRegsPerThread
  barrier : 1 ≤ (s.functions f).barrierCnt

/-- The command can be launched through the guardian. -/
def Instrumented (s : InstrumentContext) (kernel : CudaKernelCommand) : Prop :=
  s.Copied kernel.kFunc kernel.entryPointOriginal kernel.entryPointGuardian

/-- `Instrument` was called for the command, or it has no copy. -/
def Known (s : InstrumentContext) (kernel : CudaKernelCommand) : Prop :=
  kernel ∈ s.instrumented ∨ kernel.entryPointGuardian = 0

/-- What a thread knows of the driver, at the function of its kernel. -/
def PcOk (s : InstrumentContext) : Pc → Prop
  | .idle | .find _ _ | .read _ _ | .unlock => True
  | .copy kernel _ epOrig => s.code epOrig = some (.original kernel.kFunc)
  | .lock kernel type | .setParams kernel type => type ≠ .original → s.Known kernel
  | .setEntryPoint kernel type =>
    type ≠ .original ∧ s.Known kernel ∧
      (s.functions kernel.kFunc).debuggerParams = s.argsBuf kernel type
  | .launch kernel type =>
    (s.functions kernel.kFunc).debuggerParams = s.argsBuf kernel type ∧
      (type ≠ .original → s.Known kernel ∧
        (s.functions kernel.kFunc).entryPoint = s.entryPoint kernel type)
  | .restore kernel type =>
    s.Instrumented kernel ∧ (s.functions kernel.kFunc).entryPoint = s.entryPoint kernel type

/-- Nobody has changed the entry point of the function. -/
def Unchanged (s : InstrumentContext) (f : CUfunction) : Prop :=
  ∀ t l, (s.threads t).entered = some l → l.1.kFunc ≠ f

structure Inv (s : InstrumentContext) : Prop where
  lock : ∀ t, (s.threads t).holds = true ↔ s.launchMtx = some t
  pc : ∀ t, s.PcOk (s.threads t)
  kernels : ∀ f i, s.kernels f = some i → s.Copied f i.entryPointOriginal i.entryPointGuardian
  instrumented : ∀ kernel ∈ s.instrumented, s.Instrumented kernel
  submitted : ∀ kernel ∈ s.submitted, s.Known kernel
  own : ∀ f, s.Unchanged f → s.code (s.functions f).entryPoint = some (.original f)
  resume : s.code s.entryPointResume = some .resume
  null : s.code 0 = none

/-! ## Frames -/

/-- Code stays where it is, a function keeps its registers and barriers, and a command
that was instrumented stays so. -/
structure Grows (s s' : InstrumentContext) : Prop where
  instrumented : ∀ kernel ∈ s.instrumented, kernel ∈ s'.instrumented
  code : ∀ a c, s.code a = some c → s'.code a = some c
  regs : ∀ f, (s.functions f).localRegsPerThread ≤ (s'.functions f).localRegsPerThread
  barrier : ∀ f, (s.functions f).barrierCnt ≤ (s'.functions f).barrierCnt
  resume : s'.entryPointResume = s.entryPointResume
  preemptBuf : s'.preemptBuf = s.preemptBuf

/-- What the driver keeps for the launches of a function. -/
def SameLaunch (s s' : InstrumentContext) : Prop :=
  ∀ f, (s'.functions f).entryPoint = (s.functions f).entryPoint ∧
    (s'.functions f).debuggerParams = (s.functions f).debuggerParams

section
variable {s s' : InstrumentContext} {t : Thread} {kernel : CudaKernelCommand} {type : LaunchType}
  {f : CUfunction} {original guardian : CUdeviceptr} {l : Launched} {pc : Pc}

theorem Grows.argsBuf (hg : Grows s s') (kernel : CudaKernelCommand) (type : LaunchType) :
    s'.argsBuf kernel type = s.argsBuf kernel type := by
  cases type <;> simp only [InstrumentContext.argsBuf, hg.preemptBuf]

theorem Grows.entryPoint (hg : Grows s s') (kernel : CudaKernelCommand) (type : LaunchType) :
    s'.entryPoint kernel type = s.entryPoint kernel type := by
  cases type <;> simp only [InstrumentContext.entryPoint, hg.resume]

theorem Copied.grow (h : s.Copied f original guardian) (hg : Grows s s') :
    s'.Copied f original guardian :=
  ⟨hg.code _ _ h.original, hg.code _ _ h.guardian, Nat.le_trans h.regs (hg.regs f),
    Nat.le_trans h.barrier (hg.barrier f)⟩

theorem Instrumented.grow (h : s.Instrumented kernel) (hg : Grows s s') :
    s'.Instrumented kernel := Copied.grow h hg

theorem Known.grow (h : s.Known kernel) (hg : Grows s s') : s'.Known kernel :=
  h.imp_left (hg.instrumented kernel)

/-- A launch stays right, or wrong. -/
theorem Grows.right_iff (hg : Grows s s') : s'.Right l ↔ s.Right l := by
  simp only [Right, hg.argsBuf]

/-- A thread without the lock only relies on what stays. -/
theorem PcOk.frame (h : s.PcOk pc) (hg : Grows s s')
    (hsame : pc.holds = true → SameLaunch s s') : s'.PcOk pc := by
  cases pc with
  | idle | find | read | unlock => trivial
  | copy kernel buf epOrig => exact hg.code _ _ h
  | lock kernel type => exact fun hne => (h hne).grow hg
  | setParams kernel type => exact fun hne => (h hne).grow hg
  | setEntryPoint kernel type =>
    obtain ⟨hne, hk, hp⟩ := h
    refine ⟨hne, hk.grow hg, ?_⟩
    rw [hg.argsBuf, (hsame rfl _).2]
    exact hp
  | launch kernel type =>
    obtain ⟨hp, hk⟩ := h
    refine ⟨?_, fun hne => ⟨(hk hne).1.grow hg, ?_⟩⟩
    · rw [hg.argsBuf, (hsame rfl _).2]
      exact hp
    · rw [hg.entryPoint, (hsame rfl _).1]
      exact (hk hne).2
  | restore kernel type =>
    refine ⟨h.1.grow hg, ?_⟩
    rw [hg.entryPoint, (hsame rfl _).1]
    exact h.2

@[simp] theorem functions_self (t : Thread) (pc : Pc) (f : CUfunction) (info : FunctionInfo)
    (s : InstrumentContext) : ((s.setFunction f info).setPc t pc).functions f = info :=
  Function.update_self ..

@[simp] theorem setPc_self (t : Thread) (pc : Pc) (s : InstrumentContext) :
    (s.setPc t pc).threads t = pc := Function.update_self ..

theorem Pc.holds_of_entered {x : CudaKernelCommand × LaunchType} (h : pc.entered = some x) :
    pc.holds = true := by
  cases pc <;> first | rfl | cases h

/-- Only the holder of the lock can have changed an entry point. -/
theorem Inv.changed_iff (hi : s.Inv) : s.changed = some f ↔ ¬ s.Unchanged f := by
  constructor
  · intro h hun
    obtain ⟨t, -, hf⟩ := Option.bind_eq_some_iff.1 h
    obtain ⟨l, hl, hf⟩ := Option.map_eq_some_iff.1 hf
    exact hun t l hl hf
  · intro h
    simp only [Unchanged, not_forall, not_not] at h
    obtain ⟨t, l, hl, hf⟩ := h
    rw [changed, (hi.lock t).1 (Pc.holds_of_entered hl), Option.bind_some, hl, Option.map_some, hf]

/-- Thread `t` goes on; what the others rely on stays, as long as `t` changes
what the driver launches with only under the lock. -/
theorem Inv.goto (hi : s.Inv) (hthreads : s'.threads = update s.threads t pc) (hg : Grows s s')
    (hmtx : pc.holds = true ↔ s'.launchMtx = some t)
    (hother : ∀ u, u ≠ t → (s'.launchMtx = some u ↔ s.launchMtx = some u))
    (hpc : s'.PcOk pc) (hsame : s.launchMtx ≠ some t → SameLaunch s s')
    (hkernels : s'.kernels = s.kernels) (hinst : s'.instrumented = s.instrumented)
    (hsub : s'.submitted = s.submitted) (hcode : s'.code = s.code)
    (hown : ∀ f, s'.Unchanged f → s'.code (s'.functions f).entryPoint = some (.original f)) :
    s'.Inv where
  lock u := by
    rw [hthreads]
    by_cases hu : u = t
    · subst hu
      rw [Function.update_self]
      exact hmtx
    · rw [Function.update_of_ne hu, hother u hu]
      exact hi.lock u
  pc u := by
    rw [hthreads]
    by_cases hu : u = t
    · subst hu
      rw [Function.update_self]
      exact hpc
    · rw [Function.update_of_ne hu]
      refine (hi.pc u).frame hg fun hholds => hsame fun ht => hu ?_
      exact Option.some.inj (((hi.lock u).1 hholds).symm.trans ht)
  kernels f i hf := (hi.kernels f i (by rwa [← hkernels])).grow hg
  instrumented k hk := (hi.instrumented k (by rwa [← hinst])).grow hg
  submitted k hk := (hi.submitted k (by rwa [← hsub])).grow hg
  own := hown
  resume := by rw [hg.resume]; exact hg.code _ _ hi.resume
  null := by rw [hcode]; exact hi.null

/-- A step beside the threads and the driver. -/
theorem Inv.beside (hi : s.Inv) (hg : Grows s s') (hthreads : s'.threads = s.threads)
    (hmtx : s'.launchMtx = s.launchMtx) (hfun : s'.functions = s.functions)
    (hkernels : s'.kernels = s.kernels) (hcode : s'.code = s.code)
    (hinst : ∀ k ∈ s'.instrumented, k ∈ s.instrumented ∨ s'.Instrumented k)
    (hsub : ∀ k ∈ s'.submitted, k ∈ s.submitted ∨ s'.Known k) : s'.Inv where
  lock t := by rw [hthreads, hmtx]; exact hi.lock t
  pc t := by
    rw [hthreads]
    exact (hi.pc t).frame hg fun _ f => by rw [hfun]; exact ⟨rfl, rfl⟩
  kernels f i hf := (hi.kernels f i (by rwa [← hkernels])).grow hg
  instrumented k hk := (hinst k hk).elim (fun h => (hi.instrumented k h).grow hg) id
  submitted k hk := (hsub k hk).elim (fun h => (hi.submitted k h).grow hg) id
  own f hun := by
    rw [hcode, hfun]
    refine hi.own f ?_
    intro t l hl
    exact hun t l (by rwa [hthreads])
  resume := by rw [hg.resume]; exact hg.code _ _ hi.resume
  null := by rw [hcode]; exact hi.null

/-- Nobody has changed what nobody will have changed after `t` went on. -/
theorem Unchanged.before (hun : s'.Unchanged f) (hthreads : s'.threads = update s.threads t pc)
    (ht : ∀ l, (s.threads t).entered = some l → l.1.kFunc ≠ f) : s.Unchanged f := by
  intro u l hl
  by_cases hu : u = t
  · subst hu; exact ht l hl
  · refine hun u l ?_
    rw [hthreads, Function.update_of_ne hu]
    exact hl

/-! ## The steps -/

theorem grows_same (hinst : ∀ kernel ∈ s.instrumented, kernel ∈ s'.instrumented)
    (hcode : s'.code = s.code) (hfun : s'.functions = s.functions)
    (hresume : s'.entryPointResume = s.entryPointResume) (hbuf : s'.preemptBuf = s.preemptBuf) :
    Grows s s' := by
  refine ⟨hinst, ?_, ?_, ?_, hresume, hbuf⟩
  · rw [hcode]; exact fun _ _ h => h
  · rw [hfun]; exact fun _ => Nat.le_refl _
  · rw [hfun]; exact fun _ => Nat.le_refl _

theorem grows_setPc (t : Thread) (pc : Pc) (s : InstrumentContext) : Grows s (s.setPc t pc) :=
  grows_same (fun _ h => h) rfl rfl rfl rfl

theorem grows_setFunction {info : FunctionInfo}
    (hregs : (s.functions f).localRegsPerThread ≤ info.localRegsPerThread)
    (hbar : (s.functions f).barrierCnt ≤ info.barrierCnt) (t : Thread) (pc : Pc) :
    Grows s ((s.setFunction f info).setPc t pc) := by
  refine ⟨fun _ h => h, fun _ _ h => h, ?_, ?_, rfl, rfl⟩ <;> intro f' <;> by_cases hf : f' = f
  · subst hf; rw [functions_self]; exact hregs
  · simp [setPc, setFunction, Function.update_of_ne hf]
  · subst hf; rw [functions_self]; exact hbar
  · simp [setPc, setFunction, Function.update_of_ne hf]

/-- A step that changes nothing but where the thread is. -/
theorem Inv.setPc (hi : s.Inv) (hold : (s.threads t).holds = false) (hnew : pc.holds = false)
    (hpc : s.PcOk pc) : (s.setPc t pc).Inv := by
  have hmtx : s.launchMtx ≠ some t := fun h => by
    rw [(hi.lock t).2 h] at hold; cases hold
  have hg := grows_setPc t pc s
  refine hi.goto rfl hg ?_ (fun _ _ => Iff.rfl) (hpc.frame hg ?_) (fun _ _ => ⟨rfl, rfl⟩)
    rfl rfl rfl rfl ?_
  · rw [hnew]
    exact iff_of_false Bool.false_ne_true hmtx
  · rw [hnew]
    exact fun h => nomatch h
  · intro f hun
    refine hi.own f (hun.before rfl fun l hl => ?_)
    rw [Pc.holds_of_entered hl] at hold
    cases hold

/-- `Instrument` returns a command whose copy is known. -/
theorem Inv.returned (hi : s.Inv) {buf : CUdeviceptr} {i : InstrumentedKernel}
    (hc : s.Copied kernel.kFunc i.entryPointOriginal i.entryPointGuardian) :
    (s.returned kernel buf i).Inv := by
  have hg : Grows s (s.returned kernel buf i) :=
    grows_same (fun _ h => List.mem_cons_of_mem _ h) rfl rfl rfl rfl
  refine hi.beside hg rfl rfl rfl rfl rfl ?_ ?_
  · intro k hk
    rcases List.mem_cons.1 hk with rfl | hk
    · exact .inr (hc.grow hg)
    · exact .inl hk
  · intro k hk
    rcases List.mem_cons.1 hk with rfl | hk
    · exact .inr (.inl List.mem_cons_self)
    · exact .inl hk

theorem grows_instrument (kernel : CudaKernelCommand) (epOrig : CUdeviceptr) {epInst : CUdeviceptr}
    (hcode : s.code epInst = none) : Grows s (s.instrument kernel epOrig epInst) := by
  refine ⟨fun _ h => h, ?_, ?_, ?_, rfl, rfl⟩
  · intro a c hc
    have hne : a ≠ epInst := by rintro rfl; rw [hcode] at hc; cases hc
    exact (Function.update_of_ne hne _ _).trans hc
  all_goals
    intro f
    by_cases hf : f = kernel.kFunc
    · subst hf
      simp only [instrument, setFunction, Function.update_self]
      split <;> omega
    · simp [instrument, setFunction, Function.update_of_ne hf]

theorem sameLaunch_instrument (kernel : CudaKernelCommand) (epOrig epInst : CUdeviceptr) :
    SameLaunch s (s.instrument kernel epOrig epInst) := by
  intro f
  by_cases hf : f = kernel.kFunc
  · subst hf; simp [instrument, setFunction]
  · simp [instrument, setFunction, Function.update_of_ne hf]

theorem copied_instrument {epOrig epInst : CUdeviceptr} (hcode : s.code epInst = none)
    (ho : s.code epOrig = some (.original kernel.kFunc)) :
    (s.instrument kernel epOrig epInst).Copied kernel.kFunc epOrig epInst := by
  refine ⟨(grows_instrument kernel epOrig hcode).code _ _ ho, Function.update_self .., ?_, ?_⟩
  · simp only [instrument, setFunction, Function.update_self]
    split <;> omega
  · simp only [instrument, setFunction, Function.update_self]
    split <;> omega

theorem Inv.instrument (hi : s.Inv) {epOrig epInst : CUdeviceptr} (hcode : s.code epInst = none)
    (hnull : epInst ≠ 0) (ho : s.code epOrig = some (.original kernel.kFunc)) :
    (s.instrument kernel epOrig epInst).Inv := by
  have hg := grows_instrument (s := s) kernel epOrig hcode
  have hsame := sameLaunch_instrument (s := s) kernel epOrig epInst
  refine ⟨hi.lock, fun t => (hi.pc t).frame hg fun _ => hsame, ?_,
    fun k hk => (hi.instrumented k hk).grow hg, fun k hk => (hi.submitted k hk).grow hg,
    ?_, hg.code _ _ hi.resume, (Function.update_of_ne hnull.symm _ _).trans hi.null⟩
  · intro f i hf
    by_cases hk : f = kernel.kFunc
    · subst hk
      cases (Function.update_self _ _ s.kernels).symm.trans hf
      exact copied_instrument hcode ho
    · exact (hi.kernels f i ((Function.update_of_ne hk _ s.kernels).symm.trans hf)).grow hg
  · intro f hun
    rw [(hsame f).1]
    exact hg.code _ _ (hi.own f hun)

theorem Inv.lock_step (hi : s.Inv) (hpc : s.threads t = .lock kernel type)
    (hmtx : s.launchMtx = none) :
    ({ s with launchMtx := some t }.setPc t (.setParams kernel type)).Inv := by
  have hg : Grows s ({ s with launchMtx := some t }.setPc t (.setParams kernel type)) :=
    grows_same (fun _ h => h) rfl rfl rfl rfl
  have hk := hi.pc t
  rw [hpc] at hk
  refine hi.goto rfl hg (iff_of_true rfl rfl) ?_ (fun hne => (hk hne).grow hg)
    (fun _ _ => ⟨rfl, rfl⟩) rfl rfl rfl rfl ?_
  · intro u hu
    rw [hmtx]
    exact iff_of_false (fun h => hu (Option.some.inj h).symm) (fun h => nomatch h)
  · intro f hun
    exact hi.own f (hun.before rfl fun l hl => by rw [hpc] at hl; cases hl)

theorem Inv.unlock_step (hi : s.Inv) (hpc : s.threads t = .unlock) :
    ({ s with launchMtx := none }.setPc t .idle).Inv := by
  have hg : Grows s ({ s with launchMtx := none }.setPc t .idle) :=
    grows_same (fun _ h => h) rfl rfl rfl rfl
  have hmtx : s.launchMtx = some t := (hi.lock t).1 (by rw [hpc]; rfl)
  refine hi.goto rfl hg (iff_of_false Bool.false_ne_true fun h => nomatch h) ?_ trivial
    (fun _ _ => ⟨rfl, rfl⟩) rfl rfl rfl rfl ?_
  · intro u hu
    rw [hmtx]
    exact iff_of_false (fun h => nomatch h) fun h => hu (Option.some.inj h).symm
  · intro f hun
    exact hi.own f (hun.before rfl fun l hl => by rw [hpc] at hl; cases hl)

/-- The holder of the lock changes what the driver launches a function with. -/
theorem Inv.setFunction_step (hi : s.Inv) {info : FunctionInfo}
    (hregs : (s.functions kernel.kFunc).localRegsPerThread ≤ info.localRegsPerThread)
    (hbar : (s.functions kernel.kFunc).barrierCnt ≤ info.barrierCnt)
    (hold : (s.threads t).holds = true) (hnew : pc.holds = true)
    (hpc : ((s.setFunction kernel.kFunc info).setPc t pc).PcOk pc)
    (hentered : ∀ l, (s.threads t).entered = some l → l.1.kFunc = kernel.kFunc)
    (hown : ((s.setFunction kernel.kFunc info).setPc t pc).Unchanged kernel.kFunc →
      s.code info.entryPoint = some (.original kernel.kFunc)) :
    ((s.setFunction kernel.kFunc info).setPc t pc).Inv := by
  have hg := grows_setFunction hregs hbar t pc
  have hmtx : s.launchMtx = some t := (hi.lock t).1 hold
  refine hi.goto rfl hg (iff_of_true hnew hmtx) (fun _ _ => Iff.rfl) hpc
    (fun hne => absurd hmtx hne) rfl rfl rfl rfl ?_
  intro f hun
  by_cases hf : f = kernel.kFunc
  · subst hf
    change s.code (update s.functions kernel.kFunc info kernel.kFunc).entryPoint = _
    rw [Function.update_self]
    exact hown hun
  · change s.code (update s.functions kernel.kFunc info f).entryPoint = _
    rw [Function.update_of_ne hf]
    exact hi.own f (hun.before rfl fun l hl h => hf (h.symm.trans (hentered l hl)))

/-- The instruments and entry points are not changed by a launch. -/
theorem Inv.launchWrapper (hi : s.Inv) (way : Way) : (s.launchWrapper kernel way).Inv := by
  have hg : Grows s (s.launchWrapper kernel way) := grows_same (fun _ h => h) rfl rfl rfl rfl
  exact hi.beside hg rfl rfl rfl rfl rfl (fun _ h => .inl h) fun _ h => .inl h

/-- The holder of the lock launched, and restores the entry point if it changed it. -/
theorem Inv.launched_step (hi : s.Inv) (hpc : s.threads t = .launch kernel type)
    (hinst : type ≠ .original → kernel ∈ s.instrumented) :
    (s.setPc t (if type = .original then .unlock else .restore kernel type)).Inv := by
  have hmtx : s.launchMtx = some t := (hi.lock t).1 (by rw [hpc]; rfl)
  have hk := hi.pc t
  rw [hpc] at hk
  have hg := grows_setPc t (if type = .original then Pc.unlock else .restore kernel type) s
  refine hi.goto rfl hg ?_ (fun _ _ => Iff.rfl) ?_ (fun _ _ => ⟨rfl, rfl⟩) rfl rfl rfl rfl ?_
  · refine iff_of_true ?_ hmtx
    split <;> rfl
  · split
    · trivial
    · rename_i hne
      have hg := grows_setPc t (.restore kernel type) s
      refine ⟨(hi.instrumented kernel (hinst hne)).grow hg, ?_⟩
      rw [hg.entryPoint]
      exact (hk.2 hne).2
  · intro f hun
    refine hi.own f (hun.before rfl fun l hl => ?_)
    refine hun t l ?_
    rw [setPc_self]
    rw [hpc] at hl
    simp only [Pc.entered, Option.ite_none_left_eq_some] at hl
    rw [if_neg hl.1]
    exact hl.2

theorem inv_init (h : Init s) : s.Inv where
  lock t := by rw [h.threads, h.launchMtx]; exact iff_of_false Bool.false_ne_true (fun h => nomatch h)
  pc t := by rw [h.threads]; trivial
  kernels f i hf := by rw [h.kernels] at hf; cases hf
  instrumented k hk := by rw [h.instrumented] at hk; cases hk
  submitted k hk := by rw [h.submitted] at hk; cases hk
  own f _ := h.entryPoint f
  resume := h.resume
  null := h.null

theorem Inv.step (hi : s.Inv) {a : Act} (hs : StepCases s a s') (hok : s.Apart a) : s'.Inv := by
  cases hs with
  | @below t kernel buf hnew =>
    refine hi.beside (grows_same (fun _ h => h) rfl rfl rfl rfl) rfl rfl rfl rfl rfl
      (fun _ h => .inl h) fun k hk => ?_
    rcases List.mem_cons.1 hk with rfl | hk
    · exact .inr (.inr hnew.2.2)
    · exact .inl hk
  | submit hpc => exact hi.setPc (by rw [hpc]; rfl) rfl trivial
  | onPreemptLevelChange | reactivate =>
    exact hi.beside (grows_same (fun _ h => h) rfl rfl rfl rfl) rfl rfl rfl rfl rfl
      (fun _ h => .inl h) fun _ h => .inl h
  | @found t kernel buf i hpc hf =>
    exact (hi.returned (hi.kernels _ i hf)).setPc (by change (s.threads t).holds = _; rw [hpc]; rfl)
      rfl trivial
  | unknown hpc _ => exact hi.setPc (by rw [hpc]; rfl) rfl trivial
  | @read t kernel buf hpc hmtx =>
    -- nobody has the lock, so that the entry point is the function's own
    refine hi.setPc (by rw [hpc]; rfl) rfl (hi.own _ fun u l hl => ?_)
    rw [(hi.lock u).1 (Pc.holds_of_entered hl)] at hmtx
    cases hmtx
  | @copy t kernel buf epOrig epInst hpc hcode hnull =>
    have hk := hi.pc t
    rw [hpc] at hk
    have hinstr := hi.instrument hcode hnull hk
    refine (hinstr.returned (copied_instrument hcode hk)).setPc ?_ rfl trivial
    change (s.threads t).holds = false
    rw [hpc]
    rfl
  | launch hpc hk => exact hi.setPc (by rw [hpc]; rfl) rfl fun _ => hi.submitted _ hk
  | directLaunch hpc => exact hi.setPc (by rw [hpc]; rfl) rfl fun hne => absurd rfl hne
  | lock hpc hmtx => exact hi.lock_step hpc hmtx
  | @setParams t kernel type hpc =>
    have hk := hi.pc t
    rw [hpc] at hk
    refine hi.setFunction_step (Nat.le_refl _) (Nat.le_refl _) (by rw [hpc]; rfl)
      (by split <;> rfl) ?_ (fun l hl => by rw [hpc] at hl; cases hl) ?_
    · split
      · rename_i htype
        refine ⟨?_, fun hne => absurd htype hne⟩
        rw [functions_self]
        cases type <;> rfl
      · rename_i htype
        have hg : Grows s ((s.setFunction kernel.kFunc
            { s.functions kernel.kFunc with debuggerParams := s.argsBuf kernel type }).setPc t
              (.setEntryPoint kernel type)) := by
          apply grows_setFunction <;> exact Nat.le_refl _
        refine ⟨htype, (hk htype).grow hg, ?_⟩
        rw [functions_self, hg.argsBuf]
    · intro hun
      exact hi.own _ (hun.before rfl fun l hl => by rw [hpc] at hl; cases hl)
  | @setEntryPoint t kernel type hpc =>
    have hk := hi.pc t
    rw [hpc] at hk
    obtain ⟨hne, hinst, hparams⟩ := hk
    refine hi.setFunction_step (Nat.le_refl _) (Nat.le_refl _) (by rw [hpc]; rfl) rfl ?_
      (fun l hl => by rw [hpc] at hl; cases hl) ?_
    · have hg : Grows s ((s.setFunction kernel.kFunc
          { s.functions kernel.kFunc with entryPoint := s.entryPoint kernel type }).setPc t
            (.launch kernel type)) := by
        apply grows_setFunction <;> exact Nat.le_refl _
      refine ⟨?_, fun _ => ⟨hinst.grow hg, ?_⟩⟩
      · rw [functions_self, hg.argsBuf]
        exact hparams
      · rw [functions_self, hg.entryPoint]
    · intro hun
      refine absurd rfl (hun t (kernel, type) ?_)
      rw [setPc_self, Pc.entered, if_neg hne]
  | @launchWrapper t kernel type hpc =>
    refine (hi.launchWrapper _).launched_step hpc fun hne => hok kernel ?_
    rw [hpc, Pc.guarded, if_neg hne]
    rfl
  | @restore t kernel type hpc =>
    have hk := hi.pc t
    rw [hpc] at hk
    refine hi.setFunction_step (Nat.le_refl _) (Nat.le_refl _) (by rw [hpc]; rfl) rfl trivial
      (fun l hl => by rw [hpc] at hl; cases hl; rfl) fun _ => hk.1.original
  | unlock hpc => exact hi.unlock_step hpc
  | direct => exact hi.launchWrapper _

/-! ## Every launch is right -/

theorem StepCases.grows {a : Act} (hs : StepCases s a s') : Grows s s' := by
  cases hs with
  | @copy t kernel buf epOrig epInst _ hcode =>
    have hg := grows_instrument kernel epOrig hcode
    exact ⟨fun _ h => List.mem_cons_of_mem _ h, hg.code, hg.regs, hg.barrier, rfl, rfl⟩
  | found => exact grows_same (fun _ h => List.mem_cons_of_mem _ h) rfl rfl rfl rfl
  | setParams | setEntryPoint | restore =>
    apply grows_setFunction <;> exact Nat.le_refl _
  | below | submit | unknown | read | onPreemptLevelChange | reactivate | launch | directLaunch
  | lock | launchWrapper | unlock | direct =>
    exact grows_same (fun _ h => h) rfl rfl rfl rfl

/-- A step that launches nothing. -/
theorem Grows.allRight_iff (hg : Grows s s') (hl : s'.launched = s.launched) :
    s'.AllRight ↔ s.AllRight := by
  unfold AllRight
  rw [hl]
  exact forall_congr' fun l => forall_congr' fun _ => hg.right_iff

/-- What the driver is given in a `LaunchWrapper`. -/
def launches (s : InstrumentContext) (kernel : CudaKernelCommand) (way : Way) : Launched :=
  let info := s.functions kernel.kFunc
  ⟨kernel, way, info, s.code info.entryPoint, s.code info.debuggerParams.guardian⟩

theorem Grows.allRight_launch (hg : Grows s s') {way : Way}
    (hl : s'.launched = s.launched ++ [s.launches kernel way]) :
    s'.AllRight ↔ s.AllRight ∧ s.Right (s.launches kernel way) := by
  unfold AllRight
  rw [hl]
  constructor
  · intro h
    exact ⟨fun l hl => hg.right_iff.1 (h l (List.mem_append_left _ hl)),
      hg.right_iff.1 (h _ (List.mem_append_right _ (List.mem_singleton_self _)))⟩
  · rintro ⟨hall, hlast⟩ l hl
    rcases List.mem_append.1 hl with hl | hl
    · exact hg.right_iff.2 (hall l hl)
    · rw [List.mem_singleton.1 hl]
      exact hg.right_iff.2 hlast

/-- A thread that gives nothing to the driver through the guardian. -/
theorem apart_call (h : (s.threads t).guarded = none) : s.Apart (.call t) := by
  intro kernel hk
  rw [h] at hk
  cases hk

/-- The guardian gets its entry point and what it needs exactly for a command that was
instrumented: the other commands have the null address. -/
theorem Inv.guarded_iff (hi : s.Inv) (hpc : s.threads t = .launch kernel type)
    (hne : type ≠ .original) :
    Guarded (s.launches kernel (.context type)) ↔ kernel ∈ s.instrumented := by
  have hk := hi.pc t
  rw [hpc] at hk
  obtain ⟨hparams, hk⟩ := hk
  have hguardian :
      (s.functions kernel.kFunc).debuggerParams.guardian = kernel.entryPointGuardian := by
    rw [hparams]
    cases type with
    | original => exact absurd rfl hne
    | guardian | resume => rfl
  constructor
  · intro hg
    refine (hk hne).1.resolve_right fun hnull => ?_
    have hcode : s.code (s.functions kernel.kFunc).debuggerParams.guardian = _ := hg.guardian
    rw [hguardian, hnull, hi.null] at hcode
    cases hcode
  · intro hmem
    have hinst := hi.instrumented kernel hmem
    refine ⟨?_, hinst.regs, hinst.barrier⟩
    change s.code (s.functions kernel.kFunc).debuggerParams.guardian = _
    rw [hguardian]
    exact hinst.guardian

/-- A `Launch` launches what is meant, if the command was instrumented. -/
theorem Inv.right_context_iff (hi : s.Inv) (hpc : s.threads t = .launch kernel type) :
    s.Right (s.launches kernel (.context type)) ↔ s.Apart (.call t) := by
  have hk := hi.pc t
  rw [hpc] at hk
  obtain ⟨hparams, hk⟩ := hk
  have hapart : s.Apart (.call t) ↔ (type ≠ .original → kernel ∈ s.instrumented) := by
    simp only [Apart, hpc, Pc.guarded, Option.mem_def, Option.ite_none_left_eq_some]
    exact ⟨fun h hne => h kernel ⟨hne, rfl⟩, fun h k ⟨hne, hk⟩ => Option.some.inj hk ▸ h hne⟩
  rw [hapart]
  cases type with
  | original =>
    refine iff_of_true ⟨hparams, ?_⟩ fun hne => absurd rfl hne
    -- the holder of the lock has changed nothing
    refine hi.own _ fun u l hl => ?_
    have hu : u = t := Option.some.inj
      (((hi.lock u).1 (Pc.holds_of_entered hl)).symm.trans ((hi.lock t).1 (by rw [hpc]; rfl)))
    rw [hu, hpc] at hl
    cases hl
  | guardian =>
    have hne : LaunchType.guardian ≠ .original := LaunchType.noConfusion
    have hentry : (s.functions kernel.kFunc).entryPoint =
        (s.functions kernel.kFunc).debuggerParams.guardian := by
      rw [(hk hne).2, hparams]
      rfl
    rw [← hi.guarded_iff hpc hne]
    exact ⟨fun h _ => h.2.2, fun h => ⟨hparams, hentry, h hne⟩⟩
  | resume =>
    have hne : LaunchType.resume ≠ .original := LaunchType.noConfusion
    have hentry : s.code (s.functions kernel.kFunc).entryPoint = some .resume := by
      rw [(hk hne).2]
      exact hi.resume
    rw [← hi.guarded_iff hpc hne]
    exact ⟨fun h _ => h.2.2, fun h => ⟨hparams, hentry, h hne⟩⟩

/-- The copy of a command is not the function's own code. -/
theorem Inv.known_code (hi : s.Inv) (h : s.Known kernel) :
    s.code kernel.entryPointGuardian ≠ some (.original kernel.kFunc) := by
  rcases h with hmem | hnull
  · rw [(hi.instrumented kernel hmem).guardian]
    simp
  · rw [hnull, hi.null]
    simp

/-- A changed entry point is the guardian's, that of the resume instructions or the
null address. -/
theorem Inv.entered_code (hi : s.Inv) {x : CudaKernelCommand × LaunchType}
    (hx : (s.threads t).entered = some x) :
    s.code (s.functions x.1.kFunc).entryPoint ≠ some (.original x.1.kFunc) := by
  have hentry : s.code x.1.entryPointGuardian ≠ some (.original x.1.kFunc) ∧
      (s.functions x.1.kFunc).entryPoint = s.entryPoint x.1 x.2 := by
    have hk := hi.pc t
    cases hpc : s.threads t with
    | launch kernel type =>
      rw [hpc] at hk hx
      obtain ⟨hne, hx⟩ := Option.ite_none_left_eq_some.1 hx
      cases hx
      exact ⟨hi.known_code (hk.2 hne).1, (hk.2 hne).2⟩
    | restore kernel type =>
      rw [hpc] at hk hx
      cases hx
      refine ⟨?_, hk.2⟩
      rw [hk.1.guardian]
      simp
    | idle | find | read | copy | lock | setParams | setEntryPoint | unlock =>
      rw [hpc] at hx; cases hx
  obtain ⟨hcode, hentry⟩ := hentry
  rw [hentry]
  cases hx2 : x.2 with
  | resume =>
    change s.code s.entryPointResume ≠ _
    rw [hi.resume]
    simp
  | original | guardian => exact hcode

/-- A launch on the null stream is right if the entry point is unchanged. -/
theorem Inv.right_direct_iff (hi : s.Inv) :
    s.Right (s.launches kernel .direct) ↔ s.Apart (.direct kernel) := by
  change s.code (s.functions kernel.kFunc).entryPoint = _ ↔ s.changed ≠ some kernel.kFunc
  rw [Ne, hi.changed_iff, not_not]
  constructor
  · rintro h t x hx hf
    refine hi.entered_code hx ?_
    rw [hf]
    exact h
  · exact hi.own _

theorem Inv.allRight_step (hi : s.Inv) {a : Act} (hs : StepCases s a s') :
    s'.AllRight ↔ s.AllRight ∧ s.Apart a := by
  have hg := hs.grows
  cases hs with
  | launchWrapper hpc =>
    rw [hg.allRight_launch rfl]
    exact and_congr_right fun _ => hi.right_context_iff hpc
  | direct =>
    rw [hg.allRight_launch rfl]
    exact and_congr_right fun _ => hi.right_direct_iff
  | below | submit | copy | onPreemptLevelChange | reactivate | launch | directLaunch =>
    rw [hg.allRight_iff rfl]
    exact (and_iff_left trivial).symm
  | found hpc | unknown hpc | read hpc | lock hpc | setParams hpc | setEntryPoint hpc | restore hpc
  | unlock hpc =>
    rw [hg.allRight_iff rfl]
    exact (and_iff_left (apart_call (by rw [hpc]; rfl))).symm

/-- What was launched wrong stays in the list. -/
theorem StepCases.allRight_before {a : Act} (hs : StepCases s a s') (h : s'.AllRight) :
    s.AllRight := by
  have hg := hs.grows
  intro l hl
  refine hg.right_iff.1 (h l ?_)
  cases hs with
  | launchWrapper | direct => exact List.mem_append_left _ hl
  | _ => exact hl

end

/-- The invariant holds as long as every launch was right. -/
theorem inv_of_allRight {s : InstrumentContext} (hr : lts.Reachable s) (h : s.AllRight) : s.Inv := by
  refine LTS.reachable_induction (I := fun s => s.AllRight → s.Inv) (fun _ h₀ _ => inv_init h₀)
    ?_ hr h
  intro s a s' _ ih hs h
  have hcases := step_cases hs
  have hi := ih (hcases.allRight_before h)
  exact hi.step hcases ((hi.allRight_step hcases).1 h).2

/-- Every kernel is launched as it was meant, if and only if no launch on the null
stream meets a changed entry point of its function and every command that is launched
through the guardian was instrumented. -/
theorem launches_right_iff {s₀ s : InstrumentContext} {as : List Act} (h₀ : Init s₀)
    (h : lts.Run s₀ as s) : s.AllRight ↔ (lts.restrict Apart).Run s₀ as s := by
  refine h.restrict_iff ?_ (LTS.reachable_init h₀) ?_
  · intro s a s' hr hs
    have hcases := step_cases hs
    constructor
    · intro h
      have hi := inv_of_allRight hr (hcases.allRight_before h)
      exact (hi.allRight_step hcases).1 h
    · rintro ⟨h, hok⟩
      exact ((inv_of_allRight hr h).allRight_step hcases).2 ⟨h, hok⟩
  · intro l hl
    rw [h₀.launched] at hl
    cases hl

/-- While nobody has the lock, every function enters at its own code, as long as
every launch was right. -/
theorem unlocked_entryPoint {s : InstrumentContext} (hr : lts.Reachable s) (h : s.AllRight)
    (hmtx : s.launchMtx = none) (f : CUfunction) :
    s.code (s.functions f).entryPoint = some (.original f) := by
  have hi := inv_of_allRight hr h
  refine hi.own f fun t l hl => ?_
  rw [(hi.lock t).1 (Pc.holds_of_entered hl)] at hmtx
  cases hmtx

/-! ## The two breaks -/

/-- A context whose functions have their code at even addresses. -/
def fresh : InstrumentContext where
  entryPointResume := 1
  preemptBuf := 0
  kernels := fun _ => none
  launchMtx := none
  threads := fun _ => .idle
  level := fun _ => kPreemptLevelUnknown
  preemptIdx := fun _ => 0
  functions := fun f => ⟨2 * (f + 1), ⟨0, 0, 0, false⟩, 16, 0⟩
  code := fun a => if a = 0 then none else if a = 1 then some .resume
    else if a % 2 = 0 then some (.original (a / 2 - 1)) else none
  submitted := []
  instrumented := []
  launched := []

theorem init_fresh : Init fresh where
  kernels _ := rfl
  launchMtx := rfl
  threads _ := rfl
  level _ := rfl
  preemptIdx _ := rfl
  entryPoint (f : Nat) := by
    have h0 : ¬ 2 * (f + 1) = 0 := by omega
    have h1 : ¬ 2 * (f + 1) = 1 := by omega
    have hf : 2 * (f + 1) / 2 - 1 = f := by omega
    change (if 2 * (f + 1) = 0 then none else if 2 * (f + 1) = 1 then some .resume
      else if 2 * (f + 1) % 2 = 0 then some (Code.original (2 * (f + 1) / 2 - 1)) else none) = _
    rw [if_neg h0, if_neg h1, if_pos (Nat.mul_mod_right 2 (f + 1)), hf]
  resume := rfl
  null := rfl
  submitted := rfl
  instrumented := rfl
  launched := rfl

/-- A command before and after its `Instrument`. -/
def sample : CudaKernelCommand := ⟨5, 0, 1, false, 0, 0, 0⟩
def sampled : CudaKernelCommand := ⟨5, 0, 1, false, 64, 12, 3⟩

/-- Two threads instrument one function at once, and the first launches; the other
launches on the null stream, before or while the entry point is changed. -/
def race (late : Bool) : List Act :=
  [.onPreemptLevelChange 0 2, .submit 0 sample 64, .submit 1 sample 96, .call 0, .call 1, .call 0,
    .call 1, .copy 0 3, .copy 1 5, .launch 0 sampled] ++
  (if late then [.call 0, .call 0, .call 0, .direct sample, .call 0, .call 0, .call 0]
    else [.direct sample, .call 0, .call 0, .call 0, .call 0, .call 0, .call 0])

theorem launches_right_before : ∃ s, lts.Run fresh (race false) s ∧ s.launched.length = 2 ∧
    s.AllRight := by
  have hexec : ∃ s, LTS.exec (LTS.guarded Apart step) fresh (race false) = some s ∧
      s.launched.length = 2 := ⟨_, rfl, rfl⟩
  obtain ⟨s, hs, hlen⟩ := hexec
  have hrun : (lts.restrict Apart).Run fresh (race false) s := LTS.run_restrict_of_exec hs
  exact ⟨s, hrun.of_restrict, hlen, (launches_right_iff init_fresh hrun.of_restrict).2 hrun⟩

/-- The kernel on the null stream enters at the guardian of the other. -/
theorem null_stream_enters_guardian : ∃ s, lts.Run fresh (race true) s ∧ ¬ s.AllRight := by
  have hexec : ∃ s l, LTS.exec step fresh (race true) = some s ∧ s.launched.head? = some l ∧
      l.way = .direct ∧ l.entered = some (.guarded 5) := ⟨_, _, rfl, rfl, rfl, by decide⟩
  obtain ⟨s, l, hs, hl, hway, hent⟩ := hexec
  refine ⟨s, LTS.run_of_exec hs, fun hall => ?_⟩
  have hr := hall l (List.mem_of_mem_head? hl)
  rw [Right, hway] at hr
  cases hent.symm.trans hr

/-- A command is submitted below level Deactivate, the level rises, and the launch worker
takes the command. -/
def rise : List Act :=
  [.onPreemptLevelChange 0 1, .submit 0 sample 64, .onPreemptLevelChange 0 2, .launch 1 sample,
    .call 1, .call 1, .call 1, .call 1]

/-- The kernel enters at the null address. -/
theorem risen_level_enters_null : ∃ s, lts.Run fresh rise s ∧ ¬ s.AllRight := by
  have hexec : ∃ s l, LTS.exec step fresh rise = some s ∧ s.launched.head? = some l ∧
      l.way = .context .guardian ∧ l.guardian = none := ⟨_, _, rfl, rfl, rfl, by decide⟩
  obtain ⟨s, l, hs, hl, hway, hent⟩ := hexec
  refine ⟨s, LTS.run_of_exec hs, fun hall => ?_⟩
  have hr := hall l (List.mem_of_mem_head? hl)
  rw [Right, hway] at hr
  cases hent.symm.trans hr.2.2.guardian

end InstrumentContext
end Xsched.Cuda.Instrument
