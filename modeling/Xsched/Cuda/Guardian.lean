import Mathlib.Logic.Function.Basic
import Xsched.Core.LTS
import Xsched.Core.RowMajor

/-!
# Level-2 preemption: the guardian and its preempt buffer

One `CudaQueueLv2` with its hardware stream. Every kernel is launched through
the guardian: each block runs `check_preempt` and then its body or nothing;
a resume launch runs `restore_exec` first. The buffer has a header (the
global exit flag and the index of the first preempted kernel) and an exit and
a restore flag for each block index, shared by all kernels of the queue.

**Atomicity.** A block is one step: thread 0 alone reads the header and writes
the flags, before a barrier, and two blocks that save `preempt_idx` at once
save the same value. The kernels of the stream run one after another, the
blocks of a kernel in any order, and `Deactivate` takes effect anywhere.
A block is its linear index here; the module on the preempt buffer numbers
the blocks of a grid.
`Reactivate` waits for the stream, reads and clears the header in one step
and relaunches one kernel a step; the launch worker is paused meanwhile.

**The log** is the in-flight log of the launch worker. Its front is popped
when a `Synchronize` returned for it with no suspension since the call, so
never while the global exit flag is set. A drop-resume reactivates with an
empty log and clears it.

**Ghost fields.** `launched`, `dropped` and `ran` (how often a block of a
kernel ran its body) record the history.
-/
namespace Xsched.Cuda

/-! ## Kernels -/

/-- A grid whose preempt buffer fits `VM_DEFAULT_SIZE`, so that
`ResizableBuffer::ExpandTo` does not end the process.
mirrors platforms/cuda/hal/src/level2/mm.cpp:68-74 -/
structure Grid where
  x : Nat
  y : Nat
  z : Nat
  fits : 2 * 8 + 2 * 4 * (x * y * z) ≤ 2 ^ 30
  deriving DecidableEq

/-- mirrors platforms/cuda/hal/include/xsched/cuda/hal/common/cuda_command.h:74 -/
def Grid.blockCnt (g : Grid) : Nat := g.x * g.y * g.z % 2 ^ 32

theorem Grid.blockCnt_eq (g : Grid) : g.blockCnt = g.x * g.y * g.z := by
  have h := g.fits
  unfold blockCnt
  exact Nat.mod_eq_of_lt (by omega)

/-- mirrors platforms/cuda/hal/include/xsched/cuda/hal/common/cuda_command.h:41-85 -/
structure Kernel where
  idx : Nat
  grid : Grid
  deriving DecidableEq

def Kernel.blockCnt (k : Kernel) : Nat := k.grid.blockCnt

/-! ## The preempt buffer -/

/-- mirrors platforms/cuda/hal/inject/inject.cu:39-42 -/
structure PreemptBuffer where
  globalExitFlag : Bool
  preemptIdx : Nat
  exitFlag : Nat → Bool
  restoreFlag : Nat → Bool

/-- The block exits when its exit flag is set afterwards.
mirrors platforms/cuda/hal/inject/inject.cu:43-83 -/
def checkPreempt (kernelIdx blockIdx : Nat) (buf : PreemptBuffer) : PreemptBuffer :=
  if buf.globalExitFlag = false then
    { buf with exitFlag := Function.update buf.exitFlag blockIdx false }
  else
    let buf := { buf with exitFlag := Function.update buf.exitFlag blockIdx true }
    let saved := Function.update buf.restoreFlag blockIdx true
    if buf.preemptIdx = 0 then { buf with preemptIdx := kernelIdx, restoreFlag := saved }
    else if buf.preemptIdx = kernelIdx then { buf with restoreFlag := saved }
    else buf

/-- `none` when the block exits.
mirrors platforms/cuda/hal/inject/inject.cu:124-140 -/
def restoreExec (blockIdx : Nat) (buf : PreemptBuffer) : Option PreemptBuffer :=
  if buf.restoreFlag blockIdx = false then none
  else some { buf with restoreFlag := Function.update buf.restoreFlag blockIdx false }

/-- The entry points of a launch at level Deactivate; a resume entry goes on
to the guardian's.
mirrors platforms/cuda/hal/include/xsched/cuda/hal/level2/instrument.h:23-28 -/
inductive LaunchType where
  | guardian | resume
  deriving DecidableEq, Repr

/-- One block of kernel `kernelIdx`, and whether it runs its body. -/
def runBlock (type : LaunchType) (kernelIdx blockIdx : Nat) (buf : PreemptBuffer) :
    PreemptBuffer × Bool :=
  match type with
  | .guardian =>
    let buf := checkPreempt kernelIdx blockIdx buf
    (buf, !buf.exitFlag blockIdx)
  | .resume =>
    match restoreExec blockIdx buf with
    | none => (buf, false)
    | some buf =>
      let buf := checkPreempt kernelIdx blockIdx buf
      (buf, !buf.exitFlag blockIdx)

/-! ## The queue -/

/-- A kernel on the stream, with the blocks that have not run. -/
structure Launch where
  kernel : Kernel
  type : LaunchType
  todo : List Nat
  deriving DecidableEq

structure CudaQueueLv2 where
  buf : PreemptBuffer
  /-- `InstrumentManager::preempt_idx_` -/
  preemptIdx : Nat
  stream : List Launch
  /-- what a `Reactivate` under way has still to launch -/
  relaunch : List Kernel
  log : List Kernel
  /-- ghost: every kernel launched by the worker, in order -/
  launched : List Kernel
  /-- ghost: the kernels that a drop-resume did not relaunch -/
  dropped : List Kernel
  /-- ghost: how often a block of the kernel with this index ran its body -/
  ran : Nat → Nat → Nat

namespace CudaQueueLv2

/-- Fresh device memory is taken to be clear, as `ExpandTo` makes what it adds. -/
def init : CudaQueueLv2 where
  buf := ⟨false, 0, fun _ => false, fun _ => false⟩
  preemptIdx := 0
  stream := []
  relaunch := []
  log := []
  launched := []
  dropped := []
  ran := fun _ _ => 0

/-- mirrors platforms/cuda/hal/src/level2/instrument.cpp:213-222 -/
def launchType (q : CudaQueueLv2) (k : Kernel) : LaunchType :=
  if q.preemptIdx = k.idx then .resume else .guardian

def toLaunch (q : CudaQueueLv2) (k : Kernel) : Launch :=
  ⟨k, q.launchType k, List.range k.blockCnt⟩

/-- The worker launches `k`; indices grow in launch order.
mirrors platforms/cuda/hal/src/level2/cuda_queue.cpp:13-21 -/
def launch (k : Kernel) (q : CudaQueueLv2) : CudaQueueLv2 :=
  { q with stream := q.stream ++ [q.toLaunch k], log := q.log ++ [k],
           launched := q.launched ++ [k] }

/-- Block `b` of the kernel at the front of the stream. -/
def runFront (b : Nat) (q : CudaQueueLv2) : Option CudaQueueLv2 :=
  match q.stream with
  | [] => none
  | l :: rest =>
    if b ∈ l.todo then
      let (buf, body) := runBlock l.type l.kernel.idx b q.buf
      let ran := q.ran l.kernel.idx
      some { q with
        buf := buf
        stream := { l with todo := l.todo.erase b } :: rest
        ran := if body then
            Function.update q.ran l.kernel.idx (Function.update ran b (ran b + 1))
          else q.ran }
    else none

/-- The kernel at the front ends. -/
def finish (q : CudaQueueLv2) : Option CudaQueueLv2 :=
  match q.stream with
  | [] => none
  | l :: rest => if l.todo = [] then some { q with stream := rest } else none

/-- mirrors platforms/cuda/hal/src/level2/instrument.cpp:181-185 -/
def deactivate (q : CudaQueueLv2) : CudaQueueLv2 :=
  { q with buf := { q.buf with globalExitFlag := true } }

/-- `InstrumentManager::Reactivate`, and the kernels that
`CudaQueueLv2::Reactivate(log)` will launch; only called with the stream empty.
mirrors platforms/cuda/hal/src/level2/instrument.cpp:187-211 and
platforms/cuda/hal/src/level2/cuda_queue.cpp:29-41 -/
def reactivate (log : List Kernel) (q : CudaQueueLv2) : CudaQueueLv2 :=
  let resumeIdx := q.buf.preemptIdx
  { q with
    buf := { q.buf with globalExitFlag := false, preemptIdx := 0 }
    preemptIdx := resumeIdx
    relaunch := if resumeIdx = 0 then [] else log.filter fun k => decide (resumeIdx ≤ k.idx) }

/-- A drop-resume: `Reactivate` with an empty log, then the log is cleared. It
drops the kernels that `Reactivate` would have relaunched from the log.
mirrors preempt/src/xqueue/async_xqueue.cpp:147-158 -/
def dropReactivate (q : CudaQueueLv2) : CudaQueueLv2 :=
  { reactivate [] q with
    log := []
    dropped := q.dropped ++ (reactivate q.log q).relaunch }

/-- The next launch of a `Reactivate` under way. -/
def relaunchNext (q : CudaQueueLv2) : Option CudaQueueLv2 :=
  match q.relaunch with
  | [] => none
  | k :: ks => some { q with stream := q.stream ++ [q.toLaunch k], relaunch := ks }

/-- The front of the log was synchronized. -/
def retire (q : CudaQueueLv2) : Option CudaQueueLv2 :=
  match q.log with
  | [] => none
  | k :: ks =>
    if q.buf.globalExitFlag = false ∧ q.relaunch = [] ∧ k ∉ q.stream.map Launch.kernel then
      some { q with log := ks }
    else none

inductive Act where
  | launch (k : Kernel)
  | block (b : Nat)
  | finish
  | deactivate
  | reactivate
  | dropReactivate
  | relaunch
  | retire
  deriving DecidableEq

def step (q : CudaQueueLv2) : Act → Option CudaQueueLv2
  | .launch k =>
    if q.relaunch = [] ∧ 0 < k.idx ∧ ∀ e ∈ q.launched, e.idx < k.idx then some (launch k q)
    else none
  | .block b => runFront b q
  | .finish => finish q
  | .deactivate => some (deactivate q)
  | .reactivate => if q.stream = [] ∧ q.relaunch = [] then some (reactivate q.log q) else none
  | .dropReactivate => if q.stream = [] ∧ q.relaunch = [] then some (dropReactivate q) else none
  | .relaunch => relaunchNext q
  | .retire => retire q

def lts : LTS CudaQueueLv2 Act := LTS.ofFn (· = init) step

end CudaQueueLv2
end Xsched.Cuda
