import Mathlib.Data.BitVec

/-!
# XCommands and HwCommands

The commands an XQueue buffers. A `HwCommand` is created by the HAL or the
application and submitted to at most one XQueue at most once
(`XQueueSubmit` deletes its handle, the shims build a fresh object per
call), and `AsyncXQueue::Submit` gives each a fresh index, so the model
identifies the object with the value `HwCommand`: index, properties, and
which class it is of as far as `Synchronizable` is concerned. The other
XCommands are told apart by an allocation number.

What changes during a run, the state of a command and whether its
synchronization has been enabled, is kept in the machine state
(`Xsched.Preempt.Machine`).
-/
namespace Xsched.Preempt

/-- mirrors preempt/include/xsched/preempt/xqueue/xcommand.h:52-59 -/
inductive XCommandState where
  | created | pending | inFlight | completed
  deriving DecidableEq, Repr

/-- The enumerator's value; the source compares states as integers. -/
def XCommandState.val : XCommandState → Nat
  | .created => 0
  | .pending => 1
  | .inFlight => 2
  | .completed => 3

theorem XCommandState.completed_le {st : XCommandState} : 3 ≤ st.val ↔ st = .completed := by
  cases st <;> simp [val]

theorem XCommandState.val_le (st : XCommandState) : st.val ≤ 3 := by
  cases st <;> simp [val]

/-- mirrors preempt/include/xsched/preempt/xqueue/xcommand.h:23-50 -/
abbrev XCommandProperties := BitVec 64

def kCommandPropertyNone : XCommandProperties := 0
def kCommandPropertyDeactivatable : XCommandProperties := 1
def kCommandPropertyIdempotent : XCommandProperties := 2
def kCommandPropertyBlockingSubmit : XCommandProperties := 4

/-- How a HwCommand class answers `Synchronizable`: a `HwCallbackCommand`
never is, a HAL command is once `EnableSynchronization` has succeeded, and a
`CudaEventRecordCommand` always is, through the event it records.
mirrors preempt/include/xsched/preempt/hal/hw_command.h:78-95 and
platforms/cuda/hal/include/xsched/cuda/hal/common/cuda_command.h:159-177 -/
inductive HwCommandKind where
  | callback
  | hal
  | eventRecord (event : Nat)
  deriving DecidableEq, Repr

/-- mirrors preempt/include/xsched/preempt/hal/hw_command.h:15-76; `idx` is
the value `SetIdx` gives it in `AsyncXQueue::Submit`. -/
structure HwCommand where
  idx : Int
  props : XCommandProperties
  kind : HwCommandKind
  deriving DecidableEq, Repr

/-- mirrors preempt/include/xsched/preempt/xqueue/xcommand.h:90-95 -/
def HwCommand.getProps (c : HwCommand) (mask : XCommandProperties) : XCommandProperties :=
  c.props &&& mask

def HwCommand.deactivatable (c : HwCommand) : Bool :=
  c.getProps kCommandPropertyDeactivatable != kCommandPropertyNone

/-- The XCommand classes; `id` numbers the objects that are not HwCommands.
mirrors preempt/include/xsched/preempt/xqueue/xcommand.h:14-21,107-137 -/
inductive XCommand where
  | hardware (c : HwCommand)
  | hostFunction (id : Nat)
  | xQueueWaitAll (id : Nat)
  | batchSynchronize (id : Nat)
  | xQueueDestroy (id : Nat)
  deriving DecidableEq, Repr

def XCommand.hw? : XCommand → Option HwCommand
  | .hardware c => some c
  | _ => none

/-- The allocation number, 0 for a HwCommand. -/
def XCommand.id : XCommand → Nat
  | .hardware _ => 0
  | .hostFunction i => i
  | .xQueueWaitAll i => i
  | .batchSynchronize i => i
  | .xQueueDestroy i => i

def XCommand.isWaitAll : XCommand → Bool
  | .xQueueWaitAll _ => true
  | _ => false

def XCommand.isBatch : XCommand → Bool
  | .batchSynchronize _ => true
  | _ => false

def XCommand.isDestroy : XCommand → Bool
  | .xQueueDestroy _ => true
  | _ => false

/-- The HwCommands of a list of XCommands, in order. -/
def hwCmds (xs : List XCommand) : List HwCommand := xs.filterMap XCommand.hw?

@[simp] theorem hwCmds_nil : hwCmds [] = [] := rfl

@[simp] theorem hwCmds_append (xs ys : List XCommand) :
    hwCmds (xs ++ ys) = hwCmds xs ++ hwCmds ys := List.filterMap_append

@[simp] theorem hwCmds_cons_hardware (c : HwCommand) (xs : List XCommand) :
    hwCmds (.hardware c :: xs) = c :: hwCmds xs := rfl

theorem hwCmds_cons (x : XCommand) (xs : List XCommand) :
    hwCmds (x :: xs) = x.hw?.toList ++ hwCmds xs := by
  cases x <;> rfl

theorem mem_hwCmds {c : HwCommand} {xs : List XCommand} :
    c ∈ hwCmds xs ↔ XCommand.hardware c ∈ xs := by
  simp only [hwCmds, List.mem_filterMap]
  constructor
  · rintro ⟨x, hx, he⟩
    cases x <;> simp only [XCommand.hw?, Option.some.injEq, reduceCtorEq] at he
    subst he; exact hx
  · exact fun h => ⟨_, h, rfl⟩

/-- mirrors include/xsched/types.h:48-54; `AsyncXQueue` accepts exactly these
levels (preempt/src/xqueue/async_xqueue.cpp:25-26). -/
inductive XPreemptLevel where
  | block | deactivate | interrupt
  deriving DecidableEq, Repr

def XPreemptLevel.val : XPreemptLevel → Nat
  | .block => 1
  | .deactivate => 2
  | .interrupt => 3

/-- mirrors include/xsched/types.h:56-60 -/
inductive XQueueState where
  | unknown | idle | ready
  deriving DecidableEq, Repr

/-- The configuration of a launch worker. `batch_le` is the assertion of its
constructor (and of `SetLaunchConfig`), `batch_pos` holds of the defaults and
is kept by `SetLaunchConfig`, which ignores values below 1.
mirrors preempt/src/xqueue/launch_worker.cpp:7-14 and
preempt/src/xqueue/async_xqueue.cpp:185-208 -/
structure Config where
  level : XPreemptLevel
  threshold : Nat
  batchSize : Nat
  batch_le : batchSize ≤ threshold
  batch_pos : 0 < batchSize

theorem Config.threshold_pos (cfg : Config) : 0 < cfg.threshold :=
  Nat.lt_of_lt_of_le cfg.batch_pos cfg.batch_le

end Xsched.Preempt
