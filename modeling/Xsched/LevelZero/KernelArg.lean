import Mathlib.Logic.Function.Basic

/-!
# Deferred arguments of Level Zero kernels

`zeKernelSet*` reaches no driver: `KernelArgsManager` keeps what was set in
one list for each kernel and kind of argument. `Freeze`, at an append of the
kernel, moves the five lists to the end of the kernel's queue of frozen
arguments; `Set` passes the front of the queue to the driver.

**Results.** Each append freezes what the kernel's arguments are in program
order (`effects_freeze`), and whoever calls `Set` for the `n`-th time gets what
the `n`-th append has frozen (`effects_set`).
-/
namespace Xsched.LevelZero

open Function (update)

/-- `ze_kernel_handle_t` -/
abbrev Kernel := Nat

/-- mirrors platforms/levelzero/hal/include/xsched/levelzero/hal/ze_kernel_arg.h:32-44 -/
structure ZeKernelGroupSize where
  groupSizeX : UInt32
  groupSizeY : UInt32
  groupSizeZ : UInt32
  deriving DecidableEq, Repr

/-- `pArgValue` is a copy of the bytes, or null.
mirrors platforms/levelzero/hal/src/ze_kernel_arg.cpp:11-18 -/
structure ZeKernelArgumentValue where
  argIndex : UInt32
  argSize : UInt64
  pArgValue : Option (List UInt8)
  deriving DecidableEq, Repr

structure ZeKernelIndirectAccessFlags where
  flags : UInt32
  deriving DecidableEq, Repr

structure ZeKernelCacheConfigFlags where
  flags : UInt32
  deriving DecidableEq, Repr

structure ZeKernelGlobalOffset where
  offsetX : UInt32
  offsetY : UInt32
  offsetZ : UInt32
  deriving DecidableEq, Repr

/-- What the driver holds for a kernel. -/
structure DriverKernel where
  groupSize : ZeKernelGroupSize
  argumentValue : UInt32 → Option ZeKernelArgumentValue
  indirectAccess : ZeKernelIndirectAccessFlags
  cacheConfig : ZeKernelCacheConfigFlags
  globalOffset : ZeKernelGlobalOffset

/-! ## The driver's calls -/

namespace DriverKernel

/-- `Driver::KernelSetGroupSize` -/
def setGroupSize (k : DriverKernel) (x : ZeKernelGroupSize) : DriverKernel :=
  { k with groupSize := x }

/-- `Driver::KernelSetArgumentValue` -/
def setArgumentValue (k : DriverKernel) (x : ZeKernelArgumentValue) : DriverKernel :=
  { k with argumentValue := update k.argumentValue x.argIndex (some x) }

/-- `Driver::KernelSetIndirectAccess` -/
def setIndirectAccess (k : DriverKernel) (x : ZeKernelIndirectAccessFlags) : DriverKernel :=
  { k with indirectAccess := x }

/-- `Driver::KernelSetCacheConfig` -/
def setCacheConfig (k : DriverKernel) (x : ZeKernelCacheConfigFlags) : DriverKernel :=
  { k with cacheConfig := x }

/-- `Driver::KernelSetGlobalOffsetExp` -/
def setGlobalOffset (k : DriverKernel) (x : ZeKernelGlobalOffset) : DriverKernel :=
  { k with globalOffset := x }

end DriverKernel

/-- A `zeKernelSet*` call of the application.
mirrors platforms/levelzero/shim/src/shim.cpp:154-173 -/
inductive KernelSet where
  | groupSize (x : ZeKernelGroupSize)
  | argumentValue (x : ZeKernelArgumentValue)
  | indirectAccess (x : ZeKernelIndirectAccessFlags)
  | cacheConfig (x : ZeKernelCacheConfigFlags)
  | globalOffset (x : ZeKernelGlobalOffset)
  deriving DecidableEq, Repr

/-- What the call does where it reaches the driver. -/
def KernelSet.apply (k : DriverKernel) : KernelSet → DriverKernel
  | .groupSize x => k.setGroupSize x
  | .argumentValue x => k.setArgumentValue x
  | .indirectAccess x => k.setIndirectAccess x
  | .cacheConfig x => k.setCacheConfig x
  | .globalOffset x => k.setGlobalOffset x

/-! ## KernelArgsManager -/

/-- A null pointer is `none`.
mirrors platforms/levelzero/hal/include/xsched/levelzero/hal/ze_kernel_arg.h:127-134 -/
structure FrozenArgs where
  groupSize : Option (List ZeKernelGroupSize)
  argumentValue : Option (List ZeKernelArgumentValue)
  indirectAccess : Option (List ZeKernelIndirectAccessFlags)
  cacheConfig : Option (List ZeKernelCacheConfigFlags)
  globalOffset : Option (List ZeKernelGlobalOffset)
  deriving DecidableEq, Repr

/-- `if (list) for (auto &arg : *list) arg.Set(hKernel);` -/
def setEach {α : Type} (set : DriverKernel → α → DriverKernel) (list : Option (List α))
    (k : DriverKernel) : DriverKernel :=
  (list.getD []).foldl set k

/-- mirrors platforms/levelzero/hal/src/ze_kernel_arg.cpp:99-108 -/
def FrozenArgs.apply (k : DriverKernel) (args : FrozenArgs) : DriverKernel :=
  setEach .setGlobalOffset args.globalOffset
    (setEach .setCacheConfig args.cacheConfig
      (setEach .setIndirectAccess args.indirectAccess
        (setEach .setArgumentValue args.argumentValue
          (setEach .setGroupSize args.groupSize k))))

/-- An entry of `frozen_args_` is never empty, so no entry is `[]`.
mirrors platforms/levelzero/hal/include/xsched/levelzero/hal/ze_kernel_arg.h:117-135 -/
structure KernelArgsManager where
  groupSize : Kernel → Option (List ZeKernelGroupSize)
  argumentValue : Kernel → Option (List ZeKernelArgumentValue)
  indirectAccess : Kernel → Option (List ZeKernelIndirectAccessFlags)
  cacheConfig : Kernel → Option (List ZeKernelCacheConfigFlags)
  globalOffset : Kernel → Option (List ZeKernelGlobalOffset)
  frozenArgs : Kernel → List FrozenArgs

namespace KernelArgsManager

def init : KernelArgsManager where
  groupSize _ := none
  argumentValue _ := none
  indirectAccess _ := none
  cacheConfig _ := none
  globalOffset _ := none
  frozenArgs _ := []

/-- The list of a kernel with one more element; without a list, a new one. -/
def emplaceBack {α : Type} (lists : Kernel → Option (List α)) (hKernel : Kernel) (x : α) :
    Kernel → Option (List α) :=
  update lists hKernel (some ((lists hKernel).getD [] ++ [x]))

/-- mirrors platforms/levelzero/hal/src/ze_kernel_arg.cpp:45-53 -/
def addGroupSize (hKernel : Kernel) (x : ZeKernelGroupSize) (m : KernelArgsManager) :
    KernelArgsManager :=
  { m with groupSize := emplaceBack m.groupSize hKernel x }

/-- mirrors platforms/levelzero/hal/src/ze_kernel_arg.cpp:55-63 -/
def addArgumentValue (hKernel : Kernel) (x : ZeKernelArgumentValue) (m : KernelArgsManager) :
    KernelArgsManager :=
  { m with argumentValue := emplaceBack m.argumentValue hKernel x }

/-- mirrors platforms/levelzero/hal/src/ze_kernel_arg.cpp:65-73 -/
def addIndirectAccess (hKernel : Kernel) (x : ZeKernelIndirectAccessFlags)
    (m : KernelArgsManager) : KernelArgsManager :=
  { m with indirectAccess := emplaceBack m.indirectAccess hKernel x }

/-- mirrors platforms/levelzero/hal/src/ze_kernel_arg.cpp:75-83 -/
def addCacheConfig (hKernel : Kernel) (x : ZeKernelCacheConfigFlags) (m : KernelArgsManager) :
    KernelArgsManager :=
  { m with cacheConfig := emplaceBack m.cacheConfig hKernel x }

/-- mirrors platforms/levelzero/hal/src/ze_kernel_arg.cpp:85-93 -/
def addGlobalOffsetExp (hKernel : Kernel) (x : ZeKernelGlobalOffset) (m : KernelArgsManager) :
    KernelArgsManager :=
  { m with globalOffset := emplaceBack m.globalOffset hKernel x }

/-- mirrors platforms/levelzero/shim/src/shim.cpp:154-173 -/
def add (hKernel : Kernel) : KernelSet → KernelArgsManager → KernelArgsManager
  | .groupSize x => addGroupSize hKernel x
  | .argumentValue x => addArgumentValue hKernel x
  | .indirectAccess x => addIndirectAccess hKernel x
  | .cacheConfig x => addCacheConfig hKernel x
  | .globalOffset x => addGlobalOffsetExp hKernel x

/-- The lists that `Freeze` moves. -/
def unfrozen (m : KernelArgsManager) (hKernel : Kernel) : FrozenArgs where
  groupSize := m.groupSize hKernel
  argumentValue := m.argumentValue hKernel
  indirectAccess := m.indirectAccess hKernel
  cacheConfig := m.cacheConfig hKernel
  globalOffset := m.globalOffset hKernel

/-- mirrors platforms/levelzero/hal/src/ze_kernel_arg.cpp:117-143 -/
def freeze (hKernel : Kernel) (m : KernelArgsManager) : KernelArgsManager where
  groupSize := update m.groupSize hKernel none
  argumentValue := update m.argumentValue hKernel none
  indirectAccess := update m.indirectAccess hKernel none
  cacheConfig := update m.cacheConfig hKernel none
  globalOffset := update m.globalOffset hKernel none
  frozenArgs := update m.frozenArgs hKernel (m.frozenArgs hKernel ++ [m.unfrozen hKernel])

/-- The manager and the driver's kernels after `Set`.
mirrors platforms/levelzero/hal/src/ze_kernel_arg.cpp:95-115 -/
def set (hKernel : Kernel) (m : KernelArgsManager) (kernels : Kernel → DriverKernel) :
    KernelArgsManager × (Kernel → DriverKernel) :=
  match m.frozenArgs hKernel with
  | [] => (m, kernels)
  | args :: rest =>
    ({ m with frozenArgs := update m.frozenArgs hKernel rest },
      update kernels hKernel (args.apply (kernels hKernel)))

end KernelArgsManager

/-! ## Program order -/

/-- A call after other calls on the same list of arguments is a call after all
of the kernel's arguments, where the calls on the other lists commute with it. -/
theorem setEach_comm {α β : Type} {f : DriverKernel → α → DriverKernel}
    {g : DriverKernel → β → DriverKernel} (h : ∀ k x y, f (g k y) x = g (f k x) y)
    (list : Option (List α)) (k : DriverKernel) (y : β) :
    setEach f list (g k y) = g (setEach f list k) y :=
  List.foldl_hom (g · y) fun k x => h k x y

theorem setEach_snoc {α : Type} (f : DriverKernel → α → DriverKernel) (list : Option (List α))
    (x : α) (k : DriverKernel) :
    setEach f (some (list.getD [] ++ [x])) k = f (setEach f list k) x := by
  unfold setEach
  rw [Option.getD_some, List.foldl_append]
  rfl

theorem apply_none (k : DriverKernel) : FrozenArgs.apply k ⟨none, none, none, none, none⟩ = k := rfl

namespace KernelArgsManager

variable {m : KernelArgsManager} {kernels : Kernel → DriverKernel}

/-- A `zeKernelSet*` call is the last of the calls that the next `Freeze` moves. -/
theorem add_apply (hKernel : Kernel) (x : KernelSet) (m : KernelArgsManager) (k : DriverKernel) :
    FrozenArgs.apply k ((m.add hKernel x).unfrozen hKernel) =
      x.apply (FrozenArgs.apply k (m.unfrozen hKernel)) := by
  unfold FrozenArgs.apply
  cases x with
  | groupSize x =>
    simp only [add, addGroupSize, unfrozen, emplaceBack, Function.update_self, setEach_snoc,
      KernelSet.apply]
    iterate 4 rw [setEach_comm (g := DriverKernel.setGroupSize) fun _ _ _ => rfl]
  | argumentValue x =>
    simp only [add, addArgumentValue, unfrozen, emplaceBack, Function.update_self, setEach_snoc,
      KernelSet.apply]
    iterate 3 rw [setEach_comm (g := DriverKernel.setArgumentValue) fun _ _ _ => rfl]
  | indirectAccess x =>
    simp only [add, addIndirectAccess, unfrozen, emplaceBack, Function.update_self, setEach_snoc,
      KernelSet.apply]
    iterate 2 rw [setEach_comm (g := DriverKernel.setIndirectAccess) fun _ _ _ => rfl]
  | cacheConfig x =>
    simp only [add, addCacheConfig, unfrozen, emplaceBack, Function.update_self, setEach_snoc,
      KernelSet.apply]
    rw [setEach_comm (g := DriverKernel.setCacheConfig) fun _ _ _ => rfl]
  | globalOffset x =>
    simp only [add, addGlobalOffsetExp, unfrozen, emplaceBack, Function.update_self, setEach_snoc,
      KernelSet.apply]

theorem add_other {hKernel k : Kernel} (hk : k ≠ hKernel) (x : KernelSet)
    (m : KernelArgsManager) : (m.add hKernel x).unfrozen k = m.unfrozen k := by
  cases x <;>
    simp [add, addGroupSize, addArgumentValue, addIndirectAccess, addCacheConfig,
      addGlobalOffsetExp, unfrozen, emplaceBack, hk]

theorem add_frozenArgs (hKernel : Kernel) (x : KernelSet) (m : KernelArgsManager) :
    (m.add hKernel x).frozenArgs = m.frozenArgs := by
  cases x <;> rfl

theorem freeze_unfrozen (hKernel : Kernel) (m : KernelArgsManager) :
    (m.freeze hKernel).unfrozen hKernel = ⟨none, none, none, none, none⟩ := by
  simp [freeze, unfrozen]

theorem freeze_other {hKernel k : Kernel} (hk : k ≠ hKernel) (m : KernelArgsManager) :
    (m.freeze hKernel).unfrozen k = m.unfrozen k := by
  simp [freeze, unfrozen, hk]

theorem set_unfrozen (hKernel k : Kernel) (m : KernelArgsManager)
    (kernels : Kernel → DriverKernel) : (m.set hKernel kernels).1.unfrozen k = m.unfrozen k := by
  unfold set
  cases m.frozenArgs hKernel <;> rfl

theorem set_frozenArgs (hKernel : Kernel) (m : KernelArgsManager)
    (kernels : Kernel → DriverKernel) :
    (m.set hKernel kernels).1.frozenArgs =
      update m.frozenArgs hKernel (m.frozenArgs hKernel).tail := by
  unfold set
  cases hf : m.frozenArgs hKernel with
  | nil => exact (Function.update_eq_self_iff.2 hf.symm).symm
  | cons args rest => rfl

/-- The kernel's arguments when all its frozen arguments are set. -/
def settled (m : KernelArgsManager) (kernels : Kernel → DriverKernel) (k : Kernel) :
    DriverKernel :=
  (m.frozenArgs k).foldl FrozenArgs.apply (kernels k)

/-- The kernel's arguments in program order: what is frozen, and then what was
set since the last `Freeze`. -/
def current (m : KernelArgsManager) (kernels : Kernel → DriverKernel) (k : Kernel) :
    DriverKernel :=
  FrozenArgs.apply (m.settled kernels k) (m.unfrozen k)

/-- What the kernel's arguments are after each of a sequence of `Set` calls. -/
def afterSets (k : DriverKernel) : List FrozenArgs → List DriverKernel
  | [] => []
  | args :: rest => args.apply k :: afterSets (args.apply k) rest

/-- What the waiting `Set` calls on a kernel will make of it, one after the other. -/
def effects (m : KernelArgsManager) (kernels : Kernel → DriverKernel) (k : Kernel) :
    List DriverKernel :=
  afterSets (kernels k) (m.frozenArgs k)

theorem afterSets_snoc (k : DriverKernel) (frozen : List FrozenArgs) (args : FrozenArgs) :
    afterSets k (frozen ++ [args]) =
      afterSets k frozen ++ [args.apply (frozen.foldl FrozenArgs.apply k)] := by
  induction frozen generalizing k with
  | nil => rfl
  | cons f frozen ih => simp [afterSets, ih]

theorem current_add (hKernel : Kernel) (x : KernelSet) :
    (m.add hKernel x).current kernels =
      update (m.current kernels) hKernel (x.apply (m.current kernels hKernel)) := by
  funext k
  have hsettled : (m.add hKernel x).settled kernels k = m.settled kernels k := by
    unfold settled
    rw [add_frozenArgs]
  unfold current
  rw [hsettled]
  by_cases hk : k = hKernel
  · subst hk
    rw [Function.update_self, add_apply]
  · rw [Function.update_of_ne hk, add_other hk]

theorem effects_add (hKernel : Kernel) (x : KernelSet) :
    (m.add hKernel x).effects kernels = m.effects kernels := by
  unfold effects
  rw [add_frozenArgs]

/-- `Freeze` moves what was set to the frozen arguments. -/
theorem current_freeze (hKernel : Kernel) :
    (m.freeze hKernel).current kernels = m.current kernels := by
  funext k
  unfold current settled
  by_cases hk : k = hKernel
  · subst hk
    rw [freeze_unfrozen, apply_none]
    simp [freeze]
  · rw [freeze_other hk]
    simp [freeze, hk]

/-- What an append freezes is what the kernel's arguments are in program order. -/
theorem effects_freeze (hKernel : Kernel) :
    (m.freeze hKernel).effects kernels = update (m.effects kernels) hKernel
      (m.effects kernels hKernel ++ [m.current kernels hKernel]) := by
  funext k
  unfold effects
  by_cases hk : k = hKernel
  · subst hk
    simp [freeze, afterSets_snoc, current, settled]
  · simp [freeze, hk]

theorem current_set (hKernel : Kernel) :
    (m.set hKernel kernels).1.current (m.set hKernel kernels).2 = m.current kernels := by
  funext k
  unfold current settled
  rw [set_unfrozen]
  unfold set
  cases hf : m.frozenArgs hKernel with
  | nil => rfl
  | cons args rest =>
    by_cases hk : k = hKernel
    · subst hk
      simp [hf]
    · simp [hk]

/-- `Set` makes of the kernel what the first waiting append has frozen. -/
theorem effects_set {hKernel : Kernel} (hf : m.frozenArgs hKernel ≠ []) :
    m.effects kernels = update ((m.set hKernel kernels).1.effects (m.set hKernel kernels).2) hKernel
      ((m.set hKernel kernels).2 hKernel ::
        (m.set hKernel kernels).1.effects (m.set hKernel kernels).2 hKernel) := by
  funext k
  unfold effects set
  cases hf' : m.frozenArgs hKernel with
  | nil => exact absurd hf' hf
  | cons args rest =>
    by_cases hk : k = hKernel
    · subst hk
      simp [hf', afterSets]
    · simp [hk]

end KernelArgsManager
end Xsched.LevelZero
