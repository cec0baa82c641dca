import Mathlib.Logic.Function.Basic
import Xsched.Core.LTS
import Xsched.HbSplit.Ptx

/-!
# The metadata registry

`g_modules` keeps a record for each module whose PTX was transformed, with the
hidden module, and `g_functions` an entry for each function taken from such a
module. Threads load modules, take functions and unload modules; each region
under `g_mu` and each call of the driver is one step. The driver may hand out
the handle of an unloaded module or of its functions at once.

**Registration.** `RegisterFunctionInfo` copies the module's record, asks the
driver for the function of the hidden module, and inserts the entry. Where the
record names no such kernel, or the hidden function is not to be had, the
entry is not what the record says: it has a reason of its own, and cannot be
split (`Describes`).

**The break.** The entry is inserted without another look at the record, which
`RemoveModuleInfo` may have removed since the copy.

**Results**
* `registry_consistent`: in a run in which each insertion finds the record that
  was copied (`Current`), every entry describes its module's record, and its
  transformed function is a function of the hidden module.
* `registry_diverges`: without a record of the kernel, or without its function in the
  hidden module, the entry says otherwise; and an unload during the registration
  leaves an entry without module.
-/
namespace Xsched.HbSplit
namespace Registry

open Function (update)

abbrev CUmodule := Nat
abbrev CUfunction := Nat

/-- mirrors platforms/cuda/hal/include/xsched/cuda/hal/hb_split/backend.h:23-38 -/
structure KernelCapability where
  ptxAvailable : Bool := false
  transformAttempted : Bool := false
  transformSucceeded : Bool := false
  supportsOffsetX : Bool := false
  supportsOffsetY : Bool := false
  supportsOffsetZ : Bool := false
  cooperative : Bool := false
  persistent : Bool := false
  crossBlockSync : Bool := false
  supportsKernelParams : Bool := false
  supportsExtra : Bool := false
  splittable : Bool := false
  fallbackReason : Text := []
  deriving DecidableEq, Repr

/-- mirrors platforms/cuda/hal/src/hb_split/backend.cpp:73-77 -/
structure KernelTransformRecord where
  capability : KernelCapability
  originalParamCount : Nat
  deriving DecidableEq, Repr

/-- mirrors platforms/cuda/hal/src/hb_split/backend.cpp:79-88 -/
structure ModuleInfo where
  ptxAvailable : Bool
  originalPtx : Option Text
  ptxBytes : Nat
  transformedModule : Option CUmodule
  records : List (Text × KernelTransformRecord)
  /-- ghost: the number of the registration -/
  serial : Nat
  deriving DecidableEq, Repr

/-- mirrors platforms/cuda/hal/src/hb_split/backend.cpp:90-98 -/
structure FunctionInfo where
  capability : KernelCapability
  originalParamCount : Nat
  kernelName : Text
  originalModule : CUmodule
  originalFunction : CUfunction
  transformedFunction : Option CUfunction
  deriving DecidableEq, Repr

/-! ## Registering a function -/

/-- `.param` does not overlap itself.
mirrors platforms/cuda/hal/src/hb_split/backend.cpp:498-511 -/
def countParamsForKernel (ptx kernelName : Text) : Option Nat :=
  (findEntryParamClose ptx kernelName).map fun (op, close) =>
    (slice ptx (op + 1) close).tails.countP (".param".toList.isPrefixOf ·)

/-- What an entry says where the record has no such kernel.
mirrors platforms/cuda/hal/src/hb_split/backend.cpp:663-672 -/
def entryNotFound (module : ModuleInfo) (name : Text) : KernelTransformRecord where
  capability := {
    ptxAvailable := module.ptxAvailable
    supportsKernelParams := true
    supportsExtra := false
    fallbackReason := "ENTRY_NOT_FOUND".toList }
  originalParamCount :=
    (module.originalPtx.bind fun ptx => countParamsForKernel ptx name).getD 0

/-- The module's record for a kernel.
mirrors platforms/cuda/hal/src/hb_split/backend.cpp:659-672 -/
def recordOf (module : ModuleInfo) (name : Text) : KernelTransformRecord :=
  (module.records.lookup name).getD (entryNotFound module name)

/-- Whether `RegisterFunctionInfo` asks the driver for the hidden function.
mirrors platforms/cuda/hal/src/hb_split/backend.cpp:678 -/
def asksHidden (module : ModuleInfo) (name : Text) : Option CUmodule :=
  if (recordOf module name).capability.transformSucceeded then module.transformedModule else none

/-- mirrors platforms/cuda/hal/src/hb_split/backend.cpp:678-690 -/
def capabilityOf (module : ModuleInfo) (name : Text) (transformed : Option CUfunction) :
    KernelCapability :=
  if (recordOf module name).capability.transformSucceeded = true ∧ transformed = none then
    { (recordOf module name).capability with
      splittable := false
      fallbackReason := if module.transformedModule = none
        then "TRANSFORMED_MODULE_UNAVAILABLE".toList
        else "TRANSFORMED_FUNCTION_NOT_FOUND".toList }
  else (recordOf module name).capability

/-- The entry; `transformed` answers the driver's call.
mirrors platforms/cuda/hal/src/hb_split/backend.cpp:658-690 -/
def functionInfo (info : ModuleInfo) (function : CUfunction) (module : CUmodule) (name : Text)
    (transformed : Option CUfunction) : FunctionInfo where
  capability := capabilityOf info name transformed
  originalParamCount := (recordOf info name).originalParamCount
  kernelName := name
  originalModule := module
  originalFunction := function
  transformedFunction := transformed

/-! ## The calls -/

/-- The owner of a module handle: the driver itself, the program, the call that
loads or unloads it, or the module whose hidden module it is. -/
inductive Owner (T : Type) where
  | driver
  | program
  | call (t : T)
  | hidden (module : CUmodule)
  deriving DecidableEq, Repr

/-- Where a thread is in `XModuleLoad…`, `XModuleGetFunction` or
`RegisterFunctionMetadata`, or `XModuleUnload`. -/
inductive Pc where
  | idle
  | loaded (module : CUmodule)
  | transformed (module : CUmodule) (info : ModuleInfo)
  | found (function : CUfunction) (module : CUmodule) (name : Text)
  | registering (function : CUfunction) (module : CUmodule) (name : Text)
  | copied (function : CUfunction) (module : CUmodule) (name : Text) (info : ModuleInfo)
  | inserting (entry : FunctionInfo) (info : ModuleInfo)
  | removed (module : CUmodule) (hidden : Option CUmodule)
  deriving DecidableEq, Repr

/-- `owner` and `function` (the module and the kernel of each function handle)
are the driver's. -/
structure State (T : Type) where
  owner : CUmodule → Owner T
  function : CUfunction → Option (CUmodule × Text)
  modules : CUmodule → Option ModuleInfo
  functions : CUfunction → Option FunctionInfo
  pc : T → Pc
  /-- ghost -/
  nextSerial : Nat

inductive Act (T : Type) where
  /-- The driver's load in `XModuleLoad`, `XModuleLoadData` or `…DataEx`. -/
  | moduleLoad (t : T) (module : CUmodule)
  /-- No metadata is kept for the module. -/
  | loadReturn (t : T)
  /-- `TransformModulePtx`, with the load of the hidden module. -/
  | transformModulePtx (t : T) (info : ModuleInfo)
  | registerModuleInfo (t : T)
  /-- The driver's call in `XModuleGetFunction`. -/
  | moduleGetFunction (t : T) (module : CUmodule) (name : Text) (function : CUfunction)
  /-- The driver's call before `RegisterFunctionMetadata`. -/
  | resolveFunction (t : T) (module : CUmodule) (name : Text) (function : CUfunction)
  | findModuleInfo (t : T)
  | hiddenFunction (t : T) (transformed : Option CUfunction)
  | insert (t : T)
  | moduleUnload (t : T) (module : CUmodule)
  | driverUnload (t : T)
  deriving DecidableEq, Repr

section Steps
variable {T : Type} [DecidableEq T]

def State.goto (s : State T) (t : T) (pc : Pc) : State T := { s with pc := update s.pc t pc }

def State.own (s : State T) (module : CUmodule) (owner : Owner T) : State T :=
  { s with owner := update s.owner module owner }

/-- `Driver::ModuleGetFunction` returns `function`, a new handle or one of the
same kernel. -/
def State.gives (s : State T) (module : CUmodule) (name : Text) (function : CUfunction) : Bool :=
  decide (s.owner module ≠ .driver ∧
    (s.function function = none ∨ s.function function = some (module, name)))

def State.give (s : State T) (module : CUmodule) (name : Text) (function : CUfunction) : State T :=
  { s with function := update s.function function (some (module, name)) }

/-- `Driver::ModuleUnload`: the module's functions are gone. -/
def State.unload (s : State T) (module : CUmodule) : State T :=
  { s.own module .driver with
    function := fun f => (s.function f).filter fun p => decide (p.1 ≠ module) }

/-- mirrors platforms/cuda/hal/src/hb_split/backend.cpp:611-625 -/
def State.registerModuleInfo (s : State T) (module : CUmodule) (info : ModuleInfo) : State T :=
  { s with
    modules := update s.modules module (some { info with serial := s.nextSerial })
    nextSerial := s.nextSerial + 1 }

/-- mirrors platforms/cuda/hal/src/hb_split/backend.cpp:703-720 -/
def State.removeModuleInfo (s : State T) (module : CUmodule) : State T :=
  { s with
    modules := update s.modules module none
    functions := fun f => (s.functions f).filter fun e => decide (e.originalModule ≠ module) }

/-- What `RemoveModuleInfo` returns. -/
def State.transformedModule (s : State T) (module : CUmodule) : Option CUmodule :=
  (s.modules module).bind ModuleInfo.transformedModule

/-- The first lookup in `XModuleGetFunction`, or the copy in
`RegisterFunctionInfo`, which refuses an empty name.
mirrors platforms/cuda/hal/src/hb_split/backend.cpp:643-656,988-999 -/
def State.find (s : State T) (t : T) : Option (State T) :=
  match s.pc t with
  | .found function module name =>
    match s.modules module with
    | none => some (s.goto t .idle)
    | some _ => some (s.goto t (.registering function module name))
  | .registering function module name =>
    match s.modules module with
    | none => some (s.goto t .idle)
    | some info =>
      if name = [] then some (s.goto t .idle)
      else some (s.goto t (.copied function module name info))
  | _ => none

/-- mirrors platforms/cuda/hal/src/hb_split/backend.cpp:658-690 -/
def State.hidden (s : State T) (t : T) (transformed : Option CUfunction) : Option (State T) :=
  match s.pc t with
  | .copied function module name info =>
    match asksHidden info name, transformed with
    | none, none =>
      some (s.goto t (.inserting (functionInfo info function module name none) info))
    | none, some _ => none
    | some _, none =>
      some (s.goto t (.inserting (functionInfo info function module name none) info))
    | some hidden, some g =>
      if s.gives hidden name g then
        some ((s.give hidden name g).goto t
          (.inserting (functionInfo info function module name (some g)) info))
      else none
  | _ => none

/-- A new module has a handle that nobody owns; so has a hidden module. -/
def step (s : State T) : Act T → Option (State T)
  | .moduleLoad t module =>
    if s.pc t = .idle ∧ s.owner module = .driver then
      some ((s.own module (.call t)).goto t (.loaded module))
    else none
  | .loadReturn t =>
    match s.pc t with
    | .loaded module => some ((s.own module .program).goto t .idle)
    | _ => none
  | .transformModulePtx t info =>
    match s.pc t with
    | .loaded module =>
      match info.transformedModule with
      | none => some (s.goto t (.transformed module info))
      | some hidden =>
        if s.owner hidden = .driver then
          some ((s.own hidden (.hidden module)).goto t (.transformed module info))
        else none
    | _ => none
  | .registerModuleInfo t =>
    match s.pc t with
    | .transformed module info =>
      some (((s.registerModuleInfo module info).own module .program).goto t .idle)
    | _ => none
  | .moduleGetFunction t module name function =>
    if s.pc t = .idle ∧ s.gives module name function then
      some ((s.give module name function).goto t (.found function module name))
    else none
  | .resolveFunction t module name function =>
    if s.pc t = .idle ∧ s.gives module name function then
      some ((s.give module name function).goto t (.registering function module name))
    else none
  | .findModuleInfo t => s.find t
  | .hiddenFunction t transformed => s.hidden t transformed
  | .insert t =>
    match s.pc t with
    | .inserting entry _ =>
      some ({ s with functions := update s.functions entry.originalFunction (some entry) }.goto t
        .idle)
    | _ => none
  | .moduleUnload t module =>
    if s.pc t = .idle ∧ s.owner module = .program then
      some (((s.removeModuleInfo module).own module (.call t)).goto t
        (.removed module (s.transformedModule module)))
    else none
  | .driverUnload t =>
    match s.pc t with
    | .removed module (some hidden) => some ((s.unload hidden).goto t (.removed module none))
    | .removed module none => some ((s.unload module).goto t .idle)
    | _ => none

def init : State T where
  owner _ := .driver
  function _ := none
  modules _ := none
  functions _ := none
  pc _ := .idle
  nextSerial := 0

def system (T : Type) [DecidableEq T] : LTS (State T) (Act T) := .ofFn (· = init) step

/-- The record that a registration has copied is the module's when the entry is
inserted. -/
def Current (s : State T) : Act T → Prop
  | .insert t =>
    match s.pc t with
    | .inserting entry info => s.modules entry.originalModule = some info
    | _ => True
  | _ => True

end Steps

/-! ## The entries and the records -/

/-- An entry says what the module's record says of its kernel, but for a hidden
function that was not to be had; without a record it says so. -/
structure Describes (info : ModuleInfo) (entry : FunctionInfo) : Prop where
  record : ∀ r, info.records.lookup entry.kernelName = some r →
    entry.originalParamCount = r.originalParamCount ∧
      (r.capability.transformSucceeded = false ∨ entry.transformedFunction ≠ none →
        entry.capability = r.capability)
  unavailable : ∀ r, info.records.lookup entry.kernelName = some r →
    r.capability.transformSucceeded = true → entry.transformedFunction = none →
      entry.capability = { r.capability with
        splittable := false
        fallbackReason := if info.transformedModule = none
          then "TRANSFORMED_MODULE_UNAVAILABLE".toList
          else "TRANSFORMED_FUNCTION_NOT_FOUND".toList }
  notFound : info.records.lookup entry.kernelName = none →
    entry.transformedFunction = none ∧
      entry.capability = (entryNotFound info entry.kernelName).capability ∧
      entry.originalParamCount = (entryNotFound info entry.kernelName).originalParamCount

theorem functionInfo_describes {info : ModuleInfo} {name : Text} {transformed : Option CUfunction}
    (h : asksHidden info name = none → transformed = none) (function : CUfunction)
    (module : CUmodule) :
    Describes info (functionInfo info function module name transformed) where
  record r hr := by
    have hrec : recordOf info name = r := by
      unfold recordOf
      rw [show info.records.lookup name = some r from hr, Option.getD_some]
    refine ⟨congrArg KernelTransformRecord.originalParamCount hrec, fun hor => ?_⟩
    show capabilityOf info name transformed = _
    unfold capabilityOf
    rw [hrec, if_neg]
    rintro ⟨hs, hn⟩
    rcases hor with hf | hne
    · rw [hf] at hs
      cases hs
    · exact hne hn
  unavailable r hr hs hn := by
    have hrec : recordOf info name = r := by
      unfold recordOf
      rw [show info.records.lookup name = some r from hr, Option.getD_some]
    show capabilityOf info name transformed = _
    unfold capabilityOf
    rw [hrec, if_pos ⟨hs, hn⟩]
  notFound hr := by
    have hrec : recordOf info name = entryNotFound info name := by
      unfold recordOf
      rw [show info.records.lookup name = none from hr, Option.getD_none]
    have hnone : transformed = none := by
      refine h ?_
      unfold asksHidden
      rw [hrec]
      rfl
    refine ⟨hnone, ?_, congrArg KernelTransformRecord.originalParamCount hrec⟩
    show capabilityOf info name transformed = _
    unfold capabilityOf
    rw [hrec, if_neg fun h => nomatch h.1]
    rfl

/-! ## The invariant -/

section Invariant
variable {T : Type} {s s' : State T}

/-- The transformed function of an entry is a function of the hidden module. -/
def Hidden (s : State T) (info : ModuleInfo) (entry : FunctionInfo) : Prop :=
  ∀ g, entry.transformedFunction = some g →
    ∃ hidden, info.transformedModule = some hidden ∧
      s.function g = some (hidden, entry.kernelName)

/-- What a call has in its hands. -/
def PcInv (s : State T) (t : T) : Pc → Prop
  | .loaded module => s.owner module = .call t
  | .transformed module info => s.owner module = .call t ∧
      ∀ hidden, info.transformedModule = some hidden → s.owner hidden = .hidden module
  | .copied _ _ _ info => info.serial < s.nextSerial
  | .inserting entry info => info.serial < s.nextSerial ∧ Describes info entry ∧
      (s.modules entry.originalModule = some info → Hidden s info entry)
  | .removed module hidden => s.owner module = .call t ∧
      ∀ h, hidden = some h → s.owner h = .hidden module
  | .idle | .found _ _ _ | .registering _ _ _ => True

structure Inv (s : State T) : Prop where
  modules : ∀ m info, s.modules m = some info → s.owner m = .program ∧
    info.serial < s.nextSerial ∧ ∀ h, info.transformedModule = some h → s.owner h = .hidden m
  pc : ∀ t, PcInv s t (s.pc t)
  entries : ∀ f entry, s.functions f = some entry →
    ∃ info, s.modules entry.originalModule = some info ∧ Describes info entry ∧
      Hidden s info entry

/-- A step of thread `t` that leaves the tables alone, and of the handles those
that the program, the tables or another call rely on. -/
structure Keeps (s s' : State T) (t : T) : Prop where
  modules : s'.modules = s.modules
  functions : s'.functions = s.functions
  serial : s'.nextSerial = s.nextSerial
  program : ∀ m, s.owner m = .program → s'.owner m = .program
  ofProgram : ∀ h m, s.owner h = .hidden m → s.owner m = .program → s'.owner h = .hidden m
  call : ∀ u m, u ≠ t → s.owner m = .call u → s'.owner m = .call u
  ofCall : ∀ u h m, u ≠ t → s.owner h = .hidden m → s.owner m = .call u → s'.owner h = .hidden m
  function : ∀ g h m n, s.owner h = .hidden m → s.owner m = .program →
    s.function g = some (h, n) → s'.function g = some (h, n)
  pc : ∀ u, u ≠ t → s'.pc u = s.pc u

theorem Inv.hidden_kept (hi : Inv s) {t : T} (hk : Keeps s s' t) {info : ModuleInfo}
    {entry : FunctionInfo} (hm : s.modules entry.originalModule = some info)
    (hh : Hidden s info entry) : Hidden s' info entry := by
  intro g hg
  obtain ⟨hidden, hhidden, hfunction⟩ := hh g hg
  obtain ⟨hprogram, -, howner⟩ := hi.modules _ _ hm
  exact ⟨hidden, hhidden, hk.function g hidden _ _ (howner hidden hhidden) hprogram hfunction⟩

theorem Inv.keeps (hi : Inv s) {t : T} (hk : Keeps s s' t) (hpc : PcInv s' t (s'.pc t)) :
    Inv s' where
  modules m info hm := by
    rw [hk.modules] at hm
    obtain ⟨hprogram, hserial, howner⟩ := hi.modules m info hm
    exact ⟨hk.program m hprogram, hk.serial ▸ hserial,
      fun h hh => hk.ofProgram h m (howner h hh) hprogram⟩
  pc u := by
    by_cases hu : u = t
    · rwa [hu]
    · have hold := hi.pc u
      rw [hk.pc u hu]
      cases hp : s.pc u with
      | loaded m => exact hk.call u m hu (by rwa [hp] at hold)
      | transformed m info =>
        rw [hp] at hold
        exact ⟨hk.call u m hu hold.1, fun h hh => hk.ofCall u h m hu (hold.2 h hh) hold.1⟩
      | copied f m n info =>
        rw [hp] at hold
        show info.serial < s'.nextSerial
        rw [hk.serial]
        exact hold
      | inserting entry info =>
        rw [hp] at hold
        refine ⟨hk.serial ▸ hold.1, hold.2.1, fun hm => ?_⟩
        rw [hk.modules] at hm
        exact hi.hidden_kept hk hm (hold.2.2 hm)
      | removed m hidden =>
        rw [hp] at hold
        exact ⟨hk.call u m hu hold.1, fun h hh => hk.ofCall u h m hu (hold.2 h hh) hold.1⟩
      | _ => trivial
  entries f entry he := by
    rw [hk.functions] at he
    obtain ⟨info, hm, hd, hh⟩ := hi.entries f entry he
    exact ⟨info, hk.modules ▸ hm, hd, hi.hidden_kept hk hm hh⟩

/-! ## Every step -/

variable [DecidableEq T]

theorem keeps_goto (s : State T) (t : T) (pc : Pc) : Keeps s (s.goto t pc) t where
  modules := rfl
  functions := rfl
  serial := rfl
  program _ h := h
  ofProgram _ _ h _ := h
  call _ _ _ h := h
  ofCall _ _ _ _ h _ := h
  function _ _ _ _ _ _ h := h
  pc _ hu := Function.update_of_ne hu ..

theorem keeps_give {t : T} {module : CUmodule} {name : Text} {function : CUfunction}
    (hg : s.gives module name function) (pc : Pc) :
    Keeps s ((s.give module name function).goto t pc) t where
  __ := keeps_goto s t pc
  function g h m n _ _ hgn := by
    show update s.function function (some (module, name)) g = _
    by_cases hgf : g = function
    · subst hgf
      have hor := (of_decide_eq_true hg).2
      rw [hgn] at hor
      rw [Function.update_self]
      exact (hor.resolve_left nofun).symm
    · rw [Function.update_of_ne hgf, hgn]

/-- A handle that nobody but thread `t` relies on. -/
def OnlyFor (s : State T) (t : T) (m : CUmodule) : Prop :=
  s.owner m = .driver ∨ s.owner m = .call t ∨
    ∃ m', s.owner m = .hidden m' ∧ s.owner m' = .call t

omit [DecidableEq T] in
theorem OnlyFor.ne {t : T} {m h : CUmodule} (ho : OnlyFor s t m)
    (hh : s.owner h = .program ∨ (∃ u, u ≠ t ∧ s.owner h = .call u) ∨
      ∃ m', s.owner h = .hidden m' ∧
        (s.owner m' = .program ∨ ∃ u, u ≠ t ∧ s.owner m' = .call u)) : h ≠ m := by
  rintro rfl
  obtain hd | hc | ⟨m₁, hm₁, hc⟩ := ho
  · simp [hd] at hh
  · simp [hc] at hh
  · simp only [hm₁, reduceCtorEq, and_false, exists_false, false_or, Owner.hidden.injEq] at hh
    obtain ⟨m', rfl, hp | ⟨u, hu, hcu⟩⟩ := hh
    · rw [hc] at hp
      cases hp
    · rw [hc] at hcu
      exact hu (Owner.call.inj hcu).symm

theorem keeps_own {t : T} {m : CUmodule} (ho : OnlyFor s t m) (o : Owner T) (pc : Pc) :
    Keeps s ((s.own m o).goto t pc) t where
  __ := keeps_goto s t pc
  program h hh := by
    show update s.owner m o h = _
    rw [Function.update_of_ne (ho.ne (.inl hh)), hh]
  ofProgram h m' hh hm := by
    show update s.owner m o h = _
    rw [Function.update_of_ne (ho.ne (.inr (.inr ⟨m', hh, .inl hm⟩))), hh]
  call u h hu hh := by
    show update s.owner m o h = _
    rw [Function.update_of_ne (ho.ne (.inr (.inl ⟨u, hu, hh⟩))), hh]
  ofCall u h m' hu hh hm := by
    show update s.owner m o h = _
    rw [Function.update_of_ne (ho.ne (.inr (.inr ⟨m', hh, .inr ⟨u, hu, hm⟩⟩))), hh]

theorem keeps_unload {t : T} {m : CUmodule} (ho : OnlyFor s t m) (pc : Pc) :
    Keeps s ((s.unload m).goto t pc) t where
  __ := keeps_own ho .driver pc
  function g h m' n hh hm hg := by
    have hne : h ≠ m := ho.ne (.inr (.inr ⟨m', hh, .inl hm⟩))
    show (s.function g).filter (fun p => decide (p.1 ≠ m)) = _
    rw [hg, Option.filter_some, if_pos (by simpa using hne)]

theorem goto_pc (s : State T) (t : T) (pc : Pc) : (s.goto t pc).pc t = pc :=
  Function.update_self ..

omit [DecidableEq T] in
/-- The module that a call registers has no record. -/
theorem Inv.unregistered (hi : Inv s) {t : T} {m : CUmodule} (ho : s.owner m = .call t) :
    s.modules m = none := by
  cases hm : s.modules m with
  | none => rfl
  | some info =>
    have hprogram := (hi.modules m info hm).1
    rw [ho] at hprogram
    cases hprogram

theorem inv_register (hi : Inv s) {t : T} {m : CUmodule} {info : ModuleInfo}
    (hpc : s.pc t = .transformed m info) :
    Inv (((s.registerModuleInfo m info).own m .program).goto t .idle) := by
  obtain ⟨hcall, hhidden⟩ : PcInv s t (.transformed m info) := hpc ▸ hi.pc t
  have hnone := hi.unregistered hcall
  have howner {h : CUmodule} {o : Owner T} (ho : s.owner h = o) (hne : o ≠ .call t) :
      update s.owner m .program h = o := by
    have hm : h ≠ m := by
      rintro rfl
      exact hne (ho.symm.trans hcall)
    rw [Function.update_of_ne hm, ho]
  have hold {m' : CUmodule} {info' : ModuleInfo} (hs : info'.serial < s.nextSerial)
      (hm : update s.modules m (some { info with serial := s.nextSerial }) m' = some info') :
      s.modules m' = some info' := by
    by_cases hmm : m' = m
    · subst hmm
      rw [Function.update_self, Option.some.injEq] at hm
      rw [← hm] at hs
      exact absurd hs (Nat.lt_irrefl _)
    · rwa [Function.update_of_ne hmm] at hm
  have hnew {m' : CUmodule} {info' : ModuleInfo} (hm : s.modules m' = some info') :
      update s.modules m (some { info with serial := s.nextSerial }) m' = some info' := by
    have hmm : m' ≠ m := by
      rintro rfl
      rw [hnone] at hm
      cases hm
    rw [Function.update_of_ne hmm, hm]
  constructor
  · intro m' info' hm
    by_cases hmm : m' = m
    · subst hmm
      have hm : update s.modules m' (some { info with serial := s.nextSerial }) m' = some info' :=
        hm
      rw [Function.update_self, Option.some.injEq] at hm
      subst hm
      exact ⟨Function.update_self .., Nat.lt_succ_self _, fun h hh => howner (hhidden h hh) nofun⟩
    · have hm : s.modules m' = some info' := (Function.update_of_ne hmm ..).symm.trans hm
      obtain ⟨hprogram, hserial, hh⟩ := hi.modules m' info' hm
      exact ⟨howner hprogram nofun, Nat.lt_succ_of_lt hserial, fun h ht => howner (hh h ht) nofun⟩
  · intro u
    by_cases hu : u = t
    · subst hu
      rw [goto_pc]
      trivial
    · have hpcu := hi.pc u
      show PcInv _ u (update s.pc t .idle u)
      rw [Function.update_of_ne hu]
      cases hp : s.pc u with
      | loaded m' =>
        rw [hp] at hpcu
        exact howner hpcu fun he => hu (Owner.call.inj he)
      | transformed m' info' =>
        rw [hp] at hpcu
        exact ⟨howner hpcu.1 fun he => hu (Owner.call.inj he),
          fun h hh => howner (hpcu.2 h hh) nofun⟩
      | copied f m' n info' =>
        rw [hp] at hpcu
        exact Nat.lt_succ_of_lt hpcu
      | inserting entry info' =>
        rw [hp] at hpcu
        exact ⟨Nat.lt_succ_of_lt hpcu.1, hpcu.2.1, fun hm => hpcu.2.2 (hold hpcu.1 hm)⟩
      | removed m' hidden =>
        rw [hp] at hpcu
        exact ⟨howner hpcu.1 fun he => hu (Owner.call.inj he),
          fun h hh => howner (hpcu.2 h hh) nofun⟩
      | _ => trivial
  · intro f entry he
    obtain ⟨info', hm, hd, hh⟩ := hi.entries f entry he
    exact ⟨info', hnew hm, hd, hh⟩

theorem inv_insert (hi : Inv s) {t : T} {entry : FunctionInfo} {info : ModuleInfo}
    (hpc : s.pc t = .inserting entry info) (hm : s.modules entry.originalModule = some info) :
    Inv ({ s with functions := update s.functions entry.originalFunction (some entry) }.goto t
      .idle) := by
  obtain ⟨-, hdescribes, hhidden⟩ : PcInv s t (.inserting entry info) := hpc ▸ hi.pc t
  have hidle := hi.keeps (keeps_goto s t .idle) (by rw [goto_pc]; trivial)
  refine ⟨hidle.modules, hidle.pc, fun f e he => ?_⟩
  by_cases hf : f = entry.originalFunction
  · subst hf
    have he : update s.functions entry.originalFunction (some entry) entry.originalFunction =
        some e := he
    rw [Function.update_self, Option.some.injEq] at he
    subst he
    exact ⟨info, hm, hdescribes, hhidden hm⟩
  · exact hi.entries f e ((Function.update_of_ne hf ..).symm.trans he)

theorem inv_remove (hi : Inv s) {t : T} {m : CUmodule} (ho : s.owner m = .program) :
    Inv (((s.removeModuleInfo m).own m (.call t)).goto t (.removed m (s.transformedModule m))) := by
  have howner {h : CUmodule} {o : Owner T} (hh : s.owner h = o) (hne : o ≠ .program) :
      update s.owner m (.call t) h = o := by
    have hm : h ≠ m := by
      rintro rfl
      exact hne (hh.symm.trans ho)
    rw [Function.update_of_ne hm, hh]
  have hold {m' : CUmodule} {info : ModuleInfo} (hm : update s.modules m none m' = some info) :
      m' ≠ m ∧ s.modules m' = some info := by
    have hmm : m' ≠ m := by
      rintro rfl
      rw [Function.update_self] at hm
      cases hm
    exact ⟨hmm, by rwa [Function.update_of_ne hmm] at hm⟩
  constructor
  · intro m' info hm
    obtain ⟨hmm, hm⟩ := hold hm
    obtain ⟨hprogram, hserial, hh⟩ := hi.modules m' info hm
    exact ⟨(Function.update_of_ne hmm ..).trans hprogram, hserial,
      fun h ht => howner (hh h ht) nofun⟩
  · intro u
    by_cases hu : u = t
    · subst hu
      rw [goto_pc]
      refine ⟨Function.update_self .., fun h hh => ?_⟩
      obtain ⟨info, hm, ht⟩ := Option.bind_eq_some_iff.1 hh
      exact howner ((hi.modules m info hm).2.2 h ht) nofun
    · have hpcu := hi.pc u
      show PcInv _ u (update s.pc t _ u)
      rw [Function.update_of_ne hu]
      cases hp : s.pc u with
      | loaded m' =>
        rw [hp] at hpcu
        exact howner hpcu nofun
      | transformed m' info =>
        rw [hp] at hpcu
        exact ⟨howner hpcu.1 nofun, fun h hh => howner (hpcu.2 h hh) nofun⟩
      | copied f m' n info =>
        rw [hp] at hpcu
        exact hpcu
      | inserting entry info =>
        rw [hp] at hpcu
        exact ⟨hpcu.1, hpcu.2.1, fun hm => hpcu.2.2 (hold hm).2⟩
      | removed m' hidden =>
        rw [hp] at hpcu
        exact ⟨howner hpcu.1 nofun, fun h hh => howner (hpcu.2 h hh) nofun⟩
      | _ => trivial
  · intro f entry he
    obtain ⟨he, hne⟩ := Option.filter_eq_some_iff.1 he
    obtain ⟨info, hm, hd, hh⟩ := hi.entries f entry he
    exact ⟨info, (Function.update_of_ne (of_decide_eq_true hne) ..).trans hm, hd, hh⟩

theorem inv_find (hi : Inv s) {t : T} (h : s.find t = some s') : Inv s' := by
  have hgoto {pc : Pc} (hpc : PcInv (s.goto t pc) t pc) : Inv (s.goto t pc) :=
    hi.keeps (keeps_goto s t pc) (by rwa [goto_pc])
  unfold State.find at h
  cases hp : s.pc t with
  | found function m name =>
    simp only [hp] at h
    cases hm : s.modules m with
    | none =>
      simp only [hm, Option.some.injEq] at h
      exact h ▸ hgoto trivial
    | some info =>
      simp only [hm, Option.some.injEq] at h
      exact h ▸ hgoto trivial
  | registering function m name =>
    simp only [hp] at h
    cases hm : s.modules m with
    | none =>
      simp only [hm, Option.some.injEq] at h
      exact h ▸ hgoto trivial
    | some info =>
      simp only [hm] at h
      split at h
      · exact Option.some.inj h ▸ hgoto trivial
      · refine Option.some.inj h ▸ hgoto ?_
        exact (hi.modules m info hm).2.1
  | _ => simp [hp] at h

/-- The entry of a registration, before it is inserted. -/
theorem inv_hidden (hi : Inv s) {t : T} {transformed : Option CUfunction}
    (h : s.hidden t transformed = some s') : Inv s' := by
  unfold State.hidden at h
  cases hp : s.pc t with
  | copied function m name info =>
    have hserial : info.serial < s.nextSerial := by simpa [hp, PcInv] using hi.pc t
    have hnone : Inv (s.goto t (.inserting (functionInfo info function m name none) info)) := by
      refine hi.keeps (keeps_goto s t _) ?_
      rw [goto_pc]
      exact ⟨hserial, functionInfo_describes (fun _ => rfl) function m, fun _ g hg => nomatch hg⟩
    simp only [hp] at h
    cases ha : asksHidden info name with
    | none =>
      cases transformed with
      | none =>
        simp only [ha, Option.some.injEq] at h
        exact h ▸ hnone
      | some g => simp [ha] at h
    | some hidden =>
      cases transformed with
      | none =>
        simp only [ha, Option.some.injEq] at h
        exact h ▸ hnone
      | some g =>
        simp only [ha, Option.ite_none_right_eq_some, Option.some.injEq] at h
        obtain ⟨hg, rfl⟩ := h
        refine hi.keeps (keeps_give hg _) ?_
        rw [goto_pc]
        refine ⟨hserial, functionInfo_describes ?_ function m, ?_⟩
        · rw [ha]
          exact nofun
        · rintro - g' hg'
          obtain rfl : g = g' := Option.some.inj hg'
          have hhidden : info.transformedModule = some hidden := by
            unfold asksHidden at ha
            split at ha
            · exact ha
            · cases ha
          exact ⟨hidden, hhidden, Function.update_self ..⟩
  | _ => simp [hp] at h

theorem inv_driverUnload (hi : Inv s) {t : T} (h : step s (.driverUnload t) = some s') :
    Inv s' := by
  simp only [step] at h
  cases hp : s.pc t with
  | removed m hidden =>
    obtain ⟨hcall, hhidden⟩ : PcInv s t (.removed m hidden) := hp ▸ hi.pc t
    cases hidden with
    | none =>
      simp only [hp, Option.some.injEq] at h
      subst h
      refine hi.keeps (keeps_unload (.inr (.inl hcall)) _) ?_
      rw [goto_pc]
      trivial
    | some hidden =>
      simp only [hp, Option.some.injEq] at h
      subst h
      have ho := hhidden hidden rfl
      refine hi.keeps (keeps_unload (.inr (.inr ⟨m, ho, hcall⟩)) _) ?_
      rw [goto_pc]
      refine ⟨?_, nofun⟩
      have hne : m ≠ hidden := by
        rintro rfl
        rw [hcall] at ho
        cases ho
      exact (Function.update_of_ne hne ..).trans hcall
  | _ => simp [hp] at h

theorem Inv.step (hi : Inv s) {a : Act T} (hc : Current s a) (h : step s a = some s') :
    Inv s' := by
  cases a with
  | moduleLoad t m =>
    simp only [Registry.step, Option.ite_none_right_eq_some, Option.some.injEq] at h
    obtain ⟨⟨-, ho⟩, rfl⟩ := h
    refine hi.keeps (keeps_own (.inl ho) _ _) ?_
    rw [goto_pc]
    exact Function.update_self ..
  | loadReturn t =>
    simp only [Registry.step] at h
    cases hp : s.pc t with
    | loaded m =>
      simp only [hp, Option.some.injEq] at h
      subst h
      have ho : s.owner m = .call t := by simpa [hp, PcInv] using hi.pc t
      refine hi.keeps (keeps_own (.inr (.inl ho)) _ _) ?_
      rw [goto_pc]
      trivial
    | _ => simp [hp] at h
  | transformModulePtx t info =>
    simp only [Registry.step] at h
    cases hp : s.pc t with
    | loaded m =>
      have ho : s.owner m = .call t := by simpa [hp, PcInv] using hi.pc t
      simp only [hp] at h
      cases ht : info.transformedModule with
      | none =>
        simp only [ht, Option.some.injEq] at h
        subst h
        refine hi.keeps (keeps_goto s t _) ?_
        rw [goto_pc]
        refine ⟨ho, ?_⟩
        rw [ht]
        exact nofun
      | some hidden =>
        simp only [ht, Option.ite_none_right_eq_some, Option.some.injEq] at h
        obtain ⟨hfree, rfl⟩ := h
        refine hi.keeps (keeps_own (.inl hfree) _ _) ?_
        rw [goto_pc]
        have hne : m ≠ hidden := by
          rintro rfl
          rw [ho] at hfree
          cases hfree
        refine ⟨(Function.update_of_ne hne ..).trans ho, fun h hh => ?_⟩
        rw [ht, Option.some.injEq] at hh
        subst hh
        exact Function.update_self ..
    | _ => simp [hp] at h
  | registerModuleInfo t =>
    simp only [Registry.step] at h
    cases hp : s.pc t with
    | transformed m info =>
      simp only [hp, Option.some.injEq] at h
      exact h ▸ inv_register hi hp
    | _ => simp [hp] at h
  | moduleGetFunction t m name f =>
    simp only [Registry.step, Option.ite_none_right_eq_some, Option.some.injEq] at h
    obtain ⟨⟨-, hg⟩, rfl⟩ := h
    exact hi.keeps (keeps_give hg _) (by rw [goto_pc]; trivial)
  | resolveFunction t m name f =>
    simp only [Registry.step, Option.ite_none_right_eq_some, Option.some.injEq] at h
    obtain ⟨⟨-, hg⟩, rfl⟩ := h
    exact hi.keeps (keeps_give hg _) (by rw [goto_pc]; trivial)
  | findModuleInfo t => exact inv_find hi h
  | hiddenFunction t transformed => exact inv_hidden hi h
  | insert t =>
    simp only [Registry.step] at h
    cases hp : s.pc t with
    | inserting entry info =>
      simp only [hp, Option.some.injEq] at h
      simp only [Current, hp] at hc
      exact h ▸ inv_insert hi hp hc
    | _ => simp [hp] at h
  | moduleUnload t m =>
    simp only [Registry.step, Option.ite_none_right_eq_some, Option.some.injEq] at h
    obtain ⟨⟨-, ho⟩, rfl⟩ := h
    exact inv_remove hi ho
  | driverUnload t => exact inv_driverUnload hi h

omit [DecidableEq T] in
theorem inv_init : Inv (init : State T) where
  modules _ _ h := nomatch h
  pc _ := trivial
  entries _ _ h := nomatch h

/-- Every entry has its module in the table, describes its record, and has its
transformed function from the hidden module. -/
def Consistent (s : State T) : Prop := ∀ f entry, s.functions f = some entry →
  ∃ info, s.modules entry.originalModule = some info ∧ Describes info entry ∧ Hidden s info entry

/-- **The registry is consistent** in every run in which each entry is inserted
under the record it was made from. -/
theorem registry_consistent {s : State T} (hr : ((system T).restrict Current).Reachable s) :
    Consistent s := by
  have hi : Inv s := LTS.Inductive.reachable
    ⟨fun _ h => h ▸ inv_init, fun _ _ _ hi h => hi.step h.2 h.1⟩ s hr
  exact hi.entries

instance (s : State T) (a : Act T) : Decidable (Current s a) :=
  match a with
  | .insert t =>
    match h : s.pc t with
    | .inserting entry info =>
      decidable_of_iff (s.modules entry.originalModule = some info) (by simp [Current, h])
    | .idle | .loaded _ | .transformed _ _ | .found _ _ _ | .registering _ _ _ | .copied _ _ _ _
    | .removed _ _ => .isTrue (by simp [Current, h])
  | .moduleLoad _ _ | .loadReturn _ | .transformModulePtx _ _ | .registerModuleInfo _
  | .moduleGetFunction _ _ _ _ | .resolveFunction _ _ _ _ | .findModuleInfo _
  | .hiddenFunction _ _ | .moduleUnload _ _ | .driverUnload _ => .isTrue trivial

end Invariant

/-! ## Concrete runs -/

def kernelK : Text := ['k']

/-- The record of the kernel when it was transformed. -/
def recordK : KernelTransformRecord where
  capability := {
    ptxAvailable := true
    transformAttempted := true
    transformSucceeded := true
    supportsOffsetX := true
    supportsKernelParams := true
    splittable := true }
  originalParamCount := 2

def ptxK : Text := ".entry k(.param .u64 a, .param .u64 b) { ret; }".toList

/-- The module with hidden module 11, or where `k` is no verified kernel. -/
def moduleK (verified : Bool) : ModuleInfo where
  ptxAvailable := true
  originalPtx := some ptxK
  ptxBytes := ptxK.length
  transformedModule := if verified then some 11 else none
  records := if verified then [(kernelK, recordK)] else []
  serial := 0

/-- A thread loads module 10 and takes kernel `k` from it, as function 20, up to
the insertion of the entry; `transformed` is the function of the hidden module. -/
def registration (verified : Bool) (transformed : Option CUfunction) : List (Act Bool) :=
  [.moduleLoad true 10, .transformModulePtx true (moduleK verified), .registerModuleInfo true,
    .moduleGetFunction true 10 kernelK 20, .findModuleInfo true, .findModuleInfo true,
    .hiddenFunction true transformed]

/-- Meanwhile another thread takes kernel `j` from the module, as function 22. -/
def meanwhile : List (Act Bool) :=
  [.moduleGetFunction false 10 ['j'] 22, .findModuleInfo false, .findModuleInfo false,
    .hiddenFunction false none, .insert false]

/-- The entry of function 20 and its module's record. -/
def State.view (s : State Bool) : Pc × Pc × Option FunctionInfo × Option ModuleInfo :=
  (s.pc true, s.pc false, s.functions 20, s.modules 10)

theorem registry_consistent_one : ∃ s, ((system Bool).restrict Current).Reachable s ∧
    (s.functions 20).isSome ∧ (s.functions 22).isSome ∧ Consistent s := by
  have htrace : ((LTS.exec (LTS.guarded Current step) init
      (registration true (some 21) ++ meanwhile ++ [.insert true])).map fun s =>
        ((s.functions 20).isSome, (s.functions 22).isSome)) = some (true, true) := by
    decide +kernel
  obtain ⟨s, hs, he⟩ := Option.map_eq_some_iff.1 htrace
  have hr : ((system Bool).restrict Current).Reachable s := LTS.reachable_restrict_of_exec rfl hs
  exact ⟨s, hr, congrArg Prod.fst he, congrArg Prod.snd he, registry_consistent hr⟩

/-- **Other than the record.** With no call in progress: the entry of a function
whose kernel has no record; the entry of a kernel that is not found in the hidden
module, which is not splittable though its record is; and the entry of a function
whose module was unloaded while it was registered. -/
theorem registry_diverges :
    (∃ s, (system Bool).Reachable s ∧ ∃ entry info,
      s.view = (.idle, .idle, some entry, some info) ∧ entry.kernelName = kernelK ∧
        info.records.lookup kernelK = none) ∧
    (∃ s, (system Bool).Reachable s ∧ ∃ entry info,
      s.view = (.idle, .idle, some entry, some info) ∧ entry.kernelName = kernelK ∧
        info.records.lookup kernelK = some recordK ∧
        entry.capability = { recordK.capability with
          splittable := false
          fallbackReason := "TRANSFORMED_FUNCTION_NOT_FOUND".toList }) ∧
    ∃ s, (system Bool).Reachable s ∧ ∃ entry,
      s.view = (.idle, .idle, some entry, none) ∧ entry.originalModule = 10 := by
  refine ⟨?_, ?_, ?_⟩
  · have htrace : ((LTS.exec step init
        (registration false none ++ [.insert true])).map State.view) =
        some (.idle, .idle, some (functionInfo (moduleK false) 20 10 kernelK none),
          some (moduleK false)) := by
      decide +kernel
    obtain ⟨s, hs, he⟩ := Option.map_eq_some_iff.1 htrace
    exact ⟨s, LTS.reachable_of_exec rfl hs, _, _, he, rfl, rfl⟩
  · have htrace : ((LTS.exec step init
        (registration true none ++ [.insert true])).map State.view) =
        some (.idle, .idle, some (functionInfo (moduleK true) 20 10 kernelK none),
          some (moduleK true)) := by
      decide +kernel
    obtain ⟨s, hs, he⟩ := Option.map_eq_some_iff.1 htrace
    exact ⟨s, LTS.reachable_of_exec rfl hs, _, _, he, rfl, by decide, by decide⟩
  · have htrace : ((LTS.exec step init (registration true (some 21) ++ [.moduleUnload false 10,
        .driverUnload false, .driverUnload false, .insert true])).map State.view) =
        some (.idle, .idle, some (functionInfo (moduleK true) 20 10 kernelK (some 21)), none) := by
      decide +kernel
    obtain ⟨s, hs, he⟩ := Option.map_eq_some_iff.1 htrace
    exact ⟨s, LTS.reachable_of_exec rfl hs, _, he, rfl⟩

end Registry
end Xsched.HbSplit
