import Mathlib.Data.Fintype.Defs
import Mathlib.Logic.Function.Basic
import Xsched.Core.LTS

/-!
# Tracking of managed memory

`XMemAllocManaged` calls the driver, asks it for the current context and
device, and registers a region under the pointer; `XMemFree_v2` and `XMemFree`
call the driver and then remove the region under the pointer. The registry
`g_regions` has a lock, and the driver is called outside of it, so any number
of threads interleave at each call of the driver and each access to the
registry. The driver may hand out a freed address at once.

**The break.** Between a free in the driver and the removal of the region the
address may be allocated again and registered by another thread. The removal
then takes the region of the new allocation.

**Results**
* `tracking_exact`: while a removal finds its address free, in use for other
  memory or not registered again (`Clear`), the registry has exactly the managed
  allocations whenever no call is in progress, with their size, context and
  device; with tracking switched off it is empty.
* `tracking_lost`: an allocation without a region.
-/
namespace Xsched.Cuda
namespace ManagedMemory

open Function (update)

abbrev CUdeviceptr := Nat
abbrev CUcontext := Nat
abbrev CUdevice := Int

/-- The backends that register regions. -/
inductive XpuMemoryBackend where
  | cuda
  | ascend
  deriving DecidableEq, Repr

/-- mirrors preempt/src/memory/admission.cpp:26-36 -/
structure MemoryRegion where
  backend : XpuMemoryBackend
  ptr : CUdeviceptr
  size : Nat
  context : CUcontext
  device : CUdevice
  owner : Nat
  resident : Bool
  lastTouch : Nat
  deriving DecidableEq, Repr

/-- What the driver knows of an address: managed memory or memory of another kind. -/
structure Allocation where
  managed : Bool
  size : Nat
  context : CUcontext
  device : CUdevice
  deriving DecidableEq, Repr

/-- Where a thread is in `XMemAllocManaged` or `XMemFree_v2`. -/
inductive Pc where
  | idle
  | allocated (ptr : CUdeviceptr) (size : Nat)
  | gotContext (ptr : CUdeviceptr) (size : Nat) (ctx : CUcontext)
  | gotDevice (ptr : CUdeviceptr) (size : Nat) (ctx : CUcontext) (dev : CUdevice)
  | freed (ptr : CUdeviceptr)
  deriving DecidableEq, Repr

/-- The address that a thread has allocated and not registered. -/
def Pc.allocating : Pc → Option CUdeviceptr
  | .allocated ptr _ | .gotContext ptr _ _ | .gotDevice ptr _ _ _ => some ptr
  | .idle | .freed _ => none

/-- `memory` and `current` (the context and the device of each thread) are the
driver's; `returned` says whether the call that allocated an address is over, so
that the program may free it. -/
structure State (T : Type) where
  memory : CUdeviceptr → Option Allocation
  returned : CUdeviceptr → Bool
  current : T → CUcontext × CUdevice
  regions : CUdeviceptr → Option MemoryRegion
  clock : Nat
  pc : T → Pc

inductive Act (T : Type) where
  | setCurrent (t : T) (ctx : CUcontext) (dev : CUdevice)
  /-- `XMemAllocManaged`, up to the return of the driver with `ptr`. -/
  | memAllocManaged (t : T) (ptr : CUdeviceptr) (size : Nat)
  /-- An allocation of another kind, which the shim passes on. -/
  | memAlloc (t : T) (ptr : CUdeviceptr) (size : Nat)
  /-- `XMemFree_v2` or `XMemFree`, up to the return of the driver. -/
  | memFree (t : T) (ptr : CUdeviceptr)
  | call (t : T)
  deriving DecidableEq

section Steps
variable {T : Type} [DecidableEq T]

def State.goto (s : State T) (t : T) (pc : Pc) : State T := { s with pc := update s.pc t pc }

/-- mirrors preempt/src/memory/admission.cpp:198-216 -/
def State.registerRegion (usable : Bool) (backend : XpuMemoryBackend) (ptr : CUdeviceptr)
    (size : Nat) (context : CUcontext) (device : CUdevice) (owner : Nat) (s : State T) : State T :=
  if usable = false ∨ ptr = 0 ∨ size = 0 ∨ context = 0 then s
  else { s with
    regions := update s.regions ptr (some {
      backend := backend
      ptr := ptr
      size := size
      context := context
      device := device
      owner := owner
      resident := true
      lastTouch := s.clock + 1 })
    clock := s.clock + 1 }

/-- mirrors preempt/src/memory/admission.cpp:218-228 -/
def State.unregisterRegion (usable : Bool) (backend : XpuMemoryBackend) (ptr : CUdeviceptr)
    (s : State T) : State T :=
  if usable = false ∨ ptr = 0 then s
  else match s.regions ptr with
    | none => s
    | some region =>
      if region.backend ≠ backend then s else { s with regions := update s.regions ptr none }

/-- mirrors cuda/hal/src/common/memory_manager.cpp:140-145 -/
def State.registerManagedAllocation (usable : Bool) (ptr : CUdeviceptr) (size : Nat)
    (ctx : CUcontext) (dev : CUdevice) (s : State T) : State T :=
  s.registerRegion usable .cuda ptr size ctx dev 0

/-- mirrors cuda/hal/src/common/memory_manager.cpp:147-150 -/
def State.unregisterAllocation (usable : Bool) (ptr : CUdeviceptr) (s : State T) : State T :=
  s.unregisterRegion usable .cuda ptr

/-- The driver allocates an address that is not in use. -/
def State.allocate (managed : Bool) (t : T) (ptr : CUdeviceptr) (size : Nat) (s : State T) :
    State T :=
  { s with
    memory := update s.memory ptr (some ⟨managed, size, (s.current t).1, (s.current t).2⟩)
    returned := update s.returned ptr (!managed) }

/-- The next step of a call behind the call of the driver.
mirrors cuda/shim/src/shim.cpp:245-271 -/
def State.call (usable : Bool) (t : T) (s : State T) : Option (State T) :=
  match s.pc t with
  | .idle => none
  | .allocated ptr size => some (s.goto t (.gotContext ptr size (s.current t).1))
  | .gotContext ptr size ctx => some (s.goto t (.gotDevice ptr size ctx (s.current t).2))
  | .gotDevice ptr size ctx dev =>
    some ({ s.registerManagedAllocation usable ptr size ctx dev with
      returned := update s.returned ptr true }.goto t .idle)
  | .freed ptr => some ((s.unregisterAllocation usable ptr).goto t .idle)

/-- What the driver promises: it allocates no byte at null, and not without a
current context. The program frees what a call has returned to it. -/
def step (usable : Bool) (s : State T) : Act T → Option (State T)
  | .setCurrent t ctx dev =>
    if s.pc t = .idle then some { s with current := update s.current t (ctx, dev) } else none
  | .memAllocManaged t ptr size =>
    if s.pc t = .idle ∧ s.memory ptr = none ∧ ptr ≠ 0 ∧ size ≠ 0 ∧ (s.current t).1 ≠ 0 then
      some ((s.allocate true t ptr size).goto t (.allocated ptr size))
    else none
  | .memAlloc t ptr size =>
    if s.pc t = .idle ∧ s.memory ptr = none ∧ ptr ≠ 0 ∧ size ≠ 0 ∧ (s.current t).1 ≠ 0 then
      some (s.allocate false t ptr size)
    else none
  | .memFree t ptr =>
    if s.pc t = .idle ∧ s.memory ptr ≠ none ∧ s.returned ptr = true then
      some ({ s with memory := update s.memory ptr none }.goto t (.freed ptr))
    else none
  | .call t => s.call usable t

def init : State T where
  memory _ := none
  returned _ := false
  current _ := (0, 0)
  regions _ := none
  clock := 0
  pc _ := .idle

/-- `usable`: tracking is switched on (`UsableBackend`). -/
def system (T : Type) [DecidableEq T] (usable : Bool) : LTS (State T) (Act T) :=
  .ofFn (· = init) (step usable)

/-- The managed memory at an address. -/
def State.managed (s : State T) (ptr : CUdeviceptr) : Option Allocation :=
  (s.memory ptr).filter (·.managed)

/-- A removal of a region finds no managed memory at the address, or memory
whose call has not registered it yet. -/
def Clear (s : State T) : Act T → Prop
  | .call t =>
    match s.pc t with
    | .freed ptr => s.managed ptr = none ∨ s.returned ptr = false
    | _ => True
  | _ => True

end Steps

/-! ## The registry and the driver -/

section Invariant
variable {T : Type} {s s' : State T}

/-- What a region says of an allocation. -/
def Matches (a : Allocation) (ptr : CUdeviceptr) (r : MemoryRegion) : Prop :=
  r.backend = .cuda ∧ r.ptr = ptr ∧ r.size = a.size ∧ r.context = a.context ∧ r.device = a.device

/-- What a call between the driver and the registry has in its hands. -/
def Carries (s : State T) (t : T) : Pc → Prop
  | .allocated ptr size =>
    ptr ≠ 0 ∧ size ≠ 0 ∧ (s.current t).1 ≠ 0 ∧ s.returned ptr = false ∧
      s.memory ptr = some ⟨true, size, (s.current t).1, (s.current t).2⟩
  | .gotContext ptr size ctx =>
    ptr ≠ 0 ∧ size ≠ 0 ∧ ctx ≠ 0 ∧ s.returned ptr = false ∧ ctx = (s.current t).1 ∧
      s.memory ptr = some ⟨true, size, ctx, (s.current t).2⟩
  | .gotDevice ptr size ctx dev =>
    ptr ≠ 0 ∧ size ≠ 0 ∧ ctx ≠ 0 ∧ s.returned ptr = false ∧
      s.memory ptr = some ⟨true, size, ctx, dev⟩
  | .freed _ | .idle => True

structure Inv (usable : Bool) (s : State T) : Prop where
  carries : ∀ t, Carries s t (s.pc t)
  alone : ∀ t t' ptr, (s.pc t).allocating = some ptr → (s.pc t').allocating = some ptr → t = t'
  /-- an allocation that was not returned is in the hands of its call -/
  inCall : ∀ ptr a, s.memory ptr = some a → s.returned ptr = false →
    ∃ t, (s.pc t).allocating = some ptr
  /-- one that was returned has its region -/
  tracked : usable = true → ∀ ptr a, s.memory ptr = some a → a.managed = true →
    s.returned ptr = true → ∃ r, s.regions ptr = some r ∧ Matches a ptr r
  /-- a region is that of such an allocation, or is about to be removed -/
  stale : ∀ ptr r, s.regions ptr = some r → r.backend = .cuda ∧
    ((∃ a, s.memory ptr = some a ∧ a.managed = true ∧ s.returned ptr = true) ∨
      ∃ t, s.pc t = .freed ptr)
  off : usable = false → ∀ ptr, s.regions ptr = none
  nonnull : s.memory 0 = none ∧ ∀ t, s.pc t ≠ .freed 0

/-! ## Every step -/

variable {usable : Bool}

@[simp] theorem allocate_pc (s : State T) (managed : Bool) (t : T) (ptr : CUdeviceptr)
    (size : Nat) : (s.allocate managed t ptr size).pc = s.pc := rfl

/-- The allocation of a call that has not registered it is live, and no free of it
can start. -/
theorem Carries.held {t : T} {pc : Pc} {ptr : CUdeviceptr} (h : Carries s t pc)
    (ha : pc.allocating = some ptr) : s.returned ptr = false ∧ s.memory ptr ≠ none := by
  cases pc <;> simp_all [Carries, Pc.allocating]

theorem Carries.frame {s s' : State T} {t : T} {pc : Pc} (h : Carries s t pc)
    (hcurrent : s'.current t = s.current t)
    (hmemory : ∀ ptr, pc.allocating = some ptr →
      s'.memory ptr = s.memory ptr ∧ s'.returned ptr = s.returned ptr) : Carries s' t pc := by
  cases pc <;> grind [Carries, Pc.allocating]

theorem Inv.held (hi : Inv usable s) {t : T} {ptr : CUdeviceptr}
    (ha : (s.pc t).allocating = some ptr) : s.returned ptr = false ∧ s.memory ptr ≠ none :=
  (hi.carries t).held ha

theorem inv_alloc (hi : Inv usable s) {t : T} {ptr : CUdeviceptr} {size : Nat}
    (hfree : s.memory ptr = none) (hptr : ptr ≠ 0) :
    Inv usable (s.allocate false t ptr size) := by
  have hne : ∀ {u p}, (s.pc u).allocating = some p → p ≠ ptr := fun ha hp =>
    (hi.held ha).2 (hp ▸ hfree)
  constructor
  · exact fun u => (hi.carries u).frame rfl fun p ha => by simp [State.allocate, hne ha]
  · exact hi.alone
  · intro p a ha hr
    by_cases hp : p = ptr
    · simp [State.allocate, hp] at hr
    · exact hi.inCall p a (by simpa [State.allocate, hp] using ha)
        (by simpa [State.allocate, hp] using hr)
  · intro hu p a ha hm hr
    by_cases hp : p = ptr
    · simp only [State.allocate, hp, Function.update_self, Option.some.injEq] at ha
      simp [← ha] at hm
    · exact hi.tracked hu p a (by simpa [State.allocate, hp] using ha) hm
        (by simpa [State.allocate, hp] using hr)
  · intro p r hr
    obtain ⟨hb, hlive | hfreed⟩ := hi.stale p r hr
    · have hp : p ≠ ptr := by
        rintro rfl
        simp [hfree] at hlive
      exact ⟨hb, .inl (by simpa [State.allocate, hp] using hlive)⟩
    · exact ⟨hb, .inr hfreed⟩
  · exact hi.off
  · exact ⟨by simpa [State.allocate, Ne.symm hptr] using hi.nonnull.1, hi.nonnull.2⟩

/-- Where a call may register, it does. -/
theorem register_eq {ptr : CUdeviceptr} {size : Nat} {ctx : CUcontext} {dev : CUdevice}
    (hptr : ptr ≠ 0) (hsize : size ≠ 0) (hctx : ctx ≠ 0) :
    s.registerManagedAllocation true ptr size ctx dev =
      { s with
        regions := update s.regions ptr
          (some ⟨.cuda, ptr, size, ctx, dev, 0, true, s.clock + 1⟩)
        clock := s.clock + 1 } := by
  simp [State.registerManagedAllocation, State.registerRegion, hptr, hsize, hctx]

theorem register_off (ptr : CUdeviceptr) (size : Nat) (ctx : CUcontext) (dev : CUdevice) :
    s.registerManagedAllocation false ptr size ctx dev = s := by
  simp [State.registerManagedAllocation, State.registerRegion]

theorem unregister_eq (hi : Inv usable s) {ptr : CUdeviceptr} (hptr : ptr ≠ 0) :
    s.unregisterAllocation usable ptr = { s with regions := update s.regions ptr none } := by
  have hsame : s.regions ptr = none → s = { s with regions := update s.regions ptr none } := by
    intro h
    rw [← h, Function.update_eq_self]
  unfold State.unregisterAllocation State.unregisterRegion
  cases usable with
  | false => simpa using hsame (hi.off rfl ptr)
  | true =>
    cases hr : s.regions ptr with
    | none => simpa [hptr] using hsame hr
    | some r => simp [hptr, (hi.stale ptr r hr).1]

variable [DecidableEq T]

@[simp] theorem goto_memory (s : State T) (t : T) (pc : Pc) : (s.goto t pc).memory = s.memory := rfl

@[simp] theorem goto_returned (s : State T) (t : T) (pc : Pc) :
    (s.goto t pc).returned = s.returned := rfl

@[simp] theorem goto_current (s : State T) (t : T) (pc : Pc) : (s.goto t pc).current = s.current :=
  rfl

@[simp] theorem goto_regions (s : State T) (t : T) (pc : Pc) : (s.goto t pc).regions = s.regions :=
  rfl

@[simp] theorem goto_pc_self (s : State T) (t : T) (pc : Pc) : (s.goto t pc).pc t = pc := by
  simp [State.goto]

@[simp] theorem goto_pc_of_ne (s : State T) {t u : T} (pc : Pc) (h : u ≠ t) :
    (s.goto t pc).pc u = s.pc u := by
  simp [State.goto, h]

/-- What some thread is doing is not lost by the step of a thread that does
something else. -/
theorem exists_goto {P : Pc → Prop} {t : T} {pc : Pc} (ht : P (s.pc t) → P pc)
    (h : ∃ u, P (s.pc u)) : ∃ u, P ((s.goto t pc).pc u) := by
  obtain ⟨u, hu⟩ := h
  by_cases hut : u = t
  · subst hut
    exact ⟨u, by simpa using ht hu⟩
  · exact ⟨u, by simpa [hut] using hu⟩

/-- A step of a call that leaves the driver and the registry alone. -/
theorem Inv.goto (hi : Inv usable s) {t : T} {pc : Pc} (hcarries : Carries s t pc)
    (hsame : pc.allocating = (s.pc t).allocating) (hfreed : ∀ ptr, s.pc t ≠ .freed ptr)
    (hfreed' : pc ≠ .freed 0) : Inv usable (s.goto t pc) where
  carries u := by
    by_cases hut : u = t
    · subst hut
      simpa [Carries] using hcarries
    · simpa [Carries, hut] using hi.carries u
  alone u u' ptr hu hu' := by
    have hsame' : ∀ v, ((s.goto t pc).pc v).allocating = (s.pc v).allocating := by
      intro v
      by_cases hvt : v = t
      · subst hvt
        simpa using hsame
      · simp [hvt]
    exact hi.alone u u' ptr (hsame' u ▸ hu) (hsame' u' ▸ hu')
  inCall ptr a ha hr :=
    exists_goto (P := fun p => p.allocating = some ptr) (by simp [hsame]) (hi.inCall ptr a ha hr)
  tracked := hi.tracked
  stale ptr r hr :=
    ⟨(hi.stale ptr r hr).1, (hi.stale ptr r hr).2.imp id
      (exists_goto (P := (· = .freed ptr)) fun h => absurd h (hfreed ptr))⟩
  off := hi.off
  nonnull := by
    refine ⟨hi.nonnull.1, fun u => ?_⟩
    by_cases hut : u = t
    · subst hut
      simpa using hfreed'
    · simpa [hut] using hi.nonnull.2 u

theorem inv_setCurrent (hi : Inv usable s) {t : T} (hpc : s.pc t = .idle)
    (c : CUcontext × CUdevice) :
    Inv usable { s with current := update s.current t c } where
  carries u := by
    by_cases hut : u = t
    · subst hut
      simp [hpc, Carries]
    · exact (hi.carries u).frame (by simp [hut]) fun _ _ => ⟨rfl, rfl⟩
  alone := hi.alone
  inCall := hi.inCall
  tracked := hi.tracked
  stale := hi.stale
  off := hi.off
  nonnull := hi.nonnull

theorem inv_allocManaged (hi : Inv usable s) {t : T} {ptr : CUdeviceptr} {size : Nat}
    (hpc : s.pc t = .idle) (hfree : s.memory ptr = none) (hptr : ptr ≠ 0) (hsize : size ≠ 0)
    (hctx : (s.current t).1 ≠ 0) :
    Inv usable ((s.allocate true t ptr size).goto t (.allocated ptr size)) := by
  have hne : ∀ {u p}, (s.pc u).allocating = some p → p ≠ ptr := fun ha hp =>
    (hi.held ha).2 (hp ▸ hfree)
  constructor
  · intro u
    by_cases hut : u = t
    · subst hut
      simpa [Carries, State.allocate] using ⟨hptr, hsize, hctx⟩
    · rw [goto_pc_of_ne _ _ hut]
      exact (hi.carries u).frame rfl fun p ha => by simp [State.allocate, hne ha]
  · intro u u' p hu hu'
    by_cases hut : u = t <;> by_cases hut' : u' = t
    · rw [hut, hut']
    · subst hut
      have : ptr = p := by simpa [Pc.allocating] using hu
      exact absurd this.symm (hne (goto_pc_of_ne _ _ hut' ▸ hu'))
    · subst hut'
      have : ptr = p := by simpa [Pc.allocating] using hu'
      exact absurd this.symm (hne (goto_pc_of_ne _ _ hut ▸ hu))
    · rw [goto_pc_of_ne _ _ hut] at hu
      rw [goto_pc_of_ne _ _ hut'] at hu'
      exact hi.alone u u' p hu hu'
  · intro p a ha hr
    by_cases hp : p = ptr
    · exact ⟨t, by simp [Pc.allocating, hp]⟩
    · refine exists_goto (P := fun q => q.allocating = some p) (by simp [hpc, Pc.allocating])
        (hi.inCall p a ?_ ?_)
      · simpa [State.allocate, hp] using ha
      · simpa [State.allocate, hp] using hr
  · intro hu p a ha hm hr
    by_cases hp : p = ptr
    · simp [State.allocate, hp] at hr
    · exact hi.tracked hu p a (by simpa [State.allocate, hp] using ha) hm
        (by simpa [State.allocate, hp] using hr)
  · intro p r hr
    obtain ⟨hb, hlive | hfreed⟩ := hi.stale p r hr
    · have hp : p ≠ ptr := by
        rintro rfl
        simp [hfree] at hlive
      exact ⟨hb, .inl (by simpa [State.allocate, hp] using hlive)⟩
    · exact ⟨hb, .inr (exists_goto (P := (· = .freed p)) (by simp [hpc]) hfreed)⟩
  · exact hi.off
  · refine ⟨by simpa [State.allocate, Ne.symm hptr] using hi.nonnull.1, fun u => ?_⟩
    by_cases hut : u = t
    · simp [hut]
    · simpa [hut] using hi.nonnull.2 u

theorem inv_free (hi : Inv usable s) {t : T} {ptr : CUdeviceptr} (hpc : s.pc t = .idle)
    (hlive : s.memory ptr ≠ none) (hret : s.returned ptr = true) :
    Inv usable ({ s with memory := update s.memory ptr none }.goto t (.freed ptr)) := by
  have hne : ∀ {u p}, (s.pc u).allocating = some p → p ≠ ptr := fun ha hp => by
    have := (hi.held ha).1
    simp_all
  have hother : ∀ {u p}, ((({ s with memory := update s.memory ptr none } : State T).goto t
      (.freed ptr)).pc u).allocating = some p → (s.pc u).allocating = some p := by
    intro u p hu
    by_cases hut : u = t
    · simp [hut, Pc.allocating] at hu
    · rwa [goto_pc_of_ne _ _ hut] at hu
  constructor
  · intro u
    by_cases hut : u = t
    · simp [hut, Carries]
    · rw [goto_pc_of_ne _ _ hut]
      exact (hi.carries u).frame rfl fun p ha => by simp [hne ha]
  · exact fun u u' p hu hu' => hi.alone u u' p (hother hu) (hother hu')
  · intro p a ha hr
    have hp : p ≠ ptr := by
      rintro rfl
      simp at ha
    exact exists_goto (P := fun q => q.allocating = some p) (by simp [hpc, Pc.allocating])
      (hi.inCall p a (by simpa [hp] using ha) hr)
  · intro hu p a ha hm hr
    have hp : p ≠ ptr := by
      rintro rfl
      simp at ha
    exact hi.tracked hu p a (by simpa [hp] using ha) hm hr
  · intro p r hr
    refine ⟨(hi.stale p r hr).1, ?_⟩
    by_cases hp : p = ptr
    · exact .inr ⟨t, by simp [hp]⟩
    · obtain hold | hfreed := (hi.stale p r hr).2
      · exact .inl (by simpa [hp] using hold)
      · exact .inr (exists_goto (P := (· = .freed p)) (by simp [hpc]) hfreed)
  · exact hi.off
  · have hptr : ptr ≠ 0 := fun h => hlive (h ▸ hi.nonnull.1)
    refine ⟨by simpa [Ne.symm hptr] using hi.nonnull.1, fun u => ?_⟩
    by_cases hut : u = t
    · simpa [hut] using hptr
    · simpa [hut] using hi.nonnull.2 u

theorem inv_register (hi : Inv usable s) {t : T} {ptr : CUdeviceptr} {size : Nat} {ctx : CUcontext}
    {dev : CUdevice} {regions : CUdeviceptr → Option MemoryRegion} {clock : Nat}
    (hpc : s.pc t = .gotDevice ptr size ctx dev)
    (hother : ∀ p, p ≠ ptr → regions p = s.regions p)
    (hmine : usable = true → ∃ r, regions ptr = some r ∧ Matches ⟨true, size, ctx, dev⟩ ptr r)
    (hoff : usable = false → ∀ p, regions p = none) :
    Inv usable ({ s with
      regions := regions
      clock := clock
      returned := update s.returned ptr true }.goto t .idle) := by
  obtain ⟨-, -, -, -, hmem⟩ : Carries s t (.gotDevice ptr size ctx dev) := hpc ▸ hi.carries t
  have hmine' : (s.pc t).allocating = some ptr := by simp [hpc, Pc.allocating]
  have hne : ∀ {u p}, u ≠ t → (s.pc u).allocating = some p → p ≠ ptr := fun hu ha hp =>
    hu (hi.alone _ t ptr (hp ▸ ha) hmine')
  constructor
  · intro u
    by_cases hut : u = t
    · simp [hut, Carries]
    · rw [goto_pc_of_ne _ _ hut]
      exact (hi.carries u).frame rfl fun p ha => by simp [hne hut ha]
  · intro u u' p hu hu'
    have hpc' : ∀ {v}, ((({ s with
        regions := regions, clock := clock, returned := update s.returned ptr true } : State T).goto
        t .idle).pc v).allocating = some p → (s.pc v).allocating = some p := by
      intro v hv
      by_cases hvt : v = t
      · simp [hvt, Pc.allocating] at hv
      · rwa [goto_pc_of_ne _ _ hvt] at hv
    exact hi.alone u u' p (hpc' hu) (hpc' hu')
  · intro p a ha hr
    have hp : p ≠ ptr := by
      rintro rfl
      simp at hr
    refine exists_goto (P := fun q => q.allocating = some p) (fun h => ?_)
      (hi.inCall p a ha (by simpa [hp] using hr))
    exact absurd (by simpa [hpc, Pc.allocating] using h) (Ne.symm hp)
  · intro hu p a ha hm hr
    by_cases hp : p = ptr
    · subst hp
      obtain rfl : a = ⟨true, size, ctx, dev⟩ := by
        simpa [hmem] using ha.symm
      exact hmine hu
    · simp only [goto_regions, hother p hp]
      exact hi.tracked hu p a ha hm (by simpa [hp] using hr)
  · intro p r hr
    by_cases hp : p = ptr
    · subst hp
      cases husable : usable with
      | false => simp [hoff husable] at hr
      | true =>
        obtain ⟨r', hr', hmatch⟩ := hmine husable
        obtain rfl : r' = r := by simpa [hr'] using hr
        exact ⟨hmatch.1, .inl ⟨_, hmem, rfl, by simp⟩⟩
    · simp only [goto_regions, hother p hp] at hr
      refine ⟨(hi.stale p r hr).1, ?_⟩
      obtain hold | hfreed := (hi.stale p r hr).2
      · exact .inl (by simpa [hp] using hold)
      · exact .inr (exists_goto (P := (· = .freed p)) (by simp [hpc]) hfreed)
  · exact hoff
  · refine ⟨hi.nonnull.1, fun u => ?_⟩
    by_cases hut : u = t
    · simp [hut]
    · simpa [hut] using hi.nonnull.2 u

/-- The removal of a region, where no allocation that was returned loses its
region. -/
theorem inv_unregister (hi : Inv usable s) {t : T} {ptr : CUdeviceptr} (hpc : s.pc t = .freed ptr)
    (hclear : s.managed ptr = none ∨ s.returned ptr = false) :
    Inv usable ((s.unregisterAllocation usable ptr).goto t .idle) := by
  have hptr : ptr ≠ 0 := by
    rintro rfl
    exact hi.nonnull.2 t hpc
  rw [unregister_eq hi hptr]
  have hpc' : ∀ {v p}, ((({ s with regions := update s.regions ptr none } : State T).goto
      t .idle).pc v).allocating = some p → (s.pc v).allocating = some p := by
    intro v p hv
    by_cases hvt : v = t
    · simp [hvt, Pc.allocating] at hv
    · rwa [goto_pc_of_ne _ _ hvt] at hv
  constructor
  · intro u
    by_cases hut : u = t
    · simp [hut, Carries]
    · rw [goto_pc_of_ne _ _ hut]
      exact (hi.carries u).frame rfl fun p ha => ⟨rfl, rfl⟩
  · exact fun u u' p hu hu' => hi.alone u u' p (hpc' hu) (hpc' hu')
  · intro p a ha hr
    exact exists_goto (P := fun q => q.allocating = some p) (by simp [hpc, Pc.allocating])
      (hi.inCall p a ha hr)
  · intro hu p a ha hm hr
    have hp : p ≠ ptr := by
      rintro rfl
      have hmanaged : s.managed p = some a := by
        have ha : s.memory p = some a := ha
        simp [State.managed, ha, hm]
      have hr : s.returned p = true := hr
      simp [hmanaged, hr] at hclear
    simp only [goto_regions, Function.update_of_ne hp]
    exact hi.tracked hu p a ha hm hr
  · intro p r hr
    have hp : p ≠ ptr := by
      rintro rfl
      simp at hr
    obtain ⟨hb, hold | hfreed⟩ := hi.stale p r (by simpa [hp] using hr)
    · exact ⟨hb, .inl hold⟩
    · exact ⟨hb, .inr (exists_goto (P := (· = .freed p)) (by simp [hpc, Ne.symm hp]) hfreed)⟩
  · intro hu p
    by_cases hp : p = ptr
    · simp [hp]
    · simpa [hp] using hi.off hu p
  · refine ⟨hi.nonnull.1, fun u => ?_⟩
    by_cases hut : u = t
    · simp [hut]
    · simpa [hut] using hi.nonnull.2 u

theorem Inv.call (hi : Inv usable s) {t : T} (hclear : Clear s (.call t))
    (h : s.call usable t = some s') : Inv usable s' := by
  have hcarries := hi.carries t
  unfold State.call at h
  cases hpc : s.pc t with
  | idle => simp [hpc] at h
  | allocated ptr size =>
    simp only [hpc, Option.some.injEq] at h
    subst h
    rw [hpc] at hcarries
    refine hi.goto ?_ (by simp [hpc, Pc.allocating]) (by simp [hpc]) (by simp)
    obtain ⟨h1, h2, h3, h4, h5⟩ := hcarries
    exact ⟨h1, h2, h3, h4, rfl, h5⟩
  | gotContext ptr size ctx =>
    simp only [hpc, Option.some.injEq] at h
    subst h
    rw [hpc] at hcarries
    refine hi.goto ?_ (by simp [hpc, Pc.allocating]) (by simp [hpc]) (by simp)
    obtain ⟨h1, h2, h3, h4, -, h5⟩ := hcarries
    exact ⟨h1, h2, h3, h4, h5⟩
  | gotDevice ptr size ctx dev =>
    simp only [hpc, Option.some.injEq] at h
    subst h
    rw [hpc] at hcarries
    obtain ⟨hptr, hsize, hctx, -, -⟩ := hcarries
    cases usable with
    | false =>
      rw [register_off]
      exact inv_register hi hpc (fun _ _ => rfl) (by simp) hi.off
    | true =>
      rw [register_eq hptr hsize hctx]
      refine inv_register hi hpc (fun p hp => by simp [hp]) (fun _ => ?_) (by simp)
      exact ⟨_, Function.update_self .., rfl, rfl, rfl, rfl, rfl⟩
  | freed ptr =>
    simp only [hpc, Option.some.injEq] at h
    subst h
    exact inv_unregister hi hpc (by simpa [Clear, hpc] using hclear)

theorem Inv.step (hi : Inv usable s) {a : Act T} (hclear : Clear s a)
    (h : step usable s a = some s') : Inv usable s' := by
  cases a with
  | setCurrent t ctx dev =>
    obtain ⟨hpc, rfl⟩ : s.pc t = .idle ∧ _ = s' := by simpa [ManagedMemory.step] using h
    exact inv_setCurrent hi hpc _
  | memAllocManaged t ptr size =>
    obtain ⟨⟨hpc, hfree, hptr, hsize, hctx⟩, rfl⟩ : _ ∧ _ = s' := by
      simpa [ManagedMemory.step] using h
    exact inv_allocManaged hi hpc hfree hptr hsize hctx
  | memAlloc t ptr size =>
    obtain ⟨⟨-, hfree, hptr, -, -⟩, rfl⟩ : _ ∧ _ = s' := by simpa [ManagedMemory.step] using h
    exact inv_alloc hi hfree hptr
  | memFree t ptr =>
    obtain ⟨⟨hpc, hlive, hret⟩, rfl⟩ : _ ∧ _ = s' := by simpa [ManagedMemory.step] using h
    exact inv_free hi hpc hlive hret
  | call t => exact hi.call hclear h

omit [DecidableEq T] in
theorem inv_init : Inv usable (init : State T) where
  carries _ := trivial
  alone _ _ _ h := by simp [init, Pc.allocating] at h
  inCall _ _ h := by simp [init] at h
  tracked _ _ _ h := by simp [init] at h
  stale _ _ h := by simp [init] at h
  off _ _ := rfl
  nonnull := ⟨rfl, by simp [init]⟩

/-! ## Between the calls -/

/-- What the registry is to have under an address. -/
def State.expected (usable : Bool) (s : State T) (ptr : CUdeviceptr) :
    Option (Nat × CUcontext × CUdevice) :=
  if usable then (s.managed ptr).map fun a => (a.size, a.context, a.device) else none

def State.tracking (s : State T) (ptr : CUdeviceptr) : Option (Nat × CUcontext × CUdevice) :=
  (s.regions ptr).map fun r => (r.size, r.context, r.device)

omit [DecidableEq T] in
theorem Inv.exact (hi : Inv usable s) (hidle : ∀ t, s.pc t = .idle) (ptr : CUdeviceptr) :
    s.tracking ptr = s.expected usable ptr := by
  unfold State.tracking State.expected
  cases usable with
  | false => simp [hi.off rfl ptr]
  | true =>
    have hreturned : ∀ a, s.memory ptr = some a → s.returned ptr = true := by
      intro a ha
      by_contra hr
      obtain ⟨t, ht⟩ := hi.inCall ptr a ha (by simpa using hr)
      simp [hidle, Pc.allocating] at ht
    cases hm : s.managed ptr with
    | none =>
      cases hr : s.regions ptr with
      | none => rfl
      | some r =>
        obtain ⟨-, ⟨a, ha, hman, -⟩ | ⟨t, ht⟩⟩ := hi.stale ptr r hr
        · simp [State.managed, ha, hman] at hm
        · simp [hidle] at ht
    | some a =>
      obtain ⟨ha, hman⟩ : s.memory ptr = some a ∧ a.managed = true := by
        simpa [State.managed] using hm
      obtain ⟨r, hr, -, -, hsize, hctx, hdev⟩ := hi.tracked rfl ptr a ha hman (hreturned a ha)
      simp [hr, hsize, hctx, hdev]

/-- **The registry is exact.** While every removal of a region is `Clear`, the
registry has the managed allocations and nothing else whenever no call is in
progress. -/
theorem tracking_exact {s : State T}
    (hr : ((system T usable).restrict Clear).Reachable s) (hidle : ∀ t, s.pc t = .idle) :
    s.tracking = s.expected usable := by
  have hi : Inv usable s := LTS.Inductive.reachable
    ⟨fun _ h => h ▸ inv_init, fun _ _ _ hi h => hi.step h.2 h.1⟩ s hr
  exact funext (hi.exact hidle)

instance (s : State T) (a : Act T) : Decidable (Clear s a) :=
  match a with
  | .call t =>
    match h : s.pc t with
    | .freed ptr =>
      decidable_of_iff (s.managed ptr = none ∨ s.returned ptr = false) (by simp [Clear, h])
    | .idle | .allocated _ _ | .gotContext _ _ _ | .gotDevice _ _ _ _ =>
      .isTrue (by simp [Clear, h])
  | .setCurrent _ _ _ | .memAllocManaged _ _ _ | .memAlloc _ _ _ | .memFree _ _ => .isTrue trivial

end Invariant

theorem idle_of_both {s : State Bool} (ht : s.pc true = .idle) (hf : s.pc false = .idle) :
    ∀ t, s.pc t = .idle
  | true => ht
  | false => hf

/-- An address is freed and allocated again with another size; the first thread
removes its region before the second registers. -/
theorem tracking_exact_reuse :
    ∃ s, ((system Bool true).restrict Clear).Reachable s ∧ (∀ t, s.pc t = .idle) ∧
      s.tracking = s.expected true ∧ s.tracking 4096 = some (20, 2, 0) := by
  have htrace : ((LTS.exec (LTS.guarded Clear (step true)) init
      [.setCurrent true 1 0, .setCurrent false 2 0, .memAllocManaged true 4096 10, .call true,
        .call true, .call true, .memFree true 4096, .memAllocManaged false 4096 20, .call false,
        .call true, .call false, .call false]).map
      fun s => (s.pc true, s.pc false, s.tracking 4096)) =
      some (.idle, .idle, some (20, 2, 0)) := by
    decide
  obtain ⟨s, hs, he⟩ := Option.map_eq_some_iff.1 htrace
  simp only [Prod.mk.injEq] at he
  have hr : ((system Bool true).restrict Clear).Reachable s :=
    LTS.reachable_restrict_of_exec rfl hs
  have hidle := idle_of_both he.1 he.2.1
  exact ⟨s, hr, hidle, tracking_exact hr hidle, he.2.2⟩

/-- **A region lost.** The second thread gets the address that the first has freed
and registers it before the first removes its region. -/
theorem tracking_lost :
    ∃ s, (system Bool true).Reachable s ∧ (∀ t, s.pc t = .idle) ∧
      s.tracking 4096 = none ∧ s.expected true 4096 = some (20, 2, 0) := by
  have htrace : ((LTS.exec (step true) init
      [.setCurrent true 1 0, .setCurrent false 2 0, .memAllocManaged true 4096 10, .call true,
        .call true, .call true, .memFree true 4096, .memAllocManaged false 4096 20, .call false,
        .call false, .call false, .call true]).map
      fun s => (s.pc true, s.pc false, s.tracking 4096, s.expected true 4096)) =
      some (.idle, .idle, none, some (20, 2, 0)) := rfl
  obtain ⟨s, hs, he⟩ := Option.map_eq_some_iff.1 htrace
  simp only [Prod.mk.injEq] at he
  exact ⟨s, LTS.reachable_of_exec rfl hs, idle_of_both he.1 he.2.1, he.2.2⟩

end ManagedMemory
end Xsched.Cuda
