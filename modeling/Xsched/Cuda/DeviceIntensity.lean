import Mathlib.Algebra.Order.Ring.Rat
import Mathlib.Data.List.Basic
import Mathlib.Tactic.NormNum
import Xsched.HbSplit.Ptx
import Xsched.Sched.HintPolicies

/-!
# The intensity of a device

Before it submits a kernel, the CUDA shim of a process estimates from the kernel's
name how much memory bandwidth the kernel uses. It sends the estimate to the
scheduler as a hint for the device, unless it has sent one for the device that is
as good as the same. The interference-aware policy keeps the hint it received last
for each device.

Any number of processes share the scheduler and the devices. The hints of a process
arrive in the order in which it sent them, those of different processes in any
order.

**The break.** What a process compares its estimate with is what it has sent itself,
while the policy keeps one value for all of them. After another process has changed
that, the process says nothing.

**Results**
* `intensity_iff`: however the hints in flight are delivered, from every state of a
  run on, the policy ends with the estimate of the last kernel for each device, if
  and only if at each submission what the other processes have in flight for the
  device agrees with the estimate and, where the shim suppresses its hint and none is
  in flight, so does what the policy keeps (`Agrees`).
-/
namespace Xsched.Cuda
namespace DeviceIntensity

open Function (update)
open HbSplit (Text contains)
open Sched (XDevice)
open Sched.InterferenceAwareHeterogeneousPolicy (clampIntensity recvHint)

abbrev CUfunction := Nat

/-! ## The shim -/

def hasPattern (name : Text) (patterns : List String) : Bool :=
  patterns.any fun p => contains p.toList name

/-- mirrors platforms/cuda/shim/src/shim.cpp:35-80 -/
def estimateKernelIntensity (name : Text) : ℚ :=
  if hasPattern name ["conv", "Conv", "gemm", "Gemm", "fft", "FFT", "mma", "warp", "wmma"] then 3 / 10
  else if hasPattern name ["copy", "Copy", "memcpy", "Memcpy", "broadcast", "Broadcast", "relu", "Relu",
    "elementwise", "add_kernel", "mul_kernel"] then 4 / 5
  else if hasPattern name ["embed", "Embed", "gather", "Gather", "scatter"] then 9 / 10
  else if hasPattern name ["softmax", "Softmax", "norm", "Norm"] then 3 / 5
  else 1 / 2

/-- The static variables of the shim. -/
structure Process where
  funcNames : CUfunction → Option Text
  deviceIntensity : XDevice → Option ℚ

/-- The name of a kernel, and the process that has looked it up. `name` answers
`FuncGetName`.
mirrors platforms/cuda/shim/src/shim.cpp:84-92 -/
def Process.funcName (p : Process) (f : CUfunction) (name : Option Text) : Option (Text × Process) :=
  match p.funcNames f with
  | some name => some (name, p)
  | none => name.map fun name => (name, { p with funcNames := update p.funcNames f (some name) })

/-- `|a - b| > 0.05` -/
def differ (a b : ℚ) : Bool := 1 / 20 < |a - b|

/-- The hint is suppressed where the last one was as good as the same. -/
def Process.suppresses (p : Process) (device : XDevice) (intensity : ℚ) : Bool :=
  (p.deviceIntensity device).any fun sent => !differ sent intensity

variable {P : Type} [DecidableEq P]

/-! ## The system -/

/-- A hint in flight. -/
structure MemoryIntensityHint where
  device : XDevice
  intensity : ℚ
  deriving DecidableEq

structure State (P : Type) where
  process : P → Process
  /-- the hints of a process in flight, the oldest first -/
  channel : P → List MemoryIntensityHint
  policy : Sched.InterferenceAwareHeterogeneousPolicy.State
  /-- ghost: the estimate of the last kernel whose submission sent or suppressed a
  hint for the device -/
  last : XDevice → Option ℚ

inductive Act (P : Type) where
  | submit (p : P) (f : CUfunction) (name : Option Text) (device : XDevice)
  | deliver (p : P)

def init : State P where
  process := fun _ => ⟨fun _ => none, fun _ => none⟩
  channel := fun _ => []
  policy := ⟨fun _ => none, fun _ => none⟩
  last := fun _ => none

/-- mirrors platforms/cuda/shim/src/shim.cpp:82-100 -/
def updateDeviceIntensity (s : State P) (p : P) (f : CUfunction) (name : Option Text)
    (device : XDevice) : State P :=
  match (s.process p).funcName f name with
  | none => s
  | some (name, process) =>
    let intensity := estimateKernelIntensity name
    let last := update s.last device (some intensity)
    if process.suppresses device intensity then
      { s with process := update s.process p process, last }
    else
      { s with
        process := update s.process p
          { process with deviceIntensity := update process.deviceIntensity device (some intensity) }
        channel := update s.channel p (s.channel p ++ [⟨device, intensity⟩])
        last }

def step (s : State P) : Act P → Option (State P)
  | .submit p f name device => some (updateDeviceIntensity s p f name device)
  | .deliver p =>
    match s.channel p with
    | [] => none
    | h :: rest =>
      some { s with
             channel := update s.channel p rest
             policy := recvHint s.policy (.memoryIntensity h.device h.intensity) }

/-! ## What is to hold -/

def Drained (s : State P) : Prop := ∀ p, s.channel p = []

/-- The policy keeps an intensity for the device that agrees with this one. -/
def Keeps (s : State P) (device : XDevice) (intensity : ℚ) : Prop :=
  ∃ kept, s.policy.deviceIntensities device = some kept ∧ differ kept intensity = false

/-- The policy has the estimate of the last kernel of each device. -/
def Reached (s : State P) : Prop :=
  ∀ device intensity, s.last device = some intensity → Keeps s device intensity

/-- However the hints in flight are delivered. -/
def Follows (s : State P) : Prop :=
  ∀ (ps : List P) u, LTS.exec step s (ps.map Act.deliver) = some u → Drained u → Reached u

/-- The process has a hint for the device in flight. -/
def InFlight (s : State P) (p : P) (device : XDevice) : Prop :=
  ∃ h ∈ s.channel p, h.device = device

/-- The last the process has sent for the device agrees with the intensity. -/
def Said (s : State P) (p : P) (device : XDevice) (intensity : ℚ) : Prop :=
  ∃ sent, (s.process p).deviceIntensity device = some sent ∧ differ sent intensity = false

/-- At a submission: what others have in flight for the device agrees with the
estimate, and, if the hint is suppressed and none for the device is in flight, so does
what the policy keeps. -/
def Agrees (s : State P) (a : Act P) : Prop :=
  ∀ p f name device, a = .submit p f name device →
    ∀ name' process, (s.process p).funcName f name = some (name', process) →
      (∀ q ≠ p, InFlight s q device → Said s q device (estimateKernelIntensity name')) ∧
      (Said s p device (estimateKernelIntensity name') →
        (∀ q, ¬ InFlight s q device) → Keeps s device (estimateKernelIntensity name'))

/-! ## The hints in flight -/

/-- The intensities of the hints for a device. -/
def intensities (hs : List MemoryIntensityHint) (device : XDevice) : List ℚ :=
  hs.filterMap fun h => if h.device = device then some h.intensity else none

@[simp] theorem intensities_nil (device : XDevice) : intensities [] device = [] := rfl

@[simp] theorem intensities_cons_self (device : XDevice) (intensity : ℚ)
    (hs : List MemoryIntensityHint) :
    intensities (⟨device, intensity⟩ :: hs) device = intensity :: intensities hs device := by
  simp [intensities]

theorem intensities_cons_of_ne {h : MemoryIntensityHint} {device : XDevice}
    (hne : h.device ≠ device) (hs : List MemoryIntensityHint) :
    intensities (h :: hs) device = intensities hs device := by
  simp [intensities, hne]

theorem intensities_append (hs hs' : List MemoryIntensityHint) (device : XDevice) :
    intensities (hs ++ hs') device = intensities hs device ++ intensities hs' device :=
  List.filterMap_append

omit [DecidableEq P] in
theorem inFlight_iff {s : State P} {p : P} {device : XDevice} :
    InFlight s p device ↔ intensities (s.channel p) device ≠ [] := by
  simp [InFlight, intensities, List.filterMap_eq_nil_iff]

/-- What is in flight came from a process that remembers the last of it, and only
finitely many processes have something in flight. -/
structure Inv (s : State P) : Prop where
  unit : ∀ p, ∀ h ∈ s.channel p, 0 ≤ h.intensity ∧ h.intensity ≤ 1
  newest : ∀ p device v, (intensities (s.channel p) device).getLast? = some v →
    (s.process p).deviceIntensity device = some v
  senders : ∃ ps : List P, ∀ p, s.channel p ≠ [] → p ∈ ps

theorem estimate_unit (name : Text) :
    0 ≤ estimateKernelIntensity name ∧ estimateKernelIntensity name ≤ 1 := by
  unfold estimateKernelIntensity
  split_ifs <;> norm_num

theorem clampIntensity_unit {v : ℚ} (h0 : 0 ≤ v) (h1 : v ≤ 1) : clampIntensity v = v := by
  simp [clampIntensity, not_lt.2 h0, not_lt.2 h1]

/-! ## One submission -/

omit [DecidableEq P] in
theorem funcName_suppresses {s : State P} {p : P} {p' : Process} {f : CUfunction}
    {name : Option Text} {name' : Text} (h : (s.process p).funcName f name = some (name', p')) :
    p'.deviceIntensity = (s.process p).deviceIntensity ∧
      ∀ device v, p'.suppresses device v = true ↔ Said s p device v := by
  have hd : p'.deviceIntensity = (s.process p).deviceIntensity := by
    unfold Process.funcName at h
    split at h
    · cases h; rfl
    · obtain ⟨n, -, he⟩ := Option.map_eq_some_iff.1 h
      cases he; rfl
  refine ⟨hd, fun device v => ?_⟩
  simp [Process.suppresses, Said, hd, Option.any_eq_true]

/-- A submission that sends a hint, or suppresses it. -/
structure Submitted (s : State P) (p : P) (device : XDevice) (v : ℚ) (s' : State P) : Prop where
  last : s'.last = update s.last device (some v)
  policy : s'.policy = s.policy
  process_ne : ∀ q ≠ p, s'.process q = s.process q
  channel_ne : ∀ q ≠ p, s'.channel q = s.channel q
  own : Said s p device v ∧
        (s'.process p).deviceIntensity = (s.process p).deviceIntensity ∧
        s'.channel p = s.channel p ∨
      ¬ Said s p device v ∧
        (s'.process p).deviceIntensity = update (s.process p).deviceIntensity device (some v) ∧
        s'.channel p = s.channel p ++ [⟨device, v⟩]

theorem updateDeviceIntensity_submitted {s : State P} {p : P} {p' : Process} {f : CUfunction}
    {name : Option Text} {name' : Text} (h : (s.process p).funcName f name = some (name', p'))
    (device : XDevice) :
    Submitted s p device (estimateKernelIntensity name')
      (updateDeviceIntensity s p f name device) := by
  obtain ⟨hd, hsup⟩ := funcName_suppresses h
  have hsaid := hsup device (estimateKernelIntensity name')
  cases hs : p'.suppresses device (estimateKernelIntensity name') with
  | true =>
    simp only [updateDeviceIntensity, h, hs, if_true]
    exact
      { last := rfl
        policy := rfl
        process_ne := fun q hq => Function.update_of_ne hq _ _
        channel_ne := fun q _ => rfl
        own := Or.inl ⟨hsaid.1 hs, by simp [hd], rfl⟩ }
  | false =>
    simp only [updateDeviceIntensity, h, hs, Bool.false_eq_true, if_false]
    refine
      { last := rfl
        policy := rfl
        process_ne := fun q hq => Function.update_of_ne hq _ _
        channel_ne := fun q hq => Function.update_of_ne hq _ _
        own := Or.inr ⟨fun hsd => ?_, by simp [hd], Function.update_self ..⟩ }
    rw [hsaid.2 hsd] at hs
    cases hs

theorem updateDeviceIntensity_of_none {s : State P} {p : P} {f : CUfunction}
    {name : Option Text} (h : (s.process p).funcName f name = none) (device : XDevice) :
    updateDeviceIntensity s p f name device = s := by
  simp [updateDeviceIntensity, h]

namespace Submitted
variable {s s' : State P} {p : P} {device : XDevice} {v : ℚ}

omit [DecidableEq P] in
/-- For another device nothing changes. -/
theorem other (h : Submitted s p device v s') {d : XDevice} (hd : d ≠ device) (q : P) :
    intensities (s'.channel q) d = intensities (s.channel q) d ∧
      (s'.process q).deviceIntensity d = (s.process q).deviceIntensity d := by
  by_cases hq : q = p
  · subst hq
    rcases h.own with ⟨-, hproc, hchan⟩ | ⟨-, hproc, hchan⟩
    · rw [hproc, hchan]; exact ⟨rfl, rfl⟩
    · rw [hproc, hchan, intensities_append, intensities_cons_of_ne (Ne.symm hd),
        Function.update_of_ne hd]
      exact ⟨List.append_nil _, rfl⟩
  · rw [h.process_ne q hq, h.channel_ne q hq]
    exact ⟨rfl, rfl⟩

omit [DecidableEq P] in
theorem inv (h : Submitted s p device v s') (hv : 0 ≤ v ∧ v ≤ 1) (hi : Inv s) : Inv s' where
  unit q hint hmem := by
    by_cases hq : q = p
    · subst hq
      rcases h.own with ⟨-, -, hchan⟩ | ⟨-, -, hchan⟩
      · rw [hchan] at hmem
        exact hi.unit q hint hmem
      · rw [hchan, List.mem_append, List.mem_singleton] at hmem
        rcases hmem with hmem | rfl
        · exact hi.unit q hint hmem
        · exact hv
    · rw [h.channel_ne q hq] at hmem
      exact hi.unit q hint hmem
  newest q d w hw := by
    by_cases hd : d = device
    · subst hd
      by_cases hq : q = p
      · subst hq
        rcases h.own with ⟨-, hproc, hchan⟩ | ⟨-, hproc, hchan⟩
        · rw [hchan] at hw
          rw [hproc]
          exact hi.newest q d w hw
        · rw [hchan, intensities_append, intensities_cons_self, intensities_nil,
            List.getLast?_concat] at hw
          rw [hproc, Function.update_self, hw]
      · rw [h.channel_ne q hq] at hw
        rw [h.process_ne q hq]
        exact hi.newest q d w hw
    · obtain ⟨hints, hcache⟩ := h.other hd q
      rw [hints] at hw
      rw [hcache]
      exact hi.newest q d w hw
  senders := by
    obtain ⟨ps, hps⟩ := hi.senders
    refine ⟨p :: ps, fun q hq => ?_⟩
    by_cases hqp : q = p
    · exact hqp ▸ List.mem_cons_self ..
    · rw [h.channel_ne q hqp] at hq
      exact List.mem_cons_of_mem _ (hps q hq)

end Submitted

/-! ## Delivery -/

/-- One hint delivered. -/
structure DeliveredOne (s : State P) (p : P) (device : XDevice) (v : ℚ)
    (rest : List MemoryIntensityHint) (s' : State P) : Prop where
  head : s.channel p = ⟨device, v⟩ :: rest
  last : s'.last = s.last
  process : s'.process = s.process
  channel : s'.channel = update s.channel p rest
  policy : s'.policy.deviceIntensities =
    update s.policy.deviceIntensities device (some (clampIntensity v))

theorem step_deliver {s s' : State P} {p : P} (h : step s (.deliver p) = some s') :
    ∃ device v rest, DeliveredOne s p device v rest s' := by
  cases hc : s.channel p with
  | nil =>
    simp only [step, hc] at h
    cases h
  | cons hint rest =>
    simp only [step, hc] at h
    cases h
    exact ⟨hint.device, hint.intensity, rest, hc, rfl, rfl, rfl, rfl⟩

theorem exists_step_deliver {s : State P} {p : P} {device : XDevice} {v : ℚ}
    {rest : List MemoryIntensityHint} (hc : s.channel p = ⟨device, v⟩ :: rest) :
    ∃ s', step s (.deliver p) = some s' ∧ DeliveredOne s p device v rest s' := by
  refine ⟨{ s with
             channel := update s.channel p rest
             policy := recvHint s.policy (.memoryIntensity device v) }, ?_, hc, rfl, rfl, rfl, rfl⟩
  simp only [step, hc]

theorem DeliveredOne.suffix {s s' : State P} {p : P} {device : XDevice} {v : ℚ}
    {rest : List MemoryIntensityHint} (h : DeliveredOne s p device v rest s') (q : P) :
    s'.channel q <:+ s.channel q := by
  by_cases hq : q = p
  · subst hq
    rw [h.channel, Function.update_self, h.head]
    exact List.suffix_cons _ _
  · have hsame : s'.channel q = s.channel q := by rw [h.channel, Function.update_of_ne hq]
    exact hsame ▸ List.suffix_rfl

/-- The channels lose nothing for another device. -/
theorem DeliveredOne.other {s s' : State P} {p : P} {device d : XDevice} {v : ℚ}
    {rest : List MemoryIntensityHint} (h : DeliveredOne s p device v rest s') (hd : device ≠ d)
    (q : P) : intensities (s'.channel q) d = intensities (s.channel q) d := by
  rw [h.channel]
  by_cases hq : q = p
  · subst hq
    rw [Function.update_self, h.head, intensities_cons_of_ne hd]
  · rw [Function.update_of_ne hq]

theorem Inv.deliver {s s' : State P} {p : P} (hi : Inv s) (h : step s (.deliver p) = some s') :
    Inv s' := by
  obtain ⟨device, v, rest, hd⟩ := step_deliver h
  refine ⟨fun q k hk => hi.unit q k ((hd.suffix q).subset hk), fun q d w hw => ?_, ?_⟩
  · -- the newest hint of a shorter channel is the newest of the channel
    obtain ⟨front, hfront⟩ := hd.suffix q
    rw [hd.process]
    refine hi.newest q d w ?_
    rw [← hfront, intensities_append, List.getLast?_append, hw]
    rfl
  · obtain ⟨ps, hps⟩ := hi.senders
    exact ⟨ps, fun q hq => hps q fun he => hq (List.suffix_nil.1 (he ▸ hd.suffix q))⟩

/-- What the policy keeps after a delivery. -/
theorem DeliveredOne.kept {s s' : State P} {p : P} {device : XDevice} {v : ℚ}
    {rest : List MemoryIntensityHint} (hi : Inv s) (h : DeliveredOne s p device v rest s') :
    s'.policy.deviceIntensities device = some v := by
  obtain ⟨h0, h1⟩ := hi.unit p ⟨device, v⟩ (h.head ▸ List.mem_cons_self ..)
  rw [h.policy, Function.update_self, clampIntensity_unit h0 h1]

/-- The hints of one channel, delivered. -/
structure Delivered (s : State P) (p : P) (s' : State P) : Prop where
  last : s'.last = s.last
  process : s'.process = s.process
  channel : s'.channel = update s.channel p []
  policy : ∀ device, s'.policy.deviceIntensities device =
    (intensities (s.channel p) device).getLast?.or (s.policy.deviceIntensities device)

/-- Every channel can be drained by itself. -/
theorem exists_delivered {s : State P} (hi : Inv s) (p : P) :
    ∃ (ps : List P) (s' : State P), LTS.exec step s (ps.map Act.deliver) = some s' ∧
      Delivered s p s' := by
  generalize hl : s.channel p = hs
  induction hs generalizing s with
  | nil =>
    refine ⟨[], s, rfl, rfl, rfl, ?_, fun d => ?_⟩
    · rw [← hl, Function.update_eq_self]
    · rw [hl]; rfl
  | cons hint rest ih =>
    obtain ⟨device, v⟩ := hint
    obtain ⟨s₁, hstep, hone⟩ := exists_step_deliver hl
    obtain ⟨ps, s', hps, hall⟩ := ih (hi.deliver hstep) (by rw [hone.channel, Function.update_self])
    refine ⟨p :: ps, s', ?_, hall.last.trans hone.last, hall.process.trans hone.process, ?_,
      fun d => ?_⟩
    · rw [List.map_cons, LTS.exec, hstep]
      exact hps
    · rw [hall.channel, hone.channel, Function.update_idem]
    · rw [hall.policy, hone.channel, Function.update_self, hl]
      by_cases hd : device = d
      · subst hd
        rw [hone.kept hi, intensities_cons_self, List.getLast?_cons]
        cases (intensities rest device).getLast? <;> rfl
      · rw [intensities_cons_of_ne hd, hone.policy, Function.update_of_ne (Ne.symm hd)]

theorem Inv.deliveries {s s' : State P} (hi : Inv s) {ps : List P}
    (h : LTS.exec step s (ps.map Act.deliver) = some s') : Inv s' := by
  rw [LTS.exec_map] at h
  exact LTS.exec_preserve (fun _ _ _ hi hs => Inv.deliver hi hs) h hi

/-- The hints of some of the channels, delivered. -/
structure DeliveredAll (s : State P) (ps : List P) (s' : State P) : Prop where
  last : s'.last = s.last
  process : s'.process = s.process
  channel : ∀ p, s'.channel p = if p ∈ ps then [] else s.channel p
  policy : ∀ device, (∀ p ∈ ps, intensities (s.channel p) device = []) →
    s'.policy.deviceIntensities device = s.policy.deviceIntensities device

theorem exists_deliveredAll {s : State P} (hi : Inv s) (ps : List P) :
    ∃ (qs : List P) (s' : State P), LTS.exec step s (qs.map Act.deliver) = some s' ∧
      DeliveredAll s ps s' := by
  induction ps generalizing s with
  | nil => exact ⟨[], s, rfl, rfl, rfl, fun p => by simp, fun d _ => rfl⟩
  | cons p ps ih =>
    obtain ⟨qs₁, s₁, h₁, hd₁⟩ := exists_delivered hi p
    obtain ⟨qs₂, s₂, h₂, hd₂⟩ := ih (hi.deliveries h₁)
    refine ⟨qs₁ ++ qs₂, s₂, ?_, hd₂.last.trans hd₁.last, hd₂.process.trans hd₁.process,
      fun q => ?_, fun d hnone => ?_⟩
    · rw [List.map_append, LTS.exec_append h₁, h₂]
    · rw [hd₂.channel, hd₁.channel]
      by_cases hq : q = p
      · subst hq
        simp
      · simp [hq]
    · have hp := hnone p (List.mem_cons_self ..)
      rw [hd₂.policy, hd₁.policy, hp]
      · rfl
      · intro q hq
        rw [hd₁.channel]
        by_cases hqp : q = p
        · rw [hqp, Function.update_self]; rfl
        · rw [Function.update_of_ne hqp]
          exact hnone q (List.mem_cons_of_mem _ hq)

/-! ## When the policy follows -/

/-- What is in flight for a device agrees with the last estimate, and so does what the
policy keeps, if nothing is. -/
def Settles (s : State P) (device : XDevice) : Prop :=
  ∀ v, s.last device = some v →
    (∀ q, InFlight s q device → Said s q device v) ∧
      ((∀ q, ¬ InFlight s q device) → Keeps s device v)

theorem Settles.deliver {s s' : State P} {p : P} {d : XDevice} (hi : Inv s)
    (hs : Settles s d) (h : step s (.deliver p) = some s') : Settles s' d := by
  obtain ⟨device, w, rest, hone⟩ := step_deliver h
  intro v hv
  rw [hone.last] at hv
  obtain ⟨hsaid, hkeeps⟩ := hs v hv
  refine ⟨fun q hq => ?_, fun hnone => ?_⟩
  · obtain ⟨k, hk, hkd⟩ := hq
    obtain ⟨sent, hsent, hagree⟩ := hsaid q ⟨k, (hone.suffix q).subset hk, hkd⟩
    exact ⟨sent, by rw [hone.process, hsent], hagree⟩
  by_cases hd : device = d
  · -- it was the last in flight, so it is the one its process remembers
    subst hd
    have hlast : intensities rest device = [] := by
      by_contra hne
      refine hnone p (inFlight_iff.2 ?_)
      rwa [hone.channel, Function.update_self]
    have hnew := hi.newest p device w (by rw [hone.head, intensities_cons_self, hlast]; rfl)
    obtain ⟨sent, hsent, hagree⟩ := hsaid p ⟨_, hone.head ▸ List.mem_cons_self .., rfl⟩
    cases hnew.symm.trans hsent
    exact ⟨w, hone.kept hi, hagree⟩
  · obtain ⟨kept, hkept, hagree⟩ := hkeeps fun q hq => by
      refine hnone q (inFlight_iff.2 ?_)
      rw [hone.other hd]
      exact inFlight_iff.1 hq
    exact ⟨kept, by rw [hone.policy, Function.update_of_ne (Ne.symm hd), hkept], hagree⟩

theorem Settles.deliveries {s s' : State P} {device : XDevice} (hi : Inv s)
    (hs : Settles s device) {ps : List P}
    (h : LTS.exec step s (ps.map Act.deliver) = some s') : Settles s' device := by
  rw [LTS.exec_map] at h
  have hboth : Inv s' ∧ Settles s' device :=
    LTS.exec_preserve (I := fun s => Inv s ∧ Settles s device)
      (fun _ _ _ hi hs => ⟨hi.1.deliver hs, hi.2.deliver hi.1 hs⟩) h ⟨hi, hs⟩
  exact hboth.2

theorem follows_iff {s : State P} (hi : Inv s) : Follows s ↔ ∀ device, Settles s device := by
  constructor
  · intro hf device v hv
    obtain ⟨ps, hps⟩ := hi.senders
    refine ⟨fun q hq => ?_, fun hnone => ?_⟩
    · -- the others' hints first, then those of this process
      obtain ⟨qs₁, s₁, h₁, hd₁⟩ := exists_deliveredAll hi (ps.filter (· ≠ q))
      obtain ⟨qs₂, s₂, h₂, hd₂⟩ := exists_delivered (hi.deliveries h₁) q
      have hown : s₁.channel q = s.channel q := by rw [hd₁.channel]; simp
      have hdrained : Drained s₂ := by
        intro p
        rw [hd₂.channel]
        by_cases hpq : p = q
        · rw [hpq, Function.update_self]
        · rw [Function.update_of_ne hpq, hd₁.channel]
          by_cases hp : s.channel p = []
          · rw [hp, ite_self]
          · exact if_pos (List.mem_filter.2 ⟨hps p hp, by simpa using hpq⟩)
      have hexec : LTS.exec step s ((qs₁ ++ qs₂).map Act.deliver) = some s₂ := by
        rw [List.map_append, LTS.exec_append h₁, h₂]
      obtain ⟨kept, hkept, hagree⟩ := hf _ s₂ hexec hdrained device v
        (by rw [hd₂.last, hd₁.last, hv])
      have hw := List.getLast?_eq_some_getLast (inFlight_iff.1 hq)
      rw [hd₂.policy, hown, hw] at hkept
      cases hkept
      exact ⟨_, hi.newest q device _ hw, hagree⟩
    · obtain ⟨qs, s₁, h₁, hd₁⟩ := exists_deliveredAll hi ps
      have hdrained : Drained s₁ := by
        intro p
        rw [hd₁.channel]
        by_cases hp : s.channel p = []
        · rw [hp, ite_self]
        · exact if_pos (hps p hp)
      obtain ⟨kept, hkept, hagree⟩ := hf qs s₁ h₁ hdrained device v (by rw [hd₁.last, hv])
      refine ⟨kept, ?_, hagree⟩
      rw [← hd₁.policy device fun p _ => ?_]
      · exact hkept
      · by_contra hne
        exact hnone p (inFlight_iff.2 hne)
  · intro hs ps u hu hd device v hv
    refine ((hs device).deliveries hi hu v hv).2 fun q hq => ?_
    obtain ⟨h, hmem, -⟩ := hq
    rw [hd q] at hmem
    cases hmem

namespace Submitted
variable {s s' : State P} {p : P} {device : XDevice} {v : ℚ}

omit [DecidableEq P] in
theorem settles_other (h : Submitted s p device v s') {d : XDevice} (hd : d ≠ device) :
    Settles s' d ↔ Settles s d := by
  have hin : ∀ q, InFlight s' q d ↔ InFlight s q d := fun q => by
    rw [inFlight_iff, inFlight_iff, (h.other hd q).1]
  have hsaid : ∀ q w, Said s' q d w ↔ Said s q d w := fun q w => by
    rw [Said, Said, (h.other hd q).2]
  simp only [Settles, hin, hsaid, Keeps, h.policy, h.last, Function.update_of_ne hd]

omit [DecidableEq P] in
/-- For the kernel's device, the policy follows if the others agree. -/
theorem settles_iff (h : Submitted s p device v s') :
    Settles s' device ↔ (∀ q ≠ p, InFlight s q device → Said s q device v) ∧
      (Said s p device v → (∀ q, ¬ InFlight s q device) → Keeps s device v) := by
  have hin : ∀ q ≠ p, (InFlight s' q device ↔ InFlight s q device) := fun q hq => by
    rw [InFlight, h.channel_ne q hq, InFlight]
  have hsaid : ∀ q ≠ p, (Said s' q device v ↔ Said s q device v) := fun q hq => by
    rw [Said, h.process_ne q hq, Said]
  have hkeeps : Keeps s' device v ↔ Keeps s device v := by rw [Keeps, h.policy, Keeps]
  have hlast : s'.last device = some v := by rw [h.last, Function.update_self]
  have hset : Settles s' device ↔ (∀ q, InFlight s' q device → Said s' q device v) ∧
      ((∀ q, ¬ InFlight s' q device) → Keeps s' device v) :=
    ⟨fun hs => hs v hlast, fun hs w hw => by cases hlast.symm.trans hw; exact hs⟩
  rw [hset, hkeeps]
  rcases h.own with ⟨hsd, hproc, hchan⟩ | ⟨hsd, hproc, hchan⟩
  · -- suppressed: the own channel and what it remembers are as before
    have hsd' : Said s' p device v := by rwa [Said, hproc]
    have hin' : ∀ q, InFlight s' q device ↔ InFlight s q device := fun q => by
      by_cases hq : q = p
      · rw [hq, InFlight, hchan, InFlight]
      · exact hin q hq
    simp only [hin']
    refine and_congr ⟨fun hs q hq hf => (hsaid q hq).1 (hs q hf), fun hs q hf => ?_⟩
      ⟨fun hk _ => hk, fun hk => hk hsd⟩
    by_cases hq : q = p
    · exact hq ▸ hsd'
    · exact (hsaid q hq).2 (hs q hq hf)
  · have hsd' : Said s' p device v :=
      ⟨v, by rw [hproc, Function.update_self], by simp [differ]⟩
    have hsent : InFlight s' p device :=
      ⟨_, hchan ▸ List.mem_append_right _ (List.mem_singleton_self _), rfl⟩
    refine and_congr ⟨fun hs q hq hf => (hsaid q hq).1 (hs q ((hin q hq).2 hf)),
      fun hs q hf => ?_⟩ ⟨fun _ hsd₁ => absurd hsd₁ hsd, fun _ hnone => absurd hsent (hnone p)⟩
    by_cases hq : q = p
    · exact hq ▸ hsd'
    · exact (hsaid q hq).2 (hs q hq ((hin q hq).1 hf))

end Submitted

omit [DecidableEq P] in
theorem inv_init : Inv (init : State P) where
  unit _ _ h := nomatch h
  newest _ _ _ h := nomatch h
  senders := ⟨[], fun _ h => absurd rfl h⟩

theorem inv_of_reachable {s : State P} (hr : (LTS.ofFn (· = init) step).Reachable s) : Inv s := by
  refine LTS.reachable_induction (I := Inv) (fun s hs => hs ▸ inv_init) ?_ hr
  intro s a s' _ hi hs
  cases a with
  | deliver p => exact hi.deliver hs
  | submit p f name device =>
    cases hs
    cases hn : (s.process p).funcName f name with
    | none => rwa [updateDeviceIntensity_of_none hn]
    | some np =>
      obtain ⟨name', process⟩ := np
      exact (updateDeviceIntensity_submitted hn device).inv (estimate_unit name') hi

/-- While the policy follows, a step lets it follow if and only if it agrees. -/
theorem follows_step {s s' : State P} {a : Act P} (hi : Inv s) (hf : Follows s)
    (hs : step s a = some s') : Follows s' ↔ Agrees s a := by
  cases a with
  | deliver p =>
    refine iff_of_true (fun ps u hu => hf (p :: ps) u ?_) fun _ _ _ _ ha => nomatch ha
    rw [List.map_cons, LTS.exec, hs]
    exact hu
  | submit p f name device =>
    cases hs
    cases hn : (s.process p).funcName f name with
    | none =>
      rw [updateDeviceIntensity_of_none hn]
      refine iff_of_true hf fun p' f' name' device' ha n process hn' => ?_
      cases ha
      rw [hn] at hn'
      cases hn'
    | some np =>
      obtain ⟨name', process⟩ := np
      have hsub := updateDeviceIntensity_submitted hn device
      rw [follows_iff (hsub.inv (estimate_unit name') hi)]
      have hset := (follows_iff hi).1 hf
      constructor
      · intro hall p' f' name₁ device' ha n process' hn'
        cases ha
        rw [hn] at hn'
        cases hn'
        exact (hsub.settles_iff).1 (hall device)
      · intro hag d
        by_cases hd : d = device
        · subst hd
          exact (hsub.settles_iff).2 (hag p f name d rfl name' process hn)
        · exact (hsub.settles_other hd).2 (hset d)

theorem follows_init : Follows (init : State P) := by
  refine (follows_iff inv_init).2 fun d v hv => ?_
  cases hv

/-- In every state of a run the policy follows, if and only if each step of it agrees. -/
theorem intensity_iff (acts : List (Act P)) :
    LTS.Throughout step Follows init acts ↔ LTS.EachStep step Agrees init acts := by
  have hinit : (LTS.ofFn (· = init) (step (P := P))).Reachable init := LTS.reachable_init rfl
  exact LTS.throughout_iff (fun _ _ _ hr hf hs => follows_step (inv_of_reachable hr) hf hs) hinit
    follows_init acts

/-- Two processes alternate on a device: the second kernel of the first one does not
reach the policy. -/
theorem intensity_stale :
    ¬ ∀ (acts : List (Act Bool)) s, LTS.exec step init acts = some s → Drained s → Reached s := by
  intro h
  let conv := some "conv".toList
  let copy := some "copy".toList
  have hexec : ∃ s, LTS.exec step init [.submit false 1 conv 0, .deliver false,
      .submit true 1 copy 0, .deliver true, .submit false 1 conv 0] = some s ∧
      s.channel false = [] ∧ s.channel true = [] ∧ s.last 0 = some (3 / 10) ∧
      s.policy.deviceIntensities 0 = some (4 / 5) :=
    ⟨_, rfl, by decide +kernel, by decide +kernel, by decide +kernel, by decide +kernel⟩
  obtain ⟨s, hs, hf, ht, hlast, hpol⟩ := hexec
  obtain ⟨kept, hkept, hagree⟩ := h _ s hs (fun p => by cases p <;> assumption) 0 _ hlast
  cases hpol.symm.trans hkept
  revert hagree
  decide +kernel

end DeviceIntensity
end Xsched.Cuda
