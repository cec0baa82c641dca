import Mathlib.Algebra.GroupWithZero.Nat
import Mathlib.Data.List.Sort
import Mathlib.Data.Prod.Lex
import Xsched.Preempt.Admission

/-!
# What the suspension of a queue evicts

When a queue is suspended and more than the high watermark is in use, regions of
its context go to the host, from the coldest on, until what had to be freed is
freed. `PostCondition` says so with any way of adding up sizes: it holds with
the sums of `size_t`, and with the true sums as long as those fit in a `size_t`
(`eviction_postcondition`).

`wrapped_sum_evicts_nothing`: two regions of half the address space add up to
nothing, and nothing is evicted.
-/
namespace Xsched.Preempt
namespace Admission

open Sched (XQueueHandle Priority)

variable {B : Type}

/-! ## What an eviction is for -/

/-- The coldest region comes first: that of an inactive owner, then of the lower
priority, then with the older touch, then the larger one. -/
def Registry.coldness (s : Registry B) (r : MemoryRegion B) : Bool ×ₗ Priority ×ₗ ℕ ×ₗ ℕᵒᵈ :=
  toLex (s.ownerActive r, toLex (s.ownerPriority r,
    toLex (r.lastTouch.toNat, OrderDual.toDual r.size.toNat)))

/-- Whether there is a region at `ptr` that is on the device. -/
def Registry.residentAt (s : Registry B) (ptr : Nat) : Bool :=
  s.regions.any fun r => r.ptr = ptr && r.resident

/-- Of the regions in `order`, those in `gone` are just enough for `need`. -/
structure JustEnough (total : List (MemoryRegion B) → Nat) (need : Nat)
    (order gone : List (MemoryRegion B)) : Prop where
  first : gone <+: order
  enough : need ≤ total gone ∨ gone = order
  minimal : ∀ init last, gone = init ++ [last] → total init < need

/-- What has to be freed where `used` bytes are in use. -/
def neededOf (env : Env) (memory : UInt64) (used : Nat) : Nat :=
  let excess := used - (lowWatermark env memory).toNat
  let evictLimit := (mbLimit env kEvictLimitMbEnv 4096).toNat
  if evictLimit ≠ 0 then min excess evictLimit else excess

section
variable [DecidableEq B]

/-- The registry in which the victims are chosen: the queue is suspended and has
adopted the regions of nobody. -/
def Registry.adopted (backend : B) (context : Nat) (device : Int) (queue : XQueueHandle)
    (s : Registry B) : Registry B :=
  (s.suspend backend context device queue).adoptContextRegions backend context device queue

/-- What is to hold between the registries before and after a suspension, on a
device with `memory` bytes of which `free` are free. `total` adds up sizes. -/
def PostCondition (total : List (MemoryRegion B) → Nat) (env : Env) (backend : B) (context : Nat)
    (device : Int) (queue : XQueueHandle) (free memory : UInt64) (s s' : Registry B) : Prop :=
  let used := max (memory.toNat - free.toNat) (total (s.residents backend context device))
  let high := (highWatermark env memory).toNat
  let t := s.adopted backend context device queue
  used ≤ high ∧ (∀ ptr, s'.residentAt ptr = s.residentAt ptr) ∨
    high < used ∧ ∃ order gone, order.Perm (t.residents backend context device) ∧
      (order.Pairwise fun a b => t.coldness a ≤ t.coldness b) ∧
      JustEnough total (neededOf env memory used) order gone ∧
      ∀ ptr, s'.residentAt ptr = (s.residentAt ptr && decide (ptr ∉ gone.map (·.ptr)))

end

/-! ## The order of the victims -/

theorem victimBefore_iff (s : Registry B) (a b : MemoryRegion B) :
    s.victimBefore a b = true ↔ s.coldness a < s.coldness b := by
  unfold Registry.victimBefore Registry.coldness
  simp only [Prod.Lex.toLex_lt_toLex, OrderDual.toDual_lt_toDual]
  split
  · rename_i hact
    cases ha : s.ownerActive a <;> cases hb : s.ownerActive b <;> simp_all
  · rename_i hact
    have hact : s.ownerActive a = s.ownerActive b := Decidable.not_not.1 hact
    split
    · rename_i hprio
      simp [hact, hprio]
    · rename_i hprio
      have hprio : s.ownerPriority a = s.ownerPriority b := Decidable.not_not.1 hprio
      split
      · rename_i htouch
        have htouch : ¬ a.lastTouch.toNat = b.lastTouch.toNat :=
          fun h => htouch (UInt64.toNat_inj.1 h)
        simp [hact, hprio, htouch, UInt64.lt_iff_toNat_lt]
      · rename_i htouch
        have htouch : a.lastTouch = b.lastTouch := Decidable.not_not.1 htouch
        simp [hact, hprio, htouch, UInt64.lt_iff_toNat_lt]

/-- The comparison is one that `std::sort` may be called with. -/
theorem victimBefore_strictWeak (s : Registry B) :
    IsStrictWeakOrder (MemoryRegion B) fun a b => s.victimBefore a b = true := by
  have hstrict : IsStrictOrder (MemoryRegion B) fun a b => s.victimBefore a b = true := by
    refine { irrefl := fun a h => ?_, trans := fun a b c h₁ h₂ => ?_ }
    · exact lt_irrefl _ ((victimBefore_iff s a a).1 h)
    · rw [victimBefore_iff] at h₁ h₂ ⊢
      exact h₁.trans h₂
  refine { hstrict with incomp_trans := fun a b c h₁ h₂ => ?_ }
  simp only [victimBefore_iff, not_lt] at h₁ h₂ ⊢
  exact ⟨h₂.1.trans h₁.1, h₁.2.trans h₂.2⟩

theorem sort_coldness (sort : StdSort (MemoryRegion B)) (s : Registry B)
    (rs : List (MemoryRegion B)) :
    (sort.sort s.victimBefore rs).Pairwise fun a b => s.coldness a ≤ s.coldness b := by
  refine (sort.sorted s.victimBefore rs (victimBefore_strictWeak s)).imp fun {a b} h => ?_
  rw [← not_lt, ← victimBefore_iff, h]
  exact Bool.false_ne_true

/-! ## The loop over the victims -/

section
variable {s : Registry B} {ptr : Nat}

@[simp] theorem evict_ptrs (ptr : Nat) (s : Registry B) :
    (s.evict ptr).regions.map (·.ptr) = s.regions.map (·.ptr) := by
  show (s.regions.map _).map _ = _
  rw [List.map_map]
  refine List.map_congr_left fun r _ => ?_
  show (if r.ptr = ptr then _ else r).ptr = r.ptr
  split <;> rfl

theorem mem_evict {r : MemoryRegion B} (hr : r ∈ s.regions) (hne : r.ptr ≠ ptr) :
    r ∈ (s.evict ptr).regions := by
  refine List.mem_map.2 ⟨r, hr, ?_⟩
  rw [if_neg hne]

theorem residentAt_evict (q : Nat) :
    (s.evict ptr).residentAt q = (s.residentAt q && decide (q ≠ ptr)) := by
  unfold Registry.residentAt Registry.evict
  rw [List.any_map]
  by_cases hq : q = ptr
  · subst hq
    rw [decide_eq_false (by simp), Bool.and_false, List.any_eq_false]
    intro r _
    show ¬ (decide ((if r.ptr = q then _ else r).ptr = q) && (if r.ptr = q then _ else r).resident)
      = true
    split <;> simp [*]
  · rw [decide_eq_true hq, Bool.and_true]
    refine congrArg (List.any s.regions) (funext fun r => ?_)
    show (decide ((if r.ptr = ptr then _ else r).ptr = q) && (if r.ptr = ptr then _ else r).resident)
      = _
    split
    · rename_i hr
      simp [hr, Ne.symm hq]
    · rfl

/-- All of `gone` are evicted, one after the other. -/
def Registry.evictAll (gone : List (MemoryRegion B)) (s : Registry B) : Registry B :=
  gone.foldl (fun s r => s.evict r.ptr) s

theorem evictAll_ptrs (gone : List (MemoryRegion B)) :
    (s.evictAll gone).regions.map (·.ptr) = s.regions.map (·.ptr) := by
  induction gone generalizing s with
  | nil => rfl
  | cons r gone ih => exact (ih (s := s.evict r.ptr)).trans (evict_ptrs r.ptr s)

theorem mem_evictAll {r : MemoryRegion B} {gone : List (MemoryRegion B)} (hr : r ∈ s.regions)
    (hne : ∀ v ∈ gone, r.ptr ≠ v.ptr) : r ∈ (s.evictAll gone).regions := by
  induction gone generalizing s with
  | nil => exact hr
  | cons v gone ih =>
    exact ih (mem_evict hr (hne v List.mem_cons_self))
      fun w hw => hne w (List.mem_cons_of_mem _ hw)

theorem residentAt_evictAll (gone : List (MemoryRegion B)) (q : Nat) :
    (s.evictAll gone).residentAt q =
      (s.residentAt q && decide (q ∉ gone.map (·.ptr))) := by
  induction gone generalizing s with
  | nil => simp [Registry.evictAll]
  | cons v gone ih =>
    refine (ih (s := s.evict v.ptr)).trans ?_
    rw [residentAt_evict, Bool.and_assoc, ← Bool.decide_and]
    simp [List.mem_cons, not_or]

/-- Where every region can be evicted, the loop evicts until it is enough. -/
theorem evictRegions_eq {api : XpuMemoryBackend} {context : Nat} {device : Int} {need : UInt64}
    (hevict : ∀ ptr size, api.evictToHost context device ptr size = true)
    (rs : List (MemoryRegion B)) (evicted : UInt64) (s : Registry B) :
    evictRegions api context device need rs evicted s =
      s.evictAll (TakeUntil.taken (fun bytes r => bytes + r.size) (fun bytes => need ≤ bytes)
        evicted rs) := by
  induction rs generalizing evicted s with
  | nil => rfl
  | cons r rs ih =>
    rw [evictRegions, TakeUntil.taken, hevict]
    by_cases hneed : need ≤ evicted + r.size
    · simp only [hneed, decide_true, if_true]
      rfl
    · simp only [hneed, decide_false, if_false, Bool.not_true, Bool.false_eq_true, ih]
      rfl

end

/-! ## Adoption -/

/-- What adoption makes of a region: nothing, or it changes hands and is touched. -/
def Adopted (p : MemoryRegion B → Bool) (r r' : MemoryRegion B) : Prop :=
  r' = r ∨ p r = true ∧ ∃ owner touch, r' = { r with owner := owner, lastTouch := touch }

theorem adoptRegions_adopted (p : MemoryRegion B → Bool) (queue : XQueueHandle)
    (rs : List (MemoryRegion B)) (clock : UInt64) :
    List.Forall₂ (Adopted p) rs (adoptRegions p queue rs clock).1 := by
  induction rs generalizing clock with
  | nil => exact .nil
  | cons r rs ih =>
    rw [adoptRegions]
    split
    · rename_i h
      rw [Bool.and_eq_true] at h
      exact .cons (Or.inr ⟨h.1, _, _, rfl⟩) (ih _)
    · exact .cons (Or.inl rfl) (ih _)

/-- What does not look at the owner or at the touch is as before. -/
theorem adopted_congr {β : Type} {p f : MemoryRegion B → Bool} {g : MemoryRegion B → β}
    (hf : ∀ (r : MemoryRegion B) owner touch, f { r with owner := owner, lastTouch := touch } = f r)
    (hg : ∀ (r : MemoryRegion B) owner touch, g { r with owner := owner, lastTouch := touch } = g r)
    {rs rs' : List (MemoryRegion B)} (h : List.Forall₂ (Adopted p) rs rs') :
    (rs'.filter f).map g = (rs.filter f).map g := by
  induction h with
  | nil => rfl
  | @cons r r' rs rs' hr _ ih =>
    have hsame : f r' = f r ∧ g r' = g r := by
      rcases hr with rfl | ⟨-, owner, touch, rfl⟩
      · exact ⟨rfl, rfl⟩
      · exact ⟨hf r owner touch, hg r owner touch⟩
    rw [List.filter_cons, List.filter_cons, hsame.1]
    split
    · rw [List.map_cons, List.map_cons, ih, hsame.2]
    · exact ih

theorem mem_adopted {p : MemoryRegion B → Bool} {rs rs' : List (MemoryRegion B)}
    (h : List.Forall₂ (Adopted p) rs rs') {r : MemoryRegion B} (hr : r ∈ rs) (hp : p r = false) :
    r ∈ rs' := by
  induction h with
  | nil => cases hr
  | cons ha _ ih =>
    rcases List.mem_cons.1 hr with rfl | hr
    · rcases ha with rfl | ⟨hp', -⟩
      · exact List.mem_cons_self
      · rw [hp] at hp'
        cases hp'
    · exact List.mem_cons_of_mem _ (ih hr)

section
variable [DecidableEq B] {backend : B} {context : Nat} {device : Int} {queue : XQueueHandle}
  {s : Registry B}

variable (backend context device queue s) in
theorem regions_adopted : List.Forall₂ (Adopted (·.within backend context device)) s.regions
    (s.adopted backend context device queue).regions := by
  unfold Registry.adopted Registry.adoptContextRegions
  split
  · exact List.forall₂_same.2 fun r _ => Or.inl rfl
  · exact adoptRegions_adopted _ _ _ _

theorem adopted_ptrs :
    (s.adopted backend context device queue).regions.map (·.ptr) = s.regions.map (·.ptr) := by
  have h := adopted_congr (f := fun _ => true) (g := fun r => r.ptr) (fun _ _ _ => rfl)
    (fun _ _ _ => rfl) (regions_adopted backend context device queue s)
  rwa [List.filter_true, List.filter_true] at h

theorem residentAt_adopted (ptr : Nat) :
    (s.adopted backend context device queue).residentAt ptr = s.residentAt ptr := by
  have h := adopted_congr (f := fun _ => true) (g := fun r => decide (r.ptr = ptr) && r.resident)
    (fun _ _ _ => rfl) (fun _ _ _ => rfl) (regions_adopted backend context device queue s)
  rw [List.filter_true, List.filter_true] at h
  have hany := congrArg (List.any · id) h
  simp only [List.any_map] at hany
  exact hany

/-- The sizes of the resident regions of the context. -/
theorem residents_adopted_sizes :
    ((s.adopted backend context device queue).residents backend context device).map (·.size) =
      (s.residents backend context device).map (·.size) :=
  adopted_congr (fun _ _ _ => rfl) (fun _ _ _ => rfl)
    (regions_adopted backend context device queue s)

end

/-! ## Sums of sizes -/

theorem foldl_sizes (rs : List (MemoryRegion B)) (bytes : UInt64) :
    rs.foldl (fun bytes r => bytes + r.size) bytes =
      (rs.map (·.size)).foldl (· + ·) bytes := by
  rw [List.foldl_map]

/-- The true sum. -/
def trueSum (rs : List (MemoryRegion B)) : Nat := (rs.map (·.size.toNat)).sum

theorem sizeSum_toNat (rs : List (MemoryRegion B)) :
    (sizeSum rs).toNat = trueSum rs % 2 ^ 64 := by
  have hfold (bytes : UInt64) : (rs.foldl (fun bytes r => bytes + r.size) bytes).toNat =
      (bytes.toNat + trueSum rs) % 2 ^ 64 := by
    induction rs generalizing bytes with
    | nil =>
      show bytes.toNat = (bytes.toNat + 0) % 2 ^ 64
      rw [Nat.add_zero, Nat.mod_eq_of_lt bytes.toNat_lt]
    | cons r rs ih =>
      rw [List.foldl_cons, ih, UInt64.toNat_add]
      show _ = (bytes.toNat + (r.size.toNat + trueSum rs)) % 2 ^ 64
      omega
  rw [sizeSum, hfold]
  simp

/-- A sum that fits is the true sum. -/
theorem sizeSum_of_fits {rs : List (MemoryRegion B)} (h : trueSum rs < 2 ^ 64) :
    (sizeSum rs).toNat = trueSum rs := by
  rw [sizeSum_toNat, Nat.mod_eq_of_lt h]

theorem trueSum_append (rs rs' : List (MemoryRegion B)) :
    trueSum (rs ++ rs') = trueSum rs + trueSum rs' := by
  rw [trueSum, List.map_append, List.sum_append]
  rfl

theorem trueSum_prefix {rs rs' : List (MemoryRegion B)} (h : rs <+: rs') :
    trueSum rs ≤ trueSum rs' := by
  obtain ⟨post, rfl⟩ := h
  rw [trueSum_append]
  exact Nat.le_add_right _ _

theorem trueSum_perm {rs rs' : List (MemoryRegion B)} (h : rs.Perm rs') :
    trueSum rs = trueSum rs' := (h.map _).sum_nat

theorem trueSum_of_sizes {rs rs' : List (MemoryRegion B)}
    (h : rs.map (·.size) = rs'.map (·.size)) : trueSum rs = trueSum rs' := by
  have h := congrArg (List.map UInt64.toNat) h
  rw [List.map_map, List.map_map] at h
  exact congrArg List.sum h

theorem sizeSum_of_sizes {rs rs' : List (MemoryRegion B)}
    (h : rs.map (·.size) = rs'.map (·.size)) : sizeSum rs = sizeSum rs' := by
  rw [sizeSum, sizeSum, foldl_sizes, foldl_sizes, h]

/-! ## What is needed, and what is taken for it -/

theorem max_toNat (driver tracked : UInt64) :
    (if driver < tracked then tracked else driver).toNat = max driver.toNat tracked.toNat := by
  split
  · rename_i h
    rw [UInt64.lt_iff_toNat_lt] at h
    omega
  · rename_i h
    rw [UInt64.lt_iff_toNat_lt] at h
    omega

theorem neededBytes_toNat (env : Env) (memory used : UInt64) :
    (neededBytes env memory used).toNat = neededOf env memory used.toNat := by
  have hover : (if lowWatermark env memory < used then used - lowWatermark env memory
      else 0).toNat = used.toNat - (lowWatermark env memory).toNat := by
    split
    · rename_i h
      exact UInt64.toNat_sub_of_le _ _ (UInt64.le_of_lt h)
    · rename_i h
      rw [UInt64.lt_iff_toNat_lt] at h
      show 0 = _
      omega
  unfold neededBytes neededOf
  dsimp only
  rw [← hover]
  generalize (if lowWatermark env memory < used then used - lowWatermark env memory else 0) = excess
  by_cases hlimit : mbLimit env kEvictLimitMbEnv 4096 = 0
  · rw [hlimit, if_neg (by simp), if_neg (by simp)]
  · have hne : (mbLimit env kEvictLimitMbEnv 4096).toNat ≠ 0 :=
      fun h => hlimit (UInt64.toNat_inj.1 h)
    rw [if_pos hlimit, if_pos hne]
    split
    · rename_i h
      rw [UInt64.lt_iff_toNat_lt] at h
      omega
    · rename_i h
      rw [UInt64.lt_iff_toNat_lt] at h
      omega

/-- What is evicted where something is. -/
theorem justEnough_taken {need : UInt64} (hneed : need ≠ 0) (order : List (MemoryRegion B)) :
    JustEnough (fun rs => (sizeSum rs).toNat) need.toNat order
      (TakeUntil.taken (fun bytes r => bytes + r.size) (fun bytes => need ≤ bytes) 0 order) := by
  have hzero : decide (need ≤ 0) = false := by
    rw [decide_eq_false_iff_not, UInt64.le_iff_toNat_le]
    have hne : need.toNat ≠ 0 := fun h => hneed (UInt64.toNat_inj.1 h)
    show ¬ need.toNat ≤ 0
    omega
  refine ⟨TakeUntil.taken_prefix, ?_, fun init last he => ?_⟩
  · refine TakeUntil.taken_enough.imp_left fun h => ?_
    rw [decide_eq_true_eq, UInt64.le_iff_toNat_le] at h
    exact h
  · have hminimal := fun h0 => TakeUntil.taken_minimal h0 he
    have h : decide (need ≤ sizeSum init) = false := hminimal hzero
    rw [decide_eq_false_iff_not, UInt64.le_iff_toNat_le] at h
    exact Nat.not_le.1 h

/-! ## The suspension -/

section
variable [DecidableEq B] {env : Env} {backend : B} {context : Nat} {device : Int}
  {queue : XQueueHandle} {free memory : UInt64} {s s' : Registry B}

/-- Two ways of adding up that agree on what is added up. -/
theorem PostCondition.congr {total total' : List (MemoryRegion B) → Nat}
    (h : PostCondition total env backend context device queue free memory s s')
    (hres : total' (s.residents backend context device) =
      total (s.residents backend context device))
    (hpre : ∀ order part, order.Perm
        ((s.adopted backend context device queue).residents backend context device) →
      part <+: order → total' part = total part) :
    PostCondition total' env backend context device queue free memory s s' := by
  unfold PostCondition at h ⊢
  rw [hres]
  refine h.imp_right ?_
  rintro ⟨hused, order, gone, hperm, hsorted, ⟨hfirst, henough, hminimal⟩, hafter⟩
  refine ⟨hused, order, gone, hperm, hsorted, ⟨hfirst, ?_, fun init last he => ?_⟩, hafter⟩
  · rw [hpre order gone hperm hfirst]
    exact henough
  · have hinit : init <+: order := by
      refine List.IsPrefix.trans ?_ hfirst
      rw [he]
      exact List.prefix_append _ _
    rw [hpre order init hperm hinit]
    exact hminimal init last he

/-- The suspension of a queue in an admitted context, from the adoption on. -/
theorem onQueueSuspend_eq (sort : StdSort (MemoryRegion B)) {api : B → XpuMemoryBackend}
    (hadmits : admits env (api backend) context = true)
    (hquery : (api backend).queryMemory context device = some (free, memory)) (hne : memory ≠ 0)
    {t : Registry B} (ht : t = s.adopted backend context device queue) {used need : UInt64}
    (hused : used = if memory - free < t.trackedResidentBytes backend context device
      then t.trackedResidentBytes backend context device else memory - free)
    (hneed : need = neededBytes env memory used) :
    s.onQueueSuspend sort env api backend context device queue =
      if used ≤ highWatermark env memory then t
      else if need = 0 then t
      else evictRegions (api backend) context device need
        (sort.sort t.victimBefore (t.residents backend context device)) 0 t := by
  subst hneed hused ht
  unfold Registry.onQueueSuspend
  rw [if_pos hadmits]
  simp only [hquery, if_neg hne]
  rfl

/-- The suspension, with the sums of `size_t`. -/
theorem suspend_postcondition (sort : StdSort (MemoryRegion B)) {api : B → XpuMemoryBackend}
    (hadmits : admits env (api backend) context = true)
    (hquery : (api backend).queryMemory context device = some (free, memory))
    (hfree : free ≤ memory) (hmemory : 0 < memory)
    (hevict : ∀ ptr size, (api backend).evictToHost context device ptr size = true) :
    PostCondition (fun rs => (sizeSum rs).toNat) env backend context device queue free memory s
      (s.onQueueSuspend sort env api backend context device queue) := by
  have htracked : (s.adopted backend context device queue).trackedResidentBytes backend context
      device = sizeSum (s.residents backend context device) :=
    sizeSum_of_sizes residents_adopted_sizes
  have hne : memory ≠ 0 := by
    rintro rfl
    exact absurd hmemory (by decide)
  have hdriver : (memory - free).toNat = memory.toNat - free.toNat :=
    UInt64.toNat_sub_of_le _ _ hfree
  have hused := max_toNat (memory - free) (sizeSum (s.residents backend context device))
  rw [hdriver] at hused
  generalize hu : (if memory - free < sizeSum (s.residents backend context device) then
    sizeSum (s.residents backend context device) else memory - free) = used at hused
  rw [onQueueSuspend_eq sort hadmits hquery hne rfl (by rw [htracked, hu]) rfl]
  unfold PostCondition
  dsimp only
  rw [← hused]
  by_cases hhigh : used ≤ highWatermark env memory
  · rw [if_pos hhigh]
    exact Or.inl ⟨UInt64.le_iff_toNat_le.1 hhigh, residentAt_adopted⟩
  · rw [if_neg hhigh]
    rw [UInt64.le_iff_toNat_le, Nat.not_le] at hhigh
    have hperm := sort.perm (s.adopted backend context device queue).victimBefore
      ((s.adopted backend context device queue).residents backend context device)
    refine Or.inr ⟨hhigh, sort.sort (s.adopted backend context device queue).victimBefore
      ((s.adopted backend context device queue).residents backend context device), ?_⟩
    rw [← neededBytes_toNat]
    by_cases hneed : neededBytes env memory used = 0
    · rw [if_pos hneed, hneed]
      refine ⟨[], hperm, sort_coldness sort _ _, ⟨List.nil_prefix, Or.inl (Nat.zero_le _), ?_⟩, ?_⟩
      · exact fun init last he => absurd he (by simp)
      · intro ptr
        rw [residentAt_adopted]
        simp
    · rw [if_neg hneed, evictRegions_eq hevict]
      refine ⟨_, hperm, sort_coldness sort _ _, justEnough_taken hneed _, fun ptr => ?_⟩
      rw [residentAt_evictAll, residentAt_adopted]

/-- A suspension changes nothing, or lets the queue adopt regions of its context
and evicts some. -/
theorem onQueueSuspend_cases (sort : StdSort (MemoryRegion B)) {api : B → XpuMemoryBackend}
    (hquery : (api backend).queryMemory context device = some (free, memory)) (hne : memory ≠ 0)
    (hevict : ∀ ptr size, (api backend).evictToHost context device ptr size = true) :
    s.onQueueSuspend sort env api backend context device queue = s ∨
      ∃ gone ⊆ (s.adopted backend context device queue).residents backend context device,
        s.onQueueSuspend sort env api backend context device queue =
          (s.adopted backend context device queue).evictAll gone := by
  by_cases hadmits : admits env (api backend) context = true
  · right
    rw [onQueueSuspend_eq sort hadmits hquery hne rfl rfl rfl]
    generalize (if memory - free < (s.adopted backend context device queue).trackedResidentBytes
      backend context device then _ else memory - free) = used
    by_cases hhigh : used ≤ highWatermark env memory
    · rw [if_pos hhigh]
      exact ⟨[], List.nil_subset _, rfl⟩
    · rw [if_neg hhigh]
      by_cases hneed : neededBytes env memory used = 0
      · rw [if_pos hneed]
        exact ⟨[], List.nil_subset _, rfl⟩
      · rw [if_neg hneed, evictRegions_eq hevict]
        exact ⟨_, fun v hv => (sort.perm _ _).subset (TakeUntil.taken_prefix.subset hv), rfl⟩
  · rw [Registry.onQueueSuspend, if_neg hadmits]
    exact Or.inl rfl

/-- **The eviction post-condition**, for every registry, environment and
`std::sort`, where the backend answers and can evict. With sizes added up as
`size_t` does it holds of every registry; with the true sums it holds where the
resident regions of the context add up to less than 2^64 bytes. A suspension
that is not admitted changes nothing, and none touches a region of another
backend, context or device, or adds or removes one. -/
theorem eviction_postcondition (sort : StdSort (MemoryRegion B)) {api : B → XpuMemoryBackend}
    (hquery : (api backend).queryMemory context device = some (free, memory))
    (hfree : free ≤ memory) (hmemory : 0 < memory)
    (hevict : ∀ ptr size, (api backend).evictToHost context device ptr size = true)
    (hs' : s' = s.onQueueSuspend sort env api backend context device queue) :
    (admits env (api backend) context = true →
      PostCondition (fun rs => (sizeSum rs).toNat) env backend context device queue free memory
        s s' ∧
      (trueSum (s.residents backend context device) < 2 ^ 64 →
        PostCondition trueSum env backend context device queue free memory s s')) ∧
    (admits env (api backend) context = false → s' = s) ∧
    (∀ r ∈ s.regions, r.within backend context device = false → r ∈ s'.regions) ∧
    s'.regions.map (·.ptr) = s.regions.map (·.ptr) := by
  subst hs'
  have hne : memory ≠ 0 := by
    rintro rfl
    exact absurd hmemory (by decide)
  refine ⟨fun hadmits => ?_, fun hoff => ?_, fun r hr hout => ?_, ?_⟩
  · have hpost : PostCondition (fun rs => (sizeSum rs).toNat) env backend context device queue free
        memory s (s.onQueueSuspend sort env api backend context device queue) :=
      suspend_postcondition sort hadmits hquery hfree hmemory hevict
    refine ⟨hpost, fun hfits => hpost.congr (sizeSum_of_fits hfits).symm ?_⟩
    intro order part hperm hpart
    refine (sizeSum_of_fits ?_).symm
    have hle := trueSum_prefix hpart
    rw [trueSum_perm hperm, trueSum_of_sizes residents_adopted_sizes] at hle
    exact Nat.lt_of_le_of_lt hle hfits
  · rw [Registry.onQueueSuspend, if_neg (by rw [hoff]; exact Bool.false_ne_true)]
  · rcases onQueueSuspend_cases sort hquery hne hevict with he | ⟨gone, hgone, he⟩
    · rw [he]
      exact hr
    · rw [he]
      have ht : r ∈ (s.adopted backend context device queue).regions :=
        mem_adopted (regions_adopted backend context device queue s) hr hout
      refine mem_evictAll ht fun v hv hptr => ?_
      have hv := hgone hv
      rw [Registry.residents, List.mem_filter, Bool.and_eq_true] at hv
      have hrv : r = v := List.inj_on_of_nodup_map
        (s.adopted backend context device queue).keys ht hv.1 hptr
      rw [hrv, hv.2.1] at hout
      cases hout
  · rcases onQueueSuspend_cases sort hquery hne hevict with he | ⟨gone, -, he⟩
    · rw [he]
    · rw [he, evictAll_ptrs, adopted_ptrs]

end

/-! ## Runs -/

/-- `std::sort` as a stable sort. -/
def stableSort (α : Type) : StdSort α where
  sort lt := List.insertionSort fun a b => lt b a = false
  perm lt := List.perm_insertionSort _
  sorted lt l h := by
    have hasymm (a b : α) : lt b a = false ∨ lt a b = false := by
      by_contra hno
      rw [not_or, Bool.not_eq_false, Bool.not_eq_false] at hno
      exact h.irrefl a (h.trans a b a hno.2 hno.1)
    have htrans (a b c : α) (h₁ : lt b a = false) (h₂ : lt c b = false) : lt c a = false := by
      by_contra hca
      rw [Bool.not_eq_false] at hca
      have hba : ¬ lt b a = true := by rw [h₁]; exact Bool.false_ne_true
      have hcb : ¬ lt c b = true := by rw [h₂]; exact Bool.false_ne_true
      have hab : ¬ lt a b = true := fun hab => hcb (h.trans c a b hca hab)
      have hbc : ¬ lt b c = true := fun hbc => hba (h.trans b c a hbc hca)
      exact (h.incomp_trans a b c ⟨hab, hba⟩ ⟨hbc, hcb⟩).2 hca
    have htotal : Std.Total fun a b : α => lt b a = false := ⟨hasymm⟩
    have htrans : IsTrans α fun a b => lt b a = false := ⟨htrans⟩
    exact List.pairwise_insertionSort _ l

/-- All variables are `1`: watermarks of one percent, and a megabyte at a time. -/
def envOne : Env := fun _ => some ['1']

/-- A backend that can do everything, on a device of 100 bytes. -/
def apiOf (free : UInt64) (_ : Unit) : XpuMemoryBackend :=
  ⟨true, ⟨true, true⟩, fun _ _ => some (free, 100), fun _ _ _ _ => true⟩

/-- A resident region of queue 1 in context 1. -/
def regionOf (ptr : Nat) (size : UInt64) : MemoryRegion Unit := ⟨some (), ptr, size, 1, 0, 1, true, 0⟩

def threeRegions : Registry Unit :=
  ⟨[regionOf 1 60, regionOf 2 60, regionOf 3 60], fun _ => none, 0, by decide⟩

/-- 99 of 100 bytes have to be freed, a megabyte at the least: all three regions are evicted. -/
theorem eviction_postcondition_three : PostCondition trueSum envOne () 1 0 1 0 100 threeRegions
    (threeRegions.onQueueSuspend (stableSort _) envOne (apiOf 0) () 1 0 1) :=
  ((eviction_postcondition (stableSort _) rfl (by decide) (by decide) (fun _ _ => rfl) rfl).1
    (by decide)).2 (by decide)

/-- Two regions of half the address space. -/
def twoHalves : Registry Unit :=
  ⟨[regionOf 1 9223372036854775808, regionOf 2 9223372036854775808], fun _ => none, 0, by decide⟩

/-- Where the sizes add up to 2^64, the code finds no byte in use and evicts
nothing, and with the true sum that is not enough. -/
theorem wrapped_sum_evicts_nothing : ¬ ∀ (env : Env) (api : Unit → XpuMemoryBackend)
    (sort : StdSort (MemoryRegion Unit)) (context : Nat) (device : Int) (queue : XQueueHandle)
    (free memory : UInt64) (s : Registry Unit), admits env (api ()) context = true →
    (api ()).queryMemory context device = some (free, memory) → free ≤ memory → 0 < memory →
    (∀ ptr size, (api ()).evictToHost context device ptr size = true) →
    PostCondition trueSum env () context device queue free memory s
      (s.onQueueSuspend sort env api () context device queue) := by
  intro h
  have hpost := h envOne (apiOf 100) (stableSort _) 1 0 1 100 100 twoHalves (by decide) rfl
    (by decide) (by decide) (fun _ _ => rfl)
  rcases hpost with ⟨hused, -⟩ | ⟨-, order, gone, hperm, -, ⟨hfirst, henough, -⟩, hafter⟩
  · exact absurd hused (by decide)
  · have hall : ∀ ptr, (twoHalves.onQueueSuspend (stableSort _) envOne (apiOf 100) () 1 0
        1).residentAt ptr = twoHalves.residentAt ptr := by
      rw [onQueueSuspend_eq (stableSort _) (by decide) rfl (by decide) rfl rfl rfl,
        if_pos (by decide)]
      exact residentAt_adopted
    have hstay : ∀ ptr ∈ [1, 2], ptr ∉ gone.map (·.ptr) := by
      intro ptr hptr hin
      have h := hafter ptr
      rw [hall, decide_eq_false (by simpa using hin), Bool.and_false] at h
      rcases List.mem_cons.1 hptr with rfl | hptr
      · exact absurd h (by decide)
      · rw [List.mem_singleton.1 hptr] at h
        exact absurd h (by decide)
    have hregions : (twoHalves.adopted () 1 0 1).residents () 1 0 = twoHalves.regions := by decide
    rw [hregions] at hperm
    have hnil : gone = [] := by
      refine List.eq_nil_iff_forall_not_mem.2 fun v hv => ?_
      have hmem := hperm.subset (hfirst.subset hv)
      refine hstay v.ptr ?_ (List.mem_map_of_mem hv)
      rcases List.mem_cons.1 hmem with rfl | hmem
      · decide
      · rw [List.mem_singleton.1 hmem]
        decide
    subst hnil
    rcases henough with henough | horder
    · exact absurd henough (by decide)
    · have hlen := hperm.length_eq
      rw [← horder] at hlen
      cases hlen

end Admission
end Xsched.Preempt
