import Xsched.Core.LTS
import Xsched.Preempt.Eviction

/-!
# The calls of the memory manager

The rest of `MemoryAdmissionManager`: regions are registered, touched and
unregistered, queues get a priority and are removed, and before a queue is
resumed the hot ones of its regions come back to the device, as far as its
budget allows. A budget is the queue's share of the low watermark, by the
weights of the active queues, and no more than the queue has.

`g_queues` is iterated to add up the weights; `handles` is the order of that
iteration. `unordered_map` may put the regions into another order whenever one
is inserted; in a run that is a step of its own (`rehash`). `last_active` is left
out, nothing reads it.
-/
namespace Xsched.Preempt
namespace Admission

open Sched (XQueueHandle Priority PRIORITY_MIN PRIORITY_MAX)

def kPrefetchLimitMbEnv : String := "XSCHED_XPU_MEM_PREFETCH_LIMIT_MB"

/-- A backend, with what a resume asks of it.
mirrors preempt/include/xsched/preempt/memory/admission.h:12-36 -/
structure PrefetchBackend extends XpuMemoryBackend where
  asyncPrefetch : Bool
  prefetchToDevice (context : Nat) (device : Int) (ptr : Nat) (size : UInt64) : Bool

/-- mirrors preempt/src/memory/admission.cpp:102-105 -/
def usableBackend (env : Env) (api : XpuMemoryBackend) : Bool :=
  globallyEnabled env && api.enabled

section
variable {B : Type} [DecidableEq B]

/-! ## Regions -/

omit [DecidableEq B] in
theorem nodup_filter_ptr (p : MemoryRegion B → Bool) (s : Registry B) :
    ((s.regions.filter p).map (·.ptr)).Nodup :=
  s.keys.sublist (List.filter_sublist.map _)

/-- The regions, changed one by one; their keys are the same. -/
def Registry.mapRegions (f : MemoryRegion B → MemoryRegion B) (hf : ∀ r, (f r).ptr = r.ptr)
    (s : Registry B) : Registry B where
  regions := s.regions.map f
  queues := s.queues
  clock := s.clock
  keys := by
    have hptr : (s.regions.map f).map (·.ptr) = s.regions.map (·.ptr) := by
      rw [List.map_map]
      exact List.map_congr_left fun r _ => hf r
    rw [hptr]
    exact s.keys

/-- mirrors preempt/src/memory/admission.cpp:198-216 -/
def Registry.registerRegion (env : Env) (api : B → PrefetchBackend) (backend : B) (ptr : Nat)
    (size : UInt64) (context : Nat) (device : Int) (owner : XQueueHandle) (s : Registry B) :
    Registry B :=
  if !usableBackend env (api backend).toXpuMemoryBackend ∨ ptr = 0 ∨ size = 0 ∨ context = 0 then s
  else
    { s with
      regions := ⟨some backend, ptr, size, context, device, owner, true, s.clock + 1⟩ ::
        s.regions.filter (·.ptr ≠ ptr)
      clock := s.clock + 1
      keys := by
        refine List.nodup_cons.2 ⟨fun h => ?_, nodup_filter_ptr _ s⟩
        obtain ⟨r, hr, hptr⟩ := List.mem_map.1 h
        exact absurd hptr (by simpa using (List.mem_filter.1 hr).2) }

/-- mirrors preempt/src/memory/admission.cpp:218-228 -/
def Registry.unregisterRegion (env : Env) (api : B → PrefetchBackend) (backend : B) (ptr : Nat)
    (s : Registry B) : Registry B :=
  if !usableBackend env (api backend).toXpuMemoryBackend ∨ ptr = 0 then s
  else
    { s with
      regions := s.regions.filter fun r => !(r.ptr = ptr && r.backend = some backend)
      keys := nodup_filter_ptr _ s }

/-- Whether `ptr` points into the region; the end of the region may wrap. -/
def MemoryRegion.covers (r : MemoryRegion B) (ptr : Nat) : Bool :=
  r.ptr ≤ ptr && ptr < (r.ptr + r.size.toNat) % 2 ^ 64

/-- The first region of the iteration that is touched.
mirrors preempt/src/memory/admission.cpp:230-246 -/
def Registry.touchRegion (env : Env) (api : B → PrefetchBackend) (backend : B) (context : Nat)
    (device : Int) (ptr : Nat) (owner : XQueueHandle) (s : Registry B) : Registry B :=
  if !usableBackend env (api backend).toXpuMemoryBackend ∨ ptr = 0 ∨ owner = 0 then s
  else
    match s.regions.find? fun r => r.within backend context device && r.covers ptr with
    | none => s
    | some touched =>
      { s.mapRegions (fun r =>
          if r.ptr = touched.ptr then { r with owner, lastTouch := s.clock + 1 } else r)
          (fun r => by split <;> rfl) with
        clock := s.clock + 1 }

/-! ## Queues -/

/-- mirrors preempt/src/memory/admission.cpp:248-255 -/
def Registry.setQueuePriority (queue : XQueueHandle) (priority : Priority) (s : Registry B) :
    Registry B :=
  if queue = 0 then s
  else
    let state := (s.queues queue).getD {}
    let state := { state with priority := min (max priority PRIORITY_MIN) PRIORITY_MAX }
    { s with queues := Function.update s.queues queue (some state) }

/-- mirrors preempt/src/memory/admission.cpp:257-267 -/
def Registry.removeQueue (queue : XQueueHandle) (s : Registry B) : Registry B :=
  if queue = 0 then s
  else
    { s.mapRegions (fun r => if r.owner = queue then { r with owner := 0 } else r)
        (fun r => by split <;> rfl) with
      queues := Function.update s.queues queue none }

/-- The entry of the resumed queue. -/
def Registry.activate (backend : B) (context : Nat) (device : Int) (queue : XQueueHandle)
    (s : Registry B) : Registry B :=
  let state := (s.queues queue).getD {}
  let state := { state with backend := some backend, context, device, active := true }
  { s with queues := Function.update s.queues queue (some state), clock := s.clock + 1 }

/-! ## Budgets -/

/-- mirrors preempt/src/memory/admission.cpp:134-146 -/
def Registry.queueResidentBytes (backend : B) (context : Nat) (device : Int)
    (queue : XQueueHandle) (s : Registry B) : UInt64 :=
  sizeSum (s.regions.filter fun r =>
    r.within backend context device && r.owner = queue && r.resident)

/-- mirrors preempt/src/memory/admission.cpp:148-160 -/
def Registry.queueHotBytes (backend : B) (context : Nat) (device : Int) (queue : XQueueHandle)
    (s : Registry B) : UInt64 :=
  sizeSum (s.regions.filter fun r => r.within backend context device && r.owner = queue)

/-- A priority is 32 bits wide, so the difference does not wrap.
mirrors preempt/src/memory/admission.cpp:162-166 -/
def queueWeight (state : QueueState B) : UInt64 :=
  (max 1 (state.priority - PRIORITY_MIN + 1)).toNat.toUInt64

/-- The queue takes part in the budgets of this backend, context and device. -/
def QueueState.counts (backend : B) (context : Nat) (device : Int) (state : QueueState B) : Bool :=
  state.active && state.backend = some backend && state.context = context && state.device = device

/-- `sum_weight`, `this_weight` and `active_count`. -/
structure Weights where
  sum : UInt64 := 0
  this : UInt64 := 1
  count : UInt64 := 0

/-- The loop over the queues, at one of them.
mirrors preempt/src/memory/admission.cpp:176-186 -/
def Registry.addWeight (backend : B) (context : Nat) (device : Int) (queue : XQueueHandle)
    (s : Registry B) (w : Weights) (handle : XQueueHandle) : Weights :=
  match s.queues handle with
  | none => w
  | some state =>
    if state.counts backend context device then
      { sum := w.sum + queueWeight state
        this := if handle = queue then queueWeight state else w.this
        count := w.count + 1 }
    else w

/-- mirrors preempt/src/memory/admission.cpp:171-186 -/
def Registry.weights (backend : B) (context : Nat) (device : Int) (queue : XQueueHandle)
    (s : Registry B) (handles : List XQueueHandle) : Weights :=
  handles.foldl (s.addWeight backend context device queue) {}

/-- The budget before it is cut to what the queue has.
mirrors preempt/src/memory/admission.cpp:188-190 -/
def Registry.queueShare (env : Env) (backend : B) (context : Nat) (device : Int)
    (queue : XQueueHandle) (total : UInt64) (handles : List XQueueHandle) (s : Registry B) :
    UInt64 :=
  let w := s.weights backend context device queue handles
  if w.count = 0 ∨ w.sum = 0 then lowWatermark env total
  else lowWatermark env total * w.this / w.sum

/-- mirrors preempt/src/memory/admission.cpp:168-194 -/
def Registry.queueBudget (env : Env) (backend : B) (context : Nat) (device : Int)
    (queue : XQueueHandle) (total : UInt64) (handles : List XQueueHandle) (s : Registry B) :
    UInt64 :=
  let w := s.weights backend context device queue handles
  if w.count = 0 ∨ w.sum = 0 then lowWatermark env total
  else
    let budget := s.queueShare env backend context device queue total handles
    let hot := s.queueHotBytes backend context device queue
    if hot ≠ 0 then (if hot < budget then hot else budget) else budget

/-! ## The resume -/

/-- The order of the candidates.
mirrors preempt/src/memory/admission.cpp:380-384 -/
def candidateBefore (a b : MemoryRegion B) : Bool :=
  if a.lastTouch ≠ b.lastTouch then b.lastTouch < a.lastTouch else b.size < a.size

/-- The region at `ptr` comes to the device. -/
def Registry.prefetch (ptr : Nat) (s : Registry B) : Registry B :=
  { s.mapRegions (fun r =>
      if r.ptr = ptr then { r with resident := true, lastTouch := s.clock + 1 } else r)
      (fun r => by split <;> rfl) with
    clock := s.clock + 1 }

/-- The loop over the candidates, with `prefetched` bytes back before it begins.
mirrors preempt/src/memory/admission.cpp:386-393 -/
def prefetchRegions (api : PrefetchBackend) (context : Nat) (device : Int) (need : UInt64) :
    List (MemoryRegion B) → UInt64 → Registry B → Registry B
  | [], _, s => s
  | r :: rs, prefetched, s =>
    if !api.prefetchToDevice context device r.ptr r.size then
      prefetchRegions api context device need rs prefetched s
    else if need ≤ prefetched + r.size then s.prefetch r.ptr
    else prefetchRegions api context device need rs (prefetched + r.size) (s.prefetch r.ptr)

/-- What is checked before anything is done.
mirrors preempt/src/memory/admission.cpp:343-345 -/
def admitsResume (env : Env) (api : PrefetchBackend) (context : Nat) (queue : XQueueHandle) :
    Bool :=
  usableBackend env api.toXpuMemoryBackend && context ≠ 0 && queue ≠ 0 &&
    api.caps.queryMemInfo && api.asyncPrefetch

theorem ne_zero_of_admitsResume {env : Env} {api : PrefetchBackend} {context : Nat}
    {queue : XQueueHandle} (h : admitsResume env api context queue = true) : queue ≠ 0 := by
  unfold admitsResume at h
  simp only [Bool.and_eq_true, decide_eq_true_eq] at h
  exact h.1.1.2

/-- `need` where `resident` bytes are below the budget.
mirrors preempt/src/memory/admission.cpp:365-367 -/
def missingBytes (env : Env) (budget resident : UInt64) : UInt64 :=
  let need := budget - resident
  let prefetchLimit := mbLimit env kPrefetchLimitMbEnv 1024
  if prefetchLimit ≠ 0 then (if prefetchLimit < need then prefetchLimit else need) else need

/-- The regions of the queue that are not on the device. -/
def Registry.absent (backend : B) (context : Nat) (device : Int) (queue : XQueueHandle)
    (s : Registry B) : List (MemoryRegion B) :=
  s.regions.filter fun r => r.within backend context device && r.owner = queue && !r.resident

/-- `backend` is not null.
mirrors preempt/src/memory/admission.cpp:340-399 -/
def Registry.beforeQueueResume (sort : StdSort (MemoryRegion B)) (env : Env)
    (api : B → PrefetchBackend) (backend : B) (context : Nat) (device : Int)
    (queue : XQueueHandle) (handles : List XQueueHandle) (s : Registry B) : Registry B :=
  if admitsResume env (api backend) context queue then
    let s := (s.activate backend context device queue).adoptContextRegions backend context device
      queue
    match (api backend).queryMemory context device with
    | none => s
    | some (_, total) =>
      if total = 0 then s
      else
        let budget := s.queueBudget env backend context device queue total handles
        let resident := s.queueResidentBytes backend context device queue
        if budget ≤ resident then s
        else
          let need := missingBytes env budget resident
          if need = 0 then s
          else
            let candidates := sort.sort candidateBefore (s.absent backend context device queue)
            prefetchRegions (api backend) context device need candidates 0 s
  else s

end

/-! ## What a call moves -/

section
variable {B : Type} [DecidableEq B]

/-- The regions that a suspension evicts, in their order, where `t` is the
registry after the adoption. -/
def Registry.evicts (sort : StdSort (MemoryRegion B)) (env : Env) (api : B → XpuMemoryBackend)
    (backend : B) (context : Nat) (device : Int) (t : Registry B) : List (MemoryRegion B) :=
  match (api backend).queryMemory context device with
  | none => []
  | some (free, total) =>
    if total = 0 then []
    else
      let trackedUsed := t.trackedResidentBytes backend context device
      let used := if total - free < trackedUsed then trackedUsed else total - free
      if used ≤ highWatermark env total ∨ neededBytes env total used = 0 then []
      else
        TakeUntil.taken (fun bytes r => bytes + r.size)
          (fun bytes => neededBytes env total used ≤ bytes) 0
          ((sort.sort t.victimBefore (t.residents backend context device)).filter fun r =>
            (api backend).evictToHost context device r.ptr r.size)

omit [DecidableEq B] in
/-- The regions that fail to be evicted are passed over. -/
theorem evictRegions_filter {api : XpuMemoryBackend} {context : Nat} {device : Int}
    {need : UInt64} (rs : List (MemoryRegion B)) (evicted : UInt64) (s : Registry B) :
    evictRegions api context device need rs evicted s =
      s.evictAll (TakeUntil.taken (fun bytes r => bytes + r.size) (fun bytes => need ≤ bytes)
        evicted (rs.filter fun r => api.evictToHost context device r.ptr r.size)) := by
  induction rs generalizing evicted s with
  | nil => rfl
  | cons r rs ih =>
    rw [evictRegions]
    by_cases hr : api.evictToHost context device r.ptr r.size = true
    · rw [List.filter_cons, if_pos hr, TakeUntil.taken, if_neg (by simp [hr])]
      by_cases hneed : need ≤ evicted + r.size
      · simp only [hneed, decide_true, if_true]
        rfl
      · simp only [hneed, decide_false, if_false, Bool.false_eq_true, ih]
        rfl
    · rw [List.filter_cons, if_neg hr, if_pos (by simpa using hr), ih]

theorem onQueueSuspend_evicts (sort : StdSort (MemoryRegion B)) {env : Env}
    {api : B → XpuMemoryBackend} {backend : B} {context : Nat} (device : Int)
    (queue : XQueueHandle) (s : Registry B) (hadmits : admits env (api backend) context = true) :
    s.onQueueSuspend sort env api backend context device queue =
      (s.adopted backend context device queue).evictAll
        ((s.adopted backend context device queue).evicts sort env api backend context device) := by
  cases hquery : (api backend).queryMemory context device with
  | none =>
    unfold Registry.onQueueSuspend Registry.evicts
    rw [if_pos hadmits]
    simp only [hquery]
    rfl
  | some memory =>
    obtain ⟨free, total⟩ := memory
    unfold Registry.evicts
    simp only [hquery]
    by_cases htotal : total = 0
    · unfold Registry.onQueueSuspend
      rw [if_pos hadmits, if_pos htotal]
      simp only [hquery, if_pos htotal]
      rfl
    rw [onQueueSuspend_eq sort hadmits hquery htotal rfl rfl rfl, if_neg htotal]
    generalize (if total - free <
      (s.adopted backend context device queue).trackedResidentBytes backend context device then
      (s.adopted backend context device queue).trackedResidentBytes backend context device
      else total - free) = used
    by_cases hhigh : used ≤ highWatermark env total
    · rw [if_pos hhigh, if_pos (.inl hhigh)]
      rfl
    rw [if_neg hhigh]
    by_cases hneed : neededBytes env total used = 0
    · rw [if_pos hneed, if_pos (.inr hneed)]
      rfl
    · rw [if_neg hneed, if_neg (not_or.2 ⟨hhigh, hneed⟩)]
      exact evictRegions_filter _ _ _

/-- The registry in which the candidates are chosen: the queue is active and has
adopted the regions of nobody. -/
def Registry.joined (backend : B) (context : Nat) (device : Int) (queue : XQueueHandle)
    (s : Registry B) : Registry B :=
  (s.activate backend context device queue).adoptContextRegions backend context device queue

/-- All of `back` are prefetched, one after the other. -/
def Registry.prefetchAll (back : List (MemoryRegion B)) (s : Registry B) : Registry B :=
  back.foldl (fun s r => s.prefetch r.ptr) s

/-- The regions that a resume prefetches, in their order, where `t` is the
registry after the adoption. -/
def Registry.prefetches (sort : StdSort (MemoryRegion B)) (env : Env) (api : B → PrefetchBackend)
    (backend : B) (context : Nat) (device : Int) (queue : XQueueHandle)
    (handles : List XQueueHandle) (t : Registry B) : List (MemoryRegion B) :=
  match (api backend).queryMemory context device with
  | none => []
  | some (_, total) =>
    let budget := t.queueBudget env backend context device queue total handles
    let resident := t.queueResidentBytes backend context device queue
    if total = 0 ∨ budget ≤ resident ∨ missingBytes env budget resident = 0 then []
    else
      TakeUntil.taken (fun bytes r => bytes + r.size)
        (fun bytes => missingBytes env budget resident ≤ bytes) 0
        ((sort.sort candidateBefore (t.absent backend context device queue)).filter fun r =>
          (api backend).prefetchToDevice context device r.ptr r.size)

omit [DecidableEq B] in
theorem prefetchRegions_filter {api : PrefetchBackend} {context : Nat} {device : Int}
    {need : UInt64} (rs : List (MemoryRegion B)) (prefetched : UInt64) (s : Registry B) :
    prefetchRegions api context device need rs prefetched s =
      s.prefetchAll (TakeUntil.taken (fun bytes r => bytes + r.size) (fun bytes => need ≤ bytes)
        prefetched (rs.filter fun r => api.prefetchToDevice context device r.ptr r.size)) := by
  induction rs generalizing prefetched s with
  | nil => rfl
  | cons r rs ih =>
    rw [prefetchRegions]
    by_cases hr : api.prefetchToDevice context device r.ptr r.size = true
    · rw [List.filter_cons, if_pos hr, TakeUntil.taken, if_neg (by simp [hr])]
      by_cases hneed : need ≤ prefetched + r.size
      · simp only [hneed, decide_true, if_true]
        rfl
      · simp only [hneed, decide_false, if_false, Bool.false_eq_true, ih]
        rfl
    · rw [List.filter_cons, if_neg hr, if_pos (by simpa using hr), ih]

/-- The resume of a queue in an admitted context, from the adoption on. -/
theorem beforeQueueResume_eq (sort : StdSort (MemoryRegion B)) {env : Env}
    {api : B → PrefetchBackend} {backend : B} {context : Nat} {device : Int}
    {queue : XQueueHandle} {handles : List XQueueHandle} {s t : Registry B} {free total : UInt64}
    (hadmits : admitsResume env (api backend) context queue = true)
    (hquery : (api backend).queryMemory context device = some (free, total)) (hne : total ≠ 0)
    (ht : t = s.joined backend context device queue) {budget resident : UInt64}
    (hbudget : budget = t.queueBudget env backend context device queue total handles)
    (hresident : resident = t.queueResidentBytes backend context device queue) :
    s.beforeQueueResume sort env api backend context device queue handles =
      if budget ≤ resident then t
      else if missingBytes env budget resident = 0 then t
      else prefetchRegions (api backend) context device (missingBytes env budget resident)
        (sort.sort candidateBefore (t.absent backend context device queue)) 0 t := by
  subst hbudget hresident ht
  unfold Registry.beforeQueueResume
  rw [if_pos hadmits]
  simp only [hquery, if_neg hne]
  rfl

theorem beforeQueueResume_prefetches (sort : StdSort (MemoryRegion B)) {env : Env}
    {api : B → PrefetchBackend} {backend : B} {context : Nat} (device : Int)
    {queue : XQueueHandle} (handles : List XQueueHandle) (s : Registry B)
    (hadmits : admitsResume env (api backend) context queue = true) :
    s.beforeQueueResume sort env api backend context device queue handles =
      (s.joined backend context device queue).prefetchAll
        ((s.joined backend context device queue).prefetches sort env api backend context device
          queue handles) := by
  cases hquery : (api backend).queryMemory context device with
  | none =>
    unfold Registry.beforeQueueResume Registry.prefetches
    rw [if_pos hadmits]
    simp only [hquery]
    rfl
  | some memory =>
    obtain ⟨free, total⟩ := memory
    unfold Registry.prefetches
    simp only [hquery]
    by_cases htotal : total = 0
    · unfold Registry.beforeQueueResume
      rw [if_pos hadmits, if_pos (.inl htotal)]
      simp only [hquery, if_pos htotal]
      rfl
    rw [beforeQueueResume_eq sort hadmits hquery htotal rfl rfl rfl]
    generalize (s.joined backend context device queue).queueBudget env backend context device queue
      total handles = budget
    generalize (s.joined backend context device queue).queueResidentBytes backend context device
      queue = resident
    by_cases hbudget : budget ≤ resident
    · rw [if_pos hbudget, if_pos (.inr (.inl hbudget))]
      rfl
    rw [if_neg hbudget]
    by_cases hneed : missingBytes env budget resident = 0
    · rw [if_pos hneed, if_pos (.inr (.inr hneed))]
      rfl
    · rw [if_neg hneed, if_neg (not_or.2 ⟨htotal, not_or.2 ⟨hbudget, hneed⟩⟩)]
      exact prefetchRegions_filter _ _ _

/-- What a call that moves regions leaves of one. -/
def Moved (r r' : MemoryRegion B) : Prop :=
  r' = { r with resident := r'.resident, lastTouch := r'.lastTouch }

omit [DecidableEq B] in
theorem Moved.ptr {r r' : MemoryRegion B} (h : Moved r r') : r'.ptr = r.ptr := by rw [h]

omit [DecidableEq B] in
theorem mem_of_evict {t : Registry B} {ptr : Nat} {r' : MemoryRegion B}
    (h : r' ∈ (t.evict ptr).regions) :
    ∃ r ∈ t.regions, Moved r r' ∧ (r.ptr ≠ ptr → r' = r) := by
  obtain ⟨r, hr, rfl⟩ := List.mem_map.1 h
  refine ⟨r, hr, ?_, fun hne => if_neg hne⟩
  unfold Moved
  split
  · rfl
  · rfl

omit [DecidableEq B] in
/-- A region after an eviction is one from before, and the same if it was not
evicted. -/
theorem mem_of_evictAll {gone : List (MemoryRegion B)} {t : Registry B} {r' : MemoryRegion B}
    (h : r' ∈ (t.evictAll gone).regions) :
    ∃ r ∈ t.regions, Moved r r' ∧ (r'.ptr ∉ gone.map (·.ptr) → r' = r) := by
  induction gone generalizing t with
  | nil => exact ⟨r', h, rfl, fun _ => rfl⟩
  | cons v gone ih =>
    obtain ⟨r₁, hr₁, hmoved₁, hsame₁⟩ := ih (t := t.evict v.ptr) h
    obtain ⟨r, hr, hmoved, hsame⟩ := mem_of_evict hr₁
    have hptr₁ : r'.ptr = r₁.ptr := by rw [hmoved₁]
    have hptr : r₁.ptr = r.ptr := by rw [hmoved]
    refine ⟨r, hr, ?_, fun hout => ?_⟩
    · rw [Moved, hmoved₁, hmoved]
    · rw [List.map_cons, List.mem_cons, not_or] at hout
      rw [hsame₁ hout.2]
      exact hsame (by rw [← hptr, ← hptr₁]; exact hout.1)

omit [DecidableEq B] in
theorem mem_of_prefetchAll {back : List (MemoryRegion B)} {t : Registry B} {r' : MemoryRegion B}
    (h : r' ∈ (t.prefetchAll back).regions) : ∃ r ∈ t.regions, Moved r r' := by
  induction back generalizing t with
  | nil => exact ⟨r', h, rfl⟩
  | cons v back ih =>
    obtain ⟨r₁, hr₁, hmoved₁⟩ := ih (t := t.prefetch v.ptr) h
    obtain ⟨r, hr, rfl⟩ := List.mem_map.1 hr₁
    refine ⟨r, hr, ?_⟩
    rw [Moved, hmoved₁]
    split
    · rfl
    · rfl

omit [DecidableEq B] in
theorem residentAt_of_mem {t : Registry B} {r : MemoryRegion B} (hr : r ∈ t.regions) :
    t.residentAt r.ptr = r.resident := by
  unfold Registry.residentAt
  cases hres : r.resident with
  | true => exact List.any_eq_true.2 ⟨r, hr, by simp [hres]⟩
  | false =>
    refine List.any_eq_false.2 fun v hv => ?_
    by_cases hptr : v.ptr = r.ptr
    · rw [List.inj_on_of_nodup_map t.keys hv hr hptr, hres]
      simp
    · simp [hptr]

theorem adoptContextRegions_queues (backend : B) (context : Nat) (device : Int)
    (queue : XQueueHandle) (s : Registry B) :
    (s.adoptContextRegions backend context device queue).queues = s.queues := by
  unfold Registry.adoptContextRegions
  split
  · rfl
  · rfl

omit [DecidableEq B] in
theorem evictAll_queues (gone : List (MemoryRegion B)) (s : Registry B) :
    (s.evictAll gone).queues = s.queues := by
  induction gone generalizing s with
  | nil => rfl
  | cons r gone ih => exact ih (s.evict r.ptr)

omit [DecidableEq B] in
theorem prefetchAll_queues (back : List (MemoryRegion B)) (s : Registry B) :
    (s.prefetchAll back).queues = s.queues := by
  induction back generalizing s with
  | nil => rfl
  | cons r back ih => exact ih (s.prefetch r.ptr)

/-- A suspension makes the queue inactive, and tells nothing of the others. -/
theorem onQueueSuspend_queues (sort : StdSort (MemoryRegion B)) (env : Env)
    (api : B → XpuMemoryBackend) (backend : B) (context : Nat) (device : Int)
    (queue : XQueueHandle) (s : Registry B) :
    (s.onQueueSuspend sort env api backend context device queue).queues =
      if admits env (api backend) context then (s.suspend backend context device queue).queues
      else s.queues := by
  split
  · next hadmits =>
    rw [onQueueSuspend_evicts sort device queue s hadmits, evictAll_queues]
    exact adoptContextRegions_queues ..
  · next hoff => rw [Registry.onQueueSuspend, if_neg hoff]

theorem beforeQueueResume_queues (sort : StdSort (MemoryRegion B)) (env : Env)
    (api : B → PrefetchBackend) (backend : B) (context : Nat) (device : Int)
    (queue : XQueueHandle) (handles : List XQueueHandle) (s : Registry B) :
    (s.beforeQueueResume sort env api backend context device queue handles).queues =
      if admitsResume env (api backend) context queue then
        (s.activate backend context device queue).queues
      else s.queues := by
  split
  · next hadmits =>
    rw [beforeQueueResume_prefetches sort device handles s hadmits, prefetchAll_queues]
    exact adoptContextRegions_queues ..
  · next hoff => rw [Registry.beforeQueueResume, if_neg hoff]

/-- Where the backend can evict, the victims come in the order of their
coldness, and those that go are the first. -/
theorem evicts_front (sort : StdSort (MemoryRegion B)) (env : Env) {api : B → XpuMemoryBackend}
    {backend : B} {context : Nat} {device : Int} (t : Registry B)
    (hevict : ∀ ptr size, (api backend).evictToHost context device ptr size = true) :
    t.evicts sort env api backend context device <+:
      sort.sort t.victimBefore (t.residents backend context device) := by
  unfold Registry.evicts
  split
  · exact List.nil_prefix
  next free total _ =>
  split
  · exact List.nil_prefix
  dsimp only
  generalize (if total - free < t.trackedResidentBytes backend context device then
    t.trackedResidentBytes backend context device else total - free) = used
  split
  · exact List.nil_prefix
  · rw [List.filter_eq_self.2 fun r _ => hevict r.ptr r.size]
    exact TakeUntil.taken_prefix

/-- Where the backend can prefetch, the candidates that come back are the first. -/
theorem prefetches_front (sort : StdSort (MemoryRegion B)) (env : Env) {api : B → PrefetchBackend}
    {backend : B} {context : Nat} {device : Int} (queue : XQueueHandle)
    (handles : List XQueueHandle) (t : Registry B)
    (hprefetch : ∀ ptr size, (api backend).prefetchToDevice context device ptr size = true) :
    t.prefetches sort env api backend context device queue handles <+:
      sort.sort candidateBefore (t.absent backend context device queue) := by
  unfold Registry.prefetches
  split
  · exact List.nil_prefix
  dsimp only
  split
  · exact List.nil_prefix
  · rw [List.filter_eq_self.2 fun r _ => hprefetch r.ptr r.size]
    exact TakeUntil.taken_prefix

theorem evicts_sublist (sort : StdSort (MemoryRegion B)) (env : Env) (api : B → XpuMemoryBackend)
    (backend : B) (context : Nat) (device : Int) (t : Registry B) :
    (t.evicts sort env api backend context device).Sublist
      (sort.sort t.victimBefore (t.residents backend context device)) := by
  unfold Registry.evicts
  split
  · exact List.nil_sublist _
  next free total _ =>
  split
  · exact List.nil_sublist _
  dsimp only
  generalize (if total - free < t.trackedResidentBytes backend context device then
    t.trackedResidentBytes backend context device else total - free) = used
  split
  · exact List.nil_sublist _
  · exact TakeUntil.taken_prefix.sublist.trans List.filter_sublist

theorem prefetches_sublist (sort : StdSort (MemoryRegion B)) (env : Env)
    (api : B → PrefetchBackend) (backend : B) (context : Nat) (device : Int)
    (queue : XQueueHandle) (handles : List XQueueHandle) (t : Registry B) :
    (t.prefetches sort env api backend context device queue handles).Sublist
      (sort.sort candidateBefore (t.absent backend context device queue)) := by
  unfold Registry.prefetches
  split
  · exact List.nil_sublist _
  dsimp only
  split
  · exact List.nil_sublist _
  · exact TakeUntil.taken_prefix.sublist.trans List.filter_sublist

/-- What is taken from the front of an order comes before what is left of it. -/
theorem prefix_before {α : Type} {R : α → α → Prop} {gone order : List α} (h : gone <+: order)
    (hsorted : order.Pairwise R) {a b : α} (ha : a ∈ gone) (hb : b ∈ order) (hb' : b ∉ gone) :
    R a b := by
  obtain ⟨rest, rfl⟩ := h
  exact (List.pairwise_append.1 hsorted).2.2 a ha b ((List.mem_append.1 hb).resolve_left hb')

omit [DecidableEq B] in
/-- What is taken of some of the regions are regions of the registry, each once. -/
theorem moved_of_sublist (sort : StdSort (MemoryRegion B))
    {lt : MemoryRegion B → MemoryRegion B → Bool} {p : MemoryRegion B → Bool} {t : Registry B}
    {moved : List (MemoryRegion B)} (h : moved.Sublist (sort.sort lt (t.regions.filter p))) :
    (∀ r ∈ moved, r ∈ t.regions ∧ p r = true) ∧ (moved.map (·.ptr)).Nodup := by
  have hperm := sort.perm lt (t.regions.filter p)
  refine ⟨fun r hr => List.mem_filter.1 (hperm.subset (h.subset hr)), ?_⟩
  exact ((hperm.map (·.ptr)).nodup_iff.2 (nodup_filter_ptr p t)).sublist (h.map _)

end

/-! ## Runs -/

/-- `handles` are the keys of `g_queues`, each once. -/
structure Enumerates {B : Type} (handles : List XQueueHandle) (s : Registry B) : Prop where
  nodup : handles.Nodup
  mem : ∀ h, h ∈ handles ↔ (s.queues h).isSome

/-- A call of the manager, with the environment and the answers it finds. -/
inductive Call (B : Type) where
  | registerRegion (env : Env) (api : B → PrefetchBackend) (backend : B) (ptr : Nat)
      (size : UInt64) (context : Nat) (device : Int) (owner : XQueueHandle)
  | unregisterRegion (env : Env) (api : B → PrefetchBackend) (backend : B) (ptr : Nat)
  | touchRegion (env : Env) (api : B → PrefetchBackend) (backend : B) (context : Nat)
      (device : Int) (ptr : Nat) (owner : XQueueHandle)
  | setQueuePriority (queue : XQueueHandle) (priority : Priority)
  | removeQueue (queue : XQueueHandle)
  | onQueueSuspend (sort : StdSort (MemoryRegion B)) (env : Env) (api : B → PrefetchBackend)
      (backend : B) (context : Nat) (device : Int) (queue : XQueueHandle)
  | beforeQueueResume (sort : StdSort (MemoryRegion B)) (env : Env) (api : B → PrefetchBackend)
      (backend : B) (context : Nat) (device : Int) (queue : XQueueHandle)
      (handles : List XQueueHandle)
  | rehash (regions : List (MemoryRegion B))

section
variable {B : Type} [DecidableEq B]

/-- The regions in another order. -/
def Registry.rehash (regions : List (MemoryRegion B)) (s : Registry B) : Registry B :=
  if h : regions.Perm s.regions then
    { s with regions, keys := (h.map (·.ptr)).nodup_iff.2 s.keys }
  else s

def Call.run : Call B → Registry B → Registry B
  | .registerRegion env api backend ptr size context device owner =>
    (·.registerRegion env api backend ptr size context device owner)
  | .unregisterRegion env api backend ptr => (·.unregisterRegion env api backend ptr)
  | .touchRegion env api backend context device ptr owner =>
    (·.touchRegion env api backend context device ptr owner)
  | .setQueuePriority queue priority => (·.setQueuePriority queue priority)
  | .removeQueue queue => (·.removeQueue queue)
  | .onQueueSuspend sort env api backend context device queue =>
    (·.onQueueSuspend sort env (fun b => (api b).toXpuMemoryBackend) backend context device queue)
  | .beforeQueueResume sort env api backend context device queue handles =>
    (·.beforeQueueResume sort env api backend context device queue handles)
  | .rehash regions => (·.rehash regions)

/-- What a call makes of the entries of the queues. -/
inductive Call.Writes (s : Registry B) : Call B → (XQueueHandle → Option (QueueState B)) → Prop
  | nothing (c : Call B) : Writes s c s.queues
  | priority (queue : XQueueHandle) (priority : Priority) (hqueue : queue ≠ 0) :
      Writes s (.setQueuePriority queue priority)
        (Function.update s.queues queue (some { (s.queues queue).getD {} with
          priority := min (max priority PRIORITY_MIN) PRIORITY_MAX }))
  | removal (queue : XQueueHandle) (hqueue : queue ≠ 0) :
      Writes s (.removeQueue queue) (Function.update s.queues queue none)
  | suspension (sort : StdSort (MemoryRegion B)) (env : Env) (api : B → PrefetchBackend)
      (backend : B) (context : Nat) (device : Int) (queue : XQueueHandle)
      (hadmits : admits env (api backend).toXpuMemoryBackend context = true) :
      Writes s (.onQueueSuspend sort env api backend context device queue)
        (s.suspend backend context device queue).queues
  | resumption (sort : StdSort (MemoryRegion B)) (env : Env) (api : B → PrefetchBackend)
      (backend : B) (context : Nat) (device : Int) (queue : XQueueHandle)
      (handles : List XQueueHandle) (hadmits : admitsResume env (api backend) context queue = true) :
      Writes s (.beforeQueueResume sort env api backend context device queue handles)
        (s.activate backend context device queue).queues

theorem run_writes (c : Call B) (s : Registry B) : c.Writes s (c.run s).queues := by
  cases c with
  | registerRegion env api backend ptr size context device owner =>
    unfold Call.run Registry.registerRegion
    dsimp only
    split
    · exact .nothing _
    · exact .nothing _
  | unregisterRegion env api backend ptr =>
    unfold Call.run Registry.unregisterRegion
    dsimp only
    split
    · exact .nothing _
    · exact .nothing _
  | touchRegion env api backend context device ptr owner =>
    unfold Call.run Registry.touchRegion
    dsimp only
    split
    · exact .nothing _
    split
    · exact .nothing _
    · exact .nothing _
  | setQueuePriority queue priority =>
    unfold Call.run Registry.setQueuePriority
    dsimp only
    split
    · exact .nothing _
    · next hqueue => exact .priority queue priority hqueue
  | removeQueue queue =>
    unfold Call.run Registry.removeQueue
    dsimp only
    split
    · exact .nothing _
    · next hqueue => exact .removal queue hqueue
  | onQueueSuspend sort env api backend context device queue =>
    unfold Call.run
    dsimp only
    rw [onQueueSuspend_queues]
    split
    · next hadmits => exact .suspension sort env api backend context device queue hadmits
    · exact .nothing _
  | beforeQueueResume sort env api backend context device queue handles =>
    unfold Call.run
    dsimp only
    rw [beforeQueueResume_queues]
    split
    · next hadmits => exact .resumption sort env api backend context device queue handles hadmits
    · exact .nothing _
  | rehash regions =>
    unfold Call.run Registry.rehash
    dsimp only
    split
    · exact .nothing _
    · exact .nothing _

/-- The iteration of a resume goes over the queues there are then. -/
def Call.Iterates (c : Call B) (s : Registry B) : Prop :=
  match c with
  | .beforeQueueResume _ _ _ backend context device queue handles =>
    Enumerates handles (s.activate backend context device queue)
  | _ => True

/-- The registry of a new process. -/
def Registry.empty : Registry B := ⟨[], fun _ => none, 0, List.nodup_nil⟩

/-- The manager after these calls. -/
def Registry.after (s : Registry B) (calls : List (Call B)) : Registry B :=
  calls.foldl (fun s c => c.run s) s

end

end Admission
end Xsched.Preempt
