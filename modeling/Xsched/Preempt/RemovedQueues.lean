import Xsched.Preempt.ActiveQueues

/-!
# Removed queues

When an XQueue is destroyed, the memory manager is to forget it: `Del` takes it
off the HwQueue and calls `RemoveQueue`. Calls that found the XQueue before may be
anywhere then. A `Suspend` or a `Resume` reads the handle from the HwQueue and
calls the manager with it later, or reads none where `Del` was faster, and a hint
calls the manager after its check; the manager makes an entry for any handle
that it is called with.

**The calls.** One thread a call, as many as there are. `thread` is where each is,
and a step is one access to what they share. `Del` holds the lock of the
XQueueManager until it has called `RemoveQueue`, and it ends with a `Resume` and
`WaitAll`. Anything else may call the manager in between, but for the removed queue
and, in a suspension, for no queue.

**Results.**
* `removed_stay_removed`: after all these calls the manager knows nothing of the
  queue, and of no queue 0, exactly if in no step it was called for the queue
  after `RemoveQueue`, or to suspend queue 0.
* `removed_comes_back`: a hint that was checked before leaves an entry, and a
  suspension that read the handle before the regions too, or an entry for 0.
-/
namespace Xsched.Preempt
namespace Admission
namespace RemovedQueues

open Sched (XQueueHandle Priority)
open ActiveQueues (Hook)
open Function (update)

variable {B : Type} [DecidableEq B]

/-! ## The system -/

abbrev ThreadId := Nat

/-- Where a call is. -/
inductive Pc where
  | idle
  /-- It has the XQueue. -/
  | got
  /-- `suspended_` was set; the handle is read next. -/
  | suspending
  /-- The handle was read. -/
  | suspendHook (queue : XQueueHandle)
  | resuming
  | resumeHook (queue : XQueueHandle)
  /-- A hint whose check was passed. -/
  | hinting
  /-- `Del` has taken the XQueue off the HwQueue, and holds the lock. -/
  | detached
  /-- `RemoveQueue` was called, and the lock is still held. -/
  | erased
  /-- The `Resume` of `Del` comes next. -/
  | unlocked
  deriving DecidableEq

/-- `queue` is the XQueue on the HwQueue, or 0. `listed` is its place in `xqs_`, and
`holder` who holds the lock on that. `removed` is a ghost. -/
structure State (B : Type) where
  registry : Registry B
  queue : XQueueHandle
  listed : Bool
  holder : Option ThreadId
  suspended : Bool
  thread : ThreadId → Pc
  removed : Bool

inductive Act (B : Type) where
  | get (t : ThreadId)
  | suspend (t : ThreadId)
  | resume (t : ThreadId)
  | readHandle (t : ThreadId)
  | onSuspend (t : ThreadId) (hook : Hook B)
  | beforeResume (t : ThreadId) (hook : Hook B) (handles : List XQueueHandle)
  | hint (t : ThreadId)
  | setPriority (t : ThreadId) (priority : Priority)
  | detach (t : ThreadId)
  | remove (t : ThreadId)
  | unlock (t : ThreadId)
  | add (queue : XQueueHandle)
  | call (c : Call B)

/-- The queue that a call is for, or 0. -/
def queueOf : Call B → XQueueHandle
  | .registerRegion _ _ _ _ _ _ _ owner => owner
  | .touchRegion _ _ _ _ _ _ owner => owner
  | .setQueuePriority queue _ => queue
  | .removeQueue queue => queue
  | .onQueueSuspend _ _ _ _ _ _ queue => queue
  | .beforeQueueResume _ _ _ _ _ _ queue _ => queue
  | .unregisterRegion .. | .rehash _ => 0

/-- A suspension of no queue. -/
def suspendsNone : Call B → Bool
  | .onQueueSuspend _ _ _ _ _ _ queue => queue = 0
  | _ => false

def State.goto (s : State B) (t : ThreadId) (pc : Pc) : State B :=
  { s with thread := update s.thread t pc }

def step (h : XQueueHandle) (s : State B) : Act B → Option (State B)
  -- mirrors preempt/src/xqueue/xqueue.cpp:83-89
  | .get t =>
    if s.thread t = .idle ∧ s.holder = none ∧ s.listed then some (s.goto t .got) else none
  -- mirrors preempt/src/xqueue/async_xqueue.cpp:104-108
  | .suspend t =>
    if s.thread t = .got then
      if s.suspended then some (s.goto t .idle)
      else some { s.goto t .suspending with suspended := true }
    else none
  -- mirrors preempt/src/xqueue/async_xqueue.cpp:122-127
  | .resume t =>
    if s.thread t = .got ∨ s.thread t = .unlocked then
      if s.suspended then some { s.goto t .resuming with suspended := false }
      else some (s.goto t .idle)
    else none
  -- mirrors platforms/cuda/hal/src/level1/cuda_queue.cpp:72,82
  | .readHandle t =>
    match s.thread t with
    | .suspending => some (s.goto t (.suspendHook s.queue))
    | .resuming => some (s.goto t (.resumeHook s.queue))
    | _ => none
  | .onSuspend t hook =>
    match s.thread t with
    | .suspendHook queue =>
      some { s.goto t .idle with
        registry := s.registry.onQueueSuspend hook.sort hook.env
          (fun b => (hook.api b).toXpuMemoryBackend) hook.backend hook.context hook.device queue }
    | _ => none
  | .beforeResume t hook handles =>
    match s.thread t with
    | .resumeHook queue =>
      some { s.goto t .idle with
        registry := s.registry.beforeQueueResume hook.sort hook.env hook.api hook.backend
          hook.context hook.device queue handles }
    | _ => none
  -- mirrors preempt/src/sched/hint.cpp:20-25
  | .hint t =>
    if s.thread t = .idle ∧ s.holder = none ∧ s.listed then some (s.goto t .hinting) else none
  | .setPriority t priority =>
    if s.thread t = .hinting then
      some { s.goto t .idle with registry := s.registry.setQueuePriority h priority }
    else none
  -- mirrors preempt/src/xqueue/xqueue.cpp:54-66
  | .detach t =>
    if s.thread t = .idle ∧ s.holder = none ∧ s.listed then
      some { s.goto t .detached with queue := 0, holder := some t }
    else none
  | .remove t =>
    if s.thread t = .detached then
      some { s.goto t .erased with
        listed := false, registry := s.registry.removeQueue h, removed := true }
    else none
  | .unlock t =>
    if s.thread t = .erased then some { s.goto t .unlocked with holder := none } else none
  -- another XQueue on the HwQueue
  | .add queue =>
    if s.queue = 0 ∧ s.holder = none ∧ queue ≠ 0 ∧ queue ≠ h then some { s with queue }
    else none
  | .call c =>
    if (s.removed → queueOf c ≠ h) ∧ suspendsNone c = false then
      some { s with registry := c.run s.registry }
    else none

/-- The XQueue is there, no call has begun, and nothing was suspended for queue 0. -/
structure Initial (h : XQueueHandle) (s : State B) : Prop where
  queue : s.queue = h
  holder : s.holder = none
  thread : ∀ t, s.thread t = .idle
  removed : s.removed = false
  none : s.registry.queues 0 = none

/-- The XQueue with handle `h`, and the calls. -/
def system (B : Type) [DecidableEq B] (h : XQueueHandle) : LTS (State B) (Act B) :=
  .ofFn (Initial h) (step h)

/-! ## What is to hold -/

/-- The manager knows nothing of the queue. -/
structure Forgotten (h : XQueueHandle) (r : Registry B) : Prop where
  queue : r.queues h = none
  null : r.queues 0 = none
  owner : ∀ region ∈ r.regions, region.owner ≠ h

/-- `Del` and all calls have returned. -/
def Finished (s : State B) : Prop := s.removed = true ∧ ∀ t, s.thread t = .idle

/-- The step does not call the manager for the removed queue, nor suspends queue 0. -/
def Meets (h : XQueueHandle) (s : State B) : Act B → Prop
  | .onSuspend t hook =>
    ∀ queue, s.thread t = .suspendHook queue → hook.admitsSuspend = true →
      queue ≠ 0 ∧ (queue = h → s.removed = false)
  | .beforeResume t hook _ =>
    ∀ queue, s.thread t = .resumeHook queue → hook.admitsResume queue = true →
      queue = h → s.removed = false
  | .setPriority _ _ => s.removed = false
  | _ => True

/-! ## One call -/

/-- A call writes no entry but that of its queue, and only a suspension may write
that of 0. -/
theorem run_queues (c : Call B) (r : Registry B) {q : XQueueHandle}
    (hne : queueOf c = q → q = 0 ∧ suspendsNone c = false) :
    (c.run r).queues q = r.queues q := by
  have hwrites := run_writes c r
  generalize (c.run r).queues = queues at hwrites
  cases hwrites with
  | nothing c => rfl
  | priority queue priority hqueue =>
    exact Function.update_of_ne (fun he => hqueue (he.symm.trans (hne he.symm).1)) ..
  | removal queue hqueue =>
    exact Function.update_of_ne (fun he => hqueue (he.symm.trans (hne he.symm).1)) ..
  | suspension sort env api backend context device queue hadmits =>
    refine Function.update_of_ne (fun he => ?_) ..
    obtain ⟨hzero, hnone⟩ := hne he.symm
    exact decide_eq_false_iff_not.1 hnone (he.symm.trans hzero)
  | resumption sort env api backend context device queue handles hadmits =>
    exact Function.update_of_ne
      (fun he => ne_zero_of_admitsResume hadmits (he.symm.trans (hne he.symm).1)) ..

theorem owner_of_adopt {backend : B} {context : Nat} {device : Int} {queue : XQueueHandle}
    {r : Registry B} {region : MemoryRegion B}
    (h : region ∈ (r.adoptContextRegions backend context device queue).regions) :
    region.owner = queue ∨ region ∈ r.regions := by
  unfold Registry.adoptContextRegions at h
  split at h
  · exact .inr h
  change region ∈ (adoptRegions _ queue r.regions r.clock).1 at h
  revert h
  generalize r.clock = clock
  induction r.regions generalizing clock with
  | nil => exact fun h => .inr h
  | cons v rs ih =>
    rw [adoptRegions]
    split
    · intro h
      rcases List.mem_cons.1 h with rfl | h
      · exact .inl rfl
      · exact (ih _ h).imp_right (List.mem_cons_of_mem v)
    · intro h
      rcases List.mem_cons.1 h with rfl | h
      · exact .inr List.mem_cons_self
      · exact (ih _ h).imp_right (List.mem_cons_of_mem v)

/-- A call makes nobody an owner but its queue. -/
theorem run_owner (c : Call B) (r : Registry B) {region : MemoryRegion B}
    (hin : region ∈ (c.run r).regions) :
    region.owner = queueOf c ∨ region.owner = 0 ∨ ∃ r₀ ∈ r.regions, r₀.owner = region.owner := by
  have hsame : region ∈ r.regions →
      region.owner = queueOf c ∨ region.owner = 0 ∨ ∃ r₀ ∈ r.regions, r₀.owner = region.owner :=
    fun h => .inr (.inr ⟨region, h, rfl⟩)
  cases c with
  | registerRegion env api backend ptr size context device owner =>
    unfold Call.run Registry.registerRegion at hin
    dsimp only at hin
    split at hin
    · exact hsame hin
    · rcases List.mem_cons.1 hin with rfl | hin
      · exact .inl rfl
      · exact hsame (List.mem_filter.1 hin).1
  | unregisterRegion env api backend ptr =>
    unfold Call.run Registry.unregisterRegion at hin
    dsimp only at hin
    split at hin
    · exact hsame hin
    · exact hsame (List.mem_filter.1 hin).1
  | touchRegion env api backend context device ptr owner =>
    unfold Call.run Registry.touchRegion at hin
    dsimp only at hin
    split at hin
    · exact hsame hin
    split at hin
    · exact hsame hin
    obtain ⟨r₀, hr₀, rfl⟩ := List.mem_map.1 hin
    split
    · exact .inl rfl
    · exact .inr (.inr ⟨r₀, hr₀, rfl⟩)
  | setQueuePriority queue priority =>
    unfold Call.run Registry.setQueuePriority at hin
    dsimp only at hin
    split at hin
    · exact hsame hin
    · exact hsame hin
  | removeQueue queue =>
    unfold Call.run Registry.removeQueue at hin
    dsimp only at hin
    split at hin
    · exact hsame hin
    obtain ⟨r₀, hr₀, rfl⟩ := List.mem_map.1 hin
    split
    · exact .inr (.inl rfl)
    · exact .inr (.inr ⟨r₀, hr₀, rfl⟩)
  | onQueueSuspend sort env api backend context device queue =>
    change region ∈ (r.onQueueSuspend sort env (fun b => (api b).toXpuMemoryBackend) backend context
      device queue).regions at hin
    by_cases hadmits : admits env (api backend).toXpuMemoryBackend context = true
    · rw [@onQueueSuspend_evicts B _ sort env (fun b => (api b).toXpuMemoryBackend) backend context
        device queue r hadmits] at hin
      obtain ⟨r₁, hr₁, hmoved, -⟩ := mem_of_evictAll hin
      have howner : region.owner = r₁.owner := by rw [hmoved]
      rw [howner]
      exact (owner_of_adopt hr₁).imp_right fun h => .inr ⟨r₁, h, rfl⟩
    · rw [Registry.onQueueSuspend, if_neg hadmits] at hin
      exact hsame hin
  | beforeQueueResume sort env api backend context device queue handles =>
    change region ∈ (r.beforeQueueResume sort env api backend context device queue
      handles).regions at hin
    by_cases hadmits : admitsResume env (api backend) context queue = true
    · rw [beforeQueueResume_prefetches sort device handles r hadmits] at hin
      obtain ⟨r₁, hr₁, hmoved⟩ := mem_of_prefetchAll hin
      have howner : region.owner = r₁.owner := by rw [hmoved]
      rw [howner]
      exact (owner_of_adopt hr₁).imp_right fun h => .inr ⟨r₁, h, rfl⟩
    · rw [Registry.beforeQueueResume, if_neg hadmits] at hin
      exact hsame hin
  | rehash regions =>
    unfold Call.run Registry.rehash at hin
    dsimp only at hin
    split at hin
    · next hperm => exact hsame (hperm.subset hin)
    · exact hsame hin

/-! ## One step -/

section
variable {h : XQueueHandle} {s s' : State B} {a : Act B}

/-- What a step does to the registry. -/
inductive Does (h : XQueueHandle) (s : State B) (a : Act B) (s' : State B) : Prop where
  | nothing (hregistry : s'.registry = s.registry) (hremoved : s'.removed = s.removed)
      (hmeets : Meets h s a)
  | removes (t : ThreadId) (hat : s.thread t = .detached)
      (hregistry : s'.registry = s.registry.removeQueue h) (hmeets : Meets h s a)
  | others (c : Call B) (hregistry : s'.registry = c.run s.registry)
      (hremoved : s'.removed = s.removed) (hqueue : s.removed = true → queueOf c ≠ h)
      (hnone : suspendsNone c = false) (hmeets : Meets h s a)
  | writes (c : Call B) (state : QueueState B) (hregistry : s'.registry = c.run s.registry)
      (hqueues : s'.registry.queues = update s.registry.queues (queueOf c) (some state))
      (hremoved : s'.removed = s.removed)
      (hmeets : Meets h s a ↔ queueOf c ≠ 0 ∧ (queueOf c = h → s.removed = false))

theorem step_does (hh : h ≠ 0) (hs : step h s a = some s') : Does h s a s' := by
  cases a with
  | get t =>
    unfold step at hs
    dsimp only at hs
    split at hs
    · cases hs
      exact .nothing rfl rfl trivial
    · cases hs
  | suspend t =>
    unfold step at hs
    dsimp only at hs
    split at hs
    · split at hs
      · cases hs
        exact .nothing rfl rfl trivial
      · cases hs
        exact .nothing rfl rfl trivial
    · cases hs
  | resume t =>
    unfold step at hs
    dsimp only at hs
    split at hs
    · split at hs
      · cases hs
        exact .nothing rfl rfl trivial
      · cases hs
        exact .nothing rfl rfl trivial
    · cases hs
  | readHandle t =>
    unfold step at hs
    dsimp only at hs
    split at hs
    · cases hs
      exact .nothing rfl rfl trivial
    · cases hs
      exact .nothing rfl rfl trivial
    · cases hs
  | onSuspend t hook =>
    unfold step at hs
    dsimp only at hs
    split at hs
    · next queue hat =>
      cases hs
      have hqueues := onQueueSuspend_queues hook.sort hook.env
        (fun b => (hook.api b).toXpuMemoryBackend) hook.backend hook.context hook.device queue
        s.registry
      have hmeets : Meets h s (.onSuspend t hook) ↔
          (hook.admitsSuspend = true → queue ≠ 0 ∧ (queue = h → s.removed = false)) := by
        refine ⟨fun hm => hm queue hat, fun hm queue' hat' => ?_⟩
        cases hat.symm.trans hat'
        exact hm
      by_cases hadmits : hook.admitsSuspend = true
      · exact .writes (.onQueueSuspend hook.sort hook.env hook.api hook.backend hook.context
          hook.device queue) _ rfl (hqueues.trans (if_pos hadmits)) rfl
          (hmeets.trans (forall_prop_of_true hadmits))
      · exact .nothing (if_neg hadmits) rfl (hmeets.2 fun hon => absurd hon hadmits)
    · cases hs
  | beforeResume t hook handles =>
    unfold step at hs
    dsimp only at hs
    split at hs
    · next queue hat =>
      cases hs
      have hqueues := beforeQueueResume_queues hook.sort hook.env hook.api hook.backend
        hook.context hook.device queue handles s.registry
      have hmeets : Meets h s (.beforeResume t hook handles) ↔
          (hook.admitsResume queue = true → queue = h → s.removed = false) := by
        refine ⟨fun hm => hm queue hat, fun hm queue' hat' => ?_⟩
        cases hat.symm.trans hat'
        exact hm
      by_cases hadmits : hook.admitsResume queue = true
      · refine .writes (.beforeQueueResume hook.sort hook.env hook.api hook.backend hook.context
          hook.device queue handles) _ rfl (hqueues.trans (if_pos hadmits)) rfl (hmeets.trans ?_)
        exact (forall_prop_of_true hadmits).trans
          (and_iff_right (ne_zero_of_admitsResume hadmits)).symm
      · exact .nothing (if_neg hadmits) rfl (hmeets.2 fun hon => absurd hon hadmits)
    · cases hs
  | hint t =>
    unfold step at hs
    dsimp only at hs
    split at hs
    · cases hs
      exact .nothing rfl rfl trivial
    · cases hs
  | setPriority t priority =>
    unfold step at hs
    dsimp only at hs
    split at hs
    · cases hs
      refine .writes (.setQueuePriority h priority)
        { (s.registry.queues h).getD {} with
          priority := min (max priority Sched.PRIORITY_MIN) Sched.PRIORITY_MAX } rfl ?_ rfl ?_
      · exact congrArg Registry.queues (if_neg hh)
      · exact ⟨fun hm => ⟨hh, fun _ => hm⟩, fun hm => hm.2 rfl⟩
    · cases hs
  | detach t =>
    unfold step at hs
    dsimp only at hs
    split at hs
    · cases hs
      exact .nothing rfl rfl trivial
    · cases hs
  | remove t =>
    unfold step at hs
    dsimp only at hs
    split at hs
    · next hat =>
      cases hs
      exact .removes t hat rfl trivial
    · cases hs
  | unlock t =>
    unfold step at hs
    dsimp only at hs
    split at hs
    · cases hs
      exact .nothing rfl rfl trivial
    · cases hs
  | add queue =>
    unfold step at hs
    dsimp only at hs
    split at hs
    · cases hs
      exact .nothing rfl rfl trivial
    · cases hs
  | call c =>
    unfold step at hs
    dsimp only at hs
    split at hs
    · next hc =>
      cases hs
      exact .others c rfl rfl hc.1 hc.2 trivial
    · cases hs

/-! ## Runs -/

/-- The manager has no entry for the queue, once it was removed, and none for 0. -/
def Absent (h : XQueueHandle) (s : State B) : Prop :=
  (s.removed = true → s.registry.queues h = none) ∧ s.registry.queues 0 = none

omit [DecidableEq B] in
/-- An entry is written that may be the one of the removed queue, or of 0. -/
theorem absent_update {queue : XQueueHandle} {state : QueueState B}
    (hqueues : s'.registry.queues = update s.registry.queues queue (some state))
    (hremoved : s'.removed = s.removed) :
    Absent h s' ↔ Absent h s ∧ queue ≠ 0 ∧ (queue = h → s.removed = false) := by
  unfold Absent
  rw [hqueues, hremoved]
  by_cases hnull : queue = 0
  · subst hnull
    rw [Function.update_self]
    exact ⟨fun hab => absurd hab.2 (Option.some_ne_none _), fun hm => absurd rfl hm.2.1⟩
  rw [Function.update_of_ne (Ne.symm hnull)]
  by_cases hq : queue = h
  · subst hq
    rw [Function.update_self]
    constructor
    · rintro ⟨hab, hnone⟩
      have hnot : s.removed = false := by
        cases hr : s.removed with
        | false => rfl
        | true => exact absurd (hab hr) (Option.some_ne_none _)
      exact ⟨⟨fun hr => absurd hr (by rw [hnot]; exact Bool.false_ne_true), hnone⟩, hnull,
        fun _ => hnot⟩
    · rintro ⟨⟨-, hnone⟩, -, hnot⟩
      exact ⟨fun hr => absurd hr (by rw [hnot rfl]; exact Bool.false_ne_true), hnone⟩
  · rw [Function.update_of_ne (Ne.symm hq)]
    exact ⟨fun hab => ⟨hab, hnull, fun he => absurd he hq⟩, fun hm => hm.1⟩

/-- Whether the call holds the lock. -/
def Pc.holds : Pc → Bool
  | .detached | .erased => true
  | _ => false

/-- `Del` holds the lock until it has removed the queue. -/
structure Locked (s : State B) : Prop where
  held : ∀ t, (s.thread t).holds = true → s.holder = some t
  detached : ∀ t, s.thread t = .detached → s.removed = false
  listed : s.listed = true → s.removed = false

omit [DecidableEq B] in
/-- A step of a thread without the lock. -/
theorem Locked.goto (hl : Locked s) {t : ThreadId} (pc : Pc)
    (hthread : s'.thread = update s.thread t pc) (hpc : pc.holds = false)
    (hholder : s'.holder = s.holder) (hlisted : s'.listed = s.listed)
    (hremoved : s'.removed = s.removed) : Locked s' := by
  have hother : ∀ t', (s'.thread t').holds = true → s'.thread t' = s.thread t' := by
    intro t' hat
    rw [hthread] at hat ⊢
    by_cases ht : t' = t
    · rw [ht, Function.update_self, hpc] at hat
      cases hat
    · rw [Function.update_of_ne ht]
  refine ⟨fun t' hat => ?_, fun t' hat => ?_, fun h => ?_⟩
  · rw [hholder]
    exact hl.held t' (hother t' hat ▸ hat)
  · rw [hremoved]
    exact hl.detached t' ((hother t' (by rw [hat]; rfl)).symm.trans hat)
  · rw [hremoved]
    exact hl.listed (hlisted ▸ h)

theorem locked_step (hl : Locked s) (hs : step h s a = some s') : Locked s' := by
  cases a with
  | get t =>
    unfold step at hs
    dsimp only at hs
    split at hs
    · cases hs
      exact hl.goto _ rfl rfl rfl rfl rfl
    · cases hs
  | suspend t =>
    unfold step at hs
    dsimp only at hs
    split at hs
    · split at hs
      · cases hs
        exact hl.goto _ rfl rfl rfl rfl rfl
      · cases hs
        exact hl.goto .suspending rfl rfl rfl rfl rfl
    · cases hs
  | resume t =>
    unfold step at hs
    dsimp only at hs
    split at hs
    · split at hs
      · cases hs
        exact hl.goto .resuming rfl rfl rfl rfl rfl
      · cases hs
        exact hl.goto _ rfl rfl rfl rfl rfl
    · cases hs
  | readHandle t =>
    unfold step at hs
    dsimp only at hs
    split at hs
    · cases hs
      exact hl.goto _ rfl rfl rfl rfl rfl
    · cases hs
      exact hl.goto _ rfl rfl rfl rfl rfl
    · cases hs
  | onSuspend t hook =>
    unfold step at hs
    dsimp only at hs
    split at hs
    · cases hs
      exact hl.goto .idle rfl rfl rfl rfl rfl
    · cases hs
  | beforeResume t hook handles =>
    unfold step at hs
    dsimp only at hs
    split at hs
    · cases hs
      exact hl.goto .idle rfl rfl rfl rfl rfl
    · cases hs
  | hint t =>
    unfold step at hs
    dsimp only at hs
    split at hs
    · cases hs
      exact hl.goto _ rfl rfl rfl rfl rfl
    · cases hs
  | setPriority t priority =>
    unfold step at hs
    dsimp only at hs
    split at hs
    · cases hs
      exact hl.goto .idle rfl rfl rfl rfl rfl
    · cases hs
  | detach t =>
    unfold step at hs
    dsimp only at hs
    split at hs
    · next hok =>
      obtain ⟨-, hfree, hlisted⟩ := hok
      cases hs
      refine ⟨fun t' hat => ?_, fun t' _ => hl.listed hlisted, hl.listed⟩
      by_cases ht : t' = t
      · rw [ht]
      · change (update s.thread t .detached t').holds = true at hat
        rw [Function.update_of_ne ht] at hat
        have hheld := hl.held t' hat
        rw [hfree] at hheld
        cases hheld
    · cases hs
  | remove t =>
    unfold step at hs
    dsimp only at hs
    split at hs
    · next hat₀ =>
      have hheld := hl.held t (by rw [hat₀]; rfl)
      cases hs
      refine ⟨fun t' hat => ?_, fun t' hat => ?_, fun h => absurd h Bool.false_ne_true⟩
      · by_cases ht : t' = t
        · rw [ht]
          exact hheld
        · change (update s.thread t .erased t').holds = true at hat
          rw [Function.update_of_ne ht] at hat
          exact hl.held t' hat
      · change update s.thread t .erased t' = _ at hat
        by_cases ht : t' = t
        · rw [ht, Function.update_self] at hat
          cases hat
        · rw [Function.update_of_ne ht] at hat
          have hheld' := hl.held t' (by rw [hat]; rfl)
          exact absurd (Option.some.inj (hheld'.symm.trans hheld)) ht
    · cases hs
  | unlock t =>
    unfold step at hs
    dsimp only at hs
    split at hs
    · next hat₀ =>
      have hheld := hl.held t (by rw [hat₀]; rfl)
      cases hs
      have hnone : ∀ t', (update s.thread t .unlocked t').holds = false := by
        intro t'
        by_cases ht : t' = t
        · rw [ht, Function.update_self]
          rfl
        · rw [Function.update_of_ne ht, Bool.eq_false_iff]
          exact fun hat => ht (Option.some.inj ((hl.held t' hat).symm.trans hheld))
      refine ⟨fun t' hat => absurd hat ?_, fun t' hat => ?_, hl.listed⟩
      · rw [Bool.not_eq_true]
        exact hnone t'
      · change update s.thread t .unlocked t' = .detached at hat
        have hholds := hnone t'
        rw [hat] at hholds
        cases hholds
    · cases hs
  | add queue =>
    unfold step at hs
    dsimp only at hs
    split at hs
    · cases hs
      exact ⟨hl.held, hl.detached, hl.listed⟩
    · cases hs
  | call c =>
    unfold step at hs
    dsimp only at hs
    split at hs
    · cases hs
      exact ⟨hl.held, hl.detached, hl.listed⟩
    · cases hs

theorem locked_reachable (hr : (system B h).Reachable s) : Locked s := by
  refine LTS.reachable_induction (M := system B h) (fun s h0 => ?_)
    (fun s a s' _ hl hs => locked_step hl hs) hr
  refine ⟨fun t hat => ?_, fun _ _ => h0.removed, fun _ => h0.removed⟩
  rw [h0.thread t] at hat
  cases hat

/-- A region of the removed queue was adopted by a hook that made an entry. -/
def AdoptedWithEntry (h : XQueueHandle) (s : State B) : Prop :=
  s.removed = true → ∀ region ∈ s.registry.regions, region.owner = h → s.registry.queues h ≠ none

theorem adoptedWithEntry_reachable (hh : h ≠ 0) (hr : (system B h).Reachable s) :
    AdoptedWithEntry h s := by
  refine LTS.reachable_induction (M := system B h) (fun s h0 => ?_) (fun s a s' hr hi hs => ?_) hr
  · intro hremoved
    rw [h0.removed] at hremoved
    cases hremoved
  · change step h s a = some s' at hs
    intro hremoved' region hin howner
    cases step_does hh hs with
    | nothing hregistry hremoved hmeets =>
      rw [hregistry] at hin ⊢
      exact hi (hremoved ▸ hremoved') region hin howner
    | removes t hat hregistry hmeets =>
      rw [hregistry, Registry.removeQueue, if_neg hh] at hin
      obtain ⟨r₀, -, rfl⟩ := List.mem_map.1 hin
      split at howner
      · exact absurd howner.symm hh
      · next hne => exact absurd howner hne
    | others c hregistry hremoved hqueue hnone hmeets =>
      have hne := hqueue (hremoved ▸ hremoved')
      rw [hregistry] at hin ⊢
      rw [run_queues c s.registry fun he => absurd he hne]
      rcases run_owner c s.registry hin with hown | hown | ⟨r₀, hr₀, hown⟩
      · exact absurd (hown.symm.trans howner) hne
      · exact absurd (howner.symm.trans hown) hh
      · exact hi (hremoved ▸ hremoved') r₀ hr₀ (hown.trans howner)
    | writes c state hregistry hqueues hremoved hmeets =>
      rw [hqueues]
      by_cases hq : queueOf c = h
      · rw [hq, Function.update_self]
        exact Option.some_ne_none _
      · rw [Function.update_of_ne (Ne.symm hq)]
        rw [hregistry] at hin
        rcases run_owner c s.registry hin with hown | hown | ⟨r₀, hr₀, hown⟩
        · exact absurd (hown.symm.trans howner) hq
        · exact absurd (howner.symm.trans hown) hh
        · exact hi (hremoved ▸ hremoved') r₀ hr₀ (hown.trans howner)

/-- One step: no entry is made exactly where the step meets the condition. -/
theorem absent_step (hh : h ≠ 0) (hr : (system B h).Reachable s) (hs : step h s a = some s') :
    Absent h s' ↔ Absent h s ∧ Meets h s a := by
  cases step_does hh hs with
  | nothing hregistry hremoved hmeets =>
    unfold Absent
    rw [hregistry, hremoved]
    exact (and_iff_left hmeets).symm
  | removes t hat hregistry hmeets =>
    have hbefore := (locked_reachable hr).detached t hat
    rw [and_iff_left hmeets]
    unfold Absent
    rw [hregistry, hbefore, Registry.removeQueue, if_neg hh]
    change (_ → update s.registry.queues h none h = none) ∧ update s.registry.queues h none 0 = none ↔ _
    rw [Function.update_self, Function.update_of_ne (Ne.symm hh)]
    exact and_congr (iff_of_true (fun _ => rfl) fun hf => absurd hf Bool.false_ne_true) Iff.rfl
  | others c hregistry hremoved hqueue hnone hmeets =>
    rw [and_iff_left hmeets]
    unfold Absent
    rw [hregistry, hremoved, run_queues c s.registry (q := 0) fun _ => ⟨rfl, hnone⟩]
    refine and_congr_left fun _ => forall_congr' fun hrem => ?_
    rw [run_queues c s.registry fun he => absurd he (hqueue hrem)]
  | writes c state hregistry hqueues hremoved hmeets =>
    rw [hmeets]
    exact absent_update hqueues hremoved

omit [DecidableEq B] in
theorem absent_init (h0 : Initial h s) : Absent h s :=
  ⟨fun hr => absurd hr (by rw [h0.removed]; exact Bool.false_ne_true), h0.none⟩

/-- **Removed queues stay removed.** When `Del` and all calls that were under way
have returned, the manager has no entry for the destroyed handle or for 0 and no
region of it if and only if each step of the run meets the condition. -/
theorem removed_stay_removed (hh : h ≠ 0) {s₀ : State B} (h0 : Initial h s₀) {acts : List (Act B)}
    (hrun : (system B h).Run s₀ acts s) (hfin : Finished s) :
    Forgotten h s.registry ↔ ((system B h).restrict (Meets h)).Run s₀ acts s := by
  have hr₀ : (system B h).Reachable s₀ := (system B h).reachable_init h0
  refine Iff.trans ⟨fun hf => ⟨fun _ => hf.queue, hf.null⟩, fun hab => ?_⟩
    (LTS.Run.restrict_iff (P := Absent h) (fun _ _ _ hr hs => absent_step hh hr hs) hrun hr₀
      (absent_init h0))
  refine ⟨hab.1 hfin.1, hab.2, fun region hin howner => ?_⟩
  exact adoptedWithEntry_reachable hh (hr₀.run hrun) hfin.1 region hin howner (hab.1 hfin.1)

end

/-! ## What comes back -/

/-- Queue 1 is active and has one region, and there is a region of nobody. -/
def start : State Unit where
  registry :=
    { regions := [⟨some (), 1, 60, 1, 0, 1, true, 1⟩, ⟨some (), 2, 60, 1, 0, 0, true, 2⟩]
      queues := update (fun _ => none) 1 (some { backend := some (), context := 1, active := true })
      clock := 2
      keys := by decide }
  queue := 1
  listed := true
  holder := none
  suspended := false
  thread := fun _ => .idle
  removed := false

theorem initial_start : Initial 1 start := ⟨rfl, rfl, fun _ => rfl, rfl, rfl⟩

/-- `Del`, up to its `Resume`. -/
def del : List (Act Unit) := [.detach 0, .remove 0, .unlock 0]

/-- The hook of the last `Resume`, which finds no handle. -/
def delResume : List (Act Unit) := [.resume 0, .readHandle 0, .beforeResume 0 ActiveQueues.hookOn []]

/-- A hint, and a suspension, both done before `Del` begins. -/
def early : List (Act Unit) :=
  [.hint 1, .setPriority 1 5, .get 2, .suspend 2, .readHandle 2, .onSuspend 2 ActiveQueues.hookOn] ++
    del ++ delResume

def lateHint : List (Act Unit) := .hint 1 :: del ++ [.resume 0, .setPriority 1 5]

/-- The handle is read before `Del`. -/
def lateSuspend : List (Act Unit) :=
  [.get 1, .suspend 1, .readHandle 1] ++ del ++ [.onSuspend 1 ActiveQueues.hookOn] ++ delResume

/-- The handle is read after `Del` took the XQueue off. -/
def nullSuspend : List (Act Unit) :=
  [.get 1, .suspend 1] ++ del ++ [.readHandle 1, .onSuspend 1 ActiveQueues.hookOn] ++ delResume

/-- The state after these steps. -/
def after (acts : List (Act Unit)) : State Unit := (LTS.exec (step 1) start acts).getD start

theorem exec_after {acts : List (Act Unit)} (h : (LTS.exec (step 1) start acts).isSome = true) :
    LTS.exec (step 1) start acts = some (after acts) := by
  obtain ⟨s, hs⟩ := Option.isSome_iff_exists.1 h
  rw [after, hs]
  rfl

theorem run_after {acts : List (Act Unit)} (h : (LTS.exec (step 1) start acts).isSome = true) :
    (system Unit 1).Run start acts (after acts) :=
  LTS.run_of_exec (exec_after h)

/-- Only the threads 0, 1 and 2 took steps. -/
theorem finished_after {acts : List (Act Unit)} (hremoved : (after acts).removed = true)
    (h0 : (after acts).thread 0 = .idle) (h1 : (after acts).thread 1 = .idle)
    (h2 : (after acts).thread 2 = .idle)
    (hrest : ∀ t, t ≠ 0 → t ≠ 1 → t ≠ 2 → (after acts).thread t = .idle) : Finished (after acts) := by
  refine ⟨hremoved, fun t => ?_⟩
  by_cases ht0 : t = 0
  · rw [ht0, h0]
  by_cases ht1 : t = 1
  · rw [ht1, h1]
  by_cases ht2 : t = 2
  · rw [ht2, h2]
  · exact hrest t ht0 ht1 ht2

theorem removed_stay_removed_early :
    Forgotten 1 (after early).registry ∧
      ((system Unit 1).restrict (Meets 1)).Run start early (after early) := by
  have hfin : Finished (after early) := by
    refine finished_after (by decide) (by decide) (by decide) (by decide) fun t _ _ _ => ?_
    simp [after, early, del, delResume, LTS.exec, step, State.goto, start]
  have hrun : (system Unit 1).Run start early (after early) := run_after (by decide)
  have hiff := removed_stay_removed (by decide) initial_start hrun hfin
  have hforgotten : Forgotten 1 (after early).registry := ⟨by decide, by decide, by decide⟩
  exact ⟨hforgotten, hiff.1 hforgotten⟩

/-- A hint makes a new entry, a suspension takes the regions of nobody for the
queue, and one that found no handle makes an entry for 0. -/
theorem removed_comes_back :
    ((system Unit 1).Run start lateHint (after lateHint) ∧ Finished (after lateHint) ∧
      (after lateHint).registry.queues 1 ≠ none) ∧
    ((system Unit 1).Run start lateSuspend (after lateSuspend) ∧ Finished (after lateSuspend) ∧
      (after lateSuspend).registry.queues 1 ≠ none ∧
      ∃ region ∈ (after lateSuspend).registry.regions, region.owner = 1) ∧
    ((system Unit 1).Run start nullSuspend (after nullSuspend) ∧ Finished (after nullSuspend) ∧
      (after nullSuspend).registry.queues 0 ≠ none) := by
  have hhint : Finished (after lateHint) := by
    refine finished_after (by decide) (by decide) (by decide) (by decide) fun t h0 h1 _ => ?_
    simp [after, lateHint, del, LTS.exec, step, State.goto, start, h0, h1]
  have hsuspend : Finished (after lateSuspend) := by
    refine finished_after (by decide) (by decide) (by decide) (by decide) fun t h0 h1 _ => ?_
    simp [after, lateSuspend, del, delResume, LTS.exec, step, State.goto, start, h0, h1]
  have hnull : Finished (after nullSuspend) := by
    refine finished_after (by decide) (by decide) (by decide) (by decide) fun t h0 h1 _ => ?_
    simp [after, nullSuspend, del, delResume, LTS.exec, step, State.goto, start, h0, h1]
  exact ⟨⟨run_after (by decide), hhint, by decide⟩,
    ⟨run_after (by decide), hsuspend, by decide, by decide⟩, run_after (by decide), hnull, by decide⟩

end RemovedQueues
end Admission
end Xsched.Preempt
