import Xsched.Preempt.Prefetch

/-!
# Running queues and active queues

The memory manager is to evict the regions of suspended queues before those of
running ones. It goes by `active`, which the hooks of `Suspend` and `Resume`
write: a queue that was never resumed is not active, and neither hook writes it
where the manager is off or the backend cannot do what the hook would ask for.

**What active means.** In every run a queue is active exactly if the last hook
of it that was admitted was one of a resume (`active_iff_resumed`).

**The break.** So a queue that runs, but was never suspended and resumed, is
taken for a suspended one.

**Results.**
* `running_evicted_last`: a suspension leaves `active` true exactly for the queues
  that run if and only if that holds of the hooks (`Told`), and then it evicts
  no region of a running queue while one of a suspended queue stays.
* `running_evicted_first`: a queue that was never suspended loses its region to
  the suspension of another, and that of a suspended queue stays.
-/
namespace Xsched.Preempt
namespace Admission
namespace ActiveQueues

open Sched (XQueueHandle)
open Function (update)

variable {B : Type} [DecidableEq B]

/-! ## The system -/

/-- What a hook finds: the environment, the answers of the backend, and where
the HwQueue is. -/
structure Hook (B : Type) where
  sort : StdSort (MemoryRegion B)
  env : Env
  api : B → PrefetchBackend
  backend : B
  context : Nat
  device : Int

/-- `suspended`: the XQueues there are, with `suspended_`. `resumed` is a ghost:
whether the last hook of the handle that was admitted was one of a resume. -/
structure State (B : Type) where
  registry : Registry B
  suspended : XQueueHandle → Option Bool
  resumed : XQueueHandle → Bool

inductive Act (B : Type) where
  | create (queue : XQueueHandle)
  | call (c : Call B)
  | suspend (queue : XQueueHandle) (hook : Hook B)
  | resume (queue : XQueueHandle) (hook : Hook B) (handles : List XQueueHandle)

/-- The calls for regions, and the hints. -/
def plain : Call B → Bool
  | .onQueueSuspend .. | .beforeQueueResume .. | .removeQueue .. => false
  | _ => true

/-- `OnQueueSuspend` does something. -/
def Hook.admitsSuspend (hook : Hook B) : Bool :=
  admits hook.env (hook.api hook.backend).toXpuMemoryBackend hook.context

def Hook.admitsResume (hook : Hook B) (queue : XQueueHandle) : Bool :=
  Admission.admitsResume hook.env (hook.api hook.backend) hook.context queue

/-- mirrors preempt/src/xqueue/async_xqueue.cpp:94-113; the hook is
platforms/cuda/hal/src/level1/cuda_queue.cpp:70-78 -/
def suspend (queue : XQueueHandle) (hook : Hook B) (s : State B) : Option (State B) :=
  match s.suspended queue with
  | none => none
  | some true => some s
  | some false =>
    some
      { registry := s.registry.onQueueSuspend hook.sort hook.env
          (fun b => (hook.api b).toXpuMemoryBackend) hook.backend hook.context hook.device queue
        suspended := update s.suspended queue (some true)
        resumed := if hook.admitsSuspend then update s.resumed queue false else s.resumed }

/-- mirrors preempt/src/xqueue/async_xqueue.cpp:122-129; the hook is
platforms/cuda/hal/src/level1/cuda_queue.cpp:80-88 -/
def resume (queue : XQueueHandle) (hook : Hook B) (handles : List XQueueHandle) (s : State B) :
    Option (State B) :=
  match s.suspended queue with
  | none => none
  | some false => some s
  | some true =>
    some
      { registry := s.registry.beforeQueueResume hook.sort hook.env hook.api hook.backend
          hook.context hook.device queue handles
        suspended := update s.suspended queue (some false)
        resumed := if hook.admitsResume queue then update s.resumed queue true else s.resumed }

def step (s : State B) : Act B → Option (State B)
  | .create queue =>
    match s.suspended queue with
    | none => some { s with suspended := update s.suspended queue (some false) }
    | some _ => none
  | .call c => if plain c then some { s with registry := c.run s.registry } else none
  | .suspend queue hook => suspend queue hook s
  | .resume queue hook handles => resume queue hook handles s

def init : State B := ⟨.empty, fun _ => none, fun _ => false⟩

def system (B : Type) [DecidableEq B] : LTS (State B) (Act B) := .ofFn (· = init) step

/-! ## What active means -/

/-- The manager takes the queue for an active one. -/
def State.active (s : State B) (h : XQueueHandle) : Bool := (s.registry.queues h).any (·.active)

omit [DecidableEq B] in
theorem any_active_update (queues : XQueueHandle → Option (QueueState B)) (queue h : XQueueHandle)
    (state : QueueState B) :
    (update queues queue (some state) h).any (·.active) =
      update (fun h => (queues h).any (·.active)) queue state.active h := by
  by_cases he : h = queue
  · subst he
    rw [Function.update_self, Function.update_self, Option.any_some]
  · rw [Function.update_of_ne he, Function.update_of_ne he]

/-- Regions and hints leave the queues as active as they were. -/
theorem plain_active {c : Call B} (hc : plain c = true) (r : Registry B) (h : XQueueHandle) :
    ((c.run r).queues h).any (·.active) = (r.queues h).any (·.active) := by
  have hwrites := run_writes c r
  generalize (c.run r).queues = queues at hwrites
  cases hwrites with
  | nothing c => rfl
  | priority queue priority hqueue =>
    rw [any_active_update]
    by_cases he : h = queue
    · subst he
      rw [Function.update_self]
      cases r.queues h with
      | none => rfl
      | some state => rfl
    · rw [Function.update_of_ne he]
  | removal | suspension | resumption => cases hc

/-- Active are the queues whose last admitted hook was one of a resume. -/
theorem active_iff_resumed {s : State B} (hr : (system B).Reachable s) (h : XQueueHandle) :
    s.active h = s.resumed h := by
  refine LTS.reachable_induction (M := system B) (I := fun s => ∀ h, s.active h = s.resumed h)
    ?_ ?_ hr h
  · rintro s rfl h
    rfl
  · intro s a s' _ hi hs h
    change step s a = some s' at hs
    cases a with
    | create queue =>
      unfold step at hs
      dsimp only at hs
      split at hs
      · cases hs
        exact hi h
      · cases hs
    | call c =>
      unfold step at hs
      dsimp only at hs
      split at hs
      · next hc =>
        cases hs
        exact (plain_active hc s.registry h).trans (hi h)
      · cases hs
    | suspend queue hook =>
      change suspend queue hook s = some s' at hs
      unfold suspend at hs
      split at hs
      · cases hs
      · cases hs
        exact hi h
      · cases hs
        unfold State.active Hook.admitsSuspend
        dsimp only
        rw [onQueueSuspend_queues]
        by_cases hadmits : admits hook.env (hook.api hook.backend).toXpuMemoryBackend hook.context
        · rw [if_pos hadmits, if_pos hadmits]
          refine (any_active_update ..).trans ?_
          rw [show (fun h => (s.registry.queues h).any (·.active)) = s.resumed from funext hi]
        · rw [if_neg hadmits, if_neg hadmits]
          exact hi h
    | resume queue hook handles =>
      change resume queue hook handles s = some s' at hs
      unfold resume at hs
      split at hs
      · cases hs
      · cases hs
        exact hi h
      · cases hs
        unfold State.active Hook.admitsResume
        dsimp only
        rw [beforeQueueResume_queues]
        by_cases hadmits : Admission.admitsResume hook.env (hook.api hook.backend) hook.context queue
        · rw [if_pos hadmits, if_pos hadmits]
          refine (any_active_update ..).trans ?_
          rw [show (fun h => (s.registry.queues h).any (·.active)) = s.resumed from funext hi]
        · rw [if_neg hadmits, if_neg hadmits]
          exact hi h

/-! ## What is evicted -/

/-- No region of a running queue went from this context while one of a suspended
queue stayed. -/
def EvictedLast (hook : Hook B) (s s' : State B) : Prop :=
  ∀ r ∈ s'.registry.regions, ∀ v ∈ s'.registry.regions,
    r.within hook.backend hook.context hook.device = true →
    v.within hook.backend hook.context hook.device = true →
    s.registry.residentAt r.ptr = true → r.resident = false →
    s'.suspended r.owner = some false → s'.suspended v.owner = some true → v.resident = false

/-- The manager's view of the XQueues is right. -/
def Truthful (s : State B) : Prop :=
  ∀ h suspended, s.suspended h = some suspended → s.active h = !suspended

/-- In this order: the region of an active owner goes only after those of the
others. -/
theorem inactive_first (sort : StdSort (MemoryRegion B)) (env : Env) {api : B → XpuMemoryBackend}
    {backend : B} {context : Nat} {device : Int} {t : Registry B}
    (hevict : ∀ ptr size, (api backend).evictToHost context device ptr size = true)
    {r v : MemoryRegion B} (hr : r ∈ t.evicts sort env api backend context device)
    (hv : v ∈ t.residents backend context device) (hactive : t.ownerActive r = true)
    (hinactive : t.ownerActive v = false) : v ∈ t.evicts sort env api backend context device := by
  by_contra hout
  have hperm := sort.perm t.victimBefore (t.residents backend context device)
  have hle := prefix_before (evicts_front sort env t hevict) (sort_coldness sort t _) hr
    (hperm.mem_iff.2 hv) hout
  unfold Registry.coldness at hle
  rw [hactive, hinactive, Prod.Lex.toLex_le_toLex] at hle
  rcases hle with hlt | ⟨heq, -⟩
  · change true < false at hlt
    exact absurd hlt (by decide)
  · cases heq

/-- Where a region of an active owner went, none of an inactive owner is left. -/
theorem not_resident_of_inactive (sort : StdSort (MemoryRegion B)) (env : Env)
    {api : B → XpuMemoryBackend} {backend : B} {context : Nat} {device : Int} {t : Registry B}
    (hevict : ∀ ptr size, (api backend).evictToHost context device ptr size = true)
    {t' : Registry B} (ht' : t' = t.evictAll (t.evicts sort env api backend context device))
    {r v : MemoryRegion B} (hr : r ∈ t'.regions) (hbefore : t.residentAt r.ptr = true)
    (hgone : r.resident = false) (hv : v ∈ t'.regions)
    (hvin : v.within backend context device = true) (hractive : t'.ownerActive r = true)
    (hvinactive : t'.ownerActive v = false) : v.resident = false := by
  by_contra hstays
  rw [Bool.not_eq_false] at hstays
  have hqueues : t'.queues = t.queues := by rw [ht', evictAll_queues]
  have hafter := (residentAt_of_mem hr).trans hgone
  have hvafter := (residentAt_of_mem hv).trans hstays
  subst ht'
  rw [residentAt_evictAll] at hafter hvafter
  -- `r` is one of the regions that went
  rw [hbefore, Bool.true_and, decide_eq_false_iff_not, not_not] at hafter
  obtain ⟨g, hg, hgptr⟩ := List.mem_map.1 hafter
  have hgmem := ((moved_of_sublist sort (evicts_sublist ..)).1 g hg).1
  obtain ⟨r₀, hr₀, hrmoved, -⟩ := mem_of_evictAll hr
  have hgr : g = r₀ := by
    refine List.inj_on_of_nodup_map t.keys hgmem hr₀ (hgptr.trans ?_)
    rw [hrmoved]
  have hrowner : g.owner = r.owner := by rw [hgr, hrmoved]
  have hgactive : t.ownerActive g = true := by
    unfold Registry.ownerActive at hractive ⊢
    rw [hrowner, ← hqueues]
    exact hractive
  -- `v` is one that did not
  rw [Bool.and_eq_true, decide_eq_true_eq] at hvafter
  obtain ⟨v₀, hv₀, -, hvsame⟩ := mem_of_evictAll hv
  have hvres : v ∈ t.residents backend context device :=
    List.mem_filter.2 ⟨hvsame hvafter.2 ▸ hv₀, by rw [hvin, hstays]; rfl⟩
  have hvinactive : t.ownerActive v = false := by
    unfold Registry.ownerActive at hvinactive ⊢
    rw [← hqueues]
    exact hvinactive
  exact hvafter.2 (List.mem_map_of_mem
    (inactive_first sort env hevict hg hvres hgactive hvinactive))

/-- The hooks tell the manager what `Suspend` and `Resume` did: the last hook of a
running queue that was admitted was one of a resume, that of a suspended queue
was not, and the hook of this suspension is admitted, or there is nothing to
take back. -/
def Told (queue : XQueueHandle) (hook : Hook B) (s : State B) : Prop :=
  (∀ h ≠ queue, ∀ suspended, s.suspended h = some suspended → s.resumed h = !suspended) ∧
    (hook.admitsSuspend = true ∨ s.resumed queue = false)

section
variable {s s' : State B} {queue : XQueueHandle} {hook : Hook B}

/-- The suspension of a running queue. -/
theorem suspend_eq (hrun : s.suspended queue = some false) (hs : suspend queue hook s = some s') :
    s'.registry = s.registry.onQueueSuspend hook.sort hook.env
      (fun b => (hook.api b).toXpuMemoryBackend) hook.backend hook.context hook.device queue ∧
    s'.suspended = update s.suspended queue (some true) ∧
    s'.resumed = if hook.admitsSuspend then update s.resumed queue false else s.resumed := by
  unfold suspend at hs
  rw [hrun] at hs
  cases hs
  exact ⟨rfl, rfl, rfl⟩

/-- After a suspension the manager is right about the queues if and only if the
hooks told it. -/
theorem truthful_iff_told (hr : (system B).Reachable s) (hrun : s.suspended queue = some false)
    (hs : suspend queue hook s = some s') : Truthful s' ↔ Told queue hook s := by
  have hr' : (system B).Reachable s' := hr.step (l := .suspend queue hook) hs
  obtain ⟨-, hsuspended, hresumed⟩ := suspend_eq hrun hs
  have hactive : ∀ h, s'.active h =
      if hook.admitsSuspend then update s.resumed queue false h else s.resumed h := by
    intro h
    rw [active_iff_resumed hr', hresumed]
    split
    · rfl
    · rfl
  unfold Truthful Told
  simp only [hactive, hsuspended]
  constructor
  · intro htrue
    refine ⟨fun h hne suspended hsus => ?_, ?_⟩
    · have h := htrue h suspended (by rw [Function.update_of_ne hne]; exact hsus)
      rwa [Function.update_of_ne hne, ite_self] at h
    · have h := htrue queue true (Function.update_self ..)
      by_cases hadmits : hook.admitsSuspend = true
      · exact .inl hadmits
      · rw [if_neg hadmits] at h
        exact .inr h
  · rintro ⟨hothers, hself⟩ h suspended hsus
    by_cases hne : h = queue
    · subst hne
      rw [Function.update_self] at hsus ⊢
      cases hsus
      by_cases hadmits : hook.admitsSuspend = true
      · rw [if_pos hadmits]
        rfl
      · rw [if_neg hadmits]
        exact hself.resolve_left hadmits
    · rw [Function.update_of_ne hne] at hsus ⊢
      rw [ite_self]
      exact hothers h hne suspended hsus

/-- A suspension in whose end the manager is right evicts running queues last. -/
theorem evictedLast_of_truthful (hrun : s.suspended queue = some false)
    (hs : suspend queue hook s = some s') (htrue : Truthful s')
    (hevict : ∀ ptr size,
      (hook.api hook.backend).evictToHost hook.context hook.device ptr size = true) :
    EvictedLast hook s s' := by
  obtain ⟨hregistry, -, -⟩ := suspend_eq hrun hs
  intro r hr v hv hrin hvin hbefore hgone hrrun hvsus
  have hractive : s'.registry.ownerActive r = true := htrue r.owner false hrrun
  have hvinactive : s'.registry.ownerActive v = false := htrue v.owner true hvsus
  by_cases hadmits : admits hook.env (hook.api hook.backend).toXpuMemoryBackend hook.context = true
  · rw [onQueueSuspend_evicts hook.sort hook.device queue s.registry hadmits] at hregistry
    refine not_resident_of_inactive hook.sort hook.env hevict hregistry hr ?_ hgone hv hvin
      hractive hvinactive
    rw [residentAt_adopted]
    exact hbefore
  · -- nothing happened, but `r` is gone
    unfold Registry.onQueueSuspend at hregistry
    rw [if_neg hadmits] at hregistry
    rw [← hregistry, residentAt_of_mem hr, hgone] at hbefore
    cases hbefore

/-- **Running queues are evicted last.** In every run, after the suspension of a
running queue the manager is right about every XQueue exactly if the hooks told
it, and then, where the backend can evict, the suspension took no region of a
running queue while one of a suspended queue of the same backend, context and
device stayed. -/
theorem running_evicted_last (hr : (system B).Reachable s)
    (hs : step s (.suspend queue hook) = some s') (hrun : s.suspended queue = some false) :
    (Truthful s' ↔ Told queue hook s) ∧
    (Told queue hook s →
      (∀ ptr size, (hook.api hook.backend).evictToHost hook.context hook.device ptr size = true) →
      EvictedLast hook s s') :=
  ⟨truthful_iff_told hr hrun hs, fun htold hevict =>
    evictedLast_of_truthful hrun hs ((truthful_iff_told hr hrun hs).2 htold) hevict⟩

end

/-! ## A queue that was never suspended -/

/-- The manager is on, and all else is as by default. -/
def envOn : Env := fun name => if name = kEnableEnv then some ['1'] else none

/-- A backend that can do everything, on a device of 200 bytes. -/
def hookOn : Hook Unit where
  sort := stableSort _
  env := envOn
  api _ :=
    { enabled := true
      caps := ⟨true, true⟩
      queryMemory := fun _ _ => some (200, 200)
      evictToHost := fun _ _ _ _ => true
      asyncPrefetch := true
      prefetchToDevice := fun _ _ _ _ => true }
  backend := ()
  context := 1
  device := 0

/-- A queue registers 60 bytes. -/
def register (ptr : Nat) (owner : XQueueHandle) : Act Unit :=
  .call (.registerRegion envOn hookOn.api () ptr 60 1 0 owner)

/-- Queue 1 has been suspended and resumed, and queue 2 is suspended. -/
def resumedQueue : List (Act Unit) :=
  [.create 1, .create 2, .create 3, register 1 1, .suspend 1 hookOn, .resume 1 hookOn [1],
    register 2 2, .suspend 2 hookOn, register 3 3]

/-- Queue 1 runs, queue 2 is suspended, and then there is a third. -/
def threeQueues : List (Act Unit) :=
  [.create 1, .create 2, register 1 1, register 2 2, .suspend 2 hookOn, .create 3, register 3 3]

/-- The state after these steps. -/
def after (acts : List (Act Unit)) : State Unit := (LTS.exec step init acts).getD init

theorem exec_after {acts : List (Act Unit)} (h : (LTS.exec step init acts).isSome = true) :
    LTS.exec step init acts = some (after acts) := by
  obtain ⟨s, hs⟩ := Option.isSome_iff_exists.1 h
  rw [after, hs]
  rfl

theorem reachable_after {acts : List (Act Unit)} (h : (LTS.exec step init acts).isSome = true) :
    (system Unit).Reachable (after acts) :=
  LTS.reachable_of_exec rfl (exec_after h)

theorem step_after {acts : List (Act Unit)} {a : Act Unit}
    (h : (LTS.exec step init acts).isSome = true)
    (h' : (LTS.exec step init (acts ++ [a])).isSome = true) :
    step (after acts) a = some (after (acts ++ [a])) := by
  have hboth := exec_after h'
  rw [LTS.exec_append (exec_after h)] at hboth
  obtain ⟨s', hs', hlast⟩ := Option.bind_eq_some_iff.1 hboth
  exact hs'.trans hlast

theorem told_resumedQueue : Told 3 hookOn (after resumedQueue) := by
  refine ⟨fun h hne suspended hsus => ?_, .inl (by decide)⟩
  change update (update (update (update (update (update (fun _ => none) 1 (some false)) 2
    (some false)) 3 (some false)) 1 (some true)) 1 (some false)) 2 (some true) h =
      some suspended at hsus
  by_cases h2 : h = 2
  · subst h2
    cases hsus
    decide
  by_cases h1 : h = 1
  · subst h1
    cases hsus
    decide
  · simp only [Function.update_apply, if_neg hne, if_neg h1, if_neg h2] at hsus
    cases hsus

/-- The suspension of queue 3 takes the region of queue 2; that of queue 1, which runs, stays. -/
theorem running_evicted_last_resumed :
    let s' := after (resumedQueue ++ [.suspend 3 hookOn])
    s'.suspended 1 = some false ∧ s'.suspended 2 = some true ∧
    (s'.registry.residentAt 1, s'.registry.residentAt 2) = (true, false) ∧
    Truthful s' ∧ EvictedLast hookOn (after resumedQueue) s' := by
  intro s'
  have hr : (system Unit).Reachable (after resumedQueue) := reachable_after (by decide)
  have hs : step (after resumedQueue) (.suspend 3 hookOn) = some s' :=
    step_after (by decide) (by decide)
  obtain ⟨hiff, hlast⟩ := running_evicted_last hr hs (by decide)
  exact ⟨by decide, by decide, by decide, hiff.2 told_resumedQueue,
    hlast told_resumedQueue fun _ _ => rfl⟩

/-- The region of queue 1, which runs, goes, and that of queue 2, which is
suspended, stays. -/
theorem running_evicted_first :
    let s := after threeQueues
    let s' := after (threeQueues ++ [.suspend 3 hookOn])
    (system Unit).Reachable s ∧ step s (.suspend 3 hookOn) = some s' ∧
    s'.suspended 1 = some false ∧ s'.active 1 = false ∧
    ¬ Truthful s' ∧ ¬ EvictedLast hookOn s s' := by
  refine ⟨reachable_after (by decide), step_after (by decide) (by decide), by decide, by decide,
    fun htrue => ?_, fun hlast => ?_⟩
  · exact absurd (htrue 1 false (by decide)) (by decide)
  · exact absurd (hlast ⟨some (), 1, 60, 1, 0, 1, false, 4⟩ (by decide)
      ⟨some (), 2, 60, 1, 0, 2, true, 2⟩ (by decide) (by decide) (by decide) (by decide) (by decide)
      (by decide) (by decide)) (by decide)

end ActiveQueues
end Admission
end Xsched.Preempt
