import Xsched.Sched.HintPolicies
import Xsched.Sched.Memory
import Xsched.Sched.TimePolicies

/-!
# What each policy keeps

The memories of the nine policies that keep something for each XQueue, and
that they are sound: two policy states with the same memory are not told
apart by any later hint or `Sched`.

* HPF, HHPF and IAH keep a priority, and no priority is the default one.
* KEDF keeps a deadline or none, LAX a laxity with its priorities or none.
* CFS keeps a node or none, without its `priority`, which nothing reads, and
  without the time of the last resume while the XQueue is not running.
* MLFQ keeps a node or none, without `i_a` and `q_a`, which nothing reads, and
  again without the time of the last resume of an XQueue that is not running.
* SLO keeps an info, likewise, and no info is the default one.
* UP keeps a utilization or none, and the end of the slice of the current
  XQueue.
-/
namespace Xsched.Sched

/-! ## Priorities -/

theorem getPriority_recvPriority (p : Priorities) (hint : Hint) (h : XQueueHandle) :
    getPriority (recvPriority p hint) h =
      match hint with
      | .priority handle prio => if h = handle then clampPriority prio else getPriority p h
      | _ => getPriority p h := by
  cases hint with
  | priority handle prio =>
    simp only [recvPriority, getPriority, Function.update_apply]
    split <;> rfl
  | _ => rfl

/-- Two maps that give every handle the same priority still do so after a hint. -/
theorem recvPriority_same {p p' : Priorities} (hp : ∀ h, getPriority p h = getPriority p' h)
    (hint : Hint) (h : XQueueHandle) :
    getPriority (recvPriority p hint) h = getPriority (recvPriority p' hint) h := by
  rw [getPriority_recvPriority, getPriority_recvPriority]
  simp only [hp]

namespace HighestPriorityFirstPolicy

def memory : Memory policy where
  looks := false
  Shared := Unit
  Entry := Priority
  shared _ := ()
  kept := getPriority

theorem sound : memory.Sound := by
  refine .of_lists (fun _ xs p => (sched (getPriority p) xs, p))
    (fun _ _ _ _ => rfl) ?_ ?_ ?_
  · intro clock hint σ τ h; exact ⟨rfl, recvPriority_same h.2 hint⟩
  · intro clock xs σ
    simp only [sched, runningPrioMax, List.foldl_map, List.map_map]
    rfl
  · intro clock xs σ τ h
    have hprio : getPriority σ = getPriority τ := funext h.2
    exact ⟨by rw [hprio], h⟩

end HighestPriorityFirstPolicy

namespace HeterogeneousHighestPriorityFirstPolicy

def memory : Memory policy where
  looks := false
  Shared := Unit
  Entry := Priority
  shared _ := ()
  kept := getPriority

theorem sound : memory.Sound := by
  refine .of_lists (fun _ xs p => (sched (getPriority p) xs, p))
    (fun _ _ _ _ => rfl) ?_ ?_ ?_
  · intro clock hint σ τ h; exact ⟨rfl, recvPriority_same h.2 hint⟩
  · intro clock xs σ
    simp only [sched, prioMax, List.foldl_map, List.map_map]
    rfl
  · intro clock xs σ τ h
    have hprio : getPriority σ = getPriority τ := funext h.2
    exact ⟨by rw [hprio], h⟩

end HeterogeneousHighestPriorityFirstPolicy

namespace InterferenceAwareHeterogeneousPolicy

def memory : Memory policy where
  looks := false
  Shared := XDevice → Option ℚ
  Entry := Priority
  shared s := s.deviceIntensities
  kept s := getPriority s.priorities

theorem recvHint_same {σ τ : State} (h : memory.Same σ τ) (hint : Hint) :
    memory.Same (recvHint σ hint) (recvHint τ hint) := by
  obtain ⟨hint', hprio⟩ := h
  cases hint with
  | priority handle prio => exact ⟨hint', recvPriority_same hprio (.priority handle prio)⟩
  | memoryIntensity device intensity =>
    refine ⟨?_, hprio⟩
    simp only [recvHint, memory] at hint' ⊢
    rw [hint']
  | _ => exact ⟨hint', hprio⟩

theorem sound : memory.Sound := by
  refine .of_lists (fun _ xs s => (sched (getPriority s.priorities) s.deviceIntensities xs, s))
    (fun _ _ _ _ => rfl) (fun _ hint _ _ h => recvHint_same h hint) ?_ ?_
  · intro clock xs σ
    simp only [sched, globalMax, deviceBest, List.foldl_map, List.filter_map, List.map_map]
    rfl
  · intro clock xs σ τ h
    have hprio : getPriority σ.priorities = getPriority τ.priorities := funext h.2
    have hint : σ.deviceIntensities = τ.deviceIntensities := h.1
    exact ⟨by rw [hprio, hint], h⟩

end InterferenceAwareHeterogeneousPolicy

namespace KEarliestDeadlineFirstPolicy

def memory (sort : StdSort) : Memory (policy sort) where
  looks := false
  Shared := Nat
  Entry := Option Deadline
  shared s := s.k
  kept s := s.deadlines

theorem sound (sort : StdSort) : (memory sort).Sound := by
  have heq : ∀ {σ τ : State}, (memory sort).Same σ τ → σ = τ := by
    rintro ⟨k, d⟩ ⟨k', d'⟩ ⟨hk, hd⟩
    cases hk
    cases (funext hd : d = d')
    rfl
  refine .of_lists (fun _ xs s => (sched sort s xs, s))
    (fun _ _ _ _ => rfl) ?_ ?_ ?_
  · intro clock hint σ τ h; cases heq h; exact ⟨rfl, fun _ => rfl⟩
  · intro clock xs σ
    simp only [sched, List.map_map]
    rfl
  · intro clock xs σ τ h; cases heq h; exact ⟨rfl, h⟩

end KEarliestDeadlineFirstPolicy

namespace LaxityPolicy

def memory : Memory policy where
  looks := false
  Shared := Unit
  Entry := Option LaxityInfo
  shared _ := ()
  kept infos := infos

theorem sound : memory.Sound := by
  have heq : ∀ {σ τ : State}, memory.Same σ τ → σ = τ := fun h => funext h.2
  refine .of_lists (fun clock xs infos => (sched clock.now infos xs, infos))
    (fun _ _ _ _ => rfl) ?_ ?_ ?_
  · intro clock hint σ τ h; cases heq h; exact ⟨rfl, fun _ => rfl⟩
  · intro clock xs σ
    simp only [sched, search, List.foldl_map, List.map_map]
    rfl
  · intro clock xs σ τ h; cases heq h; exact ⟨rfl, h⟩

end LaxityPolicy

/-! ## Completely fair -/

namespace CompletelyFairSchedulerPolicy

/-- Without the fields that no decision depends on. -/
def CFSNode.norm (n : CFSNode) : CFSNode :=
  { n with priority := 0, lastResumeTime := if n.isRunning then n.lastResumeTime else 0 }

theorem CFSNode.norm_eq {n m : CFSNode} : n.norm = m.norm ↔
    n.weight = m.weight ∧ n.vruntime = m.vruntime ∧ n.isRunning = m.isRunning ∧
      (n.isRunning = true → n.lastResumeTime = m.lastResumeTime) := by
  obtain ⟨w, v, t, r, p⟩ := n
  obtain ⟨w', v', t', r', p'⟩ := m
  simp only [norm, CFSNode.mk.injEq, and_true]
  cases r <;> cases r' <;> simp

def memory : Memory policy where
  looks := false
  Shared := Unit
  Entry := Option CFSNode
  shared _ := ()
  kept infos h := (infos h).map CFSNode.norm

section
variable {σ τ : State} {q : XQueueStatus} (now : TimePoint)

theorem same_setNode (h : memory.Same σ τ) (handle : XQueueHandle) {n m : CFSNode}
    (hn : n.norm = m.norm) : memory.Same (setNode σ handle n) (setNode τ handle m) := by
  refine ⟨rfl, fun h' => ?_⟩
  simp only [memory, setNode, Function.update_apply]
  split
  · rw [Option.map_some, Option.map_some, hn]
  · exact h.2 h'

/-- Both have no node, or two that are alike. -/
theorem same_node (h : memory.Same σ τ) (handle : XQueueHandle) :
    σ handle = none ∧ τ handle = none ∨
      ∃ n m, σ handle = some n ∧ τ handle = some m ∧ n.norm = m.norm := by
  have hk : (σ handle).map CFSNode.norm = (τ handle).map CFSNode.norm := h.2 handle
  cases hσ : σ handle <;> cases hτ : τ handle <;> rw [hσ, hτ] at hk
  · exact Or.inl ⟨rfl, rfl⟩
  · cases hk
  · cases hk
  · exact Or.inr ⟨_, _, rfl, rfl, Option.some.inj hk⟩

theorem same_getNode (h : memory.Same σ τ) (handle : XQueueHandle) :
    (node σ handle).norm = (node τ handle).norm := by
  unfold node
  obtain ⟨hσ, hτ⟩ | ⟨n, m, hσ, hτ, hn⟩ := same_node h handle
  · rw [hσ, hτ]
  · rw [hσ, hτ]; exact hn

theorem charge_same (h : memory.Same σ τ) : memory.Same (charge now σ q) (charge now τ q) := by
  unfold charge
  obtain ⟨hσ, hτ⟩ | ⟨n, m, hσ, hτ, hn⟩ := same_node h q.handle
  · rw [hσ, hτ]; exact h
  · rw [hσ, hτ]
    obtain ⟨hw, hv, hr, ht⟩ := CFSNode.norm_eq.1 hn
    simp only [← hr]
    split
    · rename_i hrun
      refine same_setNode h q.handle ?_
      refine CFSNode.norm_eq.2 ⟨hw, ?_, rfl, ht⟩
      simp only [hv, hw, ht hrun]
    · exact h

theorem minVruntimes_same (h : memory.Same σ τ) (xs : List XQueueStatus) :
    minVruntimes σ xs = minVruntimes τ xs := by
  unfold minVruntimes
  refine List.foldl_ext _ _ _ fun m q _ => ?_
  obtain ⟨hσ, hτ⟩ | ⟨n, m', hσ, hτ, hn⟩ := same_node h q.handle
  · rw [hσ, hτ]
  · rw [hσ, hτ]
    simp only [(CFSNode.norm_eq.1 hn).2.1]

/-- The same minima and choices, and alike nodes. -/
def SameSelection (s t : Selection) : Prop :=
  memory.Same s.infos t.infos ∧ s.minVruntimes = t.minVruntimes ∧ s.minHandles = t.minHandles

theorem select_same {s t : Selection} (h : SameSelection s t) :
    SameSelection (select now s q) (select now t q) := by
  obtain ⟨hinfos, hmin, hhandles⟩ := h
  have hadmit : SameSelection (admitNew now q s) (admitNew now q t) := by
    unfold admitNew
    obtain ⟨hσ, hτ⟩ | ⟨n, m, hσ, hτ, -⟩ := same_node hinfos q.handle
    · rw [hσ, hτ]
      simp only [hmin]
      exact ⟨same_setNode hinfos q.handle rfl, rfl, hhandles⟩
    · rw [hσ, hτ]
      exact ⟨hinfos, hmin, hhandles⟩
  obtain ⟨hinfos', hmin', hhandles'⟩ := hadmit
  have hv : ∀ h, (node (admitNew now q s).infos h).vruntime =
      (node (admitNew now q t).infos h).vruntime :=
    fun h => (CFSNode.norm_eq.1 (same_getNode hinfos' h)).2.1
  unfold select
  split
  · exact ⟨hinfos, hmin, hhandles⟩
  · unfold selectMin
    simp only [hhandles', hv]
    split
    · exact ⟨hinfos', hmin', rfl⟩
    · split
      · exact ⟨hinfos', hmin', rfl⟩
      · exact ⟨hinfos', hmin', hhandles'⟩

theorem operate_same (minHandles : XDevice → Option XQueueHandle) (h : memory.Same σ τ) :
    (operate now minHandles σ q).1 = (operate now minHandles τ q).1 ∧
      memory.Same (operate now minHandles σ q).2 (operate now minHandles τ q).2 := by
  have hn := same_getNode h q.handle
  obtain ⟨hw, hv, hr, ht⟩ := CFSNode.norm_eq.1 hn
  have hset : ∀ (r : Bool) (t t' : TimePoint), (r = true → t = t') →
      memory.Same (setNode σ q.handle { node σ q.handle with isRunning := r, lastResumeTime := t })
        (setNode τ q.handle { node τ q.handle with isRunning := r, lastResumeTime := t' }) := by
    intro r t t' htt
    refine same_setNode h q.handle ?_
    exact CFSNode.norm_eq.2 ⟨hw, hv, rfl, htt⟩
  unfold operate
  simp only [hr]
  split
  · exact ⟨rfl, hset false _ _ nofun⟩
  · split
    · split
      · exact ⟨rfl, hset true now now fun _ => rfl⟩
      · exact ⟨rfl, hset _ now now fun _ => rfl⟩
    · exact ⟨rfl, hset false _ _ nofun⟩

theorem loop_same (minHandles : XDevice → Option XQueueHandle) (h : memory.Same σ τ)
    (xs : List XQueueStatus) :
    (forEach (operate now minHandles) σ xs).1 = (forEach (operate now minHandles) τ xs).1 ∧
      memory.Same (forEach (operate now minHandles) σ xs).2
        (forEach (operate now minHandles) τ xs).2 :=
  forEach_rel (fun _ _ q h => operate_same now (q := q) minHandles h) h xs

theorem recvHint_same (h : memory.Same σ τ) (hint : Hint) :
    memory.Same (recvHint σ hint) (recvHint τ hint) := by
  cases hint with
  | priority handle prio =>
    obtain ⟨-, hv, hr, ht⟩ := CFSNode.norm_eq.1 (same_getNode h handle)
    refine same_setNode h handle ?_
    exact CFSNode.norm_eq.2 ⟨rfl, hv, hr, ht⟩
  | _ => exact h

theorem sched_same (xs : List XQueueStatus) (h : memory.Same σ τ) :
    (sched now σ xs).1 = (sched now τ xs).1 ∧
      memory.Same (sched now σ xs).2 (sched now τ xs).2 := by
  have hcharge : memory.Same (xs.foldl (charge now) σ) (xs.foldl (charge now) τ) :=
    List.foldl_rel h fun q _ σ τ h => charge_same now h
  have hselect : ∀ {s t : Selection}, SameSelection s t →
      SameSelection (xs.foldl (select now) s) (xs.foldl (select now) t) :=
    fun h => List.foldl_rel h fun q _ s t h => select_same now h
  have hstart : SameSelection
      ⟨xs.foldl (charge now) σ, minVruntimes (xs.foldl (charge now) σ) xs, fun _ => none⟩
      ⟨xs.foldl (charge now) τ, minVruntimes (xs.foldl (charge now) τ) xs, fun _ => none⟩ :=
    ⟨hcharge, minVruntimes_same hcharge xs, rfl⟩
  obtain ⟨hinfos, -, hhandles⟩ := hselect hstart
  unfold sched
  simp only [hhandles]
  obtain ⟨hcalls, hsame⟩ := loop_same now _ hinfos xs
  exact ⟨by rw [hcalls], hsame⟩

end

theorem sound : memory.Sound := by
  refine .of_lists (fun clock xs infos => sched clock.now infos xs) (fun _ _ _ _ => rfl)
    (fun _ hint _ _ h => recvHint_same h hint) ?_ (fun clock xs _ _ h => sched_same clock.now xs h)
  intro clock xs σ
  have hcharge : (xs.map (·.seen false)).foldl (charge clock.now) σ =
      xs.foldl (charge clock.now) σ := List.foldl_map
  have hmin : ∀ σ, minVruntimes σ (xs.map (·.seen false)) = minVruntimes σ xs :=
    fun _ => List.foldl_map
  simp only [sched, memory, hcharge, hmin, List.foldl_map, forEach_map, List.any_map]
  rfl

end CompletelyFairSchedulerPolicy

/-! ## Multi-level feedback queue -/

namespace MultiLevelFeedbackQueuePolicy

/-- Without the fields that no decision depends on. -/
def MLFQNode.norm (n : MLFQNode) : MLFQNode :=
  { n with iA := 0, qA := 0, lastResumeTime := if n.isRunning then n.lastResumeTime else 0 }

/-- Equal in the fields that `norm` leaves. -/
structure MLFQNode.Like (n m : MLFQNode) : Prop where
  priority : n.priority = m.priority
  isRunning : n.isRunning = m.isRunning
  wasReady : n.wasReadyLastTick = m.wasReadyLastTick
  pA : n.pA = m.pA
  pending : n.accumulatedPendingTime = m.accumulatedPendingTime
  start : n.lastPendingStart = m.lastPendingStart
  used : n.timeSliceUsed = m.timeSliceUsed
  resume : n.isRunning = true → n.lastResumeTime = m.lastResumeTime

theorem MLFQNode.norm_eq {n m : MLFQNode} : n.norm = m.norm ↔ n.Like m := by
  constructor
  · intro h
    simp only [norm, MLFQNode.mk.injEq, true_and] at h
    obtain ⟨hp, hr, hw, hpA, hpend, hstart, hused, ht⟩ := h
    refine ⟨hp, hr, hw, hpA, hpend, hstart, hused, fun hrun => ?_⟩
    rwa [if_pos hrun, if_pos (hr ▸ hrun)] at ht
  · intro h
    simp only [norm, MLFQNode.mk.injEq, true_and]
    refine ⟨h.priority, h.isRunning, h.wasReady, h.pA, h.pending, h.start, h.used, ?_⟩
    rw [← h.isRunning]
    split
    · rename_i hrun; exact h.resume hrun
    · rfl

def memory : Memory policy where
  looks := false
  Shared := Unit
  Entry := Option MLFQNode
  shared _ := ()
  kept infos h := (infos h).map MLFQNode.norm

section
variable {σ τ : State} {q : XQueueStatus} (now : TimePoint) {n m : MLFQNode}

theorem same_update (h : memory.Same σ τ) (handle : XQueueHandle) (hn : n.Like m) :
    memory.Same (Function.update σ handle (some n)) (Function.update τ handle (some m)) := by
  refine ⟨rfl, fun h' => ?_⟩
  simp only [memory, Function.update_apply]
  split
  · rw [Option.map_some, Option.map_some, MLFQNode.norm_eq.2 hn]
  · exact h.2 h'

theorem like_node (h : memory.Same σ τ) (handle : XQueueHandle) :
    (node now σ handle).Like (node now τ handle) := by
  have hk : (σ handle).map MLFQNode.norm = (τ handle).map MLFQNode.norm := h.2 handle
  refine MLFQNode.norm_eq.1 ?_
  unfold node
  cases hσ : σ handle with
  | none =>
    cases hτ : τ handle with
    | none => rfl
    | some m => rw [hσ, hτ] at hk; exact absurd hk nofun
  | some n =>
    cases hτ : τ handle with
    | none => rw [hσ, hτ] at hk; exact absurd hk nofun
    | some m => rw [hσ, hτ] at hk; exact Option.some.inj hk

theorem observe_like (hn : n.Like m) : (observe now q n).Like (observe now q m) := by
  unfold observe
  simp only [← hn.wasReady]
  split
  · exact ⟨hn.priority, hn.isRunning, rfl, hn.pA, hn.pending, rfl, hn.used, hn.resume⟩
  · split
    · exact ⟨hn.priority, hn.isRunning, rfl, hn.pA, hn.pending, hn.start, hn.used, hn.resume⟩
    · exact ⟨hn.priority, hn.isRunning, rfl, hn.pA, hn.pending, hn.start, hn.used, hn.resume⟩

theorem elapse_like (hn : n.Like m) : (elapse now n).Like (elapse now m) := by
  unfold elapse
  simp only [← hn.isRunning]
  split
  · rename_i hrun
    refine ⟨hn.priority, rfl, hn.wasReady, hn.pA, ?_, rfl, hn.used, hn.resume⟩
    simp only [hn.pending, hn.start]
  · rename_i hrun
    refine ⟨hn.priority, rfl, hn.wasReady, hn.pA, hn.pending, hn.start, ?_, fun _ => rfl⟩
    simp only [hn.used, hn.resume (by simpa using hrun)]

theorem recover_like (hn : n.Like m) (count : Nat) :
    (recover now count n).Like (recover now count m) := by
  have htime : effectiveTime now count n = effectiveTime now count m := by
    simp only [effectiveTime, hn.pA, hn.pending]
  unfold recover
  rw [htime]
  split
  · refine ⟨?_, hn.isRunning, hn.wasReady, rfl, rfl, hn.start, rfl, hn.resume⟩
    simp only [hn.priority]
  · exact hn

theorem demote_like (hn : n.Like m) (handle : XQueueHandle) :
    (demote now handle n).1 = (demote now handle m).1 ∧
      (demote now handle n).2.Like (demote now handle m).2 := by
  unfold demote
  simp only [← hn.isRunning, ← hn.used, ← hn.priority]
  split
  · exact ⟨rfl, rfl, rfl, hn.wasReady, rfl, rfl, rfl, rfl, nofun⟩
  · exact ⟨rfl, hn⟩

theorem account_same (count : XDevice → Nat → Nat) (h : memory.Same σ τ) :
    (account now count σ q).1 = (account now count τ q).1 ∧
      memory.Same (account now count σ q).2 (account now count τ q).2 := by
  have hn : (node now σ q.handle).Like (node now τ q.handle) :=
    like_node now h q.handle
  unfold account
  split
  · exact ⟨rfl, h⟩
  · simp only [hn.priority]
    have helapse : (elapse now (node now σ q.handle)).Like (elapse now (node now τ q.handle)) :=
      elapse_like now hn
    have hrecover := recover_like now helapse (count q.device (node now τ q.handle).priority)
    obtain ⟨hcalls, hlike⟩ := demote_like now hrecover q.handle
    exact ⟨hcalls, same_update h q.handle hlike⟩

theorem nCount_same (h : memory.Same σ τ) (xs : List XQueueStatus) :
    nCount now σ xs = nCount now τ xs := by
  funext device prio
  unfold nCount
  congr 1
  funext q
  rw [(like_node now h q.handle).priority]

theorem bestHandles_same (h : memory.Same σ τ) (xs : List XQueueStatus) :
    bestHandles now σ xs = bestHandles now τ xs := by
  unfold bestHandles
  refine List.foldl_ext _ _ _ fun m q _ => ?_
  simp only [(like_node now h _).priority, (like_node now h _).pending]

theorem operate_same (best : XDevice → Option (Nat × XQueueHandle)) (h : memory.Same σ τ) :
    (operate now best σ q).1 = (operate now best τ q).1 ∧
      memory.Same (operate now best σ q).2 (operate now best τ q).2 := by
  have hn : (node now σ q.handle).Like (node now τ q.handle) :=
    like_node now h q.handle
  unfold operate
  simp only [← hn.isRunning]
  split
  · refine ⟨rfl, same_update h q.handle ?_⟩
    exact ⟨hn.priority, rfl, hn.wasReady, hn.pA, hn.pending, hn.start, hn.used, nofun⟩
  · split
    · split
      · refine ⟨rfl, same_update h q.handle ?_⟩
        exact ⟨hn.priority, rfl, hn.wasReady, hn.pA, hn.pending, rfl, hn.used, fun _ => rfl⟩
      · refine ⟨rfl, same_update h q.handle ?_⟩
        exact ⟨hn.priority, rfl, hn.wasReady, hn.pA, hn.pending, hn.start, hn.used, fun _ => rfl⟩
    · split
      · refine ⟨rfl, same_update h q.handle ?_⟩
        exact ⟨hn.priority, rfl, hn.wasReady, hn.pA, hn.pending, rfl, hn.used, nofun⟩
      · exact ⟨rfl, h⟩

theorem account_loop (count : XDevice → Nat → Nat) (h : memory.Same σ τ)
    (xs : List XQueueStatus) :
    (forEach (account now count) σ xs).1 = (forEach (account now count) τ xs).1 ∧
      memory.Same (forEach (account now count) σ xs).2 (forEach (account now count) τ xs).2 :=
  forEach_rel (fun _ _ q h => account_same now (q := q) count h) h xs

theorem operate_loop (best : XDevice → Option (Nat × XQueueHandle)) (h : memory.Same σ τ)
    (xs : List XQueueStatus) :
    (forEach (operate now best) σ xs).1 = (forEach (operate now best) τ xs).1 ∧
      memory.Same (forEach (operate now best) σ xs).2 (forEach (operate now best) τ xs).2 :=
  forEach_rel (fun _ _ q h => operate_same now (q := q) best h) h xs

theorem observeAll_same (h : memory.Same σ τ) (xs : List XQueueStatus) :
    memory.Same (observeAll now σ xs) (observeAll now τ xs) :=
  List.foldl_rel h fun q _ _ _ h => same_update h q.handle (observe_like now (like_node now h q.handle))

theorem sched_same (xs : List XQueueStatus) (h : memory.Same σ τ) :
    (sched now σ xs).1 = (sched now τ xs).1 ∧
      memory.Same (sched now σ xs).2 (sched now τ xs).2 := by
  have hobs : memory.Same (observeAll now σ xs) (observeAll now τ xs) := observeAll_same now h xs
  have hcount : nCount now (observeAll now σ xs) xs = nCount now (observeAll now τ xs) xs :=
    nCount_same now hobs xs
  obtain ⟨hdem, hacc⟩ := account_loop now (nCount now (observeAll now τ xs) xs) hobs xs
  have hbest := bestHandles_same now hacc xs
  unfold sched
  simp only [hcount, hbest]
  obtain ⟨hcalls, hsame⟩ := operate_loop now _ hacc xs
  exact ⟨by rw [hdem, hcalls], hsame⟩

end

theorem sound : memory.Sound := by
  refine .of_lists (fun clock xs infos => sched clock.now infos xs) (fun _ _ _ _ => rfl)
    (fun _ _ _ _ h => h) ?_ (fun clock xs _ _ h => sched_same clock.now xs h)
  intro clock xs σ
  have hobs : observeAll clock.now σ (xs.map (·.seen false)) = observeAll clock.now σ xs :=
    List.foldl_map
  have hcount : ∀ σ, nCount clock.now σ (xs.map (·.seen false)) = nCount clock.now σ xs := by
    intro σ
    funext device prio
    simp only [nCount, List.countP_map]
    rfl
  have hbest : ∀ σ, bestHandles clock.now σ (xs.map (·.seen false)) =
      bestHandles clock.now σ xs := fun _ => List.foldl_map
  simp only [sched, memory, hobs, hcount, hbest, forEach_map, List.any_map]
  rfl

end MultiLevelFeedbackQueuePolicy

/-! ## Service levels -/

namespace SLOAdaptivePolicy

/-- Without the time of a resume that is over. -/
def SLOQueueInfo.norm (info : SLOQueueInfo) : SLOQueueInfo :=
  { info with lastResumeTime := if info.running then info.lastResumeTime else 0 }

/-- Equal in the fields that `norm` leaves. -/
structure SLOQueueInfo.Like (i j : SLOQueueInfo) : Prop where
  priority : i.priority = j.priority
  deadline : i.deadlineUs = j.deadlineUs
  utilization : i.utilization = j.utilization
  vruntime : i.vruntime = j.vruntime
  running : i.running = j.running
  resume : i.running = true → i.lastResumeTime = j.lastResumeTime

theorem SLOQueueInfo.norm_eq {i j : SLOQueueInfo} : i.norm = j.norm ↔ i.Like j := by
  constructor
  · intro h
    simp only [norm, SLOQueueInfo.mk.injEq] at h
    obtain ⟨hp, hd, hu, hv, hr, ht⟩ := h
    refine ⟨hp, hd, hu, hv, hr, fun hrun => ?_⟩
    rwa [if_pos hrun, if_pos (hr ▸ hrun)] at ht
  · intro h
    simp only [norm, SLOQueueInfo.mk.injEq]
    refine ⟨h.priority, h.deadline, h.utilization, h.vruntime, h.running, ?_⟩
    rw [← h.running]
    split
    · rename_i hrun; exact h.resume hrun
    · rfl

/-- The info as `GetInfo` gives it. -/
def memory : Memory policy where
  looks := true
  Shared := (PID → Option Utilization) × Int
  Entry := SLOQueueInfo
  shared s := (s.processUtils, s.tick)
  kept s h := ((s.queueInfos h).getD (.new 0)).norm

/-- The same infos, each up to `norm`. -/
def SameInfos (σ τ : Infos) : Prop :=
  ∀ h, ((σ h).getD (.new 0)).norm = ((τ h).getD (.new 0)).norm

section
variable {σ τ : Infos} {q : XQueueStatus} (clock : Clock) {i j : SLOQueueInfo}

theorem same_setInfo (h : SameInfos σ τ) (handle : XQueueHandle) (hij : i.Like j) :
    SameInfos (setInfo σ handle i) (setInfo τ handle j) := by
  intro h'
  simp only [setInfo, Function.update_apply]
  split
  · exact SLOQueueInfo.norm_eq.2 hij
  · exact h h'

/-- A missing info is as good as the default one, whenever it is made. -/
theorem getInfo_norm (σ : Infos) (handle : XQueueHandle) :
    (getInfo clock σ handle).norm = ((σ handle).getD (.new 0)).norm := by
  unfold getInfo
  cases σ handle <;> rfl

theorem like_getInfo (h : SameInfos σ τ) (handle : XQueueHandle) :
    (getInfo clock σ handle).Like (getInfo clock τ handle) :=
  SLOQueueInfo.norm_eq.1 (by rw [getInfo_norm, getInfo_norm, h handle])

theorem charge_same (utils : PID → Option Utilization) (h : SameInfos σ τ) :
    SameInfos (charge clock utils σ q) (charge clock utils τ q) := by
  have hij := like_getInfo clock h q.handle
  have hutil : getUtilization utils q (getInfo clock σ q.handle) =
      getUtilization utils q (getInfo clock τ q.handle) := by
    simp only [getUtilization, hij.utilization]
  unfold charge
  simp only [← hij.running, hutil]
  by_cases hrun : (getInfo clock σ q.handle).running = true
  · rw [hij.resume hrun]
    split
    · exact same_setInfo h q.handle hij
    · refine same_setInfo h q.handle ⟨hij.priority, hij.deadline, hij.utilization, ?_, rfl,
        fun _ => rfl⟩
      simp only [hij.vruntime]
  · simp only [hrun, Bool.not_false, true_or, if_true]
    exact same_setInfo h q.handle hij

theorem updateRuntime_same (utils : PID → Option Utilization) (h : SameInfos σ τ)
    (xs : List XQueueStatus) :
    SameInfos (updateRuntime clock utils σ xs) (updateRuntime clock utils τ xs) :=
  List.foldl_rel h fun _ _ _ _ h => charge_same clock utils h

theorem compare_same (tick : Int) (h : SameInfos σ τ) (b : Best) :
    compare clock tick σ b q = compare clock tick τ b q := by
  have hij := like_getInfo clock h q.handle
  have hslack : getSlackUs q (getInfo clock σ q.handle) clock.now =
      getSlackUs q (getInfo clock τ q.handle) clock.now := by
    simp only [getSlackUs, hij.deadline]
  have hsens : isLatencySensitive (getInfo clock σ q.handle) =
      isLatencySensitive (getInfo clock τ q.handle) := by
    simp only [isLatencySensitive, hij.deadline, hij.priority]
  simp only [compare, hslack, hsens, hij.deadline, hij.priority, hij.vruntime]

theorem pickBestQueue_same (tick : Int) (h : SameInfos σ τ) (device : XDevice)
    (xs : List XQueueStatus) :
    pickBestQueue clock tick σ device xs = pickBestQueue clock tick τ device xs := by
  unfold pickBestQueue
  rw [List.foldl_ext _ _ _ fun b q _ => compare_same clock tick h b]

theorem operate_same (chosen : XDevice → XQueueHandle) (h : SameInfos σ τ) :
    (operate clock chosen σ q).1 = (operate clock chosen τ q).1 ∧
      SameInfos (operate clock chosen σ q).2 (operate clock chosen τ q).2 := by
  have hij := like_getInfo clock h q.handle
  unfold operate
  simp only [← hij.running]
  split
  · refine ⟨rfl, same_setInfo h q.handle ?_⟩
    exact ⟨hij.priority, hij.deadline, hij.utilization, hij.vruntime, rfl, nofun⟩
  · split
    · refine ⟨rfl, same_setInfo h q.handle ?_⟩
      exact ⟨hij.priority, hij.deadline, hij.utilization, hij.vruntime, rfl, fun _ => rfl⟩
    · refine ⟨rfl, same_setInfo h q.handle ?_⟩
      exact ⟨hij.priority, hij.deadline, hij.utilization, hij.vruntime, rfl, nofun⟩

theorem loop_same (chosen : XDevice → XQueueHandle) (h : SameInfos σ τ)
    (xs : List XQueueStatus) :
    (forEach (operate clock chosen) σ xs).1 = (forEach (operate clock chosen) τ xs).1 ∧
      SameInfos (forEach (operate clock chosen) σ xs).2 (forEach (operate clock chosen) τ xs).2 :=
  forEach_rel (fun _ _ q h => operate_same clock (q := q) chosen h) h xs

end

/-- A change of one info, the same in both. -/
theorem same_setHint {s t : State} (h : memory.Same s t) (clock : Clock) (handle : XQueueHandle)
    {f : SLOQueueInfo → SLOQueueInfo} (hf : ∀ i j : SLOQueueInfo, i.Like j → (f i).Like (f j)) :
    memory.Same
      { s with queueInfos := setInfo s.queueInfos handle (f (getInfo clock s.queueInfos handle)) }
      { t with
        queueInfos := setInfo t.queueInfos handle (f (getInfo clock t.queueInfos handle)) } :=
  ⟨h.1, same_setInfo h.2 handle (hf _ _ (like_getInfo clock h.2 handle))⟩

theorem recvHint_same {s t : State} (h : memory.Same s t) (clock : Clock) (hint : Hint) :
    memory.Same (recvHint clock s hint) (recvHint clock t hint) := by
  obtain ⟨hutils, htick⟩ := Prod.mk.inj h.1
  cases hint with
  | priority handle prio =>
    exact same_setHint h clock handle (f := fun i =>
      { i with priority := min (max prio PRIORITY_MIN) PRIORITY_MAX })
      fun i j hij => ⟨rfl, hij.deadline, hij.utilization, hij.vruntime, hij.running, hij.resume⟩
  | deadline handle ddl =>
    exact same_setHint h clock handle (f := fun i => { i with deadlineUs := ddl })
      fun i j hij => ⟨hij.priority, rfl, hij.utilization, hij.vruntime, hij.running, hij.resume⟩
  | timeslice ts =>
    simp only [recvHint]
    split
    · exact ⟨Prod.ext hutils rfl, h.2⟩
    · exact h
  | utilization pid handle util =>
    have hproc : ∀ {s t : State}, memory.Same s t → ∀ util : Utilization, memory.Same
        (if pid ≠ 0 then { s with processUtils := Function.update s.processUtils pid (some util) }
          else s)
        (if pid ≠ 0 then { t with processUtils := Function.update t.processUtils pid (some util) }
          else t) := by
      intro s t h util
      obtain ⟨hutils, htick⟩ := Prod.mk.inj h.1
      by_cases hpid : pid ≠ 0
      · rw [if_pos hpid, if_pos hpid]
        exact ⟨Prod.ext (by simp only [memory, hutils]) htick, h.2⟩
      · rw [if_neg hpid, if_neg hpid]
        exact h
    refine hproc ?_ _
    split
    · exact same_setHint h clock handle
        (f := fun i => { i with utilization := min (max util UTILIZATION_MIN) UTILIZATION_MAX })
        fun i j hij => ⟨hij.priority, hij.deadline, rfl, hij.vruntime, hij.running, hij.resume⟩
    · exact h
  | _ => exact h

theorem sched_same {s t : State} (h : memory.Same s t) (clock : Clock)
    (xs : List XQueueStatus) :
    (sched clock s xs).1 = (sched clock t xs).1 ∧
      memory.Same (sched clock s xs).2 (sched clock t xs).2 := by
  obtain ⟨hutils, htick⟩ := Prod.mk.inj h.1
  have hinfos := updateRuntime_same clock t.processUtils h.2 xs
  unfold sched
  simp only [hutils, htick, pickBestQueue_same clock t.tick hinfos]
  obtain ⟨hcalls, hsame⟩ := loop_same clock _ hinfos xs
  exact ⟨by rw [hcalls], rfl, hsame⟩

theorem sound : memory.Sound := by
  refine .of_lists (fun clock xs s => sched clock s xs) (fun _ _ _ _ => rfl)
    (fun clock hint _ _ h => recvHint_same h clock hint) ?_
    (fun clock xs _ _ h => sched_same h clock xs)
  intro clock xs σ
  have hid : xs.map (·.seen true) = xs := List.map_id xs
  exact congrArg (sched clock σ) hid

end SLOAdaptivePolicy

/-! ## Utilization partition -/

namespace UtilizationPartitionPolicy

/-- The utilization of an XQueue and, if it is the current one, the end of its slice. -/
def memory : Memory policy where
  looks := false
  Shared := Int
  Entry := Option Utilization × Option Int
  shared s := s.timeslice
  kept s h := (s.utils[h]?, if s.curRunning = h ∧ h ≠ 0 then some s.curEnd else none)

/-- The same memory is the same state, but for the end of a slice when there is none. -/
theorem same_iff {s t : State} : memory.Same s t ↔
    s.timeslice = t.timeslice ∧ s.utils = t.utils ∧ s.curRunning = t.curRunning ∧
      (s.curRunning ≠ 0 → s.curEnd = t.curEnd) := by
  constructor
  · rintro ⟨hts, hkept⟩
    have hcur : ∀ h, (if s.curRunning = h ∧ h ≠ 0 then some s.curEnd else none) =
        if t.curRunning = h ∧ h ≠ 0 then some t.curEnd else none := fun h => (Prod.mk.inj (hkept h)).2
    refine ⟨hts, Std.ExtTreeMap.ext_getElem? fun h => (Prod.mk.inj (hkept h)).1, ?_, ?_⟩
    · by_cases hs : s.curRunning = 0
      · by_cases ht : t.curRunning = 0
        · rw [hs, ht]
        · have h := hcur t.curRunning
          have hne : ¬ (s.curRunning = t.curRunning ∧ t.curRunning ≠ 0) :=
            fun hh => ht (hh.1.symm.trans hs)
          rw [if_neg hne, if_pos ⟨rfl, ht⟩] at h
          cases h
      · have h := hcur s.curRunning
        rw [if_pos ⟨rfl, hs⟩] at h
        split at h
        · rename_i ht; exact ht.1.symm
        · cases h
    · intro hs
      have h := hcur s.curRunning
      rw [if_pos ⟨rfl, hs⟩] at h
      split at h
      · exact Option.some.inj h
      · cases h
  · rintro ⟨hts, hutils, hcur, hend⟩
    refine ⟨hts, fun h => ?_⟩
    simp only [memory, hutils, hcur]
    split
    · rename_i hh; rw [hend (by rw [hcur, hh.1]; exact hh.2)]
    · rfl

theorem same_refl (s : State) : memory.Same s s := ⟨rfl, fun _ => rfl⟩

theorem firstReady_alike {s t : Status} (ha : Status.Alike false s t) (utils : Utils)
    (hs : List XQueueHandle) : firstReady s utils hs = firstReady t utils hs := by
  induction hs generalizing utils with
  | nil => rfl
  | cons h hs ih =>
    have hh := ha h
    unfold firstReady
    cases hq : s.xqueueStatus.lookup h with
    | none =>
      cases hq' : t.xqueueStatus.lookup h with
      | none => exact ih (utils.erase h)
      | some q' => rw [hq, hq'] at hh; cases hh
    | some q =>
      cases hq' : t.xqueueStatus.lookup h with
      | none => rw [hq, hq'] at hh; cases hh
      | some q' =>
        rw [hq, hq'] at hh
        have hready : (q.seen false).ready = (q'.seen false).ready :=
          congrArg XQueueStatus.ready (Option.some.inj hh)
        simp only [XQueueStatus.seen_ready] at hready
        simp only [hready, ih]

theorem purge_alike {st st' : Status} (ha : Status.Alike false st st') (s : State) :
    purge st s = purge st' s := by
  unfold purge
  simp only [ha.mem_iff]

/-- A start does not depend on the slice before it. -/
theorem offer_same (clock : Clock) (q : XQueueStatus) {s t : Bool × State}
    (h : s.1 = t.1 ∧ memory.Same s.2 t.2) :
    (offer clock s q).1 = (offer clock t q).1 ∧
      (offer clock s q).2.1 = (offer clock t q).2.1 ∧
      memory.Same (offer clock s q).2.2 (offer clock t q).2.2 := by
  obtain ⟨hsel, hsame⟩ := h
  obtain ⟨hts, hutils, -, -⟩ := same_iff.1 hsame
  unfold offer
  simp only [hsel, hutils]
  split
  · exact ⟨rfl, hsel, hsame⟩
  · split
    · exact ⟨rfl, hsel, hsame⟩
    · rename_i util _
      have hstart : start clock s.2 q.handle util = start clock t.2 q.handle util := by
        simp only [start, hts, hutils]
      rw [hstart]
      exact ⟨rfl, rfl, same_refl _⟩

theorem switchToAny_same {s t : State} (hutils : s.utils = t.utils)
    (hts : s.timeslice = t.timeslice) (clock : Clock) (xs : List XQueueStatus) :
    (switchToAny clock s xs).1 = (switchToAny clock t xs).1 ∧
      memory.Same (switchToAny clock s xs).2 (switchToAny clock t xs).2 := by
  have hzero : memory.Same { s with curRunning := 0 } { t with curRunning := 0 } :=
    same_iff.2 ⟨hts, hutils, rfl, fun h => absurd rfl h⟩
  have hloop := forEach_rel (R := fun s t : Bool × State => s.1 = t.1 ∧ memory.Same s.2 t.2)
    (fun _ _ q h => offer_same clock q h) (s := (false, { s with curRunning := 0 }))
    (t := (false, { t with curRunning := 0 })) ⟨rfl, hzero⟩ xs
  exact ⟨hloop.1, hloop.2.2⟩

/-- The end of a slice is not read while there is none. -/
theorem sched_same (st : Status) {s t : State} (h : memory.Same s t) (clock : Clock)
    (xs : List XQueueStatus) :
    SameAnswer memory.Same (sched clock st s xs) (sched clock st t xs) := by
  obtain ⟨cur, fin, utils, ts⟩ := s
  obtain ⟨cur', fin', utils', ts'⟩ := t
  obtain ⟨rfl, rfl, rfl, hend⟩ := same_iff.1 h
  by_cases hcur : cur = 0
  · subst hcur
    simp only [sched, purge, ne_eq, not_true, false_and, if_false, if_true]
    split
    · exact ⟨rfl, same_iff.2 ⟨rfl, rfl, rfl, fun h => absurd rfl h⟩⟩
    · refine switchToAny_same (s := ⟨0, fin, _, ts⟩) (t := ⟨0, fin', _, ts⟩) rfl rfl clock xs
  · cases hend hcur
    cases hres : sched clock st ⟨cur, fin, utils, ts⟩ xs with
    | none => trivial
    | some a => exact ⟨rfl, same_refl a.2⟩

theorem switchToAny_seen (clock : Clock) (s : State) (xs : List XQueueStatus) :
    switchToAny clock s (xs.map (·.seen false)) = switchToAny clock s xs := by
  unfold switchToAny
  rw [forEach_map]
  rfl

theorem switchTo_seen (clock : Clock) (s : State) (handle : XQueueHandle) (util : Utilization)
    (xs : List XQueueStatus) :
    switchTo clock s handle util (xs.map (·.seen false)) = switchTo clock s handle util xs := by
  simp only [switchTo, List.filter_map, List.map_map]
  rfl

/-- A `Sched` depends on what the status shows. -/
theorem sched_seen {st st' : Status} (ha : Status.Alike false st st') (clock : Clock) (s : State)
    (xs : List XQueueStatus) :
    sched clock st s xs = sched clock st' s (xs.map (·.seen false)) := by
  have hrot : ∀ s, rotate clock st s xs = rotate clock st' s (xs.map (·.seen false)) := by
    intro s
    simp only [rotate, firstReady_alike ha, switchTo_seen]
  have hpurge := purge_alike ha s
  unfold sched
  rw [hpurge]
  simp only [hrot, switchToAny_seen]
  split
  · rfl
  · split
    · rfl
    · have hh := ha (purge st' s).curRunning
      cases hq : st.xqueueStatus.lookup (purge st' s).curRunning with
      | none =>
        cases hq' : st'.xqueueStatus.lookup (purge st' s).curRunning with
        | none => rfl
        | some q' => rw [hq, hq'] at hh; cases hh
      | some q =>
        cases hq' : st'.xqueueStatus.lookup (purge st' s).curRunning with
        | none => rw [hq, hq'] at hh; cases hh
        | some q' =>
          rw [hq, hq'] at hh
          have hready : (q.seen false).ready = (q'.seen false).ready :=
            congrArg XQueueStatus.ready (Option.some.inj hh)
          simp only [XQueueStatus.seen_ready] at hready
          simp only [hready]

theorem recvHint_same {s t : State} (h : memory.Same s t) (hint : Hint) :
    memory.Same (recvHint s hint) (recvHint t hint) := by
  obtain ⟨hts, hutils, hcur, hend⟩ := same_iff.1 h
  cases hint with
  | utilization pid handle util =>
    simp only [recvHint]
    split
    · exact h
    · exact same_iff.2 ⟨hts, by simp only [hutils], hcur, hend⟩
  | timeslice ts => exact same_iff.2 ⟨rfl, hutils, hcur, hend⟩
  | _ => exact h

theorem sound : memory.Sound := by
  refine ⟨fun _ hint _ _ h => recvHint_same h hint, ?_⟩
  intro clock order s t σ τ h (ha : Status.Alike false s t)
  have hlist : sched clock s σ (s.inOrder order) = sched clock t σ (t.inOrder order) := by
    have hself : Status.Alike false t t := fun _ => rfl
    rw [sched_seen ha, ha.inOrder, ← sched_seen hself]
  change SameAnswer memory.Same (sched clock s σ (s.inOrder order))
    (sched clock t τ (t.inOrder order))
  rw [hlist]
  exact sched_same t h clock (t.inOrder order)

end UtilizationPartitionPolicy
end Xsched.Sched
