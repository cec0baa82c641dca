import Mathlib.Data.Fintype.EquivFin
import Mathlib.Data.List.Sort
import Xsched.Sched.PolicyMemory

/-!
# A handle that is used again

A handle is the address of an XQueue, so a new XQueue can have the handle of
a destroyed one. `UpdateStatus` erases the status entry of a destroyed
XQueue; the policy is not told. What it keeps for the handle is then what the
new XQueue starts with.

Two runs whose histories differ in the earlier life of a handle are compared
from a state on in which no XQueue has the handle and everything else is the
same (`AgreeBut`).

**The break.** HPF, HHPF, IAH, KEDF, LAX and SLO keep the hints of the
destroyed XQueue; CFS, MLFQ and SLO its virtual runtime, level and running
flag. UP drops the entries of destroyed XQueues at the start of a `Sched`,
but keeps that of a handle that is used again before the next one.

**Results.**
* `reuse_unnoticed`: if a policy keeps the same for the handle in both runs
  (nothing, in particular), no later input tells them apart; for the
  policies that go by priority this is necessary.
* `reuse_noticed`: for each of the nine policies, two lives of an XQueue
  after which a new one with its handle is treated differently.
-/
namespace Xsched.Sched

/-- The policies that keep something for each XQueue. -/
inductive PerQueuePolicy where
  | hpf | hhpf | iah | kedf | lax | cfs | mlfq | slo | up
  deriving DecidableEq

namespace PerQueuePolicy

/-- mirrors sched/src/policy/policy.cpp:41-75 -/
abbrev policy (sort : StdSort) : PerQueuePolicy → Policy
  | hpf => HighestPriorityFirstPolicy.policy
  | hhpf => HeterogeneousHighestPriorityFirstPolicy.policy
  | iah => InterferenceAwareHeterogeneousPolicy.policy
  | kedf => KEarliestDeadlineFirstPolicy.policy sort
  | lax => LaxityPolicy.policy
  | cfs => CompletelyFairSchedulerPolicy.policy
  | mlfq => MultiLevelFeedbackQueuePolicy.policy
  | slo => SLOAdaptivePolicy.policy
  | up => UtilizationPartitionPolicy.policy

abbrev memory (sort : StdSort) : (k : PerQueuePolicy) → Memory (k.policy sort)
  | hpf => HighestPriorityFirstPolicy.memory
  | hhpf => HeterogeneousHighestPriorityFirstPolicy.memory
  | iah => InterferenceAwareHeterogeneousPolicy.memory
  | kedf => KEarliestDeadlineFirstPolicy.memory sort
  | lax => LaxityPolicy.memory
  | cfs => CompletelyFairSchedulerPolicy.memory
  | mlfq => MultiLevelFeedbackQueuePolicy.memory
  | slo => SLOAdaptivePolicy.memory
  | up => UtilizationPartitionPolicy.memory

theorem sound (sort : StdSort) (k : PerQueuePolicy) : (k.memory sort).Sound := by
  cases k with
  | hpf => exact HighestPriorityFirstPolicy.sound
  | hhpf => exact HeterogeneousHighestPriorityFirstPolicy.sound
  | iah => exact InterferenceAwareHeterogeneousPolicy.sound
  | kedf => exact KEarliestDeadlineFirstPolicy.sound sort
  | lax => exact LaxityPolicy.sound
  | cfs => exact CompletelyFairSchedulerPolicy.sound
  | mlfq => exact MultiLevelFeedbackQueuePolicy.sound
  | slo => exact SLOAdaptivePolicy.sound
  | up => exact UtilizationPartitionPolicy.sound

/-- The policies whose entry is a priority. -/
def byPriority : PerQueuePolicy → Bool
  | hpf | hhpf | iah => true
  | _ => false

end PerQueuePolicy

/-- Two runs in which no XQueue has the handle `h`, the other XQueues are the
same and what the policy keeps for other handles is. -/
structure AgreeBut {P : Policy} (M : Memory P) (h : XQueueHandle) (s t : PolicyRun P) : Prop where
  gone : h ∉ s.status.xqueueStatus
  status : Status.Alike M.looks s.status t.status
  shared : M.shared s.policy = M.shared t.policy
  others : ∀ h', h' ≠ h → M.kept s.policy h' = M.kept t.policy h'

theorem AgreeBut.agree {P : Policy} {M : Memory P} {h : XQueueHandle} {s t : PolicyRun P}
    (ha : AgreeBut M h s t) (hs : s.status.Linked) (ht : t.status.Linked)
    (hkept : M.kept s.policy h = M.kept t.policy h) : M.Agree s t := by
  refine ⟨hs, ht, ha.status, ha.shared, fun h' => ?_⟩
  by_cases hh : h' = h
  · rw [hh]; exact hkept
  · exact ha.others h' hh

/-! ## Two XQueues alone on a device -/

namespace PolicyRun
variable {P : Policy}

/-- An event that is not the destruction of an XQueue is always possible. -/
theorem step_event {s : PolicyRun P} (hs : s.status.Linked) (now : TimePoint) {e : Event}
    (he : ∀ pid h, e ≠ .xQueueDestroy pid h) :
    ∃ s', s.step (.event now e) = some s' ∧ s'.policy = s.policy ∧ s'.status.Linked ∧
      ∀ h, s'.status.xqueueStatus.lookup h = e.entry now h (s.status.xqueueStatus.lookup h) := by
  cases hu : s.status.updateStatus now e with
  | none =>
    obtain ⟨pid, h, q, heq, -⟩ := Status.updateStatus_eq_none.1 hu
    exact absurd heq (he pid h)
  | some st =>
    refine ⟨⟨st, s.policy⟩, ?_, rfl, hs.updateStatus hu, fun h => hs.lookup_updateStatus hu h⟩
    simp only [step, answer, hu, Option.map_some]

/-- The end of every process in a list. -/
def destroyAll (pids : List PID) : List Input := pids.map fun pid => .event 0 (.processDestroy pid)

theorem exec_destroyAll {s : PolicyRun P} (hs : s.status.Linked) (pids : List PID) :
    ∃ s', LTS.exec step s (destroyAll pids) = some s' ∧ s'.policy = s.policy ∧
      s'.status.Linked ∧ ∀ h, s'.status.xqueueStatus.lookup h =
        (s.status.xqueueStatus.lookup h).filter (·.pid ∉ pids) := by
  induction pids generalizing s with
  | nil =>
    refine ⟨s, rfl, rfl, hs, fun h => ?_⟩
    cases s.status.xqueueStatus.lookup h <;> simp [Option.filter]
  | cons pid pids ih =>
    obtain ⟨s₁, hstep, hpol, hlinked, hlook⟩ := step_event hs 0 (e := .processDestroy pid) nofun
    obtain ⟨s', hexec, hpol', hlinked', hlook'⟩ := ih hlinked
    refine ⟨s', ?_, hpol'.trans hpol, hlinked', fun h => ?_⟩
    · simp only [destroyAll, List.map_cons, LTS.exec, hstep, Option.bind_some]
      exact hexec
    · rw [hlook', hlook, Event.entry]
      cases s.status.xqueueStatus.lookup h with
      | none => rfl
      | some q => by_cases hq : q.pid = pid <;> simp [Option.filter, hq]

/-- The two are the only XQueues left; both are ready, on device 1. -/
structure Alone (st : Status) (h h' : XQueueHandle) : Prop where
  first : ∃ q, st.xqueueStatus.lookup h = some q ∧ q.handle = h ∧ q.device = 1 ∧ q.ready = true
  second : ∃ q, st.xqueueStatus.lookup h' = some q ∧ q.handle = h' ∧ q.device = 1 ∧ q.ready = true
  only : ∀ h₀, h₀ ≠ h → h₀ ≠ h' → st.xqueueStatus.lookup h₀ = none

/-- After `h` was created, all but it end, `h'` is created with priority
`prio`, and both become ready. -/
def duel (h h' : XQueueHandle) (pid : PID) (pids : List PID) (prio : Priority) : List Input :=
  destroyAll pids ++
    [.event 0 (.xQueueCreate pid h' 1 0 0 0), .recvHint ⟨0, fun _ => 0⟩ (.priority h' prio),
      .event 0 (.xQueueReady pid h 0), .event 0 (.xQueueReady pid h' 0)]

theorem exec_duel {s : PolicyRun P} (hs : s.status.Linked) {h h' : XQueueHandle} (hne : h' ≠ h)
    (hgone : h ∉ s.status.xqueueStatus) {pid : PID} {pids : List PID} (hpid : pid ∉ pids)
    (hpids : ∀ h q, s.status.xqueueStatus.lookup h = some q → q.pid ∈ pids) (prio : Priority) :
    ∃ s', LTS.exec step s (.event 0 (.xQueueCreate pid h 1 0 0 0) :: duel h h' pid pids prio) =
        some s' ∧ s'.policy = P.recvHint ⟨0, fun _ => 0⟩ (.priority h' prio) s.policy ∧
      Alone s'.status h h' := by
  obtain ⟨s₁, hstep₁, hpol₁, hlinked₁, hlook₁⟩ :=
    step_event hs 0 (e := .xQueueCreate pid h 1 0 0 0) nofun
  obtain ⟨s₂, hexec₂, hpol₂, hlinked₂, hlook₂⟩ := exec_destroyAll hlinked₁ pids
  obtain ⟨s₃, hstep₃, hpol₃, hlinked₃, hlook₃⟩ :=
    step_event hlinked₂ 0 (e := .xQueueCreate pid h' 1 0 0 0) nofun
  have hlinked₄ : ({ s₃ with policy := P.recvHint ⟨0, fun _ => 0⟩ (.priority h' prio) s₃.policy } :
    PolicyRun P).status.Linked := hlinked₃
  obtain ⟨s₅, hstep₅, hpol₅, hlinked₅, hlook₅⟩ :=
    step_event hlinked₄ 0 (e := .xQueueReady pid h 0) nofun
  obtain ⟨s₆, hstep₆, hpol₆, hlinked₆, hlook₆⟩ :=
    step_event hlinked₅ 0 (e := .xQueueReady pid h' 0) nofun
  have hold : ∀ h₀, h₀ ≠ h → s₂.status.xqueueStatus.lookup h₀ = none := by
    intro h₀ hh
    rw [hlook₂, hlook₁]
    simp only [Event.entry, if_neg hh]
    cases hq : s.status.xqueueStatus.lookup h₀ with
    | none => rfl
    | some q => simp [Option.filter, hpids h₀ q hq]
  have hnew : s₂.status.xqueueStatus.lookup h = some ⟨h, 1, 0, pid, 0, 0, false, false, 0⟩ := by
    rw [hlook₂, hlook₁, AList.lookup_eq_none.2 hgone]
    simp [Event.entry, Option.filter, hpid]
  refine ⟨s₆, ?_, ?_, ⟨⟨h, 1, 0, pid, 0, 0, true, false, 0⟩, ?_, rfl, rfl, rfl⟩,
    ⟨⟨h', 1, 0, pid, 0, 0, true, false, 0⟩, ?_, rfl, rfl, rfl⟩, ?_⟩
  · simp only [duel, LTS.exec, hstep₁, Option.bind_some]
    rw [LTS.exec_append hexec₂]
    simp only [LTS.exec, hstep₃, Option.bind_some]
    simp only [step, answer, Option.map_some, Option.bind_some] at hstep₅ hstep₆ ⊢
    rw [hstep₅, Option.bind_some, hstep₆]
    rfl
  · rw [hpol₆, hpol₅, hpol₃, hpol₂, hpol₁]
  · rw [hlook₆, hlook₅, hlook₃, hnew]
    simp only [Event.entry, if_neg hne.symm, if_true]
  · rw [hlook₆, hlook₅, hlook₃, hold h' hne]
    simp only [Event.entry, if_neg hne, if_true]
  · intro h₀ hh hh'
    rw [hlook₆, hlook₅, hlook₃, hold h₀ hh]
    simp only [Event.entry, if_neg hh, if_neg hh']

theorem Alone.inOrder {st : Status} {h h' : XQueueHandle} (ha : Alone st h h') :
    ∃ q q', st.inOrder [h, h'] = [q, q'] ∧ q.handle = h ∧ q'.handle = h' ∧ q.device = 1 ∧
      q'.device = 1 ∧ q.ready = true ∧ q'.ready = true := by
  obtain ⟨q, hq, hh, hd, hr⟩ := ha.first
  obtain ⟨q', hq', hh', hd', hr'⟩ := ha.second
  exact ⟨q, q', by simp only [Status.inOrder, List.filterMap, hq, hq'], hh, hh', hd, hd', hr, hr'⟩

theorem Alone.perm {st : Status} {h h' : XQueueHandle} (ha : Alone st h h') (hne : h' ≠ h) :
    [h, h'].Perm st.xqueueStatus.keys := by
  obtain ⟨q, hq, -⟩ := ha.first
  obtain ⟨q', hq', -⟩ := ha.second
  have hnd : [h, h'].Nodup := by simp [hne.symm]
  refine (List.perm_ext_iff_of_nodup hnd st.xqueueStatus.keys_nodup).2 fun h₀ => ?_
  constructor
  · intro hm
    rcases List.mem_pair.1 hm with rfl | rfl
    · exact AList.lookup_isSome.1 (by rw [hq]; rfl)
    · exact AList.lookup_isSome.1 (by rw [hq']; rfl)
  · intro hm
    by_contra hnot
    rw [List.mem_pair, not_or] at hnot
    exact AList.lookup_eq_none.1 (ha.only h₀ hnot.1 hnot.2) hm

end PolicyRun

/-! ## Policies that go by priority -/

/-- `prio` is what the policy takes for the priority of a handle: a hint sets
it, and of two ready XQueues on one device the first runs unless its priority
is the lower one. -/
structure ByPriority (P : Policy) (prio : P.State → XQueueHandle → Priority) : Prop where
  init : prio P.init = fun _ => PRIORITY_DEFAULT
  recv : ∀ clock h n σ,
    prio (P.recvHint clock (.priority h n) σ) = Function.update (prio σ) h (clampPriority n)
  other : ∀ clock hint σ, (∀ h n, hint ≠ .priority h n) → prio (P.recvHint clock hint σ) = prio σ
  sched : ∀ clock st h h' σ, h' ≠ h → PolicyRun.Alone st h h' → PRIORITY_MIN ≤ prio σ h →
    PRIORITY_MIN ≤ prio σ h' → ∃ calls σ', P.sched clock st [h, h'] σ = some (calls, σ') ∧
      calls.head? = some (if prio σ h < prio σ h' then .suspend h else .resume h)
  keeps : ∀ clock st order σ calls σ', P.sched clock st order σ = some (calls, σ') →
    prio σ' = prio σ

theorem clampPriority_range (n : Priority) :
    PRIORITY_MIN ≤ clampPriority n ∧ clampPriority n ≤ PRIORITY_MAX := by
  simp only [clampPriority, PRIORITY_MIN, PRIORITY_MAX]
  unfold Priority
  split_ifs <;> omega

theorem clampPriority_id {n : Priority} (hn : PRIORITY_MIN ≤ n ∧ n ≤ PRIORITY_MAX) :
    clampPriority n = n := by
  simp only [clampPriority, PRIORITY_MIN, PRIORITY_MAX] at hn ⊢
  unfold Priority at *
  split_ifs <;> omega

namespace ByPriority
variable {P : Policy} {prio : P.State → XQueueHandle → Priority}

/-- Every priority of a run is in the range. -/
theorem range (hp : ByPriority P prio) {s : PolicyRun P} (hr : (PolicyRun.lts P).Reachable s) :
    ∀ h, PRIORITY_MIN ≤ prio s.policy h ∧ prio s.policy h ≤ PRIORITY_MAX := by
  refine LTS.reachable_induction
    (I := fun s => ∀ h, PRIORITY_MIN ≤ prio s.policy h ∧ prio s.policy h ≤ PRIORITY_MAX) ?_ ?_ hr
  · rintro s rfl h
    have hinit : prio (PolicyRun.init P).policy = fun _ => PRIORITY_DEFAULT := hp.init
    rw [hinit]
    change PRIORITY_MIN ≤ PRIORITY_DEFAULT ∧ PRIORITY_DEFAULT ≤ PRIORITY_MAX
    decide
  · intro s i s' _ hs hstep
    obtain ⟨⟨calls, s₁⟩, ha, rfl⟩ := Option.map_eq_some_iff.1 hstep
    cases i with
    | event now e =>
      obtain ⟨st, -, he⟩ := Option.map_eq_some_iff.1 ha
      cases he; exact hs
    | recvHint clock hint =>
      cases ha
      by_cases hh : ∃ h n, hint = .priority h n
      · obtain ⟨h₀, n, rfl⟩ := hh
        intro h
        rw [hp.recv, Function.update_apply]
        split
        · exact clampPriority_range n
        · exact hs h
      · rw [hp.other clock hint _ fun h n he => hh ⟨h, n, he⟩]
        exact hs
    | reschedule clock order =>
      simp only [PolicyRun.answer] at ha
      split at ha
      · obtain ⟨⟨calls', σ'⟩, hsched, he⟩ := Option.map_eq_some_iff.1 ha
        cases he
        rw [hp.keeps _ _ _ _ _ _ hsched]
        exact hs
      · cases ha

/-- The decision over the first of two XQueues left alone. -/
theorem decides (hp : ByPriority P prio) {s : PolicyRun P} {h h' : XQueueHandle} (hne : h' ≠ h)
    (ha : PolicyRun.Alone s.status h h') (hmin : PRIORITY_MIN ≤ prio s.policy h)
    (hmin' : PRIORITY_MIN ≤ prio s.policy h') :
    ∃ calls, s.decisions [.reschedule ⟨0, fun _ => 0⟩ [h, h']] = some [calls] ∧ calls.head? =
      some (if prio s.policy h < prio s.policy h' then .suspend h else .resume h) := by
  obtain ⟨calls, σ', hsched, hhead⟩ := hp.sched ⟨0, fun _ => 0⟩ s.status h h' s.policy hne ha hmin
    hmin'
  refine ⟨calls, ?_, hhead⟩
  simp only [PolicyRun.decisions, outputs, PolicyRun.answer, if_pos (ha.perm hne), hsched,
    Option.map_some]

/-- A different priority for the handle shows when the XQueue has to compete
with another one that has the higher of the two. -/
theorem noticed (hp : ByPriority P prio) {s t : PolicyRun P}
    (hs : (PolicyRun.lts P).Reachable s) (ht : (PolicyRun.lts P).Reachable t) {h : XQueueHandle}
    (hgone : h ∉ s.status.xqueueStatus) (hgone' : h ∉ t.status.xqueueStatus)
    (hlt : prio s.policy h < prio t.policy h) :
    ∃ pid future, s.decisions (.event 0 (.xQueueCreate pid h 1 0 0 0) :: future) ≠
      t.decisions (.event 0 (.xQueueCreate pid h 1 0 0 0) :: future) := by
  have hlink := PolicyRun.linked_reachable hs
  have hlink' := PolicyRun.linked_reachable ht
  have hrange := hp.range hs
  have hrange' := hp.range ht
  let pids := s.status.processStatus.keys ++ t.status.processStatus.keys
  obtain ⟨pid, hpid⟩ := Infinite.exists_notMem_finset pids.toFinset
  rw [List.mem_toFinset] at hpid
  have hne : h + 1 ≠ h := Nat.succ_ne_self h
  obtain ⟨s', hexec, hpol, halone⟩ := PolicyRun.exec_duel hlink hne hgone hpid
    (fun h q hq => List.mem_append_left _ (hlink.home h q hq)) (prio t.policy h)
  obtain ⟨t', hexec', hpol', halone'⟩ := PolicyRun.exec_duel hlink' hne hgone' hpid
    (fun h q hq => List.mem_append_right _ (hlink'.home h q hq)) (prio t.policy h)
  refine ⟨pid, PolicyRun.duel h (h + 1) pid pids (prio t.policy h) ++
    [.reschedule ⟨0, fun _ => 0⟩ [h, h + 1]], fun heq => ?_⟩
  have hlast := outputs_suffix hexec hexec' heq
  have hs₁ : prio s'.policy h = prio s.policy h := by
    rw [hpol, hp.recv, Function.update_of_ne hne.symm]
  have hs₂ : prio s'.policy (h + 1) = prio t.policy h := by
    rw [hpol, hp.recv, Function.update_self, clampPriority_id (hrange' h)]
  have ht₁ : prio t'.policy h = prio t.policy h := by
    rw [hpol', hp.recv, Function.update_of_ne hne.symm]
  have ht₂ : prio t'.policy (h + 1) = prio t.policy h := by
    rw [hpol', hp.recv, Function.update_self, clampPriority_id (hrange' h)]
  obtain ⟨calls, hdec, hhead⟩ := hp.decides hne halone (by rw [hs₁]; exact (hrange h).1)
    (by rw [hs₂]; exact (hrange' h).1)
  obtain ⟨calls', hdec', hhead'⟩ := hp.decides hne halone' (by rw [ht₁]; exact (hrange' h).1)
    (by rw [ht₂]; exact (hrange' h).1)
  have hcalls : calls = calls' := by
    have h₁ : some [calls] = some [calls'] := hdec.symm.trans (hlast.trans hdec')
    cases h₁; rfl
  rw [hcalls, hhead', hs₁, hs₂, ht₁, ht₂, if_pos hlt, if_neg (lt_irrefl _)] at hhead
  cases hhead

end ByPriority

theorem getPriority_recv (p : Priorities) (h : XQueueHandle) (n : Priority) :
    getPriority (recvPriority p (.priority h n)) =
      Function.update (getPriority p) h (clampPriority n) := by
  funext h'
  rw [getPriority_recvPriority, Function.update_apply]

theorem recvPriority_other (p : Priorities) {hint : Hint} (hh : ∀ h n, hint ≠ .priority h n) :
    recvPriority p hint = p := by
  cases hint with
  | priority h n => exact absurd rfl (hh h n)
  | _ => rfl

theorem HighestPriorityFirstPolicy.byPriority : ByPriority policy getPriority where
  init := rfl
  recv _ h n σ := getPriority_recv σ h n
  other _ hint σ hh := congrArg getPriority (recvPriority_other σ hh)
  keeps _ _ _ σ calls σ' h := by cases h; rfl
  sched clock st h h' σ hne ha hmin hmin' := by
    obtain ⟨q, q', hin, rfl, rfl, hd, hd', hr, hr'⟩ := ha.inOrder
    refine ⟨_, _, rfl, ?_⟩
    by_cases hlt : getPriority σ q.handle < getPriority σ q'.handle
    · simp [sched, runningPrioMax, hin, hd, hd', hr, hr', hlt]
    · simp [sched, runningPrioMax, hin, hd, hd', hr, hr', hlt]

theorem HeterogeneousHighestPriorityFirstPolicy.byPriority : ByPriority policy getPriority where
  init := rfl
  recv _ h n σ := getPriority_recv σ h n
  other _ hint σ hh := congrArg getPriority (recvPriority_other σ hh)
  keeps _ _ _ σ calls σ' h := by cases h; rfl
  sched clock st h h' σ hne ha hmin hmin' := by
    obtain ⟨q, q', hin, rfl, rfl, hd, hd', hr, hr'⟩ := ha.inOrder
    refine ⟨_, _, rfl, ?_⟩
    simp only [sched, prioMax, hin, List.foldl, List.map, List.head?, hr, hr', Bool.not_true,
      Bool.false_eq_true, if_false]
    unfold Priority at *
    split_ifs <;> first | rfl | omega

theorem InterferenceAwareHeterogeneousPolicy.byPriority :
    ByPriority policy fun s => getPriority s.priorities where
  init := rfl
  recv _ h n σ := getPriority_recv σ.priorities h n
  other _ hint σ hh := by
    cases hint with
    | priority h n => exact absurd rfl (hh h n)
    | _ => rfl
  keeps _ _ _ σ calls σ' h := by cases h; rfl
  sched clock st h h' σ hne ha hmin hmin' := by
    obtain ⟨q, q', hin, rfl, rfl, hd, hd', hr, hr'⟩ := ha.inOrder
    refine ⟨_, _, rfl, ?_⟩
    have hhandle : q'.handle ≠ q.handle := hne
    by_cases hlt : getPriority σ.priorities q.handle < getPriority σ.priorities q'.handle
    · simp [sched, deviceBest, shouldRun, hin, hd, hd', hr, hr', hlt, hhandle]
    · have hglobal : (globalMax (getPriority σ.priorities) [q, q']).1 ≤
          getPriority σ.priorities q.handle := by
        simp only [globalMax, List.foldl, hr, hr', Bool.not_true, Bool.false_eq_true, if_false]
        unfold Priority at *
        split_ifs <;> omega
      simp [sched, deviceBest, shouldRun, hin, hd, hd', hr, hr', hlt, hglobal]

/-! ## The claim -/

/-- **A handle that is used again goes unnoticed** by every later decision
when the policy keeps the same for it in both runs. The policies that go by
priority tell the runs apart in every other case. -/
theorem reuse_unnoticed (sort : StdSort) (k : PerQueuePolicy) {s t : PolicyRun (k.policy sort)}
    (hs : (PolicyRun.lts (k.policy sort)).Reachable s)
    (ht : (PolicyRun.lts (k.policy sort)).Reachable t) {h : XQueueHandle}
    (ha : AgreeBut (k.memory sort) h s t) :
    ((k.memory sort).kept s.policy h = (k.memory sort).kept t.policy h →
      ∀ future, s.decisions future = t.decisions future) ∧
    (k.byPriority = true →
      (∀ now pid device level threshold batchSize future,
        s.decisions (.event now (.xQueueCreate pid h device level threshold batchSize) :: future) =
        t.decisions (.event now (.xQueueCreate pid h device level threshold batchSize) :: future)) →
      (k.memory sort).kept s.policy h = (k.memory sort).kept t.policy h) := by
  constructor
  · intro hkept future
    have hagree := ha.agree (PolicyRun.linked_reachable hs) (PolicyRun.linked_reachable ht) hkept
    exact (k.sound sort).unwinding.outputs_eq hagree future
  · intro hk hall
    have hgone : h ∉ t.status.xqueueStatus := fun hm => ha.gone ((ha.status.mem_iff h).2 hm)
    have hsame : ∀ {prio : (k.policy sort).State → XQueueHandle → Priority},
        ByPriority (k.policy sort) prio → prio s.policy h = prio t.policy h := by
      intro prio hp
      rcases lt_trichotomy (prio s.policy h) (prio t.policy h) with hlt | heq | hgt
      · obtain ⟨pid, future, hne⟩ := hp.noticed hs ht ha.gone hgone hlt
        exact absurd (hall 0 pid 1 0 0 0 future) hne
      · exact heq
      · obtain ⟨pid, future, hne⟩ := hp.noticed ht hs hgone ha.gone hgt
        exact absurd (hall 0 pid 1 0 0 0 future).symm hne
    cases k with
    | hpf => exact hsame HighestPriorityFirstPolicy.byPriority
    | hhpf => exact hsame HeterogeneousHighestPriorityFirstPolicy.byPriority
    | iah => exact hsame InterferenceAwareHeterogeneousPolicy.byPriority
    | kedf | lax | cfs | mlfq | slo | up => cases hk

/-- The input is about the XQueues with this handle. -/
def Input.about (h : XQueueHandle) : Input → Bool
  | .event _ e => e.xqueue = some h
  | .recvHint _ hint => hint.xqueue = some h
  | .reschedule _ order => order = [h]

namespace Reuse

/-- `std::sort` as a stable sort. -/
def stableSort : StdSort where
  sort := List.insertionSort fun a b => a.deadline ≤ b.deadline
  perm := List.perm_insertionSort _
  sorted ddls := by
    have htotal : Std.Total fun a b : DeadlineEntry => a.deadline ≤ b.deadline :=
      ⟨fun a b => le_total a.deadline b.deadline⟩
    have htrans : IsTrans DeadlineEntry fun a b => a.deadline ≤ b.deadline :=
      ⟨fun _ _ _ => le_trans⟩
    exact List.pairwise_insertionSort _ ddls

def create (h : XQueueHandle) : Input := .event 0 (.xQueueCreate 10 h 1 2 0 0)
def destroy (h : XQueueHandle) : Input := .event 0 (.xQueueDestroy 10 h)
def ready (h : XQueueHandle) : Input := .event 0 (.xQueueReady 10 h 0)
def resched (now : TimePoint) (order : List XQueueHandle) : Input :=
  .reschedule ⟨now, fun _ => now⟩ order
def hint (hint : Hint) : Input := .recvHint ⟨0, fun _ => 0⟩ hint

/-- HPF with a hint of the default priority, and with no hint, before. -/
theorem reuse_unnoticed_default :
    ∃ s t, LTS.exec PolicyRun.step (.init HighestPriorityFirstPolicy.policy)
        [create 7, hint (.priority 7 0), destroy 7] = some s ∧
      LTS.exec PolicyRun.step (.init HighestPriorityFirstPolicy.policy) [create 7, destroy 7] =
        some t ∧
      s.decisions [create 7, create 8, ready 7, resched 0 [7, 8]] =
        t.decisions [create 7, create 8, ready 7, resched 0 [7, 8]] := by
  have hs : LTS.exec PolicyRun.step (.init HighestPriorityFirstPolicy.policy)
      [create 7, hint (.priority 7 0), destroy 7] = some _ := rfl
  have ht : LTS.exec PolicyRun.step (.init HighestPriorityFirstPolicy.policy)
      [create 7, destroy 7] = some _ := rfl
  refine ⟨_, _, hs, ht, ?_⟩
  refine (reuse_unnoticed stableSort .hpf (h := 7) (LTS.reachable_of_exec rfl hs)
    (LTS.reachable_of_exec rfl ht) ?_).1 ?_ _
  · refine ⟨by decide, fun _ => rfl, rfl, fun h' hh => ?_⟩
    change (Function.update (fun _ => none) 7 (some (clampPriority 0)) h' : Option Priority).getD
      PRIORITY_DEFAULT = PRIORITY_DEFAULT
    rw [Function.update_of_ne hh]
    rfl
  · rfl

/-- What an earlier XQueue with handle 7 does under each policy. -/
def earlier : PerQueuePolicy → List Input
  | .hpf | .hhpf | .iah | .slo => [create 7, hint (.priority 7 5), destroy 7]
  | .kedf => [create 7, hint (.deadline 7 100), destroy 7]
  | .lax => [create 7, hint (.laxity 7 (-1) 5 5), destroy 7]
  | .up => [create 7, hint (.utilization 0 7 50), destroy 7]
  | .cfs | .mlfq =>
    [create 7, ready 7, resched 0 [7], resched 50000000 [7], destroy 7]

/-- What follows on the creation of the next XQueue with that handle. -/
def later : PerQueuePolicy → List Input
  | .up =>
    [create 8, hint (.utilization 0 8 50), ready 7, resched 0 [7, 8]]
  | .kedf =>
    [create 8, hint (.deadline 8 5000), ready 8, resched 0 [8, 7], ready 7, resched 0 [8, 7]]
  | _ =>
    [create 8, ready 8, resched 60000000 [8, 7], ready 7, resched 60001000 [8, 7],
      resched 60002000 [8, 7]]

/-- The decisions after the two lives, as a computation. -/
def noticed (k : PerQueuePolicy) : Bool :=
  match LTS.exec PolicyRun.step (.init (k.policy stableSort)) (earlier k),
    LTS.exec PolicyRun.step (.init (k.policy stableSort)) [create 7, destroy 7] with
  | some s, some t =>
    (earlier k).all (·.about 7) ∧ 7 ∉ s.status.xqueueStatus ∧ 7 ∉ t.status.xqueueStatus ∧
      s.decisions (create 7 :: later k) ≠ t.decisions (create 7 :: later k)
  | _, _ => false

/-- After two lives of an XQueue with handle 7, one in which it has done what
`earlier` says and one in which it was only created and destroyed, the
decisions differ once a new XQueue has the handle. -/
def Noticed (k : PerQueuePolicy) : Prop :=
  ∃ s t, LTS.exec PolicyRun.step (.init (k.policy stableSort)) (earlier k) = some s ∧
    LTS.exec PolicyRun.step (.init (k.policy stableSort)) [create 7, destroy 7] = some t ∧
    (earlier k).all (·.about 7) ∧ 7 ∉ s.status.xqueueStatus ∧ 7 ∉ t.status.xqueueStatus ∧
    s.decisions (create 7 :: later k) ≠ t.decisions (create 7 :: later k)

theorem noticed_sound {k : PerQueuePolicy} (hcheck : noticed k = true) : Noticed k := by
  unfold noticed at hcheck
  split at hcheck
  · rename_i s t hs ht
    exact ⟨s, t, hs, ht, of_decide_eq_true hcheck⟩
  · cases hcheck

/-- **A handle that is used again is noticed** under each of the nine
policies. -/
theorem reuse_noticed :
    Noticed .hpf ∧ Noticed .hhpf ∧ Noticed .iah ∧ Noticed .kedf ∧ Noticed .lax ∧
      Noticed .cfs ∧ Noticed .mlfq ∧ Noticed .slo ∧ Noticed .up := by
  refine ⟨?_, ?_, ?_, ?_, ?_, ?_, ?_, ?_, ?_⟩
  all_goals
    apply noticed_sound
    decide +kernel

end Reuse
end Xsched.Sched
