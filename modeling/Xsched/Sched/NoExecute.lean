import Mathlib
import Xsched.Sched.Interference
import Xsched.Sched.Reuse

/-!
# The priority of an XQueue that is not to be executed

`XHintPriority` takes `PRIORITY_NO_EXECUTE`, with the promise that the XQueue
will not be executed. The value is one below `PRIORITY_MIN`, and the three
policies that take the hint clamp it into their range: what they remember is
the lowest priority, and an XQueue of the lowest priority runs where no other
is above it.

Who is above it depends on the policy: another XQueue of the device (HPF), any
other (HHPF), or the leader, if its device interferes (IAH). `Outranked` says
so for each, and the promise is kept in a run exactly if this holds at every
`Reschedule` of it.

**Result.** `no_execute_iff`.
-/
namespace Xsched.Sched

/-- mirrors include/xsched/types.h:123 -/
def PRIORITY_NO_EXECUTE : Priority := -256

/-! ## What a policy remembers of the hints -/

namespace ByPriority
variable {P : Policy} {prio : P.State → XQueueHandle → Priority}

/-- What an act makes of the priority of a handle. -/
def priorityAfter (h : XQueueHandle) (last : Priority) : HostedAct → Priority
  | .recvHint _ _ (.priority handle prio) => if handle = h then clampPriority prio else last
  | _ => last

theorem step_priority (hp : ByPriority P prio) {s s' : Hosted P} {act : HostedAct}
    (h : s.step act = some s') (handle : XQueueHandle) :
    prio s'.policy handle = priorityAfter handle (prio s.policy handle) act := by
  cases act with
  | own act =>
    cases Hosted.policy_cases h with
    | other hact => rfl
  | reschedule clock order =>
    obtain ⟨-, calls, hcalls, -⟩ := Hosted.round h
    exact congrFun (hp.keeps _ _ _ _ _ _ hcalls) handle
  | recvHint now clock hint =>
    simp only [Hosted.step] at h
    split at h
    · obtain ⟨scheduler, -, rfl⟩ := Option.map_eq_some_iff.1 h
      cases hint with
      | priority h' n =>
        dsimp only
        rw [hp.recv]
        simp only [priorityAfter, Function.update_apply, eq_comm]
      | _ => exact congrFun (hp.other _ _ _ (by simp)) handle
    · cases h

/-- **The priorities of the policy are what the hints say**, within the limits. -/
theorem hinted (hp : ByPriority P prio) {s s' : Hosted P} {acts : List HostedAct}
    (hinit : s.policy = P.init) (h : LTS.exec Hosted.step s acts = some s') :
    prio s'.policy = priorityOf acts := by
  funext handle
  have hexec : prio s'.policy handle = acts.foldl (priorityAfter handle) (prio s.policy handle) :=
    LTS.exec_foldl (g := fun s => prio s.policy handle)
      (fun _ _ _ hstep => hp.step_priority hstep handle) h
  have hhom : acts.foldl (priorityAfter handle) ((none : Option Priority).elim PRIORITY_DEFAULT
      clampPriority) = (hintedPriority handle acts).elim PRIORITY_DEFAULT clampPriority := by
    refine List.foldl_hom (fun last => Option.elim last PRIORITY_DEFAULT clampPriority) ?_
    intro last act
    cases act with
    | recvHint now clock hint =>
      cases hint with
      | priority h n =>
        simp only [priorityAfter]
        split <;> rfl
      | _ => rfl
    | _ => rfl
  rw [hexec, hinit, hp.init]
  refine hhom.trans ?_
  unfold priorityOf
  cases hintedPriority handle acts with
  | none => rfl
  | some n => exact clampPriority_eq n

end ByPriority

/-! ## Who is above it -/

/-- The policies that take a priority for each XQueue. -/
inductive PriorityPolicy where
  | hpf | hhpf | iah
  deriving DecidableEq

namespace PriorityPolicy

/-- mirrors sched/src/policy/policy.cpp:41-75 -/
abbrev policy : PriorityPolicy → Policy
  | hpf => HighestPriorityFirstPolicy.policy
  | hhpf => HeterogeneousHighestPriorityFirstPolicy.policy
  | iah => InterferenceAwareHeterogeneousPolicy.policy

end PriorityPolicy

/-- The last priority hint for the XQueue was that it will not be executed. -/
def NoExecute (acts : List HostedAct) (h : XQueueHandle) : Prop :=
  hintedPriority h acts = some PRIORITY_NO_EXECUTE

/-- No ready XQueue that is not to be executed can execute. -/
def Obeyed (acts : List HostedAct) (st : Status) : Prop :=
  ∀ d h, st.Runs d h → ¬ NoExecute acts h

/-- For each ready XQueue that is not to be executed there is a ready one above
it: on its device, anywhere, or as a leader whose device interferes. -/
def Outranked : (k : PriorityPolicy) → List HostedAct → List XQueueHandle → Hosted k.policy → Prop
  | .hpf, acts, _, s =>
    ∀ d h, s.scheduler.status.ReadyOn d h → NoExecute acts h →
      ∃ h', s.scheduler.status.ReadyOn d h' ∧ PRIORITY_MIN < priorityOf acts h'
  | .hhpf, acts, _, s =>
    ∀ d h, s.scheduler.status.ReadyOn d h → NoExecute acts h →
      ∃ d' h', s.scheduler.status.ReadyOn d' h' ∧ PRIORITY_MIN < priorityOf acts h'
  | .iah, acts, order, s =>
    ∀ d q, best (priorityOf acts) (s.scheduler.status.inOrder order) d = some q →
      NoExecute acts q.handle →
        ∃ r, leader (priorityOf acts) (s.scheduler.status.inOrder order) = some r ∧
          InterferenceAwareHeterogeneousPolicy.isHighInterference s.policy.deviceIntensities d
            r.device = true

section
variable {acts : List HostedAct} {h : XQueueHandle}

theorem NoExecute.priority (hn : NoExecute acts h) : priorityOf acts h = PRIORITY_MIN := by
  rw [priorityOf, hn]
  decide

theorem priorityOf_min (acts : List HostedAct) (h : XQueueHandle) :
    PRIORITY_MIN ≤ priorityOf acts h := by
  unfold priorityOf
  split
  · exact le_max_left _ _
  · decide

variable {st : Status} {order : List XQueueHandle}

theorem hpf_obeyed (hk : st.Keyed) (hperm : order.Perm st.xqueueStatus.keys) :
    Obeyed acts (HighestPriorityFirstPolicy.outcome (priorityOf acts) st order) ↔
      ∀ d h, st.ReadyOn d h → NoExecute acts h →
        ∃ h', st.ReadyOn d h' ∧ PRIORITY_MIN < priorityOf acts h' := by
  simp only [Obeyed, HighestPriorityFirstPolicy.runs_iff hk hperm]
  refine forall₂_congr fun d h => ?_
  constructor
  · intro ho hready hn
    by_contra hnone
    refine ho ⟨hready, fun h' hh' => ?_⟩ hn
    rw [hn.priority]
    exact not_lt.1 fun hlt => hnone ⟨h', hh', hlt⟩
  · rintro ho ⟨hready, hmax⟩ hn
    obtain ⟨h', hh', hlt⟩ := ho hready hn
    have hle := hmax h' hh'
    rw [hn.priority] at hle
    exact absurd hlt (not_lt.2 hle)

theorem hhpf_obeyed (hk : st.Keyed) (hperm : order.Perm st.xqueueStatus.keys) :
    Obeyed acts (HeterogeneousHighestPriorityFirstPolicy.outcome (priorityOf acts) st order) ↔
      ∀ d h, st.ReadyOn d h → NoExecute acts h →
        ∃ d' h', st.ReadyOn d' h' ∧ PRIORITY_MIN < priorityOf acts h' := by
  simp only [Obeyed, HeterogeneousHighestPriorityFirstPolicy.runs_iff hk hperm
    (priorityOf_min acts)]
  refine forall₂_congr fun d h => ?_
  constructor
  · intro ho hready hn
    by_contra hnone
    refine ho ⟨hready, fun d' h' hh' => ?_⟩ hn
    rw [hn.priority]
    exact not_lt.1 fun hlt => hnone ⟨d', h', hh', hlt⟩
  · rintro ho ⟨hready, hmax⟩ hn
    obtain ⟨d', h', hh', hlt⟩ := ho hready hn
    have hle := hmax d' h' hh'
    rw [hn.priority] at hle
    exact absurd hlt (not_lt.2 hle)

theorem iah_obeyed (hk : st.Keyed) (hperm : order.Perm st.xqueueStatus.keys)
    (intensities : XDevice → Option ℚ) :
    Obeyed acts (InterferenceAwareHeterogeneousPolicy.outcome (priorityOf acts) intensities st
        order) ↔
      ∀ d q, best (priorityOf acts) (st.inOrder order) d = some q → NoExecute acts q.handle →
        ∃ r, leader (priorityOf acts) (st.inOrder order) = some r ∧
          InterferenceAwareHeterogeneousPolicy.isHighInterference intensities d r.device = true := by
  simp only [Obeyed, InterferenceAwareHeterogeneousPolicy.runs_iff hk hperm (priorityOf_min acts)]
  constructor
  · intro ho d q hb hn
    obtain ⟨-, -, -, hready, -⟩ := best_some hk hperm hb
    have hidle : ¬ (Top (priorityOf acts) st d q.handle ∨
        ∃ r, leader (priorityOf acts) (st.inOrder order) = some r ∧
          InterferenceAwareHeterogeneousPolicy.isHighInterference intensities d r.device =
            false) := fun hrun => ho d q.handle ⟨⟨q, hb, rfl⟩, hrun⟩ hn
    rw [not_or, top_iff_leader hk hperm (priorityOf_min acts) hready] at hidle
    cases hl : leader (priorityOf acts) (st.inOrder order) with
    | none => exact absurd (by rw [hl]; exact priorityOf_min acts _) hidle.1
    | some r =>
      refine ⟨r, rfl, ?_⟩
      by_contra hlow
      exact hidle.2 ⟨r, hl, by simpa using hlow⟩
  · rintro ho d h ⟨⟨q, hb, rfl⟩, hrun⟩ hn
    obtain ⟨r, hl, hhigh⟩ := ho d q hb hn
    rcases hrun with ht | ⟨r', hl', hlow⟩
    · -- the leader is above the lowest priority
      obtain ⟨-, hok, -⟩ := argmin_filter_some hl
      simp only [decide_eq_true_eq] at hok
      have hle := ht.2 _ _ (leader_top hk hperm hl).1
      rw [hn.priority] at hle
      exact absurd hok.2 (not_lt.2 hle)
    · rw [hl] at hl'
      cases hl'
      rw [hhigh] at hlow
      cases hlow

end

/-! ## Every round of a run -/

/-- What holds at every `Reschedule` of a run, for the acts before it. -/
def EveryRound {P : Policy} (s₀ : Hosted P) (acts : List HostedAct)
    (Q : List HostedAct → List XQueueHandle → Hosted P → Hosted P → Prop) : Prop :=
  ∀ pre clock order s s', pre ++ [.reschedule clock order] <+: acts →
    LTS.exec Hosted.step s₀ pre = some s → s.step (.reschedule clock order) = some s' →
      Q pre order s s'

/-- One round keeps the promise exactly if the XQueues are outranked. -/
theorem obeyed_iff (k : PriorityPolicy) {s₀ s s' : Hosted k.policy} {acts : List HostedAct}
    {clock : Clock} {order : List XQueueHandle} (h0 : Hosted.Begins k.policy s₀)
    (hrun : LTS.exec Hosted.step s₀ acts = some s)
    (hround : s.step (.reschedule clock order) = some s') :
    Obeyed acts s'.scheduler.status ↔ Outranked k acts order s := by
  have hr : (Hosted.life k.policy).Reachable s := LTS.reachable_of_exec h0 hrun
  obtain ⟨calls, R⟩ := Hosted.round_life hr hround
  have hinit : s₀.policy = k.policy.init := h0.fresh.policy
  have hstatus : s'.scheduler.status = calls.foldl Status.callback s.scheduler.status := R.status
  have hsched := R.sched
  cases k with
  | hpf =>
    have hprio := HighestPriorityFirstPolicy.byPriority.hinted hinit hrun
    obtain ⟨rfl, -⟩ := Prod.mk.inj (Option.some.inj hsched)
    rw [hstatus]
    change Obeyed acts (HighestPriorityFirstPolicy.outcome (getPriority s.policy)
      s.scheduler.status order) ↔ _
    rw [hprio]
    exact hpf_obeyed R.keyed R.perm
  | hhpf =>
    have hprio := HeterogeneousHighestPriorityFirstPolicy.byPriority.hinted hinit hrun
    obtain ⟨rfl, -⟩ := Prod.mk.inj (Option.some.inj hsched)
    rw [hstatus]
    change Obeyed acts (HeterogeneousHighestPriorityFirstPolicy.outcome (getPriority s.policy)
      s.scheduler.status order) ↔ _
    rw [hprio]
    exact hhpf_obeyed R.keyed R.perm
  | iah =>
    have hprio := InterferenceAwareHeterogeneousPolicy.byPriority.hinted hinit hrun
    obtain ⟨rfl, -⟩ := Prod.mk.inj (Option.some.inj hsched)
    rw [hstatus]
    change Obeyed acts (InterferenceAwareHeterogeneousPolicy.outcome
      (getPriority s.policy.priorities) s.policy.deviceIntensities s.scheduler.status order) ↔ _
    rw [hprio]
    exact iah_obeyed R.keyed R.perm _

/-- **When the promise is kept.** After each `Reschedule` of a run no ready
XQueue that is not to be executed can execute, exactly if at each of them
every such XQueue is outranked. -/
theorem no_execute_iff (k : PriorityPolicy) {s₀ : Hosted k.policy} (h0 : Hosted.Begins k.policy s₀)
    (acts : List HostedAct) :
    EveryRound s₀ acts (fun pre _ _ s' => Obeyed pre s'.scheduler.status) ↔
      EveryRound s₀ acts fun pre order s _ => Outranked k pre order s := by
  unfold EveryRound
  constructor
  · intro h pre clock order s s' hpre hrun hround
    exact (obeyed_iff k h0 hrun hround).1 (h pre clock order s s' hpre hrun hround)
  · intro h pre clock order s s' hpre hrun hround
    exact (obeyed_iff k h0 hrun hround).2 (h pre clock order s s' hpre hrun hround)

/-- XQueue 7 is the only one, is not to be executed, and becomes ready. -/
def unwantedActs : List HostedAct :=
  [.own .run, .own (.recvEvent (.xQueueCreate 1 7 1 2 0 0)), .own (.recvEvent (.hint 1)),
    .own (.recvEvent (.xQueueReady 1 7 0)), .own (.wake 0), .own (.update 0),
    .recvHint 0 ⟨0, fun _ => 0⟩ (.priority 7 PRIORITY_NO_EXECUTE), .own (.update 0)]

def unwantedRound : HostedAct := .reschedule ⟨0, fun _ => 0⟩ [7]

/-- There is a run of the policy in which the promise is broken. -/
def Executes (k : PriorityPolicy) : Prop :=
  ∃ s₀ : Hosted k.policy, Hosted.Begins k.policy s₀ ∧
    ¬ EveryRound s₀ (unwantedActs ++ [unwantedRound])
      fun pre _ _ s' => Obeyed pre s'.scheduler.status

theorem executes_of (k : PriorityPolicy) (type : XPolicyType)
    (htrace : (LTS.exec Hosted.step (⟨.init type, k.policy.init⟩ : Hosted k.policy)
      unwantedActs).bind (fun s => (s.step unwantedRound).map fun s' =>
        s'.scheduler.status.xqueueStatus.lookup 7) =
      some (some ⟨7, 1, 2, 1, 0, 0, true, false, 0⟩)) : Executes k := by
  obtain ⟨s, hs, htrace⟩ := Option.bind_eq_some_iff.1 htrace
  obtain ⟨s', hs', he⟩ := Option.map_eq_some_iff.1 htrace
  refine ⟨_, .construct type, fun h => ?_⟩
  refine h unwantedActs _ _ s s' (List.prefix_refl _) hs hs' 1 7 ⟨_, he, rfl, rfl, rfl⟩ ?_
  unfold NoExecute
  decide

/-- Alone on its device the XQueue is executed, under each of the policies. -/
theorem unwanted_executes :
    Executes .hpf ∧ Executes .hhpf ∧ Executes .iah :=
  ⟨executes_of .hpf .kPolicyHighestPriorityFirst (by decide +kernel),
    executes_of .hhpf .kPolicyHeterogeneousHighestPriorityFirst (by decide +kernel),
    executes_of .iah .kPolicyInterferenceAwareHeterogeneous (by decide +kernel)⟩

theorem no_execute_unwanted : ∃ s₀ : Hosted HighestPriorityFirstPolicy.policy,
    Hosted.Begins HighestPriorityFirstPolicy.policy s₀ ∧
    (EveryRound s₀ (unwantedActs ++ [unwantedRound])
        (fun pre _ _ s' => Obeyed pre s'.scheduler.status) ↔
      EveryRound s₀ (unwantedActs ++ [unwantedRound]) fun pre order s _ => Outranked .hpf pre order s) :=
  ⟨⟨.init .kPolicyHighestPriorityFirst, HighestPriorityFirstPolicy.policy.init⟩, .construct _,
    no_execute_iff .hpf (.construct _) _⟩

end Xsched.Sched
