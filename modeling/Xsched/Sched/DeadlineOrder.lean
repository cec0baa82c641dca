import Mathlib
import Xsched.Core.Ranks
import Xsched.Sched.HintPolicies
import Xsched.Sched.Reuse
import Xsched.Sched.Rounds

/-!
# Who gets the slots of K-EDF

`KEarliestDeadlineFirstPolicy` resumes the first `k_` XQueues in the order of
their deadlines and suspends the others. It sorts all XQueues, the idle ones
too: an idle XQueue and a ready one without a hint have the same key,
`time_point::max`. And `NO_DEADLINE`, which is -1, is a number like any other:
the key of an XQueue that was given it is a microsecond before it became
ready. A deadline behind all time points overflows, and its key can lie before
all others.

So a slot can go to an XQueue with nothing to run, and an XQueue without a
deadline can come before one that has a deadline. `earlier` and `notLater`
count the XQueues that are before an XQueue in every order of equal keys, and
in some order; the slots go to whom they should exactly under a condition on
these counts.

**Result.** `deadline_order_iff`.
-/
namespace Xsched.Sched
namespace KEarliestDeadlineFirstPolicy

/-! ## What the slots are for -/

/-- When the work of an XQueue has to be done, as an exact number; `⊤`: it has no deadline. -/
def absoluteDeadline (deadlines : XQueueHandle → Option Deadline) (q : XQueueStatus) : WithTop ℤ :=
  match deadlines q.handle with
  | none => ⊤
  | some ddl => if ddl = NO_DEADLINE then ⊤ else ((afterUs q.readyTime ddl : ℤ) : WithTop ℤ)

/-- Of these XQueues, the ready ones with the earliest deadlines execute, as
many as there are slots. -/
def EarliestFirst (deadlines : XQueueHandle → Option Deadline) (k : Nat)
    (xqueues : List XQueueStatus) : Prop :=
  let ready := xqueues.filter (·.ready)
  if ready.length ≤ k then ∀ q ∈ ready, q.suspended = false
  else
    (ready.filter fun q => !q.suspended).length = k ∧
      ∀ r ∈ ready, r.suspended = false → ∀ s ∈ ready, s.suspended = true →
        absoluteDeadline deadlines r ≤ absoluteDeadline deadlines s

/-! ## What it depends on -/

section
variable (deadlines : XQueueHandle → Option Deadline) (xqueues : List XQueueStatus)
  (q : XQueueStatus)

/-- What an XQueue is sorted by. -/
def key : Int := (entry deadlines q).deadline

/-- The number of XQueues with a smaller key. -/
def earlier : Nat :=
  xqueues.countP fun r => decide (key deadlines r < key deadlines q)

/-- The number of XQueues whose key is not greater, itself among them. -/
def notLater : Nat :=
  xqueues.countP fun r => decide (key deadlines r ≤ key deadlines q)

end

/-- With slots for all ready XQueues, each of them is among the first `k`
whatever the order of equal keys. Else there are `k` keys before the idle
XQueues, and no ready XQueue can be among the first `k` while one with an
earlier deadline can be behind them. -/
def Served (deadlines : XQueueHandle → Option Deadline) (k : Nat) (xqueues : List XQueueStatus) :
    Prop :=
  let ready := xqueues.filter (·.ready)
  if ready.length ≤ k then ∀ q ∈ ready, notLater deadlines xqueues q ≤ k
  else
    (∀ q ∈ xqueues, q.ready = false → k ≤ earlier deadlines xqueues q) ∧
      ∀ r ∈ ready, ∀ s ∈ ready, absoluteDeadline deadlines s < absoluteDeadline deadlines r →
        earlier deadlines xqueues r < k → notLater deadlines xqueues s ≤ k

/-! ## The first in the order -/

section
variable {deadlines : XQueueHandle → Option Deadline} {xqueues : List XQueueStatus}
  {q : XQueueStatus} {k : Nat}

@[simp] theorem entry_xqueue (deadlines : XQueueHandle → Option Deadline) (q : XQueueStatus) :
    (entry deadlines q).xqueue = q.handle := by
  unfold entry
  split
  · rfl
  · split <;> rfl

theorem entries_xqueue (deadlines : XQueueHandle → Option Deadline)
    (xqueues : List XQueueStatus) :
    (xqueues.map (entry deadlines)).map (·.xqueue) = xqueues.map (·.handle) := by
  simp [List.map_map, Function.comp_def]

/-- The XQueue gets a slot. -/
def First (sort : StdSort) (deadlines : XQueueHandle → Option Deadline) (k : Nat)
    (xqueues : List XQueueStatus) (q : XQueueStatus) : Prop :=
  entry deadlines q ∈ (sort.sort (xqueues.map (entry deadlines))).take k

instance (sort : StdSort) (deadlines : XQueueHandle → Option Deadline) (k : Nat)
    (xqueues : List XQueueStatus) (q : XQueueStatus) :
    Decidable (First sort deadlines k xqueues q) :=
  inferInstanceAs (Decidable (_ ∈ _))

variable {sort : StdSort}

theorem First.earlier_lt (h : First sort deadlines k xqueues q) :
    earlier deadlines xqueues q < k := by
  have hlt := Ranks.countP_lt_of_mem_take DeadlineEntry.deadline (sort.sorted _) h
  rw [(sort.perm _).countP_eq, List.countP_map] at hlt
  exact hlt

theorem first_of_notLater (hq : q ∈ xqueues) (h : notLater deadlines xqueues q ≤ k) :
    First sort deadlines k xqueues q := by
  refine Ranks.mem_take DeadlineEntry.deadline (sort.sorted _)
    ((sort.perm _).mem_iff.2 (List.mem_map_of_mem hq)) ?_
  rw [(sort.perm _).countP_eq, List.countP_map]
  exact h

/-- `std::sort`, with the order of equal keys as it happens to come out. -/
def tieSort (rank : XQueueHandle → Nat) : StdSort where
  sort := Ranks.tieSort DeadlineEntry.deadline fun d => rank d.xqueue
  perm := Ranks.tieSort_perm _ _
  sorted := Ranks.tieSort_sorted _ _

theorem first_tieSort {rank : XQueueHandle → Nat} (hnd : (xqueues.map (·.handle)).Nodup)
    (hq : q ∈ xqueues)
    (hfirst : ∀ r ∈ xqueues, key deadlines r = key deadlines q →
      rank r.handle ≤ rank q.handle → r.handle = q.handle)
    (h : earlier deadlines xqueues q < k) : First (tieSort rank) deadlines k xqueues q := by
  have hnd' : (xqueues.map (entry deadlines)).Nodup :=
    List.Nodup.of_map (·.xqueue) (by rw [entries_xqueue]; exact hnd)
  refine Ranks.mem_take_tieSort hnd' (List.mem_map_of_mem hq) ?_ ?_
  · intro d hd hkey hrank
    obtain ⟨r, hr, rfl⟩ := List.mem_map.1 hd
    rw [entry_xqueue, entry_xqueue] at hrank
    rw [List.inj_on_of_nodup_map hnd hr hq (hfirst r hr hkey hrank)]
  · rw [List.countP_map]
    exact h

theorem not_first_tieSort {rank : XQueueHandle → Nat} (hnd : (xqueues.map (·.handle)).Nodup)
    (hq : q ∈ xqueues)
    (hlast : ∀ r ∈ xqueues, key deadlines r = key deadlines q →
      rank q.handle ≤ rank r.handle → r.handle = q.handle)
    (h : k < notLater deadlines xqueues q) : ¬ First (tieSort rank) deadlines k xqueues q := by
  have hnd' : (xqueues.map (entry deadlines)).Nodup :=
    List.Nodup.of_map (·.xqueue) (by rw [entries_xqueue]; exact hnd)
  refine Ranks.not_mem_take_tieSort hnd' ?_ ?_
  · intro d hd hkey hrank
    obtain ⟨r, hr, rfl⟩ := List.mem_map.1 hd
    rw [entry_xqueue, entry_xqueue] at hrank
    rw [List.inj_on_of_nodup_map hnd hr hq (hlast r hr hkey hrank)]
  · rw [List.countP_map]
    exact h

/-- As many XQueues are first as there are slots. -/
theorem length_filter_first (hnd : (xqueues.map (·.handle)).Nodup) (hk : k ≤ xqueues.length) :
    (xqueues.filter fun q => decide (First sort deadlines k xqueues q)).length = k := by
  have hnd' : (xqueues.map (entry deadlines)).Nodup :=
    List.Nodup.of_map (·.xqueue) (by rw [entries_xqueue]; exact hnd)
  have hperm := sort.perm (xqueues.map (entry deadlines))
  have hfilter : ((xqueues.map (entry deadlines)).filter fun d => decide
      (d ∈ (sort.sort (xqueues.map (entry deadlines))).take k)).Perm
      ((sort.sort (xqueues.map (entry deadlines))).take k) := by
    refine (List.perm_ext_iff_of_nodup (hnd'.filter _) ?_).2 fun d => ?_
    · exact (List.take_sublist _ _).nodup (hperm.nodup_iff.2 hnd')
    · rw [List.mem_filter, decide_eq_true_eq]
      exact and_iff_right_of_imp fun h => hperm.mem_iff.1 (List.mem_of_mem_take h)
  have hlen := hfilter.length_eq
  rw [List.filter_map, List.length_map, List.length_take, hperm.length_eq, List.length_map] at hlen
  rw [Nat.min_eq_left hk] at hlen
  exact hlen

/-! ## What a round makes of it -/

/-- One call for each of several XQueues. -/
theorem verdict_each {h : XQueueHandle} {call : XQueueHandle → Callback} {b : Bool}
    (hcall : ∀ h', verdict h [call h'] = if h' = h then some b else none)
    (ddls : List DeadlineEntry) :
    verdict h (ddls.map fun d => call d.xqueue) =
      if h ∈ ddls.map (·.xqueue) then some b else none := by
  induction ddls with
  | nil => rfl
  | cons d ddls ih =>
    rw [List.map_cons, ← List.singleton_append, verdict_append, ih, hcall, List.map_cons]
    by_cases hd : d.xqueue = h
    · by_cases hin : h ∈ ddls.map (·.xqueue) <;> simp [hd, hin]
    · by_cases hin : h ∈ ddls.map (·.xqueue) <;> simp [hd, Ne.symm hd, hin]

/-- The first `k` are resumed, the others suspended. -/
theorem verdict_slots {ddls : List DeadlineEntry} (hnd : (ddls.map (·.xqueue)).Nodup) (k : Nat)
    {d : DeadlineEntry} (hd : d ∈ ddls) :
    verdict d.xqueue ((ddls.take k).map (fun d => .resume d.xqueue) ++
      (ddls.drop k).map fun d => .suspend d.xqueue) = some (decide (d ∉ ddls.take k)) := by
  rw [verdict_append, verdict_each fun h' => verdict_resume h',
    verdict_each fun h' => verdict_suspend h']
  rw [← List.take_append_drop k ddls, List.map_append, List.nodup_append] at hnd
  rw [← List.take_append_drop k ddls, List.mem_append] at hd
  by_cases hfirst : d ∈ ddls.take k
  · have hin : d.xqueue ∈ (ddls.take k).map (·.xqueue) := List.mem_map_of_mem hfirst
    have hdrop : d.xqueue ∉ (ddls.drop k).map (·.xqueue) := fun h => hnd.2.2 _ hin _ h rfl
    rw [if_neg hdrop, if_pos hin, decide_eq_false (not_not.2 hfirst)]
    rfl
  · rw [if_pos (List.mem_map_of_mem (hd.resolve_left hfirst)), decide_eq_true hfirst]
    rfl

/-- Every XQueue is resumed or suspended. -/
theorem verdict_sched {σ : State} (hnd : (xqueues.map (·.handle)).Nodup) (hq : q ∈ xqueues) :
    verdict q.handle (sched sort σ xqueues) =
      some (decide (¬ First sort σ.deadlines σ.k xqueues q)) := by
  have hperm := sort.perm (xqueues.map (entry σ.deadlines))
  have hhandles : ((sort.sort (xqueues.map (entry σ.deadlines))).map (·.xqueue)).Nodup := by
    rw [(hperm.map _).nodup_iff, entries_xqueue]
    exact hnd
  have hin : entry σ.deadlines q ∈ sort.sort (xqueues.map (entry σ.deadlines)) :=
    hperm.mem_iff.2 (List.mem_map_of_mem hq)
  have hslots := verdict_slots hhandles σ.k hin
  rw [entry_xqueue] at hslots
  exact hslots

/-- The entries after a round. -/
theorem inOrder_callbacks {st : Status} (hk : st.Keyed) (order : List XQueueHandle)
    (calls : List Callback) :
    (calls.foldl Status.callback st).inOrder order = (st.inOrder order).map fun q =>
      { q with suspended := (verdict q.handle calls).getD q.suspended } := by
  unfold Status.inOrder
  rw [List.map_filterMap]
  refine List.filterMap_congr fun h _ => ?_
  rw [Status.lookup_callbacks]
  cases hq : st.xqueueStatus.lookup h with
  | none => rfl
  | some q =>
    have hh := hk h q hq
    simp [hh]

end

/-! ## When the slots go to whom they should -/

section
variable {sort : StdSort} {σ : State} {xqueues : List XQueueStatus} {q : XQueueStatus}

/-- An entry as a round leaves it. -/
def served (sort : StdSort) (σ : State) (xqueues : List XQueueStatus) (q : XQueueStatus) :
    XQueueStatus :=
  { q with suspended := decide (¬ First sort σ.deadlines σ.k xqueues q) }

theorem inOrder_sched {st : Status} (hk : st.Keyed) {order : List XQueueHandle}
    (hperm : order.Perm st.xqueueStatus.keys) :
    ((sched sort σ (st.inOrder order)).foldl Status.callback st).inOrder order =
      (st.inOrder order).map (served sort σ (st.inOrder order)) := by
  rw [inOrder_callbacks hk]
  refine List.map_congr_left fun q hq => ?_
  rw [verdict_sched (hk.nodup_inOrder hperm) hq]
  rfl

theorem served_suspended : (served sort σ xqueues q).suspended = false ↔
    First sort σ.deadlines σ.k xqueues q := by
  simp [served]

/-- As many are first as there are slots, so all slots go to ready XQueues if
none is idle. -/
theorem ready_slots_iff (sort : StdSort) (σ : State) (hnd : (xqueues.map (·.handle)).Nodup)
    (hk : σ.k ≤ xqueues.length) :
    (((xqueues.filter (·.ready)).map (served sort σ xqueues)).filter
      (fun q => !q.suspended)).length = σ.k ↔
      ∀ q ∈ xqueues, q.ready = false → ¬ First sort σ.deadlines σ.k xqueues q := by
  have hslots : (xqueues.filter fun q =>
      decide (First sort σ.deadlines σ.k xqueues q)).length = σ.k := length_filter_first hnd hk
  have hsame : ((xqueues.filter (·.ready)).map (served sort σ xqueues)).filter
      (fun q => !q.suspended) =
      ((xqueues.filter fun q => decide (First sort σ.deadlines σ.k xqueues q)).filter
        (·.ready)).map (served sort σ xqueues) := by
    rw [List.filter_map, List.filter_comm]
    refine congrArg _ (congrArg _ (List.filter_congr fun q _ => ?_))
    simp [served]
  have hall : ((xqueues.filter fun q =>
      decide (First sort σ.deadlines σ.k xqueues q)).filter (·.ready)).length = σ.k ↔
      ∀ q ∈ xqueues.filter (fun q => decide (First sort σ.deadlines σ.k xqueues q)),
        q.ready = true := by
    rw [← List.length_filter_eq_length_iff, hslots]
  rw [hsame, List.length_map, hall]
  constructor
  · intro hin q hq hidle hfirst
    have hready := hin q (List.mem_filter.2 ⟨hq, decide_eq_true hfirst⟩)
    rw [hidle] at hready
    cases hready
  · intro hidle q hq
    obtain ⟨hq, hfirst⟩ := List.mem_filter.1 hq
    by_contra hnot
    exact hidle q hq (by simpa using hnot) (of_decide_eq_true hfirst)

/-- What it means for the XQueues that a round has sorted. -/
theorem earliestFirst_iff (sort : StdSort) (σ : State) (xqueues : List XQueueStatus)
    (hnd : (xqueues.map (·.handle)).Nodup) :
    EarliestFirst σ.deadlines σ.k (xqueues.map (served sort σ xqueues)) ↔
      if (xqueues.filter (·.ready)).length ≤ σ.k then
        ∀ q ∈ xqueues.filter (·.ready), First sort σ.deadlines σ.k xqueues q
      else
        (∀ q ∈ xqueues, q.ready = false → ¬ First sort σ.deadlines σ.k xqueues q) ∧
          ∀ r ∈ xqueues.filter (·.ready), First sort σ.deadlines σ.k xqueues r →
            ∀ s ∈ xqueues.filter (·.ready), ¬ First sort σ.deadlines σ.k xqueues s →
              absoluteDeadline σ.deadlines r ≤ absoluteDeadline σ.deadlines s := by
  have hready : (xqueues.map (served sort σ xqueues)).filter (·.ready) =
      (xqueues.filter (·.ready)).map (served sort σ xqueues) := by
    rw [List.filter_map]
    rfl
  unfold EarliestFirst
  dsimp only
  rw [hready, List.length_map]
  split
  · rw [List.forall_mem_map]
    exact forall₂_congr fun q _ => served_suspended
  · rename_i hmany
    refine and_congr ?_ ?_
    · have hk : σ.k ≤ xqueues.length := by
        have hle := List.length_filter_le (fun q : XQueueStatus => q.ready) xqueues
        omega
      exact ready_slots_iff sort σ hnd hk
    · simp only [List.forall_mem_map, served_suspended]
      refine forall₂_congr fun r _ => forall_congr' fun _ => forall₂_congr fun s _ => ?_
      refine imp_congr ?_ Iff.rfl
      simp [served]

/-- With the order of equal keys that is best for `r` and worst for `s`, the
one has a slot and the other none. -/
theorem first_of_tie (hnd : (xqueues.map (·.handle)).Nodup) {r s : XQueueStatus} (hr : r ∈ xqueues)
    (hs : s ∈ xqueues) (hne : s.handle ≠ r.handle)
    (hfirst : earlier σ.deadlines xqueues r < σ.k) (hlast : σ.k < notLater σ.deadlines xqueues s) :
    ∃ sort, First sort σ.deadlines σ.k xqueues r ∧ ¬ First sort σ.deadlines σ.k xqueues s := by
  let rank : XQueueHandle → Nat := fun h => if h = r.handle then 0 else if h = s.handle then 2 else 1
  refine ⟨tieSort rank, first_tieSort hnd hr ?_ hfirst, not_first_tieSort hnd hs ?_ hlast⟩
  · intro q _ _ hrank
    by_contra hq
    simp only [rank, if_neg hq, if_true] at hrank
    split at hrank <;> omega
  · intro q _ _ hrank
    by_contra hq
    simp only [rank, if_neg hne, if_true, if_neg hq] at hrank
    split at hrank <;> omega

/-- **When K-EDF is earliest deadline first.** Whatever order the sort gives to
equal keys, the slots go to the ready XQueues with the earliest deadlines,
exactly if the counts of the keys leave it no choice. -/
theorem deadline_order_iff {st : Status} (hk : st.Keyed) {order : List XQueueHandle}
    (hperm : order.Perm st.xqueueStatus.keys) (σ : State) :
    (∀ sort, EarliestFirst σ.deadlines σ.k
      (((sched sort σ (st.inOrder order)).foldl Status.callback st).inOrder order)) ↔
    Served σ.deadlines σ.k (st.inOrder order) := by
  have hnd := hk.nodup_inOrder hperm
  simp only [inOrder_sched hk hperm, earliestFirst_iff _ _ _ hnd]
  generalize st.inOrder order = xqueues at hnd
  unfold Served
  dsimp only
  split
  · constructor
    · intro h q hq
      by_contra hlast
      have hin := List.mem_of_mem_filter hq
      -- an order in which all with the same key come before it
      refine absurd (h (tieSort fun h => if h = q.handle then 1 else 0) q hq)
        (not_first_tieSort hnd hin ?_ (not_le.1 hlast))
      intro r _ _ hrank
      by_contra hr
      simp [hr] at hrank
    · intro h sort q hq
      exact first_of_notLater (List.mem_of_mem_filter hq) (h q hq)
  · constructor
    · intro h
      refine ⟨fun q hq hidle => ?_, fun r hr s hs hlt hfirst => ?_⟩
      · by_contra hfirst
        -- an order in which it comes before all with the same key
        refine (h (tieSort fun h => if h = q.handle then 0 else 1)).1 q hq hidle
          (first_tieSort hnd hq ?_ (not_le.1 hfirst))
        intro r _ _ hrank
        by_contra hr
        simp [hr] at hrank
      · by_contra hlast
        have hne : s.handle ≠ r.handle := by
          intro he
          rw [List.inj_on_of_nodup_map hnd (List.mem_of_mem_filter hs) (List.mem_of_mem_filter hr)
            he] at hlt
          exact lt_irrefl _ hlt
        obtain ⟨sort, hr', hs'⟩ := first_of_tie hnd (List.mem_of_mem_filter hr)
          (List.mem_of_mem_filter hs) hne hfirst (not_le.1 hlast)
        exact absurd hlt (not_lt.2 ((h sort).2 r hr hr' s hs hs'))
    · rintro ⟨hidle, hready⟩ sort
      refine ⟨fun q hq hnot hfirst => ?_, fun r hr hfirst s hs hnot => ?_⟩
      · exact absurd (hidle q hq hnot) (not_le.2 hfirst.earlier_lt)
      · by_contra hlt
        exact hnot (first_of_notLater (List.mem_of_mem_filter hs)
          (hready r hr s hs (not_le.1 hlt) hfirst.earlier_lt))

end

/-! ## The slot of an idle XQueue -/

/-- XQueue 7 is idle, XQueue 8 ready; neither has a hint, and there is one slot. -/
def idleActs : List HostedAct :=
  [.own .run, .own (.recvEvent (.xQueueCreate 1 8 1 2 0 0)),
    .own (.recvEvent (.xQueueCreate 1 7 1 2 0 0)), .own (.recvEvent (.xQueueReady 1 8 0)),
    .own (.wake 0), .own (.update 0), .own (.update 0), .own (.update 0)]

def idleClock : Clock := ⟨0, fun _ => 0⟩

theorem idle_round : ∃ s s' : Hosted (policy Reuse.stableSort),
    (Hosted.life (policy Reuse.stableSort)).Reachable s ∧
    s.step (.reschedule idleClock [7, 8]) = some s' ∧ s'.policy.k = 1 ∧
    s.scheduler.status.inOrder [7, 8] =
      [⟨7, 1, 2, 1, 0, 0, false, false, 0⟩, ⟨8, 1, 2, 1, 0, 0, true, false, 0⟩] ∧
    s'.scheduler.status.inOrder [7, 8] =
      [⟨7, 1, 2, 1, 0, 0, false, false, 0⟩, ⟨8, 1, 2, 1, 0, 0, true, true, 0⟩] := by
  have htrace : (LTS.exec Hosted.step
      (⟨.init .kPolicyKEarliestDeadlineFirst, (policy Reuse.stableSort).init⟩ :
        Hosted (policy Reuse.stableSort)) idleActs).bind
      (fun s => (s.step (.reschedule idleClock [7, 8])).map fun s' =>
        (s'.policy.k, s.scheduler.status.inOrder [7, 8], s'.scheduler.status.inOrder [7, 8])) =
      some (1, [⟨7, 1, 2, 1, 0, 0, false, false, 0⟩, ⟨8, 1, 2, 1, 0, 0, true, false, 0⟩],
        [⟨7, 1, 2, 1, 0, 0, false, false, 0⟩, ⟨8, 1, 2, 1, 0, 0, true, true, 0⟩]) := by
    decide +kernel
  obtain ⟨s, hs, htrace⟩ := Option.bind_eq_some_iff.1 htrace
  obtain ⟨s', hs', he⟩ := Option.map_eq_some_iff.1 htrace
  simp only [Prod.mk.injEq] at he
  exact ⟨s, s', LTS.reachable_of_exec (.construct _) hs, hs', he⟩

/-- The slot goes to the idle XQueue. -/
theorem idle_takes_slot : ∃ s s' : Hosted (policy Reuse.stableSort),
    (Hosted.life (policy Reuse.stableSort)).Reachable s ∧
    s.step (.reschedule idleClock [7, 8]) = some s' ∧ 1 ≤ s'.policy.k ∧
    ¬ EarliestFirst s'.policy.deadlines s'.policy.k (s'.scheduler.status.inOrder [7, 8]) := by
  obtain ⟨s, s', hr, hstep, hk, -, hafter⟩ := idle_round
  refine ⟨s, s', hr, hstep, hk.ge, ?_⟩
  rw [hk, hafter]
  intro h
  have hsus := h ⟨8, 1, 2, 1, 0, 0, true, true, 0⟩ (by decide)
  cases hsus

theorem deadline_order_idle : ∃ st : Status, st.Keyed ∧ [7, 8].Perm st.xqueueStatus.keys ∧
    st.inOrder [7, 8] =
      [⟨7, 1, 2, 1, 0, 0, false, false, 0⟩, ⟨8, 1, 2, 1, 0, 0, true, false, 0⟩] ∧
    ∀ σ : State, (∀ sort, EarliestFirst σ.deadlines σ.k
      (((sched sort σ (st.inOrder [7, 8])).foldl Status.callback st).inOrder [7, 8])) ↔
      Served σ.deadlines σ.k (st.inOrder [7, 8]) := by
  obtain ⟨s, s', hr, hstep, -, hbefore, -⟩ := idle_round
  have hk : s.scheduler.status.Keyed := (PolicyRun.keyed_life (Hosted.life_run hr)).2
  have hperm := (Hosted.round hstep).1
  exact ⟨s.scheduler.status, hk, hperm, hbefore, deadline_order_iff hk hperm⟩

end KEarliestDeadlineFirstPolicy
end Xsched.Sched
