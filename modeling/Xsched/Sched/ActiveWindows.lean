import Mathlib.Data.Finset.Basic
import Xsched.Sched.Rounds

/-!
# The processes in front

`ActiveWindowFirstPolicy` gets a `WindowActiveHint` when a window comes to the
front of a display. It remembers for each display the process of that window
(`display_active_pids_`), and keeps the set of these processes beside it
(`active_pids_`), which is what `Sched` looks at: while one of them has a ready
XQueue, the XQueues of the others are suspended.

The set is kept up by one erase and one insert. A process can be in front of
two displays, and then the erase takes away what the other display still has:
the process is suspended though its window is in front there.

**Result.** `windows_tracked_iff`: the set is right in every state of a run
exactly if no hint takes a display from a process that is in front of another
one too.
-/
namespace Xsched.Sched
namespace ActiveWindowFirstPolicy

/-! ## The policy -/

/-- mirrors sched/include/xsched/sched/policy/awf.h:23-24 -/
structure State where
  activePids : Finset PID
  displayActivePids : Nat → Option PID

/-- mirrors sched/src/policy/awf.cpp:6-29 -/
def sched (activePids : Finset PID) (xqueues : List XQueueStatus) : List Callback :=
  let activeProcessReady := xqueues.any fun q => q.ready && decide (q.pid ∈ activePids)
  if !activeProcessReady then xqueues.map fun q => .resume q.handle
  else xqueues.map fun q => if q.pid ∈ activePids then .resume q.handle else .suspend q.handle

/-- mirrors sched/src/policy/awf.cpp:31-51 -/
def recvHint (s : State) : Hint → State
  | .windowActive pid display =>
    if pid = 0 then s
    else
      match s.displayActivePids display with
      | none =>
        { activePids := insert pid s.activePids
          displayActivePids := Function.update s.displayActivePids display (some pid) }
      | some previous =>
        { activePids := insert pid (s.activePids.erase previous)
          displayActivePids := Function.update s.displayActivePids display (some pid) }
  | _ => s

abbrev policy : Policy where
  State := State
  init := ⟨∅, fun _ => none⟩
  recvHint _ hint s := recvHint s hint
  sched _ status order s := some (sched s.activePids (status.inOrder order), s)

/-! ## The set and the displays -/

/-- The window in front of some display is one of this process. -/
def InFront (s : State) (pid : PID) : Prop := ∃ display, s.displayActivePids display = some pid

/-- The set is that of the processes in front. -/
def Tracked (s : State) : Prop := ∀ pid, pid ∈ s.activePids ↔ InFront s pid

/-- A hint that takes a display from a process takes from it all it has. -/
def TakesAll (s : State) : HostedAct → Prop
  | .recvHint _ _ (.windowActive pid display) =>
    pid ≠ 0 → ∀ previous, s.displayActivePids display = some previous → previous ≠ pid →
      ∀ other, s.displayActivePids other = some previous → other = display
  | _ => True

section
variable {s : State} {pid : PID} {display : Nat}

/-- Who is in front after a display goes to a process. -/
theorem inFront_update {pids : Finset PID} {p : PID} :
    InFront ⟨pids, Function.update s.displayActivePids display (some pid)⟩ p ↔
      p = pid ∨ ∃ other, other ≠ display ∧ s.displayActivePids other = some p := by
  unfold InFront
  dsimp only
  constructor
  · rintro ⟨d, hd⟩
    by_cases he : d = display
    · rw [he, Function.update_self] at hd
      exact Or.inl (Option.some.inj hd).symm
    · rw [Function.update_of_ne he] at hd
      exact Or.inr ⟨d, he, hd⟩
  · rintro (rfl | ⟨d, he, hd⟩)
    · exact ⟨display, Function.update_self _ _ _⟩
    · exact ⟨d, by rw [Function.update_of_ne he]; exact hd⟩

/-- **One hint**: the set stays right exactly if the hint takes all. -/
theorem tracked_recvHint (hs : Tracked s) {now : TimePoint} {clock : Clock} {hint : Hint} :
    Tracked (recvHint s hint) ↔ TakesAll s (.recvHint now clock hint) := by
  cases hint with
  | windowActive pid display =>
    simp only [recvHint, TakesAll]
    by_cases h0 : pid = 0
    · simp [h0, hs]
    · rw [if_neg h0]
      cases hd : s.displayActivePids display with
      | none =>
        refine iff_of_true (fun p => ?_) (by simp)
        rw [inFront_update, Finset.mem_insert, hs p]
        refine or_congr_right ⟨?_, ?_⟩
        · rintro ⟨d, hp⟩
          refine ⟨d, ?_, hp⟩
          rintro rfl
          rw [hd] at hp
          cases hp
        · rintro ⟨d, -, hp⟩
          exact ⟨d, hp⟩
      | some previous =>
        constructor
        · intro ht _ q hq hne other hother
          cases hq
          by_contra he
          have hin : previous ∈ insert pid (s.activePids.erase previous) :=
            (ht previous).2 (inFront_update.2 (Or.inr ⟨other, he, hother⟩))
          simp [hne] at hin
        · intro hok p
          rw [inFront_update, Finset.mem_insert, Finset.mem_erase, hs p]
          by_cases hp : p = pid
          · simp [hp]
          · refine or_congr_right ⟨?_, ?_⟩
            · rintro ⟨hne, d, hpd⟩
              refine ⟨d, ?_, hpd⟩
              rintro rfl
              rw [hd] at hpd
              exact hne (Option.some.inj hpd).symm
            · rintro ⟨d, he, hpd⟩
              refine ⟨?_, d, hpd⟩
              rintro rfl
              exact he (hok h0 _ rfl hp d hpd)
  | _ => exact iff_of_true hs trivial

theorem tracked_init : Tracked policy.init := by
  intro pid
  simp [InFront]

end

/-! ## Who runs after a round -/

/-- No XQueue of a process in front is suspended. -/
def FrontRuns (s : State) (st : Status) : Prop :=
  ∀ h q, st.xqueueStatus.lookup h = some q → InFront s q.pid → q.suspended = false

theorem verdict_sched {pids : Finset PID} {xqueues : List XQueueStatus} {q : XQueueStatus}
    (hnd : (xqueues.map (·.handle)).Nodup) (hq : q ∈ xqueues) (hpid : q.pid ∈ pids) :
    verdict q.handle (sched pids xqueues) = some false := by
  have hturn : sched pids xqueues = xqueues.flatMap fun r =>
      if xqueues.any (fun q => q.ready && decide (q.pid ∈ pids)) = true ∧ r.pid ∉ pids then
        [.suspend r.handle] else [.resume r.handle] := by
    unfold sched
    cases xqueues.any fun q => q.ready && decide (q.pid ∈ pids) with
    | false => simp [List.map_eq_flatMap]
    | true =>
      simp only [Bool.not_true, Bool.false_eq_true, if_false, List.map_eq_flatMap, true_and]
      refine List.flatMap_congr fun r _ => ?_
      by_cases hr : r.pid ∈ pids <;> simp [hr]
  rw [hturn, verdict_flatMap hnd _ hq]
  · simp [hpid]
  · intro r _ h hne
    split <;> simp [Ne.symm hne]

/-- What the set is for: while it is right, a round suspends no process in front. -/
theorem frontRuns_round {s s' : Hosted policy} {clock : Clock} {order : List XQueueHandle}
    (hr : (Hosted.life policy).Reachable s) (ht : Tracked s.policy)
    (hround : s.step (.reschedule clock order) = some s') :
    FrontRuns s'.policy s'.scheduler.status := by
  obtain ⟨calls, R⟩ := Hosted.round_life hr hround
  obtain ⟨hcalls, hpolicy⟩ := Prod.mk.inj (Option.some.inj R.sched)
  intro h q' hq' hfront
  obtain ⟨q, hq, rfl, rfl⟩ := R.entry hq'
  have hpid : q.pid ∈ s.policy.activePids := by
    rw [ht]
    have hsame : s'.policy = s.policy := hpolicy.symm
    rw [← hsame]
    exact hfront
  have hverdict := verdict_sched R.nodup hq hpid
  rw [← hcalls]
  change (verdict q.handle (sched s.policy.activePids _)).getD q.suspended = false
  rw [hverdict]
  rfl

/-- The set is right, and the next round suspends no process in front. -/
def Safe (s : Hosted policy) : Prop :=
  Tracked s.policy ∧ ∀ clock order s', s.step (.reschedule clock order) = some s' →
    FrontRuns s'.policy s'.scheduler.status

theorem safe_iff {s : Hosted policy} (hr : (Hosted.life policy).Reachable s) :
    Safe s ↔ Tracked s.policy :=
  ⟨And.left, fun ht => ⟨ht, fun _ _ _ h => frontRuns_round hr ht h⟩⟩

theorem tracked_step {s s' : Hosted policy} {act : HostedAct} (hs : Tracked s.policy)
    (hstep : s.step act = some s') : Tracked s'.policy ↔ TakesAll s.policy act := by
  cases act with
  | recvHint now clock hint =>
    simp only [Hosted.step] at hstep
    split at hstep
    · obtain ⟨scheduler, -, rfl⟩ := Option.map_eq_some_iff.1 hstep
      exact tracked_recvHint hs
    · cases hstep
  | reschedule clock order =>
    obtain ⟨-, calls, hcalls, -⟩ := Hosted.round hstep
    have hsame : s.policy = s'.policy := congrArg Prod.snd (Option.some.inj hcalls)
    exact iff_of_true (hsame ▸ hs) trivial
  | own act =>
    cases Hosted.policy_cases hstep with
    | other hact => exact iff_of_true hs trivial

/-- **When active windows are tracked.** In every state of a run the set is that
of the processes in front, and a round then suspends none of them, exactly if no
hint of the run takes a display from a process that has another one. -/
theorem windows_tracked_iff {s₀ : Hosted policy} (h0 : Hosted.Begins policy s₀)
    (acts : List HostedAct) :
    LTS.Throughout Hosted.step Safe s₀ acts ↔
      LTS.EachStep Hosted.step (fun s act => TakesAll s.policy act) s₀ acts := by
  have hr₀ : (Hosted.life policy).Reachable s₀ := LTS.reachable_init h0
  have hinit : s₀.policy = policy.init := h0.fresh.policy
  refine LTS.throughout_iff (fun s act s' hr hs hstep => ?_) hr₀
    ((safe_iff hr₀).2 (by rw [hinit]; exact tracked_init)) acts
  have hr' : (Hosted.life policy).Reachable s' := LTS.Reachable.step hr hstep
  rw [safe_iff hr']
  exact tracked_step hs.1 hstep

/-- Process 5 comes to the front of displays 1 and 2, then process 6 to that of
display 2. Both have a ready XQueue. -/
def twoDisplayActs : List HostedAct :=
  [.own .run, .own (.recvEvent (.xQueueCreate 5 7 1 2 0 0)),
    .own (.recvEvent (.xQueueCreate 6 8 1 2 0 0)), .own (.recvEvent (.hint 5)),
    .own (.recvEvent (.hint 5)), .own (.recvEvent (.hint 6)),
    .own (.recvEvent (.xQueueReady 5 7 0)), .own (.recvEvent (.xQueueReady 6 8 0)), .own (.wake 0),
    .own (.update 0), .own (.update 0), .recvHint 0 ⟨0, fun _ => 0⟩ (.windowActive 5 1),
    .recvHint 0 ⟨0, fun _ => 0⟩ (.windowActive 5 2),
    .recvHint 0 ⟨0, fun _ => 0⟩ (.windowActive 6 2), .own (.update 0),
    .reschedule ⟨0, fun _ => 0⟩ [7, 8], .own (.update 0), .reschedule ⟨0, fun _ => 0⟩ [7, 8]]

def twoDisplayStart : Hosted policy := ⟨.init .kPolicyActiveWindowFirst, policy.init⟩

theorem twoDisplay_begins : Hosted.Begins policy twoDisplayStart := .construct _

/-- Process 5 is in front of display 1, and its XQueue is suspended. -/
theorem front_suspended : Hosted.Begins policy twoDisplayStart ∧
    (∃ s, LTS.exec Hosted.step twoDisplayStart twoDisplayActs = some s ∧ InFront s.policy 5 ∧
      ∃ q, s.scheduler.status.xqueueStatus.lookup 7 = some q ∧ q.pid = 5 ∧ q.ready = true ∧
        q.suspended = true) ∧
    ¬ LTS.Throughout Hosted.step Safe twoDisplayStart twoDisplayActs := by
  have htrace : (LTS.exec Hosted.step twoDisplayStart twoDisplayActs).map (fun s =>
      (s.policy.displayActivePids 1, s.scheduler.status.xqueueStatus.lookup 7,
        decide (5 ∈ s.policy.activePids))) =
      some (some 5, some ⟨7, 1, 2, 5, 0, 0, true, true, 0⟩, false) := by
    decide +kernel
  obtain ⟨s, hs, he⟩ := Option.map_eq_some_iff.1 htrace
  simp only [Prod.mk.injEq, decide_eq_false_iff_not] at he
  obtain ⟨hfront, hlook, hpids⟩ := he
  refine ⟨twoDisplay_begins, ⟨s, hs, ⟨1, hfront⟩, _, hlook, rfl, rfl, rfl⟩, fun hall => ?_⟩
  have hsafe : Safe s := hall.last hs
  exact hpids ((hsafe.1 5).2 ⟨1, hfront⟩)

theorem windows_tracked_twoDisplay :
    LTS.Throughout Hosted.step Safe twoDisplayStart twoDisplayActs ↔
      LTS.EachStep Hosted.step (fun s act => TakesAll s.policy act) twoDisplayStart
        twoDisplayActs :=
  windows_tracked_iff twoDisplay_begins _

end ActiveWindowFirstPolicy
end Xsched.Sched
