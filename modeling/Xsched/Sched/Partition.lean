import Xsched.Sched.Rotation

/-!
# One XQueue of the utilization partition at a time

A switch resumes the XQueue that gets the next slice and suspends every other
one. But an XQueue is created resumed, and of the five ways of a round three
make no call: while the slice of a ready current XQueue lasts, and where the
current one has to stop and no other XQueue with a utilization is ready, the
round leaves everything as it is, whatever has been created or become ready
since the last switch.

**Result.** `one_xqueue_iff`.
-/
namespace Xsched.Sched
namespace UtilizationPartitionPolicy

/-- A ready XQueue that is not suspended. -/
def Executes (st : Status) (h : XQueueHandle) : Prop :=
  ∃ q, st.xqueueStatus.lookup h = some q ∧ q.ready = true ∧ q.suspended = false

/-- At most one XQueue executes; where there is a current one, it does. -/
structure Exclusive (curRunning : XQueueHandle) (st : Status) : Prop where
  one : ∀ h h', Executes st h → Executes st h' → h = h'
  current : curRunning ≠ 0 → Executes st curRunning

section
variable {clock : Clock} {s s' : State} {xs : List XQueueStatus} {calls : List Callback}

theorem verdict_suspends (h : XQueueHandle) (xs : List XQueueStatus) :
    verdict h (xs.map fun q => .suspend q.handle) =
      if h ∈ xs.map (·.handle) then some true else none := by
  induction xs with
  | nil => rfl
  | cons q xs ih =>
    simp only [List.map_cons, verdict, List.mem_cons]
    rw [ih]
    by_cases hin : h ∈ xs.map (·.handle)
    · simp only [hin, or_true, if_true, Option.some_or]
    · simp only [hin, or_false, if_false, Option.none_or, eq_comm]

/-- The calls suspend every XQueue of the loop but `c`, which they resume. -/
def RunsOnly (c : XQueueHandle) (calls : List Callback) (xs : List XQueueStatus) : Prop :=
  ∀ q ∈ xs, verdict q.handle calls = some (decide (q.handle ≠ c))

theorem runsOnly_switchTo (clock : Clock) (s : State) (xs : List XQueueStatus) (h : XQueueHandle)
    (util : Utilization) :
    RunsOnly h (switchTo clock s h util xs).1 xs := by
  intro q hq
  simp only [switchTo]
  rw [verdict_append, verdict_suspends]
  by_cases hh : q.handle = h
  · simp [verdict, hh]
  · have hin : q.handle ∈ (xs.filter (·.handle ≠ h)).map (·.handle) :=
      List.mem_map_of_mem (List.mem_filter.2 ⟨hq, by simpa using hh⟩)
    rw [if_pos hin]
    simp [verdict, hh, Ne.symm hh]

theorem AnyCases.runsOnly (hnd : (xs.map (·.handle)).Nodup) (h : AnyCases clock s xs calls s') :
    s'.curRunning = s.curRunning ∧ (∀ q ∈ xs, verdict q.handle calls = some true) ∨
      ∃ q ∈ xs, q.ready = true ∧ s'.curRunning = q.handle ∧ RunsOnly q.handle calls xs := by
  cases h with
  | idle hnone =>
    refine Or.inl ⟨rfl, fun q hq => ?_⟩
    rw [verdict_suspends, if_pos (List.mem_map_of_mem hq)]
  | @picked pre post q util hxs hready hutil =>
    subst hxs
    refine Or.inr ⟨q, by simp, hready, rfl, fun r hr => ?_⟩
    simp only [List.map_append, List.map_cons, List.nodup_append, List.nodup_cons] at hnd
    have hpost : r ∈ post → r.handle ≠ q.handle := by
      intro hr he
      exact hnd.2.1.1 (he ▸ List.mem_map_of_mem hr)
    have hpre : r ∈ pre → r.handle ≠ q.handle := fun hr =>
      hnd.2.2 _ (List.mem_map_of_mem hr) _ (.head _)
    rw [verdict_append, verdict, verdict_addTimer, verdict_suspends, verdict_suspends]
    rcases List.mem_append.1 hr with hr | hr
    · have hin : r.handle ∈ pre.map (·.handle) := List.mem_map_of_mem hr
      by_cases hin' : r.handle ∈ post.map (·.handle) <;>
        simp [hin, hin', hpre hr, Ne.symm (hpre hr)]
    · rcases List.mem_cons.1 hr with rfl | hr
      · simp [hnd.2.1.1]
      · have hin : r.handle ∈ post.map (·.handle) := List.mem_map_of_mem hr
        simp [hin, hpost hr]

/-- The current XQueue after a round has been it before, or the round resumes it. -/
theorem Outcome.resumes {status : Status} (h : Outcome clock status s xs calls s')
    (hnd : (xs.map (·.handle)).Nodup) {q : XQueueStatus} (hq : q ∈ xs) (hne : q.handle ≠ 0)
    (hcur : s'.curRunning = q.handle) :
    s.curRunning = q.handle ∧ calls = [] ∨ verdict q.handle calls = some false := by
  cases h with
  | unhinted | lasts => exact Or.inl ⟨hcur, rfl⟩
  | any hutils hzero =>
    rcases (switchToAny_cases clock s xs).runsOnly hnd with ⟨hnone, -⟩ | ⟨r, -, -, hpick, honly⟩
    · exact absurd (hcur.symm.trans hnone) hne
    · rw [hcur] at hpick
      rw [honly q hq, ← hpick]
      simp
  | @switch h util _ hover hnext hutil =>
    have honly := runsOnly_switchTo clock s xs h util q hq
    rw [show h = q.handle from hcur] at honly ⊢
    rw [honly]
    simp
  | rest => exact absurd hcur.symm hne

end

/-- A round that makes no call leaves every XQueue as it was. -/
theorem status_idle {s s' : PolicyRun policy} {clock : Clock} {order : List XQueueHandle}
    (R : PolicyRun.Round clock order s [] s') : s'.status = s.status := R.status

section
variable {s s' : PolicyRun policy} {clock : Clock} {order : List XQueueHandle}
  {calls : List Callback}

theorem round_outcome (R : PolicyRun.Round clock order s calls s') :
    Outcome clock s.status (purge s.status s.policy) (s.status.inOrder order) calls s'.policy :=
  outcome R.sched

/-- What executes after a round: what its calls resume and what they leave. -/
theorem executes_after (R : PolicyRun.Round clock order s calls s') {h : XQueueHandle} :
    Executes s'.status h ↔ ∃ q ∈ s.status.inOrder order, q.handle = h ∧ q.ready = true ∧
      (verdict h calls).getD q.suspended = false := by
  constructor
  · rintro ⟨q', hq', hready, hsus⟩
    obtain ⟨q, hq, rfl, rfl⟩ := R.entry hq'
    exact ⟨q, hq, rfl, hready, hsus⟩
  · rintro ⟨q, hq, rfl, hready, hsus⟩
    exact ⟨_, R.lookup hq, hready, hsus⟩

theorem exclusive_runsOnly (R : PolicyRun.Round clock order s calls s') {c : XQueueHandle}
    (hready : Ready s.status c) (honly : RunsOnly c calls (s.status.inOrder order)) :
    Exclusive c s'.status := by
  have hrun : ∀ h, Executes s'.status h ↔ h = c := by
    intro h
    rw [executes_after R]
    constructor
    · rintro ⟨q, hq, rfl, -, hsus⟩
      rw [honly q hq] at hsus
      simpa using hsus
    · rintro rfl
      obtain ⟨q, hq, hqr⟩ := hready
      have hh := R.keyed h q hq
      subst hh
      have hmem := R.mem.2 hq
      exact ⟨q, hmem, rfl, hqr, by simp [honly q hmem]⟩
  exact ⟨fun h h' hh hh' => ((hrun h).1 hh).trans ((hrun h').1 hh').symm, fun _ => (hrun c).2 rfl⟩

theorem exclusive_suspended (R : PolicyRun.Round clock order s calls s')
    (hall : ∀ q ∈ s.status.inOrder order, verdict q.handle calls = some true) :
    Exclusive 0 s'.status := by
  refine ⟨fun h h' hh => ?_, fun h => absurd rfl h⟩
  obtain ⟨q, hq, rfl, -, hsus⟩ := (executes_after R).1 hh
  rw [hall q hq] at hsus
  cases hsus

theorem exclusive_any (R : PolicyRun.Round clock order s calls s')
    (hany : AnyCases clock { purge s.status s.policy with curRunning := 0 }
      (s.status.inOrder order) calls s'.policy) : Exclusive s'.policy.curRunning s'.status := by
  rcases hany.runsOnly R.nodup with ⟨hcur, hall⟩ | ⟨q, hq, hready, hcur, honly⟩
  · rw [hcur]
    exact exclusive_suspended R hall
  · rw [hcur]
    exact exclusive_runsOnly R ⟨q, R.mem.1 hq, hready⟩ honly

end

/-- `cur_running_`, where there is one. -/
def runningFlag : RunningFlag policy where
  flag σ h := h ≠ 0 ∧ σ.curRunning = h
  init h := fun hf => hf.1 hf.2.symm
  hint clock hint σ h hf := by
    refine ⟨hf.1, hf.2 ▸ ?_⟩
    cases hint with
    | utilization pid handle util =>
      change σ.curRunning = (recvHint σ (.utilization pid handle util)).curRunning
      unfold recvHint
      dsimp only
      split <;> rfl
    | _ => rfl
  sched clock order s calls s' R hclear q hq hf := by
    obtain ⟨hne, hcur⟩ := hf
    rcases (round_outcome R).resumes R.nodup hq hne hcur with ⟨hpurge, hnil⟩ | hres
    · obtain ⟨hsame, -⟩ := curRunning_purge s.status s.policy
        (by rw [hpurge]; exact hne)
      rw [hnil]
      exact hclear q hq ⟨hne, hsame.symm.trans hpurge⟩
    · rw [hres]
      rfl

/-- What a round that makes no call has to find: while the slice of a ready
current XQueue lasts, only that one executes; where the current one has to stop
and no other is to follow it, at most one does. -/
structure Undisturbed (clock : Clock) (σ : State) (st : Status) : Prop where
  slice : σ.curRunning ≠ 0 → Ready st σ.curRunning → clock.now < σ.curEnd →
    ∀ h, Executes st h → h = σ.curRunning
  rest : σ.curRunning ≠ 0 → σ.curRunning ∈ st.xqueueStatus →
    ¬ (clock.now < σ.curEnd ∧ Ready st σ.curRunning) →
    (∀ k ∈ σ.utils, Ready st k → k = σ.curRunning) →
    ∀ h h', Executes st h → Executes st h' → h = h'

theorem Ready.mem {st : Status} {h : XQueueHandle} (hr : Ready st h) : h ∈ st.xqueueStatus := by
  obtain ⟨q, hq, -⟩ := hr
  exact AList.lookup_isSome.1 (by rw [hq]; rfl)

theorem curRunning_of_live (σ : State) (st : Status) (h : σ.curRunning ∈ st.xqueueStatus) :
    (purge st σ).curRunning = σ.curRunning := by
  simp [purge, h]

theorem curEnd_purge (σ : State) (st : Status) : (purge st σ).curEnd = σ.curEnd := rfl

/-- **When one XQueue executes at a time.** After a round that finds an XQueue
with a utilization, at most one XQueue executes and it is the current one, if
there is one, exactly if a round that makes no call finds it so. -/
theorem one_xqueue_iff {s s' : Hosted policy} {clock : Clock} {order : List XQueueHandle}
    (hr : (Hosted.life policy).Reachable s) (hround : s.step (.reschedule clock order) = some s')
    (hhint : ∃ h ∈ s.policy.utils, h ∈ s.scheduler.status.xqueueStatus) :
    Exclusive s'.policy.curRunning s'.scheduler.status ↔
      Undisturbed clock s.policy s.scheduler.status := by
  obtain ⟨calls, R⟩ := Hosted.round_life hr hround
  have hclear : ∀ h, h ≠ 0 → s.policy.curRunning = h → Ready s.scheduler.status h →
      Executes s.scheduler.status h := by
    rintro h hne hcur ⟨q, hq, hready⟩
    exact ⟨q, hq, hready, runningFlag.clear (Hosted.life_run hr) hq ⟨hne, hcur⟩⟩
  have hidle : calls = [] → s'.scheduler.status = s.scheduler.status := by
    rintro rfl
    exact status_idle R
  have ho := round_outcome R
  have hany := exclusive_any R
  have honly := fun c hc => exclusive_runsOnly R (c := c) hc
  simp only [Hosted.run] at ho hany honly
  have hcurPurge := curRunning_purge s.scheduler.status s.policy
  have hlive := curRunning_of_live s.policy s.scheduler.status
  have hend := curEnd_purge s.policy s.scheduler.status
  have hmem := fun h => mem_purge s.scheduler.status s.policy (h := h)
  generalize purge s.scheduler.status s.policy = p at *
  generalize s'.policy = σ' at *
  clear R
  cases ho with
  | unhinted hutils =>
    obtain ⟨h, hkey, hin⟩ := hhint
    have hkept := (hmem h).2 ⟨hkey, hin⟩
    rw [Std.ExtTreeMap.isEmpty_iff.1 hutils] at hkept
    exact absurd hkept Std.ExtTreeMap.not_mem_empty
  | any hutils hzero =>
    -- There is no current XQueue that could be left running.
    refine iff_of_true (hany (switchToAny_cases clock p _)) ⟨?_, ?_⟩
    · intro hne hready
      exact absurd ((hlive hready.mem).symm.trans hzero) hne
    · intro hne hin
      exact absurd ((hlive hin).symm.trans hzero) hne
  | lasts hutils hne hready hlasts =>
    obtain ⟨hsame, -⟩ := hcurPurge hne
    rw [hidle rfl, hsame]
    rw [hsame] at hne hready
    rw [hend] at hlasts
    constructor
    · intro hx
      refine ⟨fun _ _ _ h hh => hx.one h _ hh (hx.current hne), fun _ _ hover => ?_⟩
      exact absurd ⟨hlasts, hready⟩ hover
    · intro hu
      have hc := hu.slice hne hready hlasts
      exact ⟨fun h h' hh hh' => (hc h hh).trans (hc h' hh').symm, fun _ => hclear _ hne rfl hready⟩
  | @switch h util hne hover hnext hutil =>
    obtain ⟨hsame, -⟩ := hcurPurge hne
    rw [hsame, hend] at hover
    refine iff_of_true (honly h hnext.ready (runsOnly_switchTo clock p _ h util)) ⟨?_, ?_⟩
    · intro _ hready hlasts
      exact absurd ⟨hlasts, hready⟩ hover
    · intro _ _ _ hnone
      have heq := hnone h ((hmem h).1 hnext.key).1 hnext.ready
      exact absurd (heq.trans hsame.symm) hnext.other
  | rest hne hover hnone =>
    obtain ⟨hsame, hin⟩ := hcurPurge hne
    rw [hidle rfl]
    rw [hsame] at hne
    rw [hsame, hend] at hover
    constructor
    · intro hx
      exact ⟨fun _ hready hlasts => absurd ⟨hlasts, hready⟩ hover, fun _ _ _ _ => hx.one⟩
    · intro hu
      refine ⟨hu.rest hne hin hover fun k hk hready => ?_, fun h => absurd rfl h⟩
      exact (hnone k ((hmem k).2 ⟨hk, hready.mem⟩) hready).trans hsame

/-- XQueue 7 has a slice of 5 milliseconds. In it XQueue 8 is created and becomes ready. -/
def midSliceActs : List HostedAct :=
  [.own .run, .own (.recvEvent (.xQueueCreate 1 7 1 2 0 0)), .own (.recvEvent (.hint 1)),
    .own (.recvEvent (.xQueueReady 1 7 0)), .own (.wake 0), .own (.update 0),
    .recvHint 0 ⟨0, fun _ => 0⟩ (.utilization 1 7 50), .own (.update 0),
    .reschedule ⟨0, fun _ => 0⟩ [7], .reschedule ⟨0, fun _ => 0⟩ [7],
    .own (.recvEvent (.xQueueCreate 1 8 1 2 0 0)), .own (.recvEvent (.xQueueReady 1 8 1000000)),
    .own (.wake 1000000), .own (.update 1000000), .own (.update 1000000)]

def midSliceClock : Clock := ⟨1000000, fun _ => 1000000⟩

theorem midSlice_round : ∃ s s' : Hosted policy, (Hosted.life policy).Reachable s ∧
    s.step (.reschedule midSliceClock [7, 8]) = some s' ∧
    (∃ h ∈ s.policy.utils, h ∈ s.scheduler.status.xqueueStatus) ∧
    Executes s'.scheduler.status 7 ∧ Executes s'.scheduler.status 8 := by
  have htrace : (LTS.exec Hosted.step
      (⟨.init .kPolicyUtilizationPartition, policy.init⟩ : Hosted policy) midSliceActs).bind
      (fun s => (s.step (.reschedule midSliceClock [7, 8])).map fun s' =>
        (decide (7 ∈ s.policy.utils), decide (7 ∈ s.scheduler.status.xqueueStatus),
          [7, 8].map fun h => (s'.scheduler.status.xqueueStatus.lookup h).any fun q =>
            q.ready && !q.suspended)) = some (true, true, [true, true]) := by
    decide +kernel
  obtain ⟨s, hs, htrace⟩ := Option.bind_eq_some_iff.1 htrace
  obtain ⟨s', hs', he⟩ := Option.map_eq_some_iff.1 htrace
  simp only [List.map_cons, List.map_nil, Prod.mk.injEq, List.cons.injEq, and_true,
    decide_eq_true_eq] at he
  obtain ⟨hkey, hin, h7, h8⟩ := he
  have hexec : ∀ h, ((s'.scheduler.status.xqueueStatus.lookup h).any fun q =>
      q.ready && !q.suspended) = true → Executes s'.scheduler.status h := by
    intro h hh
    obtain ⟨q, hq, hqr⟩ := (Option.any_eq_true _ _).1 hh
    simp only [Bool.and_eq_true, Bool.not_eq_true'] at hqr
    exact ⟨q, hq, hqr.1, hqr.2⟩
  exact ⟨s, s', LTS.reachable_of_exec (.construct _) hs, hs', ⟨7, hkey, hin⟩, hexec 7 h7, hexec 8 h8⟩

/-- XQueue 8 executes beside XQueue 7. -/
theorem two_execute : ∃ s s' : Hosted policy, (Hosted.life policy).Reachable s ∧
    s.step (.reschedule midSliceClock [7, 8]) = some s' ∧
    (∃ h ∈ s.policy.utils, h ∈ s.scheduler.status.xqueueStatus) ∧
    ¬ Exclusive s'.policy.curRunning s'.scheduler.status := by
  obtain ⟨s, s', hr, hstep, hhint, h7, h8⟩ := midSlice_round
  refine ⟨s, s', hr, hstep, hhint, fun hx => ?_⟩
  have heq := hx.one 7 8 h7 h8
  revert heq
  decide

theorem one_xqueue_midSlice : ∃ s s' : Hosted policy, (Hosted.life policy).Reachable s ∧
    s.step (.reschedule midSliceClock [7, 8]) = some s' ∧
    (Exclusive s'.policy.curRunning s'.scheduler.status ↔
      Undisturbed midSliceClock s.policy s.scheduler.status) := by
  obtain ⟨s, s', hr, hstep, hhint, -⟩ := midSlice_round
  exact ⟨s, s', hr, hstep, one_xqueue_iff hr hstep hhint⟩

end UtilizationPartitionPolicy
end Xsched.Sched
