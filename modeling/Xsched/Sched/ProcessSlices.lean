import Xsched.Sched.ProcessPartition

/-!
# One process of the partition at a time

A switch resumes the XQueues of the process that gets the next slice and
suspends those of the others. But an XQueue is created resumed, and while the
slice of a ready process lasts a round makes no call, so that an XQueue that
another process creates in the meantime executes beside it.

**Result.** `one_process_iff`.
-/
namespace Xsched.Sched
namespace ProcessUtilizationPartitionPolicy

/-- In every process of the queue but a ready one that is marked running, every
XQueue is suspended. -/
def Exclusive (σ : State) (st : Status) : Prop :=
  ∀ e ∈ σ.runQueue, e.running = true → e.ready = true →
    ∀ e' ∈ σ.runQueue, e'.pid ≠ e.pid →
      ∀ h q, st.xqueueStatus.lookup h = some q → q.pid = e'.pid → q.suspended = true

/-- A process that owns a ready XQueue. -/
def Ready (st : Status) (pid : PID) : Prop :=
  ∃ h q, st.xqueueStatus.lookup h = some q ∧ q.pid = pid ∧ q.ready = true

/-- While the slice of a running process lasts and it is ready, the XQueues of
the others are suspended. -/
def Undisturbed (clock : Clock) (σ : State) (st : Status) : Prop :=
  ∀ e ∈ σ.runQueue, e.running = true → Ready st e.pid → clock.now < σ.timesliceEnd →
    ∀ h q, st.xqueueStatus.lookup h = some q → q.pid ≠ e.pid → q.suspended = true

/-! ## What a switch decides -/

section
variable {h : XQueueHandle} {calls : List Callback}

theorem verdict_not_resumed (hr : .resume h ∉ calls) :
    verdict h calls = none ∨ verdict h calls = some true := by
  induction calls with
  | nil => exact Or.inl rfl
  | cons c calls ih =>
    rw [List.mem_cons, not_or] at hr
    have hrest := ih hr.2
    cases c with
    | addTimer t => exact hrest
    | suspend h' =>
      simp only [verdict]
      rcases hrest with hv | hv <;> rw [hv]
      · by_cases hh : h' = h <;> simp [hh]
      · exact Or.inr rfl
    | resume h' =>
      have hh : h' ≠ h := by rintro rfl; exact hr.1 rfl
      simpa [verdict, hh] using hrest

theorem verdict_suspended (hs : .suspend h ∈ calls) (hr : .resume h ∉ calls) :
    verdict h calls = some true := by
  obtain ⟨pre, post, rfl⟩ := List.append_of_mem hs
  have hpost : .resume h ∉ post := fun hm => hr (by simp [hm])
  rw [verdict_append]
  simp only [verdict, if_true]
  rcases verdict_not_resumed hpost with hv | hv <;> rw [hv] <;> rfl

end

section
variable {st : Status} {clock : Clock} {σ : State} {front : RunEntry} {c : Callback}

theorem mem_run_calls : c ∈ (run clock st σ front).1 ↔
    c = .addTimer (afterUs clock.now (grant σ front)).toNat ∨
      ∃ e ∈ σ.runQueue, c ∈ (switchEntry st front.pid e).1 := by
  simp only [run, switchProcess, List.mem_cons, List.mem_flatMap]

/-- A switch resumes only XQueues of the process that it is to. -/
theorem resume_mem_run (hl : st.Linked) {h : XQueueHandle}
    (hc : .resume h ∈ (run clock st σ front).1) :
    ∃ q, st.xqueueStatus.lookup h = some q ∧ q.pid = front.pid := by
  rcases mem_run_calls.1 hc with hc | ⟨e, -, hc⟩
  · cases hc
  · unfold switchEntry at hc
    split at hc
    · cases hc
    · rename_i p hp
      split at hc
      · rename_i hpid
        obtain ⟨h', hmem, he⟩ := List.mem_map.1 hc
        cases he
        obtain ⟨q, hq, hqpid, -⟩ := (hl.sets e.pid p hp true h).1 hmem
        exact ⟨q, hq, hqpid.trans hpid⟩
      · obtain ⟨h', -, he⟩ := List.mem_map.1 hc
        cases he

/-- It suspends every XQueue of another process. -/
theorem suspended_run (hl : st.Linked) {h : XQueueHandle} {q : XQueueStatus}
    (hq : st.xqueueStatus.lookup h = some q) (hin : q.pid ∈ σ.runQueue.map (·.pid))
    (hpid : q.pid ≠ front.pid) :
    (verdict h (run clock st σ front).1).getD q.suspended = true := by
  have hres : .resume h ∉ (run clock st σ front).1 := by
    intro hc
    obtain ⟨q', hq', hpid'⟩ := resume_mem_run hl hc
    rw [hq] at hq'
    cases hq'
    exact hpid hpid'
  cases hsus : q.suspended with
  | true => rcases verdict_not_resumed hres with hv | hv <;> rw [hv] <;> rfl
  | false =>
    obtain ⟨p, hp⟩ := Option.isSome_iff_exists.1 (AList.lookup_isSome.2 (hl.home h q hq))
    have hmem : h ∈ p.xqueues false := (hl.sets q.pid p hp false h).2 ⟨q, hq, rfl, hsus⟩
    obtain ⟨e, he, hepid⟩ := List.mem_map.1 hin
    have hc : .suspend h ∈ (switchEntry st front.pid e).1 := by
      rw [switchEntry, hepid, hp]
      dsimp only
      rw [if_neg hpid]
      exact List.mem_map_of_mem hmem
    rw [verdict_suspended (mem_run_calls.2 (Or.inr ⟨e, he, hc⟩)) hres]
    rfl

end

/-! ## Whose slice it is -/

section
variable {st : Status} {queue : List RunEntry} {s σ : State} {anyReady : Bool}

theorem processReady_iff (hl : st.Linked) {pid : PID} :
    processReady st pid = some true ↔ Ready st pid := by
  unfold processReady Ready
  rw [Option.map_eq_some_iff]
  simp only [List.any_eq_true, List.mem_append, Option.any_eq_true]
  constructor
  · rintro ⟨p, hp, h, hmem, q, hq, hready⟩
    have hplaced : ∃ b, st.Placed pid b h := by
      rcases hmem with hmem | hmem
      · exact ⟨false, (hl.sets pid p hp false h).1 hmem⟩
      · exact ⟨true, (hl.sets pid p hp true h).1 hmem⟩
    obtain ⟨b, q', hq', hpid, -⟩ := hplaced
    rw [hq] at hq'
    cases hq'
    exact ⟨h, q, hq, hpid, hready⟩
  · rintro ⟨h, q, hq, rfl, hready⟩
    obtain ⟨p, hp⟩ := Option.isSome_iff_exists.1 (AList.lookup_isSome.2 (hl.home h q hq))
    have hmem : h ∈ p.xqueues q.suspended := (hl.sets q.pid p hp q.suspended h).2 ⟨q, hq, rfl, rfl⟩
    refine ⟨p, hp, h, ?_, q, hq, hready⟩
    cases hsus : q.suspended with
    | false => rw [hsus] at hmem; exact Or.inl hmem
    | true => rw [hsus] at hmem; exact Or.inr hmem

theorem FrontOnly.head (hf : FrontOnly queue) {e : RunEntry} (he : e ∈ queue)
    (hrun : e.running = true) : ∃ rest, queue = e :: rest := by
  cases queue with
  | nil => cases he
  | cons e₀ rest =>
    rcases List.mem_cons.1 he with rfl | he
    · exact ⟨rest, rfl⟩
    · rw [hf e he] at hrun
      cases hrun

/-- An entry that is marked running has been marked before the round. -/
theorem Enqueued.running_before (h : Enqueued st s σ anyReady) {e : RunEntry}
    (he : e ∈ σ.runQueue) (hrun : e.running = true) :
    ∃ e₀ ∈ s.runQueue, e₀.pid = e.pid ∧ e₀.running = true := by
  obtain ⟨kept, new, hqueue, hnew, hkept⟩ := h.parts
  rw [hqueue] at he
  rcases List.mem_append.1 he with he | he
  · have hin : (e.pid, e.running) ∈ kept.map fun e => (e.pid, e.running) := List.mem_map_of_mem he
    rw [hkept] at hin
    obtain ⟨e₀, he₀, heq⟩ := List.mem_map.1 hin
    simp only [Prod.mk.injEq] at heq
    exact ⟨e₀, List.mem_of_mem_filter he₀, heq.1, heq.2.trans hrun⟩
  · rw [hnew e he] at hrun
    cases hrun

/-- A process that is marked running and has XQueues stays so. -/
theorem Enqueued.running_after (h : Enqueued st s σ anyReady) {e₀ : RunEntry}
    (he₀ : e₀ ∈ s.runQueue) (hrun : e₀.running = true) (hx : hasXqueues st e₀.pid = true) :
    ∃ e ∈ σ.runQueue, e.pid = e₀.pid ∧ e.running = true := by
  obtain ⟨kept, new, hqueue, hnew, hkept⟩ := h.parts
  have hin : (e₀.pid, e₀.running) ∈ kept.map fun e => (e.pid, e.running) := by
    rw [hkept]
    exact List.mem_map_of_mem (List.mem_filter.2 ⟨he₀, hx⟩)
  obtain ⟨e, he, heq⟩ := List.mem_map.1 hin
  simp only [Prod.mk.injEq] at heq
  exact ⟨e, by rw [hqueue]; exact List.mem_append_left _ he, heq.1, heq.2.trans hrun⟩

/-- What a round refreshes is whether the process has a ready XQueue. -/
theorem Enqueued.ready_iff (h : Enqueued st s σ anyReady) (hl : st.Linked) {e : RunEntry}
    (he : e ∈ σ.runQueue) : e.ready = true ↔ Ready st e.pid := by
  rw [← processReady_iff hl, h.ready e he, Option.some.injEq]

/-- A process that is in a slice is the front of what the round rotates. -/
theorem Enqueued.slice_front (h : Enqueued st s σ anyReady) (hl : st.Linked)
    (hf : FrontOnly σ.runQueue) {e₀ : RunEntry} (he₀ : e₀ ∈ s.runQueue)
    (hrun : e₀.running = true) (hready : Ready st e₀.pid) :
    ∃ e rest, σ.runQueue = e :: rest ∧ e.pid = e₀.pid ∧ e.running = true ∧ e.ready = true := by
  obtain ⟨handle, q, hlook, hpid, -⟩ := id hready
  have hx : hasXqueues st e₀.pid = true := (hasXqueues_iff hl).2 ⟨handle, q, hlook, hpid⟩
  obtain ⟨e, he, hpide, hrune⟩ := h.running_after he₀ hrun hx
  obtain ⟨rest, hqueue⟩ := hf.head he hrune
  exact ⟨e, rest, hqueue, hpide, hrune, (h.ready_iff hl he).2 (hpide ▸ hready)⟩

end

/-- **When one process executes at a time.** After a round the XQueues of every
process but a ready one that is marked running are suspended, exactly if a round
within a slice finds them so. -/
theorem one_process_iff {o : ProcessOrder} {s s' : Hosted (policy o)} {clock : Clock}
    {order : List XQueueHandle} (hr : (Hosted.life (policy o)).Reachable s)
    (hround : s.step (.reschedule clock order) = some s') :
    Exclusive s'.policy s'.scheduler.status ↔
      Undisturbed clock s.policy s.scheduler.status := by
  obtain ⟨calls, R⟩ := Hosted.round_life hr hround
  have hl : s.scheduler.status.Linked := (PolicyRun.keyed_life (Hosted.life_run hr)).1
  have hs : RunQueue s.policy := runQueue_run (Hosted.life_run hr)
  obtain ⟨σ, anyReady, calls', σ', -, hq, hsched, ho⟩ := sched_spec clock
    (o.mem s.policy.rounds s.scheduler.status) hs
  have he : some (calls', σ') = some (calls, s'.policy) := hsched.symm.trans R.sched
  cases he
  have hafter : ∀ h q', s'.scheduler.status.xqueueStatus.lookup h = some q' →
      ∃ q, s.scheduler.status.xqueueStatus.lookup h = some q ∧ q'.pid = q.pid ∧
        q'.suspended = (verdict h calls).getD q.suspended := by
    intro h q' hq'
    obtain ⟨q, hmem, rfl, rfl⟩ := R.entry hq'
    exact ⟨q, R.mem.1 hmem, rfl, rfl⟩
  have hidle : calls = [] → s'.scheduler.status = s.scheduler.status := by
    rintro rfl
    exact R.status
  clear R
  generalize s'.policy = σ' at *
  have hfront := hq.frontOnly hs.front
  cases ho with
  | idle hnone =>
    refine iff_of_true (fun e hin _ hrd => ?_) (fun e₀ he₀ hrun hrd _ => ?_)
    · rw [hnone e hin] at hrd
      cases hrd
    · obtain ⟨e, rest, hqueue, -, -, hrd'⟩ := hq.slice_front hl hfront he₀ hrun hrd
      rw [hnone e (by rw [hqueue]; exact .head _)] at hrd'
      cases hrd'
  | @lasts front rest hqueue hrun hlasts hrd =>
    have hin : front ∈ σ.runQueue := by rw [hqueue]; exact .head _
    rw [hidle rfl]
    rw [hq.timesliceEnd] at hlasts
    constructor
    · intro hx e₀ he₀ hrun₀ hrd₀ _ h q hlook hne
      obtain ⟨e, rest', hqueue', hpid, -, -⟩ := hq.slice_front hl hfront he₀ hrun₀ hrd₀
      rw [hqueue] at hqueue'
      cases hqueue'
      obtain ⟨e', hin', hpid'⟩ := List.mem_map.1
        ((hq.mem q.pid).2 ((hasXqueues_iff hl).2 ⟨h, q, hlook, rfl⟩))
      exact hx front hin hrun hrd e' hin' (by rw [hpid', hpid]; exact hne) h q hlook hpid'.symm
    · intro hu e hine hrune _ e' _ hne h q hlook hpid
      obtain ⟨rest', hqueue'⟩ := hfront.head hine hrune
      rw [hqueue] at hqueue'
      cases hqueue'
      obtain ⟨e₀, he₀, hpid₀, hrun₀⟩ := hq.running_before hin hrun
      have hrd₀ : Ready s.scheduler.status e₀.pid := hpid₀ ▸ (hq.ready_iff hl hin).1 hrd
      exact hu e₀ he₀ hrun₀ hrd₀ hlasts h q hlook (by rw [hpid, hpid₀]; exact hne)
  | @switch front rest σ₁ hover hperm hrd hσ₁ hpids =>
    refine iff_of_true ?_ (fun e₀ he₀ hrun₀ hrd₀ hlasts => ?_)
    · have hswitch := run_runQueue s.scheduler.status clock σ₁ front
        (by rw [hσ₁]; exact ready_of_perm hperm hq.ready)
      intro e hin hrun _ e' hin' hne h q' hlook' hpid'
      rw [hswitch] at hin hin'
      obtain ⟨e₁, -, rfl⟩ := List.mem_map.1 hin
      obtain ⟨e₁', hin₁', rfl⟩ := List.mem_map.1 hin'
      have hfrontPid : e₁.pid = front.pid := of_decide_eq_true hrun
      obtain ⟨q, hlook, hpid, hsus⟩ := hafter h q' hlook'
      have hqpid : e₁'.pid = q.pid := hpid'.symm.trans hpid
      rw [hsus]
      refine suspended_run hl hlook (hqpid ▸ List.mem_map_of_mem hin₁') ?_
      rw [← hqpid, ← hfrontPid]
      exact hne
    · obtain ⟨e, rest', hqueue, -, hrun, hready⟩ := hq.slice_front hl hfront he₀ hrun₀ hrd₀
      exact absurd ⟨hrun, by rw [hq.timesliceEnd]; exact hlasts, hready⟩ (hover e rest' hqueue)

/-- Process 1 has a slice of 5 milliseconds. In it process 2 comes, with XQueue
8, and that becomes ready. -/
def midSliceActs : List HostedAct :=
  [.own .run, .own (.recvEvent (.xQueueCreate 1 7 1 2 0 0)),
    .own (.recvEvent (.xQueueReady 1 7 0)), .own (.wake 0), .own (.update 0), .own (.update 0),
    .reschedule ⟨0, fun _ => 0⟩ [7], .reschedule ⟨0, fun _ => 0⟩ [7],
    .own (.recvEvent (.xQueueCreate 2 8 1 2 0 0)), .own (.recvEvent (.xQueueReady 2 8 1000000)),
    .own (.wake 1000000), .own (.update 1000000), .own (.update 1000000)]

def midSliceClock : Clock := ⟨1000000, fun _ => 1000000⟩

theorem midSlice_round : ∃ s s' : Hosted (policy keysOrder),
    (Hosted.life (policy keysOrder)).Reachable s ∧
    s.step (.reschedule midSliceClock [7, 8]) = some s' ∧
    s'.policy.runQueue = [⟨1, true, true, 0⟩, ⟨2, true, false, 0⟩] ∧
    s'.scheduler.status.xqueueStatus.lookup 8 =
      some ⟨8, 1, 2, 2, 0, 0, true, false, 1000000⟩ := by
  have htrace : (LTS.exec Hosted.step
      (⟨.init .kPolicyProcessUtilizationPartition, (policy keysOrder).init⟩ :
        Hosted (policy keysOrder)) midSliceActs).bind
      (fun s => (s.step (.reschedule midSliceClock [7, 8])).map fun s' =>
        (s'.policy.runQueue, s'.scheduler.status.xqueueStatus.lookup 8)) =
      some ([⟨1, true, true, 0⟩, ⟨2, true, false, 0⟩],
        some ⟨8, 1, 2, 2, 0, 0, true, false, 1000000⟩) := by
    decide +kernel
  obtain ⟨s, hs, htrace⟩ := Option.bind_eq_some_iff.1 htrace
  obtain ⟨s', hs', he⟩ := Option.map_eq_some_iff.1 htrace
  simp only [Prod.mk.injEq] at he
  exact ⟨s, s', LTS.reachable_of_exec (.construct _) hs, hs', he.1, he.2⟩

/-- XQueue 8 executes in the slice of process 1. -/
theorem other_executes : ∃ s s' : Hosted (policy keysOrder),
    (Hosted.life (policy keysOrder)).Reachable s ∧
    s.step (.reschedule midSliceClock [7, 8]) = some s' ∧
    ¬ Exclusive s'.policy s'.scheduler.status := by
  obtain ⟨s, s', hr, hstep, hqueue, hlook⟩ := midSlice_round
  refine ⟨s, s', hr, hstep, fun hx => ?_⟩
  have hsus := hx ⟨1, true, true, 0⟩ (by rw [hqueue]; decide) rfl rfl ⟨2, true, false, 0⟩
    (by rw [hqueue]; decide) (by decide) 8 _ hlook rfl
  cases hsus

theorem one_process_midSlice : ∃ s s' : Hosted (policy keysOrder),
    (Hosted.life (policy keysOrder)).Reachable s ∧
    s.step (.reschedule midSliceClock [7, 8]) = some s' ∧
    (Exclusive s'.policy s'.scheduler.status ↔
      Undisturbed midSliceClock s.policy s.scheduler.status) := by
  obtain ⟨s, s', hr, hstep, -⟩ := midSlice_round
  exact ⟨s, s', hr, hstep, one_process_iff hr hstep⟩

end ProcessUtilizationPartitionPolicy
end Xsched.Sched
