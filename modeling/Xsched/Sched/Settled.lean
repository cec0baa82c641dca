import Xsched.Sched.Client

/-!
# When the operations under way settle an XQueue

One client, the scheduler that decides about its XQueues, and the events on
their way between them. The scheduler decides at once and tells the client
later, in operations that list every XQueue of the process.

An XQueue of the client that has an entry is **settled** when the calls that
are still to be made leave it as the entry says. Two things unsettle it. The
policy decides, but then the worker is in the middle of a round, and the round
ends with an operation for every process that has an XQueue
(`settled_finish`). The XQueue is created in the place of an old one, for
which operations are still under way; but then its `XQueueCreateEvent` is
under way too, and a round follows when it has arrived (`Settled.client`).

**Results.** `Settled` is kept by every step of the client (`Settled.client`)
and by every step of a scheduler that runs on with its policy
(`Settled.sched`), when its operations reach the client.
-/
namespace Xsched.Sched

/-- The steps of a worker that keeps its policy. -/
def SchedAct.runs : SchedAct → Bool
  | .run | .wake _ | .update _ | .sched _ => true
  | _ => false

/-- A worker that keeps its policy is not replaced when it ends. -/
theorem SchedAct.not_restarted {s : LocalScheduler} {a : SchedAct} (hrun : a.runs = true)
    {next : Option XPolicyType} (hr : s.restarts a = next.isSome) : next = none := by
  have hfalse : s.restarts a = false := by
    cases a with
    | run | wake _ | update _ | sched _ => rfl
    | _ => cases hrun
  rw [hfalse] at hr
  cases next with
  | none => rfl
  | some type => cases hr

/-- The worker has taken events and will end the round with a reschedule. -/
def LocalScheduler.MidRound (s : LocalScheduler) : Prop :=
  ∃ tmp b, s.worker = .processing tmp b ∨ s.worker = .ready tmp b

/-- The operations that a step of the scheduler has passed to `Execute`. -/
def LocalScheduler.since (s₀ s : LocalScheduler) : List SchedOperation :=
  s.executed.drop s₀.executed.length

/-- Those of them that are for a process. -/
def LocalScheduler.sinceFor (pid : PID) (s₀ s : LocalScheduler) : List SchedOperation :=
  (s₀.since s).filter (·.pid = pid)

/-- Operations arrive in the channel of the process. -/
def Client.receive (ops : List SchedOperation) (c : Client) : Client :=
  { c with ops := c.ops ++ ops }

/-- With `es` under way to the scheduler, the calls under way to the client
leave its XQueues as their entries say, or a round is to come. -/
def Settled (c : Client) (s : LocalScheduler) (es : List Event) : Prop :=
  ∀ h o q, c.Live h o → s.status.xqueueStatus.lookup h = some q → q.pid = c.pid →
    s.MidRound ∨ (∃ e ∈ es, e.pid = c.pid ∧ e.xqueue = some h) ∨
      outcome h o.suspended c.decisions = q.suspended

section
variable {c c' : Client} {s s' : LocalScheduler} {es es' : List Event}

@[simp] theorem Client.receive_nil : c.receive [] = c := by
  simp [Client.receive]

/-- A step that touches no entry and loses no event about an XQueue. -/
theorem Settled.mono (hi : Settled c s es) (hstatus : s'.status = s.status)
    (hmid : s.MidRound → s'.MidRound) (hes : ∀ e ∈ es, e.xqueue.isSome = true → e ∈ es') :
    Settled c s' es' := by
  intro h o q hl hq hpid
  rw [hstatus] at hq
  rcases hi h o q hl hq hpid with hm | ⟨e, he, hp, hx⟩ | hout
  · exact Or.inl (hmid hm)
  · exact Or.inr (Or.inl ⟨e, hes e he (by rw [hx]; rfl), hp, hx⟩)
  · exact Or.inr (Or.inr hout)

/-- Whatever the client does, the events it sends make up for it; `hst`: the
scheduler knows the XQueues of a process only if it sends its events there. -/
theorem Settled.client (hi : Settled c s es) {a : ClientAct} {e : Option Event}
    (hc : c.StepCases a c' e)
    (hst : ∀ h q, s.status.xqueueStatus.lookup h = some q → q.pid = c.pid → c.started = true) :
    Settled c' s (es ++ e.toList) := by
  intro h o' q hl hq hpid
  rw [hc.frame.1] at hpid ⊢
  rcases hc.live hl with ⟨o, hl₀, hout⟩ | ⟨-, hsent⟩
  · rcases hi h o q hl₀ hq hpid with hm | ⟨e₁, he₁, hp₁, hx₁⟩ | hout₀
    · exact Or.inl hm
    · exact Or.inr (Or.inl ⟨e₁, List.mem_append_left _ he₁, hp₁, hx₁⟩)
    · exact Or.inr (Or.inr (hout.trans hout₀))
  · obtain ⟨e₁, he, hp₁, hx₁⟩ := hsent (hst h q hq hpid)
    subst he
    refine Or.inr (Or.inl ⟨e₁, ?_, hp₁, hx₁⟩)
    exact List.mem_append_right _ (List.mem_singleton_self _)

theorem since_finish (calls : List Callback) (b : Bool) :
    s.since (s.finish calls b) = LocalScheduler.operations (s.finish calls b).status := by
  change (_ ++ _ : List SchedOperation).drop _ = _
  rw [LocalScheduler.callbacks_executed, List.drop_left]
  rfl

theorem sinceFor_same (pid : PID) (h : s'.executed = s.executed) : s.sinceFor pid s' = [] := by
  rw [LocalScheduler.sinceFor, LocalScheduler.since, h, List.drop_length, List.filter_nil]

/-- The end of a round settles every XQueue that has an entry. -/
theorem settled_finish (hlinked : s.status.Linked) {calls : List Callback} {b : Bool} :
    Settled (c.receive (s.sinceFor c.pid (s.finish calls b))) (s.finish calls b) es := by
  intro h o q hl hq hpid
  have hst : (s.finish calls b).status.Linked := LocalScheduler.linked_reschedule hlinked calls
  obtain ⟨p, hp⟩ := Option.isSome_iff_exists.1 (AList.lookup_isSome.2 (hst.home h q hq))
  change q.pid = c.pid at hpid
  rw [hpid] at hp
  refine Or.inr (Or.inr ?_)
  rw [LocalScheduler.sinceFor, since_finish]
  simp only [Client.receive, Client.decisions, List.flatMap_append]
  rw [← List.append_assoc, outcome_append]
  have hin : ∀ b', h ∈ p.xqueues b' ↔ q.suspended = b' := by
    intro b'
    exact (hst.sets c.pid p hp b' h).trans ((Status.placed_iff hq).trans (and_iff_right hpid))
  apply outcome_round (p := p)
  · intro op hop
    obtain ⟨hop, hop_pid⟩ := List.mem_filter.1 hop
    exact LocalScheduler.mem_operations hst hp hop (by simpa using hop_pid)
  · apply List.ne_nil_of_mem (a := .ofStatus p)
    refine List.mem_filter.2 ⟨LocalScheduler.operations_mem hp ((hin _).2 rfl), ?_⟩
    exact decide_eq_true (hst.keyed c.pid p hp)
  · exact (hin _).2 rfl
  · rw [hin]; simp

/-- A step of the scheduler, whose operations the client receives unless the
scheduler knows none of its XQueues. -/
theorem Settled.sched (hi : Settled c s (s.pending ++ es)) (hlinked : s.status.Linked)
    {a : SchedAct} (hrun : a.runs = true) (hc : s.StepCases a s')
    (hc' : c' = c.receive (s.sinceFor c.pid s') ∨
      c' = c ∧ ∀ h q, s.status.xqueueStatus.lookup h = some q → q.pid ≠ c.pid) :
    Settled c' s' (s'.pending ++ es) := by
  have hkeep : s'.executed = s.executed → s'.status = s.status →
      (s.MidRound → s'.MidRound) → (∀ e ∈ s.pending, e ∈ s'.pending) →
      Settled c' s' (s'.pending ++ es) := by
    intro hexec hstatus hmid hpend
    obtain rfl : c' = c := by
      rcases hc' with h | ⟨h, -⟩
      · rw [h, sinceFor_same c.pid hexec]; exact Client.receive_nil
      · exact h
    refine hi.mono hstatus hmid fun e he _ => ?_
    rcases List.mem_append.1 he with he | he
    · exact List.mem_append_left _ (hpend e he)
    · exact List.mem_append_right _ he
  cases hc with
  | run hw =>
    refine hkeep rfl rfl ?_ ?_
    · rintro ⟨tmp, b, hm | hm⟩ <;> rw [hw] at hm <;> cases hm
    · intro e he
      simpa only [LocalScheduler.pending, hw] using he
  | recvEvent | samePolicy => cases hrun
  | @stopping _ next hr =>
    refine hkeep rfl rfl id fun e he => ?_
    have hpend : LocalScheduler.pending { s with
        eventQueue := s.eventQueue ++ [.schedulerTerminate kServerPid]
        control := .joining next } = s.pending ++ [.schedulerTerminate kServerPid] :=
      LocalScheduler.pending_append rfl rfl
    rw [hpend]
    exact List.mem_append_left _ he
  | @joined _ next hw hr =>
    obtain rfl := SchedAct.not_restarted hrun hr
    refine hkeep rfl rfl ?_ ?_
    · rintro ⟨tmp, b, hm | hm⟩ <;> rcases hw with hw | hw <;> rw [hw] at hm <;> cases hm
    · intro e he
      change e ∈ s.eventQueue
      rcases hw with hw | hw <;> simpa only [LocalScheduler.pending, hw] using he
  | wake hw => exact fun _ _ _ _ _ _ => Or.inl ⟨_, _, Or.inl rfl⟩
  | terminate hw => exact fun _ _ _ _ _ _ => Or.inl ⟨_, _, Or.inl rfl⟩
  | @update now e tmp b status pc hw hu hpc => exact fun _ _ _ _ _ _ => Or.inl ⟨tmp, b, hpc⟩
  | @finish calls b hw =>
    rcases hc' with rfl | ⟨rfl, hnone⟩
    · exact settled_finish hlinked
    · intro h o q hl hq hpid
      obtain ⟨q₀, hq₀, hp₀, -⟩ := LocalScheduler.entry_callbacks hq
      exact absurd (hp₀.symm.trans hpid) (hnone h q₀ hq₀)
  | ready hw => exact fun _ _ _ _ _ _ => Or.inl ⟨_, _, Or.inl rfl⟩

end
end Xsched.Sched
