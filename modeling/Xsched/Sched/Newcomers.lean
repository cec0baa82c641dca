import Xsched.Sched.FairRounds
import Xsched.Sched.Memory

/-!
# Where a newcomer begins under CFS

The first round that meets an XQueue while it is ready is to put it where the
least virtual runtime of the others on its device is, so that it does not have
the device for itself until it has caught up. `Sched` does so for an XQueue
that has no node (`admitNew`). But a node is made in two more places, a
`PriorityHint` and a round that meets the XQueue before it is ready, and there
it begins with 0.

Who is new is recorded along the run (`Arrivals`): an XQueue has been seen if
an earlier round has met it while it was ready. A Ready event is followed by a
round of its own, so that after the first round of the policy there is at most
one ready XQueue that has not been seen (`Arrivals.Inv`), and the least virtual
runtime that a new node gets is that of an XQueue that has.

**Result.** `newcomer_iff`.
-/
namespace Xsched.Sched

/-! ## Who becomes ready -/

/-- Only a Ready event makes an XQueue ready. -/
theorem Event.entry_ready {now : TimePoint} {e : Event} {h : XQueueHandle}
    {old : Option XQueueStatus} {q' : XQueueStatus} (hq' : e.entry now h old = some q')
    (hready : q'.ready = true) :
    (∃ q, old = some q ∧ q.ready = true) ∨ ∃ pid t, e = .xQueueReady pid h t := by
  cases e with
  | hint | schedulerTerminate | processCreate | xQueueQuery | xQueueQueryAll =>
    exact Or.inl ⟨q', hq', hready⟩
  | processDestroy pid => exact Or.inl ⟨q', (Option.filter_eq_some_iff.1 hq').1, hready⟩
  | xQueueDestroy pid handle =>
    simp only [entry] at hq'
    split at hq'
    · cases hq'
    · exact Or.inl ⟨q', hq', hready⟩
  | xQueueCreate | xQueueConfigUpdate =>
    simp only [entry] at hq'
    split at hq'
    · cases old with
      | none => cases hq'; cases hready
      | some q => cases hq'; exact Or.inl ⟨q, rfl, hready⟩
    · exact Or.inl ⟨q', hq', hready⟩
  | xQueueIdle =>
    simp only [entry] at hq'
    split at hq'
    · cases old <;> cases hq' <;> cases hready
    · exact Or.inl ⟨q', hq', hready⟩
  | xQueueReady pid handle t =>
    by_cases hh : h = handle
    · subst hh
      exact Or.inr ⟨pid, t, rfl⟩
    · exact Or.inl ⟨q', by simpa [entry, hh] using hq', hready⟩

namespace Hosted
variable {P : Policy} {s s' : Hosted P} {act : HostedAct}

/-- The worker is at the round of a Ready event. -/
def AtReady (s : LocalScheduler) : Prop := ∃ tmp terminate, s.worker = .ready tmp terminate

/-- What a step does to the status and to the place of the worker. -/
inductive EventCases (s s' : Hosted P) : HostedAct → Prop
  | round {clock : Clock} {order : List XQueueHandle} : EventCases s s' (.reschedule clock order)
  | quiet {act : HostedAct} (hact : ∀ clock order, act ≠ .reschedule clock order)
      (hst : s'.scheduler.status = s.scheduler.status)
      (hpc : AtReady s.scheduler → AtReady s'.scheduler) : EventCases s s' act
  | event {now : TimePoint} {e : Event}
      (hu : s.scheduler.status.updateStatus now e = some s'.scheduler.status)
      (hpc : ¬ AtReady s.scheduler)
      (hready : ∀ pid h t, e = .xQueueReady pid h t → AtReady s'.scheduler) :
    EventCases s s' (.own (.update now))

theorem not_atReady {s : LocalScheduler} {pc : WorkerPc} (hw : s.worker = pc)
    (hpc : ∀ tmp b, pc ≠ .ready tmp b) : ¬ AtReady s := by
  rintro ⟨tmp, b, hr⟩
  exact hpc tmp b (hw.symm.trans hr)

theorem update_cases {r : LocalScheduler} {policy : P.State} {now : TimePoint}
    (h : s.scheduler.step (.update now) = some r) :
    EventCases s ⟨r, policy⟩ (.own (.update now)) := by
  simp only [LocalScheduler.step] at h
  split at h
  · rename_i e tmp terminate hw
    have hpc : ¬ AtReady s.scheduler := not_atReady hw (by simp)
    unfold LocalScheduler.update at h
    split at h
    · cases h
      exact .quiet (by simp) rfl fun hr => absurd hr hpc
    · obtain ⟨status, hu, rfl⟩ := Option.map_eq_some_iff.1 h
      exact .event hu hpc fun _ _ _ _ => ⟨tmp, terminate, rfl⟩
    · rename_i e hterm hready
      obtain ⟨status, hu, rfl⟩ := Option.map_eq_some_iff.1 h
      exact .event hu hpc fun pid handle t he => absurd he (hready pid handle t)
  · cases h

/-- The steps of the scheduler that are no update and no round. -/
theorem quiet_cases {r : LocalScheduler} (hs : Stays s.scheduler) {a : SchedAct}
    (ha : a = .run ∨ a = .stop ∨ a = .join ∨ ∃ now, a = .wake now)
    (h : s.scheduler.step a = some r) :
    r.status = s.scheduler.status ∧ (AtReady s.scheduler → AtReady r) := by
  cases LocalScheduler.step_cases h with
  | run hw => exact ⟨rfl, fun hr => absurd hr (not_atReady hw nofun)⟩
  | wake hw => exact ⟨rfl, fun hr => absurd hr (not_atReady hw nofun)⟩
  | stopping hr => exact ⟨rfl, id⟩
  | @joined _ next hw hr =>
    have hnext : next = none := by
      have hset : ∀ type, a ≠ .setPolicy type := by
        rintro type rfl
        rcases ha with ha | ha | ha | ⟨now, ha⟩ <;> cases ha
      rw [hs.restarts hset] at hr
      cases next with
      | none => rfl
      | some type => cases hr
    subst hnext
    refine ⟨rfl, fun hr => ?_⟩
    rcases hw with hw | hw
    · exact absurd hr (not_atReady hw nofun)
    · exact absurd hr (not_atReady hw nofun)
  | recvEvent | samePolicy | terminate | update | finish | ready =>
    rcases ha with ha | ha | ha | ⟨now, ha⟩ <;> cases ha

theorem event_cases (hs : Stays s.scheduler) (h : s.step act = some s') : EventCases s s' act := by
  cases act with
  | reschedule clock order => exact .round
  | recvHint now clock hint =>
    simp only [step] at h
    split at h
    · rename_i hhint
      obtain ⟨scheduler, hu, rfl⟩ := Option.map_eq_some_iff.1 h
      refine .quiet (by simp) (status_hint hhint hu) fun hr => ?_
      obtain ⟨tmp, terminate, hw⟩ := hr
      simp [atHint, hw] at hhint
    · cases h
  | own act =>
    cases act with
    | sched calls => cases h
    | setPolicy type =>
      simp only [step] at h
      split at h <;> cases h
      exact .quiet (by simp) rfl id
    | update now =>
      simp only [step] at h
      split at h
      · cases h
      · obtain ⟨scheduler, hu, rfl⟩ := Option.map_eq_some_iff.1 h
        exact update_cases hu
    | recvEvent e => cases h; exact .quiet (by simp) rfl id
    | run | stop | join | wake now =>
      obtain ⟨scheduler, hu, rfl⟩ := Option.map_eq_some_iff.1 h
      obtain ⟨hst, hpc⟩ := quiet_cases hs (by simp) hu
      exact .quiet (by simp) hst hpc

end Hosted

/-! ## Who has been seen -/

/-- `begun`: the policy has had a round. `seen`: a round has met the XQueue
while it was ready. -/
structure Arrivals where
  begun : Bool
  seen : XQueueHandle → Bool

namespace Arrivals
variable {P : Policy}

def start (_ : Hosted P) : Arrivals := ⟨false, fun _ => false⟩

/-- A handle without an XQueue is forgotten. -/
def record (s : Hosted P) (act : HostedAct) (s' : Hosted P) (g : Arrivals) : Arrivals where
  begun :=
    match act with
    | .reschedule _ _ => true
    | _ => g.begun
  seen h :=
    (s'.scheduler.status.xqueueStatus.lookup h).isSome &&
      (g.seen h ||
        match act with
        | .reschedule _ _ => (s.scheduler.status.xqueueStatus.lookup h).elim false (·.ready)
        | _ => false)

/-- The runs of a policy, with what its rounds have seen. -/
def runs (P : Policy) : LTS (Hosted P × Arrivals) HostedAct :=
  LTS.recorded (Hosted.Begins P) Hosted.step start record

/-- A ready XQueue that no round has met while it was ready. -/
def New (s : Hosted P × Arrivals) (h : XQueueHandle) : Prop :=
  (∃ q, s.1.scheduler.status.xqueueStatus.lookup h = some q ∧ q.ready = true) ∧ s.2.seen h = false

/-- After the first round at most one XQueue is new, and the worker is about to
do a round for it. -/
structure Inv (s : Hosted P × Arrivals) : Prop where
  begun : ∀ h, s.2.seen h = true → s.2.begun = true
  single : s.2.begun = true → ∀ h h', New s h → New s h' → h = h'
  next : s.2.begun = true → ∀ h, New s h → Hosted.AtReady s.1.scheduler

theorem record_other {s s' : Hosted P} {act : HostedAct} {g : Arrivals}
    (hact : ∀ clock order, act ≠ .reschedule clock order) :
    (g.record s act s').begun = g.begun ∧ ∀ h, (g.record s act s').seen h =
      ((s'.scheduler.status.xqueueStatus.lookup h).isSome && g.seen h) := by
  cases act with
  | reschedule clock order => exact absurd rfl (hact clock order)
  | _ => exact ⟨rfl, fun h => by simp [record]⟩

/-- Without a round nobody is seen who was not before. -/
theorem new_other {s : Hosted P × Arrivals} {s' : Hosted P} {act : HostedAct} {h : XQueueHandle}
    (hact : ∀ clock order, act ≠ .reschedule clock order)
    (hn : New (s', s.2.record s.1 act s') h) : s.2.seen h = false := by
  obtain ⟨⟨q', hq', -⟩, hseen⟩ := hn
  simpa [(record_other hact).2, hq'] using hseen

/-- A round sees every ready XQueue. -/
theorem not_new_round {s : Hosted P × Arrivals} {s' : Hosted P} {clock : Clock}
    {order : List XQueueHandle} (h : s.1.step (.reschedule clock order) = some s')
    (handle : XQueueHandle) : ¬ New (s', s.2.record s.1 (.reschedule clock order) s') handle := by
  rintro ⟨⟨q', hq', hready⟩, hseen⟩
  obtain ⟨-, calls, -, hu⟩ := Hosted.round h
  simp only at hq'
  have hlook := hq'
  rw [Hosted.status_sched hu, Status.lookup_callbacks] at hlook
  obtain ⟨q, hq, rfl⟩ := Option.map_eq_some_iff.1 hlook
  simp only at hready
  simp [record, hq', hq, hready] at hseen

theorem inv_step {s : Hosted P × Arrivals} {s' : Hosted P} {act : HostedAct}
    (hs : Hosted.Stays s.1.scheduler) (hl : s.1.scheduler.status.Linked) (hi : Inv s)
    (h : s.1.step act = some s') :
    Inv (s', s.2.record s.1 act s') := by
  have hbegun : (∀ clock order, act ≠ .reschedule clock order) →
      ∀ h, (s.2.record s.1 act s').seen h = true → (s.2.record s.1 act s').begun = true := by
    intro hact handle hseen
    simp only [(record_other hact).2, Bool.and_eq_true] at hseen
    rw [(record_other hact).1]
    exact hi.begun handle hseen.2
  cases Hosted.event_cases hs h with
  | round =>
    exact ⟨fun _ _ => rfl, fun _ h₁ _ hn => absurd hn (not_new_round h h₁),
      fun _ h₁ hn => absurd hn (not_new_round h h₁)⟩
  | quiet hact hst hpc =>
    have hold : ∀ h, New (s', s.2.record s.1 act s') h → New s h := by
      intro h hn
      refine ⟨?_, new_other hact hn⟩
      obtain ⟨⟨q, hq, hready⟩, -⟩ := hn
      exact ⟨q, by rw [← hst]; exact hq, hready⟩
    refine ⟨hbegun hact, fun hb h h' hn hn' => ?_, fun hb h hn => ?_⟩
    · rw [(record_other hact).1] at hb
      exact hi.single hb h h' (hold h hn) (hold h' hn')
    · rw [(record_other hact).1] at hb
      exact hpc (hi.next hb h (hold h hn))
  | @event now e hu hpc hready =>
    have hact : ∀ clock order, HostedAct.own (.update now) ≠ .reschedule clock order := nofun
    -- The new XQueue is the one of the event: the worker was at no round before.
    have hnew : ∀ h, (s.2.record s.1 (.own (.update now)) s').begun = true →
        New (s', s.2.record s.1 (.own (.update now)) s') h → ∃ pid t, e = .xQueueReady pid h t := by
      intro h hb hn
      rw [(record_other hact).1] at hb
      have hseen := new_other hact hn
      obtain ⟨⟨q', hq', hr⟩, -⟩ := hn
      rcases Event.entry_ready ((hl.lookup_updateStatus hu h).symm.trans hq') hr with hold | he
      · exact absurd (hi.next hb h ⟨hold, hseen⟩) hpc
      · exact he
    refine ⟨hbegun hact, fun hb h h' hn hn' => ?_, fun hb h hn => ?_⟩
    · obtain ⟨pid, t, he⟩ := hnew h hb hn
      obtain ⟨pid', t', he'⟩ := hnew h' hb hn'
      rw [he] at he'
      cases he'
      rfl
    · obtain ⟨pid, t, he⟩ := hnew h hb hn
      exact hready pid h t he

theorem inv_runs {s : Hosted P × Arrivals} (hr : (runs P).Reachable s) : Inv s := by
  refine LTS.recorded_induction (I := fun s g => Inv (s, g)) ?_ ?_ hr
  · exact fun s _ => ⟨nofun, nofun, nofun⟩
  · intro s act s' g hr hi hstep
    have hlife : (Hosted.life P).Reachable s := hr
    exact inv_step (s := (s, g)) (Hosted.stays_life hlife)
      (PolicyRun.keyed_life (Hosted.life_run hlife)).1 hi hstep

end Arrivals

/-! ## Where a newcomer begins -/

namespace CompletelyFairSchedulerPolicy

/-- The virtual runtime of a node once it is charged. -/
def stands (now : TimePoint) (σ : State) (h : XQueueHandle) : ℚ := (charged now (node σ h)).vruntime

/-- A ready XQueue of the device that an earlier round has met while it was ready. -/
def OldReady (s : Hosted policy × Arrivals) (d : XDevice) (h : XQueueHandle) : Prop :=
  s.1.scheduler.status.ReadyOn d h ∧ s.2.seen h = true

section
variable {s : Hosted policy × Arrivals} {s' : Hosted policy} {clock : Clock}
  {order : List XQueueHandle} {h : XQueueHandle} {q : XQueueStatus}

theorem life_of_runs (hr : (Arrivals.runs policy).Reachable s) :
    (Hosted.life policy).Reachable s.1 :=
  LTS.reachable_of_recorded hr

/-- An XQueue that has been seen has a node. -/
theorem node_of_seen (hr : (Arrivals.runs policy).Reachable s) (hseen : s.2.seen h = true) :
    ∃ n, s.1.policy h = some n := by
  refine Option.ne_none_iff_exists'.1 ?_
  refine LTS.recorded_induction
    (I := fun (s : Hosted policy) (g : Arrivals) => ∀ h, g.seen h = true → s.policy h ≠ none)
    ?_ ?_ hr h hseen
  · intro s _ h hseen
    cases hseen
  · intro s act s' g hlife ih hstep h hseen
    cases Hosted.policy_cases hstep with
    | round hround =>
      -- A round makes a node for every XQueue that it meets.
      obtain ⟨calls, R⟩ := Hosted.round_life hlife hround
      simp only [Arrivals.record, Bool.and_eq_true] at hseen
      obtain ⟨q', hq'⟩ := Option.isSome_iff_exists.1 hseen.1
      obtain ⟨q, hq, rfl, -⟩ := R.entry hq'
      rw [show s'.policy = s'.run.policy from rfl, (sched_turn R.nodup (round_sched R) hq).1]
      simp
    | @recvHint now clock hint _ hst =>
      have hact : ∀ clock' order, HostedAct.recvHint now clock hint ≠ .reschedule clock' order :=
        nofun
      simp only [(Arrivals.record_other hact).2, Bool.and_eq_true] at hseen
      intro hnone
      exact ih h hseen.2 (recvHint_none hnone)
    | other hact =>
      simp only [(Arrivals.record_other hact).2, Bool.and_eq_true] at hseen
      exact ih h hseen.2

/-- A node that was there before the round is charged, no more. -/
theorem vruntime_old {s s' : PolicyRun policy} {calls : List Callback}
    (R : PolicyRun.Round clock order s calls s') (hq : q ∈ s.status.inOrder order)
    (hn : s.policy q.handle ≠ none) :
    vruntime s'.policy q.handle = stands clock.now s.policy q.handle := by
  obtain ⟨n, hn⟩ := Option.ne_none_iff_exists'.1 hn
  rw [vruntime_after R hq, selected_some hn]
  simp [stands, node, hn]

/-- A new node begins where some XQueue stands that was ready before. -/
theorem base_old (hr : (Arrivals.runs policy).Reachable s) {t : PolicyRun policy}
    {calls : List Callback} (R : PolicyRun.Round clock order s.1.run calls t)
    (hq : q ∈ s.1.run.status.inOrder order) (hready : q.ready = true)
    (hnew : s.2.seen q.handle = false) (hnone : s.1.policy q.handle = none)
    (ho : OldReady s q.device h) :
    ∃ r, OldReady s q.device r ∧ stands clock.now s.1.policy r =
      base clock.now s.1.policy (s.1.run.status.inOrder order) q.device := by
  obtain ⟨⟨q', hq', hready', hdev⟩, hseen⟩ := ho
  have hh : q'.handle = h := R.keyed h q' hq'
  subst hh
  obtain ⟨n, hn⟩ := node_of_seen hr hseen
  obtain ⟨r, hrmem, m, hm, hbase⟩ := base_spec clock.now R.nodup
    (mem_readyOf.2 ⟨R.mem.2 hq', hready', hdev⟩) hn
  obtain ⟨hrin, hrready, hrdev⟩ := mem_readyOf.1 hrmem
  -- It has a node, so it is not the newcomer, and there is no second one.
  have hrseen : s.2.seen r.handle = true := by
    by_contra hns
    have hi := Arrivals.inv_runs hr
    have hsame := hi.single (hi.begun _ hseen) r.handle q.handle
      ⟨⟨r, R.mem.1 hrin, hrready⟩, by simpa using hns⟩ ⟨⟨q, R.mem.1 hq, hready⟩, hnew⟩
    rw [hsame] at hm
    exact absurd (hm.symm.trans hnone) (by simp)
  refine ⟨r.handle, ⟨⟨r, R.mem.1 hrin, hrready, hrdev⟩, hrseen⟩, ?_⟩
  rw [stands, node, hm]
  exact hbase.symm

/-- **Where a newcomer begins.** In the first round that meets an XQueue while
it is ready, its virtual runtime is at least that of some XQueue of its device
that was ready before, if there is one, exactly if the XQueue has no node yet or
stands at such a value already. -/
theorem newcomer_iff (hr : (Arrivals.runs policy).Reachable s)
    (hround : s.1.step (.reschedule clock order) = some s')
    (hq : s.1.scheduler.status.xqueueStatus.lookup h = some q) (hready : q.ready = true)
    (hnew : s.2.seen h = false) :
    ((∃ h', OldReady s q.device h') →
      ∃ h', OldReady s q.device h' ∧ vruntime s'.policy h' ≤ vruntime s'.policy h) ↔
    (s.1.policy h = none ∨ (¬ ∃ h', OldReady s q.device h') ∨
      ∃ h', OldReady s q.device h' ∧
        stands clock.now s.1.policy h' ≤ stands clock.now s.1.policy h) := by
  have hlife := life_of_runs hr
  obtain ⟨calls, R⟩ := Hosted.round_life hlife hround
  have hh : q.handle = h := R.keyed h q hq
  have hmem : q ∈ s.1.run.status.inOrder order := R.mem.2 (by rw [hh]; exact hq)
  have hold : ∀ h', OldReady s q.device h' →
      vruntime s'.policy h' = stands clock.now s.1.policy h' := by
    rintro h' ⟨⟨q', hq', -, -⟩, hseen⟩
    have hh' : q'.handle = h' := R.keyed h' q' hq'
    obtain ⟨n, hn⟩ := node_of_seen hr hseen
    subst hh'
    exact vruntime_old R (R.mem.2 hq') (by rw [show s.1.run.policy = s.1.policy from rfl, hn]; simp)
  subst hh
  by_cases hnone : s.1.policy q.handle = none
  · -- The new node begins at the least, and who has it is no newcomer.
    refine iff_of_true (fun ⟨h', ho⟩ => ?_) (Or.inl hnone)
    obtain ⟨r, hro, hbase⟩ := base_old hr R hmem hready hnew hnone ho
    have hself : vruntime s'.policy q.handle =
        base clock.now s.1.policy (s.1.run.status.inOrder order) q.device :=
      (vruntime_after R hmem).trans (congrArg CFSNode.vruntime (selected_none hnone hready))
    refine ⟨r, hro, le_of_eq ?_⟩
    rw [hold _ hro, hself, hbase]
  · have hself : vruntime s'.policy q.handle = stands clock.now s.1.policy q.handle :=
      vruntime_old R hmem hnone
    simp only [hnone, false_or]
    constructor
    · intro hp
      by_cases ho : ∃ h', OldReady s q.device h'
      · obtain ⟨h', ho', hle⟩ := hp ho
        rw [hold h' ho', hself] at hle
        exact Or.inr ⟨h', ho', hle⟩
      · exact Or.inl ho
    · rintro (hno | ⟨h', ho', hle⟩) ho
      · exact absurd ho hno
      · exact ⟨h', ho', by rw [hold h' ho', hself]; exact hle⟩

end

/-- XQueue 7 runs for a millisecond. XQueue 8 is created, and the round of that
event makes its node; then it becomes ready. -/
def idleFirstActs : List HostedAct :=
  [.own .run, .own (.recvEvent (.xQueueCreate 1 7 1 2 0 0)),
    .own (.recvEvent (.xQueueReady 1 7 0)), .own (.wake 0), .own (.update 0), .own (.update 0),
    .reschedule ⟨0, fun _ => 0⟩ [7], .reschedule ⟨0, fun _ => 0⟩ [7],
    .own (.recvEvent (.xQueueCreate 1 8 1 2 0 0)), .own (.wake 1000000), .own (.update 1000000),
    .reschedule ⟨1000000, fun _ => 0⟩ [7, 8], .own (.recvEvent (.xQueueReady 1 8 1000000)),
    .own (.wake 1000000), .own (.update 1000000)]

def idleFirstClock : Clock := ⟨1000000, fun _ => 0⟩

theorem idleFirst_round : ∃ (s : Hosted policy × Arrivals) (s' : Hosted policy) (q : XQueueStatus),
    (Arrivals.runs policy).Reachable s ∧ s.1.step (.reschedule idleFirstClock [7, 8]) = some s' ∧
    s.1.scheduler.status.xqueueStatus.lookup 8 = some q ∧ q.ready = true ∧ q.device = 1 ∧
    s.2.seen 8 = false ∧ (∀ h', OldReady s 1 h' ↔ h' = 7) ∧
    vruntime s'.policy 8 = 0 ∧ vruntime s'.policy 7 = 1000 := by
  have htrace : (LTS.exec (LTS.recording Hosted.step Arrivals.record)
      (⟨.init .kPolicyCompletelyFairScheduler, policy.init⟩,
        Arrivals.start (⟨.init .kPolicyCompletelyFairScheduler, policy.init⟩ : Hosted policy))
      idleFirstActs).bind
      (fun s => (s.1.step (.reschedule idleFirstClock [7, 8])).map fun s' =>
        (s.1.scheduler.status.xqueueStatus.keys,
          [8, 7].map fun h =>
            ((s.1.scheduler.status.xqueueStatus.lookup h).any fun q => q.ready && q.device == 1,
              s.2.seen h, vruntime s'.policy h))) =
      some ([8, 7], [(true, false, 0), (true, true, 1000)]) := by
    decide +kernel
  obtain ⟨s, hs, htrace⟩ := Option.bind_eq_some_iff.1 htrace
  obtain ⟨s', hs', he⟩ := Option.map_eq_some_iff.1 htrace
  simp only [List.map_cons, List.map_nil, Prod.mk.injEq, List.cons.injEq, and_true] at he
  obtain ⟨hkeys, ⟨h8, hseen8, hv8⟩, h7, hseen7, hv7⟩ := he
  obtain ⟨q, hq, he8⟩ := (Option.any_eq_true _ _).1 h8
  obtain ⟨r, hr, he7⟩ := (Option.any_eq_true _ _).1 h7
  simp only [Bool.and_eq_true, beq_iff_eq] at he8 he7
  refine ⟨s, s', q, LTS.reachable_of_exec ⟨Hosted.Begins.construct _, rfl⟩ hs, hs', hq, he8.1,
    he8.2, hseen8, fun h' => ⟨?_, ?_⟩, hv8, hv7⟩
  · rintro ⟨⟨q', hq', -, -⟩, hseen⟩
    have hmem : h' ∈ s.1.scheduler.status.xqueueStatus.keys :=
      AList.lookup_isSome.1 (by rw [hq']; rfl)
    rw [hkeys] at hmem
    simp only [List.mem_cons, List.not_mem_nil, or_false] at hmem
    rcases hmem with rfl | rfl
    · rw [hseen8] at hseen
      cases hseen
    · rfl
  · rintro rfl
    exact ⟨⟨r, hr, he7.1, he7.2⟩, hseen7⟩

/-- XQueue 8 begins 1000 behind, and has the device for a millisecond. -/
theorem newcomer_behind : ∃ (s : Hosted policy × Arrivals) (s' : Hosted policy),
    (Arrivals.runs policy).Reachable s ∧ s.1.step (.reschedule idleFirstClock [7, 8]) = some s' ∧
    (∃ q, s.1.scheduler.status.xqueueStatus.lookup 8 = some q ∧ q.ready = true ∧ q.device = 1) ∧
    s.2.seen 8 = false ∧ (∃ h', OldReady s 1 h') ∧
    ¬ ∃ h', OldReady s 1 h' ∧ vruntime s'.policy h' ≤ vruntime s'.policy 8 := by
  obtain ⟨s, s', q, hr, hstep, hq, hready, hdev, hseen, hold, hv8, hv7⟩ := idleFirst_round
  refine ⟨s, s', hr, hstep, ⟨q, hq, hready, hdev⟩, hseen, ⟨7, (hold 7).2 rfl⟩, ?_⟩
  rintro ⟨h', ho, hle⟩
  rw [(hold h').1 ho, hv7, hv8] at hle
  exact absurd hle (by decide +kernel)

theorem newcomer_iff_behind : ∃ (s : Hosted policy × Arrivals) (s' : Hosted policy),
    (Arrivals.runs policy).Reachable s ∧ s.1.step (.reschedule idleFirstClock [7, 8]) = some s' ∧
    (((∃ h', OldReady s 1 h') →
      ∃ h', OldReady s 1 h' ∧ vruntime s'.policy h' ≤ vruntime s'.policy 8) ↔
    (s.1.policy 8 = none ∨ (¬ ∃ h', OldReady s 1 h') ∨
      ∃ h', OldReady s 1 h' ∧
        stands idleFirstClock.now s.1.policy h' ≤ stands idleFirstClock.now s.1.policy 8)) := by
  obtain ⟨s, s', q, hr, hstep, hq, hready, hdev, hseen, -⟩ := idleFirst_round
  have hiff := newcomer_iff hr hstep hq hready hseen
  rw [hdev] at hiff
  exact ⟨s, s', hr, hstep, hiff⟩

end CompletelyFairSchedulerPolicy
end Xsched.Sched
