import Xsched.Sched.EventLoop
import Xsched.Sched.Rounds
import Xsched.Sched.TimePolicies

/-!
# Ticks

CFS, MLFQ and SLO want a scheduling round once in a tick. Each has its `Sched`
arm a timer for the next one, a tick from now, and this timer brings the next
`Sched`. But a `Sched` comes with every event as well, and arms a timer then
too; none of the three looks whether one is pending, nor does `AddTimer`. The
new timer starts a chain of its own. Timers leave `timers_` only when they have
expired, and each that does so is replaced.

**Result.** `ticks_iff`: at most `n` timers lie ahead in every state of a run
exactly if each round with a ready XQueue comes when there are fewer than `n`
(and a clock that is set back brings no more than `n` ahead again).
-/
namespace Xsched.Sched

/-- A policy that wants to be called again, a tick after each round with a ready
XQueue. The tick depends on hints for some; `Ok` is what keeps it positive. -/
structure Ticking (P : Policy) where
  tick : P.State → Nat
  Ok : P.State → Prop
  init : Ok P.init
  recvHint : ∀ clock hint s, Ok s → Ok (P.recvHint clock hint s)
  sched : ∀ clock status order s calls s', P.sched clock status order s = some (calls, s') →
    Ok s → Ok s'
  positive : ∀ s, Ok s → 0 < tick s
  total : ∀ clock status order s, (P.sched clock status order s).isSome
  armed : ∀ clock status order s calls s', P.sched clock status order s = some (calls, s') →
    Ok s → armed calls =
      if (status.inOrder order).any (·.ready) then [clock.now + tick s] else []

/-! ## The three policies -/

theorem armed_forEach {S α : Type} {turn : S → α → List Callback × S}
    (hturn : ∀ s a, armed (turn s a).1 = []) (s : S) (as : List α) :
    armed (forEach turn s as).1 = [] := by
  induction as generalizing s with
  | nil => rfl
  | cons a as ih =>
    simp only [forEach, armed_append, hturn]
    exact ih _

/-- The timer at the end of a round. -/
theorem armed_tick (b : Bool) (t : TimePoint) :
    armed (if b then [.addTimer t] else []) = if b then [t] else [] := by
  cases b <;> rfl

namespace CompletelyFairSchedulerPolicy

theorem armed_operate (now : TimePoint) (minHandles : XDevice → Option XQueueHandle)
    (infos : State) (q : XQueueStatus) : armed (operate now minHandles infos q).1 = [] := by
  unfold operate
  dsimp only
  repeat' split
  all_goals rfl

def ticking : Ticking policy where
  tick _ := timeSlice * 1000
  Ok _ := True
  init := trivial
  recvHint _ _ _ _ := trivial
  sched _ _ _ _ _ _ _ _ := trivial
  positive _ _ := by decide
  total _ _ _ _ := rfl
  armed clock status order s calls s' h _ := by
    have hcalls : calls = (sched clock.now s (status.inOrder order)).1 := by
      rw [Option.some.inj h]
    rw [hcalls]
    simp only [sched, armed_append, armed_tick, armed_forEach (armed_operate clock.now _)]
    rfl

end CompletelyFairSchedulerPolicy

namespace MultiLevelFeedbackQueuePolicy

theorem armed_operate (now : TimePoint) (best : XDevice → Option (Nat × XQueueHandle))
    (infos : State) (q : XQueueStatus) : armed (operate now best infos q).1 = [] := by
  unfold operate
  dsimp only
  repeat' split
  all_goals rfl

theorem armed_account (now : TimePoint) (count : XDevice → Nat → Nat) (infos : State)
    (q : XQueueStatus) : armed (account now count infos q).1 = [] := by
  unfold account demote
  dsimp only
  repeat' split
  all_goals rfl

def ticking : Ticking policy where
  tick _ := defaultTick * 1000
  Ok _ := True
  init := trivial
  recvHint _ _ _ _ := trivial
  sched _ _ _ _ _ _ _ _ := trivial
  positive _ _ := by decide
  total _ _ _ _ := rfl
  armed clock status order s calls s' h _ := by
    have hcalls : calls = (sched clock.now s (status.inOrder order)).1 := by
      rw [Option.some.inj h]
    rw [hcalls]
    simp only [sched, armed_append, armed_tick, armed_forEach (armed_account clock.now _),
      armed_forEach (armed_operate clock.now _)]
    rfl

end MultiLevelFeedbackQueuePolicy

namespace SLOAdaptivePolicy

theorem armed_operate (clock : Clock) (chosen : XDevice → XQueueHandle) (infos : Infos)
    (q : XQueueStatus) : armed (operate clock chosen infos q).1 = [] := by
  unfold operate
  dsimp only
  repeat' split
  all_goals rfl

/-- Hints set the tick within bounds only. -/
def ticking : Ticking policy where
  tick s := (s.tick * 1000).toNat
  Ok s := TIMESLICE_MIN ≤ s.tick
  init := by decide
  recvHint clock hint s h := by
    cases hint <;> simp only [recvHint] <;> repeat' split
    all_goals first | exact h | (rename_i hts; exact hts.1)
  sched clock status order s calls s' hs h := by
    have hs' : s' = (sched clock s (status.inOrder order)).2 := by
      rw [Option.some.inj hs]
    rw [hs']
    exact h
  positive s h := by
    have htick : (100 : Int) ≤ s.tick := h
    omega
  total _ _ _ _ := rfl
  armed clock status order s calls s' hs h := by
    have hcalls : calls = (sched clock s (status.inOrder order)).1 := by
      rw [Option.some.inj hs]
    have htick : (afterUs clock.now s.tick).toNat = clock.now + (s.tick * 1000).toNat := by
      have hmin : (100 : Int) ≤ s.tick := h
      unfold afterUs
      omega
    rw [hcalls]
    simp only [sched, armed_append, armed_tick, armed_forEach (armed_operate clock _), htick]
    rfl

end SLOAdaptivePolicy

inductive TickPolicy where
  | cfs
  | mlfq
  | slo

namespace TickPolicy

abbrev policy : TickPolicy → Policy
  | cfs => CompletelyFairSchedulerPolicy.policy
  | mlfq => MultiLevelFeedbackQueuePolicy.policy
  | slo => SLOAdaptivePolicy.policy

def ticking : (p : TickPolicy) → Ticking p.policy
  | cfs => CompletelyFairSchedulerPolicy.ticking
  | mlfq => MultiLevelFeedbackQueuePolicy.ticking
  | slo => SLOAdaptivePolicy.ticking

end TickPolicy

/-! ## Timers ahead -/

/-- The timers that lie ahead at some time. -/
def LocalScheduler.ahead (now : TimePoint) (s : LocalScheduler) : Nat :=
  s.timers.countP (now < ·)

namespace LocalScheduler
variable {s s' : LocalScheduler}

/-- Waking up and updating take no timer away that lies ahead. -/
theorem ahead_reads {now : TimePoint}
    (h : s.step (.wake now) = some s' ∨ s.step (.update now) = some s') :
    s'.ahead now = s.ahead now := by
  unfold ahead
  rcases h with h | h
  · simp only [step] at h
    split at h
    · obtain ⟨-, -, ht, hdue⟩ := wake_some h
      have hnone : (LoopLog.popped now s).countP (now < ·) = 0 := by
        rw [List.countP_eq_zero]
        exact fun t ht => by simpa using hdue t ht
      rw [ht, List.countP_append, hnone, Nat.zero_add]
    · cases h
  · simp only [step] at h
    split at h
    · rename_i e tmp b hw
      cases e with
      | schedulerTerminate => cases h; rfl
      | _ => rw [(update_handed rfl h).2.2]
    · cases h

/-- Other threads leave the timers alone or clear them. -/
theorem others_timers {act : SchedAct} (hact : LoopLog.works act = false)
    (h : s.step act = some s') : s'.timers = s.timers ∨ s'.timers = [] := by
  cases LoopLog.others_cases hact h with
  | run | received | same => exact Or.inl rfl
  | @joined act next => cases next <;> exact Or.inr rfl

/-- As time goes on, less lies ahead. -/
theorem ahead_anti (s : LocalScheduler) {now now' : TimePoint} (h : now ≤ now') :
    s.ahead now' ≤ s.ahead now := by
  refine List.countP_mono_left fun t _ ht => ?_
  have hlt : now' < t := by simpa using ht
  exact decide_eq_true (Nat.lt_of_le_of_lt h hlt)

end LocalScheduler

/-- Some XQueue is ready. -/
def Status.hasReady (st : Status) : Bool := st.xqueueStatus.entries.any fun e => e.2.ready

theorem Status.any_ready {st : Status} {order : List XQueueHandle}
    (hperm : order.Perm st.xqueueStatus.keys) : (st.inOrder order).any (·.ready) = st.hasReady := by
  rw [Bool.eq_iff_iff, hasReady, List.any_eq_true, List.any_eq_true]
  constructor
  · rintro ⟨q, hq, hready⟩
    obtain ⟨h, -, hlook⟩ := List.mem_filterMap.1 hq
    exact ⟨⟨h, q⟩, AList.mem_lookup_iff.1 hlook, hready⟩
  · rintro ⟨⟨h, q⟩, hmem, hready⟩
    have hlook : st.xqueueStatus.lookup h = some q := AList.mem_lookup_iff.2 hmem
    have hh : h ∈ order := hperm.mem_iff.2 (AList.lookup_isSome.1 (by rw [hlook]; rfl))
    exact ⟨q, List.mem_filterMap.2 ⟨h, hh, hlook⟩, hready⟩

namespace Hosted
variable {P : Policy}

/-- The reading of the clock in a step. -/
def reading : HostedAct → Option TimePoint
  | .own (.wake now) | .own (.update now) | .recvHint now _ _ => some now
  | .reschedule clock _ => some clock.now
  | .own _ => none

def lastReading (_ : Hosted P) (act : HostedAct) (_ : Hosted P) (last : TimePoint) : TimePoint :=
  (reading act).getD last

def isRound : HostedAct → Bool
  | .reschedule _ _ => true
  | .own _ | .recvHint _ _ _ => false

/-- A step, with the last reading of the clock. -/
abbrev timedStep : Hosted P × TimePoint → HostedAct → Option (Hosted P × TimePoint) :=
  LTS.recording step lastReading

/-- The runs of a policy that begins at some time. -/
def timedLife (P : Policy) (now : TimePoint) : LTS (Hosted P × TimePoint) HostedAct :=
  LTS.recorded (Begins P) step (fun _ => now) lastReading

/-- At most `n` timers lie in the future. -/
def FewAhead (n : Nat) (s : Hosted P × TimePoint) : Prop := s.1.scheduler.ahead s.2 ≤ n

/-- A round with a ready XQueue comes when fewer than `n` timers lie in the
future, and a clock that is set back does not bring more than `n` there. -/
def InTime (n : Nat) (s : Hosted P × TimePoint) (act : HostedAct) : Prop :=
  ∀ now, reading act = some now →
    (isRound act = true → s.1.scheduler.status.hasReady = true → s.1.scheduler.ahead now < n) ∧
      (now < s.2 → s.1.scheduler.ahead now ≤ n)

section
variable {s s' : Hosted P × TimePoint}

theorem ok_life (T : Ticking P) {s : Hosted P} (hr : (life P).Reachable s) :
    T.Ok s.policy := by
  refine LTS.reachable_induction (I := fun s => T.Ok s.policy) ?_ ?_ hr
  · intro s h0
    have hinit : s.policy = P.init := h0.fresh.policy
    rw [hinit]
    exact T.init
  · intro s act s' _ hok hstep
    cases policy_cases hstep with
    | round h =>
      obtain ⟨-, calls, hcalls, -⟩ := round h
      exact T.sched _ _ _ _ _ _ hcalls hok
    | recvHint => exact T.recvHint _ _ _ hok
    | other => exact hok

/-- A step that reads the clock but for a round. -/
theorem few_reads {n : Nat} {now : TimePoint} {act : HostedAct} (hn : FewAhead n s)
    (hread : reading act = some now) (hround : isRound act = false)
    (hs' : s'.1.scheduler.ahead now = s.1.scheduler.ahead now) (hlast : s'.2 = now) :
    FewAhead n s' ↔ InTime n s act := by
  unfold FewAhead
  rw [hlast, hs']
  constructor
  · intro hle now' hnow
    obtain rfl : now = now' := Option.some.inj (hread.symm.trans hnow)
    exact ⟨fun hc => absurd hc (by rw [hround]; exact Bool.false_ne_true), fun _ => hle⟩
  · intro hok
    rcases Nat.lt_or_ge now s.2 with hback | hon
    · exact (hok now hread).2 hback
    · exact (s.1.scheduler.ahead_anti hon).trans hn

/-- A step that does not read it. -/
theorem few_other {n : Nat} {act : HostedAct} (hn : FewAhead n s) (hread : reading act = none)
    (hlast : s'.2 = lastReading s.1 act s'.1 s.2)
    (ht : s'.1.scheduler.timers = s.1.scheduler.timers ∨ s'.1.scheduler.timers = []) :
    FewAhead n s' ↔ InTime n s act := by
  refine iff_of_true ?_ (fun now hnow => by rw [hread] at hnow; cases hnow)
  have hsame : s'.2 = s.2 := by
    rw [hlast, lastReading, hread]
    rfl
  unfold FewAhead LocalScheduler.ahead
  rw [hsame]
  rcases ht with ht | ht
  · rw [ht]
    exact hn
  · rw [ht]
    exact Nat.zero_le n

/-- A round with a ready XQueue puts one more ahead. -/
theorem ahead_round (T : Ticking P) {s s' : Hosted P} {clock : Clock} {order : List XQueueHandle}
    (hok : T.Ok s.policy) (h : s.step (.reschedule clock order) = some s') :
    s'.scheduler.ahead clock.now = s.scheduler.ahead clock.now +
      if s.scheduler.status.hasReady then 1 else 0 := by
  obtain ⟨hperm, calls, hcalls, hsched⟩ := round h
  have harmed := T.armed _ _ _ _ _ _ hcalls hok
  have hpos := T.positive _ hok
  rw [Status.any_ready hperm] at harmed
  unfold LocalScheduler.ahead
  rw [(LocalScheduler.timers_sched hsched).countP_eq, List.countP_append, harmed]
  split <;> simp [hpos]

theorem few_step (T : Ticking P) {n : Nat} {act : HostedAct} (hok : T.Ok s.1.policy)
    (hn : FewAhead n s) (h : timedStep s act = some s') : FewAhead n s' ↔ InTime n s act := by
  obtain ⟨hstep, hlast⟩ := LTS.recording_eq_some.1 h
  cases act with
  | reschedule clock order =>
    have hahead := ahead_round T hok hstep
    have hnow : s'.2 = clock.now := hlast
    unfold FewAhead
    rw [hnow, hahead]
    constructor
    · intro hle now hread
      obtain rfl : clock.now = now := Option.some.inj hread
      refine ⟨fun _ hready => ?_, fun _ => (Nat.le_add_right ..).trans hle⟩
      rw [hready, if_pos rfl] at hle
      exact hle
    · intro hin
      obtain ⟨hless, hback⟩ := hin clock.now rfl
      split
      · rename_i hready
        exact hless rfl hready
      · rcases Nat.lt_or_ge clock.now s.2 with hlt | hge
        · exact hback hlt
        · exact (s.1.scheduler.ahead_anti hge).trans hn
  | recvHint now clock hint =>
    simp only [step] at hstep
    split at hstep
    · obtain ⟨scheduler, hu, he⟩ := Option.map_eq_some_iff.1 hstep
      refine few_reads hn rfl rfl ?_ hlast
      rw [← he]
      exact LocalScheduler.ahead_reads (Or.inr hu)
    · cases hstep
  | own act =>
    rcases (own_cases hstep).2 with ⟨hu, hsched⟩ | ⟨rfl, he⟩
    · cases hact : LocalScheduler.LoopLog.works act with
      | false =>
        have hread : reading (.own act) = none := by cases act <;> first | rfl | cases hact
        exact few_other hn hread hlast (LocalScheduler.others_timers hact hu)
      | true =>
        cases act with
        | wake now => exact few_reads hn rfl rfl (LocalScheduler.ahead_reads (Or.inl hu)) hlast
        | update now => exact few_reads hn rfl rfl (LocalScheduler.ahead_reads (Or.inr hu)) hlast
        | sched calls => exact absurd rfl (hsched calls)
        | _ => cases hact
    · exact few_other hn rfl hlast (Or.inl (by rw [he]))

/-- A policy begins without timers. -/
theorem Begins.timers {s : Hosted P} (h0 : Begins P s) : s.scheduler.timers = [] := by
  cases h0 with
  | construct type => rfl
  | setPolicy hr hact hstep =>
    obtain ⟨type, rfl⟩ := restart_cases hact hstep
    rfl

end

end Hosted

/-- **When ticks do not multiply.** At most `n` timers lie in the future in every
state of a run of CFS, MLFQ or SLO exactly if no round with a ready XQueue comes
while there are `n`, and no clock that is set back finds more than `n` ahead. -/
theorem ticks_iff (p : TickPolicy) (n : Nat) {s₀ : Hosted p.policy}
    (h0 : Hosted.Begins p.policy s₀) (now : TimePoint) (acts : List HostedAct) :
    LTS.Throughout Hosted.timedStep (Hosted.FewAhead n) (s₀, now) acts ↔
      LTS.EachStep Hosted.timedStep (Hosted.InTime n) (s₀, now) acts := by
  have hr₀ : (Hosted.timedLife p.policy now).Reachable (s₀, now) := LTS.reachable_init ⟨h0, rfl⟩
  refine LTS.throughout_iff (fun s act s' hr hn hstep => ?_) hr₀ ?_ acts
  · have hlife : (Hosted.timedLife p.policy now).Reachable s := hr
    exact Hosted.few_step p.ticking (Hosted.ok_life p.ticking (LTS.reachable_of_recorded hlife)) hn
      hstep
  · unfold Hosted.FewAhead LocalScheduler.ahead
    rw [h0.timers]
    exact Nat.zero_le n

/-- XQueue 7 becomes ready with the reading 0; the round of the Ready event arms
a timer, and so does that at the end of the batch. -/
def readyActs : List HostedAct :=
  [.own .run, .own (.recvEvent (.xQueueReady 1 7 0)), .own (.wake 0), .own (.update 0),
    .reschedule ⟨0, fun _ => 0⟩ [7], .reschedule ⟨0, fun _ => 0⟩ [7]]

def readyStart : Hosted TickPolicy.cfs.policy :=
  ⟨.init .kPolicyCompletelyFairScheduler, TickPolicy.cfs.policy.init⟩

theorem ticks_ready :
    LTS.Throughout Hosted.timedStep (Hosted.FewAhead 2) (readyStart, 0) readyActs ↔
      LTS.EachStep Hosted.timedStep (Hosted.InTime 2) (readyStart, 0) readyActs :=
  ticks_iff .cfs 2 (.construct _) 0 readyActs

/-! ## Many chains -/

namespace Status

theorem hasReady_iff {st : Status} : st.hasReady = true ↔ ∃ d h, st.ReadyOn d h := by
  unfold hasReady ReadyOn
  rw [List.any_eq_true]
  constructor
  · rintro ⟨⟨h, q⟩, hmem, hready⟩
    exact ⟨q.device, h, q, AList.mem_lookup_iff.2 hmem, hready, rfl⟩
  · rintro ⟨d, h, q, hq, hready, -⟩
    exact ⟨⟨h, q⟩, AList.mem_lookup_iff.1 hq, hready⟩

theorem hasReady_callbacks {st : Status} {calls : List Callback} :
    (calls.foldl callback st).hasReady = st.hasReady := by
  rw [Bool.eq_iff_iff, hasReady_iff, hasReady_iff]
  simp only [readyOn_callbacks]

end Status

namespace Hosted
variable {P : Policy}

def clockZero : Clock := ⟨0, fun _ => 0⟩

/-- The worker waits, and an XQueue is ready. -/
structure AtRest (T : Ticking P) (s : Hosted P) : Prop where
  worker : s.scheduler.worker = .waiting
  queue : s.scheduler.eventQueue = []
  ready : s.scheduler.status.hasReady = true
  ok : T.Ok s.policy

theorem timedStep_round {s s' : Hosted P} {order : List XQueueHandle}
    (h : s.step (.reschedule clockZero order) = some s') :
    timedStep (s, 0) (.reschedule clockZero order) = some (s', 0) := by
  simp only [LTS.recording, h]
  rfl

/-- Where the worker is at a `Reschedule`, there is a round. -/
theorem exists_round (T : Ticking P) {s : Hosted P}
    (hw : ∀ calls, (s.scheduler.step (.sched calls)).isSome) (hok : T.Ok s.policy) :
    ∃ order calls s', s.step (.reschedule clockZero order) = some s' ∧ T.Ok s'.policy ∧
      s.scheduler.step (.sched calls) = some s'.scheduler ∧
      s'.scheduler.status.hasReady = s.scheduler.status.hasReady := by
  obtain ⟨⟨calls, policy⟩, hcalls⟩ := Option.isSome_iff_exists.1
    (T.total clockZero s.scheduler.status s.scheduler.status.xqueueStatus.keys s.policy)
  obtain ⟨scheduler, hsched⟩ := Option.isSome_iff_exists.1 (hw calls)
  refine ⟨s.scheduler.status.xqueueStatus.keys, calls, ⟨scheduler, policy⟩, ?_,
    T.sched _ _ _ _ _ _ hcalls hok, hsched, ?_⟩
  · simp only [step, if_pos (List.Perm.refl _), hcalls, Option.bind_some, hsched, Option.map_some]
  · rw [status_sched hsched, Status.hasReady_callbacks]

/-- The round at the end of a batch. -/
theorem last_round (T : Ticking P) {s : Hosted P}
    (hw : s.scheduler.worker = .processing [] false) (hq : s.scheduler.eventQueue = [])
    (hready : s.scheduler.status.hasReady = true) (hok : T.Ok s.policy) :
    ∃ order s', s.step (.reschedule clockZero order) = some s' ∧ AtRest T s' ∧
      s'.scheduler.ahead 0 = s.scheduler.ahead 0 + 1 := by
  have hsched : ∀ calls, s.scheduler.step (.sched calls) =
      some (s.scheduler.finish calls false) := by
    intro calls
    simp only [LocalScheduler.step, hw]
  obtain ⟨order, calls, s', hstep, hok', hfinish, hsame⟩ :=
    exists_round T (fun calls => by rw [hsched]; rfl) hok
  have hahead := ahead_round T hok hstep
  rw [hready, if_pos rfl] at hahead
  rw [hready] at hsame
  rw [hsched] at hfinish
  obtain ⟨scheduler, policy⟩ := s'
  obtain rfl : s.scheduler.finish calls false = scheduler := Option.some.inj hfinish
  exact ⟨order, _, hstep,
    ⟨rfl, (LocalScheduler.callbacks_frame calls s.scheduler).1.trans hq, hsame, hok'⟩, hahead⟩

/-- A hint, with a ready XQueue, brings a round and one more timer. -/
theorem one_more (T : Ticking P) {s : Hosted P} (hs : AtRest T s) :
    ∃ acts s', LTS.exec timedStep (s, 0) acts = some (s', 0) ∧ AtRest T s' ∧
      s'.scheduler.ahead 0 = s.scheduler.ahead 0 + 1 := by
  obtain ⟨⟨type, status, queue, timers, worker, control, executed⟩, policy⟩ := s
  obtain rfl : queue = [] := hs.queue
  obtain rfl : worker = .waiting := hs.worker
  let hint : Hint := .deadline 7 1
  let s₁ : Hosted P :=
    ⟨⟨type, status, [], timers, .processing [] false, control, executed⟩,
      P.recvHint clockZero hint policy⟩
  obtain ⟨order, s', hstep, hrest, hahead⟩ := last_round T (s := s₁) rfl rfl hs.ready
    (T.recvHint _ _ _ hs.ok)
  refine ⟨[.own (.recvEvent (.hint 1)), .own (.wake 0), .recvHint 0 clockZero hint,
    .reschedule clockZero order], s', ?_, hrest, hahead⟩
  change (timedStep (s₁, 0) (.reschedule clockZero order)).bind some = some (s', 0)
  rw [timedStep_round hstep]
  rfl

/-- An XQueue is created and becomes ready: a round for the Ready event, and one
at the end of the batch. -/
theorem first_rest (T : Ticking P) (type : XPolicyType) :
    ∃ acts s, LTS.exec timedStep (⟨.init type, P.init⟩, 0) acts = some (s, 0) ∧ AtRest T s := by
  let status : Status := Status.empty.createXQueueStatus 1 "" 7 kDeviceTypeUnknown
    kPreemptLevelUnknown 0 0 true 0
  let s₁ : Hosted P := ⟨⟨type, status, [], [], .ready [] false, .idle, []⟩, P.init⟩
  have hready : status.hasReady = true := by decide
  obtain ⟨order, calls, s₂, hstep, hok, hsched, hsame⟩ :=
    exists_round T (s := s₁) (fun calls => rfl) T.init
  have hs₂ : { s₁.scheduler.reschedule calls with worker := .processing [] false } =
      s₂.scheduler := Option.some.inj hsched
  obtain ⟨order', s, hstep', hrest, -⟩ := last_round T (s := s₂) (by rw [← hs₂])
    (by rw [← hs₂]; exact (LocalScheduler.callbacks_frame calls s₁.scheduler).1)
    (hsame.trans hready) hok
  refine ⟨[.own .run, .own (.recvEvent (.xQueueReady 1 7 0)), .own (.wake 0), .own (.update 0),
    .reschedule clockZero order, .reschedule clockZero order'], s, ?_, hrest⟩
  change (timedStep (s₁, 0) (.reschedule clockZero order)).bind (fun t =>
    (timedStep t (.reschedule clockZero order')).bind some) = some (s, 0)
  rw [timedStep_round hstep, Option.bind_some, timedStep_round hstep']
  rfl

/-- However many timers lie ahead, there can be more. -/
theorem many (T : Ticking P) (type : XPolicyType) (n : Nat) :
    ∃ acts s, LTS.exec timedStep (⟨.init type, P.init⟩, 0) acts = some (s, 0) ∧ AtRest T s ∧
      n ≤ s.scheduler.ahead 0 := by
  induction n with
  | zero =>
    obtain ⟨acts, s, hexec, hrest⟩ := first_rest T type
    exact ⟨acts, s, hexec, hrest, Nat.zero_le _⟩
  | succ n ih =>
    obtain ⟨acts, s, hexec, hrest, hle⟩ := ih
    obtain ⟨acts', s', hexec', hrest', hone⟩ := one_more T hrest
    exact ⟨acts ++ acts', s', (LTS.exec_append hexec acts').trans hexec', hrest',
      by rw [hone]; exact Nat.succ_le_succ hle⟩

end Hosted

/-- The timers that lie in the future are bounded, whatever comes in. -/
def TickPolicy.Bounded (p : TickPolicy) : Prop :=
  ∃ n, ∀ s₀ acts now s, Hosted.Begins p.policy s₀ →
    LTS.exec Hosted.timedStep (s₀, now) acts = some s → Hosted.FewAhead n s

/-- **Counterexample**: an XQueue is ready, and hints come within one tick; each
brings a round, and each round a timer. -/
theorem ticks_multiply : ¬ ∃ p : TickPolicy, p.Bounded := by
  rintro ⟨p, n, hn⟩
  obtain ⟨acts, s, hexec, -, hle⟩ := Hosted.many p.ticking .kPolicySLOAdaptive (n + 1)
  exact absurd (hn _ acts 0 _ (.construct _) hexec) (Nat.not_le.2 hle)

end Xsched.Sched
