import Mathlib.Data.List.Sort
import Mathlib.Data.List.TakeWhile
import Xsched.Sched.Local

/-!
# What the event loop does with events and timers

`LocalScheduler::Worker` takes the whole of `event_queue_` under the lock and
goes through it with the lock dropped, so events arrive behind those it is at.
A terminate event is in the queue like any other: the worker notes it, goes
through the rest of the batch and returns after the last `Reschedule`. What has
arrived by then is left to the worker that `Run` or `SetPolicy` starts next.

Timers come from the policy in a `Sched`, in any order, and are sorted at the
end of the batch. Expired ones are popped when the worker finds the queue
empty, before it waits; a batch without events follows, with a `Reschedule`.

**The record.** `LoopLog` keeps what a run has done: which events were passed
to `RecvEvent` and handed to `UpdateStatus`, and by which worker; the course of
the loop; and what became of each timer since `timers_` was cleared last.

**Result.** `event_loop`.
-/
namespace Xsched.Sched

def Event.terminates : Event → Bool
  | .schedulerTerminate _ => true
  | _ => false

def Event.readies : Event → Bool
  | .xQueueReady _ _ _ => true
  | _ => false

/-- The timers that the calls of a policy arm. -/
def armed (calls : List Callback) : List TimePoint :=
  calls.filterMap fun
    | .addTimer t => some t
    | _ => none

@[simp] theorem armed_append (calls calls' : List Callback) :
    armed (calls ++ calls') = armed calls ++ armed calls' := List.filterMap_append

namespace LocalScheduler

/-! ## The record of a run -/

/-- The loop of the worker, as it is seen from outside. -/
inductive LoopStep where
  | wake
  | handed (e : Event)
  | reschedule
  deriving DecidableEq

inductive Phase where
  | outside
  | batch
  | ready
  deriving DecidableEq

/-- How the loop is to go on: a `Reschedule` after each Ready event, and one
before the batch ends. -/
def Phase.next : Phase → LoopStep → Option Phase
  | .outside, .wake => some .batch
  | .batch, .handed e => some (if e.readies then .ready else .batch)
  | .ready, .reschedule => some .batch
  | .batch, .reschedule => some .outside
  | _, _ => none

def phase : WorkerPc → Phase
  | .stopped | .waiting | .returned => .outside
  | .processing _ _ => .batch
  | .ready _ _ => .ready

/-- The events of a batch that are left. -/
def batch : WorkerPc → List Event
  | .processing tmp _ | .ready tmp _ => tmp
  | .stopped | .waiting | .returned => []

/-- Events but terminate events, with the number of workers started when they
were received or handed over. A timer that has been popped, with the reading
of the clock, is `fired` until the next `Reschedule` and then `served`. -/
structure LoopLog where
  workers : Nat
  received : List (Event × Nat)
  handed : List (Event × Nat)
  loop : List LoopStep
  armed : List TimePoint
  fired : List (TimePoint × TimePoint)
  served : List (TimePoint × TimePoint)

namespace LoopLog

def start : LoopLog := ⟨0, [], [], [], [], [], []⟩

/-- With this step `Stop` clears the timers. -/
def clears (s : LocalScheduler) : SchedAct → Bool
  | .join => true
  | .stop => s.worker = .stopped
  | .setPolicy type => s.worker = .stopped && type ≠ s.policyType
  | _ => false

/-- The timers that the worker pops before a batch. -/
def popped (now : TimePoint) (s : LocalScheduler) : List TimePoint :=
  if s.eventQueue = [] then s.timers.takeWhile (· ≤ now) else []

def record (s : LocalScheduler) (act : SchedAct) (_ : LocalScheduler) (g : LoopLog) : LoopLog :=
  match act with
  | .run => { g with workers := g.workers + 1 }
  | .recvEvent e =>
    if e.terminates then g else { g with received := g.received ++ [(e, g.workers)] }
  | .setPolicy _ | .stop | .join =>
    if clears s act then
      { g with
        workers := if s.restarts act then g.workers + 1 else g.workers
        armed := []
        fired := []
        served := [] }
    else g
  | .wake now =>
    { g with
      loop := g.loop ++ [.wake]
      fired := g.fired ++ (popped now s).map fun t => (t, now) }
  | .update _ =>
    match s.worker with
    | .processing (e :: _) _ =>
      if e.terminates then g
      else { g with handed := g.handed ++ [(e, g.workers)], loop := g.loop ++ [.handed e] }
    | _ => g
  | .sched calls =>
    { g with
      loop := g.loop ++ [.reschedule]
      armed := g.armed ++ Sched.armed calls
      served := g.served ++ g.fired
      fired := [] }

/-- The event that was received is the one that was handed over, by the worker
of that time or the next one. -/
def HandedBy (r h : Event × Nat) : Prop := h.1 = r.1 ∧ (h.2 = r.2 ∨ h.2 = r.2 + 1)

/-- Where the events are that were received: handed over, in the batch, or in
the queue. What has been in the queue before the worker of now was started, it
finds there at its first wake. -/
structure Accounted (s : LocalScheduler) (g : LoopLog) : Prop where
  split : ∃ done inBatch inQueue, g.received = done ++ (inBatch ++ inQueue) ∧
    List.Forall₂ HandedBy done g.handed ∧
    inBatch.map Prod.fst = (batch s.worker).filter (fun e => !e.terminates) ∧
    inQueue.map Prod.fst = s.eventQueue.filter (fun e => !e.terminates) ∧
    (∀ r ∈ inBatch, g.workers = r.2 ∨ g.workers = r.2 + 1) ∧
    ∀ r ∈ inQueue, g.workers = r.2 ∨ s.worker = .waiting ∧ g.workers = r.2 + 1

/-- Where the timers are that were armed. -/
structure Timed (s : LocalScheduler) (g : LoopLog) : Prop where
  perm : (s.timers ++ (g.fired ++ g.served).map Prod.fst).Perm g.armed
  due : ∀ p ∈ g.fired ++ g.served, p.1 ≤ p.2
  quiet : phase s.worker = .outside → g.fired = []
  sorted : s.worker = .waiting → s.timers.Pairwise (· ≤ ·)
  clear : s.worker = .stopped → s.timers = []

structure Inv (s : LocalScheduler × LoopLog) : Prop where
  events : Accounted s.1 s.2
  loop : s.2.loop.foldlM Phase.next .outside = some (phase s.1.worker)
  timers : Timed s.1 s.2

end LoopLog

/-- The runs of the scheduler with their record. -/
def logged : LTS (LocalScheduler × LoopLog) SchedAct :=
  LTS.recorded (fun s => ∃ type, s = init type) step (fun _ => .start) LoopLog.record

/-! ## What the steps do to queue and timers -/

/-- The steps of the worker. -/
def LoopLog.works : SchedAct → Bool
  | .wake _ | .update _ | .sched _ => true
  | .run | .recvEvent _ | .setPolicy _ | .stop | .join => false

section
variable {s s' : LocalScheduler}

theorem timers_callbacks (calls : List Callback) (s : LocalScheduler) :
    (calls.foldl callback s).timers = s.timers ++ armed calls := by
  induction calls generalizing s with
  | nil => simp [armed]
  | cons c calls ih =>
    rw [List.foldl_cons, ih]
    cases c <;> simp [callback, armed]

theorem pending_eq (s : LocalScheduler) : s.pending = batch s.worker ++ s.eventQueue := by
  cases hw : s.worker <;> simp [pending, batch, hw]

/-- A worker that wakes up takes the queue, or pops the timers that have expired. -/
theorem wake_some {now : TimePoint} (h : s.wake now = some s') :
    s'.worker = .processing s.eventQueue false ∧ s'.eventQueue = [] ∧
      s.timers = LoopLog.popped now s ++ s'.timers ∧ ∀ t ∈ LoopLog.popped now s, t ≤ now := by
  unfold wake at h
  unfold LoopLog.popped
  cases hq : s.eventQueue with
  | nil =>
    rw [hq] at h
    dsimp only at h
    split at h
    · cases h
    · split at h
      · cases h
      · cases h
        refine ⟨rfl, rfl, (List.takeWhile_append_dropWhile ..).symm, fun t ht => ?_⟩
        simpa using List.mem_takeWhile_imp ht
  | cons e es =>
    rw [hq] at h
    cases h
    exact ⟨rfl, rfl, by simp, by simp⟩

/-- Where the worker is once it has handed `e` over. -/
def handedPc (e : Event) (tmp : List Event) (b : Bool) : WorkerPc :=
  if e.readies then .ready tmp b else .processing tmp b

theorem update_handed {now : TimePoint} {e : Event} {tmp : List Event} {b : Bool}
    (he : e.terminates = false) (h : s.update now e tmp b = some s') :
    s'.worker = handedPc e tmp b ∧ s'.eventQueue = s.eventQueue ∧ s'.timers = s.timers := by
  cases e
  case schedulerTerminate => cases he
  all_goals
    simp only [update] at h
    obtain ⟨status, -, rfl⟩ := Option.map_eq_some_iff.1 h
    exact ⟨rfl, rfl, rfl⟩

theorem handedPc_cases (e : Event) (tmp : List Event) (b : Bool) :
    handedPc e tmp b = .processing tmp b ∨ handedPc e tmp b = .ready tmp b := by
  unfold handedPc
  split
  · exact Or.inr rfl
  · exact Or.inl rfl

theorem update_terminates {now : TimePoint} {e : Event} {tmp : List Event} {b : Bool}
    (he : e.terminates = true) (h : s.update now e tmp b = some s') :
    s' = { s with worker := .processing tmp true } := by
  cases e with
  | schedulerTerminate pid =>
    cases h
    rfl
  | _ => cases he

theorem update_pc {now : TimePoint} {e : Event} {tmp : List Event} {b : Bool}
    (h : s.update now e tmp b = some s') :
    ((∃ b', s'.worker = .processing tmp b') ∨ ∃ b', s'.worker = .ready tmp b') ∧
      s'.eventQueue = s.eventQueue := by
  cases he : e.terminates with
  | true =>
    rw [update_terminates he h]
    exact ⟨Or.inl ⟨true, rfl⟩, rfl⟩
  | false =>
    obtain ⟨hw', hq, -⟩ := update_handed he h
    rw [hw']
    exact ⟨(handedPc_cases e tmp b).imp (⟨b, ·⟩) (⟨b, ·⟩), hq⟩

/-- A step of the worker, from where it is. -/
inductive WorksCases (s : LocalScheduler) : SchedAct → LocalScheduler → Prop
  | woken {now : TimePoint} {s' : LocalScheduler} (hw : s.worker = .waiting)
      (h : s.wake now = some s') : WorksCases s (.wake now) s'
  | updated {now : TimePoint} {e : Event} {tmp : List Event} {b : Bool} {s' : LocalScheduler}
      (hw : s.worker = .processing (e :: tmp) b) (h : s.update now e tmp b = some s') :
    WorksCases s (.update now) s'
  | finished {calls : List Callback} {b : Bool} (hw : s.worker = .processing [] b) :
    WorksCases s (.sched calls) (s.finish calls b)
  | rescheduled {calls : List Callback} {tmp : List Event} {b : Bool}
      (hw : s.worker = .ready tmp b) :
    WorksCases s (.sched calls) { s.reschedule calls with worker := .processing tmp b }

theorem works_cases {act : SchedAct} (hact : LoopLog.works act = true) (h : step s act = some s') :
    WorksCases s act s' := by
  cases act with
  | wake now =>
    simp only [step] at h
    split at h
    · rename_i hw
      exact .woken hw h
    · cases h
  | update now =>
    simp only [step] at h
    split at h
    · rename_i hw
      exact .updated hw h
    · cases h
  | sched calls =>
    simp only [step] at h
    split at h
    · rename_i hw
      cases h
      exact .finished hw
    · rename_i hw
      cases h
      exact .rescheduled hw
    · cases h
  | _ => cases hact

/-- A `Reschedule` keeps the timers and adds those of the policy. -/
theorem timers_sched {calls : List Callback} (h : step s (.sched calls) = some s') :
    s'.timers.Perm (s.timers ++ armed calls) := by
  cases works_cases rfl h with
  | finished hw =>
    refine (List.perm_insertionSort _ _).trans ?_
    exact .of_eq (timers_callbacks calls s)
  | rescheduled hw => exact .of_eq (timers_callbacks calls s)

/-- After a wake, and after an event, the worker is in a batch. -/
theorem phase_reads {now : TimePoint}
    (h : s.step (.wake now) = some s' ∨ s.step (.update now) = some s') :
    phase s'.worker ≠ .outside := by
  rcases h with h | h
  · cases works_cases rfl h with
    | woken hw h =>
      rw [(wake_some h).1]
      simp [phase]
  · cases works_cases rfl h with
    | updated hw h => obtain ⟨⟨b', hw'⟩ | ⟨b', hw'⟩, -⟩ := update_pc h <;> rw [hw'] <;> simp [phase]

/-- `Stop` asks the worker to terminate, or finds that there is none. -/
theorem stopThen_eq (next : Option XPolicyType) (s : LocalScheduler) :
    s.worker = .stopped ∧ s.stopThen next = s.joined next ∨
    s.worker ≠ .stopped ∧ s.stopThen next =
      { s with
        eventQueue := s.eventQueue ++ [.schedulerTerminate kServerPid]
        control := .joining next } := by
  unfold stopThen
  split
  · rename_i hw
    exact Or.inl ⟨hw, rfl⟩
  · rename_i hw
    exact Or.inr ⟨hw, rfl⟩

end

/-! ## Every step keeps the record -/

namespace LoopLog

section
variable {s s' : LocalScheduler} {g : LoopLog}

theorem inv_init (type : XPolicyType) : Inv (init type, start) where
  events := ⟨[], [], [], rfl, .nil, rfl, rfl, by simp, by simp⟩
  loop := rfl
  timers := ⟨.refl _, by simp [start], fun _ => rfl, (fun h => by cases h), fun _ => rfl⟩

/-- A new worker finds everything that has been received up to then in the queue. -/
theorem Accounted.started (h : Accounted s g) (hw : s.worker = .stopped ∨ s.worker = .returned)
    (hw' : s'.worker = .waiting) (hq : s'.eventQueue = s.eventQueue) (armed : List TimePoint)
    (fired served : List (TimePoint × TimePoint)) :
    Accounted s' { g with
      workers := g.workers + 1, armed := armed, fired := fired, served := served } := by
  obtain ⟨done, inBatch, inQueue, hsplit, hhanded, hbatch, hqueue, -, htag⟩ := h.split
  have hnone : batch s.worker = [] := by rcases hw with hw | hw <;> rw [hw] <;> rfl
  have hempty : inBatch = [] := by
    rw [hnone] at hbatch
    exact List.map_eq_nil_iff.1 hbatch
  have hnot : s.worker ≠ .waiting := by rcases hw with hw | hw <;> rw [hw] <;> simp
  subst hempty
  refine ⟨done, [], inQueue, hsplit, hhanded, by rw [hw']; rfl, by rw [hq]; exact hqueue, by simp,
    fun r hr => Or.inr ⟨hw', ?_⟩⟩
  rcases htag r hr with hworkers | ⟨hwait, -⟩
  · exact congrArg (· + 1) hworkers
  · exact absurd hwait hnot

/-- Without a new worker the queue is left to the next one. -/
theorem Accounted.stopped (h : Accounted s g) (hw : s.worker = .stopped ∨ s.worker = .returned)
    (hw' : s'.worker = .stopped) (hq : s'.eventQueue = s.eventQueue) (armed : List TimePoint)
    (fired served : List (TimePoint × TimePoint)) :
    Accounted s' { g with armed := armed, fired := fired, served := served } := by
  obtain ⟨done, inBatch, inQueue, hsplit, hhanded, hbatch, hqueue, hold, htag⟩ := h.split
  have hnone : batch s.worker = [] := by rcases hw with hw | hw <;> rw [hw] <;> rfl
  have hnot : s.worker ≠ .waiting := by rcases hw with hw | hw <;> rw [hw] <;> simp
  refine ⟨done, inBatch, inQueue, hsplit, hhanded, ?_, by rw [hq]; exact hqueue, hold,
    fun r hr => Or.inl ?_⟩
  · rw [hbatch, hnone, hw']
    rfl
  · rcases htag r hr with hworkers | ⟨hwait, -⟩
    · exact hworkers
    · exact absurd hwait hnot

/-- What is received goes behind the queue. -/
theorem Accounted.received (h : Accounted s g) (e : Event) (control : Control) :
    Accounted { s with eventQueue := s.eventQueue ++ [e], control := control }
      (if e.terminates then g else { g with received := g.received ++ [(e, g.workers)] }) := by
  obtain ⟨done, inBatch, inQueue, hsplit, hhanded, hbatch, hqueue, hold, htag⟩ := h.split
  cases he : e.terminates with
  | true =>
    exact ⟨done, inBatch, inQueue, hsplit, hhanded, hbatch, by simp [hqueue, he], hold, htag⟩
  | false =>
    refine ⟨done, inBatch, inQueue ++ [(e, g.workers)], ?_, hhanded, hbatch, by simp [hqueue, he],
      hold, fun r hr => ?_⟩
    · simp [hsplit]
    · rcases List.mem_append.1 hr with hr | hr
      · exact htag r hr
      · rw [List.mem_singleton.1 hr]
        exact Or.inl rfl

/-- A wake takes the queue for its batch. -/
theorem Accounted.wake (h : Accounted s g) (hw : s.worker = .waiting)
    (hw' : s'.worker = .processing s.eventQueue false) (hq : s'.eventQueue = [])
    (loop : List LoopStep) (fired : List (TimePoint × TimePoint)) :
    Accounted s' { g with loop := loop, fired := fired } := by
  obtain ⟨done, inBatch, inQueue, hsplit, hhanded, hbatch, hqueue, hold, htag⟩ := h.split
  have hempty : inBatch = [] := by
    rw [hw] at hbatch
    exact List.map_eq_nil_iff.1 hbatch
  subst hempty
  refine ⟨done, inQueue, [], by simpa using hsplit, hhanded, by rw [hw']; exact hqueue,
    by rw [hq]; rfl, fun r hr => ?_, by simp⟩
  rcases htag r hr with hworkers | ⟨-, hworkers⟩
  · exact Or.inl hworkers
  · exact Or.inr hworkers

/-- The first event of the batch is handed over. -/
theorem Accounted.handed (h : Accounted s g) {e : Event} {tmp : List Event} {b b' : Bool}
    (hw : s.worker = .processing (e :: tmp) b) (he : e.terminates = false)
    (hw' : s'.worker = .processing tmp b' ∨ s'.worker = .ready tmp b')
    (hq : s'.eventQueue = s.eventQueue) (loop : List LoopStep) :
    Accounted s' { g with handed := g.handed ++ [(e, g.workers)], loop := loop } := by
  obtain ⟨done, inBatch, inQueue, hsplit, hhanded, hbatch, hqueue, hold, htag⟩ := h.split
  have hnot : s.worker ≠ .waiting := by rw [hw]; simp
  have htmp : batch s'.worker = tmp := by rcases hw' with hw' | hw' <;> rw [hw'] <;> rfl
  rw [hw] at hbatch
  simp only [batch, List.filter_cons, he, Bool.not_false, if_true] at hbatch
  obtain ⟨r, inBatch', rfl, hr, hrest⟩ := List.map_eq_cons_iff.1 hbatch
  refine ⟨done ++ [r], inBatch', inQueue, by simp [hsplit], ?_, by rw [htmp]; exact hrest,
    by rw [hq]; exact hqueue, fun r' hr' => hold r' (.tail _ hr'), fun r' hr' => ?_⟩
  · refine List.rel_append hhanded (.cons ⟨hr.symm, ?_⟩ .nil)
    exact hold r (.head _)
  · rcases htag r' hr' with hworkers | ⟨hwait, -⟩
    · exact Or.inl hworkers
    · exact absurd hwait hnot

/-- Steps that leave batch and queue alone, but for terminate events. -/
theorem Accounted.same (h : Accounted s g) (hnot : s.worker ≠ .waiting)
    (hb : (batch s'.worker).filter (fun e => !e.terminates) =
      (batch s.worker).filter fun e => !e.terminates)
    (hq : s'.eventQueue = s.eventQueue) (loop : List LoopStep) (armed : List TimePoint)
    (fired served : List (TimePoint × TimePoint)) :
    Accounted s' { g with loop := loop, armed := armed, fired := fired, served := served } := by
  obtain ⟨done, inBatch, inQueue, hsplit, hhanded, hbatch, hqueue, hold, htag⟩ := h.split
  refine ⟨done, inBatch, inQueue, hsplit, hhanded, by rw [hb]; exact hbatch,
    by rw [hq]; exact hqueue, hold, fun r hr => ?_⟩
  rcases htag r hr with hworkers | ⟨hwait, -⟩
  · exact Or.inl hworkers
  · exact absurd hwait hnot

theorem Timed.cleared (ht : s'.timers = []) (workers : Nat) :
    Timed s' { g with workers := workers, armed := [], fired := [], served := [] } := by
  refine ⟨by simp [ht], by simp, fun _ => rfl, fun _ => by simp [ht], fun _ => ht⟩

/-- Steps that leave timers and worker alone. -/
theorem Timed.same (h : Timed s g) (hw : s'.worker = s.worker) (ht : s'.timers = s.timers)
    (received : List (Event × Nat)) : Timed s' { g with received := received } := by
  refine ⟨by rw [ht]; exact h.perm, h.due, ?_, ?_, ?_⟩
  · rw [hw]
    exact h.quiet
  · rw [hw, ht]
    exact h.sorted
  · rw [hw, ht]
    exact h.clear

/-- Steps in a batch, but for those of the policy. -/
theorem Timed.inBatch (h : Timed s g) (hw : phase s'.worker ≠ .outside)
    (ht : s'.timers = s.timers) (handed : List (Event × Nat)) (loop : List LoopStep) :
    Timed s' { g with handed := handed, loop := loop } := by
  refine ⟨by rw [ht]; exact h.perm, h.due, fun hp => absurd hp hw, fun hp => ?_, fun hp => ?_⟩
  all_goals
    rw [hp] at hw
    exact absurd rfl hw

/-- A wake pops timers that have expired. -/
theorem Timed.wake (h : Timed s g) {now : TimePoint} (hw : phase s'.worker ≠ .outside)
    (ht : s.timers = popped now s ++ s'.timers) (hdue : ∀ t ∈ popped now s, t ≤ now)
    (loop : List LoopStep) :
    Timed s' { g with
      loop := loop, fired := g.fired ++ (popped now s).map fun t => (t, now) } := by
  refine ⟨?_, ?_, fun hp => absurd hp hw, fun hp => ?_, fun hp => ?_⟩
  · refine List.perm_iff_count.2 fun t => ?_
    have hcount := h.perm.count_eq t
    rw [ht] at hcount
    simp only [List.map_append, List.map_map, Function.comp_def, List.map_id',
      List.count_append] at hcount ⊢
    omega
  · intro p hp
    simp only [List.append_assoc, List.mem_append, List.mem_map] at hp
    rcases hp with hp | ⟨t, ht, rfl⟩ | hp
    · exact h.due p (List.mem_append_left _ hp)
    · exact hdue t ht
    · exact h.due p (List.mem_append_right _ hp)
  all_goals
    rw [hp] at hw
    exact absurd rfl hw

/-- After a `Reschedule` the timers that have been popped are served. -/
theorem Timed.sched (h : Timed s g) {calls : List Callback}
    (ht : s'.timers.Perm (s.timers ++ Sched.armed calls))
    (hsorted : s'.worker = .waiting → s'.timers.Pairwise (· ≤ ·)) (hw : s'.worker ≠ .stopped)
    (loop : List LoopStep) :
    Timed s' { g with
      loop := loop
      armed := g.armed ++ Sched.armed calls
      served := g.served ++ g.fired
      fired := [] } := by
  refine ⟨?_, fun p hp => ?_, fun _ => rfl, hsorted, fun hp => absurd hp hw⟩
  · refine List.perm_iff_count.2 fun t => ?_
    have hcount := h.perm.count_eq t
    have hnew := ht.count_eq t
    simp only [List.map_append, List.nil_append, List.count_append] at hcount hnew ⊢
    omega
  · simp only [List.nil_append, List.mem_append] at hp
    exact h.due p (List.mem_append.2 hp.symm)

/-- The loop goes on as it is to. -/
theorem loop_snoc (h : g.loop.foldlM Phase.next .outside = some (phase s.worker)) {l : LoopStep}
    (hnext : (phase s.worker).next l = some (phase s'.worker)) :
    (g.loop ++ [l]).foldlM Phase.next .outside = some (phase s'.worker) := by
  rw [List.foldlM_append, h]
  simp [hnext]

theorem inv_joined {next : Option XPolicyType} (hi : Inv (s, g))
    (hw : s.worker = .stopped ∨ s.worker = .returned) :
    Inv (s.joined next, { g with
      workers := if next.isSome then g.workers + 1 else g.workers
      armed := []
      fired := []
      served := [] }) := by
  have hloop := hi.loop
  have hout : phase s.worker = .outside := by rcases hw with hw | hw <;> rw [hw] <;> rfl
  dsimp only at hloop
  rw [hout] at hloop
  cases next with
  | none =>
    have hevents : Accounted (s.joined none) { g with armed := [], fired := [], served := [] } :=
      hi.events.stopped hw (by rfl) (by rfl) [] [] []
    exact ⟨hevents, hloop, Timed.cleared rfl _⟩
  | some type =>
    have hevents : Accounted (s.joined (some type))
        { g with workers := g.workers + 1, armed := [], fired := [], served := [] } :=
      hi.events.started hw (by rfl) (by rfl) [] [] []
    exact ⟨hevents, hloop, Timed.cleared rfl _⟩

/-- What is received changes the queue only. -/
theorem inv_received (hi : Inv (s, g)) (e : Event) (control : Control) :
    Inv ({ s with eventQueue := s.eventQueue ++ [e], control := control },
      if e.terminates then g else { g with received := g.received ++ [(e, g.workers)] }) := by
  refine ⟨hi.events.received e control, ?_, ?_⟩
  · split <;> exact hi.loop
  · split
    · exact hi.timers.same (by rfl) (by rfl) g.received
    · exact hi.timers.same (by rfl) (by rfl) _

/-- The first half of `Stop`. -/
theorem inv_stopThen {next : Option XPolicyType} {act : SchedAct} (hi : Inv (s, g))
    (hclears : clears s act = decide (s.worker = .stopped))
    (hrestarts : s.worker = .stopped → s.restarts act = next.isSome) :
    Inv (s.stopThen next, if clears s act then
      { g with
        workers := if s.restarts act then g.workers + 1 else g.workers
        armed := []
        fired := []
        served := [] } else g) := by
  rw [hclears]
  rcases stopThen_eq next s with ⟨hw, he⟩ | ⟨hw, he⟩
  · rw [he, if_pos (decide_eq_true hw), hrestarts hw]
    exact inv_joined hi (Or.inl hw)
  · rw [he, if_neg (by simpa using hw)]
    exact inv_received hi (.schedulerTerminate kServerPid) (.joining next)

theorem inv_started (hi : Inv (s, g)) (hw : s.worker = .stopped) :
    Inv ({ s with worker := .waiting }, { g with workers := g.workers + 1 }) := by
  have hevents : Accounted { s with worker := .waiting } { g with workers := g.workers + 1 } :=
    hi.events.started (Or.inl hw) (by rfl) (by rfl) g.armed g.fired g.served
  have hloop := hi.loop
  have hquiet := hi.timers.quiet
  dsimp only at hloop hquiet
  rw [hw] at hloop hquiet
  refine ⟨hevents, hloop, hi.timers.perm, hi.timers.due, hquiet, fun _ => ?_, fun hc => by cases hc⟩
  change s.timers.Pairwise _
  rw [hi.timers.clear hw]
  exact .nil

theorem inv_woken (hi : Inv (s, g)) {now : TimePoint} (hw : s.worker = .waiting)
    (h : s.wake now = some s') : Inv (s', record s (.wake now) s' g) := by
  obtain ⟨hw', hq, ht, hdue⟩ := wake_some h
  refine ⟨hi.events.wake hw hw' hq _ _, loop_snoc hi.loop ?_, hi.timers.wake ?_ ht hdue _⟩
  · dsimp only
    rw [hw, hw']
    rfl
  · rw [hw']
    simp [phase]

theorem inv_updated (hi : Inv (s, g)) {now : TimePoint} {e : Event} {tmp : List Event} {b : Bool}
    (hw : s.worker = .processing (e :: tmp) b) (h : s.update now e tmp b = some s') :
    Inv (s', record s (.update now) s' g) := by
  cases he : e.terminates with
  | true =>
    have hs' := update_terminates he h
    subst hs'
    simp only [record, hw, he, if_true]
    refine ⟨hi.events.same (by rw [hw]; simp) ?_ (by rfl) g.loop g.armed g.fired g.served, ?_,
      hi.timers.inBatch (by simp [phase]) (by rfl) g.handed g.loop⟩
    · dsimp only
      rw [hw]
      simp [batch, he]
    · have hloop := hi.loop
      dsimp only at hloop
      rw [hw] at hloop
      exact hloop
  | false =>
    obtain ⟨hworker, hq, ht⟩ := update_handed he h
    simp only [record, hw, he, Bool.false_eq_true, if_false]
    have hpc := handedPc_cases e tmp b
    rw [← hworker] at hpc
    have hnext : (phase s.worker).next (.handed e) = some (phase s'.worker) := by
      rw [hw, hworker, handedPc]
      cases hr : e.readies <;> simp [phase, Phase.next, hr]
    have hbatch : phase s'.worker ≠ .outside := by
      rcases hpc with hpc | hpc <;> rw [hpc] <;> simp [phase]
    exact ⟨hi.events.handed hw he hpc hq _, loop_snoc hi.loop hnext,
      hi.timers.inBatch hbatch ht _ _⟩

/-- The `Reschedule` at the end of a batch. -/
theorem inv_finished (hi : Inv (s, g)) (calls : List Callback) {b : Bool}
    (hw : s.worker = .processing [] b)
    (hperm : (s.finish calls b).timers.Perm (s.timers ++ Sched.armed calls)) :
    Inv (s.finish calls b, record s (.sched calls) (s.finish calls b) g) := by
  have hout : phase (s.finish calls b).worker = .outside := by
    cases b <;> rfl
  refine ⟨hi.events.same (by rw [hw]; simp) ?_ ?_ _ _ _ _, loop_snoc hi.loop ?_,
    hi.timers.sched hperm (fun _ => List.pairwise_insertionSort _ _) ?_ _⟩
  · dsimp only
    rw [hw]
    cases b <;> rfl
  · exact (callbacks_frame calls s).1
  · rw [hout]
    dsimp only
    rw [hw]
    rfl
  · cases b <;> simp [finish]

/-- The `Reschedule` after a Ready event. -/
theorem inv_rescheduled (hi : Inv (s, g)) (calls : List Callback) {tmp : List Event} {b : Bool}
    (hw : s.worker = .ready tmp b)
    (hs' : s' = { s.reschedule calls with worker := .processing tmp b })
    (hperm : s'.timers.Perm (s.timers ++ Sched.armed calls)) :
    Inv (s', record s (.sched calls) s' g) := by
  subst hs'
  refine ⟨hi.events.same (by rw [hw]; simp) ?_ ?_ _ _ _ _, loop_snoc hi.loop ?_,
    hi.timers.sched hperm (fun hc => by cases hc) (fun hc => by cases hc) _⟩
  · dsimp only
    rw [hw]
    rfl
  · exact (callbacks_frame calls s).1
  · dsimp only
    rw [hw]
    rfl

theorem inv_step {act : SchedAct} (hi : Inv (s, g)) (h : step s act = some s') :
    Inv (s', record s act s' g) := by
  cases act with
  | run =>
    simp only [step] at h
    split at h <;> cases h
    rename_i hw
    exact inv_started hi hw.1
  | recvEvent e =>
    cases h
    exact inv_received hi e s.control
  | setPolicy type =>
    simp only [step] at h
    split at h
    · cases h
    · split at h
      · rename_i ht
        cases h
        have hclears : clears s (.setPolicy type) = false := by simp [clears, ht]
        simp only [record, hclears]
        exact hi
      · rename_i ht
        cases h
        exact inv_stopThen hi (by simp [clears, ht]) (fun hw => by simp [restarts, hw, ht])
  | stop =>
    simp only [step] at h
    split at h
    · cases h
    · cases h
      exact inv_stopThen hi rfl (fun _ => rfl)
  | join =>
    simp only [step] at h
    split at h
    · rename_i next hc hw
      cases h
      have hrestarts : s.restarts .join = next.isSome := by simp only [restarts, hc]
      simp only [record, clears, if_true, hrestarts]
      exact inv_joined hi (Or.inr hw)
    · cases h
  | wake now =>
    cases works_cases rfl h with
    | woken hw h => exact inv_woken hi hw h
  | update now =>
    cases works_cases rfl h with
    | updated hw h => exact inv_updated hi hw h
  | sched calls =>
    have hperm := timers_sched h
    cases works_cases rfl h with
    | finished hw => exact inv_finished hi calls hw hperm
    | rescheduled hw => exact inv_rescheduled hi calls hw rfl hperm

theorem inv_logged {s : LocalScheduler × LoopLog} (hr : logged.Reachable s) : Inv s := by
  refine LTS.recorded_induction (I := fun s g => Inv (s, g)) ?_ ?_ hr
  · intro s hs
    obtain ⟨type, rfl⟩ := hs
    exact inv_init type
  · exact fun s act s' g _ hi h => inv_step hi h

/-! ## What the invariant says -/

theorem map_fst_handedBy {rs hs : List (Event × Nat)} (h : List.Forall₂ HandedBy rs hs) :
    rs.map Prod.fst = hs.map Prod.fst := by
  induction h with
  | nil => rfl
  | cons hrh _ ih => rw [List.map_cons, List.map_cons, ih, hrh.1]

theorem Accounted.in_order (h : Accounted s g) :
    g.received.map Prod.fst =
        g.handed.map Prod.fst ++ s.pending.filter (fun e => !e.terminates) ∧
      List.Forall₂ HandedBy (g.received.take g.handed.length) g.handed := by
  obtain ⟨done, inBatch, inQueue, hsplit, hhanded, hbatch, hqueue, -, -⟩ := h.split
  constructor
  · rw [hsplit, pending_eq, List.map_append, List.map_append, List.filter_append,
      map_fst_handedBy hhanded, hbatch, hqueue]
  · rw [hsplit, ← hhanded.length_eq, List.take_left']
    · exact hhanded
    · rfl

/-- The worker waits for the least of its timers. -/
theorem Timed.deadline (h : Timed s g) (hw : s.worker = .waiting) :
    s.timers.head? = s.timers.min? := by
  have hsorted := h.sorted hw
  cases ht : s.timers with
  | nil => rfl
  | cons t ts =>
    rw [ht] at hsorted
    rw [List.head?_cons, eq_comm, List.min?_eq_some_iff]
    exact ⟨.head _, fun b hb => (List.mem_cons.1 hb).elim (fun he => he ▸ le_refl t)
      fun hb => List.rel_of_pairwise_cons hsorted hb⟩

/-- It goes on once there is an event or a timer has expired. -/
theorem Timed.wakes (h : Timed s g) (hw : s.worker = .waiting) (now : TimePoint) :
    (∃ s', step s (.wake now) = some s') ↔ s.eventQueue ≠ [] ∨ ∃ t ∈ s.timers, t ≤ now := by
  have hsorted := h.sorted hw
  simp only [step, hw, LocalScheduler.wake]
  cases hq : s.eventQueue with
  | cons e es => simp
  | nil =>
    cases ht : s.timers with
    | nil => simp
    | cons t ts =>
      rw [ht] at hsorted
      dsimp only
      split
      · rename_i hlt
        constructor
        · intro hc
          obtain ⟨_, hc⟩ := hc
          cases hc
        · intro hc
          obtain ⟨t', ht', hle⟩ := hc.resolve_left (by simp)
          rcases List.mem_cons.1 ht' with rfl | hmem
          · exact absurd hle (Nat.not_le.2 hlt)
          · exact absurd (Nat.le_trans (List.rel_of_pairwise_cons hsorted hmem) hle)
              (Nat.not_le.2 hlt)
      · rename_i hge
        exact ⟨fun _ => Or.inr ⟨t, .head _, Nat.not_lt.1 hge⟩, fun _ => ⟨_, rfl⟩⟩

/-! ## The way to the hand-over -/

/-- The steps of workers until the first `n` events of `pending` are handed
over: for each of them one and its `Reschedule`, with the end of a batch and a
wake in between. -/
def stepsTo : Nat → WorkerPc → Nat
  | 0, _ => 0
  | n + 1, .processing tmp _ => if n < tmp.length then 2 * n + 2 else 2 * n + 4
  | n + 1, .ready tmp _ => if n < tmp.length then 2 * n + 3 else 2 * n + 5
  | n + 1, .stopped => 2 * n + 3
  | n + 1, .waiting => 2 * n + 3
  | n + 1, .returned => 2 * n + 3

theorem stepsTo_le (n : Nat) (pc : WorkerPc) : stepsTo n pc ≤ 2 * n + 3 := by
  cases n with
  | zero => exact Nat.zero_le _
  | succ n =>
    unfold stepsTo
    repeat' split
    all_goals omega

theorem eq_zero_of_stepsTo {n : Nat} {pc : WorkerPc} (h : stepsTo n pc = 0) : n = 0 := by
  cases n with
  | zero => rfl
  | succ n =>
    unfold stepsTo at h
    repeat' split at h
    all_goals omega

/-- How many of the first `n` are to be handed over. -/
def owed (n : Nat) (s : LocalScheduler) : Nat :=
  (s.pending.take n).countP fun e => !e.terminates

theorem owed_append {n : Nat} {extra : List Event} (hn : n ≤ s.pending.length)
    (hp : s'.pending = s.pending ++ extra) : owed n s' = owed n s := by
  unfold owed
  rw [hp, List.take_append_of_le_length hn]

/-- What other threads do. -/
inductive OthersCases (s : LocalScheduler) : SchedAct → LocalScheduler → Prop
  | run (hw : s.worker = .stopped) : OthersCases s .run { s with worker := .waiting }
  | received {act : SchedAct} {e : Event} {control : Control} (hclears : clears s act = false) :
    OthersCases s act { s with eventQueue := s.eventQueue ++ [e], control := control }
  | same {act : SchedAct} (hclears : clears s act = false) : OthersCases s act s
  | joined {act : SchedAct} {next : Option XPolicyType}
      (hw : s.worker = .stopped ∨ s.worker = .returned) (hclears : clears s act = true) :
    OthersCases s act (s.joined next)

theorem others_stopThen {act : SchedAct} (next : Option XPolicyType)
    (hclears : clears s act = decide (s.worker = .stopped)) :
    OthersCases s act (s.stopThen next) := by
  rcases stopThen_eq next s with ⟨hw, he⟩ | ⟨hw, he⟩
  · rw [he]
    exact .joined (Or.inl hw) (by rw [hclears]; exact decide_eq_true hw)
  · rw [he]
    exact .received (by rw [hclears]; exact decide_eq_false hw)

theorem others_cases {act : SchedAct} (hact : works act = false) (h : step s act = some s') :
    OthersCases s act s' := by
  cases act with
  | run =>
    simp only [step] at h
    split at h <;> cases h
    rename_i hw
    exact .run hw.1
  | recvEvent e =>
    cases h
    exact .received rfl
  | setPolicy type =>
    simp only [step] at h
    split at h
    · cases h
    · split at h
      · rename_i ht
        cases h
        exact .same (by simp [clears, ht])
      · rename_i ht
        cases h
        exact others_stopThen (some type) (by simp [clears, ht])
  | stop =>
    simp only [step] at h
    split at h <;> cases h
    exact others_stopThen none rfl
  | join =>
    simp only [step] at h
    split at h
    · rename_i next _ hw
      cases h
      exact .joined (Or.inr hw) rfl
    · cases h
  | _ => cases hact

/-- Other threads put events behind those that are pending. -/
theorem others_step {act : SchedAct} (hact : works act = false) (h : step s act = some s') :
    (∃ extra, s'.pending = s.pending ++ extra) ∧
      ∀ n, stepsTo n s'.worker = stepsTo n s.worker := by
  cases others_cases hact h with
  | run hw => exact ⟨⟨[], by simp [pending, hw]⟩, fun n => by rw [hw]; cases n <;> rfl⟩
  | received => exact ⟨⟨_, pending_append rfl rfl⟩, fun n => rfl⟩
  | same => exact ⟨⟨[], (List.append_nil _).symm⟩, fun n => rfl⟩
  | @joined act next hw hclears =>
    refine ⟨⟨[], ?_⟩, fun n => ?_⟩
    · rcases hw with hw | hw <;> cases next <;> simp [pending, joined, hw]
    · rcases hw with hw | hw <;> cases next <;> rw [hw] <;> cases n <;> rfl

theorem others_handed {act : SchedAct} (hact : works act = false) (s s' : LocalScheduler)
    (g : LoopLog) : (record s act s' g).handed = g.handed := by
  cases act with
  | run => rfl
  | wake | update | sched => cases hact
  | _ =>
    simp only [record]
    split <;> rfl

/-- A step of the worker brings it nearer. -/
theorem works_step {act : SchedAct} (hact : works act = true) (h : step s act = some s')
    {n : Nat} (hn : n ≤ s.pending.length) :
    ∃ m ≤ s'.pending.length, stepsTo m s'.worker ≤ stepsTo n s.worker - 1 ∧
      g.handed.length + owed n s ≤ (record s act s' g).handed.length + owed m s' := by
  cases works_cases hact h with
  | woken hw h =>
    obtain ⟨hw', hq, -, -⟩ := wake_some h
    have hp : s'.pending = s.pending := by
      rw [pending_eq, pending_eq, hw, hw', hq]
      simp [batch]
    refine ⟨n, by rw [hp]; exact hn, ?_, by unfold owed; rw [hp]; exact Nat.le_refl _⟩
    rw [pending_eq, hw] at hn
    rw [hw, hw']
    cases n with
    | zero => exact Nat.zero_le _
    | succ n =>
      have hlt : n < s.eventQueue.length := hn
      simp [stepsTo, hlt]
  | @updated now e tmp b s' hw h =>
    obtain ⟨hw', hq⟩ := update_pc h
    have hp : s.pending = e :: s'.pending := by
      rw [pending_eq, pending_eq, hw, hq]
      rcases hw' with ⟨b', hw'⟩ | ⟨b', hw'⟩ <;> rw [hw'] <;> rfl
    have hhanded : (record s (.update now) s' g).handed.length =
        g.handed.length + [e].countP fun e => !e.terminates := by
      simp only [record, hw]
      cases he : e.terminates <;> simp [he]
    rw [hhanded]
    cases n with
    | zero => exact ⟨0, Nat.zero_le _, Nat.zero_le _, by simp [owed]⟩
    | succ n =>
      rw [hp] at hn
      refine ⟨n, Nat.le_of_succ_le_succ hn, ?_, ?_⟩
      · rcases hw' with ⟨b', hw'⟩ | ⟨b', hw'⟩ <;> rw [hw, hw'] <;> cases n <;>
          simp only [stepsTo, List.length_cons] <;> grind
      · unfold owed
        rw [hp, List.take_succ_cons, List.countP_cons, List.countP_cons, List.countP_nil]
        omega
  | @finished calls b hw =>
    have hp : (s.finish calls b).pending = s.pending := by
      rw [pending_eq, pending_eq, hw]
      cases b <;> exact (callbacks_frame calls s).1
    refine ⟨n, by rw [hp]; exact hn, ?_, by unfold owed; rw [hp]; exact Nat.le_refl _⟩
    rw [hw]
    cases n <;> cases b <;> simp [stepsTo, finish]
  | @rescheduled calls tmp b hw =>
    have hp : pending { s.reschedule calls with worker := .processing tmp b } = s.pending := by
      rw [pending_eq, pending_eq, hw]
      exact congrArg (tmp ++ ·) (callbacks_frame calls s).1
    refine ⟨n, by rw [hp]; exact hn, ?_, by unfold owed; rw [hp]; exact Nat.le_refl _⟩
    rw [hw]
    cases n with
    | zero => exact Nat.zero_le _
    | succ n =>
      simp only [stepsTo]
      split <;> omega

/-- What has been received is handed over within so many steps of the worker. -/
theorem handed_within {acts : List SchedAct} {t : LocalScheduler × LoopLog}
    (hrun : LTS.exec (LTS.recording step record) (s, g) acts = some t) {n : Nat}
    (hn : n ≤ s.pending.length) (hsteps : stepsTo n s.worker ≤ acts.countP works) :
    g.handed.length + owed n s ≤ t.2.handed.length := by
  induction acts generalizing s g n with
  | nil =>
    cases hrun
    obtain rfl := eq_zero_of_stepsTo (Nat.le_zero.1 hsteps)
    simp [owed]
  | cons act acts ih =>
    simp only [LTS.exec, Option.bind_eq_some_iff] at hrun
    obtain ⟨⟨s', g'⟩, hstep, hrest⟩ := hrun
    obtain ⟨h, hg⟩ := LTS.recording_eq_some.1 hstep
    dsimp only at h hg
    subst hg
    rw [List.countP_cons] at hsteps
    cases hact : works act with
    | true =>
      rw [hact, if_pos rfl] at hsteps
      obtain ⟨m, hm, hless, hle⟩ := works_step (g := g) hact h hn
      exact hle.trans (ih hrest hm (by omega))
    | false =>
      rw [hact, if_neg Bool.false_ne_true] at hsteps
      obtain ⟨⟨extra, hp⟩, hsame⟩ := others_step hact h
      have hlen : n ≤ s'.pending.length := by
        rw [hp, List.length_append]
        exact hn.trans (Nat.le_add_right ..)
      rw [← owed_append hn hp, ← others_handed hact s s' g]
      exact ih hrest hlen (by rw [hsame]; exact hsteps)

/-- A worker of the scheduler that waits goes on once there is an event or a
timer has expired. -/
theorem wakes_reachable (hr : lts.Reachable s) (hw : s.worker = .waiting) (now : TimePoint) :
    (∃ s', step s (.wake now) = some s') ↔ s.eventQueue ≠ [] ∨ ∃ t ∈ s.timers, t ≤ now := by
  obtain ⟨g, hg⟩ := LTS.exists_recorded (fun _ => start) record hr
  have hg' : logged.Reachable (s, g) := hg
  exact (inv_logged hg').timers.wakes hw now

/-- In a batch the worker goes on by itself, unless `UpdateStatus` fails an
assertion. -/
theorem in_batch (hw : phase s.worker ≠ .outside) (now : TimePoint) (calls : List Callback) :
    (step s (.update now)).isSome ∨ (step s (.sched calls)).isSome ∨
      ∃ e tmp b, s.worker = .processing (e :: tmp) b ∧ s.status.updateStatus now e = none := by
  cases hpc : s.worker with
  | stopped | waiting | returned =>
    rw [hpc] at hw
    exact absurd rfl hw
  | ready tmp b =>
    refine Or.inr (Or.inl ?_)
    simp [step, hpc]
  | processing tmp b =>
    cases tmp with
    | nil =>
      refine Or.inr (Or.inl ?_)
      simp [step, hpc]
    | cons e tmp =>
      cases hu : s.status.updateStatus now e with
      | none => exact Or.inr (Or.inr ⟨e, tmp, b, rfl, hu⟩)
      | some status =>
        refine Or.inl ?_
        simp only [step, hpc]
        cases e <;> simp [update, hu]

end

end LoopLog

open LoopLog in
/-- **The event loop loses nothing.** The events received are those handed over
and those that are still to come, in this order; each is handed over by the
worker of its time or the next one, and all that have been received once the
workers have made so many steps more. The loop goes as `Phase.next` has it, with
a `Reschedule` for each Ready event and each batch. A timer of the policy is
either kept or popped when it has expired, and a worker that waits has made a
`Reschedule` for each of the latter; it waits for the least of the former, and
goes on if an event is there or one of them has expired. -/
theorem event_loop {s : LocalScheduler} {g : LoopLog} (hr : logged.Reachable (s, g)) :
    (g.received.map Prod.fst =
        g.handed.map Prod.fst ++ s.pending.filter (fun e => !e.terminates) ∧
      List.Forall₂ HandedBy (g.received.take g.handed.length) g.handed ∧
      ∀ acts t, LTS.exec (LTS.recording step record) (s, g) acts = some t →
        2 * s.pending.length + 3 ≤ acts.countP works → g.received.length ≤ t.2.handed.length) ∧
    g.loop.foldlM Phase.next .outside = some (phase s.worker) ∧
    ((s.timers ++ (g.fired ++ g.served).map Prod.fst).Perm g.armed ∧
      (∀ p ∈ g.fired ++ g.served, p.1 ≤ p.2) ∧
      (s.worker = .waiting → g.fired = [] ∧ s.timers.head? = s.timers.min? ∧
        ∀ now, (∃ s', step s (.wake now) = some s') ↔
          s.eventQueue ≠ [] ∨ ∃ t ∈ s.timers, t ≤ now)) ∧
    (phase s.worker ≠ .outside → ∀ now calls,
      (step s (.update now)).isSome ∨ (step s (.sched calls)).isSome ∨
        ∃ e tmp b, s.worker = .processing (e :: tmp) b ∧ s.status.updateStatus now e = none) := by
  have hi := inv_logged hr
  have hevents := hi.events.in_order
  refine ⟨⟨hevents.1, hevents.2, fun acts t hrun hcount => ?_⟩, hi.loop, ⟨hi.timers.perm,
    hi.timers.due, fun hw => ⟨?_, hi.timers.deadline hw, hi.timers.wakes hw⟩⟩, in_batch⟩
  · have hlen := congrArg List.length hevents.1
    rw [List.length_append, List.length_map, List.length_map] at hlen
    have howed : owed s.pending.length s =
        (s.pending.filter fun e => !e.terminates).length := by
      rw [owed, List.take_length, List.countP_eq_length_filter]
    have hle := handed_within hrun (Nat.le_refl _) ((stepsTo_le _ _).trans hcount)
    rw [howed, ← hlen] at hle
    exact hle
  · refine hi.timers.quiet ?_
    dsimp only
    rw [hw]
    rfl

/-- Hints come before and after the terminate event and when the worker is past
its batch; the last is left to the next worker, whose policy arms two timers. -/
def restartTrace : List SchedAct :=
  [.run, .recvEvent (.hint 1), .stop, .recvEvent (.hint 2), .wake 5, .update 5, .update 5,
   .recvEvent (.hint 3), .update 5, .sched [.addTimer 20], .join, .run, .wake 8, .update 8,
   .sched [.addTimer 40, .addTimer 30]]

theorem event_loop_restart : ∃ s g, logged.Reachable (s, g) ∧ s.worker = .waiting ∧
    g.handed = [(.hint 1, 1), (.hint 2, 1), (.hint 3, 2)] ∧
    s.timers = [30, 40] ∧ s.timers.head? = s.timers.min? := by
  have htrace : ((LTS.exec (LTS.recording step LoopLog.record)
      (init .kPolicyHighestPriorityFirst, .start) restartTrace).map fun t =>
        (t.1.worker, t.1.timers, t.2.handed)) =
      some (.waiting, [30, 40], [(.hint 1, 1), (.hint 2, 1), (.hint 3, 2)]) := by decide
  obtain ⟨⟨s, g⟩, hs, he⟩ := Option.map_eq_some_iff.1 htrace
  simp only [Prod.mk.injEq] at he
  have hr : logged.Reachable (s, g) := LTS.reachable_of_exec ⟨⟨_, rfl⟩, rfl⟩ hs
  exact ⟨s, g, hr, he.1, he.2.2, he.2.1, ((event_loop hr).2.2.1.2.2 he.1).2.1⟩

end LocalScheduler
end Xsched.Sched
