import Xsched.Sched.Local

/-!
# What a dead process leaves in the scheduler

The server has one channel for the messages of all clients; `RecvWorker`
forwards them in order to its `LocalScheduler`. A client that exits without
a `ProcessDestroyEvent` is reported by the `PidWaiter`: its callback
`ProcessTerminate` puts a `ProcessDestroyEvent` into the scheduler's queue,
from the waiter's thread, or from `AddWait` itself when the process is
gone by then. The two paths meet only in the queue of the scheduler.

**The break.** The report overtakes the messages that are still in the channel,
and an event of an unknown XQueue makes an entry. So a message of the process
that is forwarded behind the report brings back an entry that nothing removes
any more: the process sends no `ProcessDestroyEvent` and is reported once.
`AddWait` comes before the `ProcessCreateEvent` is forwarded, so a report out
of `AddWait` always has that event behind it.

**The argument.** `leaves pid b es` says whether the events `es` may leave an
entry of `pid`, when one may be there before (`b`). Every step keeps, for a
process that is dead and reported, that the events under way leave none
(`CleanInv`): it sends nothing more, an update takes the first of the events
(`leaves_update`), and what the other threads put in between only removes.

**Results.**
* `no_ghosts`: while a report finds no message in the channel that would make
  an entry again (`Clean`), a process that is dead and reported, with nothing
  of it under way, has no entry of either kind.
* `ghost_entry`: a Ready event behind the report.
-/
namespace Xsched.Sched

/-- Where `RecvWorker` is. -/
inductive RecvPc where
  | receiving
  /-- At `pid_waiter_->AddWait` for a `ProcessCreateEvent`. -/
  | adding (pid : PID) (cmdline : String)
  /-- At `scheduler_->RecvEvent(e)`. -/
  | forwarding (e : Event)
  deriving DecidableEq

/-- `waits` is the `PidWaiter`'s set of pids; `dead` the processes that have
died (a pid is not used again); `reported`, ghost, those the `PidWaiter` has
called `ProcessTerminate` for. -/
structure Server where
  chan : List Event
  recvWorker : RecvPc
  waits : PID → Bool
  dead : PID → Bool
  reported : PID → Bool
  scheduler : LocalScheduler

inductive ServerAct where
  /-- A live process sends a message. -/
  | send (e : Event)
  | die (pid : PID)
  | recv
  /-- `gone`: `pidfd_open` finds no process (`ESRCH`), so it is dead. -/
  | addWait (gone : Bool)
  | forward
  /-- The `PidWaiter`'s thread finds that a process has died. -/
  | terminated (pid : PID)
  | sendHint
  | sched (act : SchedAct)
  deriving DecidableEq

namespace LocalScheduler

/-- Put an event into the queue.
mirrors sched/src/scheduler/local.cpp:42-48 -/
def push (e : Event) (s : LocalScheduler) : LocalScheduler :=
  { s with eventQueue := s.eventQueue ++ [e] }

end LocalScheduler

namespace Server

def init (type : XPolicyType) : Server :=
  ⟨[], .receiving, fun _ => false, fun _ => false, fun _ => false, .init type⟩

/-- The client channels, which only `Execute` reads, are left out.
mirrors service/server/src/server.cpp:159-164 -/
def processTerminate (pid : PID) (s : Server) : Server :=
  { s with scheduler := s.scheduler.push (.processDestroy pid) }

/-- The `PidWaiter`'s callback. -/
def report (pid : PID) (s : Server) : Server :=
  { s.processTerminate pid with reported := Function.update s.reported pid true }

/-- mirrors service/server/src/server.cpp:90-164 and
utils/src/waitpid.cpp:88-151 -/
def step (s : Server) : ServerAct → Option Server
  | .send e =>
    match e with
    | .schedulerTerminate _ => none
    | e => if s.dead e.pid then none else some { s with chan := s.chan ++ [e] }
  | .die pid => some { s with dead := Function.update s.dead pid true }
  | .recv =>
    match s.recvWorker, s.chan with
    | .receiving, .processCreate pid cmdline :: chan =>
      some { s.processTerminate pid with chan, recvWorker := .adding pid cmdline }
    | .receiving, e :: chan => some { s with chan, recvWorker := .forwarding e }
    | _, _ => none
  | .addWait gone =>
    match s.recvWorker with
    | .adding pid cmdline =>
      if gone then
        if s.dead pid then
          some { s.report pid with recvWorker := .forwarding (.processCreate pid cmdline) }
        else none
      else some { s with
        waits := Function.update s.waits pid true
        recvWorker := .forwarding (.processCreate pid cmdline) }
    | _ => none
  | .forward =>
    match s.recvWorker with
    | .forwarding e => some { s with scheduler := s.scheduler.push e, recvWorker := .receiving }
    | _ => none
  | .terminated pid =>
    if s.waits pid ∧ s.dead pid then
      some { s.report pid with waits := Function.update s.waits pid false }
    else none
  | .sendHint => some { s with scheduler := s.scheduler.push (.hint kServerPid) }
  | .sched act =>
    match act with
    | .recvEvent _ => none
    | act => (s.scheduler.step act).map fun scheduler => { s with scheduler }

def lts : LTS Server ServerAct := .ofFn (fun s => ∃ type, s = init type) step

/-- The message that `RecvWorker` has taken from the channel. -/
def held (s : Server) : List Event :=
  match s.recvWorker with
  | .receiving => []
  | .adding pid cmdline => [.processCreate pid cmdline]
  | .forwarding e => [e]

/-- The messages that are not in the scheduler yet. -/
def unforwarded (s : Server) : List Event := s.held ++ s.chan

/-- The events under way to `UpdateStatus`, first those it sees first. -/
def inFlight (s : Server) : List Event := s.scheduler.pending ++ s.unforwarded

/-- A process that has died and was reported, with all its messages processed,
has no entry. -/
def NoGhosts (s : Server) : Prop :=
  ∀ pid, s.dead pid = true → s.reported pid = true → (∀ e ∈ s.inFlight, e.pid ≠ pid) →
    s.scheduler.status.processStatus.lookup pid = none ∧
    ∀ h q, s.scheduler.status.xqueueStatus.lookup h = some q → q.pid ≠ pid

end Server

/-! ## What a list of events leaves of a process -/

/-- Whether `pid` may have an entry after the event. -/
def leavesStep (pid : PID) (b : Bool) (e : Event) : Bool :=
  if e = .processDestroy pid then false else b || (e.pid = pid && e.creates)

/-- Whether the events may leave an entry of `pid`. -/
def leaves (pid : PID) (b : Bool) (es : List Event) : Bool := es.foldl (leavesStep pid) b

section
variable {pid : PID} {b : Bool}

theorem leaves_append (es es' : List Event) :
    leaves pid b (es ++ es') = leaves pid (leaves pid b es) es' := List.foldl_append

/-- With an entry less at the start there is none more at the end. -/
theorem leaves_mono {b' : Bool} (hb : b' = true → b = true) {es : List Event}
    (h : leaves pid b es = false) : leaves pid b' es = false := by
  induction es generalizing b b' with
  | nil =>
    cases b' with
    | false => rfl
    | true => rw [← h]; exact (hb rfl).symm
  | cons e es ih =>
    refine ih (b := leavesStep pid b e) ?_ h
    unfold leavesStep
    split
    · exact id
    · simp only [Bool.or_eq_true]
      exact Or.imp_left hb

/-- Events of other processes change nothing. -/
theorem leaves_others {es : List Event} (h : ∀ e ∈ es, e.pid ≠ pid) : leaves pid b es = b := by
  induction es generalizing b with
  | nil => rfl
  | cons e es ih =>
    have he : leavesStep pid b e = b := by
      have hne := h e List.mem_cons_self
      unfold leavesStep
      split
      · rename_i hd; subst hd; exact absurd rfl hne
      · simp [hne]
    change leaves pid (leavesStep pid b e) es = b
    rw [he]
    exact ih fun e' he' => h e' (List.mem_cons_of_mem _ he')

/-- An event that makes no entry, put in anywhere, leaves none more. -/
theorem leaves_insert {e : Event} (he : e.creates = false) {es es' : List Event}
    (h : leaves pid b (es ++ es') = false) : leaves pid b (es ++ e :: es') = false := by
  rw [leaves_append] at h ⊢
  change leaves pid (leavesStep pid (leaves pid b es) e) es' = false
  refine leaves_mono ?_ h
  unfold leavesStep
  split
  · exact fun hf => by cases hf
  · simp [he]

/-- `UpdateStatus` on the first event. -/
theorem leaves_update {s s' : Status} {now : TimePoint} {e : Event} {es : List Event}
    (hu : s.updateStatus now e = some s')
    (h : leaves pid (decide (pid ∈ s.processStatus)) (e :: es) = false) :
    leaves pid (decide (pid ∈ s'.processStatus)) es = false := by
  refine leaves_mono (b := leavesStep pid (decide (pid ∈ s.processStatus)) e) ?_ h
  intro hm
  unfold leavesStep
  rcases Status.mem_updateStatus hu (of_decide_eq_true hm) with ⟨hm, hne⟩ | ⟨hpid, hc⟩
  · rw [if_neg hne]; simp [hm]
  · rw [if_neg]
    · simp [hpid, hc]
    · rintro rfl; cases hc

end

namespace LocalScheduler

/-- The scheduler's own steps leave no entry more. -/
theorem step_leaves {s s' : LocalScheduler} {act : SchedAct} {pid : PID} {es : List Event}
    (h : StepCases s act s') (hact : ∀ e, act ≠ .recvEvent e)
    (hl : leaves pid (decide (pid ∈ s.status.processStatus)) (s.pending ++ es) = false) :
    leaves pid (decide (pid ∈ s'.status.processStatus)) (s'.pending ++ es) = false := by
  cases h with
  | run hw => simpa only [pending, hw] using hl
  | recvEvent e => exact absurd rfl (hact e)
  | samePolicy => exact hl
  | @stopping act next hr =>
    have hp : pending { s with
        eventQueue := s.eventQueue ++ [.schedulerTerminate kServerPid]
        control := .joining next } = s.pending ++ [.schedulerTerminate kServerPid] :=
      pending_append rfl rfl
    rw [hp, List.append_assoc]
    exact leaves_insert rfl hl
  | @joined act next hw hr =>
    have hq : s.pending = s.eventQueue := by
      rcases hw with hw | hw <;> simp only [pending, hw]
    rw [hq] at hl
    cases next with
    | none => exact hl
    | some type =>
      have hm : (pid ∈ s.status.resumeAll.processStatus) = (pid ∈ s.status.processStatus) :=
        propext (Status.mem_resumeKeys s.status _ pid)
      simpa only [joined, pending, hm] using hl
  | wake hw => simpa only [pending, hw, List.append_nil] using hl
  | @terminate now epid tmp b hw =>
    simp only [pending, hw] at hl
    refine leaves_mono ?_ hl
    simp [leavesStep, Event.creates]
  | update hw hu hpc =>
    simp only [pending, hw] at hl
    rcases hpc with rfl | rfl <;> exact leaves_update hu hl
  | @finish calls b hw =>
    simp only [pending, hw, List.nil_append] at hl
    obtain ⟨hq, -, hm⟩ := callbacks_frame calls s
    have hp : (s.finish calls b).pending = s.eventQueue := by
      rw [← hq]; cases b <;> rfl
    have hm' : (pid ∈ (s.finish calls b).status.processStatus) = (pid ∈ s.status.processStatus) :=
      propext (hm pid)
    simpa only [hp, hm'] using hl
  | @ready calls tmp b hw =>
    simp only [pending, hw] at hl
    obtain ⟨hq, -, hm⟩ := callbacks_frame calls s
    have hq' : (s.reschedule calls).eventQueue = s.eventQueue := hq
    have hm' : (pid ∈ (s.reschedule calls).status.processStatus) =
        (pid ∈ s.status.processStatus) := propext (hm pid)
    simpa only [pending, hq', hm'] using hl

end LocalScheduler

namespace Server

/-! ## What a step can do -/

inductive StepCases (s : Server) : ServerAct → Server → Prop
  | send (e : Event) (halive : s.dead e.pid = false) :
    StepCases s (.send e) { s with chan := s.chan ++ [e] }
  | die (pid : PID) : StepCases s (.die pid) { s with dead := Function.update s.dead pid true }
  | recvCreate {pid : PID} {cmdline : String} {chan : List Event}
      (hpc : s.recvWorker = .receiving) (hc : s.chan = .processCreate pid cmdline :: chan) :
    StepCases s .recv { s.processTerminate pid with
      chan := chan
      recvWorker := .adding pid cmdline }
  | recv {e : Event} {chan : List Event} (hpc : s.recvWorker = .receiving)
      (hc : s.chan = e :: chan) :
    StepCases s .recv { s with chan := chan, recvWorker := .forwarding e }
  | gone {pid : PID} {cmdline : String} (hpc : s.recvWorker = .adding pid cmdline)
      (hd : s.dead pid = true) :
    StepCases s (.addWait true) { s.report pid with
      recvWorker := .forwarding (.processCreate pid cmdline) }
  | addWait {pid : PID} {cmdline : String} (hpc : s.recvWorker = .adding pid cmdline) :
    StepCases s (.addWait false) { s with
      waits := Function.update s.waits pid true
      recvWorker := .forwarding (.processCreate pid cmdline) }
  | forward {e : Event} (hpc : s.recvWorker = .forwarding e) :
    StepCases s .forward { s with scheduler := s.scheduler.push e, recvWorker := .receiving }
  | terminated {pid : PID} (hd : s.dead pid = true) :
    StepCases s (.terminated pid) { s.report pid with waits := Function.update s.waits pid false }
  | sendHint : StepCases s .sendHint { s with scheduler := s.scheduler.push (.hint kServerPid) }
  | sched {act : SchedAct} {scheduler : LocalScheduler} (hact : ∀ e, act ≠ .recvEvent e)
      (hs : s.scheduler.step act = some scheduler) :
    StepCases s (.sched act) { s with scheduler := scheduler }

theorem step_cases {s s' : Server} {act : ServerAct} (h : step s act = some s') :
    StepCases s act s' := by
  cases act with
  | send e =>
    simp only [step] at h
    split at h
    · cases h
    · split at h
      · cases h
      · rename_i hd; cases h; exact .send _ (by simpa using hd)
  | die pid => cases h; exact .die pid
  | recv =>
    simp only [step] at h
    split at h
    · rename_i hpc hc; cases h; exact .recvCreate hpc hc
    · rename_i hpc hc; cases h; exact .recv hpc hc
    · cases h
  | addWait gone =>
    simp only [step] at h
    split at h
    · rename_i hpc
      cases gone with
      | false => cases h; exact .addWait hpc
      | true =>
        rw [if_pos rfl] at h
        split at h
        · rename_i hd; cases h; exact .gone hpc hd
        · cases h
    · cases h
  | forward =>
    simp only [step] at h
    split at h
    · rename_i hpc; cases h; exact .forward hpc
    · cases h
  | terminated pid =>
    simp only [step] at h
    split at h
    · rename_i hd; cases h; exact .terminated hd.2
    · cases h
  | sendHint => cases h; exact .sendHint
  | sched act =>
    simp only [step] at h
    split at h
    · cases h
    · rename_i hact
      obtain ⟨scheduler, hs, rfl⟩ := Option.map_eq_some_iff.1 h
      exact .sched hact hs

/-! ## Runs -/

section
variable {s s' : Server}

/-- The scheduler of the server runs as a `LocalScheduler`. -/
theorem scheduler_reachable (hr : lts.Reachable s) : LocalScheduler.lts.Reachable s.scheduler := by
  refine LTS.reachable_map (N := LocalScheduler.lts) scheduler ?_ ?_ hr
  · rintro s ⟨type, rfl⟩; exact ⟨type, rfl⟩
  · intro s act s' _ hs
    cases step_cases hs with
    | send | die | recv | addWait => exact Or.inl rfl
    | @recvCreate pid => exact Or.inr ⟨.recvEvent (.processDestroy pid), rfl⟩
    | @gone pid => exact Or.inr ⟨.recvEvent (.processDestroy pid), rfl⟩
    | @terminated pid => exact Or.inr ⟨.recvEvent (.processDestroy pid), rfl⟩
    | @forward e => exact Or.inr ⟨.recvEvent e, rfl⟩
    | sendHint => exact Or.inr ⟨.recvEvent (.hint kServerPid), rfl⟩
    | @sched act scheduler hact hstep => exact Or.inr ⟨act, hstep⟩

/-- The process whose death the step reports to the scheduler. -/
def reports (s : Server) : ServerAct → Option PID
  | .terminated pid => some pid
  | .addWait true =>
    match s.recvWorker with
    | .adding pid _ => some pid
    | _ => none
  | _ => none

/-- When the death of a process is reported, the messages that are not in the
scheduler yet leave no entry of it. -/
def Clean (s : Server) (act : ServerAct) : Prop :=
  ∀ pid ∈ s.reports act, leaves pid false s.unforwarded = false

instance (s : Server) (act : ServerAct) : Decidable (Clean s act) :=
  inferInstanceAs (Decidable (∀ pid ∈ s.reports act, leaves pid false s.unforwarded = false))

/-- What is under way leaves no entry of a process that was reported. -/
structure CleanInv (s : Server) : Prop where
  dead : ∀ pid, s.reported pid = true → s.dead pid = true
  clean : ∀ pid, s.reported pid = true →
    leaves pid (decide (pid ∈ s.scheduler.status.processStatus)) s.inFlight = false

/-- An event put into the scheduler's queue stands before what is still to be
forwarded. -/
theorem inFlight_push {e : Event} (hp : s'.scheduler = s.scheduler.push e) :
    s'.inFlight = s.scheduler.pending ++ e :: s'.unforwarded := by
  have hpend : s'.scheduler.pending = s.scheduler.pending ++ [e] := by
    rw [hp]; exact LocalScheduler.pending_append rfl rfl
  unfold inFlight
  rw [hpend, List.append_assoc]; rfl

/-- A report removes what is in the scheduler, and the rest leaves nothing. -/
theorem leaves_report {pid : PID} {b : Bool} {es es' : List Event}
    (h : leaves pid false es' = false) :
    leaves pid b (es ++ .processDestroy pid :: es') = false := by
  rw [leaves_append]
  change leaves pid (leavesStep pid (leaves pid b es) (.processDestroy pid)) es' = false
  rw [leavesStep, if_pos rfl]
  exact h

/-- The step that reports `pid`. -/
theorem CleanInv.report (hi : s.CleanInv) {pid : PID} (hd : s.dead pid = true)
    (hclean : leaves pid false s.unforwarded = false)
    (hs : s'.scheduler = s.scheduler.push (.processDestroy pid))
    (hu : s'.unforwarded = s.unforwarded) (hdead : s'.dead = s.dead)
    (hrep : s'.reported = Function.update s.reported pid true) : s'.CleanInv := by
  have hother : ∀ pid', s'.reported pid' = true → pid' = pid ∨ s.reported pid' = true := by
    intro pid' h
    rw [hrep] at h
    by_cases hp : pid' = pid
    · exact Or.inl hp
    · rw [Function.update_of_ne hp] at h; exact Or.inr h
  refine ⟨?_, ?_⟩
  · intro pid' h
    rw [hdead]
    rcases hother pid' h with rfl | h
    · exact hd
    · exact hi.dead pid' h
  · intro pid' h
    rw [inFlight_push hs, hu, hs]
    rcases hother pid' h with rfl | h
    · exact leaves_report hclean
    · exact leaves_insert rfl (hi.clean pid' h)

theorem cleanInv_step {act : ServerAct} (hi : s.CleanInv) (h : StepCases s act s')
    (hok : Clean s act) : s'.CleanInv := by
  cases h with
  | send e halive =>
    refine ⟨hi.dead, ?_⟩
    intro pid hrep
    have hfl : inFlight { s with chan := s.chan ++ [e] } = s.inFlight ++ [e] := by
      unfold inFlight unforwarded held
      simp
    have hne : e.pid ≠ pid := by
      rintro rfl
      rw [hi.dead _ hrep] at halive; cases halive
    rw [hfl, leaves_append, leaves_others (by simpa using hne)]
    exact hi.clean pid hrep
  | die pid =>
    refine ⟨?_, hi.clean⟩
    intro pid' hrep
    change Function.update s.dead pid true pid' = true
    rw [Function.update_apply]
    split
    · rfl
    · exact hi.dead pid' hrep
  | @recvCreate pid cmdline chan hpc hc =>
    refine ⟨hi.dead, ?_⟩
    intro pid' hrep
    have h := hi.clean pid' hrep
    rw [inFlight_push (s := s) rfl]
    refine leaves_insert rfl ?_
    simp only [inFlight, unforwarded, held, hpc, hc, List.nil_append] at h
    exact h
  | @recv e chan hpc hc =>
    refine ⟨hi.dead, ?_⟩
    intro pid' hrep
    have h := hi.clean pid' hrep
    simp only [inFlight, unforwarded, held, hpc, hc, List.nil_append] at h
    exact h
  | @gone pid cmdline hpc hd =>
    have hclean := hok pid (by simp [reports, hpc])
    refine hi.report hd hclean rfl ?_ rfl rfl
    simp only [unforwarded, held, hpc, Server.report, processTerminate]
  | @addWait pid cmdline hpc =>
    refine ⟨hi.dead, ?_⟩
    intro pid' hrep
    have h := hi.clean pid' hrep
    simpa only [inFlight, unforwarded, held, hpc] using h
  | @forward e hpc =>
    refine ⟨hi.dead, ?_⟩
    intro pid' hrep
    have h := hi.clean pid' hrep
    rw [inFlight_push (s := s) rfl]
    simp only [inFlight, unforwarded, held, hpc] at h
    exact h
  | @terminated pid hd =>
    exact hi.report hd (hok pid rfl) rfl rfl rfl rfl
  | sendHint =>
    refine ⟨hi.dead, ?_⟩
    intro pid' hrep
    rw [inFlight_push (s := s) rfl]
    exact leaves_insert rfl (hi.clean pid' hrep)
  | @sched act scheduler hact hstep =>
    exact ⟨hi.dead, fun pid' hrep => LocalScheduler.step_leaves
      (LocalScheduler.step_cases hstep) hact (hi.clean pid' hrep)⟩

theorem cleanInv_reachable (hr : (lts.restrict Clean).Reachable s) : s.CleanInv := by
  refine LTS.reachable_induction (I := CleanInv) ?_ ?_ hr
  · rintro s ⟨type, rfl⟩
    refine ⟨?_, ?_⟩
    · intro pid h; cases h
    · intro pid h; cases h
  · intro s act s' _ hi hs
    exact cleanInv_step hi (step_cases hs.1) hs.2

end

/-- **Dead processes leave no ghosts** while each report of a death finds no
message in the channel that would make an entry again. -/
theorem no_ghosts (s : Server) (hr : (lts.restrict Clean).Reachable s) : s.NoGhosts := by
  intro pid _ hrep hdone
  have hl := (cleanInv_reachable hr).clean pid hrep
  rw [leaves_others hdone] at hl
  have hm : pid ∉ s.scheduler.status.processStatus := of_decide_eq_false hl
  have hlinked := (LocalScheduler.inv_reachable (scheduler_reachable hr.of_restrict)).linked
  exact ⟨AList.lookup_eq_none.2 hm, fun h q hq => hlinked.no_xqueue hm hq⟩

/-- Process 1 connects and sends a Ready event. -/
def connectTrace : List ServerAct :=
  [.sched .run, .send (.processCreate 1 "app"), .recv, .addWait false, .forward,
   .send (.xQueueReady 1 10 5)]

/-- The Ready event is forwarded before the process is reported. -/
def cleanTrace : List ServerAct :=
  connectTrace ++ [.recv, .forward, .die 1, .terminated 1, .sched (.wake 7), .sched (.update 7),
    .sched (.update 7), .sched (.update 7), .sched (.sched []), .sched (.update 7),
    .sched (.sched [])]

theorem reported_behind_ready : ∃ s : Server, s.dead 1 = true ∧ s.reported 1 = true ∧
    s.inFlight = [] ∧ s.scheduler.executed.length = 1 ∧ s.NoGhosts := by
  have htrace : ((LTS.exec (LTS.guarded Clean step) (init .kPolicyHighestPriorityFirst)
      cleanTrace).map fun s =>
        (s.dead 1, s.reported 1, decide (s.inFlight = []), s.scheduler.executed.length)) =
      some (true, true, true, 1) := by decide
  obtain ⟨s, hs, he⟩ := Option.map_eq_some_iff.1 htrace
  simp only [Prod.mk.injEq, decide_eq_true_eq] at he
  have hr : (lts.restrict Clean).Reachable s := LTS.reachable_restrict_of_exec ⟨_, rfl⟩ hs
  exact ⟨s, he.1, he.2.1, he.2.2.1, he.2.2.2, no_ghosts s hr⟩

/-- The process is reported while its Ready event is in the channel. -/
def ghostTrace : List ServerAct :=
  connectTrace ++ [.die 1, .terminated 1, .recv, .forward, .sched (.wake 7), .sched (.update 7),
    .sched (.update 7), .sched (.update 7), .sched (.update 7), .sched (.sched []),
    .sched (.sched [])]

/-- **Counterexample**: the Ready event behind the report brings the entries of
the dead process back. -/
theorem ghost_entry : ¬ ∀ s, lts.Reachable s → s.NoGhosts := by
  intro h
  have htrace : ((LTS.exec step (init .kPolicyHighestPriorityFirst) ghostTrace).map fun s =>
      (s.dead 1, s.reported 1, decide (s.inFlight = []),
        (s.scheduler.status.processStatus.lookup 1).isSome)) = some (true, true, true, true) := by
    decide
  obtain ⟨s, hs, he⟩ := Option.map_eq_some_iff.1 htrace
  simp only [Prod.mk.injEq, decide_eq_true_eq] at he
  obtain ⟨hd, hrep, hfl, hghost⟩ := he
  have hdone : ∀ e ∈ s.inFlight, e.pid ≠ 1 := by
    intro e he
    rw [hfl] at he; cases he
  obtain ⟨hnone, -⟩ := h s (LTS.reachable_of_exec ⟨_, rfl⟩ hs) 1 hd hrep hdone
  rw [hnone] at hghost
  cases hghost

end Server
end Xsched.Sched
