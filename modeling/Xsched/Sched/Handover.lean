import Xsched.Sched.Announced
import Xsched.Sched.Server

/-!
# The hand-over to a new scheduler

`ReplaceScheduler` takes the old scheduler away (`FiniScheduler`: the agent
has none, a `ProcessDestroyEvent`, `Stop`) and sets a new one (`InitScheduler`:
a `ProcessCreateEvent`, and the agent has it). Nobody announces the XQueues
that the process has, and nobody resumes those that the old scheduler has
suspended, as `SetPolicy` does for a change of the policy.

The new scheduler is the application's own, a `LocalScheduler` in the
process, which executes its operations on the worker's thread, or the server,
at the end of a channel. The old one is whatever decided until now: it may
suspend and resume any XQueue until its `Stop` has returned.

**The argument.** Once the new scheduler is set the client is `Settled`, and
its entries say nothing of an XQueue or the truth (`Viewed`). An XQueue with no
entry has never been listed in an operation, so it runs if it ran when the
scheduler was set. A suspended XQueue thus has an entry, and the entry has its
device and level unless a Ready or an Idle event has made it.

**Results.**
* `no_queue_lost`: while the old scheduler leaves no XQueue suspended, and the
  new one suspends only XQueues that were announced to it (`HandsOver`), a
  suspended XQueue is known, as suspended and with its device and level,
  whenever the channels are drained.
* `suspended_queue_lost`: an XQueue that the old scheduler has suspended.
-/
namespace Xsched.Sched

/-- mirrors include/xsched/types.h:91-97 -/
inductive XSchedulerType where
  | kSchedulerAppManaged
  | kSchedulerLocal
  | kSchedulerGlobal
  deriving DecidableEq

/-- What `CreateScheduler` makes. -/
inductive NewScheduler where
  | appManaged
  | inProcess (type : XPolicyType)
  | server
  deriving DecidableEq

/-- `policy`: the policy type, if it is a valid one.
mirrors sched/src/scheduler/scheduler.cpp:19-34 -/
def createScheduler (type : XSchedulerType) (policy : Option XPolicyType) : NewScheduler :=
  match policy with
  | some policy => .inProcess policy
  | none => if type = .kSchedulerGlobal then .server else .appManaged

/-- Where the thread is that replaces the scheduler. -/
inductive AgentPc where
  /-- `scheduler_` is the old one. -/
  | attached
  /-- In `Stop` of the old one; `scheduler_` is null. -/
  | stopping
  /-- The old one has stopped. -/
  | stopped
  /-- `scheduler_` is the new one. -/
  | replaced
  deriving DecidableEq

/-- `chan` are the events that `RecvWorker` will pass on for the messages of
this process, `connected` is whether `client_chans_` has it; both are the
server's. `scheduler` is the new one, in the process or on the server. -/
structure Handover where
  kind : NewScheduler
  agent : AgentPc
  client : Client
  chan : List Event
  connected : Bool
  scheduler : LocalScheduler

inductive HandoverAct where
  /-- The old scheduler suspends (`b`) or resumes an XQueue. -/
  | decide (h : XQueueHandle) (b : Bool)
  | client (act : ClientAct)
  | fini
  | stopped
  | init (cmdline : String)
  /-- A message of an earlier connection of this process is in the channel. -/
  | earlier (e : Event)
  | deliver
  /-- Another process, or a hint. -/
  | env (e : Event)
  | sched (act : SchedAct)
  deriving DecidableEq

/-- `XQueueManager::Add` and `SetPreemptLevel` refuse an unknown level.
mirrors preempt/src/xqueue/xqueue.cpp:16 and
preempt/src/xqueue/async_xqueue.cpp:163-164 -/
def ClientAct.valid : ClientAct → Bool
  | .create _ _ level _ _ | .configure _ level _ _ => level ≠ kPreemptLevelUnknown
  | _ => true

namespace Handover

def start (kind : NewScheduler) (pid : PID) (type : XPolicyType) : Handover :=
  ⟨kind, .attached, .init pid, [], false, .init type⟩

/-- `RecvEvent` of the new scheduler. -/
def recvEvent (e : Event) (s : Handover) : Handover :=
  match s.kind with
  | .appManaged => s
  | .inProcess _ => { s with scheduler := s.scheduler.push e }
  | .server => { s with chan := s.chan ++ [e] }

def send (e : Option Event) (s : Handover) : Handover :=
  match e with
  | none => s
  | some e => s.recvEvent e

/-- The end of `InitScheduler`. A `ProcessCreateEvent` makes `RecvWorker` pass on a
`ProcessDestroyEvent` first. mirrors preempt/src/sched/agent.cpp:59-107 -/
def initScheduler (cmdline : String) (s : Handover) : Handover :=
  let s := { s with agent := .replaced, client := { s.client with started := true } }
  match s.kind with
  | .appManaged => s
  | .inProcess type =>
    { s with scheduler := { LocalScheduler.init type with
        worker := .waiting
        eventQueue := [.processCreate s.client.pid cmdline] } }
  | .server =>
    { s with chan := s.chan ++
        [.processDestroy s.client.pid, .processCreate s.client.pid cmdline] }

/-- The worker of a scheduler in the process executes the operations itself. -/
def schedulable (s : Handover) : Bool :=
  match s.kind with
  | .appManaged => false
  | .inProcess _ => s.agent = .replaced && s.client.ops.isEmpty && s.client.executor = .idle
  | .server => true

/-- The operations of the new scheduler reach the process. -/
def reachesClient (s : Handover) : Bool :=
  match s.kind with
  | .appManaged => false
  | .inProcess _ => true
  | .server => s.agent = .replaced && s.connected

/-- `client_chans_` has the process after `RecvWorker` has handled the message. -/
def connects (b : Bool) : Event → Bool
  | .processCreate _ _ => true
  | .processDestroy _ => false
  | _ => b

def step (s : Handover) : HandoverAct → Option Handover
  | .decide h b =>
    if (s.agent = .attached ∨ s.agent = .stopping) ∧ s.client.adding = none then
      match s.client.objs h with
      | some o =>
        if o.registered then
          some { s with client := s.client.setObj h (some { o with suspended := b }) }
        else none
      | none => none
    else none
  | .client act =>
    if act.valid then
      (s.client.step act).map fun (c, e) => send e { s with client := c }
    else none
  | .fini => if s.agent = .attached then some { s with agent := .stopping } else none
  | .stopped => if s.agent = .stopping then some { s with agent := .stopped } else none
  | .init cmdline => if s.agent = .stopped then some (s.initScheduler cmdline) else none
  | .earlier e =>
    if s.kind = .server ∧ s.agent ≠ .replaced ∧ e.pid = s.client.pid then
      some { s with chan := s.chan ++ [e] }
    else none
  | .deliver =>
    match s.chan with
    | [] => none
    | e :: chan => some { s with
        chan
        connected := connects s.connected e
        scheduler := s.scheduler.push e }
  | .env e =>
    if s.kind = .server ∧ e.pid ≠ s.client.pid then
      some { s with scheduler := s.scheduler.push e }
    else none
  | .sched act =>
    if act.runs && s.schedulable then
      (s.scheduler.step act).map fun scheduler => { s with
        scheduler
        client :=
          if s.reachesClient then
            s.client.receive (s.scheduler.sinceFor s.client.pid scheduler)
          else s.client }
    else none

def lts : LTS Handover HandoverAct :=
  .ofFn (fun s => ∃ type policy pid old, s = start (createScheduler type policy) pid old) step

/-- The new scheduler has been set, and nothing is under way. -/
def Drained (s : Handover) : Prop :=
  s.agent = .replaced ∧ s.chan = [] ∧ (s.kind ≠ .appManaged → s.scheduler.Blocked) ∧
    s.client.ops = [] ∧ s.client.executor = .idle

/-- A registered XQueue is not suspended, or the new scheduler has an entry for it,
as suspended and with its device and level. -/
def NoQueueLost (s : Handover) : Prop :=
  ∀ h o, s.client.objs h = some o → o.registered = true → o.suspended = false ∨
    s.kind ≠ .appManaged ∧ ∃ q, s.scheduler.status.xqueueStatus.lookup h = some q ∧
      q.suspended = true ∧ q.device = o.device ∧ q.level = o.level

/-- The events under way to the scheduler. -/
def inFlight (s : Handover) : List Event := s.scheduler.pending ++ s.chan

/-- The process has an XQueue `h`, or the scheduler hears of one from it. -/
def Uses (s : Handover) (h : XQueueHandle) : Prop :=
  (s.client.objs h).isSome = true ∨
  (∃ e ∈ s.inFlight, e.pid = s.client.pid ∧ e.xqueue = some h) ∨
  ∃ q, s.scheduler.status.xqueueStatus.lookup h = some q ∧ q.pid = s.client.pid

/-- The scheduler hears of an XQueue `h` from another process. -/
def Foreign (s : Handover) (h : XQueueHandle) : Prop :=
  (∃ e ∈ s.inFlight, e.pid ≠ s.client.pid ∧ e.xqueue = some h) ∨
  ∃ q, s.scheduler.status.xqueueStatus.lookup h = some q ∧ q.pid ≠ s.client.pid

/-- When the new scheduler is set, no XQueue is suspended and the scheduler has
nothing of an earlier connection left; it suspends only XQueues that were
announced to it; and no two processes use one handle. -/
def HandsOver (s : Handover) : HandoverAct → Prop
  | .init _ =>
    (∀ h o, s.client.Live h o → o.suspended = false) ∧
    (s.kind = .server → (∀ e ∈ s.inFlight, e.pid ≠ s.client.pid) ∧
      ∀ h q, s.scheduler.status.xqueueStatus.lookup h = some q → q.pid ≠ s.client.pid)
  | .sched (.sched calls) =>
    ∀ h, .suspend h ∈ calls → ∀ q, s.scheduler.status.xqueueStatus.lookup h = some q →
      s.agent = .replaced → q.pid = s.client.pid → q.level ≠ kPreemptLevelUnknown
  | .client act => ∀ h ∈ s.client.creates act, ¬ s.Foreign h
  | .earlier e => ∀ h ∈ e.xqueue, ¬ s.Foreign h
  | .env e => ∀ h ∈ e.xqueue, ¬ s.Uses h
  | _ => True

/-! ## What a step can do -/

inductive StepCases (s : Handover) : HandoverAct → Handover → Prop
  | decide {h : XQueueHandle} {b : Bool} {o : XQueueObj} (hag : s.agent ≠ .replaced)
      (ho : s.client.objs h = some o) :
    StepCases s (.decide h b)
      { s with client := s.client.setObj h (some { o with suspended := b }) }
  | client {act : ClientAct} {c : Client} {e : Option Event} (hv : act.valid = true)
      (hc : s.client.StepCases act c e) :
    StepCases s (.client act) (send e { s with client := c })
  | leave {act : HandoverAct} {pc : AgentPc} (hag : s.agent ≠ .replaced) (hpc : pc ≠ .replaced) :
    StepCases s act { s with agent := pc }
  | init {cmdline : String} (hag : s.agent = .stopped) :
    StepCases s (.init cmdline) (s.initScheduler cmdline)
  | earlier {e : Event} (hkind : s.kind = .server) (hag : s.agent ≠ .replaced)
      (hpid : e.pid = s.client.pid) :
    StepCases s (.earlier e) { s with chan := s.chan ++ [e] }
  | deliver {e : Event} {chan : List Event} (hch : s.chan = e :: chan) :
    StepCases s .deliver { s with
      chan := chan
      connected := connects s.connected e
      scheduler := s.scheduler.push e }
  | env {e : Event} (hkind : s.kind = .server) (hpid : e.pid ≠ s.client.pid) :
    StepCases s (.env e) { s with scheduler := s.scheduler.push e }
  | sched {act : SchedAct} {scheduler : LocalScheduler} (hrun : act.runs = true)
      (hsch : s.schedulable = true) (hs : s.scheduler.step act = some scheduler) :
    StepCases s (.sched act) { s with
      scheduler := scheduler
      client :=
        if s.reachesClient then s.client.receive (s.scheduler.sinceFor s.client.pid scheduler)
        else s.client }

theorem step_cases {s s' : Handover} {act : HandoverAct} (h : step s act = some s') :
    StepCases s act s' := by
  cases act with
  | decide handle b =>
    simp only [step] at h
    split at h
    · rename_i hag
      have hne : s.agent ≠ .replaced := by
        rcases hag.1 with hag | hag <;> rw [hag] <;> nofun
      split at h
      · rename_i o ho
        split at h
        · cases h; exact .decide hne ho
        · cases h
      · cases h
    · cases h
  | client act =>
    simp only [step] at h
    split at h
    · rename_i hv
      obtain ⟨⟨c, e⟩, hc, rfl⟩ := Option.map_eq_some_iff.1 h
      exact .client hv (Client.step_cases hc)
    · cases h
  | fini =>
    simp only [step] at h
    split at h
    · rename_i hag
      cases h
      exact .leave (by rw [hag]; nofun) nofun
    · cases h
  | stopped =>
    simp only [step] at h
    split at h
    · rename_i hag
      cases h
      exact .leave (by rw [hag]; nofun) nofun
    · cases h
  | init cmdline =>
    simp only [step] at h
    split at h
    · rename_i hag; cases h; exact .init hag
    · cases h
  | earlier e =>
    simp only [step] at h
    split at h
    · rename_i he; cases h; exact .earlier he.1 he.2.1 he.2.2
    · cases h
  | deliver =>
    simp only [step] at h
    split at h
    · cases h
    · rename_i hch; cases h; exact .deliver hch
  | env e =>
    simp only [step] at h
    split at h
    · rename_i he; cases h; exact .env he.1 he.2
    · cases h
  | sched act =>
    simp only [step] at h
    split at h
    · rename_i hrun
      obtain ⟨scheduler, hs, rfl⟩ := Option.map_eq_some_iff.1 h
      rw [Bool.and_eq_true] at hrun
      exact .sched hrun.1 hrun.2 hs
    · cases h

section
variable {s s' : Handover} {act : HandoverAct} {h : XQueueHandle}

/-- What a message to the new scheduler leaves as it is. -/
theorem send_frame (e : Option Event) : (s.send e).kind = s.kind ∧ (s.send e).agent = s.agent ∧
    (s.send e).client = s.client ∧ (s.send e).connected = s.connected ∧
    (s.send e).scheduler.status = s.scheduler.status ∧
    (s.send e).scheduler.worker = s.scheduler.worker := by
  cases e with
  | none => exact ⟨rfl, rfl, rfl, rfl, rfl, rfl⟩
  | some e =>
    simp only [send, recvEvent]
    split <;> exact ⟨rfl, rfl, rfl, rfl, rfl, rfl⟩

theorem pending_push (sc : LocalScheduler) (e : Event) :
    (sc.push e).pending = sc.pending ++ [e] := LocalScheduler.pending_append rfl rfl

/-- A message goes to the end of those under way. -/
theorem inFlight_send (hk : s.kind ≠ .appManaged) (hch : s.kind ≠ .server → s.chan = [])
    (e : Option Event) : (s.send e).inFlight = s.inFlight ++ e.toList := by
  cases e with
  | none => simp [send]
  | some e =>
    unfold inFlight
    simp only [send, recvEvent]
    split
    · rename_i hkind; exact absurd hkind hk
    · rename_i type hkind
      simp [pending_push, hch (by rw [hkind]; nofun)]
    · simp

/-- The messages under way stay what they are when one is delivered. -/
theorem inFlight_deliver {e : Event} {chan : List Event} (hch : s.chan = e :: chan) :
    ({ s with
      chan := chan
      connected := connects s.connected e
      scheduler := s.scheduler.push e } : Handover).inFlight = s.inFlight := by
  simp [inFlight, pending_push, hch]

/-! ## Before the hand-over and beside it -/

/-- What every run keeps. -/
structure Base (s : Handover) : Prop where
  started : s.client.started = true ↔ s.agent = .replaced
  quiet : s.agent ≠ .replaced ∨ s.kind = .appManaged →
    s.client.ops = [] ∧ s.client.executor = .idle
  chan : s.kind ≠ .server → s.chan = []
  mine : ∀ e ∈ s.chan, e.pid = s.client.pid
  scheduler : LocalScheduler.lts.Reachable s.scheduler

theorem reachable_push {sc : LocalScheduler} (hr : LocalScheduler.lts.Reachable sc) (e : Event) :
    LocalScheduler.lts.Reachable (sc.push e) :=
  hr.step (l := .recvEvent e) rfl

theorem base_start (kind : NewScheduler) (pid : PID) (type : XPolicyType) :
    (start kind pid type).Base := by
  refine ⟨?_, fun _ => ⟨rfl, rfl⟩, fun _ => rfl, ?_, LTS.reachable_init ⟨type, rfl⟩⟩
  · constructor <;> nofun
  · intro e he; cases he

theorem base_client (hb : s.Base) {a : ClientAct} {c : Client} {e : Option Event}
    (hc : s.client.StepCases a c e) : (send e { s with client := c }).Base := by
  obtain ⟨hkind, hagent, hclient, -, -, -⟩ := send_frame (s := { s with client := c }) e
  refine ⟨?_, ?_, ?_, ?_, ?_⟩
  · rw [hclient, hagent]
    exact (by rw [hc.frame.2] : c.started = true ↔ _).trans hb.started
  · rw [hclient, hagent, hkind]
    intro hq
    obtain ⟨hops, hexec⟩ := hb.quiet hq
    exact hc.idle hops hexec
  · rw [hkind]
    intro hk
    cases e with
    | none => exact hb.chan hk
    | some e =>
      simp only [send, recvEvent]
      split
      · exact hb.chan hk
      · exact hb.chan hk
      · rename_i hserver; exact absurd hserver hk
  · intro e₁ he₁
    rw [hclient, hc.frame.1]
    cases e with
    | none => exact hb.mine e₁ he₁
    | some e =>
      simp only [send, recvEvent] at he₁
      split at he₁
      · exact hb.mine e₁ he₁
      · exact hb.mine e₁ he₁
      · rcases List.mem_append.1 he₁ with he₁ | he₁
        · exact hb.mine e₁ he₁
        · obtain rfl := List.mem_singleton.1 he₁
          exact hc.event.2.1
  · cases e with
    | none => exact hb.scheduler
    | some e =>
      simp only [send, recvEvent]
      split
      · exact hb.scheduler
      · exact reachable_push hb.scheduler e
      · exact hb.scheduler

theorem base_init (hb : s.Base) (hag : s.agent = .stopped) (cmdline : String) :
    (s.initScheduler cmdline).Base := by
  have hquiet := hb.quiet (Or.inl (by rw [hag]; nofun))
  unfold initScheduler
  cases hkind : s.kind with
  | appManaged =>
    exact ⟨⟨fun _ => rfl, fun _ => rfl⟩, fun _ => hquiet, fun _ => hb.chan (by rw [hkind]; nofun),
      hb.mine, hb.scheduler⟩
  | inProcess type =>
    refine ⟨⟨fun _ => rfl, fun _ => rfl⟩, fun _ => hquiet, fun _ => hb.chan (by rw [hkind]; nofun),
      hb.mine, ?_⟩
    have hnew : LocalScheduler.lts.Reachable (LocalScheduler.init type) :=
      LTS.reachable_init ⟨type, rfl⟩
    have hrun : LocalScheduler.lts.Reachable { LocalScheduler.init type with worker := .waiting } :=
      hnew.step (l := .run) rfl
    exact hrun.step (l := .recvEvent (.processCreate s.client.pid cmdline)) rfl
  | server =>
    refine ⟨⟨fun _ => rfl, fun _ => rfl⟩, fun _ => hquiet, fun hk => absurd rfl hk, ?_, hb.scheduler⟩
    intro e he
    rcases List.mem_append.1 he with he | he
    · exact hb.mine e he
    · simp only [List.mem_cons, List.not_mem_nil, or_false] at he
      rcases he with rfl | rfl <;> rfl

theorem base_step (hb : s.Base) (hc : StepCases s act s') : s'.Base := by
  cases hc with
  | decide hag ho => exact ⟨hb.started, hb.quiet, hb.chan, hb.mine, hb.scheduler⟩
  | client hv hc => exact base_client hb hc
  | leave hag hpc =>
    refine ⟨?_, fun _ => hb.quiet (Or.inl hag), hb.chan, hb.mine, hb.scheduler⟩
    constructor
    · intro hst; exact absurd (hb.started.1 hst) hag
    · intro hp; exact absurd hp hpc
  | init hag => exact base_init hb hag _
  | earlier hkind hag hpid =>
    refine ⟨hb.started, hb.quiet, fun hk => absurd hkind hk, ?_, hb.scheduler⟩
    intro e he
    rcases List.mem_append.1 he with he | he
    · exact hb.mine e he
    · rw [List.mem_singleton.1 he]; exact hpid
  | @deliver e chan hch =>
    refine ⟨hb.started, hb.quiet, ?_, ?_, reachable_push hb.scheduler e⟩
    · intro hk
      have hnil := hb.chan hk
      rw [hch] at hnil; cases hnil
    · intro e' he'
      exact hb.mine e' (by rw [hch]; exact List.mem_cons_of_mem _ he')
  | @env e hkind hpid =>
    exact ⟨hb.started, hb.quiet, hb.chan, hb.mine, reachable_push hb.scheduler e⟩
  | @sched a scheduler hrun hsch hs =>
    refine ⟨?_, ?_, hb.chan, ?_, hb.scheduler.step (l := a) hs⟩
    · refine Iff.trans ?_ hb.started
      simp only
      split <;> rfl
    · intro hq
      have hnot : s.reachesClient = false := by
        rcases hq with hag | hk
        · cases hkind : s.kind with
          | appManaged => simp [reachesClient, hkind]
          | inProcess type =>
            simp only [schedulable, hkind, Bool.and_eq_true, decide_eq_true_eq] at hsch
            exact absurd hsch.1.1 hag
          | server => simp only [reachesClient, hkind, decide_eq_false hag, Bool.false_and]
        · have hk' : s.kind = .appManaged := hk
          simp [reachesClient, hk']
      simp only [hnot]
      exact hb.quiet hq
    · intro e he
      refine (hb.mine e he).trans ?_
      simp only
      split <;> rfl

theorem base_reachable (hr : lts.Reachable s) : s.Base := by
  refine LTS.reachable_induction (I := Base) ?_ ?_ hr
  · rintro s ⟨type, policy, pid, old, rfl⟩; exact base_start ..
  · intro s act s' _ hi hs; exact base_step hi (step_cases hs)

/-! ## Who uses a handle -/

/-- A step after which the scheduler hears of no XQueue that it did not hear of
before. -/
structure Quieter (s s' : Handover) : Prop where
  pid : s'.client.pid = s.client.pid
  objs : ∀ h, (s'.client.objs h).isSome = true → (s.client.objs h).isSome = true
  events : ∀ e ∈ s'.inFlight, e.xqueue.isSome = true → e ∈ s.inFlight
  entries : ∀ h q', s'.scheduler.status.xqueueStatus.lookup h = some q' →
    (∃ q, s.scheduler.status.xqueueStatus.lookup h = some q ∧ q'.pid = q.pid) ∨
    ∃ e ∈ s.inFlight, e.xqueue = some h ∧ q'.pid = e.pid

theorem Quieter.uses (hq : Quieter s s') (hu : s'.Uses h) : s.Uses h := by
  rcases hu with ho | ⟨e, he, hp, hx⟩ | ⟨q', hq', hp⟩
  · exact Or.inl (hq.objs h ho)
  · rw [hq.pid] at hp
    exact Or.inr (Or.inl ⟨e, hq.events e he (by rw [hx]; rfl), hp, hx⟩)
  · rw [hq.pid] at hp
    rcases hq.entries h q' hq' with ⟨q, hq₀, hp₀⟩ | ⟨e, he, hx, hp₀⟩
    · exact Or.inr (Or.inr ⟨q, hq₀, hp₀.symm.trans hp⟩)
    · exact Or.inr (Or.inl ⟨e, he, hp₀.symm.trans hp, hx⟩)

theorem Quieter.foreign (hq : Quieter s s') (hf : s'.Foreign h) : s.Foreign h := by
  rcases hf with ⟨e, he, hp, hx⟩ | ⟨q', hq', hp⟩
  · rw [hq.pid] at hp
    exact Or.inl ⟨e, hq.events e he (by rw [hx]; rfl), hp, hx⟩
  · rw [hq.pid] at hp
    rcases hq.entries h q' hq' with ⟨q, hq₀, hp₀⟩ | ⟨e, he, hx, hp₀⟩
    · exact Or.inr ⟨q, hq₀, by rwa [← hp₀]⟩
    · exact Or.inl ⟨e, he, by rwa [← hp₀], hx⟩

/-- A handle of the process is not used by another. -/
def Owned (s : Handover) : Prop := ∀ h, s.Uses h → ¬ s.Foreign h

theorem Owned.quieter (ho : s.Owned) (hq : Quieter s s') : s'.Owned :=
  fun h hu hf => ho h (hq.uses hu) (hq.foreign hf)

theorem mem_inFlight {e : Event} : e ∈ s.inFlight ↔ e ∈ s.scheduler.pending ∨ e ∈ s.chan :=
  List.mem_append

theorem mem_inFlight_send {e : Option Event} {e' : Event} (he : e' ∈ (s.send e).inFlight) :
    e' ∈ s.inFlight ∨ e = some e' := by
  cases e with
  | none => exact Or.inl he
  | some e =>
    simp only [send, recvEvent] at he
    split at he
    · exact Or.inl he
    · rw [mem_inFlight, pending_push, List.mem_append, List.mem_singleton] at he
      rcases he with (he | rfl) | he
      · exact Or.inl (mem_inFlight.2 (Or.inl he))
      · exact Or.inr rfl
      · exact Or.inl (mem_inFlight.2 (Or.inr he))
    · rw [mem_inFlight, List.mem_append, List.mem_singleton] at he
      rcases he with he | he | rfl
      · exact Or.inl (mem_inFlight.2 (Or.inl he))
      · exact Or.inl (mem_inFlight.2 (Or.inr he))
      · exact Or.inr rfl

theorem quieter_init (cmdline : String) : Quieter s (s.initScheduler cmdline) := by
  unfold initScheduler
  cases hkind : s.kind with
  | appManaged =>
    exact ⟨rfl, fun _ => id, fun e he _ => he, fun h q hq => Or.inl ⟨q, hq, rfl⟩⟩
  | inProcess type =>
    refine ⟨rfl, fun _ => id, ?_, fun h q hq => by cases hq⟩
    intro e he hx
    rcases mem_inFlight.1 he with he | he
    · rw [List.mem_singleton.1 he] at hx; cases hx
    · exact mem_inFlight.2 (Or.inr he)
  | server =>
    refine ⟨rfl, fun _ => id, ?_, fun h q hq => Or.inl ⟨q, hq, rfl⟩⟩
    intro e he hx
    rcases mem_inFlight.1 he with he | he
    · exact mem_inFlight.2 (Or.inl he)
    · simp only [List.mem_append, List.mem_cons, List.not_mem_nil, or_false] at he
      rcases he with he | rfl | rfl
      · exact mem_inFlight.2 (Or.inr he)
      · cases hx
      · cases hx

theorem receive_objs (ops : List SchedOperation) (b : Bool) (c : Client) :
    (if b then c.receive ops else c).objs = c.objs ∧
      (if b then c.receive ops else c).pid = c.pid ∧
      ∀ h o, (if b then c.receive ops else c).Live h o ↔ c.Live h o := by
  cases b <;> exact ⟨rfl, rfl, fun _ _ => Iff.rfl⟩

theorem quieter_sched {a : SchedAct} {scheduler : LocalScheduler} (hrun : a.runs = true)
    (hc : s.scheduler.StepCases a scheduler) {ops : List SchedOperation} {b : Bool} :
    Quieter s { s with
      scheduler := scheduler
      client := if b then s.client.receive ops else s.client } := by
  obtain ⟨hobjs, hpid, -⟩ := receive_objs ops b s.client
  refine ⟨hpid, ?_, ?_, ?_⟩
  · intro h ho
    exact hobjs ▸ ho
  · intro e he hx
    rcases mem_inFlight.1 he with he | he
    · rcases LocalScheduler.pending_step hc he with he | rfl | hnone
      · exact mem_inFlight.2 (Or.inl he)
      · cases hrun
      · rw [hnone] at hx; cases hx
    · exact mem_inFlight.2 (Or.inr he)
  · intro h q' hq'
    rcases LocalScheduler.entry_step hc hq' with ⟨q, hq, hp, -⟩ | ⟨e, he, hx, hp, -⟩
    · exact Or.inl ⟨q, hq, hp⟩
    · exact Or.inr ⟨e, mem_inFlight.2 (Or.inl he), hx, hp⟩

theorem owned_client (ho : s.Owned) {a : ClientAct} {c : Client} {e : Option Event}
    (hc : s.client.StepCases a c e) (hok : ∀ h ∈ s.client.creates a, ¬ s.Foreign h) :
    (send e { s with client := c }).Owned := by
  obtain ⟨-, -, hclient, -, hstatus, -⟩ := send_frame (s := { s with client := c }) e
  have hforeign : ∀ h, (send e { s with client := c }).Foreign h → s.Foreign h := by
    intro h hf
    rcases hf with ⟨e', he', hp, hx⟩ | ⟨q, hq, hp⟩
    · rw [hclient, hc.frame.1] at hp
      rcases mem_inFlight_send he' with he' | rfl
      · exact Or.inl ⟨e', he', hp, hx⟩
      · exact absurd hc.event.2.1 hp
    · rw [hclient, hc.frame.1] at hp
      rw [hstatus] at hq
      exact Or.inr ⟨q, hq, hp⟩
  intro h hu hf
  have hf₀ := hforeign h hf
  have hold : (s.client.objs h).isSome = true ∨ s.client.creates a = some h → False := by
    rintro (hobj | hcr)
    · exact ho h (Or.inl hobj) hf₀
    · exact hok h hcr hf₀
  rcases hu with hobj | ⟨e', he', hp, hx⟩ | ⟨q, hq, hp⟩
  · rw [hclient] at hobj
    exact hold (hc.objs hobj)
  · rw [hclient, hc.frame.1] at hp
    rcases mem_inFlight_send he' with he' | rfl
    · exact ho h (Or.inr (Or.inl ⟨e', he', hp, hx⟩)) hf₀
    · obtain ⟨-, -, h', hx', hobj⟩ := hc.event
      obtain rfl : h' = h := Option.some.inj (hx'.symm.trans hx)
      exact hold hobj
  · rw [hclient, hc.frame.1] at hp
    rw [hstatus] at hq
    exact ho h (Or.inr (Or.inr ⟨q, hq, hp⟩)) hf₀

theorem owned_step (ho : s.Owned) (hc : StepCases s act s') (hok : HandsOver s act) :
    s'.Owned := by
  cases hc with
  | @decide h₁ b o hag hobj =>
    refine ho.quieter ⟨rfl, ?_, fun e he _ => he, fun h q hq => Or.inl ⟨q, hq, rfl⟩⟩
    intro h hs
    by_cases hh : h = h₁
    · subst hh; rw [hobj]; rfl
    · have hsame := Client.setObj_objs_ne (c := s.client) hh (some { o with suspended := b })
      exact hsame ▸ hs
  | client hv hc => exact owned_client ho hc hok
  | leave => exact ho.quieter ⟨rfl, fun _ => id, fun e he _ => he, fun h q hq => Or.inl ⟨q, hq, rfl⟩⟩
  | init hag => exact ho.quieter (quieter_init _)
  | @earlier e hkind hag hpid =>
    have hmem : ∀ e', e' ∈ ({ s with chan := s.chan ++ [e] } : Handover).inFlight →
        e' ∈ s.inFlight ∨ e' = e := by
      intro e' he'
      rw [mem_inFlight, List.mem_append, List.mem_singleton] at he'
      rw [mem_inFlight, or_assoc]
      exact he'
    intro h hu hf
    have hf₀ : s.Foreign h := by
      rcases hf with ⟨e', he', hp, hx⟩ | hq
      · rcases hmem e' he' with he' | rfl
        · exact Or.inl ⟨e', he', hp, hx⟩
        · exact absurd hpid hp
      · exact Or.inr hq
    rcases hu with hobj | ⟨e', he', hp, hx⟩ | hq
    · exact ho h (Or.inl hobj) hf₀
    · rcases hmem e' he' with he' | rfl
      · exact ho h (Or.inr (Or.inl ⟨e', he', hp, hx⟩)) hf₀
      · exact hok h hx hf₀
    · exact ho h (Or.inr (Or.inr hq)) hf₀
  | @deliver e chan hch =>
    refine ho.quieter ⟨rfl, fun _ => id, ?_, fun h q hq => Or.inl ⟨q, hq, rfl⟩⟩
    intro e' he' _
    rwa [inFlight_deliver hch] at he'
  | @env e hkind hpid =>
    have hmem : ∀ e', e' ∈ ({ s with scheduler := s.scheduler.push e } : Handover).inFlight →
        e' ∈ s.inFlight ∨ e' = e := by
      intro e' he'
      rw [mem_inFlight, pending_push, List.mem_append, List.mem_singleton] at he'
      rw [mem_inFlight]
      rcases he' with (he' | he') | he'
      · exact Or.inl (Or.inl he')
      · exact Or.inr he'
      · exact Or.inl (Or.inr he')
    intro h hu hf
    have hu₀ : s.Uses h := by
      rcases hu with hobj | ⟨e', he', hp, hx⟩ | hq
      · exact Or.inl hobj
      · rcases hmem e' he' with he' | rfl
        · exact Or.inr (Or.inl ⟨e', he', hp, hx⟩)
        · exact absurd hp hpid
      · exact Or.inr (Or.inr hq)
    rcases hf with ⟨e', he', hp, hx⟩ | hq
    · rcases hmem e' he' with he' | rfl
      · exact ho h hu₀ (Or.inl ⟨e', he', hp, hx⟩)
      · exact hok h hx hu₀
    · exact ho h hu₀ (Or.inr hq)
  | sched hrun hsch hs =>
    exact ho.quieter (quieter_sched hrun (LocalScheduler.step_cases hs))

theorem owned_reachable (hr : (lts.restrict HandsOver).Reachable s) : s.Owned := by
  refine LTS.reachable_induction (I := Owned) ?_ ?_ hr
  · rintro s ⟨type, policy, pid, old, rfl⟩ h hu hf
    rcases hf with ⟨e, he, -⟩ | ⟨q, hq, -⟩
    · cases he
    · cases hq
  · intro s act s' _ hi hs; exact owned_step hi (step_cases hs.1) hs.2

/-! ## After the hand-over -/

/-- What the entry of the XQueue will say when the messages have arrived. -/
def willSay (s : Handover) (h : XQueueHandle) : View :=
  heard s.client.pid h (s.scheduler.status.view h) s.inFlight

/-- The scheduler has heard of no XQueue of the process. -/
structure Unheard (s : Handover) : Prop where
  entry : ∀ h q, s.scheduler.status.xqueueStatus.lookup h = some q → q.pid ≠ s.client.pid
  event : ∀ e ∈ s.scheduler.pending, e.pid = s.client.pid → e.xqueue = none

/-- The server has a channel to the process before it hears of an XQueue. -/
def Linkage (s : Handover) : Prop :=
  s.connected = true ∧ (∀ e ∈ s.chan, e.xqueue.isSome = true) ∨
  s.Unheard ∧ ∃ cmdline chan,
    (s.chan = .processDestroy s.client.pid :: .processCreate s.client.pid cmdline :: chan ∨
      s.chan = .processCreate s.client.pid cmdline :: chan) ∧ ∀ e ∈ chan, e.xqueue.isSome = true

/-- What the new scheduler is told. -/
structure Told (s : Handover) : Prop where
  settled : Settled s.client s.scheduler s.inFlight
  viewed : ∀ h o, s.client.Live h o → Viewed (s.willSay h) o
  bare : ∀ h o, s.client.Live h o → s.willSay h = none →
    s.scheduler.status.xqueueStatus.lookup h = none ∧ (∀ e ∈ s.inFlight, e.xqueue ≠ some h) ∧
      outcome h o.suspended s.client.decisions = false
  levels : ∀ h q, s.scheduler.status.xqueueStatus.lookup h = some q → q.pid = s.client.pid →
    q.level = kPreemptLevelUnknown → q.suspended = false
  events : ∀ e ∈ s.inFlight, e.pid = s.client.pid →
    ∀ level ∈ e.announces, level ≠ kPreemptLevelUnknown
  linkage : s.kind = .server → s.Linkage

theorem announces_valid {c c' : Client} {a : ClientAct} {e : Event} (hv : a.valid = true)
    (hc : c.StepCases a c' (some e)) : ∀ level ∈ e.announces, level ≠ kPreemptLevelUnknown := by
  generalize hev : some e = ev at hc
  cases hc with
  | create | configure =>
    obtain ⟨-, rfl⟩ := Client.send_eq_some.1 hev.symm
    intro level hl
    cases hl
    simpa [ClientAct.valid] using hv
  | free | submit | drain =>
    obtain ⟨-, rfl⟩ := Client.send_eq_some.1 hev.symm
    intro level hl
    cases hl
  | add | destroy | submitted | execute => cases hev

theorem told_client (hb : s.Base) (ht : s.Told) (hag : s.agent = .replaced)
    (hk : s.kind ≠ .appManaged) {a : ClientAct} {c : Client} {e : Option Event}
    (hv : a.valid = true) (hc : s.client.StepCases a c e) :
    (send e { s with client := c }).Told := by
  obtain ⟨hkind, -, hclient, hconn, hstatus, hworker⟩ := send_frame (s := { s with client := c }) e
  have hfl : (send e { s with client := c }).inFlight = s.inFlight ++ e.toList :=
    inFlight_send (s := { s with client := c }) hk hb.chan e
  have hst : s.client.started = true := hb.started.2 hag
  have hview : ∀ h, (send e { s with client := c }).willSay h =
      heard s.client.pid h (s.willSay h) e.toList := by
    intro h
    rw [willSay, hfl, hclient, hstatus, hc.frame.1, heard_append]
    rfl
  refine ⟨?_, ?_, ?_, ?_, ?_, ?_⟩
  · rw [hclient, hfl]
    refine (ht.settled.client hc fun _ _ _ _ => hst).mono hstatus ?_ fun _ he _ => he
    unfold LocalScheduler.MidRound
    rw [hworker]; exact id
  · intro h o' hl
    rw [hclient] at hl
    rw [hview]
    exact hc.viewed hst hl _ _ fun o hlo => ht.viewed h o hlo
  · intro h o' hl hnone
    rw [hclient] at hl ⊢
    rw [hview] at hnone
    obtain ⟨hold, hother, o, hlo, hout⟩ := hc.heard_none hl hst hnone
    obtain ⟨hlook, hev, hfalse⟩ := ht.bare h o hlo hold
    rw [hstatus, hfl]
    refine ⟨hlook, ?_, hout.trans hfalse⟩
    intro e₁ he₁
    rcases List.mem_append.1 he₁ with he₁ | he₁
    · exact hev e₁ he₁
    · exact hother e₁ he₁
  · intro h q hq hpid
    rw [hstatus] at hq
    rw [hclient, hc.frame.1] at hpid
    exact ht.levels h q hq hpid
  · intro e₁ he₁ hpid
    rw [hclient, hc.frame.1] at hpid
    rw [hfl] at he₁
    rcases List.mem_append.1 he₁ with he₁ | he₁
    · exact ht.events e₁ he₁ hpid
    · obtain rfl : e = some e₁ := by simpa [Option.mem_toList] using he₁
      exact announces_valid hv hc
  · intro hks
    rw [hkind] at hks
    have hchan : (send e { s with client := c }).chan = s.chan ++ e.toList := by
      cases e with
      | none => simp [send]
      | some e => simp only [send, recvEvent]; rw [show s.kind = .server from hks]; rfl
    have hpend : (send e { s with client := c }).scheduler.pending = s.scheduler.pending := by
      cases e with
      | none => rfl
      | some e => simp only [send, recvEvent]; rw [show s.kind = .server from hks]
    have hnew : ∀ e₁ ∈ e.toList, e₁.xqueue.isSome = true := by
      intro e₁ he₁
      obtain rfl : e = some e₁ := by simpa [Option.mem_toList] using he₁
      obtain ⟨-, -, h', hx, -⟩ := hc.event
      rw [hx]; rfl
    have happ : ∀ {es : List Event}, (∀ e₁ ∈ es, e₁.xqueue.isSome = true) →
        ∀ e₁ ∈ es ++ e.toList, e₁.xqueue.isSome = true := by
      intro es hes e₁ he₁
      rcases List.mem_append.1 he₁ with he₁ | he₁
      · exact hes e₁ he₁
      · exact hnew e₁ he₁
    rcases ht.linkage hks with ⟨hcn, hx⟩ | ⟨hun, cmdline, chan, hch, hx⟩
    · exact Or.inl ⟨hconn.trans hcn, by rw [hchan]; exact happ hx⟩
    · refine Or.inr ⟨⟨?_, ?_⟩, cmdline, chan ++ e.toList, ?_, happ hx⟩
      · intro h q hq
        rw [hstatus] at hq
        rw [hclient, hc.frame.1]
        exact hun.entry h q hq
      · intro e₁ he₁ hpid
        rw [hpend] at he₁
        rw [hclient, hc.frame.1] at hpid
        exact hun.event e₁ he₁ hpid
      · rw [hchan, hclient, hc.frame.1]
        rcases hch with hch | hch <;> rw [hch]
        · exact Or.inl rfl
        · exact Or.inr rfl

/-- A step that changes neither the process nor an entry, nor what the scheduler
will hear of the XQueues of the process. -/
theorem Told.frame (ht : s.Told) (hkind : s'.kind = s.kind) (hclient : s'.client = s.client)
    (hstatus : s'.scheduler.status = s.scheduler.status)
    (hworker : s'.scheduler.worker = s.scheduler.worker)
    (hview : ∀ h o, s.client.Live h o → s'.willSay h = s.willSay h)
    (hkeep : ∀ e ∈ s.inFlight, e ∈ s'.inFlight)
    (hnew : ∀ e ∈ s'.inFlight, e ∈ s.inFlight ∨
      e.pid ≠ s.client.pid ∧ ∀ h o, s.client.Live h o → e.xqueue ≠ some h)
    (hlink : s.kind = .server → s'.Linkage) : s'.Told := by
  refine ⟨?_, ?_, ?_, ?_, ?_, fun hk => hlink (hkind ▸ hk)⟩
  · rw [hclient]
    refine ht.settled.mono hstatus ?_ fun e he _ => hkeep e he
    unfold LocalScheduler.MidRound
    rw [hworker]; exact id
  · intro h o hl
    rw [hclient] at hl
    rw [hview h o hl]
    exact ht.viewed h o hl
  · intro h o hl hnone
    rw [hclient] at hl ⊢
    rw [hview h o hl] at hnone
    obtain ⟨hlook, hev, hfalse⟩ := ht.bare h o hl hnone
    rw [hstatus]
    refine ⟨hlook, ?_, hfalse⟩
    intro e he
    rcases hnew e he with he | ⟨-, hx⟩
    · exact hev e he
    · exact hx h o hl
  · intro h q hq hpid
    rw [hstatus] at hq
    rw [hclient] at hpid
    exact ht.levels h q hq hpid
  · intro e he hpid
    rw [hclient] at hpid
    rcases hnew e he with he | ⟨hne, -⟩
    · exact ht.events e he hpid
    · exact absurd hpid hne

theorem told_deliver (ht : s.Told) {e : Event} {chan : List Event}
    (hch : s.chan = e :: chan) :
    ({ s with
      chan := chan
      connected := connects s.connected e
      scheduler := s.scheduler.push e } : Handover).Told := by
  have hfl := inFlight_deliver hch
  refine ht.frame rfl rfl rfl rfl ?_ ?_ ?_ ?_
  · intro h o hl
    unfold willSay
    rw [hfl]; rfl
  · intro e' he'; rwa [hfl]
  · intro e' he'; rw [hfl] at he'; exact Or.inl he'
  · intro hk
    rcases ht.linkage hk with ⟨hcn, hx⟩ | ⟨hun, cmdline, rest, hc₁ | hc₁, hx⟩
    · rw [hch] at hx
      refine Or.inl ⟨?_, fun e' he' => hx e' (List.mem_cons_of_mem _ he')⟩
      have he := hx e List.mem_cons_self
      cases e <;> first | exact hcn | cases he
    · rw [hch] at hc₁
      obtain ⟨rfl, rfl⟩ := List.cons.inj hc₁
      refine Or.inr ⟨⟨hun.entry, ?_⟩, cmdline, rest, Or.inr rfl, hx⟩
      intro e' he' hpid
      rw [pending_push, List.mem_append, List.mem_singleton] at he'
      rcases he' with he' | rfl
      · exact hun.event e' he' hpid
      · rfl
    · rw [hch] at hc₁
      obtain ⟨rfl, rfl⟩ := List.cons.inj hc₁
      exact Or.inl ⟨rfl, hx⟩

theorem told_env (ht : s.Told) {e : Event} (hpid : e.pid ≠ s.client.pid)
    (hok : ∀ h ∈ e.xqueue, ¬ s.Uses h) :
    ({ s with scheduler := s.scheduler.push e } : Handover).Told := by
  have hfl : ({ s with scheduler := s.scheduler.push e } : Handover).inFlight =
      s.scheduler.pending ++ e :: s.chan := by
    simp [inFlight, pending_push]
  have hlive : ∀ h o, s.client.Live h o → e.xqueue ≠ some h := by
    intro h o hl hx
    exact hok h hx (Or.inl (by rw [hl.1]; rfl))
  refine ht.frame rfl rfl rfl rfl ?_ ?_ ?_ ?_
  · intro h o hl
    unfold willSay
    rw [hfl]
    refine heard_insert _ _ (hlive h o hl) ?_
    intro hd
    rw [hd] at hpid
    exact hpid rfl
  · intro e' he'
    rw [hfl, List.mem_append, List.mem_cons]
    rcases mem_inFlight.1 he' with he' | he'
    · exact Or.inl he'
    · exact Or.inr (Or.inr he')
  · intro e' he'
    rw [hfl, List.mem_append, List.mem_cons] at he'
    rcases he' with he' | rfl | he'
    · exact Or.inl (mem_inFlight.2 (Or.inl he'))
    · exact Or.inr ⟨hpid, hlive⟩
    · exact Or.inl (mem_inFlight.2 (Or.inr he'))
  · intro hk
    rcases ht.linkage hk with hcn | ⟨hun, hrest⟩
    · exact Or.inl hcn
    · refine Or.inr ⟨⟨hun.entry, ?_⟩, hrest⟩
      intro e' he' hp
      rw [pending_push, List.mem_append, List.mem_singleton] at he'
      rcases he' with he' | rfl
      · exact hun.event e' he' hp
      · exact absurd hp hpid

/-- The entry of a live XQueue is of the process. -/
theorem Owned.entry_pid (ho : s.Owned) {o : XQueueObj} (hl : s.client.Live h o) :
    ∀ q, s.scheduler.status.xqueueStatus.lookup h = some q → q.pid = s.client.pid := by
  intro q hq
  by_contra hne
  exact ho h (Or.inl (by rw [hl.1]; rfl)) (Or.inr ⟨q, hq, hne⟩)

/-- An entry without a level is not suspended: the event that takes a level away
does not exist, and the policy suspends only XQueues that have one. -/
theorem levels_sched (hb : s.Base) (ho : s.Owned) (ht : s.Told) (hag : s.agent = .replaced)
    {a : SchedAct} {scheduler : LocalScheduler} (hc : s.scheduler.StepCases a scheduler)
    (hok : HandsOver s (.sched a)) {q' : XQueueStatus}
    (hq' : scheduler.status.xqueueStatus.lookup h = some q') (hpid : q'.pid = s.client.pid)
    (hlevel : q'.level = kPreemptLevelUnknown) : q'.suspended = false := by
  have hlinked := (LocalScheduler.inv_reachable hb.scheduler).linked
  have hcalls : ∀ calls : List Callback, a = .sched calls →
      (calls.foldl LocalScheduler.callback s.scheduler).status.xqueueStatus.lookup h = some q' →
      q'.suspended = false := by
    intro calls ha hlook
    subst ha
    obtain ⟨q, hq, hp, hl, hsus⟩ := callbacks_suspended hlook
    have hfalse := ht.levels h q hq (hp.symm.trans hpid) (hl.symm.trans hlevel)
    by_contra hb'
    rcases hsus (by simpa using hb') with htrue | hm
    · rw [hfalse] at htrue; cases htrue
    · exact hok h hm q hq hag (hp.symm.trans hpid) (hl.symm.trans hlevel)
  cases hc with
  | run | recvEvent | samePolicy | stopping | wake | terminate => exact ht.levels h q' hq' hpid hlevel
  | @joined _ next hw hr =>
    cases next with
    | none => exact ht.levels h q' hq' hpid hlevel
    | some type =>
      simp only [LocalScheduler.joined, Status.lookup_resumeAll] at hq'
      obtain ⟨q, hq, rfl⟩ := Option.map_eq_some_iff.1 hq'
      rfl
  | @update now e tmp b status pc hw hu hpc =>
    have hfl : e ∈ s.inFlight := mem_inFlight.2 (Or.inl (LocalScheduler.head_pending hw))
    rcases Status.inherits_updateStatus hu hq' with ⟨q, hq, hp, -, hsus⟩ | ⟨-, -, -, -, hnew⟩
    · rw [hsus]
      have hqp : q.pid = s.client.pid := hp.symm.trans hpid
      have huses : s.Uses h := Or.inr (Or.inr ⟨q, hq, hqp⟩)
      have hown : ∀ q₁, s.scheduler.status.xqueueStatus.lookup h = some q₁ →
          q₁.pid = s.client.pid := by
        intro q₁ hq₁
        rw [hq] at hq₁; cases hq₁; exact hqp
      have hview := Status.view_updateStatus hlinked hu hown
      rw [Status.view_of_lookup hq', Status.view_of_lookup hq] at hview
      rcases track_level hview.symm with hl | ⟨hx, hann⟩
      · exact ht.levels h q hq hqp (hl.symm.trans hlevel)
      · have hown : e.pid = s.client.pid := by
          by_contra hne
          exact ho h huses (Or.inl ⟨e, hfl, hne, hx⟩)
        exact absurd hlevel (ht.events e hfl hown _ hann)
    · exact hnew
  | @finish calls b hw => exact hcalls calls rfl hq'
  | @ready calls tmp b hw => exact hcalls calls rfl hq'

theorem told_sched (hb : s.Base) (ho : s.Owned) (ht : s.Told) (hag : s.agent = .replaced)
    (hk : s.kind ≠ .appManaged) {a : SchedAct} {scheduler : LocalScheduler}
    (hrun : a.runs = true) (hs : s.scheduler.step a = some scheduler)
    (hok : HandsOver s (.sched a)) :
    ({ s with
      scheduler := scheduler
      client :=
        if s.reachesClient then s.client.receive (s.scheduler.sinceFor s.client.pid scheduler)
        else s.client } : Handover).Told := by
  have hc := LocalScheduler.step_cases hs
  have hlinked := (LocalScheduler.inv_reachable hb.scheduler).linked
  have hlinked' := (LocalScheduler.inv_reachable (hb.scheduler.step (l := a) hs)).linked
  have hq : Quieter s { s with
      scheduler := scheduler
      client :=
        if s.reachesClient then s.client.receive (s.scheduler.sinceFor s.client.pid scheduler)
        else s.client } := quieter_sched hrun hc
  obtain ⟨-, hpid, hlive⟩ := receive_objs (s.scheduler.sinceFor s.client.pid scheduler)
    s.reachesClient s.client
  have hview : ∀ h o, s.client.Live h o →
      heard s.client.pid h (scheduler.status.view h) (scheduler.pending ++ s.chan) =
        s.willSay h := fun h o hl =>
    hc.heard hrun hlinked (ho.entry_pid hl) s.chan
  refine ⟨?_, ?_, ?_, ?_, ?_, ?_⟩
  · apply ht.settled.sched hlinked hrun hc
    cases hreach : s.reachesClient with
    | true => exact Or.inl rfl
    | false =>
      refine Or.inr ⟨rfl, ?_⟩
      cases hkind : s.kind with
      | appManaged => exact absurd hkind hk
      | inProcess type => simp [reachesClient, hkind] at hreach
      | server =>
        rcases ht.linkage hkind with ⟨hcn, -⟩ | ⟨hun, -⟩
        · simp [reachesClient, hkind, hag, hcn] at hreach
        · exact hun.entry
  · intro h o hl
    have hl₀ := (hlive h o).1 hl
    unfold willSay
    simp only [hpid, inFlight]
    rw [hview h o hl₀]
    exact ht.viewed h o hl₀
  · intro h o hl hnone
    have hl₀ := (hlive h o).1 hl
    unfold willSay at hnone
    simp only [hpid, inFlight] at hnone
    rw [hview h o hl₀] at hnone
    obtain ⟨hlook, hev, hfalse⟩ := ht.bare h o hl₀ hnone
    have hlook' : scheduler.status.xqueueStatus.lookup h = none := by
      cases hq' : scheduler.status.xqueueStatus.lookup h with
      | none => rfl
      | some q' =>
        rcases LocalScheduler.entry_step hc hq' with ⟨q, hq₀, -⟩ | ⟨e, he, hx, -⟩
        · rw [hlook] at hq₀; cases hq₀
        · exact absurd hx (hev e (mem_inFlight.2 (Or.inl he)))
    refine ⟨hlook', ?_, ?_⟩
    · intro e he hx
      exact hev e (hq.events e he (by rw [hx]; rfl)) hx
    · cases hreach : s.reachesClient with
      | false => exact hfalse
      | true =>
        simp only [if_true, Client.receive, Client.decisions, List.flatMap_append]
        rw [← List.append_assoc, outcome_append]
        refine (outcome_others ?_).trans hfalse
        intro d hd
        obtain ⟨op, hop, hd⟩ := List.mem_flatMap.1 hd
        exact calls_operations hlinked' (hc.since (List.mem_of_mem_filter hop)) hlook' d hd
  · intro h q' hq' hp
    rw [hpid] at hp
    exact levels_sched hb ho ht hag hc hok hq' hp
  · intro e he hp level hl
    rw [hpid] at hp
    have hx : e.xqueue.isSome = true := by cases e <;> first | rfl | cases hl
    exact ht.events e (hq.events e he hx) hp level hl
  · intro hks
    rcases ht.linkage hks with hcn | ⟨hun, hrest⟩
    · exact Or.inl hcn
    · refine Or.inr ⟨⟨?_, ?_⟩, ?_⟩
      · intro h q' hq' hp
        rw [hpid] at hp
        rcases LocalScheduler.entry_step hc hq' with ⟨q, hq₀, hp₀, -⟩ | ⟨e, he, hx, hp₀, -⟩
        · exact hun.entry h q hq₀ (hp₀.symm.trans hp)
        · rw [hun.event e he (hp₀.symm.trans hp)] at hx; cases hx
      · intro e he hp
        rw [hpid] at hp
        rcases LocalScheduler.pending_step hc he with he | rfl | hnone
        · exact hun.event e he hp
        · cases hrun
        · exact hnone
      · rw [hpid]; exact hrest

/-! ### A new scheduler

The scheduler is new, or has nothing of the process left. -/

theorem init_live {cmdline : String} {o : XQueueObj}
    (hl : (s.initScheduler cmdline).client.Live h o) : s.client.Live h o := by
  unfold initScheduler at hl
  cases hkind : s.kind <;> simp only [hkind] at hl <;> exact hl

theorem init_decisions (hquiet : s.client.ops = [] ∧ s.client.executor = .idle)
    (cmdline : String) : (s.initScheduler cmdline).client.decisions = [] := by
  have hcl : (s.initScheduler cmdline).client.executor = .idle ∧
      (s.initScheduler cmdline).client.ops = [] := by
    unfold initScheduler
    cases hkind : s.kind <;> exact ⟨hquiet.2, hquiet.1⟩
  simp only [Client.decisions, hcl.1, hcl.2, ExecPc.rest, List.flatMap_nil, List.append_nil]

theorem init_entry (hk : s.kind ≠ .appManaged) {cmdline : String}
    (hok : HandsOver s (.init cmdline)) {q : XQueueStatus}
    (hlook : (s.initScheduler cmdline).scheduler.status.xqueueStatus.lookup h = some q) :
    q.pid ≠ s.client.pid := by
  unfold initScheduler at hlook
  cases hkind : s.kind with
  | appManaged => exact absurd hkind hk
  | inProcess type => simp only [hkind] at hlook; cases hlook
  | server => simp only [hkind] at hlook; exact (hok.2 hkind).2 h q hlook

theorem init_event (hb : s.Base) (hk : s.kind ≠ .appManaged) {cmdline : String}
    (hok : HandsOver s (.init cmdline)) {e : Event} (he : e ∈ (s.initScheduler cmdline).inFlight)
    (hp : e.pid = s.client.pid) : e.xqueue = none := by
  cases hx : e.xqueue with
  | none => rfl
  | some h =>
    have he₀ := (quieter_init cmdline).events e he (by rw [hx]; rfl)
    cases hkind : s.kind with
    | appManaged => exact absurd hkind hk
    | server => exact absurd hp ((hok.2 hkind).1 e he₀)
    | inProcess type =>
      rcases mem_inFlight.1 he with hpend | hch
      · unfold initScheduler at hpend
        simp only [hkind] at hpend
        rw [List.mem_singleton.1 hpend] at hx; cases hx
      · have hnil := hb.chan (by simp [hkind])
        unfold initScheduler at hch
        simp only [hkind] at hch
        rw [hnil] at hch; cases hch

/-- A live XQueue of the process is unknown to it. -/
theorem init_unknown (hb : s.Base) (ho : s.Owned) (hk : s.kind ≠ .appManaged) {cmdline : String}
    (hok : HandsOver s (.init cmdline)) {o : XQueueObj} (hl : s.client.Live h o) :
    (s.initScheduler cmdline).scheduler.status.xqueueStatus.lookup h = none ∧
      ∀ e ∈ (s.initScheduler cmdline).inFlight, e.xqueue ≠ some h := by
  have hq : Quieter s (s.initScheduler cmdline) := quieter_init cmdline
  have hpid : (s.initScheduler cmdline).client.pid = s.client.pid := hq.pid
  have huses : (s.initScheduler cmdline).Uses h := by
    refine Or.inl ?_
    unfold initScheduler
    cases hkind : s.kind <;> simp only [hl.1, Option.isSome_some]
  have hown := ho.quieter hq h huses
  constructor
  · cases hlook : (s.initScheduler cmdline).scheduler.status.xqueueStatus.lookup h with
    | none => rfl
    | some q =>
      exact absurd (Or.inr ⟨q, hlook, by rw [hpid]; exact init_entry hk hok hlook⟩) hown
  · intro e he hx
    by_cases hp : e.pid = s.client.pid
    · rw [init_event hb hk hok he hp] at hx; cases hx
    · exact absurd (Or.inl ⟨e, he, by rw [hpid]; exact hp, hx⟩) hown

/-- Nothing but the messages of the registration is on its way to the server. -/
theorem init_chan (hb : s.Base) {cmdline : String} (hok : HandsOver s (.init cmdline))
    (hks : (s.initScheduler cmdline).kind = .server) :
    (s.initScheduler cmdline).chan =
      [.processDestroy s.client.pid, .processCreate s.client.pid cmdline] := by
  have hkind : s.kind = .server := by
    unfold initScheduler at hks
    cases hkind : s.kind <;> simp only [hkind] at hks
    · exact hks
    · exact hks
    · rfl
  have hchan : s.chan = [] := by
    apply List.eq_nil_iff_forall_not_mem.2
    intro e he
    exact (hok.2 hkind).1 e (mem_inFlight.2 (Or.inr he)) (hb.mine e he)
  unfold initScheduler
  simp only [hkind, hchan, List.nil_append]

/-- The new scheduler knows nothing yet, and nothing is suspended. -/
theorem told_init (hb : s.Base) (ho : s.Owned) (hag : s.agent = .stopped)
    (hk : s.kind ≠ .appManaged) {cmdline : String} (hok : HandsOver s (.init cmdline)) :
    (s.initScheduler cmdline).Told := by
  have hquiet := hb.quiet (Or.inl (by simp [hag]))
  have hpid : (s.initScheduler cmdline).client.pid = s.client.pid :=
    (quieter_init cmdline).pid
  refine ⟨?_, ?_, ?_, ?_, ?_, ?_⟩
  · intro h o q hl hlook hp
    rw [hpid] at hp
    exact absurd hp (init_entry hk hok hlook)
  · intro h o hl
    obtain ⟨hlook, hev⟩ := init_unknown hb ho hk hok (init_live hl)
    refine Or.inl ?_
    unfold willSay
    rw [Status.view_eq_none.2 hlook]
    exact heard_none hev
  · intro h o hl _
    obtain ⟨hlook, hev⟩ := init_unknown hb ho hk hok (init_live hl)
    refine ⟨hlook, hev, ?_⟩
    rw [init_decisions hquiet]
    exact hok.1 h o (init_live hl)
  · intro h q hlook hp
    rw [hpid] at hp
    exact absurd hp (init_entry hk hok hlook)
  · intro e he hp level hl
    rw [hpid] at hp
    have hx : e.xqueue.isSome = true := by cases e <;> first | rfl | cases hl
    rw [init_event hb hk hok he hp] at hx; cases hx
  · intro hks
    refine Or.inr ⟨⟨?_, ?_⟩, cmdline, [], Or.inl ?_, by simp⟩
    · intro h q hlook; rw [hpid]; exact init_entry hk hok hlook
    · intro e he hp
      rw [hpid] at hp
      exact init_event hb hk hok (mem_inFlight.2 (Or.inl he)) hp
    · rw [hpid]; exact init_chan hb hok hks

theorem told_step (hb : s.Base) (ho : s.Owned) (ht : s.Told) (hag : s.agent = .replaced)
    (hk : s.kind ≠ .appManaged) (hc : StepCases s act s') (hok : HandsOver s act) : s'.Told := by
  cases hc with
  | decide hne | leave hne | earlier _ hne => exact absurd hag hne
  | init hst => rw [hag] at hst; cases hst
  | client hv hc => exact told_client hb ht hag hk hv hc
  | deliver hch => exact told_deliver ht hch
  | env hkind hpid => exact told_env ht hpid hok
  | sched hrun hsch hs => exact told_sched hb ho ht hag hk hrun hs hok

/-- With a scheduler of its own, the application's XQueues run on. -/
def AllRun (s : Handover) : Prop := ∀ h o, s.client.Live h o → o.suspended = false

theorem allRun_client (hb : s.Base) (hr : s.AllRun) (hk : s.kind = .appManaged) {a : ClientAct}
    {c : Client} {e : Option Event} (hc : s.client.StepCases a c e) :
    (send e { s with client := c }).AllRun := by
  obtain ⟨hops, hexec⟩ := hb.quiet (Or.inr hk)
  obtain ⟨-, -, hclient, -, -, -⟩ := send_frame (s := { s with client := c }) e
  intro h o' hl
  rw [hclient] at hl
  rcases hc.live hl with ⟨o, hlo, hout⟩ | ⟨hcr, -⟩
  · obtain ⟨hops', hexec'⟩ := hc.idle hops hexec
    simp only [Client.decisions, hops, hexec, hops', hexec', ExecPc.rest, List.flatMap_nil,
      List.append_nil] at hout
    exact hout.trans (hr h o hlo)
  · cases hc with
    | create hh hadd hnone =>
      cases hcr
      obtain ⟨ho', -⟩ := hl
      simp only [← hh, Client.setObj_objs_self, Option.some.injEq] at ho'
      rw [← ho']
    | _ => cases hcr

/-- After the hand-over the new scheduler is told what it has to know. -/
def Handed (s : Handover) : Prop :=
  s.agent = .replaced → (s.kind ≠ .appManaged → s.Told) ∧ (s.kind = .appManaged → s.AllRun)

theorem handed_step (hb : s.Base) (ho : s.Owned) (hi : s.Handed) (hc : StepCases s act s')
    (hok : HandsOver s act) : s'.Handed := by
  by_cases hag : s.agent = .replaced
  · obtain ⟨htold, hrun⟩ := hi hag
    intro _
    have hkind : s'.kind = s.kind := by
      cases hc with
      | client hv hc => exact (send_frame _).1
      | init hst => rw [hag] at hst; cases hst
      | _ => rfl
    rw [hkind]
    refine ⟨fun hk => told_step hb ho (htold hk) hag hk hc hok, fun hk => ?_⟩
    have hr := hrun hk
    cases hc with
    | decide hne | leave hne | earlier _ hne => exact absurd hag hne
    | init hst => rw [hag] at hst; cases hst
    | client hv hc => exact allRun_client hb hr hk hc
    | deliver hch =>
      have hnil := hb.chan (by rw [hk]; nofun)
      rw [hch] at hnil; cases hnil
    | env hs => rw [hk] at hs; cases hs
    | sched hrun₁ hsch => simp [schedulable, hk] at hsch
  · intro hag'
    cases hc with
    | decide | earlier | deliver | env | sched => exact absurd hag' hag
    | client hv hc => exact absurd ((send_frame _).2.1.symm.trans hag') hag
    | leave hne hpc => exact absurd hag' hpc
    | @init cmdline hst =>
      have hkind : (s.initScheduler cmdline).kind = s.kind := by
        unfold initScheduler
        cases hk : s.kind <;> rfl
      rw [hkind]
      refine ⟨fun hk => told_init hb ho hst hk hok, fun hk => ?_⟩
      intro h o hl
      unfold initScheduler at hl
      simp only [hk] at hl
      exact hok.1 h o hl

theorem handed_reachable (hr : (lts.restrict HandsOver).Reachable s) : s.Handed := by
  refine LTS.reachable_induction (I := Handed) ?_ ?_ hr
  · rintro s ⟨type, policy, pid, old, rfl⟩ hag
    cases hag
  · intro s act s' hr hi hs
    exact handed_step (base_reachable hr.of_restrict) (owned_reachable hr) hi (step_cases hs.1) hs.2

theorem noQueueLost_of_handed (ho : s.Owned) (hi : s.Handed) (hd : s.Drained) :
    s.NoQueueLost := by
  obtain ⟨hag, hchan, hblocked, hops, hexec⟩ := hd
  obtain ⟨htold, hrun⟩ := hi hag
  intro h o hobj hreg
  have hl : s.client.Live h o := ⟨hobj, Or.inl hreg⟩
  by_cases hk : s.kind = .appManaged
  · exact Or.inl (hrun hk h o hl)
  · have ht := htold hk
    have hfl : s.inFlight = [] := by
      simp only [inFlight, LocalScheduler.pending, (hblocked hk).1, (hblocked hk).2, hchan,
        List.append_nil]
    have hview : s.willSay h = s.scheduler.status.view h := by rw [willSay, hfl]; rfl
    have hdec : s.client.decisions = [] := by
      simp only [Client.decisions, hops, hexec, ExecPc.rest, List.flatMap_nil, List.append_nil]
    cases hlook : s.scheduler.status.xqueueStatus.lookup h with
    | none =>
      have hbare := (ht.bare h o hl (hview.trans (Status.view_eq_none.2 hlook))).2.2
      rw [hdec] at hbare
      exact Or.inl hbare
    | some q =>
      have hpid := ho.entry_pid hl q hlook
      have hagree : o.suspended = q.suspended := by
        rcases ht.settled h o q hl hlook hpid with ⟨tmp, b, hm⟩ | ⟨e, he, -⟩ | hout
        · rw [(hblocked hk).1] at hm
          rcases hm with hm | hm <;> cases hm
        · rw [hfl] at he; cases he
        · rw [hdec] at hout; exact hout
      cases hsus : o.suspended with
      | false => exact Or.inl rfl
      | true =>
        have hq : q.suspended = true := hagree.symm.trans hsus
        refine Or.inr ⟨hk, q, rfl, hq, ?_⟩
        have hv := ht.viewed h o hl
        rw [hview, Status.view_of_lookup hlook] at hv
        rcases hv with hv | hv | hv
        · cases hv
        · simp only [unannounced, Option.some.injEq, Prod.mk.injEq] at hv
          rw [ht.levels h q hlook hpid hv.2] at hq
          cases hq
        · simp only [Option.some.injEq, Prod.mk.injEq] at hv
          exact hv

end

/-- **The hand-over loses no queue** while the old scheduler leaves no XQueue
suspended and the new one suspends only XQueues that were announced to it: in
every drained state a suspended XQueue is known to the new scheduler. -/
theorem no_queue_lost (s : Handover) (hr : (lts.restrict HandsOver).Reachable s)
    (hd : s.Drained) : s.NoQueueLost :=
  noQueueLost_of_handed (owned_reachable hr) (handed_reachable hr) hd

/-- A step that starts no XQueue and no hand-over, or a decision about XQueues that
were announced. -/
def plain (s : Handover) : HandoverAct → Bool
  | .init _ | .client (.create _ _ _ _ _) | .earlier _ | .env _ => false
  | .sched (.sched calls) => calls.all fun c =>
    match c with
    | .suspend h =>
      (s.scheduler.status.xqueueStatus.lookup h).all fun q => q.level ≠ kPreemptLevelUnknown
    | _ => true
  | _ => true

theorem handsOver_of_plain {s : Handover} {act : HandoverAct} (h : s.plain act = true) :
    HandsOver s act := by
  cases act with
  | init | earlier | env => cases h
  | client a =>
    cases a with
    | create => cases h
    | _ => exact nofun
  | sched a =>
    cases a with
    | sched calls =>
      intro handle hm q hq _ _
      have hc := List.all_eq_true.1 h (.suspend handle) hm
      simpa [hq] using hc
    | _ => trivial
  | _ => trivial

/-- What is left to do, by its parts. -/
def atRest (s : Handover) : Bool :=
  s.agent = .replaced && s.chan.isEmpty && decide s.scheduler.Blocked && s.client.ops.isEmpty &&
    s.client.executor = .idle

theorem drained_of_atRest {s : Handover} (h : s.atRest = true) : s.Drained := by
  simp only [atRest, Bool.and_eq_true, decide_eq_true_eq, List.isEmpty_iff] at h
  obtain ⟨⟨⟨⟨hag, hchan⟩, hblocked⟩, hops⟩, hexec⟩ := h
  exact ⟨hag, hchan, fun _ => hblocked, hops, hexec⟩

/-- Process 1 with a scheduler in the process until now. -/
def before : Handover := start .server 1 .kPolicyHighestPriorityFirst

/-- The process makes an XQueue under the old scheduler. -/
def creating : Handover :=
  let h := (kHandle heapAddr 1).toNat
  let c := before.client.setObj h (some ⟨false, false, .idle, 1, 1, 4, 2⟩)
  { before with client := { c with adding := some h } }

def created : Handover :=
  let h := (kHandle heapAddr 1).toNat
  let c := creating.client.setObj h (some ⟨true, false, .idle, 1, 1, 4, 2⟩)
  { before with client := { c with adding := none } }

/-- The server is the new scheduler. -/
def after : Handover := ({ created with agent := .stopped } : Handover).initScheduler "a"

theorem running_created (h : XQueueHandle) (o : XQueueObj) (ho : created.client.objs h = some o) :
    o.suspended = false := by
  simp only [created, creating, Client.setObj, Function.update_apply] at ho
  split at ho
  · cases ho
    rfl
  · cases ho

theorem reachable_after : (lts.restrict HandsOver).Reachable after := by
  have h₀ : (lts.restrict HandsOver).Reachable before :=
    LTS.reachable_init ⟨.kSchedulerGlobal, none, 1, .kPolicyHighestPriorityFirst, rfl⟩
  have h₁ : (lts.restrict HandsOver).Reachable creating := by
    refine h₀.step (l := .client (.create heapAddr 1 1 4 2)) ⟨rfl, ?_⟩
    rintro h - (⟨e, he, -⟩ | ⟨q, hq, -⟩)
    · cases he
    · cases hq
  have h₂ : (lts.restrict HandsOver).Reachable created := h₁.step (l := .client .add) ⟨rfl, nofun⟩
  have h₃ : (lts.restrict HandsOver).Reachable { created with agent := .stopping } :=
    h₂.step (l := .fini) ⟨rfl, trivial⟩
  have h₄ : (lts.restrict HandsOver).Reachable { created with agent := .stopped } :=
    h₃.step (l := .stopped) ⟨rfl, trivial⟩
  refine h₄.step (l := .init "a") ⟨rfl, fun h o hl => running_created h o hl.1, fun _ => ⟨?_, ?_⟩⟩
  · intro e he
    cases he
  · intro h q hq
    cases hq

/-- An XQueue of the time before the hand-over is announced by a change of its configuration. The
new scheduler suspends it, and knows that. -/
theorem old_queue_known : ∃ s : Handover, s.Drained ∧ s.NoQueueLost ∧
    created.client.Live (kHandle heapAddr 1).toNat ⟨true, false, .idle, 1, 1, 4, 2⟩ ∧
    (s.client.objs (kHandle heapAddr 1).toNat).map (·.suspended) = some true := by
  have htrace : ((LTS.exec (LTS.guarded (fun s act => plain s act = true) step) after
      [.sched .run, .client (.configure (kHandle heapAddr 1).toNat 1 4 2), .deliver, .deliver,
       .deliver, .sched (.wake 7), .sched (.update 7), .sched (.update 7), .sched (.update 7),
       .sched (.sched [.suspend (kHandle heapAddr 1).toNat]), .client .execute, .client .execute,
       .client .execute, .client .execute]).map fun s =>
        (s.atRest, (s.client.objs (kHandle heapAddr 1).toNat).map (·.suspended))) =
      some (true, some true) := by decide
  obtain ⟨s, hs, he⟩ := Option.map_eq_some_iff.1 htrace
  simp only [Prod.mk.injEq] at he
  have hrun : (lts.restrict fun s act => plain s act = true).Run _ _ s := LTS.run_restrict_of_exec hs
  have hr : (lts.restrict HandsOver).Reachable s :=
    reachable_after.run (hrun.restrict_mono fun _ _ => handsOver_of_plain)
  have hd := drained_of_atRest he.1
  exact ⟨s, hd, no_queue_lost s hr hd, ⟨by decide, .inl rfl⟩, he.2⟩

/-- **Counterexample**: the old scheduler has suspended an XQueue, and the server
never hears of it. -/
theorem suspended_queue_lost : ¬ ∀ s, lts.Reachable s → s.Drained → s.NoQueueLost := by
  intro h
  have htrace : ((LTS.exec step before
      [.client (.create heapAddr 1 1 4 2), .client .add, .decide (kHandle heapAddr 1).toNat true,
       .fini, .stopped, .init "a", .sched .run, .deliver, .deliver, .sched (.wake 7),
       .sched (.update 7), .sched (.update 7), .sched (.sched [])]).map fun s =>
        (s.atRest, (s.client.objs (kHandle heapAddr 1).toNat).map fun o =>
          (o.registered, o.suspended),
          (s.scheduler.status.xqueueStatus.lookup (kHandle heapAddr 1).toNat).isNone)) =
      some (true, some (true, true), true) := by decide
  obtain ⟨s, hs, he⟩ := Option.map_eq_some_iff.1 htrace
  simp only [Prod.mk.injEq, Option.isNone_iff_eq_none] at he
  obtain ⟨hrest, hobj, hnone⟩ := he
  obtain ⟨o, ho, hoe⟩ := Option.map_eq_some_iff.1 hobj
  simp only [Prod.mk.injEq] at hoe
  have hr : lts.Reachable s :=
    LTS.reachable_of_exec ⟨.kSchedulerGlobal, none, 1, .kPolicyHighestPriorityFirst, rfl⟩ hs
  rcases h s hr (drained_of_atRest hrest) _ o ho hoe.1 with hfalse | ⟨-, q, hq, -⟩
  · rw [hoe.2] at hfalse; cases hfalse
  · rw [hnone] at hq; cases hq

end Handover
end Xsched.Sched
