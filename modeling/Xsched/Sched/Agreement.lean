import Xsched.Sched.Server
import Xsched.Sched.Settled

/-!
# Agreement of the server and its clients

The server has one `LocalScheduler` and a channel to every process that has
connected; a client sends its events through the one channel of the server.
A decision of the policy changes the status at once and reaches the XQueue
later, in an operation that lists all XQueues of its process. Meanwhile the
process creates and destroys XQueues, at addresses it has used before.

**The argument.** Every client is `Settled`: the calls under way to it leave
its XQueues as their entries say, or a round is to come. It is kept because
the server has a channel to every process whose XQueues it knows
(`Connected`), so that no operation for them is lost.

**The break.** An operation goes to the process that owns the entry. When the
XQueues of two processes have one handle, there is one entry for both, of the
process that came first, and the XQueue of the other is never told.

**Results.**
* `agreement`: while a client creates an XQueue only at a handle that no other
  process uses (`FreshHandle`), a quiescent system agrees on every registered
  XQueue; and an operation makes the right call for every handle.
* `small_pids`: pids below 65536 meet the condition.
* `two_processes_disagree`: pids 1 and 65537.
-/
namespace Xsched.Sched

/-- `clientChans`: `client_chans_` has a channel to the process. -/
structure System where
  server : Server
  clientChans : PID → Bool
  clients : PID → Client

inductive SystemAct where
  | connect (pid : PID) (cmdline : String)
  | client (pid : PID) (act : ClientAct)
  | server (act : ServerAct)
  deriving DecidableEq

/-- No client exits, and the policy stays. -/
def ServerAct.runs : ServerAct → Bool
  | .recv | .addWait false | .forward | .sendHint => true
  | .sched act => act.runs
  | _ => false

namespace System

def init (type : XPolicyType) : System := ⟨.init type, fun _ => false, Client.init⟩

def setClient (pid : PID) (c : Client) (s : System) : System :=
  { s with clients := Function.update s.clients pid c }

/-- `SendEvent` of a process that has a scheduler. -/
def send (e : Option Event) (s : System) : Option System :=
  match e with
  | none => some s
  | some e => (s.server.step (.send e)).map fun server => { s with server }

/-- The `ProcessCreateEvent` that `RecvWorker` takes from the channel.
mirrors service/server/src/server.cpp:117-132 -/
def admits (s : Server) : ServerAct → Option PID
  | .recv =>
    match s.recvWorker, s.chan with
    | .receiving, .processCreate pid _ :: _ => some pid
    | _, _ => none
  | _ => none

/-- `Server::Execute`, on the operations of a round.
mirrors service/server/src/server.cpp:172-192 -/
def transmit (ops : List SchedOperation) (s : System) : System :=
  { s with clients := fun pid =>
      if s.clientChans pid then (s.clients pid).receive (ops.filter (·.pid = pid))
      else s.clients pid }

/-- mirrors preempt/src/sched/agent.cpp:59-107 for `connect` -/
def step (s : System) : SystemAct → Option System
  | .connect pid cmdline =>
    if (s.clients pid).started then none
    else (s.setClient pid { s.clients pid with started := true }).send
      (some (.processCreate pid cmdline))
  | .client pid act =>
    match (s.clients pid).step act with
    | none => none
    | some (c, e) => (s.setClient pid c).send e
  | .server act =>
    if act.runs then
      (s.server.step act).map fun server =>
        transmit (s.server.scheduler.since server.scheduler)
          { s with
            server
            clientChans := match admits s.server act with
              | some pid => Function.update s.clientChans pid true
              | none => s.clientChans }
    else none

def lts : LTS System SystemAct := .ofFn (fun s => ∃ type, s = init type) step

/-- All channels and queues are empty and nobody executes an operation. -/
def Quiescent (s : System) : Prop :=
  s.server.chan = [] ∧ s.server.recvWorker = .receiving ∧ s.server.scheduler.Blocked ∧
    ∀ pid, (s.clients pid).ops = [] ∧ (s.clients pid).executor = .idle

/-- Every registered XQueue that has an entry is suspended if the entry says so. -/
def Agree (s : System) : Prop :=
  ∀ pid h o q, (s.clients pid).objs h = some o → o.registered = true →
    s.server.scheduler.status.xqueueStatus.lookup h = some q → o.suspended = q.suspended

/-- The process has an XQueue `h`, or the server has heard, or is about to
hear, of one. -/
def Uses (s : System) (pid : PID) (h : XQueueHandle) : Prop :=
  ((s.clients pid).objs h).isSome = true ∨
  (∃ e ∈ s.server.inFlight, e.pid = pid ∧ e.xqueue = some h) ∨
  ∃ q, s.server.scheduler.status.xqueueStatus.lookup h = some q ∧ q.pid = pid

/-- An XQueue is created at a handle that no other process uses. -/
def FreshHandle (s : System) : SystemAct → Prop
  | .client pid act => ∀ h ∈ (s.clients pid).creates act, ∀ pid', s.Uses pid' h → pid' = pid
  | _ => True

/-! ## What a step can do -/

inductive StepCases (s : System) : SystemAct → System → Prop
  | connect {pid : PID} {cmdline : String} (hst : (s.clients pid).started = false) :
    StepCases s (.connect pid cmdline)
      { s.setClient pid { s.clients pid with started := true } with
        server := { s.server with chan := s.server.chan ++ [.processCreate pid cmdline] } }
  | quiet {pid : PID} {act : ClientAct} {c : Client}
      (hc : (s.clients pid).StepCases act c none) :
    StepCases s (.client pid act) (s.setClient pid c)
  | sends {pid : PID} {act : ClientAct} {c : Client} {e : Event}
      (hc : (s.clients pid).StepCases act c (some e)) :
    StepCases s (.client pid act)
      { s.setClient pid c with server := { s.server with chan := s.server.chan ++ [e] } }
  | accept {pid : PID} {cmdline : String} {chan : List Event}
      (hpc : s.server.recvWorker = .receiving)
      (hc : s.server.chan = .processCreate pid cmdline :: chan) :
    StepCases s (.server .recv) { s with
      server := { s.server.processTerminate pid with
        chan := chan
        recvWorker := .adding pid cmdline }
      clientChans := Function.update s.clientChans pid true }
  | recv {e : Event} {chan : List Event} (hpc : s.server.recvWorker = .receiving)
      (hc : s.server.chan = e :: chan) (hne : ∀ pid cmdline, e ≠ .processCreate pid cmdline) :
    StepCases s (.server .recv) { s with
      server := { s.server with chan := chan, recvWorker := .forwarding e } }
  | addWait {pid : PID} {cmdline : String} (hpc : s.server.recvWorker = .adding pid cmdline) :
    StepCases s (.server (.addWait false)) { s with
      server := { s.server with
        waits := Function.update s.server.waits pid true
        recvWorker := .forwarding (.processCreate pid cmdline) } }
  | forward {e : Event} (hpc : s.server.recvWorker = .forwarding e) :
    StepCases s (.server .forward) { s with
      server := { s.server with
        scheduler := s.server.scheduler.push e
        recvWorker := .receiving } }
  | sendHint : StepCases s (.server .sendHint) { s with
      server := { s.server with scheduler := s.server.scheduler.push (.hint kServerPid) } }
  | sched {act : SchedAct} {scheduler : LocalScheduler} (hrun : (ServerAct.sched act).runs = true)
      (hs : s.server.scheduler.step act = some scheduler) :
    StepCases s (.server (.sched act))
      (transmit (s.server.scheduler.since scheduler)
        { s with server := { s.server with scheduler := scheduler } })

theorem transmit_nil (s : System) : transmit [] s = s := by
  obtain ⟨server, clientChans, clients⟩ := s
  simp only [transmit, System.mk.injEq, true_and]
  funext pid
  split
  · simp
  · rfl

/-- A step outside of the scheduler executes no operation. -/
theorem transmit_same {sc sc' : LocalScheduler} (h : sc'.executed = sc.executed) (s : System) :
    transmit (sc.since sc') s = s := by
  rw [LocalScheduler.since, h, List.drop_length]; exact transmit_nil s

theorem send_cases {s s' : System} {e : Event} (h : s.send (some e) = some s') :
    s' = { s with server := { s.server with chan := s.server.chan ++ [e] } } := by
  simp only [send, Option.map_eq_some_iff] at h
  obtain ⟨server, hs, rfl⟩ := h
  cases Server.step_cases hs
  rfl

theorem step_cases {s s' : System} {act : SystemAct} (h : step s act = some s') :
    StepCases s act s' := by
  cases act with
  | connect pid cmdline =>
    simp only [step] at h
    split at h
    · cases h
    · rename_i hst
      rw [send_cases h]
      exact .connect (by simpa using hst)
  | client pid act =>
    simp only [step] at h
    split at h
    · cases h
    · rename_i c e hs
      cases e with
      | none => cases h; exact .quiet (Client.step_cases hs)
      | some e => rw [send_cases h]; exact .sends (Client.step_cases hs)
  | server act =>
    simp only [step] at h
    split at h
    · rename_i hrun
      obtain ⟨server, hs, rfl⟩ := Option.map_eq_some_iff.1 h
      cases Server.step_cases hs with
      | send | die | gone | terminated => cases hrun
      | recvCreate hpc hc =>
        rw [transmit_same]
        · simp only [admits, hpc, hc]
          exact .accept hpc hc
        · rfl
      | @recv e chan hpc hc =>
        have hnot : ∀ pid cmdline, e ≠ .processCreate pid cmdline := by
          rintro pid cmdline rfl
          simp only [Server.step, hpc, hc, Option.some.injEq] at hs
          injection hs with h₁ h₂
          cases h₂
        have hadm : admits s.server .recv = none := by
          unfold admits
          simp only [hpc, hc]
          split
          · rename_i heq
            exact absurd (List.cons.inj heq).1 (hnot _ _)
          · rfl
        rw [transmit_same]
        · rw [hadm]
          exact .recv hpc hc hnot
        · rfl
      | addWait hpc =>
        rw [transmit_same]
        · exact .addWait hpc
        · rfl
      | forward hpc =>
        rw [transmit_same]
        · exact .forward hpc
        · rfl
      | sendHint =>
        rw [transmit_same]
        · exact .sendHint
        · rfl
      | sched hact hstep => exact .sched hrun hstep
    · cases h

/-! ## The messages of a process on their way -/

section
variable {s s' : System} {act : SystemAct} {pid : PID} {h : XQueueHandle}

theorem mem_inFlight {sv : Server} {e : Event} :
    e ∈ sv.inFlight ↔ e ∈ sv.scheduler.pending ∨ e ∈ sv.held ∨ e ∈ sv.chan := by
  simp only [Server.inFlight, Server.unforwarded, List.mem_append]

theorem mem_pending_push {sc : LocalScheduler} {e e₀ : Event} :
    e ∈ (sc.push e₀).pending ↔ e ∈ sc.pending ∨ e = e₀ := by
  have hp : (sc.push e₀).pending = sc.pending ++ [e₀] := LocalScheduler.pending_append rfl rfl
  rw [hp, List.mem_append, List.mem_singleton]

/-- A step of `RecvWorker`, or a hint, moves the messages about XQueues on and
leaves the rest to the scheduler. -/
structure Forwards (sv sv' : Server) : Prop where
  status : sv'.scheduler.status = sv.scheduler.status
  worker : sv'.scheduler.worker = sv.scheduler.worker
  xqueue : ∀ e, e.xqueue.isSome = true → (e ∈ sv'.inFlight ↔ e ∈ sv.inFlight)

/-- What a step can do to the clients and to the scheduler. -/
inductive StepKinds (s s' : System) (act : SystemAct) : Prop
  | connect {pid : PID} {cmdline : String} (hst : (s.clients pid).started = false)
      (hs : s' = { s.setClient pid { s.clients pid with started := true } with
        server := { s.server with chan := s.server.chan ++ [.processCreate pid cmdline] } })
  | client {pid : PID} {a : ClientAct} {c : Client} {e : Option Event} (ha : act = .client pid a)
      (hc : (s.clients pid).StepCases a c e)
      (hs : s' = { s.setClient pid c with
        server := { s.server with chan := s.server.chan ++ e.toList } })
  | forwards (hf : Forwards s.server s'.server) (hs : s'.clients = s.clients)
  | sched {a : SchedAct} {scheduler : LocalScheduler} (hrun : (ServerAct.sched a).runs = true)
      (hc : s.server.scheduler.StepCases a scheduler)
      (hs : s' = transmit (s.server.scheduler.since scheduler)
        { s with server := { s.server with scheduler := scheduler } })

theorem StepCases.kinds (hc : StepCases s act s') : StepKinds s s' act := by
  cases hc with
  | connect hst => exact .connect hst rfl
  | quiet hc =>
    refine .client rfl hc ?_
    simp only [Option.toList_none, List.append_nil]
    rfl
  | sends hc => exact .client rfl hc rfl
  | @accept pid cmdline chan hpc hc =>
    refine .forwards ⟨rfl, rfl, ?_⟩ rfl
    intro e he
    have hne : ∀ pid, e ≠ .processDestroy pid := by rintro pid rfl; cases he
    simp only [mem_inFlight, Server.processTerminate, mem_pending_push, Server.held, hpc, hc]
    simp [hne]
  | recv hpc hc hne =>
    refine .forwards ⟨rfl, rfl, ?_⟩ rfl
    intro e he
    simp only [mem_inFlight, Server.held, hpc, hc]
    simp
  | addWait hpc =>
    refine .forwards ⟨rfl, rfl, ?_⟩ rfl
    intro e he
    simp only [mem_inFlight, Server.held, hpc]
  | forward hpc =>
    refine .forwards ⟨rfl, rfl, ?_⟩ rfl
    intro e he
    simp only [mem_inFlight, mem_pending_push, Server.held, hpc]
    simp [or_assoc]
  | sendHint =>
    refine .forwards ⟨rfl, rfl, ?_⟩ rfl
    intro e he
    have hne : ∀ pid, e ≠ .hint pid := by rintro pid rfl; cases he
    simp only [mem_inFlight, mem_pending_push, Server.held, hne, or_false]
  | sched hrun hs => exact .sched hrun (LocalScheduler.step_cases hs) rfl

theorem transmit_objs {ops : List SchedOperation} :
    ((transmit ops s).clients pid).objs = (s.clients pid).objs := by
  simp only [transmit]; split <;> rfl

theorem transmit_pid {ops : List SchedOperation} :
    ((transmit ops s).clients pid).pid = (s.clients pid).pid := by
  simp only [transmit]; split <;> rfl

theorem setClient_self (c : Client) : (s.setClient pid c).clients pid = c :=
  Function.update_self ..

theorem setClient_ne {pid' : PID} (hne : pid' ≠ pid) (c : Client) :
    (s.setClient pid c).clients pid' = s.clients pid' := Function.update_of_ne hne ..

/-! ## Who uses a handle -/

theorem pid_step (hp : ∀ pid, (s.clients pid).pid = pid) (hk : StepKinds s s' act) (pid : PID) :
    (s'.clients pid).pid = pid := by
  cases hk with
  | @connect pid₁ cmdline hst hs =>
    subst hs
    by_cases hpid : pid = pid₁
    · subst hpid; exact (congrArg Client.pid (setClient_self ..)).trans (hp pid)
    · exact (congrArg Client.pid (setClient_ne hpid _)).trans (hp pid)
  | @client pid₁ a c e ha hc hs =>
    subst hs
    by_cases hpid : pid = pid₁
    · subst hpid
      exact (congrArg Client.pid (setClient_self ..)).trans (hc.frame.1.trans (hp pid))
    · exact (congrArg Client.pid (setClient_ne hpid _)).trans (hp pid)
  | forwards hf hs => rw [hs]; exact hp pid
  | sched hrun hc hs => rw [hs]; exact transmit_pid.trans (hp pid)

theorem pid_reachable (hr : lts.Reachable s) (pid : PID) : (s.clients pid).pid = pid := by
  refine LTS.reachable_induction (I := fun s => ∀ pid, (s.clients pid).pid = pid) ?_ ?_ hr pid
  · rintro s ⟨type, rfl⟩ pid; rfl
  · intro s act s' _ hi hs; exact pid_step hi (step_cases hs).kinds

/-- A process comes to use a handle only by creating an XQueue there. -/
theorem uses_step (hp : ∀ pid, (s.clients pid).pid = pid) (hk : StepKinds s s' act)
    (hu : s'.Uses pid h) :
    s.Uses pid h ∨ ∃ a, act = .client pid a ∧ (s.clients pid).creates a = some h := by
  cases hk with
  | @connect pid₁ cmdline hst hs =>
    subst hs
    refine Or.inl ?_
    rcases hu with ho | ⟨e, he, hpid, hx⟩ | hq
    · refine Or.inl ?_
      by_cases hpid : pid = pid₁
      · subst hpid; rwa [show _ = _ from setClient_self ..] at ho
      · rwa [show _ = _ from setClient_ne hpid _] at ho
    · refine Or.inr (Or.inl ⟨e, ?_, hpid, hx⟩)
      simp only [mem_inFlight, List.mem_append, List.mem_singleton] at he ⊢
      rcases he with he | he | he | rfl
      · exact Or.inl he
      · exact Or.inr (Or.inl he)
      · exact Or.inr (Or.inr he)
      · cases hx
    · exact Or.inr (Or.inr hq)
  | @client pid₁ a c e ha hc hs =>
    subst hs
    have hown : ∀ {x : Prop}, (x ∨ (s.clients pid₁).creates a = some h) →
        (x → s.Uses pid₁ h) → pid = pid₁ →
        s.Uses pid h ∨ ∃ a, act = .client pid a ∧ (s.clients pid).creates a = some h := by
      rintro x (hx | hx) huse rfl
      · exact Or.inl (huse hx)
      · exact Or.inr ⟨a, ha, hx⟩
    rcases hu with ho | ⟨e', he, hpid, hx⟩ | hq
    · by_cases hpid : pid = pid₁
      · subst hpid
        rw [show _ = _ from setClient_self ..] at ho
        exact hown (hc.objs ho) Or.inl rfl
      · rw [show _ = _ from setClient_ne hpid _] at ho
        exact Or.inl (Or.inl ho)
    · simp only [mem_inFlight, List.mem_append] at he
      rcases he with he | he | he | he
      · exact Or.inl (Or.inr (Or.inl ⟨e', mem_inFlight.2 (Or.inl he), hpid, hx⟩))
      · exact Or.inl (Or.inr (Or.inl ⟨e', mem_inFlight.2 (Or.inr (Or.inl he)), hpid, hx⟩))
      · exact Or.inl (Or.inr (Or.inl ⟨e', mem_inFlight.2 (Or.inr (Or.inr he)), hpid, hx⟩))
      · cases e with
        | none => cases he
        | some e =>
          simp only [Option.toList_some, List.mem_singleton] at he
          subst he
          obtain ⟨-, hpid', h', hx', hobj⟩ := hc.event
          obtain rfl : h' = h := Option.some.inj (hx'.symm.trans hx)
          exact hown hobj Or.inl (hpid.symm.trans (hpid'.trans (hp pid₁)))
    · exact Or.inl (Or.inr (Or.inr hq))
  | forwards hf hs =>
    refine Or.inl ?_
    rcases hu with ho | ⟨e, he, hpid, hx⟩ | ⟨q, hq, hpid⟩
    · rw [hs] at ho; exact Or.inl ho
    · exact Or.inr (Or.inl ⟨e, (hf.xqueue e (by rw [hx]; rfl)).1 he, hpid, hx⟩)
    · rw [hf.status] at hq; exact Or.inr (Or.inr ⟨q, hq, hpid⟩)
  | @sched a scheduler hrun hc hs =>
    subst hs
    refine Or.inl ?_
    rcases hu with ho | ⟨e, he, hpid, hx⟩ | ⟨q, hq, hpid⟩
    · rw [transmit_objs] at ho; exact Or.inl ho
    · refine Or.inr (Or.inl ⟨e, ?_, hpid, hx⟩)
      rcases mem_inFlight.1 he with he | he | he
      · rcases LocalScheduler.pending_step hc he with he | rfl | hnone
        · exact mem_inFlight.2 (Or.inl he)
        · cases hrun
        · rw [hnone] at hx; cases hx
      · exact mem_inFlight.2 (Or.inr (Or.inl he))
      · exact mem_inFlight.2 (Or.inr (Or.inr he))
    · rcases LocalScheduler.entry_step hc hq with ⟨q₀, hq₀, hp₀, -⟩ | ⟨e, he, hx, hp₀, -⟩
      · exact Or.inr (Or.inr ⟨q₀, hq₀, hp₀.symm.trans hpid⟩)
      · exact Or.inr (Or.inl ⟨e, mem_inFlight.2 (Or.inl he), hp₀.symm.trans hpid, hx⟩)

/-- A handle has one process. -/
def Owned (s : System) : Prop := ∀ h pid pid', s.Uses pid h → s.Uses pid' h → pid = pid'

theorem owned_step (hp : ∀ pid, (s.clients pid).pid = pid) (ho : s.Owned)
    (hk : StepKinds s s' act) (hok : FreshHandle s act) : s'.Owned := by
  intro h pid pid' hu hu'
  rcases uses_step hp hk hu with hu | ⟨a, rfl, ha⟩
  · rcases uses_step hp hk hu' with hu' | ⟨a, rfl, ha⟩
    · exact ho h pid pid' hu hu'
    · exact hok h ha pid hu
  · rcases uses_step hp hk hu' with hu' | ⟨a', ha', -⟩
    · exact (hok h ha pid' hu').symm
    · cases ha'; rfl

theorem owned_reachable (hr : (lts.restrict FreshHandle).Reachable s) : s.Owned := by
  refine LTS.reachable_induction (I := Owned) ?_ ?_ hr
  · rintro s ⟨type, rfl⟩ h pid pid' hu
    rcases hu with ho | ⟨e, he, -⟩ | ⟨q, hq, -⟩
    · cases ho
    · cases he
    · cases hq
  · intro s act s' hr hi hs
    exact owned_step (pid_reachable hr.of_restrict) hi (step_cases hs.1).kinds hs.2

/-! ## Which processes have a channel -/

/-- The processes with a channel after `RecvWorker` has taken the messages. -/
def admitted (chans : PID → Bool) : List Event → PID → Bool
  | [] => chans
  | .processCreate pid _ :: es => admitted (Function.update chans pid true) es
  | _ :: es => admitted chans es

/-- No message about an XQueue comes from a process without a channel. -/
def Known (chans : PID → Bool) : List Event → Prop
  | [] => True
  | .processCreate pid _ :: es => Known (Function.update chans pid true) es
  | e :: es => (e.xqueue.isSome = true → chans e.pid = true) ∧ Known chans es

theorem admitted_of {es : List Event} {chans : PID → Bool} (h : chans pid = true) :
    admitted chans es pid = true := by
  induction es generalizing chans with
  | nil => exact h
  | cons e es ih =>
    cases e with
    | processCreate pid' cmdline =>
      apply ih
      rw [Function.update_apply]
      split
      · rfl
      · exact h
    | _ => exact ih h

theorem admitted_create {es : List Event} {chans : PID → Bool} {pid' : PID} {cmdline : String} :
    admitted chans (es ++ [.processCreate pid' cmdline]) pid =
      Function.update (admitted chans es) pid' true pid := by
  induction es generalizing chans with
  | nil => rfl
  | cons e es ih => cases e <;> exact ih

theorem admitted_send {es : List Event} {chans : PID → Bool} {e : Event}
    (he : e.xqueue.isSome = true) : admitted chans (es ++ [e]) pid = admitted chans es pid := by
  induction es generalizing chans with
  | nil => cases e <;> first | rfl | cases he
  | cons e₁ es ih => cases e₁ <;> exact ih

theorem known_create {es : List Event} {chans : PID → Bool} {pid' : PID} {cmdline : String}
    (hk : Known chans es) : Known chans (es ++ [.processCreate pid' cmdline]) := by
  induction es generalizing chans with
  | nil => trivial
  | cons e es ih =>
    cases e with
    | processCreate pid₁ c => exact ih hk
    | _ => exact ⟨hk.1, ih hk.2⟩

theorem known_send {es : List Event} {chans : PID → Bool} {e : Event} (hk : Known chans es)
    (he : e.xqueue.isSome = true) (hpid : admitted chans es e.pid = true) :
    Known chans (es ++ [e]) := by
  induction es generalizing chans with
  | nil => cases e <;> first | exact ⟨fun _ => hpid, trivial⟩ | cases he
  | cons e₁ es ih =>
    cases e₁ with
    | processCreate pid₁ c => exact ih hk hpid
    | _ => exact ⟨hk.1, ih hk.2 hpid⟩

/-- The server has a channel to every process whose XQueues it knows. -/
structure Connected (s : System) : Prop where
  started : ∀ pid, (s.clients pid).started = admitted s.clientChans s.server.chan pid
  known : Known s.clientChans s.server.chan
  arrived : ∀ e, e ∈ s.server.scheduler.pending ∨ e ∈ s.server.held →
    e.xqueue.isSome = true → s.clientChans e.pid = true
  entry : ∀ h q, s.server.scheduler.status.xqueueStatus.lookup h = some q →
    s.clientChans q.pid = true

theorem connected_init (type : XPolicyType) : (init type).Connected := by
  refine ⟨fun pid => rfl, trivial, ?_, ?_⟩
  · rintro e (he | he) <;> cases he
  · intro h q hq; cases hq

theorem update_true {chans : PID → Bool} {pid' : PID} (h : chans pid = true) :
    Function.update chans pid' true pid = true := by
  rw [Function.update_apply]
  split
  · rfl
  · exact h

theorem started_setClient {pid₁ : PID} (c : Client) (pid : PID) :
    ((s.setClient pid₁ c).clients pid).started =
      Function.update (fun pid => (s.clients pid).started) pid₁ c.started pid := by
  by_cases hpid : pid = pid₁
  · subst hpid
    rw [setClient_self, Function.update_self]
  · rw [setClient_ne hpid, Function.update_of_ne hpid]

/-- Calls of a client do not start it. -/
theorem started_client {pid₁ : PID} {a : ClientAct} {c : Client} {e : Option Event}
    (hc : (s.clients pid₁).StepCases a c e) (pid : PID) :
    ((s.setClient pid₁ c).clients pid).started = (s.clients pid).started := by
  rw [started_setClient, hc.frame.2]
  exact congrFun (Function.update_eq_self pid₁ fun pid => (s.clients pid).started) pid

/-- What the worker is given comes from a process with a channel. -/
theorem arrived_push {chans : PID → Bool} {sc : LocalScheduler} {e₁ : Event}
    (hold : ∀ e ∈ sc.pending, e.xqueue.isSome = true → chans e.pid = true)
    (hnew : e₁.xqueue.isSome = true → chans e₁.pid = true) :
    ∀ e ∈ (sc.push e₁).pending, e.xqueue.isSome = true → chans e.pid = true := by
  intro e he hx
  rcases mem_pending_push.1 he with he | rfl
  · exact hold e he hx
  · exact hnew hx

/-- `connect` sends the event of its process. -/
theorem Connected.connect (hi : s.Connected) (pid₁ : PID) (cmdline : String) :
    Connected { s.setClient pid₁ { s.clients pid₁ with started := true } with
      server := { s.server with chan := s.server.chan ++ [.processCreate pid₁ cmdline] } } := by
  refine ⟨?_, known_create hi.known, hi.arrived, hi.entry⟩
  intro pid
  have hold : (fun pid => (s.clients pid).started) =
      admitted s.clientChans s.server.chan := funext hi.started
  calc ((s.setClient pid₁ { s.clients pid₁ with started := true }).clients pid).started
      = Function.update (fun pid => (s.clients pid).started) pid₁ true pid :=
        started_setClient ..
    _ = Function.update (admitted s.clientChans s.server.chan) pid₁ true pid := by rw [hold]
    _ = admitted s.clientChans (s.server.chan ++ [.processCreate pid₁ cmdline]) pid :=
        admitted_create.symm

/-- A client that sends has started. -/
theorem Connected.sends (hp : ∀ pid, (s.clients pid).pid = pid) (hi : s.Connected) {pid₁ : PID}
    {a : ClientAct} {c : Client} {e : Event} (hc : (s.clients pid₁).StepCases a c (some e)) :
    Connected { s.setClient pid₁ c with
      server := { s.server with chan := s.server.chan ++ [e] } } := by
  obtain ⟨hst, hpid₁, h₁, hx, -⟩ := hc.event
  have he : e.xqueue.isSome = true := by rw [hx]; rfl
  refine ⟨fun pid => ?_, known_send hi.known he ?_, hi.arrived, hi.entry⟩
  · exact (started_client hc pid).trans ((hi.started pid).trans (admitted_send he).symm)
  · rw [hpid₁, hp]
    exact (hi.started pid₁).symm.trans hst

/-- `RecvWorker` makes the channel of a process when it takes its first message. -/
theorem Connected.accept (hi : s.Connected) {pid₁ : PID} {cmdline : String} {chan : List Event}
    (hch : s.server.chan = .processCreate pid₁ cmdline :: chan) :
    Connected { s with
      server := { s.server.processTerminate pid₁ with
        chan := chan
        recvWorker := .adding pid₁ cmdline }
      clientChans := Function.update s.clientChans pid₁ true } := by
  obtain ⟨hstarted, hknown, harrived, hentry⟩ := hi
  rw [hch] at hstarted hknown
  refine ⟨hstarted, hknown, ?_, fun h q hq => update_true (hentry h q hq)⟩
  rintro e (he | he) hx
  · refine arrived_push (fun e he hx => update_true (harrived e (Or.inl he) hx)) ?_ e he hx
    exact fun hx => absurd hx Bool.false_ne_true
  · obtain rfl := List.mem_singleton.1 he
    cases hx

theorem Connected.recv (hi : s.Connected) {e₁ : Event} {chan : List Event}
    (hch : s.server.chan = e₁ :: chan) (hne : ∀ pid cmdline, e₁ ≠ .processCreate pid cmdline) :
    Connected { s with
      server := { s.server with chan := chan, recvWorker := .forwarding e₁ } } := by
  obtain ⟨hstarted, hknown, harrived, hentry⟩ := hi
  rw [hch] at hstarted hknown
  have hadm : ∀ pid, admitted s.clientChans (e₁ :: chan) pid =
      admitted s.clientChans chan pid := by
    intro pid
    cases e₁ with
    | processCreate pid₁ c => exact absurd rfl (hne pid₁ c)
    | _ => rfl
  have hk : (e₁.xqueue.isSome = true → s.clientChans e₁.pid = true) ∧
      Known s.clientChans chan := by
    cases e₁ with
    | processCreate pid₁ c => exact absurd rfl (hne pid₁ c)
    | _ => exact hknown
  refine ⟨fun pid => (hstarted pid).trans (hadm pid), hk.2, ?_, hentry⟩
  rintro e (he | he) hx
  · exact harrived e (Or.inl he) hx
  · obtain rfl := List.mem_singleton.1 he
    exact hk.1 hx

/-- The worker adds to its entries and its queue what has arrived. -/
theorem Connected.sched (hi : s.Connected) {a : SchedAct} {scheduler : LocalScheduler}
    (hrun : (ServerAct.sched a).runs = true)
    (hc : s.server.scheduler.StepCases a scheduler) :
    (transmit (s.server.scheduler.since scheduler)
      { s with server := { s.server with scheduler := scheduler } }).Connected := by
  refine ⟨?_, hi.known, ?_, ?_⟩
  · intro pid
    refine Eq.trans ?_ (hi.started pid)
    simp only [transmit]
    split <;> rfl
  · rintro e (he | he) hx
    · rcases LocalScheduler.pending_step hc he with he | rfl | hnone
      · exact hi.arrived e (Or.inl he) hx
      · cases hrun
      · rw [hnone] at hx; cases hx
    · exact hi.arrived e (Or.inr he) hx
  · intro h q hq
    rcases LocalScheduler.entry_step hc hq with ⟨q₀, hq₀, hp₀, -⟩ | ⟨e, he, hx, hp₀, -⟩
    · rw [hp₀]; exact hi.entry h q₀ hq₀
    · rw [hp₀]; exact hi.arrived e (Or.inl he) (by rw [hx]; rfl)

theorem connected_step (hp : ∀ pid, (s.clients pid).pid = pid) (hi : s.Connected)
    (hc : StepCases s act s') : s'.Connected := by
  have hpending : ∀ e ∈ s.server.scheduler.pending, e.xqueue.isSome = true →
      s.clientChans e.pid = true := fun e he => hi.arrived e (Or.inl he)
  cases hc with
  | @connect pid₁ cmdline hst => exact hi.connect pid₁ cmdline
  | @quiet pid₁ a c hc =>
    exact ⟨fun pid => (started_client hc pid).trans (hi.started pid), hi.known, hi.arrived,
      hi.entry⟩
  | @sends pid₁ a c e hc => exact hi.sends hp hc
  | @accept pid₁ cmdline chan hpc hch => exact hi.accept hch
  | @recv e₁ chan hpc hch hne => exact hi.recv hch hne
  | addWait hpc =>
    refine ⟨hi.started, hi.known, ?_, hi.entry⟩
    rintro e (he | he) hx
    · exact hpending e he hx
    · obtain rfl := List.mem_singleton.1 he
      cases hx
  | @forward e₁ hpc =>
    have hheld : e₁ ∈ s.server.held := by simp only [Server.held, hpc, List.mem_singleton]
    refine ⟨hi.started, hi.known, ?_, hi.entry⟩
    rintro e (he | he) hx
    · exact arrived_push hpending (hi.arrived e₁ (Or.inr hheld)) e he hx
    · cases he
  | sendHint =>
    refine ⟨hi.started, hi.known, ?_, hi.entry⟩
    rintro e (he | he) hx
    · refine arrived_push hpending ?_ e he hx
      exact fun hx => absurd hx Bool.false_ne_true
    · exact hi.arrived e (Or.inr he) hx
  | @sched a scheduler hrun hs => exact hi.sched hrun (LocalScheduler.step_cases hs)

theorem connected_reachable (hr : lts.Reachable s) : s.Connected := by
  refine LTS.reachable_induction (I := Connected) ?_ ?_ hr
  · rintro s ⟨type, rfl⟩; exact connected_init type
  · intro s act s' hr hi hs
    exact connected_step (pid_reachable hr) hi (step_cases hs)

/-- A process with an entry has a scheduler to send its events to. -/
theorem Connected.started_of_entry (hi : s.Connected) {q : XQueueStatus}
    (hq : s.server.scheduler.status.xqueueStatus.lookup h = some q) :
    (s.clients q.pid).started = true := by
  rw [hi.started]
  exact admitted_of (hi.entry h q hq)

/-- The scheduler of the server runs as a `LocalScheduler`. -/
theorem scheduler_reachable (hr : lts.Reachable s) :
    LocalScheduler.lts.Reachable s.server.scheduler := by
  refine LTS.reachable_map (N := LocalScheduler.lts) (fun s => s.server.scheduler) ?_ ?_ hr
  · rintro s ⟨type, rfl⟩; exact ⟨type, rfl⟩
  · intro s act s' _ hs
    cases step_cases hs with
    | connect | quiet | sends | recv | addWait => exact Or.inl rfl
    | @accept pid => exact Or.inr ⟨.recvEvent (.processDestroy pid), rfl⟩
    | @forward e => exact Or.inr ⟨.recvEvent e, rfl⟩
    | sendHint => exact Or.inr ⟨.recvEvent (.hint kServerPid), rfl⟩
    | @sched a scheduler hrun hstep => exact Or.inr ⟨a, hstep⟩

/-! ## Settled clients -/

/-- Every client is settled. -/
def Settles (s : System) : Prop :=
  ∀ pid, Settled (s.clients pid) s.server.scheduler s.server.inFlight

theorem settles_step (hp : ∀ pid, (s.clients pid).pid = pid) (hi : s.Settles)
    (hconn : s.Connected) (hlinked : s.server.scheduler.status.Linked)
    (hk : StepKinds s s' act) : s'.Settles := by
  have hsend : ∀ {e : Event} {es : List Event}, e ∈ s.server.inFlight →
      e ∈ ({ s.server with chan := s.server.chan ++ es } : Server).inFlight := by
    intro e es he
    rw [mem_inFlight] at he ⊢
    exact he.imp_right (Or.imp_right (List.mem_append_left _))
  intro pid
  cases hk with
  | @connect pid₁ cmdline hst hs =>
    subst hs
    have hset : Settled ((s.setClient pid₁ { s.clients pid₁ with started := true }).clients pid)
        s.server.scheduler s.server.inFlight := by
      by_cases hpp : pid = pid₁
      · subst hpp; rw [setClient_self]; exact hi pid
      · rw [setClient_ne hpp]; exact hi pid
    exact hset.mono rfl id fun e he _ => hsend he
  | @client pid₁ a c e ha hc hs =>
    subst hs
    by_cases hpp : pid = pid₁
    · subst hpp
      rw [show _ = c from setClient_self c]
      have hset := (hi pid).client hc fun h q hq hpid => by
        have hst := hconn.started_of_entry hq
        rwa [hpid, hp] at hst
      refine hset.mono rfl id fun e₁ he₁ _ => ?_
      rcases List.mem_append.1 he₁ with he₁ | he₁
      · exact hsend he₁
      · rw [mem_inFlight]
        exact Or.inr (Or.inr (List.mem_append_right _ he₁))
    · rw [show _ = s.clients pid from setClient_ne hpp c]
      exact (hi pid).mono rfl id fun e₁ he₁ _ => hsend he₁
  | forwards hf hs =>
    rw [hs]
    refine (hi pid).mono hf.status ?_ fun e he hx => (hf.xqueue e hx).2 he
    unfold LocalScheduler.MidRound
    rw [hf.worker]; exact id
  | @sched a scheduler hrun hc hs =>
    subst hs
    refine (hi pid).sched hlinked hrun hc ?_
    simp only [transmit]
    split
    · exact Or.inl (by rw [hp]; rfl)
    · rename_i hchan
      refine Or.inr ⟨rfl, fun h q hq hpid => hchan ?_⟩
      rw [← hp pid, ← hpid]
      exact hconn.entry h q hq

theorem settles_reachable (hr : lts.Reachable s) : s.Settles := by
  refine LTS.reachable_induction (I := Settles) ?_ ?_ hr
  · rintro s ⟨type, rfl⟩ pid h o q hl
    cases hl.1
  · intro s act s' hr hi hs
    exact settles_step (pid_reachable hr) hi (connected_reachable hr)
      (LocalScheduler.inv_reachable (scheduler_reachable hr)).linked (step_cases hs).kinds

theorem agree_of_quiescent (hp : ∀ pid, (s.clients pid).pid = pid) (hset : s.Settles)
    (hown : s.Owned) (hq : s.Quiescent) : s.Agree := by
  obtain ⟨hchan, hrecv, hblocked, hclients⟩ := hq
  intro pid h o q ho hreg hlookup
  have hpid : q.pid = pid :=
    hown h q.pid pid (Or.inr (Or.inr ⟨q, hlookup, rfl⟩)) (Or.inl (by rw [ho]; rfl))
  rcases hset pid h o q ⟨ho, Or.inl hreg⟩ hlookup (hpid.trans (hp pid).symm) with
    ⟨tmp, b, hm⟩ | ⟨e, he, -⟩ | hout
  · rw [hblocked.1] at hm
    rcases hm with hm | hm <;> cases hm
  · simp only [mem_inFlight, LocalScheduler.pending, hblocked.1, hblocked.2, Server.held, hrecv,
      hchan, List.not_mem_nil, or_self] at he
  · obtain ⟨hops, hexec⟩ := hclients pid
    simp only [Client.decisions, hops, hexec, ExecPc.rest, List.flatMap_nil, List.append_nil]
      at hout
    exact hout

end

/-- **Server and clients agree** in every quiescent state while a client
creates an XQueue only at a handle that no other process uses; and an operation
makes the right call for every handle of its process. -/
theorem agreement (s : System) :
    ((lts.restrict FreshHandle).Reachable s → s.Quiescent → s.Agree) ∧
    ∀ p : ProcessStatus, (SchedOperation.ofStatus p).copyConstructor.calls =
      p.runningXqueues.elems.map (·, false) ++ p.suspendedXqueues.elems.map (·, true) := by
  constructor
  · intro hr hq
    exact agree_of_quiescent (pid_reachable hr.of_restrict) (settles_reachable hr.of_restrict)
      (owned_reachable hr) hq
  · intro p
    rw [SchedOperation.copyConstructor_ofStatus, SchedOperation.calls_ofStatus]

/-! ## Pids below 65536 -/

/-- An XQueue is created by a process with a small pid, at a user address. -/
def small : SystemAct → Bool
  | .client pid (.create addr _ _ _ _) => pid < 65536 && addr.toNat < 2 ^ 48
  | _ => true

def SmallPids (_ : System) (act : SystemAct) : Prop := small act = true

instance (s : System) (act : SystemAct) : Decidable (SmallPids s act) :=
  inferInstanceAs (Decidable (small act = true))

/-- With small pids the condition is met in every run. -/
theorem small_pids {s : System} (hr : (lts.restrict SmallPids).Reachable s) :
    (lts.restrict FreshHandle).Reachable s := by
  suffices hall : (lts.restrict FreshHandle).Reachable s ∧ ∀ pid h, s.Uses pid h →
      pid < 65536 ∧ ∃ a : BitVec 64, a.toNat < 2 ^ 48 ∧ h = (kHandle a pid).toNat from hall.1
  refine LTS.reachable_induction (I := fun s => (lts.restrict FreshHandle).Reachable s ∧
    ∀ pid h, s.Uses pid h →
      pid < 65536 ∧ ∃ a : BitVec 64, a.toNat < 2 ^ 48 ∧ h = (kHandle a pid).toNat) ?_ ?_ hr
  · rintro s ⟨type, rfl⟩
    refine ⟨LTS.reachable_init ⟨type, rfl⟩, fun pid h hu => ?_⟩
    rcases hu with ho | ⟨e, he, -⟩ | ⟨q, hq, -⟩
    · cases ho
    · cases he
    · cases hq
  · intro s act s' hr₀ hi hs
    have hp := pid_reachable hr₀.of_restrict
    have hnew : ∀ pid a h, act = .client pid a → (s.clients pid).creates a = some h →
        pid < 65536 ∧ ∃ a : BitVec 64, a.toNat < 2 ^ 48 ∧ h = (kHandle a pid).toNat := by
      rintro pid a h rfl ha
      cases a with
      | create addr device level threshold batchSize =>
        have hsmall := hs.2
        simp only [SmallPids, small, Bool.and_eq_true, decide_eq_true_eq] at hsmall
        cases ha
        exact ⟨hsmall.1, addr, hsmall.2, by rw [hp]⟩
      | _ => cases ha
    have hfresh : FreshHandle s act := by
      unfold FreshHandle
      split
      · rename_i pid a
        intro h ha pid' hu
        obtain ⟨hlt, x, hx, hh⟩ := hnew pid a h rfl ha
        obtain ⟨hlt', x', hx', hh'⟩ := hi.2 pid' h hu
        have heq : kHandle x' pid' = kHandle x pid :=
          BitVec.eq_of_toNat_eq (hh'.symm.trans hh)
        have hmod := ((kHandle_eq_iff hx' hx).1 heq).2
        rwa [Nat.mod_eq_of_lt hlt', Nat.mod_eq_of_lt hlt] at hmod
      · trivial
    refine ⟨hi.1.step ⟨hs.1, hfresh⟩, fun pid h hu => ?_⟩
    rcases uses_step hp (step_cases hs.1).kinds hu with hu | ⟨a, ha, hc⟩
    · exact hi.2 pid h hu
    · exact hnew pid a h ha hc

/-! ## Two processes with one handle -/

/-- A process that has not connected gets no operation. -/
structure Unconnected (pid : PID) (s : System) : Prop where
  chan : s.clientChans pid = false
  message : ∀ cmdline, .processCreate pid cmdline ∉ s.server.chan
  ops : (s.clients pid).ops = []
  executor : (s.clients pid).executor = .idle

theorem unconnected_step {s s' : System} {act : SystemAct} {pid : PID}
    (hu : s.Unconnected pid) (hact : ∀ cmdline, act ≠ .connect pid cmdline)
    (hc : StepCases s act s') : s'.Unconnected pid := by
  obtain ⟨hchan, hmsg, hops, hexec⟩ := hu
  have hclient : ∀ {pid₁ : PID} {a : ClientAct} {c : Client} {e : Option Event},
      (s.clients pid₁).StepCases a c e →
      ((s.setClient pid₁ c).clients pid).ops = [] ∧
        ((s.setClient pid₁ c).clients pid).executor = .idle := by
    intro pid₁ a c e hc
    by_cases hpid : pid = pid₁
    · subst hpid; rw [setClient_self]; exact hc.idle hops hexec
    · rw [setClient_ne hpid]; exact ⟨hops, hexec⟩
  cases hc with
  | @connect pid₁ cmdline hst =>
    have hpid : pid ≠ pid₁ := by rintro rfl; exact hact cmdline rfl
    refine ⟨hchan, ?_, ?_, ?_⟩
    · intro cmdline' hm
      rcases List.mem_append.1 hm with hm | hm
      · exact hmsg cmdline' hm
      · obtain ⟨⟩ := List.mem_singleton.1 hm
        exact hpid rfl
    · exact (congrArg Client.ops (setClient_ne hpid _)).trans hops
    · exact (congrArg Client.executor (setClient_ne hpid _)).trans hexec
  | quiet hc => exact ⟨hchan, hmsg, (hclient hc).1, (hclient hc).2⟩
  | sends hc =>
    refine ⟨hchan, ?_, (hclient hc).1, (hclient hc).2⟩
    intro cmdline hm
    rcases List.mem_append.1 hm with hm | hm
    · exact hmsg cmdline hm
    · obtain ⟨-, -, h, hx, -⟩ := hc.event
      rw [← List.mem_singleton.1 hm] at hx
      cases hx
  | @accept pid₁ cmdline chan hpc hch =>
    rw [hch] at hmsg
    refine ⟨?_, fun c hm => hmsg c (List.mem_cons_of_mem _ hm), hops, hexec⟩
    have hpid : pid ≠ pid₁ := by rintro rfl; exact hmsg cmdline List.mem_cons_self
    exact (Function.update_of_ne hpid ..).trans hchan
  | recv hpc hch hne =>
    rw [hch] at hmsg
    exact ⟨hchan, fun c hm => hmsg c (List.mem_cons_of_mem _ hm), hops, hexec⟩
  | addWait | forward | sendHint => exact ⟨hchan, hmsg, hops, hexec⟩
  | sched hrun hs =>
    have hsame : ∀ ops : List SchedOperation, ∀ server : Server,
        (transmit ops { s with server := server }).clients pid = s.clients pid := by
      intro ops server
      simp [transmit, hchan]
    exact ⟨hchan, hmsg, by rw [hsame]; exact hops, by rw [hsame]; exact hexec⟩

theorem unconnected_run {s s' : System} {acts : List SystemAct} {pid : PID}
    (h : lts.Run s acts s') (hacts : ∀ cmdline, .connect pid cmdline ∉ acts)
    (hu : s.Unconnected pid) : s'.Unconnected pid := by
  induction h with
  | nil s => exact hu
  | cons hs _ ih =>
    apply ih
    · exact fun cmdline hm => hacts cmdline (List.mem_cons_of_mem _ hm)
    · refine unconnected_step hu ?_ (step_cases hs)
      rintro cmdline rfl
      exact hacts cmdline List.mem_cons_self

/-- The XQueue of the process. -/
def heapHandle (pid : PID) : XQueueHandle := (kHandle heapAddr pid).toNat

/-- Processes 1 and `pid` create an XQueue each at one address, and the policy
suspends the one of process 1. -/
def sharedTrace (pid : PID) : List SystemAct :=
  [.server (.sched .run), .connect 1 "a", .connect pid "b",
   .client 1 (.create heapAddr 1 1 4 2), .client 1 .add,
   .client pid (.create heapAddr 1 1 4 2), .client pid .add,
   .server .recv, .server (.addWait false), .server .forward,
   .server .recv, .server (.addWait false), .server .forward,
   .server .recv, .server .forward, .server .recv, .server .forward,
   .server (.sched (.wake 7)), .server (.sched (.update 7)), .server (.sched (.update 7)),
   .server (.sched (.update 7)), .server (.sched (.update 7)), .server (.sched (.update 7)),
   .server (.sched (.update 7)), .server (.sched (.sched [.suspend (heapHandle 1)])),
   .client 1 .execute, .client 1 .execute, .client 1 .execute, .client 1 .execute]

/-- The XQueues of processes 1 and `pid`, with what is left to do for both. -/
def atRest (pid : PID) (s : System) : Bool :=
  s.server.chan = [] && s.server.recvWorker = .receiving && decide s.server.scheduler.Blocked &&
    (s.clients 1).ops = [] && (s.clients 1).executor = .idle &&
    (s.clients pid).ops = [] && (s.clients pid).executor = .idle

theorem quiescent_of_atRest {pid₁ : PID} {type : XPolicyType} {acts : List SystemAct} {s : System}
    (h : lts.Run (init type) acts s)
    (hacts : ∀ pid, pid ≠ 1 → pid ≠ pid₁ → ∀ cmdline, .connect pid cmdline ∉ acts)
    (hrest : s.atRest pid₁ = true) : s.Quiescent := by
  simp only [atRest, Bool.and_eq_true, decide_eq_true_eq] at hrest
  obtain ⟨⟨⟨⟨⟨⟨hchan, hrecv⟩, hblocked⟩, hops⟩, hexec⟩, hops'⟩, hexec'⟩ := hrest
  refine ⟨hchan, hrecv, hblocked, fun pid => ?_⟩
  by_cases h₁ : pid = 1
  · subst h₁; exact ⟨hops, hexec⟩
  · by_cases h₂ : pid = pid₁
    · subst h₂; exact ⟨hops', hexec'⟩
    · have hu := unconnected_run h (hacts pid h₁ h₂) ⟨rfl, fun _ => nofun, rfl, rfl⟩
      exact ⟨hu.ops, hu.executor⟩

theorem connects_sharedTrace {pid₁ pid : PID} (h₁ : pid ≠ 1) (h₂ : pid ≠ pid₁) (cmdline : String) :
    .connect pid cmdline ∉ sharedTrace pid₁ := by
  simp [sharedTrace, h₁, h₂]

/-- With pids 1 and 2 the XQueues have two handles, and the suspended one is
suspended in its process. -/
theorem agreement_suspended : ∃ s : System, s.Quiescent ∧ s.Agree ∧
    ((s.clients 1).objs (heapHandle 1)).map (·.suspended) = some true := by
  have htrace : ((LTS.exec (LTS.guarded SmallPids step) (init .kPolicyHighestPriorityFirst)
      (sharedTrace 2 ++ [.client 2 .execute, .client 2 .execute, .client 2 .execute,
        .client 2 .execute])).map fun s =>
        (s.atRest 2, ((s.clients 1).objs (heapHandle 1)).map (·.suspended))) =
      some (true, some true) := by decide
  obtain ⟨s, hs, he⟩ := Option.map_eq_some_iff.1 htrace
  simp only [Prod.mk.injEq] at he
  have hrun : (lts.restrict SmallPids).Run _ _ s := LTS.run_restrict_of_exec hs
  have hq : s.Quiescent := by
    refine quiescent_of_atRest hrun.of_restrict ?_ he.1
    intro pid h₁ h₂ cmdline hm
    rcases List.mem_append.1 hm with hm | hm
    · exact connects_sharedTrace h₁ h₂ cmdline hm
    · simp at hm
  exact ⟨s, hq, (agreement s).1 (small_pids ⟨_, _, ⟨_, rfl⟩, hrun⟩) hq, he.2⟩

/-- **Counterexample**: pids 1 and 65537 have one entry for their two XQueues.
It is suspended, and the XQueue of process 65537 runs on. -/
theorem two_processes_disagree : ¬ ∀ s, lts.Reachable s → s.Quiescent → s.Agree := by
  intro h
  have htrace : ((LTS.exec step (init .kPolicyHighestPriorityFirst) (sharedTrace 65537)).map
      fun s => (s.atRest 65537,
        ((s.clients 65537).objs (heapHandle 1)).map fun o => (o.registered, o.suspended),
        (s.server.scheduler.status.xqueueStatus.lookup (heapHandle 1)).map (·.suspended))) =
      some (true, some (true, false), some true) := by decide
  obtain ⟨s, hs, he⟩ := Option.map_eq_some_iff.1 htrace
  simp only [Prod.mk.injEq] at he
  obtain ⟨hrest, hobj, hentry⟩ := he
  have hrun : lts.Run _ _ s := LTS.run_of_exec hs
  have hq := quiescent_of_atRest hrun (fun pid h₁ h₂ c => connects_sharedTrace h₁ h₂ c) hrest
  obtain ⟨o, ho, hoe⟩ := Option.map_eq_some_iff.1 hobj
  obtain ⟨q, hlookup, hsus⟩ := Option.map_eq_some_iff.1 hentry
  simp only [Prod.mk.injEq] at hoe
  have hagree := h s ⟨_, _, ⟨_, rfl⟩, hrun⟩ hq 65537 (heapHandle 1) o q ho hoe.1 hlookup
  rw [hoe.2, hsus] at hagree
  cases hagree

end System
end Xsched.Sched
