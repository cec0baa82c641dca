import Xsched.Sched.Server

/-!
# Queries of the status

The HTTP threads of the server do not read the status, which belongs to the worker
of the scheduler: a handler sends an event with a pointer to a `StatusQuery` through
the server's own channel and waits, and the worker copies the entries into the query
on its way past the event and notifies. Each of the three handlers has one query
object for all of its calls, `static` and under a lock of its own.

**The system** is the `Server` with its clients, timers, policy changes and dying
processes, and any number of threads in the handlers. The answer of the worker and
its `Notify` are two steps.

**The argument.** `Inv` counts: a query is in the hands of the handler that has its
lock, and of the worker from the moment that one has sent the event until it is
notified, and of nobody else.

**Results**
* `answers_moment`: what a handler reads is what the status said of its XQueue, and
  of its process, or of all of them, at one moment at which the call was under way.
* `query_handed_over`: a query whose handler waits has exactly one event under way, or
  is being notified, or is ready; otherwise it has none, and the worker does not touch
  it.
* `found_with_process`: an XQueue is never found without its process.
-/
namespace Xsched.Sched
open Function (update)

abbrev HttpThread := Nat

/-- The `static StatusQuery query` of each handler.
mirrors service/server/src/server.cpp:202-207,232-238,262-268 -/
inductive QueryId where
  | getXQueueStatus
  | getXQueue
  | getXQueues
  deriving DecidableEq

def QueryId.kQueryProcess : QueryId → Bool
  | getXQueueStatus => false
  | getXQueue | getXQueues => true

/-- mirrors sched/include/xsched/sched/protocol/status.h:49-68 -/
structure StatusQuery where
  ready : Bool
  status : List XQueueStatus
  processes : List ProcessInfo
  deriving DecidableEq

/-- What is read out of a query. -/
structure Answer where
  status : List XQueueStatus
  processes : List ProcessInfo
  deriving DecidableEq

namespace StatusQuery

/-- What a handler reads; `GetXQueueStatus` looks at no processes. -/
def result (kQueryProcess : Bool) (query : StatusQuery) : Answer :=
  ⟨query.status, if kQueryProcess then query.processes else []⟩

/-- mirrors sched/src/protocol/status.cpp:19-24 -/
def reset (kQueryProcess : Bool) (query : StatusQuery) : StatusQuery :=
  ⟨false, [], if kQueryProcess then [] else query.processes⟩

/-- mirrors sched/src/protocol/status.cpp:11-17 -/
def notify (query : StatusQuery) : StatusQuery := { query with ready := true }

/-- `UpdateStatus` on a query event, up to `Notify`.
mirrors sched/src/scheduler/local.cpp:288-331 -/
def answer (e : Event) (kQueryProcess : Bool) (s : Status) (query : StatusQuery) : StatusQuery :=
  match e with
  | .xQueueQuery _ handle =>
    match s.xqueueStatus.lookup handle with
    | none => query
    | some q =>
      let query := { query with status := query.status ++ [q] }
      if !kQueryProcess then query
      else
        match s.processStatus.lookup q.pid with
        | none => query
        | some p => { query with processes := query.processes ++ [p.info] }
  | .xQueueQueryAll _ =>
    let query := { query with status := query.status ++ s.xqueueStatus.entries.map (·.2) }
    if !kQueryProcess then query
    else { query with processes := query.processes ++ s.processStatus.entries.map (·.2.info) }
  | _ => query

end StatusQuery

/-- The event that the handler sends. -/
def QueryId.event (q : QueryId) (handle : XQueueHandle) : Event :=
  match q with
  | getXQueueStatus | getXQueue => .xQueueQuery kServerPid handle
  | getXQueues => .xQueueQueryAll kServerPid

def Event.isQuery : Event → Bool
  | xQueueQuery _ _ | xQueueQueryAll _ => true
  | _ => false

/-- What the status has to say to a query. -/
def Status.tell (q : QueryId) (handle : XQueueHandle) (s : Status) : Answer :=
  match q with
  | .getXQueueStatus => ⟨(s.xqueueStatus.lookup handle).toList, []⟩
  | .getXQueue =>
    ⟨(s.xqueueStatus.lookup handle).toList,
      ((s.xqueueStatus.lookup handle).bind fun x =>
        (s.processStatus.lookup x.pid).map (·.info)).toList⟩
  | .getXQueues => ⟨s.xqueueStatus.entries.map (·.2), s.processStatus.entries.map (·.2.info)⟩

/-- Where a thread is in a handler: before the lock of the query, before `Reset`,
before the event is sent, in `Wait`, before the query is read, and before the lock
is released. -/
inductive HandlerPc where
  | idle
  | lock (q : QueryId) (handle : XQueueHandle)
  | reset (q : QueryId) (handle : XQueueHandle)
  | send (q : QueryId) (handle : XQueueHandle)
  | wait (q : QueryId) (handle : XQueueHandle)
  | read (q : QueryId) (handle : XQueueHandle)
  | answered (q : QueryId) (handle : XQueueHandle) (a : Answer)
  deriving DecidableEq

/-- The query whose lock the thread has. -/
def HandlerPc.holds : HandlerPc → Option QueryId
  | reset q _ | send q _ | wait q _ | read q _ | answered q _ _ => some q
  | idle | lock _ _ => none

/-- `events` are the query events under way as they were sent, with the query that
each points to; `notifying` is the query that the worker is about to notify. -/
structure QueryServer where
  server : Server
  events : List (QueryId × XQueueHandle)
  queries : QueryId → StatusQuery
  queryMtx : QueryId → Option HttpThread
  notifying : Option QueryId
  threads : HttpThread → HandlerPc

inductive QueryAct where
  | call (t : HttpThread) (q : QueryId) (handle : XQueueHandle)
  /-- The next step of the thread in its handler. -/
  | handler (t : HttpThread)
  | notify
  | server (act : ServerAct)
  deriving DecidableEq

/-- The steps of the scheduler's worker. -/
def ServerAct.ofWorker : ServerAct → Bool
  | .sched (.wake _) | .sched (.update _) | .sched (.sched _) => true
  | _ => false

/-- A query is sent by the server itself, and the server's process does not die. -/
def ServerAct.fromOutside : ServerAct → Bool
  | .send e => !e.isQuery
  | .die pid => pid ≠ kServerPid
  | _ => true

namespace Server

/-- The query event that `UpdateStatus` is about to see. -/
def asked (s : Server) (act : ServerAct) : Option Event :=
  match act, s.scheduler.worker with
  | .sched (.update _), .processing (e :: _) _ => if e.isQuery then some e else none
  | _, _ => none

/-- The query events under way. -/
def queriesInFlight (s : Server) : List Event := s.inFlight.filter Event.isQuery

end Server

namespace QueryServer

def init (type : XPolicyType) : QueryServer :=
  ⟨.init type, [], fun _ => ⟨false, [], []⟩, fun _ => none, none, fun _ => .idle⟩

def setPc (t : HttpThread) (pc : HandlerPc) (s : QueryServer) : QueryServer :=
  { s with threads := update s.threads t pc }

def setQuery (q : QueryId) (query : StatusQuery) (s : QueryServer) : QueryServer :=
  { s with queries := update s.queries q query }

/-- The worker copies what the status says of the event into the query it points to. -/
def fill (e : Event) (s : QueryServer) : QueryServer :=
  match s.events with
  | [] => s
  | (q, _) :: events =>
    { s.setQuery q ((s.queries q).answer e q.kQueryProcess s.server.scheduler.status) with
      events := events
      notifying := some q }

/-- mirrors service/server/src/server.cpp:200-216,218-241,260-271 -/
def handler (t : HttpThread) (s : QueryServer) : Option QueryServer :=
  match s.threads t with
  | .idle => none
  | .lock q handle =>
    if s.queryMtx q = none then
      some ({ s with queryMtx := update s.queryMtx q (some t) }.setPc t (.reset q handle))
    else none
  | .reset q handle =>
    some ((s.setQuery q ((s.queries q).reset q.kQueryProcess)).setPc t (.send q handle))
  | .send q handle =>
    some ({ s with
      server := { s.server with chan := s.server.chan ++ [q.event handle] }
      events := s.events ++ [(q, handle)] }.setPc t (.wait q handle))
  | .wait q handle =>
    if (s.queries q).ready then some (s.setPc t (.read q handle)) else none
  | .read q handle =>
    some (s.setPc t (.answered q handle ((s.queries q).result q.kQueryProcess)))
  | .answered q _ _ =>
    some ({ s with queryMtx := update s.queryMtx q none }.setPc t .idle)

def step (s : QueryServer) : QueryAct → Option QueryServer
  | .call t q handle =>
    if s.threads t = .idle then some (s.setPc t (.lock q handle)) else none
  | .handler t => s.handler t
  | .notify =>
    match s.notifying with
    | none => none
    | some q => some { s.setQuery q (s.queries q).notify with notifying := none }
  | .server act =>
    if act.fromOutside = true ∧ (act.ofWorker = true → s.notifying = none) then
      (s.server.step act).map fun server =>
        match s.server.asked act with
        | none => { s with server }
        | some e => { s.fill e with server }
    else none

def lts : LTS QueryServer QueryAct := .ofFn (fun s => ∃ type, s = init type) step

end QueryServer

/-! ## The events of the server -/

section
variable {s s' : LocalScheduler}

/-- Only `UpdateStatus` takes a query event, the first of them. -/
theorem LocalScheduler.filter_pending {act : SchedAct} (h : s.step act = some s')
    (hrecv : ∀ e, act ≠ .recvEvent e) (hup : ∀ now, act ≠ .update now) :
    s'.pending.filter Event.isQuery = s.pending.filter Event.isQuery := by
  cases step_cases h with
  | recvEvent e => exact absurd rfl (hrecv e)
  | terminate | update => exact absurd rfl (hup _)
  | run hw => simp only [pending, hw]
  | samePolicy => rfl
  | @stopping _ next =>
    have hp : pending { s with
        eventQueue := s.eventQueue ++ [.schedulerTerminate kServerPid]
        control := .joining next } = s.pending ++ [.schedulerTerminate kServerPid] :=
      pending_append rfl rfl
    rw [hp, List.filter_append]
    exact List.append_nil _
  | @joined _ next hw =>
    have hq : s.pending = s.eventQueue := by rcases hw with hw | hw <;> simp only [pending, hw]
    rw [hq]
    cases next <;> rfl
  | wake hw => simp only [pending, hw, List.append_nil]
  | @finish calls b hw =>
    have hp : (s.finish calls b).pending = (calls.foldl callback s).eventQueue := by
      cases b <;> rfl
    rw [hp, (callbacks_frame calls s).1]
    simp only [pending, hw, List.nil_append]
  | @ready calls tmp b hw =>
    change (tmp ++ (calls.foldl callback s).eventQueue).filter _ = _
    rw [(callbacks_frame calls s).1]
    simp only [pending, hw]

theorem LocalScheduler.pending_update {now : TimePoint} {e : Event} {tmp : List Event} {b : Bool}
    (hw : s.worker = .processing (e :: tmp) b) (h : s.update now e tmp b = some s') :
    s.pending = e :: s'.pending ∧ (e.isQuery = true → s'.status = s.status) := by
  unfold update at h
  split at h
  · cases h
    simp only [pending, hw, List.cons_append, true_and]
    intro hq
    cases hq
  · obtain ⟨status, hu, rfl⟩ := Option.map_eq_some_iff.1 h
    simp only [pending, hw, List.cons_append, true_and]
    intro hq
    cases hq
  · obtain ⟨status, hu, rfl⟩ := Option.map_eq_some_iff.1 h
    simp only [pending, hw, List.cons_append, true_and]
    intro hq
    cases e with
    | xQueueQuery | xQueueQueryAll => cases hu; rfl
    | _ => cases hq

end

namespace Server

theorem queriesInFlight_eq (s : Server) : s.queriesInFlight =
    s.scheduler.pending.filter Event.isQuery ++ s.held.filter Event.isQuery ++
      s.chan.filter Event.isQuery := by
  simp only [queriesInFlight, inFlight, unforwarded, List.filter_append, List.append_assoc]

/-- What is pushed into the scheduler's queue behind its events. -/
theorem filter_push (e : Event) (sc : LocalScheduler) :
    (sc.push e).pending.filter Event.isQuery =
      sc.pending.filter Event.isQuery ++ [e].filter Event.isQuery := by
  have hp : (sc.push e).pending = sc.pending ++ [e] := LocalScheduler.pending_append rfl rfl
  rw [hp, List.filter_append]

theorem filter_push_other {e : Event} (he : e.isQuery = false) (sc : LocalScheduler) :
    (sc.push e).pending.filter Event.isQuery = sc.pending.filter Event.isQuery := by
  rw [filter_push, List.filter_singleton, he]
  exact List.append_nil _

/-- A step outside of the scheduler's worker moves the query events on. -/
theorem queriesInFlight_other {s s' : Server} {act : ServerAct} (h : StepCases s act s')
    (hout : act.fromOutside = true) (hsched : ∀ a, act ≠ .sched a) :
    s'.queriesInFlight = s.queriesInFlight := by
  rw [queriesInFlight_eq, queriesInFlight_eq]
  cases h with
  | send e =>
    have he : e.isQuery = false := by simpa [ServerAct.fromOutside] using hout
    change _ ++ _ ++ (s.chan ++ [e]).filter _ = _
    rw [List.filter_append, List.filter_singleton, he]
    exact congrArg _ (List.append_nil _)
  | die => rfl
  | recvCreate hpc hc =>
    simp only [processTerminate, held, hpc, hc, filter_push_other (e := .processDestroy _) rfl]
    rfl
  | @recv e chan hpc hc =>
    simp only [held, hpc, hc, List.filter_nil, List.append_nil]
    rw [List.append_assoc, ← List.filter_append]
    rfl
  | gone hpc =>
    simp only [processTerminate, report, held, hpc, filter_push_other (e := .processDestroy _) rfl]
  | addWait hpc => simp only [held, hpc]
  | @forward e hpc =>
    simp only [held, hpc, filter_push, List.filter_nil, List.append_nil]
  | terminated =>
    simp only [processTerminate, report, held, filter_push_other (e := .processDestroy _) rfl]
  | sendHint => 
    simp only [held, filter_push_other (e := .hint _) rfl]
  | sched => exact absurd rfl (hsched _)

/-- A step of the server takes the query event that is asked, or none. -/
theorem queriesInFlight_step {s s' : Server} {act : ServerAct} (h : s.step act = some s')
    (hout : act.fromOutside = true) :
    match s.asked act with
    | none => s'.queriesInFlight = s.queriesInFlight
    | some e => s.queriesInFlight = e :: s'.queriesInFlight ∧
        s'.scheduler.status = s.scheduler.status := by
  cases act with
  | sched a =>
    cases a with
    | recvEvent e => cases h
    | update now =>
      obtain ⟨scheduler, hs, rfl⟩ := Option.map_eq_some_iff.1 h
      simp only [LocalScheduler.step] at hs
      split at hs
      · rename_i e tmp b hw
        obtain ⟨hpend, hstatus⟩ := LocalScheduler.pending_update hw hs
        rw [queriesInFlight_eq, queriesInFlight_eq, hpend, List.filter_cons]
        simp only [asked, hw]
        cases he : e.isQuery with
        | false => simp only [Bool.false_eq_true, if_false]; rfl
        | true => simp only [if_true]; exact ⟨rfl, hstatus he⟩
      · cases hs
    | run | setPolicy | stop | join | wake | sched =>
      obtain ⟨scheduler, hs, rfl⟩ := Option.map_eq_some_iff.1 h
      have hp := LocalScheduler.filter_pending hs (fun _ => SchedAct.noConfusion)
        (fun _ => SchedAct.noConfusion)
      change queriesInFlight _ = _
      rw [queriesInFlight_eq, queriesInFlight_eq]
      change scheduler.pending.filter _ ++ _ ++ _ = _
      rw [hp]
      rfl
  | send | die | recv | addWait | forward | terminated | sendHint =>
    exact queriesInFlight_other (step_cases h) hout fun _ => ServerAct.noConfusion

end Server

/-! ## An answer -/

/-- The answer to an event in a fresh query is what the status says. -/
theorem StatusQuery.answer_result {q : QueryId} {query : StatusQuery}
    (hfresh : query.result q.kQueryProcess = ⟨[], []⟩) (h : XQueueHandle) (s : Status) :
    (query.answer (q.event h) q.kQueryProcess s).result q.kQueryProcess = s.tell q h := by
  obtain ⟨ready, status, processes⟩ := query
  simp only [result, Answer.mk.injEq] at hfresh
  obtain ⟨rfl, hproc⟩ := hfresh
  cases q with
  | getXQueueStatus =>
    simp only [QueryId.event, answer, QueryId.kQueryProcess, result, Status.tell]
    cases s.xqueueStatus.lookup h <;> rfl
  | getXQueue =>
    simp only [QueryId.kQueryProcess, if_true] at hproc
    subst hproc
    simp only [QueryId.event, answer, QueryId.kQueryProcess, result, Status.tell]
    cases s.xqueueStatus.lookup h with
    | none => rfl
    | some x => cases hp : s.processStatus.lookup x.pid <;> simp [hp]
  | getXQueues =>
    simp only [QueryId.kQueryProcess, if_true] at hproc
    subst hproc
    simp [QueryId.event, answer, QueryId.kQueryProcess, result, Status.tell]

theorem StatusQuery.answer_ready (e : Event) (kQueryProcess : Bool) (s : Status)
    (query : StatusQuery) : (query.answer e kQueryProcess s).ready = query.ready := by
  unfold answer
  split
  · split
    · rfl
    · simp only
      split
      · rfl
      · split <;> rfl
  · simp only
    split <;> rfl
  · rfl

theorem QueryId.event_isQuery (q : QueryId) (h : XQueueHandle) : (q.event h).isQuery = true := by
  cases q <;> rfl

theorem Server.asked_cases {s : Server} {act : ServerAct} {e : Event} (h : s.asked act = some e) :
    act.ofWorker = true ∧ e.isQuery = true := by
  unfold asked at h
  split at h
  · obtain ⟨he, heq⟩ := Option.ite_none_right_eq_some.1 h
    cases heq
    exact ⟨rfl, he⟩
  · cases h

namespace QueryServer

/-! ## Who has a query -/

/-- No event for the query is under way, and the worker is not about to notify it. -/
def Quiet (s : QueryServer) (q : QueryId) : Prop :=
  (∀ h, (q, h) ∉ s.events) ∧ s.notifying ≠ some q

def resultOf (s : QueryServer) (q : QueryId) : Answer := (s.queries q).result q.kQueryProcess

/-- A query while its handler waits: its event is under way, or it is answered and
will be notified, or it is ready. -/
inductive Waiting (s : QueryServer) (q : QueryId) (h : XQueueHandle) : Prop
  | sent (hev : (q, h) ∈ s.events) (hnot : s.notifying ≠ some q)
      (hready : (s.queries q).ready = false) (hfresh : s.resultOf q = ⟨[], []⟩)
  | answered (hev : ∀ h', (q, h') ∉ s.events) (hnot : s.notifying = some q)
      (hready : (s.queries q).ready = false)
  | ready (hquiet : s.Quiet q) (hready : (s.queries q).ready = true)

def PcOk (s : QueryServer) : HandlerPc → Prop
  | .idle | .lock _ _ => True
  | .reset q _ | .read q _ | .answered q _ _ => s.Quiet q
  | .send q _ => s.Quiet q ∧ (s.queries q).ready = false ∧ s.resultOf q = ⟨[], []⟩
  | .wait q h => s.Waiting q h

structure Inv (s : QueryServer) : Prop where
  lock : ∀ t q, (s.threads t).holds = some q ↔ s.queryMtx q = some t
  free : ∀ q, s.queryMtx q = none → s.Quiet q
  pc : ∀ t, s.PcOk (s.threads t)
  nodup : (s.events.map (·.1)).Nodup
  inFlight : s.server.queriesInFlight = s.events.map fun x => x.1.event x.2
  alive : s.server.dead kServerPid = false

/-! ## What a step can do -/

inductive StepCases (s : QueryServer) : QueryAct → QueryServer → Prop
  | call {t q h} (hpc : s.threads t = .idle) : StepCases s (.call t q h) (s.setPc t (.lock q h))
  | lock {t q h} (hpc : s.threads t = .lock q h) (hmtx : s.queryMtx q = none) :
    StepCases s (.handler t)
      ({ s with queryMtx := update s.queryMtx q (some t) }.setPc t (.reset q h))
  | reset {t q h} (hpc : s.threads t = .reset q h) :
    StepCases s (.handler t)
      ((s.setQuery q ((s.queries q).reset q.kQueryProcess)).setPc t (.send q h))
  | send {t q h} (hpc : s.threads t = .send q h) :
    StepCases s (.handler t) ({ s with
      server := { s.server with chan := s.server.chan ++ [q.event h] }
      events := s.events ++ [(q, h)] }.setPc t (.wait q h))
  | wait {t q h} (hpc : s.threads t = .wait q h) (hready : (s.queries q).ready = true) :
    StepCases s (.handler t) (s.setPc t (.read q h))
  | read {t q h} (hpc : s.threads t = .read q h) :
    StepCases s (.handler t) (s.setPc t (.answered q h (s.resultOf q)))
  | answered {t q h a} (hpc : s.threads t = .answered q h a) :
    StepCases s (.handler t) ({ s with queryMtx := update s.queryMtx q none }.setPc t .idle)
  | notify {q} (hnot : s.notifying = some q) :
    StepCases s .notify { s.setQuery q (s.queries q).notify with notifying := none }
  | server {act server} (hout : act.fromOutside = true)
      (hs : s.server.step act = some server) (hasked : s.server.asked act = none) :
    StepCases s (.server act) { s with server := server }
  | asked {act server e} (hout : act.fromOutside = true) (hnot : s.notifying = none)
      (hs : s.server.step act = some server) (hasked : s.server.asked act = some e) :
    StepCases s (.server act) { s.fill e with server := server }

theorem step_cases {s s' : QueryServer} {act : QueryAct} (h : step s act = some s') :
    StepCases s act s' := by
  cases act with
  | call t q handle =>
    obtain ⟨hpc, hs⟩ := Option.ite_none_right_eq_some.1 h
    cases hs
    exact .call hpc
  | handler t =>
    simp only [step, handler] at h
    split at h
    · cases h
    · rename_i hpc
      obtain ⟨hmtx, hs⟩ := Option.ite_none_right_eq_some.1 h
      cases hs
      exact .lock hpc hmtx
    · rename_i hpc; cases h; exact .reset hpc
    · rename_i hpc; cases h; exact .send hpc
    · rename_i hpc
      obtain ⟨hready, hs⟩ := Option.ite_none_right_eq_some.1 h
      cases hs
      exact .wait hpc hready
    · rename_i hpc; cases h; exact .read hpc
    · rename_i hpc; cases h; exact .answered hpc
  | notify =>
    simp only [step] at h
    split at h
    · cases h
    · rename_i hnot; cases h; exact .notify hnot
  | server act =>
    obtain ⟨⟨hout, hnot⟩, hs⟩ := Option.ite_none_right_eq_some.1 h
    obtain ⟨server, hserver, rfl⟩ := Option.map_eq_some_iff.1 hs
    split
    · rename_i hasked; exact .server hout hserver hasked
    · rename_i e hasked; exact .asked hout (hnot (Server.asked_cases hasked).1) hserver hasked

/-! ## The steps -/

/-- Nothing happened to the query. -/
structure SameAt (s s' : QueryServer) (q : QueryId) : Prop where
  query : s'.queries q = s.queries q
  events : ∀ h, (q, h) ∈ s'.events ↔ (q, h) ∈ s.events
  notifying : s'.notifying = some q ↔ s.notifying = some q

section
variable {s s' : QueryServer} {t : HttpThread} {q : QueryId} {h : XQueueHandle} {pc : HandlerPc}

@[simp] theorem setPc_self : (s.setPc t pc).threads t = pc := Function.update_self ..

theorem setPc_of_ne {u : HttpThread} (hu : u ≠ t) : (s.setPc t pc).threads u = s.threads u :=
  Function.update_of_ne hu ..

theorem Quiet.frame (hq : s.Quiet q) (hs : SameAt s s' q) : s'.Quiet q :=
  ⟨fun h hm => hq.1 h ((hs.events h).1 hm), fun hn => hq.2 (hs.notifying.1 hn)⟩

theorem SameAt.resultOf (hs : SameAt s s' q) : s'.resultOf q = s.resultOf q := by
  simp only [QueryServer.resultOf, hs.query]

theorem Waiting.frame (hw : s.Waiting q h) (hs : SameAt s s' q) : s'.Waiting q h := by
  cases hw with
  | sent hev hnot hready hfresh =>
    exact .sent ((hs.events h).2 hev) (fun hn => hnot (hs.notifying.1 hn))
      (by rw [hs.query]; exact hready) (by rw [hs.resultOf]; exact hfresh)
  | answered hev hnot hready =>
    exact .answered (fun h' hm => hev h' ((hs.events h').1 hm)) (hs.notifying.2 hnot)
      (by rw [hs.query]; exact hready)
  | ready hquiet hready => exact .ready (hquiet.frame hs) (by rw [hs.query]; exact hready)

theorem PcOk.frame (hpc : s.PcOk pc) (hs : ∀ q, pc.holds = some q → SameAt s s' q) :
    s'.PcOk pc := by
  cases pc with
  | idle | lock => trivial
  | reset q h => exact Quiet.frame hpc (hs q rfl)
  | read q h => exact Quiet.frame hpc (hs q rfl)
  | answered q h a => exact Quiet.frame hpc (hs q rfl)
  | send q h =>
    obtain ⟨hquiet, hready, hfresh⟩ := hpc
    have hs := hs q rfl
    exact ⟨hquiet.frame hs, by rw [hs.query]; exact hready, by rw [hs.resultOf]; exact hfresh⟩
  | wait q h => exact Waiting.frame hpc (hs q rfl)

/-- Two threads do not have one query. -/
theorem Inv.holder_unique (hi : s.Inv) {u : HttpThread} (ht : (s.threads t).holds = some q)
    (hu : (s.threads u).holds = some q) : u = t :=
  Option.some.inj (((hi.lock u q).1 hu).symm.trans ((hi.lock t q).1 ht))

/-- A thread that has a query goes on with it, and nothing happens to the others. -/
theorem Inv.goto (hi : s.Inv) (hthreads : s'.threads = update s.threads t pc)
    (hmtx : s'.queryMtx = s.queryMtx) (hold : (s.threads t).holds = some q)
    (hnew : pc.holds = some q) (hpc : s'.PcOk pc) (hs : ∀ q', q' ≠ q → SameAt s s' q')
    (hnodup : (s'.events.map (·.1)).Nodup)
    (hflight : s'.server.queriesInFlight = s'.events.map fun x => x.1.event x.2)
    (halive : s'.server.dead kServerPid = false) : s'.Inv where
  lock u q' := by
    rw [hthreads, hmtx]
    by_cases hu : u = t
    · subst hu
      rw [Function.update_self, hnew, ← hold]
      exact hi.lock u q'
    · rw [Function.update_of_ne hu]
      exact hi.lock u q'
  free q' hfree := by
    rw [hmtx] at hfree
    refine (hi.free q' hfree).frame (hs q' ?_)
    rintro rfl
    rw [(hi.lock t q').1 hold] at hfree
    cases hfree
  pc u := by
    rw [hthreads]
    by_cases hu : u = t
    · subst hu
      rw [Function.update_self]
      exact hpc
    · rw [Function.update_of_ne hu]
      refine (hi.pc u).frame fun q' hq' => hs q' ?_
      rintro rfl
      exact hu (hi.holder_unique hold hq')
  nodup := hnodup
  inFlight := hflight
  alive := halive

/-- A step that changes nothing but where the thread is, with the query it has. -/
theorem Inv.setPc (hi : s.Inv) (hold : (s.threads t).holds = some q) (hnew : pc.holds = some q)
    (hpc : s.PcOk pc) : (s.setPc t pc).Inv :=
  hi.goto rfl rfl hold hnew (hpc.frame fun _ _ => ⟨rfl, fun _ => Iff.rfl, Iff.rfl⟩)
    (fun _ _ => ⟨rfl, fun _ => Iff.rfl, Iff.rfl⟩) hi.nodup hi.inFlight hi.alive

theorem Inv.call (hi : s.Inv) (hpc : s.threads t = .idle) : (s.setPc t (.lock q h)).Inv := by
  refine ⟨?_, fun q hq => hi.free q hq, ?_, hi.nodup, hi.inFlight, hi.alive⟩
  · intro u q'
    change ((update s.threads t _) u).holds = _ ↔ s.queryMtx q' = some u
    by_cases hu : u = t
    · subst hu
      rw [Function.update_self, ← hi.lock, hpc]
      rfl
    · rw [Function.update_of_ne hu]
      exact hi.lock u q'
  · intro u
    change PcOk _ ((update s.threads t _) u)
    by_cases hu : u = t
    · subst hu
      rw [Function.update_self]
      trivial
    · rw [Function.update_of_ne hu]
      exact (hi.pc u).frame fun _ _ => ⟨rfl, fun _ => Iff.rfl, Iff.rfl⟩

theorem Inv.takeLock (hi : s.Inv) (hpc : s.threads t = .lock q h) (hmtx : s.queryMtx q = none) :
    ({ s with queryMtx := update s.queryMtx q (some t) }.setPc t (.reset q h)).Inv := by
  have hsame (q' : QueryId) : SameAt s
      ({ s with queryMtx := update s.queryMtx q (some t) }.setPc t (.reset q h)) q' :=
    ⟨rfl, fun _ => Iff.rfl, Iff.rfl⟩
  refine ⟨?_, ?_, ?_, hi.nodup, hi.inFlight, hi.alive⟩
  · intro u q'
    change ((update s.threads t _) u).holds = _ ↔ update s.queryMtx q (some t) q' = some u
    by_cases hu : u = t
    · subst hu
      rw [Function.update_self]
      by_cases hq : q' = q
      · subst hq
        rw [Function.update_self]
        exact iff_of_true rfl rfl
      · rw [Function.update_of_ne hq, ← hi.lock, hpc]
        exact iff_of_false (fun he => hq (Option.some.inj he).symm) (fun he => nomatch he)
    · rw [Function.update_of_ne hu, hi.lock]
      by_cases hq : q' = q
      · subst hq
        rw [Function.update_self, hmtx]
        exact iff_of_false (fun he => nomatch he) fun he => hu (Option.some.inj he).symm
      · rw [Function.update_of_ne hq]
  · intro q' hfree
    refine (hi.free q' ?_).frame (hsame q')
    by_cases hq : q' = q
    · subst hq; exact hmtx
    · exact (Function.update_of_ne hq _ s.queryMtx).symm.trans hfree
  · intro u
    change PcOk _ ((update s.threads t _) u)
    by_cases hu : u = t
    · subst hu
      rw [Function.update_self]
      exact (hi.free q hmtx).frame (hsame q)
    · rw [Function.update_of_ne hu]
      exact (hi.pc u).frame fun _ _ => hsame _

theorem Inv.releaseLock (hi : s.Inv) {a : Answer} (hpc : s.threads t = .answered q h a) :
    ({ s with queryMtx := update s.queryMtx q none }.setPc t .idle).Inv := by
  have hsame (q' : QueryId) : SameAt s
      ({ s with queryMtx := update s.queryMtx q none }.setPc t .idle) q' :=
    ⟨rfl, fun _ => Iff.rfl, Iff.rfl⟩
  have hold : (s.threads t).holds = some q := by rw [hpc]; rfl
  refine ⟨?_, ?_, ?_, hi.nodup, hi.inFlight, hi.alive⟩
  · intro u q'
    change ((update s.threads t _) u).holds = _ ↔ update s.queryMtx q none q' = some u
    by_cases hu : u = t
    · subst hu
      rw [Function.update_self]
      by_cases hq : q' = q
      · subst hq
        rw [Function.update_self]
        exact iff_of_false (fun he => nomatch he) fun he => nomatch he
      · rw [Function.update_of_ne hq, ← hi.lock, hold]
        exact iff_of_false (fun he => nomatch he) fun he => hq (Option.some.inj he).symm
    · rw [Function.update_of_ne hu, hi.lock]
      by_cases hq : q' = q
      · subst hq
        rw [Function.update_self, (hi.lock t q').1 hold]
        exact iff_of_false (fun he => hu (Option.some.inj he).symm) fun he => nomatch he
      · rw [Function.update_of_ne hq]
  · intro q' hfree
    by_cases hq : q' = q
    · subst hq
      have hquiet := hi.pc t
      rw [hpc] at hquiet
      exact Quiet.frame hquiet (hsame q')
    · exact (hi.free q' ((Function.update_of_ne hq _ s.queryMtx).symm.trans hfree)).frame (hsame q')
  · intro u
    change PcOk _ ((update s.threads t _) u)
    by_cases hu : u = t
    · subst hu
      rw [Function.update_self]
      trivial
    · rw [Function.update_of_ne hu]
      exact (hi.pc u).frame fun _ _ => hsame _

theorem Inv.resetQuery (hi : s.Inv) (hpc : s.threads t = .reset q h) :
    ((s.setQuery q ((s.queries q).reset q.kQueryProcess)).setPc t (.send q h)).Inv := by
  have hquiet := hi.pc t
  rw [hpc] at hquiet
  refine hi.goto rfl rfl (by rw [hpc]; rfl) rfl ⟨hquiet, ?_, ?_⟩ ?_ hi.nodup hi.inFlight hi.alive
  · change (update s.queries q _ q).ready = false
    rw [Function.update_self]
    rfl
  · change (update s.queries q _ q).result _ = _
    rw [Function.update_self]
    cases q <;> rfl
  · intro q' hq'
    exact ⟨Function.update_of_ne hq' _ _, fun _ => Iff.rfl, Iff.rfl⟩

theorem Inv.sendEvent (hi : s.Inv) (hpc : s.threads t = .send q h) :
    ({ s with
      server := { s.server with chan := s.server.chan ++ [q.event h] }
      events := s.events ++ [(q, h)] }.setPc t (.wait q h)).Inv := by
  have hsend := hi.pc t
  rw [hpc] at hsend
  obtain ⟨hquiet, hready, hfresh⟩ := hsend
  refine hi.goto rfl rfl (by rw [hpc]; rfl) rfl ?_ ?_ ?_ ?_ hi.alive
  · exact .sent (List.mem_append_right _ (List.mem_singleton_self _)) hquiet.2 hready hfresh
  · intro q' hq'
    refine ⟨rfl, ?_, Iff.rfl⟩
    intro h'
    change (q', h') ∈ s.events ++ [(q, h)] ↔ _
    simp [hq']
  · change ((s.events ++ [(q, h)]).map (·.1)).Nodup
    rw [List.map_append, List.nodup_append]
    refine ⟨hi.nodup, List.nodup_singleton _, ?_⟩
    rintro a ha b hb rfl
    obtain ⟨⟨q', h'⟩, hm, rfl⟩ := List.mem_map.1 ha
    cases List.mem_singleton.1 hb
    exact hquiet.1 h' hm
  · change ({ s.server with chan := _ } : Server).queriesInFlight = (s.events ++ [(q, h)]).map _
    have hq : [q.event h].filter Event.isQuery = [q.event h] := by
      rw [List.filter_singleton, q.event_isQuery]
      rfl
    rw [Server.queriesInFlight_eq, List.map_append, ← hi.inFlight, Server.queriesInFlight_eq]
    change _ ++ _ ++ (s.server.chan ++ [q.event h]).filter _ = _
    rw [List.filter_append, hq, List.append_assoc, List.append_assoc, List.append_assoc]
    rfl

/-- The handler of a query that the worker has in hand waits for it. -/
theorem Inv.waiting_of_not_quiet (hi : s.Inv) (hq : ¬ s.Quiet q) :
    ∃ t h, s.threads t = .wait q h ∧ s.Waiting q h ∧ s.queryMtx q = some t := by
  cases hmtx : s.queryMtx q with
  | none => exact absurd (hi.free q hmtx) hq
  | some t =>
    have hold := (hi.lock t q).2 hmtx
    have hpc := hi.pc t
    cases heq : s.threads t with
    | idle | lock => rw [heq] at hold; cases hold
    | reset q' h | read q' h | answered q' h a =>
      rw [heq] at hold hpc
      cases hold
      exact absurd hpc hq
    | send q' h =>
      rw [heq] at hold hpc
      cases hold
      exact absurd hpc.1 hq
    | wait q' h =>
      rw [heq] at hold hpc
      cases hold
      exact ⟨t, h, heq, hpc, rfl⟩

/-- A step of the worker: it has one query in hand, and leaves its handler waiting. -/
theorem Inv.worker (hi : s.Inv) (hthreads : s'.threads = s.threads)
    (hmtx : s'.queryMtx = s.queryMtx) (hpc : s.threads t = .wait q h) (hw : s'.Waiting q h)
    (hs : ∀ q', q' ≠ q → SameAt s s' q') (hnodup : (s'.events.map (·.1)).Nodup)
    (hflight : s'.server.queriesInFlight = s'.events.map fun x => x.1.event x.2)
    (halive : s'.server.dead kServerPid = false) : s'.Inv := by
  have hsame : s'.threads = update s.threads t (.wait q h) := by
    rw [hthreads, ← hpc, Function.update_eq_self]
  exact hi.goto hsame hmtx (by rw [hpc]; rfl) rfl hw hs hnodup hflight halive

theorem Inv.notify (hi : s.Inv) (hnot : s.notifying = some q) :
    Inv { s.setQuery q (s.queries q).notify with notifying := none } := by
  obtain ⟨t, h, hpc, hw, -⟩ := hi.waiting_of_not_quiet (q := q) fun hq => hq.2 hnot
  have hev : ∀ h', (q, h') ∉ s.events := by
    cases hw with
    | sent _ hnot' => exact absurd hnot hnot'
    | answered hev => exact hev
    | ready hquiet => exact hquiet.1
  refine hi.worker rfl rfl hpc (.ready ⟨hev, fun h => nomatch h⟩ ?_) ?_ hi.nodup hi.inFlight hi.alive
  · change (update s.queries q _ q).ready = true
    rw [Function.update_self]
    rfl
  · intro q' hq'
    refine ⟨Function.update_of_ne hq' _ _, fun _ => Iff.rfl, ?_⟩
    exact iff_of_false (fun h => nomatch h) fun h => hq' (Option.some.inj (h.symm.trans hnot))

theorem Server.step_dead {sv sv' : Server} {act : ServerAct} (h : Server.StepCases sv act sv')
    (hout : act.fromOutside = true) (halive : sv.dead kServerPid = false) :
    sv'.dead kServerPid = false := by
  cases h with
  | die pid =>
    have hne : kServerPid ≠ pid := fun he => by simp [ServerAct.fromOutside, ← he] at hout
    exact (Function.update_of_ne hne _ _).trans halive
  | send | recvCreate | recv | gone | addWait | forward | terminated | sendHint | sched =>
    exact halive

/-- The event that the worker takes is the first of those that were sent, and the
handler that has sent it waits. -/
theorem Inv.asked_event (hi : s.Inv) {act : ServerAct} {server : Server} {e : Event}
    (hout : act.fromOutside = true) (hs : s.server.step act = some server)
    (hasked : s.server.asked act = some e) :
    ∃ t q h events, s.events = (q, h) :: events ∧ e = q.event h ∧
      server.queriesInFlight = (events.map fun x => x.1.event x.2) ∧ s.threads t = .wait q h ∧
      (s.queries q).ready = false ∧ s.resultOf q = ⟨[], []⟩ := by
  have hflight := Server.queriesInFlight_step hs hout
  rw [hasked] at hflight
  have hflight := hflight.1.symm.trans hi.inFlight
  cases hev : s.events with
  | nil => rw [hev] at hflight; cases hflight
  | cons x events =>
    obtain ⟨q, h⟩ := x
    rw [hev] at hflight
    obtain ⟨he, hrest⟩ := List.cons.inj hflight
    have hmem : (q, h) ∈ s.events := by rw [hev]; exact List.mem_cons_self
    obtain ⟨t, h', hpc, hw, -⟩ := hi.waiting_of_not_quiet (q := q) fun hq => hq.1 h hmem
    cases hw with
    | answered hev' => exact absurd hmem (hev' h)
    | ready hquiet => exact absurd hmem (hquiet.1 h)
    | sent hmem' _ hready hfresh =>
      -- the query has no other event
      have hh : h' = h := by
        have hnodup := hi.nodup
        rw [hev, List.map_cons, List.nodup_cons] at hnodup
        rw [hev] at hmem'
        rcases List.mem_cons.1 hmem' with heq | hm
        · exact (Prod.mk.inj heq).2
        · exact absurd (List.mem_map.2 ⟨_, hm, rfl⟩) hnodup.1
      subst hh
      exact ⟨t, q, h', events, rfl, he, hrest, hpc, hready, hfresh⟩

theorem sameAt_fill {events : List (QueryId × XQueueHandle)} (hev : s.events = (q, h) :: events)
    (hnot : s.notifying = none) (e : Event) (server : Server) {q' : QueryId} (hq' : q' ≠ q) :
    SameAt s { s.fill e with server := server } q' := by
  simp only [fill, hev]
  refine ⟨Function.update_of_ne hq' _ _, ?_, ?_⟩
  · intro h'
    rw [hev]
    exact (List.mem_cons.trans (or_iff_right fun he => hq' (Prod.mk.inj he).1)).symm
  · rw [hnot]
    exact iff_of_false (fun he => hq' (Option.some.inj he).symm) fun he => nomatch he

theorem Inv.asked (hi : s.Inv) {act : ServerAct} {server : Server} {e : Event}
    (hout : act.fromOutside = true) (hnot : s.notifying = none)
    (hs : s.server.step act = some server) (hasked : s.server.asked act = some e) :
    Inv { s.fill e with server := server } := by
  obtain ⟨t, q, h, events, hev, rfl, hflight, hpc, hready, -⟩ := hi.asked_event hout hs hasked
  have hsame (q' : QueryId) (hq' : q' ≠ q) := sameAt_fill hev hnot (q.event h) server hq'
  have hnodup := hi.nodup
  rw [hev, List.map_cons, List.nodup_cons] at hnodup
  have hgone : ∀ h', (q, h') ∉ events := fun h' hm => hnodup.1 (List.mem_map.2 ⟨_, hm, rfl⟩)
  simp only [fill, hev] at hsame ⊢
  refine hi.worker rfl rfl hpc (.answered hgone rfl ?_) hsame hnodup.2 hflight
    (Server.step_dead (Server.step_cases hs) hout hi.alive)
  change (update s.queries q _ q).ready = false
  rw [Function.update_self, StatusQuery.answer_ready]
  exact hready

theorem inv_init (type : XPolicyType) : (init type).Inv := by
  refine ⟨?_, fun q _ => ⟨fun h => List.not_mem_nil, fun h => nomatch h⟩, fun _ => trivial,
    List.nodup_nil, rfl, rfl⟩
  exact fun t q => iff_of_false (fun h => nomatch h) fun h => nomatch h

theorem Inv.step (hi : s.Inv) {act : QueryAct} (hc : StepCases s act s') : s'.Inv := by
  cases hc with
  | call hpc => exact hi.call hpc
  | lock hpc hmtx => exact hi.takeLock hpc hmtx
  | reset hpc => exact hi.resetQuery hpc
  | send hpc => exact hi.sendEvent hpc
  | @wait t q h hpc hready =>
    have hw := hi.pc t
    rw [hpc] at hw
    refine hi.setPc (by rw [hpc]; rfl) rfl ?_
    cases hw with
    | sent _ _ hready' => rw [hready'] at hready; cases hready
    | answered _ _ hready' => rw [hready'] at hready; cases hready
    | ready hquiet => exact hquiet
  | @read t q h hpc =>
    have hquiet := hi.pc t
    rw [hpc] at hquiet
    exact hi.setPc (by rw [hpc]; rfl) rfl hquiet
  | answered hpc => exact hi.releaseLock hpc
  | notify hnot => exact hi.notify hnot
  | server hout hs hasked =>
    have hflight := Server.queriesInFlight_step hs hout
    rw [hasked] at hflight
    refine ⟨hi.lock, hi.free, ?_, hi.nodup, hflight.trans hi.inFlight,
      Server.step_dead (Server.step_cases hs) hout hi.alive⟩
    exact fun u => (hi.pc u).frame fun _ _ => ⟨rfl, fun _ => Iff.rfl, Iff.rfl⟩
  | asked hout hnot hs hasked => exact hi.asked hout hnot hs hasked

end

theorem inv_reachable {s : QueryServer} (hr : lts.Reachable s) : s.Inv := by
  refine LTS.reachable_induction (I := Inv) ?_ ?_ hr
  · rintro s ⟨type, rfl⟩; exact inv_init type
  · intro s act s' _ hi hs; exact hi.step (step_cases hs)

/-- The server with its handlers is a server. -/
theorem server_reachable {s : QueryServer} (hr : lts.Reachable s) :
    Server.lts.Reachable s.server := by
  refine LTS.reachable_map (M := lts) (N := Server.lts) server ?_ ?_ hr
  · rintro s ⟨type, rfl⟩; exact ⟨type, rfl⟩
  · intro s act s' hr hs
    cases step_cases hs with
    | call | lock | reset | wait | read | answered | notify => exact Or.inl rfl
    | @send t q h hpc =>
      refine Or.inr ⟨.send (q.event h), ?_⟩
      have halive := (inv_reachable hr).alive
      cases q <;>
        simp only [Server.lts, LTS.ofFn, Server.step, QueryId.event, Event.pid, halive,
          Bool.false_eq_true, if_false] <;> rfl
    | server hout hserver => exact Or.inr ⟨_, hserver⟩
    | asked hout hnot hserver => exact Or.inr ⟨_, hserver⟩

/-! ## The moment of an answer -/

/-- The query of the thread's call is answered with `a`. -/
inductive Filled (s : QueryServer) (t : HttpThread) (q : QueryId) (h : XQueueHandle) (a : Answer) :
    Prop
  | wait (hpc : s.threads t = .wait q h) (hev : (q, h) ∉ s.events) (ha : s.resultOf q = a)
  | read (hpc : s.threads t = .read q h) (ha : s.resultOf q = a)
  | answered (hpc : s.threads t = .answered q h a)

/-- The moment at which the status says `a`: the thread waits for it. -/
structure Moment (s : QueryServer) (t : HttpThread) (q : QueryId) (h : XQueueHandle) (a : Answer) :
    Prop where
  waits : s.threads t = .wait q h
  tells : s.server.scheduler.status.tell q h = a

section
variable {s s' : QueryServer} {t : HttpThread} {q : QueryId} {h : XQueueHandle} {a : Answer}

theorem Filled.holds (hf : s.Filled t q h a) : (s.threads t).holds = some q := by
  cases hf with
  | wait hpc | read hpc | answered hpc => rw [hpc]; rfl

/-- A step that leaves the thread and its query alone. -/
theorem Filled.before (hf : s'.Filled t q h a) (ht : s'.threads t = s.threads t)
    (hs : SameAt s s' q) : s.Filled t q h a := by
  cases hf with
  | wait hpc hev ha =>
    exact .wait (ht ▸ hpc) (fun hm => hev ((hs.events h).2 hm)) (hs.resultOf ▸ ha)
  | read hpc ha => exact .read (ht ▸ hpc) (hs.resultOf ▸ ha)
  | answered hpc => exact .answered (ht ▸ hpc)

theorem Filled.at_pc (hf : s.Filled t q h a) {pc : HandlerPc} (hpc : s.threads t = pc) :
    (pc = .wait q h ∧ (q, h) ∉ s.events ∧ s.resultOf q = a) ∨ (pc = .read q h ∧ s.resultOf q = a) ∨
      pc = .answered q h a := by
  cases hf with
  | wait hpc' hev ha => exact Or.inl ⟨hpc.symm.trans hpc', hev, ha⟩
  | read hpc' ha => exact Or.inr (Or.inl ⟨hpc.symm.trans hpc', ha⟩)
  | answered hpc' => exact Or.inr (Or.inr (hpc.symm.trans hpc'))

theorem handler_threads {u : HttpThread} (hc : StepCases s (.handler u) s') (ht : t ≠ u) :
    s'.threads t = s.threads t := by
  cases hc <;> exact setPc_of_ne ht

/-- A handler leaves the queries that it does not have alone. -/
theorem handler_sameAt {u : HttpThread} (hc : StepCases s (.handler u) s')
    (hq : (s.threads u).holds ≠ some q) : SameAt s s' q := by
  cases hc with
  | lock hpc | wait hpc | read hpc | answered hpc => exact ⟨rfl, fun _ => Iff.rfl, Iff.rfl⟩
  | @reset _ q' h' hpc =>
    have hne : q ≠ q' := by rintro rfl; rw [hpc] at hq; exact hq rfl
    exact ⟨Function.update_of_ne hne _ _, fun _ => Iff.rfl, Iff.rfl⟩
  | @send _ q' h' hpc =>
    have hne : q ≠ q' := by rintro rfl; rw [hpc] at hq; exact hq rfl
    refine ⟨rfl, ?_, Iff.rfl⟩
    intro h
    change (q, h) ∈ s.events ++ [(q', h')] ↔ _
    simp [hne]

/-- The thread's own step in a call whose query is answered. -/
theorem filled_own (hi : s.Inv) (hc : StepCases s (.handler t) s') (hf : s'.Filled t q h a) :
    s.Filled t q h a := by
  cases hc with
  | lock hpc | reset hpc | answered hpc =>
    rcases hf.at_pc setPc_self with ⟨he, -⟩ | ⟨he, -⟩ | he <;> cases he
  | @send _ q' h' hpc =>
    rcases hf.at_pc setPc_self with ⟨he, hev, -⟩ | ⟨he, -⟩ | he <;> cases he
    exact absurd (List.mem_append_right _ (List.mem_singleton_self _)) hev
  | @wait _ q' h' hpc hready =>
    rcases hf.at_pc setPc_self with ⟨he, -⟩ | ⟨he, ha⟩ | he <;> cases he
    have hw := hi.pc t
    rw [hpc] at hw
    refine .wait hpc ?_ ha
    cases hw with
    | sent _ _ hready' => rw [hready'] at hready; cases hready
    | answered hev => exact hev _
    | ready hquiet => exact hquiet.1 _
  | @read _ q' h' hpc =>
    rcases hf.at_pc setPc_self with ⟨he, -⟩ | ⟨he, -⟩ | he <;> cases he
    exact .read hpc rfl

/-- The worker answers a query with what the status says. -/
theorem filled_asked (hi : s.Inv) {act : ServerAct} {server : Server} {e : Event}
    (hout : act.fromOutside = true) (hnot : s.notifying = none)
    (hs : s.server.step act = some server) (hasked : s.server.asked act = some e)
    (hf : Filled { s.fill e with server := server } t q h a) :
    s.Filled t q h a ∨ s.Moment t q h a := by
  obtain ⟨u, q', h', events, hev, rfl, -, hpc, -, hfresh⟩ := hi.asked_event hout hs hasked
  have hthreads : (s.fill (q'.event h')).threads = s.threads := by simp only [fill, hev]; rfl
  by_cases hq : q = q'
  · subst hq
    have hold := hf.holds
    change ((s.fill _).threads t).holds = some q at hold
    rw [hthreads] at hold
    have hu : t = u := hi.holder_unique (by rw [hpc]; rfl) hold
    subst hu
    rcases hf.at_pc ((congrFun hthreads t).trans hpc) with ⟨he, -, ha⟩ | ⟨he, -⟩ | he <;> cases he
    refine Or.inr ⟨hpc, ?_⟩
    rw [← StatusQuery.answer_result hfresh h, ← ha]
    simp only [fill, hev, resultOf, setQuery, Function.update_self]
  · exact Or.inl (hf.before (congrFun hthreads t) (sameAt_fill hev hnot _ server hq))

/-- A query is answered by the worker, with what the status says then. -/
theorem filled_step (hi : s.Inv) {act : QueryAct} (hc : StepCases s act s')
    (hf : s'.Filled t q h a) :
    (s.Filled t q h a ∨ s.Moment t q h a) ∧ ∀ q h, act ≠ .call t q h := by
  have hold := hf.holds
  cases act with
  | call u q' h' =>
    cases hc
    have hu : t ≠ u := by
      rintro rfl
      rw [setPc_self] at hold
      cases hold
    refine ⟨Or.inl (hf.before (setPc_of_ne hu) ⟨rfl, fun _ => Iff.rfl, Iff.rfl⟩), ?_⟩
    rintro q'' h'' heq
    cases heq
    exact hu rfl
  | handler u =>
    refine ⟨Or.inl ?_, fun _ _ => QueryAct.noConfusion⟩
    by_cases hu : t = u
    · subst hu
      exact filled_own hi hc hf
    · have hthreads := handler_threads hc hu
      rw [hthreads] at hold
      refine hf.before hthreads (handler_sameAt hc fun hq => hu ?_)
      exact hi.holder_unique hq hold
  | notify =>
    refine ⟨Or.inl ?_, fun _ _ => QueryAct.noConfusion⟩
    cases hc with
    | @notify q' hnot =>
      have hres : (s.setQuery q' (s.queries q').notify).resultOf q = s.resultOf q := by
        by_cases hq : q = q'
        · subst hq
          simp only [resultOf, setQuery, Function.update_self]
          rfl
        · simp only [resultOf, setQuery, Function.update_of_ne hq]
      cases hf with
      | wait hpc hev ha => exact .wait hpc hev (hres.symm.trans ha)
      | read hpc ha => exact .read hpc (hres.symm.trans ha)
      | answered hpc => exact .answered hpc
  | server act =>
    refine ⟨?_, fun _ _ => QueryAct.noConfusion⟩
    cases hc with
    | server hout hs hasked => exact Or.inl (hf.before rfl ⟨rfl, fun _ => Iff.rfl, Iff.rfl⟩)
    | asked hout hnot hs hasked => exact filled_asked hi hout hnot hs hasked hf

end

/-! ## Results -/

/-- The run since the moment grows with every step, until the thread returns. -/
theorem filled_moment {type : XPolicyType} {acts : List QueryAct} {s : QueryServer}
    (hrun : lts.Run (init type) acts s) {t : HttpThread} {q : QueryId} {h : XQueueHandle}
    {a : Answer} : s.Filled t q h a → ∃ acts₁ acts₂ s₁, acts = acts₁ ++ acts₂ ∧
      lts.Run (init type) acts₁ s₁ ∧ lts.Run s₁ acts₂ s ∧ s₁.Moment t q h a ∧
      ∀ q h, .call t q h ∉ acts₂ := by
  refine LTS.Run.snoc_induction (P := fun acts s => s.Filled t q h a →
    ∃ acts₁ acts₂ s₁, acts = acts₁ ++ acts₂ ∧ lts.Run (init type) acts₁ s₁ ∧
      lts.Run s₁ acts₂ s ∧ s₁.Moment t q h a ∧ ∀ q h, .call t q h ∉ acts₂) ?_ ?_ hrun
  · intro hf
    cases hf.holds
  · intro acts s act s' hrun ih hs hf
    have hi := inv_reachable ⟨_, _, ⟨type, rfl⟩, hrun⟩
    obtain ⟨hbefore, hcall⟩ := filled_step hi (step_cases hs) hf
    have hnot (q : QueryId) (h : XQueueHandle) : QueryAct.call t q h ∉ [act] := fun hm =>
      hcall q h (List.mem_singleton.1 hm).symm
    rcases hbefore with hf | hm
    · obtain ⟨acts₁, acts₂, s₁, rfl, h₁, h₂, hm, hno⟩ := ih hf
      refine ⟨acts₁, acts₂ ++ [act], s₁, by rw [List.append_assoc], h₁, h₂.snoc hs, hm, ?_⟩
      intro q h hmem
      rcases List.mem_append.1 hmem with hmem | hmem
      · exact hno q h hmem
      · exact hnot q h hmem
    · exact ⟨acts, [act], s, rfl, hrun, .cons hs (.nil _), hm, hnot⟩

/-- What a handler has read is what the status said at one moment of the call: the
thread waited then, and has not begun another call since. -/
theorem answers_moment {type : XPolicyType} {acts : List QueryAct} {s : QueryServer}
    (hrun : lts.Run (init type) acts s) {t : HttpThread} {q : QueryId} {h : XQueueHandle}
    {a : Answer} (hpc : s.threads t = .answered q h a) :
    ∃ acts₁ acts₂ s₁, acts = acts₁ ++ acts₂ ∧ lts.Run (init type) acts₁ s₁ ∧
      lts.Run s₁ acts₂ s ∧ s₁.threads t = .wait q h ∧ (∀ q h, .call t q h ∉ acts₂) ∧
      a = s₁.server.scheduler.status.tell q h := by
  obtain ⟨acts₁, acts₂, s₁, hacts, h₁, h₂, hm, hno⟩ := filled_moment hrun (.answered hpc)
  exact ⟨acts₁, acts₂, s₁, hacts, h₁, h₂, hm.waits, hno, hm.tells.symm⟩

/-- A query is in the worker's hands exactly while its handler waits for it: with one
event under way or at its notification, until it is ready. -/
theorem query_handed_over {s : QueryServer} (hr : lts.Reachable s) (q : QueryId) :
    (∀ t h, s.threads t = .wait q h → s.Waiting q h ∧ (s.events.map (·.1)).count q ≤ 1) ∧
      ((∀ t h, s.threads t ≠ .wait q h) → s.Quiet q) := by
  have hi := inv_reachable hr
  constructor
  · intro t h hpc
    have hw := hi.pc t
    rw [hpc] at hw
    exact ⟨hw, List.nodup_iff_count_le_one.1 hi.nodup q⟩
  · intro hno
    by_contra hq
    obtain ⟨t, h, hpc, -⟩ := hi.waiting_of_not_quiet hq
    exact hno t h hpc

/-- `GetXQueue` finds an XQueue together with its process, or nothing at all. -/
theorem found_with_process {s : QueryServer} (hr : lts.Reachable s) {t : HttpThread}
    {h : XQueueHandle} {a : Answer} (hpc : s.threads t = .answered .getXQueue h a) :
    a = ⟨[], []⟩ ∨ ∃ x p, a = ⟨[x], [p]⟩ ∧ p.pid = x.pid := by
  obtain ⟨s₀, acts, ⟨type, rfl⟩, hrun⟩ := hr
  obtain ⟨acts₁, -, s₁, -, h₁, -, hm, -⟩ := filled_moment hrun (.answered hpc)
  obtain rfl := hm.tells
  have hserver := server_reachable ⟨_, _, ⟨type, rfl⟩, h₁⟩
  have hlinked := (LocalScheduler.inv_reachable (Server.scheduler_reachable hserver)).linked
  simp only [Status.tell]
  cases hx : s₁.server.scheduler.status.xqueueStatus.lookup h with
  | none => exact Or.inl rfl
  | some x =>
    cases hp : s₁.server.scheduler.status.processStatus.lookup x.pid with
    | none => exact absurd (hlinked.home h x hx) (AList.lookup_eq_none.1 hp)
    | some p =>
      refine Or.inr ⟨x, p.info, ?_, hlinked.keyed x.pid p hp⟩
      simp [hp]

/-! ## A query between two events -/

/-- An XQueue is created; a handler asks for it while it becomes ready. -/
def queryTrace : List QueryAct :=
  [.server (.sched .run), .server (.send (.xQueueCreate 7 70 1 2 16 8)), .server .recv,
    .server .forward, .call 0 .getXQueue 70, .handler 0, .handler 0,
    .server (.sched (.wake 1)), .handler 0, .server (.send (.xQueueReady 7 70 5)),
    .server (.sched (.update 1)), .server .recv, .server .forward, .server (.sched (.sched [])),
    .server .recv, .server (.sched (.wake 2)), .server (.sched (.update 2)), .server .forward,
    .notify, .server (.sched (.sched [])), .server (.sched (.wake 3)),
    .server (.sched (.update 3)), .handler 0, .handler 0]

/-- The answer is from before the XQueue was ready. -/
theorem answers_moment_before : ∃ s acts₁ acts₂ s₁ a,
    lts.Run (init .kPolicyHighestPriorityFirst) queryTrace s ∧
      s.threads 0 = .answered .getXQueue 70 a ∧ a.status.map (·.ready) = [false] ∧
      queryTrace = acts₁ ++ acts₂ ∧ lts.Run s₁ acts₂ s ∧
      a = s₁.server.scheduler.status.tell .getXQueue 70 := by
  have htrace : (LTS.exec step (init .kPolicyHighestPriorityFirst) queryTrace).map
      (fun s => s.threads 0) = some (.answered .getXQueue 70
        ⟨[⟨70, 1, 2, 7, 16, 8, false, false, 1⟩], [⟨7, ""⟩]⟩) := by decide
  obtain ⟨s, hs, hpc⟩ := Option.map_eq_some_iff.1 htrace
  have hrun : lts.Run (init .kPolicyHighestPriorityFirst) queryTrace s := LTS.run_of_exec hs
  obtain ⟨acts₁, acts₂, s₁, hacts, -, h₂, -, -, ha⟩ := answers_moment hrun hpc
  exact ⟨s, acts₁, acts₂, s₁, _, hrun, hpc, rfl, hacts, h₂, ha⟩

end QueryServer
end Xsched.Sched
