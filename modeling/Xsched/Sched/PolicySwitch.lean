import Mathlib.Data.Fintype.Defs
import Mathlib.Logic.Function.Basic
import Xsched.Sched.Policy

/-!
# The worker thread across policy changes

`LocalScheduler` as its callers see it: any number of threads in `RecvEvent`,
`SetPolicy` and `Stop`, and the `std::thread`s that run `Worker`. Each access
to `thread_`, the queue under `event_mtx_`, the join, the new policy and the
new thread is a step of its own, so two calls of `SetPolicy` may interleave.
`Xsched.Sched.Local` has one call at a time.

`thread_` holds a `std::thread` that is joinable until it has been joined.
Overwriting or destroying it before that ends the process, and so does a join
through a null `thread_`; both are `crashed`. A second join of a thread throws
out of the call.

**The break.** `SetPolicy` is `Stop`, a new policy and `Run`, and holds no
lock over the three. A call that enters `Stop` while another is between its
own `Stop` and its `Run` finds `thread_` null or about to be joined; both then
start a worker, or join the same one.

**Results**
* `one_worker_at_a_time`: while every call finds no other one behind its test
  of `thread_` (`Alone`), there is at most one worker, no `std::thread` is lost
  and none is joined twice, and after the calls the worker of the stored policy
  runs.
* `two_workers`: two overlapping calls of `SetPolicy`.
-/
namespace Xsched.Sched
namespace PolicySwitch

open Function (update)

/-- The object that `policy_` owns; the number tells it from one of the same
type before it. -/
structure PolicyObj where
  id : Nat
  type : XPolicyType
  deriving DecidableEq

/-- Where in a round the worker has called the policy; `tmp` is `tmp_queue`. -/
inductive Round where
  | hint (tmp : List Event)
  | ready (tmp : List Event)
  | last
  deriving DecidableEq

/-- Where a worker is. -/
inductive LoopPc where
  /-- About to take `event_mtx_`: at the start, after a round, or in a wait. -/
  | unlocked
  /-- At the head of the wait loop, with `event_mtx_`. -/
  | locked
  | draining (tmp : List Event) (terminate : Bool)
  /-- At the `Reschedule` after a Ready event. -/
  | ready (tmp : List Event) (terminate : Bool)
  /-- Inside `policy_->RecvHint` or `policy_->Sched`. -/
  | inPolicy (policy : PolicyObj) (terminate : Bool) (round : Round)
  /-- Returned, or never started. -/
  | returned
  deriving DecidableEq

/-- What follows a `RecvEvent`: the caller, or the join of `Stop`, on the way to
`next` when `SetPolicy` called it. -/
inductive After where
  | ret
  | join (next : Option XPolicyType)
  deriving DecidableEq

/-- Where a thread is in a call of `RecvEvent`, `SetPolicy` or `Stop`. -/
inductive CallPc where
  | idle
  | lock (e : Event) (after : After)
  | push (e : Event) (after : After)
  | unlock (after : After)
  | checkType (type : XPolicyType)
  /-- `if (thread_)` -/
  | test (next : Option XPolicyType)
  | join (next : Option XPolicyType)
  | joining (next : Option XPolicyType) (t : Nat)
  /-- `thread_ = nullptr` -/
  | reset (next : Option XPolicyType)
  | clearTimers (next : Option XPolicyType)
  | setType (type : XPolicyType)
  | newPolicy (type : XPolicyType)
  | resumeAll
  /-- The construction of the `std::thread`, then its move into `thread_`. -/
  | spawn
  | assign (t : Nat)
  deriving DecidableEq

/-- The call is past the test of `thread_` and has not finished with it. -/
def CallPc.critical : CallPc → Bool
  | .lock _ (.join _) | .push _ (.join _) | .unlock (.join _) | .join _ | .joining _ _ | .reset _
  | .clearTimers _ | .setType _ | .newPolicy _ | .resumeAll | .spawn | .assign _ => true
  | _ => false

/-- `joins` and `stopCalled` are ghosts: the calls of `join` on each thread, and
whether `Stop` was called by other than `SetPolicy`. -/
structure State (C : Type) where
  policyType : XPolicyType
  policy : PolicyObj
  thread : Option Nat
  status : Status
  timers : List TimePoint
  eventQueue : List Event
  /-- `event_mtx_` is held -/
  eventMtx : Bool
  loop : Nat → LoopPc
  threads : Nat
  joinable : Nat → Bool
  pc : C → CallPc
  crashed : Bool
  joins : Nat → Nat
  stopCalled : Bool

/-- `worker t`: the next step of a worker, with the clock and what a policy
would do in it. -/
inductive Act (C : Type) where
  | recvEvent (c : C) (e : Event)
  | setPolicy (c : C) (type : XPolicyType)
  | stop (c : C)
  | call (c : C)
  | worker (t : Nat) (now : TimePoint) (calls : List Callback)
  deriving DecidableEq

section Steps
variable {C : Type} [DecidableEq C]

def State.goto (s : State C) (c : C) (pc : CallPc) : State C := { s with pc := update s.pc c pc }

def State.at (s : State C) (t : Nat) (pc : LoopPc) : State C :=
  { s with loop := update s.loop t pc }

/-- The end of the object that `thread_` owns, by `thread_ = …`. -/
def State.replaceThread (s : State C) (thread : Option Nat) : State C :=
  { s with
    thread := thread
    crashed := s.crashed || s.thread.any s.joinable }

/-- `thread_->join()`, up to the wait for the thread.
mirrors sched/src/scheduler/local.cpp:35 -/
def State.callJoin (s : State C) (c : C) (next : Option XPolicyType) : State C :=
  match s.thread with
  | none => { s with crashed := true }
  | some t =>
    { s with joins := update s.joins t (s.joins t + 1) }.goto c
      (if s.joinable t then .joining next t else .idle)

/-- One step of a call.
mirrors sched/src/scheduler/local.cpp:26-63 -/
def State.call (s : State C) (c : C) : Option (State C) :=
  match s.pc c with
  | .idle => none
  | .lock e after =>
    if s.eventMtx then none else some ({ s with eventMtx := true }.goto c (.push e after))
  | .push e after => some ({ s with eventQueue := s.eventQueue ++ [e] }.goto c (.unlock after))
  | .unlock .ret => some ({ s with eventMtx := false }.goto c .idle)
  | .unlock (.join next) => some ({ s with eventMtx := false }.goto c (.join next))
  | .checkType type => some (s.goto c (if type = s.policyType then .idle else .test (some type)))
  | .test next =>
    some (s.goto c (if s.thread.isSome then .lock (.schedulerTerminate kServerPid) (.join next)
      else .reset next))
  | .join next => some (s.callJoin c next)
  | .joining next t =>
    if s.loop t = .returned then
      some ({ s with joinable := update s.joinable t false }.goto c (.reset next))
    else none
  | .reset next => some ((s.replaceThread none).goto c (.clearTimers next))
  | .clearTimers none => some ({ s with timers := [] }.goto c .idle)
  | .clearTimers (some type) => some ({ s with timers := [] }.goto c (.setType type))
  | .setType type => some ({ s with policyType := type }.goto c (.newPolicy type))
  | .newPolicy type => some ({ s with policy := ⟨s.policy.id + 1, type⟩ }.goto c .resumeAll)
  | .resumeAll => some ({ s with status := s.status.resumeAll }.goto c .spawn)
  | .spawn =>
    some ({ s with
      threads := s.threads + 1
      loop := update s.loop s.threads .unlocked
      joinable := update s.joinable s.threads true }.goto c (.assign s.threads))
  | .assign t => some ((s.replaceThread (some t)).goto c .idle)

/-- The head of the wait loop: on to a round, or into a wait.
mirrors sched/src/scheduler/local.cpp:72-99 -/
def State.wake (s : State C) (t : Nat) (now : TimePoint) : State C :=
  match s.eventQueue, s.timers with
  | [], [] => { s with eventMtx := false }.at t .unlocked
  | [], first :: _ =>
    if now < first then { s with eventMtx := false }.at t .unlocked
    else
      { s with
        eventMtx := false
        timers := s.timers.dropWhile (· ≤ now) }.at t (.draining [] false)
  | e :: es, _ => { s with eventMtx := false, eventQueue := [] }.at t (.draining (e :: es) false)

/-- One turn of the loop over `tmp_queue`.
mirrors sched/src/scheduler/local.cpp:103-112 -/
def State.drain (s : State C) (t : Nat) (now : TimePoint) (e : Event) (tmp : List Event)
    (terminate : Bool) : Option (State C) :=
  match e with
  | .schedulerTerminate _ => some (s.at t (.draining tmp true))
  | .hint _ => some (s.at t (.inPolicy s.policy terminate (.hint tmp)))
  | .xQueueReady _ _ _ =>
    (s.status.updateStatus now e).map fun status => { s with status }.at t (.ready tmp terminate)
  | _ =>
    (s.status.updateStatus now e).map fun status => { s with status }.at t (.draining tmp terminate)

/-- The calls of the policy in a `Sched`.
mirrors sched/src/scheduler/local.cpp:337-370 -/
def State.callbacks (s : State C) (calls : List Callback) : State C :=
  { s with
    status := calls.foldl Status.callback s.status
    timers := s.timers ++ calls.filterMap fun
      | .addTimer t => some t
      | _ => none }

/-- One step of a worker.
mirrors sched/src/scheduler/local.cpp:65-119 -/
def State.worker (s : State C) (t : Nat) (now : TimePoint) (calls : List Callback) :
    Option (State C) :=
  match s.loop t with
  | .returned => none
  | .unlocked => if s.eventMtx then none else some ({ s with eventMtx := true }.at t .locked)
  | .locked => some (s.wake t now)
  | .draining (e :: tmp) terminate => s.drain t now e tmp terminate
  | .draining [] terminate => some (s.at t (.inPolicy s.policy terminate .last))
  | .ready tmp terminate => some (s.at t (.inPolicy s.policy terminate (.ready tmp)))
  | .inPolicy _ terminate (.hint tmp) => some (s.at t (.draining tmp terminate))
  | .inPolicy _ terminate (.ready tmp) => some ((s.callbacks calls).at t (.draining tmp terminate))
  | .inPolicy _ terminate .last =>
    let s := s.callbacks calls
    some ({ s with timers := s.timers.insertionSort (· ≤ ·) }.at t
      (if terminate then .returned else .unlocked))

def isTerminate : Event → Bool
  | .schedulerTerminate _ => true
  | _ => false

/-- No step after a crash. A `SchedulerTerminateEvent` is made by `Stop` only. -/
def step (s : State C) (act : Act C) : Option (State C) :=
  if s.crashed then none
  else match act with
    | .recvEvent c e =>
      if s.pc c = .idle ∧ isTerminate e = false then some (s.goto c (.lock e .ret)) else none
    | .setPolicy c type => if s.pc c = .idle then some (s.goto c (.checkType type)) else none
    | .stop c =>
      if s.pc c = .idle then some ({ s with stopCalled := true }.goto c (.test none)) else none
    | .call c => s.call c
    | .worker t now calls => s.worker t now calls

/-- Constructed and `Run`. mirrors sched/src/scheduler/local.cpp:12-29 -/
def init (type : XPolicyType) : State C where
  policyType := type
  policy := ⟨0, type⟩
  thread := some 0
  status := .empty
  timers := []
  eventQueue := []
  eventMtx := false
  loop := update (fun _ => .returned) 0 .unlocked
  threads := 1
  joinable := update (fun _ => false) 0 true
  pc _ := .idle
  crashed := false
  joins _ := 0
  stopCalled := false

def system (C : Type) [DecidableEq C] : LTS (State C) (Act C) :=
  .ofFn (fun s => ∃ type, s = init type) step

def CallPc.tests : CallPc → Bool
  | .test _ => true
  | _ => false

/-- A call tests `thread_` when no other call is behind that test. -/
def Alone (s : State C) : Act C → Prop
  | .call c => (s.pc c).tests = true → ∀ c', (s.pc c').critical = false
  | .recvEvent _ _ | .setPolicy _ _ | .stop _ | .worker _ _ _ => True

instance [Fintype C] (s : State C) : ∀ act, Decidable (Alone s act)
  | .call c =>
    inferInstanceAs (Decidable ((s.pc c).tests = true → ∀ c', (s.pc c').critical = false))
  | .recvEvent _ _ | .setPolicy _ _ | .stop _ | .worker _ _ _ => inferInstanceAs (Decidable True)

end Steps

/-! ## The worker -/

section Worker
variable {C : Type} {s s' : State C}

/-- The terminate events on the way to the end of the loop. -/
def LoopPc.terminates : LoopPc → Nat
  | .draining tmp b | .ready tmp b | .inPolicy _ b (.hint tmp) | .inPolicy _ b (.ready tmp) =>
    tmp.countP isTerminate + b.toNat
  | .inPolicy _ b .last => b.toNat
  | .unlocked | .locked | .returned => 0

/-- The terminate events that are left for a worker. -/
def State.terminates (s : State C) (t : Nat) : Nat :=
  s.eventQueue.countP isTerminate + (s.loop t).terminates

/-- What no worker changes. -/
structure Keeps (s s' : State C) : Prop where
  policyType : s'.policyType = s.policyType
  policy : s'.policy = s.policy
  thread : s'.thread = s.thread
  threads : s'.threads = s.threads
  joinable : s'.joinable = s.joinable
  pc : s'.pc = s.pc
  crashed : s'.crashed = s.crashed
  joins : s'.joins = s.joins
  stopCalled : s'.stopCalled = s.stopCalled

/-- A step of a worker: it keeps the terminate event that is left for it, and
returns on it. -/
structure WorkerStep (s s' : State C) (t : Nat) : Prop where
  keeps : Keeps s s'
  active : s.loop t ≠ .returned
  other : ∀ t', t' ≠ t → s'.loop t' = s.loop t'
  terminates : s.terminates t ≤ 1 →
    s.terminates t = s'.terminates t + if s'.loop t = .returned then 1 else 0
  policy : ∀ p b round, s'.loop t = .inPolicy p b round → p = s.policy

theorem Keeps.of_at {t : Nat} {pc : LoopPc} (h : Keeps s s') : Keeps s (s'.at t pc) :=
  ⟨h.1, h.2, h.3, h.4, h.5, h.6, h.7, h.8, h.9⟩

theorem at_step {t : Nat} {pc : LoopPc} (hactive : s.loop t ≠ .returned)
    (hkeeps : Keeps s s') (hloop : s'.loop = s.loop)
    (hterminates : s.terminates t ≤ 1 → s.terminates t =
      s'.eventQueue.countP isTerminate + pc.terminates + if pc = .returned then 1 else 0)
    (hpolicy : ∀ p b round, pc = .inPolicy p b round → p = s.policy) :
    WorkerStep s (s'.at t pc) t where
  keeps := hkeeps.of_at
  active := hactive
  other t' ht := by rw [State.at, hloop]; exact Function.update_of_ne ht _ _
  terminates hle := by simpa [State.terminates, State.at] using hterminates hle
  policy p b round h := hpolicy p b round (by simpa [State.at] using h)

theorem wake_step {t : Nat} {now : TimePoint} (hpc : s.loop t = .locked) :
    WorkerStep s (s.wake t now) t := by
  have hactive : s.loop t ≠ .returned := by rw [hpc]; nofun
  unfold State.wake
  split
  · refine at_step hactive ⟨rfl, rfl, rfl, rfl, rfl, rfl, rfl, rfl, rfl⟩ rfl ?_ nofun
    simp [State.terminates, hpc, LoopPc.terminates]
  · split
    · refine at_step hactive ⟨rfl, rfl, rfl, rfl, rfl, rfl, rfl, rfl, rfl⟩ rfl ?_ nofun
      simp [State.terminates, hpc, LoopPc.terminates]
    · refine at_step hactive ⟨rfl, rfl, rfl, rfl, rfl, rfl, rfl, rfl, rfl⟩ rfl ?_ nofun
      simp [State.terminates, hpc, LoopPc.terminates]
  · rename_i e es hq
    refine at_step hactive ⟨rfl, rfl, rfl, rfl, rfl, rfl, rfl, rfl, rfl⟩ rfl ?_ nofun
    simp [State.terminates, hpc, LoopPc.terminates, hq]

theorem drain_step {t : Nat} {now : TimePoint} {e : Event} {tmp : List Event} {b : Bool}
    (hpc : s.loop t = .draining (e :: tmp) b) (h : s.drain t now e tmp b = some s') :
    WorkerStep s s' t := by
  have hactive : s.loop t ≠ .returned := by rw [hpc]; nofun
  unfold State.drain at h
  split at h
  · cases h
    refine at_step hactive ⟨rfl, rfl, rfl, rfl, rfl, rfl, rfl, rfl, rfl⟩ rfl ?_ nofun
    simp only [State.terminates, hpc, LoopPc.terminates, List.countP_cons, isTerminate, if_true]
    cases b with
    | false => simp
    | true => simp; omega
  · cases h
    refine at_step hactive ⟨rfl, rfl, rfl, rfl, rfl, rfl, rfl, rfl, rfl⟩ rfl ?_ ?_
    · simp [State.terminates, hpc, LoopPc.terminates, isTerminate]
    · intro p b' round he; cases he; rfl
  · obtain ⟨status, -, rfl⟩ := Option.map_eq_some_iff.1 h
    refine at_step hactive ⟨rfl, rfl, rfl, rfl, rfl, rfl, rfl, rfl, rfl⟩ rfl ?_ nofun
    simp [State.terminates, hpc, LoopPc.terminates, isTerminate]
  · rename_i hterm _ _
    obtain ⟨status, -, rfl⟩ := Option.map_eq_some_iff.1 h
    refine at_step hactive ⟨rfl, rfl, rfl, rfl, rfl, rfl, rfl, rfl, rfl⟩ rfl ?_ nofun
    have he : isTerminate e = false := by
      cases e <;> first | rfl | exact absurd rfl (hterm _)
    simp [State.terminates, hpc, LoopPc.terminates, he]

theorem worker_step {t : Nat} {now : TimePoint} {calls : List Callback}
    (h : s.worker t now calls = some s') : WorkerStep s s' t := by
  unfold State.worker at h
  split at h
  · cases h
  · rename_i hpc
    split at h
    · cases h
    · cases h
      refine at_step (by rw [hpc]; nofun) ⟨rfl, rfl, rfl, rfl, rfl, rfl, rfl, rfl, rfl⟩ rfl ?_ nofun
      simp [State.terminates, hpc, LoopPc.terminates]
  · cases h; exact wake_step ‹_›
  · exact drain_step ‹_› h
  · rename_i b hpc
    cases h
    refine at_step (by rw [hpc]; nofun) ⟨rfl, rfl, rfl, rfl, rfl, rfl, rfl, rfl, rfl⟩ rfl ?_ ?_
    · simp [State.terminates, hpc, LoopPc.terminates]
    · intro p b' round he; cases he; rfl
  · rename_i tmp b hpc
    cases h
    refine at_step (by rw [hpc]; nofun) ⟨rfl, rfl, rfl, rfl, rfl, rfl, rfl, rfl, rfl⟩ rfl ?_ ?_
    · simp [State.terminates, hpc, LoopPc.terminates]
    · intro p b' round he; cases he; rfl
  · rename_i p b tmp hpc
    cases h
    refine at_step (by rw [hpc]; nofun) ⟨rfl, rfl, rfl, rfl, rfl, rfl, rfl, rfl, rfl⟩ rfl ?_ nofun
    simp [State.terminates, hpc, LoopPc.terminates]
  · rename_i p b tmp hpc
    cases h
    refine at_step (by rw [hpc]; nofun) ⟨rfl, rfl, rfl, rfl, rfl, rfl, rfl, rfl, rfl⟩ rfl ?_ nofun
    simp [State.terminates, State.callbacks, hpc, LoopPc.terminates]
  · rename_i p b hpc
    cases h
    refine at_step (by rw [hpc]; nofun) ⟨rfl, rfl, rfl, rfl, rfl, rfl, rfl, rfl, rfl⟩ rfl ?_ ?_
    · cases b <;> simp [State.terminates, State.callbacks, hpc, LoopPc.terminates]
    · cases b <;> nofun

/-! ## What holds between the steps of a call -/

/-- `t` is the only worker and stays. -/
structure Serving (s : State C) (t : Nat) : Prop where
  active : s.loop t ≠ .returned
  only : ∀ t', t' ≠ t → s.loop t' = .returned
  joinable : s.joinable t = true
  terminates : s.terminates t = 0

/-- `t` is the only worker and has been told to return. -/
structure Ending (s : State C) (t : Nat) : Prop where
  only : ∀ t', t' ≠ t → s.loop t' = .returned
  joinable : s.joinable t = true
  terminates : s.terminates t = if s.loop t = .returned then 0 else 1

/-- There is no worker. -/
structure Quiet (s : State C) : Prop where
  returned : ∀ t, s.loop t = .returned
  terminates : s.eventQueue.countP isTerminate = 0

/-- What the call behind the test of `thread_` knows at each of its steps. -/
def Phase (s : State C) : CallPc → Prop
  | .lock e (.join _) | .push e (.join _) =>
    isTerminate e = true ∧ ∃ t, s.thread = some t ∧ Serving s t ∧ s.joins t = 0
  | .unlock (.join _) | .join _ => ∃ t, s.thread = some t ∧ Ending s t ∧ s.joins t = 0
  | .joining _ t => s.thread = some t ∧ Ending s t ∧ s.joins t = 1
  | .reset _ => Quiet s ∧ ∀ t, s.thread = some t → s.joinable t = false
  | .clearTimers _ | .setType _ | .resumeAll | .spawn => Quiet s ∧ s.thread = none
  | .newPolicy type => (Quiet s ∧ s.thread = none) ∧ s.policyType = type
  | .assign t => s.thread = none ∧ Serving s t ∧ s.joins t = 0
  | _ => False

/-- What holds when no call is behind the test. -/
def Rest (s : State C) : Prop :=
  (∃ t, s.thread = some t ∧ Serving s t ∧ s.joins t = 0) ∨
    s.thread = none ∧ Quiet s ∧ s.stopCalled = true

/-- The call is one of `Stop` by itself. -/
def CallPc.ofStop : CallPc → Bool
  | .lock _ (.join next) | .push _ (.join next) | .unlock (.join next) | .test next | .join next
  | .joining next _ | .reset next | .clearTimers next => next.isNone
  | _ => false

/-- The event of a `RecvEvent` from outside is not a terminate event. -/
def CallPc.plain : CallPc → Bool
  | .lock e .ret | .push e .ret => !isTerminate e
  | _ => true

structure Inv (s : State C) : Prop where
  crashed : s.crashed = false
  alone : ∀ c c', (s.pc c).critical = true → (s.pc c').critical = true → c = c'
  phase : ∀ c, (s.pc c).critical = true → Phase s (s.pc c)
  rest : (∀ c, (s.pc c).critical = false) → Rest s
  fresh : ∀ t, s.threads ≤ t → s.loop t = .returned ∧ s.joinable t = false ∧ s.joins t = 0
  joins : ∀ t, s.joins t ≤ 1
  stops : ∀ c, (s.pc c).ofStop = true → s.stopCalled = true
  plain : ∀ c, (s.pc c).plain = true
  policy : ∀ t p b round, s.loop t = .inPolicy p b round → p = s.policy
  type : s.policy.type = s.policyType ∨ ∃ c type, s.pc c = .newPolicy type

/-- Steps after which every worker is as busy as before. -/
structure Steady (s s' : State C) : Prop where
  policyType : s'.policyType = s.policyType
  thread : s'.thread = s.thread
  joinable : s'.joinable = s.joinable
  joins : s'.joins = s.joins
  serving : ∀ t, Serving s t → Serving s' t
  ending : ∀ t, Ending s t → Ending s' t
  quiet : Quiet s → Quiet s'

theorem Phase.steady (hs : Steady s s') {pc : CallPc} (h : Phase s pc) : Phase s' pc := by
  unfold Phase at h ⊢
  rw [hs.policyType, hs.thread, hs.joinable, hs.joins]
  split at h
  · obtain ⟨he, t, ht, hserving, hj⟩ := h; exact ⟨he, t, ht, hs.serving t hserving, hj⟩
  · obtain ⟨he, t, ht, hserving, hj⟩ := h; exact ⟨he, t, ht, hs.serving t hserving, hj⟩
  · obtain ⟨t, ht, hending, hj⟩ := h; exact ⟨t, ht, hs.ending t hending, hj⟩
  · obtain ⟨t, ht, hending, hj⟩ := h; exact ⟨t, ht, hs.ending t hending, hj⟩
  · exact ⟨h.1, hs.ending _ h.2.1, h.2.2⟩
  · exact ⟨hs.quiet h.1, h.2⟩
  · exact ⟨hs.quiet h.1, h.2⟩
  · exact ⟨hs.quiet h.1, h.2⟩
  · exact ⟨hs.quiet h.1, h.2⟩
  · exact ⟨hs.quiet h.1, h.2⟩
  · exact ⟨⟨hs.quiet h.1.1, h.1.2⟩, h.2⟩
  · exact ⟨h.1, hs.serving _ h.2.1, h.2.2⟩
  · exact h

theorem Rest.steady (hs : Steady s s') (hstop : s.stopCalled = true → s'.stopCalled = true)
    (h : Rest s) : Rest s' := by
  unfold Rest at h ⊢
  rw [hs.thread, hs.joins]
  rcases h with ⟨t, ht, hserving, hj⟩ | ⟨ht, hquiet, hcalled⟩
  · exact .inl ⟨t, ht, hs.serving t hserving, hj⟩
  · exact .inr ⟨ht, hs.quiet hquiet, hstop hcalled⟩

/-- A step of a caller that changes neither threads nor terminate events. -/
theorem Steady.of_queue (htype : s'.policyType = s.policyType) (hthread : s'.thread = s.thread)
    (hjoinable : s'.joinable = s.joinable)
    (hjoins : s'.joins = s.joins) (hloop : s'.loop = s.loop)
    (hqueue : s'.eventQueue.countP isTerminate = s.eventQueue.countP isTerminate) :
    Steady s s' := by
  have hterm : ∀ t, s'.terminates t = s.terminates t := fun t => by
    unfold State.terminates; rw [hqueue, hloop]
  exact ⟨htype, hthread, hjoinable, hjoins,
    fun t h => ⟨hloop ▸ h.1, hloop ▸ h.2, hjoinable ▸ h.3, (hterm t).trans h.4⟩,
    fun t h => ⟨hloop ▸ h.1, hjoinable ▸ h.2, (hterm t).trans (hloop ▸ h.3)⟩,
    fun h => ⟨hloop ▸ h.1, hqueue.trans h.2⟩⟩

theorem WorkerStep.steady {t : Nat} (h : WorkerStep s s' t) : Steady s s' := by
  refine ⟨h.keeps.policyType, h.keeps.thread, h.keeps.joinable, h.keeps.joins, fun u hu => ?_,
    fun u hu => ?_, fun hq => absurd (hq.returned t) h.active⟩
  · obtain rfl : t = u := by
      by_contra hne
      exact h.active (hu.only t hne)
    have hterm := h.terminates (by rw [hu.terminates]; omega)
    rw [hu.terminates] at hterm
    have hactive : s'.loop t ≠ .returned := fun he => by rw [if_pos he] at hterm; omega
    rw [if_neg hactive] at hterm
    exact ⟨hactive, fun t' ht' => (h.other t' ht').trans (hu.only t' ht'),
      h.keeps.joinable ▸ hu.joinable, by omega⟩
  · obtain rfl : t = u := by
      by_contra hne
      exact h.active (hu.only t hne)
    have hone := hu.terminates
    rw [if_neg h.active] at hone
    have hterm := h.terminates (by omega)
    refine ⟨fun t' ht' => (h.other t' ht').trans (hu.only t' ht'),
      h.keeps.joinable ▸ hu.joinable, ?_⟩
    split at hterm
    · rename_i he; rw [if_pos he]; omega
    · rename_i he; rw [if_neg he]; omega

/-! ## Every step -/

theorem Inv.worker (hi : Inv s) {t : Nat} (h : WorkerStep s s' t) : Inv s' := by
  have hsteady := h.steady
  obtain ⟨hpolicyType, hpolicy, hthread, hthreads, hjoinable, hpc, hcrashed, hjoins, hstop⟩ :=
    h.keeps
  refine ⟨hcrashed.trans hi.crashed, fun c c' => ?_, fun c hc => ?_, fun hnone => ?_,
    fun u hu => ?_, fun u => ?_, fun c => ?_, fun c => ?_, fun u p b round hu => ?_, ?_⟩
  · rw [hpc]; exact hi.alone c c'
  · rw [hpc] at hc ⊢; exact (hi.phase c hc).steady hsteady
  · rw [hpc] at hnone; exact (hi.rest hnone).steady hsteady fun hs => hstop.trans hs
  · rw [hthreads] at hu
    have hfresh := hi.fresh u hu
    have hne : u ≠ t := by rintro rfl; exact h.active hfresh.1
    rw [hjoinable, hjoins, h.other u hne]; exact hfresh
  · rw [hjoins]; exact hi.joins u
  · rw [hpc, hstop]; exact hi.stops c
  · rw [hpc]; exact hi.plain c
  · rw [hpolicy]
    by_cases hut : u = t
    · subst hut; exact h.policy p b round hu
    · rw [h.other u hut] at hu; exact hi.policy u p b round hu
  · rw [hpolicy, hpolicyType, hpc]; exact hi.type

variable [DecidableEq C]

/-- A step of one caller from `pc c` to `pc`. What is left to show: the calls
behind the test stay apart, the threads keep what the other calls know of them
(when this one is not behind the test), and what is known afterwards. -/
theorem Inv.caller (hi : Inv s) {c : C} {pc : CallPc} (hpc : s'.pc = update s.pc c pc)
    (hcrashed : s'.crashed = false)
    (halone : pc.critical = true → (s.pc c).critical = true ∨ ∀ c', (s.pc c').critical = false)
    (hsteady : (s.pc c).critical = false → Steady s s')
    (hphase : pc.critical = true → Phase s' pc)
    (hrest : pc.critical = false → (s.pc c).critical = true → Rest s')
    (hfresh : ∀ t, s'.threads ≤ t →
      s'.loop t = .returned ∧ s'.joinable t = false ∧ s'.joins t = 0)
    (hjoins : ∀ t, s'.joins t ≤ 1) (hstop : s.stopCalled = true → s'.stopCalled = true)
    (hstops : pc.ofStop = true → s'.stopCalled = true) (hplain : pc.plain = true)
    (hpolicy : ∀ t p b round, s'.loop t = .inPolicy p b round → p = s'.policy)
    (htype : s'.policy.type = s'.policyType ∨ ∃ c type, s'.pc c = .newPolicy type) : Inv s' := by
  have hself : s'.pc c = pc := by rw [hpc]; exact Function.update_self ..
  have hother : ∀ c', c' ≠ c → s'.pc c' = s.pc c' := fun c' hc => by
    rw [hpc]; exact Function.update_of_ne hc _ _
  -- no other call is behind the test when this one is
  have hexcl : ∀ c', c' ≠ c → (s.pc c').critical = true → pc.critical = false := by
    intro c' hc hcrit
    by_contra hp
    rcases halone (by simpa using hp) with h | h
    · exact hc (hi.alone c' c hcrit h)
    · rw [h c'] at hcrit; cases hcrit
  refine ⟨hcrashed, fun c₁ c₂ h₁ h₂ => ?_, fun c' hc' => ?_, fun hnone => ?_, hfresh, hjoins,
    fun c' hc' => ?_, fun c' => ?_, hpolicy, htype⟩
  · by_cases hc₁ : c₁ = c
    · by_cases hc₂ : c₂ = c
      · rw [hc₁, hc₂]
      · subst hc₁
        rw [hother c₂ hc₂] at h₂
        rw [hself, hexcl c₂ hc₂ h₂] at h₁; cases h₁
    · rw [hother c₁ hc₁] at h₁
      by_cases hc₂ : c₂ = c
      · subst hc₂
        rw [hself, hexcl c₁ hc₁ h₁] at h₂; cases h₂
      · rw [hother c₂ hc₂] at h₂
        exact hi.alone c₁ c₂ h₁ h₂
  · by_cases hc : c' = c
    · subst hc
      rw [hself] at hc' ⊢; exact hphase hc'
    · rw [hother c' hc] at hc' ⊢
      have hidle : (s.pc c).critical = false := by
        by_contra hcrit
        exact hc (hi.alone c' c hc' (by simpa using hcrit))
      exact (hi.phase c' hc').steady (hsteady hidle)
  · have hp : pc.critical = false := hself ▸ hnone c
    by_cases hcrit : (s.pc c).critical = true
    · exact hrest hp hcrit
    · have hidle : (s.pc c).critical = false := by simpa using hcrit
      refine (hi.rest fun c' => ?_).steady (hsteady hidle) hstop
      by_cases hc : c' = c
      · rw [hc]; exact hidle
      · rw [← hother c' hc]; exact hnone c'
  · by_cases hc : c' = c
    · subst hc
      rw [hself] at hc'; exact hstops hc'
    · rw [hother c' hc] at hc'; exact hstop (hi.stops c' hc')
  · by_cases hc : c' = c
    · rw [hc, hself]; exact hplain
    · rw [hother c' hc]; exact hi.plain c'

theorem Inv.type_of_ne (hi : Inv s) {c : C} {pc : CallPc} (hpc : s'.pc = update s.pc c pc)
    (hc : ∀ type, s.pc c ≠ .newPolicy type) (hpolicy : s'.policy = s.policy)
    (htype : s'.policyType = s.policyType) :
    s'.policy.type = s'.policyType ∨ ∃ c type, s'.pc c = .newPolicy type := by
  rw [hpolicy, htype]
  rcases hi.type with h | ⟨c', type, hc'⟩
  · exact .inl h
  · have hne : c' ≠ c := by rintro rfl; exact hc type hc'
    exact .inr ⟨c', type, by rw [hpc, Function.update_of_ne hne]; exact hc'⟩

/-- A step of one caller that changes no thread and no policy. -/
theorem Inv.move (hi : Inv s) {c : C} {pc : CallPc} (hpc : s'.pc = update s.pc c pc)
    (hsame : s'.policyType = s.policyType ∧ s'.policy = s.policy ∧ s'.thread = s.thread ∧
      s'.threads = s.threads ∧ s'.loop = s.loop ∧ s'.joinable = s.joinable ∧
      s'.joins = s.joins ∧ s'.crashed = s.crashed)
    (hnew : ∀ type, s.pc c ≠ .newPolicy type)
    (hstop : s.stopCalled = true → s'.stopCalled = true)
    (halone : pc.critical = true → (s.pc c).critical = true ∨ ∀ c', (s.pc c').critical = false)
    (hqueue : (s.pc c).critical = false →
      s'.eventQueue.countP isTerminate = s.eventQueue.countP isTerminate)
    (hphase : pc.critical = true → Phase s' pc)
    (hrest : pc.critical = false → (s.pc c).critical = true → Rest s')
    (hstops : pc.ofStop = true → s'.stopCalled = true) (hplain : pc.plain = true) : Inv s' := by
  obtain ⟨hpolicyType, hpolicy, hthread, hthreads, hloop, hjoinable, hjoins, hcrashed⟩ := hsame
  refine hi.caller hpc (hcrashed.trans hi.crashed) halone
    (fun h => .of_queue hpolicyType hthread hjoinable hjoins hloop (hqueue h)) hphase hrest ?_ ?_
    hstop hstops hplain ?_ (hi.type_of_ne hpc hnew hpolicy hpolicyType)
  · rw [hthreads, hloop, hjoinable, hjoins]; exact hi.fresh
  · rw [hjoins]; exact hi.joins
  · rw [hloop, hpolicy]; exact hi.policy

section Calls
variable {c : C}

theorem Inv.lock (hi : Inv s) {e : Event} {after : After} (hc : s.pc c = .lock e after) :
    Inv ({ s with eventMtx := true }.goto c (.push e after)) := by
  have hphase := hi.phase c
  have hplain := hi.plain c
  have hstops := hi.stops c
  rw [hc] at hphase hplain hstops
  cases after with
  | ret =>
    exact hi.move rfl ⟨rfl, rfl, rfl, rfl, rfl, rfl, rfl, rfl⟩ (by rw [hc]; nofun) id nofun
      (fun _ => rfl) nofun (by rw [hc]; nofun) nofun hplain
  | join next =>
    have hsteady : Steady s ({ s with eventMtx := true }.goto c (.push e (.join next))) :=
      .of_queue rfl rfl rfl rfl rfl rfl
    exact hi.move rfl ⟨rfl, rfl, rfl, rfl, rfl, rfl, rfl, rfl⟩ (by rw [hc]; nofun) id
      (fun _ => .inl (by rw [hc]; rfl)) (fun _ => rfl) (fun _ => (hphase rfl).steady hsteady)
      nofun hstops rfl

theorem Inv.push (hi : Inv s) {e : Event} {after : After} (hc : s.pc c = .push e after) :
    Inv ({ s with eventQueue := s.eventQueue ++ [e] }.goto c (.unlock after)) := by
  have hphase := hi.phase c
  have hplain := hi.plain c
  have hstops := hi.stops c
  rw [hc] at hphase hplain hstops
  cases after with
  | ret =>
    refine hi.move rfl ⟨rfl, rfl, rfl, rfl, rfl, rfl, rfl, rfl⟩ (by rw [hc]; nofun) id nofun
      (fun _ => ?_) nofun (by rw [hc]; nofun) nofun rfl
    have he : isTerminate e = false := by simpa [CallPc.plain] using hplain
    simp [State.goto, he]
  | join next =>
    refine hi.move rfl ⟨rfl, rfl, rfl, rfl, rfl, rfl, rfl, rfl⟩ (by rw [hc]; nofun) id
      (fun _ => .inl (by rw [hc]; rfl)) (by rw [hc]; nofun) (fun _ => ?_) nofun hstops rfl
    obtain ⟨he, t, ht, hserving, hj⟩ := hphase rfl
    refine ⟨t, ht, ⟨hserving.only, hserving.joinable, ?_⟩, hj⟩
    have hterm := hserving.terminates
    refine Eq.trans ?_ (if_neg hserving.active).symm
    simp only [State.terminates, State.goto, List.countP_append, List.countP_singleton, he,
      if_true] at hterm ⊢
    omega

theorem Inv.unlock_ret (hi : Inv s) (hc : s.pc c = .unlock .ret) :
    Inv ({ s with eventMtx := false }.goto c .idle) :=
  hi.move rfl ⟨rfl, rfl, rfl, rfl, rfl, rfl, rfl, rfl⟩ (by rw [hc]; nofun) id nofun
    (fun _ => rfl) nofun (by rw [hc]; nofun) nofun rfl

theorem Inv.unlock_join (hi : Inv s) {next : Option XPolicyType}
    (hc : s.pc c = .unlock (.join next)) :
    Inv ({ s with eventMtx := false }.goto c (.join next)) := by
  have hphase := hi.phase c
  have hstops := hi.stops c
  rw [hc] at hphase hstops
  have hsteady : Steady s ({ s with eventMtx := false }.goto c (.join next)) :=
    .of_queue rfl rfl rfl rfl rfl rfl
  exact hi.move rfl ⟨rfl, rfl, rfl, rfl, rfl, rfl, rfl, rfl⟩ (by rw [hc]; nofun) id
    (fun _ => .inl (by rw [hc]; rfl)) (fun _ => rfl) (fun _ => (hphase rfl).steady hsteady)
    nofun hstops rfl

/-- A step of a call that is not behind the test and does not get there. -/
theorem Inv.outside (hi : Inv s) {pc : CallPc} (hout : (s.pc c).critical = false)
    (hout' : pc.critical = false) (hstops : pc.ofStop = true → s.stopCalled = true)
    (hplain : pc.plain = true) : Inv (s.goto c pc) :=
  hi.move rfl ⟨rfl, rfl, rfl, rfl, rfl, rfl, rfl, rfl⟩ (fun _ he => by rw [he] at hout; cases hout)
    id (fun h => by rw [hout'] at h; cases h) (fun _ => rfl)
    (fun h => by rw [hout'] at h; cases h) (fun _ h => by rw [hout] at h; cases h) hstops hplain

theorem Inv.test (hi : Inv s) {next : Option XPolicyType} (hc : s.pc c = .test next)
    (halone : ∀ c', (s.pc c').critical = false) :
    Inv (s.goto c (if s.thread.isSome then .lock (.schedulerTerminate kServerPid) (.join next)
      else .reset next)) := by
  have hstops := hi.stops c
  rw [hc] at hstops
  split
  · rename_i hsome
    refine hi.move rfl ⟨rfl, rfl, rfl, rfl, rfl, rfl, rfl, rfl⟩ (by rw [hc]; nofun) id
      (fun _ => .inr halone) (fun _ => rfl) (fun _ => ?_) nofun hstops rfl
    rcases hi.rest halone with ⟨t, ht, hserving, hj⟩ | ⟨ht, -⟩
    · exact ⟨rfl, t, ht, ⟨hserving.1, hserving.2, hserving.3, hserving.4⟩, hj⟩
    · rw [ht] at hsome; cases hsome
  · rename_i hnone
    refine hi.move rfl ⟨rfl, rfl, rfl, rfl, rfl, rfl, rfl, rfl⟩ (by rw [hc]; nofun) id
      (fun _ => .inr halone) (fun _ => rfl) (fun _ => ?_) nofun hstops rfl
    rcases hi.rest halone with ⟨t, ht, -⟩ | ⟨ht, hquiet, -⟩
    · rw [ht] at hnone; exact absurd rfl hnone
    · refine ⟨⟨hquiet.1, hquiet.2⟩, fun t he => ?_⟩
      rw [State.goto, ht] at he; cases he

theorem Inv.join (hi : Inv s) {next : Option XPolicyType} (hc : s.pc c = .join next) :
    Inv (s.callJoin c next) := by
  have hphase := hi.phase c
  have hstops := hi.stops c
  rw [hc] at hphase hstops
  obtain ⟨t, ht, hending, hj⟩ := hphase rfl
  have hne : ∀ u, u ≠ t → update s.joins t (s.joins t + 1) u = s.joins u := fun u hu =>
    Function.update_of_ne hu _ _
  have hone : update s.joins t (s.joins t + 1) t = 1 := by
    rw [Function.update_self, hj]
  simp only [State.callJoin, ht, hending.joinable, if_true]
  refine hi.caller rfl hi.crashed (fun _ => .inl (by rw [hc]; rfl)) (by rw [hc]; nofun)
    (fun _ => ⟨rfl, ⟨hending.1, hending.2, hending.3⟩, hone⟩) nofun (fun u hu => ?_) (fun u => ?_)
    id hstops rfl hi.policy (hi.type_of_ne rfl (by rw [hc]; nofun) rfl rfl)
  · have hfresh := hi.fresh u hu
    have hut : u ≠ t := by
      rintro rfl
      have hjoinable := hending.joinable
      rw [hfresh.2.1] at hjoinable; cases hjoinable
    exact ⟨hfresh.1, hfresh.2.1, (hne u hut).trans hfresh.2.2⟩
  · by_cases hut : u = t
    · subst hut; exact hone.le
    · exact (hne u hut).le.trans (hi.joins u)

theorem Inv.joining (hi : Inv s) {next : Option XPolicyType} {t : Nat}
    (hc : s.pc c = .joining next t) (hret : s.loop t = .returned) :
    Inv ({ s with joinable := update s.joinable t false }.goto c (.reset next)) := by
  have hphase := hi.phase c
  have hstops := hi.stops c
  rw [hc] at hphase hstops
  obtain ⟨ht, hending, -⟩ := hphase rfl
  refine hi.caller rfl hi.crashed (fun _ => .inl (by rw [hc]; rfl)) (by rw [hc]; nofun)
    (fun _ => ⟨⟨fun u => ?_, ?_⟩, fun u hu => ?_⟩) nofun (fun u hu => ?_) hi.joins
    id hstops rfl hi.policy (hi.type_of_ne rfl (by rw [hc]; nofun) rfl rfl)
  · by_cases hut : u = t
    · rw [hut]; exact hret
    · exact hending.only u hut
  · have hterm := hending.terminates
    rw [if_pos hret] at hterm
    exact (Nat.add_eq_zero_iff.1 hterm).1
  · obtain rfl : t = u := Option.some.inj (ht.symm.trans hu)
    exact Function.update_self ..
  · have hfresh := hi.fresh u hu
    refine ⟨hfresh.1, ?_, hfresh.2.2⟩
    by_cases hut : u = t
    · subst hut; exact Function.update_self ..
    · exact (Function.update_of_ne hut _ _).trans hfresh.2.1

theorem Inv.reset (hi : Inv s) {next : Option XPolicyType} (hc : s.pc c = .reset next) :
    Inv ((s.replaceThread none).goto c (.clearTimers next)) := by
  have hphase := hi.phase c
  have hstops := hi.stops c
  rw [hc] at hphase hstops
  obtain ⟨hquiet, hjoined⟩ := hphase rfl
  refine hi.caller rfl ?_ (fun _ => .inl (by rw [hc]; rfl)) (by rw [hc]; nofun)
    (fun _ => ⟨⟨hquiet.1, hquiet.2⟩, rfl⟩) nofun hi.fresh hi.joins
    id hstops rfl hi.policy (hi.type_of_ne rfl (by rw [hc]; nofun) rfl rfl)
  simp only [State.goto, State.replaceThread, hi.crashed, Bool.false_or]
  cases ht : s.thread with
  | none => rfl
  | some t => exact hjoined t ht

/-- With no worker and no `thread_`, the call goes on to the next step before `Run`. -/
theorem Inv.quiet (hi : Inv s) {pc : CallPc} (hcrit : (s.pc c).critical = true)
    (hphase : Quiet s ∧ s.thread = none) (hpc : s'.pc = update s.pc c pc)
    (hsame : s'.thread = s.thread ∧ s'.threads = s.threads ∧ s'.loop = s.loop ∧
      s'.joinable = s.joinable ∧ s'.joins = s.joins ∧ s'.crashed = s.crashed ∧
      s'.eventQueue = s.eventQueue ∧ s'.stopCalled = s.stopCalled)
    (hcrit' : pc.critical = true) (hnext : Quiet s' ∧ s'.thread = none → Phase s' pc)
    (hstops : pc.ofStop = false) (hplain : pc.plain = true)
    (htype : s'.policy.type = s'.policyType ∨ ∃ c type, s'.pc c = .newPolicy type) :
    Inv s' := by
  obtain ⟨hthread, hthreads, hloop, hjoinable, hjoins, hcrashed, hqueue, hstop⟩ := hsame
  have hquiet : Quiet s' := ⟨fun t => by rw [hloop]; exact hphase.1.1 t, by
    rw [hqueue]; exact hphase.1.2⟩
  refine hi.caller hpc (hcrashed.trans hi.crashed) (fun _ => .inl hcrit)
    (fun h => by rw [hcrit] at h; cases h) (fun _ => hnext ⟨hquiet, hthread.trans hphase.2⟩)
    (fun h => by rw [hcrit'] at h; cases h) ?_ ?_ (fun h => hstop.trans h)
    (fun h => by rw [hstops] at h; cases h) hplain (fun t p b round ht => ?_) htype
  · rw [hthreads, hloop, hjoinable, hjoins]; exact hi.fresh
  · rw [hjoins]; exact hi.joins
  · rw [hquiet.1 t] at ht; cases ht

/-- The end of `Stop`. -/
theorem Inv.stopped (hi : Inv s) (hc : s.pc c = .clearTimers none) :
    Inv ({ s with timers := [] }.goto c .idle) := by
  have hphase := hi.phase c
  have hstops := hi.stops c
  rw [hc] at hphase hstops
  obtain ⟨hquiet, hthread⟩ := hphase rfl
  exact hi.move rfl ⟨rfl, rfl, rfl, rfl, rfl, rfl, rfl, rfl⟩ (by rw [hc]; nofun) id nofun
    (fun _ => rfl) nofun (fun _ _ => .inr ⟨hthread, ⟨hquiet.1, hquiet.2⟩, hstops rfl⟩) nofun rfl

theorem Inv.spawn (hi : Inv s) (hc : s.pc c = .spawn) :
    Inv ({ s with
      threads := s.threads + 1
      loop := update s.loop s.threads .unlocked
      joinable := update s.joinable s.threads true }.goto c (.assign s.threads)) := by
  have hphase := hi.phase c
  rw [hc] at hphase
  obtain ⟨hquiet, hthread⟩ := hphase rfl
  have hnew := hi.fresh s.threads le_rfl
  have hloop : ∀ u, u ≠ s.threads → update s.loop s.threads .unlocked u = s.loop u := fun u hu =>
    Function.update_of_ne hu _ _
  refine hi.caller rfl hi.crashed (fun _ => .inl (by rw [hc]; rfl)) (by rw [hc]; nofun)
    (fun _ => ⟨hthread, ⟨?_, fun u hu => (hloop u hu).trans (hquiet.1 u), ?_, ?_⟩, hnew.2.2⟩) nofun
    (fun u hu => ?_) hi.joins id nofun rfl (fun u p b round hu => ?_)
    (hi.type_of_ne rfl (by rw [hc]; nofun) rfl rfl)
  · simp [State.goto]
  · exact Function.update_self ..
  · simp [State.goto, State.terminates, LoopPc.terminates, hquiet.2]
  · have hfresh := hi.fresh u (Nat.le_of_succ_le hu)
    have hne : u ≠ s.threads := Nat.ne_of_gt hu
    exact ⟨(hloop u hne).trans hfresh.1, (Function.update_of_ne hne _ _).trans hfresh.2.1,
      hfresh.2.2⟩
  · by_cases hne : u = s.threads
    · subst hne; simp [State.goto] at hu
    · exact hi.policy u p b round ((hloop u hne).symm.trans hu)

theorem Inv.assign (hi : Inv s) {t : Nat} (hc : s.pc c = .assign t) :
    Inv ((s.replaceThread (some t)).goto c .idle) := by
  have hphase := hi.phase c
  rw [hc] at hphase
  obtain ⟨hthread, hserving, hj⟩ := hphase rfl
  refine hi.caller rfl ?_ nofun (by rw [hc]; nofun) nofun
    (fun _ _ => .inl ⟨t, rfl, ⟨hserving.1, hserving.2, hserving.3, hserving.4⟩, hj⟩) hi.fresh
    hi.joins id nofun rfl hi.policy (hi.type_of_ne rfl (by rw [hc]; nofun) rfl rfl)
  simp [State.goto, State.replaceThread, hi.crashed, hthread]

end Calls

theorem Inv.call (hi : Inv s) {c : C} (halone : Alone s (.call c)) (h : s.call c = some s') :
    Inv s' := by
  have hphase := hi.phase c
  have hstops := hi.stops c
  unfold State.call at h
  split at h
  · cases h
  · split at h
    · cases h
    · cases h; exact hi.lock ‹_›
  · cases h; exact hi.push ‹_›
  · cases h; exact hi.unlock_ret ‹_›
  · cases h; exact hi.unlock_join ‹_›
  · rename_i type hc
    cases h
    refine hi.outside (by rw [hc]; rfl) ?_ ?_ ?_
    · split <;> rfl
    · split <;> nofun
    · split <;> rfl
  · rename_i next hc
    cases h
    exact hi.test hc (halone (by rw [hc]; rfl))
  · cases h; exact hi.join ‹_›
  · split at h
    · cases h; exact hi.joining ‹_› ‹_›
    · cases h
  · cases h; exact hi.reset ‹_›
  · cases h; exact hi.stopped ‹_›
  · rename_i type hc
    cases h
    rw [hc] at hphase
    exact hi.quiet (by rw [hc]; rfl) (hphase rfl) rfl ⟨rfl, rfl, rfl, rfl, rfl, rfl, rfl, rfl⟩ rfl
      id rfl rfl (hi.type_of_ne rfl (by rw [hc]; nofun) rfl rfl)
  · rename_i type hc
    cases h
    rw [hc] at hphase
    exact hi.quiet (by rw [hc]; rfl) (hphase rfl) rfl ⟨rfl, rfl, rfl, rfl, rfl, rfl, rfl, rfl⟩ rfl
      (fun h => ⟨h, rfl⟩) rfl rfl (.inr ⟨c, type, Function.update_self ..⟩)
  · rename_i type hc
    cases h
    rw [hc] at hphase
    obtain ⟨hquiet, htype⟩ := hphase rfl
    exact hi.quiet (by rw [hc]; rfl) hquiet rfl ⟨rfl, rfl, rfl, rfl, rfl, rfl, rfl, rfl⟩ rfl
      id rfl rfl (.inl htype.symm)
  · rename_i hc
    cases h
    rw [hc] at hphase
    exact hi.quiet (by rw [hc]; rfl) (hphase rfl) rfl ⟨rfl, rfl, rfl, rfl, rfl, rfl, rfl, rfl⟩ rfl
      id rfl rfl (hi.type_of_ne rfl (by rw [hc]; nofun) rfl rfl)
  · cases h; exact hi.spawn ‹_›
  · cases h; exact hi.assign ‹_›

theorem Inv.step (hi : Inv s) {act : Act C} (halone : Alone s act) (h : step s act = some s') :
    Inv s' := by
  unfold PolicySwitch.step at h
  rw [if_neg (by rw [hi.crashed]; decide)] at h
  cases act with
  | recvEvent c e =>
    simp only [Option.ite_none_right_eq_some, Option.some.injEq] at h
    obtain ⟨⟨hc, he⟩, rfl⟩ := h
    exact hi.outside (by rw [hc]; rfl) rfl nofun (by simp [CallPc.plain, he])
  | setPolicy c type =>
    simp only [Option.ite_none_right_eq_some, Option.some.injEq] at h
    obtain ⟨hc, rfl⟩ := h
    exact hi.outside (by rw [hc]; rfl) rfl nofun rfl
  | stop c =>
    simp only [Option.ite_none_right_eq_some, Option.some.injEq] at h
    obtain ⟨hc, rfl⟩ := h
    exact hi.move rfl ⟨rfl, rfl, rfl, rfl, rfl, rfl, rfl, rfl⟩ (by rw [hc]; nofun)
      (fun _ => rfl) nofun (fun _ => rfl) nofun (by rw [hc]; nofun) (fun _ => rfl) rfl
  | call c => exact hi.call halone h
  | worker t now calls => exact hi.worker (worker_step h)

omit [DecidableEq C] in
theorem inv_init (type : XPolicyType) : Inv (init type : State C) where
  crashed := rfl
  alone _ _ := nofun
  phase _ := nofun
  rest _ := by
    refine .inl ⟨0, rfl, ⟨?_, fun t ht => ?_, rfl, rfl⟩, rfl⟩
    · simp [init]
    · simp [init, ht]
  fresh t ht := by
    have hne : t ≠ 0 := Nat.ne_of_gt ht
    simp [init, hne]
  joins _ := Nat.zero_le 1
  stops _ := nofun
  plain _ := rfl
  policy t p b round ht := by
    by_cases hne : t = 0
    · subst hne; cases ht
    · simp [init, hne] at ht
  type := .inl rfl

theorem inv_reachable (hr : ((system C).restrict Alone).Reachable s) : Inv s :=
  LTS.Inductive.reachable
    ⟨fun _ ⟨type, h⟩ => h ▸ inv_init type, fun _ _ _ hi h => hi.step h.2 h.1⟩ s hr

omit [DecidableEq C] in
/-- All workers but one have returned. -/
theorem Inv.only (hi : Inv s) {t t' : Nat} (ht : s.loop t ≠ .returned)
    (ht' : s.loop t' ≠ .returned) : t = t' := by
  have hone : (∃ u, ∀ v, v ≠ u → s.loop v = .returned) → t = t' := fun ⟨u, hu⟩ => by
    have htu : t = u := by_contra fun hne => ht (hu t hne)
    have htu' : t' = u := by_contra fun hne => ht' (hu t' hne)
    rw [htu, htu']
  have hquiet : Quiet s → t = t' := fun hq => absurd (hq.returned t) ht
  by_cases hnone : ∀ c, (s.pc c).critical = false
  · rcases hi.rest hnone with ⟨u, -, hserving, -⟩ | ⟨-, hq, -⟩
    · exact hone ⟨u, hserving.only⟩
    · exact hquiet hq
  · obtain ⟨c, hc⟩ := not_forall.1 hnone
    have hphase := hi.phase c (by simpa using hc)
    revert hphase hc
    unfold Phase
    split
    · rintro - ⟨-, u, -, hserving, -⟩; exact hone ⟨u, hserving.only⟩
    · rintro - ⟨-, u, -, hserving, -⟩; exact hone ⟨u, hserving.only⟩
    · rintro - ⟨u, -, hending, -⟩; exact hone ⟨u, hending.only⟩
    · rintro - ⟨u, -, hending, -⟩; exact hone ⟨u, hending.only⟩
    · rintro - ⟨-, hending, -⟩; exact hone ⟨_, hending.only⟩
    · rintro - ⟨hq, -⟩; exact hquiet hq
    · rintro - ⟨hq, -⟩; exact hquiet hq
    · rintro - ⟨hq, -⟩; exact hquiet hq
    · rintro - ⟨hq, -⟩; exact hquiet hq
    · rintro - ⟨hq, -⟩; exact hquiet hq
    · rintro - ⟨⟨hq, -⟩, -⟩; exact hquiet hq
    · rintro - ⟨-, hserving, -⟩; exact hone ⟨_, hserving.only⟩
    · rintro - hfalse; exact hfalse.elim

/-- **One scheduler worker at a time.** While every call tests `thread_` with no
other call behind its own test: at most one worker has not returned; no
`std::thread` is overwritten or destroyed before its join, and no null `thread_`
is joined; no thread is joined twice; a worker calls the policy that `policy_`
owns; and when no `SetPolicy` is past the test and there was no `Stop`,
`thread_` is a running worker and `policy_` is of the type that was set. -/
theorem one_worker_at_a_time (hr : ((system C).restrict Alone).Reachable s) :
    (∀ t t', s.loop t ≠ .returned → s.loop t' ≠ .returned → t = t') ∧
      s.crashed = false ∧ (∀ t, s.joins t ≤ 1) ∧
      (∀ t p b round, s.loop t = .inPolicy p b round → p = s.policy) ∧
      ((∀ c, (s.pc c).critical = false) → s.stopCalled = false →
        (∃ t, s.thread = some t ∧ s.loop t ≠ .returned) ∧ s.policy.type = s.policyType) := by
  have hi := inv_reachable hr
  refine ⟨fun t t' => hi.only, hi.crashed, hi.joins, hi.policy, fun hnone hstop => ⟨?_, ?_⟩⟩
  · rcases hi.rest hnone with ⟨t, ht, hserving, -⟩ | ⟨-, -, hcalled⟩
    · exact ⟨t, ht, hserving.active⟩
    · rw [hstop] at hcalled; cases hcalled
  · rcases hi.type with h | ⟨c, type, hc⟩
    · exact h
    · have hcrit := hnone c
      rw [hc] at hcrit; cases hcrit

/-- A whole `SetPolicy`, with the worker's part of it; the other caller has
passed the test of the type. -/
def switch : List (Act Bool) :=
  [.setPolicy false .kPolicyUtilizationPartition, .call false,
    .setPolicy true .kPolicyKEarliestDeadlineFirst, .call true] ++
    List.replicate 5 (.call false) ++ List.replicate 5 (.worker 0 0 []) ++
    List.replicate 8 (.call false)

theorem one_worker_at_a_time_switch :
    ∃ s, ((system Bool).restrict Alone).Reachable s ∧ s.thread = some 1 ∧ s.crashed = false ∧
      ∀ t t', s.loop t ≠ .returned → s.loop t' ≠ .returned → t = t' := by
  have htrace : ((LTS.exec (LTS.guarded Alone step) (init .kPolicyHighestPriorityFirst)
      switch).map (·.thread)) = some (some 1) := by decide +kernel
  obtain ⟨s, hs, he⟩ := Option.map_eq_some_iff.1 htrace
  have hr : ((system Bool).restrict Alone).Reachable s :=
    LTS.reachable_restrict_of_exec ⟨_, rfl⟩ hs
  exact ⟨s, hr, he, (one_worker_at_a_time hr).2.1, (one_worker_at_a_time hr).1⟩

/-- **Two workers.** Two calls of `SetPolicy`: the second tests `thread_` when the
first has stopped the worker and not started the next. Both start one, and the
second assignment to `thread_` destroys a joinable `std::thread`. -/
theorem two_workers :
    ∃ s, (system Bool).Reachable s ∧ s.loop 1 ≠ .returned ∧ s.loop 2 ≠ .returned ∧
      s.crashed = true := by
  have htrace : ((LTS.exec step (init .kPolicyHighestPriorityFirst)
      (switch.take 16 ++ List.replicate 8 (.call true) ++ List.replicate 6 (.call false))).map
        fun s => (s.loop 1, s.loop 2, s.crashed)) = some (.unlocked, .unlocked, true) := by
    decide +kernel
  obtain ⟨s, hs, he⟩ := Option.map_eq_some_iff.1 htrace
  simp only [Prod.mk.injEq] at he
  obtain ⟨h₁, h₂, h₃⟩ := he
  exact ⟨s, LTS.reachable_of_exec ⟨_, rfl⟩ hs, by rw [h₁]; nofun, by rw [h₂]; nofun, h₃⟩

end Worker
end PolicySwitch
end Xsched.Sched
