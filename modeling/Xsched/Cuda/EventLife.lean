import Xsched.Cuda.Unload
import Xsched.Preempt.Wait

/-!
# The life of a CUevent

A record of an event makes a `CudaEventRecordCommand`, an object that
`g_events`, the queue it was submitted to, the calls under way and the
`CudaEventWaitCommand`s made from it share. `XEventDestroy` only sets
`destroy_event_` on the command that `g_events` holds; the event itself is
destroyed in the destructor of that command, when the last of these references
goes. `Held` lists them and `destruct` is the destructor. It may also run later
than the last reference goes, which allows more interleavings.

The queues are `AsyncXQueue`s at any level, suspended and resumed at any time;
when a driver's `Synchronize` returns is left open. What a step of a queue asks
of the driver about events is `driverCalls`: the launch of a record command,
the call of `SyncCmd` on one, and the commands of the in-flight log that
`Reactivate` launches again.

**The program.** Any number of threads. A call takes effect on `g_events` and
takes its command's index in one step; the rest of `Submit` and `Wait` follow in
steps of the queue. A program makes no call on an event after it destroyed it,
and destroys it when the calls that record it have returned; calls that wait
for it may still be under way. Event numbers are not used again. The queue of a
stream, if it has one, is an argument of the call. `WaitBlockingXQueues` for
the null stream is a step of the queues and no part of the calls here.
-/
namespace Xsched.Cuda
open Preempt
open Preempt.AsyncXQueue (XAct)

/-- A CudaEventRecordCommand: submitted to XQueue `queue` as `cmd`, or made for
a record on a stream without an XQueue, which numbers it.
mirrors platforms/cuda/hal/include/xsched/cuda/hal/common/cuda_command.h:159-177 -/
inductive RecordCmd where
  | submitted (event queue : Nat) (cmd : HwCommand)
  | direct (event number : Nat)
  deriving DecidableEq, Repr

def RecordCmd.event : RecordCmd → Nat
  | .submitted event _ _ => event
  | .direct event _ => event

/-- A CudaEventWaitCommand, `cmd` on XQueue `queue`, with its `event_cmd_`.
mirrors platforms/cuda/hal/include/xsched/cuda/hal/common/cuda_command.h:192-209 -/
structure EventWait where
  queue : Nat
  cmd : HwCommand
  record : RecordCmd
  deriving DecidableEq, Repr

/-- Who waits for a record command: a thread in `XStreamWaitEvent`, or the
worker of a queue in `BeforeLaunch`. -/
inductive Waiter where
  | app (t : Nat)
  | worker (j : Nat)
  deriving DecidableEq, Repr

/-- The number of the waiter among the threads in `AsyncXQueue::Wait`. -/
def Waiter.thread : Waiter → Nat
  | .app t => 2 * t
  | .worker j => 2 * j + 1

/-! ## What a queue holds and what it asks of the driver -/

/-- The HwCommand that the worker synchronizes. -/
def syncedCmd : WorkerPc → Option HwCommand
  | .syncWait (.cmd d) _ => some d
  | .syncing call _ _ =>
    match call.target with
    | .cmd d => some d
    | .hwq => none
  | _ => none

/-- The queue has a reference to `c`. -/
def Refers (x : AsyncXQueue) (c : HwCommand) : Prop :=
  .hardware c ∈ x.machine.cmds ∨ x.machine.lastCmd = .hardware c ∨
  x.machine.pc.cmd = some (.hardware c) ∨ syncedCmd x.machine.pc = some c ∨
  c ∈ x.machine.cmdLog ∨ c ∈ x.machine.syncCmdLog

instance (x : AsyncXQueue) (c : HwCommand) : Decidable (Refers x c) :=
  inferInstanceAs (Decidable (_ ∨ _ ∨ _ ∨ _ ∨ _ ∨ _))

/-- `event_` of a record command. -/
def recordedEvent : HwCommandKind → Option Nat
  | .eventRecord event => some event
  | _ => none

theorem recordedEvent_eq {kind : HwCommandKind} {e : Nat} :
    recordedEvent kind = some e ↔ kind = .eventRecord e := by
  cases kind <;> simp [recordedEvent]

/-- The HwCommand whose `Synchronize` a step calls.
mirrors preempt/src/xqueue/launch_worker.cpp:334-336 -/
def syncCalls (x : AsyncXQueue) (act : XAct) : List HwCommand :=
  match act.caller.bind x.machine.call with
  | some (⟨.cmd c, _, _⟩, .unlocked) => [c]
  | _ => []

/-- The HwCommands that `Reactivate` launches again; `resumeIdx` is what the
instrument manager returns.
mirrors platforms/cuda/hal/src/level2/cuda_queue.cpp:29-41 -/
def reactivateCalls (x : AsyncXQueue) (act : XAct) (resumeIdx : Nat) : List HwCommand :=
  match act with
  | .controller t =>
    match x.ctrls t with
    | .resumeCalls _ (.reactivate false :: _) =>
      if resumeIdx = 0 then []
      else x.machine.cmdLog.filter fun c => decide ((resumeIdx : Int) ≤ c.idx)
    | _ => []
  | _ => []

/-- The events that a step from `x` to `x'` makes driver calls on: `EventRecord`
for a launch, `EventSynchronize` for a `Synchronize`.
mirrors platforms/cuda/hal/include/xsched/cuda/hal/common/cuda_command.h:164,175-176 -/
def driverCalls (x : AsyncXQueue) (act : XAct) (resumeIdx : Nat) (x' : AsyncXQueue) : List Nat :=
  ((Device.newLaunch x x').toList ++ syncCalls x act ++
    reactivateCalls x act resumeIdx).filterMap fun c => recordedEvent c.kind

/-! ## The process -/

structure EventLife where
  xq : Nat → AsyncXQueue
  /-- `g_events` -/
  gEvents : Nat → Option RecordCmd
  /-- the CudaEventRecordCommands made so far -/
  records : List RecordCmd
  nextDirect : Nat
  /-- the threads in `XEventRecord` and their commands -/
  recording : List (Nat × RecordCmd)
  /-- the CudaEventWaitCommands made so far -/
  waits : List EventWait
  /-- the threads in the Submit of `XStreamWaitEvent` and their commands -/
  submitting : List (Nat × EventWait)
  /-- who is in `AsyncXQueue::Wait` for a record -/
  waiting : List (Waiter × RecordCmd)
  /-- the CudaEventWaitCommands whose `BeforeLaunch` was called -/
  called : List EventWait
  /-- `destroy_event_` is set -/
  flagged : List RecordCmd
  destructed : List RecordCmd
  /-- ghost: the program has called `XEventDestroy` -/
  gone : Nat → Bool
  /-- ghost: how often `Driver::EventDestroy` was called -/
  destroys : Nat → Nat
  /-- ghost: a driver call was made on an event after `Driver::EventDestroy` -/
  misused : Bool

inductive LifeAct where
  | xEventRecord (t event : Nat) (q : Option Nat)
  | addEvent (t : Nat) (r : RecordCmd)
  | xStreamWaitEvent (t event : Nat) (q : Option Nat)
  | returnSubmit (t : Nat) (v : EventWait)
  | returnWait (u : Waiter) (r : RecordCmd)
  | beforeLaunch (v : EventWait)
  | xEventDestroy (t event : Nat)
  | destruct (r : RecordCmd)
  | queue (i : Nat) (act : XAct) (resumeIdx : Nat)
  deriving DecidableEq, Repr

namespace EventLife

def init : EventLife where
  xq := fun _ => AsyncXQueue.init
  gEvents := fun _ => none
  records := []
  nextDirect := 0
  recording := []
  waits := []
  submitting := []
  waiting := []
  called := []
  flagged := []
  destructed := []
  gone := fun _ => false
  destroys := fun _ => 0
  misused := false

def setXq (i : Nat) (x : AsyncXQueue) (s : EventLife) : EventLife :=
  { s with xq := Function.update s.xq i x }

def onQueue (cfg : Nat → Config) (i : Nat) (act : XAct) (s : EventLife) : Option EventLife :=
  (AsyncXQueue.step (cfg i) (s.xq i) act).map fun x => setXq i x s

/-- Driver calls on `events`. -/
def touch (events : List Nat) (s : EventLife) : EventLife :=
  { s with misused := s.misused || events.any fun e => decide (0 < s.destroys e) }

/-- `Driver::EventDestroy(event)` -/
def driverDestroy (event : Nat) (s : EventLife) : EventLife :=
  { s with destroys := Function.update s.destroys event (s.destroys event + 1) }

/-- Thread `t` is in none of the calls. -/
def Free (s : EventLife) (t : Nat) : Prop :=
  (∀ p ∈ s.recording, p.1 ≠ t) ∧ (∀ p ∈ s.submitting, p.1 ≠ t) ∧ ∀ p ∈ s.waiting, p.1 ≠ .app t

instance (s : EventLife) (t : Nat) : Decidable (s.Free t) :=
  inferInstanceAs (Decidable (_ ∧ _ ∧ _))

/-! ### References -/

/-- The queue it was submitted to has a reference to `r`. -/
def Queued (s : EventLife) : RecordCmd → Prop
  | .submitted _ i c => Refers (s.xq i) c
  | .direct _ _ => False

instance (s : EventLife) (r : RecordCmd) : Decidable (s.Queued r) :=
  match r with
  | .submitted _ i c => inferInstanceAs (Decidable (Refers (s.xq i) c))
  | .direct _ _ => inferInstanceAs (Decidable False)

/-- Something refers to the CudaEventWaitCommand. -/
def Alive (s : EventLife) (v : EventWait) : Prop :=
  Refers (s.xq v.queue) v.cmd ∨ ∃ p ∈ s.submitting, p.2 = v

instance (s : EventLife) (v : EventWait) : Decidable (s.Alive v) :=
  inferInstanceAs (Decidable (_ ∨ _))

/-- Something refers to the CudaEventRecordCommand. -/
def Held (s : EventLife) (r : RecordCmd) : Prop :=
  s.gEvents r.event = some r ∨ (∃ p ∈ s.recording, p.2 = r) ∨ s.Queued r ∨
  (∃ p ∈ s.waiting, p.2 = r) ∨ ∃ v ∈ s.waits, v.record = r ∧ s.Alive v

instance (s : EventLife) (r : RecordCmd) : Decidable (s.Held r) :=
  inferInstanceAs (Decidable (_ ∨ _ ∨ _ ∨ _ ∨ _))

/-! ### The calls -/

/-- mirrors platforms/cuda/shim/src/shim.cpp:347-369 (and 370-391, with flags) -/
def xEventRecord (cfg : Nat → Config) (t event : Nat) (q : Option Nat) (s : EventLife) :
    Option EventLife :=
  if s.Free t ∧ s.gone event = false then
    match q with
    | none =>
      let r : RecordCmd := .direct event s.nextDirect
      some { touch [event] s with
        records := s.records ++ [r], nextDirect := s.nextDirect + 1,
        recording := s.recording ++ [(t, r)] }
    | some i =>
      let c : HwCommand :=
        ⟨(s.xq i).nextHwCmdIdx, kCommandPropertyIdempotent, .eventRecord event⟩
      let r : RecordCmd := .submitted event i c
      (onQueue cfg i (.submit t c.props c.kind) s).map fun s =>
        { s with records := s.records ++ [r], recording := s.recording ++ [(t, r)] }
  else none

/-- The Submit of `XEventRecord` has returned. -/
def Returned (s : EventLife) (t : Nat) : RecordCmd → Prop
  | .submitted _ i _ => (s.xq i).submits t = .idle
  | .direct _ _ => True

instance (s : EventLife) (t : Nat) (r : RecordCmd) : Decidable (s.Returned t r) :=
  match r with
  | .submitted _ i _ => inferInstanceAs (Decidable ((s.xq i).submits t = .idle))
  | .direct _ _ => inferInstanceAs (Decidable True)

/-- `g_events.Add(event, xevent)`, and `XEventRecord` returns. -/
def addEvent (t : Nat) (r : RecordCmd) (s : EventLife) : Option EventLife :=
  if (t, r) ∈ s.recording ∧ s.Returned t r then
    some { s with
      gEvents := Function.update s.gEvents r.event (some r)
      recording := s.recording.filter fun p => decide (p ≠ (t, r)) }
  else none

/-- `HwCommand::Wait` on the record command, called by `u`. One that was not
submitted is synchronized at once; a Completed one has no `xqueue_` any more.
mirrors preempt/src/hal/hw_command.cpp:18-43 -/
def waitRecord (cfg : Nat → Config) (u : Waiter) (r : RecordCmd) (s : EventLife) :
    Option EventLife :=
  match r with
  | .direct event _ => some (touch [event] s)
  | .submitted _ i c =>
    if (s.xq i).machine.cmdState (.hardware c) = .completed then some s
    else (onQueue cfg i (.machine (.wait u.thread c)) s).map fun s =>
      { s with waiting := s.waiting ++ [(u, r)] }

/-- Without an XQueue on either side the driver is told to wait, as for an
event that was not recorded.
mirrors platforms/cuda/shim/src/shim.cpp:407-435 -/
def xStreamWaitEvent (cfg : Nat → Config) (t event : Nat) (q : Option Nat) (s : EventLife) :
    Option EventLife :=
  if s.Free t ∧ s.gone event = false then
    match s.gEvents event, q with
    | none, _ => some (touch [event] s)
    | some (.direct _ _), none => some (touch [event] s)
    | some r, none => waitRecord cfg (.app t) r s
    | some r, some j =>
      let w : HwCommand := ⟨(s.xq j).nextHwCmdIdx, kCommandPropertyIdempotent, .hal⟩
      let v : EventWait := ⟨j, w, r⟩
      (onQueue cfg j (.submit t w.props w.kind) s).map fun s =>
        { s with waits := s.waits ++ [v], submitting := s.submitting ++ [(t, v)] }
  else none

/-- The Submit of `XStreamWaitEvent` has returned, and it returns. -/
def returnSubmit (t : Nat) (v : EventWait) (s : EventLife) : Option EventLife :=
  if (t, v) ∈ s.submitting ∧ (s.xq v.queue).submits t = .idle then
    some { s with submitting := s.submitting.filter fun p => decide (p ≠ (t, v)) }
  else none

/-- `u` is no longer in `AsyncXQueue::Wait`. -/
def WaitOver (s : EventLife) (u : Waiter) : RecordCmd → Prop
  | .submitted _ i _ => (s.xq i).machine.app u.thread = .idle
  | .direct _ _ => True

instance (s : EventLife) (u : Waiter) (r : RecordCmd) : Decidable (s.WaitOver u r) :=
  match r with
  | .submitted _ i _ => inferInstanceAs (Decidable ((s.xq i).machine.app u.thread = .idle))
  | .direct _ _ => inferInstanceAs (Decidable True)

/-- `HwCommand::Wait` returns. -/
def returnWait (u : Waiter) (r : RecordCmd) (s : EventLife) : Option EventLife :=
  if (u, r) ∈ s.waiting ∧ s.WaitOver u r then
    some { s with waiting := s.waiting.filter fun p => decide (p ≠ (u, r)) }
  else none

/-- The worker calls `BeforeLaunch` of the wait command in its hand.
mirrors platforms/cuda/hal/src/common/cuda_command.cpp:126-129 -/
def beforeLaunch (cfg : Nat → Config) (v : EventWait) (s : EventLife) : Option EventLife :=
  if v ∈ s.waits ∧ (s.xq v.queue).machine.pc = .got (.hardware v.cmd) ∧ v ∉ s.called then
    waitRecord cfg (.worker v.queue) v.record { s with called := s.called ++ [v] }
  else none

/-- An event that is not in `g_events` is destroyed at once.
mirrors platforms/cuda/shim/src/shim.cpp:437-459 and
utils/include/xsched/utils/map.h:34-43 -/
def xEventDestroy (t event : Nat) (s : EventLife) : Option EventLife :=
  if s.Free t ∧ s.gone event = false ∧ ∀ p ∈ s.recording, p.2.event ≠ event then
    let s := { s with gone := Function.update s.gone event true }
    match s.gEvents event with
    | none => some (driverDestroy event s)
    | some r => some { s with
        flagged := s.flagged ++ [r], gEvents := Function.update s.gEvents event none }
  else none

/-- `~CudaEventRecordCommand`
mirrors platforms/cuda/hal/src/common/cuda_command.cpp:120-124 -/
def destruct (r : RecordCmd) (s : EventLife) : Option EventLife :=
  if r ∈ s.records ∧ r ∉ s.destructed ∧ ¬ s.Held r then
    let s := { s with destructed := s.destructed ++ [r] }
    some (if r ∈ s.flagged then driverDestroy r.event s else s)
  else none

/-- The steps of a queue that are not made by the calls above. The worker goes
on with a wait command when its `BeforeLaunch` has returned. -/
def allows (s : EventLife) (i : Nat) : XAct → Bool
  | .submit t _ kind => decide (s.Free t) && (recordedEvent kind).isNone
  | .machine (.wait _ _) => false
  | .machine (.worker _) =>
    decide (∀ v ∈ s.waits, v.queue = i → (s.xq i).machine.pc = .got (.hardware v.cmd) →
      v ∈ s.called ∧ ∀ p ∈ s.waiting, p.1 ≠ .worker i)
  | _ => true

def step (cfg : Nat → Config) (s : EventLife) : LifeAct → Option EventLife
  | .xEventRecord t event q => xEventRecord cfg t event q s
  | .addEvent t r => addEvent t r s
  | .xStreamWaitEvent t event q => xStreamWaitEvent cfg t event q s
  | .returnSubmit t v => returnSubmit t v s
  | .returnWait u r => returnWait u r s
  | .beforeLaunch v => beforeLaunch cfg v s
  | .xEventDestroy t event => xEventDestroy t event s
  | .destruct r => destruct r s
  | .queue i act resumeIdx =>
    if s.allows i act then
      (AsyncXQueue.step (cfg i) (s.xq i) act).map fun x =>
        touch (driverCalls (s.xq i) act resumeIdx x) (setXq i x s)
    else none

def lts (cfg : Nat → Config) : LTS EventLife LifeAct := LTS.ofFn (· = init) (step cfg)

/-! ### What a step can do -/

/-- `HwCommand::Wait` on `r`. -/
inductive Waits (cfg : Nat → Config) (u : Waiter) (r : RecordCmd) (s : EventLife) :
    EventLife → Prop
  | direct (event n : Nat) (hr : r = .direct event n) : Waits cfg u r s (touch [event] s)
  | completed : Waits cfg u r s s
  | wait (event i : Nat) (c : HwCommand) (x : AsyncXQueue) (hr : r = .submitted event i c)
      (hs : (AsyncXQueue.lts (cfg i)).step (s.xq i) (.machine (.wait u.thread c)) x) :
      Waits cfg u r s { setXq i x s with waiting := s.waiting ++ [(u, r)] }

/-- Every step. -/
inductive Step (cfg : Nat → Config) (s : EventLife) : LifeAct → EventLife → Prop
  | recordDirect (t e : Nat) (hgone : s.gone e = false) :
      Step cfg s (.xEventRecord t e none)
        { touch [e] s with
          records := s.records ++ [.direct e s.nextDirect], nextDirect := s.nextDirect + 1,
          recording := s.recording ++ [(t, .direct e s.nextDirect)] }
  | recordSubmit (t e i : Nat) (c : HwCommand) (x : AsyncXQueue) (hgone : s.gone e = false)
      (hc : c = ⟨(s.xq i).nextHwCmdIdx, kCommandPropertyIdempotent, .eventRecord e⟩)
      (hs : (AsyncXQueue.lts (cfg i)).step (s.xq i) (.submit t c.props c.kind) x) :
      Step cfg s (.xEventRecord t e (some i))
        { setXq i x s with
          records := s.records ++ [.submitted e i c],
          recording := s.recording ++ [(t, .submitted e i c)] }
  | addEvent (t : Nat) (r : RecordCmd) (hr : (t, r) ∈ s.recording) (hret : s.Returned t r) :
      Step cfg s (.addEvent t r)
        { s with
          gEvents := Function.update s.gEvents r.event (some r),
          recording := s.recording.filter fun p => decide (p ≠ (t, r)) }
  | waitDriver (t e : Nat) (q : Option Nat) (hgone : s.gone e = false) :
      Step cfg s (.xStreamWaitEvent t e q) (touch [e] s)
  | waitNow (t e : Nat) (r : RecordCmd) (s' : EventLife) (hev : s.gEvents e = some r)
      (hw : Waits cfg (.app t) r s s') : Step cfg s (.xStreamWaitEvent t e none) s'
  | waitSubmit (t e j : Nat) (r : RecordCmd) (c : HwCommand) (x : AsyncXQueue)
      (hev : s.gEvents e = some r)
      (hc : c = ⟨(s.xq j).nextHwCmdIdx, kCommandPropertyIdempotent, .hal⟩)
      (hs : (AsyncXQueue.lts (cfg j)).step (s.xq j) (.submit t c.props c.kind) x) :
      Step cfg s (.xStreamWaitEvent t e (some j))
        { setXq j x s with
          waits := s.waits ++ [⟨j, c, r⟩], submitting := s.submitting ++ [(t, ⟨j, c, r⟩)] }
  | returnSubmit (t : Nat) (v : EventWait) (hret : (s.xq v.queue).submits t = .idle) :
      Step cfg s (.returnSubmit t v)
        { s with submitting := s.submitting.filter fun p => decide (p ≠ (t, v)) }
  | returnWait (u : Waiter) (r : RecordCmd) (hret : s.WaitOver u r) :
      Step cfg s (.returnWait u r)
        { s with waiting := s.waiting.filter fun p => decide (p ≠ (u, r)) }
  | beforeLaunch (v : EventWait) (s' : EventLife) (hv : v ∈ s.waits)
      (hpc : (s.xq v.queue).machine.pc = .got (.hardware v.cmd)) (hcall : v ∉ s.called)
      (hw : Waits cfg (.worker v.queue) v.record { s with called := s.called ++ [v] } s') :
      Step cfg s (.beforeLaunch v) s'
  | destroyDriver (t e : Nat) (hgone : s.gone e = false)
      (hrec : ∀ p ∈ s.recording, p.2.event ≠ e) (hev : s.gEvents e = none) :
      Step cfg s (.xEventDestroy t e)
        (driverDestroy e { s with gone := Function.update s.gone e true })
  | destroyFlag (t e : Nat) (r : RecordCmd) (hgone : s.gone e = false)
      (hrec : ∀ p ∈ s.recording, p.2.event ≠ e) (hev : s.gEvents e = some r) :
      Step cfg s (.xEventDestroy t e)
        { s with
          gone := Function.update s.gone e true, flagged := s.flagged ++ [r],
          gEvents := Function.update s.gEvents e none }
  | destruct (r : RecordCmd) (hr : r ∈ s.records) (hdes : r ∉ s.destructed) (hheld : ¬ s.Held r) :
      Step cfg s (.destruct r)
        (if r ∈ s.flagged then driverDestroy r.event { s with destructed := s.destructed ++ [r] }
          else { s with destructed := s.destructed ++ [r] })
  | queue (i : Nat) (act : XAct) (resumeIdx : Nat) (x : AsyncXQueue) (hact : s.allows i act)
      (hs : (AsyncXQueue.lts (cfg i)).step (s.xq i) act x) :
      Step cfg s (.queue i act resumeIdx)
        (touch (driverCalls (s.xq i) act resumeIdx x) (setXq i x s))

variable {cfg : Nat → Config} {s s' : EventLife}

theorem onQueue_eq {i : Nat} {act : XAct} (h : onQueue cfg i act s = some s') :
    ∃ x, (AsyncXQueue.lts (cfg i)).step (s.xq i) act x ∧ s' = setXq i x s := by
  obtain ⟨x, hx, he⟩ := Option.map_eq_some_iff.1 h
  exact ⟨x, hx, he.symm⟩

theorem waitRecord_cases {u : Waiter} {r : RecordCmd} (h : waitRecord cfg u r s = some s') :
    Waits cfg u r s s' := by
  cases r with
  | direct event n =>
    simp only [waitRecord, Option.some.injEq] at h; subst h
    exact .direct event n rfl
  | submitted event i c =>
    simp only [waitRecord] at h
    split at h
    · simp only [Option.some.injEq] at h; subst h
      exact .completed
    · obtain ⟨s₁, h₁, rfl⟩ := Option.map_eq_some_iff.1 h
      obtain ⟨x, hx, rfl⟩ := onQueue_eq h₁
      exact .wait event i c x rfl hx

theorem xEventRecord_cases {t e : Nat} {q : Option Nat}
    (h : xEventRecord cfg t e q s = some s') : Step cfg s (.xEventRecord t e q) s' := by
  unfold xEventRecord at h
  split at h
  · rename_i hg
    cases q with
    | none =>
      simp only [Option.some.injEq] at h; subst h
      exact .recordDirect t e hg.2
    | some i =>
      obtain ⟨s₁, h₁, rfl⟩ := Option.map_eq_some_iff.1 h
      obtain ⟨x, hx, rfl⟩ := onQueue_eq h₁
      exact .recordSubmit t e i _ x hg.2 rfl hx
  · cases h

theorem xStreamWaitEvent_cases {t e : Nat} {q : Option Nat}
    (h : xStreamWaitEvent cfg t e q s = some s') : Step cfg s (.xStreamWaitEvent t e q) s' := by
  unfold xStreamWaitEvent at h
  split at h
  · rename_i hg
    cases hev : s.gEvents e with
    | none =>
      simp only [hev, Option.some.injEq] at h; subst h
      exact .waitDriver t e q hg.2
    | some r =>
      cases q with
      | none =>
        cases r with
        | direct e' n =>
          simp only [hev, Option.some.injEq] at h; subst h
          exact .waitDriver t e none hg.2
        | submitted e' i c =>
          simp only [hev] at h
          exact .waitNow t e _ s' hev (waitRecord_cases h)
      | some j =>
        simp only [hev] at h
        obtain ⟨s₁, h₁, rfl⟩ := Option.map_eq_some_iff.1 h
        obtain ⟨x, hx, rfl⟩ := onQueue_eq h₁
        exact .waitSubmit t e j r _ x hev rfl hx
  · cases h

theorem xEventDestroy_cases {t e : Nat} (h : xEventDestroy t e s = some s') :
    Step cfg s (.xEventDestroy t e) s' := by
  unfold xEventDestroy at h
  split at h
  · rename_i hg
    cases hev : s.gEvents e with
    | none =>
      simp only [hev, Option.some.injEq] at h; subst h
      exact .destroyDriver t e hg.2.1 hg.2.2 hev
    | some r =>
      simp only [hev, Option.some.injEq] at h; subst h
      exact .destroyFlag t e r hg.2.1 hg.2.2 hev
  · cases h

theorem step_cases {act : LifeAct} (h : (lts cfg).step s act s') : Step cfg s act s' := by
  have h' : step cfg s act = some s' := h
  cases act with
  | xEventRecord t e q => exact xEventRecord_cases h'
  | addEvent t r =>
    simp only [step, addEvent, Option.ite_none_right_eq_some, Option.some.injEq] at h'
    obtain ⟨⟨hr, hret⟩, rfl⟩ := h'
    exact .addEvent t r hr hret
  | xStreamWaitEvent t e q => exact xStreamWaitEvent_cases h'
  | returnSubmit t v =>
    simp only [step, returnSubmit, Option.ite_none_right_eq_some, Option.some.injEq] at h'
    obtain ⟨⟨-, hret⟩, rfl⟩ := h'
    exact .returnSubmit t v hret
  | returnWait u r =>
    simp only [step, returnWait, Option.ite_none_right_eq_some, Option.some.injEq] at h'
    obtain ⟨⟨-, hret⟩, rfl⟩ := h'
    exact .returnWait u r hret
  | beforeLaunch v =>
    simp only [step, beforeLaunch, Option.ite_none_right_eq_some] at h'
    obtain ⟨⟨hv, hpc, hcall⟩, hw⟩ := h'
    exact .beforeLaunch v s' hv hpc hcall (waitRecord_cases hw)
  | xEventDestroy t e => exact xEventDestroy_cases h'
  | destruct r =>
    simp only [step, destruct, Option.ite_none_right_eq_some, Option.some.injEq] at h'
    obtain ⟨⟨hr, hdes, hheld⟩, rfl⟩ := h'
    exact .destruct r hr hdes hheld
  | queue i act resumeIdx =>
    simp only [step, Option.ite_none_right_eq_some] at h'
    obtain ⟨hact, hs⟩ := h'
    obtain ⟨x, hx, rfl⟩ := Option.map_eq_some_iff.1 hs
    exact .queue i act resumeIdx x hact hx

end EventLife
end Xsched.Cuda
