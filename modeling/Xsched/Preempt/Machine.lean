import Mathlib.Logic.Function.Basic
import Xsched.Core.LTS
import Xsched.Preempt.Command

/-!
# The launch machine: command buffer, launch worker, waiting threads

One AsyncXQueue below its `Submit`/`Suspend`/`Resume` interface: the
`CommandBuffer`, the `LaunchWorker` with its worker thread, any number of
application threads in `AsyncXQueue::Wait` (the callers of `SyncCmd`), and
callers of `Pause`, `Resume`, `ResumeAndDrop`, `Enqueue`, `DropAll` and
`EnqueueXQueueWaitAllCommand` in any order.

**Atomicity.** A region under the lock of the `CommandBuffer`, of an
XCommand or of the `LaunchWorker` is one step. `cv_.wait` and the unlocked
`Synchronize` calls end a region; the thread's program counter says where it
goes on. A waiter may retake the lock at any time (the standard allows
spurious wakeups) and tests its condition again. A `Synchronize` call takes
three steps: lock released, call made, call returned; everything may happen
in between.

**XASSERT.** A failing assertion ends the process: it sets `aborted`, and an
aborted machine has no step.

**Ghost fields.** `enqueued`, `launched`, `returned`, `events` and `waitAlls`
record the history and are read by no step, except that `submit` refuses a
HwCommand that was enqueued before (an object is submitted once).
-/
namespace Xsched.Preempt

/-- mirrors preempt/include/xsched/preempt/xqueue/launch_worker.h:55-60 -/
inductive WorkerState where
  | running | paused | terminated
  deriving DecidableEq, Repr

/-- What a wait is about: `SyncAllWithLock` synchronizes the HwQueue,
`SyncCmdWithLock` a HwCommand. -/
inductive SyncTarget where
  | hwq
  | cmd (d : HwCommand)
  deriving DecidableEq, Repr

/-- One `Synchronize` call: what it is made on and `current_pause_cnt`, read
before the lock was released. -/
structure SyncCall where
  target : SyncTarget
  pauseCnt : Nat
  /-- ghost: the commands launched when the call was made -/
  launchedBefore : List HwCommand
  deriving DecidableEq, Repr

inductive SyncPhase where
  | unlocked | called | returned
  deriving DecidableEq, Repr

/-- Where the worker goes on after a wait: with the XCommand it is about, or
in `LaunchHwCommand` after the wait for deactivatable commands or after the
wait for an empty slot. -/
inductive SyncRet where
  | ofCmd (x : XCommand)
  | deactivatable (c : HwCommand)
  | full (c : HwCommand)
  deriving DecidableEq, Repr

def SyncRet.cmd : SyncRet → XCommand
  | .ofCmd x => x
  | .deactivatable c => .hardware c
  | .full c => .hardware c

/-- The worker thread. `launchWait` is the explicit pause loop of
`LaunchHwCommand`, `syncWait` the one inside `SyncAllWithLock` and
`SyncCmdWithLock`, `completing` comes after the lock is released.
mirrors preempt/src/xqueue/launch_worker.cpp:78-360 -/
inductive WorkerPc where
  | dequeue
  | dequeueWait
  | got (x : XCommand)
  | locking (x : XCommand)
  | launchWait (c : HwCommand)
  | syncWait (t : SyncTarget) (r : SyncRet)
  | syncing (call : SyncCall) (ph : SyncPhase) (r : SyncRet)
  | completing (x : XCommand)
  | exited
  deriving DecidableEq, Repr

/-- The XCommand in the worker's hand. -/
def WorkerPc.cmd : WorkerPc → Option XCommand
  | .got x => some x
  | .locking x => some x
  | .launchWait c => some (.hardware c)
  | .syncWait _ r => some r.cmd
  | .syncing _ _ r => some r.cmd
  | .completing x => some x
  | _ => none

/-- The HwCommand in the worker's hand, if it holds one. -/
def WorkerPc.hand (p : WorkerPc) : List HwCommand := (p.cmd.bind XCommand.hw?).toList

theorem WorkerPc.hand_eq {p : WorkerPc} {x : XCommand} (h : p.cmd = some x) :
    p.hand = x.hw?.toList := by
  rw [hand, h, Option.bind_some]

/-- Where the worker goes after completing `x`: an XQueueDestroyCommand ends
its thread. -/
def WorkerPc.after : XCommand → WorkerPc
  | .xQueueDestroy _ => .exited
  | _ => .dequeue

/-- An application thread in `AsyncXQueue::Wait(c)`.
mirrors preempt/src/xqueue/async_xqueue.cpp:67-82 -/
inductive AppPc where
  | idle
  | waitCompleted (c : HwCommand)
  | checkCompleted (c : HwCommand)
  | waitInFlight (c : HwCommand)
  | locking (c : HwCommand)
  | syncWait (c : HwCommand)
  | syncing (call : SyncCall) (ph : SyncPhase) (c : HwCommand)
  deriving DecidableEq, Repr

/-- The events a command buffer sends to the scheduler. -/
inductive SchedEvent where
  | ready | idle
  deriving DecidableEq, Repr

structure State where
  xqState : XQueueState
  lastCmd : XCommand
  cmds : List XCommand
  cmdLog : List HwCommand
  syncCmdLog : List HwCommand
  lastSynchronizableIdx : Int
  dropIdx : Int
  pauseCount : Nat
  state : WorkerState
  cmdState : XCommand → XCommandState
  syncEnabled : HwCommand → Bool
  nextId : Nat
  pc : WorkerPc
  app : Nat → AppPc
  aborted : Bool
  /-- ghost: every HwCommand enqueued, in order -/
  enqueued : List HwCommand
  /-- ghost: every HwCommand launched on the HwQueue, in order -/
  launched : List HwCommand
  /-- ghost: the `Synchronize` calls that have returned -/
  returned : List SyncCall
  /-- ghost: the events sent, oldest first -/
  events : List SchedEvent
  /-- ghost: for each `EnqueueXQueueWaitAllCommand`, what it returned and
  the HwCommands enqueued before it -/
  waitAlls : List (XCommand × List HwCommand)

/-- After the constructors: the buffer holds the first XQueueWaitAllCommand
and the worker is about to dequeue.
mirrors preempt/src/xqueue/command_buffer.cpp:8-12 -/
def init : State where
  xqState := .idle
  lastCmd := .xQueueWaitAll 0
  cmds := [.xQueueWaitAll 0]
  cmdLog := []
  syncCmdLog := []
  lastSynchronizableIdx := -1
  dropIdx := -1
  pauseCount := 0
  state := .running
  cmdState := Function.update (fun _ => .created) (.xQueueWaitAll 0) .pending
  syncEnabled := fun _ => false
  nextId := 1
  pc := .dequeue
  app := fun _ => .idle
  aborted := false
  enqueued := []
  launched := []
  returned := []
  events := []
  waitAlls := []

/-! ## XCommand -/

def xassert (p : Bool) (s : State) : State := { s with aborted := s.aborted || !p }

/-- mirrors preempt/src/xqueue/xcommand.cpp:12-27 -/
def setState (x : XCommand) (st : XCommandState) (s : State) : State :=
  { s with cmdState := Function.update s.cmdState x st,
           aborted := s.aborted || !decide ((s.cmdState x).val ≤ st.val) }

/-- `for (auto hw_cmd : log) hw_cmd->SetState(kCommandStateCompleted)` -/
def completeAll : List HwCommand → State → State
  | [], s => s
  | c :: cs, s => completeAll cs (setState (.hardware c) .completed s)

/-- `HwCommand::Synchronizable` -/
def State.synchronizable (s : State) (c : HwCommand) : Bool :=
  match c.kind with
  | .callback => false
  | .hal => s.syncEnabled c
  | .eventRecord _ => true

/-- `HwCommand::EnableSynchronization`; `b` says whether a HAL command's call
succeeds. -/
def enableSynchronization (b : Bool) (c : HwCommand) (s : State) : State :=
  { s with syncEnabled := Function.update s.syncEnabled c (s.syncEnabled c || b) }

/-! ## CommandBuffer -/

/-- Only a HwCommand wakes an idle queue.
mirrors preempt/src/xqueue/command_buffer.cpp:74-93 -/
def enqueue (x : XCommand) (s : State) : State :=
  let s := setState x .pending s
  let wakes := x.hw?.isSome && decide (s.xqState = .idle)
  { s with xqState := if wakes then .ready else s.xqState,
           events := if wakes then s.events ++ [.ready] else s.events,
           lastCmd := x, cmds := s.cmds ++ [x], enqueued := s.enqueued ++ x.hw?.toList }

/-- The non-empty branch of `Dequeue` (also after its `cv_.wait`). -/
def dequeuePop (s : State) : Option State :=
  match s.cmds with
  | [] => none
  | x :: rest => some { s with cmds := rest, pc := .got x }

/-- A command `Dequeue` makes itself; it becomes `last_cmd_` without passing
through the buffer. -/
def dequeueGenerated (x : XCommand) (s : State) : State :=
  { setState x .pending s with lastCmd := x, nextId := s.nextId + 1, pc := .got x }

/-- mirrors preempt/src/xqueue/command_buffer.cpp:20-72 -/
def dequeue (s : State) : State :=
  match dequeuePop s with
  | some s' => s'
  | none =>
    match s.lastCmd with
    | .xQueueWaitAll _ =>
      if s.xqState = .ready then
        { s with xqState := .idle, events := s.events ++ [.idle], pc := .dequeueWait }
      else { s with pc := .dequeueWait }
    | .batchSynchronize _ => dequeueGenerated (.xQueueWaitAll s.nextId) s
    | _ => dequeueGenerated (.batchSynchronize s.nextId) s

/-- mirrors preempt/src/xqueue/command_buffer.cpp:95-100 -/
def dropAll (s : State) : State :=
  { s.cmds.foldl (fun s x => setState x .completed s) s with cmds := [] }

/-- A call that returns `w`. -/
def waitAllReturns (w : XCommand) (s : State) : State :=
  { s with waitAlls := s.waitAlls ++ [(w, s.enqueued)] }

/-- mirrors preempt/src/xqueue/command_buffer.cpp:102-129 -/
def enqueueXQueueWaitAllCommand (s : State) : State :=
  if s.xqState = .idle then
    if s.lastCmd.isWaitAll then waitAllReturns s.lastCmd s
    else xassert false s
  else if s.lastCmd.isWaitAll then waitAllReturns s.lastCmd s
  else
    let w := .xQueueWaitAll s.nextId
    waitAllReturns w
      { setState w .pending s with lastCmd := w, cmds := s.cmds ++ [w], nextId := s.nextId + 1 }

/-- mirrors preempt/src/xqueue/command_buffer.cpp:14-18 -/
def State.getXQueueState (s : State) : XQueueState := s.xqState

/-! ## LaunchWorker: pausing and waiting -/

/-- mirrors preempt/src/xqueue/launch_worker.cpp:33-39 -/
def pause (s : State) : State := { s with state := .paused, pauseCount := s.pauseCount + 1 }

/-- mirrors preempt/src/xqueue/launch_worker.cpp:41-47 -/
def resume (s : State) : State := { s with state := .running }

/-- Clear both logs, completing what is in flight.
mirrors preempt/src/xqueue/launch_worker.cpp:53-57,286-290 -/
def clearLogs (s : State) : State :=
  { completeAll s.cmdLog s with syncCmdLog := [], cmdLog := [] }

/-- mirrors preempt/src/xqueue/launch_worker.cpp:49-64 -/
def resumeAndDrop (dropIdx : Int) (s : State) : State :=
  { clearLogs s with dropIdx := dropIdx, state := .running }

/-- Pop both logs up to `d`, completing what leaves the in-flight log.
mirrors preempt/src/xqueue/launch_worker.cpp:344-357 -/
def popLogs (d : HwCommand) (s : State) : State :=
  { completeAll (s.cmdLog.takeWhile fun c => decide (c.idx ≤ d.idx)) s with
    syncCmdLog := s.syncCmdLog.dropWhile fun c => decide (c.idx ≤ d.idx),
    cmdLog := s.cmdLog.dropWhile fun c => decide (c.idx ≤ d.idx) }

/-- How a pass through the loops of `SyncAllWithLock`/`SyncCmdWithLock` ends:
return with the lock held, `cv_.wait`, or unlock and call `Synchronize`. -/
inductive SyncOutcome where
  | ret | wait | call
  deriving DecidableEq, Repr

/-- mirrors preempt/src/xqueue/launch_worker.cpp:259-274 -/
def syncAllWithLock (s : State) : SyncOutcome :=
  match s.state with
  | .running => if s.cmdLog = [] then .ret else .call
  | .paused => .wait
  | .terminated => .ret

/-- mirrors preempt/src/xqueue/launch_worker.cpp:300-332 -/
def syncCmdWithLock (d : HwCommand) (s : State) : SyncOutcome :=
  if s.cmdState (.hardware d) = .completed then .ret
  else
    match s.state with
    | .running => .call
    | .paused => .wait
    | .terminated => .ret

def syncLoop : SyncTarget → State → SyncOutcome
  | .hwq => syncAllWithLock
  | .cmd d => syncCmdWithLock d

/-- What follows a `Synchronize` call during which no pause happened. -/
def syncFinish : SyncTarget → State → State
  | .hwq => clearLogs
  | .cmd d => popLogs d

/-- The assertion at the entry of `SyncCmdWithLock`. -/
def syncEntry : SyncTarget → State → State
  | .hwq, s => s
  | .cmd d, s => xassert (s.synchronizable d) s

/-- The assertion of `SyncCmdWithLock` before the call. -/
def syncLaunched : SyncTarget → State → State
  | .hwq, s => s
  | .cmd d, s => xassert (decide (2 ≤ (s.cmdState (.hardware d)).val)) s

/-- The worker's pass through the loop for `t`; `k` is what follows a return. -/
def workerSync (k : State → State) (t : SyncTarget) (r : SyncRet) (s : State) : State :=
  match syncLoop t s with
  | .ret => k s
  | .wait => { s with pc := .syncWait t r }
  | .call => { syncLaunched t s with pc := .syncing ⟨t, s.pauseCount, []⟩ .unlocked r }

/-! ## LaunchWorker: launching -/

/-- The drop test and the launch; `b` answers `EnableSynchronization`.
mirrors preempt/src/xqueue/launch_worker.cpp:228-254 -/
def launchOrDrop (cfg : Config) (b : Bool) (c : HwCommand) (s : State) : State :=
  if c.idx ≤ s.dropIdx then { setState (.hardware c) .completed s with pc := .dequeue }
  else
    let s := if (cfg.batchSize : Int) ≤ c.idx - s.lastSynchronizableIdx
      then enableSynchronization b c s else s
    let s := { s with launched := s.launched ++ [c] }
    let s := setState (.hardware c) .inFlight s
    let s := { s with cmdLog := s.cmdLog ++ [c], pc := .dequeue }
    if s.synchronizable c then
      { s with syncCmdLog := s.syncCmdLog ++ [c], lastSynchronizableIdx := c.idx }
    else s

/-- mirrors preempt/src/xqueue/launch_worker.cpp:212-225 -/
def launchPauseLoop (cfg : Config) (b : Bool) (c : HwCommand) (s : State) : State :=
  match s.state with
  | .running => launchOrDrop cfg b c s
  | .paused => { s with pc := .launchWait c }
  | .terminated => xassert false s

/-- The command to wait for when the in-flight log is full: the first
synchronizable command not older than the front of the log.
mirrors preempt/src/xqueue/launch_worker.cpp:193-208 -/
def fullTarget (s : State) : SyncTarget :=
  match s.cmdLog with
  | [] => .hwq
  | front :: _ =>
    match s.syncCmdLog.find? fun c => decide (front.idx ≤ c.idx) with
    | some d => .cmd d
    | none => .hwq

/-- mirrors preempt/src/xqueue/launch_worker.cpp:192-226 -/
def launchCheckFull (cfg : Config) (b : Bool) (c : HwCommand) (s : State) : State :=
  if cfg.threshold ≤ s.cmdLog.length then
    workerSync (launchOrDrop cfg b c) (fullTarget s) (.full c) (syncEntry (fullTarget s) s)
  else launchPauseLoop cfg b c s

/-- mirrors preempt/src/xqueue/launch_worker.cpp:163-165 -/
def waitDeactivatable (cfg : Config) (c : HwCommand) : Bool :=
  decide (XPreemptLevel.deactivate.val ≤ cfg.level.val) &&
    (c.getProps (kCommandPropertyDeactivatable ||| kCommandPropertyIdempotent)
      == kCommandPropertyNone)

/-- The scan from the back of the log: whether it holds a deactivatable
command and the last command to synchronize seen on the way.
mirrors preempt/src/xqueue/launch_worker.cpp:174-182 -/
def scanDeactivatable (s : State) : List HwCommand → Option HwCommand → Bool × Option HwCommand
  | [], toSync => (false, toSync)
  | c :: cs, toSync =>
    let toSync := if s.synchronizable c then some c else toSync
    if c.deactivatable then (true, toSync) else scanDeactivatable s cs toSync

def targetOf : Option HwCommand → SyncTarget
  | none => .hwq
  | some d => .cmd d

/-- `LaunchHwCommand` from the point where it takes the lock.
mirrors preempt/src/xqueue/launch_worker.cpp:156-255 -/
def launchHwCommand (cfg : Config) (b : Bool) (c : HwCommand) (s : State) : State :=
  if waitDeactivatable cfg c then
    match scanDeactivatable s s.cmdLog.reverse none with
    | (true, toSync) =>
      workerSync (launchCheckFull cfg b c) (targetOf toSync) (.deactivatable c)
        (syncEntry (targetOf toSync) s)
    | (false, _) => launchCheckFull cfg b c s
  else launchCheckFull cfg b c s

/-! ## LaunchWorker: the worker loop -/

/-- The end of the locked region of an XCommand that is not a HwCommand.
mirrors preempt/src/xqueue/launch_worker.cpp:103-105,127,138-142 -/
def finishCmd (x : XCommand) (s : State) : State :=
  match x with
  | .xQueueDestroy _ => { s with state := .terminated, pc := .completing x }
  | _ => { s with pc := .completing x }

/-- Going on after a wait that returned with the lock held. -/
def afterSync (cfg : Config) (b : Bool) : SyncRet → State → State
  | .ofCmd x => finishCmd x
  | .deactivatable c => launchCheckFull cfg b c
  | .full c => launchOrDrop cfg b c

/-- The worker's next step. `b` answers `EnableSynchronization` if the step
asks. A step from `syncing _ .called _` is the return of `Synchronize`.
mirrors preempt/src/xqueue/launch_worker.cpp:78-154 -/
def stepWorker (cfg : Config) (b : Bool) (s : State) : Option State :=
  match s.pc with
  | .dequeue => some (dequeue s)
  | .dequeueWait => dequeuePop s
  | .got (.hardware c) => some { s with pc := .locking (.hardware c) }
  | .got x => some { setState x .inFlight s with pc := .locking x }
  | .locking (.hardware c) => some (launchHwCommand cfg b c s)
  | .locking (.batchSynchronize i) =>
    match s.syncCmdLog with
    | [] => some { s with pc := .dequeue }
    | d :: _ => some (workerSync (finishCmd (.batchSynchronize i)) (.cmd d)
        (.ofCmd (.batchSynchronize i)) (syncEntry (.cmd d) s))
  | .locking x => some (workerSync (finishCmd x) .hwq (.ofCmd x) s)
  | .launchWait c => some (launchPauseLoop cfg b c s)
  | .syncWait t r => some (workerSync (afterSync cfg b r) t r s)
  | .syncing call .unlocked r =>
    some { s with pc := .syncing { call with launchedBefore := s.launched } .called r }
  | .syncing call .called r =>
    some { s with pc := .syncing call .returned r, returned := s.returned ++ [call] }
  | .syncing call .returned r =>
    if call.pauseCnt = s.pauseCount then some (afterSync cfg b r (syncFinish call.target s))
    else some (workerSync (afterSync cfg b r) call.target r s)
  | .completing x =>
    some { setState x .completed s with pc := .after x }
  | .exited => none

/-! ## Application threads -/

def setApp (t : Nat) (p : AppPc) (s : State) : State :=
  { s with app := Function.update s.app t p }

/-- The start of `AsyncXQueue::Wait(c)` on thread `t`. -/
def waitStart (t : Nat) (c : HwCommand) (s : State) : Option State :=
  if s.app t = .idle then
    some (setApp t (if s.synchronizable c then .checkCompleted c else .waitCompleted c) s)
  else none

/-- Thread `t`'s pass through the loop of `SyncCmdWithLock(c)`. -/
def appSync (t : Nat) (c : HwCommand) (s : State) : State :=
  match syncCmdWithLock c s with
  | .ret => setApp t .idle s
  | .wait => setApp t (.syncWait c) s
  | .call => setApp t (.syncing ⟨.cmd c, s.pauseCount, []⟩ .unlocked c) (syncLaunched (.cmd c) s)

/-- mirrors preempt/src/xqueue/async_xqueue.cpp:67-82 and
preempt/src/xqueue/launch_worker.cpp:72-76 -/
def stepApp (t : Nat) (s : State) : Option State :=
  match s.app t with
  | .idle => none
  | .waitCompleted c =>
    if s.cmdState (.hardware c) = .completed then some (setApp t .idle s) else none
  | .checkCompleted c =>
    if s.cmdState (.hardware c) = .completed then some (setApp t .idle s)
    else some (setApp t (.waitInFlight c) s)
  | .waitInFlight c =>
    if 2 ≤ (s.cmdState (.hardware c)).val then some (setApp t (.locking c) s) else none
  | .locking c => some (appSync t c (syncEntry (.cmd c) s))
  | .syncWait c => some (appSync t c s)
  | .syncing call .unlocked c =>
    some (setApp t (.syncing { call with launchedBefore := s.launched } .called c) s)
  | .syncing call .called c =>
    some (setApp t (.syncing call .returned c) { s with returned := s.returned ++ [call] })
  | .syncing call .returned c =>
    if call.pauseCnt = s.pauseCount then some (setApp t .idle (popLogs c s))
    else some (appSync t c s)

/-! ## The machine -/

/-- `submit` is `Enqueue` of a HwCommand, the other `enqueue…` labels that of
a fresh HostFunctionCommand or XQueueDestroyCommand. -/
inductive Act where
  | worker (b : Bool)
  | app (t : Nat)
  | wait (t : Nat) (c : HwCommand)
  | submit (c : HwCommand)
  | enqueueHostFunction
  | enqueueDestroy
  | enqueueWaitAll
  | dropAll
  | pause
  | resume
  | resumeAndDrop (dropIdx : Int)
  deriving DecidableEq, Repr

/-- `submit c`: indices start from 1, and no object is submitted twice. -/
def step (cfg : Config) (s : State) (a : Act) : Option State :=
  if s.aborted then none
  else
    match a with
    | .worker b => stepWorker cfg b s
    | .app t => stepApp t s
    | .wait t c => waitStart t c s
    | .submit c => if 0 < c.idx ∧ c ∉ s.enqueued then some (enqueue (.hardware c) s) else none
    | .enqueueHostFunction =>
      some (enqueue (.hostFunction s.nextId) { s with nextId := s.nextId + 1 })
    | .enqueueDestroy =>
      some (enqueue (.xQueueDestroy s.nextId) { s with nextId := s.nextId + 1 })
    | .enqueueWaitAll => some (enqueueXQueueWaitAllCommand s)
    | .dropAll => some (dropAll s)
    | .pause => some (pause s)
    | .resume => some (resume s)
    | .resumeAndDrop d => some (resumeAndDrop d s)

def lts (cfg : Config) : LTS State Act := LTS.ofFn (· = init) (step cfg)

end Xsched.Preempt
