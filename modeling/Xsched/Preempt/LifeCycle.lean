import Xsched.Core.Notify
import Xsched.Preempt.Fifo

/-!
# The life of an XCommand: SetState opened up

`Xsched.Preempt.Machine` takes a locked region as one step, `SetState`
included. `SetState` itself is longer: it changes the state under the lock of
the command, releases that lock, and calls the listeners one by one, under
whatever other lock its caller holds. Here every `SetState` is opened up. A
region begins (`region`): what it does to the data its lock protects is done,
and the `SetState` calls it makes (`calls`, in the order of the source) are
left to its thread, which makes them one at a time and tells one listener at
a time (`tick`) and then gives the lock back (`unlock`). Everything else may
happen in between, but for what needs the same lock or the same thread.
`Enqueue` calls `SetState` before it takes its lock (`enter`, then `insert`).

`calls_exact`: if the calls of a region were made at once, the region would
be the step of `Machine`.

A listener is registered before the command is enqueued (by the constructor
of HwCommand and where a kernel is split); `listeners` says how many a command
has, XQueueWaitAllCommands and BatchSynchronizeCommands included.

`Opening` lists what a region does to the places a command can be in;
`opens_step` says that no region does anything else.
-/
namespace Xsched.Preempt.LifeCycle

/-! ## The states an XCommand passes -/

/-- `for (int i = old_state + 1; i <= new_state; i++)`
mirrors preempt/src/xqueue/xcommand.cpp:24 -/
def passed (old new : XCommandState) : List XCommandState :=
  [.pending, .inFlight, .completed].filter fun st => decide (old.val < st.val ∧ st.val ≤ new.val)

def ladder : Notify.Ladder XCommandState where
  bot := .created
  le old new := decide (old.val ≤ new.val)
  passed := passed
  bot_le := by intro a; cases a <;> rfl
  passed_self := by intro a; cases a <;> rfl
  passed_append := by intro a b c; cases a <;> cases b <;> cases c <;> decide

abbrev Call := XCommand × XCommandState
abbrev Note := Notify.Note XCommand XCommandState
abbrev Task := Notify.Task XCommand XCommandState

/-! ## The calls of a region -/

/-- `for (auto hw_cmd : log) hw_cmd->SetState(kCommandStateCompleted)` -/
def completions (cs : List HwCommand) : List Call := cs.map fun c => (.hardware c, .completed)

/-- mirrors preempt/src/xqueue/launch_worker.cpp:286-290,344-357 -/
def syncFinishCalls (s : State) : SyncTarget → List Call
  | .hwq => completions s.cmdLog
  | .cmd d => completions (s.cmdLog.takeWhile fun c => decide (c.idx ≤ d.idx))

/-- mirrors preempt/src/xqueue/launch_worker.cpp:228-246 -/
def launchOrDropCalls (c : HwCommand) (s : State) : List Call :=
  if c.idx ≤ s.dropIdx then [(.hardware c, .completed)] else [(.hardware c, .inFlight)]

/-- mirrors preempt/src/xqueue/launch_worker.cpp:212-225 -/
def launchPauseLoopCalls (c : HwCommand) (s : State) : List Call :=
  match s.state with
  | .running => launchOrDropCalls c s
  | .paused => []
  | .terminated => []

/-- The calls after a wait, `k`, are made only if it returns at once. -/
def workerSyncCalls (k : State → List Call) (t : SyncTarget) (s : State) : List Call :=
  match syncLoop t s with
  | .ret => k s
  | .wait => []
  | .call => []

/-- mirrors preempt/src/xqueue/launch_worker.cpp:192-226 -/
def launchCheckFullCalls (cfg : Config) (c : HwCommand) (s : State) : List Call :=
  if cfg.threshold ≤ s.cmdLog.length then
    workerSyncCalls (launchOrDropCalls c) (fullTarget s) (syncEntry (fullTarget s) s)
  else launchPauseLoopCalls c s

/-- mirrors preempt/src/xqueue/launch_worker.cpp:156-255 -/
def launchHwCommandCalls (cfg : Config) (c : HwCommand) (s : State) : List Call :=
  if waitDeactivatable cfg c then
    match scanDeactivatable s s.cmdLog.reverse none with
    | (true, toSync) =>
      workerSyncCalls (launchCheckFullCalls cfg c) (targetOf toSync)
        (syncEntry (targetOf toSync) s)
    | (false, _) => launchCheckFullCalls cfg c s
  else launchCheckFullCalls cfg c s

def afterSyncCalls (cfg : Config) : SyncRet → State → List Call
  | .ofCmd _, _ => []
  | .deactivatable c, s => launchCheckFullCalls cfg c s
  | .full c, s => launchOrDropCalls c s

/-- mirrors preempt/src/xqueue/command_buffer.cpp:49-66 -/
def dequeueCalls (s : State) : List Call :=
  match s.cmds with
  | _ :: _ => []
  | [] =>
    match s.lastCmd with
    | .xQueueWaitAll _ => []
    | .batchSynchronize _ => [(.xQueueWaitAll s.nextId, .pending)]
    | _ => [(.batchSynchronize s.nextId, .pending)]

/-- mirrors preempt/src/xqueue/launch_worker.cpp:78-154 -/
def workerCalls (cfg : Config) (s : State) : List Call :=
  match s.pc with
  | .dequeue => dequeueCalls s
  | .dequeueWait => []
  | .got (.hardware _) => []
  | .got x => [(x, .inFlight)]
  | .locking (.hardware c) => launchHwCommandCalls cfg c s
  | .locking _ => []
  | .launchWait c => launchPauseLoopCalls c s
  | .syncWait t r => workerSyncCalls (afterSyncCalls cfg r) t s
  | .syncing call .returned r =>
    if call.pauseCnt = s.pauseCount then
      syncFinishCalls s call.target ++ afterSyncCalls cfg r (syncFinish call.target s)
    else workerSyncCalls (afterSyncCalls cfg r) call.target s
  | .syncing _ _ _ => []
  | .completing x => [(x, .completed)]
  | .exited => []

/-- mirrors preempt/src/xqueue/launch_worker.cpp:344-357 -/
def appCalls (s : State) : AppPc → List Call
  | .syncing call .returned c =>
    if call.pauseCnt = s.pauseCount then syncFinishCalls s (.cmd c) else []
  | _ => []

/-- mirrors preempt/src/xqueue/command_buffer.cpp:102-129 -/
def enqueueWaitAllCalls (s : State) : List Call :=
  if s.xqState = .idle then []
  else if s.lastCmd.isWaitAll then []
  else [(.xQueueWaitAll s.nextId, .pending)]

/-- The `SetState` calls a step of the machine makes, in order. -/
def calls (cfg : Config) (s : State) : Act → List Call
  | .worker _ => workerCalls cfg s
  | .app t => appCalls s (s.app t)
  | .wait _ _ => []
  | .submit c => [(.hardware c, .pending)]
  | .enqueueHostFunction => [(.hostFunction s.nextId, .pending)]
  | .enqueueDestroy => [(.xQueueDestroy s.nextId, .pending)]
  | .enqueueWaitAll => enqueueWaitAllCalls s
  | .dropAll => s.cmds.map fun x => (x, .completed)
  | .pause => []
  | .resume => []
  | .resumeAndDrop _ => completions s.cmdLog

/-- The states once the calls are made. -/
def applyCalls (cs : List Call) (f : XCommand → XCommandState) : XCommand → XCommandState :=
  cs.foldl (fun f c => Function.update f c.1 c.2) f

/-! ## Locks and threads -/

inductive Lock where
  | cmdBuf | worker
  deriving DecidableEq, Repr

inductive Thread where
  | worker
  | client (t : Nat)
  deriving DecidableEq, Repr

/-- The lock a step of the machine is a region of. -/
def lockOf (s : State) : Act → Option Lock
  | .worker _ =>
    match s.pc with
    | .dequeue => some .cmdBuf
    | .dequeueWait => some .cmdBuf
    | .locking _ => some .worker
    | .launchWait _ => some .worker
    | .syncWait _ _ => some .worker
    | .syncing _ .returned _ => some .worker
    | _ => none
  | .app t =>
    match s.app t with
    | .locking _ => some .worker
    | .syncWait _ => some .worker
    | .syncing _ .returned _ => some .worker
    | _ => none
  | .wait _ _ => none
  | .submit _ => some .cmdBuf
  | .enqueueHostFunction => some .cmdBuf
  | .enqueueDestroy => some .cmdBuf
  | .enqueueWaitAll => some .cmdBuf
  | .dropAll => some .cmdBuf
  | .pause => some .worker
  | .resume => some .worker
  | .resumeAndDrop _ => some .worker

/-- The machine between the calls of its threads. `owner` says who holds a
lock, `enq t` what thread `t` is enqueuing and has not inserted, `submitted`
which HwCommands were handed to `Submit`. -/
structure Fine where
  m : State
  task : Thread → Task
  heard : List Note
  failed : Bool
  owner : Lock → Option Thread
  enq : Nat → Option XCommand
  submitted : List HwCommand

def Fine.notify (f : Fine) : Notify.State XCommand Thread XCommandState :=
  ⟨f.m.cmdState, f.task, f.heard, f.failed⟩

def Fine.put (f : Fine) (n : Notify.State XCommand Thread XCommandState) : Fine :=
  { f with m := { f.m with cmdState := n.cur }, task := n.task, heard := n.heard,
           failed := n.failed }

/-- After the constructors: the listeners of the first XQueueWaitAllCommand
have been told that it is Pending. -/
def start (listeners : XCommand → Nat) : Fine where
  m := init
  task := fun _ => .none _ _
  heard := Notify.notesFor ladder listeners (.xQueueWaitAll 0) .created .pending
  failed := false
  owner := fun _ => none
  enq := fun _ => none
  submitted := []

/-- The thread makes no call and holds no lock. -/
def Fine.Free (f : Fine) (th : Thread) : Prop :=
  f.task th = .none _ _ ∧ f.owner .cmdBuf ≠ some th ∧ f.owner .worker ≠ some th

instance (f : Fine) (th : Thread) : Decidable (f.Free th) :=
  inferInstanceAs (Decidable (_ ∧ _))

/-- Which thread may take a step of the machine now. The locked half of
`Enqueue` is `insert`. -/
def Fine.MayRun (f : Fine) : Thread → Act → Prop
  | .worker, .worker _ => True
  | .client u, .app t => t = u ∧ f.enq u = none
  | .client u, .wait t _ => t = u ∧ f.enq u = none
  | .client u, .enqueueWaitAll => f.m.app u = .idle ∧ f.enq u = none
  | .client u, .dropAll => f.m.app u = .idle ∧ f.enq u = none
  | .client u, .pause => f.m.app u = .idle ∧ f.enq u = none
  | .client u, .resume => f.m.app u = .idle ∧ f.enq u = none
  | .client u, .resumeAndDrop _ => f.m.app u = .idle ∧ f.enq u = none
  | _, _ => False

instance (f : Fine) (th : Thread) (a : Act) : Decidable (f.MayRun th a) := by
  unfold Fine.MayRun; split <;> infer_instance

/-- What `Enqueue` is called with. -/
def enqueues (s : State) : Act → Option XCommand
  | .submit c => some (.hardware c)
  | .enqueueHostFunction => some (.hostFunction s.nextId)
  | .enqueueDestroy => some (.xQueueDestroy s.nextId)
  | _ => none

/-- Thread `th` takes the lock `lock`, does what the machine does to the data
(`m'`), and has the calls `cs` to make. -/
def Fine.begins (th : Thread) (lock : Option Lock) (cs : List Call) (m' : State) (f : Fine) : Fine :=
  { f with m := { m' with cmdState := f.m.cmdState },
           task := Function.update f.task th ⟨cs, []⟩,
           owner := fun l => if lock = some l then some th else f.owner l }

/-- A region of the machine begins on thread `th`. -/
def region (cfg : Config) (th : Thread) (a : Act) (f : Fine) : Option Fine :=
  if f.Free th ∧ f.MayRun th a ∧ (∀ l, lockOf f.m a = some l → f.owner l = none) then
    (step cfg f.m a).map fun m' => f.begins th (lockOf f.m a) (calls cfg f.m a) m'
  else none

/-- An object of the thread's own making takes the next number. -/
def numbered (x : XCommand) (s : State) : State :=
  { s with nextId := if x.hw? = none then s.nextId + 1 else s.nextId }

/-- Thread `t` calls `Enqueue`, with a HwCommand that was not submitted
before or with an object of its own making.
mirrors preempt/src/xqueue/command_buffer.cpp:74-78 -/
def enter (cfg : Config) (t : Nat) (a : Act) (f : Fine) : Option Fine :=
  if f.Free (.client t) ∧ f.m.app t = .idle ∧ f.enq t = none ∧ f.m.aborted = false then
    match enqueues f.m a with
    | none => none
    | some x =>
      if (∀ c, x.hw? = some c → 0 < c.idx ∧ c ∉ f.submitted) then
        some { f.begins (.client t) none (calls cfg f.m a) (numbered x f.m) with
                 enq := Function.update f.enq t (some x),
                 submitted := f.submitted ++ x.hw?.toList }
      else none
  else none

/-- The locked half of `Enqueue`.
mirrors preempt/src/xqueue/command_buffer.cpp:80-92 -/
def insert (t : Nat) (f : Fine) : Option Fine :=
  match f.enq t with
  | none => none
  | some x =>
    if f.Free (.client t) ∧ f.owner .cmdBuf = none ∧ f.m.aborted = false then
      some { f.begins (.client t) (some .cmdBuf) [] (enqueue x f.m) with
               enq := Function.update f.enq t none }
    else none

/-- A lock is given back when the calls made under it are done. -/
def unlock (l : Lock) (f : Fine) : Option Fine :=
  match f.owner l with
  | none => none
  | some th =>
    if f.task th = .none _ _ then some { f with owner := Function.update f.owner l none }
    else none

inductive FineAct where
  | region (th : Thread) (a : Act)
  | enter (t : Nat) (a : Act)
  | insert (t : Nat)
  | tick (th : Thread)
  | unlock (l : Lock)
  deriving DecidableEq, Repr

/-- A failed assertion of `SetState` ends the process; `tick` is a piece of
`SetState`: the change of the state, or the call of one listener.
mirrors preempt/src/xqueue/xcommand.cpp:12-27 -/
def fineStep (listeners : XCommand → Nat) (cfg : Config) (f : Fine) (a : FineAct) : Option Fine :=
  if f.failed then none
  else
    match a with
    | .region th a => region cfg th a f
    | .enter t a => enter cfg t a f
    | .insert t => insert t f
    | .tick th => (f.notify.tick ladder listeners th).map f.put
    | .unlock l => unlock l f

def fine (listeners : XCommand → Nat) (cfg : Config) : LTS Fine FineAct :=
  LTS.ofFn (· = start listeners) (fineStep listeners cfg)

/-! ## What a region does to the places of the commands -/

theorem applyCalls_append (cs ds : List Call) (f : XCommand → XCommandState) :
    applyCalls (cs ++ ds) f = applyCalls ds (applyCalls cs f) := List.foldl_append

theorem applyCalls_completions (cs : List HwCommand) (f : XCommand → XCommandState) :
    applyCalls (completions cs) f = completeOn cs f := by
  induction cs generalizing f with
  | nil => funext x; simp [completions, applyCalls, completeOn]
  | cons c cs ih =>
    have hstep : applyCalls (completions (c :: cs)) f =
        applyCalls (completions cs) (Function.update f (.hardware c) .completed) := rfl
    rw [hstep, ih]
    funext x
    by_cases hx : x = .hardware c
    · subst hx; simp [completeOn]
    · by_cases hm : x ∈ cs.map XCommand.hardware <;> simp [completeOn, hx, hm]

theorem applyCalls_completed (xs : List XCommand) (f : XCommand → XCommandState) :
    applyCalls (xs.map fun x => (x, .completed)) f =
      fun x => if x ∈ xs then .completed else f x := by
  induction xs generalizing f with
  | nil => funext x; simp [applyCalls]
  | cons y ys ih =>
    have hstep : applyCalls ((y :: ys).map fun x => (x, .completed)) f =
        applyCalls (ys.map fun x => (x, .completed)) (Function.update f y .completed) := rfl
    rw [hstep, ih]
    funext x
    by_cases hx : x = y
    · subst hx; simp
    · by_cases hm : x ∈ ys <;> simp [hx, hm]

/-- The state a command in the worker's hand has. Only a command that is no
HwCommand is set InFlight before it is processed. -/
def WorkerPc.due : WorkerPc → XCommandState
  | .got _ => .pending
  | p => if p.hand = [] then .inFlight else .pending

theorem WorkerPc.due_hw {p : WorkerPc} {c : HwCommand} (h : p.cmd = some (.hardware c)) :
    WorkerPc.due p = .pending := by
  have hh : p.hand = [c] := WorkerPc.hand_eq h
  unfold WorkerPc.due
  split
  · rfl
  · rw [hh]; rfl

/-- What stays as it is while the worker works on one command. -/
structure Around (s s' : State) : Prop where
  cmds : s'.cmds = s.cmds
  nextId : s'.nextId = s.nextId
  enqueued : s'.enqueued = s.enqueued

/-- How `LaunchHwCommand` can end a region: with `c` still in hand, dropped or
launched. -/
inductive LaunchEnd (c : HwCommand) (s : State) : State → List Call → Prop
  | parked (s' : State) (ha : Around s s') (hl : s'.cmdLog = s.cmdLog)
      (hpc : s'.pc.cmd = some (.hardware c)) (hs : s'.cmdState = s.cmdState) : LaunchEnd c s s' []
  | dropped (s' : State) (ha : Around s s') (hl : s'.cmdLog = s.cmdLog) (hpc : s'.pc.cmd = none)
      (hs : s'.cmdState = applyCalls [(.hardware c, .completed)] s.cmdState) :
      LaunchEnd c s s' [(.hardware c, .completed)]
  | launched (s' : State) (ha : Around s s') (hl : s'.cmdLog = s.cmdLog ++ [c])
      (hpc : s'.pc.cmd = none)
      (hs : s'.cmdState = applyCalls [(.hardware c, .inFlight)] s.cmdState) :
      LaunchEnd c s s' [(.hardware c, .inFlight)]

section
variable {cfg : Config} {s : State} {c : HwCommand}

theorem syncEntry_pc (t : SyncTarget) : (syncEntry t s).pc = s.pc := by cases t <;> rfl

/-- What the assertions on the way leave in `aborted` plays no part. -/
theorem LaunchEnd.of_entry {s' : State} {cs : List Call} (t : SyncTarget)
    (h : LaunchEnd c (syncEntry t s) s' cs) : LaunchEnd c s s' cs := by
  obtain ⟨a, he⟩ := syncEntry_eq (s := s) t
  rw [he] at h
  cases h with
  | parked ha hl hpc hs => exact .parked s' ⟨ha.cmds, ha.nextId, ha.enqueued⟩ hl hpc hs
  | dropped ha hl hpc hs => exact .dropped s' ⟨ha.cmds, ha.nextId, ha.enqueued⟩ hl hpc hs
  | launched ha hl hpc hs => exact .launched s' ⟨ha.cmds, ha.nextId, ha.enqueued⟩ hl hpc hs

theorem launchEnd_launchOrDrop (b : Bool) :
    LaunchEnd c s (launchOrDrop cfg b c s) (launchOrDropCalls c s) := by
  unfold launchOrDrop launchOrDropCalls
  split
  · exact .dropped _ ⟨rfl, rfl, rfl⟩ rfl rfl rfl
  · simp only
    split <;> split <;> exact .launched _ ⟨rfl, rfl, rfl⟩ rfl rfl rfl

theorem launchEnd_pauseLoop (hpc : s.pc.cmd = some (.hardware c)) (b : Bool) :
    LaunchEnd c s (launchPauseLoop cfg b c s) (launchPauseLoopCalls c s) := by
  unfold launchPauseLoop launchPauseLoopCalls
  cases s.state with
  | running => exact launchEnd_launchOrDrop b
  | paused => exact .parked _ ⟨rfl, rfl, rfl⟩ rfl rfl rfl
  | terminated => exact .parked _ ⟨rfl, rfl, rfl⟩ rfl hpc rfl

theorem launchEnd_workerSync {k : State → State} {kc : State → List Call} {t : SyncTarget}
    {r : SyncRet} (hr : r.cmd = .hardware c) (hk : LaunchEnd c s (k s) (kc s)) :
    LaunchEnd c s (workerSync k t r s) (workerSyncCalls kc t s) := by
  unfold workerSync workerSyncCalls
  cases syncLoop t s with
  | ret => exact hk
  | wait => exact .parked _ ⟨rfl, rfl, rfl⟩ rfl (congrArg some hr) rfl
  | call =>
    obtain ⟨a, he, -⟩ := syncLaunched_eq (s := s) t
    rw [he]
    exact .parked _ ⟨rfl, rfl, rfl⟩ rfl (congrArg some hr) rfl

theorem launchEnd_checkFull (hpc : s.pc.cmd = some (.hardware c)) (b : Bool) :
    LaunchEnd c s (launchCheckFull cfg b c s) (launchCheckFullCalls cfg c s) := by
  unfold launchCheckFull launchCheckFullCalls
  split
  · exact .of_entry _ (launchEnd_workerSync rfl (launchEnd_launchOrDrop b))
  · exact launchEnd_pauseLoop hpc b

theorem launchEnd_launchHwCommand (hpc : s.pc.cmd = some (.hardware c)) (b : Bool) :
    LaunchEnd c s (launchHwCommand cfg b c s) (launchHwCommandCalls cfg c s) := by
  unfold launchHwCommand launchHwCommandCalls
  split
  · rcases scanDeactivatable s s.cmdLog.reverse none with ⟨deactivatable, toSync⟩
    cases deactivatable with
    | true =>
      have hpc' : (syncEntry (targetOf toSync) s).pc.cmd = some (.hardware c) := by
        rw [syncEntry_pc]; exact hpc
      exact .of_entry _ (launchEnd_workerSync rfl (launchEnd_checkFull hpc' b))
    | false => exact launchEnd_checkFull hpc b
  · exact launchEnd_checkFull hpc b

end

/-- The command in the worker's hand and the state it has. -/
def handOf (p : WorkerPc) : Option (XCommand × XCommandState) :=
  p.cmd.map fun x => (x, WorkerPc.due p)

theorem handOf_none {p : WorkerPc} (h : p.cmd = none) : handOf p = none := by
  rw [handOf, h]; rfl

theorem handOf_hw {p : WorkerPc} {c : HwCommand} (h : p.cmd = some (.hardware c)) :
    handOf p = some (.hardware c, .pending) := by
  rw [handOf, h, Option.map_some, WorkerPc.due_hw h]

/-- A command that is no HwCommand is InFlight once the worker processes it. -/
theorem handOf_other {p : WorkerPc} {x : XCommand} (h : p.cmd = some x) (hx : x.hw? = none)
    (hg : p ≠ .got x) : handOf p = some (x, .inFlight) := by
  have hh : p.hand = [] := by rw [WorkerPc.hand_eq h, hx]; rfl
  have hd : WorkerPc.due p = .inFlight := by
    unfold WorkerPc.due
    split
    · rename_i y
      simp only [WorkerPc.cmd, Option.some.injEq] at h
      exact absurd (h ▸ rfl) hg
    · rw [if_pos hh]
  rw [handOf, h, Option.map_some, hd]

/-- What a region does to the places of the commands, by whether the worker
runs it, its lock, and the calls it makes. -/
inductive Opening (s s' : State) : Bool → Option Lock → List Call → Prop
  | quiet (w : Bool) (l : Option Lock) (ha : Around s s') (hl : s'.cmdLog = s.cmdLog)
      (hpc : handOf s'.pc = handOf s.pc) : Opening s s' w l []
  | dequeued (x : XCommand) (rest : List XCommand) (hn : s'.nextId = s.nextId)
      (he : s'.enqueued = s.enqueued) (hc : s.cmds = x :: rest) (hc' : s'.cmds = rest)
      (hl : s'.cmdLog = s.cmdLog) (hpc : handOf s.pc = none)
      (hpc' : handOf s'.pc = some (x, .pending)) : Opening s s' true (some .cmdBuf) []
  | generated (x : XCommand) (hx : x.hw? = none) (hid : x.id = s.nextId)
      (hn : s'.nextId = s.nextId + 1) (he : s'.enqueued = s.enqueued) (hc : s'.cmds = s.cmds)
      (hl : s'.cmdLog = s.cmdLog) (hpc : handOf s.pc = none)
      (hpc' : handOf s'.pc = some (x, .pending)) :
      Opening s s' true (some .cmdBuf) [(x, .pending)]
  | started (x : XCommand) (ha : Around s s') (hl : s'.cmdLog = s.cmdLog)
      (hpc : handOf s.pc = some (x, .pending)) (hpc' : handOf s'.pc = some (x, .inFlight)) :
      Opening s s' true none [(x, .inFlight)]
  | left (x : XCommand) (d : XCommandState) (ha : Around s s') (hl : s'.cmdLog = s.cmdLog)
      (hpc : handOf s.pc = some (x, d)) (hpc' : handOf s'.pc = none) :
      Opening s s' true (some .worker) []
  | completed (x : XCommand) (d : XCommandState) (ha : Around s s') (hl : s'.cmdLog = s.cmdLog)
      (hpc : handOf s.pc = some (x, d)) (hpc' : handOf s'.pc = none) :
      Opening s s' true none [(x, .completed)]
  | popped (w : Bool) (pre : List HwCommand) (ha : Around s s') (hl : s.cmdLog = pre ++ s'.cmdLog)
      (hpc : handOf s'.pc = handOf s.pc) : Opening s s' w (some .worker) (completions pre)
  | dropped (pre : List HwCommand) (c : HwCommand) (ha : Around s s')
      (hl : s.cmdLog = pre ++ s'.cmdLog) (hpc : handOf s.pc = some (.hardware c, .pending))
      (hpc' : handOf s'.pc = none) :
      Opening s s' true (some .worker) (completions pre ++ [(.hardware c, .completed)])
  | launched (pre rest : List HwCommand) (c : HwCommand) (ha : Around s s')
      (hl : s.cmdLog = pre ++ rest) (hl' : s'.cmdLog = rest ++ [c])
      (hpc : handOf s.pc = some (.hardware c, .pending)) (hpc' : handOf s'.pc = none) :
      Opening s s' true (some .worker) (completions pre ++ [(.hardware c, .inFlight)])
  | waitAllFresh (x : XCommand) (hx : x.hw? = none) (hid : x.id = s.nextId)
      (hn : s'.nextId = s.nextId + 1) (he : s'.enqueued = s.enqueued)
      (hc : s'.cmds = s.cmds ++ [x]) (hl : s'.cmdLog = s.cmdLog)
      (hpc : handOf s'.pc = handOf s.pc) : Opening s s' false (some .cmdBuf) [(x, .pending)]
  | droppedAll (hn : s'.nextId = s.nextId) (he : s'.enqueued = s.enqueued) (hc : s'.cmds = [])
      (hl : s'.cmdLog = s.cmdLog) (hpc : handOf s'.pc = handOf s.pc) :
      Opening s s' false (some .cmdBuf) (s.cmds.map fun x => (x, .completed))

/-- An `Opening` whose calls, made at once, give the states of `s'`. -/
def Opens (s s' : State) (w : Bool) (l : Option Lock) (cs : List Call) : Prop :=
  Opening s s' w l cs ∧ s'.cmdState = applyCalls cs s.cmdState

section
variable {cfg : Config} {s s' : State}

theorem syncFinish_pops (t : SyncTarget) (s : State) :
    Around s (syncFinish t s) ∧ (syncFinish t s).pc = s.pc ∧
      ∃ pre, s.cmdLog = pre ++ (syncFinish t s).cmdLog ∧ syncFinishCalls s t = completions pre ∧
        (syncFinish t s).cmdState = applyCalls (completions pre) s.cmdState := by
  cases t with
  | hwq =>
    rw [syncFinish, clearLogs_eq]
    exact ⟨⟨rfl, rfl, rfl⟩, rfl, s.cmdLog, (List.append_nil _).symm, rfl,
      (applyCalls_completions _ _).symm⟩
  | cmd d =>
    rw [syncFinish, popLogs_eq]
    exact ⟨⟨rfl, rfl, rfl⟩, rfl, _, (List.takeWhile_append_dropWhile).symm, rfl,
      (applyCalls_completions _ _).symm⟩

/-- A region of the worker that first pops the log, possibly of nothing, and
then ends as `LaunchHwCommand` does. -/
theorem opens_launchEnd {s₁ : State} {pre : List HwCommand} {c : HwCommand} {cs : List Call}
    (ha : Around s s₁) (hl : s.cmdLog = pre ++ s₁.cmdLog)
    (hst : s₁.cmdState = applyCalls (completions pre) s.cmdState)
    (hc : s.pc.cmd = some (.hardware c)) (h : LaunchEnd c s₁ s' cs) :
    Opens s s' true (some .worker) (completions pre ++ cs) := by
  have haround (h : Around s₁ s') : Around s s' :=
    ⟨h.cmds.trans ha.cmds, h.nextId.trans ha.nextId, h.enqueued.trans ha.enqueued⟩
  have hhand := handOf_hw hc
  cases h with
  | parked ha' hl' hpc' hs =>
    refine ⟨?_, by rw [hs, hst, List.append_nil]⟩
    rw [List.append_nil]
    exact .popped true pre (haround ha') (by rw [hl, hl']) (by rw [hhand, handOf_hw hpc'])
  | dropped ha' hl' hpc' hs =>
    refine ⟨.dropped pre c (haround ha') (by rw [hl, hl']) hhand (handOf_none hpc'), ?_⟩
    rw [hs, hst, applyCalls_append]
  | launched ha' hl' hpc' hs =>
    refine ⟨.launched pre s₁.cmdLog c (haround ha') hl hl' hhand (handOf_none hpc'), ?_⟩
    rw [hs, hst, applyCalls_append]

theorem opens_launch {c : HwCommand} {cs : List Call} (hc : s.pc.cmd = some (.hardware c))
    (h : LaunchEnd c s s' cs) : Opens s s' true (some .worker) cs := by
  have hnone : s.cmdLog = [] ++ s.cmdLog := rfl
  have hsame : s.cmdState = applyCalls (completions []) s.cmdState := rfl
  exact opens_launchEnd ⟨rfl, rfl, rfl⟩ hnone hsame hc h

/-- The worker goes on with, or parks with, a command that is no HwCommand. -/
structure Parks (x : XCommand) (s s' : State) : Prop where
  around : Around s s'
  cmdLog : s'.cmdLog = s.cmdLog
  hand : handOf s'.pc = some (x, .inFlight)
  cmdState : s'.cmdState = s.cmdState

theorem parks_finish {x : XCommand} (hx : x.hw? = none) (s : State) :
    Parks x s (finishCmd x s) := by
  have hh : handOf (.completing x) = some (x, .inFlight) := handOf_other rfl hx nofun
  unfold finishCmd
  split <;> exact ⟨⟨rfl, rfl, rfl⟩, rfl, hh, rfl⟩

theorem parks_workerSync {x : XCommand} (hx : x.hw? = none) (t : SyncTarget) (s : State) :
    Parks x s (workerSync (finishCmd x) t (.ofCmd x) s) := by
  unfold workerSync
  cases syncLoop t s with
  | ret => exact parks_finish hx s
  | wait => exact ⟨⟨rfl, rfl, rfl⟩, rfl, handOf_other rfl hx nofun, rfl⟩
  | call =>
    obtain ⟨a, he, -⟩ := syncLaunched_eq (s := s) t
    rw [he]
    exact ⟨⟨rfl, rfl, rfl⟩, rfl, handOf_other rfl hx nofun, rfl⟩

theorem Parks.of_entry {x : XCommand} (t : SyncTarget) (h : Parks x (syncEntry t s) s') :
    Parks x s s' := by
  obtain ⟨a, he⟩ := syncEntry_eq (s := s) t
  rw [he] at h
  exact ⟨⟨h.around.cmds, h.around.nextId, h.around.enqueued⟩, h.cmdLog, h.hand, h.cmdState⟩

theorem opens_parks {x : XCommand} (hx : x.hw? = none) (hpc : s.pc.cmd = some x)
    (hg : s.pc ≠ .got x) (h : Parks x s s') : Opens s s' true (some .worker) [] :=
  ⟨.quiet _ _ h.around h.cmdLog (by rw [h.hand, handOf_other hpc hx hg]), h.cmdState⟩

/-- Trying a wait again, and what follows it. -/
theorem opens_retry {b : Bool} {t : SyncTarget} {r : SyncRet} (hok : r.Ok t)
    (hpc : s.pc.cmd = some r.cmd) (hg : s.pc ≠ .got r.cmd) :
    Opens s (workerSync (afterSync cfg b r) t r s) true (some .worker)
      (workerSyncCalls (afterSyncCalls cfg r) t s) := by
  cases r with
  | ofCmd x =>
    have hnil : workerSyncCalls (afterSyncCalls cfg (.ofCmd x)) t s = [] := by
      unfold workerSyncCalls; cases syncLoop t s <;> rfl
    rw [hnil]
    exact opens_parks hok.1 hpc hg (parks_workerSync hok.1 t s)
  | deactivatable c => exact opens_launch hpc (launchEnd_workerSync rfl (launchEnd_checkFull hpc b))
  | full c => exact opens_launch hpc (launchEnd_workerSync rfl (launchEnd_launchOrDrop b))

/-- A wait that ended with the pause count it began with. -/
theorem opens_synced {b : Bool} {t : SyncTarget} {r : SyncRet} (hok : r.Ok t)
    (hpc : s.pc.cmd = some r.cmd) (hg : s.pc ≠ .got r.cmd) :
    Opens s (afterSync cfg b r (syncFinish t s)) true (some .worker)
      (syncFinishCalls s t ++ afterSyncCalls cfg r (syncFinish t s)) := by
  obtain ⟨ha, hp, pre, hl, hcalls, hst⟩ := syncFinish_pops t s
  have hpc₁ : (syncFinish t s).pc.cmd = some r.cmd := by rw [hp]; exact hpc
  rw [hcalls]
  cases r with
  | ofCmd x =>
    have h := parks_finish hok.1 (syncFinish t s)
    have hcmds := h.around.cmds.trans ha.cmds
    refine ⟨?_, by rw [afterSyncCalls, List.append_nil, ← hst]; exact h.cmdState⟩
    rw [afterSyncCalls, List.append_nil]
    refine .popped true pre ⟨hcmds, h.around.nextId.trans ha.nextId,
      h.around.enqueued.trans ha.enqueued⟩ ?_ ?_
    · rw [hl]; exact congrArg (pre ++ ·) h.cmdLog.symm
    · rw [handOf_other hpc hok.1 hg]; exact h.hand
  | deactivatable c => exact opens_launchEnd ha hl hst hpc (launchEnd_checkFull hpc₁ b)
  | full c => exact opens_launchEnd ha hl hst hpc (launchEnd_launchOrDrop b)

theorem opens_generated {x : XCommand} (hx : x.hw? = none) (hid : x.id = s.nextId)
    (hpc : handOf s.pc = none) :
    Opens s (dequeueGenerated x s) true (some .cmdBuf) [(x, .pending)] := by
  refine ⟨.generated x hx hid rfl rfl rfl rfl hpc ?_, rfl⟩
  cases x <;> rfl

theorem opens_dequeue (hpc : s.pc = .dequeue) :
    Opens s (dequeue s) true (some .cmdBuf) (dequeueCalls s) := by
  have hh : handOf s.pc = none := by rw [hpc]; rfl
  unfold dequeue dequeueCalls dequeuePop
  cases hc : s.cmds with
  | cons x rest =>
    refine ⟨.dequeued x rest rfl rfl hc rfl rfl hh ?_, rfl⟩
    rfl
  | nil =>
    simp only
    cases hl : s.lastCmd with
    | xQueueWaitAll i =>
      simp only
      split
      · exact ⟨.quiet _ _ ⟨hc.symm, rfl, rfl⟩ rfl (by rw [hh]; rfl), rfl⟩
      · exact ⟨.quiet _ _ ⟨hc.symm, rfl, rfl⟩ rfl (by rw [hh]; rfl), rfl⟩
    | batchSynchronize i => exact opens_generated rfl rfl hh
    | _ => exact opens_generated rfl rfl hh

theorem opens_worker {b : Bool} (hok : PcOk s.pc) (h : stepWorker cfg b s = some s') :
    Opens s s' true (lockOf s (.worker b)) (calls cfg s (.worker b)) := by
  unfold stepWorker at h
  unfold lockOf calls workerCalls
  cases hpc : s.pc with
  | dequeue =>
    simp only [hpc, Option.some.injEq] at h; subst h
    exact opens_dequeue hpc
  | dequeueWait =>
    simp only [hpc, dequeuePop] at h
    cases hc : s.cmds with
    | nil => simp [hc] at h
    | cons x rest =>
      simp only [hc, Option.some.injEq] at h; subst h
      exact ⟨.dequeued x rest rfl rfl hc rfl rfl (by rw [hpc]; rfl) rfl, rfl⟩
  | got x =>
    cases x with
    | hardware c =>
      simp only [hpc, Option.some.injEq] at h; subst h
      exact ⟨.quiet _ _ ⟨rfl, rfl, rfl⟩ rfl (by rw [hpc]; rfl), rfl⟩
    | _ =>
      simp only [hpc, Option.some.injEq] at h; subst h
      exact ⟨.started _ ⟨rfl, rfl, rfl⟩ rfl (by rw [hpc]; rfl) rfl, rfl⟩
  | locking x =>
    have hcmd : s.pc.cmd = some x := by rw [hpc]; rfl
    have hg : s.pc ≠ .got x := by simp [hpc]
    cases x with
    | hardware c =>
      simp only [hpc, Option.some.injEq] at h; subst h
      exact opens_launch hcmd (launchEnd_launchHwCommand hcmd b)
    | batchSynchronize i =>
      simp only [hpc] at h
      split at h
      · simp only [Option.some.injEq] at h; subst h
        exact ⟨.left _ _ ⟨rfl, rfl, rfl⟩ rfl (handOf_other hcmd rfl hg) rfl, rfl⟩
      · simp only [Option.some.injEq] at h; subst h
        exact opens_parks rfl hcmd hg (.of_entry _ (parks_workerSync rfl _ _))
    | _ =>
      simp only [hpc, Option.some.injEq] at h; subst h
      exact opens_parks rfl hcmd hg (parks_workerSync rfl _ _)
  | launchWait c =>
    simp only [hpc, Option.some.injEq] at h; subst h
    have hcmd : s.pc.cmd = some (.hardware c) := by rw [hpc]; rfl
    exact opens_launch hcmd (launchEnd_pauseLoop hcmd b)
  | syncWait t r =>
    simp only [hpc, Option.some.injEq] at h; subst h
    rw [hpc] at hok
    exact opens_retry hok (by rw [hpc]; rfl) (by simp [hpc])
  | syncing call ph r =>
    rw [hpc] at hok
    cases ph with
    | unlocked =>
      simp only [hpc, Option.some.injEq] at h; subst h
      exact ⟨.quiet _ _ ⟨rfl, rfl, rfl⟩ rfl (by rw [hpc]; rfl), rfl⟩
    | called =>
      simp only [hpc, Option.some.injEq] at h; subst h
      exact ⟨.quiet _ _ ⟨rfl, rfl, rfl⟩ rfl (by rw [hpc]; rfl), rfl⟩
    | returned =>
      simp only [hpc] at h
      simp only
      split at h
      · rename_i hp
        simp only [Option.some.injEq] at h; subst h
        rw [if_pos hp]
        exact opens_synced hok (by rw [hpc]; rfl) (by simp [hpc])
      · rename_i hp
        simp only [Option.some.injEq] at h; subst h
        rw [if_neg hp]
        exact opens_retry hok (by rw [hpc]; rfl) (by simp [hpc])
  | completing x =>
    simp only [hpc, Option.some.injEq] at h; subst h
    rw [hpc] at hok
    have hcmd : s.pc.cmd = some x := by rw [hpc]; rfl
    have hhand := handOf_other hcmd hok (by simp [hpc])
    refine ⟨.completed x _ ⟨rfl, rfl, rfl⟩ rfl hhand ?_, rfl⟩
    cases x <;> rfl
  | exited => simp [hpc] at h

/-- A step of an application thread that completes nothing. -/
theorem opens_setApp {t : Nat} {p : AppPc} {l : Option Lock} {s₁ : State} (ha : Around s s₁)
    (hl : s₁.cmdLog = s.cmdLog) (hpc : s₁.pc = s.pc) (hst : s₁.cmdState = s.cmdState) :
    Opens s (setApp t p s₁) false l [] :=
  ⟨.quiet _ _ ⟨ha.cmds, ha.nextId, ha.enqueued⟩ hl (congrArg handOf hpc), hst⟩

theorem opens_appSync {t : Nat} {c : HwCommand} {l : Option Lock} (a : Bool) :
    Opens s (appSync t c { s with aborted := a }) false l [] := by
  unfold appSync
  split
  · exact opens_setApp ⟨rfl, rfl, rfl⟩ rfl rfl rfl
  · exact opens_setApp ⟨rfl, rfl, rfl⟩ rfl rfl rfl
  · exact opens_setApp ⟨rfl, rfl, rfl⟩ rfl rfl rfl

theorem opens_app {t : Nat} (h : stepApp t s = some s') :
    Opens s s' false (lockOf s (.app t)) (calls cfg s (.app t)) := by
  unfold stepApp at h
  simp only [lockOf, calls, appCalls]
  cases hpc : s.app t with
  | idle => simp [hpc] at h
  | waitCompleted c =>
    simp only [hpc] at h
    split at h
    · simp only [Option.some.injEq] at h; subst h
      exact opens_setApp ⟨rfl, rfl, rfl⟩ rfl rfl rfl
    · cases h
  | checkCompleted c =>
    simp only [hpc] at h
    split at h
    all_goals
      simp only [Option.some.injEq] at h; subst h
      exact opens_setApp ⟨rfl, rfl, rfl⟩ rfl rfl rfl
  | waitInFlight c =>
    simp only [hpc] at h
    split at h
    · simp only [Option.some.injEq] at h; subst h
      exact opens_setApp ⟨rfl, rfl, rfl⟩ rfl rfl rfl
    · cases h
  | locking c =>
    simp only [hpc, Option.some.injEq] at h; subst h
    obtain ⟨a, ha⟩ := syncEntry_eq (s := s) (.cmd c)
    rw [ha]
    exact opens_appSync a
  | syncWait c =>
    simp only [hpc, Option.some.injEq] at h; subst h
    exact opens_appSync s.aborted
  | syncing call ph c =>
    cases ph with
    | unlocked =>
      simp only [hpc, Option.some.injEq] at h; subst h
      exact opens_setApp ⟨rfl, rfl, rfl⟩ rfl rfl rfl
    | called =>
      simp only [hpc, Option.some.injEq] at h; subst h
      exact opens_setApp ⟨rfl, rfl, rfl⟩ rfl rfl rfl
    | returned =>
      simp only [hpc] at h
      simp only
      split at h
      · rename_i hp
        simp only [Option.some.injEq] at h; subst h
        obtain ⟨ha, hpc', pre, hl, hcalls, hst⟩ := syncFinish_pops (.cmd c) s
        rw [if_pos hp, hcalls]
        exact ⟨.popped _ pre ⟨ha.cmds, ha.nextId, ha.enqueued⟩ hl (congrArg handOf hpc'), hst⟩
      · rename_i hp
        simp only [Option.some.injEq] at h; subst h
        rw [if_neg hp]
        exact opens_appSync s.aborted

theorem opens_waitAll (s : State) :
    Opens s (enqueueXQueueWaitAllCommand s) false (some .cmdBuf) (calls cfg s .enqueueWaitAll) := by
  show Opens s _ false (some .cmdBuf) (enqueueWaitAllCalls s)
  unfold enqueueXQueueWaitAllCommand enqueueWaitAllCalls
  split
  · split <;> exact ⟨.quiet _ _ ⟨rfl, rfl, rfl⟩ rfl rfl, rfl⟩
  · split
    · exact ⟨.quiet _ _ ⟨rfl, rfl, rfl⟩ rfl rfl, rfl⟩
    · exact ⟨.waitAllFresh _ rfl rfl rfl rfl rfl rfl rfl, rfl⟩

def Act.isWorker : Act → Bool
  | .worker _ => true
  | _ => false

/-- Every step of the machine but an `Enqueue`. -/
theorem opens_step {a : Act} (hok : PcOk s.pc) (h : step cfg s a = some s')
    (ha : enqueues s a = none) :
    Opens s s' (Act.isWorker a) (lockOf s a) (calls cfg s a) := by
  unfold step at h
  split at h
  · cases h
  · cases a with
    | worker b => exact opens_worker hok h
    | app t => exact opens_app h
    | wait t c =>
      simp only [waitStart] at h
      split at h
      · simp only [Option.some.injEq] at h; subst h
        exact opens_setApp ⟨rfl, rfl, rfl⟩ rfl rfl rfl
      · cases h
    | submit c => cases ha
    | enqueueHostFunction => cases ha
    | enqueueDestroy => cases ha
    | enqueueWaitAll =>
      simp only [Option.some.injEq] at h; subst h
      exact opens_waitAll s
    | dropAll =>
      simp only [Option.some.injEq] at h; subst h
      rw [dropAll_eq]
      exact ⟨.droppedAll rfl rfl rfl rfl rfl, (applyCalls_completed _ _).symm⟩
    | pause =>
      simp only [Option.some.injEq] at h; subst h
      exact ⟨.quiet _ _ ⟨rfl, rfl, rfl⟩ rfl rfl, rfl⟩
    | resume =>
      simp only [Option.some.injEq] at h; subst h
      exact ⟨.quiet _ _ ⟨rfl, rfl, rfl⟩ rfl rfl, rfl⟩
    | resumeAndDrop d =>
      simp only [Option.some.injEq] at h; subst h
      rw [resumeAndDrop_eq]
      exact ⟨.popped _ s.cmdLog ⟨rfl, rfl, rfl⟩ (List.append_nil _).symm rfl,
        (applyCalls_completions _ _).symm⟩

/-- The step of the machine is the region with its calls made at once. -/
theorem calls_exact {a : Act} (hok : PcOk s.pc) (h : step cfg s a = some s') :
    s'.cmdState = applyCalls (calls cfg s a) s.cmdState := by
  cases ha : enqueues s a with
  | none => exact (opens_step hok h ha).2
  | some x =>
    unfold step at h
    split at h
    · cases h
    · cases a with
      | submit c =>
        simp only at h
        split at h
        · simp only [Option.some.injEq] at h; subst h; rfl
        · cases h
      | enqueueHostFunction => simp only [Option.some.injEq] at h; subst h; rfl
      | enqueueDestroy => simp only [Option.some.injEq] at h; subst h; rfl
      | _ => cases ha

end

end Xsched.Preempt.LifeCycle
