import Xsched.Preempt.Idle

/-!
# AsyncXQueue: Submit, Suspend and Resume over the launch machine

Any number of threads in `Submit` and any number in `Suspend` or `Resume`
around one launch machine. The atomic actions of a call are separate steps:
`Submit` takes its index, calls the HwQueue, enqueues and (for a blocking
submit) waits; `Suspend` and `Resume` win the compare-exchange on
`suspended_`, call the HwQueue, and change the launch worker. Whatever else
runs may run in between.

`terminate` is the first action of the destructor, after which it resumes
like any other caller and enqueues the XQueueDestroyCommand. The level is
fixed (`SetPreemptLevel` asks for a queue that is not in use).

The machine inside makes steps of `Preempt.lts` only (`machine_reachable`),
so every invariant of the launch machine holds here.
-/
namespace Xsched.Preempt

/-- `int64_t flags`; mirrors include/xsched/types.h:79-89 -/
abbrev Flags := BitVec 64

def kQueueSuspendFlagSyncHwQueue : Flags := 1
def kQueueResumeFlagDropCommands : Flags := 1

/-- The calls on the HwQueue; `empty` says that `Restore` and `Reactivate`
get an empty log instead of the in-flight log. -/
inductive HwQueueCall where
  | onXQueueSuspend | deactivate | interrupt | synchronize
  | beforeXQueueResume
  | restore (empty : Bool)
  | reactivate (empty : Bool)
  deriving DecidableEq, Repr

def XPreemptLevel.atLeast (level bound : XPreemptLevel) : Bool := decide (bound.val ≤ level.val)

/-- mirrors preempt/src/xqueue/async_xqueue.cpp:109-112 -/
def suspendCalls (level : XPreemptLevel) (flags : Flags) : List HwQueueCall :=
  [HwQueueCall.onXQueueSuspend] ++
  (if level.atLeast .deactivate then [HwQueueCall.deactivate] else []) ++
  (if level.atLeast .interrupt then [HwQueueCall.interrupt] else []) ++
  (if flags &&& kQueueSuspendFlagSyncHwQueue ≠ 0 then [HwQueueCall.synchronize] else [])

def dropsCommands (flags : Flags) : Bool := flags &&& kQueueResumeFlagDropCommands != 0

/-- Under `kPreemptLevelBlock` the flags are not looked at.
mirrors preempt/src/xqueue/async_xqueue.cpp:128-150 -/
def resumeCalls (level : XPreemptLevel) (flags : Flags) : List HwQueueCall :=
  [HwQueueCall.beforeXQueueResume] ++
  if level = .block then []
  else
    (if level.atLeast .interrupt then [HwQueueCall.restore (dropsCommands flags)] else []) ++
    (if level.atLeast .deactivate then [HwQueueCall.reactivate (dropsCommands flags)] else [])

/-- A thread in `Submit(hw_cmd)`.
mirrors preempt/src/xqueue/async_xqueue.cpp:47-54 -/
inductive SubmitPc where
  | idle
  | indexed (c : HwCommand)
  | hooked (c : HwCommand)
  | enqueued (c : HwCommand)
  deriving DecidableEq, Repr

/-- A command with an index that is not in the buffer yet. -/
def SubmitPc.pending : SubmitPc → Option HwCommand
  | .indexed c => some c
  | .hooked c => some c
  | _ => none

/-- A `Resume` call that won its compare-exchange. -/
structure ResumeCall where
  flags : Flags
  /-- ghost: the commands whose Submit had returned before the call -/
  before : List HwCommand
  deriving DecidableEq, Repr

def ResumeCall.drops (call : ResumeCall) : Bool := dropsCommands call.flags

/-- A thread in `Suspend` or `Resume`.
mirrors preempt/src/xqueue/async_xqueue.cpp:94-159 -/
inductive CtrlPc where
  | idle
  | suspendCas (flags : Flags)
  | suspendPause (flags : Flags)
  | suspendCalls (todo : List HwQueueCall)
  | resumeCalls (call : ResumeCall) (todo : List HwQueueCall)
  | resumeWorker (call : ResumeCall)
  | resumeDropAll (call : ResumeCall)
  | resumeDropIdx (call : ResumeCall)
  | resumeAndDrop (call : ResumeCall) (dropIdx : Int)
  deriving DecidableEq, Repr

structure AsyncXQueue where
  machine : State
  suspended : Bool
  terminated : Bool
  nextHwCmdIdx : Int
  submits : Nat → SubmitPc
  ctrls : Nat → CtrlPc
  /-- ghost: the HwCommands whose Submit has returned -/
  submitted : List HwCommand
  /-- ghost: those submitted before a drop-resume that has returned -/
  doomed : List HwCommand
  /-- ghost: those that took their index after the last drop-resume returned -/
  spared : List HwCommand
  /-- ghost: the threads inside a drop-resume -/
  dropping : List Nat

namespace AsyncXQueue

/-- The constructor waits for the first XQueueWaitAllCommand; the machine may
still be on its way there. -/
def init : AsyncXQueue where
  machine := Preempt.init
  suspended := false
  terminated := false
  nextHwCmdIdx := 1
  submits := fun _ => .idle
  ctrls := fun _ => .idle
  submitted := []
  doomed := []
  spared := []
  dropping := []

def setSubmit (t : Nat) (p : SubmitPc) (x : AsyncXQueue) : AsyncXQueue :=
  { x with submits := Function.update x.submits t p }

def setCtrl (t : Nat) (p : CtrlPc) (x : AsyncXQueue) : AsyncXQueue :=
  { x with ctrls := Function.update x.ctrls t p }

/-- A step of the machine below. -/
def onMachine (cfg : Config) (a : Act) (x : AsyncXQueue) : Option AsyncXQueue :=
  (step cfg x.machine a).map fun m => { x with machine := m }

/-! ## Submit -/

/-- `SetIdx(next_hw_cmd_idx_.fetch_add(1))` -/
def allocate (t : Nat) (props : XCommandProperties) (kind : HwCommandKind) (x : AsyncXQueue) :
    AsyncXQueue :=
  let c : HwCommand := ⟨x.nextHwCmdIdx, props, kind⟩
  setSubmit t (.indexed c)
    { x with nextHwCmdIdx := x.nextHwCmdIdx + 1,
             spared := if x.dropping = [] then x.spared ++ [c] else x.spared }

/-- The rest of `Submit` on thread `t`. -/
def stepSubmit (cfg : Config) (t : Nat) (x : AsyncXQueue) : Option AsyncXQueue :=
  match x.submits t with
  | .idle => none
  | .indexed c => some (setSubmit t (.hooked c) x)
  | .hooked c => (onMachine cfg (.submit c) x).map (setSubmit t (.enqueued c))
  | .enqueued c =>
    if c.getProps kCommandPropertyBlockingSubmit = 0 ∨ 2 ≤ (x.machine.cmdState (.hardware c)).val
    then some (setSubmit t .idle { x with submitted := x.submitted ++ [c] })
    else none

/-! ## Suspend and Resume -/

/-- `Suspend` returns at once on a terminated queue. -/
def suspendStart (t : Nat) (flags : Flags) (x : AsyncXQueue) : AsyncXQueue :=
  if x.terminated then x else setCtrl t (.suspendCas flags) x

/-- The compare-exchange of `Resume`, its first action. -/
def resumeCas (cfg : Config) (t : Nat) (flags : Flags) (x : AsyncXQueue) : AsyncXQueue :=
  if x.suspended then
    setCtrl t (.resumeCalls ⟨flags, x.submitted⟩ (Preempt.resumeCalls cfg.level flags))
      { x with suspended := false,
               spared := if dropsCommands flags then [] else x.spared,
               dropping := if dropsCommands flags then t :: x.dropping else x.dropping }
  else x

/-- What follows the HwQueue calls of `Resume`. -/
def resumeNext (cfg : Config) (call : ResumeCall) : CtrlPc :=
  if cfg.level = .block ∨ call.drops = false then .resumeWorker call else .resumeDropAll call

/-- `Resume` returns. -/
def resumeReturn (t : Nat) (call : ResumeCall) (x : AsyncXQueue) : AsyncXQueue :=
  setCtrl t .idle
    { x with doomed := if call.drops then x.doomed ++ call.before else x.doomed,
             dropping := x.dropping.filter (· ≠ t) }

/-- The rest of `Suspend` or `Resume` on thread `t`. -/
def stepCtrl (cfg : Config) (t : Nat) (x : AsyncXQueue) : Option AsyncXQueue :=
  match x.ctrls t with
  | .idle => none
  | .suspendCas flags =>
    if x.suspended then some (setCtrl t .idle x)
    else some (setCtrl t (.suspendPause flags) { x with suspended := true })
  | .suspendPause flags =>
    (onMachine cfg .pause x).map
      (setCtrl t (.suspendCalls (Preempt.suspendCalls cfg.level flags)))
  | .suspendCalls [] => some (setCtrl t .idle x)
  | .suspendCalls (_ :: todo) => some (setCtrl t (.suspendCalls todo) x)
  | .resumeCalls call [] => some (setCtrl t (resumeNext cfg call) x)
  | .resumeCalls call (_ :: todo) => some (setCtrl t (.resumeCalls call todo) x)
  | .resumeWorker call => (onMachine cfg .resume x).map (resumeReturn t call)
  | .resumeDropAll call => (onMachine cfg .dropAll x).map (setCtrl t (.resumeDropIdx call))
  | .resumeDropIdx call => some (setCtrl t (.resumeAndDrop call (x.nextHwCmdIdx - 1)) x)
  | .resumeAndDrop call d => (onMachine cfg (.resumeAndDrop d) x).map (resumeReturn t call)

/-! ## The queue -/

/-- `machine` is a step of the worker, of a thread in `Wait`, `WaitAll` or
`SubmitWaitAll`, or an enqueue that is not a Submit. -/
inductive XAct where
  | machine (a : Act)
  | submit (t : Nat) (props : XCommandProperties) (kind : HwCommandKind)
  | submitter (t : Nat)
  | suspend (t : Nat) (flags : Flags)
  | resume (t : Nat) (flags : Flags)
  | controller (t : Nat)
  | terminate
  deriving DecidableEq, Repr

/-- The machine steps that no Submit, Suspend or Resume makes; only the
destructor enqueues an XQueueDestroyCommand. -/
def direct (x : AsyncXQueue) : Act → Bool
  | .worker _ => true
  | .app _ => true
  | .wait _ _ => true
  | .enqueueHostFunction => true
  | .enqueueWaitAll => true
  | .enqueueDestroy => x.terminated
  | _ => false

def step (cfg : Config) (x : AsyncXQueue) (act : XAct) : Option AsyncXQueue :=
  if x.machine.aborted then none
  else
    match act with
    | .machine a => if x.direct a then onMachine cfg a x else none
    | .submit t props kind =>
      if x.submits t = .idle then some (allocate t props kind x) else none
    | .submitter t => stepSubmit cfg t x
    | .suspend t flags => if x.ctrls t = .idle then some (suspendStart t flags x) else none
    | .resume t flags => if x.ctrls t = .idle then some (resumeCas cfg t flags x) else none
    | .controller t => stepCtrl cfg t x
    | .terminate => some { x with terminated := true }

def lts (cfg : Config) : LTS AsyncXQueue XAct := LTS.ofFn (· = init) (step cfg)

/-! ## What a step can do -/

/-- A machine step whose function cannot fail, read off. -/
theorem machine_eq {cfg : Config} {s m : State} {a : Act} {f : State → State}
    (hf : ∀ s : State, s.aborted = false → Preempt.step cfg s a = some (f s))
    (h : (Preempt.lts cfg).step s a m) : m = f s := by
  have h' : Preempt.step cfg s a = some m := h
  cases hab : s.aborted with
  | false =>
    rw [hf s hab] at h'
    exact (Option.some.inj h').symm
  | true =>
    unfold Preempt.step at h'
    rw [if_pos hab] at h'
    cases h'

section
variable {cfg : Config} {s m : State}

theorem pause_eq (h : (Preempt.lts cfg).step s .pause m) : m = pause s :=
  machine_eq (fun s hab => by simp [Preempt.step, hab]) h

theorem resume_eq (h : (Preempt.lts cfg).step s .resume m) : m = resume s :=
  machine_eq (fun s hab => by simp [Preempt.step, hab]) h

theorem dropAll_eq (h : (Preempt.lts cfg).step s .dropAll m) : m = dropAll s :=
  machine_eq (fun s hab => by simp [Preempt.step, hab]) h

theorem resumeAndDrop_eq {d : Int} (h : (Preempt.lts cfg).step s (.resumeAndDrop d) m) :
    m = resumeAndDrop d s :=
  machine_eq (fun s hab => by simp [Preempt.step, hab]) h

end

/-- Every step, by the action made. -/
inductive Step (cfg : Config) (x : AsyncXQueue) : XAct → AsyncXQueue → Prop
  | machine (a : Act) (m : State) (hd : x.direct a)
      (hm : (Preempt.lts cfg).step x.machine a m) :
      Step cfg x (.machine a) { x with machine := m }
  | allocate (t : Nat) (props : XCommandProperties) (kind : HwCommandKind)
      (hpc : x.submits t = .idle) :
      Step cfg x (.submit t props kind) (allocate t props kind x)
  | hook (t : Nat) (c : HwCommand) (hpc : x.submits t = .indexed c) :
      Step cfg x (.submitter t) (setSubmit t (.hooked c) x)
  | enqueue (t : Nat) (c : HwCommand) (m : State) (hpc : x.submits t = .hooked c)
      (hm : (Preempt.lts cfg).step x.machine (.submit c) m) :
      Step cfg x (.submitter t) (setSubmit t (.enqueued c) { x with machine := m })
  | submitReturn (t : Nat) (c : HwCommand) (hpc : x.submits t = .enqueued c) :
      Step cfg x (.submitter t) (setSubmit t .idle { x with submitted := x.submitted ++ [c] })
  | skip (act : XAct) (hact : ∀ t, act ≠ .controller t) (ha : ∀ a, act ≠ .machine a) :
      Step cfg x act x
  | suspendStart (t : Nat) (flags : Flags) (hpc : x.ctrls t = .idle) :
      Step cfg x (.suspend t flags) (setCtrl t (.suspendCas flags) x)
  | suspendFail (t : Nat) (flags : Flags) (hpc : x.ctrls t = .suspendCas flags)
      (hs : x.suspended = true) : Step cfg x (.controller t) (setCtrl t .idle x)
  | suspendWin (t : Nat) (flags : Flags) (hpc : x.ctrls t = .suspendCas flags)
      (hs : x.suspended = false) :
      Step cfg x (.controller t) (setCtrl t (.suspendPause flags) { x with suspended := true })
  | pause (t : Nat) (flags : Flags) (m : State) (hpc : x.ctrls t = .suspendPause flags)
      (hm : (Preempt.lts cfg).step x.machine .pause m) :
      Step cfg x (.controller t)
        (setCtrl t (.suspendCalls (Preempt.suspendCalls cfg.level flags)) { x with machine := m })
  | suspendReturn (t : Nat) (hpc : x.ctrls t = .suspendCalls []) :
      Step cfg x (.controller t) (setCtrl t .idle x)
  | suspendCall (t : Nat) (f : HwQueueCall) (todo : List HwQueueCall)
      (hpc : x.ctrls t = .suspendCalls (f :: todo)) :
      Step cfg x (.controller t) (setCtrl t (.suspendCalls todo) x)
  | resumeWin (t : Nat) (flags : Flags) (hpc : x.ctrls t = .idle) (hs : x.suspended = true) :
      Step cfg x (.resume t flags)
        (setCtrl t (.resumeCalls ⟨flags, x.submitted⟩ (Preempt.resumeCalls cfg.level flags))
          { x with suspended := false,
                   spared := if dropsCommands flags then [] else x.spared,
                   dropping := if dropsCommands flags then t :: x.dropping else x.dropping })
  | resumeCall (t : Nat) (call : ResumeCall) (f : HwQueueCall) (todo : List HwQueueCall)
      (hpc : x.ctrls t = .resumeCalls call (f :: todo)) :
      Step cfg x (.controller t) (setCtrl t (.resumeCalls call todo) x)
  | resumeCalled (t : Nat) (call : ResumeCall) (hpc : x.ctrls t = .resumeCalls call []) :
      Step cfg x (.controller t) (setCtrl t (resumeNext cfg call) x)
  | resume (t : Nat) (call : ResumeCall) (m : State) (hpc : x.ctrls t = .resumeWorker call)
      (hm : (Preempt.lts cfg).step x.machine .resume m) :
      Step cfg x (.controller t) (resumeReturn t call { x with machine := m })
  | dropAll (t : Nat) (call : ResumeCall) (m : State) (hpc : x.ctrls t = .resumeDropAll call)
      (hm : (Preempt.lts cfg).step x.machine .dropAll m) :
      Step cfg x (.controller t) (setCtrl t (.resumeDropIdx call) { x with machine := m })
  | dropIdx (t : Nat) (call : ResumeCall) (hpc : x.ctrls t = .resumeDropIdx call) :
      Step cfg x (.controller t) (setCtrl t (.resumeAndDrop call (x.nextHwCmdIdx - 1)) x)
  | resumeAndDrop (t : Nat) (call : ResumeCall) (d : Int) (m : State)
      (hpc : x.ctrls t = .resumeAndDrop call d)
      (hm : (Preempt.lts cfg).step x.machine (.resumeAndDrop d) m) :
      Step cfg x (.controller t) (resumeReturn t call { x with machine := m })
  | terminate : Step cfg x .terminate { x with terminated := true }

variable {cfg : Config} {x x' : AsyncXQueue}

theorem onMachine_eq {a : Act} (h : onMachine cfg a x = some x') :
    ∃ m, (Preempt.lts cfg).step x.machine a m ∧ x' = { x with machine := m } := by
  obtain ⟨m, hm, he⟩ := Option.map_eq_some_iff.1 h
  exact ⟨m, hm, he.symm⟩

theorem stepSubmit_cases {t : Nat} (h : stepSubmit cfg t x = some x') :
    Step cfg x (.submitter t) x' := by
  unfold stepSubmit at h
  split at h
  · cases h
  · rename_i c hpc
    simp only [Option.some.injEq] at h; subst h
    exact .hook t c hpc
  · rename_i c hpc
    obtain ⟨x₁, h₁, rfl⟩ := Option.map_eq_some_iff.1 h
    obtain ⟨m, hm, rfl⟩ := onMachine_eq h₁
    exact .enqueue t c m hpc hm
  · rename_i c hpc
    split at h
    · simp only [Option.some.injEq] at h; subst h
      exact .submitReturn t c hpc
    · cases h

theorem stepCtrl_cases {t : Nat} (h : stepCtrl cfg t x = some x') :
    Step cfg x (.controller t) x' := by
  unfold stepCtrl at h
  cases hpc : x.ctrls t with
  | idle => simp [hpc] at h
  | suspendCas flags =>
    simp only [hpc] at h
    split at h
    · rename_i hs
      simp only [Option.some.injEq] at h; subst h
      exact .suspendFail t flags hpc hs
    · rename_i hs
      simp only [Option.some.injEq] at h; subst h
      exact .suspendWin t flags hpc (by simpa using hs)
  | suspendPause flags =>
    simp only [hpc] at h
    obtain ⟨x₁, h₁, rfl⟩ := Option.map_eq_some_iff.1 h
    obtain ⟨m, hm, rfl⟩ := onMachine_eq h₁
    exact .pause t flags m hpc hm
  | suspendCalls todo =>
    cases todo with
    | nil =>
      simp only [hpc, Option.some.injEq] at h; subst h
      exact .suspendReturn t hpc
    | cons f todo =>
      simp only [hpc, Option.some.injEq] at h; subst h
      exact .suspendCall t f todo hpc
  | resumeCalls call todo =>
    cases todo with
    | nil =>
      simp only [hpc, Option.some.injEq] at h; subst h
      exact .resumeCalled t call hpc
    | cons f todo =>
      simp only [hpc, Option.some.injEq] at h; subst h
      exact .resumeCall t call f todo hpc
  | resumeWorker call =>
    simp only [hpc] at h
    obtain ⟨x₁, h₁, rfl⟩ := Option.map_eq_some_iff.1 h
    obtain ⟨m, hm, rfl⟩ := onMachine_eq h₁
    exact .resume t call m hpc hm
  | resumeDropAll call =>
    simp only [hpc] at h
    obtain ⟨x₁, h₁, rfl⟩ := Option.map_eq_some_iff.1 h
    obtain ⟨m, hm, rfl⟩ := onMachine_eq h₁
    exact .dropAll t call m hpc hm
  | resumeDropIdx call =>
    simp only [hpc, Option.some.injEq] at h; subst h
    exact .dropIdx t call hpc
  | resumeAndDrop call d =>
    simp only [hpc] at h
    obtain ⟨x₁, h₁, rfl⟩ := Option.map_eq_some_iff.1 h
    obtain ⟨m, hm, rfl⟩ := onMachine_eq h₁
    exact .resumeAndDrop t call d m hpc hm

theorem step_cases {act : XAct} (h : (lts cfg).step x act x') :
    x.machine.aborted = false ∧ Step cfg x act x' := by
  have h' : step cfg x act = some x' := h
  unfold step at h'
  split at h'
  · cases h'
  · rename_i hab
    refine ⟨by simpa using hab, ?_⟩
    cases act with
    | machine a =>
      simp only at h'
      split at h'
      · rename_i hd
        obtain ⟨m, hm, rfl⟩ := onMachine_eq h'
        exact .machine a m hd hm
      · cases h'
    | submit t props kind =>
      simp only at h'
      split at h'
      · rename_i hpc
        simp only [Option.some.injEq] at h'; subst h'
        exact .allocate t props kind hpc
      · cases h'
    | submitter t => exact stepSubmit_cases h'
    | suspend t flags =>
      simp only at h'
      split at h'
      · rename_i hpc
        simp only [Option.some.injEq] at h'; subst h'
        unfold suspendStart
        split
        · exact .skip _ (fun t => nofun) fun a => nofun
        · exact .suspendStart t flags hpc
      · cases h'
    | resume t flags =>
      simp only at h'
      split at h'
      · rename_i hpc
        simp only [Option.some.injEq] at h'; subst h'
        unfold resumeCas
        split
        · rename_i hs; exact .resumeWin t flags hpc hs
        · exact .skip _ (fun t => nofun) fun a => nofun
      · cases h'
    | controller t => exact stepCtrl_cases h'
    | terminate =>
      simp only [Option.some.injEq] at h'; subst h'
      exact .terminate

theorem step_of_lts {act : XAct} (h : (lts cfg).step x act x') : Step cfg x act x' :=
  (step_cases h).2

/-- The step of the machine below, if there is one. -/
theorem Step.machine_step {act : XAct} (h : Step cfg x act x') :
    x'.machine = x.machine ∨ ∃ a, (Preempt.lts cfg).step x.machine a x'.machine := by
  cases h with
  | machine a m hd hm => exact .inr ⟨a, hm⟩
  | enqueue t c m hpc hm => exact .inr ⟨_, hm⟩
  | pause t flags m hpc hm => exact .inr ⟨_, hm⟩
  | resume t call m hpc hm => exact .inr ⟨_, hm⟩
  | dropAll t call m hpc hm => exact .inr ⟨_, hm⟩
  | resumeAndDrop t call d m hpc hm => exact .inr ⟨_, hm⟩
  | _ => exact .inl rfl

/-- **Refinement.** The machine inside a reachable queue is reachable. -/
theorem machine_reachable (hr : (lts cfg).Reachable x) : (Preempt.lts cfg).Reachable x.machine := by
  refine LTS.reachable_map machine ?_ ?_ hr
  · rintro x rfl; rfl
  · exact fun x act x' _ hs => (step_of_lts hs).machine_step

/-! ## WaitAll -/

/-- The enqueue of `SubmitWaitAll` and `WaitAll`, with the command to wait for;
without one the process has aborted.
mirrors preempt/src/xqueue/async_xqueue.cpp:56-65 -/
def submitWaitAll (cfg : Config) (x : AsyncXQueue) : Option (AsyncXQueue × XCommand) :=
  (step cfg x (.machine .enqueueWaitAll)).bind fun x' =>
    (x'.machine.waitAlls[x.machine.waitAlls.length]?).map fun e => (x', e.1)

/-- It hands out `last_cmd_` or a new command, for all that was enqueued. -/
theorem submitWaitAll_cases {w : XCommand} (h : submitWaitAll cfg x = some (x', w)) :
    (lts cfg).step x (.machine .enqueueWaitAll) x' ∧
      x'.machine.waitAlls = x.machine.waitAlls ++ [(w, x.machine.enqueued)] ∧
      (x.machine.lastCmd.isWaitAll ∧ w = x.machine.lastCmd ∨
        ¬ x.machine.lastCmd.isWaitAll ∧ x'.machine.cmdState w = .pending) := by
  obtain ⟨x₁, hs, hx⟩ := Option.bind_eq_some_iff.1 h
  obtain ⟨e, he, hpair⟩ := Option.map_eq_some_iff.1 hx
  cases hpair
  refine ⟨hs, ?_⟩
  cases step_of_lts hs with
  | machine _ m hd hm =>
    have hm' : m = enqueueXQueueWaitAllCommand x.machine :=
      machine_eq (fun s hab => by simp [Preempt.step, hab]) hm
    have hcases : Preempt.Step x.machine .enqueueWaitAll m := by
      rw [hm']; exact enqueueWaitAll_cases x.machine
    cases hcases with
    | enqueueOther _ y hy => rcases hy with ⟨hy, -⟩ | ⟨hy, -⟩ <;> cases hy
    | waitAllShared hl =>
      rw [List.getElem?_concat_length] at he
      cases he
      exact ⟨rfl, .inl ⟨hl, rfl⟩⟩
    | waitAllAbort hq hl =>
      have hnone : x.machine.waitAlls[x.machine.waitAlls.length]? = some e := he
      rw [List.getElem?_eq_none (Nat.le_refl _)] at hnone
      cases hnone
    | waitAllFresh hq hl =>
      rw [List.getElem?_concat_length] at he
      cases he
      exact ⟨rfl, .inr ⟨hl, Function.update_self _ _ _⟩⟩
  | skip _ hact ha => exact absurd rfl (ha _)

end AsyncXQueue
end Xsched.Preempt
