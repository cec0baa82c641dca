import Xsched.Preempt.Keeping

/-!
# The executor: one thread that suspends, resumes and configures

A client process: its XQueues, each with a configuration of its own, and the
scheduler thread, which takes one operation after another. A SchedOperation
resumes and suspends queues; a ConfigOperation changes the level and the
launch configuration of a queue, each behind a `WaitAll`. Application threads
submit commands and wait for them.

Only the scheduler thread resumes a queue. If it waits for a suspended one
that still has something to do, it waits for itself. `WaitsAwake` is the
condition under which it does not: where it calls `WaitAll` the queue is not
suspended, or the queue is done and `WaitAll` returns at once
(`executor_not_stuck`). Nothing in the code provides for it
(`executor_stuck`); `XQueueManager::Del` resumes the queue first.
-/
namespace Xsched.Preempt
open AsyncXQueue (XAct QueueInv keepingAct submitWaitAll_frame kQueueResumeFlagNone
  kQueueSuspendFlagNone)

/-- `level` is none for kPreemptLevelUnknown, "no change".
mirrors sched/include/xsched/sched/protocol/operation.h:56-122 -/
inductive Operation where
  | sched (running suspended : List Nat)
  | config (i : Nat) (level : Option XPreemptLevel) (threshold batchSize : Int)
  deriving DecidableEq, Repr

/-- Where the scheduler thread is. -/
inductive ExecutorPc where
  | receive
  | sched (running suspended : List Nat)
  | inCall (i : Nat) (running suspended : List Nat)
  | config (i : Nat) (level : Option XPreemptLevel) (threshold batchSize : Int)
  | waitLevel (i : Nat) (level : XPreemptLevel) (threshold batchSize : Int) (w : XCommand)
  | launchConfig (i : Nat) (threshold batchSize : Int)
  | waitLaunchConfig (i : Nat) (new : Config) (w : XCommand)

/-- What the thread waits for inside `WaitAll`. -/
def ExecutorPc.waits : ExecutorPc → Option (Nat × XCommand)
  | .waitLevel i _ _ _ w => some (i, w)
  | .waitLaunchConfig i _ w => some (i, w)
  | _ => none

/-- What the HwQueues support, and `XSCHED_SYNC_SUSPEND`. -/
structure ClientEnv where
  supportDynamicLevel : Nat → Bool
  maxSupportedLevel : Nat → XPreemptLevel
  syncSuspend : Bool

structure Client where
  xq : Nat → AsyncXQueue
  cfg : Nat → Config
  /-- the keys of the manager's map -/
  xqs : List Nat
  executor : ExecutorPc

inductive ClientAct where
  | xQueueCreate (i : Nat) (cfg : Config)
  | receive (op : Operation)
  | executor
  | xq (i : Nat) (act : XAct)

/-- The threshold or batch size to set; values below 1 leave it as it is. -/
def newValue (old : Nat) (v : Int) : Nat := if v ≤ 0 then old else v.toNat

theorem newValue_pos {old : Nat} (h : 0 < old) (v : Int) : 0 < newValue old v := by
  unfold newValue
  split <;> omega

/-- None where the assertion on threshold and batch size fails.
mirrors preempt/src/xqueue/async_xqueue.cpp:185-208 -/
def launchConfig (cfg : Config) (threshold batchSize : Int) : Option Config :=
  if h : newValue cfg.batchSize batchSize ≤ newValue cfg.threshold threshold then
    some ⟨cfg.level, _, _, h, newValue_pos cfg.batch_pos batchSize⟩
  else none

namespace Client

/-- The scheduler thread among those that suspend and resume. -/
def schedThread : Nat := 0

/-- mirrors preempt/src/sched/executor.cpp:57-61 -/
def suspendFlags (env : ClientEnv) : Flags :=
  if env.syncSuspend then kQueueSuspendFlagNone ||| kQueueSuspendFlagSyncHwQueue
  else kQueueSuspendFlagNone

def setXq (i : Nat) (x : AsyncXQueue) (p : Client) : Client :=
  { p with xq := Function.update p.xq i x }

def setCfg (i : Nat) (cfg : Config) (p : Client) : Client :=
  { p with cfg := Function.update p.cfg i cfg }

/-- A step of queue `i`, on some thread. -/
def onXq (i : Nat) (act : XAct) (p : Client) : Option Client :=
  (AsyncXQueue.step (p.cfg i) (p.xq i) act).map fun x => setXq i x p

/-- `SetPreemptLevel` gets as far as `WaitAll`.
mirrors preempt/src/xqueue/xqueue.cpp:271-284 and
preempt/src/xqueue/async_xqueue.cpp:161-178 -/
def setsLevel (env : ClientEnv) (p : Client) (i : Nat) (level : XPreemptLevel) : Bool :=
  decide (i ∈ p.xqs) && env.supportDynamicLevel i &&
    decide (level.val ≤ (env.maxSupportedLevel i).val)

/-- `SetLaunchConfig` gets as far as its checks.
mirrors preempt/src/sched/executor.cpp:82-88 and preempt/src/xqueue/xqueue.cpp:286-306 -/
def setsLaunchConfig (p : Client) (i : Nat) (threshold batchSize : Int) : Bool :=
  decide (i ∈ p.xqs) && (decide (0 < threshold) || decide (0 < batchSize))

/-- `WaitAll` on queue `i`, up to the wait. -/
def waitAll (i : Nat) (pc : XCommand → ExecutorPc) (p : Client) : Option Client :=
  (AsyncXQueue.submitWaitAll (p.cfg i) (p.xq i)).map fun (x, w) =>
    { setXq i x p with executor := pc w }

/-- The next step of the scheduler thread.
mirrors preempt/src/sched/executor.cpp:25-89 and
preempt/src/xqueue/async_xqueue.cpp:161-216 -/
def stepExecutor (env : ClientEnv) (p : Client) : Option Client :=
  match p.executor with
  | .receive => none
  | .sched [] [] => some { p with executor := .receive }
  | .sched (i :: running) suspended =>
    if i ∈ p.xqs then
      (onXq i (.resume schedThread kQueueResumeFlagNone) p).map fun p =>
        { p with executor := .inCall i running suspended }
    else some { p with executor := .sched running suspended }
  | .sched [] (i :: suspended) =>
    if i ∈ p.xqs then
      (onXq i (.suspend schedThread (suspendFlags env)) p).map fun p =>
        { p with executor := .inCall i [] suspended }
    else some { p with executor := .sched [] suspended }
  | .inCall i running suspended =>
    if (p.xq i).ctrls schedThread = .idle then some { p with executor := .sched running suspended }
    else onXq i (.controller schedThread) p
  | .config i none threshold batchSize =>
    some { p with executor := .launchConfig i threshold batchSize }
  | .config i (some level) threshold batchSize =>
    if setsLevel env p i level then waitAll i (.waitLevel i level threshold batchSize) p
    else some { p with executor := .launchConfig i threshold batchSize }
  | .waitLevel i level threshold batchSize w =>
    if (p.xq i).machine.cmdState w = .completed then
      some { setCfg i { p.cfg i with level := level } p with
        executor := .launchConfig i threshold batchSize }
    else none
  | .launchConfig i threshold batchSize =>
    if setsLaunchConfig p i threshold batchSize then
      (launchConfig (p.cfg i) threshold batchSize).bind fun new =>
        waitAll i (.waitLaunchConfig i new) p
    else some { p with executor := .receive }
  | .waitLaunchConfig i new w =>
    if (p.xq i).machine.cmdState w = .completed then
      some { setCfg i new p with executor := .receive }
    else none

/-- The steps of application threads and of the launch worker. -/
def appAct : XAct → Bool
  | .machine (.worker _) => true
  | .machine (.app _) => true
  | .machine (.wait _ _) => true
  | .machine .enqueueWaitAll => true
  | .submit _ _ _ => true
  | .submitter _ => true
  | _ => false

def step (env : ClientEnv) (p : Client) : ClientAct → Option Client
  | .xQueueCreate i cfg =>
    if i ∈ p.xqs then none else some (setCfg i cfg { p with xqs := p.xqs ++ [i] })
  | .receive op =>
    match p.executor, op with
    | .receive, .sched running suspended =>
      some { p with executor := .sched running suspended }
    | .receive, .config i level threshold batchSize =>
      some { p with executor := .config i level threshold batchSize }
    | _, _ => none
  | .executor => stepExecutor env p
  | .xq i act => if appAct act ∧ i ∈ p.xqs then onXq i act p else none

/-- Threshold and batch size of a queue before it is created. -/
def noConfig : Config := ⟨.block, 1, 1, Nat.one_pos, Nat.one_pos⟩

def init : Client where
  xq := fun _ => AsyncXQueue.init
  cfg := fun _ => noConfig
  xqs := []
  executor := .receive

def lts (env : ClientEnv) : LTS Client ClientAct := LTS.ofFn (· = init) (step env)

/-! ## The condition -/

/-- The queue that the scheduler thread is about to call `WaitAll` on. -/
def waitsOn (env : ClientEnv) (p : Client) : Option Nat :=
  match p.executor with
  | .config i (some level) _ _ => if setsLevel env p i level then some i else none
  | .launchConfig i threshold batchSize =>
    if setsLaunchConfig p i threshold batchSize then some i else none
  | _ => none

/-- `WaitAll` returns at once: `last_cmd_` is a Completed XQueueWaitAllCommand. -/
def Done (x : AsyncXQueue) : Prop :=
  x.machine.lastCmd.isWaitAll ∧ x.machine.cmdState x.machine.lastCmd = .completed

instance (x : AsyncXQueue) : Decidable (Done x) := inferInstanceAs (Decidable (_ ∧ _))

/-- The scheduler thread calls `WaitAll` on a suspended queue only if the queue
is done. -/
def WaitsAwake (env : ClientEnv) (p : Client) : ClientAct → Prop
  | .executor => ∀ i, waitsOn env p = some i → (p.xq i).suspended = true → Done (p.xq i)
  | _ => True

/-- The scheduler thread is blocked in `WaitAll` on a suspended queue with an
incomplete HwCommand. -/
def Stuck (p : Client) : Prop :=
  ∃ i w, p.executor.waits = some (i, w) ∧ (p.xq i).machine.cmdState w ≠ .completed ∧
    (p.xq i).suspended = true ∧
    ∃ c ∈ (p.xq i).machine.enqueued, (p.xq i).machine.cmdState (.hardware c) ≠ .completed

section
variable {cfg : Config} {x x' : AsyncXQueue} {act : XAct}

/-- Application threads and the launch worker do not change `suspended_`. -/
theorem app_suspended (hact : appAct act = true) (h : AsyncXQueue.Step cfg x act x') :
    x'.suspended = x.suspended := by
  cases h with
  | suspendWin t flags hpc hs => cases hact
  | resumeWin t flags hpc hs => cases hact
  | _ => rfl

theorem app_keeping (hact : appAct act = true) : keepingAct act := by
  cases act with
  | resume t flags => cases hact
  | _ => trivial

end

/-! ## What a step can do -/

/-- Every step: a step of one queue, by an application thread or in a call of
the scheduler thread; `WaitAll` up to the wait; or none of a queue. -/
inductive Move (env : ClientEnv) (p : Client) : ClientAct → Client → Prop
  | app (i : Nat) (act : XAct) (x : AsyncXQueue) (hact : appAct act = true)
      (hs : AsyncXQueue.Step (p.cfg i) (p.xq i) act x) : Move env p (.xq i act) (setXq i x p)
  | call (i : Nat) (act : XAct) (x : AsyncXQueue) (pc : ExecutorPc) (hact : keepingAct act)
      (hs : AsyncXQueue.Step (p.cfg i) (p.xq i) act x) (hpc : pc.waits = none)
      (hon : waitsOn env p = none) :
      Move env p .executor { setXq i x p with executor := pc }
  | waitAll (i : Nat) (x : AsyncXQueue) (w : XCommand) (pc : ExecutorPc)
      (hs : AsyncXQueue.submitWaitAll (p.cfg i) (p.xq i) = some (x, w))
      (hpc : pc.waits = some (i, w)) (hon : waitsOn env p = some i) :
      Move env p .executor { setXq i x p with executor := pc }
  | other (act : ClientAct) (p' : Client) (hxq : p'.xq = p.xq)
      (hpc : p'.executor = p.executor ∨ p'.executor.waits = none)
      (hon : act = .executor → waitsOn env p = none) : Move env p act p'

section
variable {env : ClientEnv} {p p' : Client}

theorem onXq_eq {i : Nat} {act : XAct} (h : onXq i act p = some p') :
    ∃ x, AsyncXQueue.Step (p.cfg i) (p.xq i) act x ∧ p' = setXq i x p := by
  obtain ⟨x, hx, rfl⟩ := Option.map_eq_some_iff.1 h
  exact ⟨x, AsyncXQueue.step_of_lts hx, rfl⟩

theorem waitAll_eq {i : Nat} {pc : XCommand → ExecutorPc} (h : waitAll i pc p = some p') :
    ∃ x w, AsyncXQueue.submitWaitAll (p.cfg i) (p.xq i) = some (x, w) ∧
      p' = { setXq i x p with executor := pc w } := by
  obtain ⟨⟨x, w⟩, hx, rfl⟩ := Option.map_eq_some_iff.1 h
  exact ⟨x, w, hx, rfl⟩

theorem call_move {i : Nat} {act : XAct} {pc : ExecutorPc} (hact : keepingAct act)
    (hpc : pc.waits = none) (hon : waitsOn env p = none)
    (h : (onXq i act p).map (fun p => { p with executor := pc }) = some p') :
    Move env p .executor p' := by
  obtain ⟨p₁, h₁, rfl⟩ := Option.map_eq_some_iff.1 h
  obtain ⟨x, hs, rfl⟩ := onXq_eq h₁
  exact .call i act x pc hact hs hpc hon

theorem stepExecutor_cases (h : stepExecutor env p = some p') : Move env p .executor p' := by
  unfold stepExecutor at h
  split at h
  · cases h
  · rename_i hpc
    cases h
    exact .other _ _ rfl (.inr rfl) fun _ => by rw [waitsOn, hpc]
  · rename_i i running suspended hpc
    have hon : waitsOn env p = none := by rw [waitsOn, hpc]
    split at h
    · exact call_move AsyncXQueue.resume_keeping rfl hon h
    · cases h
      exact .other _ _ rfl (.inr rfl) fun _ => hon
  · rename_i i suspended hpc
    have hon : waitsOn env p = none := by rw [waitsOn, hpc]
    split at h
    · exact call_move (AsyncXQueue.suspend_keeping _ _) rfl hon h
    · cases h
      exact .other _ _ rfl (.inr rfl) fun _ => hon
  · rename_i i running suspended hpc
    have hon : waitsOn env p = none := by rw [waitsOn, hpc]
    split at h
    · cases h
      exact .other _ _ rfl (.inr rfl) fun _ => hon
    · obtain ⟨x, hs, rfl⟩ := onXq_eq h
      have hw : p.executor.waits = none := by rw [hpc]; rfl
      exact .call i _ x p.executor (AsyncXQueue.controller_keeping _) hs hw hon
  · rename_i i threshold batchSize hpc
    cases h
    exact .other _ _ rfl (.inr rfl) fun _ => by rw [waitsOn, hpc]
  · rename_i i level threshold batchSize hpc
    split at h
    · rename_i hset
      obtain ⟨x, w, hs, rfl⟩ := waitAll_eq h
      refine .waitAll i x w _ hs rfl ?_
      rw [waitsOn, hpc]
      exact if_pos hset
    · rename_i hset
      cases h
      refine .other _ _ rfl (.inr rfl) fun _ => ?_
      rw [waitsOn, hpc]
      exact if_neg hset
  · rename_i i level threshold batchSize w hpc
    split at h
    · cases h
      exact .other _ _ rfl (.inr rfl) fun _ => by rw [waitsOn, hpc]
    · cases h
  · rename_i i threshold batchSize hpc
    split at h
    · rename_i hset
      obtain ⟨new, hnew, h⟩ := Option.bind_eq_some_iff.1 h
      obtain ⟨x, w, hs, rfl⟩ := waitAll_eq h
      refine .waitAll i x w _ hs rfl ?_
      rw [waitsOn, hpc]
      exact if_pos hset
    · rename_i hset
      cases h
      refine .other _ _ rfl (.inr rfl) fun _ => ?_
      rw [waitsOn, hpc]
      exact if_neg hset
  · rename_i i new w hpc
    split at h
    · cases h
      exact .other _ _ rfl (.inr rfl) fun _ => by rw [waitsOn, hpc]
    · cases h

theorem step_cases {act : ClientAct} (h : (lts env).step p act p') : Move env p act p' := by
  have h' : step env p act = some p' := h
  cases act with
  | xQueueCreate i cfg =>
    change (if i ∈ p.xqs then none else some _) = some p' at h'
    split at h'
    · cases h'
    · cases h'
      exact .other _ _ rfl (.inl rfl) nofun
  | receive op =>
    simp only [step] at h'
    split at h'
    · rename_i heq
      cases h'
      exact .other _ _ rfl (.inr rfl) nofun
    · cases h'
      exact .other _ _ rfl (.inr rfl) nofun
    · cases h'
  | executor => exact stepExecutor_cases h'
  | xq i act =>
    change (if appAct act ∧ i ∈ p.xqs then onXq i act p else none) = some p' at h'
    split at h'
    · rename_i hact
      obtain ⟨x, hs, rfl⟩ := onXq_eq h'
      exact .app i act x hact.1 hs
    · cases h'

theorem setXq_self (i : Nat) (x : AsyncXQueue) : (setXq i x p).xq i = x := by
  simp only [setXq, Function.update_self]

theorem setXq_of_ne {i j : Nat} (h : j ≠ i) (x : AsyncXQueue) : (setXq i x p).xq j = p.xq j := by
  simp only [setXq, Function.update_of_ne h]

/-! ## The executor is not stuck -/

/-- What holds of every queue holds after queue `i` has moved. -/
theorem queueInv_setXq {i : Nat} {act : XAct} {x : AsyncXQueue} (hact : keepingAct act)
    (hq : ∀ j, QueueInv (p.xq j)) (hs : AsyncXQueue.Step (p.cfg i) (p.xq i) act x) :
    ∀ j, QueueInv ((setXq i x p).xq j) := by
  intro j
  rcases eq_or_ne j i with rfl | hne
  · rw [setXq_self]; exact AsyncXQueue.queueInv_step hact (hq j) hs
  · rw [setXq_of_ne hne]; exact hq j

theorem queues_step {act : ClientAct} (hq : ∀ i, QueueInv (p.xq i)) (h : Move env p act p') :
    ∀ i, QueueInv (p'.xq i) := by
  cases h with
  | app i act x hact hs => exact queueInv_setXq (app_keeping hact) hq hs
  | call i act x pc hact hs hpc hon => exact queueInv_setXq hact hq hs
  | waitAll i x w pc hs hpc hon =>
    have hstep := (AsyncXQueue.submitWaitAll_cases hs).1
    exact queueInv_setXq (AsyncXQueue.machine_keeping _) hq (AsyncXQueue.step_of_lts hstep)
  | other act p' hxq hpc hon => rw [hxq]; exact hq

theorem queues_reachable (hr : (lts env).Reachable p) : ∀ i, QueueInv (p.xq i) := by
  refine LTS.Inductive.reachable (I := fun p => ∀ i, QueueInv (p.xq i)) ⟨?_, ?_⟩ p hr
  · rintro p rfl i; exact AsyncXQueue.queueInv_init
  · exact fun p act p' hq hs => queues_step hq (step_cases hs)

/-- The scheduler thread waits for what `WaitAll` handed out; on a suspended
queue that is Completed. -/
def AwakeInv (p : Client) : Prop :=
  ∀ i w, p.executor.waits = some (i, w) →
    (∃ pre, (w, pre) ∈ (p.xq i).machine.waitAlls) ∧
      ((p.xq i).suspended = true → (p.xq i).machine.cmdState w = .completed)

theorem awakeInv_step {act : ClientAct} (hq : ∀ i, QueueInv (p.xq i)) (ha : AwakeInv p)
    (h : Move env p act p') (hok : WaitsAwake env p act) : AwakeInv p' := by
  intro i w hw
  cases h with
  | app j act x hact hs =>
    obtain ⟨⟨pre, hpre⟩, hsus⟩ := ha i w hw
    rcases eq_or_ne i j with rfl | hne
    · obtain ⟨hmem, hstay⟩ := (hq i).waits hs hpre
      rw [setXq_self]
      refine ⟨⟨pre, hmem⟩, fun hs' => hstay (hsus ?_)⟩
      rw [← app_suspended hact hs]; exact hs'
    · rw [setXq_of_ne hne]
      exact ⟨⟨pre, hpre⟩, hsus⟩
  | call j act x pc hact hs hpc hon => rw [hpc] at hw; cases hw
  | waitAll j x w' pc hs hpc hon =>
    rw [hpc] at hw
    cases hw
    obtain ⟨hstep, hall, hlast⟩ := AsyncXQueue.submitWaitAll_cases hs
    change (∃ pre, (w, pre) ∈ ((setXq i x p).xq i).machine.waitAlls) ∧
      (((setXq i x p).xq i).suspended = true → ((setXq i x p).xq i).machine.cmdState w = .completed)
    rw [setXq_self]
    have hmem : (w, (p.xq i).machine.enqueued) ∈ x.machine.waitAlls := by
      rw [hall]; exact List.mem_append_right _ List.mem_cons_self
    refine ⟨⟨_, hmem⟩, fun hsus => ?_⟩
    obtain ⟨hsame, -, -, hshared⟩ := submitWaitAll_frame hs
    rw [hsame] at hsus
    obtain ⟨hlastAll, hdone⟩ := hok i hon hsus
    rcases hlast with ⟨-, rfl⟩ | ⟨hnot, -⟩
    · rw [hshared hlastAll]; exact hdone
    · exact absurd hlastAll hnot
  | other act p' hxq hpc hon =>
    rcases hpc with hpc | hpc
    · rw [hpc] at hw
      rw [hxq]
      exact ha i w hw
    · rw [hpc] at hw; cases hw

theorem awakeInv_reachable (hr : ((lts env).restrict (WaitsAwake env)).Reachable p) :
    AwakeInv p := by
  refine LTS.reachable_induction (I := AwakeInv) ?_ ?_ hr
  · rintro p rfl i w hw; cases hw
  · intro p act p' hr ha hs
    exact awakeInv_step (queues_reachable hr.of_restrict) ha (step_cases hs.1) hs.2

/-- A wait for a Completed command ends with the next step. -/
theorem wait_ends {i : Nat} {w : XCommand} (hw : p.executor.waits = some (i, w))
    (hdone : (p.xq i).machine.cmdState w = .completed) : ∃ p', (lts env).step p .executor p' := by
  cases hpc : p.executor with
  | waitLevel j level threshold batchSize w' =>
    rw [hpc] at hw
    cases hw
    have hsome : (stepExecutor env p).isSome := by simp [stepExecutor, hpc, hdone]
    exact Option.isSome_iff_exists.1 hsome
  | waitLaunchConfig j new w' =>
    rw [hpc] at hw
    cases hw
    have hsome : (stepExecutor env p).isSome := by simp [stepExecutor, hpc, hdone]
    exact Option.isSome_iff_exists.1 hsome
  | _ => rw [hpc] at hw; cases hw

/-- `WaitAll` on a suspended queue with an incomplete HwCommand blocks. -/
theorem waitAll_stuck {i : Nat} {c : HwCommand} (hr : (lts env).Reachable p)
    (hs : (lts env).step p .executor p') (hon : waitsOn env p = some i)
    (hsus : (p.xq i).suspended = true) (hc : c ∈ (p.xq i).machine.enqueued)
    (hopen : (p.xq i).machine.cmdState (.hardware c) ≠ .completed) : Stuck p' := by
  have hq := queues_reachable (hr.step hs) i
  cases step_cases hs with
  | call j act x pc hact hstep hpc hnone => rw [hnone] at hon; cases hon
  | other act p' hxq hpc hnone => rw [hnone rfl] at hon; cases hon
  | waitAll j x w pc hw hpc hsome =>
    obtain rfl : j = i := Option.some.inj (hsome.symm.trans hon)
    obtain ⟨hstep, hall, -⟩ := AsyncXQueue.submitWaitAll_cases hw
    obtain ⟨hsame, henq, hhw, -⟩ := submitWaitAll_frame hw
    have hx : ({ setXq j x p with executor := pc } : Client).xq j = x := setXq_self j x
    rw [hx] at hq
    refine ⟨j, w, hpc, ?_, ?_, c, ?_, ?_⟩
    · rw [hx]
      intro hdone
      have hmem : (w, (p.xq j).machine.enqueued) ∈ x.machine.waitAlls := by
        rw [hall]; exact List.mem_append_right _ List.mem_cons_self
      have hcov := waitAll_covers hq.machine hmem hdone c hc
      rw [hhw] at hcov
      exact hopen hcov
    · rw [hx, hsame]; exact hsus
    · rw [hx, henq]; exact hc
    · rw [hx, hhw]; exact hopen

end

/-- **The executor is not stuck** while it calls `WaitAll` on suspended queues
only when they are done: on a suspended queue its wait is over at once. A call
on a suspended queue with an incomplete HwCommand leaves it stuck. -/
theorem executor_not_stuck (env : ClientEnv) :
    (∀ p, ((lts env).restrict (WaitsAwake env)).Reachable p → ¬ Stuck p ∧
      ∀ i w, p.executor.waits = some (i, w) → (p.xq i).suspended = true →
        ∃ p', (lts env).step p .executor p') ∧
    ∀ p p' i c, (lts env).Reachable p → (lts env).step p .executor p' →
      waitsOn env p = some i → (p.xq i).suspended = true → c ∈ (p.xq i).machine.enqueued →
        (p.xq i).machine.cmdState (.hardware c) ≠ .completed → Stuck p' := by
  refine ⟨fun p hr => ⟨?_, fun i w hw hsus => ?_⟩, fun p p' i c hr hs hon hsus hc hopen => ?_⟩
  · rintro ⟨i, w, hw, hopen, hsus, -⟩
    exact hopen ((awakeInv_reachable hr i w hw).2 hsus)
  · exact wait_ends hw ((awakeInv_reachable hr i w hw).2 hsus)
  · exact waitAll_stuck hr hs hon hsus hc hopen

/-- Enough for `WaitsAwake`, and can be computed: no call on a suspended
queue. -/
def NotSuspended (env : ClientEnv) (p : Client) : ClientAct → Bool
  | .executor => (waitsOn env p).all fun i => !(p.xq i).suspended
  | _ => true

theorem notSuspended_ok {env : ClientEnv} {p : Client} {act : ClientAct}
    (h : NotSuspended env p act = true) : WaitsAwake env p act := by
  cases act with
  | executor =>
    intro i hon hsus
    simp only [NotSuspended, hon, Option.all_some, hsus] at h
    cases h
  | _ => trivial

def noEnv : ClientEnv := ⟨fun _ => false, fun _ => .block, false⟩

/-- A queue is created, command 1 submitted and `op` received. -/
def submitTrace (op : Operation) : List ClientAct :=
  [.xQueueCreate 0 cfgOne, .xq 0 (.submit 1 kCommandPropertyNone .hal), .xq 0 (.submitter 1),
   .xq 0 (.submitter 1), .xq 0 (.submitter 1), .receive op]

/-- While the queue runs the executor waits for the worker. -/
theorem executor_waits_awake : ∃ p : Client, p.executor.waits = some (0, .xQueueWaitAll 1) ∧
    (p.xq 0).machine.enqueued = [halCmd 1] ∧ ¬ Stuck p := by
  have htrace : ((LTS.exec (LTS.guarded (NotSuspended noEnv · · = true) (step noEnv)) init
      (submitTrace (.config 0 none 2 1) ++ [.executor, .executor])).map fun p =>
        (p.executor.waits, (p.xq 0).machine.enqueued)) =
      some (some (0, .xQueueWaitAll 1), [halCmd 1]) := by decide
  obtain ⟨p, hp, he⟩ := Option.map_eq_some_iff.1 htrace
  simp only [Prod.mk.injEq] at he
  have hr : ((lts noEnv).restrict (NotSuspended noEnv · · = true)).Reachable p :=
    LTS.reachable_restrict_of_exec rfl hp
  have hok := (executor_not_stuck noEnv).1 p (hr.restrict_mono fun _ _ => notSuspended_ok)
  exact ⟨p, he.1, he.2, hok.1⟩

/-- The queue is suspended, then its threshold set. -/
def stuckTrace : List ClientAct :=
  submitTrace (.sched [] [0]) ++ List.replicate 7 .executor ++
    [.receive (.config 0 none 2 1), .executor, .executor]

/-- **Counterexample**: the executor waits for a command behind the one the
paused worker does not launch. -/
theorem executor_stuck : ¬ ∀ (env : ClientEnv) (p : Client), (lts env).Reachable p → ¬ Stuck p := by
  intro h
  have htrace : ((LTS.exec (step noEnv) init stuckTrace).map fun p =>
      (p.executor.waits, (p.xq 0).machine.enqueued, (p.xq 0).suspended,
        (p.xq 0).machine.cmdState (.xQueueWaitAll 1),
        (p.xq 0).machine.cmdState (.hardware (halCmd 1)))) =
      some (some (0, .xQueueWaitAll 1), [halCmd 1], true, .pending, .pending) := by decide
  obtain ⟨p, hp, he⟩ := Option.map_eq_some_iff.1 htrace
  simp only [Prod.mk.injEq] at he
  obtain ⟨hw, henq, hsus, hopen, hcmd⟩ := he
  refine h noEnv p (LTS.reachable_of_exec rfl hp) ⟨0, _, hw, ?_, hsus, halCmd 1, ?_, ?_⟩
  · rw [hopen]; decide
  · rw [henq]; exact List.mem_cons_self
  · rw [hcmd]; decide

end Client
end Xsched.Preempt
