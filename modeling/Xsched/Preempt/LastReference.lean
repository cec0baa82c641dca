import Xsched.Preempt.Keeping

/-!
# The last reference to an XQueue

Who holds a `shared_ptr` to one XQueue, and which thread drops the last one:
that thread runs the destructor, which enqueues an XQueueDestroyCommand and
waits for the launch worker.

The holders are the manager's map, the HwQueue, every API call from its
`XQueueManager::Get` to its return, and every HwCommand from `OnSubmit` until
it is Completed: a listener then drops the reference, on the thread that
completed the command. `XQueueManager::Del` erases the map's and the
HwQueue's, resumes the queue and waits for all that was enqueued.

A submitter that got its reference before `Del` may enqueue after that wait.
`InTime` is the condition that none does; under it the launch worker never
drops the last reference (`last_reference`), without it it may
(`worker_destroys`), and then waits for itself.
-/
namespace Xsched.Preempt
open AsyncXQueue (XAct QueueInv keepingAct submitWaitAll submitWaitAll_cases submitWaitAll_frame
  step_of_lts kQueueResumeFlagNone)

/-- The holders of a `shared_ptr` to the XQueue. -/
inductive Owner where
  | manager
  | hwQueue
  | call (t : Nat)
  | command (c : HwCommand)
  deriving DecidableEq, Repr

inductive Runner where
  | worker
  | thread (t : Nat)
  deriving DecidableEq, Repr

/-- The API functions that call a method of the XQueue. -/
inductive ApiCall where
  | submit (props : XCommandProperties) (kind : HwCommandKind)
  | wait (c : HwCommand)
  | waitAll
  | suspend (flags : Flags)
  | resume
  deriving DecidableEq, Repr

/-- A thread in an API function, in `XQueueDestroy` (whose phase is a `DelPc`)
or in `~AsyncXQueue`. -/
inductive CallPc where
  | idle
  | start (f : ApiCall)
  | inSubmit
  | inWait
  | inWaitAll (w : XCommand)
  | inCtrl
  | del
  | terminate
  | drop
  | dropping
  | waitDestroy (w : XCommand)
  deriving DecidableEq, Repr

/-- The thread is in the destructor. -/
def CallPc.destructs : CallPc → Bool
  | .terminate => true
  | .drop => true
  | .dropping => true
  | .waitDestroy _ => true
  | _ => false

/-- `XQueueManager::Del`: the queue is in the map; erased; in `Resume`; in
`WaitAll`; done.
mirrors preempt/src/xqueue/xqueue.cpp:52-73 -/
inductive DelPc where
  | no
  | erased (t : Nat)
  | resuming (t : Nat)
  | waiting (t : Nat) (w : XCommand)
  | done
  deriving DecidableEq, Repr

/-- Its `WaitAll` has enqueued its command. -/
def DelPc.waited : DelPc → Bool
  | .waiting _ _ => true
  | .done => true
  | _ => false

def DelPc.thread : DelPc → Option Nat
  | .erased t => some t
  | .resuming t => some t
  | .waiting t _ => some t
  | _ => none

structure Shared where
  xq : AsyncXQueue
  owners : List Owner
  calls : Nat → CallPc
  del : DelPc
  /-- who dropped the last reference -/
  destructor : Option Runner

inductive SharedAct where
  | get (t : Nat) (f : ApiCall)
  | del (t : Nat)
  | call (t : Nat)
  | worker (b : Bool)
  deriving DecidableEq, Repr

namespace Shared

/-- After `XQueueManager::Add`. -/
def init : Shared where
  xq := AsyncXQueue.init
  owners := [.hwQueue, .manager]
  calls := fun _ => .idle
  del := .no
  destructor := none

def setCall (t : Nat) (pc : CallPc) (p : Shared) : Shared :=
  { p with calls := Function.update p.calls t pc }

/-- References are dropped on thread `who`. -/
def release (who : Runner) (owners : List Owner) (p : Shared) : Shared :=
  { p with owners := owners,
           destructor := if p.destructor = none ∧ owners = [] then some who else p.destructor }

/-- `this->xqueue_ = nullptr` in the Completed commands.
mirrors preempt/src/hal/hw_command.cpp:9-16 -/
def listeners (m : State) (owners : List Owner) : List Owner :=
  owners.filter fun
    | .command c => decide (m.cmdState (.hardware c) ≠ .completed)
    | _ => true

/-- The queue moves on; `who` runs the listeners. -/
def setXq (who : Runner) (x : AsyncXQueue) (p : Shared) : Shared :=
  release who (listeners x.machine p.owners) { p with xq := x }

/-- A step of the queue by `who`. -/
def advance (cfg : Config) (who : Runner) (act : XAct) (p : Shared) : Option Shared :=
  (AsyncXQueue.step cfg p.xq act).map fun x => setXq who x p

/-- `WaitAll` on thread `t`, up to the wait. -/
def waitAll (cfg : Config) (t : Nat) (p : Shared) : Option (Shared × XCommand) :=
  (submitWaitAll cfg p.xq).map fun (x, w) => (setXq (.thread t) x p, w)

/-- An API function returns and drops its reference; if it was the last, the
destructor runs on its thread. -/
def returns (t : Nat) (p : Shared) : Shared :=
  let p := release (.thread t) (p.owners.erase (.call t)) p
  setCall t (if p.owners = [] then .terminate else .idle) p

/-- `OnSubmit`, then the rest of `Submit`.
mirrors preempt/src/hal/hw_command.cpp:45-51 and
preempt/src/xqueue/async_xqueue.cpp:47-54 -/
def submitStart (cfg : Config) (t : Nat) (props : XCommandProperties) (kind : HwCommandKind)
    (p : Shared) : Option Shared :=
  (advance cfg (.thread t) (.submit t props kind)
    { p with owners := p.owners ++ [.command ⟨p.xq.nextHwCmdIdx, props, kind⟩] }).map
      (setCall t .inSubmit)

/-- mirrors preempt/src/xqueue/xqueue.cpp:308-384 -/
def callStart (cfg : Config) (t : Nat) (f : ApiCall) (p : Shared) : Option Shared :=
  match f with
  | .submit props kind => submitStart cfg t props kind p
  | .wait c => (advance cfg (.thread t) (.machine (.wait t c)) p).map (setCall t .inWait)
  | .waitAll => (waitAll cfg t p).map fun (p, w) => setCall t (.inWaitAll w) p
  | .suspend flags => (advance cfg (.thread t) (.suspend t flags) p).map (setCall t .inCtrl)
  | .resume =>
    (advance cfg (.thread t) (.resume t kQueueResumeFlagNone) p).map (setCall t .inCtrl)

/-- The next step of `Del` after its locked region.
mirrors preempt/src/xqueue/xqueue.cpp:66-73 -/
def stepDel (cfg : Config) (p : Shared) : Option Shared :=
  match p.del with
  | .erased t =>
    (advance cfg (.thread t) (.resume t kQueueResumeFlagNone) p).map fun p =>
      { p with del := .resuming t }
  | .resuming t =>
    if p.xq.ctrls t = .idle then
      (waitAll cfg t p).map fun (p, w) => { p with del := .waiting t w }
    else advance cfg (.thread t) (.controller t) p
  | .waiting t w =>
    if p.xq.machine.cmdState w = .completed then some (returns t { p with del := .done })
    else none
  | _ => none

/-- The destructor on an application thread; its `Resume(true)` drops.
mirrors preempt/src/xqueue/async_xqueue.cpp:35-45 -/
def stepDestructor (cfg : Config) (t : Nat) (p : Shared) : Option Shared :=
  match p.calls t with
  | .terminate => (advance cfg (.thread t) .terminate p).map (setCall t .drop)
  | .drop => (advance cfg (.thread t) (.resume t 1) p).map (setCall t .dropping)
  | .dropping =>
    if p.xq.ctrls t = .idle then
      (advance cfg (.thread t) (.machine .enqueueDestroy) p).map
        (setCall t (.waitDestroy (.xQueueDestroy p.xq.machine.nextId)))
    else advance cfg (.thread t) (.controller t) p
  | .waitDestroy w =>
    if p.xq.machine.cmdState w = .completed then some (setCall t .idle p) else none
  | _ => none

/-- The next step of thread `t`. -/
def stepCall (cfg : Config) (t : Nat) (p : Shared) : Option Shared :=
  match p.calls t with
  | .idle => none
  | .start f => callStart cfg t f p
  | .inSubmit =>
    if p.xq.submits t = .idle then some (returns t p)
    else advance cfg (.thread t) (.submitter t) p
  | .inWait =>
    if p.xq.machine.app t = .idle then some (returns t p)
    else advance cfg (.thread t) (.machine (.app t)) p
  | .inWaitAll w =>
    if p.xq.machine.cmdState w = .completed then some (returns t p) else none
  | .inCtrl =>
    if p.xq.ctrls t = .idle then some (returns t p) else advance cfg (.thread t) (.controller t) p
  | .del => if p.del.thread = some t then stepDel cfg p else none
  | _ => stepDestructor cfg t p

/-- Where a call may find a reference: in the map, or `HwCommand::Wait` in the
command's `xqueue_`. -/
def finds (f : ApiCall) (owners : List Owner) : Bool :=
  decide (Owner.manager ∈ owners) ||
    match f with
    | .wait c => decide (Owner.command c ∈ owners)
    | _ => false

/-- The worker that runs the destructor waits for itself. -/
def step (cfg : Config) (p : Shared) : SharedAct → Option Shared
  | .get t f =>
    if p.calls t = .idle ∧ finds f p.owners then
      some (setCall t (.start f) { p with owners := p.owners ++ [.call t] })
    else none
  | .del t =>
    if p.calls t = .idle ∧ Owner.manager ∈ p.owners then
      some (setCall t .del { p with
        del := .erased t,
        owners := (p.owners.filter fun o => o ≠ .manager ∧ o ≠ .hwQueue) ++ [.call t] })
    else none
  | .call t => stepCall cfg t p
  | .worker b =>
    if p.destructor = some .worker then none else advance cfg .worker (.machine (.worker b)) p

def lts (cfg : Config) : LTS Shared SharedAct := LTS.ofFn (· = init) (step cfg)

/-! ## The condition -/

/-- Thread `t` is about to put its command into the buffer. -/
def enqueues (p : Shared) (t : Nat) : Bool :=
  match p.calls t, p.xq.submits t with
  | .inSubmit, .hooked _ => true
  | _, _ => false

/-- No command is enqueued after the `WaitAll` of `XQueueDestroy` has enqueued
its own. -/
def InTime (p : Shared) : SharedAct → Prop
  | .call t => enqueues p t = true → p.del.waited = false
  | _ => True

instance (p : Shared) : (act : SharedAct) → Decidable (InTime p act)
  | .call _ => inferInstanceAs (Decidable (_ → _))
  | .get _ _ => instDecidableTrue
  | .del _ => instDecidableTrue
  | .worker _ => instDecidableTrue

/-! ## The invariant -/

/-- `Del` and the commands: until the queue is erased the map has a reference;
then `Del` has one; its wait covers all that is enqueued. -/
def DelOk (p : Shared) : Prop :=
  match p.del with
  | .no => .manager ∈ p.owners
  | .erased t => p.calls t = .del
  | .resuming t => p.calls t = .del
  | .waiting t w => p.calls t = .del ∧
      ∃ pre, (w, pre) ∈ p.xq.machine.waitAlls ∧ ∀ c ∈ p.xq.machine.enqueued, c ∈ pre
  | .done => ∀ c ∈ p.xq.machine.enqueued, p.xq.machine.cmdState (.hardware c) = .completed

/-- The HwCommand is enqueued or in a Submit. -/
def Placed (x : AsyncXQueue) (c : HwCommand) : Prop :=
  c ∈ x.machine.enqueued ∨ ∃ t, (x.submits t).pending = some c

structure OwnInv (p : Shared) : Prop where
  queue : QueueInv p.xq
  calls : ∀ t, p.calls t ≠ .idle → .call t ∈ p.owners
  alive : ∀ t, (p.calls t).destructs = false
  submits : ∀ t, p.xq.submits t ≠ .idle → p.calls t = .inSubmit
  commands : ∀ c, .command c ∈ p.owners →
    p.xq.machine.cmdState (.hardware c) ≠ .completed ∧ Placed p.xq c
  del : DelOk p

theorem ownInv_init : OwnInv init where
  queue := AsyncXQueue.queueInv_init
  calls _ h := absurd rfl h
  alive _ := rfl
  submits _ h := absurd rfl h
  commands c hc := by simp [init] at hc
  del := by
    show Owner.manager ∈ [Owner.hwQueue, Owner.manager]
    simp

section
variable {cfg : Config} {x : AsyncXQueue} {act : XAct} {p p' : Shared}

theorem mem_listeners {m : State} {owners : List Owner} {o : Owner} :
    o ∈ listeners m owners ↔
      o ∈ owners ∧ ∀ c, o = .command c → m.cmdState (.hardware c) ≠ .completed := by
  unfold listeners
  rw [List.mem_filter]
  refine and_congr_right fun _ => ?_
  cases o with
  | command c => simp
  | _ => simp

/-- Neither the first nor a later action of a Submit. -/
def quiet : XAct → Bool
  | .submit _ _ _ => false
  | .submitter _ => false
  | _ => true

theorem quiet_frame (hquiet : quiet act = true) (hq : QueueInv p.xq)
    (hs : AsyncXQueue.Step cfg p.xq act x) :
    x.submits = p.xq.submits ∧ x.machine.enqueued = p.xq.machine.enqueued := by
  have henq {a : Act} {m : State} (ha : a.submitted = [])
      (hm : (Preempt.lts cfg).step p.xq.machine a m) : m.enqueued = p.xq.machine.enqueued := by
    have hstep : reconfigured.step p.xq.machine a m := ⟨cfg, hm⟩
    rw [step_enqueued (step_of_reachable hq.machine.of_restrict hstep), ha, List.append_nil]
  cases hs with
  | machine a m hd hm =>
    refine ⟨rfl, henq ?_ hm⟩
    cases a <;> first | rfl | cases hd
  | allocate t props kind hpc => cases hquiet
  | hook t c hpc => cases hquiet
  | enqueue t c m hpc hm => cases hquiet
  | submitReturn t c hpc => cases hquiet
  | pause t flags m hpc hm => exact ⟨rfl, henq rfl hm⟩
  | resume t call m hpc hm => exact ⟨rfl, henq rfl hm⟩
  | dropAll t call m hpc hm => exact ⟨rfl, henq rfl hm⟩
  | resumeAndDrop t call d m hpc hm => exact ⟨rfl, henq rfl hm⟩
  | _ => exact ⟨rfl, rfl⟩

/-- A Completed HwCommand stays Completed. -/
theorem stays_completed (hq : QueueInv p.xq) (hs : AsyncXQueue.Step cfg p.xq act x) {c : HwCommand}
    (hc : p.xq.machine.cmdState (.hardware c) = .completed) :
    x.machine.cmdState (.hardware c) = .completed := by
  rcases AsyncXQueue.Keeping.machine_step hq.ctrls hs with he | ⟨a, hm⟩
  · rw [he]; exact hc
  · have hr := hq.machine.of_restrict
    exact completed_stays (logInv_reachable hr) (step_of_reachable hr hm.1) hc

/-- `Del` and its wait after a step that enqueues nothing. -/
theorem DelOk.step (h : DelOk p) (hq : QueueInv p.xq) (hs : AsyncXQueue.Step cfg p.xq act x)
    (henq : x.machine.enqueued = p.xq.machine.enqueued) (who : Runner) :
    DelOk (setXq who x p) := by
  unfold DelOk at h ⊢
  change (match p.del with
    | .no => Owner.manager ∈ listeners x.machine p.owners
    | .erased t => p.calls t = .del
    | .resuming t => p.calls t = .del
    | .waiting t w => p.calls t = .del ∧
        ∃ pre, (w, pre) ∈ x.machine.waitAlls ∧ ∀ c ∈ x.machine.enqueued, c ∈ pre
    | .done => ∀ c ∈ x.machine.enqueued, x.machine.cmdState (.hardware c) = .completed)
  rw [henq]
  cases hd : p.del with
  | no => rw [hd] at h; exact mem_listeners.2 ⟨h, nofun⟩
  | erased t => rw [hd] at h; exact h
  | resuming t => rw [hd] at h; exact h
  | waiting t w =>
    rw [hd] at h
    obtain ⟨hcall, pre, hmem, hall⟩ := h
    exact ⟨hcall, pre, (hq.waits hs hmem).1, hall⟩
  | done =>
    rw [hd] at h
    exact fun c hc => stays_completed hq hs (h c hc)

/-- A step of the queue that is no part of a Submit. -/
theorem ownInv_quiet (h : OwnInv p) (hk : keepingAct act) (hquiet : quiet act = true)
    (hs : AsyncXQueue.Step cfg p.xq act x) (who : Runner) : OwnInv (setXq who x p) := by
  obtain ⟨hsub, henq⟩ := quiet_frame hquiet h.queue hs
  refine ⟨AsyncXQueue.queueInv_step hk h.queue hs, fun t ht => ?_, h.alive, fun t ht => ?_,
    fun c hc => ?_, h.del.step h.queue hs henq who⟩
  · exact mem_listeners.2 ⟨h.calls t ht, nofun⟩
  · change x.submits t ≠ .idle at ht
    rw [hsub] at ht
    exact h.submits t ht
  · obtain ⟨hmem, hopen⟩ := mem_listeners.1 hc
    refine ⟨hopen c rfl, ?_⟩
    show c ∈ x.machine.enqueued ∨ ∃ t, (x.submits t).pending = some c
    rw [hsub, henq]
    exact (h.commands c hmem).2

theorem setCall_self (t : Nat) (pc : CallPc) : (setCall t pc p).calls t = pc := by
  simp only [setCall, Function.update_self]

theorem setCall_of_ne {t t' : Nat} (h : t' ≠ t) (pc : CallPc) :
    (setCall t pc p).calls t' = p.calls t' := by
  simp only [setCall, Function.update_of_ne h]

/-- The thread of `Del` is in `XQueueDestroy`. -/
theorem DelOk.call (h : DelOk p) {t : Nat} (ht : p.del.thread = some t) : p.calls t = .del := by
  unfold DelOk at h
  cases hd : p.del with
  | no => rw [hd] at ht; cases ht
  | erased t' => rw [hd] at h ht; cases ht; exact h
  | resuming t' => rw [hd] at h ht; cases ht; exact h
  | waiting t' w => rw [hd] at h ht; cases ht; exact h.1
  | done => rw [hd] at ht; cases ht

/-- `DelOk` reads the calls at the thread of `Del` only. -/
theorem DelOk.congr (h : DelOk p) (hx : p'.xq = p.xq) (hd : p'.del = p.del)
    (hm : .manager ∈ p.owners → .manager ∈ p'.owners)
    (hc : ∀ t, p.del.thread = some t → p'.calls t = p.calls t) : DelOk p' := by
  unfold DelOk at h ⊢
  rw [hd, hx]
  cases he : p.del with
  | no => rw [he] at h; exact hm h
  | erased t => rw [he] at h; exact (hc t (by rw [he]; rfl)).trans h
  | resuming t => rw [he] at h; exact (hc t (by rw [he]; rfl)).trans h
  | waiting t w => rw [he] at h; exact ⟨(hc t (by rw [he]; rfl)).trans h.1, h.2⟩
  | done => rw [he] at h; exact h

/-- Thread `t` goes on in its call, with its reference; if it is in a Submit,
it is at its end. -/
theorem ownInv_setCall {t : Nat} {pc : CallPc} (h : OwnInv p) (hpc : pc.destructs = false)
    (hin : .call t ∈ p.owners) (hsub : p.xq.submits t ≠ .idle → pc = .inSubmit)
    (hdel : p.calls t = .del → p.del = .done) : OwnInv (setCall t pc p) where
  queue := h.queue
  calls t' ht' := by
    rcases eq_or_ne t' t with rfl | hne
    · exact hin
    · rw [setCall_of_ne hne] at ht'
      exact h.calls t' ht'
  alive t' := by
    rcases eq_or_ne t' t with rfl | hne
    · rw [setCall_self]; exact hpc
    · rw [setCall_of_ne hne]; exact h.alive t'
  submits t' ht' := by
    rcases eq_or_ne t' t with rfl | hne
    · rw [setCall_self]; exact hsub ht'
    · rw [setCall_of_ne hne]; exact h.submits t' ht'
  commands := h.commands
  del := by
    refine h.del.congr rfl rfl id fun t' ht' => setCall_of_ne ?_ pc
    rintro rfl
    rw [hdel (h.del.call ht')] at ht'
    cases ht'

/-- Its reference dropped, the thread is idle, unless it was the last. -/
theorem ownInv_returns {t : Nat} (h : OwnInv p) (hsub : p.xq.submits t = .idle)
    (hdel : p.calls t = .del → p.del = .done) (hne : p.owners.erase (.call t) ≠ []) :
    OwnInv (returns t p) := by
  have hkeep {o : Owner} (ho : o ≠ .call t) (hmem : o ∈ p.owners) : o ∈ p.owners.erase (.call t) :=
    (List.mem_erase_of_ne ho).2 hmem
  have hcalls : (returns t p).calls = Function.update p.calls t .idle := by
    show Function.update p.calls t (if p.owners.erase (.call t) = [] then _ else _) = _
    rw [if_neg hne]
  refine ⟨h.queue, fun t' ht' => ?_, fun t' => ?_, fun t' ht' => ?_, fun c hc => ?_, ?_⟩
  · rcases eq_or_ne t' t with rfl | hnt
    · rw [hcalls, Function.update_self] at ht'
      exact absurd rfl ht'
    · rw [hcalls, Function.update_of_ne hnt] at ht'
      exact hkeep (by simpa using hnt) (h.calls t' ht')
  · rcases eq_or_ne t' t with rfl | hnt
    · rw [hcalls, Function.update_self]; rfl
    · rw [hcalls, Function.update_of_ne hnt]; exact h.alive t'
  · rcases eq_or_ne t' t with rfl | hnt
    · exact absurd hsub ht'
    · rw [hcalls, Function.update_of_ne hnt]; exact h.submits t' ht'
  · exact h.commands c (List.mem_of_mem_erase hc)
  · refine h.del.congr rfl rfl (fun hm => hkeep nofun hm) fun t' ht' => ?_
    rw [hcalls, Function.update_of_ne]
    rintro rfl
    rw [hdel (h.del.call ht')] at ht'
    cases ht'

/-! ## Submit -/

theorem placed_setSubmit {t : Nat} {pc : SubmitPc} {c : HwCommand} (h : Placed x c)
    (hpc : pc.pending = (x.submits t).pending ∨ (x.submits t).pending = none) :
    Placed (AsyncXQueue.setSubmit t pc x) c := by
  rcases h with h | ⟨t', ht'⟩
  · exact .inl h
  · refine .inr ⟨t', ?_⟩
    show (Function.update x.submits t pc t').pending = some c
    rcases eq_or_ne t' t with rfl | hne
    · rw [Function.update_self]
      rcases hpc with hpc | hpc
      · rw [hpc]; exact ht'
      · rw [hpc] at ht'; cases ht'
    · rw [Function.update_of_ne hne]; exact ht'

theorem setSubmit_of_ne {t t' : Nat} (h : t' ≠ t) (pc : SubmitPc) :
    (AsyncXQueue.setSubmit t pc x).submits t' = x.submits t' :=
  Function.update_of_ne h _ _

/-- A step inside `Submit`. -/
theorem submitter_cases {t : Nat} (hq : QueueInv p.xq)
    (hs : AsyncXQueue.Step cfg p.xq (.submitter t) x) :
    (∀ t', t' ≠ t → x.submits t' = p.xq.submits t') ∧ (∀ c, Placed p.xq c → Placed x c) ∧
      (x.machine.enqueued = p.xq.machine.enqueued ∨ ∃ c, p.xq.submits t = .hooked c) := by
  cases hs with
  | hook t c hpc =>
    refine ⟨fun t' ht' => setSubmit_of_ne ht' _, fun d hd => ?_, .inl rfl⟩
    exact placed_setSubmit hd (.inl (by rw [hpc]; rfl))
  | enqueue t c m hpc hm =>
    have hstep : reconfigured.step p.xq.machine (.submit c) m := ⟨cfg, hm⟩
    have henq : m.enqueued = p.xq.machine.enqueued ++ [c] :=
      step_enqueued (step_of_reachable hq.machine.of_restrict hstep)
    refine ⟨fun t' ht' => setSubmit_of_ne ht' _, fun d hd => ?_, .inr ⟨c, hpc⟩⟩
    rcases hd with hd | ⟨t', ht'⟩
    · left
      show d ∈ m.enqueued
      rw [henq]; exact List.mem_append_left _ hd
    · rcases eq_or_ne t' t with rfl | hne
      · rw [hpc] at ht'
        cases ht'
        left
        show c ∈ m.enqueued
        rw [henq]; exact List.mem_append_right _ List.mem_cons_self
      · right
        refine ⟨t', ?_⟩
        rw [setSubmit_of_ne hne]; exact ht'
  | submitReturn t c hpc =>
    refine ⟨fun t' ht' => setSubmit_of_ne ht' _, fun d hd => ?_, .inl rfl⟩
    exact placed_setSubmit (x := { p.xq with submitted := p.xq.submitted ++ [c] }) hd
      (.inr (by show (p.xq.submits t).pending = none; rw [hpc]; rfl))
  | skip _ hact ha => exact ⟨fun _ _ => rfl, fun _ h => h, .inl rfl⟩

/-- While `Del` has not enqueued its wait, any command may be. -/
theorem DelOk.early (h : DelOk p) (hw : p.del.waited = false) (who : Runner) :
    DelOk (setXq who x p) := by
  unfold DelOk at h ⊢
  show (match p.del with
    | .no => Owner.manager ∈ listeners x.machine p.owners
    | .erased t => p.calls t = .del
    | .resuming t => p.calls t = .del
    | .waiting t w => p.calls t = .del ∧
        ∃ pre, (w, pre) ∈ x.machine.waitAlls ∧ ∀ c ∈ x.machine.enqueued, c ∈ pre
    | .done => ∀ c ∈ x.machine.enqueued, x.machine.cmdState (.hardware c) = .completed)
  cases hd : p.del with
  | no => rw [hd] at h; exact mem_listeners.2 ⟨h, nofun⟩
  | erased t => rw [hd] at h; exact h
  | resuming t => rw [hd] at h; exact h
  | waiting t w => rw [hd] at hw; cases hw
  | done => rw [hd] at hw; cases hw

theorem ownInv_submitter {t : Nat} (h : OwnInv p) (hcall : p.calls t = .inSubmit)
    (hok : ∀ c, p.xq.submits t = .hooked c → p.del.waited = false)
    (hs : AsyncXQueue.Step cfg p.xq (.submitter t) x) : OwnInv (setXq (.thread t) x p) := by
  obtain ⟨hsub, hplaced, henq⟩ := submitter_cases h.queue hs
  have hkeep : keepingAct (.submitter t) := trivial
  refine ⟨AsyncXQueue.queueInv_step hkeep h.queue hs, fun t' ht' => ?_, h.alive, fun t' ht' => ?_,
    fun c hc => ?_, ?_⟩
  · exact mem_listeners.2 ⟨h.calls t' ht', nofun⟩
  · rcases eq_or_ne t' t with rfl | hne
    · exact hcall
    · change x.submits t' ≠ .idle at ht'
      rw [hsub t' hne] at ht'
      exact h.submits t' ht'
  · obtain ⟨hmem, hopen⟩ := mem_listeners.1 hc
    exact ⟨hopen c rfl, hplaced c (h.commands c hmem).2⟩
  · rcases henq with henq | ⟨c, hc⟩
    · exact h.del.step h.queue hs henq _
    · exact h.del.early (hok c hc) _

theorem submit_eq {y z : AsyncXQueue} {t : Nat} {props : XCommandProperties} {kind : HwCommandKind}
    (h : AsyncXQueue.step cfg y (.submit t props kind) = some z) :
    y.submits t = .idle ∧ z = AsyncXQueue.allocate t props kind y := by
  unfold AsyncXQueue.step at h
  split at h
  · cases h
  · change (if y.submits t = .idle then some _ else none) = some z at h
    split at h
    · rename_i hpc
      cases h
      exact ⟨hpc, rfl⟩
    · cases h

theorem ownInv_submitStart {t : Nat} {props : XCommandProperties} {kind : HwCommandKind}
    (h : OwnInv p) (hcall : p.calls t ≠ .idle) (hdel : p.calls t ≠ .del)
    (hs : submitStart cfg t props kind p = some p') : OwnInv p' := by
  obtain ⟨p₁, h₁, rfl⟩ := Option.map_eq_some_iff.1 hs
  obtain ⟨z, hz, rfl⟩ := Option.map_eq_some_iff.1 h₁
  obtain ⟨hidle, rfl⟩ := submit_eq hz
  have hstep : AsyncXQueue.Step cfg p.xq (.submit t props kind)
      (AsyncXQueue.allocate t props kind p.xq) := .allocate t props kind hidle
  have hin {t' : Nat} (ht' : p.calls t' ≠ .idle) : Owner.call t' ∈
      listeners p.xq.machine (p.owners ++ [.command ⟨p.xq.nextHwCmdIdx, props, kind⟩]) :=
    mem_listeners.2 ⟨List.mem_append_left _ (h.calls t' ht'), nofun⟩
  have hkeep : keepingAct (.submit t props kind) := trivial
  refine ⟨AsyncXQueue.queueInv_step hkeep h.queue hstep, fun t' ht' => ?_, fun t' => ?_,
    fun t' ht' => ?_, fun c hc => ?_, ?_⟩
  · rcases eq_or_ne t' t with rfl | hne
    · exact hin hcall
    · rw [setCall_of_ne hne] at ht'
      exact hin ht'
  · rcases eq_or_ne t' t with rfl | hne
    · rw [setCall_self]; rfl
    · rw [setCall_of_ne hne]; exact h.alive t'
  · rcases eq_or_ne t' t with rfl | hne
    · exact setCall_self _ _
    · rw [setCall_of_ne hne]
      change (AsyncXQueue.setSubmit t _ _).submits t' ≠ .idle at ht'
      rw [setSubmit_of_ne hne] at ht'
      exact h.submits t' ht'
  · obtain ⟨hmem, hopen⟩ := mem_listeners.1 hc
    refine ⟨hopen c rfl, ?_⟩
    rcases List.mem_append.1 hmem with hmem | hmem
    · have hplaced : Placed p.xq c := (h.commands c hmem).2
      refine placed_setSubmit (x := { p.xq with
        nextHwCmdIdx := _, spared := _ }) hplaced (.inr ?_)
      show (p.xq.submits t).pending = none
      rw [hidle]; rfl
    · cases List.mem_singleton.1 hmem
      refine .inr ⟨t, ?_⟩
      show (Function.update p.xq.submits t _ t).pending = _
      rw [Function.update_self]; rfl
  · have hdel' : DelOk (setXq (.thread t) (AsyncXQueue.allocate t props kind p.xq) p) :=
      h.del.step h.queue hstep rfl _
    refine hdel'.congr rfl rfl (fun hm => ?_) fun t' ht' => setCall_of_ne ?_ _
    · exact mem_listeners.2 ⟨List.mem_append_left _ (mem_listeners.1 hm).1, nofun⟩
    · rintro rfl
      exact hdel (h.del.call ht')

/-! ## Steps of the threads -/

/-- The queue is referenced and in order, or thread `t` has dropped the last
reference. -/
def SafeFor (t : Nat) (p : Shared) : Prop :=
  p.destructor = none ∧ p.owners ≠ [] ∧ OwnInv p ∨ p.destructor = some (.thread t)

theorem release_destructor {who : Runner} {owners : List Owner} (hd : p.destructor = none) :
    (release who owners p).destructor = if owners = [] then some who else none := by
  simp only [release, hd, true_and]

theorem safe_release {t : Nat} {owners : List Owner} (hd : p.destructor = none)
    (hp : p'.destructor = (release (.thread t) owners p).destructor) (hown : p'.owners = owners)
    (h : owners ≠ [] → OwnInv p') : SafeFor t p' := by
  rw [release_destructor hd] at hp
  by_cases ho : owners = []
  · exact .inr (by rw [hp, if_pos ho])
  · exact .inl ⟨by rw [hp, if_neg ho], by rw [hown]; exact ho, h ho⟩

theorem safe_setXq {t : Nat} (hd : p.destructor = none) (h : OwnInv (setXq (.thread t) x p)) :
    SafeFor t (setXq (.thread t) x p) :=
  safe_release (p := { p with xq := x }) hd rfl rfl fun _ => h

theorem advance_eq {who : Runner} (h : advance cfg who act p = some p') :
    ∃ x, AsyncXQueue.Step cfg p.xq act x ∧ p' = setXq who x p := by
  obtain ⟨x, hx, rfl⟩ := Option.map_eq_some_iff.1 h
  exact ⟨x, step_of_lts hx, rfl⟩

theorem waitAll_eq {t : Nat} {w : XCommand} (h : waitAll cfg t p = some (p', w)) :
    ∃ x, submitWaitAll cfg p.xq = some (x, w) ∧ p' = setXq (.thread t) x p := by
  obtain ⟨⟨x, w'⟩, hx, he⟩ := Option.map_eq_some_iff.1 h
  cases he
  exact ⟨x, hx, rfl⟩

theorem safe_advance {t : Nat} (hd : p.destructor = none) (h : OwnInv p) (hk : keepingAct act)
    (hquiet : quiet act = true) (hs : advance cfg (.thread t) act p = some p') : SafeFor t p' := by
  obtain ⟨x, hx, rfl⟩ := advance_eq hs
  exact safe_setXq hd (ownInv_quiet h hk hquiet hx _)

/-- A thread that is not in `Submit` has no command there. -/
theorem OwnInv.submit_idle {t : Nat} (h : OwnInv p) (hc : p.calls t ≠ .inSubmit) :
    p.xq.submits t = .idle := by
  by_contra hne
  exact hc (h.submits t hne)

/-- A step of the queue takes a call further. -/
theorem ownInv_call {t : Nat} {pc : CallPc} (h : OwnInv p) (hk : keepingAct act)
    (hquiet : quiet act = true) (hx : AsyncXQueue.Step cfg p.xq act x)
    (hstart : p.calls t ≠ .idle ∧ p.calls t ≠ .inSubmit ∧ p.calls t ≠ .del)
    (hpc : pc.destructs = false) : OwnInv (setCall t pc (setXq (.thread t) x p)) := by
  refine ownInv_setCall (ownInv_quiet h hk hquiet hx _) hpc ?_ (fun hsub => ?_) fun hc => ?_
  · exact mem_listeners.2 ⟨h.calls t hstart.1, nofun⟩
  · change x.submits t ≠ .idle at hsub
    rw [(quiet_frame hquiet h.queue hx).1, h.submit_idle hstart.2.1] at hsub
    exact absurd rfl hsub
  · exact absurd hc hstart.2.2

theorem safe_returns {t : Nat} (hd : p.destructor = none) (h : OwnInv p)
    (hsub : p.xq.submits t = .idle) (hdel : p.calls t = .del → p.del = .done) :
    SafeFor t (returns t p) :=
  safe_release hd rfl rfl fun hne => ownInv_returns h hsub hdel hne

theorem safe_callStart {t : Nat} {f : ApiCall} (hd : p.destructor = none) (h : OwnInv p)
    (hcall : p.calls t = .start f) (hs : callStart cfg t f p = some p') : SafeFor t p' := by
  have hstart : p.calls t ≠ .idle ∧ p.calls t ≠ .inSubmit ∧ p.calls t ≠ .del := by
    rw [hcall]
    exact ⟨nofun, nofun, nofun⟩
  have hset {pc : CallPc} {act : XAct} (hk : keepingAct act) (hquiet : quiet act = true)
      (hpc : pc.destructs = false)
      (hs : (advance cfg (.thread t) act p).map (setCall t pc) = some p') : SafeFor t p' := by
    obtain ⟨p₁, h₁, rfl⟩ := Option.map_eq_some_iff.1 hs
    obtain ⟨x, hx, rfl⟩ := advance_eq h₁
    exact safe_release (p := { p with xq := x }) hd rfl rfl fun _ => ownInv_call h hk hquiet hx hstart hpc
  cases f with
  | submit props kind =>
    have hsub : submitStart cfg t props kind p = some p' := hs
    obtain ⟨p₁, h₁, rfl⟩ := Option.map_eq_some_iff.1 hsub
    obtain ⟨z, hz, rfl⟩ := Option.map_eq_some_iff.1 h₁
    have hown := ownInv_submitStart h hstart.1 hstart.2.2 hsub
    exact safe_release (p := { p with xq := z, owners := _ }) hd rfl rfl fun _ => hown
  | wait c => exact hset (AsyncXQueue.machine_keeping _) rfl rfl hs
  | waitAll =>
    obtain ⟨⟨p₁, w⟩, h₁, rfl⟩ := Option.map_eq_some_iff.1 hs
    obtain ⟨x, hx, rfl⟩ := waitAll_eq h₁
    have hstep := step_of_lts (submitWaitAll_cases hx).1
    exact safe_release (p := { p with xq := x }) hd rfl rfl fun _ =>
      ownInv_call h (AsyncXQueue.machine_keeping _) rfl hstep hstart rfl
  | suspend flags => exact hset (AsyncXQueue.suspend_keeping _ _) rfl rfl hs
  | resume => exact hset AsyncXQueue.resume_keeping rfl rfl hs

theorem ownInv_setDel {d : DelPc} (h : OwnInv p) (hd : DelOk { p with del := d }) :
    OwnInv { p with del := d } :=
  ⟨h.queue, h.calls, h.alive, h.submits, h.commands, hd⟩

theorem safe_stepDel {t : Nat} (hd : p.destructor = none) (h : OwnInv p)
    (ht : p.del.thread = some t) (hs : stepDel cfg p = some p') : SafeFor t p' := by
  have hcall := h.del.call ht
  have hsub : p.xq.submits t = .idle := h.submit_idle (by rw [hcall]; nofun)
  have hdel := h.del
  unfold stepDel at hs
  split at hs
  · rename_i t' hpc
    rw [hpc] at ht
    cases ht
    obtain ⟨p₁, h₁, rfl⟩ := Option.map_eq_some_iff.1 hs
    obtain ⟨x, hx, rfl⟩ := advance_eq h₁
    exact safe_release (p := { p with xq := x }) hd rfl rfl fun _ =>
      ownInv_setDel (ownInv_quiet h AsyncXQueue.resume_keeping rfl hx _) hcall
  · rename_i t' hpc
    rw [hpc] at ht
    cases ht
    split at hs
    · obtain ⟨⟨p₁, w⟩, h₁, rfl⟩ := Option.map_eq_some_iff.1 hs
      obtain ⟨x, hx, rfl⟩ := waitAll_eq h₁
      obtain ⟨hstep, hall, -⟩ := submitWaitAll_cases hx
      obtain ⟨-, henq, -⟩ := submitWaitAll_frame hx
      have hmem : (w, p.xq.machine.enqueued) ∈ x.machine.waitAlls := by
        rw [hall]; exact List.mem_append_right _ List.mem_cons_self
      refine safe_release (p := { p with xq := x }) hd rfl rfl fun _ => ownInv_setDel
        (ownInv_quiet h (AsyncXQueue.machine_keeping _) rfl (step_of_lts hstep) _) ?_
      exact ⟨hcall, _, hmem, fun c hc => by rw [← henq]; exact hc⟩
    · exact safe_advance hd h (AsyncXQueue.controller_keeping _) rfl hs
  · rename_i t' w hpc
    rw [hpc] at ht
    cases ht
    split at hs
    · rename_i hdone
      cases hs
      rw [DelOk, hpc] at hdel
      obtain ⟨-, pre, hmem, hcov⟩ := hdel
      have hall : ∀ c ∈ p.xq.machine.enqueued, p.xq.machine.cmdState (.hardware c) = .completed :=
        fun c hc => waitAll_covers h.queue.machine hmem hdone c (hcov c hc)
      exact safe_returns (p := { p with del := .done }) hd (ownInv_setDel h hall) hsub fun _ => rfl
    · cases hs
  · cases hs

theorem safe_stepCall {t : Nat} (hd : p.destructor = none) (h : OwnInv p)
    (hok : InTime p (.call t)) (hs : stepCall cfg t p = some p') : SafeFor t p' := by
  unfold stepCall at hs
  cases hcall : p.calls t with
  | idle => simp only [hcall] at hs; cases hs
  | start f =>
    simp only [hcall] at hs
    exact safe_callStart hd h hcall hs
  | inSubmit =>
    simp only [hcall] at hs
    split at hs
    · rename_i hidle
      cases hs
      exact safe_returns hd h hidle fun hc => by rw [hcall] at hc; cases hc
    · obtain ⟨x, hx, rfl⟩ := advance_eq hs
      refine safe_setXq hd (ownInv_submitter h hcall (fun c hc => hok ?_) hx)
      simp only [enqueues, hcall, hc]
  | inWait =>
    simp only [hcall] at hs
    split at hs
    · cases hs
      refine safe_returns hd h (h.submit_idle (by rw [hcall]; nofun)) fun hc => ?_
      rw [hcall] at hc; cases hc
    · exact safe_advance hd h (AsyncXQueue.machine_keeping _) rfl hs
  | inWaitAll w =>
    simp only [hcall] at hs
    split at hs
    · cases hs
      refine safe_returns hd h (h.submit_idle (by rw [hcall]; nofun)) fun hc => ?_
      rw [hcall] at hc; cases hc
    · cases hs
  | inCtrl =>
    simp only [hcall] at hs
    split at hs
    · cases hs
      refine safe_returns hd h (h.submit_idle (by rw [hcall]; nofun)) fun hc => ?_
      rw [hcall] at hc; cases hc
    · exact safe_advance hd h (AsyncXQueue.controller_keeping _) rfl hs
  | del =>
    simp only [hcall] at hs
    split at hs
    · rename_i ht
      exact safe_stepDel hd h ht hs
    · cases hs
  | _ =>
    have halive := h.alive t
    rw [hcall] at halive
    cases halive

/-! ## The worker, and runs -/

/-- Somebody other than the Completed commands has a reference: a command that
is not Completed is in a Submit that has one, or `Del` is not done. -/
theorem listeners_ne_nil (h : OwnInv p) (hne : p.owners ≠ []) (m : State) :
    listeners m p.owners ≠ [] := by
  intro hnil
  have hother {o : Owner} (ho : ∀ c, o ≠ .command c) : o ∉ p.owners := fun hmem => by
    have hin : o ∈ listeners m p.owners := mem_listeners.2 ⟨hmem, fun c hc => absurd hc (ho c)⟩
    rw [hnil] at hin
    cases hin
  have hidle (t : Nat) : p.calls t = .idle := by
    by_contra hc
    exact hother (fun _ => Owner.noConfusion) (h.calls t hc)
  have hnodel (t : Nat) : p.del.thread ≠ some t := fun ht => by
    have hcall := h.del.call ht
    rw [hidle] at hcall
    cases hcall
  have hdone : p.del = .done := by
    cases hd : p.del with
    | no =>
      have hdel := h.del
      rw [DelOk, hd] at hdel
      exact absurd hdel (hother fun _ => Owner.noConfusion)
    | erased t => exact absurd (by rw [hd]; rfl) (hnodel t)
    | resuming t => exact absurd (by rw [hd]; rfl) (hnodel t)
    | waiting t w => exact absurd (by rw [hd]; rfl) (hnodel t)
    | done => rfl
  obtain ⟨o, ho⟩ := List.exists_mem_of_ne_nil _ hne
  cases o with
  | command c =>
    obtain ⟨hopen, hc | ⟨t, ht⟩⟩ := h.commands c ho
    · have hdel := h.del
      rw [DelOk, hdone] at hdel
      exact hopen (hdel c hc)
    · have hcall := h.submits t fun hsub => by rw [hsub] at ht; cases ht
      rw [hidle] at hcall
      cases hcall
  | _ => exact hother (fun _ => Owner.noConfusion) ho

def Safe (p : Shared) : Prop :=
  p.destructor = none ∧ p.owners ≠ [] ∧ OwnInv p ∨ ∃ t, p.destructor = some (.thread t)

theorem SafeFor.safe {t : Nat} (h : SafeFor t p) : Safe p := h.imp_right fun h => ⟨t, h⟩

/-- A taken reference: thread `t`, idle so far, starts a call. -/
theorem ownInv_start {t : Nat} {pc : CallPc} {owners : List Owner} {d : DelPc} (h : OwnInv p)
    (hidle : p.calls t = .idle) (hpc : pc.destructs = false)
    (hcall : ∀ t', Owner.call t' ∈ p.owners → .call t' ∈ owners) (hin : .call t ∈ owners)
    (hcommand : ∀ c, Owner.command c ∈ owners → .command c ∈ p.owners)
    (hdel : DelOk (setCall t pc { p with owners := owners, del := d })) :
    OwnInv (setCall t pc { p with owners := owners, del := d }) where
  queue := h.queue
  calls t' ht' := by
    rcases eq_or_ne t' t with rfl | hne
    · exact hin
    · rw [setCall_of_ne hne] at ht'
      exact hcall t' (h.calls t' ht')
  alive t' := by
    rcases eq_or_ne t' t with rfl | hne
    · rw [setCall_self]; exact hpc
    · rw [setCall_of_ne hne]; exact h.alive t'
  submits t' ht' := by
    have hsub := h.submits t' ht'
    rcases eq_or_ne t' t with rfl | hne
    · rw [hidle] at hsub; cases hsub
    · rw [setCall_of_ne hne]; exact hsub
  commands c hc := h.commands c (hcommand c hc)
  del := hdel

theorem step_safe {act : SharedAct} (hd : p.destructor = none) (hne : p.owners ≠ [])
    (h : OwnInv p) (hok : InTime p act) (hs : (lts cfg).step p act p') : Safe p' := by
  have hs' : step cfg p act = some p' := hs
  cases act with
  | get t f =>
    change (if p.calls t = .idle ∧ finds f p.owners then some _ else none) = some p' at hs'
    split at hs'
    · rename_i hstart
      cases hs'
      refine .inl ⟨hd, List.append_ne_nil_of_right_ne_nil _ (List.cons_ne_nil _ _), ?_⟩
      refine ownInv_start (d := p.del) h hstart.1 rfl (fun t' ht' => List.mem_append_left _ ht')
        (List.mem_append_right _ List.mem_cons_self) (fun c hc => ?_) ?_
      · rcases List.mem_append.1 hc with hc | hc
        · exact hc
        · cases List.mem_singleton.1 hc
      · refine h.del.congr rfl rfl (fun hm => List.mem_append_left _ hm) fun t' ht' => ?_
        refine setCall_of_ne ?_ _
        rintro rfl
        rw [h.del.call ht'] at hstart
        cases hstart.1
    · cases hs'
  | del t =>
    change (if p.calls t = .idle ∧ Owner.manager ∈ p.owners then some _ else none) = some p' at hs'
    split at hs'
    · rename_i hstart
      cases hs'
      refine .inl ⟨hd, List.append_ne_nil_of_right_ne_nil _ (List.cons_ne_nil _ _), ?_⟩
      refine ownInv_start h hstart.1 rfl (fun t' ht' => ?_)
        (List.mem_append_right _ List.mem_cons_self) (fun c hc => ?_) (setCall_self t _)
      · exact List.mem_append_left _ (List.mem_filter.2 ⟨ht', by simp⟩)
      · rcases List.mem_append.1 hc with hc | hc
        · exact List.mem_of_mem_filter hc
        · cases List.mem_singleton.1 hc
    · cases hs'
  | call t => exact (safe_stepCall hd h hok hs').safe
  | worker b =>
    have hnot : ¬ p.destructor = some .worker := by rw [hd]; nofun
    change (if p.destructor = some .worker then none else _) = some p' at hs'
    rw [if_neg hnot] at hs'
    obtain ⟨x, hx, rfl⟩ := advance_eq hs'
    have hsome := listeners_ne_nil h hne x.machine
    refine .inl ⟨?_, hsome, ownInv_quiet h (AsyncXQueue.machine_keeping _) rfl hx _⟩
    show (release .worker (listeners x.machine p.owners) { p with xq := x }).destructor = none
    rw [release_destructor (p := { p with xq := x }) hd, if_neg hsome]

/-! ## The destructor runs once -/

theorem release_stays {who r : Runner} {owners : List Owner} (hd : p.destructor = some r) :
    (release who owners p).destructor = some r := by
  show (if p.destructor = none ∧ owners = [] then some who else p.destructor) = some r
  rw [if_neg, hd]
  rintro ⟨hn, -⟩
  rw [hd] at hn; cases hn

theorem advance_stays {who r : Runner} (hd : p.destructor = some r)
    (hs : advance cfg who act p = some p') : p'.destructor = some r := by
  obtain ⟨x, -, rfl⟩ := advance_eq hs
  exact release_stays (p := { p with xq := x }) hd

theorem advance_call_stays {who r : Runner} {f : Shared → Shared} (hd : p.destructor = some r)
    (hs : (advance cfg who act p).map f = some p')
    (hf : ∀ p, (f p).destructor = p.destructor) : p'.destructor = some r := by
  obtain ⟨p₁, h₁, rfl⟩ := Option.map_eq_some_iff.1 hs
  rw [hf]
  exact advance_stays hd h₁

theorem waitAll_call_stays {t : Nat} {r : Runner} {f : Shared × XCommand → Shared}
    (hd : p.destructor = some r) (hs : (waitAll cfg t p).map f = some p')
    (hf : ∀ p w, (f (p, w)).destructor = p.destructor) : p'.destructor = some r := by
  obtain ⟨⟨p₁, w⟩, h₁, rfl⟩ := Option.map_eq_some_iff.1 hs
  obtain ⟨x, -, rfl⟩ := waitAll_eq h₁
  rw [hf]
  exact release_stays (p := { p with xq := x }) hd

theorem returns_stays {t : Nat} {r : Runner} (hd : p.destructor = some r) :
    (returns t p).destructor = some r :=
  release_stays hd

theorem callStart_stays {t : Nat} {f : ApiCall} {r : Runner} (hd : p.destructor = some r)
    (hs : callStart cfg t f p = some p') : p'.destructor = some r := by
  cases f with
  | submit props kind =>
    change submitStart cfg t props kind p = some p' at hs
    unfold submitStart at hs
    exact advance_call_stays (by exact hd) hs fun _ => rfl
  | wait c => exact advance_call_stays hd hs fun _ => rfl
  | waitAll => exact waitAll_call_stays hd hs fun _ _ => rfl
  | suspend flags => exact advance_call_stays hd hs fun _ => rfl
  | resume => exact advance_call_stays hd hs fun _ => rfl

theorem stepDel_stays {r : Runner} (hd : p.destructor = some r) (hs : stepDel cfg p = some p') :
    p'.destructor = some r := by
  unfold stepDel at hs
  split at hs
  · exact advance_call_stays hd hs fun _ => rfl
  · split at hs
    · exact waitAll_call_stays hd hs fun _ _ => rfl
    · exact advance_stays hd hs
  · split at hs
    · cases hs; exact returns_stays (p := { p with del := .done }) hd
    · cases hs
  · cases hs

theorem stepDestructor_stays {t : Nat} {r : Runner} (hd : p.destructor = some r)
    (hs : stepDestructor cfg t p = some p') : p'.destructor = some r := by
  unfold stepDestructor at hs
  split at hs
  · exact advance_call_stays hd hs fun _ => rfl
  · exact advance_call_stays hd hs fun _ => rfl
  · split at hs
    · exact advance_call_stays hd hs fun _ => rfl
    · exact advance_stays hd hs
  · split at hs
    · cases hs; exact hd
    · cases hs
  · cases hs

theorem stepCall_stays {t : Nat} {r : Runner} (hd : p.destructor = some r)
    (hs : stepCall cfg t p = some p') : p'.destructor = some r := by
  unfold stepCall at hs
  split at hs
  · cases hs
  · exact callStart_stays hd hs
  · split at hs
    · cases hs; exact returns_stays hd
    · exact advance_stays hd hs
  · split at hs
    · cases hs; exact returns_stays hd
    · exact advance_stays hd hs
  · split at hs
    · cases hs; exact returns_stays hd
    · cases hs
  · split at hs
    · cases hs; exact returns_stays hd
    · exact advance_stays hd hs
  · split at hs
    · exact stepDel_stays hd hs
    · cases hs
  · exact stepDestructor_stays hd hs

theorem destructor_stays {act : SharedAct} {r : Runner} (hd : p.destructor = some r)
    (hs : (lts cfg).step p act p') : p'.destructor = some r := by
  have hs' : step cfg p act = some p' := hs
  cases act with
  | get t f =>
    change (if p.calls t = .idle ∧ finds f p.owners then some _ else none) = some p' at hs'
    split at hs'
    · cases hs'; exact hd
    · cases hs'
  | del t =>
    change (if p.calls t = .idle ∧ Owner.manager ∈ p.owners then some _ else none) = some p' at hs'
    split at hs'
    · cases hs'; exact hd
    · cases hs'
  | call t => exact stepCall_stays hd hs'
  | worker b =>
    change (if p.destructor = some .worker then none else _) = some p' at hs'
    split at hs'
    · cases hs'
    · exact advance_stays hd hs'

theorem safe_reachable (hr : ((lts cfg).restrict InTime).Reachable p) : Safe p := by
  refine LTS.reachable_induction (I := Safe) ?_ ?_ hr
  · rintro p rfl
    exact .inl ⟨rfl, List.cons_ne_nil _ _, ownInv_init⟩
  · intro p act p' _ h hs
    rcases h with ⟨hd, hne, h⟩ | ⟨t, hd⟩
    · exact step_safe hd hne h hs.2 hs.1
    · exact .inr ⟨t, destructor_stays hd hs.1⟩

end

/-- **The last reference** is never dropped by the launch worker in runs where
no command is enqueued after `XQueueDestroy` has begun to wait. -/
theorem last_reference {cfg : Config} {p : Shared} (hr : ((lts cfg).restrict InTime).Reachable p) :
    p.destructor ≠ some .worker := by
  rcases safe_reachable hr with ⟨hd, -⟩ | ⟨t, hd⟩ <;> rw [hd] <;> nofun

/-- A thread has its reference, another destroys the queue; `n` steps of that
thread and of the submitter, and of the worker before and after. -/
def destroyTrace (first second : List SharedAct) (n : Nat) : List SharedAct :=
  [.get 0 (.submit kCommandPropertyNone .hal)] ++ first ++ [.del 1, .call 1, .call 1] ++ second ++
    List.replicate n (.worker true)

/-- Submitted before the queue is destroyed: the thread in `XQueueDestroy` runs
the destructor. -/
theorem last_reference_destroy : ∃ p, ((lts cfgOne).restrict InTime).Reachable p ∧
    p.destructor = some (.thread 1) ∧ p.destructor ≠ some .worker := by
  have htrace : ((LTS.exec (LTS.guarded InTime (step cfgOne)) init
      (destroyTrace (List.replicate 5 (.call 0)) [] 14 ++ [.call 1])).map
        fun p => p.destructor) = some (some (.thread 1)) := by decide
  obtain ⟨p, hp, hd⟩ := Option.map_eq_some_iff.1 htrace
  have hr : ((lts cfgOne).restrict InTime).Reachable p := LTS.reachable_restrict_of_exec rfl hp
  exact ⟨p, hr, hd, last_reference hr⟩

/-- **Counterexample**: the submitter enqueues once `XQueueDestroy` has waited;
the command then has the last reference. -/
theorem worker_destroys : ¬ ∀ (cfg : Config) (p : Shared), (lts cfg).Reachable p →
    p.destructor ≠ some .worker := by
  intro h
  have htrace : ((LTS.exec (step cfgOne) init (destroyTrace []
      (List.replicate 4 (.worker true) ++ [.call 1] ++ List.replicate 5 (.call 0)) 9)).map
        fun p => p.destructor) = some (some .worker) := by decide
  obtain ⟨p, hp, hd⟩ := Option.map_eq_some_iff.1 htrace
  exact h cfgOne p (LTS.reachable_of_exec rfl hp) hd

end Shared
end Xsched.Preempt
