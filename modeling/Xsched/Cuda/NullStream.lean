import Xsched.Cuda.Device
import Xsched.Preempt.Keeping
import Xsched.Preempt.Progress

/-!
# The legacy null stream beside the blocking streams (CUDA)

The driver runs the null stream and the blocking streams in the order in which
it gets their work. Each of them has an XQueue of its own here, the null
stream too, so that order is made by the launch workers.

A launch on the null stream first runs `WaitBlockingXQueues`: a wait-all is
submitted to every XQueue of the manager whose stream lacks
`CU_STREAM_NON_BLOCKING`, and each is waited for. Then it is submitted like
any other launch. A launch on another stream is submitted at once, whatever
the XQueue of the null stream holds.

**Model.** The queues take every step of an `AsyncXQueue`, at every level and
under any suspension; a `Synchronize` call returns whenever it likes. `Resume`
with `DropCommands` is left out: a command it drops is not issued at all. A
stream keeps its XQueue (`XStreamDestroy` is left out), and an XQueue of the
manager is made when its stream is created or first launched on
(`ResolveXQueueForStream`).

**Ghost fields.** `returned` are the launches that have returned, `before` says
which had when a launch was called, and `issued` is what the driver has got,
in order.

**Results.** `blocking_before_null`: a launch on a blocking stream that
returned before one on the null stream was called is issued first, in every
run. `legacy_order` adds the other direction, for runs in which a launch on a
blocking stream is called only when all of the null stream's is issued
(`NullIssued`). `null_overtaken` is a run in which it is not.
-/
namespace Xsched.Cuda
open Preempt
open Preempt.AsyncXQueue (XAct)

def cuStreamNonBlocking : BitVec 32 := 1

/-- `CUstream` 0 -/
def nullStream : Nat := 0

/-- `CudaQueueLv1::GetStreamFlags`; `flags` is what the driver says.
mirrors platforms/cuda/hal/src/level1/cuda_queue.cpp:42-47 -/
def streamFlags (flags : Nat → BitVec 32) (i : Nat) : BitVec 32 :=
  if i = nullStream then 0 else flags i

/-- Not passed over by `WaitBlockingXQueues`. -/
def blocking (flags : Nat → BitVec 32) (i : Nat) : Bool :=
  streamFlags flags i &&& cuStreamNonBlocking = 0

/-- A thread in `XLaunchKernel`. Up to the Submit, a launch on the null stream
carries its properties and, for `before`, the launches that had returned. -/
inductive LaunchPc where
  | idle
  | submitWaitAlls (props : XCommandProperties) (before : List (Nat × HwCommand))
      (todo : List Nat) (cmds : List (Nat × XCommand))
  | waitAlls (props : XCommandProperties) (before : List (Nat × HwCommand))
      (cmds : List (Nat × XCommand))
  | submitting (i : Nat) (c : HwCommand)
  deriving DecidableEq, Repr

structure NullShim where
  xq : Nat → AsyncXQueue
  /-- `XQueueManager::xqs_`, by stream -/
  xqs : List Nat
  calls : Nat → LaunchPc
  returned : List (Nat × HwCommand)
  before : Nat → HwCommand → List (Nat × HwCommand)
  issued : List (Nat × HwCommand)

inductive NullAct where
  | xStreamCreate (i : Nat)
  | xLaunchKernel (t i : Nat) (props : XCommandProperties)
  | call (t : Nat)
  | xq (i : Nat) (act : XAct)
  deriving DecidableEq, Repr

namespace NullShim

def init : NullShim where
  xq := fun _ => AsyncXQueue.init
  xqs := []
  calls := fun _ => .idle
  returned := []
  before := fun _ _ => []
  issued := []

def setCall (t : Nat) (pc : LaunchPc) (s : NullShim) : NullShim :=
  { s with calls := Function.update s.calls t pc }

/-- Queue `i` has stepped to `x`. -/
def setQueue (i : Nat) (x : AsyncXQueue) (s : NullShim) : NullShim :=
  { s with
    xq := Function.update s.xq i x
    issued := s.issued ++ (Device.newLaunch (s.xq i) x).toList.map (Prod.mk i) }

/-- The XQueue of the stream, made when there is none.
mirrors platforms/cuda/shim/src/shim.cpp:156-225 -/
def resolveXQueueForStream (i : Nat) (s : NullShim) : NullShim :=
  { s with xqs := if i ∈ s.xqs then s.xqs else i :: s.xqs }

def newCommand (s : NullShim) (i : Nat) (props : XCommandProperties) : HwCommand :=
  ⟨(s.xq i).nextHwCmdIdx, props, .hal⟩

/-- Thread `t` enters `xq->Submit(kernel)`; `before` are the launches that had
returned when the launch was called. -/
def submit (cfg : Nat → Config) (t i : Nat) (props : XCommandProperties)
    (before : List (Nat × HwCommand)) (s : NullShim) : Option NullShim :=
  (AsyncXQueue.step (cfg i) (s.xq i) (.submit t props .hal)).map fun x =>
    let c := s.newCommand i props
    setCall t (.submitting i c) { resolveXQueueForStream i (setQueue i x s) with
      before := fun j d => if j = i ∧ d = c then before else s.before j d }

/-- mirrors platforms/cuda/shim/src/shim.cpp:273-299 -/
def xLaunchKernel (cfg : Nat → Config) (flags : Nat → BitVec 32) (t i : Nat)
    (props : XCommandProperties) (s : NullShim) : Option NullShim :=
  if s.calls t = .idle then
    if i = nullStream then
      some (setCall t (.submitWaitAlls props s.returned (s.xqs.filter (blocking flags)) []) s)
    else submit cfg t i props s.returned s
  else none

/-- The rest of `XLaunchKernel` on thread `t`.
mirrors platforms/cuda/shim/src/shim.cpp:227-243 and
platforms/cuda/hal/src/runtime/runtime_strategy.cpp:79-94 -/
def stepCall (cfg : Nat → Config) (t : Nat) (s : NullShim) : Option NullShim :=
  match s.calls t with
  | .idle => none
  | .submitWaitAlls props before [] cmds => some (setCall t (.waitAlls props before cmds) s)
  | .submitWaitAlls props before (i :: todo) cmds =>
    (AsyncXQueue.submitWaitAll (cfg i) (s.xq i)).map fun (x, w) =>
      setCall t (.submitWaitAlls props before todo (cmds ++ [(i, w)])) (setQueue i x s)
  | .waitAlls props before [] => submit cfg t nullStream props before s
  | .waitAlls props before ((i, w) :: cmds) =>
    if (s.xq i).machine.cmdState w = .completed then
      some (setCall t (.waitAlls props before cmds) s)
    else none
  | .submitting i c =>
    if (s.xq i).submits t = .idle then
      some (setCall t .idle { s with returned := (i, c) :: s.returned })
    else none

/-- Kernels are submitted by `XLaunchKernel` only, and nothing is dropped. -/
def otherAct : XAct → Bool
  | .submit _ _ _ => false
  | .resume _ flags => !dropsCommands flags
  | _ => true

def step (cfg : Nat → Config) (flags : Nat → BitVec 32) (s : NullShim) :
    NullAct → Option NullShim
  | .xStreamCreate i => if i = nullStream then none else some (resolveXQueueForStream i s)
  | .xLaunchKernel t i props => xLaunchKernel cfg flags t i props s
  | .call t => stepCall cfg t s
  | .xq i act =>
    if otherAct act then
      (AsyncXQueue.step (cfg i) (s.xq i) act).map fun x => setQueue i x s
    else none

def lts (cfg : Nat → Config) (flags : Nat → BitVec 32) : LTS NullShim NullAct :=
  LTS.ofFn (· = init) (step cfg flags)

/-- Every step of a call, and of a queue. `props`, `before` and the queue of a
Submit are those of the launch it belongs to. -/
inductive Step (cfg : Nat → Config) (flags : Nat → BitVec 32) (s : NullShim) :
    NullAct → NullShim → Prop
  | create (i : Nat) : Step cfg flags s (.xStreamCreate i) (resolveXQueueForStream i s)
  | launchNull (t : Nat) (props : XCommandProperties) (hpc : s.calls t = .idle) :
      Step cfg flags s (.xLaunchKernel t nullStream props)
        (setCall t (.submitWaitAlls props s.returned (s.xqs.filter (blocking flags)) []) s)
  | submit (act : NullAct) (t i : Nat) (props : XCommandProperties)
      (before : List (Nat × HwCommand)) (s' : NullShim)
      (hlaunch : act = .xLaunchKernel t i props ∧ i ≠ nullStream ∧ before = s.returned ∨
        act = .call t ∧ i = nullStream ∧ s.calls t = .waitAlls props before [])
      (h : submit cfg t i props before s = some s') : Step cfg flags s act s'
  | submitWaitAll (t : Nat) (props : XCommandProperties) (before : List (Nat × HwCommand))
      (i : Nat) (todo : List Nat) (cmds : List (Nat × XCommand)) (x : AsyncXQueue) (w : XCommand)
      (hpc : s.calls t = .submitWaitAlls props before (i :: todo) cmds)
      (hx : AsyncXQueue.submitWaitAll (cfg i) (s.xq i) = some (x, w)) :
      Step cfg flags s (.call t)
        (setCall t (.submitWaitAlls props before todo (cmds ++ [(i, w)])) (setQueue i x s))
  | submitted (t : Nat) (props : XCommandProperties) (before : List (Nat × HwCommand))
      (cmds : List (Nat × XCommand)) (hpc : s.calls t = .submitWaitAlls props before [] cmds) :
      Step cfg flags s (.call t) (setCall t (.waitAlls props before cmds) s)
  | wait (t : Nat) (props : XCommandProperties) (before : List (Nat × HwCommand)) (i : Nat)
      (w : XCommand) (cmds : List (Nat × XCommand))
      (hpc : s.calls t = .waitAlls props before ((i, w) :: cmds))
      (hdone : (s.xq i).machine.cmdState w = .completed) :
      Step cfg flags s (.call t) (setCall t (.waitAlls props before cmds) s)
  | launchReturn (t i : Nat) (c : HwCommand) (hpc : s.calls t = .submitting i c)
      (hidle : (s.xq i).submits t = .idle) :
      Step cfg flags s (.call t) (setCall t .idle { s with returned := (i, c) :: s.returned })
  | xq (i : Nat) (act : XAct) (x : AsyncXQueue) (hact : otherAct act)
      (hx : (AsyncXQueue.lts (cfg i)).step (s.xq i) act x) :
      Step cfg flags s (.xq i act) (setQueue i x s)

variable {cfg : Nat → Config} {flags : Nat → BitVec 32} {s s' : NullShim}

theorem stepCall_cases {t : Nat} (h : stepCall cfg t s = some s') :
    Step cfg flags s (.call t) s' := by
  unfold stepCall at h
  cases hpc : s.calls t with
  | idle => simp [hpc] at h
  | submitWaitAlls props before todo cmds =>
    cases todo with
    | nil =>
      simp only [hpc, Option.some.injEq] at h; subst h
      exact .submitted t props before cmds hpc
    | cons i todo =>
      simp only [hpc] at h
      obtain ⟨⟨x, w⟩, hx, rfl⟩ := Option.map_eq_some_iff.1 h
      exact .submitWaitAll t props before i todo cmds x w hpc hx
  | waitAlls props before cmds =>
    cases cmds with
    | nil =>
      simp only [hpc] at h
      exact .submit _ t nullStream props before s' (.inr ⟨rfl, rfl, hpc⟩) h
    | cons iw cmds =>
      simp only [hpc, Option.ite_none_right_eq_some, Option.some.injEq] at h
      obtain ⟨hdone, rfl⟩ := h
      exact .wait t props before iw.1 iw.2 cmds hpc hdone
  | submitting i c =>
    simp only [hpc, Option.ite_none_right_eq_some, Option.some.injEq] at h
    obtain ⟨hidle, rfl⟩ := h
    exact .launchReturn t i c hpc hidle

theorem step_cases {act : NullAct} (h : (lts cfg flags).step s act s') :
    Step cfg flags s act s' := by
  have h' : step cfg flags s act = some s' := h
  cases act with
  | xStreamCreate i =>
    simp only [step, Option.ite_none_left_eq_some, Option.some.injEq] at h'
    obtain ⟨-, rfl⟩ := h'
    exact .create i
  | xLaunchKernel t i props =>
    simp only [step, xLaunchKernel, Option.ite_none_right_eq_some] at h'
    obtain ⟨hpc, h'⟩ := h'
    split at h'
    · rename_i hi
      simp only [Option.some.injEq] at h'; subst h' hi
      exact .launchNull t props hpc
    · rename_i hi
      exact .submit _ t i props s.returned s' (.inl ⟨rfl, hi, rfl⟩) h'
  | call t => exact stepCall_cases h'
  | xq i act =>
    simp only [step, Option.ite_none_right_eq_some] at h'
    obtain ⟨hact, h'⟩ := h'
    obtain ⟨x, hx, rfl⟩ := Option.map_eq_some_iff.1 h'
    exact .xq i act x hact hx

/-! ## The queues -/

theorem submit_eq {t i : Nat} {props : XCommandProperties} {before : List (Nat × HwCommand)}
    (h : submit cfg t i props before s = some s') :
    ∃ x, (AsyncXQueue.lts (cfg i)).step (s.xq i) (.submit t props .hal) x ∧
      s' = setCall t (.submitting i (s.newCommand i props))
        { resolveXQueueForStream i (setQueue i x s) with
          before := fun j d =>
            if j = i ∧ d = s.newCommand i props then before else s.before j d } := by
  obtain ⟨x, hx, rfl⟩ := Option.map_eq_some_iff.1 h
  exact ⟨x, hx, rfl⟩

/-- One queue steps, or none. -/
theorem Step.queue {act : NullAct} (hs : Step cfg flags s act s') :
    s'.xq = s.xq ∧ s'.issued = s.issued ∨
      ∃ i a x, (AsyncXQueue.lts (cfg i)).step (s.xq i) a x ∧ AsyncXQueue.keepingAct a ∧
        s'.xq = (setQueue i x s).xq ∧ s'.issued = (setQueue i x s).issued := by
  cases hs with
  | submit act t i props before s' hlaunch h =>
    obtain ⟨x, hx, rfl⟩ := submit_eq h
    exact .inr ⟨i, _, x, hx, trivial, rfl, rfl⟩
  | submitWaitAll t props before i todo cmds x w hpc hx =>
    exact .inr ⟨i, _, x, (AsyncXQueue.submitWaitAll_cases hx).1, trivial, rfl, rfl⟩
  | xq i a x hact hx =>
    refine .inr ⟨i, a, x, hx, ?_, rfl, rfl⟩
    cases a with
    | resume t flags =>
      show dropsCommands flags = false
      simpa [otherAct] using hact
    | _ => trivial
  | _ => exact .inl ⟨rfl, rfl⟩

theorem setQueue_self (i : Nat) (x : AsyncXQueue) (s : NullShim) : (setQueue i x s).xq i = x :=
  Function.update_self _ _ _

theorem setQueue_other {i j : Nat} (x : AsyncXQueue) (s : NullShim) (h : j ≠ i) :
    (setQueue i x s).xq j = s.xq j :=
  Function.update_of_ne h _ _

theorem Step.queue_at {act : NullAct} (hs : Step cfg flags s act s') (j : Nat) :
    s'.xq j = s.xq j ∨ ∃ a, (AsyncXQueue.lts (cfg j)).step (s.xq j) a (s'.xq j) ∧
      AsyncXQueue.keepingAct a := by
  rcases hs.queue with ⟨hxq, -⟩ | ⟨i, a, x, hx, hk, hxq, -⟩
  · exact .inl (by rw [hxq])
  · rw [hxq]
    by_cases hj : j = i
    · subst hj
      rw [setQueue_self]; exact .inr ⟨a, hx, hk⟩
    · exact .inl (setQueue_other x s hj)

theorem queue_reachable (hr : (lts cfg flags).Reachable s) (i : Nat) :
    ((AsyncXQueue.lts (cfg i)).restrict fun _ => AsyncXQueue.keepingAct).Reachable (s.xq i) := by
  refine LTS.reachable_map (fun s => s.xq i) ?_ ?_ hr
  · rintro s rfl; rfl
  · exact fun s act s' _ hs => (step_cases hs).queue_at i

theorem machine_reachable (hr : (lts cfg flags).Reachable s) (i : Nat) :
    (Preempt.lts (cfg i)).Reachable (s.xq i).machine :=
  AsyncXQueue.machine_reachable (queue_reachable hr i).of_restrict

theorem queueInv_reachable (hr : (lts cfg flags).Reachable s) (i : Nat) :
    AsyncXQueue.QueueInv (s.xq i) := by
  refine LTS.reachable_induction (I := AsyncXQueue.QueueInv) ?_ ?_ (queue_reachable hr i)
  · rintro x rfl; exact AsyncXQueue.queueInv_init
  · exact fun x act x' _ h hs => AsyncXQueue.queueInv_step hs.2 h (AsyncXQueue.step_of_lts hs.1)

/-- What a queue's machine keeps, a step keeps. -/
theorem Step.machine {act : NullAct} (hr : (lts cfg flags).Reachable s)
    (hs : Step cfg flags s act s') (j : Nat) :
    (s'.xq j).machine = (s.xq j).machine ∨
      ∃ a, Preempt.Step (s.xq j).machine a (s'.xq j).machine := by
  rcases hs.queue_at j with he | ⟨a, ha, -⟩
  · exact .inl (by rw [he])
  · rcases (AsyncXQueue.step_of_lts ha).machine_step with he | ⟨b, hb⟩
    · exact .inl he
    · exact .inr ⟨b, step_of_reachable (machine_reachable hr j) hb⟩

def Done (s : NullShim) (p : Nat × HwCommand) : Prop :=
  (s.xq p.1).machine.cmdState (.hardware p.2) = .completed

theorem done_step {act : NullAct} {p : Nat × HwCommand} (hr : (lts cfg flags).Reachable s)
    (hs : Step cfg flags s act s') (h : s.Done p) : s'.Done p := by
  rcases hs.machine hr p.1 with he | ⟨a, ha⟩
  · rw [Done, he]; exact h
  · exact completed_stays (logInv_reachable (machine_reachable hr p.1)) ha h

theorem launched_step {act : NullAct} (hr : (lts cfg flags).Reachable s)
    (hs : Step cfg flags s act s') (j : Nat) :
    (s.xq j).machine.launched <+: (s'.xq j).machine.launched := by
  rcases hs.machine hr j with he | ⟨a, ha⟩
  · rw [he]
  · exact step_launched ha

theorem enqueued_step {act : NullAct} (hr : (lts cfg flags).Reachable s)
    (hs : Step cfg flags s act s') (j : Nat) {c : HwCommand}
    (hc : c ∈ (s.xq j).machine.enqueued) : c ∈ (s'.xq j).machine.enqueued := by
  rcases hs.machine hr j with he | ⟨a, ha⟩
  · rw [he]; exact hc
  · rw [step_enqueued ha]; exact List.mem_append_left _ hc

/-- Nothing is dropped: what is Completed was issued. -/
theorem Done.launched {p : Nat × HwCommand} (hr : (lts cfg flags).Reachable s) (h : s.Done p) :
    p.2 ∈ (s.xq p.1).machine.launched := by
  have hlog := logInv_reachable (machine_reachable hr p.1)
  have hfifo := fifoInv_reachable (queueInv_reachable hr p.1).machine
  by_cases henq : p.2 ∈ (s.xq p.1).machine.enqueued
  · rw [← hfifo.conserve, hwCmds_pipeline] at henq
    refine (List.mem_append.1 henq).resolve_right fun hp => ?_
    have hpending := hlog.pending p.2 hp
    rw [Done, hpending] at h; cases h
  · have hcreated := hlog.created p.2 henq
    rw [Done, hcreated] at h; cases h

/-! ## What the driver has got -/

theorem newLaunch_cases {x x' : AsyncXQueue} {a : XAct} {c : Config}
    (hr : (AsyncXQueue.lts c).Reachable x) (hs : (AsyncXQueue.lts c).step x a x') :
    x'.machine.launched = x.machine.launched ∧ Device.newLaunch x x' = none ∨
      ∃ d, x'.machine.launched = x.machine.launched ++ [d] ∧ Device.newLaunch x x' = some d := by
  have hsame (h : x'.machine.launched = x.machine.launched) : Device.newLaunch x x' = none := by
    rw [Device.newLaunch, h]
    exact List.getElem?_eq_none (Nat.le_refl _)
  rcases (AsyncXQueue.step_of_lts hs).machine_step with he | ⟨b, hb⟩
  · exact .inl ⟨by rw [he], hsame (by rw [he])⟩
  · rcases step_launches (step_of_reachable (AsyncXQueue.machine_reachable hr) hb) with hl | ⟨d, hl⟩
    · exact .inl ⟨hl, hsame hl⟩
    · refine .inr ⟨d, hl, ?_⟩
      rw [Device.newLaunch, hl, List.getElem?_concat_length]

/-- A step issues at most one command, and its queue has launched it. -/
theorem Step.issued {act : NullAct} (hr : (lts cfg flags).Reachable s)
    (hs : Step cfg flags s act s') :
    s'.issued = s.issued ∧ (∀ j, (s'.xq j).machine.launched = (s.xq j).machine.launched) ∨
      ∃ i d, s'.issued = s.issued ++ [(i, d)] ∧
        (s'.xq i).machine.launched = (s.xq i).machine.launched ++ [d] ∧
        ∀ j, j ≠ i → (s'.xq j).machine.launched = (s.xq j).machine.launched := by
  rcases hs.queue with ⟨hxq, his⟩ | ⟨i, a, x, hx, -, hxq, his⟩
  · exact .inl ⟨his, fun j => by rw [hxq]⟩
  · have hother (j : Nat) (hj : j ≠ i) :
        (s'.xq j).machine.launched = (s.xq j).machine.launched := by
      rw [hxq, setQueue_other x s hj]
    rcases newLaunch_cases (queue_reachable hr i).of_restrict hx with ⟨hl, hnew⟩ | ⟨d, hl, hnew⟩
    · refine .inl ⟨?_, fun j => ?_⟩
      · rw [his, setQueue, hnew]
        exact List.append_nil _
      · by_cases hj : j = i
        · subst hj
          rw [hxq, setQueue_self]; exact hl
        · exact hother j hj
    · refine .inr ⟨i, d, ?_, ?_, hother⟩
      · rw [his, setQueue, hnew]; rfl
      · rw [hxq, setQueue_self]; exact hl

theorem issued_reachable (hr : (lts cfg flags).Reachable s) :
    ∀ p, p ∈ s.issued ↔ p.2 ∈ (s.xq p.1).machine.launched := by
  refine LTS.reachable_induction
    (I := fun s : NullShim => ∀ p, p ∈ s.issued ↔ p.2 ∈ (s.xq p.1).machine.launched) ?_ ?_ hr
  · rintro s rfl p
    exact ⟨nofun, nofun⟩
  · intro s act s' hr h hs p
    rcases (step_cases hs).issued hr with ⟨his, hla⟩ | ⟨i, d, his, hself, hother⟩
    · rw [his, hla]; exact h p
    · rw [his, List.mem_append, h p, List.mem_singleton]
      by_cases hp : p.1 = i
      · subst hp
        rw [hself, List.mem_append, List.mem_singleton]
        exact or_congr_right ⟨fun he => by rw [he], fun he => by rw [← he]⟩
      · rw [hother p.1 hp]
        exact or_iff_left fun he => hp (by rw [he])

/-! ## The launches that have returned -/

/-- Enqueued, or on its way with thread `t`. -/
def Submitted (x : AsyncXQueue) (t : Nat) (c : HwCommand) : Prop :=
  c ∈ x.machine.enqueued ∨ (x.submits t).pending = some c

theorem submitted_step {c : Config} {x x' : AsyncXQueue} {a : XAct} {t : Nat} {d : HwCommand}
    (hr : (AsyncXQueue.lts c).Reachable x) (hs : AsyncXQueue.Step c x a x')
    (h : Submitted x t d) : Submitted x' t d := by
  have hgrow {b : Act} {m : State} (hm : (Preempt.lts c).step x.machine b m)
      (hd : d ∈ x.machine.enqueued) : d ∈ m.enqueued := by
    rw [AsyncXQueue.enqueued_eq hr hm]; exact List.mem_append_left _ hd
  -- thread `u` goes to `p`, and its command goes with it
  have hset {u : Nat} {p : SubmitPc} {y : AsyncXQueue} (hy : y.submits = x.submits)
      (hp : u = t → (x.submits t).pending = some d → p.pending = some d)
      (henq : d ∈ x.machine.enqueued → d ∈ y.machine.enqueued) :
      Submitted (AsyncXQueue.setSubmit u p y) t d := by
    refine h.imp henq fun hpend => ?_
    rw [AsyncXQueue.setSubmit_submits]
    split
    · rename_i he; exact hp he.symm hpend
    · rw [hy]; exact hpend
  cases hs with
  | machine b m hd hm => exact h.imp_left (hgrow hm)
  | allocate u props kind hpc =>
    refine hset rfl (fun hu hpend => ?_) id
    rw [← hu, hpc] at hpend; cases hpend
  | hook u e hpc =>
    refine hset rfl (fun hu hpend => ?_) id
    rw [← hu, hpc] at hpend; exact hpend
  | enqueue u e m hpc hm =>
    have henq := AsyncXQueue.enqueued_eq hr hm
    rcases h with h | hpend
    · exact .inl (hgrow hm h)
    · by_cases hu : t = u
      · rw [hu, hpc] at hpend
        left
        show d ∈ m.enqueued
        rw [henq, ← Option.some.inj hpend]
        exact List.mem_append_right _ List.mem_cons_self
      · right
        rw [AsyncXQueue.setSubmit_submits, if_neg hu]; exact hpend
  | submitReturn u e hpc =>
    refine hset rfl (fun hu hpend => ?_) id
    rw [← hu, hpc] at hpend; cases hpend
  | pause u fl m hpc hm => exact h.imp_left (hgrow hm)
  | resume u call m hpc hm => exact h.imp_left (hgrow hm)
  | dropAll u call m hpc hm => exact h.imp_left (hgrow hm)
  | resumeAndDrop u call k m hpc hm => exact h.imp_left (hgrow hm)
  | _ => exact h

theorem submit_allocates {c : Config} {x x' : AsyncXQueue} {t : Nat} {props : XCommandProperties}
    {kind : HwCommandKind} (h : (AsyncXQueue.lts c).step x (.submit t props kind) x') :
    x' = AsyncXQueue.allocate t props kind x := by
  have h' : AsyncXQueue.step c x (.submit t props kind) = some x' := h
  simp only [AsyncXQueue.step, Option.ite_none_left_eq_some, Option.ite_none_right_eq_some,
    Option.some.injEq] at h'
  exact h'.2.2.symm

theorem resolve_xqs (i : Nat) (s : NullShim) :
    i ∈ (resolveXQueueForStream i s).xqs ∧ s.xqs ⊆ (resolveXQueueForStream i s).xqs := by
  show i ∈ (if i ∈ s.xqs then s.xqs else i :: s.xqs) ∧
    s.xqs ⊆ if i ∈ s.xqs then s.xqs else i :: s.xqs
  split
  · rename_i hi; exact ⟨hi, List.Subset.refl _⟩
  · exact ⟨List.mem_cons_self, List.subset_cons_self _ _⟩

theorem Step.xqs {act : NullAct} (hs : Step cfg flags s act s') : s.xqs ⊆ s'.xqs := by
  cases hs with
  | create i => exact (resolve_xqs i s).2
  | submit act t i props before s' hlaunch h =>
    obtain ⟨x, -, rfl⟩ := submit_eq h
    exact (resolve_xqs i (setQueue i x s)).2
  | _ => exact List.Subset.refl _

structure ReturnedInv (s : NullShim) : Prop where
  managed : ∀ p ∈ s.returned, p.1 ∈ s.xqs
  enqueued : ∀ p ∈ s.returned, p.2 ∈ (s.xq p.1).machine.enqueued
  submitting : ∀ t i c, s.calls t = .submitting i c → i ∈ s.xqs ∧ Submitted (s.xq i) t c

/-- A thread comes into a Submit with a new command. -/
theorem Step.submitting {act : NullAct} (hs : Step cfg flags s act s') {t i : Nat} {c : HwCommand}
    (hpc : s'.calls t = .submitting i c) :
    s.calls t = .submitting i c ∨ i ∈ s'.xqs ∧ ((s'.xq i).submits t).pending = some c := by
  have hset {u : Nat} {pc : LaunchPc} (h : Function.update s.calls u pc t = .submitting i c)
      (hne : pc ≠ .submitting i c) : s.calls t = .submitting i c := by
    rw [Function.update_apply] at h
    split at h
    · exact absurd h hne
    · exact h
  cases hs with
  | launchNull u props hidle => exact .inl (hset hpc (by simp))
  | submit act u j props before s' hlaunch h =>
    obtain ⟨x, hx, rfl⟩ := submit_eq h
    have hpc' : Function.update s.calls u (.submitting j (s.newCommand j props)) t =
        .submitting i c := hpc
    rw [Function.update_apply] at hpc'
    split at hpc'
    · rename_i htu
      obtain ⟨rfl, rfl⟩ := LaunchPc.submitting.inj hpc'
      refine .inr ⟨(resolve_xqs j (setQueue j x s)).1, ?_⟩
      show (((setQueue j x s).xq j).submits t).pending = _
      rw [setQueue_self, htu]
      rw [submit_allocates hx, AsyncXQueue.allocate, AsyncXQueue.setSubmit_submits, if_pos rfl]
      rfl
    · exact .inl hpc'
  | submitWaitAll u props before j todo cmds x w hpc' hx => exact .inl (hset hpc (by simp))
  | submitted u props before cmds hpc' => exact .inl (hset hpc (by simp))
  | wait u props before j w cmds hpc' hdone => exact .inl (hset hpc (by simp))
  | launchReturn u j d hpc' hidle => exact .inl (hset hpc (by simp))
  | _ => exact .inl hpc

theorem returnedInv_step {act : NullAct} (hr : (lts cfg flags).Reachable s) (h : ReturnedInv s)
    (hs : Step cfg flags s act s') : ReturnedInv s' := by
  have hret : ∀ p ∈ s'.returned, p ∈ s.returned ∨
      ∃ t, s.calls t = .submitting p.1 p.2 ∧ (s.xq p.1).submits t = .idle := by
    cases hs with
    | submit act t i props before s' hlaunch hsub =>
      obtain ⟨x, -, rfl⟩ := submit_eq hsub
      exact fun p hp => .inl hp
    | launchReturn t i c hpc hidle =>
      intro p hp
      rcases List.mem_cons.1 hp with rfl | hp
      · exact .inr ⟨t, hpc, hidle⟩
      · exact .inl hp
    | _ => exact fun p hp => .inl hp
  refine ⟨fun p hp => hs.xqs ?_, fun p hp => enqueued_step hr hs p.1 ?_, fun t i c hpc => ?_⟩
  · rcases hret p hp with hp | ⟨t, hpc, -⟩
    · exact h.managed p hp
    · exact (h.submitting t _ _ hpc).1
  · rcases hret p hp with hp | ⟨t, hpc, hidle⟩
    · exact h.enqueued p hp
    · refine (h.submitting t _ _ hpc).2.resolve_right fun hpend => ?_
      rw [hidle] at hpend; cases hpend
  · rcases hs.submitting hpc with hpc | ⟨hi, hpend⟩
    · obtain ⟨hi, hsub⟩ := h.submitting t i c hpc
      refine ⟨hs.xqs hi, ?_⟩
      rcases hs.queue_at i with he | ⟨a, ha, -⟩
      · rw [he]; exact hsub
      · exact submitted_step (queue_reachable hr i).of_restrict (AsyncXQueue.step_of_lts ha) hsub
    · exact ⟨hi, .inr hpend⟩

theorem returnedInv_reachable (hr : (lts cfg flags).Reachable s) : ReturnedInv s := by
  refine LTS.reachable_induction (I := ReturnedInv) ?_ ?_ hr
  · rintro s rfl
    exact ⟨nofun, nofun, fun _ _ _ => nofun⟩
  · exact fun s act s' hr h hs => returnedInv_step hr h (step_cases hs)

/-! ## From a blocking stream to the null stream -/

/-- A wait-all of the launch covers `p`. -/
def WaitedFor (s : NullShim) (cmds : List (Nat × XCommand)) (p : Nat × HwCommand) : Prop :=
  ∃ w pre, (p.1, w) ∈ cmds ∧ (w, pre) ∈ (s.xq p.1).machine.waitAlls ∧ p.2 ∈ pre

/-- What a launch on the null stream has done for those before it. -/
def CallOk (flags : Nat → BitVec 32) (s : NullShim) : LaunchPc → Prop
  | .submitWaitAlls _ before todo cmds =>
    (∀ p ∈ before, p ∈ s.returned) ∧
      ∀ p ∈ before, blocking flags p.1 → s.Done p ∨ p.1 ∈ todo ∨ s.WaitedFor cmds p
  | .waitAlls _ before cmds =>
    ∀ p ∈ before, blocking flags p.1 → s.Done p ∨ s.WaitedFor cmds p
  | _ => True

structure NullInv (flags : Nat → BitVec 32) (s : NullShim) : Prop where
  calls : ∀ t, CallOk flags s (s.calls t)
  before : ∀ c, ∀ p ∈ s.before nullStream c, blocking flags p.1 → s.Done p

theorem waitedFor_step {act : NullAct} {cmds : List (Nat × XCommand)} {p : Nat × HwCommand}
    (hr : (lts cfg flags).Reachable s) (hs : Step cfg flags s act s')
    (h : s.WaitedFor cmds p) : s'.WaitedFor cmds p := by
  obtain ⟨w, pre, hw, hpre, hp⟩ := h
  refine ⟨w, pre, hw, ?_, hp⟩
  rcases hs.queue_at p.1 with he | ⟨a, ha, -⟩
  · rw [he]; exact hpre
  · exact ((queueInv_reachable hr p.1).waits (AsyncXQueue.step_of_lts ha) hpre).1

theorem Step.returned {act : NullAct} (hs : Step cfg flags s act s') {p : Nat × HwCommand}
    (h : p ∈ s.returned) : p ∈ s'.returned := by
  cases hs with
  | submit act t i props before s' hlaunch hsub =>
    obtain ⟨x, -, rfl⟩ := submit_eq hsub
    exact h
  | launchReturn t i c hpc hidle => exact List.mem_cons_of_mem _ h
  | _ => exact h

theorem callOk_step {act : NullAct} {pc : LaunchPc} (hr : (lts cfg flags).Reachable s)
    (hs : Step cfg flags s act s') (h : CallOk flags s pc) : CallOk flags s' pc := by
  cases pc with
  | submitWaitAlls props before todo cmds =>
    refine ⟨fun p hp => hs.returned (h.1 p hp), fun p hp hb => ?_⟩
    exact (h.2 p hp hb).imp (done_step hr hs) fun h => h.imp_right (waitedFor_step hr hs)
  | waitAlls props before cmds =>
    exact fun p hp hb => (h p hp hb).imp (done_step hr hs) (waitedFor_step hr hs)
  | _ => trivial

/-- One call moves on; where it goes is in order. -/
theorem callOk_set {t : Nat} {pc : LaunchPc} (h : ∀ u, CallOk flags s' (s.calls u))
    (hcalls : s'.calls = Function.update s.calls t pc) (hpc : CallOk flags s' pc) :
    ∀ u, CallOk flags s' (s'.calls u) := by
  intro u
  rw [hcalls, Function.update_apply]
  split
  · exact hpc
  · exact h u

theorem nullInv_step {act : NullAct} (hr : (lts cfg flags).Reachable s) (h : NullInv flags s)
    (hs : Step cfg flags s act s') : NullInv flags s' := by
  have hold : ∀ u, CallOk flags s' (s.calls u) := fun u => callOk_step hr hs (h.calls u)
  have hbefore : ∀ c, ∀ p ∈ s.before nullStream c, blocking flags p.1 → s'.Done p :=
    fun c p hp hb => done_step hr hs (h.before c p hp hb)
  have hret := returnedInv_reachable hr
  cases hs with
  | create i => exact ⟨hold, hbefore⟩
  | launchNull t props hpc =>
    refine ⟨callOk_set hold rfl ⟨fun p hp => hp, fun p hp hb => .inr (.inl ?_)⟩, hbefore⟩
    exact List.mem_filter.2 ⟨hret.managed p hp, hb⟩
  | submit act t i props before s' hlaunch hsub =>
    obtain ⟨x, hx, rfl⟩ := submit_eq hsub
    refine ⟨callOk_set hold rfl trivial, fun c p hp hb => ?_⟩
    have hp' : p ∈ if nullStream = i ∧ c = s.newCommand i props then before
      else s.before nullStream c := hp
    split at hp'
    · rename_i hnew
      -- the launch has waited for all of them
      rcases hlaunch with ⟨-, hi, -⟩ | ⟨-, -, hpc⟩
      · exact absurd hnew.1.symm hi
      · have hcall := hold t
        rw [hpc] at hcall
        exact (hcall p hp' hb).resolve_right fun ⟨w, pre, hw, _⟩ => nomatch hw
    · exact hbefore c p hp' hb
  | submitWaitAll t props before i todo cmds x w hpc hx =>
    have hcall := hold t
    have hsub := h.calls t
    rw [hpc] at hcall hsub
    refine ⟨callOk_set hold rfl ⟨hcall.1, fun p hp hb => ?_⟩, hbefore⟩
    refine (hcall.2 p hp hb).imp_right fun hcov => ?_
    have hmore (hw : WaitedFor (setQueue i x s) cmds p) :
        WaitedFor (setQueue i x s) (cmds ++ [(i, w)]) p := by
      obtain ⟨v, pre, hv, hpre, hmem⟩ := hw
      exact ⟨v, pre, List.mem_append_left _ hv, hpre, hmem⟩
    rcases hcov with hin | hcov
    · rcases List.mem_cons.1 hin with hi | hin
      · refine .inr ⟨w, (s.xq i).machine.enqueued, ?_, ?_, ?_⟩
        · rw [hi]; exact List.mem_append_right _ List.mem_cons_self
        · show _ ∈ ((setQueue i x s).xq p.1).machine.waitAlls
          rw [hi, setQueue_self, (AsyncXQueue.submitWaitAll_cases hx).2.1]
          exact List.mem_append_right _ List.mem_cons_self
        · rw [← hi]; exact hret.enqueued p (hsub.1 p hp)
      · exact .inl hin
    · exact .inr (hmore hcov)
  | submitted t props before cmds hpc =>
    have hcall := hold t
    rw [hpc] at hcall
    refine ⟨callOk_set hold rfl fun p hp hb => ?_, hbefore⟩
    exact (hcall.2 p hp hb).imp_right fun hcov => hcov.resolve_left nofun
  | wait t props before i w cmds hpc hdone =>
    have hcall := hold t
    rw [hpc] at hcall
    refine ⟨callOk_set hold rfl fun p hp hb => ?_, hbefore⟩
    rcases hcall p hp hb with hd | ⟨v, pre, hv, hpre, hmem⟩
    · exact .inl hd
    · rcases List.mem_cons.1 hv with he | hv
      · obtain ⟨hi, rfl⟩ := Prod.mk.inj he
        left
        have hpre' : (v, pre) ∈ (s.xq p.1).machine.waitAlls := hpre
        exact waitAll_covers (queueInv_reachable hr p.1).machine hpre' (by rw [hi]; exact hdone)
          p.2 hmem
      · exact .inr ⟨v, pre, hv, hpre, hmem⟩
  | launchReturn t i c hpc hidle => exact ⟨callOk_set hold rfl trivial, hbefore⟩
  | xq i a x hact hx => exact ⟨hold, hbefore⟩

theorem nullInv_reachable (hr : (lts cfg flags).Reachable s) : NullInv flags s := by
  refine LTS.reachable_induction (I := NullInv flags) ?_ ?_ hr
  · rintro s rfl
    exact ⟨fun t => trivial, fun c => nofun⟩
  · exact fun s act s' hr h hs => nullInv_step hr h (step_cases hs)

/-! ## The order in which the driver gets its work -/

/-- What `before` holds for a command not submitted yet is changed at its
Submit. -/
theorem Step.before {act : NullAct} (hs : Step cfg flags s act s') (i : Nat) (c : HwCommand) :
    s'.before i c = s.before i c ∨
      c.idx = (s.xq i).nextHwCmdIdx ∧ (i ≠ nullStream →
        (∃ t props, act = .xLaunchKernel t i props) ∧ s'.before i c = s.returned) := by
  cases hs with
  | submit act t j props before s' hlaunch hsub =>
    obtain ⟨x, -, rfl⟩ := submit_eq hsub
    show (if i = j ∧ c = s.newCommand j props then before else s.before i c) = s.before i c ∨ _
    by_cases hnew : i = j ∧ c = s.newCommand j props
    · right
      obtain ⟨rfl, rfl⟩ := hnew
      refine ⟨rfl, fun hi => ?_⟩
      obtain ⟨rfl, -, rfl⟩ := hlaunch.resolve_right fun h => hi h.2.1
      exact ⟨⟨t, props, rfl⟩, if_pos ⟨rfl, rfl⟩⟩
    · rw [if_neg hnew]; exact .inl rfl
  | _ => exact .inl rfl

/-- A command that is launched has its `before` for good. -/
theorem before_launched {act : NullAct} (hr : (lts cfg flags).Reachable s)
    (hs : Step cfg flags s act s') {i : Nat} {c : HwCommand}
    (hc : c ∈ (s.xq i).machine.launched) : s'.before i c = s.before i c := by
  refine (hs.before i c).resolve_right fun hnew => ?_
  have hx := (queue_reachable hr i).of_restrict
  have hlog := logInv_reachable (machine_reachable hr i)
  have hlt := ((AsyncXQueue.submitInv_reachable hx).enqueued c (hlog.launched_sublist.subset hc)).2
  exact Int.ne_of_lt hlt hnew.1

/-- A launch on queue `j` that had returned when one on queue `i` was called
is issued, for the `j` and `i` that `P` is about. -/
def BeforeIssued (P : Nat → Nat → Prop) (s : NullShim) : Prop :=
  ∀ i c, ∀ p ∈ s.before i c, P p.1 i → p.2 ∈ (s.xq p.1).machine.launched

/-- The driver gets them in the order of the calls. -/
def IssuedInOrder (P : Nat → Nat → Prop) (s : NullShim) : Prop :=
  ∀ i c, (i, c) ∈ s.issued → ∀ p ∈ s.before i c, P p.1 i → [p, (i, c)].Sublist s.issued

theorem issuedInOrder_step {act : NullAct} {P : Nat → Nat → Prop} (hP : ∀ i, ¬ P i i)
    (hr : (lts cfg flags).Reachable s) (hs : Step cfg flags s act s') (h : IssuedInOrder P s)
    (hbefore : BeforeIssued P s') : IssuedInOrder P s' := by
  have hiff := issued_reachable hr
  have hkeep {i : Nat} {c : HwCommand} (hc : (i, c) ∈ s.issued) :
      ∀ p ∈ s'.before i c, P p.1 i → [p, (i, c)].Sublist s.issued := by
    rw [before_launched hr hs ((hiff _).1 hc)]
    exact h i c hc
  rcases hs.issued hr with ⟨his, -⟩ | ⟨j, d, his, -, hother⟩
  · intro i c hc
    rw [his] at hc ⊢
    exact hkeep hc
  · intro i c hc p hp hPi
    rw [his] at hc ⊢
    rcases List.mem_append.1 hc with hc | hc
    · exact (hkeep hc p hp hPi).trans (List.sublist_append_left _ _)
    · obtain ⟨rfl, rfl⟩ := Prod.mk.inj (List.mem_singleton.1 hc)
      -- `p` is on another queue, so it was issued before this step
      have hne : p.1 ≠ i := fun he => hP i (by rw [he] at hPi; exact hPi)
      have hp' := hbefore i c p hp hPi
      rw [hother p.1 hne] at hp'
      exact List.Sublist.append (List.singleton_sublist.2 ((hiff p).2 hp')) (List.Sublist.refl _)

theorem issuedInOrder_reachable {ok : NullShim → NullAct → Prop} {P : Nat → Nat → Prop}
    (hP : ∀ i, ¬ P i i)
    (hbefore : ∀ s, ((lts cfg flags).restrict ok).Reachable s → BeforeIssued P s)
    (hr : ((lts cfg flags).restrict ok).Reachable s) : IssuedInOrder P s := by
  refine LTS.reachable_induction (I := IssuedInOrder P) ?_ ?_ hr
  · rintro s rfl
    exact fun i c => nofun
  · exact fun s act s' hr h hs => issuedInOrder_step hP hr.of_restrict (step_cases hs.1) h
      (hbefore s' (hr.step hs))

/-- From a blocking stream to the null stream. -/
def BlockingToNull (flags : Nat → BitVec 32) (j i : Nat) : Prop :=
  i = nullStream ∧ j ≠ nullStream ∧ blocking flags j

/-- From the null stream to a blocking stream. -/
def NullToBlocking (flags : Nat → BitVec 32) (j i : Nat) : Prop :=
  j = nullStream ∧ i ≠ nullStream ∧ blocking flags i

/-- A launch on the null stream waits for the blocking streams, in every run. -/
theorem blocking_before_null (hr : (lts cfg flags).Reachable s) :
    IssuedInOrder (BlockingToNull flags) s := by
  have hr' : ((lts cfg flags).restrict fun _ _ => True).Reachable s := by
    refine LTS.reachable_induction
      (I := ((lts cfg flags).restrict fun _ _ => True).Reachable) ?_ ?_ hr
    · exact fun s h => LTS.reachable_init h
    · exact fun s act s' _ h hs => h.step ⟨hs, trivial⟩
  refine issuedInOrder_reachable (fun i h => h.2.1 h.1) (fun s hr i c p hp hP => ?_) hr'
  obtain ⟨rfl, -, hb⟩ := hP
  exact ((nullInv_reachable hr.of_restrict).before c p hp hb).launched hr.of_restrict

/-- A launch on a blocking stream is called when every launch on the null
stream that returned is issued. -/
def NullIssued (flags : Nat → BitVec 32) (s : NullShim) : NullAct → Prop
  | .xLaunchKernel _ i _ =>
    i ≠ nullStream → blocking flags i → ∀ p ∈ s.returned, p.1 = nullStream → p ∈ s.issued
  | _ => True

instance (flags : Nat → BitVec 32) (s : NullShim) (act : NullAct) :
    Decidable (NullIssued flags s act) :=
  match act with
  | .xLaunchKernel _ i _ =>
    inferInstanceAs (Decidable (i ≠ nullStream → blocking flags i →
      ∀ p ∈ s.returned, p.1 = nullStream → p ∈ s.issued))
  | .xStreamCreate _ => .isTrue trivial
  | .call _ => .isTrue trivial
  | .xq _ _ => .isTrue trivial

theorem nullIssued_before (hr : ((lts cfg flags).restrict (NullIssued flags)).Reachable s) :
    BeforeIssued (NullToBlocking flags) s := by
  refine LTS.reachable_induction (I := BeforeIssued (NullToBlocking flags)) ?_ ?_ hr
  · rintro s rfl
    exact fun i c => nofun
  · intro s act s' hr h hs i c p hp hP
    have hstep := step_cases hs.1
    refine (launched_step hr.of_restrict hstep p.1).subset ?_
    rcases hstep.before i c with he | ⟨-, hnew⟩
    · rw [he] at hp
      exact h i c p hp hP
    · obtain ⟨hj, hi, hb⟩ := hP
      obtain ⟨⟨t, props, rfl⟩, he⟩ := hnew hi
      rw [he] at hp
      exact (issued_reachable hr.of_restrict p).1 (hs.2 hi hb p hp hj)

/-- **The order of the legacy null stream.** From the blocking streams to the
null stream it is kept in every run; from the null stream to the blocking
streams in every run in which launches on blocking streams are called with the
null stream's work issued. -/
theorem legacy_order (cfg : Nat → Config) (flags : Nat → BitVec 32) :
    (∀ s, (lts cfg flags).Reachable s → IssuedInOrder (BlockingToNull flags) s) ∧
    ∀ s, ((lts cfg flags).restrict (NullIssued flags)).Reachable s →
      IssuedInOrder (BlockingToNull flags) s ∧ IssuedInOrder (NullToBlocking flags) s := by
  refine ⟨fun s hr => blocking_before_null hr, fun s hr => ?_⟩
  refine ⟨blocking_before_null hr.of_restrict, ?_⟩
  exact issuedInOrder_reachable (fun i h => h.2.1 h.1) (fun s hr => nullIssued_before hr) hr

/-! ## One kernel on each -/

/-- Thread 0 launches a kernel on the null stream; the call returns. -/
def nullTrace : List NullAct :=
  [.xLaunchKernel 0 nullStream kCommandPropertyNone, .call 0, .call 0] ++
  List.replicate 3 (.xq nullStream (.submitter 0)) ++ [.call 0]

/-- Then one on stream 1. -/
def blockingTrace : List NullAct :=
  [.xLaunchKernel 0 1 kCommandPropertyNone] ++ List.replicate 3 (.xq 1 (.submitter 0)) ++ [.call 0]

/-- The worker of queue `i` launches the first kernel. -/
def workerTrace (i : Nat) : List NullAct :=
  List.replicate 7 (.xq i (.machine (.worker true)))

def view (s : NullShim) : List (Nat × HwCommand) × List (Nat × HwCommand) :=
  (s.issued, s.before 1 (halCmd 1))

theorem legacy_order_issued : ∃ s,
    ((lts (fun _ => cfgOne) fun _ => 0).restrict (NullIssued fun _ => 0)).Reachable s ∧
    s.issued = [(0, halCmd 1), (1, halCmd 1)] ∧ s.before 1 (halCmd 1) = [(0, halCmd 1)] ∧
    IssuedInOrder (NullToBlocking fun _ => 0) s := by
  have htrace : ((LTS.exec (LTS.guarded (NullIssued fun _ => 0)
      (step (fun _ => cfgOne) fun _ => 0)) init
      (nullTrace ++ workerTrace 0 ++ blockingTrace ++ workerTrace 1)).map view) =
      some ([(0, halCmd 1), (1, halCmd 1)], [(0, halCmd 1)]) := by decide
  obtain ⟨s, hs, he⟩ := Option.map_eq_some_iff.1 htrace
  simp only [view, Prod.mk.injEq] at he
  obtain ⟨hissued, hbefore⟩ := he
  have hr : ((lts (fun _ => cfgOne) fun _ => 0).restrict (NullIssued fun _ => 0)).Reachable s :=
    LTS.reachable_restrict_of_exec rfl hs
  exact ⟨s, hr, hissued, hbefore, ((legacy_order _ _).2 s hr).2⟩

/-- **Counterexample**: the worker of the null stream lags, and the kernel on
stream 1 is issued while the one before it is in the buffer. -/
theorem null_overtaken :
    ¬ ∀ (cfg : Nat → Config) (flags : Nat → BitVec 32) (s : NullShim), (lts cfg flags).Reachable s →
      IssuedInOrder (BlockingToNull flags) s ∧ IssuedInOrder (NullToBlocking flags) s := by
  intro h
  have htrace : ((LTS.exec (step (fun _ => cfgOne) fun _ => 0) init
      (nullTrace ++ blockingTrace ++ workerTrace 1)).map view) =
      some ([(1, halCmd 1)], [(0, halCmd 1)]) := by decide
  obtain ⟨s, hs, he⟩ := Option.map_eq_some_iff.1 htrace
  simp only [view, Prod.mk.injEq] at he
  obtain ⟨hissued, hbefore⟩ := he
  have hr : (lts (fun _ => cfgOne) fun _ => 0).Reachable s := LTS.reachable_of_exec rfl hs
  have hbad := (h _ _ s hr).2 1 (halCmd 1) (by rw [hissued]; exact List.mem_cons_self) (0, halCmd 1)
    (by rw [hbefore]; exact List.mem_cons_self) ⟨rfl, by decide, by decide⟩
  rw [hissued] at hbad
  exact absurd hbad.length_le (by decide)

end NullShim
end Xsched.Cuda
