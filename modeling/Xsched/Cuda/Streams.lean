import Xsched.Cuda.Events
import Xsched.Preempt.Drop
import Xsched.Preempt.Wait

/-!
# Streams with an XQueue and streams without

The device of `Events` beside streams that have no XQueue: what is launched
on them goes to the driver at once (`DeviceChange`). Whether a stream has an
XQueue is fixed for a run.

A queue of the device is suspended under `kPreemptLevelBlock` only, so it
drops nothing (`queue_noDrop`) and a command is completed after a `Synchronize`
call that covers it. `DeviceInv` adds to `EventInv` that every Completed
command is finished.
-/
namespace Xsched.Cuda
open Preempt
open Preempt.AsyncXQueue (XAct)

/-- What may happen to the device: a step of its own, or a record or a
finished launch on a stream without an XQueue. -/
inductive DeviceChange (cfg : Nat → Config) (hasXQueue : Nat → Bool) (d : Device) :
    Option DeviceAct → Device → Prop
  | same : DeviceChange cfg hasXQueue d none d
  | act (a : DeviceAct) (d' : Device) (h : (Device.lts cfg).step d a d') :
      DeviceChange cfg hasXQueue d (some a) d'
  | record (event p pos : Nat) (hx : hasXQueue p = false) :
      DeviceChange cfg hasXQueue d none
        { d with record := Function.update d.record event (some ⟨p, pos⟩) }
  | finish (p : Nat) :
      DeviceChange cfg hasXQueue d none
        { d with finished := Function.update d.finished p (d.finished p + 1) }

/-! ## A queue of the device drops nothing -/

/-- Suspended under Block only. -/
def Allowed (cfg : Config) (_ : AsyncXQueue) (act : XAct) : Prop := Device.allowed cfg act = true

/-- What the steps of a queue of the device meet. -/
def QueueAct (cfg : Config) (x : AsyncXQueue) (act : XAct) : Prop :=
  AsyncXQueue.NotOvertaking x act ∧ Device.allowed cfg act = true

section
variable {cfg : Config} {x x' : AsyncXQueue} {act : XAct}

/-- Above Block nobody suspends, so nobody resumes. -/
theorem queue_unsuspended (hl : cfg.level ≠ .block)
    (hr : ((AsyncXQueue.lts cfg).restrict (Allowed cfg)).Reachable x) :
    x.suspended = false ∧ ∀ t, x.ctrls t = .idle := by
  refine LTS.reachable_induction
    (I := fun x => x.suspended = false ∧ ∀ t, x.ctrls t = .idle) ?_ ?_ hr
  · rintro x rfl; exact ⟨rfl, fun _ => rfl⟩
  · intro x act x' _ h hs
    have hbusy {t : Nat} {pc : CtrlPc} (hpc : x.ctrls t = pc) (hne : pc ≠ .idle) : False :=
      hne (hpc.symm.trans (h.2 t))
    cases AsyncXQueue.step_of_lts hs.1 with
    | suspendStart t flags hpc => exact absurd (of_decide_eq_true hs.2) hl
    | resumeWin t flags hpc hsus => rw [h.1] at hsus; cases hsus
    | suspendFail t flags hpc hsus => exact (hbusy hpc nofun).elim
    | suspendWin t flags hpc hsus => exact (hbusy hpc nofun).elim
    | pause t flags m hpc hm => exact (hbusy hpc nofun).elim
    | suspendReturn t hpc => exact (hbusy hpc nofun).elim
    | suspendCall t f todo hpc => exact (hbusy hpc nofun).elim
    | resumeCall t call f todo hpc => exact (hbusy hpc nofun).elim
    | resumeCalled t call hpc => exact (hbusy hpc nofun).elim
    | resume t call m hpc hm => exact (hbusy hpc nofun).elim
    | dropAll t call m hpc hm => exact (hbusy hpc nofun).elim
    | dropIdx t call hpc => exact (hbusy hpc nofun).elim
    | resumeAndDrop t call d m hpc hm => exact (hbusy hpc nofun).elim
    | _ => exact h

theorem queue_noDrop (hr : ((AsyncXQueue.lts cfg).restrict (Allowed cfg)).Reachable x)
    (act : XAct) : AsyncXQueue.NoDrop x act := by
  by_cases hl : cfg.level = .block
  · exact AsyncXQueue.block_noDrop hl hr.of_restrict act
  · intro t a _ ha
    rw [(queue_unsuspended hl hr).2 t] at ha
    cases ha

theorem queue_allowed (hr : ((AsyncXQueue.lts cfg).restrict (QueueAct cfg)).Reachable x) :
    ((AsyncXQueue.lts cfg).restrict (Allowed cfg)).Reachable x :=
  hr.restrict_mono fun _ _ h => h.2

theorem queue_inOrder (hr : ((AsyncXQueue.lts cfg).restrict (QueueAct cfg)).Reachable x) :
    ((Preempt.lts cfg).restrict InOrder).Reachable x.machine :=
  AsyncXQueue.machine_inOrder (hr.restrict_mono fun _ _ h => h.1)

theorem queue_fifo (hr : ((AsyncXQueue.lts cfg).restrict (Allowed cfg)).Reachable x) :
    FifoInv x.machine := by
  have hnd : ((AsyncXQueue.lts cfg).restrict AsyncXQueue.NoDrop).Reachable x := by
    refine LTS.reachable_induction
      (I := ((AsyncXQueue.lts cfg).restrict AsyncXQueue.NoDrop).Reachable) ?_ ?_ hr
    · exact fun x h => LTS.reachable_init h
    · exact fun x act x' hr h hs => h.step ⟨hs.1, queue_noDrop hr act⟩
  exact fifoInv_reachable (AsyncXQueue.noDrop_machine hnd)

/-- The step of the machine below does not drop. -/
theorem machine_noDrop (hs : AsyncXQueue.Step cfg x act x') (hnd : AsyncXQueue.NoDrop x act) :
    x'.machine = x.machine ∨
      ∃ a, (Preempt.lts cfg).step x.machine a x'.machine ∧ a.drops = false := by
  cases hs with
  | machine a m hd hm =>
    refine .inr ⟨a, hm, ?_⟩
    cases a <;> first | rfl | cases hd
  | enqueue t c m hpc hm => exact .inr ⟨_, hm, rfl⟩
  | pause t flags m hpc hm => exact .inr ⟨_, hm, rfl⟩
  | resume t call m hpc hm => exact .inr ⟨_, hm, rfl⟩
  | dropAll t call m hpc hm =>
    have hno : Preempt.NoDrop _ _ := hnd t _ rfl (by rw [hpc]; rfl)
    cases hno
  | resumeAndDrop t call d m hpc hm =>
    have hno : Preempt.NoDrop _ _ := hnd t _ rfl (by rw [hpc]; rfl)
    cases hno
  | _ => exact .inl rfl

/-- A command is completed after a call that covers it has returned. -/
theorem queue_completes {c : HwCommand}
    (hr : ((AsyncXQueue.lts cfg).restrict (QueueAct cfg)).Reachable x)
    (hs : (AsyncXQueue.lts cfg).step x act x')
    (hnew : x.machine.cmdState (.hardware c) ≠ .completed)
    (hdone : x'.machine.cmdState (.hardware c) = .completed) :
    ∃ call ∈ x.machine.returned, call.Covers c := by
  have hm := queue_inOrder hr
  have hlog := logInv_reachable hm.of_restrict
  have hal := queue_allowed hr
  have hfifo := queue_fifo hal
  rcases machine_noDrop (AsyncXQueue.step_of_lts hs) (queue_noDrop hal act) with he | ⟨a, ha, hnd⟩
  · rw [he] at hdone; exact absurd hdone hnew
  · obtain ⟨hsync, hdrop⟩ := completion_sound hm ha hnew hdone
    by_cases hc : c ∈ x.machine.launched
    · rcases hsync hc with ⟨call, hret, -, hcov⟩ | ⟨⟨n, rfl⟩, -⟩
      · exact ⟨call, hret, hcov⟩
      · cases hnd
    · rcases hdrop hc with ⟨rfl, -⟩ | ⟨-, hpc, hle⟩
      · cases hnd
      · -- nothing was ever dropped
        have hhand : c ∈ x.machine.pc.hand := by
          rw [WorkerPc.hand_eq hpc]; exact List.mem_cons_self
        have henq : c ∈ x.machine.enqueued := by
          refine hlog.conserve.subset (List.mem_append_left _ ?_)
          exact List.mem_append_right _ hhand
        have hpos := hfifo.positive c henq
        rw [hfifo.dropIdx] at hle
        omega

end

/-! ## Records and the commands that make them -/

/-- The command has an index and is on its way into the buffer or past it. -/
def Holds (x : AsyncXQueue) (c : HwCommand) : Prop :=
  (∃ t, (x.submits t).pending = some c) ∨ c ∈ x.machine.enqueued

theorem holds_step {cfg : Config} {x x' : AsyncXQueue} {act : XAct} {c : HwCommand}
    (hr : (AsyncXQueue.lts cfg).Reachable x) (hs : AsyncXQueue.Step cfg x act x')
    (h : Holds x' c) :
    Holds x c ∨ ∃ t, act = .submit t c.props c.kind ∧ c.idx = x.nextHwCmdIdx := by
  have hframe {a : Act} {m : State} (hm : (Preempt.lts cfg).step x.machine a m)
      (ha : a.submitted = []) : m.enqueued = x.machine.enqueued := by
    rw [AsyncXQueue.enqueued_eq hr hm, ha, List.append_nil]
  -- a step that changes neither the submitters nor what is enqueued
  have hsame (hsub : x'.submits = x.submits) (henq : x'.machine.enqueued = x.machine.enqueued) :
      Holds x c := by
    unfold Holds at h
    rw [hsub, henq] at h
    exact h
  cases hs with
  | machine a m hd hm => exact .inl (hsame rfl (hframe hm (AsyncXQueue.direct_submitted hd)))
  | allocate t props kind hpc =>
    rcases h with ⟨u, hu⟩ | h
    · rw [AsyncXQueue.allocate, AsyncXQueue.setSubmit_submits] at hu
      split at hu
      · obtain rfl := Option.some.inj hu
        exact .inr ⟨t, rfl, rfl⟩
      · exact .inl (.inl ⟨u, hu⟩)
    · exact .inl (.inr h)
  | hook t d hpc =>
    rcases h with ⟨u, hu⟩ | h
    · rw [AsyncXQueue.setSubmit_submits] at hu
      split at hu
      · exact .inl (.inl ⟨t, by rw [hpc]; exact hu⟩)
      · exact .inl (.inl ⟨u, hu⟩)
    · exact .inl (.inr h)
  | enqueue t d m hpc hm =>
    rcases h with ⟨u, hu⟩ | h
    · rw [AsyncXQueue.setSubmit_submits] at hu
      split at hu
      · cases hu
      · exact .inl (.inl ⟨u, hu⟩)
    · have henq : c ∈ m.enqueued := h
      rw [AsyncXQueue.enqueued_eq hr hm] at henq
      rcases List.mem_append.1 henq with hc | hc
      · exact .inl (.inr hc)
      · rw [List.mem_singleton.1 hc]
        exact .inl (.inl ⟨t, by rw [hpc]; rfl⟩)
  | submitReturn t d hpc =>
    rcases h with ⟨u, hu⟩ | h
    · rw [AsyncXQueue.setSubmit_submits] at hu
      split at hu
      · cases hu
      · exact .inl (.inl ⟨u, hu⟩)
    · exact .inl (.inr h)
  | pause t flags m hpc hm => exact .inl (hsame rfl (hframe hm rfl))
  | resume t call m hpc hm => exact .inl (hsame rfl (hframe hm rfl))
  | dropAll t call m hpc hm => exact .inl (hsame rfl (hframe hm rfl))
  | resumeAndDrop t call d m hpc hm => exact .inl (hsame rfl (hframe hm rfl))
  | _ => exact .inl (hsame rfl rfl)

namespace Device

variable {cfg : Nat → Config} {d d' : Device}

theorem step_allowed {i : Nat} {act : XAct} (h : (lts cfg).step d (.xq i act) d') :
    allowed (cfg i) act = true := by
  have h' : step cfg d (.xq i act) = some d' := h
  simp only [step, Option.ite_none_right_eq_some, Bool.and_eq_true] at h'
  exact h'.1.1

/-- The queues of the device, and what its calls are worth. -/
structure DeviceInv (cfg : Nat → Config) (hasXQueue : Nat → Bool) (d : Device) : Prop where
  queue : ∀ i, ((AsyncXQueue.lts (cfg i)).restrict (QueueAct (cfg i))).Reachable (d.xq i)
  events : EventInv d
  done : ∀ i c, (d.xq i).machine.cmdState (.hardware c) = .completed → d.Finished i c
  /-- a stream without an XQueue launches nothing through one -/
  plain : ∀ p, hasXQueue p = false → d.launched p = []

variable {hasXQueue : Nat → Bool}

theorem deviceInv_xq {i : Nat} {act : XAct} {x : AsyncXQueue} (h : DeviceInv cfg hasXQueue d)
    (hx : hasXQueue i) (hs : (AsyncXQueue.lts (cfg i)).step (d.xq i) act x)
    (hret : ∀ v, act.caller = some v → d.mayReturn i v) (hal : allowed (cfg i) act = true)
    (hok : OwnRecords d (.xq i act)) : DeviceInv cfg hasXQueue (afterXq i act x d) := by
  have hr := h.queue i
  have hgrow : d.launched i <+: x.machine.launched := by
    rcases (AsyncXQueue.step_of_lts hs).machine_step with he | ⟨a, ha⟩
    · rw [he]; exact List.prefix_refl _
    · exact step_launched (step_of_reachable (AsyncXQueue.machine_reachable hr.of_restrict) ha)
  have hmono {j : Nat} {c : HwCommand} (hc : d.Finished j c) : (afterXq i act x d).Finished j c :=
    hc.mono (afterXq_launched hgrow j) (Nat.le_refl _)
  refine ⟨fun j => ?_, eventInv_xq h.events hr.of_restrict hs hret hok.2, fun j c hc => ?_,
    fun p hp => ?_⟩
  · by_cases hj : j = i
    · subst hj
      rw [afterXq_self]
      exact hr.step ⟨hs, hok.1, hal⟩
    · rw [afterXq_other act x d hj]; exact h.queue j
  · by_cases hj : j = i
    · subst hj
      rw [afterXq_self] at hc
      by_cases hold : (d.xq j).machine.cmdState (.hardware c) = .completed
      · exact hmono (h.done j c hold)
      · obtain ⟨call, hcall, hcov⟩ := queue_completes hr hs hold hc
        exact hmono (h.events.returned j call hcall c hcov)
    · rw [afterXq_other act x d hj] at hc
      exact hmono (h.done j c hc)
  · have hpi : p ≠ i := by
      rintro rfl
      rw [hx] at hp; cases hp
    rw [afterXq_launched_other hpi]; exact h.plain p hp

theorem deviceInv_finish (h : DeviceInv cfg hasXQueue d) (p : Nat) :
    DeviceInv cfg hasXQueue
      { d with finished := Function.update d.finished p (d.finished p + 1) } := by
  refine ⟨h.queue, eventInv_finish h.events p, fun i c hc => ?_, h.plain⟩
  refine (h.done i c hc).mono (List.prefix_refl _) ?_
  show d.finished i ≤ Function.update d.finished p (d.finished p + 1) i
  rw [Function.update_apply]
  split
  · rename_i hi; rw [hi]; exact Nat.le_succ _
  · exact Nat.le_refl _

/-- A record on a stream without an XQueue is no record of a queue's. -/
theorem deviceInv_record (h : DeviceInv cfg hasXQueue d) {p : Nat} (hp : hasXQueue p = false)
    (event pos : Nat) :
    DeviceInv cfg hasXQueue
      { d with record := Function.update d.record event (some ⟨p, pos⟩) } := by
  refine ⟨h.queue, ⟨fun i c e hc hk => ?_, h.events.called, h.events.returned⟩, h.done, h.plain⟩
  show ∃ cap, Function.update d.record event (some ⟨p, pos⟩) e = some cap ∧ _
  by_cases he : e = event
  · rw [he, Function.update_self]
    refine ⟨_, rfl, fun hq => ?_⟩
    have hnil := h.plain p hp
    rw [show p = i from hq] at hnil
    have hc' : c ∈ d.launched i := hc
    rw [hnil] at hc'; cases hc'
  · rw [Function.update_of_ne he]
    exact h.events.records i c e hc hk

theorem deviceInv_change {a : Option DeviceAct} (h : DeviceInv cfg hasXQueue d)
    (hc : DeviceChange cfg hasXQueue d a d') (hok : ∀ a', a = some a' → OwnRecords d a')
    (hx : ∀ i act, a = some (.xq i act) → hasXQueue i) : DeviceInv cfg hasXQueue d' := by
  cases hc with
  | same => exact h
  | act a _ hs =>
    have hal := fun i act (ha : a = .xq i act) => step_allowed (ha ▸ hs)
    cases step_cases hs with
    | xq i act x hq hret =>
      exact deviceInv_xq h (hx i act rfl) hq hret (hal i act rfl) (hok _ rfl)
    | finish i hlt => exact deviceInv_finish h i
  | record event p pos hp => exact deviceInv_record h hp event pos
  | finish p => exact deviceInv_finish h p

/-! ## What a step of the device keeps -/

/-- A Completed command stays Completed. -/
theorem completed_step {act : DeviceAct} {i : Nat} {c : HwCommand}
    (h : DeviceInv cfg hasXQueue d) (hs : (lts cfg).step d act d')
    (hc : (d.xq i).machine.cmdState (.hardware c) = .completed) :
    (d'.xq i).machine.cmdState (.hardware c) = .completed := by
  cases step_cases hs with
  | xq j act x hq hret =>
    by_cases hi : i = j
    · subst hi
      rw [afterXq_self]
      have hm := AsyncXQueue.machine_reachable (h.queue i).of_restrict
      rcases (AsyncXQueue.step_of_lts hq).machine_step with he | ⟨a, ha⟩
      · rw [he]; exact hc
      · exact completed_stays (logInv_reachable hm) (step_of_reachable hm ha) hc
    · rw [afterXq_other act x d hi]; exact hc
  | finish j hlt => exact hc

theorem waits_device {act : DeviceAct} {i t : Nat} {c : HwCommand}
    (h : DeviceInv cfg hasXQueue d) (hs : (lts cfg).step d act d')
    (hw : Waits (d.xq i).machine t c) : Waits (d'.xq i).machine t c := by
  cases step_cases hs with
  | xq j act x hq hret =>
    by_cases hi : i = j
    · subst hi
      rw [afterXq_self]
      rcases (AsyncXQueue.step_of_lts hq).machine_step with he | ⟨a, ha⟩
      · rw [he]; exact hw
      · exact waits_step (queue_inOrder (h.queue i)) ha hw
    · rw [afterXq_other act x d hi]; exact hw
  | finish j hlt => exact hw

theorem holds_device {act : DeviceAct} {i : Nat} {c : HwCommand}
    (h : DeviceInv cfg hasXQueue d) (hs : (lts cfg).step d act d') (hc : Holds (d'.xq i) c) :
    Holds (d.xq i) c ∨ ∃ t, act = .xq i (.submit t c.props c.kind) := by
  cases step_cases hs with
  | xq j act x hq hret =>
    by_cases hi : i = j
    · subst hi
      rw [afterXq_self] at hc
      have hstep := AsyncXQueue.step_of_lts hq
      exact (holds_step (h.queue i).of_restrict hstep hc).imp_right
        fun ⟨t, ht, _⟩ => ⟨t, by rw [ht]⟩
    · rw [afterXq_other act x d hi] at hc; exact .inl hc
  | finish j hlt => exact .inl hc

/-- The driver records what the queues launch. -/
theorem record_device {act : DeviceAct} {e : Nat} (h : DeviceInv cfg hasXQueue d)
    (hs : (lts cfg).step d act d') (he : d'.record e ≠ none) :
    d.record e ≠ none ∨ ∃ i c, Holds (d.xq i) c ∧ c.kind = .eventRecord e := by
  cases step_cases hs with
  | xq i act x hq hret =>
    have hr := (h.queue i).of_restrict
    have hm := AsyncXQueue.machine_reachable hr
    have hsame (hl : x.machine.launched = (d.xq i).machine.launched) : d.record e ≠ none := by
      have he' : recordLaunch i (d.xq i) x d.record e ≠ none := he
      rwa [recordLaunch_same hl] at he'
    rcases (AsyncXQueue.step_of_lts hq).machine_step with heq | ⟨a, ha⟩
    · exact .inl (hsame (by rw [heq]))
    · rcases step_launches (step_of_reachable hm ha) with hl | ⟨c, hl⟩
      · exact .inl (hsame hl)
      · have he' : recordLaunch i (d.xq i) x d.record e ≠ none := he
        rw [recordLaunch_new hl] at he'
        by_cases hk : c.kind = .eventRecord e
        · have hx : (AsyncXQueue.lts (cfg i)).Reachable x := hr.step hq
          have hlog := logInv_reachable (AsyncXQueue.machine_reachable hx)
          have hc : c ∈ x.machine.launched := by rw [hl]; exact List.mem_concat_self
          have hheld : Holds x c := .inr (hlog.launched_sublist.subset hc)
          rcases holds_step hr (AsyncXQueue.step_of_lts hq) hheld with hold | ⟨t, ht, -⟩
          · exact .inr ⟨i, c, hold, hk⟩
          · -- a Submit that takes its index launches nothing
            subst ht
            have hcases := AsyncXQueue.step_of_lts hq
            have hsame' : x.machine = (d.xq i).machine := by
              cases hcases <;> rfl
            exact .inl (hsame (by rw [hsame']))
        · rw [if_neg hk] at he'
          exact .inl he'
  | finish i hlt => exact .inl he

end Device

end Xsched.Cuda
