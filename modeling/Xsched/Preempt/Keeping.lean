import Xsched.Preempt.AsyncXQueue

/-!
# Queues that nobody resumes with DropCommands

Nothing is dropped in them: the machine inside is reachable without drops, so
`WaitAll` covers what was enqueued before it. The configuration may change
from step to step.
-/
namespace Xsched.Preempt

/-- A machine under changing configurations. -/
def reconfigured : LTS State Act where
  init s := s = Preempt.init
  step s act s' := ∃ cfg, Preempt.step cfg s act = some s'

instance : Driven reconfigured := ⟨fun _ h => h, fun _ _ _ h => h⟩

namespace AsyncXQueue

def kQueueResumeFlagNone : Flags := 0
def kQueueSuspendFlagNone : Flags := 0

/-- A call that completes nothing. -/
def Keeping : CtrlPc → Prop
  | .resumeCalls call _ => call.drops = false
  | .resumeWorker call => call.drops = false
  | .resumeDropAll _ => False
  | .resumeDropIdx _ => False
  | .resumeAndDrop _ _ => False
  | _ => True

def keepingAct : XAct → Prop
  | .resume _ flags => dropsCommands flags = false
  | _ => True

/-- What holds of a queue that nobody resumes with `DropCommands`. -/
structure QueueInv (x : AsyncXQueue) : Prop where
  machine : (reconfigured.restrict Preempt.NoDrop).Reachable x.machine
  ctrls : ∀ t, Keeping (x.ctrls t)

theorem queueInv_init : QueueInv init where
  machine := LTS.reachable_init rfl
  ctrls _ := trivial

section
variable {cfg : Config} {x x' : AsyncXQueue} {act : XAct}

theorem keeping_set {t : Nat} {pc : CtrlPc} (h : ∀ t, Keeping (x.ctrls t)) (hpc : Keeping pc) :
    ∀ t', Keeping ((setCtrl t pc x).ctrls t') := by
  intro t'
  change Keeping (Function.update x.ctrls t pc t')
  rcases eq_or_ne t' t with rfl | hne
  · rw [Function.update_self]; exact hpc
  · rw [Function.update_of_ne hne]; exact h t'

/-- The step of the machine drops nothing. -/
theorem Keeping.machine_step (hk : ∀ t, Keeping (x.ctrls t)) (h : Step cfg x act x') :
    x'.machine = x.machine ∨
      ∃ a, (reconfigured.restrict Preempt.NoDrop).step x.machine a x'.machine := by
  cases h with
  | machine a m hd hm =>
    refine .inr ⟨a, ⟨cfg, hm⟩, ?_⟩
    cases a <;> first | rfl | cases hd
  | enqueue t c m hpc hm => exact .inr ⟨_, ⟨cfg, hm⟩, rfl⟩
  | pause t flags m hpc hm => exact .inr ⟨_, ⟨cfg, hm⟩, rfl⟩
  | resume t call m hpc hm => exact .inr ⟨_, ⟨cfg, hm⟩, rfl⟩
  | dropAll t call m hpc hm =>
    have := hk t
    rw [hpc] at this
    exact this.elim
  | resumeAndDrop t call d m hpc hm =>
    have := hk t
    rw [hpc] at this
    exact this.elim
  | _ => exact .inl rfl

theorem keeping_step (hact : keepingAct act) (hk : ∀ t, Keeping (x.ctrls t))
    (h : Step cfg x act x') : ∀ t, Keeping (x'.ctrls t) := by
  cases h with
  | suspendStart t flags hpc => exact keeping_set hk trivial
  | suspendFail t flags hpc hs => exact keeping_set hk trivial
  | suspendWin t flags hpc hs => exact keeping_set hk trivial
  | pause t flags m hpc hm => exact keeping_set hk trivial
  | suspendReturn t hpc => exact keeping_set hk trivial
  | suspendCall t f todo hpc => exact keeping_set hk trivial
  | resumeWin t flags hpc hs => exact keeping_set hk hact
  | resumeCall t call f todo hpc =>
    have hcall := hk t
    rw [hpc] at hcall
    exact keeping_set hk hcall
  | resumeCalled t call hpc =>
    have hcall : call.drops = false := by
      have := hk t
      rwa [hpc] at this
    refine keeping_set hk ?_
    rw [resumeNext, if_pos (.inr hcall)]
    exact hcall
  | resume t call m hpc hm => exact keeping_set hk trivial
  | dropAll t call m hpc hm =>
    have := hk t
    rw [hpc] at this
    exact this.elim
  | dropIdx t call hpc =>
    have := hk t
    rw [hpc] at this
    exact this.elim
  | resumeAndDrop t call d m hpc hm => exact keeping_set hk trivial
  | _ => exact hk

theorem queueInv_step (hact : keepingAct act) (hq : QueueInv x)
    (h : Step cfg x act x') : QueueInv x' where
  machine := by
    rcases Keeping.machine_step hq.ctrls h with he | ⟨a, hs⟩
    · rw [he]; exact hq.machine
    · exact hq.machine.step hs
  ctrls := keeping_step hact hq.ctrls h

/-- What a call of `WaitAll` waits for remains, and remains Completed. -/
theorem QueueInv.waits (hq : QueueInv x) (h : Step cfg x act x') {w : XCommand}
    {pre : List HwCommand} (hw : (w, pre) ∈ x.machine.waitAlls) :
    (w, pre) ∈ x'.machine.waitAlls ∧
      (x.machine.cmdState w = .completed → x'.machine.cmdState w = .completed) := by
  rcases Keeping.machine_step hq.ctrls h with he | ⟨a, hs⟩
  · rw [he]; exact ⟨hw, id⟩
  · refine ⟨?_, waitAll_stays hq.machine hs.1 hw⟩
    rcases step_waitAlls (step_of_reachable hq.machine.of_restrict hs.1) with he | ⟨-, he⟩
    · rw [he]; exact hw
    · rw [he]; exact List.mem_append_left _ hw

theorem suspend_keeping (t : Nat) (flags : Flags) : keepingAct (.suspend t flags) := trivial

theorem resume_keeping {t : Nat} : keepingAct (.resume t kQueueResumeFlagNone) := rfl

theorem controller_keeping (t : Nat) : keepingAct (.controller t) := trivial

theorem machine_keeping (a : Act) : keepingAct (.machine a) := trivial

/-- Enqueuing an XQueueWaitAllCommand leaves the HwCommands alone; sharing
one leaves everything. -/
theorem submitWaitAll_frame {w : XCommand} (h : submitWaitAll cfg x = some (x', w)) :
    x'.suspended = x.suspended ∧ x'.machine.enqueued = x.machine.enqueued ∧
      (∀ c, x'.machine.cmdState (.hardware c) = x.machine.cmdState (.hardware c)) ∧
      (x.machine.lastCmd.isWaitAll → x'.machine.cmdState = x.machine.cmdState) := by
  obtain ⟨hs, -, -⟩ := submitWaitAll_cases h
  cases step_of_lts hs with
  | machine _ m hd hm =>
    have hm' : m = enqueueXQueueWaitAllCommand x.machine :=
      machine_eq (fun s hab => by simp [Preempt.step, hab]) hm
    subst hm'
    refine ⟨rfl, ?_, fun c => ?_, fun hl => ?_⟩
    · show (enqueueXQueueWaitAllCommand x.machine).enqueued = _
      unfold enqueueXQueueWaitAllCommand
      split <;> split <;> rfl
    · show (enqueueXQueueWaitAllCommand x.machine).cmdState _ = _
      unfold enqueueXQueueWaitAllCommand
      split
      · split <;> rfl
      · split
        · rfl
        · have hne : XCommand.hardware c ≠ .xQueueWaitAll x.machine.nextId := by simp
          simp only [waitAllReturns, setState, Function.update_of_ne hne]
    · show (enqueueXQueueWaitAllCommand x.machine).cmdState = _
      unfold enqueueXQueueWaitAllCommand
      rw [if_pos hl, if_pos hl]
      split <;> rfl
  | skip _ hact ha => exact ⟨rfl, rfl, fun _ => rfl, fun _ => rfl⟩

end

end AsyncXQueue
end Xsched.Preempt
