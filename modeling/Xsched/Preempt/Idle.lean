import Mathlib.Data.List.Chain
import Xsched.Preempt.WaitAll

/-!
# Idle means done

While `xq_state_` is Idle nothing is in the buffer, in the worker's hand or
in flight, `last_cmd_` is an XQueueWaitAllCommand, and so everything enqueued
is Completed (`idle_means_done`). The Ready and Idle events of one buffer
alternate and the last one tells `xq_state_`. `XQueueQuery` and
`cuStreamQuery` answer from `xq_state_` alone.

The runs have no drops and enqueue HwCommands and WaitAlls only: a
HostFunctionCommand enqueued on an idle queue leaves it Idle with another
`last_cmd_`.
-/
namespace Xsched.Preempt

variable {s s' : State} {cfg : Config}

/-- mirrors preempt/src/xqueue/async_xqueue.cpp:84-87 -/
def query (s : State) : XQueueState := s.getXQueueState

/-- The results of `cuStreamQuery`; `other` is whatever else the driver says. -/
inductive CUresult where
  | success | notReady | other (code : Nat)
  deriving DecidableEq, Repr

/-- `XStreamQuery` on a stream that owns an XQueue; `driver` is what
`Driver::StreamQuery` would answer.
mirrors platforms/cuda/shim/src/shim.cpp:470-485 -/
def xStreamQuery (driver : CUresult) (s : State) : CUresult :=
  match query s with
  | .idle => .success
  | .ready => .notReady
  | .unknown => driver

/-- No drops, and nothing but HwCommands and WaitAlls is enqueued. -/
def Plain (_ : State) (act : Act) : Prop :=
  act.drops = false ∧ act ≠ .enqueueHostFunction ∧ act ≠ .enqueueDestroy

instance (s : State) (act : Act) : Decidable (Plain s act) :=
  inferInstanceAs (Decidable (act.drops = false ∧ act ≠ .enqueueHostFunction ∧ act ≠ .enqueueDestroy))

theorem Plain.noDrop {act : Act} (h : Plain s act) : NoDrop s act := h.1

/-! ## Nothing in flight -/

def IdleLogInv (s : State) : Prop := s.xqState = .idle → s.cmdLog = []

/-- An idle queue launches nothing. -/
theorem idle_launched {act : Act} (h : IdleInv s) (hq : s.xqState = .idle) (ht : Step s act s') :
    s'.launched = s.launched := by
  cases step_pipe ht with
  | launch _ c hp hl hid hd hla he =>
    have hnil := h hq
    rw [hp] at hnil; cases hnil
  | stay _ hp hl hid hla he => exact hla
  | push _ x hx hp hl hid hla he hst hb hds => exact hla
  | finish _ x hx hc hp hl hid hla he => exact hla
  | drop _ c hp hl hid hd hla he hst => exact hla
  | dropAll hp hl hid hla he hst => exact hla

theorem idleLogInv_step {act : Act} (hi : IdleInv s) (hl : LastInv s) (h : IdleLogInv s)
    (ht : Step s act s') : IdleLogInv s' := by
  intro hq
  cases step_state ht with
  | stay hx he =>
    rw [hx] at hq
    exact step_log_nil ht (h hq) (idle_launched hi hq ht)
  | wake c hx hx' he => rw [hx'] at hq; cases hq
  | sleep hx hx' he hp hp' hw hla hlog hl' =>
    rw [hlog]
    rcases hl with ⟨l, hlast⟩ | ⟨-, hnil⟩
    · rw [hp] at hlast; simp at hlast
    · exact hnil hw

theorem idleLogInv_reachable (hr : ((lts cfg).restrict NoDrop).Reachable s) : IdleLogInv s := by
  refine LTS.reachable_induction (I := IdleLogInv) ?_ ?_ hr
  · rintro s rfl _; rfl
  · exact fun s act s' hr h hs => idleLogInv_step (idleInv_reachable hr.of_restrict)
      (lastInv_reachable hr) h (step_of_reachable hr.of_restrict hs.1)

/-! ## `last_cmd_` of an idle queue -/

/-- While `last_cmd_` is a WaitAll, only a submission replaces it by something
else. -/
theorem plain_lastCmd {act : Act} (ht : Step s act s') (hp : Plain s act)
    (hl : s.lastCmd.isWaitAll) : s'.lastCmd.isWaitAll ∨ ∃ c, act = .submit c := by
  have htail {n : Nat} {x : XCommand} {s₀ s₁ : State} (ht : Tail n x s₀ s₁) :
      s₁.lastCmd = s₀.lastCmd := by
    cases ht <;> rfl
  cases ht with
  | worker b s' ht =>
    refine .inl ?_
    cases ht with
    | generated x hpc hc hn hx hb => exact absurd hl hn
    | region x s' hpc hne ht => rw [htail ht]; exact hl
    | synced call r s' hpc hcnt ht =>
      obtain ⟨f, log, sync, he⟩ := syncFinish_frame call.target s
      rw [htail ht, he]; exact hl
    | _ => exact hl
  | app t s' ht => cases ht <;> exact .inl hl
  | wait t c s' ht => cases ht <;> exact .inl hl
  | submit c hidx hc => exact .inr ⟨c, rfl⟩
  | enqueueOther act x hx =>
    rcases hx with ⟨rfl, -⟩ | ⟨rfl, -⟩
    · exact absurd rfl hp.2.1
    · exact absurd rfl hp.2.2
  | waitAllFresh hq hn => exact absurd hl hn
  | _ => exact .inl hl

def IdleLastInv (s : State) : Prop := s.xqState = .idle → s.lastCmd.isWaitAll

theorem idleLastInv_step {act : Act} (h : IdleLastInv s) (ht : Step s act s') (hp : Plain s act) :
    IdleLastInv s' := by
  intro hq
  cases step_state ht with
  | stay hx he =>
    rw [hx] at hq
    rcases plain_lastCmd ht hp (h hq) with hw | ⟨c, rfl⟩
    · exact hw
    · have hsub := idle_no_submit ht (hx.trans hq)
      rw [step_enqueued ht] at hsub
      exact absurd (List.append_right_eq_self.1 hsub) (List.cons_ne_nil _ _)
  | wake c hx hx' he => rw [hx'] at hq; cases hq
  | sleep hx hx' he hp hp' hw hla hlog hl' => rw [hl']; exact hw

theorem idleLastInv_reachable (hr : ((lts cfg).restrict Plain).Reachable s) : IdleLastInv s := by
  refine LTS.reachable_induction (I := IdleLastInv) ?_ ?_ hr
  · rintro s rfl _; rfl
  · exact fun s act s' hr h hs => idleLastInv_step h (step_of_reachable hr.of_restrict hs.1) hs.2

/-! ## Events -/

/-- Ready and Idle in turn, Ready first. -/
def Alternating (es : List SchedEvent) : Prop := es.IsChain (· ≠ ·) ∧ es.head? ≠ some .idle

structure EventInv (s : State) : Prop where
  alternating : Alternating s.events
  ready : s.xqState = .ready → s.events.getLast? = some .ready
  idle : s.xqState = .idle → s.events.getLast? ≠ some .ready
  known : s.xqState ≠ .unknown

theorem alternating_snoc {es : List SchedEvent} {e : SchedEvent} (h : Alternating es)
    (hlast : es.getLast? ≠ some e) (hfirst : es = [] → e = .ready) : Alternating (es ++ [e]) := by
  refine ⟨h.1.append (List.isChain_singleton _) ?_, ?_⟩
  · intro x hx y hy
    simp only [List.head?_cons, Option.mem_def, Option.some.injEq] at hy
    rintro rfl
    rw [hy] at hlast
    exact hlast hx
  · cases es with
    | nil => rw [hfirst rfl]; nofun
    | cons x es => exact h.2

theorem eventInv_step {act : Act} (h : EventInv s) (ht : Step s act s') : EventInv s' := by
  have hlast (e : SchedEvent) : (s.events ++ [e]).getLast? = some e := List.getLast?_concat
  cases step_state ht with
  | stay hx he =>
    refine ⟨by rw [he]; exact h.alternating, ?_, ?_, by rw [hx]; exact h.known⟩
    · rw [hx, he]; exact h.ready
    · rw [hx, he]; exact h.idle
  | wake c hx hx' he =>
    refine ⟨?_, fun _ => by rw [he]; exact hlast _, fun hq => ?_, by rw [hx']; nofun⟩
    · rw [he]; exact alternating_snoc h.alternating (h.idle hx) fun _ => rfl
    · rw [hx'] at hq; cases hq
  | sleep hx hx' he hp hp' hw hla hlog hl' =>
    have hready := h.ready hx
    refine ⟨?_, fun hq => ?_, fun _ => ?_, by rw [hx']; nofun⟩
    · rw [he]
      refine alternating_snoc h.alternating (by rw [hready]; nofun) fun hnil => ?_
      rw [hnil] at hready; cases hready
    · rw [hx'] at hq; cases hq
    · rw [he, hlast]; nofun

theorem eventInv_reachable (hr : (lts cfg).Reachable s) : EventInv s := by
  refine LTS.reachable_induction (I := EventInv) ?_ ?_ hr
  · rintro s rfl
    exact ⟨⟨List.IsChain.nil, nofun⟩, nofun, fun _ => nofun, nofun⟩
  · exact fun s act s' hr h hs => eventInv_step h (step_of_reachable hr hs)

/-! ## Done -/

/-- Everything enqueued on an idle queue is Completed. -/
theorem idle_completed (hr : ((lts cfg).restrict NoDrop).Reachable s) (hq : s.xqState = .idle) :
    ∀ c ∈ s.enqueued, s.cmdState (.hardware c) = .completed :=
  all_completed (logInv_reachable hr.of_restrict) (fifoInv_reachable hr)
    (idleInv_reachable hr.of_restrict hq) (idleLogInv_reachable hr hq)

/-- **Idle means done.** An idle queue holds no HwCommand anywhere and its
`last_cmd_` is a WaitAll, so the assertion of `EnqueueXQueueWaitAllCommand`
does not fire; a query that reports idle means every HwCommand enqueued so
far is Completed; the events alternate, and the last one is Ready while an
enqueued HwCommand is not Completed. -/
theorem idle_means_done (hr : ((lts cfg).restrict Plain).Reachable s) :
    (s.xqState = .idle →
      hwCmds s.cmds = [] ∧ s.pc.hand = [] ∧ s.cmdLog = [] ∧ s.lastCmd.isWaitAll ∧
      enqueueXQueueWaitAllCommand s = waitAllReturns s.lastCmd s) ∧
    (query s = .idle → ∀ c ∈ s.enqueued, s.cmdState (.hardware c) = .completed) ∧
    (∀ driver, xStreamQuery driver s = .success →
      ∀ c ∈ s.enqueued, s.cmdState (.hardware c) = .completed) ∧
    Alternating s.events ∧
    ∀ c ∈ s.enqueued, s.cmdState (.hardware c) ≠ .completed → s.events.getLast? = some .ready := by
  have hnd : ((lts cfg).restrict NoDrop).Reachable s := hr.restrict_mono fun s act => Plain.noDrop
  have hev := eventInv_reachable hr.of_restrict
  have hdone := idle_completed hnd
  refine ⟨fun hq => ?_, hdone, fun driver hsuc => ?_, hev.alternating, fun c hc hn => ?_⟩
  · have hpipe := idleInv_reachable hr.of_restrict hq
    rw [hwCmds_pipeline, List.append_eq_nil_iff] at hpipe
    have hlast := idleLastInv_reachable hr hq
    refine ⟨hpipe.2, hpipe.1, idleLogInv_reachable hnd hq, hlast, ?_⟩
    rw [enqueueXQueueWaitAllCommand, if_pos hq, if_pos hlast]
  · refine hdone ?_
    unfold xStreamQuery at hsuc
    split at hsuc
    · assumption
    · cases hsuc
    · rename_i hq; exact absurd hq hev.known
  · refine hev.ready ?_
    cases hq : s.xqState with
    | ready => rfl
    | idle => exact absurd (hdone hq c hc) hn
    | unknown => exact absurd hq hev.known

/-- A command submitted, launched, and the queue gone idle again. -/
def idleTrace : List Act :=
  List.replicate 4 (Act.worker true) ++ [Act.submit (halCmd 1)] ++ List.replicate 15 (Act.worker true)

theorem idle_means_done_one : ∃ s, ((lts cfgOne).restrict Plain).Reachable s ∧
    s.enqueued = [halCmd 1] ∧ query s = .idle ∧ s.events = [.ready, .idle] ∧
    ∀ c ∈ s.enqueued, s.cmdState (.hardware c) = .completed := by
  have htrace : ((LTS.exec (LTS.guarded Plain (step cfgOne)) init idleTrace).map fun s =>
      (s.enqueued, query s, s.events)) = some ([halCmd 1], .idle, [.ready, .idle]) := by decide
  obtain ⟨s, hs, he⟩ := Option.map_eq_some_iff.1 htrace
  simp only [Prod.mk.injEq] at he
  have hr : ((lts cfgOne).restrict Plain).Reachable s := LTS.reachable_restrict_of_exec rfl hs
  exact ⟨s, hr, he.1, he.2.1, he.2.2, (idle_means_done hr).2.1 he.2.1⟩

end Xsched.Preempt
