import Xsched.Preempt.Fifo

/-!
# WaitAll: a completed XQueueWaitAllCommand covers everything before it

`EnqueueXQueueWaitAllCommand` may hand out a command it shares with earlier
callers or with the worker. `LastInv` ties `last_cmd_` to the pipeline: it is
the pipeline's last command, or the pipeline is empty, and then nothing is in
flight if `last_cmd_` is an XQueueWaitAllCommand. For every command handed
out, `Barrier` says that the HwCommands it covers are launched or stand ahead
of it in the pipeline, and that once it left the pipeline they are Completed
(`wait_all_sound`).
-/
namespace Xsched.Preempt

variable {s s' : State} {cfg : Config} {M : LTS State Act} [Driven M]

/-! ## The pipeline holds distinct commands -/

structure PipeInv (s : State) : Prop where
  ids : ∀ x ∈ s.pipeline, x.hw? = none → x.id < s.nextId
  lastId : s.lastCmd.hw? = none → s.lastCmd.id < s.nextId
  nodup : s.pipeline.Nodup

theorem LogInv.pipeline_enqueued (h : LogInv s) {c : HwCommand}
    (hc : .hardware c ∈ s.pipeline) : c ∈ s.enqueued := by
  have hm : c ∈ hwCmds s.pipeline := mem_hwCmds.2 hc
  rw [hwCmds_pipeline] at hm
  refine h.conserve.subset ?_
  rw [List.append_assoc]
  exact List.mem_append_right _ hm

theorem PipeInv.fresh (h : PipeInv s) (hlog : LogInv s) {x : XCommand} (hx : x.Fresh s) :
    x ∉ s.pipeline := by
  intro hm
  cases x with
  | hardware c => exact hx.1 (hlog.pipeline_enqueued hm)
  | _ =>
    have hlt := h.ids _ hm rfl
    have he : XCommand.id _ = s.nextId := hx
    omega

/-- A command that leaves the pipeline at its front. -/
theorem pipeInv_pop (h : PipeInv s) {x : XCommand} (hp : s.pipeline = x :: s'.pipeline)
    (hl : s'.lastCmd = s.lastCmd) (hid : s'.nextId = s.nextId) : PipeInv s' := by
  refine ⟨fun y hy hn => ?_, fun hn => ?_, ?_⟩
  · rw [hid]
    exact h.ids y (by rw [hp]; exact List.mem_cons_of_mem _ hy) hn
  · rw [hl] at hn
    rw [hl, hid]; exact h.lastId hn
  · have hnd := h.nodup
    rw [hp] at hnd
    exact hnd.of_cons

theorem pipeInv_step {act : Act} (hlog : LogInv s) (h : PipeInv s) (ht : Step s act s') :
    PipeInv s' := by
  cases step_pipe ht with
  | stay _ hp hl hid hla he =>
    refine ⟨?_, ?_, by rw [hp]; exact h.nodup⟩
    · rw [hp, hid]; exact h.ids
    · rw [hl, hid]; exact h.lastId
  | push _ x hx hp hl hid hla he hst hb hds =>
    have hxid (hn : x.hw? = none) : x.id < s'.nextId := by
      have hlt := hid.2 hn
      cases x with
      | hardware c => cases hn
      | _ =>
        have he : XCommand.id _ = s.nextId := hx
        omega
    refine ⟨fun y hy hn => ?_, fun hn => by rw [hl] at hn ⊢; exact hxid hn, ?_⟩
    · rw [hp] at hy
      rcases List.mem_append.1 hy with hy | hy
      · have hlt := h.ids y hy hn
        omega
      · rw [List.mem_singleton.1 hy] at hn ⊢
        exact hxid hn
    · rw [hp]
      refine List.nodup_append.2 ⟨h.nodup, List.nodup_singleton _, fun y hy z hz => ?_⟩
      rw [List.mem_singleton.1 hz]
      rintro rfl
      exact h.fresh hlog hx hy
  | finish _ x hx hc hp hl hid hla he => exact pipeInv_pop h hp hl hid
  | launch _ c hp hl hid hd hla he => exact pipeInv_pop h hp hl hid
  | drop _ c hp hl hid hd hla he hst => exact pipeInv_pop h hp hl hid
  | dropAll hp hl hid hla he hst =>
    have hsub : s'.pipeline <+: s.pipeline := by rw [hp]; exact List.prefix_append _ _
    refine ⟨fun y hy => ?_, ?_, hsub.sublist.nodup h.nodup⟩
    · rw [hid]; exact h.ids y (hsub.subset hy)
    · rw [hl, hid]; exact h.lastId

theorem pipeInv_reachable (hr : M.Reachable s) : PipeInv s := by
  refine LTS.reachable_induction (I := PipeInv) ?_ ?_ hr
  · intro s h
    rw [Driven.init s h]
    refine ⟨fun x hx _ => ?_, fun _ => Nat.one_pos, List.nodup_singleton _⟩
    rw [List.mem_singleton.1 hx]; exact Nat.one_pos
  · exact fun s act s' hr h hs =>
      pipeInv_step (logInv_reachable hr) h (step_of_reachable hr hs)

/-! ## The log empties only -/

/-- A step that launches nothing puts nothing into the log. -/
theorem step_log_nil {act : Act} (ht : Step s act s') (hnil : s.cmdLog = [])
    (hla : s'.launched = s.launched) : s'.cmdLog = [] := by
  have htail {n : Nat} {x : XCommand} {s₀ s₁ : State} (ht : Tail n x s₀ s₁) (hnil : s₀.cmdLog = [])
      (hla : s₁.launched = s₀.launched) : s₁.cmdLog = [] := by
    cases ht with
    | launch c a e l last hx hd hs he hl =>
      exact absurd (List.append_right_eq_self.1 hla) (List.cons_ne_nil _ _)
    | _ => exact hnil
  cases ht with
  | worker b s' ht =>
    cases ht with
    | region x s' hpc hne ht => exact htail ht hnil hla
    | synced call r s' hpc hp ht =>
      refine htail ht ?_ (by rw [hla, syncFinish_launched])
      cases call.target
      · rfl
      · rw [syncFinish, popLogs_eq]
        show s.cmdLog.dropWhile _ = []
        rw [hnil]; rfl
    | _ => exact hnil
  | app t s' ht =>
    cases ht with
    | synced call c hpc hp =>
      show s.cmdLog.dropWhile _ = []
      rw [hnil]; rfl
    | _ => exact hnil
  | wait t c s' ht =>
    cases ht with
    | synced call c hpc hp =>
      show s.cmdLog.dropWhile _ = []
      rw [hnil]; rfl
    | _ => exact hnil
  | resumeAndDrop d => rfl
  | _ => exact hnil

/-- When the worker completes a command that waits for everything, nothing is
in flight. -/
def CompletingInv (s : State) : Prop :=
  ∀ x, s.pc = .completing x → x.isBatch = false → s.cmdLog = []

theorem completingInv_tail {n : Nat} {x : XCommand} (h : CompletingInv s) (hn : s.state ≠ .terminated)
    (ht : Tail n x s s') : CompletingInv s' := by
  cases ht with
  | finish a st hx hst hq hp' =>
    intro y hy hb
    cases hy
    exact (hq hb).resolve_right hn
  | abort => exact h
  | _ => exact fun y hy => nomatch hy

theorem completingInv_step {act : Act} (hp : PauseInv s) (h : CompletingInv s)
    (ht : Step s act s') : CompletingInv s' := by
  have hkeep (hpc : s'.pc = s.pc) (hla : s'.launched = s.launched) : CompletingInv s' :=
    fun x hx hb => step_log_nil ht (h x (hpc.symm.trans hx) hb) hla
  cases ht with
  | worker b s' ht =>
    cases ht with
    | region x s' hpc hne ht => exact completingInv_tail h (hp.locks_not_terminated hpc) ht
    | synced call r s' hpc hcnt ht =>
      refine completingInv_tail (fun x hx => ?_) ?_ ht
      · rw [syncFinish_pc, hpc] at hx; cases hx
      · rw [syncFinish_state, (hp.call call _ r hpc).2 hcnt]; decide
    | complete x hpc hx =>
      intro y hy
      cases x <;> cases hy
    | _ => exact fun y hy => nomatch hy
  | app t s' ht => exact hkeep (by cases ht <;> rfl) (launched_app ht)
  | wait t c s' ht => exact hkeep (by cases ht <;> rfl) (launched_app ht)
  | _ => exact hkeep rfl rfl

theorem completingInv_reachable (hr : M.Reachable s) : CompletingInv s := by
  refine LTS.reachable_induction (I := CompletingInv) ?_ ?_ hr
  · intro s h
    rw [Driven.init s h]
    intro x hx
    cases hx
  · exact fun s act s' hr h hs =>
      completingInv_step (pauseInv_reachable hr) h (step_of_reachable hr hs)

/-! ## Where `last_cmd_` is -/

/-- `last_cmd_` is the last command of the pipeline, or the pipeline is empty. -/
def LastInv (s : State) : Prop :=
  (∃ l, s.pipeline = l ++ [s.lastCmd]) ∨
    s.pipeline = [] ∧ (s.lastCmd.isWaitAll → s.cmdLog = [])

/-- The front of the pipeline leaves it; it was `last_cmd_` only if nothing
stands behind it. -/
theorem lastInv_pop (h : LastInv s) {x : XCommand} (hp : s.pipeline = x :: s'.pipeline)
    (hl : s'.lastCmd = s.lastCmd) (hlog : x.isWaitAll → s'.cmdLog = []) : LastInv s' := by
  rcases h with ⟨l, hlast⟩ | ⟨hnil, -⟩
  · rw [hp] at hlast
    cases l with
    | nil =>
      obtain ⟨hx, hnil⟩ := List.cons_eq_cons.1 hlast
      refine .inr ⟨hnil, fun hw => hlog ?_⟩
      rw [hx, ← hl]; exact hw
    | cons y l =>
      obtain ⟨-, hrest⟩ := List.cons_eq_cons.1 hlast
      exact .inl ⟨l, by rw [hl]; exact hrest⟩
  · rw [hp] at hnil; cases hnil

theorem lastInv_step {act : Act} (hc : CompletingInv s) (h : LastInv s) (ht : Step s act s')
    (hnd : NoDrop s act) : LastInv s' := by
  cases step_pipe ht with
  | stay _ hp hl hid hla he =>
    rcases h with ⟨l, hlast⟩ | ⟨hnil, hlog⟩
    · exact .inl ⟨l, by rw [hp, hl]; exact hlast⟩
    · refine .inr ⟨by rw [hp]; exact hnil, fun hw => ?_⟩
      rw [hl] at hw
      exact step_log_nil ht (hlog hw) hla
  | push _ x hx hp hl hid hla he hst hb hds => exact .inl ⟨s.pipeline, by rw [hp, hl]⟩
  | finish _ x hx hpc hp hl hid hla he =>
    refine lastInv_pop h hp hl fun hw => ?_
    have hb : x.isBatch = false := by cases x <;> first | rfl | cases hw
    exact step_log_nil ht (hc x (hpc hb) hb) hla
  | launch _ c hp hl hid hd hla he => exact lastInv_pop h hp hl nofun
  | drop _ c hp hl hid hd hla he hst => exact lastInv_pop h hp hl nofun
  | dropAll => cases hnd

theorem lastInv_reachable (hr : (M.restrict NoDrop).Reachable s) : LastInv s := by
  refine LTS.reachable_induction (I := LastInv) ?_ ?_ hr
  · intro s h
    rw [Driven.init (M := M) s h]; exact .inl ⟨[], rfl⟩
  · exact fun s act s' hr h hs => lastInv_step (completingInv_reachable hr.of_restrict) h
      (step_of_reachable hr.of_restrict hs.1) hs.2

/-- With nothing in flight and nothing in the pipeline, everything enqueued is
Completed. -/
theorem all_completed (hlog : LogInv s) (hf : FifoInv s) (hp : hwCmds s.pipeline = [])
    (hnil : s.cmdLog = []) : ∀ c ∈ s.enqueued, s.cmdState (.hardware c) = .completed := by
  intro c hc
  rw [← hf.conserve, hp, List.append_nil] at hc
  rcases hlog.done c hc with hm | hm
  · rw [hnil] at hm; cases hm
  · exact hm

/-! ## States of commands along a step -/

/-- A Completed HwCommand stays Completed. -/
theorem completed_stays {act : Act} {c : HwCommand} (h : LogInv s) (ht : Step s act s')
    (hc : s.cmdState (.hardware c) = .completed) : s'.cmdState (.hardware c) = .completed := by
  have hon (cs : List HwCommand) : completeOn cs s.cmdState (.hardware c) = .completed := by
    rw [completeOn_hw, hc]; exact ite_self _
  have htail {n : Nat} {x : XCommand} {s₀ s₁ : State} (ht : Tail n x s₀ s₁)
      (hx : ∀ d, x = .hardware d → s₀.cmdState (.hardware d) = .pending)
      (hc : s₀.cmdState (.hardware c) = .completed) : s₁.cmdState (.hardware c) = .completed := by
    cases ht with
    | drop d a hxd hd =>
      show Function.update s₀.cmdState (.hardware d) .completed (.hardware c) = _
      rw [update_hw, hc]; exact ite_self _
    | launch d a e l last hxd hd hs he hl =>
      show Function.update s₀.cmdState (.hardware d) .inFlight (.hardware c) = _
      rw [update_hw, if_neg, hc]
      rintro rfl
      rw [hx c hxd] at hc; cases hc
    | _ => exact hc
  have hhand {x : XCommand} {s₀ : State} (hlog : LogInv s₀) (hpc : s₀.pc.cmd = some x) :
      ∀ d, x = .hardware d → s₀.cmdState (.hardware d) = .pending := by
    rintro d rfl
    refine hlog.pending d (List.mem_append_left _ ?_)
    rw [WorkerPc.hand_eq hpc]; exact List.mem_cons_self
  cases ht with
  | worker b s' ht =>
    cases ht with
    | region x s' hpc hne ht => exact htail ht (hhand h (WorkerPc.locks_cmd hpc)) hc
    | synced call r s' hpc hp ht =>
      refine htail ht (hhand (logInv_syncFinish h call.target) ?_) ?_
      · rw [syncFinish_pc, hpc]; rfl
      · rw [syncFinish_cmdState]; exact hon _
    | generated x hpc hcm hl hx hb =>
      have hn : x.hw? = none := by rcases hx with rfl | rfl <;> rfl
      exact (update_other hn c).trans hc
    | gotOther x hpc hx => exact (update_other hx c).trans hc
    | complete x hpc hx => exact (update_other hx c).trans hc
    | _ => exact hc
  | app t s' ht =>
    cases ht with
    | synced call d hpc hp => exact hon _
    | _ => exact hc
  | wait t d s' ht =>
    cases ht with
    | synced call d hpc hp => exact hon _
    | _ => exact hc
  | submit d hidx hd =>
    show Function.update s.cmdState (.hardware d) .pending (.hardware c) = _
    rw [update_hw, if_neg, hc]
    rintro rfl
    rw [h.created c hd] at hc; cases hc
  | enqueueOther act x hx =>
    have hn : x.hw? = none := by rcases hx with ⟨-, rfl⟩ | ⟨-, rfl⟩ <;> rfl
    exact (update_other hn c).trans hc
  | waitAllFresh hq hl =>
    have hn : (XCommand.xQueueWaitAll s.nextId).hw? = none := rfl
    exact (update_other (f := s.cmdState) (v := .pending) hn c).trans hc
  | dropAll =>
    show (if XCommand.hardware c ∈ s.cmds then _ else s.cmdState (.hardware c)) = _
    rw [hc]; exact ite_self _
  | resumeAndDrop d => exact hon _
  | _ => exact hc

/-- A region of the worker moves only HAL commands. -/
theorem tail_other {n : Nat} {x y : XCommand} (hx : x.hw? = none) (ht : Tail n y s s') :
    s'.cmdState x = s.cmdState x := by
  have hhw {f : XCommand → XCommandState} {d : HwCommand} {v : XCommandState} :
      Function.update f (.hardware d) v x = f x :=
    Function.update_of_ne (by rintro rfl; cases hx) _ _
  cases ht with
  | drop d a hxd hd => exact hhw
  | launch d a e l last hxd hd hs he hl => exact hhw
  | _ => rfl

/-- Any other command is completed by the worker, as it leaves the pipeline,
or by `DropAll`. -/
theorem other_completed {act : Act} {x : XCommand} (hx : x.hw? = none) (ht : Step s act s')
    (hdone : s'.cmdState x = .completed) :
    s.cmdState x = .completed ∨ s.pipeline = x :: s'.pipeline ∨ act = .dropAll := by
  have hup (y : XCommand) (v : XCommandState) (hv : v ≠ .completed)
      (h : Function.update s.cmdState y v x = .completed) : s.cmdState x = .completed := by
    by_cases hxy : x = y
    · subst hxy
      rw [Function.update_self] at h; exact absurd h hv
    · rwa [Function.update_of_ne hxy] at h
  cases ht with
  | worker b s' ht =>
    cases ht with
    | region y s' hpc hne ht => exact .inl ((tail_other hx ht).symm.trans hdone)
    | synced call r s' hpc hp ht =>
      refine .inl ?_
      rw [tail_other hx ht, syncFinish_cmdState, completeOn_other _ _ hx] at hdone
      exact hdone
    | generated y hpc hcm hl hy => exact .inl (hup y .pending nofun hdone)
    | gotOther y hpc hy => exact .inl (hup y .inFlight nofun hdone)
    | complete y hpc hy =>
      by_cases hxy : x = y
      · subst hxy
        refine .inr (.inl ?_)
        rw [pipeline_of_cmd (x := x) (by rw [hpc]; rfl)]
        show x :: s.cmds = x :: ((WorkerPc.after x).cmd.toList ++ s.cmds)
        cases x <;> rfl
      · refine .inl ?_
        have hd : Function.update s.cmdState y .completed x = .completed := hdone
        rwa [Function.update_of_ne hxy] at hd
    | _ => exact .inl hdone
  | app t s' ht =>
    cases ht with
    | synced call d hpc hp => exact .inl ((completeOn_other _ _ hx).symm.trans hdone)
    | _ => exact .inl hdone
  | wait t d s' ht =>
    cases ht with
    | synced call d hpc hp => exact .inl ((completeOn_other _ _ hx).symm.trans hdone)
    | _ => exact .inl hdone
  | submit d hidx hd => exact .inl (hup (.hardware d) .pending nofun hdone)
  | enqueueOther act y hy => exact .inl (hup y .pending nofun hdone)
  | waitAllFresh hq hl => exact .inl (hup (.xQueueWaitAll s.nextId) .pending nofun hdone)
  | dropAll => exact .inr (.inr rfl)
  | resumeAndDrop d => exact .inl ((completeOn_other _ _ hx).symm.trans hdone)
  | _ => exact .inl hdone

/-- Outside the pipeline it stays Completed. -/
theorem other_stays {act : Act} {x : XCommand} (hx : x.hw? = none) (hid : x.id < s.nextId)
    (hout : x ∉ s.pipeline) (ht : Step s act s') (hdone : s.cmdState x = .completed) :
    s'.cmdState x = .completed := by
  have hother {y : XCommand} {v : XCommandState} (hxy : x ≠ y) :
      Function.update s.cmdState y v x = .completed := by
    rw [Function.update_of_ne hxy]; exact hdone
  have hfresh {y : XCommand} (hy : y.id = s.nextId) : x ≠ y := by
    rintro rfl
    omega
  have hon (cs : List HwCommand) : completeOn cs s.cmdState x = .completed :=
    (completeOn_other _ _ hx).trans hdone
  cases ht with
  | worker b s' ht =>
    cases ht with
    | region y s' hpc hne ht => exact (tail_other hx ht).trans hdone
    | synced call r s' hpc hp ht =>
      rw [tail_other hx ht, syncFinish_cmdState]
      exact hon _
    | generated y hpc hcm hl hy =>
      exact hother (hfresh (by rcases hy with rfl | rfl <;> rfl))
    | gotOther y hpc hy =>
      refine hother ?_
      rintro rfl
      exact hout (by rw [pipeline_of_cmd (x := x) (by rw [hpc]; rfl)]; exact List.mem_cons_self)
    | complete y hpc hy =>
      by_cases hxy : x = y
      · rw [hxy]; exact Function.update_self _ _ _
      · exact hother hxy
    | _ => exact hdone
  | app t s' ht =>
    cases ht with
    | synced call d hpc hp => exact hon _
    | _ => exact hdone
  | wait t d s' ht =>
    cases ht with
    | synced call d hpc hp => exact hon _
    | _ => exact hdone
  | submit d hidx hd => exact hother (by rintro rfl; cases hx)
  | enqueueOther act y hy =>
    exact hother (hfresh (by rcases hy with ⟨-, rfl⟩ | ⟨-, rfl⟩ <;> rfl))
  | waitAllFresh hq hl => exact hother (hfresh rfl)
  | dropAll =>
    show (if x ∈ s.cmds then _ else s.cmdState x) = _
    rw [hdone]; exact ite_self _
  | resumeAndDrop d => exact hon _
  | _ => exact hdone

/-- What is in the pipeline is not Completed. -/
def OpenInv (s : State) : Prop :=
  ∀ x ∈ s.pipeline, x.hw? = none → s.cmdState x ≠ .completed

theorem openInv_step {act : Act} (hp : PipeInv s) (h : OpenInv s) (ht : Step s act s')
    (hnd : NoDrop s act) : OpenInv s' := by
  intro x hx hn hdone
  have hin : x ∈ s.pipeline ∨ s'.cmdState x = .pending := by
    cases step_pipe ht with
    | stay _ hpi hl hid hla he => rw [hpi] at hx; exact .inl hx
    | push _ y hy hpi hl hid hla he hst hb hds =>
      rw [hpi] at hx
      rcases List.mem_append.1 hx with hx | hx
      · exact .inl hx
      · rw [List.mem_singleton.1 hx]; exact .inr hst
    | finish _ y hy hc hpi hl hid hla he => rw [hpi]; exact .inl (List.mem_cons_of_mem _ hx)
    | launch _ c hpi hl hid hd hla he => rw [hpi]; exact .inl (List.mem_cons_of_mem _ hx)
    | drop _ c hpi hl hid hd hla he hst => rw [hpi]; exact .inl (List.mem_cons_of_mem _ hx)
    | dropAll => cases hnd
  rcases other_completed hn ht hdone with hold | hpop | rfl
  · rcases hin with hin | hin
    · exact h x hin hn hold
    · rw [hin] at hdone; cases hdone
  · have hnodup := hp.nodup
    rw [hpop, List.nodup_cons] at hnodup
    exact hnodup.1 hx
  · cases hnd

theorem openInv_reachable (hr : (M.restrict NoDrop).Reachable s) : OpenInv s := by
  refine LTS.reachable_induction (I := OpenInv) ?_ ?_ hr
  · intro s h
    rw [Driven.init (M := M) s h]
    intro x hx hn
    rw [List.mem_singleton.1 hx]; decide
  · exact fun s act s' hr h hs => openInv_step (pipeInv_reachable hr.of_restrict) h
      (step_of_reachable hr.of_restrict hs.1) hs.2

/-! ## The commands handed out -/

/-- `w` covers `pre`: what of `pre` is not launched stands ahead of `w` in the
pipeline, and once `w` left the pipeline all of `pre` is Completed. -/
structure Barrier (s : State) (w : XCommand) (pre : List HwCommand) : Prop where
  waitAll : w.isWaitAll
  id : w.id < s.nextId
  covers : pre <+: s.enqueued
  ahead : ∀ l₁ l₂, s.pipeline = l₁ ++ w :: l₂ → pre.length ≤ s.launched.length + (hwCmds l₁).length
  passed : w ∉ s.pipeline → ∀ c ∈ pre, s.cmdState (.hardware c) = .completed

theorem isWaitAll_hw {w : XCommand} (h : w.isWaitAll) : w.hw? = none := by
  cases w <;> first | rfl | cases h

theorem isWaitAll_not_batch {w : XCommand} (h : w.isWaitAll) : w.isBatch = false := by
  cases w <;> first | rfl | cases h

/-- `last_cmd_` covers everything enqueued so far, wherever it is. -/
theorem barrier_last (hlog : LogInv s) (hp : PipeInv s) (hf : FifoInv s) (hl : LastInv s)
    (hw : s.lastCmd.isWaitAll) : Barrier s s.lastCmd s.enqueued where
  waitAll := hw
  id := hp.lastId (isWaitAll_hw hw)
  covers := List.prefix_refl _
  ahead := by
    intro l₁ l₂ he
    rcases hl with ⟨l, hlast⟩ | ⟨hnil, -⟩
    · have hnodup := hp.nodup
      rw [he] at hnodup
      -- the pipeline ends in `last_cmd_`, which occurs once
      have hl₂ : l₂ = [] := by
        rcases List.eq_nil_or_concat l₂ with h2 | ⟨m, y, h2⟩
        · exact h2
        · exfalso
          have hy : y = s.lastCmd := by
            have h3 : l ++ [s.lastCmd] = (l₁ ++ s.lastCmd :: m) ++ [y] := by
              rw [← hlast, he, h2]; simp
            have h4 := (List.append_inj_right' h3 rfl)
            simpa using h4.symm
          have hmem : s.lastCmd ∈ l₂ := by rw [h2, hy]; simp
          obtain ⟨-, hcons, -⟩ := List.nodup_append.1 hnodup
          exact (List.nodup_cons.1 hcons).1 hmem
      have hcount : s.enqueued = s.launched ++ hwCmds l₁ := by
        rw [← hf.conserve, he, hl₂, hwCmds_append, hwCmds_cons, isWaitAll_hw hw]
        simp
      rw [hcount, List.length_append]
    · rw [he] at hnil; simp at hnil
  passed := by
    intro hout
    rcases hl with ⟨l, hlast⟩ | ⟨hnil, hlognil⟩
    · exact absurd (by rw [hlast]; simp) hout
    · exact all_completed hlog hf (by rw [hnil]; rfl) (hlognil hw)

/-- The worker completes `w`: everything it covers is Completed. -/
theorem Barrier.completing {w : XCommand} {pre : List HwCommand} (h : Barrier s w pre)
    (hlog : LogInv s) (hf : FifoInv s) (hc : CompletingInv s) (hpc : s.pc = .completing w) :
    ∀ c ∈ pre, s.cmdState (.hardware c) = .completed := by
  intro c hcp
  have hle : pre.length ≤ s.launched.length := by
    have hb := h.ahead [] s.cmds (pipeline_of_cmd (by rw [hpc]; rfl))
    simpa using hb
  have hla : s.launched <+: s.enqueued := ⟨_, hf.conserve⟩
  have hmem : c ∈ s.launched := (List.prefix_of_prefix_length_le h.covers hla hle).subset hcp
  rcases hlog.done c hmem with hm | hm
  · rw [hc w hpc (isWaitAll_not_batch h.waitAll)] at hm; cases hm
  · exact hm

/-- The front `x` of the pipeline leaves it. -/
theorem barrier_pop {w x : XCommand} {pre : List HwCommand} (h : Barrier s w pre)
    (hp : s.pipeline = x :: s'.pipeline) (hid : s'.nextId = s.nextId)
    (he : s'.enqueued = s.enqueued)
    (hla : s'.launched.length = s.launched.length + x.hw?.toList.length)
    (hkeep : ∀ c ∈ pre, s.cmdState (.hardware c) = .completed →
      s'.cmdState (.hardware c) = .completed)
    (hout : w = x → ∀ c ∈ pre, s.cmdState (.hardware c) = .completed) : Barrier s' w pre where
  waitAll := h.waitAll
  id := by rw [hid]; exact h.id
  covers := by rw [he]; exact h.covers
  ahead := by
    intro l₁ l₂ hs
    have hb := h.ahead (x :: l₁) l₂ (by rw [hp, hs]; rfl)
    rw [hwCmds_cons, List.length_append] at hb
    omega
  passed := by
    intro hn c hc
    refine hkeep c hc ?_
    by_cases hwx : w = x
    · exact hout hwx c hc
    · refine h.passed (fun hm => ?_) c hc
      rw [hp] at hm
      rcases List.mem_cons.1 hm with hm | hm
      · exact hwx hm
      · exact hn hm

theorem barrier_step {act : Act} {w : XCommand} {pre : List HwCommand} (hlog : LogInv s)
    (hf : FifoInv s) (hc : CompletingInv s) (h : Barrier s w pre)
    (ht : Step s act s') (hnd : NoDrop s act) : Barrier s' w pre := by
  have hkeep : ∀ c ∈ pre, s.cmdState (.hardware c) = .completed →
      s'.cmdState (.hardware c) = .completed := fun c _ => completed_stays hlog ht
  have hhw (c : HwCommand) : w ≠ .hardware c := by
    rintro rfl
    exact absurd h.waitAll nofun
  cases step_pipe ht with
  | stay _ hpi hl hid hla he =>
    refine ⟨h.waitAll, by rw [hid]; exact h.id, by rw [he]; exact h.covers, ?_, ?_⟩
    · rw [hpi, hla]; exact h.ahead
    · rw [hpi]; exact fun hn c hcp => hkeep c hcp (h.passed hn c hcp)
  | push _ x hx hpi hl hid hla he hst hb hds =>
    -- `w` has an old allocation number, so it is not the command pushed
    have hwx : w ≠ x := by
      rintro rfl
      have hn := isWaitAll_hw h.waitAll
      cases w with
      | hardware c => cases hn
      | _ =>
        have hw := h.id
        have hxid : XCommand.id _ = s.nextId := hx
        omega
    refine ⟨h.waitAll, Nat.lt_of_lt_of_le h.id hid.1, ?_, fun l₁ l₂ hs => ?_, fun hn c hcp => ?_⟩
    · rw [he]; exact h.covers.trans (List.prefix_append _ _)
    · rw [hla]
      rw [hpi] at hs
      rcases List.eq_nil_or_concat l₂ with h2 | ⟨m, y, h2⟩
      · rw [h2] at hs
        have hlast := List.append_inj_right' hs rfl
        exact absurd (by simpa using hlast.symm) hwx
      · refine h.ahead l₁ m ?_
        rw [h2] at hs
        have hs' : s.pipeline ++ [x] = (l₁ ++ w :: m) ++ [y] := by rw [hs]; simp
        exact List.append_inj_left' hs' rfl
    · refine hkeep c hcp (h.passed (fun hm => hn ?_) c hcp)
      rw [hpi]; exact List.mem_append_left _ hm
  | finish _ x hx hpc hpi hl hid hla he =>
    refine barrier_pop h hpi hid he (by rw [hla, hx]; rfl) hkeep ?_
    rintro rfl
    exact h.completing hlog hf hc (hpc (isWaitAll_not_batch h.waitAll))
  | launch _ c hpi hl hid hd hla he =>
    refine barrier_pop h hpi hid he (by rw [hla, List.length_append]; rfl) hkeep ?_
    exact fun hw => absurd hw (hhw c)
  | drop _ c hpi hl hid hd hla he hst =>
    have hlt := hf.not_dropped hpi
    omega
  | dropAll => cases hnd

/-- A step hands out at most one command, which is then `last_cmd_`. -/
theorem step_waitAlls {act : Act} (ht : Step s act s') :
    s'.waitAlls = s.waitAlls ∨
      s'.lastCmd.isWaitAll ∧ s'.waitAlls = s.waitAlls ++ [(s'.lastCmd, s'.enqueued)] := by
  have htail {n : Nat} {x : XCommand} {s₀ s₁ : State} (ht : Tail n x s₀ s₁) :
      s₁.waitAlls = s₀.waitAlls := by
    cases ht <;> rfl
  cases ht with
  | worker b s' ht =>
    cases ht with
    | region x s' hpc hne ht => exact .inl (htail ht)
    | synced call r s' hpc hp ht =>
      obtain ⟨f, log, sync, he⟩ := syncFinish_frame call.target s
      rw [he] at ht
      have hkeep := htail ht
      exact .inl hkeep
    | _ => exact .inl rfl
  | app t s' ht => cases ht <;> exact .inl rfl
  | wait t c s' ht => cases ht <;> exact .inl rfl
  | waitAllShared hl => exact .inr ⟨hl, rfl⟩
  | waitAllFresh hq hl => exact .inr ⟨rfl, rfl⟩
  | _ => exact .inl rfl

theorem barrier_reachable (hr : (M.restrict NoDrop).Reachable s) :
    ∀ e ∈ s.waitAlls, Barrier s e.1 e.2 := by
  refine LTS.reachable_induction (I := fun s => ∀ e ∈ s.waitAlls, Barrier s e.1 e.2) ?_ ?_ hr
  · intro s h
    rw [Driven.init (M := M) s h]
    intro e he
    cases he
  · intro s act s' hr h hs e he
    have hreach := hr.of_restrict
    have hlog := logInv_reachable hreach
    have ht := step_of_reachable hreach hs.1
    have hold : ∀ e ∈ s.waitAlls, Barrier s' e.1 e.2 := fun e he =>
      barrier_step hlog (fifoInv_reachable hr) (completingInv_reachable hreach) (h e he) ht hs.2
    rcases step_waitAlls ht with hw | ⟨hw, hnew⟩
    · rw [hw] at he; exact hold e he
    · rw [hnew] at he
      rcases List.mem_append.1 he with he | he
      · exact hold e he
      · have hr' := hr.step hs
        rw [List.mem_singleton.1 he]
        exact barrier_last (logInv_reachable hr'.of_restrict) (pipeInv_reachable hr'.of_restrict)
          (fifoInv_reachable hr') (lastInv_reachable hr') hw

/-- Commands handed out are not allocated again. -/
theorem waitAlls_id (hr : M.Reachable s) : ∀ e ∈ s.waitAlls, e.1.id < s.nextId := by
  refine LTS.reachable_induction (I := fun s => ∀ e ∈ s.waitAlls, e.1.id < s.nextId) ?_ ?_ hr
  · intro s h
    rw [Driven.init s h]
    intro e he
    cases he
  · intro s act s' hr h hs e he
    have ht := step_of_reachable hr hs
    have hmono : s.nextId ≤ s'.nextId := by
      cases step_pipe ht with
      | push _ x hx hp hl hid hla he hst hb hds => exact hid.1
      | stay _ hp hl hid hla he => rw [hid]
      | finish _ x hx hc hp hl hid hla he => rw [hid]
      | launch _ c hp hl hid hd hla he => rw [hid]
      | drop _ c hp hl hid hd hla he hst => rw [hid]
      | dropAll hp hl hid hla he hst => rw [hid]
    rcases step_waitAlls ht with hw | ⟨hw, hnew⟩
    · rw [hw] at he
      exact Nat.lt_of_lt_of_le (h e he) hmono
    · rw [hnew] at he
      rcases List.mem_append.1 he with he | he
      · exact Nat.lt_of_lt_of_le (h e he) hmono
      · rw [List.mem_singleton.1 he]
        exact (pipeInv_reachable (hr.step hs)).lastId (isWaitAll_hw hw)

/-- A Completed command that was handed out stays Completed. -/
theorem waitAll_stays {act : Act} {w : XCommand} {pre : List HwCommand}
    (hr : (M.restrict NoDrop).Reachable s) (hs : M.step s act s') (hw : (w, pre) ∈ s.waitAlls)
    (hdone : s.cmdState w = .completed) : s'.cmdState w = .completed := by
  have hreach := hr.of_restrict
  have hn := isWaitAll_hw (barrier_reachable hr _ hw).waitAll
  refine other_stays hn (waitAlls_id hreach _ hw) (fun hm => ?_) (step_of_reachable hreach hs) hdone
  exact openInv_reachable hr w hm hn hdone

theorem waitAll_covers {w : XCommand} {pre : List HwCommand}
    (hr : (M.restrict NoDrop).Reachable s) (hw : (w, pre) ∈ s.waitAlls)
    (hdone : s.cmdState w = .completed) : ∀ c ∈ pre, s.cmdState (.hardware c) = .completed := by
  have hb := barrier_reachable hr (w, pre) hw
  refine hb.passed fun hm => ?_
  exact openInv_reachable hr w hm (isWaitAll_hw hb.waitAll) hdone

/-- **WaitAll soundness.** Without drops, when a command handed out by
`EnqueueXQueueWaitAllCommand` is Completed, so is every HwCommand enqueued
before that call. -/
theorem wait_all_sound {w : XCommand} {pre : List HwCommand}
    (hr : ((lts cfg).restrict NoDrop).Reachable s) (hw : (w, pre) ∈ s.waitAlls)
    (hdone : s.cmdState w = .completed) : ∀ c ∈ pre, s.cmdState (.hardware c) = .completed :=
  waitAll_covers hr hw hdone

/-- A command, then a fresh WaitAll, both processed by the worker. -/
def waitAllTrace : List Act :=
  List.replicate 4 (Act.worker true) ++ [Act.submit (halCmd 1), Act.enqueueWaitAll] ++
  List.replicate 10 (Act.worker true)

theorem wait_all_sound_fresh : ∃ s : State, (.xQueueWaitAll 1, [halCmd 1]) ∈ s.waitAlls ∧
    ∀ c ∈ [halCmd 1], s.cmdState (.hardware c) = .completed := by
  have htrace : ((LTS.exec (LTS.guarded NoDrop (step cfgOne)) init waitAllTrace).map fun s =>
      (s.waitAlls, s.cmdState (.xQueueWaitAll 1))) =
      some ([(.xQueueWaitAll 1, [halCmd 1])], .completed) := by decide
  obtain ⟨s, hs, he⟩ := Option.map_eq_some_iff.1 htrace
  simp only [Prod.mk.injEq] at he
  have hw : (XCommand.xQueueWaitAll 1, [halCmd 1]) ∈ s.waitAlls := by
    rw [he.1]; exact List.mem_cons_self
  exact ⟨s, hw, wait_all_sound (LTS.reachable_restrict_of_exec rfl hs) hw he.2⟩

end Xsched.Preempt
