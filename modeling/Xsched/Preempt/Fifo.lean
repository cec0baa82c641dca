import Xsched.Preempt.Completion

/-!
# FIFO, exactly-once launching

The pipeline is the XCommand in the worker's hand followed by the buffer.
`PipeStep` lists what a step does to it: nothing, a push at the end, a pop at
the front (an XCommand ends, a HwCommand is launched or dropped), or the loss
of the buffer to `DropAll`. Without drops, launched commands followed by the
HwCommands of the pipeline are the enqueued sequence (`FifoInv`), so the
launched sequence is a prefix of it.

`IdleInv`: while `xq_state_` is Idle there is no HwCommand in the pipeline.
-/
namespace Xsched.Preempt

def State.pipeline (s : State) : List XCommand := s.pc.cmd.toList ++ s.cmds

theorem hwCmds_toList (x : Option XCommand) : hwCmds x.toList = (x.bind XCommand.hw?).toList := by
  cases x with
  | none => rfl
  | some x => cases x <;> rfl

theorem hwCmds_pipeline (s : State) : hwCmds s.pipeline = s.pc.hand ++ hwCmds s.cmds := by
  rw [State.pipeline, hwCmds_append, hwCmds_toList]; rfl

theorem pipeline_of_cmd {s : State} {x : XCommand} (h : s.pc.cmd = some x) :
    s.pipeline = x :: s.cmds := by
  rw [State.pipeline, h]; rfl

theorem pipeline_of_none {s : State} (h : s.pc.cmd = none) : s.pipeline = s.cmds := by
  rw [State.pipeline, h]; rfl

/-- `x` was not seen before: a HwCommand not enqueued yet, or an object with a
new allocation number. -/
def XCommand.Fresh (x : XCommand) (s : State) : Prop :=
  match x with
  | .hardware c => c ∉ s.enqueued ∧ 0 < c.idx
  | x => x.id = s.nextId

variable {s s' : State}

/-- What a step does to the pipeline. -/
inductive PipeStep (s s' : State) : Act → Prop
  | stay (act : Act) (hp : s'.pipeline = s.pipeline) (hl : s'.lastCmd = s.lastCmd)
      (hid : s'.nextId = s.nextId) (hla : s'.launched = s.launched)
      (he : s'.enqueued = s.enqueued) : PipeStep s s' act
  | push (act : Act) (x : XCommand) (hx : x.Fresh s) (hp : s'.pipeline = s.pipeline ++ [x])
      (hl : s'.lastCmd = x) (hid : s.nextId ≤ s'.nextId ∧ (x.hw? = none → s.nextId < s'.nextId))
      (hla : s'.launched = s.launched) (he : s'.enqueued = s.enqueued ++ x.hw?.toList)
      (hst : s'.cmdState x = .pending)
      (hb : x.isBatch → s.pipeline = [] ∧ s.lastCmd.isBatch = false)
      (hds : x.isDestroy → act = .enqueueDestroy) : PipeStep s s' act
  | finish (act : Act) (x : XCommand) (hx : x.hw? = none)
      (hpc : x.isBatch = false → s.pc = .completing x)
      (hp : s.pipeline = x :: s'.pipeline) (hl : s'.lastCmd = s.lastCmd)
      (hid : s'.nextId = s.nextId) (hla : s'.launched = s.launched)
      (he : s'.enqueued = s.enqueued) : PipeStep s s' act
  | launch (act : Act) (c : HwCommand) (hp : s.pipeline = .hardware c :: s'.pipeline)
      (hl : s'.lastCmd = s.lastCmd) (hid : s'.nextId = s.nextId) (hd : s.dropIdx < c.idx)
      (hla : s'.launched = s.launched ++ [c]) (he : s'.enqueued = s.enqueued) : PipeStep s s' act
  | drop (act : Act) (c : HwCommand) (hp : s.pipeline = .hardware c :: s'.pipeline)
      (hl : s'.lastCmd = s.lastCmd) (hid : s'.nextId = s.nextId) (hd : c.idx ≤ s.dropIdx)
      (hla : s'.launched = s.launched) (he : s'.enqueued = s.enqueued)
      (hst : s'.cmdState (.hardware c) = .completed) : PipeStep s s' act
  | dropAll (hp : s'.pipeline = s.pc.cmd.toList) (hl : s'.lastCmd = s.lastCmd)
      (hid : s'.nextId = s.nextId) (hla : s'.launched = s.launched)
      (he : s'.enqueued = s.enqueued) (hst : ∀ x ∈ s.cmds, s'.cmdState x = .completed) :
      PipeStep s s' .dropAll

theorem tail_pipe (act : Act) {n : Nat} {x : XCommand} (hpc : s.pc.cmd = some x) (ht : Tail n x s s') :
    PipeStep s s' act := by
  have hp := pipeline_of_cmd hpc
  cases ht with
  | launchWait c a hx hs => exact .stay act (by rw [hp, hx]; rfl) rfl rfl rfl rfl
  | syncWait t r a hx hr hn' hs hc => exact .stay act (by rw [hp, hx]; rfl) rfl rfl rfl rfl
  | syncCall t r a hx hr hn' hs hc ha => exact .stay act (by rw [hp, hx]; rfl) rfl rfl rfl rfl
  | abort => exact .stay act rfl rfl rfl rfl rfl
  | finish a st hx hst hq hp' => exact .stay act (by rw [hp]; rfl) rfl rfl rfl rfl
  | drop c a hx hd =>
    refine .drop act c (by rw [hp, hx]; rfl) rfl rfl hd rfl rfl ?_
    exact (update_hw s.cmdState c c .completed).trans (if_pos rfl)
  | launch c a e l last hx hd hs he hl =>
    exact .launch act c (by rw [hp, hx]; rfl) rfl rfl hd rfl rfl

/-- The fields a finished wait leaves alone. -/
theorem syncFinish_frame (t : SyncTarget) (s : State) :
    ∃ f log sync, syncFinish t s = { s with cmdState := f, cmdLog := log, syncCmdLog := sync } := by
  cases t
  · exact ⟨_, _, _, by rw [syncFinish, clearLogs_eq]⟩
  · exact ⟨_, _, _, by rw [syncFinish, popLogs_eq]⟩

theorem worker_pipe {act : Act} (ht : WorkerStep s s') : PipeStep s s' act := by
  have hcmd (x : XCommand) (h : s.pc.cmd = some x) : s.pipeline = x :: s.cmds := pipeline_of_cmd h
  have hnone (h : s.pc.cmd = none) : s.pipeline = s.cmds := pipeline_of_none h
  cases ht with
  | dequeued x rest hpc hc =>
    refine .stay act ?_ rfl rfl rfl rfl
    have hn : s.pc.cmd = none := by rcases hpc with hpc | hpc <;> rw [hpc] <;> rfl
    rw [pipeline_of_none hn, hc]; rfl
  | idle hpc hc hl hr =>
    exact .stay act (by rw [hnone (by rw [hpc]; rfl)]; rfl) rfl rfl rfl rfl
  | stillIdle hpc hc hl hr =>
    exact .stay act (by rw [hnone (by rw [hpc]; rfl)]; rfl) rfl rfl rfl rfl
  | generated x hpc hc hl hx hb =>
    have hn : x.hw? = none := by rcases hx with rfl | rfl <;> rfl
    have hst : Function.update s.cmdState x .pending x = .pending := Function.update_self _ _ _
    refine .push act x ?_ ?_ rfl ⟨Nat.le_succ _, fun _ => Nat.lt_succ_self _⟩ rfl ?_ hst ?_ ?_
    · rcases hx with rfl | rfl <;> rfl
    · rw [hnone (by rw [hpc]; rfl), hc]
      show x :: s.cmds = [x]
      rw [hc]
    · rw [hn]; exact (List.append_nil _).symm
    · exact fun hxb => ⟨by rw [hnone (by rw [hpc]; rfl), hc], hb hxb⟩
    · rcases hx with rfl | rfl <;> exact nofun
  | gotHardware c hpc =>
    exact .stay act (by rw [hcmd (.hardware c) (by rw [hpc]; rfl)]; rfl) rfl rfl rfl rfl
  | gotOther x hpc hx => exact .stay act (by rw [hcmd x (by rw [hpc]; rfl)]; rfl) rfl rfl rfl rfl
  | noSync i hpc hl =>
    refine .finish act (.batchSynchronize i) rfl nofun ?_ rfl rfl rfl rfl
    exact pipeline_of_cmd (by rw [hpc]; rfl)
  | region x s' hpc hne ht => exact tail_pipe act (WorkerPc.locks_cmd hpc) ht
  | calling call r hpc =>
    exact .stay act (by rw [hcmd r.cmd (by rw [hpc]; rfl)]; rfl) rfl rfl rfl rfl
  | returning call r hpc =>
    exact .stay act (by rw [hcmd r.cmd (by rw [hpc]; rfl)]; rfl) rfl rfl rfl rfl
  | synced call r s' hpc hp ht =>
    obtain ⟨f, log, sync, he⟩ := syncFinish_frame call.target s
    rw [he] at ht
    have hpipe := tail_pipe act (by show s.pc.cmd = _; rw [hpc]; rfl) ht
    cases hpipe with
    | stay _ hp hl hid hla he => exact .stay act hp hl hid hla he
    | push _ x hx hp hl hid hla he hst hb hds => exact .push act x hx hp hl hid hla he hst hb hds
    | finish _ x hx hc hp hl hid hla he => exact .finish act x hx hc hp hl hid hla he
    | launch _ c hp hl hid hd hla he => exact .launch act c hp hl hid hd hla he
    | drop _ c hp hl hid hd hla he hst => exact .drop act c hp hl hid hd hla he hst
    | dropAll hp hl hid hla he hst => exact .dropAll hp hl hid hla he hst
  | complete x hpc hx =>
    refine .finish act x hx (fun _ => hpc) ?_ rfl rfl rfl rfl
    rw [pipeline_of_cmd (x := x) (by rw [hpc]; rfl)]
    show x :: s.cmds = x :: ((WorkerPc.after x).cmd.toList ++ s.cmds)
    cases x <;> rfl

/-- Every step of the machine is a `PipeStep`. -/
theorem step_pipe {act : Act} (ht : Step s act s') : PipeStep s s' act := by
  cases ht with
  | worker b s' ht => exact worker_pipe ht
  | app t s' ht => cases ht <;> exact .stay _ rfl rfl rfl rfl rfl
  | wait t c s' ht => cases ht <;> exact .stay _ rfl rfl rfl rfl rfl
  | submit c hidx hc =>
    have hst : Function.update s.cmdState (.hardware c) .pending (.hardware c) = .pending :=
      Function.update_self _ _ _
    refine .push _ (.hardware c) ⟨hc, hidx⟩ (List.append_assoc _ _ _).symm rfl ?_ rfl rfl hst
      nofun nofun
    exact ⟨Nat.le_refl _, nofun⟩
  | enqueueOther act x hx =>
    have hst : Function.update s.cmdState x .pending x = .pending := Function.update_self _ _ _
    refine .push _ x ?_ (List.append_assoc _ _ _).symm rfl ?_ rfl rfl hst
      (fun hb => ?_) fun hds => ?_
    · rcases hx with ⟨-, rfl⟩ | ⟨-, rfl⟩ <;> rfl
    · exact ⟨Nat.le_succ _, fun _ => Nat.lt_succ_self _⟩
    · rcases hx with ⟨-, rfl⟩ | ⟨-, rfl⟩ <;> cases hb
    · rcases hx with ⟨-, rfl⟩ | ⟨rfl, -⟩
      · cases hds
      · rfl
  | waitAllFresh hq hl =>
    have hst : Function.update s.cmdState (.xQueueWaitAll s.nextId) .pending
        (.xQueueWaitAll s.nextId) = .pending := Function.update_self _ _ _
    refine .push _ (.xQueueWaitAll s.nextId) rfl (List.append_assoc _ _ _).symm rfl ?_ rfl ?_ hst
      nofun nofun
    · exact ⟨Nat.le_succ _, fun _ => Nat.lt_succ_self _⟩
    · exact (List.append_nil _).symm
  | dropAll => exact .dropAll (List.append_nil _) rfl rfl rfl rfl fun x hx => if_pos hx
  | _ => exact .stay _ rfl rfl rfl rfl rfl

/-- A step launches at most one command. -/
theorem step_launches {act : Act} (ht : Step s act s') :
    s'.launched = s.launched ∨ ∃ c, s'.launched = s.launched ++ [c] := by
  cases step_pipe ht with
  | launch _ c hp hl hid hd hla he => exact .inr ⟨c, hla⟩
  | stay _ hp hl hid hla he => exact .inl hla
  | push _ x hx hp hl hid hla he hst hb hds => exact .inl hla
  | finish _ x hx hpc hp hl hid hla he => exact .inl hla
  | drop _ c hp hl hid hd hla he hst => exact .inl hla
  | dropAll hp hl hid hla he hst => exact .inl hla

/-! ## Without drops -/

def Act.drops : Act → Bool
  | .dropAll => true
  | .resumeAndDrop _ => true
  | _ => false

/-- No `DropAll` and no `ResumeAndDrop`. -/
def NoDrop (_ : State) (act : Act) : Prop := act.drops = false

instance (s : State) (act : Act) : Decidable (NoDrop s act) :=
  inferInstanceAs (Decidable (act.drops = false))

structure FifoInv (s : State) : Prop where
  conserve : s.launched ++ hwCmds s.pipeline = s.enqueued
  positive : ∀ c ∈ s.enqueued, 0 < c.idx
  dropIdx : s.dropIdx = -1

theorem step_dropIdx {act : Act} (ht : Step s act s') (hd : ∀ d, act ≠ .resumeAndDrop d) :
    s'.dropIdx = s.dropIdx := by
  have htail {n : Nat} {x : XCommand} {s₀ s₁ : State} (ht : Tail n x s₀ s₁) :
      s₁.dropIdx = s₀.dropIdx := by
    cases ht <;> rfl
  cases ht with
  | worker b s' ht =>
    cases ht with
    | region x s' hpc hne ht => exact htail ht
    | synced call r s' hpc hp ht =>
      obtain ⟨f, log, sync, he⟩ := syncFinish_frame call.target s
      rw [htail ht, he]
    | _ => rfl
  | app t s' ht => cases ht <;> rfl
  | wait t c s' ht => cases ht <;> rfl
  | resumeAndDrop d => exact absurd rfl (hd d)
  | _ => rfl

/-- A dropped command has an index at most `drop_idx_`, so it is none of the
enqueued ones. -/
theorem FifoInv.not_dropped (h : FifoInv s) {c : HwCommand} {xs : List XCommand}
    (hp : s.pipeline = .hardware c :: xs) : s.dropIdx < c.idx := by
  have hc : c ∈ s.enqueued := by
    rw [← h.conserve, hp]
    exact List.mem_append_right _ List.mem_cons_self
  have h0 := h.positive c hc
  have hd := h.dropIdx
  omega

theorem fifoInv_step {act : Act} (h : FifoInv s) (ht : Step s act s') (hnd : NoDrop s act) :
    FifoInv s' := by
  have hd : s'.dropIdx = -1 := by
    rw [step_dropIdx ht fun d hd => by rw [hd] at hnd; cases hnd]
    exact h.dropIdx
  cases step_pipe ht with
  | stay _ hp hl hid hla he =>
    exact ⟨by rw [hla, hp, he]; exact h.conserve, by rw [he]; exact h.positive, hd⟩
  | push _ x hx hp hl hid hla he hst hb hds =>
    have hxs : hwCmds [x] = x.hw?.toList := hwCmds_toList (some x)
    refine ⟨?_, ?_, hd⟩
    · rw [hla, hp, he, hwCmds_append, hxs, ← List.append_assoc, h.conserve]
    · rw [he]
      intro c hc
      rcases List.mem_append.1 hc with hc | hc
      · exact h.positive c hc
      · cases x <;> simp only [XCommand.hw?, Option.toList_none, Option.toList_some,
          List.not_mem_nil, List.mem_singleton] at hc
        subst hc; exact hx.2
  | finish _ x hx hc hp hl hid hla he =>
    refine ⟨?_, by rw [he]; exact h.positive, hd⟩
    rw [hla, he, ← h.conserve, hp, hwCmds_cons, hx]; rfl
  | launch _ c hp hl hid hdc hla he =>
    refine ⟨?_, by rw [he]; exact h.positive, hd⟩
    rw [hla, he, ← h.conserve, hp, hwCmds_cons_hardware, List.append_assoc]; rfl
  | drop _ c hp hl hid hdc hla he hst =>
    have hlt := h.not_dropped hp
    omega
  | dropAll => cases hnd

theorem fifoInv_reachable {M : LTS State Act} [Driven M] (hr : (M.restrict NoDrop).Reachable s) :
    FifoInv s := by
  refine LTS.reachable_induction (I := FifoInv) ?_ ?_ hr
  · intro s h
    rw [Driven.init (M := M) s h]; exact ⟨rfl, nofun, rfl⟩
  · intro s act s' hr h hs
    exact fifoInv_step h (step_of_reachable hr.of_restrict hs.1) hs.2

/-! ## Idle -/

/-- An idle queue has no HwCommand in its pipeline. -/
def IdleInv (s : State) : Prop := s.xqState = .idle → hwCmds s.pipeline = []

/-- What a step does to `xq_state_` and to the events. -/
inductive StateStep (s s' : State) : Prop
  | stay (hx : s'.xqState = s.xqState) (he : s'.events = s.events)
  | wake (c : HwCommand) (hx : s.xqState = .idle) (hx' : s'.xqState = .ready)
      (he : s'.events = s.events ++ [.ready])
  | sleep (hx : s.xqState = .ready) (hx' : s'.xqState = .idle)
      (he : s'.events = s.events ++ [.idle]) (hp : s.pipeline = []) (hp' : s'.pipeline = [])
      (hl : s.lastCmd.isWaitAll) (hla : s'.launched = s.launched) (hlog : s'.cmdLog = s.cmdLog)
      (hl' : s'.lastCmd = s.lastCmd)

theorem worker_state (ht : WorkerStep s s') : StateStep s s' := by
  have htail {n : Nat} {x : XCommand} {s₀ s₁ : State} (ht : Tail n x s₀ s₁) :
      s₁.xqState = s₀.xqState ∧ s₁.events = s₀.events := by
    cases ht <;> exact ⟨rfl, rfl⟩
  cases ht with
  | idle hpc hc hl hr =>
    refine .sleep hr rfl rfl ?_ hc hl rfl rfl rfl
    rw [pipeline_of_none (by rw [hpc]; rfl), hc]
  | region x s' hpc hne ht => exact .stay (htail ht).1 (htail ht).2
  | synced call r s' hpc hp ht =>
    obtain ⟨f, log, sync, he⟩ := syncFinish_frame call.target s
    rw [he] at ht
    exact .stay (htail ht).1 (htail ht).2
  | _ => exact .stay rfl rfl

theorem step_state {act : Act} (ht : Step s act s') : StateStep s s' := by
  cases ht with
  | worker b s' ht => exact worker_state ht
  | app t s' ht => cases ht <;> exact .stay rfl rfl
  | wait t c s' ht => cases ht <;> exact .stay rfl rfl
  | submit c hidx hc =>
    by_cases hq : s.xqState = .idle
    · exact .wake c hq (by simp [enqueue, XCommand.hw?, setState, hq])
        (by simp [enqueue, XCommand.hw?, setState, hq])
    · exact .stay (by simp [enqueue, XCommand.hw?, setState, hq])
        (by simp [enqueue, XCommand.hw?, setState, hq])
  | enqueueOther act x hx =>
    have hn : x.hw? = none := by rcases hx with ⟨-, rfl⟩ | ⟨-, rfl⟩ <;> rfl
    exact .stay (by simp [enqueue, hn, setState]) (by simp [enqueue, hn, setState])
  | _ => exact .stay rfl rfl

/-- A step after which the queue is idle pushed no HwCommand. -/
theorem idle_no_submit {act : Act} (ht : Step s act s') (hq : s'.xqState = .idle) :
    s'.enqueued = s.enqueued := by
  rw [step_enqueued ht]
  cases ht with
  | submit c hidx hc =>
    by_cases hi : s.xqState = .idle <;> simp [enqueue, XCommand.hw?, setState, hi] at hq
  | enqueueOther act x hx =>
    rcases hx with ⟨rfl, -⟩ | ⟨rfl, -⟩ <;> exact List.append_nil _
  | _ => exact List.append_nil _

theorem idleInv_step {act : Act} (h : IdleInv s) (ht : Step s act s') : IdleInv s' := by
  intro hq
  have hidle : s.xqState = .idle ∨ s'.pipeline = [] := by
    cases step_state ht with
    | stay hx he => rw [hx] at hq; exact .inl hq
    | wake c hx hx' he => exact .inl hx
    | sleep hx hx' he hp hp' hl hla hlog hl' => exact .inr hp'
  rcases hidle with hidle | hp'
  · have hnil := h hidle
    cases step_pipe ht with
    | stay _ hp hl hid hla he => rw [hp]; exact hnil
    | push _ x hx hp hl hid hla he hst hb hds =>
      have hx' : x.hw?.toList = [] := by
        have := idle_no_submit ht hq
        rw [he] at this
        exact List.append_right_eq_self.1 this
      rw [hp, hwCmds_append, hnil]
      exact (hwCmds_toList (some x)).trans hx'
    | finish _ x hx hc hp hl hid hla he => rw [hp, hwCmds_cons, hx] at hnil; exact hnil
    | launch _ c hp hl hid hd hla he => rw [hp] at hnil; cases hnil
    | drop _ c hp hl hid hd hla he hst => rw [hp] at hnil; cases hnil
    | dropAll hp hl hid hla he hst =>
      rw [hwCmds_pipeline] at hnil
      rw [hp, hwCmds_toList]
      exact (List.append_eq_nil_iff.1 hnil).1
  · rw [hp']; rfl

theorem idleInv_reachable {cfg : Config} (hr : (lts cfg).Reachable s) : IdleInv s := by
  refine LTS.reachable_induction (I := IdleInv) ?_ ?_ hr
  · rintro s rfl _; rfl
  · exact fun s act s' hr h hs => idleInv_step h (step_of_reachable hr hs)

/-- **FIFO, exactly once.** Without drops the launched sequence is a prefix of
the enqueued one, without repetition, and the whole of it when the queue is
idle; what is missing is in the worker's hand and the buffer, in order. On
every run `cmd_log_` is a suffix of the launched sequence. -/
theorem launch_fifo (cfg : Config) :
    (∀ s, ((lts cfg).restrict NoDrop).Reachable s →
      s.launched <+: s.enqueued ∧ s.launched.Nodup ∧
      s.launched ++ (s.pc.hand ++ hwCmds s.cmds) = s.enqueued ∧
      (s.xqState = .idle → s.launched = s.enqueued)) ∧
    ∀ s, (lts cfg).Reachable s → s.cmdLog <:+ s.launched := by
  refine ⟨fun s hr => ?_, fun s hr => (logInv_reachable hr).suffix⟩
  have hlog := logInv_reachable hr.of_restrict
  have hfifo := (fifoInv_reachable hr).conserve
  refine ⟨⟨_, hfifo⟩, hlog.launched_sublist.nodup hlog.nodup, ?_, fun hq => ?_⟩
  · rw [← hwCmds_pipeline]; exact hfifo
  · rw [idleInv_reachable hr.of_restrict hq, List.append_nil] at hfifo
    exact hfifo

/-- Two commands, the first launched while the second is buffered. -/
def fifoTrace : List Act :=
  List.replicate 4 (Act.worker true) ++ [Act.submit (halCmd 1), Act.submit (halCmd 2)] ++
  List.replicate 3 (Act.worker true)

theorem launch_fifo_two : ∃ s, ((lts cfgOne).restrict NoDrop).Reachable s ∧
    s.enqueued = [halCmd 1, halCmd 2] ∧ s.launched = [halCmd 1] ∧ s.launched <+: s.enqueued := by
  have htrace : ((LTS.exec (LTS.guarded NoDrop (step cfgOne)) init fifoTrace).map fun s =>
      (s.enqueued, s.launched)) = some ([halCmd 1, halCmd 2], [halCmd 1]) := by decide
  obtain ⟨s, hs, he⟩ := Option.map_eq_some_iff.1 htrace
  simp only [Prod.mk.injEq] at he
  have hr : ((lts cfgOne).restrict NoDrop).Reachable s := LTS.reachable_restrict_of_exec rfl hs
  exact ⟨s, hr, he.1, he.2, ((launch_fifo cfgOne).1 s hr).1⟩

end Xsched.Preempt
