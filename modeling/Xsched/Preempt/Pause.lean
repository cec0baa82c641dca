import Xsched.Preempt.Invariant

/-!
# Pausing and launching

`PauseInv`: a `Synchronize` call of the worker whose `pause_count_` is
unchanged still finds the worker running, and once `state_` is Terminated
the worker is on its way out.

With it, the only way to reach a launch while `state_` is not Running is the
early return of `SyncCmdWithLock` in the full-log branch of
`LaunchHwCommand` (`StaleReturn`): the command waited for was completed by
another thread, the queue was paused again, and the function returns without
looking at `state_`; the full-log branch launches without testing it either.
-/
namespace Xsched.Preempt

structure PauseInv (s : State) : Prop where
  /-- an unchanged pause count means not paused -/
  call : ∀ call ph r, s.pc = .syncing call ph r →
    call.pauseCnt ≤ s.pauseCount ∧ (call.pauseCnt = s.pauseCount → s.state = .running)
  term : s.state = .terminated → (∃ i, s.pc = .completing (.xQueueDestroy i)) ∨ s.pc = .exited

variable {s s' : State}

theorem PauseInv.running_of_sameCount (h : PauseInv s) (hs : SameCount s) : s.state = .running := by
  obtain ⟨call, r, hpc, hcnt⟩ := hs
  exact (h.call call _ r hpc).2 hcnt

theorem PauseInv.not_terminated {x : XCommand} (h : PauseInv s) (hpc : s.pc.cmd = some x)
    (hx : ∀ i, s.pc ≠ .completing (.xQueueDestroy i)) : s.state ≠ .terminated := by
  intro ht
  rcases h.term ht with ⟨i, hi⟩ | he
  · exact hx i hi
  · rw [he] at hpc; cases hpc

/-- Where the worker takes the lock it is not terminated. -/
theorem PauseInv.locks_not_terminated {x : XCommand} (h : PauseInv s)
    (hpc : s.pc.locks = some x) : s.state ≠ .terminated :=
  h.not_terminated (WorkerPc.locks_cmd hpc) fun i hi => by rw [hi] at hpc; cases hpc

/-- A pc outside the waits needs only `term`. -/
theorem pauseInv_of_pc (hcall : ∀ call ph r, s'.pc ≠ .syncing call ph r)
    (ht : s'.state ≠ .terminated) : PauseInv s' :=
  ⟨fun call ph r hpc => absurd hpc (hcall call ph r), fun h => absurd h ht⟩

theorem pauseInv_tail {n : Nat} {x : XCommand} (h : PauseInv s) (hn : s.state ≠ .terminated)
    (ht : Tail n x s s') : PauseInv s' := by
  cases ht with
  | launchWait c a hx hs => exact pauseInv_of_pc (fun _ _ _ => nofun) hn
  | syncWait t r a hx hr hn' hs hc => exact pauseInv_of_pc (fun _ _ _ => nofun) hn
  | syncCall t r a hx hr hn' hs hc ha =>
    refine ⟨fun call ph r' hpc => ?_, fun he => absurd he hn⟩
    cases hpc
    exact ⟨Nat.le_refl _, fun _ => hs⟩
  | abort => exact ⟨h.call, h.term⟩
  | finish a st hx hst hq hp' =>
    refine ⟨nofun, fun he => .inl ?_⟩
    have he' : st = .terminated := he
    cases x with
    | xQueueDestroy i => exact ⟨i, rfl⟩
    | _ => exact absurd (hst.symm.trans he') hn
  | drop c a hx hd => exact pauseInv_of_pc (fun _ _ _ => nofun) hn
  | launch c a e l last hx hd hs he hl => exact pauseInv_of_pc (fun _ _ _ => nofun) hn

theorem pauseInv_worker (h : PauseInv s) (ht : WorkerStep s s') : PauseInv s' := by
  have hidle (hpc : s.pc = .dequeue ∨ s.pc = .dequeueWait) : s.state ≠ .terminated := by
    intro he
    rcases h.term he with ⟨i, hi⟩ | hi <;> rcases hpc with hpc | hpc <;> simp [hpc] at hi
  cases ht with
  | dequeued x rest hpc hc => exact pauseInv_of_pc (fun _ _ _ => nofun) (hidle hpc)
  | idle hpc hc hl hr => exact pauseInv_of_pc (fun _ _ _ => nofun) (hidle (.inl hpc))
  | stillIdle hpc hc hl hr => exact pauseInv_of_pc (fun _ _ _ => nofun) (hidle (.inl hpc))
  | generated x hpc hc hl hx hb => exact pauseInv_of_pc (fun _ _ _ => nofun) (hidle (.inl hpc))
  | gotHardware c hpc =>
    have hn := h.not_terminated (x := .hardware c) (by rw [hpc]; rfl) (by rw [hpc]; nofun)
    exact pauseInv_of_pc (fun _ _ _ => nofun) hn
  | gotOther x hpc hx =>
    have hn := h.not_terminated (x := x) (by rw [hpc]; rfl) (by rw [hpc]; nofun)
    exact pauseInv_of_pc (fun _ _ _ => nofun) hn
  | noSync i hpc hl =>
    have hn := h.locks_not_terminated (x := .batchSynchronize i) (by rw [hpc]; rfl)
    exact pauseInv_of_pc (fun _ _ _ => nofun) hn
  | region x s' hpc hne ht => exact pauseInv_tail h (h.locks_not_terminated hpc) ht
  | calling call r hpc =>
    have hn := h.not_terminated (x := r.cmd) (by rw [hpc]; rfl) (by rw [hpc]; nofun)
    refine ⟨fun call' ph r' he => ?_, fun he => absurd he hn⟩
    cases he
    exact h.call call _ r hpc
  | returning call r hpc =>
    have hn := h.not_terminated (x := r.cmd) (by rw [hpc]; rfl) (by rw [hpc]; nofun)
    refine ⟨fun call' ph r' he => ?_, fun he => absurd he hn⟩
    cases he
    exact h.call call _ r hpc
  | synced call r s' hpc hp ht =>
    have hrun := (h.call call _ r hpc).2 hp
    refine pauseInv_tail ⟨fun call' ph r' he => ?_, fun he => ?_⟩ ?_ ht
    · rw [syncFinish_pc] at he
      rw [syncFinish_pauseCount, syncFinish_state]
      exact h.call call' ph r' he
    · rw [syncFinish_state, hrun] at he; cases he
    · rw [syncFinish_state, hrun]; decide
  | complete x hpc hx =>
    refine ⟨fun call ph r he => ?_, fun he => ?_⟩
    · cases x <;> cases he
    · rcases h.term he with ⟨i, hi⟩ | hi
      · rw [hpc] at hi; cases hi
        exact .inr rfl
      · rw [hpc] at hi; cases hi

theorem pauseInv_app {t : Nat} (h : PauseInv s) (ht : AppStep s t s') : PauseInv s' := by
  cases ht <;> exact ⟨h.call, h.term⟩

theorem pauseInv_step {act : Act} (h : PauseInv s) (ht : Step s act s') : PauseInv s' := by
  cases ht with
  | worker b s' ht => exact pauseInv_worker h ht
  | app t s' ht => exact pauseInv_app h ht
  | wait t c s' ht => exact pauseInv_app h ht
  | pause =>
    refine ⟨fun call ph r hpc => ?_, nofun⟩
    have hle := (h.call call ph r hpc).1
    exact ⟨Nat.le_succ_of_le hle, fun he => by simp only [pause] at he; omega⟩
  | resume => exact ⟨fun call ph r hpc => ⟨(h.call call ph r hpc).1, fun _ => rfl⟩, nofun⟩
  | resumeAndDrop d => exact ⟨fun call ph r hpc => ⟨(h.call call ph r hpc).1, fun _ => rfl⟩, nofun⟩
  | _ => exact ⟨h.call, h.term⟩

theorem pauseInv_reachable {M : LTS State Act} [Driven M] (hr : M.Reachable s) : PauseInv s := by
  refine LTS.reachable_induction (I := PauseInv) ?_ ?_ hr
  · intro s h
    rw [Driven.init s h]; exact ⟨nofun, nofun⟩
  · exact fun s act s' hr h hs => pauseInv_step h (step_of_reachable hr hs)

/-! ## Launching -/

/-- The worker is about to come back from the wait for an empty slot because
its command was completed by another thread, and the queue is paused. -/
def StaleReturn (s : State) : Prop :=
  s.state = .paused ∧ ∃ d c, s.cmdState (.hardware d) = .completed ∧ s.dropIdx < c.idx ∧
    (s.pc = .syncWait (.cmd d) (.full c) ∨
      ∃ call, call.target = .cmd d ∧ s.pc = .syncing call .returned (.full c))

theorem launched_tail {n : Nat} {x : XCommand} (ht : Tail n x s s') (hne : s'.launched ≠ s.launched) :
    ∃ c, s.dropIdx < c.idx ∧ s'.launched = s.launched ++ [c] ∧ (s.state = .paused → FullRet s c) := by
  cases ht with
  | launch c a e l last hx hd hs he hl => exact ⟨c, hd, rfl, hs⟩
  | _ => exact absurd rfl hne

theorem launched_app {t : Nat} (ht : AppStep s t s') : s'.launched = s.launched := by
  cases ht <;> rfl

theorem syncFinish_launched (t : SyncTarget) (s : State) :
    (syncFinish t s).launched = s.launched := by
  cases t
  · rw [syncFinish, clearLogs_eq]
  · rw [syncFinish, popLogs_eq]

/-- A launch is a step of the worker, and happens while `state_` is Running
unless it follows a stale return. -/
theorem launch_cases {act : Act} (hlog : LogInv s) (hp : PauseInv s) (ht : Step s act s')
    (hne : s'.launched ≠ s.launched) :
    (∃ b, act = .worker b) ∧ (s.state = .running ∨ StaleReturn s) := by
  cases ht with
  | worker b s' ht =>
    refine ⟨⟨b, rfl⟩, ?_⟩
    cases ht with
    | region x s' hpc _ ht =>
      obtain ⟨c, hd, -, hfull⟩ := launched_tail ht hne
      have hn := hp.locks_not_terminated hpc
      cases hs : s.state with
      | running => exact .inl rfl
      | terminated => exact absurd hs hn
      | paused =>
        rcases hfull hs with hsame | ⟨d, hdone, hmem | hpc' | ⟨call, hct, hpc'⟩⟩
        · have hrun := hp.running_of_sameCount hsame
          rw [hs] at hrun; cases hrun
        · exact absurd hdone (hlog.not_completed hmem)
        · exact .inr ⟨hs, d, c, hdone, hd, .inl hpc'⟩
        · exact .inr ⟨hs, d, c, hdone, hd, .inr ⟨call, hct, hpc'⟩⟩
    | synced call r s' hpc hcnt ht => exact .inl ((hp.call call _ r hpc).2 hcnt)
    | _ => exact absurd rfl hne
  | app t s' ht => exact absurd (launched_app ht) hne
  | wait t c s' ht => exact absurd (launched_app ht) hne
  | _ => exact absurd rfl hne

theorem launchOrDrop_launched {cfg : Config} {b : Bool} {c : HwCommand} (hd : s.dropIdx < c.idx) :
    (launchOrDrop cfg b c s).launched = s.launched ++ [c] := by
  unfold launchOrDrop
  rw [if_neg (Int.not_le.2 hd)]
  dsimp only
  split <;> split <;> rfl

/-- A stale return launches, whatever `state_` is. -/
theorem staleReturn_launches {cfg : Config} {b : Bool} (hp : PauseInv s) (h : StaleReturn s)
    (hs : stepWorker cfg b s = some s') : s'.launched ≠ s.launched := by
  obtain ⟨hpaused, d, c, hdone, hdrop, hpc⟩ := h
  have hret : syncLoop (.cmd d) s = .ret := by
    show syncCmdWithLock d s = .ret
    rw [syncCmdWithLock, if_pos hdone]
  have hsync : workerSync (afterSync cfg b (.full c)) (.cmd d) (.full c) s =
      launchOrDrop cfg b c s := by
    simp only [workerSync, hret, afterSync]
  have he : s' = launchOrDrop cfg b c s := by
    rcases hpc with hpc | ⟨call, hct, hpc⟩
    · simp only [stepWorker, hpc, Option.some.injEq] at hs
      rw [← hs, hsync]
    · have hcnt : call.pauseCnt ≠ s.pauseCount := by
        intro hcnt
        have := (hp.call call _ _ hpc).2 hcnt
        rw [hpaused] at this; cases this
      simp only [stepWorker, hpc, if_neg hcnt, Option.some.injEq, hct] at hs
      rw [← hs, hsync]
  rw [he, launchOrDrop_launched hdrop]
  simp

/-! ## Runs -/

/-- What a run must not do: let the worker step out of a stale return. -/
def NoStaleReturn (s : State) (act : Act) : Prop := StaleReturn s → ∀ b, act ≠ .worker b

/-- A step launches only while `state_` is Running. -/
def LaunchesRunning (cfg : Config) (s : State) (act : Act) : Prop :=
  ∀ s', step cfg s act = some s' → s'.launched ≠ s.launched → s.state = .running

theorem launchesRunning_iff {cfg : Config} {act : Act} (hr : (lts cfg).Reachable s)
    (hs : (lts cfg).step s act s') : LaunchesRunning cfg s act ↔ NoStaleReturn s act := by
  have hp := pauseInv_reachable hr
  constructor
  · rintro h hstale b rfl
    have hw : stepWorker cfg b s = some s' := by
      have hs' : step cfg s (.worker b) = some s' := hs
      rwa [step, if_neg (by rw [not_aborted hr hs]; decide)] at hs'
    have := h s' hs (staleReturn_launches hp hstale hw)
    rw [hstale.1] at this; cases this
  · intro h s₁ hs₁ hne
    obtain ⟨⟨b, rfl⟩, hrun | hstale⟩ :=
      launch_cases (logInv_reachable hr) hp (step_of_reachable hr hs₁) hne
    · exact hrun
    · exact absurd rfl (h hstale b)

/-- Only `Resume` and `ResumeAndDrop` leave Paused, apart from the end of the
worker. -/
theorem paused_step {act : Act} (ht : Step s act s') (hs : s.state ≠ .running)
    (hr : act ≠ .resume) (hd : ∀ d, act ≠ .resumeAndDrop d) : s'.state ≠ .running := by
  have htail {n : Nat} {x : XCommand} {s₀ s₁ : State} (h₀ : s₀.state ≠ .running) (ht : Tail n x s₀ s₁) :
      s₁.state ≠ .running := by
    cases ht with
    | finish a st hx hst hq hp' =>
      show st ≠ .running
      rw [hst]
      split
      · decide
      · exact h₀
    | _ => exact h₀
  cases ht with
  | worker b s' ht =>
    cases ht with
    | region x s' hpc hne ht => exact htail hs ht
    | synced call r s' hpc hcnt ht => exact htail (by rw [syncFinish_state]; exact hs) ht
    | _ => exact hs
  | app t s' ht => cases ht <;> exact hs
  | wait t c s' ht => cases ht <;> exact hs
  | pause => nofun
  | resume => exact absurd rfl hr
  | resumeAndDrop d => exact absurd rfl (hd d)
  | _ => exact hs

/-- If every launch happens while Running, nothing is launched while the
queue stays paused. -/
theorem run_paused_launched {cfg : Config} {ok : State → Act → Prop}
    (hok : ∀ s act s', (lts cfg).Reachable s → (lts cfg).step s act s' → ok s act →
      LaunchesRunning cfg s act) {ls : List Act}
    (h : ((lts cfg).restrict ok).Run s ls s') (hr : (lts cfg).Reachable s)
    (hs : s.state ≠ .running) (hls : ∀ act ∈ ls, act ≠ .resume ∧ ∀ d, act ≠ .resumeAndDrop d) :
    s'.launched = s.launched := by
  induction h with
  | nil s => rfl
  | @cons s act s₁ ls s₂ hstep hrun ih =>
    have hact := hls act List.mem_cons_self
    have hst := step_of_reachable hr hstep.1
    have hs₁ := paused_step hst hs hact.1 hact.2
    rw [ih (hr.step hstep.1) hs₁ fun a ha => hls a (List.mem_cons_of_mem _ ha)]
    by_contra hne
    exact hs (hok s act s₁ hr hstep.1 hstep.2 s₁ hstep.1 hne)

/-- **No launch while paused**, on exactly the runs in which the worker never
steps out of a stale return; in those nothing is launched from a Pause to
the next Resume or ResumeAndDrop. -/
theorem no_launch_while_paused (cfg : Config) :
    (∀ ls s, ((lts cfg).restrict (LaunchesRunning cfg)).Run init ls s ↔
      ((lts cfg).restrict NoStaleReturn).Run init ls s) ∧
    ∀ s ls s', ((lts cfg).restrict NoStaleReturn).Reachable s → s.state = .paused →
      ((lts cfg).restrict NoStaleReturn).Run s ls s' →
      (∀ act ∈ ls, act ≠ .resume ∧ ∀ d, act ≠ .resumeAndDrop d) → s'.launched = s.launched := by
  have hinit : (lts cfg).Reachable init := LTS.reachable_init rfl
  refine ⟨fun ls s => ⟨fun h => ?_, fun h => ?_⟩, fun s ls s' hr hs h hls => ?_⟩
  · refine h.restrict_congr hinit fun s act s' hr hs hok => ?_
    exact (launchesRunning_iff hr hs).1 hok
  · refine h.restrict_congr hinit fun s act s' hr hs hok => ?_
    exact (launchesRunning_iff hr hs).2 hok
  · refine run_paused_launched (fun s act s' hr hs hok => ?_) h hr.of_restrict ?_ hls
    · exact (launchesRunning_iff hr hs).2 hok
    · rw [hs]; decide

/-- Threshold and batch size 1, no preemption of the hardware. -/
def cfgOne : Config := ⟨.block, 1, 1, Nat.le_refl 1, Nat.one_pos⟩

/-- A HAL command without properties. -/
def halCmd (idx : Int) : HwCommand := ⟨idx, kCommandPropertyNone, .hal⟩

/-- The worker has a command that waits for an empty slot. -/
def waitsFull : WorkerPc → Bool
  | .syncWait _ (.full _) | .syncing _ _ (.full _) => true
  | _ => false

theorem noStaleReturn_of_pc {act : Act} (h : waitsFull s.pc = false) : NoStaleReturn s act := by
  rintro ⟨-, d, c, -, -, hpc | ⟨call, -, hpc⟩⟩
  · rw [hpc] at h; cases h
  · rw [hpc] at h; cases h

/-- The worker has taken command 1 when the queue is paused. -/
def pausedTrace : List Act :=
  List.replicate 4 (Act.worker true) ++ [Act.submit (halCmd 1), Act.worker true, Act.pause]

/-- Command 2 is submitted, and the worker waits for the resume. -/
def waitingTrace : List Act := Act.submit (halCmd 2) :: List.replicate 3 (Act.worker true)

theorem no_launch_while_paused_submit :
    ∃ s s', (lts cfgOne).Run init pausedTrace s ∧ s.state = .paused ∧
      (lts cfgOne).Run s waitingTrace s' ∧ s'.pc = .launchWait (halCmd 1) ∧
      s'.launched = s.launched := by
  have htrace : ((LTS.exec (LTS.guarded (fun s _ => waitsFull s.pc = false) (step cfgOne)) init
      pausedTrace).bind fun s =>
      (LTS.exec (LTS.guarded (fun s _ => waitsFull s.pc = false) (step cfgOne)) s waitingTrace).map
        fun s' => (s.state, s'.pc)) = some (.paused, .launchWait (halCmd 1)) := by decide
  obtain ⟨s, hs, hrest⟩ := Option.bind_eq_some_iff.1 htrace
  obtain ⟨s', hs', hpc⟩ := Option.map_eq_some_iff.1 hrest
  obtain ⟨hstate, hpc⟩ := Prod.mk.inj hpc
  have hok (s : State) (act : Act) (h : waitsFull s.pc = false) : NoStaleReturn s act :=
    noStaleReturn_of_pc h
  have hrun : ((lts cfgOne).restrict NoStaleReturn).Run init pausedTrace s :=
    (LTS.run_restrict_of_exec hs).restrict_mono hok
  have hrun' : ((lts cfgOne).restrict NoStaleReturn).Run s waitingTrace s' :=
    (LTS.run_restrict_of_exec hs').restrict_mono hok
  refine ⟨s, s', hrun.of_restrict, hstate, hrun'.of_restrict, hpc, ?_⟩
  refine (no_launch_while_paused cfgOne).2 _ _ _ ((LTS.reachable_init rfl).run hrun) hstate hrun' ?_
  simp [waitingTrace]

/-- The worker waits for command 1 to launch command 2; an application thread
synchronizes command 1; the queue is paused; the worker retakes the lock. -/
def staleTrace : List Act :=
  List.replicate 4 (Act.worker true) ++ [Act.submit (halCmd 1)] ++ List.replicate 3 (Act.worker true) ++
  [Act.submit (halCmd 2)] ++ List.replicate 4 (Act.worker true) ++ [Act.wait 0 (halCmd 1)] ++
  List.replicate 6 (Act.app 0) ++ [Act.worker true, Act.pause]

/-- **Counterexample**: after the trace the queue is paused, and the worker's
next step launches command 2. -/
theorem launch_while_paused :
    ¬ ∀ (cfg : Config) (s : State) (act : Act) (s' : State), (lts cfg).Reachable s →
      (lts cfg).step s act s' → s'.launched ≠ s.launched → s.state = .running := by
  intro h
  have htrace : ((LTS.exec (step cfgOne) init staleTrace).bind fun s =>
      (step cfgOne s (.worker true)).map fun s' => (s.state, s.launched, s'.launched)) =
      some (.paused, [halCmd 1], [halCmd 1, halCmd 2]) := by decide
  obtain ⟨s, hs, he⟩ := Option.bind_eq_some_iff.1 htrace
  obtain ⟨s', hs', he'⟩ := Option.map_eq_some_iff.1 he
  simp only [Prod.mk.injEq] at he'
  have hrun := h cfgOne s (.worker true) s' (LTS.reachable_of_exec rfl hs) hs'
    (by rw [he'.2.1, he'.2.2]; decide)
  rw [he'.1] at hrun; cases hrun

end Xsched.Preempt
