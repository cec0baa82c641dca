import Mathlib.Data.List.TakeWhile
import Xsched.Preempt.Pause

/-!
# Completion soundness

When a step completes a launched HwCommand, a `Synchronize` call that covers
it has returned and no pause happened since before the call, or
`ResumeAndDrop` took the command out of the log (`completion_sound`).

`SyncInv` says what every thread inside a wait knows about its call: the
command it is made on was launched when the call was made, the worker
launches nothing while it waits, and a call that is past its return is
recorded in `returned`. The commands a prefix pop removes are at or before
the synchronized one only if the enqueued indices increase (`InOrder`).
-/
namespace Xsched.Preempt

/-- The call, made when `launchedBefore` was the launched sequence, waits for
`c`: it is on the HwQueue, on `c` or on a command launched after `c`. -/
def SyncCall.Covers (call : SyncCall) (c : HwCommand) : Prop :=
  match call.target with
  | .hwq => c ∈ call.launchedBefore
  | .cmd d => ∃ l₁ l₂, call.launchedBefore = l₁ ++ d :: l₂ ∧ c ∈ l₁ ++ [d]

/-- What is known of a call in phase `ph`. -/
def CallOk (s : State) (call : SyncCall) : SyncPhase → Prop
  | .unlocked => ∀ d, call.target = .cmd d → d ∈ s.launched
  | .called =>
    call.launchedBefore <+: s.launched ∧ ∀ d, call.target = .cmd d → d ∈ call.launchedBefore
  | .returned =>
    call ∈ s.returned ∧
      call.launchedBefore <+: s.launched ∧ ∀ d, call.target = .cmd d → d ∈ call.launchedBefore

structure SyncInv (s : State) : Prop where
  worker : ∀ call ph r, s.pc = .syncing call ph r → CallOk s call ph
  /-- the worker launches nothing during its own wait -/
  quiet : ∀ call ph r, s.pc = .syncing call ph r → ph ≠ .unlocked →
    call.launchedBefore = s.launched
  app : ∀ t call ph c, s.app t = .syncing call ph c → call.target = .cmd c ∧ CallOk s call ph

variable {s s' : State}

theorem CallOk.mono {call : SyncCall} {ph : SyncPhase} (h : CallOk s call ph)
    (hl : s.launched <+: s'.launched) (hr : s.returned ⊆ s'.returned) : CallOk s' call ph := by
  cases ph with
  | unlocked => exact fun d hd => hl.subset (h d hd)
  | called => exact ⟨h.1.trans hl, h.2⟩
  | returned => exact ⟨hr h.1, h.2.1.trans hl, h.2.2⟩

/-! ## What steps leave alone -/

theorem tail_launched {n : Nat} {x : XCommand} (ht : Tail n x s s') : s.launched <+: s'.launched := by
  cases ht with
  | launch c a e l last hx hd hs he hl => exact List.prefix_append _ _
  | _ => exact List.prefix_refl _

theorem tail_returned {n : Nat} {x : XCommand} (ht : Tail n x s s') : s'.returned = s.returned := by
  cases ht <;> rfl

theorem tail_app {n : Nat} {x : XCommand} (ht : Tail n x s s') : s'.app = s.app := by
  cases ht <;> rfl

theorem syncFinish_returned (t : SyncTarget) (s : State) :
    (syncFinish t s).returned = s.returned := by
  cases t
  · rw [syncFinish, clearLogs_eq]
  · rw [syncFinish, popLogs_eq]

theorem syncFinish_app (t : SyncTarget) (s : State) : (syncFinish t s).app = s.app := by
  cases t
  · rw [syncFinish, clearLogs_eq]
  · rw [syncFinish, popLogs_eq]

theorem worker_app (ht : WorkerStep s s') : s'.app = s.app := by
  cases ht with
  | region x s' hpc hne ht => exact tail_app ht
  | synced call r s' hpc hp ht => rw [tail_app ht, syncFinish_app]
  | _ => rfl

theorem worker_launched (ht : WorkerStep s s') : s.launched <+: s'.launched := by
  cases ht with
  | region x s' hpc hne ht => exact tail_launched ht
  | synced call r s' hpc hp ht =>
    have h := tail_launched ht
    rwa [syncFinish_launched] at h
  | _ => exact List.prefix_refl _

theorem worker_returned (ht : WorkerStep s s') : s.returned ⊆ s'.returned := by
  cases ht with
  | region x s' hpc hne ht => rw [tail_returned ht]; exact List.Subset.refl _
  | synced call r s' hpc hp ht =>
    rw [tail_returned ht, syncFinish_returned]; exact List.Subset.refl _
  | returning call r hpc => exact List.subset_append_left _ _
  | _ => exact List.Subset.refl _

/-- The launched sequence only grows at its end. -/
theorem step_launched {act : Act} (ht : Step s act s') : s.launched <+: s'.launched := by
  cases ht with
  | worker b s' ht => exact worker_launched ht
  | app t s' ht => rw [launched_app ht]
  | wait t c s' ht => rw [launched_app ht]
  | _ => exact List.prefix_refl _

/-! ## The calls -/

/-- A command on which the worker or a thread starts a call is launched. -/
theorem LogInv.launched_of_val (h : LogInv s) {d : HwCommand}
    (hv : 2 ≤ (s.cmdState (.hardware d)).val) (hc : s.cmdState (.hardware d) ≠ .completed) :
    d ∈ s.launched := by
  cases hst : s.cmdState (.hardware d) with
  | inFlight => exact h.mem_launched ((h.inFlight d).1 hst)
  | completed => exact absurd hst hc
  | created => simp [hst, XCommandState.val] at hv
  | pending => simp [hst, XCommandState.val] at hv

/-- The worker's part of `SyncInv` after a step that leaves the threads alone. -/
theorem SyncInv.of_worker (h : SyncInv s) (happ : s'.app = s.app)
    (hl : s.launched <+: s'.launched) (hr : s.returned ⊆ s'.returned)
    (hw : ∀ call ph r, s'.pc = .syncing call ph r →
      CallOk s' call ph ∧ (ph ≠ .unlocked → call.launchedBefore = s'.launched)) : SyncInv s' where
  worker := fun call ph r hpc => (hw call ph r hpc).1
  quiet := fun call ph r hpc => (hw call ph r hpc).2
  app := by
    intro t call ph c hpc
    rw [happ] at hpc
    exact ⟨(h.app t call ph c hpc).1, (h.app t call ph c hpc).2.mono hl hr⟩

theorem syncInv_tail {n : Nat} {x : XCommand} (hlog : LogInv s) (h : SyncInv s) (ht : Tail n x s s')
    (ha' : s'.aborted = false) : SyncInv s' := by
  have hframe := h.of_worker (tail_app ht) (tail_launched ht)
    (by rw [tail_returned ht]; exact List.Subset.refl _)
  cases ht with
  | syncCall t r a hx hr hn' hs hc ha =>
    refine hframe fun call ph r' hpc => ?_
    cases hpc
    refine ⟨fun d hd => ?_, fun hne => absurd rfl hne⟩
    exact hlog.launched_of_val (ha ha' d hd) (hc d hd)
  | abort => simp [xassert] at ha'
  | _ =>
    refine hframe fun call ph r' hpc => ?_
    cases hpc

theorem syncInv_worker (hlog : LogInv s) (h : SyncInv s) (ht : WorkerStep s s')
    (ha' : s'.aborted = false) : SyncInv s' := by
  have hframe := h.of_worker (worker_app ht) (worker_launched ht) (worker_returned ht)
  cases ht with
  | region x s' hpc hne ht => exact syncInv_tail hlog h ht ha'
  | synced call r s' hpc hp ht =>
    refine syncInv_tail (logInv_syncFinish hlog call.target) ⟨?_, ?_, ?_⟩ ht ha'
    · intro call' ph r' hpc'
      rw [syncFinish_pc] at hpc'
      refine (h.worker call' ph r' hpc').mono ?_ ?_
      · rw [syncFinish_launched]
      · rw [syncFinish_returned]; exact List.Subset.refl _
    · intro call' ph r' hpc' hne
      rw [syncFinish_pc] at hpc'
      rw [syncFinish_launched]; exact h.quiet call' ph r' hpc' hne
    · intro t call' ph c hpc'
      rw [syncFinish_app] at hpc'
      refine ⟨(h.app t call' ph c hpc').1, (h.app t call' ph c hpc').2.mono ?_ ?_⟩
      · rw [syncFinish_launched]
      · rw [syncFinish_returned]; exact List.Subset.refl _
  | calling call r hpc =>
    refine hframe fun call' ph r' he => ?_
    cases he
    exact ⟨⟨List.prefix_refl _, h.worker call _ r hpc⟩, fun _ => rfl⟩
  | returning call r hpc =>
    refine hframe fun call' ph r' he => ?_
    cases he
    have hcall := h.worker call _ r hpc
    refine ⟨⟨List.mem_append_right _ List.mem_cons_self, hcall⟩, fun _ => ?_⟩
    exact h.quiet call _ r hpc nofun
  | complete x hpc hx =>
    refine hframe fun call ph r he => ?_
    cases x <;> cases he
  | _ => exact hframe fun call ph r' => nofun

/-- Thread `t` moves to `p`. -/
theorem syncInv_setApp {t : Nat} {p : AppPc} (h : SyncInv s) (hpc : s'.pc = s.pc)
    (happ : s'.app = s.app) (hl : s'.launched = s.launched) (hr : s.returned ⊆ s'.returned)
    (hp : ∀ call ph c, p = .syncing call ph c → call.target = .cmd c ∧ CallOk s' call ph) :
    SyncInv (setApp t p s') where
  worker := by
    intro call ph r he
    have he' : s.pc = .syncing call ph r := hpc.symm.trans he
    have hok : CallOk s' call ph := (h.worker call ph r he').mono (by rw [hl]) hr
    cases ph <;> exact hok
  quiet := by
    intro call ph r he hne
    have he' : s.pc = .syncing call ph r := hpc.symm.trans he
    exact (h.quiet call ph r he' hne).trans hl.symm
  app := by
    intro t' call ph c he
    have he' : (if t' = t then p else s'.app t') = .syncing call ph c := by
      rw [← Function.update_apply]; exact he
    have hok : call.target = .cmd c ∧ CallOk s' call ph := by
      split at he'
      · exact hp call ph c he'
      · rw [happ] at he'
        exact ⟨(h.app t' call ph c he').1, (h.app t' call ph c he').2.mono (by rw [hl]) hr⟩
    cases ph <;> exact hok

theorem syncInv_app {t : Nat} (hlog : LogInv s) (h : SyncInv s) (ht : AppStep s t s')
    (ha' : s'.aborted = false) : SyncInv s' := by
  have hrefl := List.Subset.refl s.returned
  cases ht with
  | start c hpc =>
    refine syncInv_setApp h rfl rfl rfl hrefl fun call ph c' he => ?_
    split at he <;> cases he
  | syncCall c a hpc hs hc ha =>
    refine syncInv_setApp h rfl rfl rfl hrefl fun call ph c' he => ?_
    cases he
    refine ⟨rfl, fun d hd => ?_⟩
    cases hd
    exact hlog.launched_of_val (ha ha') hc
  | calling call c hpc =>
    refine syncInv_setApp h rfl rfl rfl hrefl fun call' ph c' he => ?_
    cases he
    obtain ⟨htgt, hok⟩ := h.app t call _ c hpc
    exact ⟨htgt, List.prefix_refl _, hok⟩
  | returning call c hpc =>
    refine syncInv_setApp h rfl rfl rfl (List.subset_append_left _ _) fun call' ph c' he => ?_
    cases he
    obtain ⟨htgt, hok⟩ := h.app t call _ c hpc
    exact ⟨htgt, List.mem_append_right _ List.mem_cons_self, hok⟩
  | synced call c hpc hp => exact syncInv_setApp h rfl rfl rfl hrefl nofun
  | _ => exact syncInv_setApp h rfl rfl rfl hrefl nofun

theorem syncInv_step {act : Act} (hlog : LogInv s) (h : SyncInv s) (ht : Step s act s')
    (ha' : s'.aborted = false) : SyncInv s' := by
  cases ht with
  | worker b s' ht => exact syncInv_worker hlog h ht ha'
  | app t s' ht => exact syncInv_app hlog h ht ha'
  | wait t c s' ht => exact syncInv_app hlog h ht ha'
  | _ =>
    refine ⟨fun call ph r hpc => ?_, h.quiet, fun t call ph c hpc => ⟨(h.app t call ph c hpc).1, ?_⟩⟩
    · have hok := h.worker call ph r hpc
      cases ph <;> exact hok
    · have hok := (h.app t call ph c hpc).2
      cases ph <;> exact hok

theorem syncInv_reachable {cfg : Config} (hr : (lts cfg).Reachable s) (ha : s.aborted = false) :
    SyncInv s := by
  refine LTS.reachable_induction (I := fun s => s.aborted = false → SyncInv s) ?_ ?_ hr ha
  · rintro s rfl _; exact ⟨nofun, nofun, nofun⟩
  · intro s act s' hr h hs ha'
    exact syncInv_step (logInv_reachable hr) (h (not_aborted hr hs)) (step_of_reachable hr hs) ha'

/-! ## The order of the indices -/

/-- The HwCommands a step enqueues. -/
def Act.submitted : Act → List HwCommand
  | .submit c => [c]
  | _ => []

theorem step_enqueued {act : Act} (ht : Step s act s') :
    s'.enqueued = s.enqueued ++ act.submitted := by
  have htail {n : Nat} {x : XCommand} {s₀ s₁ : State} (ht : Tail n x s₀ s₁) :
      s₁.enqueued = s₀.enqueued := by
    cases ht <;> rfl
  have hfin (t : SyncTarget) : (syncFinish t s).enqueued = s.enqueued := by
    cases t
    · rw [syncFinish, clearLogs_eq]
    · rw [syncFinish, popLogs_eq]
  cases ht with
  | worker b s' ht =>
    show s'.enqueued = s.enqueued ++ []
    rw [List.append_nil]
    cases ht with
    | region x s' hpc hne ht => exact htail ht
    | synced call r s' hpc hp ht => rw [htail ht, hfin]
    | _ => rfl
  | app t s' ht =>
    show s'.enqueued = s.enqueued ++ []
    rw [List.append_nil]
    cases ht <;> rfl
  | wait t c s' ht =>
    show s'.enqueued = s.enqueued ++ []
    rw [List.append_nil]
    cases ht <;> rfl
  | submit c hidx hc => rfl
  | enqueueOther act x hx => rcases hx with ⟨rfl, rfl⟩ | ⟨rfl, rfl⟩ <;> rfl
  | _ => exact (List.append_nil _).symm

/-- The HwCommand a step enqueues has a larger index than all before it. -/
def InOrder (s : State) (act : Act) : Prop := ∀ c ∈ act.submitted, ∀ d ∈ s.enqueued, d.idx < c.idx

instance (s : State) (act : Act) : Decidable (InOrder s act) :=
  inferInstanceAs (Decidable (∀ c ∈ act.submitted, ∀ d ∈ s.enqueued, d.idx < c.idx))

/-- Strictly increasing indices. -/
def Increasing (cs : List HwCommand) : Prop := cs.Pairwise fun a b => a.idx < b.idx

theorem increasing_step {act : Act} (h : Increasing s.enqueued) (ht : Step s act s')
    (hok : InOrder s act) : Increasing s'.enqueued := by
  rw [step_enqueued ht]
  refine List.pairwise_append.2 ⟨h, ?_, fun a ha b hb => hok b hb a ha⟩
  cases act with
  | submit c => exact List.pairwise_singleton _ _
  | _ => exact List.Pairwise.nil

theorem increasing_reachable {cfg : Config} (hr : ((lts cfg).restrict InOrder).Reachable s) :
    Increasing s.enqueued := by
  refine LTS.reachable_induction (I := fun s => Increasing s.enqueued) ?_ ?_ hr
  · rintro s rfl; exact List.Pairwise.nil
  · intro s act s' hr h hs
    exact increasing_step h (step_of_reachable hr.of_restrict hs.1) hs.2

/-- In an increasing sequence, what has no larger index than `d` stands at or
before `d`. -/
theorem before_of_le {before after : List HwCommand} {c d : HwCommand}
    (hinc : Increasing (before ++ after)) (hd : d ∈ before) (hc : c ∈ before ++ after)
    (hle : c.idx ≤ d.idx) : ∃ l₁ l₂, before = l₁ ++ d :: l₂ ∧ c ∈ l₁ ++ [d] := by
  obtain ⟨l₁, l₂, rfl⟩ := List.append_of_mem hd
  refine ⟨l₁, l₂, rfl, ?_⟩
  rw [List.append_assoc, List.cons_append] at hinc hc
  obtain ⟨-, hcons, -⟩ := List.pairwise_append.1 hinc
  have hafter := (List.pairwise_cons.1 hcons).1
  rcases List.mem_append.1 hc with hc | hc
  · exact List.mem_append_left _ hc
  · rcases List.mem_cons.1 hc with rfl | hc
    · exact List.mem_append_right _ List.mem_cons_self
    · have hlt := hafter c hc
      omega

/-- Popping a prefix of an increasing log keeps what has a larger index. -/
theorem Increasing.dropWhile_eq {cs : List HwCommand} (h : Increasing cs) (k : Int) :
    (cs.dropWhile fun c => decide (c.idx ≤ k)) = cs.filter fun c => decide (k < c.idx) := by
  induction cs with
  | nil => rfl
  | cons c cs ih =>
    obtain ⟨hc, hcs⟩ := List.pairwise_cons.1 h
    by_cases hk : c.idx ≤ k
    · rw [List.dropWhile_cons_of_pos (by simpa using hk),
        List.filter_cons_of_neg (by simpa using hk), ih hcs]
    · have hall : ∀ e ∈ c :: cs, decide (k < e.idx) = true := by
        intro e he
        rw [decide_eq_true_eq]
        rcases List.mem_cons.1 he with rfl | he
        · exact Int.not_le.1 hk
        · exact Int.lt_trans (Int.not_le.1 hk) (hc e he)
      rw [List.dropWhile_cons_of_neg (by simpa using hk), List.filter_eq_self.2 hall]

/-! ## How a command gets completed -/

/-- What a wait for `t` completes when it succeeds. -/
def State.popped (s : State) : SyncTarget → List HwCommand
  | .hwq => s.cmdLog
  | .cmd d => s.cmdLog.takeWhile fun c => decide (c.idx ≤ d.idx)

theorem syncFinish_cmdState (t : SyncTarget) (s : State) :
    (syncFinish t s).cmdState = completeOn (s.popped t) s.cmdState := by
  cases t
  · rw [syncFinish, clearLogs_eq]; rfl
  · rw [syncFinish, popLogs_eq]; rfl

theorem popped_subset (t : SyncTarget) (s : State) : s.popped t ⊆ s.cmdLog := by
  cases t
  · exact List.Subset.refl _
  · exact (List.takeWhile_prefix _).subset

theorem popped_le {d c : HwCommand} (h : c ∈ s.popped (.cmd d)) : c.idx ≤ d.idx := by
  have := List.mem_takeWhile_imp h
  simpa using this

/-- The causes of a completion, read off the steps. -/
inductive Completes (s : State) (c : HwCommand) : Act → Prop
  | workerSync (b : Bool) (call : SyncCall) (r : SyncRet) (hpc : s.pc = .syncing call .returned r)
      (hcnt : call.pauseCnt = s.pauseCount) (hpop : c ∈ s.popped call.target) :
      Completes s c (.worker b)
  | appSync (act : Act) (t : Nat) (call : SyncCall) (d : HwCommand)
      (hpc : s.app t = .syncing call .returned d) (hcnt : call.pauseCnt = s.pauseCount)
      (hpop : c ∈ s.popped (.cmd d)) : Completes s c act
  | dropTest (b : Bool) (hpc : s.pc.cmd = some (.hardware c)) (hd : c.idx ≤ s.dropIdx) :
      Completes s c (.worker b)
  | dropAll (hc : XCommand.hardware c ∈ s.cmds) : Completes s c .dropAll
  | resumeAndDrop (d : Int) (hc : c ∈ s.cmdLog) : Completes s c (.resumeAndDrop d)

theorem tail_completes {n : Nat} {x : XCommand} {c : HwCommand} (ht : Tail n x s s')
    (hnew : s.cmdState (.hardware c) ≠ .completed) (hdone : s'.cmdState (.hardware c) = .completed) :
    x = .hardware c ∧ c.idx ≤ s.dropIdx := by
  cases ht with
  | drop d a hx hd =>
    have h : (if c = d then XCommandState.completed else s.cmdState (.hardware c)) = .completed := by
      rw [← update_hw]; exact hdone
    split at h
    · rename_i hcd; subst hcd; exact ⟨hx, hd⟩
    · exact absurd h hnew
  | launch d a e l last hx hd hs he hl =>
    have h : (if c = d then XCommandState.inFlight else s.cmdState (.hardware c)) = .completed := by
      rw [← update_hw]; exact hdone
    split at h
    · cases h
    · exact absurd h hnew
  | _ => exact absurd hdone hnew

theorem completeOn_new {cs : List HwCommand} {f : XCommand → XCommandState} {c : HwCommand}
    (hnew : f (.hardware c) ≠ .completed) (hdone : completeOn cs f (.hardware c) = .completed) :
    c ∈ cs := by
  rw [completeOn_hw] at hdone
  split at hdone
  · assumption
  · exact absurd hdone hnew

theorem worker_completes {b : Bool} {c : HwCommand} (ht : WorkerStep s s')
    (hnew : s.cmdState (.hardware c) ≠ .completed) (hdone : s'.cmdState (.hardware c) = .completed) :
    Completes s c (.worker b) := by
  have hother {x : XCommand} {v : XCommandState} (hx : x.hw? = none)
      (h : Function.update s.cmdState x v (.hardware c) = .completed) : False := by
    rw [update_other hx] at h; exact hnew h
  cases ht with
  | generated x hpc hc hl hx hb =>
    have hn : x.hw? = none := by rcases hx with rfl | rfl <;> rfl
    exact (hother hn hdone).elim
  | gotOther x hpc hx => exact (hother hx hdone).elim
  | complete x hpc hx => exact (hother hx hdone).elim
  | region x s' hpc hne ht =>
    obtain ⟨rfl, hd⟩ := tail_completes ht hnew hdone
    exact .dropTest b (WorkerPc.locks_cmd hpc) hd
  | synced call r s' hpc hp ht =>
    by_cases hpop : (syncFinish call.target s).cmdState (.hardware c) = .completed
    · rw [syncFinish_cmdState] at hpop
      exact .workerSync b call r hpc hp (completeOn_new hnew hpop)
    · obtain ⟨hx, hd⟩ := tail_completes ht hpop hdone
      refine .dropTest b (by rw [hpc, ← hx]; rfl) ?_
      have hdrop : (syncFinish call.target s).dropIdx = s.dropIdx := by
        cases call.target
        · rw [syncFinish, clearLogs_eq]
        · rw [syncFinish, popLogs_eq]
      rwa [hdrop] at hd
  | _ => exact absurd hdone hnew

theorem app_completes {act : Act} {t : Nat} {c : HwCommand} (ht : AppStep s t s')
    (hnew : s.cmdState (.hardware c) ≠ .completed) (hdone : s'.cmdState (.hardware c) = .completed) :
    Completes s c act := by
  cases ht with
  | synced call d hpc hp => exact .appSync act t call d hpc hp (completeOn_new hnew hdone)
  | _ => exact absurd hdone hnew

theorem step_completes {act : Act} {c : HwCommand} (ht : Step s act s')
    (hnew : s.cmdState (.hardware c) ≠ .completed) (hdone : s'.cmdState (.hardware c) = .completed) :
    Completes s c act := by
  cases ht with
  | worker b s' ht => exact worker_completes ht hnew hdone
  | app t s' ht => exact app_completes ht hnew hdone
  | wait t d s' ht => exact app_completes ht hnew hdone
  | submit d hidx hd =>
    have h : (if c = d then XCommandState.pending else s.cmdState (.hardware c)) = .completed := by
      rw [← update_hw]; exact hdone
    split at h
    · cases h
    · exact absurd h hnew
  | enqueueOther act x hx =>
    have hn : x.hw? = none := by rcases hx with ⟨-, rfl⟩ | ⟨-, rfl⟩ <;> rfl
    have h : Function.update s.cmdState x .pending (.hardware c) = .completed := hdone
    rw [update_other hn] at h; exact absurd h hnew
  | waitAllFresh hq hl =>
    have hn : (XCommand.xQueueWaitAll s.nextId).hw? = none := rfl
    have h : Function.update s.cmdState (.xQueueWaitAll s.nextId) .pending (.hardware c) =
      .completed := hdone
    rw [update_other hn] at h; exact absurd h hnew
  | dropAll =>
    have h : (if XCommand.hardware c ∈ s.cmds then XCommandState.completed
      else s.cmdState (.hardware c)) = .completed := hdone
    split at h
    · rename_i hm; exact .dropAll hm
    · exact absurd h hnew
  | resumeAndDrop d => exact .resumeAndDrop d (completeOn_new hnew hdone)
  | _ => exact absurd hdone hnew

/-- A call that has returned covers what its wait completes. -/
theorem covers_popped {call : SyncCall} {c : HwCommand} (hlog : LogInv s)
    (hinc : Increasing s.enqueued) (hok : CallOk s call .returned)
    (hquiet : call.target = .hwq → call.launchedBefore = s.launched)
    (hpop : c ∈ s.popped call.target) : call.Covers c := by
  have hc : c ∈ s.launched := hlog.mem_launched (popped_subset _ _ hpop)
  unfold SyncCall.Covers
  cases htgt : call.target with
  | hwq => rw [← hquiet htgt] at hc; exact hc
  | cmd d =>
    obtain ⟨-, ⟨after, hafter⟩, hd⟩ := hok
    rw [htgt] at hpop
    have hlaunched : Increasing s.launched := hinc.sublist hlog.launched_sublist
    rw [← hafter] at hlaunched hc
    exact before_of_le hlaunched (hd d htgt) hc (popped_le hpop)

/-- **Completion soundness.** A launched HwCommand becomes Completed in a step
only if a `Synchronize` call that covers it has returned, with the pause
count as it was before the call, or `ResumeAndDrop` clears it from the log;
an unlaunched one only by `DropAll` or by the drop test of the worker. -/
theorem completion_sound {cfg : Config} {act : Act} {c : HwCommand}
    (hr : ((lts cfg).restrict InOrder).Reachable s) (hs : (lts cfg).step s act s')
    (hnew : s.cmdState (.hardware c) ≠ .completed)
    (hdone : s'.cmdState (.hardware c) = .completed) :
    (c ∈ s.launched →
      (∃ call ∈ s.returned, call.pauseCnt = s.pauseCount ∧ call.Covers c) ∨
      (∃ d, act = .resumeAndDrop d) ∧ c ∈ s.cmdLog ∧ c ∉ s'.cmdLog) ∧
    (c ∉ s.launched →
      act = .dropAll ∧ .hardware c ∈ s.cmds ∨
      (∃ b, act = .worker b) ∧ s.pc.cmd = some (.hardware c) ∧ c.idx ≤ s.dropIdx) := by
  have hreach := hr.of_restrict
  have hlog := logInv_reachable hreach
  have hinc := increasing_reachable hr
  have hsync := syncInv_reachable hreach (not_aborted hreach hs)
  have hnd := hlog.all_nodup
  rw [List.append_assoc, List.nodup_append] at hnd
  have hstep := step_of_reachable hreach hs
  cases step_completes hstep hnew hdone with
  | workerSync b call r hpc hcnt hpop =>
    have hok := hsync.worker call _ r hpc
    refine ⟨fun _ => .inl ⟨call, hok.1, hcnt, ?_⟩, fun hc => ?_⟩
    · exact covers_popped hlog hinc hok (fun _ => hsync.quiet call _ r hpc nofun) hpop
    · exact absurd (hlog.mem_launched (popped_subset _ _ hpop)) hc
  | appSync act t call d hpc hcnt hpop =>
    obtain ⟨htgt, hok⟩ := hsync.app t call _ d hpc
    rw [← htgt] at hpop
    refine ⟨fun _ => .inl ⟨call, hok.1, hcnt, ?_⟩, fun hc => ?_⟩
    · exact covers_popped hlog hinc hok (fun h => by rw [h] at htgt; cases htgt) hpop
    · exact absurd (hlog.mem_launched (popped_subset _ _ hpop)) hc
  | dropTest b hpc hd =>
    refine ⟨fun hc => ?_, fun _ => .inr ⟨⟨b, rfl⟩, hpc, hd⟩⟩
    have hh : c ∈ s.pc.hand := by rw [WorkerPc.hand_eq hpc]; exact List.mem_cons_self
    exact absurd rfl (hnd.2.2 c hc c (List.mem_append_left _ hh))
  | dropAll hm =>
    refine ⟨fun hc => ?_, fun _ => .inl ⟨rfl, hm⟩⟩
    exact absurd rfl (hnd.2.2 c hc c (List.mem_append_right _ (mem_hwCmds.2 hm)))
  | resumeAndDrop d hm =>
    refine ⟨fun _ => .inr ⟨⟨d, rfl⟩, hm, ?_⟩, fun hc => absurd (hlog.mem_launched hm) hc⟩
    cases hstep with
    | resumeAndDrop => exact List.not_mem_nil
    | enqueueOther act x hx => rcases hx with ⟨h, -⟩ | ⟨h, -⟩ <;> cases h

/-- Command 1 is launched and synchronized by an application thread. -/
def syncTrace : List Act :=
  List.replicate 4 (Act.worker true) ++ [Act.submit (halCmd 1)] ++ List.replicate 3 (Act.worker true) ++
  [Act.wait 0 (halCmd 1)] ++ List.replicate 5 (Act.app 0)

theorem completion_sound_sync : ∃ s, (∃ s', (lts cfgOne).step s (.app 0) s' ∧
      s'.cmdState (.hardware (halCmd 1)) = .completed) ∧
    ∃ call ∈ s.returned, call.pauseCnt = s.pauseCount ∧ call.Covers (halCmd 1) := by
  have htrace : ((LTS.exec (LTS.guarded InOrder (step cfgOne)) init syncTrace).bind fun s =>
      (step cfgOne s (.app 0)).map fun s' =>
        (s.cmdState (.hardware (halCmd 1)), s.launched, s'.cmdState (.hardware (halCmd 1)))) =
      some (.inFlight, [halCmd 1], .completed) := by decide
  obtain ⟨s, hs, he⟩ := Option.bind_eq_some_iff.1 htrace
  obtain ⟨s', hs', he'⟩ := Option.map_eq_some_iff.1 he
  simp only [Prod.mk.injEq] at he'
  refine ⟨s, ⟨s', hs', he'.2.2⟩, ?_⟩
  have h := completion_sound (LTS.reachable_restrict_of_exec rfl hs) hs'
    (by rw [he'.1]; decide) he'.2.2
  rcases h.1 (by rw [he'.2.1]; decide) with h | ⟨⟨d, hd⟩, -⟩
  · exact h
  · cases hd

end Xsched.Preempt
