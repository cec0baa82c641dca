import Xsched.Preempt.AsyncXQueue

/-!
# Do `suspended_` and the worker agree?

The compare-exchange on `suspended_` and the worker's Pause or Resume are
separate steps, so a Pause can arrive after the Resume of a later call
(`suspend_resume_disagree`), and the worker stays paused with `suspended_`
false. `LastWins` is the condition on the moment a call changes the worker:
`suspended_` still has the value its compare-exchange wrote, or another call
that won its compare-exchange has yet to change the worker. Runs that meet it
agree whenever no call stands between the two steps; a single step that does
not meet it ends in disagreement (`suspend_resume_agree`).
-/
namespace Xsched.Preempt

section
variable {s s' : State}

/-- Only Pause, Resume and ResumeAndDrop change whether the worker is paused. -/
theorem paused_iff {act : Act} (hp : PauseInv s) (ht : Step s act s') (h₁ : act ≠ .pause)
    (h₂ : act ≠ .resume) (h₃ : ∀ d, act ≠ .resumeAndDrop d) :
    s'.state = .paused ↔ s.state = .paused := by
  have htail {n : Nat} {x : XCommand} {s₀ s₁ : State} (hsame : SameCount s₀ → s₀.state ≠ .paused)
      (ht : Tail n x s₀ s₁) : s₁.state = .paused ↔ s₀.state = .paused := by
    cases ht with
    | finish a st hx hst hq hs =>
      show st = .paused ↔ _
      cases x with
      | xQueueDestroy i =>
        have hst' : st = .terminated := hst
        rw [hst']
        exact ⟨nofun, fun hpaused => absurd hpaused (hsame (hs rfl hpaused))⟩
      | _ => rw [hst]; rfl
    | _ => exact Iff.rfl
  cases ht with
  | worker b s' ht =>
    cases ht with
    | region x s' hpc hne ht =>
      exact htail (fun hsame => by rw [hp.running_of_sameCount hsame]; decide) ht
    | synced call r s' hpc hcnt ht =>
      have hrun := (hp.call call _ r hpc).2 hcnt
      have hfin := syncFinish_state call.target s
      rw [htail (fun _ => by rw [hfin, hrun]; decide) ht, hfin]
    | _ => exact Iff.rfl
  | app t s' ht => cases ht <;> exact Iff.rfl
  | wait t c s' ht => cases ht <;> exact Iff.rfl
  | pause => exact absurd rfl h₁
  | resume => exact absurd rfl h₂
  | resumeAndDrop d => exact absurd rfl (h₃ d)
  | _ => exact Iff.rfl

end

namespace AsyncXQueue
variable {cfg : Config} {x x' : AsyncXQueue}

/-- A call between its compare-exchange and its change of the worker: the
value it wrote to `suspended_`. -/
def winner : CtrlPc → Option Bool
  | .suspendPause _ => some true
  | .resumeCalls _ _ => some false
  | .resumeWorker _ => some false
  | .resumeDropAll _ => some false
  | .resumeDropIdx _ => some false
  | .resumeAndDrop _ _ => some false
  | _ => none

/-- A call about to change the worker. -/
def changes : CtrlPc → Option Bool
  | .suspendPause _ => some true
  | .resumeWorker _ => some false
  | .resumeAndDrop _ _ => some false
  | _ => none

/-- The call on thread `t` changes the worker now, and nothing overtook it or
something is still to come. -/
def LastWins (x : AsyncXQueue) (act : XAct) : Prop :=
  ∀ t v, act = .controller t → changes (x.ctrls t) = some v →
    x.suspended = v ∨ ∃ t', t' ≠ t ∧ winner (x.ctrls t') ≠ none

def Settled (x : AsyncXQueue) : Prop := ∀ t, winner (x.ctrls t) = none

def Agrees (x : AsyncXQueue) : Prop := x.suspended = true ↔ x.machine.state = .paused

theorem setCtrl_ctrls (t t' : Nat) (p : CtrlPc) (x : AsyncXQueue) :
    (setCtrl t p x).ctrls t' = if t' = t then p else x.ctrls t' :=
  Function.update_apply _ _ _ _

/-- A thread that had no winning call and gets none leaves the question where
it was. -/
theorem settled_setCtrl {t : Nat} {p : CtrlPc} (hw : winner (x.ctrls t) = none)
    (hc : x'.ctrls = x.ctrls) (hs : Settled (setCtrl t p x')) : Settled x := by
  intro t'
  by_cases ht : t' = t
  · rw [ht]; exact hw
  · have h := hs t'
    rw [setCtrl_ctrls, if_neg ht, hc] at h
    exact h

theorem not_settled {t : Nat} {p : CtrlPc} (hw : winner p ≠ none) : ¬ Settled (setCtrl t p x) := by
  intro hs
  have h := hs t
  rw [setCtrl_ctrls, if_pos rfl] at h
  exact hw h

/-- A call changes the worker: afterwards the worker is paused as the call
says. -/
theorem changes_step {t : Nat} {v : Bool} (hs : Step cfg x (.controller t) x')
    (hc : changes (x.ctrls t) = some v) :
    x'.suspended = x.suspended ∧ (x'.machine.state = .paused ↔ v = true) ∧
      (∀ t', t' ≠ t → x'.ctrls t' = x.ctrls t') ∧ winner (x'.ctrls t) = none := by
  have hother (p : CtrlPc) (y : AsyncXQueue) (hy : y.ctrls = x.ctrls) (t' : Nat) (ht : t' ≠ t) :
      (setCtrl t p y).ctrls t' = x.ctrls t' := by
    rw [setCtrl_ctrls, if_neg ht, hy]
  have hself (p : CtrlPc) (y : AsyncXQueue) : (setCtrl t p y).ctrls t = p := by
    rw [setCtrl_ctrls, if_pos rfl]
  have hno {p : CtrlPc} (hpc : x.ctrls t = p) (hp : changes p = none) : False := by
    rw [hpc, hp] at hc; cases hc
  cases hs with
  | pause t flags m hpc hm =>
    rw [hpc] at hc
    have hv : true = v := Option.some.inj hc
    refine ⟨rfl, ?_, hother _ _ rfl, by rw [hself]; rfl⟩
    rw [← hv, pause_eq hm]
    exact ⟨fun _ => rfl, fun _ => rfl⟩
  | resume t call m hpc hm =>
    rw [hpc] at hc
    have hv : false = v := Option.some.inj hc
    refine ⟨rfl, ?_, hother _ _ rfl, by rw [resumeReturn, hself]; rfl⟩
    rw [← hv, resume_eq hm]
    exact ⟨nofun, nofun⟩
  | resumeAndDrop t call d m hpc hm =>
    rw [hpc] at hc
    have hv : false = v := Option.some.inj hc
    refine ⟨rfl, ?_, hother _ _ rfl, by rw [resumeReturn, hself]; rfl⟩
    rw [← hv, resumeAndDrop_eq hm]
    exact ⟨nofun, nofun⟩
  | skip act hact => exact absurd rfl (hact t)
  | suspendFail t flags hpc hs => exact (hno hpc rfl).elim
  | suspendWin t flags hpc hs => exact (hno hpc rfl).elim
  | suspendReturn t hpc => exact (hno hpc rfl).elim
  | suspendCall t f todo hpc => exact (hno hpc rfl).elim
  | resumeCall t call f todo hpc => exact (hno hpc rfl).elim
  | resumeCalled t call hpc => exact (hno hpc rfl).elim
  | dropAll t call m hpc hm => exact (hno hpc rfl).elim
  | dropIdx t call hpc => exact (hno hpc rfl).elim

/-- A step that changes the worker for no call keeps the agreement. -/
theorem agrees_step {act : XAct} (hr : (lts cfg).Reachable x) (hs : (lts cfg).step x act x')
    (hok : LastWins x act) (h : Settled x → Agrees x) : Settled x' → Agrees x' := by
  intro hset
  have hm := machine_reachable hr
  have hp := pauseInv_reachable hm
  have hchange {t : Nat} {v : Bool} (hs : Step cfg x (.controller t) x')
      (hact : act = .controller t) (hc : changes (x.ctrls t) = some v) : Agrees x' := by
    obtain ⟨hsus, hpaused, hframe, -⟩ := changes_step hs hc
    rcases hok t v hact hc with hv | ⟨t', hne, hw⟩
    · rw [Agrees, hsus, hpaused, hv]
    · exact absurd (hset t') (by rw [hframe t' hne]; exact hw)
  -- the machine moves without pausing or resuming
  have hkeep {a : Act} {m : State} (hm' : (Preempt.lts cfg).step x.machine a m)
      (h₁ : a ≠ .pause) (h₂ : a ≠ .resume) (h₃ : ∀ d, a ≠ .resumeAndDrop d) :
      m.state = .paused ↔ x.machine.state = .paused :=
    paused_iff hp (step_of_reachable hm hm') h₁ h₂ h₃
  have hst := step_of_lts hs
  cases step_of_lts hs with
  | machine a m hd hm' =>
    have hiff := hkeep hm' (by rintro rfl; cases hd) (by rintro rfl; cases hd)
      (fun d => by rintro rfl; cases hd)
    exact (h hset).trans hiff.symm
  | allocate t props kind hpc => exact h hset
  | hook t c hpc => exact h hset
  | enqueue t c m hpc hm' =>
    have hiff := hkeep hm' nofun nofun (fun d => nofun)
    exact (h hset).trans hiff.symm
  | submitReturn t c hpc => exact h hset
  | skip act hact => exact h hset
  | suspendStart t flags hpc =>
    exact h (settled_setCtrl (by rw [hpc]; rfl) rfl hset)
  | suspendFail t flags hpc hsus =>
    exact h (settled_setCtrl (by rw [hpc]; rfl) rfl hset)
  | suspendWin t flags hpc hsus => exact absurd hset (not_settled (by nofun))
  | pause t flags m hpc hm' => exact hchange hst rfl (by rw [hpc]; rfl)
  | suspendReturn t hpc => exact h (settled_setCtrl (by rw [hpc]; rfl) rfl hset)
  | suspendCall t f todo hpc => exact h (settled_setCtrl (by rw [hpc]; rfl) rfl hset)
  | resumeWin t flags hpc hsus => exact absurd hset (not_settled (by nofun))
  | resumeCall t call f todo hpc => exact absurd hset (not_settled (by nofun))
  | resumeCalled t call hpc =>
    refine absurd hset (not_settled ?_)
    unfold resumeNext
    split <;> nofun
  | resume t call m hpc hm' => exact hchange hst rfl (by rw [hpc]; rfl)
  | dropAll t call m hpc hm' => exact absurd hset (not_settled (by nofun))
  | dropIdx t call hpc => exact absurd hset (not_settled (by nofun))
  | resumeAndDrop t call d m hpc hm' => exact hchange hst rfl (by rw [hpc]; rfl)
  | terminate => exact h hset

theorem agrees_reachable (hr : ((lts cfg).restrict LastWins).Reachable x) :
    Settled x → Agrees x := by
  refine LTS.reachable_induction (I := fun x => Settled x → Agrees x) ?_ ?_ hr
  · rintro x rfl _; exact ⟨nofun, nofun⟩
  · exact fun x act x' hr h hs => agrees_step hr.of_restrict hs.1 hs.2 h

/-- An overtaken call that changes the worker last leaves the two in
disagreement. -/
theorem overtaken_disagrees {act : XAct} (hs : (lts cfg).step x act x') (hok : ¬ LastWins x act) :
    Settled x' ∧ ¬ Agrees x' := by
  unfold LastWins at hok
  push Not at hok
  obtain ⟨t, v, rfl, hc, hv, hothers⟩ := hok
  obtain ⟨hsus, hpaused, hframe, hw⟩ := changes_step (step_of_lts hs) hc
  refine ⟨fun t' => ?_, fun hag => hv ?_⟩
  · by_cases ht : t' = t
    · rw [ht]; exact hw
    · rw [hframe t' ht]; exact hothers t' ht
  · rw [Agrees, hsus, hpaused] at hag
    exact Bool.eq_iff_iff.2 hag

/-- **Suspend and Resume agree** with the worker in every state of a run in
which each change of the worker is the last winner's, or is followed by
another one, whenever no call is under way; a single change that is neither
leaves `suspended_` and the worker in disagreement. -/
theorem suspend_resume_agree (cfg : Config) :
    (∀ x, ((lts cfg).restrict LastWins).Reachable x → (∀ t, x.ctrls t = .idle) →
      (x.suspended = true ↔ x.machine.state = .paused)) ∧
    ∀ x act x', (lts cfg).Reachable x → (lts cfg).step x act x' → ¬ LastWins x act →
      (∀ t, winner (x'.ctrls t) = none) ∧ ¬ (x'.suspended = true ↔ x'.machine.state = .paused) := by
  refine ⟨fun x hr hidle => ?_, fun x act x' _ hs hok => overtaken_disagrees hs hok⟩
  exact agrees_reachable hr fun t => by rw [hidle t]; rfl

/-! ## Two runs -/

/-- The thread whose Suspend or Resume makes the step. -/
def XAct.ctrl : XAct → Option Nat
  | .suspend t _ => some t
  | .resume t _ => some t
  | .controller t => some t
  | _ => none

theorem ctrls_step {act : XAct} {t : Nat} (h : Step cfg x act x') (ht : act.ctrl ≠ some t) :
    x'.ctrls t = x.ctrls t := by
  have hset (t' : Nat) (p : CtrlPc) (y : AsyncXQueue) (hne : some t' ≠ some t)
      (hy : y.ctrls = x.ctrls) : (setCtrl t' p y).ctrls t = x.ctrls t := by
    rw [setCtrl_ctrls, if_neg (fun he => hne (by rw [he])), hy]
  cases h with
  | machine a m hd hm => rfl
  | allocate t' props kind hpc => rfl
  | hook t' c hpc => rfl
  | enqueue t' c m hpc hm => rfl
  | submitReturn t' c hpc => rfl
  | skip act hact => rfl
  | terminate => rfl
  | _ => exact hset _ _ _ ht rfl

/-- A thread that makes no step stays where it is. -/
theorem ctrls_run {ls : List XAct} {t : Nat} (h : (lts cfg).Run x ls x')
    (ht : ∀ act ∈ ls, act.ctrl ≠ some t) : x'.ctrls t = x.ctrls t := by
  induction h with
  | nil x => rfl
  | cons hs _ ih =>
    rw [ih fun act hact => ht act (List.mem_cons_of_mem _ hact)]
    exact ctrls_step (step_of_lts hs) (ht _ List.mem_cons_self)

/-- The call that changes the worker now was not overtaken. -/
def NotOvertaken (x : AsyncXQueue) : XAct → Prop
  | .controller t => changes (x.ctrls t) = none ∨ changes (x.ctrls t) = some x.suspended
  | _ => True

instance (x : AsyncXQueue) : (act : XAct) → Decidable (NotOvertaken x act)
  | .controller t => inferInstanceAs
      (Decidable (changes (x.ctrls t) = none ∨ changes (x.ctrls t) = some x.suspended))
  | .machine _ | .submit _ _ _ | .submitter _ | .suspend _ _ | .resume _ _ | .terminate =>
    isTrue trivial

theorem NotOvertaken.lastWins {act : XAct} (h : NotOvertaken x act) : LastWins x act := by
  rintro t v rfl hc
  rcases h with h | h
  · rw [h] at hc; cases hc
  · rw [h] at hc
    exact .inl (Option.some.inj hc)

/-- One Suspend call. -/
def suspendTrace : List XAct := .suspend 0 0 :: List.replicate 4 (.controller 0)

theorem suspend_resume_agree_suspend : ∃ x, (lts cfgOne).Reachable x ∧ x.suspended = true ∧
    x.machine.state = .paused := by
  have htrace : ((LTS.exec (LTS.guarded NotOvertaken (step cfgOne)) init suspendTrace).map fun x =>
      (x.suspended, x.ctrls 0)) = some (true, .idle) := by decide
  obtain ⟨x, hx, he⟩ := Option.map_eq_some_iff.1 htrace
  simp only [Prod.mk.injEq] at he
  have hrun : ((lts cfgOne).restrict NotOvertaken).Run init suspendTrace x :=
    LTS.run_restrict_of_exec hx
  have hr : ((lts cfgOne).restrict NotOvertaken).Reachable x := ⟨init, _, rfl, hrun⟩
  have hidle : ∀ t, x.ctrls t = .idle := by
    intro t
    by_cases ht : t = 0
    · rw [ht]; exact he.2
    · have hls : ∀ act ∈ suspendTrace, act.ctrl ≠ some t := by
        intro act hact
        simp only [suspendTrace, List.replicate, List.mem_cons, List.not_mem_nil, or_false] at hact
        rcases hact with rfl | rfl | rfl | rfl | rfl <;> exact fun h => ht (Option.some.inj h).symm
      exact ctrls_run hrun.of_restrict hls
  refine ⟨x, hr.of_restrict, he.1, ?_⟩
  exact ((suspend_resume_agree cfgOne).1 x (hr.restrict_mono fun x act => NotOvertaken.lastWins)
    hidle).1 he.1

/-- A Suspend on thread 0 wins its compare-exchange; a Resume on thread 1 runs
from start to end; then the Suspend pauses the worker. -/
def overtakenTrace : List XAct :=
  [.suspend 0 0, .controller 0, .resume 1 0, .controller 1, .controller 1, .controller 1,
    .controller 0, .controller 0, .controller 0]

/-- **Counterexample**: after the trace no call is in progress, `suspended_` is
false and the worker is paused; every later Resume returns at once. -/
theorem suspend_resume_disagree :
    ¬ ∀ (cfg : Config) (x : AsyncXQueue), (lts cfg).Reachable x → (∀ t, x.ctrls t = .idle) →
      (x.suspended = true ↔ x.machine.state = .paused) := by
  intro h
  have htrace : ((LTS.exec (step cfgOne) init overtakenTrace).map fun x =>
      (x.suspended, x.machine.state, x.ctrls 0, x.ctrls 1)) =
      some (false, .paused, .idle, .idle) := by decide
  obtain ⟨x, hx, he⟩ := Option.map_eq_some_iff.1 htrace
  simp only [Prod.mk.injEq] at he
  have hrun : (lts cfgOne).Run init overtakenTrace x := LTS.run_of_exec hx
  have hidle : ∀ t, x.ctrls t = .idle := by
    intro t
    by_cases h0 : t = 0
    · rw [h0]; exact he.2.2.1
    by_cases h1 : t = 1
    · rw [h1]; exact he.2.2.2
    have hls : ∀ act ∈ overtakenTrace, act.ctrl ≠ some t := by
      intro act hact
      simp only [overtakenTrace, List.mem_cons, List.not_mem_nil, or_false] at hact
      rcases hact with rfl | rfl | rfl | rfl | rfl | rfl | rfl | rfl | rfl <;>
        intro hc <;> cases hc <;> contradiction
    exact ctrls_run hrun hls
  have hag := h cfgOne x ⟨init, _, rfl, hrun⟩ hidle
  rw [he.1, he.2.1] at hag
  exact absurd (hag.2 rfl) nofun

end AsyncXQueue
end Xsched.Preempt
