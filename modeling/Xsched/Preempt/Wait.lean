import Xsched.Preempt.Submit
import Xsched.Preempt.WaitAll

/-!
# AsyncXQueue::Wait returns after completion

A thread in `Wait(c)` sleeps until `c` is Completed, or synchronizes `c` under
the lock of the launch worker. Its call ends with `c` Completed in either case
(`Waits.idle`): popping the logs up to `c` reaches `c` itself when the log is
in submission order, and a terminated worker leaves nothing in flight
(`TermInv`).
-/
namespace Xsched.Preempt

variable {s s' : State}

/-- Nothing is in flight when the worker has exited. -/
def ExitInv (s : State) : Prop := s.pc = .exited → s.cmdLog = []

theorem exitInv_step {act : Act} (hc : CompletingInv s) (h : ExitInv s) (ht : Step s act s') :
    ExitInv s' := by
  have hkeep (hpc : s'.pc = s.pc) (hla : s'.launched = s.launched) : ExitInv s' :=
    fun he => step_log_nil ht (h (hpc.symm.trans he)) hla
  have htail {n : Nat} {x : XCommand} {s₀ s₁ : State} (ht : Tail n x s₀ s₁)
      (hne : s₀.pc ≠ .exited) : s₁.pc ≠ .exited := by
    cases ht with
    | abort => exact hne
    | _ => exact nofun
  cases ht with
  | worker b s' ht =>
    cases ht with
    | region x s' hpc hne ht =>
      exact fun he => absurd he (htail ht fun h => by rw [h] at hpc; cases hpc)
    | synced call r s' hpc hcnt ht =>
      refine fun he => absurd he (htail ht fun h => ?_)
      rw [syncFinish_pc, hpc] at h; cases h
    | complete x hpc hx =>
      intro he
      cases x with
      | xQueueDestroy i => exact hc _ hpc rfl
      | _ => cases he
    | _ => exact fun he => nomatch he
  | app t s' ht => exact hkeep (by cases ht <;> rfl) (launched_app ht)
  | wait t c s' ht => exact hkeep (by cases ht <;> rfl) (launched_app ht)
  | _ => exact hkeep rfl rfl

section
variable {M : LTS State Act} [Driven M]

theorem exitInv_reachable (hr : M.Reachable s) : ExitInv s := by
  refine LTS.reachable_induction (I := ExitInv) ?_ ?_ hr
  · intro s h
    rw [Driven.init s h]; exact nofun
  · exact fun s act s' hr h hs =>
      exitInv_step (completingInv_reachable hr) h (step_of_reachable hr hs)

/-- A terminated worker leaves nothing in flight. -/
theorem terminated_log (hr : M.Reachable s) (hs : s.state = .terminated) : s.cmdLog = [] := by
  rcases (pauseInv_reachable hr).term hs with ⟨i, hpc⟩ | hpc
  · exact completingInv_reachable hr _ hpc rfl
  · exact exitInv_reachable hr hpc

end

/-! ## A thread in Wait -/

/-- The HwCommand a thread waits for. -/
def AppPc.cmd : AppPc → Option HwCommand
  | .idle => none
  | .waitCompleted c => some c
  | .checkCompleted c => some c
  | .waitInFlight c => some c
  | .locking c => some c
  | .syncWait c => some c
  | .syncing _ _ c => some c

/-- `c` is Completed, or thread `t` is still in `Wait(c)`, with `c` launched
from the moment it wants the lock. -/
def Waits (s : State) (t : Nat) (c : HwCommand) : Prop :=
  s.cmdState (.hardware c) = .completed ∨
    (s.app t).cmd = some c ∧ ((s.app t).syncCmd = some c → c ∈ s.launched)

theorem Waits.idle {t : Nat} {c : HwCommand} (h : Waits s t c) (hpc : s.app t = .idle) :
    s.cmdState (.hardware c) = .completed := by
  rcases h with h | ⟨h, -⟩
  · exact h
  · rw [hpc] at h; cases h

theorem waits_set {t : Nat} {p : AppPc} {c : HwCommand} (hp : p.cmd = some c)
    (hl : p.syncCmd = some c → c ∈ s.launched) : Waits (setApp t p s) t c := by
  right
  rw [show (setApp t p s).app t = p from Function.update_self _ _ _]
  exact ⟨hp, hl⟩

/-- A launched command is Completed or in the log, so a terminated worker has
completed it. -/
theorem waits_appSync {t : Nat} {c : HwCommand} (hlog : LogInv s)
    (hterm : s.state = .terminated → s.cmdLog = []) (hc : c ∈ s.launched) :
    Waits (appSync t c s) t c := by
  unfold appSync
  split
  · rename_i h
    left
    show s.cmdState (.hardware c) = .completed
    unfold syncCmdWithLock at h
    split at h
    · assumption
    · cases hst : s.state with
      | terminated =>
        have hdone := hlog.done c hc
        rw [hterm hst] at hdone
        exact hdone.resolve_left List.not_mem_nil
      | _ => rw [hst] at h; cases h
  · exact waits_set rfl fun _ => hc
  · exact waits_set rfl fun _ => hc

/-- Popping the logs up to a launched command completes it, for a log in
submission order. -/
theorem popLogs_completes {c : HwCommand} (hlog : LogInv s) (hinc : Increasing s.launched)
    (hc : c ∈ s.launched) : (popLogs c s).cmdState (.hardware c) = .completed := by
  rw [popLogs_eq]
  show completeOn _ s.cmdState (.hardware c) = .completed
  rw [completeOn_hw]
  split
  · rfl
  · rename_i hpop
    refine (hlog.done c hc).resolve_left fun hm => hpop ?_
    have hlinc : Increasing s.cmdLog := hinc.sublist hlog.suffix.sublist
    obtain ⟨l₁, l₂, hl⟩ := List.append_of_mem hm
    rw [hl] at hlinc ⊢
    have hle : ∀ d ∈ l₁, decide (d.idx ≤ c.idx) = true := by
      intro d hd
      have hlt := (List.pairwise_append.1 hlinc).2.2 d hd c List.mem_cons_self
      exact decide_eq_true (Int.le_of_lt hlt)
    rw [List.takeWhile_append_of_pos hle]
    refine List.mem_append_right _ ?_
    rw [List.takeWhile_cons, if_pos (decide_eq_true (Int.le_refl c.idx))]
    exact List.mem_cons_self

/-- The thread's own step. -/
theorem waits_app {t : Nat} {c : HwCommand} (hlog : LogInv s) (hinc : Increasing s.launched)
    (hterm : s.state = .terminated → s.cmdLog = []) (hstep : stepApp t s = some s')
    (hne : s.cmdState (.hardware c) ≠ .completed) (h : Waits s t c) : Waits s' t c := by
  obtain ⟨hcmd, hl⟩ := h.resolve_left hne
  unfold stepApp at hstep
  cases hpc : s.app t with
  | idle => rw [hpc] at hcmd; cases hcmd
  | waitCompleted d =>
    rw [hpc] at hcmd; cases hcmd
    simp only [hpc, if_neg hne] at hstep
    cases hstep
  | checkCompleted d =>
    rw [hpc] at hcmd; cases hcmd
    simp only [hpc, if_neg hne, Option.some.injEq] at hstep
    subst hstep
    exact waits_set rfl nofun
  | waitInFlight d =>
    rw [hpc] at hcmd; cases hcmd
    simp only [hpc, Option.ite_none_right_eq_some, Option.some.injEq] at hstep
    obtain ⟨hv, rfl⟩ := hstep
    exact waits_set rfl fun _ => hlog.launched_of_val hv hne
  | locking d =>
    rw [hpc] at hcmd hl; cases hcmd
    simp only [hpc, Option.some.injEq] at hstep
    subst hstep
    obtain ⟨a, ha⟩ := syncEntry_eq (s := s) (.cmd c)
    rw [ha]
    refine waits_appSync ?_ hterm (hl rfl)
    exact hlog.congr hlog.pcOk rfl rfl rfl rfl rfl fun _ => rfl
  | syncWait d =>
    rw [hpc] at hcmd hl; cases hcmd
    simp only [hpc, Option.some.injEq] at hstep
    subst hstep
    exact waits_appSync hlog hterm (hl rfl)
  | syncing call ph d =>
    rw [hpc] at hcmd hl; cases hcmd
    cases ph with
    | unlocked =>
      simp only [hpc, Option.some.injEq] at hstep
      subst hstep
      exact waits_set rfl fun _ => hl rfl
    | called =>
      simp only [hpc, Option.some.injEq] at hstep
      subst hstep
      exact waits_set rfl fun _ => hl rfl
    | returned =>
      simp only [hpc] at hstep
      split at hstep
      · simp only [Option.some.injEq] at hstep
        subst hstep
        exact .inl (popLogs_completes hlog hinc (hl rfl))
      · simp only [Option.some.injEq] at hstep
        subst hstep
        exact waits_appSync hlog hterm (hl rfl)

/-- Nobody but the thread itself moves it. -/
theorem step_app {act : Act} {t : Nat} (ht : Step s act s') (ha : act ≠ .app t)
    (hw : ∀ c, act ≠ .wait t c) : s'.app t = s.app t := by
  have hother {u : Nat} {s' : State} (hu : t ≠ u) (ht : AppStep s u s') : s'.app t = s.app t := by
    cases ht <;> exact Function.update_of_ne hu _ _
  cases ht with
  | worker b s' ht => rw [worker_app ht]
  | app u s' ht => exact hother (fun h => ha (by rw [h])) ht
  | wait u c s' ht => exact hother (fun h => hw c (by rw [h])) ht
  | _ => rfl

/-- **Wait returns after completion.** A thread in `Wait(c)` stays there until
`c` is Completed. -/
theorem waits_step {cfg : Config} {act : Act} {t : Nat} {c : HwCommand}
    (hr : ((lts cfg).restrict InOrder).Reachable s) (hs : (lts cfg).step s act s')
    (h : Waits s t c) : Waits s' t c := by
  have hreach := hr.of_restrict
  have hlog := logInv_reachable hreach
  have ht := step_of_reachable hreach hs
  by_cases hdone : s.cmdState (.hardware c) = .completed
  · exact .inl (completed_stays hlog ht hdone)
  · by_cases ha : act = .app t
    · have hs' : stepApp t s = some s' := by
        have hab := not_aborted hreach hs
        have hstep : step cfg s act = some s' := hs
        rw [ha] at hstep
        simpa only [step, hab, Bool.false_eq_true, if_false] using hstep
      have hinc := (increasing_reachable hr).sublist hlog.launched_sublist
      exact waits_app hlog hinc (terminated_log hreach) hs' hdone h
    · obtain ⟨hcmd, hl⟩ := h.resolve_left hdone
      have hw : ∀ d, act ≠ .wait t d := by
        intro d hd
        have hab := not_aborted hreach hs
        have hstep : step cfg s act = some s' := hs
        rw [hd] at hstep
        simp only [step, hab, Bool.false_eq_true, if_false, waitStart,
          Option.ite_none_right_eq_some] at hstep
        rw [hstep.1] at hcmd; cases hcmd
      right
      rw [step_app ht ha hw]
      exact ⟨hcmd, fun hsync => (step_launched ht).subset (hl hsync)⟩

/-- The start of the call. -/
theorem waits_start {cfg : Config} {t : Nat} {c : HwCommand}
    (hs : (lts cfg).step s (.wait t c) s') : Waits s' t c := by
  have hstep : step cfg s (.wait t c) = some s' := hs
  unfold step at hstep
  split at hstep
  · cases hstep
  · simp only [waitStart, Option.ite_none_right_eq_some, Option.some.injEq] at hstep
    obtain ⟨-, rfl⟩ := hstep
    cases s.synchronizable c
    · exact waits_set rfl nofun
    · exact waits_set rfl nofun

end Xsched.Preempt
