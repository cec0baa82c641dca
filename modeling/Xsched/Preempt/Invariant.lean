import Xsched.Preempt.Steps

/-!
# Where every HwCommand is, and in which state

`LogInv` holds in every reachable state, for every order of steps, drops
included:

* the launched commands, the one in the worker's hand and those in the
  buffer are, in this order, a subsequence of the enqueued ones (`conserve`);
* `cmd_log_` is a suffix of the launched sequence and `sync_cmd_log_` a
  subsequence of `cmd_log_`, although the two are popped by separate loops;
* a command is InFlight exactly while it is in `cmd_log_`, Pending in the
  buffer and in the worker's hand, Completed once it left `cmd_log_`.

`PauseInv` ties `state_`, `pause_count_` and the counts read before a
`Synchronize` call together.
-/
namespace Xsched.Preempt

structure LogInv (s : State) : Prop where
  pcOk : PcOk s.pc
  conserve : (s.launched ++ s.pc.hand ++ hwCmds s.cmds).Sublist s.enqueued
  nodup : s.enqueued.Nodup
  suffix : s.cmdLog <:+ s.launched
  syncLog : s.syncCmdLog.Sublist s.cmdLog
  done : ∀ c ∈ s.launched, c ∈ s.cmdLog ∨ s.cmdState (.hardware c) = .completed
  inFlight : ∀ c, s.cmdState (.hardware c) = .inFlight ↔ c ∈ s.cmdLog
  pending : ∀ c ∈ s.pc.hand ++ hwCmds s.cmds, s.cmdState (.hardware c) = .pending
  created : ∀ c, c ∉ s.enqueued → s.cmdState (.hardware c) = .created

theorem update_other {α : Type} {f : XCommand → α} {x : XCommand} {v : α} (hx : x.hw? = none)
    (c : HwCommand) : Function.update f x v (.hardware c) = f (.hardware c) := by
  rw [Function.update_of_ne]
  rintro rfl
  cases hx

theorem update_hw {α : Type} (f : XCommand → α) (c d : HwCommand) (v : α) :
    Function.update f (.hardware c) v (.hardware d) = if d = c then v else f (.hardware d) := by
  simp [Function.update_apply]

variable {s s' : State}

namespace LogInv

theorem all_nodup (h : LogInv s) : (s.launched ++ s.pc.hand ++ hwCmds s.cmds).Nodup :=
  h.conserve.nodup h.nodup

theorem launched_sublist (h : LogInv s) : s.launched.Sublist s.enqueued := by
  refine List.Sublist.trans ?_ h.conserve
  rw [List.append_assoc]
  exact List.sublist_append_left _ _

theorem cmdLog_sublist (h : LogInv s) : s.cmdLog.Sublist s.enqueued :=
  h.suffix.sublist.trans h.launched_sublist

theorem cmds_sublist (h : LogInv s) : (hwCmds s.cmds).Sublist s.enqueued :=
  (List.sublist_append_right _ _).trans h.conserve

theorem cmdLog_nodup (h : LogInv s) : s.cmdLog.Nodup := h.cmdLog_sublist.nodup h.nodup

theorem mem_launched (h : LogInv s) {c : HwCommand} (hc : c ∈ s.cmdLog) : c ∈ s.launched :=
  h.suffix.subset hc

/-- What is not launched yet is not in the log. -/
theorem not_mem_cmdLog (h : LogInv s) {c : HwCommand} (hc : c ∈ s.pc.hand ++ hwCmds s.cmds) :
    c ∉ s.cmdLog := by
  intro hl
  have := h.pending c hc
  rw [(h.inFlight c).2 hl] at this; cases this

theorem not_completed (h : LogInv s) {c : HwCommand} (hc : c ∈ s.syncCmdLog) :
    s.cmdState (.hardware c) ≠ .completed := by
  rw [(h.inFlight c).2 (h.syncLog.subset hc)]; decide

end LogInv

theorem init_created (c : HwCommand) : init.cmdState (.hardware c) = .created := by
  simp [init]

theorem logInv_init : LogInv init where
  pcOk := trivial
  conserve := List.Sublist.refl _
  nodup := List.nodup_nil
  suffix := List.suffix_refl _
  syncLog := List.Sublist.refl _
  done := by intro c hc; cases hc
  inFlight := by
    intro c
    rw [init_created]
    simp [init]
  pending := by intro c hc; simp [init, WorkerPc.hand, WorkerPc.cmd, hwCmds, XCommand.hw?] at hc
  created := fun c _ => init_created c

/-! ## Popping the logs -/

theorem sublist_dropWhile {α : Type} (p : α → Bool) {l₁ l₂ : List α} (h : l₁.Sublist l₂) :
    (l₁.dropWhile p).Sublist (l₂.dropWhile p) := by
  induction h with
  | slnil => exact List.Sublist.refl _
  | @cons l₁ l₂ a h ih =>
    simp only [List.dropWhile_cons]
    split
    · exact ih
    · exact ((List.dropWhile_suffix p).sublist.trans h).cons a
  | @cons_cons l₁ l₂ a h ih =>
    simp only [List.dropWhile_cons]
    split
    · exact ih
    · exact h.cons_cons a

/-- A popped log: a prefix `pre` leaves `cmd_log_` and is completed. -/
theorem logInv_pop (h : LogInv s) {pre rest sync : List HwCommand} (hl : s.cmdLog = pre ++ rest)
    (hsync : sync.Sublist rest) :
    LogInv { s with cmdState := completeOn pre s.cmdState, syncCmdLog := sync, cmdLog := rest } where
  pcOk := h.pcOk
  conserve := h.conserve
  nodup := h.nodup
  suffix := (hl ▸ List.suffix_append pre rest : rest <:+ s.cmdLog).trans h.suffix
  syncLog := hsync
  done := by
    intro c hc
    by_cases hp : c ∈ pre
    · right; simp [completeOn_hw, hp]
    · rcases h.done c hc with hm | hm
      · rw [hl, List.mem_append] at hm
        exact .inl (hm.resolve_left hp)
      · right; simp [completeOn_hw, hp, hm]
  inFlight := by
    intro c
    have hn := h.cmdLog_nodup
    rw [hl, List.nodup_append] at hn
    show completeOn pre s.cmdState (.hardware c) = .inFlight ↔ c ∈ rest
    rw [completeOn_hw]
    split
    · rename_i hp
      refine ⟨(fun e => by cases e), fun hr => ?_⟩
      exact absurd rfl (hn.2.2 c hp c hr)
    · rename_i hp
      rw [h.inFlight c, hl, List.mem_append]
      exact ⟨fun hm => hm.resolve_left hp, .inr⟩
  pending := by
    intro c hc
    have hn : c ∉ pre := fun hp => h.not_mem_cmdLog hc (by rw [hl]; exact List.mem_append_left _ hp)
    simp only [completeOn_hw, if_neg hn]
    exact h.pending c hc
  created := by
    intro c hc
    have hn : c ∉ pre := fun hp =>
      hc (h.cmdLog_sublist.subset (by rw [hl]; exact List.mem_append_left _ hp))
    simp only [completeOn_hw, if_neg hn]
    exact h.created c hc

theorem logInv_popLogs (h : LogInv s) (d : HwCommand) :
    LogInv { s with
      cmdState := completeOn (s.cmdLog.takeWhile fun c => decide (c.idx ≤ d.idx)) s.cmdState,
      syncCmdLog := s.syncCmdLog.dropWhile fun c => decide (c.idx ≤ d.idx),
      cmdLog := s.cmdLog.dropWhile fun c => decide (c.idx ≤ d.idx) } :=
  logInv_pop h List.takeWhile_append_dropWhile.symm (sublist_dropWhile _ h.syncLog)

theorem logInv_clearLogs (h : LogInv s) :
    LogInv { s with cmdState := completeOn s.cmdLog s.cmdState, syncCmdLog := [], cmdLog := [] } :=
  logInv_pop h (List.append_nil _).symm (List.Sublist.refl _)

theorem logInv_syncFinish (h : LogInv s) (t : SyncTarget) : LogInv (syncFinish t s) := by
  cases t with
  | hwq => rw [syncFinish, clearLogs_eq]; exact logInv_clearLogs h
  | cmd d => rw [syncFinish, popLogs_eq]; exact logInv_popLogs h d

/-! ## Every step keeps it -/

/-- Steps that move no HwCommand and change the state of none. -/
theorem LogInv.congr (h : LogInv s) (hpc : PcOk s'.pc) (hl : s'.launched = s.launched)
    (hmove : s'.pc.hand ++ hwCmds s'.cmds = s.pc.hand ++ hwCmds s.cmds)
    (he : s'.enqueued = s.enqueued) (hlog : s'.cmdLog = s.cmdLog)
    (hsync : s'.syncCmdLog = s.syncCmdLog)
    (hst : ∀ c, s'.cmdState (.hardware c) = s.cmdState (.hardware c)) : LogInv s' where
  pcOk := hpc
  conserve := by
    have hc := h.conserve
    rw [List.append_assoc] at hc
    rw [hl, he, List.append_assoc, hmove]; exact hc
  nodup := by rw [he]; exact h.nodup
  suffix := by rw [hlog, hl]; exact h.suffix
  syncLog := by rw [hsync, hlog]; exact h.syncLog
  done := by intro c hc; rw [hlog, hst]; rw [hl] at hc; exact h.done c hc
  inFlight := by intro c; rw [hlog, hst]; exact h.inFlight c
  pending := by intro c hc; rw [hst]; rw [hmove] at hc; exact h.pending c hc
  created := by intro c hc; rw [hst]; rw [he] at hc; exact h.created c hc

/-- The command in hand completes without a launch. -/
theorem logInv_drop (h : LogInv s) {c : HwCommand} (hh : s.pc.hand = [c]) (a : Bool) :
    LogInv { s with cmdState := Function.update s.cmdState (.hardware c) .completed,
                    pc := .dequeue, aborted := a } := by
  have hn := h.all_nodup
  rw [hh, List.append_assoc, List.nodup_append] at hn
  have hin : c ∈ s.pc.hand ++ hwCmds s.cmds := by rw [hh]; exact List.mem_cons_self
  have hcl : c ∉ s.cmdLog := h.not_mem_cmdLog hin
  have hce : c ∈ s.enqueued := by
    refine h.conserve.subset ?_
    rw [List.append_assoc]; exact List.mem_append_right _ hin
  refine ⟨trivial, ?_, h.nodup, h.suffix, h.syncLog, ?_, ?_, ?_, ?_⟩
  · refine List.Sublist.trans ?_ h.conserve
    refine List.Sublist.append ?_ (List.Sublist.refl _)
    exact (List.Sublist.refl _).append (List.nil_sublist _)
  · intro d hd
    show d ∈ s.cmdLog ∨ Function.update s.cmdState (.hardware c) .completed (.hardware d) = _
    rw [update_hw]
    split
    · exact .inr rfl
    · exact h.done d hd
  · intro d
    show Function.update s.cmdState (.hardware c) .completed (.hardware d) = _ ↔ d ∈ s.cmdLog
    rw [update_hw]
    split
    · rename_i hdc
      subst hdc
      exact ⟨(fun e => by cases e), fun e => absurd e hcl⟩
    · exact h.inFlight d
  · intro d hd
    have hdc : d ≠ c := by
      rintro rfl
      exact hn.2.1.notMem hd
    show Function.update s.cmdState (.hardware c) .completed (.hardware d) = _
    rw [update_hw, if_neg hdc]
    exact h.pending d (List.mem_append_right _ hd)
  · intro d hd
    show Function.update s.cmdState (.hardware c) .completed (.hardware d) = _
    rw [update_hw, if_neg (by rintro rfl; exact hd hce)]
    exact h.created d hd

/-- The command in hand is launched: it moves to the end of `cmd_log_`, and of
`sync_cmd_log_` if it is synchronizable. -/
theorem logInv_launch (h : LogInv s) {c : HwCommand} (hh : s.pc.hand = [c]) (a : Bool)
    (e : HwCommand → Bool) (last : Int) {l : List HwCommand} (hl : l.Sublist [c]) :
    LogInv { s with syncEnabled := e, launched := s.launched ++ [c],
                    cmdState := Function.update s.cmdState (.hardware c) .inFlight, aborted := a,
                    cmdLog := s.cmdLog ++ [c], pc := .dequeue,
                    syncCmdLog := s.syncCmdLog ++ l, lastSynchronizableIdx := last } := by
  have hn := h.all_nodup
  rw [hh, List.append_assoc, List.nodup_append] at hn
  have hin : c ∈ s.pc.hand ++ hwCmds s.cmds := by rw [hh]; exact List.mem_cons_self
  have hce : c ∈ s.enqueued := by
    refine h.conserve.subset ?_
    rw [List.append_assoc]; exact List.mem_append_right _ hin
  refine ⟨trivial, ?_, h.nodup, ?_, h.syncLog.append hl, ?_, ?_, ?_, ?_⟩
  · have hc := h.conserve
    rw [hh] at hc
    show (s.launched ++ [c] ++ [] ++ hwCmds s.cmds).Sublist s.enqueued
    rw [List.append_nil]; exact hc
  · obtain ⟨pre, hpre⟩ := h.suffix
    exact ⟨pre, by rw [← List.append_assoc, hpre]⟩
  · intro d hd
    show d ∈ s.cmdLog ++ [c] ∨ Function.update s.cmdState (.hardware c) .inFlight (.hardware d) = _
    rw [update_hw]
    rcases List.mem_append.1 hd with hd | hd
    · split
      · rename_i hdc; subst hdc; exact .inl (List.mem_append_right _ List.mem_cons_self)
      · exact (h.done d hd).imp_left (List.mem_append_left _)
    · exact .inl (List.mem_append_right _ hd)
  · intro d
    show Function.update s.cmdState (.hardware c) .inFlight (.hardware d) = _ ↔ d ∈ s.cmdLog ++ [c]
    rw [update_hw, List.mem_append, List.mem_singleton]
    split
    · rename_i hdc; exact ⟨fun _ => .inr hdc, fun _ => rfl⟩
    · rename_i hdc
      rw [h.inFlight d]
      exact ⟨.inl, fun hd => hd.resolve_right hdc⟩
  · intro d hd
    have hdc : d ≠ c := by
      rintro rfl
      exact hn.2.1.notMem hd
    show Function.update s.cmdState (.hardware c) .inFlight (.hardware d) = _
    rw [update_hw, if_neg hdc]
    exact h.pending d (List.mem_append_right _ hd)
  · intro d hd
    show Function.update s.cmdState (.hardware c) .inFlight (.hardware d) = _
    rw [update_hw, if_neg (by rintro rfl; exact hd hce)]
    exact h.created d hd

theorem logInv_tail {n : Nat} {x : XCommand} (h : LogInv s) (hpc : s.pc.cmd = some x)
    (ht : Tail n x s s') :
    LogInv s' := by
  have hh := WorkerPc.hand_eq hpc
  cases ht with
  | launchWait c a hx hs => exact h.congr trivial rfl (by rw [hh, hx]; rfl) rfl rfl rfl fun _ => rfl
  | syncWait t r a hx hr hn' hs hc =>
    exact h.congr hr rfl (by rw [hh, hx]; rfl) rfl rfl rfl fun _ => rfl
  | syncCall t r a hx hr hn' hs hc ha =>
    exact h.congr hr rfl (by rw [hh, hx]; rfl) rfl rfl rfl fun _ => rfl
  | abort => exact h.congr h.pcOk rfl rfl rfl rfl rfl fun _ => rfl
  | finish a st hx hst hq hp' => exact h.congr hx rfl (by rw [hh]; rfl) rfl rfl rfl fun _ => rfl
  | drop c a hx hd =>
    refine logInv_drop h ?_ a
    rw [hh, hx]; rfl
  | launch c a e l last hx hd hs he hl =>
    refine logInv_launch h ?_ a e last ?_
    · rw [hh, hx]; rfl
    · rcases hl with rfl | ⟨rfl, -⟩
      · exact List.nil_sublist _
      · exact List.Sublist.refl _

theorem logInv_worker (h : LogInv s) (ht : WorkerStep s s') : LogInv s' := by
  cases ht with
  | dequeued x rest hpc hc =>
    refine h.congr trivial rfl ?_ rfl rfl rfl fun _ => rfl
    have hh : s.pc.hand = [] := by rcases hpc with hpc | hpc <;> rw [hpc] <;> rfl
    rw [hh, hc, hwCmds_cons]; rfl
  | idle hpc hc hl hr => exact h.congr trivial rfl (by rw [hpc]; rfl) rfl rfl rfl fun _ => rfl
  | stillIdle hpc hc hl hr => exact h.congr trivial rfl (by rw [hpc]; rfl) rfl rfl rfl fun _ => rfl
  | generated x hpc hc hl hx hb =>
    have hn : x.hw? = none := by rcases hx with rfl | rfl <;> rfl
    refine h.congr trivial rfl ?_ rfl rfl rfl (update_other hn)
    rw [hpc]
    show x.hw?.toList ++ _ = _
    rw [hn]; rfl
  | gotHardware c hpc => exact h.congr trivial rfl (by rw [hpc]; rfl) rfl rfl rfl fun _ => rfl
  | gotOther x hpc hx =>
    exact h.congr trivial rfl (by rw [hpc]; rfl) rfl rfl rfl (update_other hx)
  | noSync i hpc hl => exact h.congr trivial rfl (by rw [hpc]; rfl) rfl rfl rfl fun _ => rfl
  | region x s' hpc hne ht => exact logInv_tail h (WorkerPc.locks_cmd hpc) ht
  | calling call r hpc =>
    have hok := h.pcOk
    rw [hpc] at hok
    exact h.congr hok rfl (by rw [hpc]; rfl) rfl rfl rfl fun _ => rfl
  | returning call r hpc =>
    have hok := h.pcOk
    rw [hpc] at hok
    exact h.congr hok rfl (by rw [hpc]; rfl) rfl rfl rfl fun _ => rfl
  | synced call r s' hpc hp ht =>
    refine logInv_tail (logInv_syncFinish h call.target) ?_ ht
    rw [syncFinish_pc, hpc]; rfl
  | complete x hpc hx =>
    refine h.congr ?_ rfl ?_ rfl rfl rfl (update_other hx)
    · cases x <;> trivial
    · rw [hpc]
      cases x with
      | hardware c => cases hx
      | _ => rfl

theorem logInv_app {t : Nat} (h : LogInv s) (ht : AppStep s t s') : LogInv s' := by
  cases ht with
  | synced call c hpc hp => exact (logInv_popLogs h c).congr h.pcOk rfl rfl rfl rfl rfl fun _ => rfl
  | _ => exact h.congr h.pcOk rfl rfl rfl rfl rfl fun _ => rfl

theorem logInv_submit (h : LogInv s) {c : HwCommand} (hc : c ∉ s.enqueued) :
    LogInv (enqueue (.hardware c) s) := by
  have hnew (d : HwCommand) (hd : d ∈ s.enqueued) : d ≠ c := by rintro rfl; exact hc hd
  refine ⟨h.pcOk, ?_, ?_, h.suffix, h.syncLog, ?_, ?_, ?_, ?_⟩
  · show (s.launched ++ s.pc.hand ++ hwCmds (s.cmds ++ [.hardware c])).Sublist (s.enqueued ++ [c])
    rw [hwCmds_append, ← List.append_assoc]
    exact h.conserve.append (List.Sublist.refl _)
  · refine List.nodup_append.2 ⟨h.nodup, List.nodup_singleton _, ?_⟩
    intro d hd e he
    rw [List.mem_singleton.1 he]; exact hnew d hd
  · intro d hd
    show d ∈ s.cmdLog ∨ Function.update s.cmdState (.hardware c) .pending (.hardware d) = _
    rw [update_hw, if_neg (hnew d (h.launched_sublist.subset hd))]
    exact h.done d hd
  · intro d
    show Function.update s.cmdState (.hardware c) .pending (.hardware d) = _ ↔ d ∈ s.cmdLog
    rw [update_hw]
    split
    · rename_i hdc
      subst hdc
      exact ⟨(fun e => by cases e), fun e => absurd (h.cmdLog_sublist.subset e) hc⟩
    · exact h.inFlight d
  · intro d hd
    show Function.update s.cmdState (.hardware c) .pending (.hardware d) = _
    rw [update_hw]
    split
    · rfl
    · rename_i hdc
      refine h.pending d ?_
      rw [show (enqueue (.hardware c) s).cmds = s.cmds ++ [.hardware c] from rfl, hwCmds_append,
        ← List.append_assoc] at hd
      exact (List.mem_append.1 hd).resolve_right fun hm => hdc (List.mem_singleton.1 hm)
  · intro d hd
    show Function.update s.cmdState (.hardware c) .pending (.hardware d) = _
    have hd' : d ∉ s.enqueued ++ [c] := hd
    rw [List.mem_append, not_or, List.mem_singleton] at hd'
    rw [update_hw, if_neg hd'.2]
    exact h.created d hd'.1

theorem logInv_dropAll (h : LogInv s) :
    LogInv { s with cmdState := fun x => if x ∈ s.cmds then .completed else s.cmdState x,
                    cmds := [] } := by
  have hn := h.all_nodup
  rw [List.nodup_append] at hn
  refine ⟨h.pcOk, ?_, h.nodup, h.suffix, h.syncLog, ?_, ?_, ?_, ?_⟩
  · exact ((List.Sublist.refl _).append (List.nil_sublist _)).trans h.conserve
  · intro d hd
    refine (h.done d hd).imp_right fun hd => ?_
    show (if XCommand.hardware d ∈ s.cmds then _ else s.cmdState (.hardware d)) = _
    rw [hd]; exact ite_self _
  · intro d
    show (if XCommand.hardware d ∈ s.cmds then _ else s.cmdState (.hardware d)) = _ ↔ d ∈ s.cmdLog
    split
    · rename_i hm
      refine ⟨(fun e => by cases e), fun e => ?_⟩
      exact absurd e (h.not_mem_cmdLog (List.mem_append_right _ (mem_hwCmds.2 hm)))
    · exact h.inFlight d
  · intro d hd
    have hd' : d ∈ s.pc.hand := by
      have := hd
      rwa [hwCmds_nil, List.append_nil] at this
    show (if XCommand.hardware d ∈ s.cmds then _ else s.cmdState (.hardware d)) = _
    rw [if_neg]
    · exact h.pending d (List.mem_append_left _ hd')
    · intro hm
      exact hn.2.2 d (List.mem_append_right _ hd') d (mem_hwCmds.2 hm) rfl
  · intro d hd
    show (if XCommand.hardware d ∈ s.cmds then _ else s.cmdState (.hardware d)) = _
    rw [if_neg fun hm => hd (h.cmds_sublist.subset (mem_hwCmds.2 hm))]
    exact h.created d hd

theorem logInv_step {act : Act} (h : LogInv s) (ht : Step s act s') : LogInv s' := by
  cases ht with
  | worker b s' ht => exact logInv_worker h ht
  | app t s' ht => exact logInv_app h ht
  | wait t c s' ht => exact logInv_app h ht
  | submit c hidx hc => exact logInv_submit h hc
  | enqueueOther act x hx =>
    have hn : x.hw? = none := by rcases hx with ⟨-, rfl⟩ | ⟨-, rfl⟩ <;> rfl
    refine h.congr h.pcOk rfl ?_ ?_ rfl rfl (update_other hn)
    · show s.pc.hand ++ hwCmds (s.cmds ++ [x]) = _
      rw [hwCmds_append, hwCmds_cons, hn]
      exact congrArg (s.pc.hand ++ ·) (List.append_nil _)
    · show s.enqueued ++ x.hw?.toList = _
      rw [hn]; exact List.append_nil _
  | waitAllShared hl => exact h.congr h.pcOk rfl rfl rfl rfl rfl fun _ => rfl
  | waitAllAbort hq hl => exact h.congr h.pcOk rfl rfl rfl rfl rfl fun _ => rfl
  | waitAllFresh hq hl =>
    have hn : (XCommand.xQueueWaitAll s.nextId).hw? = none := rfl
    refine h.congr h.pcOk rfl ?_ rfl rfl rfl (update_other (f := s.cmdState) (v := .pending) hn)
    show s.pc.hand ++ hwCmds (s.cmds ++ [.xQueueWaitAll s.nextId]) = _
    rw [hwCmds_append]
    exact congrArg (s.pc.hand ++ ·) (List.append_nil _)
  | dropAll => exact logInv_dropAll h
  | pause => exact h.congr h.pcOk rfl rfl rfl rfl rfl fun _ => rfl
  | resume => exact h.congr h.pcOk rfl rfl rfl rfl rfl fun _ => rfl
  | resumeAndDrop d => exact (logInv_clearLogs h).congr h.pcOk rfl rfl rfl rfl rfl fun _ => rfl

/-- A system of machine steps, each under some configuration; `lts cfg` keeps
to one. -/
class Driven (M : LTS State Act) : Prop where
  init : ∀ s, M.init s → s = Preempt.init
  step : ∀ s act s', M.step s act s' → ∃ cfg, Preempt.step cfg s act = some s'

instance (cfg : Config) : Driven (lts cfg) := ⟨fun _ h => h, fun _ _ _ h => ⟨cfg, h⟩⟩

section
variable {M : LTS State Act} [Driven M]

/-- What a step can do, given that the logs are in order. -/
theorem LogInv.step_cases {cfg : Config} {act : Act} (h : LogInv s) (hs : step cfg s act = some s') :
    s.aborted = false ∧ Step s act s' :=
  Preempt.step_cases h.pcOk hs

/-- **The logs are in order** in every reachable state. -/
theorem logInv_reachable (hr : M.Reachable s) : LogInv s := by
  refine LTS.Inductive.reachable (I := LogInv) ⟨?_, ?_⟩ s hr
  · intro s h
    rw [Driven.init s h]; exact logInv_init
  · intro s act s' h hs
    obtain ⟨cfg, hs⟩ := Driven.step s act s' hs
    exact logInv_step h (h.step_cases hs).2

theorem step_of_reachable {act : Act} (hr : M.Reachable s) (hs : M.step s act s') :
    Step s act s' := by
  obtain ⟨cfg, hs⟩ := Driven.step s act s' hs
  exact ((logInv_reachable hr).step_cases hs).2

theorem not_aborted {act : Act} (hr : M.Reachable s) (hs : M.step s act s') :
    s.aborted = false := by
  obtain ⟨cfg, hs⟩ := Driven.step s act s' hs
  exact ((logInv_reachable hr).step_cases hs).1

end

end Xsched.Preempt
