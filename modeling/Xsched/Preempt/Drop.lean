import Xsched.Preempt.InFlight
import Xsched.Preempt.Submit

/-!
# Drop-resume drops

A `Resume` with `kQueueResumeFlagDropCommands` empties the buffer, reads the
last index given out, and hands it to `ResumeAndDrop`, which completes the
in-flight log and makes the drop test catch the command in the worker's hand.
Two things break it:

* under `kPreemptLevelBlock` the flag is not looked at: what is in the buffer
  and in the worker's hand is launched after the call;
* an older drop-resume that overlaps may set `drop_idx_` back to the index it
  read earlier, behind the back of a newer one that has returned.

In runs without these two (`DropOk`) every command submitted before the call
is Completed, or becomes so, without being launched any more, and every later
one is launched (`drop_resume`). Each of the two ends with a command that
will be launched although it was submitted before the call.
-/
namespace Xsched.Preempt

variable {cfg : Config} {s s' : State}

/-! ## Commands doomed and commands kept, in the launch machine -/

/-- `c` cannot be launched any more: it is not in the buffer, the drop test
catches it in the worker's hand, and, unless the level is Block, it is not in
flight. -/
structure Doomed (cfg : Config) (s : State) (c : HwCommand) : Prop where
  enqueued : c ∈ s.enqueued
  cmds : .hardware c ∉ s.cmds
  hand : c ∈ s.pc.hand → c.idx ≤ s.dropIdx
  log : cfg.level ≠ .block → c ∉ s.cmdLog

variable {c : HwCommand} {act : Act}

/-- What was enqueued does not come back into the buffer. -/
theorem not_back (hr : (lts cfg).Reachable s) (hs : (lts cfg).step s act s') (hc : c ∈ s.enqueued)
    (hn : .hardware c ∉ s.cmds) : .hardware c ∉ s'.cmds := by
  intro hc'
  have ht := step_of_reachable hr hs
  rcases (step_flow ht).cmds c hc' with h | h
  · exact hn h
  · have hnodup := (logInv_reachable (hr.step hs)).nodup
    rw [step_enqueued ht, List.nodup_append] at hnodup
    exact hnodup.2.2 c hc c h rfl

theorem enqueued_stays (ht : Step s act s') (hc : c ∈ s.enqueued) : c ∈ s'.enqueued := by
  rw [step_enqueued ht]; exact List.mem_append_left _ hc

theorem Doomed.step (h : Doomed cfg s c) (hr : (lts cfg).Reachable s)
    (hs : (lts cfg).step s act s')
    (hd : ∀ d, act = .resumeAndDrop d → c ∈ s.pc.hand → c.idx ≤ d) : Doomed cfg s' c := by
  have ht := step_of_reachable hr hs
  have hflow := step_flow ht
  refine ⟨enqueued_stays ht h.enqueued, not_back hr hs h.enqueued h.cmds, fun hc => ?_,
    fun hl hc => ?_⟩
  · have hin : c ∈ s.pc.hand := (hflow.hand c hc).resolve_right h.cmds
    by_cases he : ∃ d, act = .resumeAndDrop d
    · obtain ⟨d, rfl⟩ := he
      cases ht with
      | resumeAndDrop d => exact hd d rfl hin
      | enqueueOther act x hx => rcases hx with ⟨hx, -⟩ | ⟨hx, -⟩ <;> cases hx
    · rw [step_dropIdx ht fun d hd => he ⟨d, hd⟩]
      exact h.hand hin
  · rcases hflow.log c hc with hc | ⟨hc, hlt⟩
    · exact h.log hl hc
    · have hle := h.hand hc
      omega

/-- A doomed command is not launched. -/
theorem Doomed.launched (h : Doomed cfg s c) (ht : Step s act s') (hc : c ∈ s'.launched) :
    c ∈ s.launched := by
  rcases (step_flow ht).launched c hc with hc | ⟨hc, hlt⟩
  · exact hc
  · have hle := h.hand hc
    omega

/-- A doomed command is completed, in the worker's hand, or (under Block
only) in flight. -/
theorem Doomed.cases (h : Doomed cfg s c) (hr : (lts cfg).Reachable s) :
    s.cmdState (.hardware c) = .completed ∨ (c ∈ s.pc.hand ∧ c.idx ≤ s.dropIdx) ∨
      (cfg.level = .block ∧ c ∈ s.cmdLog) := by
  rcases accounted_reachable hr c h.enqueued with hc | hc | hc
  · rcases (logInv_reachable hr).done c hc with hc | hc
    · by_cases hl : cfg.level = .block
      · exact .inr (.inr ⟨hl, hc⟩)
      · exact absurd hc (h.log hl)
    · exact .inl hc
  · have hm := mem_hwCmds.2 hc
    rw [hwCmds_pipeline] at hm
    rcases List.mem_append.1 hm with hm | hm
    · exact .inr (.inl ⟨hm, h.hand hm⟩)
    · exact absurd (mem_hwCmds.1 hm) h.cmds
  · exact .inl hc

/-- `c`, once enqueued, is launched or on its way. -/
def Kept (s : State) (c : HwCommand) : Prop :=
  c ∈ s.enqueued → c ∈ s.launched ∨ .hardware c ∈ s.pipeline

/-- Steps other than `DropAll` keep a command that the drop test lets pass. -/
theorem Kept.step (h : Kept s c) (ht : Step s act s') (ha : act ≠ .dropAll)
    (hd : s.dropIdx < c.idx) : Kept s' c := by
  intro hc
  have hpop {x : XCommand} (hx : x ≠ .hardware c) (hp : s.pipeline = x :: s'.pipeline)
      (hla : s'.launched = s.launched) (hc : c ∈ s.enqueued) :
      c ∈ s'.launched ∨ .hardware c ∈ s'.pipeline := by
    rw [hla]
    refine (h hc).imp_right fun hm => ?_
    rw [hp] at hm
    exact (List.mem_cons.1 hm).resolve_left (Ne.symm hx)
  cases step_pipe ht with
  | stay _ hp hl hid hla he =>
    rw [he] at hc
    rw [hp, hla]; exact h hc
  | push _ x hx hp hl hid hla he hst hb hds =>
    rw [he] at hc
    rw [hp, hla]
    rcases List.mem_append.1 hc with hc | hc
    · exact (h hc).imp_right (List.mem_append_left _)
    · cases x with
      | hardware e =>
        rw [List.mem_singleton.1 hc]
        exact .inr (List.mem_append_right _ List.mem_cons_self)
      | _ => cases hc
  | finish _ x hx hcx hp hl hid hla he =>
    rw [he] at hc
    exact hpop (by rintro rfl; cases hx) hp hla hc
  | launch _ e hp hl hid hde hla he =>
    rw [he] at hc
    by_cases hec : e = c
    · rw [hla, hec]; exact .inl (List.mem_append_right _ List.mem_cons_self)
    · rw [hla]
      refine (h hc).imp (List.mem_append_left _) fun hm => ?_
      rw [hp] at hm
      exact (List.mem_cons.1 hm).resolve_left fun he => hec (XCommand.hardware.inj he).symm
  | drop _ e hp hl hid hde hla he hst =>
    rw [he] at hc
    refine hpop (fun hx => ?_) hp hla hc
    rw [XCommand.hardware.inj hx] at hde
    omega
  | dropAll => exact absurd rfl ha

theorem noDrop_kept {ls : List Act} (h : ((lts cfg).restrict NoDrop).Run s ls s')
    (hr : (lts cfg).Reachable s) (hk : Kept s c) (hd : s.dropIdx < c.idx) :
    Kept s' c ∧ s'.dropIdx < c.idx := by
  induction h with
  | nil s => exact ⟨hk, hd⟩
  | @cons s act s₁ ls s₂ hs _ ih =>
    have ht := step_of_reachable hr hs.1
    have hnd : act.drops = false := hs.2
    refine ih (hr.step hs.1) (hk.step ht (by rintro rfl; cases hnd) hd) ?_
    rw [step_dropIdx ht fun d he => by rw [he] at hnd; cases hnd]
    exact hd

theorem run_enqueued {ls : List Act} (h : (lts cfg).Run s ls s') (hr : (lts cfg).Reachable s)
    (hc : c ∈ s.enqueued) : c ∈ s'.enqueued :=
  h.preserve (I := fun s => c ∈ s.enqueued)
    (fun _ _ _ hr hc hs => enqueued_stays (step_of_reachable hr hs) hc) hr hc

theorem LogInv.pipeline_pending (h : LogInv s) (hc : .hardware c ∈ s.pipeline) :
    s.cmdState (.hardware c) = .pending := by
  refine h.pending c ?_
  rw [← hwCmds_pipeline]; exact mem_hwCmds.2 hc

theorem LogInv.unlaunched (h : LogInv s) (hc : .hardware c ∈ s.pipeline) : c ∉ s.launched := by
  intro hla
  have hnodup := h.all_nodup
  rw [List.append_assoc, ← hwCmds_pipeline, List.nodup_append] at hnodup
  exact hnodup.2.2 c hla c (mem_hwCmds.2 hc) rfl

/-! ## The calls under way -/

/-- The Resume call a thread is in. -/
def CtrlPc.call : CtrlPc → Option ResumeCall
  | .resumeCalls call _ => some call
  | .resumeWorker call => some call
  | .resumeDropAll call => some call
  | .resumeDropIdx call => some call
  | .resumeAndDrop call _ => some call
  | _ => none

namespace AsyncXQueue

/-- The steps of the worker thread. -/
def XAct.isWorker : XAct → Bool
  | .machine a => a.isWorker
  | _ => false

variable {x x' : AsyncXQueue}

/-- What every step respects: enqueued stays enqueued, the index grows, and
what was enqueued does not come back into the buffer. -/
structure Later (x x' : AsyncXQueue) : Prop where
  enqueued : ∀ c ∈ x.machine.enqueued, c ∈ x'.machine.enqueued
  next : x.nextHwCmdIdx ≤ x'.nextHwCmdIdx
  cmds : ∀ c ∈ x.machine.enqueued, .hardware c ∉ x.machine.cmds → .hardware c ∉ x'.machine.cmds

theorem later_of_eq (hm : x'.machine = x.machine) (hn : x.nextHwCmdIdx ≤ x'.nextHwCmdIdx) :
    Later x x' :=
  ⟨by rw [hm]; exact fun _ h => h, hn, by rw [hm]; exact fun _ _ h => h⟩

theorem step_later {act : XAct} (hr : (lts cfg).Reachable x) (hs : Step cfg x act x') :
    Later x x' := by
  have hmr := machine_reachable hr
  have hmach {a : Act} {m : State} (hm : (Preempt.lts cfg).step x.machine a m)
      (he : x'.machine = m) (hn : x'.nextHwCmdIdx = x.nextHwCmdIdx) : Later x x' := by
    refine ⟨fun c hc => ?_, by rw [hn], fun c hc hcmds => ?_⟩
    · rw [he]; exact enqueued_stays (step_of_reachable hmr hm) hc
    · rw [he]; exact not_back hmr hm hc hcmds
  cases hs with
  | machine a m hd hm => exact hmach hm rfl rfl
  | enqueue t c m hpc hm => exact hmach hm rfl rfl
  | pause t flags m hpc hm => exact hmach hm rfl rfl
  | resume t call m hpc hm => exact hmach hm rfl rfl
  | dropAll t call m hpc hm => exact hmach hm rfl rfl
  | resumeAndDrop t call d m hpc hm => exact hmach hm rfl rfl
  | allocate t props kind hpc => exact later_of_eq rfl (Int.le_add_one (Int.le_refl _))
  | _ => exact later_of_eq rfl (Int.le_refl _)

/-- What `Submit` returned for is enqueued. -/
structure SubmittedInv (x : AsyncXQueue) : Prop where
  submitted : ∀ c ∈ x.submitted, c ∈ x.machine.enqueued
  enqueued : ∀ t c, x.submits t = .enqueued c → c ∈ x.machine.enqueued

theorem SubmittedInv.congr (h : SubmittedInv x) (hl : Later x x')
    (hs : x'.submitted = x.submitted)
    (hp : ∀ t c, x'.submits t = .enqueued c → x.submits t = .enqueued c) : SubmittedInv x' :=
  ⟨by rw [hs]; exact fun c hc => hl.enqueued c (h.submitted c hc),
    fun t c hc => hl.enqueued c (h.enqueued t c (hp t c hc))⟩

theorem submittedInv_step {act : XAct} (hr : (lts cfg).Reachable x) (h : SubmittedInv x)
    (hs : Step cfg x act x') : SubmittedInv x' := by
  have hl := step_later hr hs
  have hset (t : Nat) (p : SubmitPc) (hp : ∀ c, p ≠ .enqueued c) (y : AsyncXQueue)
      (hy : y.submits = x.submits) (t' : Nat) (c : HwCommand)
      (hc : (setSubmit t p y).submits t' = .enqueued c) : x.submits t' = .enqueued c := by
    rw [setSubmit_submits] at hc
    split at hc
    · exact absurd hc (hp c)
    · rw [hy] at hc; exact hc
  cases hs with
  | allocate t props kind hpc =>
    exact h.congr hl rfl (hset t (.indexed ⟨x.nextHwCmdIdx, props, kind⟩) (fun _ => nofun) _ rfl)
  | hook t c hpc => exact h.congr hl rfl (hset t (.hooked c) (fun _ => nofun) x rfl)
  | enqueue t c m hpc hm =>
    have henq : m.enqueued = x.machine.enqueued ++ [c] := enqueued_eq hr hm
    refine ⟨fun d hd => hl.enqueued d (h.submitted d hd), fun t' d hd => ?_⟩
    rw [setSubmit_submits] at hd
    split at hd
    · cases hd
      show c ∈ m.enqueued
      rw [henq]; exact List.mem_append_right _ List.mem_cons_self
    · exact hl.enqueued d (h.enqueued t' d hd)
  | submitReturn t c hpc =>
    refine ⟨fun d hd => ?_, fun t' d hd => ?_⟩
    · rcases List.mem_append.1 hd with hd | hd
      · exact h.submitted d hd
      · rw [List.mem_singleton.1 hd]; exact h.enqueued t c hpc
    · exact h.enqueued t' d (hset t .idle (fun _ => nofun) _ rfl t' d hd)
  | _ => exact h.congr hl rfl fun _ _ hc => hc

theorem submittedInv_reachable (hr : (lts cfg).Reachable x) : SubmittedInv x := by
  refine LTS.reachable_induction (I := SubmittedInv) ?_ ?_ hr
  · rintro x rfl; exact ⟨nofun, fun _ _ => nofun⟩
  · exact fun x act x' hr h hs => submittedInv_step hr h (step_of_lts hs)

/-- Where a Resume call is, and what it has done by then. -/
def CtrlOk (cfg : Config) (x : AsyncXQueue) : CtrlPc → Prop
  | .resumeWorker call => call.drops = true → cfg.level = .block
  | .resumeDropAll call => call.drops = true ∧ cfg.level ≠ .block
  | .resumeDropIdx call => call.drops = true ∧ cfg.level ≠ .block ∧
      ∀ c ∈ call.before, .hardware c ∉ x.machine.cmds
  | .resumeAndDrop call d => call.drops = true ∧ cfg.level ≠ .block ∧
      (∀ c ∈ call.before, .hardware c ∉ x.machine.cmds) ∧
      d < x.nextHwCmdIdx ∧ ∀ c ∈ call.before, c.idx ≤ d
  | _ => True

/-- What holds of thread `t`'s call under way. -/
structure CallOk (cfg : Config) (x : AsyncXQueue) (t : Nat) (p : CtrlPc) : Prop where
  pc : CtrlOk cfg x p
  before : ∀ call, p.call = some call → ∀ c ∈ call.before, c ∈ x.machine.enqueued
  dropping : ∀ call, p.call = some call → call.drops = true → t ∈ x.dropping

def CallInv (cfg : Config) (x : AsyncXQueue) : Prop := ∀ t, CallOk cfg x t (x.ctrls t)

theorem CallOk.later {t : Nat} {p : CtrlPc} (h : CallOk cfg x t p) (hl : Later x x')
    (hd : t ∈ x.dropping → t ∈ x'.dropping) : CallOk cfg x' t p := by
  have hcmds (call : ResumeCall) (hp : p.call = some call)
      (hn : ∀ c ∈ call.before, .hardware c ∉ x.machine.cmds) (c : HwCommand)
      (hc : c ∈ call.before) : .hardware c ∉ x'.machine.cmds :=
    hl.cmds c (h.before call hp c hc) (hn c hc)
  refine ⟨?_, fun call hp c hc => hl.enqueued c (h.before call hp c hc),
    fun call hp hdr => hd (h.dropping call hp hdr)⟩
  have hpc := h.pc
  cases p with
  | resumeDropIdx call => exact ⟨hpc.1, hpc.2.1, hcmds call rfl hpc.2.2⟩
  | resumeAndDrop call d =>
    obtain ⟨h₁, h₂, h₃, h₄, h₅⟩ := hpc
    exact ⟨h₁, h₂, hcmds call rfl h₃, Int.lt_of_lt_of_le h₄ hl.next, h₅⟩
  | _ => exact hpc

/-- Only thread `t`'s call moves. -/
theorem CallInv.set {t : Nat} (h : CallInv cfg x) (hl : Later x x')
    (hc : ∀ t', t' ≠ t → x'.ctrls t' = x.ctrls t')
    (hd : ∀ t', t' ≠ t → t' ∈ x.dropping → t' ∈ x'.dropping)
    (hok : CallOk cfg x' t (x'.ctrls t)) : CallInv cfg x' := by
  intro t'
  by_cases ht : t' = t
  · rw [ht]; exact hok
  · rw [hc t' ht]; exact (h t').later hl (hd t' ht)

theorem callOk_noCall {t : Nat} {p : CtrlPc} (hp : CtrlOk cfg x p) (hn : p.call = none) :
    CallOk cfg x t p :=
  ⟨hp, fun _ hc => (nomatch hn.symm.trans hc), fun _ hc => (nomatch hn.symm.trans hc)⟩

/-- The call goes on to `p'`. -/
theorem CallOk.next {t : Nat} {p p' : CtrlPc} {call : ResumeCall} (h : CallOk cfg x t p)
    (hp : p.call = some call) (hp' : p'.call = some call) (hl : Later x x')
    (hd : x'.dropping = x.dropping) (hok : CtrlOk cfg x' p') : CallOk cfg x' t p' := by
  refine ⟨hok, fun call' hc => ?_, fun call' hc hdr => ?_⟩
  · rw [← Option.some.inj (hp'.symm.trans hc)]
    exact fun c hc => hl.enqueued c (h.before call hp c hc)
  · rw [← Option.some.inj (hp'.symm.trans hc)] at hdr
    rw [hd]; exact h.dropping call hp hdr

theorem resumeNext_ok (cfg : Config) (x : AsyncXQueue) (call : ResumeCall) :
    CtrlOk cfg x (resumeNext cfg call) ∧ (resumeNext cfg call).call = some call := by
  unfold resumeNext
  split
  · rename_i hn
    refine ⟨fun hdr => hn.resolve_right fun hnd => ?_, rfl⟩
    rw [hdr] at hnd; cases hnd
  · rename_i hn
    rw [not_or] at hn
    exact ⟨⟨by simpa using hn.2, hn.1⟩, rfl⟩

theorem callInv_step {act : XAct} (hr : (lts cfg).Reachable x) (h : CallInv cfg x)
    (hs : Step cfg x act x') : CallInv cfg x' := by
  have hl := step_later hr hs
  have hkeep (hc : x'.ctrls = x.ctrls) (hd : x'.dropping = x.dropping) : CallInv cfg x' := by
    intro t
    rw [hc]
    exact (h t).later hl fun ht => by rw [hd]; exact ht
  have hother {t : Nat} {p : CtrlPc} {y : AsyncXQueue} (hy : y.ctrls = x.ctrls) (t' : Nat)
      (ht : t' ≠ t) : (setCtrl t p y).ctrls t' = x.ctrls t' := by
    rw [setCtrl_ctrls, if_neg ht, hy]
  have hself {t : Nat} {p : CtrlPc} {y : AsyncXQueue} : (setCtrl t p y).ctrls t = p := by
    rw [setCtrl_ctrls, if_pos rfl]
  -- a thread outside Resume moves to `p`
  have hquiet {t : Nat} {p : CtrlPc} (he : x'.ctrls t = p) (hp : CtrlOk cfg x' p)
      (hn : p.call = none) (hc : ∀ t', t' ≠ t → x'.ctrls t' = x.ctrls t')
      (hd : ∀ t', t' ≠ t → t' ∈ x.dropping → t' ∈ x'.dropping) : CallInv cfg x' :=
    h.set hl hc hd (by rw [he]; exact callOk_noCall hp hn)
  have hsame (t' t : Nat) (_ : t' ≠ t) (ht : t' ∈ x.dropping) : t' ∈ x.dropping := ht
  cases hs with
  | suspendStart t flags hpc => exact hquiet hself trivial rfl (hother rfl) fun _ => hsame _ t
  | suspendFail t flags hpc hsus => exact hquiet hself trivial rfl (hother rfl) fun _ => hsame _ t
  | suspendWin t flags hpc hsus => exact hquiet hself trivial rfl (hother rfl) fun _ => hsame _ t
  | pause t flags m hpc hm => exact hquiet hself trivial rfl (hother rfl) fun _ => hsame _ t
  | suspendReturn t hpc => exact hquiet hself trivial rfl (hother rfl) fun _ => hsame _ t
  | suspendCall t f todo hpc => exact hquiet hself trivial rfl (hother rfl) fun _ => hsame _ t
  | resumeWin t flags hpc hsus =>
    refine h.set (t := t) hl (hother rfl) (fun t' _ ht => ?_) ?_
    · show t' ∈ (if dropsCommands flags then t :: x.dropping else x.dropping)
      split
      · exact List.mem_cons_of_mem _ ht
      · exact ht
    · rw [hself]
      refine ⟨trivial, fun call hc c hm => ?_, fun call hc hdr => ?_⟩
      · cases hc; exact (submittedInv_reachable hr).submitted c hm
      · cases hc
        show t ∈ (if dropsCommands flags then t :: x.dropping else x.dropping)
        rw [if_pos (show dropsCommands flags = true from hdr)]; exact List.mem_cons_self
  | resumeCall t call f todo hpc =>
    have hok := h t
    rw [hpc] at hok
    exact h.set (t := t) hl (hother rfl) (hsame · t)
      (by rw [hself]; exact hok.next rfl rfl hl rfl trivial)
  | resumeCalled t call hpc =>
    have hok := h t
    rw [hpc] at hok
    refine h.set (t := t) hl (hother rfl) (hsame · t) ?_
    obtain ⟨hnext, hcallnext⟩ := resumeNext_ok cfg (setCtrl t (resumeNext cfg call) x) call
    rw [hself]
    exact hok.next rfl hcallnext hl rfl hnext
  | resume t call m hpc hm =>
    refine hquiet hself trivial rfl (hother rfl) fun t' hne ht => ?_
    exact List.mem_filter.2 ⟨ht, by simpa using hne⟩
  | dropAll t call m hpc hm =>
    have hok := h t
    rw [hpc] at hok
    refine h.set (t := t) hl (hother rfl) (hsame · t) ?_
    rw [hself]
    refine hok.next rfl rfl hl rfl ⟨hok.pc.1, hok.pc.2, fun c hc hm' => ?_⟩
    have hm'' : XCommand.hardware c ∈ m.cmds := hm'
    rw [dropAll_eq hm] at hm''
    cases hm''
  | dropIdx t call hpc =>
    have hok := h t
    rw [hpc] at hok
    refine h.set (t := t) hl (hother rfl) (hsame · t) ?_
    rw [hself]
    refine hok.next rfl rfl hl rfl ⟨hok.pc.1, hok.pc.2.1, hok.pc.2.2, ?_, fun c hc => ?_⟩
    · exact Int.sub_lt_self _ Int.one_pos
    · have hlt := ((submitInv_reachable hr).enqueued c (hok.before call rfl c hc)).2
      omega
  | resumeAndDrop t call d m hpc hm =>
    refine hquiet hself trivial rfl (hother rfl) fun t' hne ht => ?_
    exact List.mem_filter.2 ⟨ht, by simpa using hne⟩
  | _ => exact hkeep rfl rfl

theorem callInv_reachable (hr : (lts cfg).Reachable x) : CallInv cfg x := by
  refine LTS.reachable_induction (I := CallInv cfg) ?_ ?_ hr
  · rintro x rfl t; exact callOk_noCall trivial rfl
  · exact fun x act x' hr h hs => callInv_step hr h (step_of_lts hs)

/-! ## Runs without the two slips -/

/-- Under Block a drop-resume returns only when none of the commands it should
drop is in the buffer or in the worker's hand; and a drop-resume hands
`ResumeAndDrop` no index below a command in the worker's hand that was
submitted before a drop-resume that has returned. -/
def DropOk (x : AsyncXQueue) (act : XAct) : Prop :=
  ∀ t, act = .controller t →
    (∀ call, x.ctrls t = .resumeWorker call → call.drops = true →
      ∀ c ∈ call.before, .hardware c ∉ x.machine.pipeline) ∧
    ∀ call d, x.ctrls t = .resumeAndDrop call d →
      ∀ c ∈ x.doomed, c ∈ x.machine.pc.hand → c.idx ≤ d

def DoomInv (cfg : Config) (x : AsyncXQueue) : Prop := ∀ c ∈ x.doomed, Doomed cfg x.machine c

theorem hand_pipeline {s : State} {c : HwCommand} (hc : c ∈ s.pc.hand) :
    .hardware c ∈ s.pipeline := by
  refine mem_hwCmds.1 ?_
  rw [hwCmds_pipeline]; exact List.mem_append_left _ hc

theorem doomInv_step {act : XAct} (hr : (lts cfg).Reachable x) (h : DoomInv cfg x)
    (hs : Step cfg x act x') (hok : DropOk x act) : DoomInv cfg x' := by
  have hmr := machine_reachable hr
  have hcall := callInv_reachable hr
  have hmach {a : Act} {m : State} (hm : (Preempt.lts cfg).step x.machine a m)
      (ha : ∀ d, a ≠ .resumeAndDrop d) (c : HwCommand) (hc : c ∈ x.doomed) : Doomed cfg m c :=
    (h c hc).step hmr hm fun d hd => absurd hd (ha d)
  cases hs with
  | machine a m hd hm => exact hmach hm fun d he => by rw [he] at hd; cases hd
  | enqueue t c m hpc hm => exact hmach hm fun d => nofun
  | pause t flags m hpc hm => exact hmach hm fun d => nofun
  | dropAll t call m hpc hm => exact hmach hm fun d => nofun
  | resume t call m hpc hm =>
    have hold := hmach hm fun d => nofun
    have hlater := (hcall t).before call (by rw [hpc]; rfl)
    have hblock := (hcall t).pc
    rw [hpc] at hblock
    intro c hc
    have hc' : c ∈ if call.drops then x.doomed ++ call.before else x.doomed := hc
    split at hc'
    · rename_i hdr
      rcases List.mem_append.1 hc' with hc' | hc'
      · exact hold c hc'
      · have hnp := (hok t rfl).1 call hpc hdr c hc'
        refine Doomed.step ⟨hlater c hc', fun hm' => hnp (List.mem_append_right _ hm'),
          fun hm' => absurd (hand_pipeline hm') hnp, fun hl => absurd (hblock hdr) hl⟩ hmr hm ?_
        exact fun d => nofun
    · exact hold c hc'
  | resumeAndDrop t call d m hpc hm =>
    have hlater := (hcall t).before call (by rw [hpc]; rfl)
    have hpcok := (hcall t).pc
    rw [hpc] at hpcok
    obtain ⟨hdr, -, hcmds, -, hidx⟩ := hpcok
    have hm' := resumeAndDrop_eq hm
    rw [Preempt.resumeAndDrop_eq] at hm'
    have hafter (c : HwCommand) (he : c ∈ x.machine.enqueued)
        (hn : .hardware c ∉ x.machine.cmds) (hi : c ∈ x.machine.pc.hand → c.idx ≤ d) :
        Doomed cfg m c := by
      rw [hm']; exact ⟨he, hn, hi, fun _ => nofun⟩
    intro c hc
    have hc' : c ∈ if call.drops then x.doomed ++ call.before else x.doomed := hc
    rw [if_pos hdr] at hc'
    rcases List.mem_append.1 hc' with hc' | hc'
    · have hdoomed := h c hc'
      exact hafter c hdoomed.enqueued hdoomed.cmds ((hok t rfl).2 call d hpc c hc')
    · exact hafter c (hlater c hc') (hcmds c hc') fun _ => hidx c hc'
  | _ => exact h

theorem doomInv_reachable (hr : ((lts cfg).restrict DropOk).Reachable x) : DoomInv cfg x := by
  refine LTS.reachable_induction (I := DoomInv cfg) ?_ ?_ hr
  · rintro x rfl c hc; cases hc
  · exact fun x act x' hr h hs => doomInv_step hr.of_restrict h (step_of_lts hs.1) hs.2

/-! ## What is submitted after the call -/

structure SparedInv (x : AsyncXQueue) : Prop where
  next : x.machine.dropIdx < x.nextHwCmdIdx
  idx : ∀ c ∈ x.spared, x.machine.dropIdx < c.idx
  none : x.dropping ≠ [] → x.spared = []
  kept : ∀ c ∈ x.spared, Kept x.machine c

theorem sparedInv_step {act : XAct} (hr : (lts cfg).Reachable x) (h : SparedInv x)
    (hs : Step cfg x act x') : SparedInv x' := by
  have hmr := machine_reachable hr
  have hcall := callInv_reachable hr
  have hmach {a : Act} {m : State} (hm : (Preempt.lts cfg).step x.machine a m)
      (ha : ∀ d, a ≠ .resumeAndDrop d) (hna : a ≠ .dropAll) : m.dropIdx = x.machine.dropIdx ∧
        ∀ c ∈ x.spared, Kept m c := by
    have ht := step_of_reachable hmr hm
    exact ⟨step_dropIdx ht ha, fun c hc => (h.kept c hc).step ht hna (h.idx c hc)⟩
  have hkeep {m : State} (he : x'.machine = m) (hm : m.dropIdx = x.machine.dropIdx ∧
      ∀ c ∈ x.spared, Kept m c) (hn : x'.nextHwCmdIdx = x.nextHwCmdIdx)
      (hsp : x'.spared = x.spared) (hd : x'.dropping ≠ [] → x.dropping ≠ []) : SparedInv x' := by
    refine ⟨by rw [he, hm.1, hn]; exact h.next, ?_, fun hne => by rw [hsp]; exact h.none (hd hne), ?_⟩
    · rw [he, hm.1, hsp]; exact h.idx
    · rw [he, hsp]; exact hm.2
  have hfilter (t : Nat) (hne : x.dropping.filter (· ≠ t) ≠ []) : x.dropping ≠ [] := by
    intro hnil
    rw [hnil] at hne; exact hne rfl
  have hnone (hin : x.dropping ≠ []) (hsp : x'.spared = x.spared)
      (hnext : x'.machine.dropIdx < x'.nextHwCmdIdx) : SparedInv x' := by
    have hnil : x'.spared = [] := by rw [hsp, h.none hin]
    exact ⟨hnext, by rw [hnil]; exact nofun, fun _ => hnil, by rw [hnil]; exact nofun⟩
  cases hs with
  | machine a m hd hm =>
    refine hkeep rfl (hmach hm (fun d he => ?_) fun he => ?_) rfl rfl fun hne => hne
    · rw [he] at hd; cases hd
    · rw [he] at hd; cases hd
  | enqueue t c m hpc hm =>
    exact hkeep rfl (hmach hm (fun d => nofun) nofun) rfl rfl fun hne => hne
  | pause t flags m hpc hm =>
    exact hkeep rfl (hmach hm (fun d => nofun) nofun) rfl rfl fun hne => hne
  | resume t call m hpc hm =>
    exact hkeep rfl (hmach hm (fun d => nofun) nofun) rfl rfl (hfilter t)
  | dropAll t call m hpc hm =>
    have hok := hcall t
    rw [hpc] at hok
    have hin := hok.dropping call rfl hok.pc.1
    refine hnone (List.ne_nil_of_mem hin) rfl ?_
    show m.dropIdx < x.nextHwCmdIdx
    rw [step_dropIdx (step_of_reachable hmr hm) fun d => nofun]; exact h.next
  | resumeAndDrop t call d m hpc hm =>
    have hok := hcall t
    rw [hpc] at hok
    have hin := hok.dropping call rfl hok.pc.1
    refine hnone (List.ne_nil_of_mem hin) rfl ?_
    show m.dropIdx < x.nextHwCmdIdx
    rw [resumeAndDrop_eq hm, Preempt.resumeAndDrop_eq]
    exact hok.pc.2.2.2.1
  | allocate t props kind hpc =>
    have hnext := h.next
    refine ⟨Int.lt_add_one_of_le (Int.le_of_lt hnext), fun c hc => ?_, fun hne => ?_, fun c hc => ?_⟩
    · have hc' : c ∈ if x.dropping = [] then x.spared ++ [⟨x.nextHwCmdIdx, props, kind⟩]
        else x.spared := hc
      split at hc'
      · rcases List.mem_append.1 hc' with hc' | hc'
        · exact h.idx c hc'
        · rw [List.mem_singleton.1 hc']; exact hnext
      · exact h.idx c hc'
    · exact (if_neg hne).trans (h.none hne)
    · have hc' : c ∈ if x.dropping = [] then x.spared ++ [⟨x.nextHwCmdIdx, props, kind⟩]
        else x.spared := hc
      split at hc'
      · rcases List.mem_append.1 hc' with hc' | hc'
        · exact h.kept c hc'
        · intro he
          have hlt := ((submitInv_reachable hr).enqueued c he).2
          rw [List.mem_singleton.1 hc'] at hlt
          exact absurd hlt (Int.lt_irrefl _)
      · exact h.kept c hc'
  | resumeWin t flags hpc hsus =>
    have hsub : ∀ c ∈ (if dropsCommands flags then [] else x.spared), c ∈ x.spared := by
      intro c hc
      split at hc
      · cases hc
      · exact hc
    refine ⟨h.next, fun c hc => h.idx c (hsub c hc), fun hne => ?_, fun c hc => h.kept c (hsub c hc)⟩
    have hne' : (if dropsCommands flags then t :: x.dropping else x.dropping) ≠ [] := hne
    show (if dropsCommands flags then [] else x.spared) = []
    split
    · rfl
    · rename_i hdr
      rw [if_neg hdr] at hne'
      exact h.none hne'
  | _ => exact hkeep rfl ⟨rfl, h.kept⟩ rfl rfl fun hne => hne

theorem sparedInv_reachable (hr : (lts cfg).Reachable x) : SparedInv x := by
  refine LTS.reachable_induction (I := SparedInv) ?_ ?_ hr
  · rintro x rfl; exact ⟨by decide, nofun, fun _ => rfl, nofun⟩
  · exact fun x act x' hr h hs => sparedInv_step hr h (step_of_lts hs)

/-- A queue that is not being destroyed has no XQueueDestroyCommand. -/
def LiveInv (x : AsyncXQueue) : Prop :=
  x.terminated = false → ∀ y ∈ x.machine.pipeline, y.isDestroy = false

theorem liveInv_step {act : XAct} (hr : (lts cfg).Reachable x) (h : LiveInv x)
    (hs : Step cfg x act x') : LiveInv x' := by
  have hmach {a : Act} {m : State} (hm : (Preempt.lts cfg).step x.machine a m)
      (ha : x.terminated = false → a ≠ .enqueueDestroy) (hterm : x.terminated = false) :
      ∀ y ∈ m.pipeline, y.isDestroy = false := by
    have hold := h hterm
    have hpop {y : XCommand} (hp : x.machine.pipeline = y :: m.pipeline) :
        ∀ z ∈ m.pipeline, z.isDestroy = false := fun z hz => hold z (by rw [hp]; exact .tail _ hz)
    cases step_pipe (step_of_reachable (machine_reachable hr) hm) with
    | stay _ hp hl hid hla he => rw [hp]; exact hold
    | push _ y hy hp hl hid hla he hst hb hds =>
      rw [hp]
      intro z hz
      rcases List.mem_append.1 hz with hz | hz
      · exact hold z hz
      · rw [List.mem_singleton.1 hz]
        by_contra hd
        exact ha hterm (hds (by simpa using hd))
    | finish _ y hy hc hp hl hid hla he => exact hpop hp
    | launch _ e hp hl hid hd hla he => exact hpop hp
    | drop _ e hp hl hid hd hla he hst => exact hpop hp
    | dropAll hp hl hid hla he hst =>
      rw [hp]
      exact fun z hz => hold z (List.mem_append_left _ hz)
  cases hs with
  | machine a m hd hm =>
    refine hmach hm fun hterm he => ?_
    rw [he] at hd
    exact absurd (hd.symm.trans hterm) nofun
  | enqueue t c m hpc hm => exact hmach hm fun _ => nofun
  | pause t flags m hpc hm => exact hmach hm fun _ => nofun
  | resume t call m hpc hm => exact hmach hm fun _ => nofun
  | dropAll t call m hpc hm => exact hmach hm fun _ => nofun
  | resumeAndDrop t call d m hpc hm => exact hmach hm fun _ => nofun
  | terminate => exact nofun
  | _ => exact h

theorem liveInv_reachable (hr : (lts cfg).Reachable x) : LiveInv x := by
  refine LTS.reachable_induction (I := LiveInv) ?_ ?_ hr
  · rintro x rfl _ y hy
    rw [List.mem_singleton.1 hy]; rfl
  · exact fun x act x' hr h hs => liveInv_step hr h (step_of_lts hs)

/-! ## Continuations -/

/-- The action on the launch worker a thread is about to make. -/
def workerAct : CtrlPc → Option Act
  | .suspendPause _ => some .pause
  | .resumeWorker _ => some .resume
  | .resumeDropAll _ => some .dropAll
  | .resumeAndDrop _ d => some (.resumeAndDrop d)
  | _ => none

/-- What Suspend and Resume calls do to the launch worker meets `ok`. -/
def Controlled (ok : State → Act → Prop) (x : AsyncXQueue) (act : XAct) : Prop :=
  ∀ t a, act = .controller t → workerAct (x.ctrls t) = some a → ok x.machine a

/-- The machine below makes a run of its own, with as many worker steps. -/
theorem machine_run {ok : State → Act → Prop} (hcalm : ∀ s a, Preempt.Calm s a → ok s a)
    {ls : List XAct} (h : ((lts cfg).restrict (Controlled ok)).Run x ls x') :
    ∃ as, ((Preempt.lts cfg).restrict ok).Run x.machine as x'.machine ∧
      as.countP Act.isWorker = ls.countP XAct.isWorker := by
  refine LTS.Run.map machine (fun x act x' hs => ?_) h
  cases step_of_lts hs.1 with
  | machine a m hd hm =>
    refine .inr ⟨a, ⟨hm, hcalm _ _ ⟨?_, ?_⟩⟩, rfl⟩
    · rintro rfl; cases hd
    · cases a <;> first | rfl | cases hd
  | enqueue t c m hpc hm => exact .inr ⟨_, ⟨hm, hcalm _ _ ⟨nofun, rfl⟩⟩, rfl⟩
  | pause t flags m hpc hm =>
    exact .inr ⟨_, ⟨hm, hs.2 t _ rfl (by rw [hpc]; rfl)⟩, rfl⟩
  | resume t call m hpc hm =>
    exact .inr ⟨_, ⟨hm, hs.2 t _ rfl (by rw [hpc]; rfl)⟩, rfl⟩
  | dropAll t call m hpc hm =>
    exact .inr ⟨_, ⟨hm, hs.2 t _ rfl (by rw [hpc]; rfl)⟩, rfl⟩
  | resumeAndDrop t call d m hpc hm =>
    exact .inr ⟨_, ⟨hm, hs.2 t _ rfl (by rw [hpc]; rfl)⟩, rfl⟩
  | skip act hact ha =>
    refine .inl ⟨rfl, ?_⟩
    cases act with
    | machine a => exact absurd rfl (ha a)
    | _ => rfl
  | _ => exact .inl ⟨rfl, rfl⟩

/-- Nobody pauses and nothing is dropped. -/
def Calm : AsyncXQueue → XAct → Prop := Controlled Preempt.Calm

/-- Nothing is dropped. -/
def NoDrop : AsyncXQueue → XAct → Prop := Controlled Preempt.NoDrop

/-- Under Block nothing is ever dropped. -/
theorem block_noDrop (hl : cfg.level = .block) (hr : (lts cfg).Reachable x) (act : XAct) :
    NoDrop x act := by
  intro t a _ ha
  have hpc := (callInv_reachable hr t).pc
  cases hc : x.ctrls t with
  | resumeDropAll call => rw [hc] at hpc; exact absurd hl hpc.2
  | resumeAndDrop call d => rw [hc] at hpc; exact absurd hl hpc.2.1
  | _ => rw [hc] at ha; cases ha <;> rfl

theorem noDrop_machine (hr : ((lts cfg).restrict NoDrop).Reachable x) :
    ((Preempt.lts cfg).restrict Preempt.NoDrop).Reachable x.machine := by
  obtain ⟨x₀, ls, h₀, hrun⟩ := hr
  obtain ⟨as, hrun', -⟩ := machine_run (fun _ _ h => h.2) hrun
  exact ⟨x₀.machine, as, by rw [show x₀ = init from h₀]; rfl, hrun'⟩

theorem block_machine (hl : cfg.level = .block) (hr : (lts cfg).Reachable x) :
    ((Preempt.lts cfg).restrict Preempt.NoDrop).Reachable x.machine := by
  obtain ⟨x₀, ls, h₀, hrun⟩ := hr
  have hnd : ((lts cfg).restrict NoDrop).Run x₀ ls x :=
    hrun.to_restrict (LTS.reachable_init h₀) fun x act _ hr _ => block_noDrop hl hr act
  exact noDrop_machine ⟨x₀, ls, h₀, hnd⟩

/-- Enough steps of the worker for everything that is on its way. -/
def budget (cfg : Config) (s : State) : Nat := 17 * s.pipeline.length + 34 * cfg.threshold + 33

/-- A HwCommand on its way, with no XQueueDestroyCommand before it, in a calm
run with enough steps of the worker. -/
theorem calm_progress {c : HwCommand} {n : Nat} {ls : List XAct} (hr : (lts cfg).Reachable x)
    (h : Ahead x.machine c n) (hs : x.machine.state = .running)
    (hrun : ((lts cfg).restrict Calm).Run x ls x')
    (hcount : budget cfg x.machine < ls.countP XAct.isWorker) (ha : x'.machine.aborted = false) :
    c ∈ x'.machine.launched ∧ x.machine.dropIdx < c.idx ∨
      x'.machine.cmdState (.hardware c) = .completed ∧ c.idx ≤ x.machine.dropIdx := by
  obtain ⟨as, hrun', hcount'⟩ := machine_run (fun _ _ h => h) hrun
  refine progress hrun' (machine_reachable hr) h hs ?_ ha
  obtain ⟨l₁, l₂, hp, hlen, -⟩ := h
  have hn : n ≤ x.machine.pipeline.length := by
    rw [hp, List.length_append]; omega
  have hle := phase_le x.machine.pauseCount x.machine.pc
  rw [hcount']
  unfold budget at hcount
  unfold mu
  omega

/-- The place of a HwCommand in the pipeline. -/
theorem ahead_of_mem {s : State} {c : HwCommand} (hc : .hardware c ∈ s.pipeline)
    (hd : ∀ y ∈ s.pipeline, y.isDestroy = false) : ∃ n, Ahead s c n := by
  obtain ⟨l₁, l₂, hp⟩ := List.append_of_mem hc
  refine ⟨l₁.length, l₁, l₂, hp, rfl, fun y hy => hd y ?_⟩
  rw [hp]; exact List.mem_append_left _ hy

/-! ## The promise -/

/-- What a drop-resume promises, in a state after its return. -/
structure Dropped (cfg : Config) (x : AsyncXQueue) : Prop where
  /-- no doomed command is launched any more -/
  silent : ∀ c ∈ x.doomed, ∀ ls x', ((lts cfg).restrict DropOk).Run x ls x' →
    c ∈ x'.machine.launched → c ∈ x.machine.launched
  /-- every doomed command is Completed, or becomes so when the worker goes on -/
  completes : ∀ c ∈ x.doomed, x.machine.cmdState (.hardware c) = .completed ∨
    (x.machine.state = .running → ∀ ls x', ((lts cfg).restrict Calm).Run x ls x' →
      budget cfg x.machine < ls.countP XAct.isWorker → x'.machine.aborted = false →
      x'.machine.cmdState (.hardware c) = .completed)
  /-- every spared command is launched when the worker goes on -/
  launches : ∀ c ∈ x.spared, c ∈ x.machine.enqueued → x.terminated = false →
    x.machine.state = .running → ∀ ls x', ((lts cfg).restrict Calm).Run x ls x' →
      budget cfg x.machine < ls.countP XAct.isWorker → x'.machine.aborted = false →
      c ∈ x'.machine.launched

theorem doomed_silent {c : HwCommand} {ls : List XAct}
    (hrun : ((lts cfg).restrict DropOk).Run x ls x')
    (hr : ((lts cfg).restrict DropOk).Reachable x) (hc : c ∈ x.doomed)
    (hla : c ∈ x'.machine.launched) : c ∈ x.machine.launched := by
  have hgo : c ∈ x'.doomed ∧ (c ∈ x'.machine.launched → c ∈ x.machine.launched) := by
    refine hrun.preserve (I := fun y => c ∈ y.doomed ∧
      (c ∈ y.machine.launched → c ∈ x.machine.launched)) ?_ hr ⟨hc, fun h => h⟩
    rintro y act y' hry ⟨hcy, hback⟩ hs
    have hst := step_of_lts hs.1
    refine ⟨?_, fun hla => hback ?_⟩
    · have hret (call : ResumeCall) :
          c ∈ if call.drops then y.doomed ++ call.before else y.doomed := by
        split
        · exact List.mem_append_left _ hcy
        · exact hcy
      cases hst with
      | resume t call m hpc hm => exact hret call
      | resumeAndDrop t call d m hpc hm => exact hret call
      | _ => exact hcy
    · rcases hst.machine_step with he | ⟨a, hm⟩
      · rw [he] at hla; exact hla
      · exact (doomInv_reachable hry c hcy).launched
          (step_of_reachable (machine_reachable hry.of_restrict) hm) hla
  exact hgo.2 hla

theorem dropped_reachable (hr : ((lts cfg).restrict DropOk).Reachable x) : Dropped cfg x where
  silent := fun c hc ls x' hrun hla => doomed_silent hrun hr hc hla
  completes := by
    intro c hc
    have hmr := machine_reachable hr.of_restrict
    rcases (doomInv_reachable hr c hc).cases hmr with hdone | ⟨hh, hle⟩ | ⟨hl, hlog⟩
    · exact .inl hdone
    · refine .inr fun hs ls x' hrun hcount ha => ?_
      have hahead : Ahead x.machine c 0 := by
        have hp : x.machine.pipeline = .hardware c :: x.machine.cmds := by
          unfold WorkerPc.hand at hh
          cases hcmd : x.machine.pc.cmd with
          | none => rw [hcmd] at hh; cases hh
          | some y =>
            rw [hcmd] at hh
            cases y with
            | hardware e => rw [pipeline_of_cmd hcmd, List.mem_singleton.1 hh]
            | _ => cases hh
        exact ⟨[], _, hp, rfl, nofun⟩
      rcases calm_progress hr.of_restrict hahead hs hrun hcount ha with ⟨-, hlt⟩ | ⟨hdone, -⟩
      · omega
      · exact hdone
    · refine .inr fun hs ls x' hrun hcount ha => ?_
      obtain ⟨as, hrun', hcount'⟩ := machine_run (fun _ _ h => h) hrun
      refine in_flight_completed hrun' (block_machine hl hr.of_restrict) hlog hs ?_ ha
      have hle := drainMu_le cfg x.machine c
      rw [hcount']
      unfold budget at hcount
      omega
  launches := by
    intro c hc he hterm hs ls x' hrun hcount ha
    have hinv := sparedInv_reachable hr.of_restrict
    obtain ⟨as, hrun', -⟩ := machine_run (fun _ _ h => h) hrun
    rcases hinv.kept c hc he with hla | hp
    · exact run_launched hrun'.of_restrict (machine_reachable hr.of_restrict) hla
    · obtain ⟨n, hahead⟩ := ahead_of_mem hp (liveInv_reachable hr.of_restrict hterm)
      rcases calm_progress hr.of_restrict hahead hs hrun hcount ha with ⟨hla, -⟩ | ⟨-, hle⟩
      · exact hla
      · have hlt := hinv.idx c hc
        omega

/-! ## The two slips -/

/-- A command submitted before a drop-resume that has returned, and still on
its way to the hardware. -/
structure Undropped (cfg : Config) (x : AsyncXQueue) (c : HwCommand) : Prop where
  doomed : c ∈ x.doomed
  unlaunched : c ∉ x.machine.launched
  /-- until the next drop it is Completed only after a launch -/
  completed : ∀ ls x', ((lts cfg).restrict NoDrop).Run x ls x' →
    x'.machine.cmdState (.hardware c) = .completed → c ∈ x'.machine.launched
  running : x.machine.state = .running
  launched : x.terminated = false → ∀ ls x', ((lts cfg).restrict Calm).Run x ls x' →
    budget cfg x.machine < ls.countP XAct.isWorker → x'.machine.aborted = false →
    c ∈ x'.machine.launched

theorem undropped {c : HwCommand} (hr : (lts cfg).Reachable x) (hc : c ∈ x.doomed)
    (hp : .hardware c ∈ x.machine.pipeline) (hd : x.machine.dropIdx < c.idx)
    (hs : x.machine.state = .running) : Undropped cfg x c where
  doomed := hc
  unlaunched := (logInv_reachable (machine_reachable hr)).unlaunched hp
  completed := by
    intro ls x' hrun hdone
    obtain ⟨as, hrun', -⟩ := machine_run (fun _ _ h => h.2) hrun
    have hmr := machine_reachable hr
    have hkept := noDrop_kept hrun' hmr (fun _ => .inr hp) hd
    have hmr' := hmr.run hrun'.of_restrict
    rcases hkept.1 (run_enqueued hrun'.of_restrict hmr
      ((logInv_reachable hmr).pipeline_enqueued hp)) with hla | hp'
    · exact hla
    · rw [(logInv_reachable hmr').pipeline_pending hp'] at hdone; cases hdone
  running := hs
  launched := by
    intro hterm ls x' hrun hcount ha
    obtain ⟨n, hahead⟩ := ahead_of_mem hp (liveInv_reachable hr hterm)
    rcases calm_progress hr hahead hs hrun hcount ha with ⟨hla, -⟩ | ⟨-, hle⟩
    · exact hla
    · omega

theorem controller_resume {t : Nat} {call : ResumeCall} (hpc : x.ctrls t = .resumeWorker call)
    (hs : (lts cfg).step x (.controller t) x') :
    x' = resumeReturn t call { x with machine := resume x.machine } := by
  have h : step cfg x (.controller t) = some x' := hs
  unfold step at h
  split at h
  · cases h
  · simp only [stepCtrl, hpc] at h
    obtain ⟨x₁, h₁, rfl⟩ := Option.map_eq_some_iff.1 h
    obtain ⟨m, hm, rfl⟩ := onMachine_eq h₁
    rw [resume_eq hm]

theorem controller_resumeAndDrop {t : Nat} {call : ResumeCall} {d : Int}
    (hpc : x.ctrls t = .resumeAndDrop call d) (hs : (lts cfg).step x (.controller t) x') :
    x' = resumeReturn t call { x with machine := resumeAndDrop d x.machine } := by
  have h : step cfg x (.controller t) = some x' := hs
  unfold step at h
  split at h
  · cases h
  · simp only [stepCtrl, hpc] at h
    obtain ⟨x₁, h₁, rfl⟩ := Option.map_eq_some_iff.1 h
    obtain ⟨m, hm, rfl⟩ := onMachine_eq h₁
    rw [resumeAndDrop_eq hm]

theorem slip_undropped {act : XAct} (hr : (lts cfg).Reachable x) (hs : (lts cfg).step x act x')
    (hok : ¬ DropOk x act) : ∃ c, Undropped cfg x' c := by
  have hr' := hr.step hs
  have hcall := callInv_reachable hr
  unfold DropOk at hok
  push Not at hok
  obtain ⟨t, rfl, hslip⟩ := hok
  by_cases hblock : ∃ call, x.ctrls t = .resumeWorker call ∧ call.drops = true ∧
      ∃ c ∈ call.before, .hardware c ∈ x.machine.pipeline
  · obtain ⟨call, hpc, hdr, c, hc, hp⟩ := hblock
    have hl := (hcall t).pc
    rw [hpc] at hl
    have hfifo := fifoInv_reachable (block_machine (hl hdr) hr)
    have hx' := controller_resume hpc hs
    have hpos := hfifo.positive c ((hcall t).before call (by rw [hpc]; rfl) c hc)
    have hdrop := hfifo.dropIdx
    refine ⟨c, undropped hr' ?_ ?_ ?_ ?_⟩
    · rw [hx']
      show c ∈ if call.drops then x.doomed ++ call.before else x.doomed
      rw [if_pos hdr]; exact List.mem_append_right _ hc
    · rw [hx']; exact hp
    · rw [hx']
      show x.machine.dropIdx < c.idx
      omega
    · rw [hx']; rfl
  · have hstale : ∃ call d, x.ctrls t = .resumeAndDrop call d ∧
        ∃ c ∈ x.doomed, c ∈ x.machine.pc.hand ∧ d < c.idx := by
      refine hslip fun call hpc hdr c hc hp => hblock ⟨call, hpc, hdr, c, hc, hp⟩
    obtain ⟨call, d, hpc, c, hc, hh, hlt⟩ := hstale
    have hx' := controller_resumeAndDrop hpc hs
    rw [Preempt.resumeAndDrop_eq] at hx'
    refine ⟨c, undropped hr' ?_ ?_ ?_ ?_⟩
    · rw [hx']
      show c ∈ if call.drops then x.doomed ++ call.before else x.doomed
      split
      · exact List.mem_append_left _ hc
      · exact hc
    · rw [hx']; exact hand_pipeline (s := x.machine) hh
    · rw [hx']; exact hlt
    · rw [hx']; rfl

/-- **Drop-resume.** In runs without the two slips the promise holds in every
state; a step that slips leaves a command that was submitted before a
drop-resume, was not launched at its return, and will be. -/
theorem drop_resume (cfg : Config) :
    (∀ x, ((lts cfg).restrict DropOk).Reachable x → Dropped cfg x) ∧
    ∀ x act x', (lts cfg).Reachable x → (lts cfg).step x act x' → ¬ DropOk x act →
      ∃ c, Undropped cfg x' c :=
  ⟨fun _ hr => dropped_reachable hr, fun _ _ _ hr hs hok => slip_undropped hr hs hok⟩

/-- Enough for `DropOk`, and can be computed: a `Resume` that only resumes is
a plain one, and no drop-resume returned before the first. -/
def FirstDrop (x : AsyncXQueue) : XAct → Bool
  | .controller t =>
    match x.ctrls t with
    | .resumeWorker call => !call.drops
    | .resumeAndDrop _ _ => x.doomed.isEmpty
    | _ => true
  | _ => true

theorem firstDrop_ok {act : XAct} (h : FirstDrop x act = true) : DropOk x act := by
  rintro t rfl
  unfold FirstDrop at h
  refine ⟨fun call hpc hdr => ?_, fun call d hpc c hc => ?_⟩
  · simp only [hpc, hdr] at h
    cases h
  · simp only [hpc, List.isEmpty_iff] at h
    rw [h] at hc; cases hc

/-- A command is submitted, the queue is suspended and drop-resumed; `n` and
`m` count the steps of the two calls after their first. -/
def dropTrace (n m : Nat) : List XAct :=
  [XAct.submit 0 kCommandPropertyNone .hal, XAct.submitter 0, XAct.submitter 0, XAct.submitter 0,
    XAct.suspend 0 0] ++
  List.replicate n (XAct.controller 0) ++ [XAct.resume 0 kQueueResumeFlagDropCommands] ++
  List.replicate m (XAct.controller 0)

def cfgDeactivate : Config := { cfgOne with level := .deactivate }

/-- Under Deactivate the command is not launched by any continuation. -/
theorem drop_resume_deactivate : ∃ x, (lts cfgDeactivate).Reachable x ∧ x.doomed = [halCmd 1] ∧
    ∀ ls x', ((lts cfgDeactivate).restrict DropOk).Run x ls x' → halCmd 1 ∉ x'.machine.launched := by
  have htrace : ((LTS.exec (LTS.guarded (FirstDrop · · = true) (step cfgDeactivate)) init
      (dropTrace 5 6)).map fun x => (x.doomed, x.machine.launched)) = some ([halCmd 1], []) := by
    decide
  obtain ⟨x, hx, he⟩ := Option.map_eq_some_iff.1 htrace
  simp only [Prod.mk.injEq] at he
  have hr : ((lts cfgDeactivate).restrict (FirstDrop · · = true)).Reachable x :=
    LTS.reachable_restrict_of_exec rfl hx
  have hdropped := (drop_resume cfgDeactivate).1 x (hr.restrict_mono fun _ _ => firstDrop_ok)
  refine ⟨x, hr.of_restrict, he.1, fun ls x' hrun hla => ?_⟩
  have hold := hdropped.silent (halCmd 1) (by rw [he.1]; exact List.mem_cons_self) ls x' hrun hla
  rw [he.2] at hold; cases hold

/-- **Counterexample**: under Block the drop-resume returns with the command in
the buffer, and the worker launches it. -/
theorem drop_resume_launches :
    ¬ ∀ (cfg : Config) (x : AsyncXQueue), (lts cfg).Reachable x → ∀ c ∈ x.doomed, ∀ ls x',
      (lts cfg).Run x ls x' → c ∈ x'.machine.launched → c ∈ x.machine.launched := by
  intro h
  have htrace : ((LTS.exec (step cfgOne) init (dropTrace 4 3)).map fun x =>
      (x.doomed, x.machine.launched)) = some ([halCmd 1], []) := by decide
  have hmore : ((LTS.exec (step cfgOne) init (dropTrace 4 3)).bind fun x =>
      (LTS.exec (step cfgOne) x (List.replicate 7 (XAct.machine (.worker true)))).map fun x' =>
        x'.machine.launched) = some [halCmd 1] := by decide
  obtain ⟨x, hx, he⟩ := Option.map_eq_some_iff.1 htrace
  simp only [Prod.mk.injEq] at he
  rw [hx, Option.bind_some] at hmore
  obtain ⟨x', hx', hla⟩ := Option.map_eq_some_iff.1 hmore
  have hold := h cfgOne x (LTS.reachable_of_exec rfl hx) (halCmd 1)
    (by rw [he.1]; exact List.mem_cons_self) _ x' (LTS.run_of_exec hx')
    (by rw [hla]; exact List.mem_cons_self)
  rw [he.2] at hold; cases hold

end AsyncXQueue
end Xsched.Preempt
