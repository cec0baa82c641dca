import Xsched.Preempt.Course
import Xsched.Preempt.InFlight

/-!
# No command overtakes one that may run again

Deactivating a queue takes deactivatable commands off the hardware, to launch
them again later. A command with side effects, neither deactivatable nor
idempotent, must not have been launched behind one of those, or it ran before
what was submitted ahead of it.

`LaunchHwCommand` waits for the deactivatable commands in flight. What it waits
for stands at or behind the last of them (`Covering`), so every way back from
the wait leaves none in the log, and none comes back before the launch: while
the worker waits again, for a slot or for the end of a pause, the others only
take commands out of the log (`Fenced`).
-/
namespace Xsched.Preempt

def HwCommand.idempotent (c : HwCommand) : Bool :=
  c.getProps kCommandPropertyIdempotent != kCommandPropertyNone

/-- What a command that has to wait for deactivatable commands finds in flight. -/
def Clear (cfg : Config) (c : HwCommand) (s : State) : Prop :=
  waitDeactivatable cfg c = true → ∀ d ∈ s.cmdLog, d.deactivatable = false

/-- A wait for `t` is a wait for every deactivatable command in flight. -/
def Covering (s : State) : SyncTarget → Prop
  | .hwq => True
  | .cmd e => e ∈ s.launched ∧ ∀ d ∈ s.cmdLog, d.deactivatable = true → d.idx ≤ e.idx

/-- What the first wait of `LaunchHwCommand` is for, and what it leaves to the
second. -/
structure Fenced (cfg : Config) (s : State) : Prop where
  deactivatable : ∀ t c, s.pc.waiting = some (t, .deactivatable c) → Covering s t
  full : ∀ t c, s.pc.waiting = some (t, .full c) → Clear cfg c s
  launchWait : ∀ c, s.pc = .launchWait c → Clear cfg c s

variable {cfg : Config} {b : Bool} {c : HwCommand} {s s' : State}

theorem waitDeactivatable_of (hlevel : XPreemptLevel.deactivate.val ≤ cfg.level.val)
    (hd : c.deactivatable = false) (hi : c.idempotent = false) : waitDeactivatable cfg c = true := by
  have hd' : c.props &&& kCommandPropertyDeactivatable = kCommandPropertyNone := by
    simpa [HwCommand.deactivatable, HwCommand.getProps] using hd
  have hi' : c.props &&& kCommandPropertyIdempotent = kCommandPropertyNone := by
    simpa [HwCommand.idempotent, HwCommand.getProps] using hi
  have hor : c.getProps (kCommandPropertyDeactivatable ||| kCommandPropertyIdempotent) =
      kCommandPropertyNone := by
    rw [HwCommand.getProps, BitVec.and_or_distrib_left, hd', hi']
    rfl
  rw [waitDeactivatable, hor, decide_eq_true hlevel]
  rfl

theorem not_deactivatable (hw : waitDeactivatable cfg c = true) : c.deactivatable = false := by
  rw [waitDeactivatable, Bool.and_eq_true, beq_iff_eq, HwCommand.getProps,
    BitVec.and_or_distrib_left] at hw
  have hd : c.props &&& kCommandPropertyDeactivatable = 0 := (BitVec.or_eq_zero_iff.1 hw.2).1
  simp [HwCommand.deactivatable, HwCommand.getProps, hd, kCommandPropertyNone]

/-! ## The scan -/

/-- Every command in flight and every deactivatable one the scan comes to is at
or before the one that it picks. -/
theorem scanDeactivatable_covers {log : List HwCommand} {acc toSync : Option HwCommand}
    (hlog : log.Pairwise fun a b => b.idx < a.idx)
    (hacc : ∀ e, acc = some e → e ∈ s.cmdLog ∧ ∀ d ∈ log, d.idx ≤ e.idx) (hsub : log ⊆ s.cmdLog)
    (hscan : scanDeactivatable s log acc = (true, toSync)) :
    ∀ e, toSync = some e →
      e ∈ s.cmdLog ∧ ∀ d ∈ log, d.deactivatable = true → d.idx ≤ e.idx := by
  induction log generalizing acc with
  | nil => cases hscan
  | cons c cs ih =>
    obtain ⟨hc, hcs⟩ := List.pairwise_cons.1 hlog
    have hacc' : ∀ e, (if s.synchronizable c then some c else acc) = some e →
        e ∈ s.cmdLog ∧ ∀ d ∈ c :: cs, d.idx ≤ e.idx := by
      intro e he
      split at he
      · cases he
        refine ⟨hsub List.mem_cons_self, fun d hd => ?_⟩
        rcases List.mem_cons.1 hd with rfl | hd
        · exact Int.le_refl _
        · exact Int.le_of_lt (hc d hd)
      · exact hacc e he
    rw [scanDeactivatable] at hscan
    split at hscan
    · intro e he
      cases hscan
      obtain ⟨hmem, hle⟩ := hacc' e he
      exact ⟨hmem, fun d hd _ => hle d hd⟩
    · rename_i hcd
      intro e he
      obtain ⟨hmem, hle⟩ := ih hcs
        (fun e he => ⟨(hacc' e he).1, fun d hd => (hacc' e he).2 d (List.mem_cons_of_mem _ hd)⟩)
        (fun d hd => hsub (List.mem_cons_of_mem _ hd)) hscan e he
      refine ⟨hmem, fun d hd hdd => ?_⟩
      rcases List.mem_cons.1 hd with rfl | hd
      · exact absurd hdd hcd
      · exact hle d hd hdd

theorem scanDeactivatable_none {log : List HwCommand} {acc : Option HwCommand}
    (hscan : (scanDeactivatable s log acc).1 = false) : ∀ d ∈ log, d.deactivatable = false := by
  induction log generalizing acc with
  | nil => exact fun d hd => nomatch hd
  | cons c cs ih =>
    rw [scanDeactivatable] at hscan
    split at hscan
    · cases hscan
    · rename_i hcd
      intro d hd
      rcases List.mem_cons.1 hd with rfl | hd
      · simpa using hcd
      · exact ih hscan d hd

theorem scan_covering (hlog : LogInv s) (hinc : Increasing s.cmdLog) {toSync : Option HwCommand}
    (hscan : scanDeactivatable s s.cmdLog.reverse none = (true, toSync)) :
    Covering s (targetOf toSync) := by
  cases toSync with
  | none => trivial
  | some e =>
    obtain ⟨hmem, hle⟩ := scanDeactivatable_covers (List.pairwise_reverse.2 hinc)
      (fun _ he => by cases he)
      (fun d hd => List.mem_reverse.1 hd) hscan e rfl
    exact ⟨hlog.mem_launched hmem, fun d hd => hle d (List.mem_reverse.2 hd)⟩

/-! ## The end of the wait -/

/-- The wait ends without a `Synchronize`: what it is for left the log, and with
it everything that was launched before. -/
theorem Covering.ret {t : SyncTarget} (h : Covering s t) (hlog : LogInv s)
    (hinc : Increasing s.launched) (hs : s.state ≠ .terminated) (hret : syncLoop t s = .ret) :
    ∀ d ∈ s.cmdLog, d.deactivatable = false := by
  cases t with
  | hwq =>
    rw [(syncLoop_hwq_ret hret).resolve_right hs]
    exact fun d hd => nomatch hd
  | cmd e =>
    obtain ⟨hmem, hle⟩ := h
    have hdone : s.cmdState (.hardware e) = .completed := by
      simp only [syncLoop, syncCmdWithLock] at hret
      split at hret
      · assumption
      · split at hret
        · cases hret
        · cases hret
        · rename_i he
          exact absurd he hs
    have hout : e ∉ s.cmdLog := by
      intro hin
      rw [(hlog.inFlight e).2 hin] at hdone
      cases hdone
    obtain ⟨pre, hpre⟩ := hlog.suffix
    rw [← hpre] at hmem hinc
    have hepre : e ∈ pre := (List.mem_append.1 hmem).resolve_right hout
    intro d hd
    by_contra hdd
    have hlt := (List.pairwise_append.1 hinc).2.2 e hepre d hd
    have hge := hle d hd (by simpa using hdd)
    omega

/-- The wait ends after a `Synchronize`: the log loses all that it is for. -/
theorem Covering.finish {t : SyncTarget} (h : Covering s t) (hinc : Increasing s.cmdLog) :
    ∀ d ∈ (syncFinish t s).cmdLog, d.deactivatable = false := by
  cases t with
  | hwq =>
    rw [syncFinish, clearLogs_eq]
    intro d hd
    cases hd
  | cmd e =>
    rw [syncFinish, popLogs_eq]
    intro d hd
    rw [hinc.dropWhile_eq, List.mem_filter, decide_eq_true_eq] at hd
    by_contra hdd
    have hle := h.2 d hd.1 (by simpa using hdd)
    omega

/-! ## The launch -/

theorem Clear.mono (h : Clear cfg c s) (hsub : s'.cmdLog ⊆ s.cmdLog) : Clear cfg c s' :=
  fun hw d hd => h hw d (hsub hd)

theorem Covering.mono {t : SyncTarget} (h : Covering s t) (hl : s.launched ⊆ s'.launched)
    (hsub : s'.cmdLog ⊆ s.cmdLog) : Covering s' t := by
  cases t with
  | hwq => trivial
  | cmd e => exact ⟨hl h.1, fun d hd => h.2 d (hsub hd)⟩

theorem Fenced.mono (h : Fenced cfg s) (hpc : s'.pc.waiting = s.pc.waiting)
    (hpaused : ∀ c, s'.pc = .launchWait c → s.pc = .launchWait c) (hl : s.launched ⊆ s'.launched)
    (hsub : s'.cmdLog ⊆ s.cmdLog) : Fenced cfg s' where
  deactivatable t c hw := (h.deactivatable t c (by rw [← hpc]; exact hw)).mono hl hsub
  full t c hw := (h.full t c (by rw [← hpc]; exact hw)).mono hsub
  launchWait c hw := (h.launchWait c (hpaused c hw)).mono hsub

theorem fenced_elsewhere (h : ¬ InLaunch s.pc) : Fenced cfg s where
  deactivatable _ _ hw := absurd (.deactivatable hw) h
  full _ _ hw := absurd (.full hw) h
  launchWait c hw := absurd (hw ▸ .launchWait c) h

theorem Fenced.ofDeactivatable {t : SyncTarget} (hpc : s.pc.waiting = some (t, .deactivatable c))
    (hcov : Covering s t) : Fenced cfg s where
  deactivatable t' c' hw := by
    rw [hpc] at hw
    cases hw
    exact hcov
  full t' c' hw := by
    rw [hpc] at hw
    cases hw
  launchWait c' hw := by
    rw [hw] at hpc
    cases hpc

theorem Fenced.ofFull {t : SyncTarget} (hpc : s.pc.waiting = some (t, .full c))
    (hclear : Clear cfg c s) : Fenced cfg s where
  deactivatable t' c' hw := by
    rw [hpc] at hw
    cases hw
  full t' c' hw := by
    rw [hpc] at hw
    cases hw
    exact hclear
  launchWait c' hw := by
    rw [hw] at hpc
    cases hpc

theorem Fenced.ofLaunchWait (hpc : s.pc = .launchWait c) (hclear : Clear cfg c s) :
    Fenced cfg s where
  deactivatable t' c' hw := by
    rw [hpc] at hw
    cases hw
  full t' c' hw := by
    rw [hpc] at hw
    cases hw
  launchWait c' hw := by
    rw [hpc] at hw
    cases hw
    exact hclear

/-- A step that launches `c` leaves nothing deactivatable in flight if `c` had
to wait for that. -/
def LaunchesClear (cfg : Config) (s s' : State) : Prop :=
  ∀ c, s'.launched = s.launched ++ [c] → Clear cfg c s'

theorem launchesClear_of_eq (h : s'.launched = s.launched) : LaunchesClear cfg s s' := by
  intro c hc
  rw [h] at hc
  exact absurd hc.symm (by simp)

theorem launchesClear_launchOrDrop (b : Bool) (hclear : Clear cfg c s) :
    LaunchesClear cfg s (launchOrDrop cfg b c s) := by
  rcases (launchOrDrop_log cfg b c s).2 with ⟨hl, -⟩ | ⟨hl, hcl⟩
  · exact launchesClear_of_eq hl
  · intro c' hc' hw d hd
    rw [hl] at hc'
    have hcc : c = c' := by simpa using hc'
    subst hcc
    rw [hcl] at hd
    rcases List.mem_append.1 hd with hd | hd
    · exact hclear hw d hd
    · rw [List.mem_singleton.1 hd]
      exact not_deactivatable hw

/-- A pass through `LaunchHwCommand`, from one of its parts on. -/
theorem goes_fenced {p : Part} (h : Goes cfg b c p s s') (hlog : LogInv s)
    (hinc : Increasing s.launched) (hs : s.state ≠ .terminated)
    (hclear : p ≠ .deactivatable → Clear cfg c s) : Fenced cfg s' ∧ LaunchesClear cfg s s' := by
  have hcmd {s : State} (hlog : LogInv s) (hinc : Increasing s.launched) : Increasing s.cmdLog :=
    hinc.sublist hlog.suffix.sublist
  have hsub {s s' : State} (hsame : SameLogs s s') : s'.cmdLog ⊆ s.cmdLog := by
    rw [hsame.cmdLog]
    exact List.Subset.refl _
  induction h with
  | deactWait hw hscan hpc hsame =>
    have hcov := scan_covering hlog (hcmd hlog hinc) hscan
    refine ⟨.ofDeactivatable hpc (hcov.mono ?_ (hsub hsame)), launchesClear_of_eq hsame.launched⟩
    rw [hsame.launched]
    exact List.Subset.refl _
  | deactDone hw hscan hret h ih =>
    have hcov := scan_covering hlog (hcmd hlog hinc) hscan
    exact ih (hlog.congr hlog.pcOk rfl rfl rfl rfl rfl fun _ => rfl) hinc hs
      fun _ _ => hcov.ret hlog hinc hs hret
  | clear hscan h ih =>
    refine ih hlog hinc hs fun _ hw d hd => ?_
    exact scanDeactivatable_none (hscan hw) d (List.mem_reverse.2 hd)
  | fullWait hlen hpc hsame =>
    exact ⟨.ofFull hpc ((hclear nofun).mono (hsub hsame)), launchesClear_of_eq hsame.launched⟩
  | fullDone hlen hret h ih =>
    exact ih (hlog.congr hlog.pcOk rfl rfl rfl rfl rfl fun _ => rfl) hinc hs fun _ => hclear nofun
  | space hlen h ih => exact ih hlog hinc hs fun _ => hclear nofun
  | pausedWait hpc hsame =>
    exact ⟨.ofLaunchWait hpc ((hclear nofun).mono (hsub hsame)), launchesClear_of_eq hsame.launched⟩
  | running h ih => exact ih hlog hinc hs fun _ => hclear nofun
  | terminated ht => exact absurd ht hs
  | @launch s =>
    refine ⟨fenced_elsewhere ?_, launchesClear_launchOrDrop b (hclear nofun)⟩
    rw [(launchOrDrop_log cfg b c s).1]
    exact not_inLaunch nofun rfl

theorem worker_fenced (h : Fenced cfg s) (hlog : LogInv s) (hp : PauseInv s)
    (hinc : Increasing s.launched) (hstep : stepWorker cfg b s = some s') :
    Fenced cfg s' ∧ LaunchesClear cfg s s' := by
  have hcmd : Increasing s.cmdLog := hinc.sublist hlog.suffix.sublist
  cases worker_course hlog.pcOk hstep with
  | @launching c p t _ hl hat hgo =>
    have hs := hp.locks_not_terminated hl
    -- back from a `Synchronize` the worker goes on in what that left of the log
    have hsynced {k : SyncTarget} (hclear : Clear cfg c (syncFinish k s)) {p : Part}
        (hgo : Goes cfg b c p (syncFinish k s) s') : Fenced cfg s' ∧ LaunchesClear cfg s s' := by
      have hl := syncFinish_launched k s
      obtain ⟨hf, hlaunch⟩ := goes_fenced hgo (logInv_syncFinish hlog k) (by rw [hl]; exact hinc)
        (by rw [syncFinish_state]; exact hs) fun _ => hclear
      refine ⟨hf, fun c' hc' => hlaunch c' ?_⟩
      rw [hl]
      exact hc'
    cases hat with
    | locking hpc => exact goes_fenced hgo hlog hinc hs (absurd rfl)
    | launchWait hpc => exact goes_fenced hgo hlog hinc hs fun _ => h.launchWait c hpc
    | deactRet hpc hret =>
      exact goes_fenced hgo hlog hinc hs fun _ _ => (h.deactivatable _ c hpc).ret hlog hinc hs hret
    | deactSynced hpc => exact hsynced (fun _ => (h.deactivatable _ c hpc).finish hcmd) hgo
    | fullRet hpc hret => exact goes_fenced hgo hlog hinc hs fun _ => h.full _ c hpc
    | @fullSynced k hpc =>
      exact hsynced ((h.full _ c hpc).mono (syncFinish_suffix k s).subset) hgo
  | waits hpc hw hsame =>
    refine ⟨h.mono hpc (fun c hc => ?_) ?_ ?_, launchesClear_of_eq hsame.launched⟩
    · rw [← hpc, hc] at hw
      cases hw
    · rw [hsame.launched]
      exact List.Subset.refl _
    · rw [hsame.cmdLog]
      exact List.Subset.refl _
  | elsewhere ht hpc hsame =>
    exact ⟨fenced_elsewhere hpc, launchesClear_of_eq (hsame.launched.trans (launched_left ht))⟩

theorem step_fenced {act : Act} (h : Fenced cfg s) (hlog : LogInv s) (hp : PauseInv s)
    (hinc : Increasing s.launched) (hstep : step cfg s act = some s') :
    Fenced cfg s' ∧ LaunchesClear cfg s s' := by
  rcases course_cases hlog.pcOk hstep with ⟨b, -, hstep⟩ | ⟨hpc, t, ht, hsame⟩
  · exact worker_fenced h hlog hp hinc hstep
  · have hl : s'.launched = s.launched := hsame.launched.trans (launched_left ht)
    have hsub : s'.cmdLog ⊆ s.cmdLog := by
      rw [hsame.cmdLog]
      exact (cmdLog_left ht).subset
    refine ⟨h.mono (by rw [hpc]) (fun c hc => hpc ▸ hc) ?_ hsub, launchesClear_of_eq hl⟩
    rw [hl]
    exact List.Subset.refl _

theorem increasing_launched (hr : ((lts cfg).restrict InOrder).Reachable s) :
    Increasing s.launched :=
  (increasing_reachable hr).sublist (logInv_reachable hr.of_restrict).launched_sublist

theorem fenced_reachable (hr : ((lts cfg).restrict InOrder).Reachable s) : Fenced cfg s := by
  refine LTS.reachable_induction (I := Fenced cfg) ?_ ?_ hr
  · rintro s rfl
    exact fenced_elsewhere (not_inLaunch nofun rfl)
  · intro s act s' hr h hs
    have hreach := hr.of_restrict
    exact (step_fenced h (logInv_reachable hreach) (pauseInv_reachable hreach)
      (increasing_launched hr) hs.1).1

/-! ## In every state -/

/-- Whatever was launched before a command with side effects and may be
deactivated is completed. -/
def SideEffectsLast (cfg : Config) (s : State) : Prop :=
  ∀ pre c post, s.launched = pre ++ c :: post → waitDeactivatable cfg c = true →
    ∀ d ∈ pre, d.deactivatable = true → s.cmdState (.hardware d) = .completed

theorem step_sideEffectsLast {act : Act} (h : SideEffectsLast cfg s) (hlog : LogInv s)
    (hlog' : LogInv s') (ht : Step s act s') (hclear : LaunchesClear cfg s s') :
    SideEffectsLast cfg s' := by
  intro pre c post he hw d hd hdd
  rcases step_launches ht with hl | ⟨e, hl⟩
  · rw [hl] at he
    exact completed_stays hlog ht (h pre c post he hw d hd hdd)
  · rw [hl] at he
    rcases List.eq_nil_or_concat post with rfl | ⟨post, x, rfl⟩
    · obtain ⟨rfl, hec⟩ := List.append_inj' he rfl
      cases hec
      have hin : d ∈ s'.launched := by
        rw [hl]
        exact List.mem_append_left _ hd
      refine (hlog'.done d hin).resolve_left fun hlogged => ?_
      rw [hclear c hl hw d hlogged] at hdd
      cases hdd
    · rw [List.concat_eq_append, ← List.cons_append, ← List.append_assoc] at he
      obtain ⟨he, -⟩ := List.append_inj' he rfl
      exact completed_stays hlog ht (h pre c post he hw d hd hdd)

theorem sideEffectsLast_reachable (hr : ((lts cfg).restrict InOrder).Reachable s) :
    SideEffectsLast cfg s := by
  refine LTS.reachable_induction (I := SideEffectsLast cfg) ?_ ?_ hr
  · rintro s rfl pre c post he
    exact absurd he (by simp [init])
  · intro s act s' hr h hs
    have hreach := hr.of_restrict
    have hlog := logInv_reachable hreach
    exact step_sideEffectsLast h hlog (logInv_reachable (hreach.step hs.1))
      (step_of_reachable hreach hs.1) (step_fenced (fenced_reachable hr) hlog
        (pauseInv_reachable hreach) (increasing_launched hr) hs.1).2

/-- **No command overtakes one that may run again.** At `Deactivate` and above,
with increasing indices: a step that launches a command with side effects finds
every deactivatable command launched before it completed and leaves none in the
log; and in every state the deactivatable commands launched before it are
completed, so that no deactivation can take one of them back. -/
theorem no_overtaking (hlevel : XPreemptLevel.deactivate.val ≤ cfg.level.val)
    (hr : ((lts cfg).restrict InOrder).Reachable s) :
    (∀ act s' c, (lts cfg).step s act s' → s'.launched = s.launched ++ [c] →
      c.deactivatable = false → c.idempotent = false →
      (∀ d ∈ s.launched, d.deactivatable = true → s'.cmdState (.hardware d) = .completed) ∧
      ∀ d ∈ s'.cmdLog, d.deactivatable = false) ∧
    ∀ pre c post, s.launched = pre ++ c :: post → c.deactivatable = false →
      c.idempotent = false → ∀ d ∈ pre, d.deactivatable = true →
      s.cmdState (.hardware d) = .completed ∧ d ∉ s.cmdLog := by
  have hreach := hr.of_restrict
  have hlog := logInv_reachable hreach
  refine ⟨fun act s' c hs hl hcd hci => ?_, fun pre c post he hcd hci d hd hdd => ?_⟩
  · have hw := waitDeactivatable_of hlevel hcd hci
    have hclear := (step_fenced (fenced_reachable hr) hlog (pauseInv_reachable hreach)
      (increasing_launched hr) hs).2 c hl hw
    have hlog' := logInv_reachable (hreach.step hs)
    refine ⟨fun d hd hdd => ?_, hclear⟩
    have hin : d ∈ s'.launched := by
      rw [hl]
      exact List.mem_append_left _ hd
    refine (hlog'.done d hin).resolve_left fun hlogged => ?_
    rw [hclear d hlogged] at hdd
    cases hdd
  · have hdone := sideEffectsLast_reachable hr pre c post he (waitDeactivatable_of hlevel hcd hci)
      d hd hdd
    refine ⟨hdone, fun hin => ?_⟩
    rw [(hlog.inFlight d).2 hin] at hdone
    cases hdone

/-- A HAL command that may be deactivated. -/
def deactivatableCmd (idx : Int) : HwCommand := ⟨idx, kCommandPropertyDeactivatable, .hal⟩

def cfgFence : Config := ⟨.deactivate, 2, 1, Nat.le_succ 1, Nat.one_pos⟩

/-- Command 2 has side effects and is submitted while command 1, which may be
deactivated, is in flight. -/
def fenceTrace : List Act :=
  List.replicate 4 (Act.worker true) ++ [Act.submit (deactivatableCmd 1)] ++
  List.replicate 3 (Act.worker true) ++ [Act.submit (halCmd 2)] ++
  List.replicate 6 (Act.worker true)

theorem no_overtaking_fence : ∃ s : State, s.launched = [deactivatableCmd 1, halCmd 2] ∧
    s.cmdState (.hardware (deactivatableCmd 1)) = .completed ∧
      deactivatableCmd 1 ∉ s.cmdLog := by
  have htrace : ((LTS.exec (LTS.guarded InOrder (step cfgFence)) init fenceTrace).map fun s =>
      s.launched) = some [deactivatableCmd 1, halCmd 2] := by decide
  obtain ⟨s, hs, he⟩ := Option.map_eq_some_iff.1 htrace
  have h := no_overtaking (by decide) (LTS.reachable_restrict_of_exec rfl hs)
  exact ⟨s, he, h.2 [deactivatableCmd 1] (halCmd 2) [] he rfl rfl _ List.mem_cons_self rfl⟩

end Xsched.Preempt
