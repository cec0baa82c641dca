import Xsched.Preempt.Course
import Xsched.Preempt.InFlight

/-!
# Batches keep the waits short

The worker enables synchronization for the last command of each batch. A log
that reached the threshold, which is at least a batch, then holds a
synchronizable command: the wait for an empty slot is a wait for that one, and
never for the whole HwQueue.

What holds this together is the distance from the last synchronizable index:
every launched command is less than a batch ahead of it, whether or not the
command with that index is still in the log (`Batched`). A log without a
synchronizable command lies behind it, so it is shorter than a batch
(`full_synchronizable`).
-/
namespace Xsched.Preempt

/-- What `EnableSynchronization` returns; `b` is the answer to a HAL command.
mirrors preempt/include/xsched/preempt/hal/hw_command.h:87 and
platforms/cuda/hal/include/xsched/cuda/hal/common/cuda_command.h:166 -/
def HwCommand.enableSynchronization (b : Bool) (c : HwCommand) : Bool :=
  match c.kind with
  | .callback => false
  | .hal => b
  | .eventRecord _ => true

/-- `EnableSynchronization` succeeds if the step calls it: on the command it
launches, a batch or more behind the last synchronizable one. -/
def Enables (cfg : Config) (s : State) : Act → Prop
  | .worker b => ∀ s' ∈ stepWorker cfg b s, ∀ c ∈ s'.launched.drop s.launched.length,
      (cfg.batchSize : Int) ≤ c.idx - s.lastSynchronizableIdx → c.enableSynchronization b = true
  | _ => True

instance (cfg : Config) (s : State) : (act : Act) → Decidable (Enables cfg s act)
  | .worker b => inferInstanceAs (Decidable (∀ s' ∈ stepWorker cfg b s,
      ∀ c ∈ s'.launched.drop s.launched.length,
        (cfg.batchSize : Int) ≤ c.idx - s.lastSynchronizableIdx → c.enableSynchronization b = true))
  | .app _ | .wait _ _ | .submit _ | .enqueueHostFunction | .enqueueDestroy | .enqueueWaitAll
  | .dropAll | .pause | .resume | .resumeAndDrop _ => isTrue trivial

/-- The indices increase and every `EnableSynchronization` succeeds. -/
def InBatches (cfg : Config) (s : State) (act : Act) : Prop := InOrder s act ∧ Enables cfg s act

instance (cfg : Config) (s : State) (act : Act) : Decidable (InBatches cfg s act) :=
  inferInstanceAs (Decidable (_ ∧ _))

structure Batched (cfg : Config) (s : State) : Prop where
  sync : s.syncCmdLog = s.cmdLog.filter s.synchronizable
  ahead : ∀ c ∈ s.launched, c.idx < s.lastSynchronizableIdx + cfg.batchSize
  last : s.lastSynchronizableIdx = -1 ∨
    ∃ x ∈ s.launched, s.synchronizable x = true ∧ x.idx = s.lastSynchronizableIdx

/-- The worker does not wait for the HwQueue to get an empty slot. -/
def NoFallback (s : State) : Prop := ∀ c, s.pc.waiting ≠ some (.hwq, .full c)

variable {cfg : Config} {b : Bool} {c : HwCommand} {s s' : State}

theorem enableSynchronization_spec (h : c.enableSynchronization b = true) (s : State) :
    (enableSynchronization b c s).synchronizable c = true := by
  unfold HwCommand.enableSynchronization at h
  unfold State.synchronizable
  cases hk : c.kind with
  | callback =>
    rw [hk] at h
    cases h
  | hal =>
    rw [hk] at h
    dsimp only at h ⊢
    rw [h]
    simp [enableSynchronization]
  | eventRecord event => rfl

theorem synchronizable_congr (h : s'.syncEnabled = s.syncEnabled) :
    s'.synchronizable = s.synchronizable := by
  funext c
  rw [State.synchronizable, State.synchronizable, h]

/-- Enabling one command makes no difference to the others. -/
theorem synchronizable_enable {d : HwCommand} (hd : d ≠ c) :
    (enableSynchronization b c s).synchronizable d = s.synchronizable d := by
  simp only [State.synchronizable, enableSynchronization, Function.update_of_ne hd]

/-! ## A full log -/

/-- Strictly increasing indices: the last is at least as far behind the first as
there are commands between. -/
theorem Increasing.span {front : HwCommand} {rest : List HwCommand} (h : Increasing (front :: rest)) :
    ∃ z ∈ front :: rest, front.idx + rest.length ≤ z.idx := by
  induction rest generalizing front with
  | nil => exact ⟨front, List.mem_cons_self, by simp⟩
  | cons x rest ih =>
    obtain ⟨hfront, hrest⟩ := List.pairwise_cons.1 h
    obtain ⟨z, hz, hle⟩ := ih hrest
    refine ⟨z, List.mem_cons_of_mem _ hz, ?_⟩
    have hlt := hfront x List.mem_cons_self
    rw [List.length_cons]
    omega

/-- A log of a batch or more holds a synchronizable command. -/
theorem Batched.synchronizable (h : Batched cfg s) (hlog : LogInv s) (hinc : Increasing s.launched)
    (hpos : ∀ d ∈ s.launched, 0 < d.idx) (hlen : cfg.batchSize ≤ s.cmdLog.length) :
    ∃ d ∈ s.cmdLog, s.synchronizable d = true := by
  by_contra hno
  have hnone : ∀ d ∈ s.cmdLog, s.synchronizable d ≠ true := fun d hd hs => hno ⟨d, hd, hs⟩
  cases hl : s.cmdLog with
  | nil =>
    have hb := cfg.batch_pos
    rw [hl, List.length_nil] at hlen
    omega
  | cons front rest =>
    have hfront : s.lastSynchronizableIdx < front.idx := by
      have hin : front ∈ s.cmdLog := by
        rw [hl]
        exact List.mem_cons_self
      rcases h.last with hlast | ⟨x, hx, hsync, hidx⟩
      · have hp := hpos front (hlog.mem_launched hin)
        omega
      · -- the last synchronizable command left the log before its front came in
        have hout : x ∉ s.cmdLog := fun hxl => hnone x hxl hsync
        obtain ⟨pre, hpre⟩ := hlog.suffix
        rw [← hpre] at hx hinc
        have hxpre : x ∈ pre := (List.mem_append.1 hx).resolve_right hout
        rw [← hidx]
        exact (List.pairwise_append.1 hinc).2.2 x hxpre front hin
    have hcmd : Increasing (front :: rest) := hl ▸ hinc.sublist hlog.suffix.sublist
    obtain ⟨z, hz, hspan⟩ := hcmd.span
    have hahead := h.ahead z (hlog.mem_launched (hl ▸ hz))
    rw [hl, List.length_cons] at hlen
    omega

/-- What is known where `LaunchHwCommand` takes or has the lock. -/
structure Ready (cfg : Config) (s : State) : Prop where
  batched : Batched cfg s
  log : LogInv s
  inc : Increasing s.launched
  pos : ∀ d ∈ s.launched, 0 < d.idx

theorem Ready.abort (h : Ready cfg s) (a : Bool) : Ready cfg { s with aborted := a } :=
  ⟨⟨h.batched.sync, h.batched.ahead, h.batched.last⟩, h.log.abort a, h.inc, h.pos⟩

/-- **A full log is waited for command by command**: some synchronizable command
is not older than its front. -/
theorem Ready.fullTarget (h : Ready cfg s) (hlen : cfg.threshold ≤ s.cmdLog.length) :
    ∃ front rest d, s.cmdLog = front :: rest ∧ d ∈ s.syncCmdLog ∧ front.idx ≤ d.idx ∧
      fullTarget s = .cmd d := by
  obtain ⟨x, hx, hsync⟩ := h.batched.synchronizable h.log h.inc h.pos
    (Nat.le_trans cfg.batch_le hlen)
  cases hl : s.cmdLog with
  | nil =>
    rw [hl] at hx
    cases hx
  | cons front rest =>
    have hxs : x ∈ s.syncCmdLog := by
      rw [h.batched.sync]
      exact List.mem_filter.2 ⟨hx, hsync⟩
    have hle : front.idx ≤ x.idx := by
      have hcmd : Increasing (front :: rest) := hl ▸ h.inc.sublist h.log.suffix.sublist
      rw [hl] at hx
      rcases List.mem_cons.1 hx with rfl | hx
      · exact Int.le_refl _
      · exact Int.le_of_lt ((List.pairwise_cons.1 hcmd).1 x hx)
    unfold Preempt.fullTarget
    rw [hl]
    dsimp only
    cases hf : s.syncCmdLog.find? fun c => decide (front.idx ≤ c.idx) with
    | none => exact absurd (List.find?_eq_none.1 hf x hxs) (by simpa using hle)
    | some d =>
      have hd : front.idx ≤ d.idx := by simpa using List.find?_some hf
      exact ⟨front, rest, d, rfl, List.mem_of_find?_eq_some hf, hd, rfl⟩

/-! ## What keeps it -/

theorem Batched.congr (h : Batched cfg s) (hs : SameLogs s s') : Batched cfg s' := by
  have hsync := synchronizable_congr hs.syncEnabled
  refine ⟨?_, ?_, ?_⟩
  · rw [hs.syncCmdLog, hs.cmdLog, hsync]
    exact h.sync
  · rw [hs.launched, hs.last]
    exact h.ahead
  · rw [hs.launched, hs.last, hsync]
    exact h.last

/-- A wait that succeeds pops the same commands from both logs. -/
theorem Batched.finish (h : Batched cfg s) (hinc : Increasing s.cmdLog) (t : SyncTarget) :
    Batched cfg (syncFinish t s) := by
  cases t with
  | hwq =>
    rw [syncFinish, clearLogs_eq]
    exact ⟨rfl, h.ahead, h.last⟩
  | cmd d =>
    rw [syncFinish, popLogs_eq]
    refine ⟨?_, h.ahead, h.last⟩
    have hsub : Increasing (s.cmdLog.filter s.synchronizable) := hinc.sublist List.filter_sublist
    show (s.syncCmdLog.dropWhile fun c => decide (c.idx ≤ d.idx)) =
      (s.cmdLog.dropWhile fun c => decide (c.idx ≤ d.idx)).filter s.synchronizable
    rw [h.sync, hsub.dropWhile_eq, hinc.dropWhile_eq, List.filter_filter, List.filter_filter]
    refine List.filter_congr fun c _ => ?_
    exact Bool.and_comm _ _

theorem Batched.launch (h : Batched cfg s) (hlog : LogInv s) (hnew : ∀ d ∈ s.launched, d.idx < c.idx)
    (hpos : 0 < c.idx) {u : State} (hu : u.launched = s.launched ++ [c])
    (hcmd : u.cmdLog = s.cmdLog ++ [c])
    (hkeep : ∀ d, d ≠ c → u.synchronizable d = s.synchronizable d)
    (hon : (cfg.batchSize : Int) ≤ c.idx - s.lastSynchronizableIdx → u.synchronizable c = true)
    (hsync : u.syncCmdLog = s.syncCmdLog ++ if u.synchronizable c then [c] else [])
    (hlast : u.lastSynchronizableIdx =
      if u.synchronizable c then c.idx else s.lastSynchronizableIdx) : Batched cfg u := by
  have hne : ∀ d ∈ s.launched, d ≠ c := by
    rintro d hd rfl
    exact Int.lt_irrefl _ (hnew d hd)
  have hbatch := cfg.batch_pos
  have hfilter : s.cmdLog.filter u.synchronizable = s.cmdLog.filter s.synchronizable :=
    List.filter_congr fun d hd => hkeep d (hne d (hlog.mem_launched hd))
  -- the last synchronizable index is behind every new one
  have hbehind : s.lastSynchronizableIdx < c.idx := by
    rcases h.last with hl | ⟨x, hx, -, hidx⟩
    · omega
    · rw [← hidx]
      exact hnew x hx
  refine ⟨?_, fun d hd => ?_, ?_⟩
  · rw [hsync, hcmd, List.filter_append, hfilter, ← h.sync, List.filter_singleton]
    cases u.synchronizable c <;> rfl
  · rw [hu] at hd
    rw [hlast]
    rcases List.mem_append.1 hd with hd | hd
    · have hahead := h.ahead d hd
      split <;> omega
    · rw [List.mem_singleton.1 hd]
      split
      · omega
      · rename_i hoff
        have hlt : ¬ (cfg.batchSize : Int) ≤ c.idx - s.lastSynchronizableIdx :=
          fun hle => hoff (hon hle)
        omega
  · rw [hlast, hu]
    split
    · rename_i hsc
      exact Or.inr ⟨c, List.mem_append_right _ List.mem_cons_self, hsc, rfl⟩
    · rcases h.last with hl | ⟨x, hx, hsx, hidx⟩
      · exact Or.inl hl
      · exact Or.inr ⟨x, List.mem_append_left _ hx, by rw [hkeep x (hne x hx)]; exact hsx, hidx⟩

/-- What a launch writes. -/
theorem launchOrDrop_launch (cfg : Config) (b : Bool) (c : HwCommand) {s u : State}
    (hd : s.dropIdx < c.idx) (hu : u = launchOrDrop cfg b c s) :
    u.launched = s.launched ++ [c] ∧ u.cmdLog = s.cmdLog ++ [c] ∧
      (u.syncEnabled = if (cfg.batchSize : Int) ≤ c.idx - s.lastSynchronizableIdx
        then (enableSynchronization b c s).syncEnabled else s.syncEnabled) ∧
      (u.syncCmdLog = s.syncCmdLog ++ if u.synchronizable c then [c] else []) ∧
      u.lastSynchronizableIdx = if u.synchronizable c then c.idx else s.lastSynchronizableIdx := by
  subst hu
  have henable : (if (cfg.batchSize : Int) ≤ c.idx - s.lastSynchronizableIdx
      then enableSynchronization b c s else s) =
      { s with syncEnabled := if (cfg.batchSize : Int) ≤ c.idx - s.lastSynchronizableIdx
        then (enableSynchronization b c s).syncEnabled else s.syncEnabled } := by
    split <;> rfl
  unfold launchOrDrop
  rw [if_neg (Int.not_le.2 hd), henable]
  generalize (if (cfg.batchSize : Int) ≤ c.idx - s.lastSynchronizableIdx
    then (enableSynchronization b c s).syncEnabled else s.syncEnabled) = enabled
  dsimp only
  -- what is tested and what is recorded differ in fields that `synchronizable` does not read
  have hread {t u : State} (he : t.syncEnabled = u.syncEnabled) :
      t.synchronizable c = u.synchronizable c := congrFun (synchronizable_congr he) c
  split
  · rename_i hsc
    refine ⟨rfl, rfl, rfl, ?_, ?_⟩
    · exact congrArg (s.syncCmdLog ++ ·) (if_pos ((hread rfl).trans hsc)).symm
    · exact (if_pos ((hread rfl).trans hsc)).symm
  · exact ⟨rfl, rfl, rfl, (List.append_nil _).symm, rfl⟩

theorem batched_launchOrDrop (h : Batched cfg s) (hlog : LogInv s)
    (hnew : ∀ d ∈ s.launched, d.idx < c.idx) (hpos : 0 < c.idx)
    (henable : s.dropIdx < c.idx → (cfg.batchSize : Int) ≤ c.idx - s.lastSynchronizableIdx →
      c.enableSynchronization b = true) : Batched cfg (launchOrDrop cfg b c s) := by
  by_cases hd : c.idx ≤ s.dropIdx
  · rw [launchOrDrop, if_pos hd]
    exact h.congr ⟨rfl, rfl, rfl, rfl, rfl⟩
  · have hd : s.dropIdx < c.idx := Int.not_le.1 hd
    obtain ⟨hl, hcmd, he, hsync, hlast⟩ := launchOrDrop_launch cfg b c hd rfl
    refine h.launch hlog hnew hpos hl hcmd (fun d hdc => ?_) (fun hbatch => ?_) hsync hlast
    · split at he
      · rw [synchronizable_congr he, synchronizable_enable hdc]
      · rw [synchronizable_congr he]
    · rw [if_pos hbatch] at he
      rw [synchronizable_congr he]
      exact enableSynchronization_spec (henable hd hbatch) s

theorem noFallback_elsewhere (h : ¬ InLaunch s.pc) : NoFallback s := fun _ hw => h (.full hw)

/-- A pass through `LaunchHwCommand`, from one of its parts on. -/
theorem goes_batched {p : Part} (h : Goes cfg b c p s s') (hr : Ready cfg s)
    (hs : s.state ≠ .terminated) (hnew : ∀ d ∈ s.launched, d.idx < c.idx) (hpos : 0 < c.idx)
    (henable : s'.launched = s.launched ++ [c] →
      (cfg.batchSize : Int) ≤ c.idx - s.lastSynchronizableIdx →
      c.enableSynchronization b = true) : Batched cfg s' ∧ NoFallback s' := by
  induction h with
  | deactWait hw hscan hpc hsame =>
    refine ⟨hr.batched.congr hsame, fun c' hw' => ?_⟩
    rw [hpc, Option.some.injEq, Prod.mk.injEq] at hw'
    cases hw'.2
  | deactDone hw hscan hret h ih => exact ih (hr.abort _) hs hnew henable
  | clear hclear h ih => exact ih hr hs hnew henable
  | fullWait hlen hpc hsame =>
    obtain ⟨front, rest, d, -, -, -, htgt⟩ := hr.fullTarget hlen
    refine ⟨hr.batched.congr hsame, fun c' hw' => ?_⟩
    rw [hpc, htgt] at hw'
    cases hw'
  | fullDone hlen hret h ih => exact ih (hr.abort _) hs hnew henable
  | space hlen h ih => exact ih hr hs hnew henable
  | pausedWait hpc hsame =>
    refine ⟨hr.batched.congr hsame, fun c' hw' => ?_⟩
    rw [hpc] at hw'
    cases hw'
  | running h ih => exact ih hr hs hnew henable
  | terminated ht => exact absurd ht hs
  | @launch s =>
    refine ⟨batched_launchOrDrop hr.batched hr.log hnew hpos fun hd => ?_, ?_⟩
    · exact henable (launchOrDrop_launched hd)
    · refine noFallback_elsewhere ?_
      rw [(launchOrDrop_log cfg b c s).1]
      exact not_inLaunch nofun rfl

theorem Ready.finish (h : Ready cfg s) (t : SyncTarget) : Ready cfg (syncFinish t s) := by
  have hl := syncFinish_launched t s
  refine ⟨h.batched.finish (h.inc.sublist h.log.suffix.sublist) t, logInv_syncFinish h.log t, ?_, ?_⟩
  · rw [hl]
    exact h.inc
  · rw [hl]
    exact h.pos

theorem Ready.left {t : State} (h : Ready cfg s) (ht : t = s ∨ ∃ k, t = syncFinish k s) :
    Ready cfg t := by
  rcases ht with rfl | ⟨k, rfl⟩
  · exact h
  · exact h.finish k

theorem syncFinish_last (t : SyncTarget) (s : State) :
    (syncFinish t s).lastSynchronizableIdx = s.lastSynchronizableIdx := by
  cases t
  · rw [syncFinish, clearLogs_eq]
  · rw [syncFinish, popLogs_eq]

theorem worker_batched (h : Ready cfg s) (hf : NoFallback s) (hp : PauseInv s)
    (hinc : Increasing s.enqueued) (hpos : ∀ d ∈ s.enqueued, 0 < d.idx)
    (hstep : stepWorker cfg b s = some s') (henable : Enables cfg s (.worker b)) :
    Batched cfg s' ∧ NoFallback s' := by
  cases worker_course h.log.pcOk hstep with
  | @launching c p t _ hl hat hgo =>
    have hhand : s.pc.hand = [c] := by
      rw [WorkerPc.hand_eq (WorkerPc.locks_cmd hl)]
      rfl
    have hsub : (s.launched ++ [c]).Sublist s.enqueued := by
      have hconserve := h.log.conserve
      rw [hhand] at hconserve
      exact (List.sublist_append_left _ _).trans hconserve
    have hnew : ∀ d ∈ s.launched, d.idx < c.idx := fun d hd =>
      (List.pairwise_append.1 (hinc.sublist hsub)).2.2 d hd c List.mem_cons_self
    have hcpos := hpos c (hsub.subset (List.mem_append_right _ List.mem_cons_self))
    have hs := hp.locks_not_terminated hl
    have hcall (hla : s'.launched = s.launched ++ [c])
        (hbatch : (cfg.batchSize : Int) ≤ c.idx - s.lastSynchronizableIdx) :
        c.enableSynchronization b = true := by
      refine henable s' hstep c ?_ hbatch
      rw [hla, List.drop_left]
      exact List.mem_cons_self
    rcases hat.eq with rfl | ⟨k, rfl⟩
    · exact goes_batched hgo h hs hnew hcpos hcall
    · refine goes_batched hgo (h.finish k) ?_ ?_ hcpos ?_
      · rw [syncFinish_state]
        exact hs
      · rw [syncFinish_launched]
        exact hnew
      · rw [syncFinish_launched, syncFinish_last]
        exact hcall
  | waits hpc hw hsame =>
    refine ⟨h.batched.congr hsame, fun c hc => hf c ?_⟩
    rw [← hpc]
    exact hc
  | elsewhere ht hpc hsame => exact ⟨(h.left ht).batched.congr hsame, noFallback_elsewhere hpc⟩

theorem step_batched {act : Act} (h : Ready cfg s) (hf : NoFallback s) (hp : PauseInv s)
    (hinc : Increasing s.enqueued) (hpos : ∀ d ∈ s.enqueued, 0 < d.idx)
    (hstep : step cfg s act = some s') (henable : Enables cfg s act) :
    Batched cfg s' ∧ NoFallback s' := by
  rcases course_cases h.log.pcOk hstep with ⟨b, rfl, hworker⟩ | ⟨hpc, t, ht, hsame⟩
  · exact worker_batched h hf hp hinc hpos hworker henable
  · exact ⟨(h.left ht).batched.congr hsame, fun c hc => hf c (hpc ▸ hc)⟩

/-! ## In every state -/

theorem positive_reachable (hr : (lts cfg).Reachable s) : ∀ d ∈ s.enqueued, 0 < d.idx := by
  refine LTS.reachable_induction (I := fun s => ∀ d ∈ s.enqueued, 0 < d.idx) ?_ ?_ hr
  · rintro s rfl d hd
    cases hd
  · intro s act s' hr h hs d hd
    have ht := step_of_reachable hr hs
    rw [step_enqueued ht] at hd
    rcases List.mem_append.1 hd with hd | hd
    · exact h d hd
    · cases ht with
      | submit c hidx hc =>
        rw [List.mem_singleton.1 hd]
        exact hidx
      | enqueueOther act x hx =>
        rcases hx with ⟨rfl, -⟩ | ⟨rfl, -⟩ <;> cases hd
      | _ => cases hd

theorem ready_of (hr : ((lts cfg).restrict (InBatches cfg)).Reachable s) (h : Batched cfg s) :
    Ready cfg s := by
  have hreach := hr.of_restrict
  have hlog := logInv_reachable hreach
  have hinc := increasing_reachable (hr.restrict_mono fun s act hok => hok.1)
  exact ⟨h, hlog, hinc.sublist hlog.launched_sublist,
    fun d hd => positive_reachable hreach d (hlog.launched_sublist.subset hd)⟩

theorem batched_reachable (hr : ((lts cfg).restrict (InBatches cfg)).Reachable s) :
    Ready cfg s ∧ NoFallback s := by
  have hinv : Batched cfg s ∧ NoFallback s := by
    refine LTS.reachable_induction (I := fun s => Batched cfg s ∧ NoFallback s) ?_ ?_ hr
    · rintro s rfl
      exact ⟨⟨rfl, nofun, Or.inl rfl⟩, nofun⟩
    · intro s act s' hr h hs
      have hreach := hr.of_restrict
      exact step_batched (ready_of hr h.1) h.2 (pauseInv_reachable hreach)
        (increasing_reachable (hr.restrict_mono fun s act hok => hok.1))
        (positive_reachable hreach) hs.1 hs.2.2
  exact ⟨ready_of hr hinv.1, hinv.2⟩

/-- **Bounded and cheap to wait for.** With increasing indices and every
`EnableSynchronization` succeeding, in every reachable state: the log holds at
most `threshold` commands; the other log holds the synchronizable ones among
them; wherever `LaunchHwCommand` finds the log full, that has one not older than
the front and is waited for with `SyncCmdWithLock`, so that no wait for a slot
is for the HwQueue; and a launch finds a slot free. -/
theorem batches_bound (hr : ((lts cfg).restrict (InBatches cfg)).Reachable s) :
    s.cmdLog.length ≤ cfg.threshold ∧
    s.syncCmdLog = s.cmdLog.filter s.synchronizable ∧
    (∀ t, (t = s ∨ ∃ k, t = syncFinish k s) → cfg.threshold ≤ t.cmdLog.length →
      ∃ front rest d, t.cmdLog = front :: rest ∧ d ∈ t.syncCmdLog ∧ front.idx ≤ d.idx ∧
        fullTarget t = .cmd d) ∧
    (∀ c, s.pc.waiting ≠ some (.hwq, .full c)) ∧
    ∀ act s' c, (lts cfg).step s act s' → s'.launched = s.launched ++ [c] →
      ∃ rest, rest <:+ s.cmdLog ∧ rest.length < cfg.threshold ∧ s'.cmdLog = rest ++ [c] := by
  have hreach := hr.of_restrict
  obtain ⟨hready, hfallback⟩ := batched_reachable hr
  refine ⟨log_bounded hreach, hready.batched.sync, fun t ht hlen => ?_, hfallback,
    fun act s' c hs hl => ?_⟩
  · exact (hready.left ht).fullTarget hlen
  · have hbound := log_bounded (hreach.step hs)
    have hself : s.launched ≠ s.launched ++ [c] := by simp
    rcases course_cases hready.log.pcOk hs with ⟨b, -, hworker⟩ | ⟨-, t, ht, hsame⟩
    · obtain ⟨-, t, ht, hlog⟩ := course_launch hready.log.pcOk hworker hl
      refine ⟨t.cmdLog, cmdLog_left ht, ?_, hlog⟩
      rw [hlog, List.length_append] at hbound
      exact hbound
    · rw [hsame.launched, launched_left ht] at hl
      exact absurd hl hself

/-- Batches of two, three commands in flight. -/
def cfgBatch : Config := ⟨.block, 3, 2, Nat.le_succ 2, Nat.two_pos⟩

/-- Command 4 is submitted while commands 1, 2 and 3 are in flight. -/
def batchTrace : List Act :=
  List.replicate 4 (Act.worker true) ++ [Act.submit (halCmd 1)] ++
  List.replicate 3 (Act.worker true) ++ [Act.submit (halCmd 2)] ++
  List.replicate 3 (Act.worker true) ++ [Act.submit (halCmd 3)] ++
  List.replicate 3 (Act.worker true) ++ [Act.submit (halCmd 4)] ++
  List.replicate 3 (Act.worker true)

theorem batches_bound_full : ∃ s : State, s.cmdLog = [halCmd 1, halCmd 2, halCmd 3] ∧
    (∃ d, d ∈ s.syncCmdLog ∧ (halCmd 1).idx ≤ d.idx ∧ fullTarget s = .cmd d) ∧
    s.pc.waiting ≠ some (.hwq, .full (halCmd 4)) := by
  have htrace : ((LTS.exec (LTS.guarded (InBatches cfgBatch) (step cfgBatch)) init batchTrace).map
      fun s => s.cmdLog) = some [halCmd 1, halCmd 2, halCmd 3] := by decide
  obtain ⟨s, hs, he⟩ := Option.map_eq_some_iff.1 htrace
  obtain ⟨-, -, hfull, hfallback, -⟩ := batches_bound (LTS.reachable_restrict_of_exec rfl hs)
  obtain ⟨front, rest, d, hl, hd, hle, htgt⟩ := hfull s (Or.inl rfl) (by rw [he]; decide)
  rw [he] at hl
  cases hl
  exact ⟨s, he, ⟨d, hd, hle, htgt⟩, hfallback _⟩

end Xsched.Preempt
