import Xsched.Preempt.Pause

/-!
# The course of a launch

What `Tail` says of a locked region is enough for most invariants, but not how
the worker came to a wait or to the launch. `Goes` follows
`LaunchHwCommand` through its four parts: the wait for deactivatable commands,
the test for a full log, the wait while the worker is paused, the launch. A
wait that gives up the lock ends a region, and the worker goes on at the part
behind it when it has the lock again (`At`).

`worker_course` says it of every step of the worker: it is on its way through
`LaunchHwCommand`, or it leaves alone what `LaunchHwCommand` looks at, but for
what a successful wait pops.
-/
namespace Xsched.Preempt

/-- What a wait of the worker is for, and where it goes on. -/
def WorkerPc.waiting : WorkerPc → Option (SyncTarget × SyncRet)
  | .syncWait t r => some (t, r)
  | .syncing call _ r => some (call.target, r)
  | _ => none

/-- What launches write. -/
structure SameLogs (s s' : State) : Prop where
  launched : s'.launched = s.launched
  cmdLog : s'.cmdLog = s.cmdLog
  syncCmdLog : s'.syncCmdLog = s.syncCmdLog
  syncEnabled : s'.syncEnabled = s.syncEnabled
  last : s'.lastSynchronizableIdx = s.lastSynchronizableIdx

/-- The parts of `LaunchHwCommand`. -/
inductive Part where
  | deactivatable
  | full
  | paused
  | launch

inductive Goes (cfg : Config) (b : Bool) (c : HwCommand) : Part → State → State → Prop
  | deactWait {s s' : State} {toSync : Option HwCommand} (hw : waitDeactivatable cfg c = true)
      (hscan : scanDeactivatable s s.cmdLog.reverse none = (true, toSync))
      (hpc : s'.pc.waiting = some (targetOf toSync, .deactivatable c)) (hsame : SameLogs s s') :
      Goes cfg b c .deactivatable s s'
  | deactDone {s s' : State} {toSync : Option HwCommand} {a : Bool}
      (hw : waitDeactivatable cfg c = true)
      (hscan : scanDeactivatable s s.cmdLog.reverse none = (true, toSync))
      (hret : syncLoop (targetOf toSync) s = .ret) (h : Goes cfg b c .full { s with aborted := a } s') :
      Goes cfg b c .deactivatable s s'
  | clear {s s' : State} (hclear : waitDeactivatable cfg c = true →
      (scanDeactivatable s s.cmdLog.reverse none).1 = false) (h : Goes cfg b c .full s s') :
      Goes cfg b c .deactivatable s s'
  | fullWait {s s' : State} (hlen : cfg.threshold ≤ s.cmdLog.length)
      (hpc : s'.pc.waiting = some (fullTarget s, .full c)) (hsame : SameLogs s s') :
      Goes cfg b c .full s s'
  | fullDone {s s' : State} {a : Bool} (hlen : cfg.threshold ≤ s.cmdLog.length)
      (hret : syncLoop (fullTarget s) s = .ret) (h : Goes cfg b c .launch { s with aborted := a } s') :
      Goes cfg b c .full s s'
  | space {s s' : State} (hlen : s.cmdLog.length < cfg.threshold) (h : Goes cfg b c .paused s s') :
      Goes cfg b c .full s s'
  | pausedWait {s s' : State} (hpc : s'.pc = .launchWait c) (hsame : SameLogs s s') :
      Goes cfg b c .paused s s'
  | running {s s' : State} (h : Goes cfg b c .launch s s') : Goes cfg b c .paused s s'
  | terminated {s : State} (hs : s.state = .terminated) : Goes cfg b c .paused s (xassert false s)
  | launch {s : State} : Goes cfg b c .launch s (launchOrDrop cfg b c s)

section
variable {cfg : Config} {b : Bool} {c : HwCommand} {s s' : State}

/-- A pass through the loop of a wait returns, or ends the region in the wait. -/
theorem workerSync_cases (k : State → State) (t : SyncTarget) (r : SyncRet) (s : State) :
    syncLoop t s = .ret ∧ workerSync k t r s = k s ∨
      (workerSync k t r s).pc.waiting = some (t, r) ∧ SameLogs s (workerSync k t r s) := by
  unfold workerSync
  split
  · rename_i hret
    exact Or.inl ⟨hret, rfl⟩
  · exact Or.inr ⟨rfl, ⟨rfl, rfl, rfl, rfl, rfl⟩⟩
  · obtain ⟨a, ha, -⟩ := syncLaunched_eq (s := s) t
    rw [ha]
    exact Or.inr ⟨rfl, ⟨rfl, rfl, rfl, rfl, rfl⟩⟩

theorem goes_pauseLoop : Goes cfg b c .paused s (launchPauseLoop cfg b c s) := by
  unfold launchPauseLoop
  split
  · exact .running .launch
  · exact .pausedWait rfl (⟨rfl, rfl, rfl, rfl, rfl⟩)
  · rename_i hs
    exact .terminated hs

theorem goes_checkFull : Goes cfg b c .full s (launchCheckFull cfg b c s) := by
  unfold launchCheckFull
  split
  · rename_i hlen
    obtain ⟨a, ha⟩ := syncEntry_eq (s := s) (fullTarget s)
    rw [ha]
    rcases workerSync_cases (launchOrDrop cfg b c) (fullTarget s) (.full c)
      { s with aborted := a } with ⟨hret, he⟩ | ⟨hpc, hsame⟩
    · rw [he]
      exact .fullDone hlen ((syncLoop_aborted _ a).symm.trans hret) .launch
    · exact .fullWait hlen hpc ⟨hsame.1, hsame.2, hsame.3, hsame.4, hsame.5⟩
  · rename_i hlen
    exact .space (Nat.not_le.1 hlen) goes_pauseLoop

theorem goes_launchHwCommand : Goes cfg b c .deactivatable s (launchHwCommand cfg b c s) := by
  unfold launchHwCommand
  split
  · rename_i hw
    split
    · rename_i toSync hscan
      obtain ⟨a, ha⟩ := syncEntry_eq (s := s) (targetOf toSync)
      rw [ha]
      rcases workerSync_cases (launchCheckFull cfg b c) (targetOf toSync) (.deactivatable c)
        { s with aborted := a } with ⟨hret, he⟩ | ⟨hpc, hsame⟩
      · rw [he]
        exact .deactDone hw hscan ((syncLoop_aborted _ a).symm.trans hret) goes_checkFull
      · exact .deactWait hw hscan hpc ⟨hsame.1, hsame.2, hsame.3, hsame.4, hsame.5⟩
    · rename_i hscan
      exact .clear (fun _ => by rw [hscan]) goes_checkFull
  · rename_i hw
    exact .clear (fun h => absurd h hw) goes_checkFull

/-- What the end of `LaunchHwCommand` does to the logs: nothing, or the command
is put at their ends. -/
theorem launchOrDrop_log (cfg : Config) (b : Bool) (c : HwCommand) (s : State) :
    (launchOrDrop cfg b c s).pc = .dequeue ∧
      ((launchOrDrop cfg b c s).launched = s.launched ∧
          (launchOrDrop cfg b c s).cmdLog = s.cmdLog ∨
        (launchOrDrop cfg b c s).launched = s.launched ++ [c] ∧
          (launchOrDrop cfg b c s).cmdLog = s.cmdLog ++ [c]) := by
  unfold launchOrDrop
  split
  · exact ⟨rfl, Or.inl ⟨rfl, rfl⟩⟩
  · dsimp only
    split
    · split <;> exact ⟨rfl, Or.inr ⟨rfl, rfl⟩⟩
    · split <;> exact ⟨rfl, Or.inr ⟨rfl, rfl⟩⟩

/-- A pass through `LaunchHwCommand` launches the command, as the last thing it
does, or launches nothing. -/
theorem Goes.log {p : Part} (h : Goes cfg b c p s s') :
    s'.launched = s.launched ∨
      s'.launched = s.launched ++ [c] ∧ s'.cmdLog = s.cmdLog ++ [c] := by
  induction h with
  | deactWait hw hscan hpc hsame => exact Or.inl hsame.launched
  | deactDone hw hscan hret h ih => exact ih
  | clear hclear h ih => exact ih
  | fullWait hlen hpc hsame => exact Or.inl hsame.launched
  | fullDone hlen hret h ih => exact ih
  | space hlen h ih => exact ih
  | pausedWait hpc hsame => exact Or.inl hsame.launched
  | running h ih => exact ih
  | terminated ht => exact Or.inl rfl
  | @launch s => exact (launchOrDrop_log cfg b c s).2.imp_left And.left

end

/-- Where the worker goes on in `LaunchHwCommand` with the lock, and in which
state: after a `Synchronize` without a pause, in what is left of the logs. -/
inductive At (s : State) (c : HwCommand) : Part → State → Prop
  | locking (hpc : s.pc = .locking (.hardware c)) : At s c .deactivatable s
  | launchWait (hpc : s.pc = .launchWait c) : At s c .paused s
  | deactRet {t : SyncTarget} (hpc : s.pc.waiting = some (t, .deactivatable c))
      (hret : syncLoop t s = .ret) : At s c .full s
  | deactSynced {t : SyncTarget} (hpc : s.pc.waiting = some (t, .deactivatable c)) :
    At s c .full (syncFinish t s)
  | fullRet {t : SyncTarget} (hpc : s.pc.waiting = some (t, .full c))
      (hret : syncLoop t s = .ret) : At s c .launch s
  | fullSynced {t : SyncTarget} (hpc : s.pc.waiting = some (t, .full c)) :
    At s c .launch (syncFinish t s)

theorem At.eq {s t : State} {c : HwCommand} {p : Part} (h : At s c p t) :
    t = s ∨ ∃ k, t = syncFinish k s := by
  cases h with
  | @deactSynced k hpc => exact Or.inr ⟨k, rfl⟩
  | @fullSynced k hpc => exact Or.inr ⟨k, rfl⟩
  | _ => exact Or.inl rfl

/-- Where the worker is in `LaunchHwCommand` without the lock. -/
inductive InLaunch : WorkerPc → Prop
  | launchWait (c : HwCommand) : InLaunch (.launchWait c)
  | deactivatable {p : WorkerPc} {t : SyncTarget} {c : HwCommand}
      (h : p.waiting = some (t, .deactivatable c)) : InLaunch p
  | full {p : WorkerPc} {t : SyncTarget} {c : HwCommand} (h : p.waiting = some (t, .full c)) :
    InLaunch p

/-- Every step of the worker, as far as launches go. -/
inductive WorkerCourse (cfg : Config) (b : Bool) (s : State) : State → Prop
  | launching {c : HwCommand} {p : Part} {t s' : State} (hs : s.pc.locks = some (.hardware c))
      (hat : At s c p t) (h : Goes cfg b c p t s') : WorkerCourse cfg b s s'
  | waits {s' : State} (hpc : s'.pc.waiting = s.pc.waiting) (hw : s.pc.waiting.isSome)
      (hsame : SameLogs s s') : WorkerCourse cfg b s s'
  | elsewhere {t s' : State} (ht : t = s ∨ ∃ k, t = syncFinish k s) (hpc : ¬ InLaunch s'.pc)
      (hsame : SameLogs t s') : WorkerCourse cfg b s s'

section
variable {cfg : Config} {b : Bool} {s s' : State}

theorem not_inLaunch {p : WorkerPc} (hpc : ∀ c, p ≠ .launchWait c) (hw : p.waiting = none) :
    ¬ InLaunch p := by
  intro h
  cases h with
  | launchWait c => exact hpc c rfl
  | deactivatable h | full h =>
    rw [hw] at h
    cases h

theorem not_inLaunch_waiting {p : WorkerPc} {t : SyncTarget} {x : XCommand}
    (hw : p.waiting = some (t, .ofCmd x)) : ¬ InLaunch p := by
  intro h
  cases h with
  | launchWait c => cases hw
  | deactivatable h | full h =>
    rw [hw] at h
    cases h

theorem not_inLaunch_finishCmd (x : XCommand) (s : State) : ¬ InLaunch (finishCmd x s).pc := by
  cases x <;> exact not_inLaunch nofun rfl

theorem sameLogs_finishCmd (x : XCommand) (s : State) : SameLogs s (finishCmd x s) := by
  cases x <;> exact ⟨rfl, rfl, rfl, rfl, rfl⟩

/-- The commands that are not launched: the worker waits or is done. -/
theorem course_sync {x : XCommand} {t : SyncTarget} {a : Bool} :
    WorkerCourse cfg b s (workerSync (finishCmd x) t (.ofCmd x) { s with aborted := a }) := by
  rcases workerSync_cases (finishCmd x) t (.ofCmd x) { s with aborted := a } with
    ⟨-, he⟩ | ⟨hpc, hsame⟩
  · rw [he]
    have hsame := sameLogs_finishCmd x { s with aborted := a }
    exact .elsewhere (Or.inl rfl) (not_inLaunch_finishCmd _ _)
      ⟨hsame.1, hsame.2, hsame.3, hsame.4, hsame.5⟩
  · exact .elsewhere (Or.inl rfl) (not_inLaunch_waiting hpc)
      ⟨hsame.1, hsame.2, hsame.3, hsame.4, hsame.5⟩

/-- The worker retakes the lock in a wait. -/
theorem course_retry {t : SyncTarget} {r : SyncRet} (hl : s.pc.locks = some r.cmd)
    (hpc : s.pc.waiting = some (t, r)) :
    WorkerCourse cfg b s (workerSync (afterSync cfg b r) t r s) := by
  rcases workerSync_cases (afterSync cfg b r) t r s with ⟨hret, he⟩ | ⟨hpc', hsame⟩
  · rw [he]
    cases r with
    | ofCmd x =>
      exact .elsewhere (Or.inl rfl) (not_inLaunch_finishCmd x s) (sameLogs_finishCmd x s)
    | deactivatable c => exact .launching hl (.deactRet hpc hret) goes_checkFull
    | full c => exact .launching hl (.fullRet hpc hret) .launch
  · exact .waits (hpc'.trans hpc.symm) (by rw [hpc]; rfl) hsame

/-- The worker is back from a `Synchronize` during which no pause happened. -/
theorem course_synced {t : SyncTarget} {r : SyncRet} (hl : s.pc.locks = some r.cmd)
    (hpc : s.pc.waiting = some (t, r)) :
    WorkerCourse cfg b s (afterSync cfg b r (syncFinish t s)) := by
  cases r with
  | ofCmd x =>
    exact .elsewhere (Or.inr ⟨t, rfl⟩) (not_inLaunch_finishCmd x _) (sameLogs_finishCmd x _)
  | deactivatable c => exact .launching hl (.deactSynced hpc) goes_checkFull
  | full c => exact .launching hl (.fullSynced hpc) .launch

theorem course_region {x : XCommand} (hl : s.pc.locks = some x)
    (h : stepWorker cfg b s = some s') : WorkerCourse cfg b s s' := by
  unfold stepWorker at h
  cases hpc : s.pc with
  | locking y =>
    cases y with
    | hardware c =>
      simp only [hpc, Option.some.injEq] at h
      subst h
      exact .launching (by rw [hpc]; rfl) (.locking hpc) goes_launchHwCommand
    | batchSynchronize i =>
      simp only [hpc] at h
      split at h
      · simp only [Option.some.injEq] at h
        subst h
        exact .elsewhere (Or.inl rfl) (not_inLaunch nofun rfl) ⟨rfl, rfl, rfl, rfl, rfl⟩
      · rename_i d _ _
        simp only [Option.some.injEq] at h
        subst h
        obtain ⟨a, ha⟩ := syncEntry_eq (s := s) (.cmd d)
        rw [ha]
        exact course_sync
    | _ =>
      simp only [hpc, Option.some.injEq] at h
      subst h
      exact course_sync (a := s.aborted)
  | launchWait c =>
    simp only [hpc, Option.some.injEq] at h
    subst h
    exact .launching (by rw [hpc]; rfl) (.launchWait hpc) goes_pauseLoop
  | syncWait t r =>
    simp only [hpc, Option.some.injEq] at h
    subst h
    exact course_retry (by rw [hpc]; rfl) (by rw [hpc]; rfl)
  | syncing call ph r =>
    rw [hpc] at hl
    cases ph with
    | returned =>
      simp only [hpc] at h
      split at h <;> simp only [Option.some.injEq] at h <;> subst h
      · exact course_synced (by rw [hpc]; rfl) (by rw [hpc]; rfl)
      · exact course_retry (by rw [hpc]; rfl) (by rw [hpc]; rfl)
    | _ => cases hl
  | _ =>
    rw [hpc] at hl
    cases hl

theorem worker_course (hok : PcOk s.pc) (h : stepWorker cfg b s = some s') :
    WorkerCourse cfg b s s' := by
  have helse {s' : State} (hpc : ¬ InLaunch s'.pc) (hsame : SameLogs s s') :
      WorkerCourse cfg b s s' := .elsewhere (Or.inl rfl) hpc hsame
  cases stepWorker_cases hok h with
  | region x s' hl hne ht => exact course_region hl h
  | synced call r s' hpc hcnt ht => exact course_region (x := r.cmd) (by rw [hpc]; rfl) h
  | calling call r hpc =>
    exact .waits (by rw [hpc]; rfl) (by rw [hpc]; rfl) ⟨rfl, rfl, rfl, rfl, rfl⟩
  | returning call r hpc =>
    exact .waits (by rw [hpc]; rfl) (by rw [hpc]; rfl) ⟨rfl, rfl, rfl, rfl, rfl⟩
  | complete x hpc hx =>
    refine helse ?_ ⟨rfl, rfl, rfl, rfl, rfl⟩
    cases x <;> exact not_inLaunch nofun rfl
  | _ => exact helse (not_inLaunch nofun rfl) ⟨rfl, rfl, rfl, rfl, rfl⟩

theorem syncFinish_suffix (t : SyncTarget) (s : State) : (syncFinish t s).cmdLog <:+ s.cmdLog := by
  cases t
  · rw [syncFinish, clearLogs_eq]; exact List.nil_suffix
  · rw [syncFinish, popLogs_eq]; exact List.dropWhile_suffix _

/-! What a wait leaves, whether its `Synchronize` has popped anything or not. -/

theorem launched_left {t : State} (ht : t = s ∨ ∃ k, t = syncFinish k s) :
    t.launched = s.launched := by
  rcases ht with rfl | ⟨k, rfl⟩
  · rfl
  · exact syncFinish_launched k s

theorem cmdLog_left {t : State} (ht : t = s ∨ ∃ k, t = syncFinish k s) :
    t.cmdLog <:+ s.cmdLog := by
  rcases ht with rfl | ⟨k, rfl⟩
  · exact List.suffix_refl _
  · exact syncFinish_suffix k s

/-- A launch is the launch of the command in hand, behind what the wait before it
left of the log. -/
theorem course_launch (hok : PcOk s.pc) (h : stepWorker cfg b s = some s') {c : HwCommand}
    (hl : s'.launched = s.launched ++ [c]) :
    s.pc.locks = some (.hardware c) ∧
      ∃ t, (t = s ∨ ∃ k, t = syncFinish k s) ∧ s'.cmdLog = t.cmdLog ++ [c] := by
  have hself : s.launched ≠ s.launched ++ [c] := by simp
  cases worker_course hok h with
  | @launching e p t _ hs hat hgo =>
    have ht := hat.eq
    have htl := launched_left ht
    rcases hgo.log with hsame | ⟨hla, hlog⟩
    · rw [hsame, htl] at hl
      exact absurd hl hself
    · rw [hla, htl] at hl
      have hec : e = c := by simpa using hl
      subst hec
      exact ⟨hs, t, ht, hlog⟩
  | waits hpc hw hsame =>
    rw [hsame.launched] at hl
    exact absurd hl hself
  | @elsewhere t _ ht hpc hsame =>
    rw [hsame.launched, launched_left ht] at hl
    exact absurd hl hself

theorem app_course {n : Nat} (h : AppStep s n s') :
    s'.pc = s.pc ∧ ∃ t, (t = s ∨ ∃ k, t = syncFinish k s) ∧ SameLogs t s' := by
  cases h with
  | synced call c hpc hp =>
    refine ⟨rfl, syncFinish (.cmd c) s, Or.inr ⟨_, rfl⟩, ?_⟩
    rw [syncFinish, popLogs_eq]
    exact ⟨rfl, rfl, rfl, rfl, rfl⟩
  | _ => exact ⟨rfl, s, Or.inl rfl, ⟨rfl, rfl, rfl, rfl, rfl⟩⟩

/-- Everybody else leaves the worker where it is and launches nothing; the logs
lose what a `Synchronize` or a drop takes out of them. -/
theorem course_cases {act : Act} (hok : PcOk s.pc) (h : step cfg s act = some s') :
    (∃ b, act = .worker b ∧ stepWorker cfg b s = some s') ∨
      s'.pc = s.pc ∧ ∃ t, (t = s ∨ ∃ k, t = syncFinish k s) ∧ SameLogs t s' := by
  obtain ⟨hab, ht⟩ := step_cases hok h
  cases ht with
  | worker b s' ht =>
    refine Or.inl ⟨b, rfl, ?_⟩
    unfold step at h
    rw [if_neg (by rw [hab]; exact Bool.false_ne_true)] at h
    exact h
  | app t s' ht => exact Or.inr (app_course ht)
  | wait t c s' ht => exact Or.inr (app_course ht)
  | resumeAndDrop d =>
    refine Or.inr ⟨rfl, syncFinish .hwq s, Or.inr ⟨_, rfl⟩, ?_⟩
    rw [syncFinish, clearLogs_eq]
    exact ⟨rfl, rfl, rfl, rfl, rfl⟩
  | _ => exact Or.inr ⟨rfl, s, Or.inl rfl, ⟨rfl, rfl, rfl, rfl, rfl⟩⟩

end

end Xsched.Preempt
