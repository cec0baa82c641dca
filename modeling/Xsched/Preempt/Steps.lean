import Xsched.Preempt.Machine

/-!
# What a step of the launch machine can do

`WorkerStep` and `AppStep` list, once, every effect a step of the worker or
of an application thread can have, with its guard; `stepWorker_cases` and
`stepApp_cases` say that nothing else happens. The invariants below are
proved by cases on these relations and never unfold a step.

A locked region of the worker is at most one `syncFinish` (the wait that
ended with an unchanged pause count) followed by a `Tail`: the worker parks
in a wait or in a `Synchronize` call, ends the XCommand in its hand, or
launches (or drops) the HwCommand in its hand.
-/
namespace Xsched.Preempt

/-! ## Closed forms -/

/-- `f` with the commands of `cs` completed. -/
def completeOn (cs : List HwCommand) (f : XCommand → XCommandState) : XCommand → XCommandState :=
  fun x => if x ∈ cs.map XCommand.hardware then .completed else f x

theorem completeOn_hw (cs : List HwCommand) (f : XCommand → XCommandState) (c : HwCommand) :
    completeOn cs f (.hardware c) = if c ∈ cs then .completed else f (.hardware c) := by
  simp [completeOn]

theorem completeOn_other (cs : List HwCommand) (f : XCommand → XCommandState) {x : XCommand}
    (h : x.hw? = none) : completeOn cs f x = f x := by
  unfold completeOn
  rw [if_neg]
  intro hx
  obtain ⟨c, -, rfl⟩ := List.mem_map.1 hx
  simp [XCommand.hw?] at h

/-- Completing a command never trips the assertion of `SetState`. -/
theorem setState_completed (x : XCommand) (s : State) :
    setState x .completed s = { s with cmdState := Function.update s.cmdState x .completed } := by
  have h : (s.cmdState x).val ≤ XCommandState.completed.val := XCommandState.val_le _
  simp only [setState, h, decide_true, Bool.not_true, Bool.or_false]

theorem completeAll_eq (cs : List HwCommand) (s : State) :
    completeAll cs s = { s with cmdState := completeOn cs s.cmdState } := by
  induction cs generalizing s with
  | nil =>
    have h : completeOn [] s.cmdState = s.cmdState := by funext x; simp [completeOn]
    rw [h, completeAll]
  | cons c cs ih =>
    rw [completeAll, ih, setState_completed]
    congr 1
    funext x
    by_cases hx : x = .hardware c
    · subst hx; simp [completeOn]
    · by_cases hm : x ∈ cs.map XCommand.hardware <;> simp [completeOn, hx, hm]

theorem clearLogs_eq (s : State) :
    clearLogs s =
      { s with cmdState := completeOn s.cmdLog s.cmdState, syncCmdLog := [], cmdLog := [] } := by
  rw [clearLogs, completeAll_eq]

theorem popLogs_eq (d : HwCommand) (s : State) :
    popLogs d s =
      { s with
        cmdState := completeOn (s.cmdLog.takeWhile fun c => decide (c.idx ≤ d.idx)) s.cmdState,
        syncCmdLog := s.syncCmdLog.dropWhile fun c => decide (c.idx ≤ d.idx),
        cmdLog := s.cmdLog.dropWhile fun c => decide (c.idx ≤ d.idx) } := by
  rw [popLogs, completeAll_eq]

theorem resumeAndDrop_eq (d : Int) (s : State) :
    resumeAndDrop d s =
      { s with cmdState := completeOn s.cmdLog s.cmdState, syncCmdLog := [], cmdLog := [],
               dropIdx := d, state := .running } := by
  rw [resumeAndDrop, clearLogs_eq]

theorem foldl_completed (xs : List XCommand) (s : State) :
    xs.foldl (fun s x => setState x .completed s) s =
      { s with cmdState := fun x => if x ∈ xs then .completed else s.cmdState x } := by
  induction xs generalizing s with
  | nil => simp
  | cons y xs ih =>
    rw [List.foldl_cons, ih, setState_completed]
    congr 1
    funext x
    by_cases hx : x = y
    · subst hx; simp
    · by_cases hm : x ∈ xs <;> simp [hx, hm]

theorem dropAll_eq (s : State) :
    dropAll s =
      { s with cmdState := fun x => if x ∈ s.cmds then .completed else s.cmdState x,
               cmds := [] } := by
  rw [dropAll, foldl_completed]

theorem syncFinish_pc (t : SyncTarget) (s : State) : (syncFinish t s).pc = s.pc := by
  cases t
  · rw [syncFinish, clearLogs_eq]
  · rw [syncFinish, popLogs_eq]

theorem syncFinish_state (t : SyncTarget) (s : State) : (syncFinish t s).state = s.state := by
  cases t
  · rw [syncFinish, clearLogs_eq]
  · rw [syncFinish, popLogs_eq]

theorem syncFinish_pauseCount (t : SyncTarget) (s : State) :
    (syncFinish t s).pauseCount = s.pauseCount := by
  cases t
  · rw [syncFinish, clearLogs_eq]
  · rw [syncFinish, popLogs_eq]

/-! ## The worker -/

/-- The worker is back from a `Synchronize` call with an unchanged pause count. -/
def SameCount (s : State) : Prop :=
  ∃ call r, s.pc = .syncing call .returned r ∧ call.pauseCnt = s.pauseCount

/-- How the worker can reach a launch without testing `state_` in the pause
loop: it comes back from the wait for an empty slot, after a `Synchronize`
during which no pause happened, or because the command `d` it waits for is
completed already. -/
def FullRet (s : State) (c : HwCommand) : Prop :=
  SameCount s ∨
  ∃ d, s.cmdState (.hardware d) = .completed ∧
    (d ∈ s.syncCmdLog ∨ s.pc = .syncWait (.cmd d) (.full c) ∨
      ∃ call, call.target = .cmd d ∧ s.pc = .syncing call .returned (.full c))

/-- The XCommand a wait of the worker goes back to is never a HwCommand (those
go back into `LaunchHwCommand`), and only a BatchSynchronizeCommand waits for
a HwCommand. -/
def SyncRet.Ok (t : SyncTarget) : SyncRet → Prop
  | .ofCmd x => x.hw? = none ∧ (x.isBatch = false → t = .hwq)
  | _ => True

/-- How many more waits `LaunchHwCommand` can need after this one. -/
def SyncRet.rank : SyncRet → Nat
  | .deactivatable _ => 1
  | _ => 0

/-- The rest of a locked region of the worker, with `x` in its hand and at
most `n` waits to come. `a` is what the assertions on the way leave in
`aborted`. -/
inductive Tail (n : Nat) (x : XCommand) (s : State) : State → Prop
  | launchWait (c : HwCommand) (a : Bool) (hx : x = .hardware c) (hs : s.state = .paused) :
      Tail n x s { s with pc := .launchWait c, aborted := a }
  | syncWait (t : SyncTarget) (r : SyncRet) (a : Bool) (hx : x = r.cmd) (hr : r.Ok t)
      (hn : r.rank < n) (hs : s.state = .paused)
      (hc : ∀ d, t = .cmd d → s.cmdState (.hardware d) ≠ .completed) :
      Tail n x s { s with pc := .syncWait t r, aborted := a }
  | syncCall (t : SyncTarget) (r : SyncRet) (a : Bool) (hx : x = r.cmd) (hr : r.Ok t)
      (hn : r.rank < n) (hs : s.state = .running)
      (hc : ∀ d, t = .cmd d → s.cmdState (.hardware d) ≠ .completed)
      (ha : a = false → ∀ d, t = .cmd d → 2 ≤ (s.cmdState (.hardware d)).val) :
      Tail n x s { s with pc := .syncing ⟨t, s.pauseCount, []⟩ .unlocked r, aborted := a }
  | abort : Tail n x s (xassert false s)
  | finish (a : Bool) (st : WorkerState) (hx : x.hw? = none)
      (hst : st = if x.isDestroy then .terminated else s.state)
      (hq : x.isBatch = false → s.cmdLog = [] ∨ s.state = .terminated)
      (hp : x.isBatch = false → s.state = .paused → SameCount s) :
      Tail n x s { s with state := st, pc := .completing x, aborted := a }
  | drop (c : HwCommand) (a : Bool) (hx : x = .hardware c) (hd : c.idx ≤ s.dropIdx) :
      Tail n x s
        { s with cmdState := Function.update s.cmdState (.hardware c) .completed,
                 pc := .dequeue, aborted := a }
  | launch (c : HwCommand) (a : Bool) (e : HwCommand → Bool) (l : List HwCommand) (last : Int)
      (hx : x = .hardware c) (hd : s.dropIdx < c.idx)
      (hs : s.state = .paused → FullRet s c)
      (he : ∀ d, s.syncEnabled d = true → e d = true)
      (hl : l = [] ∨ l = [c] ∧ State.synchronizable { s with syncEnabled := e } c = true) :
      Tail n x s
        { s with syncEnabled := e, launched := s.launched ++ [c],
                 cmdState := Function.update s.cmdState (.hardware c) .inFlight, aborted := a,
                 cmdLog := s.cmdLog ++ [c], pc := .dequeue,
                 syncCmdLog := s.syncCmdLog ++ l, lastSynchronizableIdx := last }

section
variable {cfg : Config} {s : State} {n : Nat}

theorem syncLoop_aborted (t : SyncTarget) (a : Bool) :
    syncLoop t { s with aborted := a } = syncLoop t s := by
  cases t <;> rfl

theorem syncEntry_eq (t : SyncTarget) : ∃ a, syncEntry t s = { s with aborted := a } := by
  cases t
  · exact ⟨s.aborted, rfl⟩
  · exact ⟨_, rfl⟩

theorem syncLaunched_eq (t : SyncTarget) : ∃ a, syncLaunched t s = { s with aborted := a } ∧
    (a = false → ∀ d, t = .cmd d → 2 ≤ (s.cmdState (.hardware d)).val) := by
  cases t
  · exact ⟨s.aborted, rfl, fun _ d hd => by cases hd⟩
  · refine ⟨_, rfl, fun ha d hd => ?_⟩
    cases hd
    simp only [Bool.or_eq_false_iff, Bool.not_eq_false', decide_eq_true_eq] at ha
    exact ha.2

/-- A return of a wait without `Synchronize`: the worker is not paused, or
the command is completed. -/
theorem syncLoop_ret {t : SyncTarget} (h : syncLoop t s = .ret) (hs : s.state = .paused) :
    ∃ d, t = .cmd d ∧ s.cmdState (.hardware d) = .completed := by
  cases t with
  | hwq => simp [syncLoop, syncAllWithLock, hs] at h
  | cmd d =>
    simp only [syncLoop, syncCmdWithLock, hs] at h
    split at h
    · rename_i hd; exact ⟨d, rfl, hd⟩
    · cases h

/-- A return of the wait for the HwQueue: nothing is in flight. -/
theorem syncLoop_hwq_ret (h : syncLoop .hwq s = .ret) : s.cmdLog = [] ∨ s.state = .terminated := by
  simp only [syncLoop, syncAllWithLock] at h
  split at h
  · split at h
    · rename_i hl; exact .inl hl
    · cases h
  · cases h
  · rename_i hs; exact .inr hs

theorem syncLoop_hwq_paused (hs : s.state = .paused) : syncLoop .hwq s ≠ .ret := by
  simp [syncLoop, syncAllWithLock, hs]

theorem syncLoop_wait {t : SyncTarget} (h : syncLoop t s = .wait) :
    s.state = .paused ∧ ∀ d, t = .cmd d → s.cmdState (.hardware d) ≠ .completed := by
  cases t with
  | hwq =>
    simp only [syncLoop, syncAllWithLock] at h
    split at h
    · split at h <;> cases h
    · rename_i hs; exact ⟨hs, fun d hd => by cases hd⟩
    · cases h
  | cmd d =>
    simp only [syncLoop, syncCmdWithLock] at h
    split at h
    · cases h
    · rename_i hc
      split at h
      · cases h
      · rename_i hs; exact ⟨hs, fun d' hd => by cases hd; exact hc⟩
      · cases h

theorem syncLoop_call {t : SyncTarget} (h : syncLoop t s = .call) :
    s.state = .running ∧ ∀ d, t = .cmd d → s.cmdState (.hardware d) ≠ .completed := by
  cases t with
  | hwq =>
    simp only [syncLoop, syncAllWithLock] at h
    split at h
    · rename_i hs; exact ⟨hs, fun d hd => by cases hd⟩
    · cases h
    · cases h
  | cmd d =>
    simp only [syncLoop, syncCmdWithLock] at h
    split at h
    · cases h
    · rename_i hc
      split at h
      · rename_i hs; exact ⟨hs, fun d' hd => by cases hd; exact hc⟩
      · cases h
      · cases h

theorem tail_finishCmd {x : XCommand} (hx : x.hw? = none) (a : Bool)
    (hq : x.isBatch = false → s.cmdLog = [] ∨ s.state = .terminated)
    (hp : x.isBatch = false → s.state = .paused → SameCount s) :
    Tail n x s (finishCmd x { s with aborted := a }) := by
  cases x with
  | hardware c => cases hx
  | xQueueDestroy i => exact .finish a .terminated hx rfl hq hp
  | _ => exact .finish a s.state hx rfl hq hp

theorem tail_workerSync {k : State → State} {t : SyncTarget} {r : SyncRet} (hr : r.Ok t)
    (hn : r.rank < n)
    (hk : ∀ a, syncLoop t s = .ret → Tail n r.cmd s (k { s with aborted := a })) (a : Bool) :
    Tail n r.cmd s (workerSync k t r { s with aborted := a }) := by
  unfold workerSync
  rw [syncLoop_aborted]
  split
  · rename_i h; exact hk a h
  · rename_i h
    obtain ⟨hs, hc⟩ := syncLoop_wait h
    exact .syncWait t r a rfl hr hn hs hc
  · rename_i h
    obtain ⟨hs, hc⟩ := syncLoop_call h
    obtain ⟨a', ha', hl⟩ := syncLaunched_eq (s := { s with aborted := a }) t
    rw [ha']
    exact .syncCall t r a' rfl hr hn hs hc hl

/-- The drop test and the launch; `hs` is how the worker got there. -/
theorem tail_launchOrDrop (b : Bool) (c : HwCommand) (a : Bool)
    (hs : s.state = .paused → FullRet s c) :
    Tail n (.hardware c) s (launchOrDrop cfg b c { s with aborted := a }) := by
  unfold launchOrDrop
  split
  · rename_i hd
    rw [setState_completed]
    exact .drop c a rfl hd
  · rename_i hd
    -- `e` is what the command leaves of `EnableSynchronization`
    have hlaunch (e : HwCommand → Bool) (he : ∀ d, s.syncEnabled d = true → e d = true)
        (l : List HwCommand) (last : Int) (a' : Bool)
        (hl : l = [] ∨ l = [c] ∧ State.synchronizable { s with syncEnabled := e } c = true) :=
      Tail.launch (n := n) (s := s) c a' e l last rfl (Int.not_le.1 hd) hs he hl
    have hid : ∀ d, s.syncEnabled d = true → s.syncEnabled d = true := fun _ h => h
    have henable : ∀ d, s.syncEnabled d = true →
        Function.update s.syncEnabled c (s.syncEnabled c || b) d = true := by
      intro d h
      by_cases hdc : d = c
      · subst hdc; simp [h]
      · simpa [Function.update_of_ne hdc] using h
    dsimp only
    split
    · split
      · rename_i hsync
        exact hlaunch _ henable [c] c.idx _ (.inr ⟨rfl, hsync⟩)
      · have h := fun a' => hlaunch _ henable [] s.lastSynchronizableIdx a' (.inl rfl)
        simp only [List.append_nil] at h
        exact h _
    · split
      · rename_i hsync
        exact hlaunch _ hid [c] c.idx _ (.inr ⟨rfl, hsync⟩)
      · have h := fun a' => hlaunch _ hid [] s.lastSynchronizableIdx a' (.inl rfl)
        simp only [List.append_nil] at h
        exact h _

theorem tail_pauseLoop (b : Bool) (c : HwCommand) (a : Bool) :
    Tail n (.hardware c) s (launchPauseLoop cfg b c { s with aborted := a }) := by
  unfold launchPauseLoop
  split
  · rename_i hs
    exact tail_launchOrDrop b c a (fun hp => by rw [show s.state = .running from hs] at hp; cases hp)
  · rename_i hs; exact .launchWait c a rfl hs
  · have h : xassert false { s with aborted := a } = xassert false s := by simp [xassert]
    rw [h]; exact .abort

theorem fullTarget_mem {d : HwCommand} (h : fullTarget s = .cmd d) : d ∈ s.syncCmdLog := by
  unfold fullTarget at h
  split at h
  · cases h
  · split at h
    · rename_i hf; cases h; exact List.mem_of_find?_eq_some hf
    · cases h

theorem tail_checkFull (b : Bool) (c : HwCommand) (a : Bool) (hn : 0 < n) :
    Tail n (.hardware c) s (launchCheckFull cfg b c { s with aborted := a }) := by
  unfold launchCheckFull
  split
  · have hf : fullTarget { s with aborted := a } = fullTarget s := rfl
    rw [hf]
    obtain ⟨a', ha'⟩ := syncEntry_eq (s := { s with aborted := a }) (fullTarget s)
    rw [ha']
    refine tail_workerSync (r := .full c) trivial hn (fun a'' hret => ?_) a'
    refine tail_launchOrDrop b c a'' fun hp => ?_
    obtain ⟨d, hd, hc⟩ := syncLoop_ret hret hp
    exact .inr ⟨d, hc, .inl (fullTarget_mem hd)⟩
  · exact tail_pauseLoop b c a

theorem tail_launchHwCommand (b : Bool) (c : HwCommand) :
    Tail 2 (.hardware c) s (launchHwCommand cfg b c s) := by
  unfold launchHwCommand
  split
  · split
    · rename_i toSync _
      obtain ⟨a, ha⟩ := syncEntry_eq (s := s) (targetOf toSync)
      rw [ha]
      exact tail_workerSync (r := .deactivatable c) trivial Nat.one_lt_two
        (fun a' _ => tail_checkFull b c a' Nat.two_pos) a
    · exact tail_checkFull b c s.aborted Nat.two_pos
  · exact tail_checkFull b c s.aborted Nat.two_pos

/-- Going on after a wait: only the wait for an empty slot can go on while
the worker is paused. -/
theorem tail_afterSync (b : Bool) (t : SyncTarget) (r : SyncRet) (a : Bool) (hr : r.Ok t)
    (hn : r.rank ≤ n) (hq : t = .hwq → s.cmdLog = [] ∨ s.state = .terminated)
    (hp : t = .hwq → s.state = .paused → SameCount s)
    (hs : ∀ c, r = .full c → s.state = .paused → FullRet s c) :
    Tail n r.cmd s (afterSync cfg b r { s with aborted := a }) := by
  cases r with
  | ofCmd x => exact tail_finishCmd hr.1 a (fun hb => hq (hr.2 hb)) fun hb => hp (hr.2 hb)
  | deactivatable c => exact tail_checkFull b c a hn
  | full c => exact tail_launchOrDrop b c a (hs c rfl)

end

/-- The waits are of the kinds the loop makes, and the command in the worker's
hand after the lock was released for good is no HwCommand. -/
def PcOk : WorkerPc → Prop
  | .syncWait t r => r.Ok t
  | .syncing call _ r => r.Ok call.target
  | .completing x => x.hw? = none
  | _ => True

/-- The command in hand where the worker takes the lock next. -/
def WorkerPc.locks : WorkerPc → Option XCommand
  | .locking x => some x
  | .launchWait c => some (.hardware c)
  | .syncWait _ r => some r.cmd
  | .syncing _ .returned r => some r.cmd
  | _ => none

/-- The waits that can still follow where the worker takes the lock. -/
def WorkerPc.waits : WorkerPc → Nat
  | .launchWait _ => 0
  | .syncWait _ r => r.rank + 1
  | .syncing _ _ r => r.rank + 1
  | _ => 2

theorem WorkerPc.locks_cmd {p : WorkerPc} {x : XCommand} (h : p.locks = some x) :
    p.cmd = some x := by
  unfold locks at h
  split at h
  all_goals first
    | exact h
    | cases h

/-- Every step of the worker. -/
inductive WorkerStep (s : State) : State → Prop
  | dequeued (x : XCommand) (rest : List XCommand) (hpc : s.pc = .dequeue ∨ s.pc = .dequeueWait)
      (hc : s.cmds = x :: rest) : WorkerStep s { s with cmds := rest, pc := .got x }
  | idle (hpc : s.pc = .dequeue) (hc : s.cmds = []) (hl : s.lastCmd.isWaitAll)
      (hr : s.xqState = .ready) :
      WorkerStep s
        { s with xqState := .idle, events := s.events ++ [.idle], pc := .dequeueWait }
  | stillIdle (hpc : s.pc = .dequeue) (hc : s.cmds = []) (hl : s.lastCmd.isWaitAll)
      (hr : s.xqState ≠ .ready) : WorkerStep s { s with pc := .dequeueWait }
  | generated (x : XCommand) (hpc : s.pc = .dequeue) (hc : s.cmds = [])
      (hl : ¬ s.lastCmd.isWaitAll)
      (hx : x = .xQueueWaitAll s.nextId ∨ x = .batchSynchronize s.nextId)
      (hb : x.isBatch → s.lastCmd.isBatch = false) :
      WorkerStep s (dequeueGenerated x s)
  | gotHardware (c : HwCommand) (hpc : s.pc = .got (.hardware c)) :
      WorkerStep s { s with pc := .locking (.hardware c) }
  | gotOther (x : XCommand) (hpc : s.pc = .got x) (hx : x.hw? = none) :
      WorkerStep s { setState x .inFlight s with pc := .locking x }
  | noSync (i : Nat) (hpc : s.pc = .locking (.batchSynchronize i)) (hl : s.syncCmdLog = []) :
      WorkerStep s { s with pc := .dequeue }
  | region (x : XCommand) (s' : State) (hpc : s.pc.locks = some x) (hne : ¬ SameCount s)
      (ht : Tail s.pc.waits x s s') : WorkerStep s s'
  | calling (call : SyncCall) (r : SyncRet) (hpc : s.pc = .syncing call .unlocked r) :
      WorkerStep s
        { s with pc := .syncing { call with launchedBefore := s.launched } .called r }
  | returning (call : SyncCall) (r : SyncRet) (hpc : s.pc = .syncing call .called r) :
      WorkerStep s
        { s with pc := .syncing call .returned r, returned := s.returned ++ [call] }
  | synced (call : SyncCall) (r : SyncRet) (s' : State) (hpc : s.pc = .syncing call .returned r)
      (hp : call.pauseCnt = s.pauseCount) (ht : Tail r.rank r.cmd (syncFinish call.target s) s') :
      WorkerStep s s'
  | complete (x : XCommand) (hpc : s.pc = .completing x) (hx : x.hw? = none) :
      WorkerStep s { setState x .completed s with pc := .after x }

theorem dequeue_cases {s : State} (hpc : s.pc = .dequeue) :
    WorkerStep s (dequeue s) := by
  unfold dequeue
  split
  · rename_i s' hpop
    unfold dequeuePop at hpop
    split at hpop
    · cases hpop
    · rename_i x rest hc
      simp only [Option.some.injEq] at hpop; subst hpop
      exact .dequeued x rest (.inl hpc) hc
  · rename_i hpop
    have hc : s.cmds = [] := by
      unfold dequeuePop at hpop
      split at hpop
      · assumption
      · cases hpop
    split
    · rename_i i hl
      have hw : s.lastCmd.isWaitAll := by rw [hl]; rfl
      split
      · rename_i hr; exact .idle hpc hc hw hr
      · rename_i hr; exact .stillIdle hpc hc hw hr
    · rename_i i hl
      exact .generated _ hpc hc (by simp [hl, XCommand.isWaitAll]) (.inl rfl) nofun
    · rename_i hw hb
      refine .generated _ hpc hc (fun hl => ?_) (.inr rfl) fun _ => ?_
      · cases he : s.lastCmd <;> simp [he, XCommand.isWaitAll] at hl
        exact hw _ he
      · cases he : s.lastCmd <;> simp [XCommand.isBatch]
        exact hb _ he

theorem not_sameCount {s : State} (h : ∀ call r, s.pc ≠ .syncing call .returned r) :
    ¬ SameCount s := fun ⟨call, r, hpc, _⟩ => h call r hpc

/-- The locked region of an XCommand that waits for everything in flight. -/
theorem locking_cases {s : State} (x : XCommand) (t : SyncTarget) (a : Bool)
    (hpc : s.pc = .locking x) (hx : x.hw? = none) (ht : x.isBatch = false → t = .hwq) :
    WorkerStep s (workerSync (finishCmd x) t (.ofCmd x) { s with aborted := a }) := by
  have hw : s.pc.waits = 2 := by rw [hpc]; rfl
  refine .region x _ (by rw [hpc]; rfl) (not_sameCount (by rw [hpc]; nofun)) ?_
  rw [hw]
  refine tail_workerSync (r := .ofCmd x) ⟨hx, ht⟩ Nat.two_pos (fun a' hret => ?_) a
  refine tail_finishCmd hx a' (fun hb => ?_) (fun hb hs => ?_)
  · rw [ht hb] at hret
    exact syncLoop_hwq_ret hret
  · rw [ht hb] at hret
    exact absurd hret (syncLoop_hwq_paused hs)

/-- The worker retakes the lock in its wait for `t` and tests again. -/
theorem retry_cases {cfg : Config} {b : Bool} {s : State} {t : SyncTarget} {r : SyncRet}
    (hok : r.Ok t) (hl : s.pc.locks = some r.cmd) (hw : s.pc.waits = r.rank + 1)
    (hne : ¬ SameCount s)
    (hpc : ∀ c d, r = .full c → t = .cmd d → s.pc = .syncWait (.cmd d) (.full c) ∨
      ∃ call, call.target = .cmd d ∧ s.pc = .syncing call .returned (.full c)) :
    WorkerStep s (workerSync (afterSync cfg b r) t r s) := by
  refine .region _ _ hl hne ?_
  rw [hw]
  refine tail_workerSync hok (Nat.lt_succ_self _) (fun a hret => ?_) s.aborted
  refine tail_afterSync b t r a hok (Nat.le_succ _) (fun ht => ?_) (fun ht hp => ?_) fun c hr hp => ?_
  · rw [ht] at hret; exact syncLoop_hwq_ret hret
  · rw [ht] at hret; exact absurd hret (syncLoop_hwq_paused hp)
  · obtain ⟨d, hd, hc⟩ := syncLoop_ret hret hp
    exact .inr ⟨d, hc, .inr (hpc c d hr hd)⟩

/-- Every step of the worker thread is a `WorkerStep`. -/
theorem stepWorker_cases {cfg : Config} {b : Bool} {s s' : State} (hok : PcOk s.pc)
    (h : stepWorker cfg b s = some s') : WorkerStep s s' := by
  unfold stepWorker at h
  cases hpc : s.pc with
  | dequeue =>
    simp only [hpc, Option.some.injEq] at h; subst h
    exact dequeue_cases hpc
  | dequeueWait =>
    simp only [hpc, dequeuePop] at h
    cases hc : s.cmds with
    | nil => simp [hc] at h
    | cons x rest =>
      simp only [hc, Option.some.injEq] at h; subst h
      exact .dequeued x rest (.inr hpc) hc
  | got x =>
    cases x with
    | hardware c =>
      simp only [hpc, Option.some.injEq] at h; subst h
      exact .gotHardware c hpc
    | _ =>
      simp only [hpc, Option.some.injEq] at h; subst h
      exact .gotOther _ hpc rfl
  | locking x =>
    cases x with
    | hardware c =>
      simp only [hpc, Option.some.injEq] at h; subst h
      have hw : s.pc.waits = 2 := by rw [hpc]; rfl
      refine .region _ _ (by rw [hpc]; rfl) (not_sameCount (by rw [hpc]; nofun)) ?_
      rw [hw]; exact tail_launchHwCommand b c
    | batchSynchronize i =>
      simp only [hpc] at h
      split at h
      · rename_i hl
        simp only [Option.some.injEq] at h; subst h
        exact .noSync i hpc hl
      · rename_i d _ _
        simp only [Option.some.injEq] at h; subst h
        obtain ⟨a, ha⟩ := syncEntry_eq (s := s) (.cmd d)
        rw [ha]
        exact locking_cases _ (.cmd d) a hpc rfl nofun
    | _ =>
      simp only [hpc, Option.some.injEq] at h; subst h
      exact locking_cases _ .hwq s.aborted hpc rfl fun _ => rfl
  | launchWait c =>
    simp only [hpc, Option.some.injEq] at h; subst h
    exact .region _ _ (by rw [hpc]; rfl) (not_sameCount (by rw [hpc]; nofun))
      (tail_pauseLoop b c s.aborted)
  | syncWait t r =>
    simp only [hpc, Option.some.injEq] at h; subst h
    rw [hpc] at hok
    have hne : ¬ SameCount s := not_sameCount (by rw [hpc]; nofun)
    refine retry_cases hok (by rw [hpc]; rfl) (by rw [hpc]; rfl) hne fun c d hr ht => .inl ?_
    rw [hpc, hr, ht]
  | syncing call ph r =>
    rw [hpc] at hok
    cases ph with
    | unlocked =>
      simp only [hpc, Option.some.injEq] at h; subst h
      exact .calling call r hpc
    | called =>
      simp only [hpc, Option.some.injEq] at h; subst h
      exact .returning call r hpc
    | returned =>
      simp only [hpc] at h
      split at h
      · rename_i hp
        simp only [Option.some.injEq] at h; subst h
        refine .synced call r _ hpc hp ?_
        have hsame : SameCount (syncFinish call.target s) :=
          ⟨call, r, by rw [syncFinish_pc, hpc], by rw [syncFinish_pauseCount]; exact hp⟩
        refine tail_afterSync b call.target r (syncFinish call.target s).aborted hok
          (Nat.le_refl _) (fun ht => ?_) (fun _ _ => hsame) fun c _ _ => .inl hsame
        rw [ht]; exact .inl rfl
      · rename_i hcnt
        simp only [Option.some.injEq] at h; subst h
        have hne : ¬ SameCount s := by
          rintro ⟨call', r', hpc', hcnt'⟩
          rw [hpc] at hpc'; cases hpc'
          exact hcnt hcnt'
        refine retry_cases hok (by rw [hpc]; rfl) (by rw [hpc]; rfl) hne fun c d hr ht => .inr ?_
        exact ⟨call, ht, by rw [hpc, hr]⟩
  | completing x =>
    simp only [hpc, Option.some.injEq] at h; subst h
    rw [hpc] at hok
    exact .complete x hpc hok
  | exited => simp [hpc] at h

/-! ## Application threads -/

/-- The HwCommand a thread inside `SyncCmd` synchronizes. -/
def AppPc.syncCmd : AppPc → Option HwCommand
  | .locking c => some c
  | .syncWait c => some c
  | .syncing _ _ c => some c
  | _ => none

/-- Every step of application thread `t`. -/
inductive AppStep (s : State) (t : Nat) : State → Prop
  | start (c : HwCommand) (hpc : s.app t = .idle) :
      AppStep s t
        (setApp t (if s.synchronizable c then .checkCompleted c else .waitCompleted c) s)
  | done (a : Bool) : AppStep s t (setApp t .idle { s with aborted := a })
  | notCompleted (c : HwCommand) (hpc : s.app t = .checkCompleted c) :
      AppStep s t (setApp t (.waitInFlight c) s)
  | launched (c : HwCommand) (hpc : s.app t = .waitInFlight c)
      (hc : 2 ≤ (s.cmdState (.hardware c)).val) : AppStep s t (setApp t (.locking c) s)
  | syncWait (c : HwCommand) (a : Bool) (hpc : (s.app t).syncCmd = some c) :
      AppStep s t (setApp t (.syncWait c) { s with aborted := a })
  | syncCall (c : HwCommand) (a : Bool) (hpc : (s.app t).syncCmd = some c)
      (hs : s.state = .running) (hc : s.cmdState (.hardware c) ≠ .completed)
      (ha : a = false → 2 ≤ (s.cmdState (.hardware c)).val) :
      AppStep s t
        (setApp t (.syncing ⟨.cmd c, s.pauseCount, []⟩ .unlocked c) { s with aborted := a })
  | calling (call : SyncCall) (c : HwCommand) (hpc : s.app t = .syncing call .unlocked c) :
      AppStep s t (setApp t (.syncing { call with launchedBefore := s.launched } .called c) s)
  | returning (call : SyncCall) (c : HwCommand) (hpc : s.app t = .syncing call .called c) :
      AppStep s t (setApp t (.syncing call .returned c) { s with returned := s.returned ++ [call] })
  | synced (call : SyncCall) (c : HwCommand) (hpc : s.app t = .syncing call .returned c)
      (hp : call.pauseCnt = s.pauseCount) :
      AppStep s t
        (setApp t .idle
          { s with
            cmdState := completeOn (s.cmdLog.takeWhile fun e => decide (e.idx ≤ c.idx)) s.cmdState,
            syncCmdLog := s.syncCmdLog.dropWhile fun e => decide (e.idx ≤ c.idx),
            cmdLog := s.cmdLog.dropWhile fun e => decide (e.idx ≤ c.idx) })

theorem appSync_cases {s : State} {t : Nat} {c : HwCommand} (hpc : (s.app t).syncCmd = some c)
    (a : Bool) : AppStep s t (appSync t c { s with aborted := a }) := by
  unfold appSync
  have hl : syncCmdWithLock c { s with aborted := a } = syncLoop (.cmd c) s := rfl
  rw [hl]
  split
  · exact .done a
  · exact .syncWait c a hpc
  · rename_i h
    obtain ⟨hs, hc⟩ := syncLoop_call h
    obtain ⟨a', ha', hl⟩ := syncLaunched_eq (s := { s with aborted := a }) (.cmd c)
    rw [ha']
    exact .syncCall c a' hpc hs (hc c rfl) (fun h => hl h c rfl)

theorem waitStart_cases {s s' : State} {t : Nat} {c : HwCommand}
    (h : waitStart t c s = some s') : AppStep s t s' := by
  unfold waitStart at h
  split at h
  · rename_i hpc
    simp only [Option.some.injEq] at h; subst h
    exact .start c hpc
  · cases h

/-- Every step of an application thread is an `AppStep`. -/
theorem stepApp_cases {s s' : State} {t : Nat} (h : stepApp t s = some s') : AppStep s t s' := by
  unfold stepApp at h
  cases hpc : s.app t with
  | idle => simp [hpc] at h
  | waitCompleted c =>
    simp only [hpc] at h
    split at h
    · simp only [Option.some.injEq] at h; subst h; exact .done s.aborted
    · cases h
  | checkCompleted c =>
    simp only [hpc] at h
    split at h
    · simp only [Option.some.injEq] at h; subst h; exact .done s.aborted
    · simp only [Option.some.injEq] at h; subst h; exact .notCompleted c hpc
  | waitInFlight c =>
    simp only [hpc] at h
    split at h
    · rename_i hc
      simp only [Option.some.injEq] at h; subst h; exact .launched c hpc hc
    · cases h
  | locking c =>
    simp only [hpc, Option.some.injEq] at h; subst h
    obtain ⟨a, ha⟩ := syncEntry_eq (s := s) (.cmd c)
    rw [ha]
    exact appSync_cases (by rw [hpc]; rfl) a
  | syncWait c =>
    simp only [hpc, Option.some.injEq] at h; subst h
    exact appSync_cases (by rw [hpc]; rfl) s.aborted
  | syncing call ph c =>
    cases ph with
    | unlocked =>
      simp only [hpc, Option.some.injEq] at h; subst h; exact .calling call c hpc
    | called =>
      simp only [hpc, Option.some.injEq] at h; subst h; exact .returning call c hpc
    | returned =>
      simp only [hpc] at h
      split at h
      · rename_i hp
        simp only [Option.some.injEq] at h; subst h
        rw [popLogs_eq]; exact .synced call c hpc hp
      · simp only [Option.some.injEq] at h; subst h
        exact appSync_cases (by rw [hpc]; rfl) s.aborted

/-! ## All steps -/

/-- A step of the machine, by who makes it. A HostFunctionCommand or
XQueueDestroyCommand is enqueued as a fresh object. -/
inductive Step (s : State) : Act → State → Prop
  | worker (b : Bool) (s' : State) (h : WorkerStep s s') : Step s (.worker b) s'
  | app (t : Nat) (s' : State) (h : AppStep s t s') : Step s (.app t) s'
  | wait (t : Nat) (c : HwCommand) (s' : State) (h : AppStep s t s') : Step s (.wait t c) s'
  | submit (c : HwCommand) (hidx : 0 < c.idx) (hc : c ∉ s.enqueued) :
      Step s (.submit c) (enqueue (.hardware c) s)
  | enqueueOther (act : Act) (x : XCommand)
      (hx : act = .enqueueHostFunction ∧ x = .hostFunction s.nextId ∨
        act = .enqueueDestroy ∧ x = .xQueueDestroy s.nextId) :
      Step s act (enqueue x { s with nextId := s.nextId + 1 })
  | waitAllShared (hl : s.lastCmd.isWaitAll) :
      Step s .enqueueWaitAll { s with waitAlls := s.waitAlls ++ [(s.lastCmd, s.enqueued)] }
  | waitAllAbort (hq : s.xqState = .idle) (hl : ¬ s.lastCmd.isWaitAll) :
      Step s .enqueueWaitAll (xassert false s)
  | waitAllFresh (hq : s.xqState ≠ .idle) (hl : ¬ s.lastCmd.isWaitAll) :
      Step s .enqueueWaitAll
        { setState (.xQueueWaitAll s.nextId) .pending s with
          lastCmd := .xQueueWaitAll s.nextId, cmds := s.cmds ++ [.xQueueWaitAll s.nextId],
          nextId := s.nextId + 1,
          waitAlls := s.waitAlls ++ [(.xQueueWaitAll s.nextId, s.enqueued)] }
  | dropAll :
      Step s .dropAll
        { s with cmdState := fun x => if x ∈ s.cmds then .completed else s.cmdState x,
                 cmds := [] }
  | pause : Step s .pause (pause s)
  | resume : Step s .resume (resume s)
  | resumeAndDrop (d : Int) :
      Step s (.resumeAndDrop d)
        { s with cmdState := completeOn s.cmdLog s.cmdState, syncCmdLog := [], cmdLog := [],
                 dropIdx := d, state := .running }

theorem enqueueWaitAll_cases (s : State) :
    Step s .enqueueWaitAll (enqueueXQueueWaitAllCommand s) := by
  unfold enqueueXQueueWaitAllCommand
  split
  · rename_i hq
    split
    · rename_i hl; exact .waitAllShared hl
    · rename_i hl; exact .waitAllAbort hq hl
  · rename_i hq
    split
    · rename_i hl; exact .waitAllShared hl
    · rename_i hl; exact .waitAllFresh hq hl

/-- Every step of the machine is a `Step`, from a state that has not aborted. -/
theorem step_cases {cfg : Config} {s s' : State} {act : Act} (hok : PcOk s.pc)
    (h : step cfg s act = some s') : s.aborted = false ∧ Step s act s' := by
  unfold step at h
  split at h
  · cases h
  · rename_i hab
    refine ⟨by simpa using hab, ?_⟩
    cases act with
    | worker b => exact .worker b s' (stepWorker_cases hok h)
    | app t => exact .app t s' (stepApp_cases h)
    | wait t c => exact .wait t c s' (waitStart_cases h)
    | submit c =>
      simp only at h
      split at h
      · rename_i hc
        simp only [Option.some.injEq] at h; subst h
        exact .submit c hc.1 hc.2
      · cases h
    | enqueueHostFunction =>
      simp only [Option.some.injEq] at h; subst h
      exact .enqueueOther _ _ (.inl ⟨rfl, rfl⟩)
    | enqueueDestroy =>
      simp only [Option.some.injEq] at h; subst h
      exact .enqueueOther _ _ (.inr ⟨rfl, rfl⟩)
    | enqueueWaitAll =>
      simp only [Option.some.injEq] at h; subst h
      exact enqueueWaitAll_cases s
    | dropAll => simp only [Option.some.injEq] at h; subst h; rw [dropAll_eq]; exact .dropAll
    | pause => simp only [Option.some.injEq] at h; subst h; exact .pause
    | resume => simp only [Option.some.injEq] at h; subst h; exact .resume
    | resumeAndDrop d =>
      simp only [Option.some.injEq] at h; subst h
      rw [resumeAndDrop_eq]; exact .resumeAndDrop d

end Xsched.Preempt
