import Xsched.Preempt.Course
import Xsched.Preempt.Progress

/-!
# The in-flight log is bounded and drains

`cmd_log_` never holds more than `threshold` commands (`log_bounded`): where
`LaunchHwCommand` goes on to launch, the log had an empty slot when it was
tested, or the wait for one popped at least its front. `Room` says so for
every point at which the worker gives up the lock.

So a command in flight has room for `threshold` launches behind it, and a
running queue without drops completes it (`in_flight_completed`): every round
of the worker launches a command, waits for everything, or is a
BatchSynchronize, after which the next round is one of the former.
-/
namespace Xsched.Preempt

variable {cfg : Config} {b : Bool} {c : HwCommand} {s s' : State}

/-! ## The threshold -/

/-- A wait for an empty slot: there is one already, or the command waited for
is in the log and not older than its front, so popping up to it pops. -/
def SlotWait (cfg : Config) (log : List HwCommand) : SyncTarget → Prop
  | .hwq => True
  | .cmd d => log.length < cfg.threshold ∨
      d ∈ log ∧ ∃ front rest, log = front :: rest ∧ front.idx ≤ d.idx

def PcRoom (cfg : Config) (log : List HwCommand) : WorkerPc → Prop
  | .launchWait _ => log.length < cfg.threshold
  | .syncWait t (.full _) => SlotWait cfg log t
  | .syncing call _ (.full _) => SlotWait cfg log call.target
  | _ => True

structure Room (cfg : Config) (s : State) : Prop where
  len : s.cmdLog.length ≤ cfg.threshold
  pc : PcRoom cfg s.cmdLog s.pc

theorem SlotWait.suffix {log log' : List HwCommand} {t : SyncTarget} (h : SlotWait cfg log t)
    (hlen : log.length ≤ cfg.threshold) (hs : log' <:+ log) : SlotWait cfg log' t := by
  cases t with
  | hwq => trivial
  | cmd d =>
    by_cases he : log'.length = log.length
    · rw [hs.eq_of_length he]; exact h
    · have hle := hs.length_le
      exact .inl (by omega)

theorem PcRoom.suffix {log log' : List HwCommand} {p : WorkerPc} (h : PcRoom cfg log p)
    (hlen : log.length ≤ cfg.threshold) (hs : log' <:+ log) : PcRoom cfg log' p := by
  cases p with
  | launchWait c => exact Nat.lt_of_le_of_lt hs.length_le h
  | syncWait t r =>
    cases r with
    | full c => exact SlotWait.suffix h hlen hs
    | _ => trivial
  | syncing call ph r =>
    cases r with
    | full c => exact SlotWait.suffix h hlen hs
    | _ => trivial
  | _ => trivial

theorem PcRoom.full {log : List HwCommand} {p : WorkerPc} (h : PcRoom cfg log p) {t : SyncTarget}
    (hw : p.waiting = some (t, .full c)) : SlotWait cfg log t := by
  cases p with
  | syncWait t' r =>
    cases hw
    exact h
  | syncing call ph r =>
    cases hw
    exact h
  | _ => cases hw

theorem pcRoom_of {log : List HwCommand} {p : WorkerPc}
    (hfull : ∀ t c, p.waiting = some (t, .full c) → SlotWait cfg log t)
    (hpaused : ∀ c, p = .launchWait c → log.length < cfg.threshold) : PcRoom cfg log p := by
  cases p with
  | launchWait c => exact hpaused c rfl
  | syncWait t r =>
    cases r with
    | full c => exact hfull t c rfl
    | _ => trivial
  | syncing call ph r =>
    cases r with
    | full c => exact hfull call.target c rfl
    | _ => trivial
  | _ => trivial

/-- Outside `LaunchHwCommand` there is nothing to say. -/
theorem pcRoom_elsewhere {log : List HwCommand} {p : WorkerPc} (h : ¬ InLaunch p) :
    PcRoom cfg log p :=
  pcRoom_of (fun _ _ hw => absurd (.full hw) h) fun c hc => absurd (hc ▸ .launchWait c) h

/-- The end of a wait for an empty slot leaves one. -/
theorem SlotWait.finish {t : SyncTarget} (h : SlotWait cfg s.cmdLog t)
    (hlen : s.cmdLog.length ≤ cfg.threshold) : (syncFinish t s).cmdLog.length < cfg.threshold := by
  cases t with
  | hwq => exact cfg.threshold_pos
  | cmd d =>
    have hle := (syncFinish_suffix (.cmd d) s).length_le
    rcases h with h | ⟨-, front, rest, hl, hidx⟩
    · omega
    · rw [syncFinish, popLogs_eq]
      show (s.cmdLog.dropWhile _).length < _
      rw [hl, List.dropWhile_cons_of_pos (by simpa using hidx)]
      have hrest : (rest.dropWhile fun c => decide (c.idx ≤ d.idx)).length ≤ rest.length :=
        (List.dropWhile_suffix _).length_le
      rw [hl, List.length_cons] at hlen
      omega

/-- The wait for an empty slot returns without a `Synchronize` only if there
is one. -/
theorem SlotWait.ret {t : SyncTarget} (h : SlotWait cfg s.cmdLog t) (hlog : LogInv s)
    (hs : s.state ≠ .terminated) (hret : syncLoop t s = .ret) :
    s.cmdLog.length < cfg.threshold := by
  cases t with
  | hwq =>
    rw [(syncLoop_hwq_ret hret).resolve_right hs]
    exact cfg.threshold_pos
  | cmd d =>
    refine h.resolve_right fun ⟨hd, _⟩ => ?_
    have hst := (hlog.inFlight d).2 hd
    simp only [syncLoop, syncCmdWithLock, hst, reduceCtorEq, if_false] at hret
    split at hret
    · cases hret
    · cases hret
    · rename_i he; exact hs he

/-- The command waited for when the log is full. -/
theorem slotWait_fullTarget (hlog : LogInv s) : SlotWait cfg s.cmdLog (fullTarget s) := by
  unfold fullTarget
  split
  · trivial
  · rename_i front rest hl
    split
    · rename_i d hd
      have hidx : front.idx ≤ d.idx := by simpa using List.find?_some hd
      refine .inr ⟨hlog.syncLog.subset (List.mem_of_find?_eq_some hd), front, rest, hl, hidx⟩
    · trivial

/-! ### The course of a launch -/

/-- `aborted` plays no part in the invariants. -/
theorem LogInv.abort (h : LogInv s) (a : Bool) : LogInv { s with aborted := a } :=
  h.congr h.pcOk rfl rfl rfl rfl rfl fun _ => rfl

theorem room_launchOrDrop (b : Bool) (h : s.cmdLog.length < cfg.threshold) :
    Room cfg (launchOrDrop cfg b c s) := by
  obtain ⟨hpc, hlog⟩ := launchOrDrop_log cfg b c s
  refine ⟨?_, by rw [hpc]; trivial⟩
  rcases hlog with ⟨-, hl⟩ | ⟨-, hl⟩
  · rw [hl]
    exact Nat.le_of_lt h
  · rw [hl, List.length_append]
    exact h

/-- A pass through `LaunchHwCommand`, from one of its parts on. -/
theorem goes_room {p : Part} (h : Goes cfg b c p s s') (hlen : s.cmdLog.length ≤ cfg.threshold)
    (hlog : LogInv s) (hs : s.state ≠ .terminated)
    (hspace : p = .paused ∨ p = .launch → s.cmdLog.length < cfg.threshold) : Room cfg s' := by
  induction h with
  | deactWait hw hscan hpc hsame =>
    refine ⟨by rw [hsame.cmdLog]; exact hlen, pcRoom_of (fun t c' hw' => ?_) fun c' hw' => ?_⟩
    · rw [hpc] at hw'
      cases hw'
    · rw [hw'] at hpc
      cases hpc
  | deactDone hw hscan hret h ih => exact ih hlen (hlog.abort _) hs (Or.elim · nofun nofun)
  | clear hclear h ih => exact ih hlen hlog hs (Or.elim · nofun nofun)
  | fullWait hfull hpc hsame =>
    have hslot : SlotWait cfg _ _ := slotWait_fullTarget hlog
    rw [← hsame.cmdLog] at hslot hlen
    refine ⟨hlen, pcRoom_of (fun t c' hw' => ?_) fun c' hw' => ?_⟩
    · rw [hpc] at hw'
      cases hw'
      exact hslot
    · rw [hw'] at hpc
      cases hpc
  | fullDone hfull hret h ih =>
    exact ih hlen (hlog.abort _) hs fun _ => (slotWait_fullTarget hlog).ret hlog hs hret
  | space hlt h ih => exact ih hlen hlog hs fun _ => hlt
  | pausedWait hpc hsame =>
    have hlt := hspace (Or.inl rfl)
    rw [← hsame.cmdLog] at hlt hlen
    refine ⟨hlen, ?_⟩
    rw [hpc]
    exact hlt
  | running h ih => exact ih hlen hlog hs fun _ => hspace (Or.inl rfl)
  | terminated ht => exact absurd ht hs
  | launch => exact room_launchOrDrop b (hspace (Or.inr rfl))

/-- Where the worker goes on to launch, there is a slot. -/
theorem At.space {p : Part} {t : State} (h : At s c p t) (hr : Room cfg s) (hlog : LogInv s)
    (hs : s.state ≠ .terminated) (hp : p = .paused ∨ p = .launch) :
    t.cmdLog.length < cfg.threshold := by
  cases h with
  | launchWait hpc =>
    have hpcr := hr.pc
    rw [hpc] at hpcr
    exact hpcr
  | fullRet hpc hret => exact (hr.pc.full hpc).ret hlog hs hret
  | fullSynced hpc => exact (hr.pc.full hpc).finish hr.len
  | _ => rcases hp with hp | hp <;> cases hp

theorem room_worker (hr : Room cfg s) (hlog : LogInv s) (hp : PauseInv s)
    (h : stepWorker cfg b s = some s') : Room cfg s' := by
  cases worker_course hlog.pcOk h with
  | @launching c p t _ hl hat hgo =>
    have hs := hp.locks_not_terminated hl
    have hspace := hat.space hr hlog hs
    rcases hat.eq with rfl | ⟨k, rfl⟩
    · exact goes_room hgo hr.len hlog hs hspace
    · refine goes_room hgo ?_ (logInv_syncFinish hlog k) ?_ hspace
      · exact Nat.le_trans (syncFinish_suffix k s).length_le hr.len
      · rw [syncFinish_state]
        exact hs
  | waits hpc hw hsame =>
    refine ⟨by rw [hsame.cmdLog]; exact hr.len, pcRoom_of (fun t c hc => ?_) fun c hc => ?_⟩
    · rw [hsame.cmdLog]
      exact hr.pc.full (hpc.symm.trans hc)
    · rw [← hpc, hc] at hw
      cases hw
  | elsewhere ht hpc hsame =>
    refine ⟨?_, pcRoom_elsewhere hpc⟩
    rw [hsame.cmdLog]
    exact Nat.le_trans (cmdLog_left ht).length_le hr.len

theorem room_step {act : Act} (hr : Room cfg s) (hlog : LogInv s) (hp : PauseInv s)
    (h : step cfg s act = some s') : Room cfg s' := by
  rcases course_cases hlog.pcOk h with ⟨b, -, hstep⟩ | ⟨hpc, t, ht, hsame⟩
  · exact room_worker hr hlog hp hstep
  · have hsuffix := cmdLog_left ht
    rw [← hsame.cmdLog] at hsuffix
    exact ⟨Nat.le_trans hsuffix.length_le hr.len, by rw [hpc]; exact hr.pc.suffix hr.len hsuffix⟩

theorem room_reachable (hr : (lts cfg).Reachable s) : Room cfg s := by
  refine LTS.reachable_induction (I := Room cfg) ?_ ?_ hr
  · rintro s rfl; exact ⟨Nat.zero_le _, trivial⟩
  · exact fun s act s' hr h hs =>
      room_step h (logInv_reachable hr) (pauseInv_reachable hr) hs

/-- **The in-flight log is bounded** by the threshold, in every reachable
state. -/
theorem log_bounded (hr : (lts cfg).Reachable s) : s.cmdLog.length ≤ cfg.threshold :=
  (room_reachable hr).len

/-! ## Draining -/

/-- The commands launched from `c` on, `c` included. -/
def State.behind (s : State) (c : HwCommand) : Nat :=
  (s.launched.dropWhile fun e => decide (e ≠ c)).length

/-- The round the worker is in, or its next one, can be a BatchSynchronize. -/
def State.mayBatch (s : State) : Bool :=
  match s.pipeline with
  | [] => !s.lastCmd.isBatch
  | x :: _ => x.isBatch

/-- How far the worker is from completing `c`, which is in flight: two rounds
for each launch there is room for, one of them a BatchSynchronize. -/
def drainMu (cfg : Config) (s : State) (c : HwCommand) : Nat :=
  34 * (cfg.threshold - s.behind c) + (if s.mayBatch then 17 else 0) + s.pc.phase s.pauseCount

theorem drainMu_le (cfg : Config) (s : State) (c : HwCommand) :
    drainMu cfg s c ≤ 34 * cfg.threshold + 33 := by
  have hle := phase_le s.pauseCount s.pc
  unfold drainMu
  split <;> omega

variable {c : HwCommand}

theorem behind_le (hlog : LogInv s) (hc : c ∈ s.cmdLog) : s.behind c ≤ s.cmdLog.length := by
  obtain ⟨pre, hpre⟩ := hlog.suffix
  have hnodup := hlog.launched_sublist.nodup hlog.nodup
  rw [← hpre, List.nodup_append] at hnodup
  have hne : ∀ e ∈ pre, decide (e ≠ c) = true := fun e he => by
    simpa using hnodup.2.2 e he c hc
  rw [State.behind, ← hpre, List.dropWhile_append_of_pos hne]
  exact (List.dropWhile_suffix _).length_le

theorem behind_launch {e : HwCommand} (hc : c ∈ s.launched) (hla : s'.launched = s.launched ++ [e]) :
    s'.behind c = s.behind c + 1 := by
  have hne : (s.launched.dropWhile fun e => decide (e ≠ c)) ≠ [] := by
    intro hnil
    have h := List.dropWhile_eq_nil_iff.1 hnil c hc
    simp at h
  rw [State.behind, hla, List.dropWhile_append, if_neg (by simpa using hne), List.length_append]
  rfl

/-- A BatchSynchronize is generated for an empty pipeline, so none stands
behind another XCommand. -/
def BatchInv (s : State) : Prop := ∀ x ∈ s.pipeline.tail, x.isBatch = false

theorem batchInv_step {act : Act} (h : BatchInv s) (ht : Step s act s') : BatchInv s' := by
  have hpop {x : XCommand} (hp : s.pipeline = x :: s'.pipeline) : BatchInv s' := by
    intro y hy
    refine h y ?_
    rw [hp]; exact List.mem_of_mem_tail hy
  unfold BatchInv
  cases step_pipe ht with
  | stay _ hp hl hid hla he => rw [hp]; exact h
  | push _ x hx hp hl hid hla he hst hb hds =>
    rw [hp]
    cases hs : s.pipeline with
    | nil => exact fun y hy => nomatch hy
    | cons z zs =>
      intro y hy
      rcases List.mem_append.1 hy with hy | hy
      · exact h y (by rw [hs]; exact hy)
      · rw [List.mem_singleton.1 hy]
        by_contra hxb
        have hnil := (hb (by simpa using hxb)).1
        rw [hs] at hnil; cases hnil
  | finish _ x hx hc hp hl hid hla he => exact hpop hp
  | launch _ e hp hl hid hd hla he => exact hpop hp
  | drop _ e hp hl hid hd hla he hst => exact hpop hp
  | dropAll hp hl hid hla he hst =>
    rw [hp]
    cases s.pc.cmd <;> exact fun y hy => nomatch hy

theorem batchInv_reachable (hr : (lts cfg).Reachable s) : BatchInv s := by
  refine LTS.reachable_induction (I := BatchInv) ?_ ?_ hr
  · rintro s rfl x hx; cases hx
  · exact fun s act s' hr h hs => batchInv_step h (step_of_reachable hr hs)

theorem mayBatch_congr (hp : s'.pipeline = s.pipeline) (hl : s'.lastCmd = s.lastCmd) :
    s'.mayBatch = s.mayBatch := by
  rw [State.mayBatch, State.mayBatch, hp, hl]

/-- Pushing an XCommand brings a BatchSynchronize only where one was due. -/
theorem mayBatch_push {x : XCommand} (hp : s'.pipeline = s.pipeline ++ [x])
    (hb : x.isBatch → s.pipeline = [] ∧ s.lastCmd.isBatch = false) (h : s'.mayBatch = true) :
    s.mayBatch = true := by
  unfold State.mayBatch at h ⊢
  rw [hp] at h
  cases hs : s.pipeline with
  | nil =>
    rw [hs] at h
    simpa using (hb h).2
  | cons y ys => rw [hs] at h; exact h

/-- After a BatchSynchronize none is due. -/
theorem mayBatch_finish {x : XCommand} (hbatch : BatchInv s) (hlast : LastInv s) (hx : x.isBatch)
    (hp : s.pipeline = x :: s'.pipeline) (hl : s'.lastCmd = s.lastCmd) : s'.mayBatch = false := by
  unfold State.mayBatch
  cases hs : s'.pipeline with
  | nil =>
    rcases hlast with ⟨l, hlast⟩ | ⟨hnil, -⟩
    · rw [hp, hs] at hlast
      have hlen := congrArg List.length hlast
      rw [List.length_append, List.length_singleton, List.length_singleton] at hlen
      have hl0 : l = [] := List.length_eq_zero_iff.1 (by omega)
      rw [hl0] at hlast
      rw [hl, ← (List.cons_eq_cons.1 hlast).1, hx]; rfl
    · rw [hp] at hnil; cases hnil
  | cons y ys =>
    refine hbatch y ?_
    rw [hp, hs]; exact List.mem_cons_self

/-- After a step, `c` is completed, or still in flight at a distance below `k`. -/
inductive Nearer (cfg : Config) (s' : State) (c : HwCommand) (k : Nat) : Prop
  | completed (h : s'.cmdState (.hardware c) = .completed)
  | nearer (hc : c ∈ s'.cmdLog) (hs : s'.state = .running) (hmu : drainMu cfg s' c < k)

/-- A step of the worker brings the completion of `c` nearer. -/
theorem worker_nearer {b : Bool} (hr : ((lts cfg).restrict NoDrop).Reachable s)
    (hc : c ∈ s.cmdLog) (hs : s.state = .running) (hstep : (lts cfg).step s (.worker b) s')
    (ha : s'.aborted = false) : Nearer cfg s' c (drainMu cfg s c) := by
  have hr' := hr.of_restrict.step hstep
  have hlog := logInv_reachable hr.of_restrict
  have hst := step_of_reachable hr.of_restrict hstep
  have hla : c ∈ s.launched := hlog.mem_launched hc
  have ht : WorkerStep s s' := by
    cases hst with
    | worker b s' ht => exact ht
    | enqueueOther act x hx => rcases hx with ⟨h, -⟩ | ⟨h, -⟩ <;> cases h
  by_cases hc' : c ∈ s'.cmdLog
  swap
  · have hdone := (logInv_reachable hr').done c ((step_launched hst).subset hla)
    exact .completed (hdone.resolve_left hc')
  have hs' : s'.state = .running := by
    rcases worker_state_eq hs ht with hs' | ⟨-, hnil⟩
    · exact hs'
    · rw [hnil] at hc'; cases hc'
  refine .nearer hc' hs' ?_
  obtain ⟨hcnt, hless⟩ := worker_phase hs ht ha
  have hle := phase_le s.pauseCount s'.pc
  unfold drainMu
  rw [hcnt]
  cases step_pipe hst with
  | stay _ hp hl hid hla' he =>
    rw [hp] at hless
    rw [mayBatch_congr hp hl, State.behind, hla']
    have hphase := hless.resolve_left (Nat.lt_irrefl _)
    exact Nat.add_lt_add_left hphase _
  | push _ x hx hp hl hid hla' he hst hb hds =>
    have hphase := hless.resolve_left (by rw [hp, List.length_append]; omega)
    have hmay := mayBatch_push hp hb
    rw [State.behind, hla', ← State.behind]
    cases hm' : s'.mayBatch with
    | false => simp only [Bool.false_eq_true, if_false]; omega
    | true => rw [hmay hm']; omega
  | finish _ x hx hcx hp hl hid hla' he =>
    have hxb : x.isBatch = true := by
      by_contra hxb
      have hnil := completingInv_reachable hr.of_restrict x (hcx (by simpa using hxb))
        (by simpa using hxb)
      rw [hnil] at hc; cases hc
    have hmay : s.mayBatch = true := by rw [State.mayBatch, hp]; exact hxb
    rw [State.behind, hla', ← State.behind, hmay,
      mayBatch_finish (batchInv_reachable hr.of_restrict) (lastInv_reachable hr) hxb hp hl]
    simp only [Bool.false_eq_true, if_false, if_true]
    omega
  | launch _ e hp hl hid hd hla' he =>
    have hbound := Nat.le_trans (behind_le (logInv_reachable hr') hc') (log_bounded hr')
    have hbehind := behind_launch hla hla'
    split <;> split <;> omega
  | drop _ e hp hl hid hd hla' he hst =>
    have hlt := (fifoInv_reachable hr).not_dropped hp
    omega

/-- Without drops only the worker takes something out of the pipeline. -/
theorem other_pipeline {act : Act} (ht : Step s act s') (hcalm : Calm s act)
    (hw : act.isWorker = false) : s.pipeline <+: s'.pipeline := by
  have hpush (x : XCommand) : s.pipeline <+: s.pc.cmd.toList ++ (s.cmds ++ [x]) :=
    ⟨[x], List.append_assoc _ _ _⟩
  cases ht with
  | worker b s' ht => cases hw
  | app t s' ht => cases ht <;> exact List.prefix_refl _
  | wait t d s' ht => cases ht <;> exact List.prefix_refl _
  | submit e hidx he => exact hpush _
  | enqueueOther act x hx => exact hpush x
  | waitAllFresh hq hl => exact hpush _
  | dropAll => cases hcalm.2
  | _ => exact List.prefix_refl _

/-- A calm step of anybody else does not delay it. -/
theorem other_nearer {act : Act} (hr : (lts cfg).Reachable s) (hc : c ∈ s.cmdLog)
    (hs : s.state = .running) (hstep : (lts cfg).step s act s') (hcalm : Calm s act)
    (hw : act.isWorker = false) : Nearer cfg s' c (drainMu cfg s c + 1) := by
  have ht := step_of_reachable hr hstep
  have hla : c ∈ s.launched := (logInv_reachable hr).mem_launched hc
  by_cases hc' : c ∈ s'.cmdLog
  swap
  · have hdone := (logInv_reachable (hr.step hstep)).done c ((step_launched ht).subset hla)
    exact .completed (hdone.resolve_left hc')
  obtain ⟨hs', hcnt, hpc⟩ := calm_frame hs ht hcalm hw
  refine .nearer hc' hs' (Nat.lt_succ_of_le ?_)
  have hnopop {x : XCommand} : s.pipeline ≠ x :: s'.pipeline := by
    intro hp
    have hle := (other_pipeline ht hcalm hw).length_le
    rw [hp, List.length_cons] at hle
    omega
  unfold drainMu
  rw [hcnt, hpc]
  cases step_pipe ht with
  | stay _ hp hl hid hla' he =>
    rw [mayBatch_congr hp hl, State.behind, hla']; exact Nat.le_refl _
  | push _ x hx hp hl hid hla' he hst hb hds =>
    have hmay := mayBatch_push hp hb
    rw [State.behind, hla', ← State.behind]
    cases hm' : s'.mayBatch with
    | false => simp only [Bool.false_eq_true, if_false]; omega
    | true => rw [hmay hm']
  | finish _ x hx hcx hp hl hid hla' he => exact absurd hp hnopop
  | launch _ e hp hl hid hd hla' he => exact absurd hp hnopop
  | drop _ e hp hl hid hd hla' he hst => exact absurd hp hnopop
  | dropAll => cases hcalm.2

/-- **A command in flight is completed** in every calm run with more than
`drainMu` steps of the worker. -/
theorem in_flight_completed {ls : List Act} (hrun : ((lts cfg).restrict Calm).Run s ls s')
    (hr : ((lts cfg).restrict NoDrop).Reachable s) (hc : c ∈ s.cmdLog) (hs : s.state = .running)
    (hcount : drainMu cfg s c < ls.countP Act.isWorker) (ha : s'.aborted = false) :
    s'.cmdState (.hardware c) = .completed := by
  induction hrun with
  | nil s => exact absurd hcount (Nat.not_lt_zero _)
  | @cons s act s₁ ls s₂ hstep hrest ih =>
    have hr₁ : ((lts cfg).restrict NoDrop).Reachable s₁ := hr.step ⟨hstep.1, hstep.2.2⟩
    have ha₁ : s₁.aborted = false := by
      by_contra hab
      rw [aborted_run hrest.of_restrict (by simpa using hab)] at ha
      exact hab ha
    have hnearer : ∃ k, Nearer cfg s₁ c k ∧ k ≤ ls.countP Act.isWorker := by
      rw [List.countP_cons] at hcount
      cases hw : act.isWorker with
      | false =>
        rw [hw] at hcount
        exact ⟨_, other_nearer hr.of_restrict hc hs hstep.1 hstep.2 hw, hcount⟩
      | true =>
        rw [hw] at hcount
        cases act with
        | worker b => exact ⟨_, worker_nearer hr hc hs hstep.1 ha₁, Nat.lt_succ_iff.1 hcount⟩
        | _ => cases hw
    obtain ⟨k, hk, hkls⟩ := hnearer
    cases hk with
    | completed h => exact run_completed hrest.of_restrict hr₁.of_restrict h
    | nearer hc₁ hs₁ hmu => exact ih hr₁ hc₁ hs₁ (by omega) ha

end Xsched.Preempt
