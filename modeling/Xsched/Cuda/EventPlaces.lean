import Xsched.Cuda.EventLife
import Xsched.Cuda.Streams

/-!
# Where the commands of an event are

For every order of steps of `EventLife`: the record commands in the queues are
the ones that `XEventRecord` made, a command it or `XStreamWaitEvent` made is
enqueued or in its Submit, and a thread in `AsyncXQueue::Wait` is there for a
record command (`Places`). What a step does to them is said once for the
queues (`QueueStep`), the record commands (`RecordStep`) and the wait commands
(`WaitStep`).

Of one queue: a command that is Completed with no thread about to call
`Synchronize` on it stays so (`unfinished_step`), and the driver is called for
other commands only (`driverCalls_unfinished`).
-/
namespace Xsched.Preempt

/-- A thread is about to call `Synchronize` on `c`. -/
def State.Calls (s : State) (c : HwCommand) : Prop :=
  (∃ call r, s.pc = .syncing call .unlocked r ∧ call.target = .cmd c) ∨
  ∃ n call, s.app n = .syncing call .unlocked c

section
variable {s s' : State} {c : HwCommand}

theorem calls_of_eq (hpc : s'.pc = s.pc) (happ : s'.app = s.app) (h : s'.Calls c) : s.Calls c := by
  unfold State.Calls at h ⊢
  rw [← hpc, ← happ]
  exact h

/-- A locked region that ends with a call on `c`. -/
theorem tail_calls {n : Nat} {x : XCommand} (ht : Tail n x s s') {call : SyncCall} {r : SyncRet}
    (hpc : s'.pc = .syncing call .unlocked r) (hc : call.target = .cmd c) :
    s'.pc = s.pc ∨ s.cmdState (.hardware c) ≠ .completed := by
  cases ht with
  | syncCall t r' a hx hr hn hs hd ha =>
    cases hpc
    exact .inr (hd c hc)
  | abort => exact .inl rfl
  | _ => cases hpc

theorem syncFinish_completed (t : SyncTarget) (h : s.cmdState (.hardware c) = .completed) :
    (syncFinish t s).cmdState (.hardware c) = .completed := by
  cases t with
  | hwq =>
    rw [syncFinish, clearLogs_eq]
    show completeOn _ s.cmdState (.hardware c) = _
    rw [completeOn_hw, h, ite_self]
  | cmd d =>
    rw [syncFinish, popLogs_eq]
    show completeOn _ s.cmdState (.hardware c) = _
    rw [completeOn_hw, h, ite_self]

theorem worker_calls (ht : WorkerStep s s') (h : s'.Calls c) :
    s.Calls c ∨ s.cmdState (.hardware c) ≠ .completed := by
  have happ := worker_app ht
  rcases h with ⟨call, r, hpc', htgt⟩ | h
  · cases ht with
    | region x s' hpc hne ht =>
      rcases tail_calls ht hpc' htgt with hp | hp
      · exact .inl (.inl ⟨call, r, by rw [← hp]; exact hpc', htgt⟩)
      · exact .inr hp
    | synced call' r' s' hpc hp ht =>
      rcases tail_calls ht hpc' htgt with hp | hp
      · rw [syncFinish_pc, hpc, hpc'] at hp
        cases hp
      · exact .inr (mt (syncFinish_completed call'.target) hp)
    | complete x hpc hx =>
      have hpc' : WorkerPc.after x = .syncing call .unlocked r := hpc'
      cases x <;> cases hpc'
    | _ => cases hpc'
  · rw [happ] at h
    exact .inl (.inr h)

theorem app_calls {t : Nat} (ht : AppStep s t s') (h : s'.Calls c) :
    s.Calls c ∨ s.cmdState (.hardware c) ≠ .completed := by
  -- thread `t` goes to `p`
  have hset {p : AppPc} {s₁ : State} (hpc : s₁.pc = s.pc) (happ : s₁.app = s.app)
      (hp : ∀ call, p = .syncing call .unlocked c → s.cmdState (.hardware c) ≠ .completed)
      (h : (setApp t p s₁).Calls c) : s.Calls c ∨ s.cmdState (.hardware c) ≠ .completed := by
    rcases h with ⟨call, r, hr, htgt⟩ | ⟨n, call, hn⟩
    · exact .inl (.inl ⟨call, r, by rw [← hpc]; exact hr, htgt⟩)
    · by_cases he : n = t
      · rw [he, setApp_self] at hn
        exact .inr (hp call hn)
      · have hn' : Function.update s₁.app t p n = .syncing call .unlocked c := hn
        rw [Function.update_of_ne he, happ] at hn'
        exact .inl (.inr ⟨n, call, hn'⟩)
  cases ht with
  | start d hpc =>
    refine hset rfl rfl (fun call hp => ?_) h
    split at hp <;> cases hp
  | syncCall d a hpc hs hc ha =>
    refine hset rfl rfl (fun call hp => ?_) h
    cases hp
    exact hc
  | _ => exact hset rfl rfl (by intro call hp; cases hp) h

/-- A new call is made on a command that is not Completed. -/
theorem step_calls {cfg : Config} {act : Act} (hr : (lts cfg).Reachable s)
    (hs : (lts cfg).step s act s') (h : s'.Calls c) :
    s.Calls c ∨ s.cmdState (.hardware c) ≠ .completed := by
  cases step_of_reachable hr hs with
  | worker b s' ht => exact worker_calls ht h
  | app t s' ht => exact app_calls ht h
  | wait t d s' ht => exact app_calls ht h
  | _ => exact .inl (calls_of_eq rfl rfl h)

theorem AppPc.cmd_of_syncCmd {p : AppPc} (h : p.syncCmd = some c) : p.cmd = some c := by
  cases p <;> first | exact h | cases h

/-- Only `Wait(c)` makes a thread wait for `c`. -/
theorem step_appCmd {cfg : Config} {act : Act} {n : Nat} (hr : (lts cfg).Reachable s)
    (hs : (lts cfg).step s act s') (h : (s'.app n).cmd = some c) :
    (s.app n).cmd = some c ∨ act = .wait n c := by
  have hab := not_aborted hr hs
  have hstep : step cfg s act = some s' := hs
  have ht := step_of_reachable hr hs
  by_cases hwait : ∃ d, act = .wait n d
  · obtain ⟨d, rfl⟩ := hwait
    simp only [step, hab, Bool.false_eq_true, if_false, waitStart,
      Option.ite_none_right_eq_some, Option.some.injEq] at hstep
    obtain ⟨-, rfl⟩ := hstep
    rw [setApp_self] at h
    right
    split at h <;> cases h <;> rfl
  · by_cases happ : act = .app n
    · subst happ
      left
      cases ht with
      | app _ s' ht =>
        cases ht with
        | start d hpc => simp [step, hab, stepApp, hpc] at hstep
        | notCompleted d hpc => rw [setApp_self] at h; rw [hpc]; exact h
        | launched d hpc hc => rw [setApp_self] at h; rw [hpc]; exact h
        | syncWait d a hpc =>
          rw [setApp_self] at h
          cases h
          exact AppPc.cmd_of_syncCmd hpc
        | syncCall d a hpc hst hc ha =>
          rw [setApp_self] at h
          cases h
          exact AppPc.cmd_of_syncCmd hpc
        | calling call d hpc => rw [setApp_self] at h; rw [hpc]; exact h
        | returning call d hpc => rw [setApp_self] at h; rw [hpc]; exact h
        | done a => rw [setApp_self] at h; cases h
        | synced call d hpc hp => rw [setApp_self] at h; cases h
      | enqueueOther _ x hx => rcases hx with ⟨hx, -⟩ | ⟨hx, -⟩ <;> cases hx
    · left
      rw [← step_app ht happ fun d hd => hwait ⟨d, hd⟩]
      exact h

end
end Xsched.Preempt

namespace Xsched.Preempt.AsyncXQueue

/-- A thread enters `Wait` by a step of its own. -/
theorem Step.wait_step {cfg : Config} {x x' : AsyncXQueue} {act : XAct} (h : Step cfg x act x') :
    x'.machine = x.machine ∨ ∃ a, (Preempt.lts cfg).step x.machine a x'.machine ∧
      ∀ n c, a = .wait n c → act = .machine a := by
  cases h with
  | machine a m hd hm => exact .inr ⟨a, hm, fun _ _ _ => rfl⟩
  | enqueue t c m hpc hm => exact .inr ⟨_, hm, nofun⟩
  | pause t flags m hpc hm => exact .inr ⟨_, hm, nofun⟩
  | resume t call m hpc hm => exact .inr ⟨_, hm, nofun⟩
  | dropAll t call m hpc hm => exact .inr ⟨_, hm, nofun⟩
  | resumeAndDrop t call d m hpc hm => exact .inr ⟨_, hm, nofun⟩
  | _ => exact .inl rfl

end Xsched.Preempt.AsyncXQueue

namespace Xsched.Cuda
open Preempt
open Preempt.AsyncXQueue (XAct)

/-! ## One queue -/

/-- A driver call on the event of `c` may still come: `c` is not Completed, or a
thread is about to call `Synchronize` on it. -/
def Unfinished (x : AsyncXQueue) (c : HwCommand) : Prop :=
  x.machine.cmdState (.hardware c) ≠ .completed ∨ x.machine.Calls c

section
variable {cfg : Config} {x x' : AsyncXQueue} {act : XAct} {c : HwCommand}

/-- It does not come back. -/
theorem unfinished_step (hr : (AsyncXQueue.lts cfg).Reachable x)
    (hs : (AsyncXQueue.lts cfg).step x act x') (h : Unfinished x' c) : Unfinished x c := by
  have hm := AsyncXQueue.machine_reachable hr
  by_cases hdone : x.machine.cmdState (.hardware c) = .completed
  · right
    have hcalls : x'.machine.Calls c :=
      h.resolve_left fun hne => hne ((Modules.kept_step hr hs).completed c hdone)
    rcases (AsyncXQueue.step_of_lts hs).machine_step with he | ⟨a, ha⟩
    · rw [← he]; exact hcalls
    · exact (step_calls hm ha hcalls).resolve_right fun hne => hne hdone
  · exact .inl hdone

/-- The command is enqueued or on its way there with thread `t`. -/
def Entered (x : AsyncXQueue) (t : Nat) (c : HwCommand) : Prop :=
  (x.submits t).pending = some c ∨ c ∈ x.machine.enqueued

theorem Entered.step {t : Nat} (h : Entered x t c) (hr : (AsyncXQueue.lts cfg).Reachable x)
    (hs : (AsyncXQueue.lts cfg).step x act x') : Entered x' t c := by
  have hkept := Modules.kept_step hr hs
  rcases h with h | h
  · exact hkept.pending t c h
  · exact .inr (hkept.enqueued h)

theorem Entered.idle {t : Nat} (h : Entered x t c) (hidle : x.submits t = .idle) :
    c ∈ x.machine.enqueued := by
  refine h.resolve_left fun hp => ?_
  rw [hidle] at hp; cases hp

/-- Submit gives its command the next index. -/
theorem submit_entered {t : Nat} {props : XCommandProperties} {kind : HwCommandKind}
    (hs : (AsyncXQueue.lts cfg).step x (.submit t props kind) x') :
    Entered x' t ⟨x.nextHwCmdIdx, props, kind⟩ := by
  have hs' : AsyncXQueue.step cfg x (.submit t props kind) = some x' := hs
  simp only [AsyncXQueue.step, Option.ite_none_left_eq_some, Option.ite_none_right_eq_some,
    Option.some.injEq] at hs'
  obtain ⟨-, -, rfl⟩ := hs'
  left
  rw [AsyncXQueue.allocate, AsyncXQueue.setSubmit_submits, if_pos rfl]
  rfl

/-- Something refers to an enqueued command until it is Completed. -/
theorem enqueued_refers (hr : (AsyncXQueue.lts cfg).Reachable x) (hc : c ∈ x.machine.enqueued)
    (hne : x.machine.cmdState (.hardware c) ≠ .completed) : Refers x c := by
  have hm := AsyncXQueue.machine_reachable hr
  rcases accounted_reachable hm c hc with hl | hp | hdone
  · have hlog := ((logInv_reachable hm).done c hl).resolve_right hne
    exact .inr (.inr (.inr (.inr (.inl hlog))))
  · rw [State.pipeline] at hp
    rcases List.mem_append.1 hp with hp | hp
    · exact .inr (.inr (.inl (Option.mem_toList.1 hp)))
    · exact .inl hp
  · exact absurd hdone hne

theorem enqueued_of_state (hr : (AsyncXQueue.lts cfg).Reachable x)
    (hc : x.machine.cmdState (.hardware c) ≠ .created) : c ∈ x.machine.enqueued := by
  by_contra hn
  exact hc ((logInv_reachable (AsyncXQueue.machine_reachable hr)).created c hn)

/-- The driver is called for enqueued commands that may still be called for. -/
theorem driverCalls_unfinished {k e : Nat} (hr : (AsyncXQueue.lts cfg).Reachable x)
    (hs : (AsyncXQueue.lts cfg).step x act x') (he : e ∈ driverCalls x act k x') :
    ∃ c, c.kind = .eventRecord e ∧ c ∈ x.machine.enqueued ∧ Unfinished x c := by
  have hm := AsyncXQueue.machine_reachable hr
  obtain ⟨c, hc, hkind⟩ := List.mem_filterMap.1 he
  refine ⟨c, recordedEvent_eq.1 hkind, ?_⟩
  rcases List.mem_append.1 hc with hc | hc
  · rcases List.mem_append.1 hc with hc | hc
    · have hpend := Modules.newLaunch_pending hr hs (Option.mem_toList.1 hc)
      exact ⟨enqueued_of_state hr (by rw [hpend]; nofun), .inl (by rw [hpend]; nofun)⟩
    · unfold syncCalls at hc
      split at hc
      · rename_i call cnt before hcall
        cases List.mem_singleton.1 hc
        obtain ⟨v, -, hv⟩ := Option.bind_eq_some_iff.1 hcall
        have hsync := syncInv_reachable hm (AsyncXQueue.step_cases hs).1
        have hl : c ∈ x.machine.launched := hsync.call_ok hv c rfl
        refine ⟨(logInv_reachable hm).launched_sublist.subset hl, .inr ?_⟩
        cases v with
        | worker =>
          obtain ⟨r, hpc⟩ := call_worker.1 hv
          exact .inl ⟨_, r, hpc, rfl⟩
        | app n =>
          obtain ⟨d, hpc⟩ := call_app.1 hv
          have htgt : SyncTarget.cmd c = .cmd d := (hsync.app n _ _ d hpc).1
          cases htgt
          exact .inr ⟨n, _, hpc⟩
      · cases hc
  · have hlog : c ∈ x.machine.cmdLog := by
      unfold reactivateCalls at hc
      split at hc
      · split at hc
        · split at hc
          · cases hc
          · exact List.mem_of_mem_filter hc
        · cases hc
      · cases hc
    have hstate := ((logInv_reachable hm).inFlight c).2 hlog
    exact ⟨enqueued_of_state hr (by rw [hstate]; nofun), .inl (by rw [hstate]; nofun)⟩

end

namespace EventLife
variable {cfg : Nat → Config} {s s' : EventLife}

/-! ## What a step does to the queues and the commands -/

theorem setXq_self (i : Nat) (x : AsyncXQueue) (s : EventLife) : (setXq i x s).xq i = x :=
  Function.update_self _ _ _

theorem setXq_other {i j : Nat} (x : AsyncXQueue) (s : EventLife) (h : j ≠ i) :
    (setXq i x s).xq j = s.xq j := Function.update_of_ne h _ _

/-- What `HwCommand::Wait` leaves alone. -/
theorem Waits.frame {u : Waiter} {r : RecordCmd} (h : Waits cfg u r s s') :
    ∃ xq waiting misused, s' = { s with xq := xq, waiting := waiting, misused := misused } := by
  cases h with
  | direct event n hr => exact ⟨_, _, _, rfl⟩
  | completed => exact ⟨_, _, _, rfl⟩
  | wait event i c x hr hs => exact ⟨_, _, _, rfl⟩

/-- A step of queue `i`: a Submit of a record command is one that is recorded,
and a thread enters `Wait` as a waiter. -/
structure QueueStep (cfg : Nat → Config) (s s' : EventLife) (i : Nat) (a : XAct) : Prop where
  step : (AsyncXQueue.lts (cfg i)).step (s.xq i) a (s'.xq i)
  submit : ∀ t props e, a = .submit t props (.eventRecord e) →
    .submitted e i ⟨(s.xq i).nextHwCmdIdx, props, .eventRecord e⟩ ∈ s'.records
  wait : ∀ n c, a = .machine (.wait n c) →
    ∃ u e, Waiter.thread u = n ∧ (u, .submitted e i c) ∈ s'.waiting

theorem Waits.queues {u : Waiter} {r : RecordCmd} (h : Waits cfg u r s s') (j : Nat) :
    s'.xq j = s.xq j ∨ ∃ a, QueueStep cfg s s' j a := by
  cases h with
  | direct event n hr => exact .inl rfl
  | completed => exact .inl rfl
  | wait event i c x hr hs =>
    by_cases hj : j = i
    · subst hj
      refine .inr ⟨.machine (.wait u.thread c), by rw [setXq_self]; exact hs, nofun, ?_⟩
      rintro n d ⟨⟩
      exact ⟨u, event, rfl, by rw [← hr]; exact List.mem_append_right _ List.mem_cons_self⟩
    · exact .inl (setXq_other x s hj)

theorem Step.queues {act : LifeAct} (h : Step cfg s act s') (j : Nat) :
    s'.xq j = s.xq j ∨ ∃ a, QueueStep cfg s s' j a := by
  cases h with
  | recordSubmit t e i c x hgone hc hs =>
    subst hc
    by_cases hj : j = i
    · subst hj
      refine .inr ⟨.submit t _ _, by rw [setXq_self]; exact hs, ?_, nofun⟩
      rintro t' props e' ⟨⟩
      exact List.mem_append_right _ List.mem_cons_self
    · exact .inl (setXq_other x s hj)
  | waitNow t e r s' hev hw => exact hw.queues j
  | waitSubmit t e i r c x hev hc hs =>
    subst hc
    by_cases hj : j = i
    · subst hj
      refine .inr ⟨.submit t _ _, by rw [setXq_self]; exact hs, ?_, nofun⟩
      rintro t' props e' ⟨⟩
    · exact .inl (setXq_other x s hj)
  | beforeLaunch v s' hv hpc hcall hw =>
    exact (hw.queues j).imp_right fun ⟨a, ha⟩ => ⟨a, ha.step, ha.submit, ha.wait⟩
  | destruct r hr hdes hheld =>
    left
    split <;> rfl
  | queue i act k x hact hs =>
    by_cases hj : j = i
    · subst hj
      refine .inr ⟨act, by rw [← setXq_self j x s] at hs; exact hs, ?_, ?_⟩
      · rintro t props e rfl
        simp [allows, recordedEvent] at hact
      · rintro n c rfl
        cases hact
    · exact .inl (setXq_other x s hj)
  | _ => exact .inl rfl

/-- What a step does to the record commands. -/
inductive RecordStep (s s' : EventLife) : Prop
  | same (hrec : s'.records = s.records) (hin : s'.recording = s.recording)
      (hnext : s'.nextDirect = s.nextDirect)
  | start (t : Nat) (r : RecordCmd) (hgone : s.gone r.event = false)
      (hrec : s'.records = s.records ++ [r]) (hin : s'.recording = s.recording ++ [(t, r)])
      (hcmd : ∀ e i c, r = .submitted e i c →
        c.kind = .eventRecord e ∧ c.idx = (s.xq i).nextHwCmdIdx ∧ Entered (s'.xq i) t c)
      (hnum : ∀ e n, r = .direct e n → n = s.nextDirect ∧ s'.nextDirect = s.nextDirect + 1)
      (hnext : s.nextDirect ≤ s'.nextDirect)
  | finish (t : Nat) (r : RecordCmd) (hmem : (t, r) ∈ s.recording) (hret : s.Returned t r)
      (hrec : s'.records = s.records)
      (hin : s'.recording = s.recording.filter fun p => decide (p ≠ (t, r)))
      (hev : s'.gEvents = Function.update s.gEvents r.event (some r))
      (hnext : s'.nextDirect = s.nextDirect)

theorem Step.record {act : LifeAct} (h : Step cfg s act s') : RecordStep s s' := by
  cases h with
  | recordDirect t e hgone =>
    exact .start t (.direct e s.nextDirect) hgone rfl rfl nofun
      (by rintro e' n ⟨⟩; exact ⟨rfl, rfl⟩) (Nat.le_succ _)
  | recordSubmit t e i c x hgone hc hs =>
    refine .start t (.submitted e i c) hgone rfl rfl ?_ nofun (Nat.le_refl _)
    rintro e' i' c' ⟨⟩
    subst hc
    refine ⟨rfl, rfl, ?_⟩
    show Entered ((setXq i x s).xq i) t _
    rw [setXq_self]
    exact submit_entered hs
  | addEvent t r hr hret => exact .finish t r hr hret rfl rfl rfl rfl
  | waitNow t e r s' hev hw =>
    obtain ⟨xq, waiting, misused, rfl⟩ := hw.frame
    exact .same rfl rfl rfl
  | beforeLaunch v s' hv hpc hcall hw =>
    obtain ⟨xq, waiting, misused, rfl⟩ := hw.frame
    exact .same rfl rfl rfl
  | destruct r hr hdes hheld => split <;> exact .same rfl rfl rfl
  | _ => exact .same rfl rfl rfl

theorem RecordStep.subset (h : RecordStep s s') : s.records ⊆ s'.records := by
  cases h with
  | same hrec hin hnext => rw [hrec]; exact List.Subset.refl _
  | start t r hgone hrec hin hcmd hnum hnext => rw [hrec]; exact List.subset_append_left _ _
  | finish t r hmem hret hrec hin hev hnext => rw [hrec]; exact List.Subset.refl _

/-- What a step does to the wait commands. -/
inductive WaitStep (s s' : EventLife) : Prop
  | same (hw : s'.waits = s.waits) (hsub : s'.submitting = s.submitting)
  | start (t e : Nat) (v : EventWait) (hev : s.gEvents e = some v.record)
      (hw : s'.waits = s.waits ++ [v]) (hsub : s'.submitting = s.submitting ++ [(t, v)])
      (hin : Entered (s'.xq v.queue) t v.cmd)
  | finish (t : Nat) (v : EventWait) (hret : (s.xq v.queue).submits t = .idle)
      (hw : s'.waits = s.waits)
      (hsub : s'.submitting = s.submitting.filter fun p => decide (p ≠ (t, v)))

theorem Step.wait {act : LifeAct} (h : Step cfg s act s') : WaitStep s s' := by
  cases h with
  | waitNow t e r s' hev hw =>
    obtain ⟨xq, waiting, misused, rfl⟩ := hw.frame
    exact .same rfl rfl
  | waitSubmit t e j r c x hev hc hs =>
    refine .start t e ⟨j, c, r⟩ hev rfl rfl ?_
    subst hc
    show Entered ((setXq j x s).xq j) t _
    rw [setXq_self]
    exact submit_entered hs
  | returnSubmit t v hret => exact .finish t v hret rfl rfl
  | beforeLaunch v s' hv hpc hcall hw =>
    obtain ⟨xq, waiting, misused, rfl⟩ := hw.frame
    exact .same rfl rfl
  | destruct r hr hdes hheld => split <;> exact .same rfl rfl
  | _ => exact .same rfl rfl

theorem Step.called {act : LifeAct} (h : Step cfg s act s') : s.called ⊆ s'.called := by
  cases h with
  | waitNow t e r s' hev hw =>
    obtain ⟨xq, waiting, misused, rfl⟩ := hw.frame
    exact List.Subset.refl _
  | beforeLaunch v s' hv hpc hcall hw =>
    obtain ⟨xq, waiting, misused, rfl⟩ := hw.frame
    exact List.subset_append_left _ _
  | destruct r hr hdes hheld => split <;> exact List.Subset.refl _
  | _ => exact List.Subset.refl _

theorem Waits.waiting {u : Waiter} {r : RecordCmd} (h : Waits cfg u r s s') :
    s.waiting ⊆ s'.waiting := by
  cases h with
  | direct event n hr => exact List.Subset.refl _
  | completed => exact List.Subset.refl _
  | wait event i c x hr hs => exact List.subset_append_left _ _

/-- A waiter stays until its call is over. -/
theorem Step.waiting {act : LifeAct} (h : Step cfg s act s') {u : Waiter} {r : RecordCmd}
    (hu : (u, r) ∈ s.waiting) : (u, r) ∈ s'.waiting ∨ s.WaitOver u r := by
  cases h with
  | waitNow t e r' s' hev hw => exact .inl (hw.waiting hu)
  | returnWait w r' hret =>
    by_cases he : (u, r) = (w, r')
    · cases he
      exact .inr hret
    · exact .inl (List.mem_filter.2 ⟨hu, decide_eq_true he⟩)
  | beforeLaunch v s' hv hpc hcall hw => exact .inl (hw.waiting hu)
  | destruct r' hr hdes hheld => left; split <;> exact hu
  | _ => exact .inl hu

theorem Waits.waiters {w : Waiter} {d : RecordCmd} (h : Waits cfg w d s s') {u : Waiter}
    {r : RecordCmd} (hu : (u, r) ∈ s'.waiting) : (u, r) ∈ s.waiting ∨ r = d := by
  cases h with
  | direct event n hr => exact .inl hu
  | completed => exact .inl hu
  | wait event i c x hr hs =>
    rcases List.mem_append.1 hu with hu | hu
    · exact .inl hu
    · exact .inr (Prod.mk.inj (List.mem_singleton.1 hu)).2

/-- What is new among the waiters comes from `g_events` or a wait command. -/
theorem Step.waiters {act : LifeAct} (h : Step cfg s act s') {u : Waiter} {r : RecordCmd}
    (hu : (u, r) ∈ s'.waiting) :
    (u, r) ∈ s.waiting ∨ (∃ e, s.gEvents e = some r) ∨ ∃ v ∈ s.waits, v.record = r := by
  cases h with
  | waitNow t e d s' hev hw =>
    rcases hw.waiters hu with hu | rfl
    · exact .inl hu
    · exact .inr (.inl ⟨e, hev⟩)
  | returnWait w d hret => exact .inl (List.mem_of_mem_filter hu)
  | beforeLaunch v s' hv hpc hcall hw =>
    rcases hw.waiters hu with hu | rfl
    · exact .inl hu
    · exact .inr (.inr ⟨v, hv, rfl⟩)
  | destruct d hr hdes hheld => left; split at hu <;> exact hu
  | _ => exact .inl hu

/-- What is new in `g_events` was recorded. -/
theorem Step.mapped {act : LifeAct} (h : Step cfg s act s') {e : Nat} {r : RecordCmd}
    (hr : s'.gEvents e = some r) :
    s.gEvents e = some r ∨ r.event = e ∧ ∃ t, (t, r) ∈ s.recording := by
  cases h with
  | addEvent t d hd hret =>
    by_cases he : e = d.event
    · have hupd : Function.update s.gEvents d.event (some d) e = some r := hr
      rw [he, Function.update_self] at hupd
      cases hupd
      exact .inr ⟨he.symm, t, hd⟩
    · have hupd : Function.update s.gEvents d.event (some d) e = some r := hr
      rw [Function.update_of_ne he] at hupd
      exact .inl hupd
  | waitNow t e' d s' hev hw =>
    obtain ⟨xq, waiting, misused, rfl⟩ := hw.frame
    exact .inl hr
  | beforeLaunch v s' hv hpc hcall hw =>
    obtain ⟨xq, waiting, misused, rfl⟩ := hw.frame
    exact .inl hr
  | destroyFlag t d c hgone hrec hev =>
    have hupd : Function.update s.gEvents d none e = some r := hr
    by_cases he : e = d
    · rw [he, Function.update_self] at hupd; cases hupd
    · rw [Function.update_of_ne he] at hupd
      exact .inl hupd
  | destruct d hd hdes hheld =>
    left
    split at hr <;> exact hr
  | _ => exact .inl hr

/-! ## Where the commands are -/

/-- For every order of steps: the record commands of the queues are the ones
recorded, each command is enqueued or in its Submit, and who waits is listed. -/
structure Places (cfg : Nat → Config) (s : EventLife) : Prop where
  queues : ∀ i, (AsyncXQueue.lts (cfg i)).Reachable (s.xq i)
  known : ∀ i c e, c.kind = .eventRecord e → Holds (s.xq i) c → .submitted e i c ∈ s.records
  recording : ∀ t r, (t, r) ∈ s.recording → r ∈ s.records
  entered : ∀ t e i c, (t, .submitted e i c) ∈ s.recording → Entered (s.xq i) t c
  made : ∀ e i c, .submitted e i c ∈ s.records →
    c ∈ (s.xq i).machine.enqueued ∨ ∃ t, (t, .submitted e i c) ∈ s.recording
  kinds : ∀ e i c, .submitted e i c ∈ s.records → c.kind = .eventRecord e
  numbers : ∀ e n, .direct e n ∈ s.records → n < s.nextDirect
  mapped : ∀ e r, s.gEvents e = some r → r ∈ s.records ∧ r.event = e
  waits : ∀ v ∈ s.waits, v.record ∈ s.records
  submitting : ∀ t v, (t, v) ∈ s.submitting → Entered (s.xq v.queue) t v.cmd
  placed : ∀ v ∈ s.waits,
    v.cmd ∈ (s.xq v.queue).machine.enqueued ∨ ∃ t, (t, v) ∈ s.submitting
  waiting : ∀ u r, (u, r) ∈ s.waiting → r ∈ s.records
  apps : ∀ i n c, ((s.xq i).machine.app n).cmd = some c →
    ∃ u e, Waiter.thread u = n ∧ (u, .submitted e i c) ∈ s.waiting

theorem places_init : Places cfg init where
  queues i := LTS.reachable_init rfl
  known i c e hk hc := by
    rcases hc with ⟨t, ht⟩ | hc
    · cases ht
    · cases hc
  recording := nofun
  entered := nofun
  made := nofun
  kinds := nofun
  numbers := nofun
  mapped := nofun
  waits := nofun
  submitting := nofun
  placed := nofun
  waiting := nofun
  apps := nofun

namespace Places

theorem queues_step {act : LifeAct} (h : Places cfg s) (hs : Step cfg s act s') (i : Nat) :
    (AsyncXQueue.lts (cfg i)).Reachable (s'.xq i) := by
  rcases hs.queues i with he | ⟨a, ha⟩
  · rw [he]; exact h.queues i
  · exact (h.queues i).step ha.step

theorem entered_step {act : LifeAct} (h : Places cfg s) (hs : Step cfg s act s') {i t : Nat}
    {c : HwCommand} (hc : Entered (s.xq i) t c) : Entered (s'.xq i) t c := by
  rcases hs.queues i with he | ⟨a, ha⟩
  · rw [he]; exact hc
  · exact hc.step (h.queues i) ha.step

theorem enqueued_step {act : LifeAct} (h : Places cfg s) (hs : Step cfg s act s') {i : Nat}
    {c : HwCommand} (hc : c ∈ (s.xq i).machine.enqueued) : c ∈ (s'.xq i).machine.enqueued := by
  rcases hs.queues i with he | ⟨a, ha⟩
  · rw [he]; exact hc
  · exact (Modules.kept_step (h.queues i) ha.step).enqueued hc

theorem known_step {act : LifeAct} (h : Places cfg s) (hs : Step cfg s act s') {i e : Nat}
    {c : HwCommand} (hk : c.kind = .eventRecord e) (hc : Holds (s'.xq i) c) :
    .submitted e i c ∈ s'.records := by
  have hold (hc : Holds (s.xq i) c) : .submitted e i c ∈ s'.records :=
    hs.record.subset (h.known i c e hk hc)
  rcases hs.queues i with he | ⟨a, ha⟩
  · rw [he] at hc; exact hold hc
  · rcases holds_step (h.queues i) (AsyncXQueue.step_of_lts ha.step) hc with hc | ⟨t, ht, hidx⟩
    · exact hold hc
    · have hmem := ha.submit t c.props e (by rw [ht, hk])
      rw [← hidx, ← hk] at hmem
      exact hmem

theorem apps_step {act : LifeAct} (h : Places cfg s) (hs : Step cfg s act s') {i n : Nat}
    {c : HwCommand} (hc : ((s'.xq i).machine.app n).cmd = some c) :
    ∃ u e, Waiter.thread u = n ∧ (u, .submitted e i c) ∈ s'.waiting := by
  -- the thread was there before
  have hold (hc : ((s.xq i).machine.app n).cmd = some c) :
      ∃ u e, Waiter.thread u = n ∧ (u, .submitted e i c) ∈ s'.waiting := by
    obtain ⟨u, e, hu, hmem⟩ := h.apps i n c hc
    rcases hs.waiting hmem with hmem | hover
    · exact ⟨u, e, hu, hmem⟩
    · have hidle : (s.xq i).machine.app u.thread = .idle := hover
      rw [hu] at hidle
      rw [hidle] at hc; cases hc
  rcases hs.queues i with he | ⟨a, ha⟩
  · exact hold (by rw [← he]; exact hc)
  · rcases (AsyncXQueue.step_of_lts ha.step).wait_step with he | ⟨b, hb, hwait⟩
    · exact hold (by rw [← he]; exact hc)
    · rcases step_appCmd (AsyncXQueue.machine_reachable (h.queues i)) hb hc with hold' | hw
      · exact hold hold'
      · exact ha.wait n c (by rw [hwait n c hw, hw])

theorem step {act : LifeAct} (h : Places cfg s) (hs : Step cfg s act s') : Places cfg s' where
  queues := h.queues_step hs
  known i c e hk hc := h.known_step hs hk hc
  recording t r hr := by
    cases hs.record with
    | same hrec hin hnext => rw [hin] at hr; rw [hrec]; exact h.recording t r hr
    | start u d hgone hrec hin hcmd hnum hnext =>
      rw [hin] at hr
      rw [hrec]
      rcases List.mem_append.1 hr with hr | hr
      · exact List.mem_append_left _ (h.recording t r hr)
      · cases List.mem_singleton.1 hr
        exact List.mem_append_right _ List.mem_cons_self
    | finish u d hmem hret hrec hin hev hnext =>
      rw [hin] at hr
      rw [hrec]
      exact h.recording t r (List.mem_of_mem_filter hr)
  entered t e i c hc := by
    cases hs.record with
    | same hrec hin hnext =>
      rw [hin] at hc
      exact h.entered_step hs (h.entered t e i c hc)
    | start u d hgone hrec hin hcmd hnum hnext =>
      rw [hin] at hc
      rcases List.mem_append.1 hc with hc | hc
      · exact h.entered_step hs (h.entered t e i c hc)
      · cases List.mem_singleton.1 hc
        exact (hcmd e i c rfl).2.2
    | finish u d hmem hret hrec hin hev hnext =>
      rw [hin] at hc
      exact h.entered_step hs (h.entered t e i c (List.mem_of_mem_filter hc))
  made e i c hc := by
    cases hs.record with
    | same hrec hin hnext =>
      rw [hrec] at hc
      rw [hin]
      exact (h.made e i c hc).imp_left (h.enqueued_step hs)
    | start u d hgone hrec hin hcmd hnum hnext =>
      rw [hrec] at hc
      rw [hin]
      rcases List.mem_append.1 hc with hc | hc
      · rcases h.made e i c hc with hc | ⟨t, ht⟩
        · exact .inl (h.enqueued_step hs hc)
        · exact .inr ⟨t, List.mem_append_left _ ht⟩
      · rw [List.mem_singleton.1 hc]
        exact .inr ⟨u, List.mem_append_right _ List.mem_cons_self⟩
    | finish u d hmem hret hrec hin hev hnext =>
      rw [hrec] at hc
      rw [hin]
      rcases h.made e i c hc with hc | ⟨t, ht⟩
      · exact .inl (h.enqueued_step hs hc)
      · by_cases he : (t, RecordCmd.submitted e i c) = (u, d)
        · cases he
          exact .inl (h.enqueued_step hs ((h.entered u e i c ht).idle hret))
        · exact .inr ⟨t, List.mem_filter.2 ⟨ht, decide_eq_true he⟩⟩
  kinds e i c hc := by
    cases hs.record with
    | same hrec hin hnext => rw [hrec] at hc; exact h.kinds e i c hc
    | start u d hgone hrec hin hcmd hnum hnext =>
      rw [hrec] at hc
      rcases List.mem_append.1 hc with hc | hc
      · exact h.kinds e i c hc
      · exact (hcmd e i c (List.mem_singleton.1 hc).symm).1
    | finish u d hmem hret hrec hin hev hnext => rw [hrec] at hc; exact h.kinds e i c hc
  numbers e n hn := by
    cases hs.record with
    | same hrec hin hnext => rw [hrec] at hn; rw [hnext]; exact h.numbers e n hn
    | start u d hgone hrec hin hcmd hnum hnext =>
      rw [hrec] at hn
      rcases List.mem_append.1 hn with hn | hn
      · exact Nat.lt_of_lt_of_le (h.numbers e n hn) hnext
      · obtain ⟨hn, hnext⟩ := hnum e n (List.mem_singleton.1 hn).symm
        omega
    | finish u d hmem hret hrec hin hev hnext =>
      rw [hrec] at hn; rw [hnext]; exact h.numbers e n hn
  mapped e r hr := by
    rcases hs.mapped hr with hr | ⟨he, t, ht⟩
    · exact (h.mapped e r hr).imp_left fun hmem => hs.record.subset hmem
    · exact ⟨hs.record.subset (h.recording t r ht), he⟩
  waits v hv := by
    refine hs.record.subset ?_
    cases hs.wait with
    | same hw hsub => rw [hw] at hv; exact h.waits v hv
    | start t e w hev hw hsub hin =>
      rw [hw] at hv
      rcases List.mem_append.1 hv with hv | hv
      · exact h.waits v hv
      · rw [List.mem_singleton.1 hv]
        exact (h.mapped e w.record hev).1
    | finish t w hret hw hsub => rw [hw] at hv; exact h.waits v hv
  submitting t v hv := by
    cases hs.wait with
    | same hw hsub => rw [hsub] at hv; exact h.entered_step hs (h.submitting t v hv)
    | start u e w hev hw hsub hin =>
      rw [hsub] at hv
      rcases List.mem_append.1 hv with hv | hv
      · exact h.entered_step hs (h.submitting t v hv)
      · cases List.mem_singleton.1 hv
        exact hin
    | finish u w hret hw hsub =>
      rw [hsub] at hv
      exact h.entered_step hs (h.submitting t v (List.mem_of_mem_filter hv))
  placed v hv := by
    cases hs.wait with
    | same hw hsub =>
      rw [hw] at hv
      rw [hsub]
      exact (h.placed v hv).imp_left (h.enqueued_step hs)
    | start u e w hev hw hsub hin =>
      rw [hw] at hv
      rw [hsub]
      rcases List.mem_append.1 hv with hv | hv
      · rcases h.placed v hv with hc | ⟨t, ht⟩
        · exact .inl (h.enqueued_step hs hc)
        · exact .inr ⟨t, List.mem_append_left _ ht⟩
      · rw [List.mem_singleton.1 hv]
        exact .inr ⟨u, List.mem_append_right _ List.mem_cons_self⟩
    | finish u w hret hw hsub =>
      rw [hw] at hv
      rw [hsub]
      rcases h.placed v hv with hc | ⟨t, ht⟩
      · exact .inl (h.enqueued_step hs hc)
      · by_cases he : (t, v) = (u, w)
        · cases he
          exact .inl (h.enqueued_step hs ((h.submitting u v ht).idle hret))
        · exact .inr ⟨t, List.mem_filter.2 ⟨ht, decide_eq_true he⟩⟩
  waiting u r hr := by
    rcases hs.waiters hr with hr | ⟨e, hev⟩ | ⟨v, hv, rfl⟩
    · exact hs.record.subset (h.waiting u r hr)
    · exact hs.record.subset (h.mapped e r hev).1
    · exact hs.record.subset (h.waits v hv)
  apps i n c hc := h.apps_step hs hc

end Places

theorem places_reachable (hr : (lts cfg).Reachable s) : Places cfg s := by
  refine LTS.reachable_induction (I := Places cfg) ?_ ?_ hr
  · rintro s rfl; exact places_init
  · exact fun s act s' _ h hs => h.step (step_cases hs)

end EventLife
end Xsched.Cuda
