import Xsched.Hip.NullStream

/-!
# Event waits across queues (HIP)

`XStreamWaitEvent` finds the record command of the event in `g_events` and has
it waited for: by the worker of the waiting queue before it launches the
HipEventWaitCommand, or by the caller on a stream without an XQueue. Both call
`Synchronize` on the record command, which is `hipEventSynchronize` and knows
only what the driver has recorded. A record still in a command buffer is not
waited for.

What the worker does after the call, for the wait and for all that is behind
it in the buffer, comes after the record exactly when the record was Completed
by then: the queue launches in the order of its buffer, and a Completed
command stays Completed. `WaitInv` keeps this for the four places a record can
be waited for in.

**Results.** `event_waits`: in a run in which each such call is made when the
record command is Completed (`Awaited`), nothing on the waiting stream comes
before the record (`WaitsHonoured`); and a call made otherwise can return with
the record not Completed, by steps of the hardware alone. `event_wait_overtakes`
is a run in which the worker of the recording queue lags.
-/
namespace Xsched.Preempt

/-- The worker is past `BeforeLaunch` of `c`. -/
def Begun (s : State) (c : HwCommand) : Prop :=
  c ∈ s.launched ∨ s.pc.cmd = some (.hardware c) ∧ s.pc ≠ .got (.hardware c)

section
variable {s s' : State} {c : HwCommand}

theorem Begun.enqueued (h : Begun s c) (hlog : LogInv s) : c ∈ s.enqueued := by
  rcases h with h | ⟨h, -⟩
  · exact hlog.launched_sublist.subset h
  · have hhand : c ∈ s.pc.hand := by
      rw [WorkerPc.hand_eq h]; exact List.mem_cons_self
    exact hlog.conserve.subset (List.mem_append_left _ (List.mem_append_right _ hhand))

/-- A locked region goes on with the command in hand. -/
theorem tail_begun {n : Nat} {x : XCommand} {s₀ : State} (hla : s₀.launched = s.launched)
    (hpc : s₀.pc = s.pc) (hcmd : s.pc.cmd = some x) (hgot : s.pc ≠ .got x) (ht : Tail n x s₀ s')
    (h : Begun s' c) : Begun s c := by
  have hold (hl : c ∈ s₀.launched) : Begun s c := .inl (hla ▸ hl)
  have hhand (hx : x = .hardware c) : Begun s c := .inr (by rw [← hx]; exact ⟨hcmd, hgot⟩)
  cases ht with
  | launchWait d a hx hs =>
    rcases h with h | ⟨h, -⟩
    · exact hold h
    · exact hhand (hx.trans (Option.some.inj h))
  | syncWait t r a hx hr hn hs hc =>
    rcases h with h | ⟨h, -⟩
    · exact hold h
    · exact hhand (hx.trans (Option.some.inj h))
  | syncCall t r a hx hr hn hs hc ha =>
    rcases h with h | ⟨h, -⟩
    · exact hold h
    · exact hhand (hx.trans (Option.some.inj h))
  | abort =>
    have h' : Begun s₀ c := h
    rwa [Begun, hla, hpc] at h'
  | finish a st hx hst hq hp =>
    rcases h with h | ⟨h, -⟩
    · exact hold h
    · exact hhand (Option.some.inj h)
  | drop d a hx hd =>
    rcases h with h | ⟨h, -⟩
    · exact hold h
    · cases h
  | launch d a e l last hx hd hs he hl =>
    rcases h with h | ⟨h, -⟩
    · rcases List.mem_append.1 h with h | h
      · exact hold h
      · exact hhand (by rw [hx, List.mem_singleton.1 h])
    · cases h

theorem locks_not_got {x : XCommand} {p : WorkerPc} (h : p.locks = some x) : p ≠ .got x := by
  rintro rfl
  cases h

theorem worker_begun (ht : WorkerStep s s') (h : Begun s' c) :
    Begun s c ∨ s.pc = .got (.hardware c) := by
  cases ht with
  | dequeued x rest hpc hc =>
    rcases h with h | ⟨h, hne⟩
    · exact .inl (.inl h)
    · exact absurd (congrArg WorkerPc.got (Option.some.inj h)) hne
  | idle hpc hc hl hr => exact .inl (.inl (h.resolve_right fun h => nomatch h.1))
  | stillIdle hpc hc hl hr => exact .inl (.inl (h.resolve_right fun h => nomatch h.1))
  | generated x hpc hc hl hx hb =>
    rcases h with h | ⟨h, hne⟩
    · exact .inl (.inl h)
    · exact absurd (congrArg WorkerPc.got (Option.some.inj h)) hne
  | gotHardware d hpc =>
    rcases h with h | ⟨h, -⟩
    · exact .inl (.inl h)
    · right
      rw [hpc, ← Option.some.inj h]
  | gotOther x hpc hx =>
    rcases h with h | ⟨h, -⟩
    · exact .inl (.inl h)
    · rw [Option.some.inj h] at hx; cases hx
  | noSync i hpc hl => exact .inl (.inl (h.resolve_right fun h => nomatch h.1))
  | region x _ hpc hne ht =>
    exact .inl (tail_begun rfl rfl (WorkerPc.locks_cmd hpc) (locks_not_got hpc) ht h)
  | calling call r hpc =>
    refine .inl (h.imp_right fun h => ⟨?_, by rw [hpc]; nofun⟩)
    rw [hpc]; exact h.1
  | returning call r hpc =>
    refine .inl (h.imp_right fun h => ⟨?_, by rw [hpc]; nofun⟩)
    rw [hpc]; exact h.1
  | synced call r _ hpc hp ht =>
    obtain ⟨f, log, sync, hfin⟩ := syncFinish_frame call.target s
    refine .inl (tail_begun ?_ (syncFinish_pc _ _) (by rw [hpc]; rfl) (by rw [hpc]; nofun) ht h)
    rw [hfin]
  | complete x hpc hx =>
    refine .inl (.inl (h.resolve_right fun h => ?_))
    have hnone : (WorkerPc.after x).cmd = none := by cases x <;> rfl
    exact nomatch hnone.symm.trans h.1

/-- A step past `BeforeLaunch` is the worker's. -/
theorem begun_step {act : Act} (ht : Step s act s') (h : Begun s' c) :
    Begun s c ∨ (∃ b, act = .worker b) ∧ s.pc = .got (.hardware c) := by
  cases ht with
  | worker b _ ht => exact (worker_begun ht h).imp_right fun hpc => ⟨⟨b, rfl⟩, hpc⟩
  | app t _ ht => cases ht <;> exact .inl h
  | wait t d _ ht => cases ht <;> exact .inl h
  | _ => exact .inl h

/-- What is launched after `c` finds `c` launched. -/
theorem launched_before {d : HwCommand} (hfifo : FifoInv s) (hlog : LogInv s)
    (hsub : [c, d].Sublist s.enqueued) (hd : d ∈ s.launched) : c ∈ s.launched := by
  have hnodup := hlog.nodup
  rw [← hfifo.conserve] at hsub hnodup
  obtain ⟨l₁, l₂, hl, h₁, h₂⟩ := List.sublist_append_iff.1 hsub
  cases l₁ with
  | nil =>
    -- then `d` is in the pipeline too
    have hd' : d ∈ hwCmds s.pipeline := h₂.subset (by rw [← List.nil_append l₂, ← hl]; simp)
    exact absurd hd' ((List.nodup_append.1 hnodup).2.2 d hd d · rfl)
  | cons e l₁ =>
    obtain ⟨rfl, -⟩ := List.cons.inj hl
    exact h₁.subset List.mem_cons_self

end

/-- A Submit that takes its index leaves the machine alone. -/
theorem submit_machine {cfg : Config} {x x' : AsyncXQueue} {t : Nat} {props : XCommandProperties}
    {kind : HwCommandKind} (h : (AsyncXQueue.lts cfg).step x (.submit t props kind) x') :
    x'.machine = x.machine := by
  cases AsyncXQueue.step_of_lts h <;> rfl

end Xsched.Preempt

namespace Xsched.Hip
open Preempt
open Preempt.AsyncXQueue (XAct)
open Cuda (Device DeviceAct Capture)

/-- The record command and its queue, if it was submitted to one. -/
def XEvent.submitted? : XEvent → Option (Nat × HwCommand)
  | .submitted i c => some (i, c)
  | .direct => none

/-- The record a call was made to wait for, once `Synchronize` was called. -/
def CallPc.record : CallPc → Option (Nat × HwCommand)
  | .eventSynchronize _ _ xevent _ => xevent.submitted?
  | .driverCall (.waitEvent _ (some xevent)) => xevent.submitted?
  | _ => none

namespace HipShim

variable {cfg : Nat → Config} {s s' : HipShim}

def Done (s : HipShim) (r : Nat × HwCommand) : Prop :=
  s.cmdState r.1 (.hardware r.2) = .completed

instance (s : HipShim) (r : Nat × HwCommand) : Decidable (s.Done r) :=
  inferInstanceAs (Decidable (_ = _))

/-- The record on which a step calls `Synchronize` for an `XStreamWaitEvent`:
the worker's `BeforeLaunch`, the caller on a stream without an XQueue, or the
caller on the null stream after `HipSyncBlockingXQueues`. -/
def awaits (s : HipShim) : HipAct → Option (Nat × HwCommand)
  | .dev (.xq i (.machine (.worker _))) =>
    match (s.dev.xq i).machine.pc with
    | .got (.hardware w) => (s.eventWaits i w).bind fun v => v.2.submitted?
    | _ => none
  | .xStreamWaitEvent _ event i =>
    if i ≠ nullStream ∧ s.hasXQueue i = false then (s.gEvents event).bind XEvent.submitted?
    else none
  | .call t =>
    match s.calls t with
    | .waitBlocking (.waitEvent _ (some xevent)) [] => xevent.submitted?
    | _ => none
  | _ => none

/-- The record is Completed when `Synchronize` is called on it. -/
def Awaited (s : HipShim) (act : HipAct) : Prop := ∀ r ∈ s.awaits act, s.Done r

instance (s : HipShim) (act : HipAct) : Decidable (Awaited s act) :=
  inferInstanceAs (Decidable (∀ r ∈ s.awaits act, s.Done r))

/-- What was enqueued behind an event wait is launched after the record, and
so is what was issued on a stream without an XQueue after the
`XStreamWaitEvent` on it returned. -/
def WaitsHonoured (s : HipShim) : Prop :=
  (∀ i w event j r, s.eventWaits i w = some (event, .submitted j r) →
    ∀ c, [w, c].Sublist (s.dev.xq i).machine.enqueued → c ∈ s.dev.launched i → s.Done (j, r)) ∧
  ∀ p, ∀ r ∈ s.follows p, s.Done r

/-- A wait for `r` is over, or under way in a call. -/
def Relied (s : HipShim) (r : Nat × HwCommand) : Prop :=
  (∃ t, (s.calls t).record = some r) ∨ (∃ p, r ∈ s.waited p) ∨ ∃ p, r ∈ s.follows p

structure WaitInv (s : HipShim) : Prop where
  begun : ∀ i w event j r, s.eventWaits i w = some (event, .submitted j r) →
    Begun (s.dev.xq i).machine w → s.Done (j, r)
  relied : ∀ r, s.Relied r → s.Done r

/-! ## The records relied on -/

/-- Thread `t` goes to `pc`. -/
theorem relied_setCall {t : Nat} {pc : CallPc} {r : Nat × HwCommand}
    (h : (setCall t pc s).Relied r) : s.Relied r ∨ pc.record = some r := by
  rcases h with ⟨u, h⟩ | h
  · have h' : (Function.update s.calls t pc u).record = some r := h
    rw [Function.update_apply] at h'
    split at h'
    · exact .inr h'
    · exact .inl (.inl ⟨u, h'⟩)
  · exact .inl (.inr h)

theorem relied_issue {p : Nat} {r : Nat × HwCommand} (h : (issue p s).Relied r) : s.Relied r := by
  rcases h with h | h | ⟨q, h⟩
  · exact .inl h
  · exact .inr (.inl h)
  · have h' : r ∈ Function.update s.follows p (s.waited p) q := h
    rw [Function.update_apply] at h'
    split at h'
    · exact .inr (.inl ⟨p, h'⟩)
    · exact .inr (.inr ⟨q, h'⟩)

theorem relied_waitReturns {p : Nat} {xevent : XEvent} {r : Nat × HwCommand}
    (h : (waitReturns p xevent s).Relied r) : s.Relied r ∨ xevent.submitted? = some r := by
  cases xevent with
  | direct => exact .inl h
  | submitted i c =>
    rcases h with h | ⟨q, h⟩ | h
    · exact .inl (.inl h)
    · have h' : r ∈ Function.update s.waited p ((i, c) :: s.waited p) q := h
      rw [Function.update_apply] at h'
      split at h'
      · rcases List.mem_cons.1 h' with rfl | h'
        · exact .inr rfl
        · exact .inl (.inr (.inl ⟨p, h'⟩))
      · exact .inl (.inr (.inl ⟨q, h'⟩))
    · exact .inl (.inr (.inr h))

theorem relied_afterSync {t : Nat} {op : NullOp} {r : Nat × HwCommand}
    (hpc : s.calls t = .waitBlocking op []) (h : (afterSync t op s).Relied r) :
    s.Relied r ∨ r ∈ s.awaits (.call t) := by
  cases op with
  | waitEvent event xevent =>
    cases xevent with
    | none => exact .inl ((relied_setCall h).resolve_right nofun)
    | some xevent => exact (relied_setCall h).imp_right fun h => by rw [awaits, hpc]; exact h
  | _ => exact .inl ((relied_setCall h).resolve_right nofun)

theorem relied_driverCall {t : Nat} {op : NullOp} {r : Nat × HwCommand}
    (hpc : s.calls t = .driverCall op) (h : (driverCall t op s).Relied r) : s.Relied r := by
  cases op with
  | kernelLaunch => exact relied_issue ((relied_setCall h).resolve_right nofun)
  | eventRecord event =>
    exact relied_issue (s := s) (p := nullStream) ((relied_setCall h).resolve_right nofun)
  | waitEvent event xevent =>
    cases xevent with
    | none => exact (relied_setCall h).resolve_right nofun
    | some xevent =>
      rcases relied_waitReturns ((relied_setCall h).resolve_right nofun) with h | h
      · exact h
      · exact .inl ⟨t, by rw [hpc]; exact h⟩

/-- A record is relied on from the `Synchronize` call on. -/
theorem Step.relied {act : HipAct} {r : Nat × HwCommand} (hs : Step cfg s act s')
    (h : s'.Relied r) : s.Relied r ∨ r ∈ s.awaits act := by
  cases hs with
  | callNull act t op s' hact hcall =>
    obtain ⟨-, rfl⟩ := callNull_eq hcall
    have h' : (setCall t (nullPc op s) s).Relied r := h
    left
    cases op with
    | waitEvent event xevent => cases xevent <;> exact (relied_setCall h').resolve_right nofun
    | _ => exact (relied_setCall h').resolve_right nofun
  | recordXQueue t event i d hi hpc hx hdev =>
    have h' : (setCall t _ s).Relied r := h
    exact .inl ((relied_setCall h').resolve_right nofun)
  | recordDirect t event i hi hpc hx =>
    have h' : (setCall t _ (issue i s)).Relied r := h
    exact .inl (relied_issue ((relied_setCall h').resolve_right nofun))
  | waitXQueue t event i xevent d hi hpc hx he hdev =>
    have h' : (setCall t _ s).Relied r := h
    exact .inl ((relied_setCall h').resolve_right nofun)
  | waitDirect t event i j c hi hpc hx he =>
    refine (relied_setCall h).imp_right fun h => ?_
    rw [awaits, if_pos ⟨hi, hx⟩, he]
    exact h
  | directLaunch p hp => exact .inl (relied_issue h)
  | call t s' hcall =>
    cases hcall with
    | submitWaitAll op i todo cmds x w hpc hx =>
      have h' : (setCall t _ s).Relied r := h
      exact .inl ((relied_setCall h').resolve_right nofun)
    | submitted op cmds hpc => exact .inl ((relied_setCall h).resolve_right nofun)
    | wait op i w cmds hpc => exact .inl ((relied_setCall h).resolve_right nofun)
    | afterSync op hpc => exact relied_afterSync hpc h
    | synchronizedNull event xevent cap hpc =>
      rcases relied_setCall h with h | h
      · exact .inl h
      · exact .inl (.inl ⟨t, by rw [hpc]; exact h⟩)
    | synchronized p event xevent cap hp hpc =>
      rcases relied_waitReturns ((relied_setCall h).resolve_right nofun) with h | h
      · exact .inl h
      · exact .inl (.inl ⟨t, by rw [hpc]; exact h⟩)
    | driverCall op hpc => exact .inl (relied_driverCall hpc h)
    | addEvent event xevent hpc =>
      have h' : (setCall t _ s).Relied r := h
      exact .inl ((relied_setCall h').resolve_right nofun)
    | submitReturn i hpc => exact .inl ((relied_setCall h).resolve_right nofun)
  | _ => exact .inl h

/-! ## The workers -/

theorem waitReturns_eventWaits (p : Nat) (xevent : XEvent) (s : HipShim) :
    (waitReturns p xevent s).eventWaits = s.eventWaits := by
  cases xevent <;> rfl

/-- Only `XStreamWaitEvent` makes event waits, with an index not used yet. -/
theorem Step.eventWaits {act : HipAct} (hs : Step cfg s act s') {i : Nat} {w : HwCommand}
    {v : Nat × XEvent} (h : s'.eventWaits i w = some v) :
    s.eventWaits i w = some v ∨
      (s'.dev.xq i).machine = (s.dev.xq i).machine ∧ w = s.newCommand i .hal := by
  cases hs with
  | callNull act t op s' hact hcall =>
    obtain ⟨-, rfl⟩ := callNull_eq hcall
    exact .inl h
  | waitXQueue t event j xevent d hi hpc hx he hdev =>
    have h' : (if i = j ∧ w = s.newCommand j .hal then some (event, xevent)
      else s.eventWaits i w) = some v := h
    split at h'
    · rename_i hnew
      obtain ⟨rfl, rfl⟩ := hnew
      refine .inr ⟨?_, rfl⟩
      rcases device_queue hdev i with he | ⟨a, ha, hstep, hal⟩
      · exact congrArg AsyncXQueue.machine he
      · cases ha
        exact submit_machine hstep
    · exact .inl h'
  | call t s' hcall =>
    left
    cases hcall with
    | afterSync op hpc =>
      cases op with
      | waitEvent event xevent => cases xevent <;> exact h
      | _ => exact h
    | synchronized p event xevent cap hp hpc =>
      have h' : (waitReturns p xevent s).eventWaits i w = some v := h
      rwa [waitReturns_eventWaits] at h'
    | driverCall op hpc =>
      cases op with
      | waitEvent event xevent =>
        cases xevent with
        | none => exact h
        | some xevent =>
          have h' : (waitReturns nullStream xevent s).eventWaits i w = some v := h
          rwa [waitReturns_eventWaits] at h'
      | _ => exact h
    | _ => exact h
  | _ => exact .inl h

/-- A worker past the `BeforeLaunch` of `w` was so before, or calls it now. -/
theorem Step.begun {act : HipAct} (hr : (lts cfg).Reachable s) (hs : Step cfg s act s') {i : Nat}
    {w : HwCommand} (h : Begun (s'.dev.xq i).machine w) :
    Begun (s.dev.xq i).machine w ∨
      (∃ b, act = .dev (.xq i (.machine (.worker b)))) ∧
        (s.dev.xq i).machine.pc = .got (.hardware w) := by
  have hm := AsyncXQueue.machine_reachable (queue_reachable hr i).of_restrict
  rcases hs.queue i with he | ⟨a, ha, hal, hact⟩
  · rw [he] at h; exact .inl h
  · rcases (AsyncXQueue.step_of_lts ha).machine_caller with ⟨he, -⟩ | ⟨b, hb, hcaller⟩
    · rw [he] at h; exact .inl h
    · refine (begun_step (step_of_reachable hm hb) h).imp_right fun ⟨⟨b', hb'⟩, hpc⟩ => ⟨?_, hpc⟩
      subst hb'
      have hworker : ∃ b, a = .machine (.worker b) := by
        cases a with
        | machine c =>
          cases c with
          | worker b => exact ⟨b, rfl⟩
          | _ => cases hcaller
        | _ => cases hcaller
      obtain ⟨b, rfl⟩ := hworker
      exact ⟨b, hact.resolve_right fun hne => hne b rfl⟩

theorem newCommand_fresh (hr : (lts cfg).Reachable s) (i : Nat) (kind : HwCommandKind) :
    ¬ Begun (s.dev.xq i).machine (s.newCommand i kind) := by
  intro h
  have hx := (queue_reachable hr i).of_restrict
  have hlog := logInv_reachable (AsyncXQueue.machine_reachable hx)
  have hlt := ((AsyncXQueue.submitInv_reachable hx).enqueued _ (h.enqueued hlog)).2
  exact Int.lt_irrefl _ hlt

theorem waitInv_step {act : HipAct} (hr : (lts cfg).Reachable s) (h : WaitInv s)
    (hs : Step cfg s act s') (hok : Awaited s act) : WaitInv s' := by
  refine ⟨fun i w event j r he hb => completed_step hr hs ?_, fun r hrel => completed_step hr hs ?_⟩
  · rcases hs.eventWaits he with he | ⟨hsame, rfl⟩
    · rcases hs.begun hr hb with hb | ⟨⟨b, rfl⟩, hpc⟩
      · exact h.begun i w event j r he hb
      · -- the step is the `BeforeLaunch` of `w`
        refine hok (j, r) ?_
        show (match (s.dev.xq i).machine.pc with
          | .got (.hardware w) => (s.eventWaits i w).bind fun v => v.2.submitted?
          | _ => none) = some (j, r)
        rw [hpc]
        show (s.eventWaits i w).bind _ = _
        rw [he]; rfl
    · rw [hsame] at hb
      exact absurd hb (newCommand_fresh hr i .hal)
  · rcases hs.relied hrel with hrel | hmem
    · exact h.relied r hrel
    · exact hok r hmem

theorem waitInv_reachable (hr : ((lts cfg).restrict Awaited).Reachable s) : WaitInv s := by
  refine LTS.reachable_induction (I := WaitInv) ?_ ?_ hr
  · rintro s rfl
    refine ⟨fun i w event j r => nofun, fun r h => ?_⟩
    rcases h with ⟨t, h⟩ | ⟨p, h⟩ | ⟨p, h⟩ <;> cases h
  · exact fun s act s' hr h hs => waitInv_step hr.of_restrict h (step_cases hs.1) hs.2

theorem waits_honoured (hr : ((lts cfg).restrict Awaited).Reachable s) : WaitsHonoured s := by
  have h := waitInv_reachable hr
  refine ⟨fun i w event j r he c hsub hc => ?_, fun p r hp => h.relied r (.inr (.inr ⟨p, hp⟩))⟩
  have hx := queue_reachable hr.of_restrict i
  have hlog := logInv_reachable (AsyncXQueue.machine_reachable hx.of_restrict)
  exact h.begun i w event j r he (.inl (launched_before (Cuda.queue_fifo hx) hlog hsub hc))

/-! ## Waits made too early -/

/-- The `Synchronize` call made by `act` may return. -/
def synchronized (s : HipShim) : HipAct → Bool
  | .dev (.xq i _) => (s.beforeLaunch i).all s.dev.complete
  | .xStreamWaitEvent t _ _ => returns t
  | .call t => returns t
  | _ => false
where
  returns (t : Nat) : Bool :=
    match s.calls t with
    | .eventSynchronize _ _ _ cap => cap.all s.dev.complete
    | _ => false

/-- `BeforeLaunch` changes no command. -/
theorem beforeLaunch_cmdState {i : Nat} {b : Bool} {w : HwCommand} {d d' : Device}
    (hs : (Device.lts cfg).step d (.xq i (.machine (.worker b))) d')
    (hpc : (d.xq i).machine.pc = .got (.hardware w)) (j : Nat) :
    (d'.xq j).machine.cmdState = (d.xq j).machine.cmdState := by
  cases Device.step_cases hs with
  | xq _ _ x hq hret =>
    by_cases hj : j = i
    · subst hj
      rw [Device.afterXq_self]
      cases AsyncXQueue.step_of_lts hq with
      | machine _ m hd hm =>
        have hm' : Preempt.step (cfg j) (d.xq j).machine (.worker b) = some m := hm
        simp only [Preempt.step, stepWorker, hpc, Option.ite_none_left_eq_some,
          Option.some.injEq] at hm'
        obtain ⟨-, rfl⟩ := hm'
        rfl
      | skip _ hact ha => exact absurd rfl (ha _)
    · rw [Device.afterXq_other _ x d hj]

/-- The hardware completes what a `Synchronize` call waits for, and the record
is as it was. -/
theorem returns_early {act : HipAct} {r : Nat × HwCommand} (cap : Option Capture)
    (hcap : ∀ c, cap = some c →
      c.pos ≤ (s.dev.launched c.queue).length ∨ c.pos ≤ s.direct c.queue)
    (hret : ∀ s'' : HipShim, s''.calls = s.calls → s''.beforeLaunch = s.beforeLaunch →
      cap.all s''.dev.complete = true → s''.synchronized act = true)
    (hne : ¬ s.Done r) :
    ∃ ls s'', (lts cfg).Run s ls s'' ∧ (∀ a ∈ ls, ∀ t, own t a) ∧ s''.synchronized act = true ∧
      ¬ s''.Done r := by
  obtain ⟨ls, s'', hrun, hls, hc, hcalls, -, hbefore, hxq⟩ := capture_completes cfg cap s hcap
  refine ⟨ls, s'', hrun, fun a ha t => hls t a ha, hret s'' hcalls hbefore hc, ?_⟩
  rwa [Done, cmdState, hxq]

theorem early_beforeLaunch {i : Nat} {b : Bool} {r : Nat × HwCommand}
    (hr : (lts cfg).Reachable s) (hs : (lts cfg).step s (.dev (.xq i (.machine (.worker b)))) s')
    (hmem : r ∈ s.awaits (.dev (.xq i (.machine (.worker b))))) (hne : ¬ s.Done r) :
    ∃ ls s'', (lts cfg).Run s' ls s'' ∧ (∀ a ∈ ls, ∀ t, own t a) ∧
      s''.synchronized (.dev (.xq i (.machine (.worker b)))) = true ∧ ¬ s''.Done r := by
  have hcases := step_cases hs
  have hgrow := launched_step hr hcases
  rw [awaits] at hmem
  split at hmem
  · rename_i w hpc
    cases hcases with
    | callNull act t op s' hact hcall => cases hact
    | dev act d hother hmay hdev =>
      refine returns_early (s.waitCapture i w) (fun c hc => ?_) (fun s'' _ hbefore hc => ?_) ?_
      · obtain ⟨v, hv, hrec⟩ := Option.bind_eq_some_iff.1 hc
        exact (recordInv_reachable hr v.1 c hrec).imp_left fun hle =>
          Nat.le_trans hle (hgrow c.queue).length_le
      · rw [synchronized, hbefore]
        show (s.startLaunch (.xq i (.machine (.worker b))) i).all s''.dev.complete = true
        rw [startLaunch, hpc]
        show (Function.update s.beforeLaunch i (s.waitCapture i w) i).all s''.dev.complete = true
        rw [Function.update_self]
        exact hc
      · rw [Done, cmdState, beforeLaunch_cmdState hdev hpc]
        exact hne
  · cases hmem

theorem early_wait {act : HipAct} {r : Nat × HwCommand} (hr : (lts cfg).Reachable s)
    (hs : (lts cfg).step s act s') (hmem : r ∈ s.awaits act) (hne : ¬ s.Done r) :
    ∃ ls s'', (lts cfg).Run s' ls s'' ∧ (∀ a ∈ ls, ∀ t, own t a) ∧ s''.synchronized act = true ∧
      ¬ s''.Done r := by
  have hrec := recordInv_reachable hr
  have hstep : step cfg s act = some s' := hs
  -- thread `t` has made the call
  have hcall {t stream event : Nat} {xevent : XEvent}
      (hact : ∀ s'' : HipShim, s''.synchronized act = synchronized.returns s'' t)
      (hpc : s' = setCall t (.eventSynchronize stream event xevent (s.dev.record event)) s) :
      ∃ ls s'', (lts cfg).Run s' ls s'' ∧ (∀ a ∈ ls, ∀ t, own t a) ∧
        s''.synchronized act = true ∧ ¬ s''.Done r := by
    subst hpc
    refine returns_early (s.dev.record event) (hrec event) (fun s'' hcalls _ hc => ?_) hne
    rw [hact, synchronized.returns, hcalls]
    show (match (Function.update s.calls t _ t : CallPc) with
      | .eventSynchronize _ _ _ cap => cap.all s''.dev.complete
      | _ => false) = true
    rw [Function.update_self]
    exact hc
  cases act with
  | xStreamWaitEvent t event i =>
    rw [awaits] at hmem
    split at hmem
    · rename_i hi
      cases hev : s.gEvents event with
      | none => rw [hev] at hmem; cases hmem
      | some xevent =>
        cases xevent with
        | direct => rw [hev] at hmem; cases hmem
        | submitted j c =>
          simp only [step, xStreamWaitEvent, if_neg hi.1, hev, hi.2, Bool.false_eq_true, if_false,
            Option.ite_none_right_eq_some, Option.some.injEq] at hstep
          exact hcall (fun _ => rfl) hstep.2.symm
    · cases hmem
  | call t =>
    rw [awaits] at hmem
    split at hmem
    · rename_i event xevent hpc
      simp only [step, stepCall, hpc, afterSync, Option.some.injEq] at hstep
      exact hcall (fun _ => rfl) hstep.symm
    · cases hmem
  | dev a =>
    cases a with
    | finish i => cases hmem
    | xq i a =>
      cases a with
      | machine m =>
        cases m with
        | worker b => exact early_beforeLaunch hr hs hmem hne
        | _ => cases hmem
      | _ => cases hmem
  | _ => cases hmem

/-- **Event waits across queues.** In a run whose waits call `Synchronize` on
Completed records only, every event wait is honoured; any other such call can
return too early, by steps of the hardware alone. -/
theorem event_waits (cfg : Nat → Config) :
    (∀ s, ((lts cfg).restrict Awaited).Reachable s → WaitsHonoured s) ∧
    ∀ s act s', (lts cfg).Reachable s → (lts cfg).step s act s' → ¬ Awaited s act →
      ∃ r ∈ s.awaits act, ∃ ls s'', (lts cfg).Run s' ls s'' ∧ (∀ a ∈ ls, ∀ t, own t a) ∧
        s''.synchronized act = true ∧ ¬ s''.Done r := by
  refine ⟨fun s hr => waits_honoured hr, fun s act s' hr hs hnd => ?_⟩
  unfold Awaited at hnd
  push Not at hnd
  obtain ⟨r, hmem, hne⟩ := hnd
  exact ⟨r, hmem, early_wait hr hs hmem hne⟩

/-! ## Two streams, one event -/

/-- Thread 0 makes streams 1 and 2 with an XQueue each and records event 7 on
stream 1. -/
def recordTrace : List HipAct :=
  [.xStreamCreate 1 0 true, .xStreamCreate 2 0 true, .xEventRecord 0 7 1] ++
  List.replicate 3 (submitter 1 0) ++ [.call 0]

/-- It has stream 2 wait for the event and launches a kernel there; the worker
of stream 2 launches both. -/
def waitTrace : List HipAct :=
  [.xStreamWaitEvent 0 7 2] ++ List.replicate 3 (submitter 2 0) ++ [.call 0, kernel 2 0] ++
  List.replicate 3 (submitter 2 0) ++ List.replicate 10 (worker 2)

def recordCmd : HwCommand := ⟨1, kCommandPropertyNone, .eventRecord 7⟩

def waitView (s : HipShim) :
    Option (Nat × XEvent) × List HwCommand × List HwCommand × XCommandState :=
  (s.eventWaits 2 (halCmd 1), (s.dev.xq 2).machine.enqueued, s.dev.launched 2,
    s.cmdState 1 (.hardware recordCmd))

/-- The record is Completed before the wait: all is in order. -/
theorem event_waits_drained : ∃ s, ((lts fun _ => Cuda.Shim.cfgTwo).restrict Awaited).Reachable s ∧
    s.eventWaits 2 (halCmd 1) = some (7, .submitted 1 recordCmd) ∧
    s.dev.launched 2 = [halCmd 1, halCmd 2] ∧ WaitsHonoured s := by
  have htrace : ((LTS.exec (LTS.guarded Awaited (step fun _ => Cuda.Shim.cfgTwo)) init
      (recordTrace ++ drainTrace ++ waitTrace)).map waitView) =
      some (some (7, .submitted 1 recordCmd), [halCmd 1, halCmd 2], [halCmd 1, halCmd 2],
        .completed) := by decide
  obtain ⟨s, hs, he⟩ := Option.map_eq_some_iff.1 htrace
  simp only [waitView, Prod.mk.injEq] at he
  obtain ⟨hwait, -, hlaunched, -⟩ := he
  have hr : ((lts fun _ => Cuda.Shim.cfgTwo).restrict Awaited).Reachable s :=
    LTS.reachable_restrict_of_exec rfl hs
  exact ⟨s, hr, hwait, hlaunched, (event_waits _).1 s hr⟩

/-- **Counterexample**: the worker of stream 1 lags, and the kernel on stream 2
is launched while the record is in the buffer of stream 1. -/
theorem event_wait_overtakes :
    ¬ ∀ (cfg : Nat → Config) (s : HipShim), (lts cfg).Reachable s → WaitsHonoured s := by
  intro h
  have htrace : ((LTS.exec (step fun _ => Cuda.Shim.cfgTwo) init
      (recordTrace ++ waitTrace)).map waitView) =
      some (some (7, .submitted 1 recordCmd), [halCmd 1, halCmd 2], [halCmd 1, halCmd 2],
        .pending) := by decide
  obtain ⟨s, hs, he⟩ := Option.map_eq_some_iff.1 htrace
  simp only [waitView, Prod.mk.injEq] at he
  obtain ⟨hwait, henq, hlaunched, hpending⟩ := he
  have hr : (lts fun _ => Cuda.Shim.cfgTwo).Reachable s := LTS.reachable_of_exec rfl hs
  have hdone := (h _ s hr).1 2 (halCmd 1) 7 1 recordCmd hwait (halCmd 2)
    (by rw [henq]) (by rw [hlaunched]; decide)
  have hstate : s.cmdState 1 (.hardware recordCmd) = .completed := hdone
  rw [hpending] at hstate
  cases hstate

end HipShim
end Xsched.Hip
