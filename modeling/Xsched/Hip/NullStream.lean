import Xsched.Hip.Shim

/-!
# Null-stream work and the blocking streams (HIP)

A call on the null stream is to wait for everything submitted to the XQueues
of the streams without the non-blocking flag. `HipSyncBlockingXQueues` goes
through a map that stays empty, so it waits for nothing: the call reaches the
driver by steps of its own thread and of the hardware alone, and what the
queues hold at that point is what they held when it was made.

**Results.** `null_stream_waits`: in a run in which every such call is made
with the blocking queues drained (`Drained`), whatever a call passes to the
driver comes after all that was submitted before it (`Ordered`); and every
call made otherwise can reach the driver too early. `null_stream_overtakes`
is the shortest run: one stream, one kernel, one null-stream kernel.
-/
namespace Xsched.Hip
open Preempt
open Preempt.AsyncXQueue (XAct)
open Cuda (Device DeviceAct Capture)

namespace HipShim

variable {cfg : Nat → Config} {s s' : HipShim}

/-! ## The queues -/

theorem waitReturns_dev (p : Nat) (xevent : XEvent) (s : HipShim) :
    (waitReturns p xevent s).dev = s.dev := by
  cases xevent <;> rfl

theorem driverCall_xq (t : Nat) (op : NullOp) (s : HipShim) :
    (driverCall t op s).dev.xq = s.dev.xq := by
  cases op with
  | waitEvent event xevent =>
    cases xevent with
    | none => rfl
    | some xevent => exact congrArg Device.xq (waitReturns_dev nullStream xevent s)
  | _ => rfl

theorem afterSync_dev (t : Nat) (op : NullOp) (s : HipShim) : (afterSync t op s).dev = s.dev := by
  cases op with
  | waitEvent event xevent => cases xevent <;> rfl
  | _ => rfl

/-- The pc a null-stream call starts with. -/
def nullPc (op : NullOp) (s : HipShim) : CallPc :=
  match op with
  | .waitEvent _ none => .driverCall op
  | _ => .syncBlocking op s.blockingXQueues []

theorem callNull_eq {t : Nat} {op : NullOp} (h : callNull t op s = some s') :
    s.calls t = .idle ∧
      s' = { setCall t (nullPc op s) s with
        before := Function.update s.before t s.submittedBlocking } := by
  simp only [callNull, Option.ite_none_right_eq_some, Option.some.injEq] at h
  exact ⟨h.1, h.2.symm⟩

/-- One queue of the device. -/
theorem device_queue {act : DeviceAct} {d d' : Device} (h : (Device.lts cfg).step d act d')
    (i : Nat) : d'.xq i = d.xq i ∨
      ∃ a, act = .xq i a ∧ (AsyncXQueue.lts (cfg i)).step (d.xq i) a (d'.xq i) ∧
        Cuda.Allowed (cfg i) (d.xq i) a := by
  cases act with
  | finish j =>
    cases Device.step_cases h with
    | finish _ hlt => exact .inl rfl
  | xq j a =>
    have hal := Device.step_allowed h
    cases Device.step_cases h with
    | xq _ _ x hq hret =>
      by_cases hi : i = j
      · subst hi
        right
        rw [Device.afterXq_self]
        exact ⟨a, rfl, hq, hal⟩
      · exact .inl (Device.afterXq_other a x d hi)

/-- A worker moves in a step of its own. -/
theorem Step.queue {act : HipAct} (h : Step cfg s act s') (i : Nat) :
    s'.dev.xq i = s.dev.xq i ∨
      ∃ a, (AsyncXQueue.lts (cfg i)).step (s.dev.xq i) a (s'.dev.xq i) ∧
        Cuda.Allowed (cfg i) (s.dev.xq i) a ∧
        (act = .dev (.xq i a) ∨ ∀ b, a ≠ .machine (.worker b)) := by
  have hsubmit {d : Device} {t j : Nat} {kind : HwCommandKind}
      (hdev : (Device.lts cfg).step s.dev (.xq j (.submit t kCommandPropertyNone kind)) d) :
      d.xq i = s.dev.xq i ∨ ∃ a, (AsyncXQueue.lts (cfg i)).step (s.dev.xq i) a (d.xq i) ∧
        Cuda.Allowed (cfg i) (s.dev.xq i) a ∧
        (act = .dev (.xq i a) ∨ ∀ b, a ≠ .machine (.worker b)) := by
    refine (device_queue hdev i).imp_right fun ⟨a, ha, hstep, hal⟩ => ⟨a, hstep, hal, .inr ?_⟩
    cases ha
    exact fun b => nofun
  cases h with
  | callNull act t op s' hact hcall =>
    obtain ⟨-, rfl⟩ := callNull_eq hcall
    exact .inl rfl
  | recordXQueue t event j d hi hpc hx hdev => exact hsubmit hdev
  | waitXQueue t event j xevent d hi hpc hx he hdev => exact hsubmit hdev
  | dev act d hother hmay hdev =>
    exact (device_queue hdev i).imp_right fun ⟨a, ha, hstep, hal⟩ =>
      ⟨a, hstep, hal, .inl (congrArg HipAct.dev ha)⟩
  | call t s' hcall =>
    cases hcall with
    | submitWaitAll op j todo cmds x w hpc hx =>
      have hstep := (AsyncXQueue.submitWaitAll_cases hx).1
      by_cases hi : i = j
      · subst hi
        right
        refine ⟨.machine .enqueueWaitAll, ?_, rfl, .inr fun b => nofun⟩
        show (AsyncXQueue.lts (cfg i)).step _ _ ((Device.afterXq i _ x s.dev).xq i)
        rw [Device.afterXq_self]; exact hstep
      · exact .inl (Device.afterXq_other _ x s.dev hi)
    | afterSync op hpc => rw [afterSync_dev]; exact .inl rfl
    | synchronized p event xevent cap hp hpc =>
      left
      show (waitReturns p xevent s).dev.xq i = _
      rw [waitReturns_dev]
    | driverCall op hpc => rw [driverCall_xq]; exact .inl rfl
    | _ => exact .inl rfl
  | _ => exact .inl rfl

theorem queue_reachable (hr : (lts cfg).Reachable s) (i : Nat) :
    ((AsyncXQueue.lts (cfg i)).restrict (Cuda.Allowed (cfg i))).Reachable (s.dev.xq i) := by
  refine LTS.reachable_map (fun s => s.dev.xq i) ?_ ?_ hr
  · rintro s rfl; rfl
  · intro s act s' _ hs
    exact ((step_cases hs).queue i).imp_right fun ⟨a, ha, hal, _⟩ => ⟨a, ha, hal⟩

/-- A Completed command stays Completed. -/
theorem completed_step {act : HipAct} (hr : (lts cfg).Reachable s) (hs : Step cfg s act s')
    {i : Nat} {c : HwCommand} (hc : s.cmdState i (.hardware c) = .completed) :
    s'.cmdState i (.hardware c) = .completed := by
  have hx := queue_reachable hr i
  have hm := AsyncXQueue.machine_reachable hx.of_restrict
  rcases hs.queue i with he | ⟨a, ha, -⟩
  · rw [cmdState, he]; exact hc
  · rcases (AsyncXQueue.step_of_lts ha).machine_step with he | ⟨b, hb⟩
    · rw [cmdState, he]; exact hc
    · exact completed_stays (logInv_reachable hm) (step_of_reachable hm hb) hc

/-! ## Calls made with drained queues -/

/-- A null-stream call is made when all that was submitted to the XQueues of
blocking streams is Completed. -/
def Drained (s : HipShim) (act : HipAct) : Prop :=
  ∀ t op, s.nullCall act = some (t, op) →
    ∀ p ∈ s.submittedBlocking, s.cmdState p.1 (.hardware p.2) = .completed

/-- What a null-stream call is about to pass to the driver comes after all
that was submitted before the call. -/
def Ordered (s : HipShim) : Prop :=
  ∀ t op, s.calls t = .driverCall op →
    ∀ p ∈ s.before t, s.cmdState p.1 (.hardware p.2) = .completed

/-- In a call on the null stream that the driver has not got yet. -/
def InNull : CallPc → Prop
  | .syncBlocking _ _ _ => True
  | .waitBlocking _ _ => True
  | .eventSynchronize p _ _ _ => p = nullStream
  | .driverCall _ => True
  | _ => False

def NullInv (s : HipShim) : Prop :=
  ∀ t, InNull (s.calls t) → ∀ p ∈ s.before t, s.cmdState p.1 (.hardware p.2) = .completed

/-- Where a step leaves a thread in a null-stream call, it was in one before,
with the same commands to come after. -/
theorem Step.inNull {act : HipAct} (h : Step cfg s act s') (hact : s.nullCall act = none) (u : Nat)
    (hu : InNull (s'.calls u)) : InNull (s.calls u) ∧ s'.before u = s.before u := by
  -- thread `t` goes to `pc`
  have hset {t : Nat} {pc : CallPc} (hu : InNull (Function.update s.calls t pc u))
      (hpc : InNull pc → InNull (s.calls t)) : InNull (s.calls u) := by
    rw [Function.update_apply] at hu
    split at hu
    · rename_i he; rw [he]; exact hpc hu
    · exact hu
  cases h with
  | callNull act t op s' ha hcall => rw [ha] at hact; cases hact
  | recordXQueue t event i d hi hpc hx hdev => exact ⟨hset hu False.elim, rfl⟩
  | recordDirect t event i hi hpc hx => exact ⟨hset hu False.elim, rfl⟩
  | waitXQueue t event i xevent d hi hpc hx he hdev => exact ⟨hset hu False.elim, rfl⟩
  | waitDirect t event i j c hi hpc hx he => exact ⟨hset hu fun h => absurd h hi, rfl⟩
  | call t s' hcall =>
    cases hcall with
    | submitWaitAll op i todo cmds x w hpc hx => exact ⟨hset hu fun _ => by rw [hpc]; trivial, rfl⟩
    | submitted op cmds hpc => exact ⟨hset hu fun _ => by rw [hpc]; trivial, rfl⟩
    | wait op i w cmds hpc => exact ⟨hset hu fun _ => by rw [hpc]; trivial, rfl⟩
    | afterSync op hpc =>
      have hpc' : InNull (s.calls t) := by rw [hpc]; trivial
      cases op with
      | waitEvent event xevent => cases xevent <;> exact ⟨hset hu fun _ => hpc', rfl⟩
      | _ => exact ⟨hset hu fun _ => hpc', rfl⟩
    | synchronizedNull event xevent cap hpc => exact ⟨hset hu fun _ => by rw [hpc]; rfl, rfl⟩
    | synchronized p event xevent cap hp hpc =>
      cases xevent <;> exact ⟨hset hu False.elim, rfl⟩
    | driverCall op hpc =>
      cases op with
      | waitEvent event xevent =>
        cases xevent with
        | none => exact ⟨hset hu False.elim, rfl⟩
        | some xevent => cases xevent <;> exact ⟨hset hu False.elim, rfl⟩
      | _ => exact ⟨hset hu False.elim, rfl⟩
    | addEvent event xevent hpc => exact ⟨hset hu False.elim, rfl⟩
    | submitReturn i hpc => exact ⟨hset hu False.elim, rfl⟩
  | _ => exact ⟨hu, rfl⟩

theorem nullCall_step {act : HipAct} {t : Nat} {op : NullOp} (ha : s.nullCall act = some (t, op))
    (hs : Step cfg s act s') : callNull t op s = some s' := by
  cases hs with
  | callNull act t op s' hact hcall => rw [hact] at ha; cases ha; exact hcall
  | recordXQueue t event i d hi hpc hx hdev => rw [nullCall, if_neg hi] at ha; cases ha
  | recordDirect t event i hi hpc hx => rw [nullCall, if_neg hi] at ha; cases ha
  | waitDriver t event i hi => rw [nullCall, if_neg hi] at ha; cases ha
  | waitXQueue t event i xevent d hi hpc hx he hdev => rw [nullCall, if_neg hi] at ha; cases ha
  | waitDirect t event i j c hi hpc hx he => rw [nullCall, if_neg hi] at ha; cases ha
  | _ => cases ha

theorem nullInv_step {act : HipAct} (hr : (lts cfg).Reachable s) (h : NullInv s)
    (hs : Step cfg s act s') (hok : Drained s act) : NullInv s' := by
  intro u hu p hp
  cases ha : s.nullCall act with
  | none =>
    obtain ⟨hold, hbefore⟩ := hs.inNull ha u hu
    rw [hbefore] at hp
    exact completed_step hr hs (h u hold p hp)
  | some tp =>
    refine completed_step hr hs ?_
    obtain ⟨-, rfl⟩ := callNull_eq (nullCall_step ha hs)
    have hp' : p ∈ Function.update s.before tp.1 s.submittedBlocking u := hp
    have hu' : InNull (Function.update s.calls tp.1 (nullPc tp.2 s) u) := hu
    rw [Function.update_apply] at hp' hu'
    split at hp'
    · exact hok tp.1 tp.2 ha p hp'
    · rename_i hne
      rw [if_neg hne] at hu'
      exact h u hu' p hp'

theorem nullInv_reachable (hr : ((lts cfg).restrict Drained).Reachable s) : NullInv s := by
  refine LTS.reachable_induction (I := NullInv) ?_ ?_ hr
  · rintro s rfl t ht; exact ht.elim
  · exact fun s act s' hr h hs => nullInv_step hr.of_restrict h (step_cases hs.1) hs.2

/-! ## Calls made too early -/

/-- A call of the thread, or the hardware. -/
def own (t : Nat) : HipAct → Prop
  | .call u => u = t
  | .directFinish _ => True
  | .dev (.finish _) => True
  | _ => False

/-- What a record has captured was launched. -/
def RecordInv (s : HipShim) : Prop :=
  ∀ e cap, s.dev.record e = some cap →
    cap.pos ≤ (s.dev.launched cap.queue).length ∨ cap.pos ≤ s.direct cap.queue

theorem launched_step {act : HipAct} (hr : (lts cfg).Reachable s) (hs : Step cfg s act s')
    (i : Nat) : s.dev.launched i <+: s'.dev.launched i := by
  have hm := AsyncXQueue.machine_reachable (queue_reachable hr i).of_restrict
  unfold Device.launched
  rcases hs.queue i with he | ⟨a, ha, -⟩
  · rw [he]
  · rcases (AsyncXQueue.step_of_lts ha).machine_step with he | ⟨b, hb⟩
    · rw [he]
    · exact step_launched (step_of_reachable hm hb)

/-- The records of the queues. -/
theorem record_device {a : DeviceAct} {d d' : Device} (hs : (Device.lts cfg).step d a d')
    (hr : ∀ i, (AsyncXQueue.lts (cfg i)).Reachable (d.xq i)) {e : Nat} {cap : Capture}
    (he : d'.record e = some cap) :
    d.record e = some cap ∨ cap.pos ≤ (d'.launched cap.queue).length := by
  cases Device.step_cases hs with
  | finish i hlt => exact .inl he
  | xq i act x hq hret =>
    have he' : Device.recordLaunch i (d.xq i) x d.record e = some cap := he
    rcases (AsyncXQueue.step_of_lts hq).machine_step with heq | ⟨b, hb⟩
    · rw [Device.recordLaunch_same (by rw [heq])] at he'
      exact .inl he'
    · rcases step_launches (step_of_reachable (AsyncXQueue.machine_reachable (hr i)) hb) with
        hl | ⟨c, hl⟩
      · rw [Device.recordLaunch_same hl] at he'
        exact .inl he'
      · rw [Device.recordLaunch_new hl] at he'
        split at he'
        · obtain rfl := Option.some.inj he'
          right
          show _ ≤ ((Device.afterXq i act x d).launched i).length
          rw [Device.afterXq_launched_self]
        · exact .inl he'

theorem recordInv_step {act : HipAct} (hr : (lts cfg).Reachable s) (h : RecordInv s)
    (hs : Step cfg s act s') : RecordInv s' := by
  have hgrow := launched_step hr hs
  have hq := fun i => (queue_reachable hr i).of_restrict
  -- an old record, with launches that only grow
  have hold (hd : ∀ p, s.direct p ≤ s'.direct p) {e : Nat} {cap : Capture}
      (he : s.dev.record e = some cap) :
      cap.pos ≤ (s'.dev.launched cap.queue).length ∨ cap.pos ≤ s'.direct cap.queue :=
    (h e cap he).imp (fun hle => Nat.le_trans hle (hgrow cap.queue).length_le)
      fun hle => Nat.le_trans hle (hd cap.queue)
  have hdev {a : DeviceAct} (hstep : (Device.lts cfg).step s.dev a s'.dev)
      (hd : s'.direct = s.direct) : RecordInv s' := by
    intro e cap he
    rcases record_device hstep hq he with he | hle
    · exact hold (fun p => by rw [hd]) he
    · exact .inl hle
  have hbump (p q : Nat) : s.direct q ≤ Function.update s.direct p (s.direct p + 1) q := by
    rw [Function.update_apply]
    split
    · rename_i hqp; rw [hqp]; exact Nat.le_succ _
    · exact Nat.le_refl _
  -- a record on a stream without an XQueue
  have hrecord (event p : Nat) (hd : s'.direct = Function.update s.direct p (s.direct p + 1))
      (hr : s'.dev.record = Function.update s.dev.record event (some ⟨p, s.direct p + 1⟩)) :
      RecordInv s' := by
    intro e cap he
    rw [hr, Function.update_apply] at he
    split at he
    · obtain rfl := Option.some.inj he
      right
      show _ ≤ s'.direct p
      rw [hd, Function.update_self]
    · exact hold (fun q => by rw [hd]; exact hbump p q) he
  have hkeep (hrec : s'.dev.record = s.dev.record) (hd : ∀ p, s.direct p ≤ s'.direct p) :
      RecordInv s' := fun e cap he => hold hd (by rwa [hrec] at he)
  cases hs with
  | callNull act t op s' hact hcall =>
    obtain ⟨-, rfl⟩ := callNull_eq hcall
    exact hkeep rfl fun p => Nat.le_refl _
  | recordXQueue t event i d hi hpc hx hstep => exact hdev hstep rfl
  | recordDirect t event i hi hpc hx => exact hrecord event i rfl rfl
  | waitXQueue t event i xevent d hi hpc hx he hstep => exact hdev hstep rfl
  | directLaunch p hp => exact hkeep rfl (hbump p)
  | dev act d hother hmay hstep => exact hdev hstep rfl
  | call t s' hcall =>
    cases hcall with
    | submitWaitAll op i todo cmds x w hpc hx =>
      have hstep : Device.step cfg s.dev (.xq i (.machine .enqueueWaitAll)) =
          some (Device.afterXq i (.machine .enqueueWaitAll) x s.dev) := by
        have hstep := (AsyncXQueue.submitWaitAll_cases hx).1
        have hx' : AsyncXQueue.step (cfg i) (s.dev.xq i) (.machine .enqueueWaitAll) = some x :=
          hstep
        simp [Device.step, Device.allowed, XAct.caller, Act.caller, hx']
      exact hdev hstep rfl
    | afterSync op hpc =>
      cases op with
      | waitEvent event xevent => cases xevent <;> exact h
      | _ => exact h
    | synchronized p event xevent cap hp hpc => cases xevent <;> exact h
    | driverCall op hpc =>
      cases op with
      | kernelLaunch => exact hkeep rfl (hbump nullStream)
      | eventRecord event => exact hrecord event nullStream rfl rfl
      | waitEvent event xevent =>
        cases xevent with
        | none => exact h
        | some xevent => cases xevent <;> exact h
    | _ => exact h
  | _ => exact h

theorem recordInv_reachable (hr : (lts cfg).Reachable s) : RecordInv s := by
  refine LTS.reachable_induction (I := RecordInv) ?_ ?_ hr
  · rintro s rfl; exact fun _ _ => nofun
  · exact fun s act s' hr h hs => recordInv_step hr h (step_cases hs)

/-- The device with one more launch of stream `q` finished. -/
def finishOne (q : Nat) (s : HipShim) : HipShim :=
  { s with dev := { s.dev with
    finished := Function.update s.dev.finished q (s.dev.finished q + 1) } }

theorem finishOne_step (cfg : Nat → Config) {q : Nat}
    (h : s.dev.finished q < (s.dev.launched q).length ∨ s.dev.finished q < s.direct q) :
    ∃ act, (∀ t, own t act) ∧ (lts cfg).step s act (finishOne q s) := by
  rcases h with h | h
  · refine ⟨.dev (.finish q), fun _ => trivial, ?_⟩
    show step cfg s (.dev (.finish q)) = some (finishOne q s)
    simp only [step, otherAct, if_true, onDevice, mayLaunch, Device.step, if_pos h]
    rfl
  · exact ⟨.directFinish q, fun _ => trivial, if_pos h⟩

/-- The hardware runs until what a record has captured is complete. -/
theorem hardware_completes (cfg : Nat → Config) (cap : Capture) (n : Nat) : ∀ s : HipShim,
    cap.pos ≤ s.dev.finished cap.queue + n →
    cap.pos ≤ (s.dev.launched cap.queue).length ∨ cap.pos ≤ s.direct cap.queue →
    ∃ ls s', (lts cfg).Run s ls s' ∧ (∀ t, ∀ act ∈ ls, own t act) ∧ s'.dev.complete cap ∧
      s'.calls = s.calls ∧ s'.before = s.before ∧ s'.beforeLaunch = s.beforeLaunch ∧
      s'.dev.xq = s.dev.xq := by
  induction n with
  | zero =>
    intro s hle _
    exact ⟨[], s, .nil s, fun _ _ => nofun, decide_eq_true hle, rfl, rfl, rfl, rfl⟩
  | succ n ih =>
    intro s hle hbound
    by_cases hdone : cap.pos ≤ s.dev.finished cap.queue
    · exact ⟨[], s, .nil s, fun _ _ => nofun, decide_eq_true hdone, rfl, rfl, rfl, rfl⟩
    · have hlt : s.dev.finished cap.queue < (s.dev.launched cap.queue).length ∨
          s.dev.finished cap.queue < s.direct cap.queue := by omega
      obtain ⟨act, hown, hstep⟩ := finishOne_step cfg hlt
      have hle' : cap.pos ≤ (finishOne cap.queue s).dev.finished cap.queue + n := by
        show cap.pos ≤ Function.update s.dev.finished cap.queue (s.dev.finished cap.queue + 1)
          cap.queue + n
        rw [Function.update_self]; omega
      obtain ⟨ls, s', hrun, hls, hkeep⟩ := ih (finishOne cap.queue s) hle' hbound
      refine ⟨act :: ls, s', .cons hstep hrun, fun t a ha => ?_, hkeep⟩
      rcases List.mem_cons.1 ha with rfl | ha
      · exact hown t
      · exact hls t a ha

/-- A `Synchronize` call returns by steps of the hardware. -/
theorem capture_completes (cfg : Nat → Config) (cap : Option Capture) (s : HipShim)
    (h : ∀ c, cap = some c →
      c.pos ≤ (s.dev.launched c.queue).length ∨ c.pos ≤ s.direct c.queue) :
    ∃ ls s', (lts cfg).Run s ls s' ∧ (∀ t, ∀ act ∈ ls, own t act) ∧
      cap.all s'.dev.complete = true ∧ s'.calls = s.calls ∧ s'.before = s.before ∧
      s'.beforeLaunch = s.beforeLaunch ∧ s'.dev.xq = s.dev.xq := by
  cases cap with
  | none => exact ⟨[], s, .nil _, fun _ _ => nofun, rfl, rfl, rfl, rfl, rfl⟩
  | some c => exact hardware_completes cfg c c.pos s (Nat.le_add_left _ _) (h c rfl)

/-- A call past `HipSyncBlockingXQueues` reaches the driver by steps of its
own. -/
theorem reaches_driver (cfg : Nat → Config) {t : Nat} {op : NullOp} (hrec : RecordInv s)
    (hpc : s.calls t = .syncBlocking op [] []) :
    ∃ ls s', (lts cfg).Run s ls s' ∧ (∀ act ∈ ls, own t act) ∧ s'.calls t = .driverCall op ∧
      s'.before = s.before ∧ s'.dev.xq = s.dev.xq := by
  let s₁ := setCall t (.waitBlocking op []) s
  have hcall {s s' : HipShim} (h : stepCall cfg t s = some s') : (lts cfg).step s (.call t) s' := h
  have hself {pc : CallPc} {s : HipShim} : (setCall t pc s).calls t = pc :=
    Function.update_self _ _ _
  have h₁ : (lts cfg).step s (.call t) s₁ := hcall (by simp only [stepCall, hpc]; rfl)
  have h₂ : (lts cfg).step s₁ (.call t) (afterSync t op s₁) :=
    hcall (by simp only [stepCall, s₁, hself])
  have hrun : (lts cfg).Run s [.call t, .call t] (afterSync t op s₁) := .cons h₁ (.cons h₂ (.nil _))
  have hown : ∀ act ∈ [HipAct.call t, .call t], own t act := by
    intro act ha
    simp only [List.mem_cons, List.not_mem_nil, or_false, or_self] at ha
    rw [ha]; rfl
  have hdirect (hne : afterSync t op s₁ = setCall t (.driverCall op) s₁) :
      ∃ ls s', (lts cfg).Run s ls s' ∧ (∀ act ∈ ls, own t act) ∧ s'.calls t = .driverCall op ∧
        s'.before = s.before ∧ s'.dev.xq = s.dev.xq := by
    rw [hne] at hrun
    exact ⟨_, _, hrun, hown, hself, rfl, rfl⟩
  cases op with
  | kernelLaunch => exact hdirect rfl
  | eventRecord event => exact hdirect rfl
  | waitEvent event xevent =>
    cases xevent with
    | none => exact hdirect rfl
    | some xevent =>
      -- the hardware completes what the event has recorded, and the call returns
      let s₂ := setCall t (.eventSynchronize nullStream event xevent (s.dev.record event)) s₁
      obtain ⟨ls, s₃, hrun₃, hls, hc, hcalls, hbefore, -, hxq⟩ :=
        capture_completes cfg (s.dev.record event) s₂ (hrec event)
      have hpc₃ : s₃.calls t = .eventSynchronize nullStream event xevent (s.dev.record event) := by
        rw [hcalls]; exact hself
      have h₄ : (lts cfg).step s₃ (.call t)
          (setCall t (.driverCall (.waitEvent event (some xevent))) s₃) :=
        hcall (by simp only [stepCall, hpc₃, hc, if_true])
      refine ⟨[.call t, .call t] ++ (ls ++ [.call t]), _,
        hrun.append (hrun₃.append (.cons h₄ (.nil _))), fun act ha => ?_, hself, hbefore, hxq⟩
      rcases List.mem_append.1 ha with ha | ha
      · exact hown act ha
      · rcases List.mem_append.1 ha with ha | ha
        · exact hls t act ha
        · rw [List.mem_singleton.1 ha]; rfl

/-- **Null-stream work and the blocking streams.** A run whose null-stream
calls are made with drained queues is ordered; a call made otherwise can reach
the driver while something submitted before it is not Completed, by steps of
its thread and of the hardware alone. -/
theorem null_stream_waits (cfg : Nat → Config) :
    (∀ s, ((lts cfg).restrict Drained).Reachable s → Ordered s) ∧
    ∀ s act s', (lts cfg).Reachable s → (lts cfg).step s act s' → ¬ Drained s act →
      ∃ t ls s'', (lts cfg).Run s' ls s'' ∧ (∀ act ∈ ls, own t act) ∧ ¬ Ordered s'' := by
  refine ⟨fun s hr t op hpc p hp => ?_, fun s act s' hr hs hnd => ?_⟩
  · exact nullInv_reachable hr t (by rw [hpc]; trivial) p hp
  · unfold Drained at hnd
    push Not at hnd
    obtain ⟨t, op, hact, p, hp, hne⟩ := hnd
    have hcall : callNull t op s = some s' := nullCall_step hact (step_cases hs)
    have hr' := hr.step hs
    obtain ⟨-, rfl⟩ := callNull_eq hcall
    have hself : (Function.update s.calls t (nullPc op s)) t = nullPc op s :=
      Function.update_self _ _ _
    -- the thread about to call the driver, with `p` not Completed
    have hbad {s'' : HipShim} (hpc : s''.calls t = .driverCall op)
        (hbefore : s''.before = Function.update s.before t s.submittedBlocking)
        (hxq : s''.dev.xq = s.dev.xq) : ¬ Ordered s'' := by
      intro ho
      refine hne ?_
      have hdone := ho t op hpc p (by rw [hbefore, Function.update_self]; exact hp)
      rwa [cmdState, hxq] at hdone
    by_cases hsync : nullPc op s = .syncBlocking op [] []
    · obtain ⟨ls, s'', hrun, hls, hpc, hbefore, hxq⟩ :=
        reaches_driver cfg (recordInv_reachable hr') (hself.trans hsync)
      exact ⟨t, ls, s'', hrun, hls, hbad hpc hbefore hxq⟩
    · have hpc : nullPc op s = .driverCall op := by
        have hskip (h : nullPc op s = .syncBlocking op s.blockingXQueues []) :
            nullPc op s = .driverCall op := by
          rw [blockingXQueues_nil hr] at h
          exact absurd h hsync
        cases op with
        | waitEvent event xevent =>
          cases xevent with
          | none => rfl
          | some xevent => exact hskip rfl
        | _ => exact hskip rfl
      exact ⟨t, [], _, .nil _, fun _ => nofun, hbad (hself.trans hpc) rfl rfl⟩

/-! ## One stream, one kernel -/

def worker (i : Nat) : HipAct := .dev (.xq i (.machine (.worker true)))

def submitter (i t : Nat) : HipAct := .dev (.xq i (.submitter t))

def kernel (i t : Nat) : HipAct := .dev (.xq i (.submit t kCommandPropertyNone .hal))

/-- Thread 0 creates stream 1 with an XQueue and launches a kernel on it. -/
def kernelTrace : List HipAct :=
  [.xStreamCreate 1 0 true, kernel 1 0] ++ List.replicate 3 (submitter 1 0)

/-- Thread 0 launches a kernel on the null stream; the driver call is next. -/
def nullTrace : List HipAct := [.xLaunchNull 0, .call 0, .call 0]

/-- The kernel of `kernelTrace` runs and is completed. -/
def drainTrace : List HipAct :=
  List.replicate 7 (worker 1) ++ [.dev (.finish 1)] ++ List.replicate 6 (worker 1)

def nullView (s : HipShim) : CallPc × List (Nat × HwCommand) × XCommandState :=
  (s.calls 0, s.before 0, s.cmdState 1 (.hardware (halCmd 1)))

def drained (s : HipShim) (act : HipAct) : Bool :=
  (s.nullCall act).isNone ||
    s.submittedBlocking.all fun p => s.cmdState p.1 (.hardware p.2) = .completed

theorem drained_sound {act : HipAct} (h : drained s act = true) : Drained s act := by
  intro t op hact
  simpa [drained, hact] using h

theorem null_stream_waits_drained : ∃ s,
    ((lts fun _ => Cuda.Shim.cfgTwo).restrict Drained).Reachable s ∧
    s.calls 0 = .driverCall .kernelLaunch ∧ s.before 0 = [(1, halCmd 1)] ∧ Ordered s := by
  have htrace : ((LTS.exec (LTS.guarded (drained · · = true) (step fun _ => Cuda.Shim.cfgTwo))
      init (kernelTrace ++ drainTrace ++ nullTrace)).map nullView) =
      some (.driverCall .kernelLaunch, [(1, halCmd 1)], .completed) := by decide
  obtain ⟨s, hs, he⟩ := Option.map_eq_some_iff.1 htrace
  simp only [nullView, Prod.mk.injEq] at he
  obtain ⟨hpc, hbefore, -⟩ := he
  have hr : ((lts fun _ => Cuda.Shim.cfgTwo).restrict (drained · · = true)).Reachable s :=
    LTS.reachable_restrict_of_exec rfl hs
  have hr' := hr.restrict_mono fun _ _ => drained_sound
  exact ⟨s, hr', hpc, hbefore, (null_stream_waits _).1 s hr'⟩

/-- **Counterexample**: the kernel is still in the buffer of its XQueue. -/
theorem null_stream_overtakes :
    ¬ ∀ (cfg : Nat → Config) (s : HipShim), (lts cfg).Reachable s → Ordered s := by
  intro h
  have htrace : ((LTS.exec (step fun _ => Cuda.Shim.cfgTwo) init
      (kernelTrace ++ nullTrace)).map nullView) =
      some (.driverCall .kernelLaunch, [(1, halCmd 1)], .pending) := by decide
  obtain ⟨s, hs, he⟩ := Option.map_eq_some_iff.1 htrace
  simp only [nullView, Prod.mk.injEq] at he
  obtain ⟨hpc, hbefore, hpending⟩ := he
  have hr : (lts fun _ => Cuda.Shim.cfgTwo).Reachable s := LTS.reachable_of_exec rfl hs
  have hmem : (1, halCmd 1) ∈ s.before 0 := by rw [hbefore]; exact List.mem_singleton_self _
  have hdone := h _ s hr 0 .kernelLaunch hpc (1, halCmd 1) hmem
  rw [hpending] at hdone
  cases hdone

end HipShim
end Xsched.Hip
