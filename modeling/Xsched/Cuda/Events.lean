import Xsched.Cuda.Device

/-!
# Completion through a shared event

A record command synchronizes through the user's event and not through an
event of its own. `EventSynchronize` waits for the last record of the event,
so when another queue has recorded it again, the call of the first queue
returns with the second stream, and a prefix of the first in-flight log is
completed while its stream still runs (`record_completes_early`).

`EventInv` says what a call made on a record command of the own stream is
worth: what it waits for includes every launch the call covers, so when it
has returned these are finished. Completion rests on calls that returned
(`completion_sound`), hence a queue that never synchronizes through a foreign
record completes finished commands only (`completed_finished`).
-/
namespace Xsched.Cuda
open Preempt
open Preempt.AsyncXQueue (XAct)

namespace Device

/-- The record command on which the step calls `EventSynchronize`, with its event. -/
def recordCall (d : Device) (i : Nat) (act : XAct) : Option (HwCommand × Nat) :=
  act.caller.bind fun v =>
    match (d.xq i).machine.call v with
    | some (call, .unlocked) =>
      match call.target with
      | .hwq => none
      | .cmd c =>
        match c.kind with
        | .eventRecord e => some (c, e)
        | _ => none
    | _ => none

/-- `EventSynchronize` is called for a record command only while the last
record of its event is one of the own stream, or the command is finished. -/
def ownRecord (d : Device) (i : Nat) (act : XAct) : Bool :=
  (d.recordCall i act).all fun (c, e) =>
    (d.record e).all (fun cap => decide (cap.queue = i)) ||
      decide (c ∈ (d.launched i).take (d.finished i))

/-- The condition on a step, with that of `submission_order`. -/
def OwnRecords (d : Device) : DeviceAct → Prop
  | .xq i act => AsyncXQueue.NotOvertaking (d.xq i) act ∧ ownRecord d i act = true
  | .finish _ => True

structure EventInv (d : Device) : Prop where
  /-- the last record of an event on its own stream is not before any other -/
  records : ∀ i c e, c ∈ d.launched i → c.kind = .eventRecord e →
    ∃ cap, d.record e = some cap ∧ (cap.queue = i → (d.launched i).idxOf c < cap.pos)
  called : ∀ i v call, (d.xq i).machine.call v = some (call, .called) →
    ∃ cap, d.waiting i v = some cap ∧
      (cap.queue = i ∧ call.bound ≤ cap.pos ∨ call.bound ≤ d.finished i)
  returned : ∀ i, ∀ call ∈ (d.xq i).machine.returned, ∀ c, call.Covers c → d.Finished i c

variable {cfg : Nat → Config} {d d' : Device} {i : Nat} {act : XAct} {x : AsyncXQueue}

/-! ## What a step of a queue changes -/

theorem Finished.mono {c : HwCommand} (h : d.Finished i c)
    (hl : d.launched i <+: d'.launched i) (hf : d.finished i ≤ d'.finished i) :
    d'.Finished i c := by
  obtain ⟨l, hl⟩ := hl
  unfold Finished at h ⊢
  rw [← hl]
  have hpre : (d.launched i).take (d.finished i) <+: (d.launched i ++ l).take (d'.finished i) := by
    refine (List.prefix_append (d.launched i) l |>.take (d.finished i)).trans ?_
    exact List.take_prefix_take_left hf
  exact hpre.subset h

theorem recordLaunch_same {x x' : AsyncXQueue} (h : x'.machine.launched = x.machine.launched)
    (record : Nat → Option Capture) (e : Nat) : recordLaunch i x x' record e = record e := by
  unfold recordLaunch newLaunch
  rw [h, List.getElem?_eq_none (Nat.le_refl _)]

theorem recordLaunch_new {x x' : AsyncXQueue} {c : HwCommand}
    (h : x'.machine.launched = x.machine.launched ++ [c]) (record : Nat → Option Capture) (e : Nat) :
    recordLaunch i x x' record e =
      if c.kind = .eventRecord e then some ⟨i, x'.machine.launched.length⟩ else record e := by
  unfold recordLaunch newLaunch
  rw [h, List.getElem?_concat_length]

theorem waiting_other {j : Nat} (hj : j ≠ i) (u : Caller) :
    (afterXq i act x d).waiting j u = d.waiting j u := if_neg fun h => hj h.1

theorem waiting_idle {u : Caller} (hu : act.caller ≠ some u) :
    (afterXq i act x d).waiting i u = d.waiting i u := if_neg fun h => hu h.2

theorem waiting_call {v : Caller} {call : SyncCall} (hv : act.caller = some v)
    (hcall : (d.xq i).machine.call v = some (call, .unlocked)) :
    (afterXq i act x d).waiting i v = d.capture i call.target := by
  show (if i = i ∧ act.caller = some v then enterCall i v d else _) = _
  rw [if_pos ⟨rfl, hv⟩, enterCall, hcall]

/-! ## The invariant -/

/-- A launch on stream `i`, or none. -/
theorem records_after (h : EventInv d)
    (hl : x.machine.launched = d.launched i ∨ ∃ c, x.machine.launched = d.launched i ++ [c])
    (j : Nat) (c : HwCommand) (e : Nat) (hc : c ∈ (afterXq i act x d).launched j)
    (hk : c.kind = .eventRecord e) :
    ∃ cap, (afterXq i act x d).record e = some cap ∧
      (cap.queue = j → ((afterXq i act x d).launched j).idxOf c < cap.pos) := by
  have hother (hj : j ≠ i) : (afterXq i act x d).launched j = d.launched j := by
    unfold launched; rw [afterXq_other act x d hj]
  have hself : (afterXq i act x d).launched i = x.machine.launched := by
    unfold launched; rw [afterXq_self]
  show ∃ cap, recordLaunch i (d.xq i) x d.record e = some cap ∧ _
  rcases hl with hl | ⟨c₀, hl⟩
  · rw [recordLaunch_same hl]
    have hsame : (afterXq i act x d).launched j = d.launched j := by
      by_cases hj : j = i
      · subst hj; rw [hself, hl]
      · exact hother hj
    rw [hsame] at hc ⊢
    exact h.records j c e hc hk
  · rw [recordLaunch_new hl]
    by_cases hk₀ : c₀.kind = .eventRecord e
    · rw [if_pos hk₀]
      refine ⟨_, rfl, fun hj => ?_⟩
      have hj' : i = j := hj
      subst hj'
      rw [hself] at hc ⊢
      exact List.idxOf_lt_length_of_mem hc
    · rw [if_neg hk₀]
      have hne : c ≠ c₀ := fun he => hk₀ (by rw [← he]; exact hk)
      by_cases hj : j = i
      · subst hj
        rw [hself, hl] at hc ⊢
        have hold : c ∈ d.launched j := by
          rcases List.mem_append.1 hc with hc | hc
          · exact hc
          · exact absurd (List.mem_singleton.1 hc) hne
        rw [List.idxOf_append_of_mem hold]
        exact h.records j c e hold hk
      · rw [hother hj] at hc ⊢
        exact h.records j c e hc hk

/-- What a call waits for when it is made. -/
theorem capture_bound (h : EventInv d) {v : Caller} {call : SyncCall} (hv : act.caller = some v)
    (hcall : (d.xq i).machine.call v = some (call, .unlocked))
    (hmem : ∀ c, call.target = .cmd c → c ∈ d.launched i) (hown : ownRecord d i act = true) :
    ∃ cap, d.capture i call.target = some cap ∧
      (cap.queue = i ∧ SyncCall.bound { call with launchedBefore := d.launched i } ≤ cap.pos ∨
        SyncCall.bound { call with launchedBefore := d.launched i } ≤ d.finished i) := by
  cases htgt : call.target with
  | hwq =>
    exact ⟨_, rfl, .inl ⟨rfl, Nat.le_refl _⟩⟩
  | cmd c =>
    have hc := hmem c htgt
    show ∃ cap, d.capture i (.cmd c) = some cap ∧
      (cap.queue = i ∧ (d.launched i).idxOf c + 1 ≤ cap.pos ∨
        (d.launched i).idxOf c + 1 ≤ d.finished i)
    cases hk : c.kind with
    | eventRecord e =>
      obtain ⟨cap, hcap, hpos⟩ := h.records i c e hc hk
      have hrec : d.recordCall i act = some (c, e) := by
        simp only [recordCall, hv, Option.bind_some, hcall, htgt, hk]
      rw [ownRecord, hrec] at hown
      simp only [Option.all_some, hcap, Bool.or_eq_true, decide_eq_true_eq] at hown
      refine ⟨cap, by simp only [capture, hk, hcap], ?_⟩
      rcases hown with hq | hfin
      · exact .inl ⟨hq, hpos hq⟩
      · right
        have hlt := List.idxOf_lt_length_of_mem hfin
        rw [(List.take_prefix (d.finished i) (d.launched i)).idxOf_eq_of_mem hfin,
          List.length_take] at hlt
        omega
    | callback => exact ⟨⟨i, _⟩, by simp only [capture, hk], .inl ⟨rfl, Nat.le_refl _⟩⟩
    | hal => exact ⟨⟨i, _⟩, by simp only [capture, hk], .inl ⟨rfl, Nat.le_refl _⟩⟩

theorem afterXq_launched_other {j : Nat} (hj : j ≠ i) :
    (afterXq i act x d).launched j = d.launched j := by
  unfold launched; rw [afterXq_other act x d hj]

theorem afterXq_launched_self : (afterXq i act x d).launched i = x.machine.launched := by
  unfold launched; rw [afterXq_self]

/-- The launches of all streams only grow. -/
theorem afterXq_launched (hl : d.launched i <+: x.machine.launched) (j : Nat) :
    d.launched j <+: (afterXq i act x d).launched j := by
  by_cases hj : j = i
  · subst hj; rw [afterXq_launched_self]; exact hl
  · rw [afterXq_launched_other hj]

/-- A call that returned: what it covers is finished. -/
theorem covers_finished {call : SyncCall} {c : HwCommand} (hnd : (d.launched i).Nodup)
    (hpre : call.launchedBefore <+: d.launched i) (hfin : call.bound ≤ d.finished i)
    (hc : call.Covers c) : d.Finished i c := by
  have hmem := covers_bound hc (hpre.sublist.nodup hnd)
  have htake : call.launchedBefore.take call.bound <+: (d.launched i).take (d.finished i) :=
    (hpre.take call.bound).trans (List.take_prefix_take_left hfin)
  exact htake.subset hmem

theorem eventInv_xq (h : EventInv d) (hr : (AsyncXQueue.lts (cfg i)).Reachable (d.xq i))
    (hs : (AsyncXQueue.lts (cfg i)).step (d.xq i) act x)
    (hret : ∀ v, act.caller = some v → d.mayReturn i v) (hown : ownRecord d i act = true) :
    EventInv (afterXq i act x d) := by
  obtain ⟨hab, hstep⟩ := AsyncXQueue.step_cases hs
  have hm := AsyncXQueue.machine_reachable hr
  have hlog := logInv_reachable hm
  have hsync := syncInv_reachable hm hab
  have hcaller := hstep.machine_caller
  have hlaunch : x.machine.launched = d.launched i ∨
      ∃ c, x.machine.launched = d.launched i ++ [c] := by
    rcases hcaller with ⟨he, -⟩ | ⟨a, ha, -⟩
    · exact .inl (by rw [he]; rfl)
    · exact step_launches (step_of_reachable hm ha)
  have hgrow : d.launched i <+: x.machine.launched := by
    rcases hlaunch with he | ⟨c, he⟩
    · rw [he]
    · rw [he]; exact List.prefix_append _ _
  have hmono {j : Nat} {c : HwCommand} (hc : d.Finished j c) : (afterXq i act x d).Finished j c :=
    hc.mono (afterXq_launched hgrow j) (Nat.le_refl _)
  -- the calls of queue `i`
  have hcalls : CallStep (d.xq i).machine x.machine act.caller := by
    rcases hcaller with ⟨he, hv⟩ | ⟨a, ha, hv⟩
    · refine .other (fun u call hu => ?_) (by rw [he])
      rw [hv, ← he]; exact ⟨nofun, hu⟩
    · rw [← hv]; exact step_call hm ha
  refine ⟨records_after h hlaunch, fun j u call hu => ?_, fun j call hj c hc => ?_⟩
  · by_cases hji : j = i
    · subst hji
      rw [afterXq_self] at hu
      -- a call of a thread that did not step
      have hold {u : Caller} (hu : act.caller ≠ some u)
          (hcall : (d.xq j).machine.call u = some (call, .called)) :
          ∃ cap, (afterXq j act x d).waiting j u = some cap ∧
            (cap.queue = j ∧ call.bound ≤ cap.pos ∨ call.bound ≤ d.finished j) := by
        rw [waiting_idle hu]; exact h.called j u call hcall
      cases hcalls with
      | call w call₀ hv hw hw' hne hr =>
        by_cases huw : u = w
        · subst huw
          rw [hw'] at hu
          simp only [Option.some.injEq, Prod.mk.injEq, and_true] at hu
          obtain rfl := hu
          rw [waiting_call hv hw]
          exact capture_bound h hv hw (hsync.call_ok hw) hown
        · rw [hne u huw] at hu
          exact hold (fun he => huw (Option.some.inj (he.symm.trans hv))) hu
      | ret w call₀ hv hw hw' hne hr =>
        have huw : u ≠ w := by
          rintro rfl
          rw [hw'] at hu; cases hu
        rw [hne u huw] at hu
        exact hold (fun he => huw (Option.some.inj (he.symm.trans hv))) hu
      | other hstay hr =>
        obtain ⟨hvu, hu'⟩ := hstay u call hu
        exact hold hvu hu'
    · rw [afterXq_other act x d hji] at hu
      rw [waiting_other hji]
      exact h.called j u call hu
  · by_cases hji : j = i
    · subst hji
      rw [afterXq_self] at hj
      cases hcalls with
      | call w call₀ hv hw hw' hne hr => rw [hr] at hj; exact hmono (h.returned j call hj c hc)
      | other hstay hr => rw [hr] at hj; exact hmono (h.returned j call hj c hc)
      | ret w call₀ hv hw hw' hne hr =>
        rw [hr] at hj
        rcases List.mem_append.1 hj with hj | hj
        · exact hmono (h.returned j call hj c hc)
        · obtain rfl := List.mem_singleton.1 hj
          -- the driver let the call return
          obtain ⟨cap, hcap, hbound⟩ := h.called j w call hw
          have hdone := hret w hv
          rw [mayReturn, hw] at hdone
          simp only [hcap, Option.all_some, complete, decide_eq_true_eq] at hdone
          have hfin : call.bound ≤ d.finished j := by
            rcases hbound with ⟨hq, hle⟩ | hle
            · rw [hq] at hdone; omega
            · exact hle
          have hok := hsync.call_ok hw
          exact hmono (covers_finished (hlog.launched_sublist.nodup hlog.nodup) hok.1 hfin hc)
    · rw [afterXq_other act x d hji] at hj
      exact hmono (h.returned j call hj c hc)

theorem eventInv_finish (h : EventInv d) (i : Nat) :
    EventInv { d with finished := Function.update d.finished i (d.finished i + 1) } := by
  have hle (j : Nat) : d.finished j ≤ Function.update d.finished i (d.finished i + 1) j := by
    rw [Function.update_apply]
    split
    · rename_i hj; rw [hj]; exact Nat.le_succ _
    · exact Nat.le_refl _
  refine ⟨h.records, fun j u call hu => ?_, fun j call hj c hc => ?_⟩
  · obtain ⟨cap, hcap, hbound⟩ := h.called j u call hu
    exact ⟨cap, hcap, hbound.imp_right fun hb => Nat.le_trans hb (hle j)⟩
  · exact (h.returned j call hj c hc).mono (List.prefix_refl _) (hle j)

theorem eventInv_reachable (hr : ((lts cfg).restrict OwnRecords).Reachable d) : EventInv d := by
  refine LTS.reachable_induction (I := EventInv) ?_ ?_ hr
  · rintro d rfl
    exact ⟨nofun, fun _ v => by cases v <;> exact nofun, nofun⟩
  · rintro d act d' hr h ⟨hs, hok⟩
    cases step_cases hs with
    | xq i act x hq hret =>
      have hx := xq_reachable (P := AsyncXQueue.NotOvertaking) (i := i) hr fun _ _ hok => hok.1
      exact eventInv_xq h hx.of_restrict hq hret hok.2
    | finish i hlt => exact eventInv_finish h i

/-- A launched command that a worker or an application thread completes is
finished. -/
theorem completed_finished {a : Act} {c : HwCommand}
    (hr : ((lts cfg).restrict OwnRecords).Reachable d)
    (hs : (lts cfg).step d (.xq i (.machine a)) d') (hc : c ∈ d.launched i)
    (hnew : (d.xq i).machine.cmdState (.hardware c) ≠ .completed)
    (hdone : (d'.xq i).machine.cmdState (.hardware c) = .completed) : d.Finished i c := by
  have hx := xq_reachable (P := AsyncXQueue.NotOvertaking) (i := i) hr fun _ _ hok => hok.1
  cases step_cases hs with
  | xq _ _ x hq hret =>
    rw [afterXq_self] at hdone
    cases AsyncXQueue.step_of_lts hq with
    | machine _ m hd hm =>
      obtain ⟨hsync, -⟩ := completion_sound (AsyncXQueue.machine_inOrder hx) hm hnew hdone
      rcases hsync hc with ⟨call, hret, -, hcov⟩ | ⟨⟨n, rfl⟩, -⟩
      · exact (eventInv_reachable hr).returned i call hret c hcov
      · cases hd
    | skip _ hact ha => exact absurd rfl (ha a)

/-- As `OwnRecords`, with a thread of its own for each queue instead of its
first part. -/
def ownThread (owner : Nat → Nat) (d : Device) : DeviceAct → Bool
  | .xq i (.submit t _ _) => decide (t = owner i)
  | .xq i act => ownRecord d i act
  | .finish _ => true

theorem ownThread_ok {owner : Nat → Nat} {act : DeviceAct}
    (hr : ((lts cfg).restrict (ownThread owner · · = true)).Reachable d)
    (hok : ownThread owner d act = true) : OwnRecords d act := by
  cases act with
  | finish i => trivial
  | xq i act =>
    have hx : ((AsyncXQueue.lts (cfg i)).restrict (AsyncXQueue.SubmitsFrom (owner i))).Reachable
        (d.xq i) := by
      refine xq_reachable hr fun d act hact t props kind he => ?_
      subst he
      exact of_decide_eq_true hact
    refine ⟨AsyncXQueue.notOvertaking_of_single hx act, ?_⟩
    cases act with
    | submit t props kind => rfl
    | _ => exact hok

end Device

namespace Shim

variable {cfg : Nat → Config} {s s' : Shim}

/-- Every queue takes its commands in order, and `EventSynchronize` is called
for a record command only while the last record of its event is one of the
own stream, or the command is finished. -/
def OwnRecords (s : Shim) (act : ShimAct) : Prop :=
  ∀ a, deviceAct s act = some a → Device.OwnRecords s.dev a

/-- **Completion through events is sound** as long as no queue synchronizes
through a foreign record: a launched command that a worker or an application
thread completes is finished. -/
theorem record_completion {i : Nat} {a : Act} {c : HwCommand}
    (hr : ((lts cfg).restrict OwnRecords).Reachable s)
    (hs : (lts cfg).step s (.dev (.xq i (.machine a))) s') (hc : c ∈ s.dev.launched i)
    (hnew : (s.dev.xq i).machine.cmdState (.hardware c) ≠ .completed)
    (hdone : (s'.dev.xq i).machine.cmdState (.hardware c) = .completed) : s.dev.Finished i c := by
  have hdev : ((Device.lts cfg).restrict Device.OwnRecords).Reachable s.dev :=
    device_reachable hr fun _ _ a hok ha => hok a ha
  exact Device.completed_finished hdev (onDevice_eq hs) hc hnew hdone

def ownThread (owner : Nat → Nat) (s : Shim) (act : ShimAct) : Bool :=
  (deviceAct s act).all (Device.ownThread owner s.dev)

theorem ownThread_reachable {owner : Nat → Nat}
    (hr : ((lts cfg).restrict (ownThread owner · · = true)).Reachable s) :
    ((lts cfg).restrict OwnRecords).Reachable s := by
  refine LTS.reachable_induction (I := ((lts cfg).restrict OwnRecords).Reachable) ?_ ?_ hr
  · exact fun s h => LTS.reachable_init h
  · intro s act s' hr h hs
    have hall {s : Shim} {act : ShimAct} {a : DeviceAct} (hok : ownThread owner s act = true)
        (ha : deviceAct s act = some a) : Device.ownThread owner s.dev a = true := by
      rw [ownThread, ha] at hok; exact hok
    refine h.step ⟨hs.1, fun a ha => ?_⟩
    exact Device.ownThread_ok (device_reachable hr fun _ _ _ => hall) (hall hs.2 ha)

/-! ## Two queues and one event -/

/-- Threshold and batch size 2. -/
def cfgTwo : Config := ⟨.block, 2, 2, Nat.le_refl 2, Nat.two_pos⟩

def worker (i : Nat) : ShimAct := .dev (.xq i (.machine (.worker true)))

def app (i t : Nat) : ShimAct := .dev (.xq i (.machine (.app t)))

def submitter (i t : Nat) : ShimAct := .dev (.xq i (.submitter t))

/-- Thread 0 submits a command and records event 7 behind it on queue 0; both
are launched and thread 1 synchronizes the event, up to its driver call. -/
def recordTrace : List ShimAct :=
  List.replicate 4 (worker 0) ++ [ShimAct.dev (.xq 0 (.submit 0 kCommandPropertyNone .hal))] ++
  List.replicate 3 (submitter 0 0) ++ [ShimAct.xEventRecord 0 7 0] ++ List.replicate 3 (submitter 0 0) ++
  [ShimAct.addEvent 0] ++ List.replicate 6 (worker 0) ++ [ShimAct.xEventSynchronize 1 7] ++
  List.replicate 3 (app 0 1)

/-- The stream runs both, and the call returns. -/
def ownTrace : List ShimAct :=
  recordTrace ++ [ShimAct.dev (.finish 0), ShimAct.dev (.finish 0)] ++ List.replicate 2 (app 0 1)

/-- Thread 2 records event 7 again, on queue 1; its stream runs the record and
the call returns. -/
def foreignTrace : List ShimAct :=
  recordTrace ++ List.replicate 4 (worker 1) ++ [ShimAct.xEventRecord 2 7 1] ++
  List.replicate 3 (submitter 1 2) ++ [ShimAct.addEvent 2] ++ List.replicate 3 (worker 1) ++
  [ShimAct.dev (.finish 1)] ++ List.replicate 2 (app 0 1)

/-- What the last step of thread 1 does to command 1. -/
def lastStep (s : Shim) : List HwCommand × Nat × XCommandState × Option XCommandState :=
  (s.dev.launched 0, s.dev.finished 0, (s.dev.xq 0).machine.cmdState (.hardware (halCmd 1)),
    (step (fun _ => cfgTwo) s (app 0 1)).map fun s' =>
      (s'.dev.xq 0).machine.cmdState (.hardware (halCmd 1)))

def recordCmd (idx : Int) (event : Nat) : HwCommand :=
  ⟨idx, kCommandPropertyIdempotent, .eventRecord event⟩

/-- After its own record command 1 is finished when it is completed. -/
theorem record_completion_own : ∃ s s', (lts fun _ => cfgTwo).Run init ownTrace s ∧
    (lts fun _ => cfgTwo).step s (app 0 1) s' ∧
    (s'.dev.xq 0).machine.cmdState (.hardware (halCmd 1)) = .completed ∧
    s.dev.Finished 0 (halCmd 1) := by
  have htrace : ((LTS.exec (LTS.guarded (ownThread (fun _ => 0) · · = true)
      (step fun _ => cfgTwo)) init ownTrace).map lastStep) =
      some ([halCmd 1, recordCmd 2 7], 2, .inFlight, some .completed) := by decide
  obtain ⟨s, hs, he⟩ := Option.map_eq_some_iff.1 htrace
  simp only [lastStep, Prod.mk.injEq] at he
  obtain ⟨hla, -, hnew, hlast⟩ := he
  obtain ⟨s', hs', hdone⟩ := Option.map_eq_some_iff.1 hlast
  have hr : ((lts fun _ => cfgTwo).restrict (ownThread (fun _ => 0) · · = true)).Run init
      ownTrace s := LTS.run_restrict_of_exec hs
  refine ⟨s, s', hr.of_restrict, hs', hdone, ?_⟩
  have hreach := ownThread_reachable (LTS.reachable_restrict_of_exec rfl hs)
  exact record_completion hreach hs' (by rw [hla]; exact List.mem_cons_self)
    (by rw [hnew]; decide) hdone

/-- **Counterexample**: command 1 is completed through the record of the other
queue while the hardware has finished nothing of its stream. -/
theorem record_completes_early :
    ¬ ∀ (cfg : Nat → Config) (s s' : Shim) (i : Nat) (a : Act) (c : HwCommand),
      (lts cfg).Reachable s → (lts cfg).step s (.dev (.xq i (.machine a))) s' →
      c ∈ s.dev.launched i → (s.dev.xq i).machine.cmdState (.hardware c) ≠ .completed →
      (s'.dev.xq i).machine.cmdState (.hardware c) = .completed → s.dev.Finished i c := by
  intro h
  have htrace : ((LTS.exec (step fun _ => cfgTwo) init foreignTrace).map lastStep) =
      some ([halCmd 1, recordCmd 2 7], 0, .inFlight, some .completed) := by decide
  obtain ⟨s, hs, he⟩ := Option.map_eq_some_iff.1 htrace
  simp only [lastStep, Prod.mk.injEq] at he
  obtain ⟨hla, hfin, hnew, hlast⟩ := he
  obtain ⟨s', hs', hdone⟩ := Option.map_eq_some_iff.1 hlast
  have hbad := h (fun _ => cfgTwo) s s' 0 (.app 1) (halCmd 1) (LTS.reachable_of_exec rfl hs) hs'
    (by rw [hla]; exact List.mem_cons_self) (by rw [hnew]; decide) hdone
  rw [Device.Finished, hfin] at hbad
  cases hbad

end Shim
end Xsched.Cuda
