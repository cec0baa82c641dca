import Xsched.Cuda.EventCalls

/-!
# Event query against event synchronize

Nothing ever changes the state of a record command that was not submitted, so
a query of an event that was recorded without an XQueue never succeeds, also
after a synchronize (`synchronized_not_ready`).

`KnownInv`: whatever record of an event the driver has seen is in `g_events`
or on its way there, so an event that is in neither was never recorded.
`SyncedInv`: a call that has returned leaves the command it found Completed.

**Result.** `event_query`, for runs in which every queue takes its commands
in order and synchronizes through records of its own stream: a query after a
synchronize succeeds if and only if the last record was made on an XQueue,
and a query succeeds only when the recorded work has completed.
-/
namespace Xsched.Cuda
open Preempt
open Preempt.AsyncXQueue (XAct)

namespace EventShim

variable {cfg : Nat → Config} {hasXQueue : Nat → Bool} {s s' : EventShim}

/-! ## Every record is known to `g_events` -/

/-- Some record of the event is in `g_events` or on its way there. -/
def Known (s : EventShim) (event : Nat) : Prop :=
  s.gEvents event ≠ none ∨ s.destroyed event = true ∨
    ∃ t xevent, s.recording t = some (event, xevent)

structure KnownInv (hasXQueue : Nat → Bool) (s : EventShim) : Prop where
  gEvents : ∀ e i c, s.gEvents e = some (.submitted i c) → hasXQueue i
  recording : ∀ t e i c, s.recording t = some (e, .submitted i c) → hasXQueue i
  held : ∀ i c e, Holds (s.dev.xq i) c → c.kind = .eventRecord e → s.Known e
  record : ∀ e, s.dev.record e ≠ none → s.Known e

theorem Known.start {t e e' : Nat} {xevent : XEvent} (hrec : s.recording t = none)
    (h : s.Known e) : (startRecord t e' xevent s).Known e := by
  refine h.imp_right (Or.imp_right ?_)
  rintro ⟨u, y, hu⟩
  refine ⟨u, y, ?_⟩
  show Function.update s.recording t _ u = _
  rw [Function.update_of_ne]
  · exact hu
  · rintro rfl
    rw [hrec] at hu; cases hu

theorem known_start (t e : Nat) (xevent : XEvent) : (startRecord t e xevent s).Known e :=
  .inr (.inr ⟨t, xevent, Function.update_self _ _ _⟩)

theorem Known.step {act : EventAct} {e : Nat} (hs : Step cfg hasXQueue s act s')
    (h : s.Known e) : s'.Known e := by
  cases hs with
  | submitRecord t event i d hd hrec hx hdev =>
    exact Known.start (s := { s with dev := d }) hrec h
  | directRecord t event i hd hrec hx =>
    exact Known.start (s := driverRecord event i s) hrec h
  | addEvent t event xevent hrec hret =>
    by_cases he : e = event
    · left
      show Function.update s.gEvents event (some xevent) e ≠ none
      rw [he, Function.update_self]
      exact nofun
    · rcases h with h | h | ⟨u, y, hu⟩
      · left
        show Function.update s.gEvents event (some xevent) e ≠ none
        rw [Function.update_of_ne he]
        exact h
      · exact .inr (.inl h)
      · refine .inr (.inr ⟨u, y, ?_⟩)
        show Function.update s.recording t none u = _
        rw [Function.update_of_ne]
        · exact hu
        · rintro rfl
          rw [hrec] at hu
          cases hu
          exact he rfl
  | destroy event =>
    by_cases he : e = event
    · right; left
      show Function.update s.destroyed event true e = true
      rw [he, Function.update_self]
    · rcases h with h | h | h
      · left
        show Function.update s.gEvents event none e ≠ none
        rw [Function.update_of_ne he]
        exact h
      · right; left
        show Function.update s.destroyed event true e = true
        rw [Function.update_of_ne he]
        exact h
      · exact .inr (.inr h)
  | _ => exact h

/-- A step of the device that is no Submit of a record. -/
theorem KnownInv.device {act : DeviceAct} {d : Device} (h : KnownInv hasXQueue s)
    (hdev : Device.DeviceInv cfg hasXQueue s.dev) (hs : (Device.lts cfg).step s.dev act d)
    (hk : ∀ e, s.Known e → s'.Known e) (hd : s'.dev = d)
    (hsub : ∀ i t props e, act = .xq i (.submit t props (.eventRecord e)) → s'.Known e) :
    (∀ i c e, Holds (s'.dev.xq i) c → c.kind = .eventRecord e → s'.Known e) ∧
      ∀ e, s'.dev.record e ≠ none → s'.Known e := by
  rw [hd]
  refine ⟨fun i c e hc hkind => ?_, fun e he => ?_⟩
  · rcases Device.holds_device hdev hs hc with hold | ⟨t, ht⟩
    · exact hk e (h.held i c e hold hkind)
    · rw [hkind] at ht
      exact hsub i t c.props e ht
  · rcases Device.record_device hdev hs he with hold | ⟨i, c, hc, hkind⟩
    · exact hk e (h.record e hold)
    · exact hk e (h.held i c e hc hkind)

theorem knownInv_step {act : EventAct} (hdev : Device.DeviceInv cfg hasXQueue s.dev)
    (h : KnownInv hasXQueue s) (hs : Step cfg hasXQueue s act s') : KnownInv hasXQueue s' := by
  have hk : ∀ e, s.Known e → s'.Known e := fun e => Known.step hs
  have hold (hxq : s'.dev.xq = s.dev.xq) (hrec : s'.dev.record = s.dev.record) :
      (∀ i c e, Holds (s'.dev.xq i) c → c.kind = .eventRecord e → s'.Known e) ∧
        ∀ e, s'.dev.record e ≠ none → s'.Known e := by
    rw [hxq, hrec]
    exact ⟨fun i c e hc hkind => hk e (h.held i c e hc hkind), fun e he => hk e (h.record e he)⟩
  cases hs with
  | submitRecord t event i d hd hrec hx hstep =>
    obtain ⟨hheld, hrecord⟩ := h.device hdev hstep hk rfl fun j u props e he => by
      cases he; exact known_start t event _
    refine ⟨h.gEvents, fun u e j c hu => ?_, hheld, hrecord⟩
    have hu' : Function.update s.recording t _ u = _ := hu
    rw [Function.update_apply] at hu'
    split at hu'
    · cases hu'; exact hx
    · exact h.recording u e j c hu'
  | directRecord t event i hd hrec hx =>
    refine ⟨h.gEvents, fun u e j c hu => ?_, fun j c e hc hkind => hk e (h.held j c e hc hkind),
      fun e he => ?_⟩
    · have hu' : Function.update s.recording t _ u = _ := hu
      rw [Function.update_apply] at hu'
      split at hu'
      · cases hu'
      · exact h.recording u e j c hu'
    · by_cases hee : e = event
      · rw [hee]; exact known_start t event _
      · have he' : Function.update s.dev.record event _ e ≠ none := he
        rw [Function.update_of_ne hee] at he'
        exact hk e (h.record e he')
  | addEvent t event xevent hrec hret =>
    obtain ⟨hheld, hrecord⟩ := hold rfl rfl
    refine ⟨fun e i c he => ?_, fun u e i c hu => ?_, hheld, hrecord⟩
    · have he' : Function.update s.gEvents event (some xevent) e = _ := he
      rw [Function.update_apply] at he'
      split at he'
      · cases he'
        exact h.recording t event i c hrec
      · exact h.gEvents e i c he'
    · have hu' : Function.update s.recording t none u = _ := hu
      rw [Function.update_apply] at hu'
      split at hu'
      · cases hu'
      · exact h.recording u e i c hu'
  | syncXQueue t event i c d hs he hr hstep =>
    obtain ⟨hheld, hrecord⟩ := h.device hdev hstep hk rfl fun j u props e he => nomatch he
    exact ⟨h.gEvents, h.recording, hheld, hrecord⟩
  | destroy event =>
    obtain ⟨hheld, hrecord⟩ := hold rfl rfl
    refine ⟨fun e i c he => ?_, h.recording, hheld, hrecord⟩
    have he' : Function.update s.gEvents event none e = _ := he
    rw [Function.update_apply] at he'
    split at he'
    · cases he'
    · exact h.gEvents e i c he'
  | dev act d hother hstep =>
    obtain ⟨hheld, hrecord⟩ := h.device hdev hstep hk rfl fun j u props e he => by
      subst he; cases hother
    exact ⟨h.gEvents, h.recording, hheld, hrecord⟩
  | _ =>
    obtain ⟨hheld, hrecord⟩ := hold rfl rfl
    exact ⟨h.gEvents, h.recording, hheld, hrecord⟩

/-! ## A synchronize ends with its command Completed -/

structure SyncedInv (s : EventShim) : Prop where
  released : ∀ i c, s.released i c = true → s.cmdState i c = .completed
  /-- where a thread in `XEventSynchronize` is -/
  route : ∀ t y i c, s.syncing t = some y →
    y.route = .released i c ∨ y.route = .xqueue i c → Waits (s.dev.xq i).machine t c
  releasedRoute : ∀ t y i c, s.syncing t = some y → y.route = .released i c →
    s.cmdState i c = .completed
  /-- a fresh call is about the command in `g_events` -/
  fresh : ∀ t y i c, s.syncing t = some y → y.fresh = true →
    s.gEvents y.event = some (.submitted i c) → y.route = .released i c ∨ y.route = .xqueue i c
  synced : ∀ e i c, s.synced e = true → s.gEvents e = some (.submitted i c) →
    s.cmdState i c = .completed

/-- A step that changes no call and no entry, while commands stay Completed. -/
theorem SyncedInv.frame (h : SyncedInv s) (hrel : s'.released = s.released)
    (hsync : s'.syncing = s.syncing) (hev : s'.gEvents = s.gEvents) (hsy : s'.synced = s.synced)
    (hdone : ∀ i c, s.cmdState i c = .completed → s'.cmdState i c = .completed)
    (hw : ∀ i t c, Waits (s.dev.xq i).machine t c → Waits (s'.dev.xq i).machine t c) :
    SyncedInv s' where
  released i c hc := hdone i c (h.released i c (by rwa [hrel] at hc))
  route t y i c hy hr := hw i t c (h.route t y i c (by rwa [hsync] at hy) hr)
  releasedRoute t y i c hy hr := hdone i c (h.releasedRoute t y i c (by rwa [hsync] at hy) hr)
  fresh t y i c hy hf he := h.fresh t y i c (by rwa [hsync] at hy) hf (by rwa [hev] at he)
  synced e i c hs he := hdone i c (h.synced e i c (by rwa [hsy] at hs) (by rwa [hev] at he))

/-- A call begins. -/
theorem SyncedInv.start {t event : Nat} {route : WaitRoute} (h : SyncedInv s)
    (hw : ∀ i c, route = .released i c ∨ route = .xqueue i c → Waits (s.dev.xq i).machine t c)
    (hrel : ∀ i c, route = .released i c → s.cmdState i c = .completed)
    (he : ∀ i c, s.gEvents event = some (.submitted i c) →
      route = .released i c ∨ route = .xqueue i c) : SyncedInv (startSync t event route s) := by
  have hcases {u : Nat} {y : Synchronizing} (hu : (startSync t event route s).syncing u = some y) :
      u = t ∧ y = ⟨event, route, true⟩ ∨ s.syncing u = some y := by
    have hu' : Function.update s.syncing t (some ⟨event, route, true⟩) u = some y := hu
    rw [Function.update_apply] at hu'
    split at hu'
    · rename_i hut
      exact .inl ⟨hut, (Option.some.inj hu').symm⟩
    · exact .inr hu'
  refine ⟨h.released, fun u y i c hu hr => ?_, fun u y i c hu hr => ?_, fun u y i c hu hf hg => ?_,
    h.synced⟩
  · rcases hcases hu with ⟨rfl, rfl⟩ | hu
    · exact hw i c hr
    · exact h.route u y i c hu hr
  · rcases hcases hu with ⟨rfl, rfl⟩ | hu
    · exact hrel i c hr
    · exact h.releasedRoute u y i c hu hr
  · rcases hcases hu with ⟨rfl, rfl⟩ | hu
    · exact he i c hg
    · exact h.fresh u y i c hu hf hg

/-- What a call that returns has waited for is Completed. -/
theorem SyncedInv.ends {t : Nat} {y : Synchronizing} {i : Nat} {c : HwCommand} (h : SyncedInv s)
    (hy : s.syncing t = some y) (hret : s.returns t y.route = true) (hf : y.fresh = true)
    (he : s.gEvents y.event = some (.submitted i c)) : s.cmdState i c = .completed := by
  rcases h.fresh t y i c hy hf he with hr | hr
  · exact h.releasedRoute t y i c hy hr
  · have hidle : (s.dev.xq i).machine.app t = .idle := by
      rw [hr] at hret
      exact of_decide_eq_true hret
    exact (h.route t y i c hy (.inr hr)).idle hidle

/-- A call of the event that was recorded since is no longer fresh. -/
theorem SyncedInv.addEvent {event : Nat} {xevent : XEvent} {recording : Nat → Option (Nat × XEvent)}
    (h : SyncedInv s) :
    SyncedInv { s with
      gEvents := Function.update s.gEvents event (some xevent)
      recording
      syncing := fun u => (s.syncing u).map (stale event)
      synced := Function.update s.synced event false } := by
  have hsync {u : Nat} {y : Synchronizing} (hu : (s.syncing u).map (stale event) = some y) :
      ∃ z, s.syncing u = some z ∧ y.route = z.route ∧ y.event = z.event ∧
        (y.fresh = true → z.fresh = true ∧ y.event ≠ event) := by
    obtain ⟨z, hz, rfl⟩ := Option.map_eq_some_iff.1 hu
    refine ⟨z, hz, rfl, rfl, fun hf => ?_⟩
    simpa only [stale, Bool.and_eq_true, decide_eq_true_eq] using hf
  refine ⟨h.released, fun u y i c hu hr => ?_, fun u y i c hu hr => ?_,
    fun u y i c hu hf he => ?_, fun e i c hsy he => ?_⟩
  · obtain ⟨z, hz, hzr, -, -⟩ := hsync hu
    exact h.route u z i c hz (by rwa [hzr] at hr)
  · obtain ⟨z, hz, hzr, -, -⟩ := hsync hu
    exact h.releasedRoute u z i c hz (by rwa [hzr] at hr)
  · obtain ⟨z, hz, hzr, hze, hzf⟩ := hsync hu
    obtain ⟨hzf, hne⟩ := hzf hf
    have he' : Function.update s.gEvents event (some xevent) y.event = _ := he
    rw [Function.update_of_ne hne] at he'
    rw [hzr]
    exact h.fresh u z i c hz hzf (by rwa [hze] at he')
  · have hne : e ≠ event := by
      rintro rfl
      have hsy' : Function.update s.synced e false e = true := hsy
      rw [Function.update_self] at hsy'
      cases hsy'
    have hsy' : Function.update s.synced event false e = true := hsy
    have he' : Function.update s.gEvents event (some xevent) e = _ := he
    rw [Function.update_of_ne hne] at hsy' he'
    exact h.synced e i c hsy' he'

/-- The thread waits for the command in `g_events`. -/
theorem SyncedInv.syncXQueue {t event i : Nat} {c : HwCommand} {d : Device}
    (h : SyncedInv { s with dev := d }) (he : s.gEvents event = some (.submitted i c))
    (hstep : (Device.lts cfg).step s.dev (.xq i (.machine (.wait t c))) d) :
    SyncedInv (startSync t event (.xqueue i c) { s with dev := d }) := by
  refine h.start (fun j e hj => ?_) (fun j e hj => nomatch hj) fun j e hg => ?_
  · rcases hj with hj | hj
    · cases hj
    · cases hj
      cases Device.step_cases hstep with
      | xq _ _ x hq hret =>
        show Waits ((Device.afterXq i _ x s.dev).xq i).machine t c
        rw [Device.afterXq_self]
        cases AsyncXQueue.step_of_lts hq with
        | machine _ m hd hm => exact waits_start hm
        | skip _ hact ha => exact absurd rfl (ha _)
  · have hg' : s.gEvents event = some (.submitted j e) := hg
    rw [he] at hg'; cases hg'; exact .inr rfl

/-- A fresh call that returns is what `synced` will say of its event. -/
theorem SyncedInv.returnSynchronize {t : Nat} {y : Synchronizing} (h : SyncedInv s)
    (hy : s.syncing t = some y) (hret : s.returns t y.route = true) :
    SyncedInv { s with
      syncing := Function.update s.syncing t none
      synced := Function.update s.synced y.event (s.synced y.event || y.fresh) } := by
  have hsync {u : Nat} {z : Synchronizing}
      (hu : Function.update s.syncing t none u = some z) : s.syncing u = some z := by
    rw [Function.update_apply] at hu
    split at hu
    · cases hu
    · exact hu
  refine ⟨h.released, fun u z i c hu hr => h.route u z i c (hsync hu) hr,
    fun u z i c hu hr => h.releasedRoute u z i c (hsync hu) hr,
    fun u z i c hu hf he => h.fresh u z i c (hsync hu) hf he, fun e i c hsy he => ?_⟩
  have hsy' : Function.update s.synced y.event (s.synced y.event || y.fresh) e = true := hsy
  rw [Function.update_apply] at hsy'
  split at hsy'
  · rename_i hey
    have he' : s.gEvents y.event = some (.submitted i c) := by rw [← hey]; exact he
    rcases Bool.or_eq_true_iff.1 hsy' with hold | hf
    · exact h.synced y.event i c hold he'
    · exact h.ends hy hret hf he'
  · exact h.synced e i c hsy' he

theorem SyncedInv.destroy {event : Nat} {destroyed : Nat → Bool} (h : SyncedInv s) :
    SyncedInv { s with gEvents := Function.update s.gEvents event none, destroyed } := by
  have hev {e i : Nat} {c : HwCommand}
      (he : Function.update s.gEvents event none e = some (.submitted i c)) :
      s.gEvents e = some (.submitted i c) := by
    rw [Function.update_apply] at he
    split at he
    · cases he
    · exact he
  exact ⟨h.released, h.route, h.releasedRoute,
    fun u y i c hu hf he => h.fresh u y i c hu hf (hev he),
    fun e i c hsy he => h.synced e i c hsy (hev he)⟩

/-- The listener runs when the command is Completed. -/
theorem SyncedInv.release {i : Nat} {c : HwCommand} (h : SyncedInv s)
    (hc : 3 ≤ (s.cmdState i c).val) :
    SyncedInv { s with
      released := Function.update s.released i (Function.update (s.released i) c true) } := by
  refine ⟨fun j e hj => ?_, h.route, h.releasedRoute, h.fresh, h.synced⟩
  have hj' : Function.update s.released i (Function.update (s.released i) c true) j e = true := hj
  rw [Function.update_apply] at hj'
  split at hj'
  · rename_i hji
    rw [Function.update_apply] at hj'
    split at hj'
    · rename_i hec
      rw [hji, hec]
      exact XCommandState.completed_le.1 hc
    · rw [hji]; exact h.released i e hj'
  · exact h.released j e hj'

theorem syncedInv_step {act : EventAct} (hdev : Device.DeviceInv cfg hasXQueue s.dev)
    (h : SyncedInv s) (hs : Step cfg hasXQueue s act s') : SyncedInv s' := by
  have hdevice {a : DeviceAct} {d : Device} {s' : EventShim}
      (hstep : (Device.lts cfg).step s.dev a d) (hrel : s'.released = s.released)
      (hsync : s'.syncing = s.syncing) (hev : s'.gEvents = s.gEvents)
      (hsy : s'.synced = s.synced) (hd : s'.dev = d) : SyncedInv s' := by
    subst hd
    exact h.frame hrel hsync hev hsy (fun i c hc => Device.completed_step hdev hstep hc)
      fun i t c hw => Device.waits_device hdev hstep hw
  cases hs with
  | submitRecord t event i d hd hrec hx hstep => exact hdevice hstep rfl rfl rfl rfl rfl
  | addEvent t event xevent hrec hret => exact h.addEvent
  | syncDriver t event hs he =>
    refine h.start (fun i c hr => ?_) (fun i c hr => nomatch hr) fun i c hg => absurd hg (he i c)
    rcases hr with hr | hr <;> cases hr
  | syncReleased t event i c hs he hr =>
    have hc := h.released i c hr
    have hstart : SyncedInv (startSync t event (.released i c) s) := by
      refine h.start (fun j e hj => ?_) (fun j e hj => ?_) fun j e hg => ?_
      · rcases hj with hj | hj
        · cases hj; exact .inl hc
        · cases hj
      · cases hj; exact hc
      · rw [he] at hg; cases hg; exact .inl rfl
    exact hstart.frame rfl rfl rfl rfl (fun _ _ h => h) fun _ _ _ h => h
  | syncXQueue t event i c d hs he hr hstep =>
    have hwaiting : SyncedInv { s with dev := d } := hdevice hstep rfl rfl rfl rfl rfl
    exact hwaiting.syncXQueue he hstep
  | returnSynchronize t y hs hret => exact h.returnSynchronize hs hret
  | destroy event => exact h.destroy
  | release i c hc => exact h.release hc
  | dev act d hother hstep => exact hdevice hstep rfl rfl rfl rfl rfl
  | _ => exact h.frame rfl rfl rfl rfl (fun _ _ h => h) fun _ _ _ h => h

/-! ## Queries -/

structure Inv (cfg : Nat → Config) (hasXQueue : Nat → Bool) (s : EventShim) : Prop where
  device : Device.DeviceInv cfg hasXQueue s.dev
  known : KnownInv hasXQueue s
  synced : SyncedInv s

theorem deviceAct_hasXQueue {act : EventAct} (h : KnownInv hasXQueue s)
    (hs : Step cfg hasXQueue s act s') {i : Nat} {a : XAct}
    (ha : deviceAct hasXQueue s act = some (.xq i a)) : hasXQueue i := by
  cases hs with
  | submitRecord t event j d hd hrec hx hdev =>
    rw [deviceAct, if_pos hx] at ha
    cases ha; exact hx
  | directRecord t event j hd hrec hx =>
    rw [deviceAct, hx] at ha
    cases ha
  | syncDriver t event hs he =>
    rw [deviceAct] at ha
    split at ha
    · rename_i j c hc
      exact absurd hc (he j c)
    · cases ha
  | syncReleased t event j c hs he hr =>
    simp only [deviceAct, he, hr, if_true] at ha
    cases ha
  | syncXQueue t event j c d hs he hr hdev =>
    simp only [deviceAct, he, hr, Bool.false_eq_true, if_false] at ha
    cases ha
    exact h.gEvents event i c he
  | dev act d hother hdev =>
    cases ha
    cases a with
    | submit t props kind =>
      cases kind with
      | eventRecord e => cases hother
      | _ => exact hother
    | _ => exact hother
  | _ => cases ha

theorem inv_init : Inv cfg hasXQueue init where
  device := ⟨fun i => LTS.reachable_init rfl,
    ⟨nofun, fun _ v => by cases v <;> exact nofun, nofun⟩, fun _ _ => nofun, fun _ _ => rfl⟩
  known := by
    refine ⟨nofun, nofun, fun i c e hc => ?_, fun e he => absurd rfl he⟩
    rcases hc with ⟨t, ht⟩ | hc
    · cases ht
    · cases hc
  synced := ⟨nofun, nofun, nofun, nofun, nofun⟩

theorem inv_reachable (hr : ((lts cfg hasXQueue).restrict (OwnRecords hasXQueue)).Reachable s) :
    Inv cfg hasXQueue s := by
  refine LTS.reachable_induction (I := Inv cfg hasXQueue) ?_ ?_ hr
  · rintro s rfl; exact inv_init
  · intro s act s' _ h ⟨hs, hok⟩
    have hstep := (step_cases hs).2
    have hx := fun i a => deviceAct_hasXQueue h.known hstep (i := i) (a := a)
    exact ⟨Device.deviceInv_change h.device hstep.change hok hx,
      knownInv_step h.device h.known hstep, syncedInv_step h.device h.synced hstep⟩

/-- The last record of the event was made on an XQueue, or there is none. -/
def OnXQueue (s : EventShim) (event : Nat) : Prop :=
  ∀ cap, s.gEvents event ≠ some (.direct cap)

/-- The work recorded by the last record of the event has completed. -/
def WorkDone (s : EventShim) (event : Nat) : Prop :=
  match s.gEvents event with
  | none => (s.dev.record event).all s.dev.complete = true
  | some (.direct cap) => s.dev.complete cap = true
  | some (.submitted i c) => s.dev.Finished i c

/-- Nobody is inside `XEventRecord(event)`. -/
def NotRecording (s : EventShim) (event : Nat) : Prop :=
  ∀ t xevent, s.recording t ≠ some (event, xevent)

/-- **A query after a synchronize** succeeds if and only if the last record
of the event was made on an XQueue; and a query succeeds only when the
recorded work has completed. -/
theorem event_query (hr : ((lts cfg hasXQueue).restrict (OwnRecords hasXQueue)).Reachable s)
    (event : Nat) (hd : s.destroyed event = false) :
    (s.synced event = true → s.NotRecording event →
      (s.xEventQuery event = .success ↔ s.OnXQueue event)) ∧
    (s.xEventQuery event = .success → s.WorkDone event) := by
  have h := inv_reachable hr
  unfold xEventQuery OnXQueue WorkDone
  cases he : s.gEvents event with
  | none =>
    refine ⟨fun _ hrec => ⟨fun _ => nofun, fun _ => ?_⟩, fun hq => by simpa using hq⟩
    -- no record at all has reached the driver
    have hnone : s.dev.record event = none := by
      by_contra hne
      rcases h.known.record event hne with hk | hk | ⟨t, xevent, hk⟩
      · exact hk he
      · rw [hd] at hk; cases hk
      · exact hrec t xevent hk
    simp only [hnone, Option.all_none, if_true]
  | some xevent =>
    cases xevent with
    | direct cap => exact ⟨fun _ _ => ⟨nofun, fun ho => absurd rfl (ho cap)⟩, nofun⟩
    | submitted i c =>
      refine ⟨fun hs _ => ⟨fun _ _ => nofun, fun _ => ?_⟩, fun hq => ?_⟩
      · have hdone := h.synced.synced event i c hs he
        exact if_pos (XCommandState.completed_le.2 hdone)
      · simp only [ite_eq_left_iff, reduceCtorEq, imp_false, not_not] at hq
        exact h.device.done i c (XCommandState.completed_le.1 hq)

/-! ## One stream with an XQueue and one without -/

def firstOnly (i : Nat) : Bool := i == 0

def worker (i : Nat) : EventAct := .dev (.xq i (.machine (.worker true)))

/-- Thread 0 records event 7 on stream 0, and synchronizes it. -/
def queueTrace : List EventAct :=
  List.replicate 4 (worker 0) ++ [EventAct.xEventRecord 0 7 0] ++
  List.replicate 3 (EventAct.dev (.xq 0 (.submitter 0))) ++ [EventAct.addEvent 0] ++
  List.replicate 3 (worker 0) ++ [EventAct.xEventSynchronize 0 7] ++
  List.replicate 4 (EventAct.dev (.xq 0 (.machine (.app 0)))) ++ [EventAct.dev (.finish 0)] ++
  List.replicate 2 (EventAct.dev (.xq 0 (.machine (.app 0)))) ++ [EventAct.returnSynchronize 0]

/-- Thread 0 records event 7 on stream 1, the stream runs the record, and the
thread synchronizes it. -/
def directTrace : List EventAct :=
  [.xEventRecord 0 7 1, .addEvent 0, .directFinish 1, .xEventSynchronize 0 7,
   .returnSynchronize 0]

/-- What is known of event 7 after a call of thread 0. -/
def view (s : EventShim) : Bool × Bool × Option (Nat × XEvent) × Option XEvent :=
  (s.synced 7, s.destroyed 7, s.recording 0, s.gEvents 7)

/-- Where each queue has a submitting thread of its own, nobody overtakes;
this is decidable. -/
def ownThread (hasXQueue : Nat → Bool) (owner : Nat → Nat) (s : EventShim) (act : EventAct) :
    Bool :=
  (deviceAct hasXQueue s act).all (Device.ownThread owner s.dev)

theorem submitsFrom_change {owner : Nat → Nat} {d d' : Device} {a : Option DeviceAct}
    (hq : ∀ i, ((AsyncXQueue.lts (cfg i)).restrict
      (AsyncXQueue.SubmitsFrom (owner i))).Reachable (d.xq i))
    (hc : DeviceChange cfg hasXQueue d a d') (hok : a.all (Device.ownThread owner d) = true) :
    ∀ i, ((AsyncXQueue.lts (cfg i)).restrict
      (AsyncXQueue.SubmitsFrom (owner i))).Reachable (d'.xq i) := by
  cases hc with
  | act a _ hs =>
    cases Device.step_cases hs with
    | xq j act x hx hret =>
      intro i
      by_cases hi : i = j
      · subst hi
        rw [Device.afterXq_self]
        refine (hq i).step ⟨hx, fun t props kind he => ?_⟩
        subst he
        exact of_decide_eq_true hok
      · rw [Device.afterXq_other act x d hi]; exact hq i
    | finish j hlt => exact hq
  | _ => exact hq

theorem ownThread_reachable {owner : Nat → Nat}
    (hr : ((lts cfg hasXQueue).restrict (ownThread hasXQueue owner · · = true)).Reachable s) :
    ((lts cfg hasXQueue).restrict (OwnRecords hasXQueue)).Reachable s := by
  have hboth : ((lts cfg hasXQueue).restrict (OwnRecords hasXQueue)).Reachable s ∧
      ∀ i, ((AsyncXQueue.lts (cfg i)).restrict
        (AsyncXQueue.SubmitsFrom (owner i))).Reachable (s.dev.xq i) := by
    refine LTS.reachable_induction
      (I := fun s => ((lts cfg hasXQueue).restrict (OwnRecords hasXQueue)).Reachable s ∧
        ∀ i, ((AsyncXQueue.lts (cfg i)).restrict
          (AsyncXQueue.SubmitsFrom (owner i))).Reachable (s.dev.xq i)) ?_ ?_ hr
    · rintro s rfl
      exact ⟨LTS.reachable_init rfl, fun i => LTS.reachable_init rfl⟩
    · intro s act s' _ ⟨h, hq⟩ ⟨hs, hact⟩
      refine ⟨h.step ⟨hs, fun a ha => ?_⟩, submitsFrom_change hq (step_cases hs).2.change hact⟩
      have hown : (deviceAct hasXQueue s act).all (Device.ownThread owner s.dev) = true := hact
      rw [ha] at hown
      cases a with
      | finish i => trivial
      | xq i a =>
        refine ⟨AsyncXQueue.notOvertaking_of_single (hq i) a, ?_⟩
        cases a with
        | submit t props kind => rfl
        | _ => exact hown
  exact hboth.1

/-- Only `XEventRecord` puts a thread inside it. -/
theorem recording_stays {act : EventAct} {t : Nat} (hs : Step cfg hasXQueue s act s')
    (hne : ∀ event i, act ≠ .xEventRecord t event i) (h : s.recording t = none) :
    s'.recording t = none := by
  have hset (u : Nat) (v : Option (Nat × XEvent)) (hu : t ≠ u) :
      Function.update s.recording u v t = none := by
    rw [Function.update_of_ne hu]; exact h
  cases hs with
  | submitRecord u event i d hd hrec hx hdev =>
    exact hset u _ fun htu => hne event i (by rw [htu])
  | directRecord u event i hd hrec hx => exact hset u _ fun htu => hne event i (by rw [htu])
  | addEvent u event xevent hrec hret =>
    show Function.update s.recording u none t = none
    rw [Function.update_apply, h]
    exact ite_self none
  | _ => exact h

def recordsFrom (t₀ : Nat) : EventAct → Bool
  | .xEventRecord t _ _ => decide (t = t₀)
  | _ => true

/-- Where one thread makes all records, nobody else is inside `XEventRecord`. -/
theorem notRecording_run {t₀ : Nat} {trace : List EventAct} {s₀ : EventShim}
    (hrun : (lts cfg hasXQueue).Run s₀ trace s) (hall : trace.all (recordsFrom t₀) = true)
    (hpre : ∀ t, t ≠ t₀ → s₀.recording t = none) (h₀ : s.recording t₀ = none) (event : Nat) :
    s.NotRecording event := by
  have hother : ∀ t, t ≠ t₀ → s.recording t = none := by
    clear h₀
    induction hrun with
    | nil s => exact hpre
    | cons hs _ ih =>
      rw [List.all_cons, Bool.and_eq_true] at hall
      refine ih hall.2 fun t ht => ?_
      refine recording_stays (step_cases hs).2 (fun event i he => ?_) (hpre t ht)
      rw [he] at hall
      exact ht (of_decide_eq_true hall.1)
  intro t xevent ht
  by_cases h : t = t₀
  · rw [h, h₀] at ht; cases ht
  · rw [hother t h] at ht; cases ht

/-- After a synchronize of a record on an XQueue the query succeeds, and the
record is finished. -/
theorem event_query_queue : ∃ s, (lts (fun _ => Shim.cfgTwo) firstOnly).Reachable s ∧
    s.synced 7 = true ∧ s.OnXQueue 7 ∧ s.xEventQuery 7 = .success ∧ s.WorkDone 7 := by
  have htrace : ((LTS.exec (LTS.guarded (ownThread firstOnly (fun _ => 0) · · = true)
      (step (fun _ => Shim.cfgTwo) firstOnly)) init queueTrace).map view) =
      some (true, false, none, some (.submitted 0 (Shim.recordCmd 1 7))) := by decide
  obtain ⟨s, hs, he⟩ := Option.map_eq_some_iff.1 htrace
  simp only [view, Prod.mk.injEq] at he
  obtain ⟨hsy, hd, hrec, hev⟩ := he
  have hrun : ((lts (fun _ => Shim.cfgTwo) firstOnly).restrict
      (ownThread firstOnly (fun _ => 0) · · = true)).Run init queueTrace s :=
    LTS.run_restrict_of_exec hs
  have hr := ownThread_reachable ⟨init, _, rfl, hrun⟩
  have hnot := notRecording_run hrun.of_restrict (by decide) (fun _ _ => rfl) hrec 7
  have hon : s.OnXQueue 7 := fun cap => by rw [hev]; exact nofun
  obtain ⟨hquery, hwork⟩ := event_query hr 7 hd
  have hq := (hquery hsy hnot).2 hon
  exact ⟨s, hr.of_restrict, hsy, hon, hq, hwork hq⟩

/-- **Counterexample**: a record on a stream without an XQueue has run and was
synchronized, and the query still says that it is not ready. -/
theorem synchronized_not_ready :
    ¬ ∀ (cfg : Nat → Config) (hasXQueue : Nat → Bool) (s : EventShim) (event : Nat),
      (lts cfg hasXQueue).Reachable s → s.destroyed event = false → s.synced event = true →
      s.NotRecording event → s.xEventQuery event = .success := by
  intro h
  have htrace : ((LTS.exec (step (fun _ => Shim.cfgTwo) firstOnly) init directTrace).map view) =
      some (true, false, none, some (.direct ⟨1, 1⟩)) := by decide
  obtain ⟨s, hs, he⟩ := Option.map_eq_some_iff.1 htrace
  simp only [view, Prod.mk.injEq] at he
  obtain ⟨hsy, hd, hrec, hev⟩ := he
  have hrun : (lts (fun _ => Shim.cfgTwo) firstOnly).Run init directTrace s :=
    LTS.run_of_exec hs
  have hnot := notRecording_run hrun (by decide) (fun _ _ => rfl) hrec 7
  have hbad := h (fun _ => Shim.cfgTwo) firstOnly s 7 ⟨init, _, rfl, hrun⟩ hd hsy hnot
  rw [xEventQuery, hev] at hbad
  cases hbad

end EventShim
end Xsched.Cuda
