import Xsched.Cuda.Streams

/-!
# The event calls of the CUDA shim

`XEventRecord` keeps the last record command of each event in `g_events`,
also when the stream has no XQueue and the record went to the driver.
`XEventSynchronize` waits for that command, by one of three routes: a command
that was never submitted synchronizes with the driver, one whose XQueue has
been released is Completed already, any other is waited for on its XQueue.
`XEventQuery` reads the state of the command.

**Model.** `release` is the listener by which a Completed command drops its
pointer to the XQueue. The calls made before a record on the null stream are
steps of the queues. A thread in `XEventRecord` adds its command to
`g_events` after the Submit or the driver call. Driver calls succeed, and a
destroyed event is not used again (a new event with the old handle has
another number here).

**Ghost fields.** `synced` says of an event that some `XEventSynchronize` has
returned and that no `XEventRecord` of the event has returned since it was
called; `fresh` is its part for a call under way.
-/
namespace Xsched.Cuda
open Preempt
open Preempt.AsyncXQueue (XAct)

/-- mirrors `CUresult`, as far as an event query returns it -/
inductive CUresult where
  | success | notReady
  deriving DecidableEq, Repr

/-- A record command in `g_events`; `direct` has no XQueue, and `cap` (ghost)
is what the driver's record captured. -/
inductive XEvent where
  | submitted (i : Nat) (c : HwCommand)
  | direct (cap : Capture)
  deriving DecidableEq, Repr

/-- The three routes of `HwCommand::Wait`, with what the thread waits for.
mirrors preempt/src/hal/hw_command.cpp:18-43 -/
inductive WaitRoute where
  | driver (cap : Option Capture)
  | released (i : Nat) (c : HwCommand)
  | xqueue (i : Nat) (c : HwCommand)
  deriving DecidableEq, Repr

/-- A thread in `XEventSynchronize`. -/
structure Synchronizing where
  event : Nat
  route : WaitRoute
  fresh : Bool
  deriving DecidableEq, Repr

structure EventShim where
  dev : Device
  /-- how many launches a stream without an XQueue has got -/
  direct : Nat → Nat
  gEvents : Nat → Option XEvent
  /-- a thread inside `XEventRecord`: the event and the command -/
  recording : Nat → Option (Nat × XEvent)
  syncing : Nat → Option Synchronizing
  /-- `xqueue_` of a submitted command is null again -/
  released : Nat → HwCommand → Bool
  destroyed : Nat → Bool
  aborted : Bool
  synced : Nat → Bool

inductive EventAct where
  | xEventRecord (t event i : Nat)
  | addEvent (t : Nat)
  | xEventSynchronize (t event : Nat)
  | returnSynchronize (t : Nat)
  | xEventDestroy (event : Nat)
  | release (i : Nat) (c : HwCommand)
  | directLaunch (p : Nat)
  | directFinish (p : Nat)
  | dev (act : DeviceAct)
  deriving DecidableEq, Repr

namespace EventShim

def init : EventShim where
  dev := Device.init
  direct := fun _ => 0
  gEvents := fun _ => none
  recording := fun _ => none
  syncing := fun _ => none
  released := fun _ _ => false
  destroyed := fun _ => false
  aborted := false
  synced := fun _ => false

def cmdState (s : EventShim) (i : Nat) (c : HwCommand) : XCommandState :=
  (s.dev.xq i).machine.cmdState (.hardware c)

def onDevice (cfg : Nat → Config) (act : DeviceAct) (s : EventShim) : Option EventShim :=
  (Device.step cfg s.dev act).map fun d => { s with dev := d }

/-- The command `XEventRecord` submits to queue `i`. -/
def recordCommand (s : EventShim) (i event : Nat) : HwCommand :=
  ⟨(s.dev.xq i).nextHwCmdIdx, kCommandPropertyIdempotent, .eventRecord event⟩

def startRecord (t event : Nat) (xevent : XEvent) (s : EventShim) : EventShim :=
  { s with recording := Function.update s.recording t (some (event, xevent)) }

/-- `Driver::EventRecord(event, stream)` on stream `p`. -/
def driverRecord (event p : Nat) (s : EventShim) : EventShim :=
  { s with
    direct := Function.update s.direct p (s.direct p + 1)
    dev := { s.dev with
      record := Function.update s.dev.record event (some ⟨p, s.direct p + 1⟩) } }

/-- Up to the Submit, whose steps follow, or the driver call.
mirrors platforms/cuda/shim/src/shim.cpp:347-369 (and 370-389, with flags) -/
def xEventRecord (cfg : Nat → Config) (hasXQueue : Nat → Bool) (t event i : Nat)
    (s : EventShim) : Option EventShim :=
  if s.recording t = none ∧ s.destroyed event = false then
    if hasXQueue i then
      (onDevice cfg (.xq i (.submit t kCommandPropertyIdempotent (.eventRecord event))) s).map
        (startRecord t event (.submitted i (s.recordCommand i event)))
    else some (startRecord t event (.direct ⟨i, s.direct i + 1⟩) (driverRecord event i s))
  else none

/-- The Submit has returned. -/
def recorded (s : EventShim) (t : Nat) : XEvent → Bool
  | .submitted i _ => decide ((s.dev.xq i).submits t = .idle)
  | .direct _ => true

def stale (event : Nat) (y : Synchronizing) : Synchronizing :=
  { y with fresh := y.fresh && decide (y.event ≠ event) }

/-- `g_events.Add(event, xevent)`, and the call returns. -/
def addEvent (t : Nat) (s : EventShim) : Option EventShim :=
  match s.recording t with
  | none => none
  | some (event, xevent) =>
    if s.recorded t xevent then
      some { s with
        gEvents := Function.update s.gEvents event (some xevent)
        recording := Function.update s.recording t none
        syncing := fun u => (s.syncing u).map (stale event)
        synced := Function.update s.synced event false }
    else none

def startSync (t event : Nat) (route : WaitRoute) (s : EventShim) : EventShim :=
  { s with syncing := Function.update s.syncing t (some ⟨event, route, true⟩) }

/-- An event that is not in `g_events` goes to the driver, any other to
`HwCommand::Wait`.
mirrors platforms/cuda/shim/src/shim.cpp:395-405 and
preempt/src/hal/hw_command.cpp:18-43 -/
def xEventSynchronize (cfg : Nat → Config) (t event : Nat) (s : EventShim) : Option EventShim :=
  if s.syncing t = none ∧ s.destroyed event = false then
    match s.gEvents event with
    | none => some (startSync t event (.driver (s.dev.record event)) s)
    | some (.direct _) => some (startSync t event (.driver (s.dev.record event)) s)
    | some (.submitted i c) =>
      if s.released i c then
        some { startSync t event (.released i c) s with
          aborted := s.aborted || !decide (3 ≤ (s.cmdState i c).val) }
      else (onDevice cfg (.xq i (.machine (.wait t c))) s).map (startSync t event (.xqueue i c))
  else none

/-- The call on this route returns. -/
def returns (s : EventShim) (t : Nat) : WaitRoute → Bool
  | .driver cap => cap.all s.dev.complete
  | .released _ _ => true
  | .xqueue i _ => decide ((s.dev.xq i).machine.app t = .idle)

def returnSynchronize (t : Nat) (s : EventShim) : Option EventShim :=
  match s.syncing t with
  | none => none
  | some y =>
    if s.returns t y.route then
      some { s with
        syncing := Function.update s.syncing t none
        synced := Function.update s.synced y.event (s.synced y.event || y.fresh) }
    else none

/-- mirrors platforms/cuda/shim/src/shim.cpp:437-459 -/
def xEventDestroy (event : Nat) (s : EventShim) : Option EventShim :=
  if s.destroyed event = false then
    some { s with
      gEvents := Function.update s.gEvents event none
      destroyed := Function.update s.destroyed event true }
  else none

/-- The listener of the constructor.
mirrors preempt/src/hal/hw_command.cpp:9-16 -/
def release (i : Nat) (c : HwCommand) (s : EventShim) : Option EventShim :=
  if 3 ≤ (s.cmdState i c).val then
    some { s with
      released := Function.update s.released i (Function.update (s.released i) c true) }
  else none

/-- Records are submitted by `XEventRecord` only. -/
def otherAct (hasXQueue : Nat → Bool) : DeviceAct → Bool
  | .xq _ (.submit _ _ (.eventRecord _)) => false
  | .xq i _ => hasXQueue i
  | .finish _ => true

def step (cfg : Nat → Config) (hasXQueue : Nat → Bool) (s : EventShim) (act : EventAct) :
    Option EventShim :=
  if s.aborted then none
  else
    match act with
    | .xEventRecord t event i => xEventRecord cfg hasXQueue t event i s
    | .addEvent t => addEvent t s
    | .xEventSynchronize t event => xEventSynchronize cfg t event s
    | .returnSynchronize t => returnSynchronize t s
    | .xEventDestroy event => xEventDestroy event s
    | .release i c => release i c s
    | .directLaunch p =>
      if hasXQueue p then none
      else some { s with direct := Function.update s.direct p (s.direct p + 1) }
    | .directFinish p =>
      if s.dev.finished p < s.direct p then
        some { s with dev := { s.dev with
          finished := Function.update s.dev.finished p (s.dev.finished p + 1) } }
      else none
    | .dev act => if otherAct hasXQueue act then onDevice cfg act s else none

def lts (cfg : Nat → Config) (hasXQueue : Nat → Bool) : LTS EventShim EventAct :=
  LTS.ofFn (· = init) (step cfg hasXQueue)

/-- mirrors platforms/cuda/shim/src/shim.cpp:335-345 -/
def xEventQuery (s : EventShim) (event : Nat) : CUresult :=
  match s.gEvents event with
  | none => if (s.dev.record event).all s.dev.complete then .success else .notReady
  | some (.direct _) => .notReady
  | some (.submitted i c) => if 3 ≤ (s.cmdState i c).val then .success else .notReady

/-- The step of the device that a step makes, if it makes one. -/
def deviceAct (hasXQueue : Nat → Bool) (s : EventShim) : EventAct → Option DeviceAct
  | .xEventRecord t event i =>
    if hasXQueue i then
      some (.xq i (.submit t kCommandPropertyIdempotent (.eventRecord event)))
    else none
  | .xEventSynchronize t event =>
    match s.gEvents event with
    | some (.submitted i c) => if s.released i c then none else some (.xq i (.machine (.wait t c)))
    | _ => none
  | .dev act => some act
  | _ => none

/-- The condition of `Shim.OwnRecords`: every queue takes its commands in
order, and `EventSynchronize` is called for a record command only while the
last record of its event is one of the own stream, or the command is
finished. -/
def OwnRecords (hasXQueue : Nat → Bool) (s : EventShim) (act : EventAct) : Prop :=
  ∀ a, deviceAct hasXQueue s act = some a → Device.OwnRecords s.dev a

/-! ## What a step can do -/

/-- Every step. -/
inductive Step (cfg : Nat → Config) (hasXQueue : Nat → Bool) (s : EventShim) :
    EventAct → EventShim → Prop
  | submitRecord (t event i : Nat) (d : Device) (hd : s.destroyed event = false)
      (hrec : s.recording t = none) (hx : hasXQueue i)
      (hdev : (Device.lts cfg).step s.dev
        (.xq i (.submit t kCommandPropertyIdempotent (.eventRecord event))) d) :
      Step cfg hasXQueue s (.xEventRecord t event i)
        (startRecord t event (.submitted i (s.recordCommand i event)) { s with dev := d })
  | directRecord (t event i : Nat) (hd : s.destroyed event = false)
      (hrec : s.recording t = none) (hx : hasXQueue i = false) :
      Step cfg hasXQueue s (.xEventRecord t event i)
        (startRecord t event (.direct ⟨i, s.direct i + 1⟩) (driverRecord event i s))
  | addEvent (t event : Nat) (xevent : XEvent) (hrec : s.recording t = some (event, xevent))
      (hret : s.recorded t xevent) :
      Step cfg hasXQueue s (.addEvent t)
        { s with
          gEvents := Function.update s.gEvents event (some xevent)
          recording := Function.update s.recording t none
          syncing := fun u => (s.syncing u).map (stale event)
          synced := Function.update s.synced event false }
  | syncDriver (t event : Nat) (hs : s.syncing t = none)
      (he : ∀ i c, s.gEvents event ≠ some (.submitted i c)) :
      Step cfg hasXQueue s (.xEventSynchronize t event)
        (startSync t event (.driver (s.dev.record event)) s)
  | syncReleased (t event i : Nat) (c : HwCommand) (hs : s.syncing t = none)
      (he : s.gEvents event = some (.submitted i c)) (hr : s.released i c) :
      Step cfg hasXQueue s (.xEventSynchronize t event)
        { startSync t event (.released i c) s with
          aborted := s.aborted || !decide (3 ≤ (s.cmdState i c).val) }
  | syncXQueue (t event i : Nat) (c : HwCommand) (d : Device) (hs : s.syncing t = none)
      (he : s.gEvents event = some (.submitted i c)) (hr : s.released i c = false)
      (hdev : (Device.lts cfg).step s.dev (.xq i (.machine (.wait t c))) d) :
      Step cfg hasXQueue s (.xEventSynchronize t event)
        (startSync t event (.xqueue i c) { s with dev := d })
  | returnSynchronize (t : Nat) (y : Synchronizing) (hs : s.syncing t = some y)
      (hret : s.returns t y.route) :
      Step cfg hasXQueue s (.returnSynchronize t)
        { s with
          syncing := Function.update s.syncing t none
          synced := Function.update s.synced y.event (s.synced y.event || y.fresh) }
  | destroy (event : Nat) :
      Step cfg hasXQueue s (.xEventDestroy event)
        { s with
          gEvents := Function.update s.gEvents event none
          destroyed := Function.update s.destroyed event true }
  | release (i : Nat) (c : HwCommand) (hc : 3 ≤ (s.cmdState i c).val) :
      Step cfg hasXQueue s (.release i c)
        { s with
          released := Function.update s.released i (Function.update (s.released i) c true) }
  | directLaunch (p : Nat) :
      Step cfg hasXQueue s (.directLaunch p)
        { s with direct := Function.update s.direct p (s.direct p + 1) }
  | directFinish (p : Nat) :
      Step cfg hasXQueue s (.directFinish p)
        { s with dev := { s.dev with
          finished := Function.update s.dev.finished p (s.dev.finished p + 1) } }
  | dev (act : DeviceAct) (d : Device) (hother : otherAct hasXQueue act)
      (hdev : (Device.lts cfg).step s.dev act d) :
      Step cfg hasXQueue s (.dev act) { s with dev := d }

variable {cfg : Nat → Config} {hasXQueue : Nat → Bool} {s s' : EventShim}

theorem onDevice_eq {act : DeviceAct} (h : onDevice cfg act s = some s') :
    ∃ d, (Device.lts cfg).step s.dev act d ∧ s' = { s with dev := d } := by
  obtain ⟨d, hd, rfl⟩ := Option.map_eq_some_iff.1 h
  exact ⟨d, hd, rfl⟩

theorem xEventRecord_cases {t event i : Nat}
    (h : xEventRecord cfg hasXQueue t event i s = some s') :
    Step cfg hasXQueue s (.xEventRecord t event i) s' := by
  unfold xEventRecord at h
  split at h
  · rename_i hg
    split at h
    · rename_i hx
      obtain ⟨s₁, h₁, rfl⟩ := Option.map_eq_some_iff.1 h
      obtain ⟨d, hd, rfl⟩ := onDevice_eq h₁
      exact .submitRecord t event i d hg.2 hg.1 hx hd
    · rename_i hx
      simp only [Option.some.injEq] at h; subst h
      exact .directRecord t event i hg.2 hg.1 (by simpa using hx)
  · cases h

theorem xEventSynchronize_cases {t event : Nat}
    (h : xEventSynchronize cfg t event s = some s') :
    Step cfg hasXQueue s (.xEventSynchronize t event) s' := by
  unfold xEventSynchronize at h
  split at h
  · rename_i hg
    cases he : s.gEvents event with
    | none =>
      simp only [he, Option.some.injEq] at h; subst h
      exact .syncDriver t event hg.1 (by rw [he]; exact fun _ _ => nofun)
    | some xevent =>
      cases xevent with
      | direct cap =>
        simp only [he, Option.some.injEq] at h; subst h
        exact .syncDriver t event hg.1 (by rw [he]; exact fun _ _ => nofun)
      | submitted i c =>
        simp only [he] at h
        split at h
        · rename_i hr
          simp only [Option.some.injEq] at h; subst h
          exact .syncReleased t event i c hg.1 he hr
        · rename_i hr
          obtain ⟨s₁, h₁, rfl⟩ := Option.map_eq_some_iff.1 h
          obtain ⟨d, hd, rfl⟩ := onDevice_eq h₁
          exact .syncXQueue t event i c d hg.1 he (by simpa using hr) hd
  · cases h

theorem step_cases {act : EventAct} (h : (lts cfg hasXQueue).step s act s') :
    s.aborted = false ∧ Step cfg hasXQueue s act s' := by
  have h' : step cfg hasXQueue s act = some s' := h
  unfold step at h'
  split at h'
  · cases h'
  · rename_i hab
    refine ⟨by simpa using hab, ?_⟩
    cases act with
    | xEventRecord t event i => exact xEventRecord_cases h'
    | addEvent t =>
      simp only [addEvent] at h'
      cases hrec : s.recording t with
      | none => simp [hrec] at h'
      | some p =>
        simp only [hrec, Option.ite_none_right_eq_some, Option.some.injEq] at h'
        obtain ⟨hret, rfl⟩ := h'
        exact .addEvent t p.1 p.2 hrec hret
    | xEventSynchronize t event => exact xEventSynchronize_cases h'
    | returnSynchronize t =>
      simp only [returnSynchronize] at h'
      cases hs : s.syncing t with
      | none => simp [hs] at h'
      | some y =>
        simp only [hs, Option.ite_none_right_eq_some, Option.some.injEq] at h'
        obtain ⟨hret, rfl⟩ := h'
        exact .returnSynchronize t y hs hret
    | xEventDestroy event =>
      simp only [xEventDestroy, Option.ite_none_right_eq_some, Option.some.injEq] at h'
      obtain ⟨-, rfl⟩ := h'
      exact .destroy event
    | release i c =>
      simp only [EventShim.release, Option.ite_none_right_eq_some, Option.some.injEq] at h'
      obtain ⟨hc, rfl⟩ := h'
      exact .release i c hc
    | directLaunch p =>
      simp only at h'
      split at h'
      · cases h'
      · simp only [Option.some.injEq] at h'; subst h'
        exact .directLaunch p
    | directFinish p =>
      simp only [Option.ite_none_right_eq_some, Option.some.injEq] at h'
      obtain ⟨-, rfl⟩ := h'
      exact .directFinish p
    | dev act =>
      simp only [Option.ite_none_right_eq_some] at h'
      obtain ⟨ho, h₁⟩ := h'
      obtain ⟨d, hd, rfl⟩ := onDevice_eq h₁
      exact .dev act d ho hd

theorem Step.change {act : EventAct} (h : Step cfg hasXQueue s act s') :
    DeviceChange cfg hasXQueue s.dev (deviceAct hasXQueue s act) s'.dev := by
  cases h with
  | submitRecord t event i d hd hrec hx hdev =>
    rw [deviceAct, if_pos hx]
    exact .act _ d hdev
  | directRecord t event i hd hrec hx =>
    rw [deviceAct, hx]
    exact .record event i _ hx
  | syncDriver t event hs he =>
    rw [deviceAct]
    split
    · rename_i i c hc
      exact absurd hc (he i c)
    · exact .same
  | syncReleased t event i c hs he hr =>
    simp only [deviceAct, he, hr, if_true]
    exact .same
  | syncXQueue t event i c d hs he hr hdev =>
    simp only [deviceAct, he, hr, Bool.false_eq_true, if_false]
    exact .act _ d hdev
  | directFinish p => exact .finish p
  | dev act d hother hdev => exact .act act d hdev
  | _ => exact .same

end EventShim
end Xsched.Cuda
