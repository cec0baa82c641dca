import Xsched.Cuda.Streams

/-!
# The HIP shim: streams, the null stream and events

`XLaunchKernel` and its variants, `XEventRecord` and `XStreamWaitEvent` on
streams with an XQueue, on streams without one, and on the null stream, which
never has one. The HIP HAL keeps streams and events as the CUDA HAL does (an
event of its own behind each command, the user's event for a record), so
`Device` is the hardware below; its queues know `kPreemptLevelBlock` only.

**The null stream.** A call on it runs `HipSyncBlockingXQueues` and is then
passed to the driver (`driverCall`). The function submits a wait-all to each
queue of `blocking_xqueues` and waits for all of them. No function of the
shim ever inserts into that map (`blockingXQueues_nil`).

**Event waits.** On a stream with an XQueue `XStreamWaitEvent` submits a
HipEventWaitCommand, whose `BeforeLaunch` calls `Synchronize` on the record
command before the worker takes its lock; elsewhere the caller makes the
`Synchronize` call itself. That call is `hipEventSynchronize`: it waits for
what the driver's last record of the event had captured when it was made, and
returns at once when nothing was recorded.

**Model.** Stream 0 is the null stream. A stream gets its XQueue when it is
created or never. `XStreamDestroy`, a null event and driver failures are left
out.

**Ghost fields.** `before`: what was submitted to the XQueues of blocking
streams when a thread called the null stream. `waited`: the record commands
of the `XStreamWaitEvent` calls on a stream without an XQueue that returned;
`follows`: those of them that something later on the stream was issued after.
-/
namespace Xsched.Hip
open Preempt
open Preempt.AsyncXQueue (XAct)
open Cuda (Device DeviceAct Capture)

def hipStreamNonBlocking : BitVec 32 := 1

structure Stream where
  flags : BitVec 32
  xqueue : Bool
  deriving DecidableEq, Repr

def Stream.blocking (x : Stream) : Bool := x.flags &&& hipStreamNonBlocking = 0

/-- `hipStream_t` 0, which `HipQueueCreate` refuses.
mirrors platforms/hip/hal/src/hip_queue.cpp:56-65 -/
def nullStream : Nat := 0

/-- A record command; `direct` was not submitted to an XQueue. -/
inductive XEvent where
  | submitted (i : Nat) (c : HwCommand)
  | direct
  deriving DecidableEq, Repr

/-- What a null-stream call passes to the driver. -/
inductive NullOp where
  | kernelLaunch
  | eventRecord (event : Nat)
  | waitEvent (event : Nat) (xevent : Option XEvent)
  deriving DecidableEq, Repr

/-- A thread in a call of the shim. -/
inductive CallPc where
  | idle
  | syncBlocking (op : NullOp) (todo : List Nat) (cmds : List (Nat × XCommand))
  | waitBlocking (op : NullOp) (cmds : List (Nat × XCommand))
  | eventSynchronize (stream event : Nat) (xevent : XEvent) (cap : Option Capture)
  | driverCall (op : NullOp)
  | addEvent (event : Nat) (xevent : XEvent)
  | submitWait (i : Nat)
  deriving DecidableEq, Repr

structure HipShim where
  dev : Device
  streams : List (Nat × Stream)
  /-- how many launches a stream without an XQueue has got -/
  direct : Nat → Nat
  blockingXQueues : List Nat
  gEvents : Nat → Option XEvent
  calls : Nat → CallPc
  /-- the HipEventWaitCommands of a queue: the event and the record command -/
  eventWaits : Nat → HwCommand → Option (Nat × XEvent)
  /-- what the `BeforeLaunch` of a worker waits for -/
  beforeLaunch : Nat → Option Capture
  before : Nat → List (Nat × HwCommand)
  waited : Nat → List (Nat × HwCommand)
  follows : Nat → List (Nat × HwCommand)

inductive HipAct where
  | xStreamCreate (i : Nat) (flags : BitVec 32) (auto : Bool)
  | xLaunchNull (t : Nat)
  | xEventRecord (t event i : Nat)
  | xStreamWaitEvent (t event i : Nat)
  | directLaunch (p : Nat)
  | directFinish (p : Nat)
  | call (t : Nat)
  | dev (act : DeviceAct)
  deriving DecidableEq, Repr

namespace HipShim

def init : HipShim where
  dev := Device.init
  streams := [(nullStream, ⟨0, false⟩)]
  direct := fun _ => 0
  blockingXQueues := []
  gEvents := fun _ => none
  calls := fun _ => .idle
  eventWaits := fun _ _ => none
  beforeLaunch := fun _ => none
  before := fun _ => []
  waited := fun _ => []
  follows := fun _ => []

def stream (s : HipShim) (i : Nat) : Option Stream := s.streams.lookup i

def hasXQueue (s : HipShim) (i : Nat) : Bool := (s.stream i).any Stream.xqueue

def cmdState (s : HipShim) (i : Nat) (x : XCommand) : XCommandState :=
  (s.dev.xq i).machine.cmdState x

def setCall (t : Nat) (pc : CallPc) (s : HipShim) : HipShim :=
  { s with calls := Function.update s.calls t pc }

/-- What was submitted to the XQueues of the streams without the non-blocking
flag, as far as the Submit has returned. -/
def submittedBlocking (s : HipShim) : List (Nat × HwCommand) :=
  s.streams.flatMap fun (i, x) =>
    if x.blocking && x.xqueue then (s.dev.xq i).submitted.map (Prod.mk i) else []

/-! ## The workers -/

/-- What `Synchronize` on the record command of an event wait waits for. -/
def waitCapture (s : HipShim) (i : Nat) (c : HwCommand) : Option Capture :=
  (s.eventWaits i c).bind fun w => s.dev.record w.1

/-- The worker calls `BeforeLaunch` when it starts on a HwCommand.
mirrors platforms/hip/hal/src/hip_command.cpp:174-177 and
preempt/src/xqueue/launch_worker.cpp:167 -/
def startLaunch (s : HipShim) : DeviceAct → Nat → Option Capture
  | .xq i (.machine (.worker _)) =>
    match (s.dev.xq i).machine.pc with
    | .got (.hardware c) => Function.update s.beforeLaunch i (s.waitCapture i c)
    | _ => s.beforeLaunch
  | _ => s.beforeLaunch

/-- It takes its lock when the call has returned. -/
def mayLaunch (s : HipShim) : DeviceAct → Bool
  | .xq i (.machine (.worker _)) =>
    match (s.dev.xq i).machine.pc with
    | .locking (.hardware _) => (s.beforeLaunch i).all s.dev.complete
    | _ => true
  | _ => true

def onDevice (cfg : Nat → Config) (act : DeviceAct) (s : HipShim) : Option HipShim :=
  if s.mayLaunch act then
    (Device.step cfg s.dev act).map fun d => { s with dev := d, beforeLaunch := s.startLaunch act }
  else none

/-! ## The calls -/

/-- Something is issued on a stream without an XQueue. -/
def issue (p : Nat) (s : HipShim) : HipShim :=
  { s with
    direct := Function.update s.direct p (s.direct p + 1)
    follows := Function.update s.follows p (s.waited p) }

/-- `Driver::EventRecord(event, stream)` -/
def driverRecord (event p : Nat) (s : HipShim) : HipShim :=
  { issue p s with
    dev := { s.dev with
      record := Function.update s.dev.record event (some ⟨p, s.direct p + 1⟩) } }

/-- An `XStreamWaitEvent` on stream `p` returns. -/
def waitReturns (p : Nat) (xevent : XEvent) (s : HipShim) : HipShim :=
  match xevent with
  | .direct => s
  | .submitted i c => { s with waited := Function.update s.waited p ((i, c) :: s.waited p) }

/-- A call on the null stream: `HipSyncBlockingXQueues` first, except for a
wait for an event that is not in `g_events`.
mirrors platforms/hip/shim/src/shim.cpp:25-40,169-171,219-230 -/
def callNull (t : Nat) (op : NullOp) (s : HipShim) : Option HipShim :=
  if s.calls t = .idle then
    let pc := match op with
      | .waitEvent _ none => .driverCall op
      | _ => .syncBlocking op s.blockingXQueues []
    some { setCall t pc s with before := Function.update s.before t s.submittedBlocking }
  else none

/-- Thread `t` enters `xq->Submit`; the steps of the Submit follow. -/
def submit (cfg : Nat → Config) (t i : Nat) (kind : HwCommandKind) (s : HipShim) : Option HipShim :=
  onDevice cfg (.xq i (.submit t kCommandPropertyNone kind)) s

def newCommand (s : HipShim) (i : Nat) (kind : HwCommandKind) : HwCommand :=
  ⟨(s.dev.xq i).nextHwCmdIdx, kCommandPropertyNone, kind⟩

/-- mirrors platforms/hip/shim/src/shim.cpp:162-184 (and 186-208, with flags) -/
def xEventRecord (cfg : Nat → Config) (t event i : Nat) (s : HipShim) : Option HipShim :=
  if i = nullStream then callNull t (.eventRecord event) s
  else if s.calls t = .idle ∧ (s.stream i).isSome then
    if s.hasXQueue i then
      (submit cfg t i (.eventRecord event) s).map
        (setCall t (.addEvent event (.submitted i (s.newCommand i (.eventRecord event)))))
    else some (setCall t (.addEvent event .direct) (driverRecord event i s))
  else none

/-- `std::make_shared<HipEventWaitCommand>(xevent, flags)` -/
def addWait (i : Nat) (c : HwCommand) (event : Nat) (xevent : XEvent) (s : HipShim) : HipShim :=
  { s with
    eventWaits := fun j e => if j = i ∧ e = c then some (event, xevent) else s.eventWaits j e }

/-- mirrors platforms/hip/shim/src/shim.cpp:219-246 -/
def xStreamWaitEvent (cfg : Nat → Config) (t event i : Nat) (s : HipShim) : Option HipShim :=
  if i = nullStream then callNull t (.waitEvent event (s.gEvents event)) s
  else if s.calls t = .idle ∧ (s.stream i).isSome then
    match s.gEvents event with
    | none => some s
    | some xevent =>
      if s.hasXQueue i then
        (submit cfg t i .hal s).map fun s' =>
          setCall t (.submitWait i) (addWait i (s.newCommand i .hal) event xevent s')
      else
        match xevent with
        | .direct => some s
        | .submitted _ _ =>
          some (setCall t (.eventSynchronize i event xevent (s.dev.record event)) s)
  else none

/-- After `HipSyncBlockingXQueues`. -/
def afterSync (t : Nat) (op : NullOp) (s : HipShim) : HipShim :=
  match op with
  | .waitEvent event (some xevent) =>
    setCall t (.eventSynchronize nullStream event xevent (s.dev.record event)) s
  | _ => setCall t (.driverCall op) s

/-- The call of the driver with which a null-stream call ends. -/
def driverCall (t : Nat) (op : NullOp) (s : HipShim) : HipShim :=
  match op with
  | .kernelLaunch => setCall t .idle (issue nullStream s)
  | .eventRecord event => setCall t (.addEvent event .direct) (driverRecord event nullStream s)
  | .waitEvent _ none => setCall t .idle s
  | .waitEvent _ (some xevent) => setCall t .idle (waitReturns nullStream xevent s)

/-- The Submit of the record command has returned, if there was one. -/
def recorded (s : HipShim) (t : Nat) : XEvent → Bool
  | .submitted i _ => decide ((s.dev.xq i).submits t = .idle)
  | .direct => true

/-- The rest of a call. -/
def stepCall (cfg : Nat → Config) (t : Nat) (s : HipShim) : Option HipShim :=
  match s.calls t with
  | .idle => none
  | .syncBlocking op [] cmds => some (setCall t (.waitBlocking op cmds) s)
  | .syncBlocking op (i :: todo) cmds =>
    (AsyncXQueue.submitWaitAll (cfg i) (s.dev.xq i)).map fun (x, w) =>
      setCall t (.syncBlocking op todo (cmds ++ [(i, w)]))
        { s with dev := Device.afterXq i (.machine .enqueueWaitAll) x s.dev }
  | .waitBlocking op [] => some (afterSync t op s)
  | .waitBlocking op ((i, w) :: cmds) =>
    if s.cmdState i w = .completed then some (setCall t (.waitBlocking op cmds) s) else none
  | .eventSynchronize p event xevent cap =>
    if cap.all s.dev.complete then
      if p = nullStream then some (setCall t (.driverCall (.waitEvent event (some xevent))) s)
      else some (setCall t .idle (waitReturns p xevent s))
    else none
  | .driverCall op => some (driverCall t op s)
  | .addEvent event xevent =>
    if s.recorded t xevent then
      some (setCall t .idle { s with gEvents := Function.update s.gEvents event (some xevent) })
    else none
  | .submitWait i => if (s.dev.xq i).submits t = .idle then some (setCall t .idle s) else none

/-- Records are submitted by `XEventRecord` only. -/
def otherAct (s : HipShim) : DeviceAct → Bool
  | .xq _ (.submit _ _ (.eventRecord _)) => false
  | .xq i _ => s.hasXQueue i
  | .finish _ => true

/-- `xStreamCreate`: the driver hands out a new stream, and `auto` says
whether `AutoCreate` makes an XQueue for it.
mirrors platforms/hip/shim/src/shim.cpp:288-313 -/
def step (cfg : Nat → Config) (s : HipShim) : HipAct → Option HipShim
  | .xStreamCreate i flags auto =>
    if s.stream i = none then some { s with streams := (i, ⟨flags, auto⟩) :: s.streams } else none
  | .xLaunchNull t => callNull t .kernelLaunch s
  | .xEventRecord t event i => xEventRecord cfg t event i s
  | .xStreamWaitEvent t event i => xStreamWaitEvent cfg t event i s
  | .directLaunch p =>
    if p ≠ nullStream ∧ (s.stream p).isSome ∧ s.hasXQueue p = false then some (issue p s) else none
  | .directFinish p =>
    if s.dev.finished p < s.direct p then
      some { s with dev := { s.dev with
        finished := Function.update s.dev.finished p (s.dev.finished p + 1) } }
    else none
  | .call t => stepCall cfg t s
  | .dev act => if s.otherAct act then onDevice cfg act s else none

def lts (cfg : Nat → Config) : LTS HipShim HipAct := LTS.ofFn (· = init) (step cfg)

/-! ## What a step can do -/

/-- The calls on the null stream. -/
def nullCall (s : HipShim) : HipAct → Option (Nat × NullOp)
  | .xLaunchNull t => some (t, .kernelLaunch)
  | .xEventRecord t event i => if i = nullStream then some (t, .eventRecord event) else none
  | .xStreamWaitEvent t event i =>
    if i = nullStream then some (t, .waitEvent event (s.gEvents event)) else none
  | _ => none

/-- Every step of a call under way. -/
inductive CallStep (cfg : Nat → Config) (s : HipShim) (t : Nat) : HipShim → Prop
  | submitWaitAll (op : NullOp) (i : Nat) (todo : List Nat) (cmds : List (Nat × XCommand))
      (x : AsyncXQueue) (w : XCommand) (hpc : s.calls t = .syncBlocking op (i :: todo) cmds)
      (hx : AsyncXQueue.submitWaitAll (cfg i) (s.dev.xq i) = some (x, w)) :
      CallStep cfg s t
        (setCall t (.syncBlocking op todo (cmds ++ [(i, w)]))
          { s with dev := Device.afterXq i (.machine .enqueueWaitAll) x s.dev })
  | submitted (op : NullOp) (cmds : List (Nat × XCommand))
      (hpc : s.calls t = .syncBlocking op [] cmds) :
      CallStep cfg s t (setCall t (.waitBlocking op cmds) s)
  | wait (op : NullOp) (i : Nat) (w : XCommand) (cmds : List (Nat × XCommand))
      (hpc : s.calls t = .waitBlocking op ((i, w) :: cmds)) :
      CallStep cfg s t (setCall t (.waitBlocking op cmds) s)
  | afterSync (op : NullOp) (hpc : s.calls t = .waitBlocking op []) :
      CallStep cfg s t (afterSync t op s)
  | synchronizedNull (event : Nat) (xevent : XEvent) (cap : Option Capture)
      (hpc : s.calls t = .eventSynchronize nullStream event xevent cap) :
      CallStep cfg s t (setCall t (.driverCall (.waitEvent event (some xevent))) s)
  | synchronized (p event : Nat) (xevent : XEvent) (cap : Option Capture) (hp : p ≠ nullStream)
      (hpc : s.calls t = .eventSynchronize p event xevent cap) :
      CallStep cfg s t (setCall t .idle (waitReturns p xevent s))
  | driverCall (op : NullOp) (hpc : s.calls t = .driverCall op) :
      CallStep cfg s t (driverCall t op s)
  | addEvent (event : Nat) (xevent : XEvent) (hpc : s.calls t = .addEvent event xevent) :
      CallStep cfg s t
        (setCall t .idle { s with gEvents := Function.update s.gEvents event (some xevent) })
  | submitReturn (i : Nat) (hpc : s.calls t = .submitWait i) :
      CallStep cfg s t (setCall t .idle s)

/-- Every step. -/
inductive Step (cfg : Nat → Config) (s : HipShim) : HipAct → HipShim → Prop
  | create (i : Nat) (flags : BitVec 32) (auto : Bool) (hnew : s.stream i = none) :
      Step cfg s (.xStreamCreate i flags auto) { s with streams := (i, ⟨flags, auto⟩) :: s.streams }
  | callNull (act : HipAct) (t : Nat) (op : NullOp) (s' : HipShim)
      (hact : s.nullCall act = some (t, op)) (h : callNull t op s = some s') : Step cfg s act s'
  | recordXQueue (t event i : Nat) (d : Device) (hi : i ≠ nullStream) (hpc : s.calls t = .idle)
      (hx : s.hasXQueue i)
      (hdev : (Device.lts cfg).step s.dev
        (.xq i (.submit t kCommandPropertyNone (.eventRecord event))) d) :
      Step cfg s (.xEventRecord t event i)
        (setCall t (.addEvent event (.submitted i (s.newCommand i (.eventRecord event))))
          { s with dev := d })
  | recordDirect (t event i : Nat) (hi : i ≠ nullStream) (hpc : s.calls t = .idle)
      (hx : s.hasXQueue i = false) :
      Step cfg s (.xEventRecord t event i)
        (setCall t (.addEvent event .direct) (driverRecord event i s))
  | waitDriver (t event i : Nat) (hi : i ≠ nullStream) : Step cfg s (.xStreamWaitEvent t event i) s
  | waitXQueue (t event i : Nat) (xevent : XEvent) (d : Device) (hi : i ≠ nullStream)
      (hpc : s.calls t = .idle) (hx : s.hasXQueue i) (he : s.gEvents event = some xevent)
      (hdev : (Device.lts cfg).step s.dev (.xq i (.submit t kCommandPropertyNone .hal)) d) :
      Step cfg s (.xStreamWaitEvent t event i)
        (setCall t (.submitWait i)
          (addWait i (s.newCommand i .hal) event xevent { s with dev := d }))
  | waitDirect (t event i j : Nat) (c : HwCommand) (hi : i ≠ nullStream)
      (hpc : s.calls t = .idle) (hx : s.hasXQueue i = false)
      (he : s.gEvents event = some (.submitted j c)) :
      Step cfg s (.xStreamWaitEvent t event i)
        (setCall t (.eventSynchronize i event (.submitted j c) (s.dev.record event)) s)
  | directLaunch (p : Nat) (hp : p ≠ nullStream) : Step cfg s (.directLaunch p) (issue p s)
  | directFinish (p : Nat) :
      Step cfg s (.directFinish p)
        { s with dev := { s.dev with
          finished := Function.update s.dev.finished p (s.dev.finished p + 1) } }
  | call (t : Nat) (s' : HipShim) (h : CallStep cfg s t s') : Step cfg s (.call t) s'
  | dev (act : DeviceAct) (d : Device) (hother : s.otherAct act) (hmay : s.mayLaunch act)
      (hdev : (Device.lts cfg).step s.dev act d) :
      Step cfg s (.dev act) { s with dev := d, beforeLaunch := s.startLaunch act }

variable {cfg : Nat → Config} {s s' : HipShim}

theorem onDevice_eq {act : DeviceAct} (h : onDevice cfg act s = some s') :
    s.mayLaunch act ∧ ∃ d, (Device.lts cfg).step s.dev act d ∧
      s' = { s with dev := d, beforeLaunch := s.startLaunch act } := by
  unfold onDevice at h
  split at h
  · rename_i hmay
    obtain ⟨d, hd, rfl⟩ := Option.map_eq_some_iff.1 h
    exact ⟨hmay, d, hd, rfl⟩
  · cases h

theorem xEventRecord_cases {t event i : Nat} (h : xEventRecord cfg t event i s = some s') :
    Step cfg s (.xEventRecord t event i) s' := by
  unfold xEventRecord at h
  split at h
  · rename_i hi
    exact .callNull _ t (.eventRecord event) s' (if_pos hi) h
  · rename_i hi
    split at h
    · rename_i hg
      split at h
      · rename_i hx
        obtain ⟨s₁, h₁, rfl⟩ := Option.map_eq_some_iff.1 h
        obtain ⟨-, d, hd, rfl⟩ := onDevice_eq h₁
        exact .recordXQueue t event i d hi hg.1 hx hd
      · rename_i hx
        simp only [Option.some.injEq] at h; subst h
        exact .recordDirect t event i hi hg.1 (by simpa using hx)
    · cases h

theorem xStreamWaitEvent_cases {t event i : Nat}
    (h : xStreamWaitEvent cfg t event i s = some s') :
    Step cfg s (.xStreamWaitEvent t event i) s' := by
  unfold xStreamWaitEvent at h
  split at h
  · rename_i hi
    exact .callNull _ t (.waitEvent event (s.gEvents event)) s' (if_pos hi) h
  · rename_i hi
    split at h
    · rename_i hg
      split at h
      · simp only [Option.some.injEq] at h; subst h
        exact .waitDriver t event i hi
      · rename_i xevent he
        split at h
        · rename_i hx
          obtain ⟨s₁, h₁, rfl⟩ := Option.map_eq_some_iff.1 h
          obtain ⟨-, d, hd, rfl⟩ := onDevice_eq h₁
          exact .waitXQueue t event i xevent d hi hg.1 hx he hd
        · rename_i hx
          cases xevent with
          | direct =>
            simp only [Option.some.injEq] at h; subst h
            exact .waitDriver t event i hi
          | submitted j c =>
            simp only [Option.some.injEq] at h; subst h
            exact .waitDirect t event i j c hi hg.1 (by simpa using hx) he
    · cases h

theorem stepCall_cases {t : Nat} (h : stepCall cfg t s = some s') : CallStep cfg s t s' := by
  unfold stepCall at h
  cases hpc : s.calls t with
  | idle => simp [hpc] at h
  | syncBlocking op todo cmds =>
    cases todo with
    | nil =>
      simp only [hpc, Option.some.injEq] at h; subst h
      exact .submitted op cmds hpc
    | cons i todo =>
      simp only [hpc] at h
      obtain ⟨⟨x, w⟩, hx, rfl⟩ := Option.map_eq_some_iff.1 h
      exact .submitWaitAll op i todo cmds x w hpc hx
  | waitBlocking op cmds =>
    cases cmds with
    | nil =>
      simp only [hpc, Option.some.injEq] at h; subst h
      exact .afterSync op hpc
    | cons iw cmds =>
      simp only [hpc, Option.ite_none_right_eq_some, Option.some.injEq] at h
      obtain ⟨-, rfl⟩ := h
      exact .wait op iw.1 iw.2 cmds hpc
  | eventSynchronize p event xevent cap =>
    simp only [hpc, Option.ite_none_right_eq_some] at h
    obtain ⟨-, h⟩ := h
    split at h
    · rename_i hp
      simp only [Option.some.injEq] at h; subst h
      exact .synchronizedNull event xevent cap (by rw [hpc, hp])
    · rename_i hp
      simp only [Option.some.injEq] at h; subst h
      exact .synchronized p event xevent cap hp hpc
  | driverCall op =>
    simp only [hpc, Option.some.injEq] at h; subst h
    exact .driverCall op hpc
  | addEvent event xevent =>
    simp only [hpc, Option.ite_none_right_eq_some, Option.some.injEq] at h
    obtain ⟨-, rfl⟩ := h
    exact .addEvent event xevent hpc
  | submitWait i =>
    simp only [hpc, Option.ite_none_right_eq_some, Option.some.injEq] at h
    obtain ⟨-, rfl⟩ := h
    exact .submitReturn i hpc

theorem step_cases {act : HipAct} (h : (lts cfg).step s act s') : Step cfg s act s' := by
  have h' : step cfg s act = some s' := h
  cases act with
  | xStreamCreate i flags auto =>
    simp only [step, Option.ite_none_right_eq_some, Option.some.injEq] at h'
    obtain ⟨hnew, rfl⟩ := h'
    exact .create i flags auto hnew
  | xLaunchNull t => exact .callNull _ t .kernelLaunch s' rfl h'
  | xEventRecord t event i => exact xEventRecord_cases h'
  | xStreamWaitEvent t event i => exact xStreamWaitEvent_cases h'
  | directLaunch p =>
    simp only [step, Option.ite_none_right_eq_some, Option.some.injEq] at h'
    obtain ⟨hp, rfl⟩ := h'
    exact .directLaunch p hp.1
  | directFinish p =>
    simp only [step, Option.ite_none_right_eq_some, Option.some.injEq] at h'
    obtain ⟨-, rfl⟩ := h'
    exact .directFinish p
  | call t => exact .call t s' (stepCall_cases h')
  | dev act =>
    simp only [step, Option.ite_none_right_eq_some] at h'
    obtain ⟨ho, h₁⟩ := h'
    obtain ⟨hmay, d, hd, rfl⟩ := onDevice_eq h₁
    exact .dev act d ho hmay hd

/-- **The map is never filled.** -/
theorem blockingXQueues_nil (hr : (lts cfg).Reachable s) : s.blockingXQueues = [] := by
  refine LTS.reachable_induction (I := fun s => s.blockingXQueues = []) ?_ ?_ hr
  · rintro s rfl; rfl
  · intro s act s' _ h hs
    cases step_cases hs with
    | callNull act t op s' hact hcall =>
      simp only [callNull, Option.ite_none_right_eq_some, Option.some.injEq] at hcall
      obtain ⟨-, rfl⟩ := hcall
      exact h
    | call t s' hcall =>
      cases hcall with
      | afterSync op hpc =>
        cases op with
        | waitEvent event xevent => cases xevent <;> exact h
        | _ => exact h
      | synchronized p event xevent cap hp hpc => cases xevent <;> exact h
      | driverCall op hpc =>
        cases op with
        | waitEvent event xevent =>
          cases xevent with
          | none => exact h
          | some xevent => cases xevent <;> exact h
        | _ => exact h
      | _ => exact h
    | _ => exact h

end HipShim
end Xsched.Hip
