import Xsched.Preempt.Calls

/-!
# Streams, events and the hardware under a set of XQueues

A process with one XQueue on each of any number of streams, and what the
driver and the hardware keep for them: how many launches of a stream have
finished, what the last record of each event captured, and what every
`Synchronize` call under way waits for. `EventSynchronize` waits for what the
last record of its event had captured when it was called, `StreamSynchronize`
for what was launched by then.

A queue makes the steps of its `AsyncXQueue` and no others
(`xq_reachable`), so all that is known of one queue holds of each.

**Suspension.** Under `kPreemptLevelBlock` a queue may be suspended and
resumed. At the other levels it is not suspended here: their `Reactivate`
launches a part of the stream a second time (see `Guardian`).

**The shim.** `XEventRecord` submits a new record command and then puts it
into `g_events`; `XEventSynchronize` waits for the command it finds there.
Any other call of the process is a step of one of the queues. A stream
without an XQueue is not in the model.
-/
namespace Xsched.Cuda
open Preempt
open Preempt.AsyncXQueue (XAct)

/-- What a record captured: the first `pos` launches on the stream of XQueue
`queue`. -/
structure Capture where
  queue : Nat
  pos : Nat
  deriving DecidableEq, Repr

structure Device where
  xq : Nat → AsyncXQueue
  /-- how many launches of the stream have finished -/
  finished : Nat → Nat
  /-- the last record of each event -/
  record : Nat → Option Capture
  /-- what a `Synchronize` call under way waits for -/
  waiting : Nat → Caller → Option Capture

inductive DeviceAct where
  | xq (i : Nat) (act : XAct)
  | finish (i : Nat)
  deriving DecidableEq, Repr

namespace Device

def init : Device where
  xq := fun _ => AsyncXQueue.init
  finished := fun _ => 0
  record := fun _ => none
  waiting := fun _ _ => none

/-- The launches on a stream, in order. -/
def launched (d : Device) (i : Nat) : List HwCommand := (d.xq i).machine.launched

/-- The hardware has finished `c`; a stream runs its launches in order. -/
def Finished (d : Device) (i : Nat) (c : HwCommand) : Prop :=
  c ∈ (d.launched i).take (d.finished i)

def complete (d : Device) (cap : Capture) : Bool := decide (cap.pos ≤ d.finished cap.queue)

/-- What a `Synchronize` call made now waits for. A command that is no record
has an event of its own, recorded right behind it.
mirrors platforms/cuda/hal/include/xsched/cuda/hal/common/cuda_command.h:165,
platforms/cuda/hal/src/common/cuda_command.cpp:24-50 and
platforms/cuda/hal/src/level1/cuda_queue.cpp:60-63 -/
def capture (d : Device) (i : Nat) : SyncTarget → Option Capture
  | .hwq => some ⟨i, (d.launched i).length⟩
  | .cmd c =>
    match c.kind with
    | .eventRecord e => d.record e
    | _ => some ⟨i, (d.launched i).idxOf c + 1⟩

/-- The command that a step of a queue launches. -/
def newLaunch (x x' : AsyncXQueue) : Option HwCommand :=
  x'.machine.launched[x.machine.launched.length]?

/-- The last record of `event` after a step of queue `i`: a record command is
launched by `EventRecord(event_, stream)`.
mirrors platforms/cuda/hal/include/xsched/cuda/hal/common/cuda_command.h:175-176 -/
def recordLaunch (i : Nat) (x x' : AsyncXQueue) (record : Nat → Option Capture) (event : Nat) :
    Option Capture :=
  match newLaunch x x' with
  | none => record event
  | some c =>
    if c.kind = .eventRecord event then some ⟨i, x'.machine.launched.length⟩ else record event

/-- What thread `v` of queue `i` waits for after its step, which may be to make
its call. -/
def enterCall (i : Nat) (v : Caller) (d : Device) : Option Capture :=
  match (d.xq i).machine.call v with
  | some (call, .unlocked) => d.capture i call.target
  | _ => d.waiting i v

/-- A call returns only when what it waits for is complete; an event never
recorded is not waited for. -/
def mayReturn (d : Device) (i : Nat) (v : Caller) : Bool :=
  match (d.xq i).machine.call v with
  | some (_, .called) => (d.waiting i v).all d.complete
  | _ => true

/-- The device after queue `i` stepped to `x`. -/
def afterXq (i : Nat) (act : XAct) (x : AsyncXQueue) (d : Device) : Device where
  xq := Function.update d.xq i x
  finished := d.finished
  record := recordLaunch i (d.xq i) x d.record
  waiting := fun j v => if j = i ∧ act.caller = some v then enterCall i v d else d.waiting j v

def allowed (cfg : Config) : XAct → Bool
  | .suspend _ _ => decide (cfg.level = .block)
  | _ => true

def step (cfg : Nat → Config) (d : Device) : DeviceAct → Option Device
  | .xq i act =>
    if allowed (cfg i) act && (act.caller).all (d.mayReturn i) then
      (AsyncXQueue.step (cfg i) (d.xq i) act).map fun x => afterXq i act x d
    else none
  | .finish i =>
    if d.finished i < (d.launched i).length then
      some { d with finished := Function.update d.finished i (d.finished i + 1) }
    else none

def lts (cfg : Nat → Config) : LTS Device DeviceAct := LTS.ofFn (· = init) (step cfg)

/-- Every step. -/
inductive Step (cfg : Nat → Config) (d : Device) : DeviceAct → Device → Prop
  | xq (i : Nat) (act : XAct) (x : AsyncXQueue)
      (hs : (AsyncXQueue.lts (cfg i)).step (d.xq i) act x)
      (hret : ∀ v, act.caller = some v → d.mayReturn i v) :
      Step cfg d (.xq i act) (afterXq i act x d)
  | finish (i : Nat) (hlt : d.finished i < (d.launched i).length) :
      Step cfg d (.finish i)
        { d with finished := Function.update d.finished i (d.finished i + 1) }

variable {cfg : Nat → Config} {d d' : Device}

theorem step_cases {act : DeviceAct} (h : (lts cfg).step d act d') : Step cfg d act d' := by
  have h' : step cfg d act = some d' := h
  cases act with
  | xq i act =>
    simp only [step] at h'
    split at h'
    · rename_i hg
      obtain ⟨x, hs, rfl⟩ := Option.map_eq_some_iff.1 h'
      rw [Bool.and_eq_true] at hg
      refine .xq i act x hs fun v hv => ?_
      have hall := hg.2
      rw [hv] at hall
      exact hall
    · cases h'
  | finish i =>
    simp only [step] at h'
    split at h'
    · rename_i hlt
      simp only [Option.some.injEq] at h'; subst h'
      exact .finish i hlt
    · cases h'

/-! ## One queue of the device -/

theorem afterXq_self (i : Nat) (act : XAct) (x : AsyncXQueue) (d : Device) :
    (afterXq i act x d).xq i = x := Function.update_self _ _ _

theorem afterXq_other {i j : Nat} (act : XAct) (x : AsyncXQueue) (d : Device) (h : j ≠ i) :
    (afterXq i act x d).xq j = d.xq j := Function.update_of_ne h _ _

/-- **Each queue is an AsyncXQueue.** What the device promises of the queues'
steps, queue `i` keeps. -/
theorem xq_reachable {ok : Device → DeviceAct → Prop} {P : AsyncXQueue → XAct → Prop} {i : Nat}
    (hr : ((lts cfg).restrict ok).Reachable d)
    (hok : ∀ d act, ok d (.xq i act) → P (d.xq i) act) :
    ((AsyncXQueue.lts (cfg i)).restrict P).Reachable (d.xq i) := by
  refine LTS.reachable_map (fun d => d.xq i) ?_ ?_ hr
  · rintro d rfl; rfl
  · rintro d act d' - ⟨hs, hact⟩
    cases step_cases hs with
    | xq j act x hq hret =>
      by_cases hj : i = j
      · subst hj
        refine .inr ⟨act, ?_, hok d act hact⟩
        rw [afterXq_self]; exact hq
      · exact .inl (afterXq_other act x d hj)
    | finish j hlt => exact .inl rfl

end Device

/-! ## The shim -/

structure Shim where
  dev : Device
  /-- `g_events`: the last record command of an event and its queue -/
  gEvents : Nat → Option (Nat × HwCommand)
  /-- a thread inside `XEventRecord`: the event, the queue and the command -/
  recording : Nat → Option (Nat × Nat × HwCommand)

inductive ShimAct where
  | xEventRecord (t event i : Nat)
  | addEvent (t : Nat)
  | xEventSynchronize (t event : Nat)
  | dev (act : DeviceAct)
  deriving DecidableEq, Repr

namespace Shim

def init : Shim := ⟨Device.init, fun _ => none, fun _ => none⟩

def onDevice (cfg : Nat → Config) (act : DeviceAct) (s : Shim) : Option Shim :=
  (Device.step cfg s.dev act).map fun d => { s with dev := d }

/-- Thread `t` enters `xq->Submit(xevent)`; the steps of the Submit follow.
mirrors platforms/cuda/shim/src/shim.cpp:347-369 (and 370-391, with flags) -/
def xEventRecord (cfg : Nat → Config) (t event i : Nat) (s : Shim) : Option Shim :=
  if s.recording t = none then
    let c : HwCommand :=
      ⟨(s.dev.xq i).nextHwCmdIdx, kCommandPropertyIdempotent, .eventRecord event⟩
    (onDevice cfg (.xq i (.submit t c.props c.kind)) s).map fun s =>
      { s with recording := Function.update s.recording t (some (event, i, c)) }
  else none

/-- `g_events.Add(event, xevent)`, after the Submit. -/
def addEvent (t : Nat) (s : Shim) : Option Shim :=
  match s.recording t with
  | none => none
  | some (event, i, c) =>
    if (s.dev.xq i).submits t = .idle then
      some { s with
        gEvents := Function.update s.gEvents event (some (i, c))
        recording := Function.update s.recording t none }
    else none

/-- An event that is not in `g_events` goes to the driver.
mirrors platforms/cuda/shim/src/shim.cpp:395-405 -/
def xEventSynchronize (cfg : Nat → Config) (t event : Nat) (s : Shim) : Option Shim :=
  match s.gEvents event with
  | none => some s
  | some (i, c) => onDevice cfg (.xq i (.machine (.wait t c))) s

def step (cfg : Nat → Config) (s : Shim) : ShimAct → Option Shim
  | .xEventRecord t event i => xEventRecord cfg t event i s
  | .addEvent t => addEvent t s
  | .xEventSynchronize t event => xEventSynchronize cfg t event s
  | .dev act => onDevice cfg act s

def lts (cfg : Nat → Config) : LTS Shim ShimAct := LTS.ofFn (· = init) (step cfg)

variable {cfg : Nat → Config} {s s' : Shim}

/-- The step of the device that a step of the shim makes, if it makes one. -/
def deviceAct (s : Shim) : ShimAct → Option DeviceAct
  | .xEventRecord t event i => some (.xq i (.submit t kCommandPropertyIdempotent (.eventRecord event)))
  | .addEvent _ => none
  | .xEventSynchronize t event =>
    (s.gEvents event).map fun (i, c) => .xq i (.machine (.wait t c))
  | .dev act => some act

theorem onDevice_eq {act : DeviceAct} (h : onDevice cfg act s = some s') :
    (Device.lts cfg).step s.dev act s'.dev := by
  obtain ⟨d, hd, rfl⟩ := Option.map_eq_some_iff.1 h
  exact hd

theorem step_device {act : ShimAct} (h : (lts cfg).step s act s') :
    s'.dev = s.dev ∨ ∃ a, deviceAct s act = some a ∧ (Device.lts cfg).step s.dev a s'.dev := by
  have h' : step cfg s act = some s' := h
  cases act with
  | xEventRecord t event i =>
    simp only [step, xEventRecord] at h'
    split at h'
    · obtain ⟨s₁, h₁, rfl⟩ := Option.map_eq_some_iff.1 h'
      have hdev := onDevice_eq h₁
      exact .inr ⟨_, rfl, hdev⟩
    · cases h'
  | addEvent t =>
    simp only [step, addEvent] at h'
    split at h'
    · cases h'
    · split at h'
      · simp only [Option.some.injEq] at h'; subst h'; exact .inl rfl
      · cases h'
  | xEventSynchronize t event =>
    simp only [step, xEventSynchronize] at h'
    cases he : s.gEvents event with
    | none =>
      simp only [he, Option.some.injEq] at h'
      exact .inl (by rw [h'])
    | some p =>
      simp only [he] at h'
      refine .inr ⟨_, ?_, onDevice_eq h'⟩
      show (s.gEvents event).map _ = _
      rw [he]; rfl
  | dev act => exact .inr ⟨act, rfl, onDevice_eq h'⟩

/-- **Refinement.** The device below makes steps of its own. -/
theorem device_reachable {ok : Shim → ShimAct → Prop} {ok' : Device → DeviceAct → Prop}
    (hr : ((lts cfg).restrict ok).Reachable s)
    (hok : ∀ s act a, ok s act → deviceAct s act = some a → ok' s.dev a) :
    ((Device.lts cfg).restrict ok').Reachable s.dev := by
  refine LTS.reachable_map dev ?_ ?_ hr
  · rintro s rfl; rfl
  · rintro s act s' - ⟨hs, hact⟩
    exact (step_device hs).imp_right fun ⟨a, ha, hd⟩ => ⟨a, hd, hok s act a hact ha⟩

end Shim
end Xsched.Cuda
