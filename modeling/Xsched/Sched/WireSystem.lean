import Xsched.Sched.Agreement
import Xsched.Sched.Announced
import Xsched.Sched.WireOperations

/-!
# The system with channels of bytes

`System` passes events and operations as values. In the code both are bytes in
a channel: the sender copies `Size()` bytes from `Data()` into it, and the
receiver makes an object out of them. Here the channels hold bytes
(`WireSystem`), made and read as in `Wire` and `WireOperations`, and the
processes are those of `System` with nothing in their channels (`strip`): a
step that receives gets the one value its process reads out of the bytes, and
what a step sends is turned into bytes (`flush`).

**Refinement.** A state of bytes carries a state of `System` (`Carries`) when
each buffer holds the message at its place. Every step goes along
(`carries_step`), so what is proved of all runs of `System` holds of the runs
on bytes. Two things differ: a ready time arrives in whole microseconds, and
the command line as the agent cut it; the labels of the run change
accordingly (`asSent`).

The members of the structs have widths. `InTypes` says that the arguments of a
call are of their C types and that no operation is longer than a `size_t` can
say. That all else fits is an invariant (`Narrow`).

**Result.** `wire_refines`: every run on bytes is a run of `System`.
-/
namespace Xsched.Sched.Wire
open Layout

/-! ## Messages as values -/

/-- A value of an `enum` or an `int64_t` in `n` bits. -/
def Signed (n : Nat) (i : Int) : Prop := -2 ^ (n - 1) ≤ i ∧ i < 2 ^ (n - 1)

instance (n : Nat) (i : Int) : Decidable (Signed n i) := inferInstanceAs (Decidable (_ ∧ _))

theorem toInt_ofInt32 {i : Int} (h : Signed 32 i) : (BitVec.ofInt 32 i).toInt = i := by
  unfold Signed at h
  rw [BitVec.toInt_ofInt]
  apply Int.bmod_eq_of_le <;> omega

theorem toInt_ofInt64 {i : Int} (h : Signed 64 i) : (BitVec.ofInt 64 i).toInt = i := by
  unfold Signed at h
  rw [BitVec.toInt_ofInt]
  apply Int.bmod_eq_of_le <;> omega

theorem toNat_ofNat {w n : Nat} (h : n < 2 ^ w) : (BitVec.ofNat w n).toNat = n := by
  rw [BitVec.toNat_ofNat, Nat.mod_eq_of_lt h]

variable (text : Bytes → String)

/-- The event of the scheduler that an event on the wire is; `text` reads a
command line. -/
def Event.toSched : Event → Sched.Event
  | hint pid _ => .hint pid.toNat
  | schedulerTerminate pid => .schedulerTerminate pid.toNat
  | processCreate pid cmdline => .processCreate pid.toNat (text cmdline)
  | processDestroy pid => .processDestroy pid.toNat
  | xQueueCreate pid handle device level threshold batchSize =>
    .xQueueCreate pid.toNat handle.toNat device.toNat level.toInt threshold.toInt batchSize.toInt
  | xQueueDestroy pid handle => .xQueueDestroy pid.toNat handle.toNat
  | xQueueReady pid handle readyTime => .xQueueReady pid.toNat handle.toNat readyTime.toNat
  | xQueueIdle pid handle => .xQueueIdle pid.toNat handle.toNat
  | xQueueConfigUpdate pid handle device level threshold batchSize =>
    .xQueueConfigUpdate pid.toNat handle.toNat device.toNat level.toInt threshold.toInt
      batchSize.toInt
  | xQueueQuery pid handle _ => .xQueueQuery pid.toNat handle.toNat
  | xQueueQueryAll pid _ => .xQueueQueryAll pid.toNat

/-- The arguments of the constructor, for the events about an XQueue. -/
def Event.ofSched : Sched.Event → Option Event
  | .xQueueCreate pid h d l t b =>
    some (.xQueueCreate (.ofNat 32 pid) (.ofNat 64 h) (.ofNat 64 d) (.ofInt 32 l) (.ofInt 64 t)
      (.ofInt 64 b))
  | .xQueueDestroy pid h => some (.xQueueDestroy (.ofNat 32 pid) (.ofNat 64 h))
  | .xQueueReady pid h t => some (.xQueueReady (.ofNat 32 pid) (.ofNat 64 h) (.ofNat 64 t))
  | .xQueueIdle pid h => some (.xQueueIdle (.ofNat 32 pid) (.ofNat 64 h))
  | .xQueueConfigUpdate pid h d l t b =>
    some (.xQueueConfigUpdate (.ofNat 32 pid) (.ofNat 64 h) (.ofNat 64 d) (.ofInt 32 l)
      (.ofInt 64 t) (.ofInt 64 b))
  | _ => none

/-- No query is made of a channel of these events. -/
theorem queryData_ofSched {e : Sched.Event} {m : Event} (h : Event.ofSched e = some m) :
    m.queryData = none := by
  cases e with
  | xQueueCreate | xQueueDestroy | xQueueReady | xQueueIdle | xQueueConfigUpdate =>
    obtain rfl := Option.some.inj h
    rfl
  | _ => cases h

/-- A ready time in whole microseconds. -/
def wholeMicroseconds (t : TimePoint) : TimePoint := t / 1000 * 1000

/-- The event that arrives. -/
def rounded : Sched.Event → Sched.Event
  | .xQueueReady pid h t => .xQueueReady pid h (wholeMicroseconds t)
  | e => e

/-- The values of the event fit its members. -/
def Fitting : Sched.Event → Prop
  | .xQueueCreate pid h d l t b | .xQueueConfigUpdate pid h d l t b =>
    pid < 2 ^ 32 ∧ h < 2 ^ 64 ∧ d < 2 ^ 64 ∧ Signed 32 l ∧ Signed 64 t ∧ Signed 64 b
  | .xQueueDestroy pid h | .xQueueIdle pid h => pid < 2 ^ 32 ∧ h < 2 ^ 64
  | .xQueueReady pid h t => pid < 2 ^ 32 ∧ h < 2 ^ 64 ∧ t < 2 ^ 63
  | _ => False

theorem toNat_microseconds {t : Nat} (h : t < 2 ^ 63) :
    (Event.ofMicroseconds (Event.toMicroseconds (.ofNat 64 t))).toNat = wholeMicroseconds t := by
  have hmsb : (BitVec.ofNat 64 t).msb = false := by
    rw [BitVec.msb_eq_false_iff_two_mul_lt, toNat_ofNat (by omega)]
    omega
  have hdiv : Event.toMicroseconds (.ofNat 64 t) = .ofNat 64 t / 1000 := by
    rw [Event.toMicroseconds, BitVec.sdiv_eq, hmsb]
    rfl
  rw [Event.ofMicroseconds, hdiv, BitVec.toNat_mul, BitVec.toNat_udiv, toNat_ofNat (by omega)]
  exact Nat.mod_eq_of_lt (by change t / 1000 * 1000 < _; omega)

/-- A fitting event arrives, with its time rounded. -/
theorem toSched_ofSched {e : Sched.Event} (hf : Fitting e) :
    ∃ m, Event.ofSched e = some m ∧ m.seen.toSched text = rounded e := by
  cases e with
  | xQueueCreate pid h d l t b =>
    obtain ⟨hp, hh, hd, hl, ht, hb⟩ := hf
    refine ⟨_, rfl, ?_⟩
    simp only [Event.seen, Event.toSched, rounded, toNat_ofNat hp, toNat_ofNat hh, toNat_ofNat hd,
      toInt_ofInt32 hl, toInt_ofInt64 ht, toInt_ofInt64 hb]
  | xQueueConfigUpdate pid h d l t b =>
    obtain ⟨hp, hh, hd, hl, ht, hb⟩ := hf
    refine ⟨_, rfl, ?_⟩
    simp only [Event.seen, Event.toSched, rounded, toNat_ofNat hp, toNat_ofNat hh, toNat_ofNat hd,
      toInt_ofInt32 hl, toInt_ofInt64 ht, toInt_ofInt64 hb]
  | xQueueDestroy pid h | xQueueIdle pid h =>
    obtain ⟨hp, hh⟩ := hf
    refine ⟨_, rfl, ?_⟩
    simp only [Event.seen, Event.toSched, rounded, toNat_ofNat hp, toNat_ofNat hh]
  | xQueueReady pid h t =>
    obtain ⟨hp, hh, ht⟩ := hf
    refine ⟨_, rfl, ?_⟩
    simp only [Event.seen, Event.toSched, rounded, toNat_ofNat hp, toNat_ofNat hh,
      toNat_microseconds ht]
  | _ => exact absurd hf id

/-- The operation of the scheduler that an operation on the wire is. -/
def Operation.toSched : Operation → Option SchedOperation
  | sched pid running suspended => some
    { pid := pid.toNat
      size := schedSize (running.length + suspended.length)
      runningCnt := running.length
      suspendedCnt := suspended.length
      handles := (running ++ suspended).map BitVec.toNat }
  | _ => none

def Operation.ofSched (op : SchedOperation) : Operation :=
  .sched (.ofNat 32 op.pid) (op.running.map (.ofNat 64 ·)) (op.suspended.map (.ofNat 64 ·))

/-- The operation of a process whose handles fit arrives as it was made. -/
theorem toSched_ofStatus {p : ProcessStatus} (hp : p.info.pid < 2 ^ 32)
    (hh : ∀ b, ∀ h ∈ p.xqueues b, h < 2 ^ 64) :
    (Operation.ofSched (.ofStatus p)).toSched = some (.ofStatus p) := by
  have hmap : ∀ hs : List XQueueHandle, (∀ h ∈ hs, h < 2 ^ 64) →
      (hs.map (BitVec.ofNat 64)).map BitVec.toNat = hs := by
    intro hs hlt
    rw [List.map_map]
    exact (List.map_congr_left fun h hmem => toNat_ofNat (hlt h hmem)).trans (List.map_id _)
  have hrun := hmap p.runningXqueues.elems (hh false)
  have hsus := hmap p.suspendedXqueues.elems (hh true)
  have hpid : (SchedOperation.ofStatus p).pid = p.info.pid := rfl
  simp only [Operation.ofSched, Operation.toSched, SchedOperation.running_ofStatus,
    SchedOperation.suspended_ofStatus, List.map_append, List.length_map, hpid, toNat_ofNat hp, hrun,
    hsus]
  rfl

/-! ## The system -/

/-- The processes, with nothing in their channels. -/
def strip (s : System) : System :=
  { s with
    server := { s.server with chan := [] }
    clients := fun pid => { s.clients pid with ops := [] } }

/-- `procs` are the processes; the other two are the channel of the server and
those of the clients. -/
structure WireSystem where
  procs : System
  chan : List Bytes
  ops : PID → List Bytes

/-- `file` is the `/proc/self/cmdline` of the process. -/
inductive WireAct where
  | connect (pid : BitVec 32) (file : Bytes)
  | client (pid : PID) (act : ClientAct)
  | server (act : ServerAct)

/-- `raw`: what memory holds that is allocated in the step. -/
structure WireLabel where
  act : WireAct
  raw : Nat → UInt8

namespace WireSystem

def init (type : XPolicyType) : WireSystem := ⟨System.init type, [], fun _ => []⟩

/-- `Send` of what a step has sent.
mirrors sched/src/scheduler/global.cpp:49-55 and
service/server/src/server.cpp:172-192 -/
def flush (raw : Nat → UInt8) (w : WireSystem) (p : System) : WireSystem where
  procs := strip p
  chan := w.chan ++ p.server.chan.filterMap fun e =>
    (Event.ofSched e).map fun m => (m.make raw raw).data
  ops := fun pid => w.ops pid ++ (p.clients pid).ops.map fun op =>
    ((Operation.ofSched op).make raw).data

/-- The processes with one event in the channel of the server. -/
def withEvent (e : Sched.Event) (p : System) : System :=
  { p with server := { p.server with chan := [e] } }

/-- The processes with one operation in the channel of a client. -/
def withOperation (pid : PID) (op : SchedOperation) (p : System) : System :=
  p.setClient pid { p.clients pid with ops := [op] }

/-- Whether the step takes an operation out of the channel of the client. -/
def takes (w : WireSystem) (pid : PID) (act : ClientAct) : Bool :=
  act = .execute && (w.procs.clients pid).executor = .idle

variable (self : BitVec 32)

/-- `self` is the process of the server. mirrors
sched/src/scheduler/global.cpp:49-69 and service/server/src/server.cpp:90-192 -/
def step (w : WireSystem) (l : WireLabel) : Option WireSystem :=
  match l.act with
  | .connect pid file =>
    if (w.procs.clients pid.toNat).started ∨ w.procs.server.dead pid.toNat then none
    else some { w with
      procs := w.procs.setClient pid.toNat { w.procs.clients pid.toNat with started := true }
      chan := w.chan ++
        [((Event.processCreate pid (agentCmdline file)).make l.raw l.raw).data] }
  | .client pid act =>
    if w.takes pid act then
      match w.ops pid with
      | [] => none
      | data :: ops => do
        let o ← Operation.copyConstructor l.raw data
        let op ← (← o.operation).toSched
        let p ← (withOperation pid op w.procs).step (.client pid act)
        return { w with procs := p, ops := Function.update w.ops pid ops }
    else (w.procs.step (.client pid act)).map (w.flush l.raw)
  | .server act =>
    if act = .recv then
      match w.chan with
      | [] => none
      | data :: chan => do
        let o ← Event.copyConstructor l.raw data
        let e ← o.event self l.raw
        let p ← (withEvent (e.toSched text) w.procs).step (.server act)
        return { w with procs := p, chan }
    else (w.procs.step (.server act)).map (w.flush l.raw)

def lts : LTS WireSystem WireLabel := .ofFn (fun w => ∃ type, w = init type) (step text self)

end WireSystem

/-- The arguments of the call are of their types. -/
def TypedCall : ClientAct → Prop
  | .create _ d l t b => d < 2 ^ 64 ∧ Signed 32 l ∧ Signed 64 t ∧ Signed 64 b
  | .submit _ t => t < 2 ^ 63
  | .configure _ l t b => Signed 32 l ∧ Signed 64 t ∧ Signed 64 b
  | _ => True

/-- The arguments of a call are of their types, and the size of an operation is
a `size_t`. -/
def InTypes (w : WireSystem) (l : WireLabel) : Prop :=
  match l.act with
  | .connect _ _ => True
  | .client _ act => TypedCall act
  | .server act => ∀ p ∈ w.procs.step (.server act),
      ∀ op ∈ w.procs.server.scheduler.since p.server.scheduler, op.size < 2 ^ 64

instance : ∀ act, Decidable (TypedCall act)
  | .create _ _ _ _ _ | .configure _ _ _ _ => inferInstanceAs (Decidable (_ ∧ _))
  | .submit _ _ => inferInstanceAs (Decidable (_ < _))
  | .add | .destroy _ | .free _ | .drain _ | .execute => inferInstanceAs (Decidable True)

instance (w : WireSystem) : ∀ l, Decidable (InTypes w l)
  | ⟨.connect _ _, _⟩ => inferInstanceAs (Decidable True)
  | ⟨.client _ act, _⟩ => inferInstanceAs (Decidable (TypedCall act))
  | ⟨.server act, _⟩ => inferInstanceAs (Decidable (∀ p ∈ w.procs.step (.server act), _))

/-- The call with the ready time that is sent. -/
def asSentCall : ClientAct → ClientAct
  | .submit h t => .submit h (wholeMicroseconds t)
  | act => act

/-- The step of `System`. -/
def asSent (l : WireLabel) : SystemAct :=
  match l.act with
  | .connect pid file => .connect pid.toNat (text (agentCmdline file))
  | .client pid act => .client pid (asSentCall act)
  | .server act => .server act

/-- The bytes are those of the event, which is no query. -/
def CarriesEvent (data : Bytes) (e : Sched.Event) : Prop :=
  ∃ m raw rawHint, data = (Event.make raw rawHint m).data ∧ m.queryData = none ∧
    m.seen.toSched text = e

/-- The bytes are those of the operation. -/
def CarriesOperation (data : Bytes) (op : SchedOperation) : Prop :=
  ∃ m raw, m.size < 2 ^ 64 ∧ data = (Operation.make raw m).data ∧ m.toSched = some op

/-- Whatever memory the receiver gets, it makes a message out of every buffer
under way: no type is unknown, nothing is read past the end, and no accessor
exits. -/
def Readable (self : BitVec 32) (w : WireSystem) : Prop :=
  (∀ data ∈ w.chan, ∀ raw, ∃ o m, Event.copyConstructor raw data = some o ∧
    o.event self raw = some m) ∧
  ∀ pid, ∀ data ∈ w.ops pid, ∀ raw, ∃ o m, Operation.copyConstructor raw data = some o ∧
    o.operation = some m

/-- Each buffer holds the message at its place. -/
structure Carries (w : WireSystem) (s : System) : Prop where
  procs : w.procs = strip s
  chan : List.Forall₂ (CarriesEvent text) w.chan s.server.chan
  ops : ∀ pid, List.Forall₂ CarriesOperation (w.ops pid) (s.clients pid).ops

/-! ## Steps beside the channels -/

/-- The client's step does not read the operations under way. -/
theorem step_withOps {c : Client} {act : ClientAct} (ops : List SchedOperation)
    (hnot : ¬ (act = .execute ∧ c.executor = .idle)) :
    ({ c with ops } : Client).step act = (c.step act).map fun r => ({ r.1 with ops }, r.2) := by
  cases act with
  | create addr device level threshold batchSize =>
    simp only [Client.step]
    cases c.adding <;> cases c.objs (kHandle addr c.pid).toNat <;> rfl
  | add =>
    simp only [Client.step]
    cases c.adding <;> rfl
  | destroy h =>
    obtain ⟨pid, started, objs, adding, ops', executor⟩ := c
    simp only [Client.step]
    cases adding <;> rcases objs h with _ | ⟨_ | _, _⟩ <;> rfl
  | free h =>
    simp only [Client.step]
    cases c.objs h with
    | none => rfl
    | some o =>
      have hholds : ({ c with ops } : Client).holds h = c.holds h := rfl
      simp only [hholds]
      split <;> rfl
  | submit h t =>
    simp only [Client.step]
    rcases c.objs h with _ | ⟨_, _, _ | _, _⟩ <;> rfl
  | drain h =>
    simp only [Client.step]
    rcases c.objs h with _ | ⟨_, _, _ | _, _⟩ <;> rfl
  | configure h level threshold batchSize =>
    simp only [Client.step]
    cases c.objs h <;> rfl
  | execute =>
    simp only [Client.step, Client.execute]
    cases hx : c.executor with
    | idle => exact absurd ⟨rfl, hx⟩ hnot
    | holding h b rest => rfl
    | calling calls =>
      cases calls with
      | nil => rfl
      | cons call rest =>
        simp only
        split
        · rfl
        · rcases c.objs call.1 with _ | ⟨_ | _, _⟩ <;> rfl

/-- An idle client takes the first operation under way. -/
theorem step_takes (ops : List SchedOperation) {c c' : Client} {op : SchedOperation}
    {e : Option Sched.Event} (hidle : c.executor = .idle)
    (h : ({ c with ops := [op] } : Client).step .execute = some (c', e)) :
    ({ c with ops := op :: ops } : Client).step .execute = some ({ c' with ops }, e) ∧
      c'.ops = [] ∧ e = none := by
  simp only [Client.step, Client.execute, hidle, Option.map_some, Option.some.injEq,
    Prod.mk.injEq] at h ⊢
  obtain ⟨rfl, rfl⟩ := h
  exact ⟨⟨rfl, rfl⟩, rfl, rfl⟩

/-- Only the time of a Ready event is rounded. -/
theorem rounded_send {c c' : Client} {act : ClientAct} {e : Option Sched.Event}
    (hc : Client.StepCases c act c' e) (hnot : ∀ h t, act ≠ .submit h t) : e.map rounded = e := by
  have hsend : ∀ e₀ : Sched.Event, rounded e₀ = e₀ → (c.send e₀).map rounded = c.send e₀ := by
    intro e₀ he₀
    unfold Client.send
    split
    · exact congrArg some he₀
    · rfl
  cases hc with
  | create | free | drain | configure => exact hsend _ rfl
  | add | destroy | execute => rfl
  | submit | submitted => exact absurd rfl (hnot _ _)

/-- The call with the time that is sent sends the event that arrives. -/
theorem step_asSentCall {c c' : Client} {act : ClientAct} {e : Option Sched.Event}
    (h : c.step act = some (c', e)) : c.step (asSentCall act) = some (c', e.map rounded) := by
  have hc := Client.step_cases h
  cases act with
  | submit h₁ t =>
    simp only [Client.step, asSentCall] at h ⊢
    cases ho : c.objs h₁ with
    | none => simp only [ho] at h; cases h
    | some o =>
      simp only [ho] at h ⊢
      cases hs : o.state with
      | ready =>
        simp only [hs] at h ⊢
        cases h
        rfl
      | idle =>
        simp only [hs, Option.some.injEq, Prod.mk.injEq] at h ⊢
        obtain ⟨rfl, rfl⟩ := h
        refine ⟨rfl, ?_⟩
        unfold Client.send
        split <;> rfl
  | _ =>
    rw [rounded_send hc (by rintro _ _ ⟨⟩)]
    exact h

/-- A step of the server other than `recv` does not read its channel. -/
theorem server_beside {act : ServerAct} (hrun : act.runs = true) (hrecv : act ≠ .recv)
    (sv : Server) (chan : List Sched.Event) :
    ({ sv with chan } : Server).step act = (sv.step act).map fun sv' => { sv' with chan } := by
  cases act with
  | recv => exact absurd rfl hrecv
  | send | die | terminated => cases hrun
  | addWait gone =>
    cases gone with
    | true => cases hrun
    | false =>
      simp only [Server.step]
      cases sv.recvWorker <;> rfl
  | forward =>
    simp only [Server.step]
    cases sv.recvWorker <;> rfl
  | sendHint => rfl
  | sched a =>
    simp only [Server.step]
    cases a <;> first | rfl | (simp only [Option.map_map]; rfl)

/-- `recv` takes the first event. -/
theorem server_recv {sv sv' : Server} {e : Sched.Event} (es : List Sched.Event)
    (h : ({ sv with chan := [e] } : Server).step .recv = some sv') :
    ({ sv with chan := e :: es } : Server).step .recv = some { sv' with chan := es } ∧
      sv'.chan = [] ∧ sv'.scheduler.executed = sv.scheduler.executed := by
  cases hpc : sv.recvWorker with
  | receiving =>
    cases e with
    | processCreate pid cmdline =>
      simp only [Server.step, hpc, Option.some.injEq] at h ⊢
      subst h
      exact ⟨rfl, rfl, rfl⟩
    | _ =>
      simp only [Server.step, hpc, Option.some.injEq] at h ⊢
      subst h
      exact ⟨rfl, rfl, rfl⟩
  | _ =>
    simp only [Server.step, hpc] at h
    cases h

/-! ## What fits -/

/-- What the members of the structs hold. -/
structure Narrow (s : System) : Prop where
  handle : ∀ pid h, s.Uses pid h → h < 2 ^ 64
  started : ∀ pid, (s.clients pid).started = true → pid < 2 ^ 32
  device : ∀ pid h o, (s.clients pid).objs h = some o → o.device < 2 ^ 64

/-- The arguments of the step that are kept. -/
def NarrowAct : SystemAct → Prop
  | .connect pid _ => pid < 2 ^ 32
  | .client _ (.create _ d _ _ _) => d < 2 ^ 64
  | _ => True

section
variable {c c' : Client} {a : ClientAct} {e : Option Sched.Event}

/-- The device of an XQueue is the one it was created with. -/
theorem device_step (hc : Client.StepCases c a c' e)
    (hd : ∀ h o, c.objs h = some o → o.device < 2 ^ 64)
    (ha : ∀ addr d l t b, a = .create addr d l t b → d < 2 ^ 64) {h : XQueueHandle} {o' : XQueueObj}
    (ho' : c'.objs h = some o') : o'.device < 2 ^ 64 := by
  -- an object that replaces one with the same device
  have hset : ∀ {h₁ : XQueueHandle} {x : Option XQueueObj},
      (∀ o, x = some o → o.device < 2 ^ 64) → (c.setObj h₁ x).objs h = some o' →
      o'.device < 2 ^ 64 := by
    intro h₁ x hx ho
    by_cases hh : h = h₁
    · subst hh
      rw [Client.setObj_objs_self] at ho
      exact hx o' ho
    · rw [Client.setObj_objs_ne hh] at ho
      exact hd h o' ho
  cases hc with
  | create => exact hset (by rintro o ⟨⟩; exact ha _ _ _ _ _ rfl) ho'
  | add =>
    refine hset ?_ ho'
    intro o ho
    obtain ⟨o₁, ho₁, rfl⟩ := Option.map_eq_some_iff.1 ho
    exact hd _ o₁ ho₁
  | destroy _ ho | submit ho | drain ho | configure ho =>
    have hold := hd _ _ ho
    exact hset (by rintro o ⟨⟩; exact hold) ho'
  | free => exact hset (by rintro o ⟨⟩) ho'
  | submitted => exact hd h o' ho'
  | execute he =>
    obtain ⟨o, ho, -, hdev, -⟩ := Client.execute_config he ho'
    rw [hdev]
    exact hd h o ho

/-- The events of a client fit. -/
theorem fitting_event {e : Sched.Event} (hc : Client.StepCases c a c' (some e)) (ht : TypedCall a)
    (hp : c.started = true → c.pid < 2 ^ 32) (hh : ∀ h, (c.objs h).isSome = true → h < 2 ^ 64)
    (hd : ∀ h o, c.objs h = some o → o.device < 2 ^ 64) : Fitting e := by
  generalize hev : some e = ev at hc
  cases hc with
  | create heq =>
    obtain ⟨hst, rfl⟩ := Client.send_eq_some.1 hev.symm
    obtain ⟨hd', hl, hth, hb⟩ := ht
    exact ⟨hp hst, by rw [heq]; exact BitVec.isLt _, hd', hl, hth, hb⟩
  | free ho | drain ho =>
    obtain ⟨hst, rfl⟩ := Client.send_eq_some.1 hev.symm
    exact ⟨hp hst, hh _ (by rw [ho]; rfl)⟩
  | submit ho =>
    obtain ⟨hst, rfl⟩ := Client.send_eq_some.1 hev.symm
    exact ⟨hp hst, hh _ (by rw [ho]; rfl), ht⟩
  | configure ho =>
    obtain ⟨hst, rfl⟩ := Client.send_eq_some.1 hev.symm
    obtain ⟨hl, hth, hb⟩ := ht
    exact ⟨hp hst, hh _ (by rw [ho]; rfl), hd _ _ ho, hl, hth, hb⟩
  | add | destroy | submitted | execute => cases hev

end

section
variable {s s' : System} {act : SystemAct}

theorem transmit_started {ops : List SchedOperation} {pid : PID} :
    ((System.transmit ops s).clients pid).started = (s.clients pid).started := by
  simp only [System.transmit]; split <;> rfl

theorem narrow_init (type : XPolicyType) : Narrow (System.init type) := by
  refine ⟨?_, ?_, ?_⟩
  · rintro pid h (ho | ⟨e, he, -⟩ | ⟨q, hq, -⟩)
    · cases ho
    · cases he
    · cases hq
  · intro pid hst; cases hst
  · intro pid h o ho; cases ho

theorem narrow_step (hp : ∀ pid, (s.clients pid).pid = pid) (hn : Narrow s)
    (hc : System.StepCases s act s') (hact : NarrowAct act) : Narrow s' := by
  have hk := hc.kinds
  refine ⟨?_, ?_, ?_⟩
  · intro pid h hu
    rcases System.uses_step hp hk hu with hu | ⟨a, rfl, ha⟩
    · exact hn.handle pid h hu
    · cases a with
      | create addr d l t b =>
        obtain rfl := Option.some.inj ha
        exact BitVec.isLt _
      | _ => cases ha
  · intro pid hst
    cases hc with
    | @connect pid₁ cmdline _ =>
      rw [show _ = _ from System.started_setClient ..] at hst
      by_cases hpid : pid = pid₁
      · rw [hpid]; exact hact
      · rw [Function.update_of_ne hpid] at hst
        exact hn.started pid hst
    | quiet hc => exact hn.started pid ((System.started_client hc pid).symm.trans hst)
    | sends hc => exact hn.started pid ((System.started_client hc pid).symm.trans hst)
    | sched => exact hn.started pid (transmit_started.symm.trans hst)
    | accept | recv | addWait | forward | sendHint => exact hn.started pid hst
  · intro pid h o ho
    cases hk with
    | @connect pid₁ cmdline _ hs =>
      subst hs
      by_cases hpid : pid = pid₁
      · subst hpid
        rw [show _ = _ from System.setClient_self ..] at ho
        exact hn.device _ h o ho
      · rw [show _ = _ from System.setClient_ne hpid _] at ho
        exact hn.device pid h o ho
    | @client pid₁ a c e ha hcl hs =>
      subst hs ha
      by_cases hpid : pid = pid₁
      · subst hpid
        rw [show _ = _ from System.setClient_self ..] at ho
        refine device_step hcl (hn.device pid) ?_ ho
        rintro addr d l t b rfl
        exact hact
      · rw [show _ = _ from System.setClient_ne hpid _] at ho
        exact hn.device pid h o ho
    | forwards _ hs => rw [hs] at ho; exact hn.device pid h o ho
    | sched _ _ hs => subst hs; rw [System.transmit_objs] at ho; exact hn.device pid h o ho

end

/-! ## A step on bytes -/

section
variable {text : Bytes → String} {self : BitVec 32} {w w' : WireSystem} {s : System}

/-- The bytes of a fitting event carry the event that arrives. -/
theorem carries_bytes {e : Sched.Event} (hf : Fitting e) (raw : Nat → UInt8) :
    List.Forall₂ (CarriesEvent text)
      ([e].filterMap fun e => (Event.ofSched e).map fun m => (m.make raw raw).data) [rounded e] := by
  obtain ⟨m, hm, hseen⟩ := toSched_ofSched text hf
  simp only [List.filterMap_cons, List.filterMap_nil, hm, Option.map_some]
  exact .cons ⟨m, raw, raw, rfl, queryData_ofSched hm, hseen⟩ .nil

/-- A received event is the one that was sent. -/
theorem receive_event {data : Bytes} {e : Sched.Event} (hc : CarriesEvent text data e)
    (self : BitVec 32) (raw : Nat → UInt8) : ∃ o m, Event.copyConstructor raw data = some o ∧
      o.event self raw = some m ∧ m.toSched text = e := by
  obtain ⟨m, r, r', rfl, hquery, rfl⟩ := hc
  obtain ⟨r'', hcopy⟩ := m.copyConstructor_make r raw r' []
  rw [List.append_nil] at hcopy
  refine ⟨_, _, hcopy, ?_, rfl⟩
  rw [m.event_make, if_pos (Event.accessible_of_none hquery self)]

/-- A received operation is the one that was sent. -/
theorem receive_operation {data : Bytes} {op : SchedOperation} (hc : CarriesOperation data op)
    (raw : Nat → UInt8) : ∃ o m, Operation.copyConstructor raw data = some o ∧
      o.operation = some m ∧ m.toSched = some op := by
  obtain ⟨m, r, hsize, rfl, hm⟩ := hc
  obtain ⟨r', hcopy⟩ := m.copyConstructor_make r raw [] hsize
  rw [List.append_nil] at hcopy
  exact ⟨_, m, hcopy, m.operation_make _ hsize, hm⟩

theorem Carries.readable (hc : Carries text w s) : Readable self w := by
  constructor
  · intro data hd raw
    obtain ⟨i, hi, rfl⟩ := List.mem_iff_getElem.1 hd
    have he := hc.chan.get hi (by rwa [← hc.chan.length_eq])
    obtain ⟨o, m, hcopy, hev, -⟩ := receive_event he self raw
    exact ⟨o, m, hcopy, hev⟩
  · intro pid data hd raw
    obtain ⟨i, hi, rfl⟩ := List.mem_iff_getElem.1 hd
    have hop := (hc.ops pid).get hi (by rwa [← (hc.ops pid).length_eq])
    obtain ⟨o, m, hcopy, hm, -⟩ := receive_operation hop raw
    exact ⟨o, m, hcopy, hm⟩

theorem size_toSched {m : Operation} {op : SchedOperation} (h : m.toSched = some op) :
    m.size = op.size := by
  cases m with
  | sched pid running suspended =>
    obtain rfl := Option.some.inj h
    rfl
  | _ => cases h

/-- The operations that a round passes are carried by their bytes. -/
theorem carries_operations {st : Status} (hs : st.Linked)
    (hpid : ∀ h q, st.xqueueStatus.lookup h = some q → q.pid < 2 ^ 32)
    (hh : ∀ h q, st.xqueueStatus.lookup h = some q → h < 2 ^ 64) (raw : Nat → UInt8)
    {ops : List SchedOperation} (hops : ∀ op ∈ ops, op ∈ LocalScheduler.operations st)
    (hsize : ∀ op ∈ ops, op.size < 2 ^ 64) :
    List.Forall₂ CarriesOperation (ops.map fun op => ((Operation.ofSched op).make raw).data) ops := by
  induction ops with
  | nil => exact .nil
  | cons op ops ih =>
    refine .cons ?_ (ih (fun o ho => hops o (List.mem_cons_of_mem op ho))
      fun o ho => hsize o (List.mem_cons_of_mem op ho))
    obtain ⟨⟨pid, p⟩, hmem, rfl⟩ := List.mem_map.1 (hops op List.mem_cons_self)
    obtain ⟨hmem, hne⟩ := List.mem_filter.1 hmem
    have hp : st.processStatus.lookup pid = some p := AList.mem_lookup_iff.2 hmem
    have hmem' : ∀ b, ∀ h ∈ p.xqueues b, ∃ q, st.xqueueStatus.lookup h = some q ∧ q.pid = pid := by
      intro b h hx
      obtain ⟨q, hq, hqp, -⟩ := (hs.sets pid p hp b h).1 hx
      exact ⟨q, hq, hqp⟩
    have hpid' : p.info.pid < 2 ^ 32 := by
      obtain ⟨b, h, hx⟩ : ∃ b h, h ∈ p.xqueues b := by
        simp only [Bool.not_eq_true', Bool.and_eq_false_iff, List.isEmpty_eq_false_iff_exists_mem]
          at hne
        rcases hne with ⟨h, hx⟩ | ⟨h, hx⟩
        · exact ⟨false, h, hx⟩
        · exact ⟨true, h, hx⟩
      obtain ⟨q, hq, hqp⟩ := hmem' b h hx
      rw [hs.keyed pid p hp, ← hqp]
      exact hpid h q hq
    have hto : (Operation.ofSched (.ofStatus p)).toSched = some (.ofStatus p) := by
      refine toSched_ofStatus hpid' fun b h hx => ?_
      obtain ⟨q, hq, -⟩ := hmem' b h hx
      exact hh h q hq
    refine ⟨_, raw, ?_, rfl, hto⟩
    rw [size_toSched hto]
    exact hsize _ List.mem_cons_self

theorem strip_setClient (pid : PID) (c : Client) :
    strip (s.setClient pid c) = (strip s).setClient pid { c with ops := [] } := by
  unfold strip System.setClient
  congr 1
  funext pid'
  by_cases hpid : pid' = pid
  · subst hpid; simp only [Function.update_self]
  · simp only [Function.update_of_ne hpid]

theorem setClient_setClient (pid : PID) (c c' : Client) :
    (s.setClient pid c).setClient pid c' = s.setClient pid c' := by
  simp only [System.setClient, Function.update_idem]

/-- `send` of an event about an XQueue, or of a new process. -/
theorem send_eq {e : Sched.Event} (hne : ∀ pid, e ≠ .schedulerTerminate pid)
    (hd : s.server.dead e.pid = false) :
    s.send (some e) = some { s with server := { s.server with chan := s.server.chan ++ [e] } } := by
  cases e with
  | schedulerTerminate pid => exact absurd rfl (hne pid)
  | _ => simp only [System.send, Server.step, hd]; rfl

theorem send_alive {e : Sched.Event} {p : System} (h : s.send (some e) = some p) :
    (∀ pid, e ≠ .schedulerTerminate pid) ∧ s.server.dead e.pid = false := by
  obtain ⟨sv, hsv, -⟩ := Option.map_eq_some_iff.1 h
  cases e with
  | schedulerTerminate pid => cases hsv
  | _ =>
    refine ⟨by rintro pid ⟨⟩, ?_⟩
    simp only [Server.step] at hsv
    split at hsv
    · cases hsv
    · rename_i hd; simpa using hd

theorem pid_rounded (e : Sched.Event) : (rounded e).pid = e.pid := by
  cases e <;> rfl

/-- The channels after a step of one client. -/
theorem carries_client_ops (hc : Carries text w s) {pid : PID} {c : Client} {ops : PID → List Bytes}
    (hself : List.Forall₂ CarriesOperation (ops pid) c.ops)
    (hne : ∀ pid', pid' ≠ pid → ops pid' = w.ops pid') (pid' : PID) :
    List.Forall₂ CarriesOperation (ops pid') ((s.setClient pid c).clients pid').ops := by
  by_cases hpid : pid' = pid
  · subst hpid
    rw [System.setClient_self]
    exact hself
  · rw [System.setClient_ne hpid, hne pid' hpid]
    exact hc.ops pid'

/-- A process connects. -/
theorem carries_connect (hc : Carries text w s) {pid : BitVec 32} {file : Bytes}
    {raw : Nat → UInt8} (h : WireSystem.step text self w ⟨.connect pid file, raw⟩ = some w') :
    ∃ s', s.step (.connect pid.toNat (text (agentCmdline file))) = some s' ∧
      Carries text w' s' := by
  simp only [WireSystem.step] at h
  split at h
  · cases h
  · rename_i hnot
    obtain rfl := Option.some.inj h
    rw [hc.procs, not_or] at hnot
    have hst : (s.clients pid.toNat).started = false := Bool.eq_false_iff.2 hnot.1
    have hd : s.server.dead pid.toNat = false := Bool.eq_false_iff.2 hnot.2
    have hsend : s.step (.connect pid.toNat (text (agentCmdline file))) = some
        { s.setClient pid.toNat { s.clients pid.toNat with started := true } with
          server := { s.server with
            chan := s.server.chan ++ [.processCreate pid.toNat (text (agentCmdline file))] } } := by
      simp only [System.step, hst]
      exact send_eq (by rintro p ⟨⟩) hd
    refine ⟨_, hsend, ⟨?_, ?_, ?_⟩⟩
    · rw [hc.procs]
      exact (strip_setClient pid.toNat { s.clients pid.toNat with started := true }).symm
    · refine List.rel_append hc.chan (.cons ⟨_, raw, raw, rfl, rfl, ?_⟩ .nil)
      rw [seen_agentCreate]
      rfl
    · exact carries_client_ops hc (hc.ops _) fun _ _ => rfl

/-- A client takes an operation. -/
theorem carries_takes (hc : Carries text w s) {pid : PID} {raw : Nat → UInt8}
    (hidle : (s.clients pid).executor = .idle)
    (h : WireSystem.step text self w ⟨.client pid .execute, raw⟩ = some w') :
    ∃ s', s.step (.client pid .execute) = some s' ∧ Carries text w' s' := by
  have htakes : w.takes pid .execute = true := by
    rw [WireSystem.takes, hc.procs]
    simp only [strip, hidle, decide_true, Bool.and_self]
  simp only [WireSystem.step, if_pos htakes] at h
  split at h
  · cases h
  · rename_i data rest hdata
    have hops := hc.ops pid
    rw [hdata] at hops
    cases hs : (s.clients pid).ops with
    | nil => rw [hs] at hops; cases hops
    | cons op ops =>
      rw [hs] at hops
      obtain ⟨hd, hrest⟩ := List.forall₂_cons.1 hops
      obtain ⟨o, m, hcopy, hop, hm⟩ := receive_operation hd raw
      simp only [hcopy, hop, hm, Option.bind_eq_bind, Option.bind_some, hc.procs] at h
      obtain ⟨p, hp, h⟩ := Option.bind_eq_some_iff.1 h
      obtain rfl := Option.some.inj h
      simp only [System.step, WireSystem.withOperation, System.setClient_self] at hp
      split at hp
      · cases hp
      · rename_i c e hstep
        obtain ⟨hstep', hnil, rfl⟩ := step_takes ops hidle hstep
        obtain rfl := Option.some.inj hp
        have hself : ({ s.clients pid with ops := op :: ops } : Client) = s.clients pid := by
          rw [← hs]
        rw [hself] at hstep'
        refine ⟨s.setClient pid { c with ops }, ?_, ⟨?_, hc.chan, ?_⟩⟩
        · simp only [System.step, hstep']
          rfl
        · have hc' : ({ c with ops := [] } : Client) = c := by rw [← hnil]
          rw [strip_setClient, hc']
          exact setClient_setClient pid _ c
        · refine carries_client_ops hc ?_ fun pid' hne => Function.update_of_ne hne ..
          change List.Forall₂ _ (Function.update w.ops pid rest pid) ops
          rw [Function.update_self]
          exact hrest

/-- Any other step of a client. -/
theorem carries_client (hc : Carries text w s) (hn : Narrow s)
    (hp : ∀ pid, (s.clients pid).pid = pid) {pid : PID} {act : ClientAct} {raw : Nat → UInt8}
    (hnot : ¬ (act = .execute ∧ (s.clients pid).executor = .idle)) (ht : TypedCall act)
    (h : WireSystem.step text self w ⟨.client pid act, raw⟩ = some w') :
    ∃ s', s.step (.client pid (asSentCall act)) = some s' ∧ Carries text w' s' := by
  have htakes : w.takes pid act = false := by
    rw [WireSystem.takes, hc.procs, Bool.and_eq_false_iff, decide_eq_false_iff_not,
      decide_eq_false_iff_not]
    exact not_and_or.1 hnot
  simp only [WireSystem.step, htakes] at h
  obtain ⟨p, hstep, rfl⟩ := Option.map_eq_some_iff.1 h
  rw [hc.procs] at hstep
  simp only [System.step, strip, step_withOps [] hnot] at hstep
  split at hstep
  · cases hstep
  · rename_i c₁ e hmap
    obtain ⟨⟨c, e'⟩, hcl, heq⟩ := Option.map_eq_some_iff.1 hmap
    obtain ⟨rfl, rfl⟩ := Prod.mk.inj heq
    have hround := step_asSentCall hcl
    have hops : c.ops = (s.clients pid).ops := by
      have hself := step_withOps (s.clients pid).ops hnot
      rw [show ({ s.clients pid with ops := (s.clients pid).ops } : Client) = s.clients pid from rfl,
        hcl] at hself
      have hc₁ : c = { c with ops := (s.clients pid).ops } := (Prod.mk.inj (Option.some.inj hself)).1
      exact (congrArg Client.ops hc₁ :)
    have hclient : ∀ pid', List.Forall₂ CarriesOperation (w.ops pid')
        ((s.setClient pid c).clients pid').ops :=
      carries_client_ops hc (by rw [hops]; exact hc.ops pid) fun _ _ => rfl
    -- the step leaves no operation in the channels of the clients
    have hnone : ∀ pid', ((System.setClient pid { c with ops := [] } (strip s)).clients pid').ops
        = [] := by
      intro pid'
      by_cases hpid : pid' = pid
      · subst hpid; rw [System.setClient_self]
      · rw [System.setClient_ne hpid]; rfl
    have hflush : ∀ {p : System}, p.clients =
        (System.setClient pid { c with ops := [] } (strip s)).clients → ∀ pid',
        List.Forall₂ CarriesOperation ((w.flush raw p).ops pid')
          ((s.setClient pid c).clients pid').ops := by
      intro p hclients pid'
      have hnil : (w.flush raw p).ops pid' = w.ops pid' := by
        simp only [WireSystem.flush, hclients, hnone, List.map_nil, List.append_nil]
      rw [hnil]
      exact hclient pid'
    have hstrip : strip (System.setClient pid { c with ops := [] } (strip s)) =
        strip (s.setClient pid c) := by
      rw [strip_setClient, strip_setClient]
      rfl
    cases e' with
    | none =>
      obtain rfl := Option.some.inj hstep
      refine ⟨s.setClient pid c, ?_, ⟨hstrip, ?_, hflush rfl⟩⟩
      · simp only [System.step, hround]
        rfl
      · change List.Forall₂ _ (w.chan ++ []) s.server.chan
        rw [List.append_nil]
        exact hc.chan
    | some e =>
      obtain ⟨hne, hd⟩ := send_alive hstep
      rw [System.send_cases hstep]
      have hfit : Fitting e := fitting_event (Client.step_cases hcl) ht
        (fun hst => (hp pid).symm ▸ hn.started pid hst) (fun h ho => hn.handle pid h (Or.inl ho))
        (hn.device pid)
      have hsend : s.step (.client pid (asSentCall act)) = some
          { s.setClient pid c with
            server := { s.server with chan := s.server.chan ++ [rounded e] } } := by
        simp only [System.step, hround]
        refine send_eq ?_ (by rw [pid_rounded]; exact hd)
        rintro pid' he
        cases e <;> first | exact hne _ he | cases he
      refine ⟨_, hsend, ⟨hstrip, ?_, hflush rfl⟩⟩
      exact List.rel_append hc.chan (carries_bytes hfit raw)

theorem admits_recv (sv : Server) (e : Sched.Event) (es : List Sched.Event) :
    System.admits { sv with chan := [e] } .recv = System.admits { sv with chan := e :: es } .recv := by
  simp only [System.admits]
  cases sv.recvWorker <;> cases e <;> rfl

theorem admits_beside {act : ServerAct} (hrecv : act ≠ .recv) (sv : Server) :
    System.admits sv act = none := by
  cases act with
  | recv => exact absurd rfl hrecv
  | _ => rfl

/-- `RecvWorker` takes an event. -/
theorem carries_recv (hc : Carries text w s) {raw : Nat → UInt8}
    (h : WireSystem.step text self w ⟨.server .recv, raw⟩ = some w') :
    ∃ s', s.step (.server .recv) = some s' ∧ Carries text w' s' := by
  have hchan := hc.chan
  simp only [WireSystem.step, reduceIte] at h
  split at h
  · cases h
  · rename_i data rest hdata
    rw [hdata] at hchan
    cases hs : s.server.chan with
    | nil => rw [hs] at hchan; cases hchan
    | cons e es =>
      rw [hs] at hchan
      obtain ⟨hd, hrest⟩ := List.forall₂_cons.1 hchan
      obtain ⟨o, m, hcopy, hev, hm⟩ := receive_event hd self raw
      simp only [hcopy, hev, hm, Option.bind_eq_bind, Option.bind_some, hc.procs] at h
      obtain ⟨p, hp, h⟩ := Option.bind_eq_some_iff.1 h
      obtain rfl := Option.some.inj h
      have hself : ({ s.server with chan := e :: es } : Server) = s.server := by rw [← hs]
      have hadm := admits_recv s.server e es
      rw [hself] at hadm
      simp only [System.step, WireSystem.withEvent, strip, ServerAct.runs, if_true, hadm] at hp ⊢
      obtain ⟨sv, hsv, rfl⟩ := Option.map_eq_some_iff.1 hp
      obtain ⟨hsv', hnil, hexec⟩ := server_recv es hsv
      rw [hself] at hsv'
      have hsv₀ : ({ sv with chan := [] } : Server) = sv := by rw [← hnil]
      simp only [hsv', Option.map_some, System.transmit_same hexec]
      refine ⟨_, rfl, ?_, hrest, hc.ops⟩
      simp only [strip, hsv₀]

theorem strip_transmit (ops : List SchedOperation) :
    strip (System.transmit ops s) = strip s := by
  unfold strip System.transmit
  congr 1
  funext pid
  dsimp only
  cases s.clientChans pid <;> rfl

/-- The operations for the processes that have a channel. -/
theorem transmit_ops (ops : List SchedOperation) (pid : PID) :
    ((System.transmit ops s).clients pid).ops =
      (s.clients pid).ops ++ if s.clientChans pid then ops.filter (·.pid = pid) else [] := by
  simp only [System.transmit]
  split
  · rfl
  · rw [List.append_nil]

/-- What a step passes to `Execute` are operations of the status it leaves. -/
theorem since_operations {sv sv' : Server} {act : ServerAct} (h : sv.step act = some sv')
    {op : SchedOperation} (hop : op ∈ sv.scheduler.since sv'.scheduler) :
    op ∈ LocalScheduler.operations sv'.scheduler.status := by
  have hsame : sv'.scheduler.executed = sv.scheduler.executed →
      op ∈ LocalScheduler.operations sv'.scheduler.status := by
    intro he
    rw [LocalScheduler.since, he, List.drop_length] at hop
    cases hop
  cases Server.step_cases h with
  | sched _ hs => exact (LocalScheduler.step_cases hs).since hop
  | _ => exact hsame rfl

/-- Any other step of the server. -/
theorem carries_server (hr : System.lts.Reachable s) (hc : Carries text w s) (hn : Narrow s)
    {act : ServerAct} (hrecv : act ≠ .recv) {raw : Nat → UInt8}
    (hin : InTypes w ⟨.server act, raw⟩)
    (h : WireSystem.step text self w ⟨.server act, raw⟩ = some w') :
    ∃ s', s.step (.server act) = some s' ∧ Carries text w' s' := by
  simp only [WireSystem.step, if_neg hrecv] at h
  obtain ⟨p, hp, rfl⟩ := Option.map_eq_some_iff.1 h
  have hsize := hin p hp
  rw [hc.procs] at hp hsize
  simp only [System.step, admits_beside hrecv] at hp ⊢
  split at hp
  · rename_i hrun
    rw [if_pos hrun]
    obtain ⟨sv₀, hsv₀, rfl⟩ := Option.map_eq_some_iff.1 hp
    have hbeside := server_beside hrun hrecv s.server []
    rw [show ({ s.server with chan := [] } : Server).step act = some sv₀ from hsv₀] at hbeside
    obtain ⟨sv, hsv, rfl⟩ := Option.map_eq_some_iff.1 hbeside.symm
    have hchan : sv.chan = s.server.chan := by
      have hself := server_beside hrun hrecv s.server s.server.chan
      rw [show ({ s.server with chan := s.server.chan } : Server) = s.server from rfl, hsv] at hself
      have hsv₁ : sv = { sv with chan := s.server.chan } := Option.some.inj hself
      exact (congrArg Server.chan hsv₁ :)
    have hstep : s.step (.server act) = some
        (System.transmit (s.server.scheduler.since sv.scheduler) { s with server := sv }) := by
      simp only [System.step, if_pos hrun, hsv, Option.map_some, admits_beside hrecv]
    rw [hsv, Option.map_some]
    have hr' := hr.step (show System.lts.step s (.server act) _ from hstep)
    have hn' := narrow_step (System.pid_reachable hr) hn (System.step_cases hstep) trivial
    have hlinked : sv.scheduler.status.Linked :=
      (LocalScheduler.inv_reachable (System.scheduler_reachable hr')).linked
    refine ⟨_, rfl, ⟨?_, ?_, ?_⟩⟩
    · change strip (System.transmit _ _) = _
      rw [strip_transmit, strip_transmit]
      rfl
    · change List.Forall₂ _ (w.chan ++ []) sv.chan
      rw [List.append_nil, hchan]
      exact hc.chan
    · intro pid
      have hmem : ∀ op ∈ (if s.clientChans pid then
          (s.server.scheduler.since sv.scheduler).filter (·.pid = pid) else []),
          op ∈ s.server.scheduler.since sv.scheduler := by
        intro op hop
        split at hop
        · exact List.mem_of_mem_filter hop
        · cases hop
      change List.Forall₂ _ (w.ops pid ++ ((System.transmit _ _).clients pid).ops.map _) _
      rw [transmit_ops, transmit_ops]
      refine List.rel_append (hc.ops pid) (carries_operations hlinked ?_ ?_ raw
        (fun op hop => since_operations hsv (hmem op hop)) fun op hop => hsize op (hmem op hop))
      · intro h q hq
        exact hn'.started q.pid ((System.connected_reachable hr').started_of_entry hq)
      · intro h q hq
        exact hn'.handle q.pid h (Or.inr (Or.inr ⟨q, hq, rfl⟩))
  · cases hp

end

/-! ## Runs -/

theorem carries_init (text : Bytes → String) (type : XPolicyType) :
    Carries text (WireSystem.init type) (System.init type) :=
  ⟨rfl, .nil, fun _ => .nil⟩

/-- A step on bytes is the step of `System`. -/
theorem carries_step {text : Bytes → String} {self : BitVec 32} {w w' : WireSystem} {s : System}
    {l : WireLabel} (hr : System.lts.Reachable s) (hc : Carries text w s) (hn : Narrow s)
    (hin : InTypes w l) (h : WireSystem.step text self w l = some w') :
    ∃ s', s.step (asSent text l) = some s' ∧ Carries text w' s' ∧ Narrow s' := by
  have hp := System.pid_reachable hr
  have hnarrow : ∀ {s' : System} {act : SystemAct}, s.step act = some s' → NarrowAct act →
      Narrow s' := fun hs hact => narrow_step hp hn (System.step_cases hs) hact
  obtain ⟨act, raw⟩ := l
  cases act with
  | connect pid file =>
    obtain ⟨s', hs, hc'⟩ := carries_connect hc h
    exact ⟨s', hs, hc', hnarrow hs pid.isLt⟩
  | client pid act =>
    by_cases hnot : act = .execute ∧ (s.clients pid).executor = .idle
    · obtain ⟨rfl, hidle⟩ := hnot
      obtain ⟨s', hs, hc'⟩ := carries_takes hc hidle h
      exact ⟨s', hs, hc', hnarrow hs trivial⟩
    · obtain ⟨s', hs, hc'⟩ := carries_client hc hn hp hnot hin h
      refine ⟨s', hs, hc', hnarrow hs ?_⟩
      cases act with
      | create addr d l t b => exact hin.1
      | _ => trivial
  | server act =>
    by_cases hrecv : act = .recv
    · subst hrecv
      obtain ⟨s', hs, hc'⟩ := carries_recv hc h
      exact ⟨s', hs, hc', hnarrow hs trivial⟩
    · obtain ⟨s', hs, hc'⟩ := carries_server hr hc hn hrecv hin h
      exact ⟨s', hs, hc', hnarrow hs trivial⟩

/-- **Refinement.** Every run on bytes whose arguments are of their types is,
label by label, a run of `System`, and ends with the bytes of its messages in
the channels; a receiver can make a message out of each of them. -/
theorem wire_refines (text : Bytes → String) (self : BitVec 32) (type : XPolicyType)
    {w : WireSystem} {ls : List WireLabel}
    (hrun : ((WireSystem.lts text self).restrict InTypes).Run (WireSystem.init type) ls w) :
    Readable self w ∧
    ∃ s, System.lts.Run (System.init type) (ls.map (asSent text)) s ∧ Carries text w s := by
  have hgo : ∀ {w₀ w : WireSystem} {ls : List WireLabel},
      ((WireSystem.lts text self).restrict InTypes).Run w₀ ls w → ∀ {s₀ : System},
      System.lts.Reachable s₀ → Carries text w₀ s₀ → Narrow s₀ →
      ∃ s, System.lts.Run s₀ (ls.map (asSent text)) s ∧ Carries text w s := by
    intro w₀ w ls hrun
    induction hrun with
    | nil => intro s₀ _ hc _; exact ⟨s₀, .nil s₀, hc⟩
    | cons hs _ ih =>
      intro s₀ hr hc hn
      obtain ⟨s₁, hstep, hc₁, hn₁⟩ := carries_step hr hc hn hs.2 hs.1
      obtain ⟨s, hrun, hcs⟩ := ih (hr.step (show System.lts.step s₀ _ s₁ from hstep)) hc₁ hn₁
      exact ⟨s, .cons hstep hrun, hcs⟩
  obtain ⟨s, hrun', hc⟩ :=
    hgo hrun (LTS.reachable_init ⟨type, rfl⟩) (carries_init text type) (narrow_init type)
  exact ⟨hc.readable, s, hrun', hc⟩

/-- A process connects and creates an XQueue, which the policy suspends. -/
def suspendRun : List WireLabel :=
  [.server (.sched .run), .connect 7 [97, 0], .client 7 (.create heapAddr 1 1 4 2), .client 7 .add,
   .server .recv, .server (.addWait false), .server .forward, .server .recv, .server .forward,
   .server (.sched (.wake 7)), .server (.sched (.update 7)), .server (.sched (.update 7)),
   .server (.sched (.update 7)), .server (.sched (.sched [.suspend (System.heapHandle 7)])),
   .client 7 .execute, .client 7 .execute, .client 7 .execute].map fun act => ⟨act, fun _ => 204⟩

theorem wire_refines_suspended : ∃ w s,
    System.lts.Run (System.init .kPolicyHighestPriorityFirst)
      (suspendRun.map (asSent fun _ => "")) s ∧ Carries (fun _ => "") w s ∧
    ((w.procs.clients 7).objs (System.heapHandle 7)).map (·.suspended) = some true := by
  have htrace : ((LTS.exec (LTS.guarded InTypes (WireSystem.step (fun _ => "") 1))
      (WireSystem.init .kPolicyHighestPriorityFirst) suspendRun).map fun w =>
        ((w.procs.clients 7).objs (System.heapHandle 7)).map (·.suspended)) =
      some (some true) := by decide +kernel
  obtain ⟨w, hw, hsus⟩ := Option.map_eq_some_iff.1 htrace
  obtain ⟨-, s, hrun, hc⟩ := wire_refines (fun _ => "") 1 .kPolicyHighestPriorityFirst
    (LTS.run_restrict_of_exec hw)
  exact ⟨w, s, hrun, hc, hsus⟩

end Xsched.Sched.Wire
