import Xsched.Sched.Handle

/-!
# The XQueues of a client process and the operations on them

A client process has XQueue objects, one at an address, and so by their
handles. An XQueue is registered in `XQueueManager` from the end of `Add` to
`Del`; `Add` holds the manager's lock while it constructs the object, which
announces itself to the scheduler, and the object lives on after `Del` until
the last reference to it is dropped.

The operations of the scheduler come through one channel. The executor makes
the calls that an operation lists one after the other: it takes a reference
from the manager, waiting for its lock, and calls `Resume` or `Suspend`.

**Decisions.** `decisions` are the calls still to be made, those of the
operation under way first. `finally h b ds` is what they leave of an XQueue
`h` that has `suspended_ = b` now. A step of the executor keeps it for every
XQueue that is registered, or about to be (`Client.execute_finally`): a
handle is skipped only when no such XQueue has it.
-/
namespace Xsched.Sched

namespace SchedOperation

/-- A copy of an operation out of the channel has the handles that its `size`
says. mirrors sched/src/protocol/operation.cpp:8-31 -/
def copyConstructor (op : SchedOperation) : SchedOperation :=
  { op with handles := op.handles.take ((op.size - kHandlesOffset) / 8) }

/-- The calls of `ExecuteSchedOperation`: `Resume` (`false`) for the first
`running_cnt` handles, `Suspend` (`true`) for the next `suspended_cnt`.
mirrors preempt/src/sched/executor.cpp:43-64 -/
def calls (op : SchedOperation) : List (XQueueHandle × Bool) :=
  op.running.map (·, false) ++ op.suspended.map (·, true)

theorem copyConstructor_ofStatus (p : ProcessStatus) :
    (ofStatus p).copyConstructor = ofStatus p := by
  have hlen : ((ofStatus p).size - kHandlesOffset) / 8 = (ofStatus p).handles.length := by
    simp only [ofStatus, List.length_append]; omega
  rw [copyConstructor, hlen, List.take_length]

/-- Every handle of a process is passed to the right call. -/
theorem calls_ofStatus (p : ProcessStatus) :
    (ofStatus p).calls = p.runningXqueues.elems.map (·, false) ++
      p.suspendedXqueues.elems.map (·, true) := by
  rw [calls, running_ofStatus, suspended_ofStatus]

end SchedOperation

/-! ## The client -/

/-- `xq_state_` of the command buffer. -/
inductive XQueueState where
  | idle
  | ready
  deriving DecidableEq

/-- An `AsyncXQueue`; `registered`: `XQueueManager` has it. -/
structure XQueueObj where
  registered : Bool
  suspended : Bool
  state : XQueueState
  device : XDevice
  level : XPreemptLevel
  threshold : Int
  batchSize : Int
  deriving DecidableEq

/-- Where the thread is that executes the operations. -/
inductive ExecPc where
  | idle
  /-- At `XQueueManager::Get` for the first of the calls. -/
  | calling (rest : List (XQueueHandle × Bool))
  /-- Holds a reference to XQueue `h`, at `Resume` or `Suspend`. -/
  | holding (h : XQueueHandle) (b : Bool) (rest : List (XQueueHandle × Bool))
  deriving DecidableEq

/-- `adding`: a thread is in `XQueueManager::Add`, with the lock held and the
object constructed; `started`: `SchedAgent` has a scheduler. -/
structure Client where
  pid : PID
  started : Bool
  objs : XQueueHandle → Option XQueueObj
  adding : Option XQueueHandle
  ops : List SchedOperation
  executor : ExecPc

inductive ClientAct where
  | create (addr : BitVec 64) (device : XDevice) (level : XPreemptLevel)
      (threshold batchSize : Int)
  | add
  | destroy (h : XQueueHandle)
  | free (h : XQueueHandle)
  | submit (h : XQueueHandle) (readyTime : TimePoint)
  | drain (h : XQueueHandle)
  | configure (h : XQueueHandle) (level : XPreemptLevel) (threshold batchSize : Int)
  | execute
  deriving DecidableEq

namespace Client

def init (pid : PID) : Client := ⟨pid, false, fun _ => none, none, [], .idle⟩

def setObj (h : XQueueHandle) (o : Option XQueueObj) (c : Client) : Client :=
  { c with objs := Function.update c.objs h o }

/-- `SchedAgent::SendEvent`: without a scheduler the event is dropped.
mirrors preempt/src/sched/agent.cpp:50-57 -/
def send (e : Event) (c : Client) : Option Event := if c.started then some e else none

/-- The steps of `ExecuteSchedOperation`. A reference is taken under the
manager's lock. mirrors preempt/src/sched/executor.cpp:43-64 and
preempt/src/xqueue/async_xqueue.cpp:94-159 -/
def execute (c : Client) : Option Client :=
  match c.executor with
  | .idle =>
    match c.ops with
    | [] => none
    | op :: ops => some { c with ops, executor := .calling op.copyConstructor.calls }
  | .calling [] => some { c with executor := .idle }
  | .calling ((h, b) :: rest) =>
    if c.adding.isSome then none
    else
      match c.objs h with
      | some o =>
        if o.registered then some { c with executor := .holding h b rest }
        else some { c with executor := .calling rest }
      | none => some { c with executor := .calling rest }
  | .holding h b rest =>
    some { c.setObj h ((c.objs h).map fun o => { o with suspended := b }) with
      executor := .calling rest }

/-- Whether the executor holds a reference to the XQueue. -/
def holds (h : XQueueHandle) (c : Client) : Bool :=
  match c.executor with
  | .holding h' _ _ => h' = h
  | _ => false

/-- A step of the client, with the event it sends.
mirrors preempt/src/xqueue/async_xqueue.cpp:13-45,161-216,
preempt/src/xqueue/xqueue.cpp:13-73 and
preempt/src/xqueue/command_buffer.cpp:20-93 -/
def step (c : Client) : ClientAct → Option (Client × Option Event)
  | .create addr device level threshold batchSize =>
    let h := (kHandle addr c.pid).toNat
    match c.adding, c.objs h with
    | none, none =>
      some ({ c.setObj h (some ⟨false, false, .idle, device, level, threshold, batchSize⟩) with
          adding := some h },
        c.send (.xQueueCreate c.pid h device level threshold batchSize))
    | _, _ => none
  | .add =>
    match c.adding with
    | some h => some ({ c.setObj h ((c.objs h).map fun o => { o with registered := true }) with
        adding := none }, none)
    | none => none
  -- the `Resume` of `Del` follows when the XQueue is not registered any more
  | .destroy h =>
    match c.adding, c.objs h with
    | none, some o =>
      if o.registered then
        some (c.setObj h (some { o with registered := false, suspended := false }), none)
      else none
    | _, _ => none
  | .free h =>
    match c.objs h with
    | some o =>
      if o.registered || c.adding = some h || c.holds h then none
      else some (c.setObj h none, c.send (.xQueueDestroy c.pid h))
    | none => none
  | .submit h readyTime =>
    match c.objs h with
    | some o =>
      match o.state with
      | .idle => some (c.setObj h (some { o with state := .ready }),
          c.send (.xQueueReady c.pid h readyTime))
      | .ready => some (c, none)
    | none => none
  | .drain h =>
    match c.objs h with
    | some o =>
      match o.state with
      | .ready => some (c.setObj h (some { o with state := .idle }),
          c.send (.xQueueIdle c.pid h))
      | .idle => none
    | none => none
  | .configure h level threshold batchSize =>
    match c.objs h with
    | some o => some (c.setObj h (some { o with level, threshold, batchSize }),
        c.send (.xQueueConfigUpdate c.pid h o.device level threshold batchSize))
    | none => none
  | .execute => c.execute.map fun c => (c, none)

/-! ## What a step can do -/

inductive StepCases (c : Client) : ClientAct → Client → Option Event → Prop
  | create {addr : BitVec 64} {device : XDevice} {level : XPreemptLevel}
      {threshold batchSize : Int} {h : XQueueHandle} (hh : h = (kHandle addr c.pid).toNat)
      (hadd : c.adding = none) (hnone : c.objs h = none) :
    StepCases c (.create addr device level threshold batchSize)
      { c.setObj h (some ⟨false, false, .idle, device, level, threshold, batchSize⟩) with
        adding := some h }
      (c.send (.xQueueCreate c.pid h device level threshold batchSize))
  | add {h : XQueueHandle} (hadd : c.adding = some h) :
    StepCases c .add { c.setObj h ((c.objs h).map fun o => { o with registered := true }) with
      adding := none } none
  | destroy {h : XQueueHandle} {o : XQueueObj} (hadd : c.adding = none) (ho : c.objs h = some o) :
    StepCases c (.destroy h)
      (c.setObj h (some { o with registered := false, suspended := false })) none
  | free {h : XQueueHandle} {o : XQueueObj} (ho : c.objs h = some o) (hreg : o.registered = false)
      (hadd : c.adding ≠ some h) (hholds : c.holds h = false) :
    StepCases c (.free h) (c.setObj h none) (c.send (.xQueueDestroy c.pid h))
  | submit {h : XQueueHandle} {o : XQueueObj} {readyTime : TimePoint} (ho : c.objs h = some o)
      (hidle : o.state = .idle) :
    StepCases c (.submit h readyTime) (c.setObj h (some { o with state := .ready }))
      (c.send (.xQueueReady c.pid h readyTime))
  | submitted {h : XQueueHandle} {readyTime : TimePoint} :
    StepCases c (.submit h readyTime) c none
  | drain {h : XQueueHandle} {o : XQueueObj} (ho : c.objs h = some o) (hready : o.state = .ready) :
    StepCases c (.drain h) (c.setObj h (some { o with state := .idle }))
      (c.send (.xQueueIdle c.pid h))
  | configure {h : XQueueHandle} {o : XQueueObj} {level : XPreemptLevel}
      {threshold batchSize : Int} (ho : c.objs h = some o) :
    StepCases c (.configure h level threshold batchSize)
      (c.setObj h (some { o with level, threshold, batchSize }))
      (c.send (.xQueueConfigUpdate c.pid h o.device level threshold batchSize))
  | execute {c' : Client} (he : c.execute = some c') : StepCases c .execute c' none

theorem step_cases {c c' : Client} {act : ClientAct} {e : Option Event}
    (h : c.step act = some (c', e)) : StepCases c act c' e := by
  cases act with
  | create addr device level threshold batchSize =>
    simp only [step] at h
    split at h
    · rename_i hadd hnone; cases h; exact .create rfl hadd hnone
    · cases h
  | add =>
    simp only [step] at h
    split at h
    · rename_i hadd; cases h; exact .add hadd
    · cases h
  | destroy handle =>
    simp only [step] at h
    split at h
    · rename_i hadd ho
      split at h
      · cases h; exact .destroy hadd ho
      · cases h
    · cases h
  | free handle =>
    simp only [step] at h
    split at h
    · rename_i o ho
      split at h
      · cases h
      · rename_i hfree
        simp only [Bool.or_eq_true, decide_eq_true_eq, not_or, Bool.not_eq_true] at hfree
        cases h
        exact .free ho hfree.1.1 hfree.1.2 hfree.2
    · cases h
  | submit handle readyTime =>
    simp only [step] at h
    split at h
    · rename_i o ho
      split at h
      · rename_i hidle; cases h; exact .submit ho hidle
      · cases h; exact .submitted
    · cases h
  | drain handle =>
    simp only [step] at h
    split at h
    · rename_i o ho
      split at h
      · rename_i hready; cases h; exact .drain ho hready
      · cases h
    · cases h
  | configure handle level threshold batchSize =>
    simp only [step] at h
    split at h
    · rename_i o ho; cases h; exact .configure ho
    · cases h
  | execute =>
    obtain ⟨c₁, he, heq⟩ := Option.map_eq_some_iff.1 h
    cases heq; exact .execute he

section
variable {c c' : Client} {h h' : XQueueHandle}

@[simp] theorem setObj_pid (o : Option XQueueObj) : (c.setObj h o).pid = c.pid := rfl

@[simp] theorem setObj_started (o : Option XQueueObj) : (c.setObj h o).started = c.started := rfl

@[simp] theorem setObj_adding (o : Option XQueueObj) : (c.setObj h o).adding = c.adding := rfl

@[simp] theorem setObj_ops (o : Option XQueueObj) : (c.setObj h o).ops = c.ops := rfl

@[simp] theorem setObj_executor (o : Option XQueueObj) :
    (c.setObj h o).executor = c.executor := rfl

@[simp] theorem setObj_objs_self (o : Option XQueueObj) : (c.setObj h o).objs h = o :=
  Function.update_self ..

theorem setObj_objs_ne (hne : h' ≠ h) (o : Option XQueueObj) :
    (c.setObj h o).objs h' = c.objs h' := Function.update_of_ne hne ..

end

/-! ## What the operations under way leave -/

/-- The XQueue is registered, or is about to be. -/
def Live (c : Client) (h : XQueueHandle) (o : XQueueObj) : Prop :=
  c.objs h = some o ∧ (o.registered = true ∨ c.adding = some h)

end Client

def ExecPc.rest : ExecPc → List (XQueueHandle × Bool)
  | .idle => []
  | .calling rest => rest
  | .holding h b rest => (h, b) :: rest

/-- The calls that are still to be made. -/
def Client.decisions (c : Client) : List (XQueueHandle × Bool) :=
  c.executor.rest ++ c.ops.flatMap fun op => op.copyConstructor.calls

/-- What the calls leave in `suspended_` of `h`, with `b` before. -/
def outcome (h : XQueueHandle) (b : Bool) (ds : List (XQueueHandle × Bool)) : Bool :=
  ds.foldl (fun b d => if d.1 = h then d.2 else b) b

section
variable {h : XQueueHandle} {b : Bool}

theorem outcome_append (ds ds' : List (XQueueHandle × Bool)) :
    outcome h b (ds ++ ds') = outcome h (outcome h b ds) ds' := List.foldl_append

/-- Calls for other XQueues change nothing. -/
theorem outcome_others {ds : List (XQueueHandle × Bool)} (hds : ∀ d ∈ ds, d.1 ≠ h) :
    outcome h b ds = b := by
  induction ds with
  | nil => rfl
  | cons d ds ih =>
    have hd : d.1 ≠ h := hds d List.mem_cons_self
    change outcome h (if d.1 = h then d.2 else b) ds = b
    rw [if_neg hd]
    exact ih fun d' hd' => hds d' (List.mem_cons_of_mem _ hd')

/-- Calls that agree on an XQueue leave it so, if there is one for it. -/
theorem outcome_agree {ds : List (XQueueHandle × Bool)} {b' : Bool}
    (hds : ∀ d ∈ ds, d.1 = h → d.2 = b') (hany : b = b' ∨ ∃ d ∈ ds, d.1 = h) :
    outcome h b ds = b' := by
  induction ds generalizing b with
  | nil =>
    rcases hany with rfl | ⟨d, hd, -⟩
    · rfl
    · cases hd
  | cons d ds ih =>
    change outcome h (if d.1 = h then d.2 else b) ds = b'
    apply ih
    · exact fun d' hd' => hds d' (List.mem_cons_of_mem _ hd')
    · by_cases hd : d.1 = h
      · rw [if_pos hd]; exact Or.inl (hds d List.mem_cons_self hd)
      · rw [if_neg hd]
        rcases hany with rfl | ⟨d', hd', hh⟩
        · exact Or.inl rfl
        · rcases List.mem_cons.1 hd' with rfl | hd'
          · exact absurd hh hd
          · exact Or.inr ⟨d', hd', hh⟩

/-- A round of operations for one process, all of the same sets, leaves an
XQueue in the set it is listed in. -/
theorem outcome_round {p : ProcessStatus} {ops : List SchedOperation}
    (hops : ∀ op ∈ ops, op = .ofStatus p) (hne : ops ≠ []) {b' : Bool}
    (hin : h ∈ p.xqueues b') (hout : h ∉ p.xqueues (!b')) :
    outcome h b (ops.flatMap fun op => op.copyConstructor.calls) = b' := by
  have hcalls : ∀ op ∈ ops, op.copyConstructor.calls =
      (p.xqueues false).elems.map (·, false) ++ (p.xqueues true).elems.map (·, true) := by
    intro op hop
    rw [hops op hop, SchedOperation.copyConstructor_ofStatus, SchedOperation.calls_ofStatus]
    rfl
  apply outcome_agree
  · intro d hd hh
    obtain ⟨op, hop, hd⟩ := List.mem_flatMap.1 hd
    rw [hcalls op hop, List.mem_append, List.mem_map, List.mem_map] at hd
    rcases hd with ⟨h', hm, rfl⟩ | ⟨h', hm, rfl⟩
    · cases b' with
      | false => rfl
      | true => subst hh; exact absurd hm hout
    · cases b' with
      | true => rfl
      | false => subst hh; exact absurd hm hout
  · obtain ⟨op, hop⟩ := List.exists_mem_of_ne_nil ops hne
    refine Or.inr ⟨(h, b'), List.mem_flatMap.2 ⟨op, hop, ?_⟩, rfl⟩
    rw [hcalls op hop, List.mem_append, List.mem_map, List.mem_map]
    cases b' with
    | false => exact Or.inl ⟨h, hin, rfl⟩
    | true => exact Or.inr ⟨h, hin, rfl⟩

end

namespace Client
section
variable {c c' : Client} {h : XQueueHandle}

/-- A step of the executor makes the first of the calls, or passes over a
handle that is nobody's. -/
theorem outcome_execute (he : c.execute = some c') {o' : XQueueObj} (hl : c'.Live h o') :
    ∃ o, c.Live h o ∧ outcome h o'.suspended c'.decisions = outcome h o.suspended c.decisions := by
  unfold execute at he
  split at he
  · rename_i hpc
    split at he
    · cases he
    · rename_i op ops hops
      cases he
      refine ⟨o', hl, ?_⟩
      simp only [decisions, hpc, hops, ExecPc.rest, List.flatMap_cons, List.nil_append]
  · rename_i hpc
    cases he
    refine ⟨o', hl, ?_⟩
    simp only [decisions, hpc, ExecPc.rest]
  · rename_i h₁ b rest hpc
    split at he
    · cases he
    · rename_i hadd
      have hskip : ∀ o, c.objs h = some o → o.registered = true → h₁ ≠ h →
          outcome h o.suspended (rest ++ c.ops.flatMap fun op => op.copyConstructor.calls) =
          outcome h o.suspended c.decisions := by
        intro o ho hreg hne
        simp only [decisions, hpc, ExecPc.rest, List.cons_append]
        simp only [outcome, List.foldl_cons, if_neg hne]
      have hlive : ∀ o, c.objs h = some o → (o.registered = true ∨ c.adding = some h) →
          o.registered = true := by
        rintro o ho (hreg | hadd')
        · exact hreg
        · rw [hadd'] at hadd; exact absurd rfl hadd
      split at he
      · rename_i o₁ ho₁
        split at he
        · cases he
          refine ⟨o', hl, ?_⟩
          simp only [decisions, hpc, ExecPc.rest]
        · rename_i hreg
          cases he
          obtain ⟨ho, hreg'⟩ := hl
          refine ⟨o', ⟨ho, hreg'⟩, ?_⟩
          refine hskip o' ho (hlive o' ho hreg') ?_
          rintro rfl
          obtain rfl : o₁ = o' := Option.some.inj (ho₁.symm.trans ho)
          exact hreg (hlive o₁ ho hreg')
      · rename_i hnone
        cases he
        obtain ⟨ho, hreg'⟩ := hl
        refine ⟨o', ⟨ho, hreg'⟩, ?_⟩
        refine hskip o' ho (hlive o' ho hreg') ?_
        rintro rfl
        cases hnone.symm.trans ho
  · rename_i h₁ b rest hpc
    cases he
    obtain ⟨ho, hreg⟩ := hl
    by_cases hh : h = h₁
    · subst hh
      simp only [setObj_objs_self] at ho
      obtain ⟨o, ho₁, rfl⟩ := Option.map_eq_some_iff.1 ho
      refine ⟨o, ⟨ho₁, hreg⟩, ?_⟩
      simp only [decisions, hpc, ExecPc.rest, setObj_ops, List.cons_append]
      simp only [outcome, List.foldl_cons, if_pos]
    · simp only [setObj_objs_ne hh] at ho
      refine ⟨o', ⟨ho, hreg⟩, ?_⟩
      simp only [decisions, hpc, ExecPc.rest, setObj_ops, List.cons_append]
      simp only [outcome, List.foldl_cons, if_neg (Ne.symm hh)]

/-! ## What a step of the client does to its XQueues -/

/-- The handle of the XQueue that the step creates. -/
def creates (c : Client) : ClientAct → Option XQueueHandle
  | .create addr _ _ _ _ => some (kHandle addr c.pid).toNat
  | _ => none

theorem send_eq_some {e e' : Event} : c.send e = some e' ↔ c.started = true ∧ e = e' := by
  unfold send
  split
  · rename_i hs; simp [hs]
  · rename_i hs; simp [hs]

/-- An event is about an XQueue that the client has. -/
theorem StepCases.event {act : ClientAct} {e : Event} (hc : StepCases c act c' (some e)) :
    c.started = true ∧ e.pid = c.pid ∧
      ∃ h, e.xqueue = some h ∧ ((c.objs h).isSome = true ∨ c.creates act = some h) := by
  generalize hev : some e = ev at hc
  cases hc with
  | create hh hadd hnone =>
    obtain ⟨hs, rfl⟩ := send_eq_some.1 hev.symm
    exact ⟨hs, rfl, _, rfl, Or.inr (by rw [hh]; rfl)⟩
  | free ho | submit ho | drain ho | configure ho =>
    obtain ⟨hs, rfl⟩ := send_eq_some.1 hev.symm
    exact ⟨hs, rfl, _, rfl, Or.inl (by rw [ho]; rfl)⟩
  | add | destroy | submitted | execute => cases hev

theorem execute_objs (he : c.execute = some c') :
    (c'.objs h).isSome = (c.objs h).isSome ∧ c'.adding = c.adding ∧ c'.pid = c.pid ∧
      c'.started = c.started := by
  unfold execute at he
  split at he
  · split at he
    · cases he
    · cases he; exact ⟨rfl, rfl, rfl, rfl⟩
  · cases he; exact ⟨rfl, rfl, rfl, rfl⟩
  · split at he
    · cases he
    · split at he
      · split at he
        · cases he; exact ⟨rfl, rfl, rfl, rfl⟩
        · cases he; exact ⟨rfl, rfl, rfl, rfl⟩
      · cases he; exact ⟨rfl, rfl, rfl, rfl⟩
  · rename_i h₁ b rest hpc
    cases he
    refine ⟨?_, rfl, rfl, rfl⟩
    by_cases hh : h = h₁
    · subst hh; simp
    · simp only [setObj_objs_ne hh]

/-- A client keeps its pid and its scheduler. -/
theorem StepCases.frame {act : ClientAct} {e : Option Event} (hc : StepCases c act c' e) :
    c'.pid = c.pid ∧ c'.started = c.started := by
  cases hc with
  | execute he => exact (execute_objs (h := 0) he).2.2
  | _ => exact ⟨rfl, rfl⟩

/-- An executor with nothing to do stays so. -/
theorem StepCases.idle {act : ClientAct} {e : Option Event} (hc : StepCases c act c' e)
    (hops : c.ops = []) (hexec : c.executor = .idle) : c'.ops = [] ∧ c'.executor = .idle := by
  cases hc with
  | execute he =>
    unfold Client.execute at he
    simp only [hops, hexec] at he
    cases he
  | _ => exact ⟨hops, hexec⟩

/-- An object is there after a step only if it was, or is created. -/
theorem StepCases.objs {act : ClientAct} {e : Option Event} (hc : StepCases c act c' e)
    (hs : (c'.objs h).isSome = true) : (c.objs h).isSome = true ∨ c.creates act = some h := by
  have hset : ∀ {h₁ : XQueueHandle} {o₁ : XQueueObj} {x : Option XQueueObj},
      c.objs h₁ = some o₁ → ((c.setObj h₁ x).objs h).isSome = true →
      (c.objs h).isSome = true := by
    intro h₁ o₁ x ho hx
    by_cases hh : h = h₁
    · rw [hh, ho]; rfl
    · rwa [setObj_objs_ne hh] at hx
  cases hc with
  | @create _ _ _ _ _ h₁ hh hadd hnone =>
    by_cases hh' : h = h₁
    · subst hh'; exact Or.inr (by rw [hh]; rfl)
    · exact Or.inl (by rwa [setObj_objs_ne hh'] at hs)
  | @add h₁ hadd =>
    refine Or.inl ?_
    by_cases hh : h = h₁
    · subst hh; simpa using hs
    · rwa [setObj_objs_ne hh] at hs
  | destroy _ ho | free ho | submit ho | drain ho | configure ho => exact Or.inl (hset ho hs)
  | submitted => exact Or.inl hs
  | execute he => exact Or.inl (by rwa [(execute_objs he).1] at hs)

/-- An XQueue that keeps what the scheduler decides about it. -/
theorem live_setObj {h₁ : XQueueHandle} {o₁ o₂ o' : XQueueObj} (ho : c.objs h₁ = some o₁)
    (hl : (c.setObj h₁ (some o₂)).Live h o') (hreg : o₂.registered = o₁.registered)
    (hsus : o₂.suspended = o₁.suspended) :
    ∃ o, c.Live h o ∧ outcome h o'.suspended (c.setObj h₁ (some o₂)).decisions =
      outcome h o.suspended c.decisions := by
  obtain ⟨ho', hreg'⟩ := hl
  by_cases hh : h = h₁
  · subst hh
    simp only [setObj_objs_self, Option.some.injEq] at ho'
    subst ho'
    exact ⟨o₁, ⟨ho, by rwa [← hreg]⟩, by rw [hsus]; rfl⟩
  · rw [setObj_objs_ne hh] at ho'
    exact ⟨o', ⟨ho', hreg'⟩, rfl⟩

/-- Whatever the client does, the calls that are still to be made leave an
XQueue as they did before, unless it is new; then the client has announced it. -/
theorem StepCases.live {act : ClientAct} {e : Option Event} (hc : StepCases c act c' e)
    {o' : XQueueObj} (hl : c'.Live h o') :
    (∃ o, c.Live h o ∧
      outcome h o'.suspended c'.decisions = outcome h o.suspended c.decisions) ∨
    c.creates act = some h ∧
      (c.started = true → ∃ e₁, e = some e₁ ∧ e₁.pid = c.pid ∧ e₁.xqueue = some h) := by
  cases hc with
  | @create _ _ _ _ _ h₁ hh hadd hnone =>
    obtain ⟨ho', hreg'⟩ := hl
    by_cases hh' : h = h₁
    · subst hh'
      exact Or.inr ⟨by rw [hh]; rfl, fun hs => ⟨_, send_eq_some.2 ⟨hs, rfl⟩, rfl, rfl⟩⟩
    · refine Or.inl ⟨o', ⟨by rwa [setObj_objs_ne hh'] at ho', Or.inl ?_⟩, rfl⟩
      rcases hreg' with hreg | hadd'
      · exact hreg
      · exact absurd (Option.some.inj hadd').symm hh'
  | @add h₁ hadd =>
    obtain ⟨ho', hreg'⟩ := hl
    refine Or.inl ?_
    by_cases hh : h = h₁
    · subst hh
      simp only [setObj_objs_self] at ho'
      obtain ⟨o, ho, rfl⟩ := Option.map_eq_some_iff.1 ho'
      exact ⟨o, ⟨ho, Or.inr hadd⟩, rfl⟩
    · simp only [setObj_objs_ne hh] at ho'
      exact ⟨o', ⟨ho', hreg'.imp_right nofun⟩, rfl⟩
  | @destroy h₁ o₁ hadd ho =>
    obtain ⟨ho', hreg'⟩ := hl
    refine Or.inl ?_
    by_cases hh : h = h₁
    · subst hh
      simp only [setObj_objs_self, Option.some.injEq] at ho'
      subst ho'
      rcases hreg' with hreg | hadd'
      · cases hreg
      · rw [setObj_adding, hadd] at hadd'; cases hadd'
    · rw [setObj_objs_ne hh] at ho'
      exact ⟨o', ⟨ho', hreg'⟩, rfl⟩
  | @free h₁ o₁ ho hreg hadd hholds =>
    obtain ⟨ho', hreg'⟩ := hl
    refine Or.inl ?_
    by_cases hh : h = h₁
    · subst hh; simp only [setObj_objs_self] at ho'; cases ho'
    · rw [setObj_objs_ne hh] at ho'
      exact ⟨o', ⟨ho', hreg'⟩, rfl⟩
  | submit ho | drain ho | configure ho => exact Or.inl (live_setObj ho hl rfl rfl)
  | submitted => exact Or.inl ⟨o', hl, rfl⟩
  | execute he => exact Or.inl (outcome_execute he hl)

end
end Client
end Xsched.Sched
