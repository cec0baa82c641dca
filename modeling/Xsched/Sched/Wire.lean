import Mathlib.Data.List.TakeWhile
import Xsched.Core.Layout

/-!
# Events on the wire

A process sends an event as the bytes of the struct in it (`Data`, `Size`); the
server finds the class of the event by its type and copies the struct out of
the buffer (`Event::CopyConstructor`). An `EventHint` has the struct of its hint
behind a header with the size of both, and the hint is copied out of it once
more (`GetHint`).

The numbers are bit vectors, as wide as the members of the source.

**What gets lost.** `strncpy` ends the command line at a zero byte and at 255
bytes, and a ready time is sent in microseconds. `seen` is what the server
sees of an event; of all others it is the event itself. The command line that
the agent sends fits (`seen_agentCreate`).

**Results.**
* `hint_round_trip`: a hint of each class, out of its own copy.
* `event_round_trip`: an event of each class, with its hint, whatever is in the
  padding of the two structs and behind them in the channel's buffer. The
  pointer of a query is only for the process that made it (`Accessible`).
* `cmdline_round_trip`: the server has the command line that the agent made
  of `/proc/self/cmdline`, of at most 255 bytes.
-/
namespace Xsched.Sched.Wire
open Layout

/-! ## Members -/

def u32 (v : BitVec 32) : Bytes := encode 4 v
def u64 (v : BitVec 64) : Bytes := encode 8 v
def toU32 (b : Bytes) : BitVec 32 := decode 4 b
def toU64 (b : Bytes) : BitVec 64 := decode 8 b

@[simp] theorem length_u32 (v : BitVec 32) : (u32 v).length = 4 := length_encode 4 v
@[simp] theorem length_u64 (v : BitVec 64) : (u64 v).length = 8 := length_encode 8 v
@[simp] theorem toU32_u32 (v : BitVec 32) : toU32 (u32 v) = v := decode_encode 4 v
@[simp] theorem toU64_u64 (v : BitVec 64) : toU64 (u64 v) = v := decode_encode 8 v

/-- `int32_t`, and an `enum`. -/
def int32 : Member := scalar 4
/-- `uint64_t`, `int64_t`, `double` and pointers. -/
def int64 : Member := scalar 8

/-! ## Hints -/

/-- mirrors sched/include/xsched/sched/protocol/hint.h:16-30 -/
inductive HintType where
  | kHintTypePriority
  | kHintTypeUtilization
  | kHintTypeTimeslice
  | kHintTypeDeadline
  | kHintTypeKDeadline
  | kHintTypeLaxity
  | kHintTypeWindowActive
  | kHintTypeMemoryIntensity
  deriving DecidableEq

namespace HintType

def code : HintType → BitVec 32
  | kHintTypePriority => 1
  | kHintTypeUtilization => 2
  | kHintTypeTimeslice => 3
  | kHintTypeDeadline => 4
  | kHintTypeKDeadline => 5
  | kHintTypeLaxity => 6
  | kHintTypeWindowActive => 7
  | kHintTypeMemoryIntensity => 8

/-- The `switch`; `none`: `unknown hint type`. -/
def ofCode (code : BitVec 32) : Option HintType :=
  match code.toNat with
  | 1 => some kHintTypePriority
  | 2 => some kHintTypeUtilization
  | 3 => some kHintTypeTimeslice
  | 4 => some kHintTypeDeadline
  | 5 => some kHintTypeKDeadline
  | 6 => some kHintTypeLaxity
  | 7 => some kHintTypeWindowActive
  | 8 => some kHintTypeMemoryIntensity
  | _ => none

@[simp] theorem ofCode_code (type : HintType) : ofCode type.code = some type := by
  cases type <;> rfl

/-- The members of `HintData` behind `meta`.
mirrors sched/include/xsched/sched/protocol/hint.h -/
def members : HintType → List Member
  | kHintTypePriority => [int64, int32]
  | kHintTypeUtilization => [int32, int64, int32]
  | kHintTypeTimeslice => [int64]
  | kHintTypeDeadline => [int64, int64]
  | kHintTypeKDeadline => [int64]
  | kHintTypeLaxity => [int64, int64, int32, int32]
  | kHintTypeWindowActive => [int32, int64]
  | kHintTypeMemoryIntensity => [int64, int64]

/-- The `HintData` of the class. -/
def hintData (type : HintType) : List Member := int32 :: type.members

end HintType

/-- What a hint says; `intensity` is the bits of a `double`. -/
inductive Hint where
  | priority (handle : BitVec 64) (prio : BitVec 32)
  | utilization (pid : BitVec 32) (handle : BitVec 64) (util : BitVec 32)
  | timeslice (ts : BitVec 64)
  | deadline (handle ddl : BitVec 64)
  | kDeadline (k : BitVec 64)
  | laxity (handle lax : BitVec 64) (laxPrio critPrio : BitVec 32)
  | windowActive (pid : BitVec 32) (display : BitVec 64)
  | memoryIntensity (device intensity : BitVec 64)
  deriving DecidableEq

/-- An object of one of the classes of hints. -/
structure HintObj where
  type : HintType
  data : Bytes
  deriving DecidableEq

namespace Hint

def type : Hint → HintType
  | priority _ _ => .kHintTypePriority
  | utilization _ _ _ => .kHintTypeUtilization
  | timeslice _ => .kHintTypeTimeslice
  | deadline _ _ => .kHintTypeDeadline
  | kDeadline _ => .kHintTypeKDeadline
  | laxity _ _ _ _ => .kHintTypeLaxity
  | windowActive _ _ => .kHintTypeWindowActive
  | memoryIntensity _ _ => .kHintTypeMemoryIntensity

def values : Hint → List Bytes
  | priority handle prio => [u64 handle, u32 prio]
  | utilization pid handle util => [u32 pid, u64 handle, u32 util]
  | timeslice ts => [u64 ts]
  | deadline handle ddl => [u64 handle, u64 ddl]
  | kDeadline k => [u64 k]
  | laxity handle lax laxPrio critPrio => [u64 handle, u64 lax, u32 laxPrio, u32 critPrio]
  | windowActive pid display => [u32 pid, u64 display]
  | memoryIntensity device intensity => [u64 device, u64 intensity]

/-- What the accessors of the class return. -/
def ofValues : HintType → List Bytes → Option Hint
  | .kHintTypePriority, [handle, prio] => some (priority (toU64 handle) (toU32 prio))
  | .kHintTypeUtilization, [pid, handle, util] =>
    some (utilization (toU32 pid) (toU64 handle) (toU32 util))
  | .kHintTypeTimeslice, [ts] => some (timeslice (toU64 ts))
  | .kHintTypeDeadline, [handle, ddl] => some (deadline (toU64 handle) (toU64 ddl))
  | .kHintTypeKDeadline, [k] => some (kDeadline (toU64 k))
  | .kHintTypeLaxity, [handle, lax, laxPrio, critPrio] =>
    some (laxity (toU64 handle) (toU64 lax) (toU32 laxPrio) (toU32 critPrio))
  | .kHintTypeWindowActive, [pid, display] => some (windowActive (toU32 pid) (toU64 display))
  | .kHintTypeMemoryIntensity, [device, intensity] =>
    some (memoryIntensity (toU64 device) (toU64 intensity))
  | _, _ => none

/-- The constructor of the class. -/
def make (raw : Nat → UInt8) (h : Hint) : HintObj :=
  ⟨h.type, object h.type.hintData (u32 h.type.code :: h.values) raw⟩

/-- mirrors sched/src/protocol/hint.cpp:8-36 -/
def copyConstructor (raw : Nat → UInt8) (data : Bytes) : Option HintObj := do
  let type ← HintType.ofCode (toU32 (← member [int32] 0 data))
  return ⟨type, ← copy type.hintData raw data⟩

end Hint

namespace HintObj

/-- The accessors. -/
def hint (o : HintObj) : Option Hint := do
  Hint.ofValues o.type (← read o.type.hintData 0 o.data).tail

end HintObj

namespace Hint

@[simp] theorem ofValues_values (h : Hint) : ofValues h.type h.values = some h := by
  cases h <;> simp [type, values, ofValues]

theorem fits (h : Hint) : Fits h.type.hintData (u32 h.type.code :: h.values) := by
  cases h <;> simp [Fits, HintType.hintData, HintType.members, type, values, int32, int64, scalar]

theorem make_hint (raw : Nat → UInt8) (h : Hint) : (h.make raw).hint = some h := by
  rw [HintObj.hint]
  change (read h.type.hintData 0 (object _ _ raw)).bind _ = _
  rw [read_object h.fits raw]
  exact h.ofValues_values

/-- The type is found in front of the object. -/
theorem type_make (raw : Nat → UInt8) (h : Hint) (rest : Bytes) :
    member [int32] 0 ((h.make raw).data ++ rest) = some (u32 h.type.code) :=
  member_of_read (i := 0) (read_append (read_object h.fits raw) rest) (Nat.succ_pos _)

/-- The copy is the same hint. -/
theorem copyConstructor_make (raw raw' : Nat → UInt8) (h : Hint) (rest : Bytes) :
    copyConstructor raw' ((h.make raw).data ++ rest) = some (h.make raw') := by
  rw [copyConstructor, type_make]
  change (HintType.ofCode (toU32 (u32 h.type.code))).bind _ = _
  rw [toU32_u32, HintType.ofCode_code]
  change (copy h.type.hintData raw' (object _ _ raw ++ rest)).bind _ = _
  rw [copy_object h.fits]
  rfl

end Hint

/-- A hint of any class is read back from its bytes, whatever lies in its padding
and behind it. -/
theorem hint_round_trip (h : Hint) (raw raw' : Nat → UInt8) (rest : Bytes) :
    (Hint.copyConstructor raw' ((h.make raw).data ++ rest)).bind HintObj.hint = some h := by
  rw [h.copyConstructor_make]
  exact h.make_hint raw'

/-! ## The command line -/

/-- The bytes before the first zero byte. -/
def cString (b : Bytes) : Bytes := b.takeWhile (· ≠ 0)

/-- The `n` bytes that `strncpy` writes. -/
def strncpy (n : Nat) (s : Bytes) : Bytes :=
  (cString s).take n ++ List.replicate (n - (cString s).length) 0

def kCmdlineCapacity : Nat := 256

/-- `data_.cmdline` of a new event.
mirrors sched/src/protocol/event.cpp:67-78 -/
def cmdlineArray (cmdline : Bytes) : Bytes :=
  (strncpy kCmdlineCapacity cmdline).set (kCmdlineCapacity - 1) 0

/-! ## Events -/

/-- mirrors sched/include/xsched/sched/protocol/event.h:16-29 -/
inductive EventType where
  | kEventHint
  | kEventSchedulerTerminate
  | kEventProcessCreate
  | kEventProcessDestroy
  | kEventXQueueCreate
  | kEventXQueueDestroy
  | kEventXQueueReady
  | kEventXQueueIdle
  | kEventXQueueConfigUpdate
  | kEventXQueueQuery
  | kEventXQueueQueryAll
  deriving DecidableEq

namespace EventType

def code : EventType → BitVec 32
  | kEventHint => 0
  | kEventSchedulerTerminate => 1
  | kEventProcessCreate => 2
  | kEventProcessDestroy => 3
  | kEventXQueueCreate => 4
  | kEventXQueueDestroy => 5
  | kEventXQueueReady => 6
  | kEventXQueueIdle => 7
  | kEventXQueueConfigUpdate => 8
  | kEventXQueueQuery => 9
  | kEventXQueueQueryAll => 10

/-- The `switch`; `none`: `unknown event type`. -/
def ofCode (code : BitVec 32) : Option EventType :=
  match code.toNat with
  | 0 => some kEventHint
  | 1 => some kEventSchedulerTerminate
  | 2 => some kEventProcessCreate
  | 3 => some kEventProcessDestroy
  | 4 => some kEventXQueueCreate
  | 5 => some kEventXQueueDestroy
  | 6 => some kEventXQueueReady
  | 7 => some kEventXQueueIdle
  | 8 => some kEventXQueueConfigUpdate
  | 9 => some kEventXQueueQuery
  | 10 => some kEventXQueueQueryAll
  | _ => none

@[simp] theorem ofCode_code (type : EventType) : ofCode type.code = some type := by
  cases type <;> rfl

/-- The members of `EventData` behind `meta`; of a `HintEvent` those before
`hint_data`. mirrors sched/include/xsched/sched/protocol/event.h -/
def members : EventType → List Member
  | kEventHint => [int64]
  | kEventSchedulerTerminate | kEventProcessDestroy => []
  | kEventProcessCreate => [chars kCmdlineCapacity]
  | kEventXQueueCreate | kEventXQueueConfigUpdate => [int64, int64, int32, int64, int64]
  | kEventXQueueDestroy | kEventXQueueIdle => [int64]
  | kEventXQueueReady | kEventXQueueQuery => [int64, int64]
  | kEventXQueueQueryAll => [int64]

/-- The `EventData` of the class; `meta` is a type and a pid. -/
def eventData (type : EventType) : List Member := int32 :: int32 :: type.members

end EventType

/-- What an event says; `readyTime` counts nanoseconds and `queryData` is a
pointer into the server. -/
inductive Event where
  | hint (pid : BitVec 32) (hint : Hint)
  | schedulerTerminate (pid : BitVec 32)
  | processCreate (pid : BitVec 32) (cmdline : Bytes)
  | processDestroy (pid : BitVec 32)
  | xQueueCreate (pid : BitVec 32) (handle device : BitVec 64) (level : BitVec 32)
      (threshold batchSize : BitVec 64)
  | xQueueDestroy (pid : BitVec 32) (handle : BitVec 64)
  | xQueueReady (pid : BitVec 32) (handle readyTime : BitVec 64)
  | xQueueIdle (pid : BitVec 32) (handle : BitVec 64)
  | xQueueConfigUpdate (pid : BitVec 32) (handle device : BitVec 64) (level : BitVec 32)
      (threshold batchSize : BitVec 64)
  | xQueueQuery (pid : BitVec 32) (handle queryData : BitVec 64)
  | xQueueQueryAll (pid : BitVec 32) (queryData : BitVec 64)
  deriving DecidableEq

/-- An object of one of the classes of events. -/
structure EventObj where
  type : EventType
  data : Bytes
  deriving DecidableEq

/-- `offsetof(EventData, hint_data)` of a `HintEvent`. -/
def kHintDataOffset : Nat := endOf 0 EventType.kEventHint.eventData

namespace Event

def type : Event → EventType
  | hint _ _ => .kEventHint
  | schedulerTerminate _ => .kEventSchedulerTerminate
  | processCreate _ _ => .kEventProcessCreate
  | processDestroy _ => .kEventProcessDestroy
  | xQueueCreate _ _ _ _ _ _ => .kEventXQueueCreate
  | xQueueDestroy _ _ => .kEventXQueueDestroy
  | xQueueReady _ _ _ => .kEventXQueueReady
  | xQueueIdle _ _ => .kEventXQueueIdle
  | xQueueConfigUpdate _ _ _ _ _ _ => .kEventXQueueConfigUpdate
  | xQueueQuery _ _ _ => .kEventXQueueQuery
  | xQueueQueryAll _ _ => .kEventXQueueQueryAll

def pid : Event → BitVec 32
  | hint pid _ | schedulerTerminate pid | processCreate pid _ | processDestroy pid
  | xQueueCreate pid _ _ _ _ _ | xQueueDestroy pid _ | xQueueReady pid _ _ | xQueueIdle pid _
  | xQueueConfigUpdate pid _ _ _ _ _ | xQueueQuery pid _ _ | xQueueQueryAll pid _ => pid

/-- A `time_point` cast to microseconds, towards zero. -/
def toMicroseconds (ns : BitVec 64) : BitVec 64 := ns.sdiv 1000

/-- `time_point(microseconds(us))` -/
def ofMicroseconds (us : BitVec 64) : BitVec 64 := us * 1000

def values : Event → List Bytes
  | hint _ h => [u64 (.ofNat 64 (kHintDataOffset + structSize h.type.hintData))]
  | schedulerTerminate _ | processDestroy _ => []
  | processCreate _ cmdline => [cmdlineArray cmdline]
  | xQueueCreate _ handle device level threshold batchSize
  | xQueueConfigUpdate _ handle device level threshold batchSize =>
    [u64 handle, u64 device, u32 level, u64 threshold, u64 batchSize]
  | xQueueDestroy _ handle | xQueueIdle _ handle => [u64 handle]
  | xQueueReady _ handle readyTime => [u64 handle, u64 (toMicroseconds readyTime)]
  | xQueueQuery _ handle queryData => [u64 handle, u64 queryData]
  | xQueueQueryAll _ queryData => [u64 queryData]

/-- What the accessors of a class other than `HintEvent` return. -/
def ofValues : EventType → List Bytes → Option Event
  | .kEventSchedulerTerminate, [_, pid] => some (schedulerTerminate (toU32 pid))
  | .kEventProcessCreate, [_, pid, cmdline] => some (processCreate (toU32 pid) (cString cmdline))
  | .kEventProcessDestroy, [_, pid] => some (processDestroy (toU32 pid))
  | .kEventXQueueCreate, [_, pid, handle, device, level, threshold, batchSize] =>
    some (xQueueCreate (toU32 pid) (toU64 handle) (toU64 device) (toU32 level) (toU64 threshold)
      (toU64 batchSize))
  | .kEventXQueueDestroy, [_, pid, handle] => some (xQueueDestroy (toU32 pid) (toU64 handle))
  | .kEventXQueueReady, [_, pid, handle, readyTimeUs] =>
    some (xQueueReady (toU32 pid) (toU64 handle) (ofMicroseconds (toU64 readyTimeUs)))
  | .kEventXQueueIdle, [_, pid, handle] => some (xQueueIdle (toU32 pid) (toU64 handle))
  | .kEventXQueueConfigUpdate, [_, pid, handle, device, level, threshold, batchSize] =>
    some (xQueueConfigUpdate (toU32 pid) (toU64 handle) (toU64 device) (toU32 level)
      (toU64 threshold) (toU64 batchSize))
  | .kEventXQueueQuery, [_, pid, handle, queryData] =>
    some (xQueueQuery (toU32 pid) (toU64 handle) (toU64 queryData))
  | .kEventXQueueQueryAll, [_, pid, queryData] =>
    some (xQueueQueryAll (toU32 pid) (toU64 queryData))
  | _, _ => none

/-- The constructor of the class; `rawHint` is the padding of the hint.
mirrors sched/src/protocol/event.cpp:49-78 -/
def make (raw rawHint : Nat → UInt8) (e : Event) : EventObj :=
  let vs := u32 e.type.code :: u32 e.pid :: e.values
  match e with
  | hint _ h =>
    let data := fill e.type.eventData 0 vs (uninit raw (kHintDataOffset + structSize h.type.hintData))
    ⟨e.type, store data kHintDataOffset (h.make rawHint).data⟩
  | e => ⟨e.type, object e.type.eventData vs raw⟩

/-- `HintEvent` copies the bytes that its `size` says.
mirrors sched/src/protocol/event.cpp:41-47 -/
def copyHintEvent (data : Bytes) : Option Bytes := do
  let size ← member EventType.kEventHint.eventData 2 data
  load data 0 (toU64 size).toNat

/-- mirrors sched/src/protocol/event.cpp:8-39 -/
def copyConstructor (raw : Nat → UInt8) (data : Bytes) : Option EventObj := do
  let code ← member [int32] 0 data
  let type ← EventType.ofCode (toU32 code)
  let copied ← if type = .kEventHint then copyHintEvent data else copy type.eventData raw data
  return ⟨type, copied⟩

/-- An event as its receiver sees it. -/
def seen : Event → Event
  | processCreate pid cmdline => processCreate pid ((cString cmdline).take (kCmdlineCapacity - 1))
  | xQueueReady pid handle readyTime =>
    xQueueReady pid handle (ofMicroseconds (toMicroseconds readyTime))
  | e => e

/-- The pointer of a query. -/
def queryData : Event → Option (BitVec 64)
  | xQueueQuery _ _ queryData | xQueueQueryAll _ queryData => some queryData
  | _ => none

/-- What the accessors return in the process `self`; `none` where `QueryData()` exits.
mirrors sched/src/protocol/event.cpp:80-94 -/
def access (self : BitVec 32) : Event → Option Event
  | xQueueQuery pid handle queryData =>
    if queryData ≠ 0 ∧ pid = self then some (xQueueQuery pid handle queryData) else none
  | xQueueQueryAll pid queryData =>
    if queryData ≠ 0 ∧ pid = self then some (xQueueQueryAll pid queryData) else none
  | e => some e

/-- A query has a pointer, and is of the process `self`. -/
def Accessible (self : BitVec 32) (e : Event) : Prop :=
  ∀ queryData ∈ e.queryData, queryData ≠ 0 ∧ e.pid = self

instance (self : BitVec 32) (e : Event) : Decidable (e.Accessible self) :=
  inferInstanceAs (Decidable (∀ queryData ∈ e.queryData, _))

end Event

namespace EventObj

/-- `Size()` -/
def size (o : EventObj) : Option Nat :=
  if o.type = .kEventHint then
    (member EventType.kEventHint.eventData 2 o.data).map fun size => (toU64 size).toNat
  else some (structSize o.type.eventData)

/-- `GetHint()` -/
def getHint (raw : Nat → UInt8) (o : EventObj) : Option HintObj :=
  Hint.copyConstructor raw (o.data.drop kHintDataOffset)

/-- The members; for a `HintEvent` those of its `GetHint()`. -/
def members (raw : Nat → UInt8) (o : EventObj) : Option Event := do
  let vs ← read o.type.eventData 0 o.data
  if o.type = .kEventHint then
    let pid ← vs[1]?
    let h ← o.getHint raw
    return .hint (toU32 pid) (← h.hint)
  else Event.ofValues o.type vs

/-- The accessors in the process `self`. -/
def event (self : BitVec 32) (raw : Nat → UInt8) (o : EventObj) : Option Event :=
  (o.members raw).bind fun e => e.access self

end EventObj

/-! ## The command line on the wire -/

theorem length_strncpy (n : Nat) (s : Bytes) : (strncpy n s).length = n := by
  rw [strncpy, List.length_append, List.length_take, List.length_replicate]
  omega

theorem length_cmdlineArray (cmdline : Bytes) : (cmdlineArray cmdline).length = kCmdlineCapacity := by
  rw [cmdlineArray, List.length_set, length_strncpy]

/-- A string ends at the first zero byte. -/
theorem cString_append_zero {b : Bytes} (hb : 0 ∉ b) (rest : Bytes) :
    cString (b ++ 0 :: rest) = b := by
  unfold cString
  rw [List.takeWhile_append_of_pos, List.takeWhile_cons_of_neg (by decide), List.append_nil]
  intro c hc
  simpa using fun h : c = 0 => hb (h ▸ hc)

theorem zero_notMem_cString (b : Bytes) : 0 ∉ cString b := by
  intro h
  have h0 := List.mem_takeWhile_imp h
  simp at h0

theorem cString_eq_self {b : Bytes} (hb : 0 ∉ b) : cString b = b := by
  unfold cString
  rw [List.takeWhile_eq_self_iff]
  intro c hc
  simpa using fun h : c = 0 => hb (h ▸ hc)

/-- The zero that ends the array stands behind the string and its filling. -/
theorem cmdlineArray_eq (cmdline : Bytes) :
    cmdlineArray cmdline = (cString cmdline).take (kCmdlineCapacity - 1) ++
      0 :: List.replicate (kCmdlineCapacity - 1 - (cString cmdline).length) 0 := by
  generalize hs : cString cmdline = s
  have hlen := length_strncpy kCmdlineCapacity cmdline
  have hfront : (strncpy kCmdlineCapacity cmdline).take (kCmdlineCapacity - 1) =
      s.take (kCmdlineCapacity - 1) ++ List.replicate (kCmdlineCapacity - 1 - s.length) 0 := by
    rw [strncpy, hs, List.take_append, List.take_take, List.take_replicate, List.length_take]
    congr 2
    omega
  have hback : (strncpy kCmdlineCapacity cmdline).drop kCmdlineCapacity = [] :=
    List.drop_of_length_le (by omega)
  rw [cmdlineArray, List.set_eq_take_append_cons_drop, if_pos (by rw [hlen]; decide), hfront,
    show kCmdlineCapacity - 1 + 1 = kCmdlineCapacity from rfl, hback, List.append_assoc,
    ← List.replicate_succ', List.replicate_succ]

/-- The array holds a string of at most 255 bytes. -/
theorem cString_cmdlineArray (cmdline : Bytes) :
    cString (cmdlineArray cmdline) = (cString cmdline).take (kCmdlineCapacity - 1) := by
  rw [cmdlineArray_eq]
  exact cString_append_zero
    (fun h => zero_notMem_cString cmdline (List.mem_of_mem_take h)) _

/-! ## Round trips -/

namespace Event

theorem ofValues_values (e : Event) (h : e.type ≠ .kEventHint) :
    ofValues e.type (u32 e.type.code :: u32 e.pid :: e.values) = some e.seen := by
  cases e with
  | hint _ _ => exact absurd rfl h
  | processCreate pid cmdline =>
    simp [type, Event.pid, values, ofValues, seen, cString_cmdlineArray]
  | _ => simp [type, Event.pid, values, ofValues, seen]

theorem fits (e : Event) :
    Fits e.type.eventData (u32 e.type.code :: u32 e.pid :: e.values) := by
  cases e with
  | processCreate pid cmdline =>
    simp [Fits, EventType.eventData, EventType.members, type, values, int32, scalar,
      chars, length_cmdlineArray]
  | _ => simp [Fits, EventType.eventData, EventType.members, type, values, int32, int64, scalar]

/-- The bytes of the event. -/
def size : Event → Nat
  | hint _ h => kHintDataOffset + structSize h.type.hintData
  | e => structSize e.type.eventData

/-- All other classes hold their struct. -/
theorem make_of_ne {e : Event} (he : e.type ≠ .kEventHint) (raw rawHint : Nat → UInt8) :
    e.make raw rawHint =
      ⟨e.type, object e.type.eventData (u32 e.type.code :: u32 e.pid :: e.values) raw⟩ := by
  cases e with
  | hint _ _ => exact absurd rfl he
  | _ => rfl

/-- A `HintEvent` before its hint is stored. -/
def header (raw : Nat → UInt8) (pid : BitVec 32) (h : Hint) : Bytes :=
  fill EventType.kEventHint.eventData 0 (u32 EventType.kEventHint.code :: u32 pid ::
    (hint pid h).values) (uninit raw (kHintDataOffset + structSize h.type.hintData))

section
variable (raw rawHint : Nat → UInt8)

theorem endOf_le_header (h : Hint) : endOf 0 EventType.kEventHint.eventData ≤
    (uninit raw (kHintDataOffset + structSize h.type.hintData)).length := by
  rw [length_uninit]
  exact Nat.le_add_right ..

theorem length_header (pid : BitVec 32) (h : Hint) :
    (header raw pid h).length = kHintDataOffset + structSize h.type.hintData := by
  calc (header raw pid h).length
      = (uninit raw (kHintDataOffset + structSize h.type.hintData)).length :=
        length_fill (fits (hint pid h)) (endOf_le_header raw h)
    _ = _ := length_uninit _ _

/-- The hint ends where the event does. -/
theorem hint_ends (pid : BitVec 32) (h : Hint) :
    kHintDataOffset + (h.make rawHint).data.length = (header raw pid h).length := by
  rw [length_header]
  exact congrArg _ (length_object h.fits rawHint)

variable (e : Event)

theorem length_make : (e.make raw rawHint).data.length = e.size := by
  cases e with
  | hint pid h =>
    calc ((hint pid h).make raw rawHint).data.length
        = (header raw pid h).length := length_store (Nat.le_of_eq (hint_ends raw rawHint pid h))
      _ = (hint pid h).size := length_header raw pid h
  | _ => exact length_object (fits _) raw

/-- The members of the event are found in front. -/
theorem read_make (rest : Bytes) :
    read e.type.eventData 0 ((e.make raw rawHint).data ++ rest) =
      some (u32 e.type.code :: u32 e.pid :: e.values) := by
  refine read_append ?_ rest
  cases e with
  | hint pid h =>
    calc read EventType.kEventHint.eventData 0 ((hint pid h).make raw rawHint).data
        = read EventType.kEventHint.eventData 0 (header raw pid h) :=
          read_store_above (Nat.le_of_eq (hint_ends raw rawHint pid h)) (Nat.le_refl _)
      _ = some _ := read_fill (fits (hint pid h)) (endOf_le_header raw h)
  | _ => exact read_object (fits _) raw

end

/-- The `size` of a hint fits its member. -/
theorem toNat_hintSize (type : HintType) :
    (toU64 (u64 (.ofNat 64 (kHintDataOffset + structSize type.hintData)))).toNat =
      kHintDataOffset + structSize type.hintData := by
  rw [toU64_u64]
  cases type <;> rfl

section
variable (e : Event) (raw raw' rawHint : Nat → UInt8) (rest : Bytes)

theorem type_make : (e.make raw rawHint).type = e.type := by
  cases e <;> rfl

/-- The type is found in front. -/
theorem code_make :
    member [int32] 0 ((e.make raw rawHint).data ++ rest) = some (u32 e.type.code) :=
  member_of_read (i := 0) (e.read_make raw rawHint rest) (Nat.succ_pos _)

/-- The `size` of a hint, behind the type and the pid. -/
theorem size_hint (pid : BitVec 32) (h : Hint) :
    member EventType.kEventHint.eventData 2 (((hint pid h).make raw rawHint).data ++ rest) =
      some (u64 (.ofNat 64 (kHintDataOffset + structSize h.type.hintData))) :=
  member_of_read (i := 2) ((hint pid h).read_make raw rawHint rest)
    (show 2 < EventType.kEventHint.eventData.length by decide)

/-- A `HintEvent` is copied whole, byte by byte. -/
theorem copyHintEvent_make (pid : BitVec 32) (h : Hint) :
    copyHintEvent (((hint pid h).make raw rawHint).data ++ rest) =
      some ((hint pid h).make raw rawHint).data := by
  have hlen : (toU64 (u64 (.ofNat 64 (kHintDataOffset + structSize h.type.hintData)))).toNat =
      ((hint pid h).make raw rawHint).data.length := by
    rw [toNat_hintSize, length_make, size]
  simp only [copyHintEvent, size_hint, Option.bind_eq_bind, Option.bind_some, hlen]
  exact load_append (load_all _) rest

/-- The copy of a hint is the same bytes; of the others, the same event. -/
theorem copyConstructor_make : ∃ raw'',
    copyConstructor raw' ((e.make raw rawHint).data ++ rest) = some (e.make raw'' rawHint) := by
  simp only [copyConstructor, e.code_make, Option.bind_eq_bind, Option.bind_some, toU32_u32,
    EventType.ofCode_code]
  by_cases he : e.type = .kEventHint
  · refine ⟨raw, ?_⟩
    cases e with
    | hint pid h => rw [if_pos he, copyHintEvent_make]; rfl
    | _ => cases he
  · refine ⟨raw', ?_⟩
    rw [if_neg he, make_of_ne he, make_of_ne he, copy_object e.fits]
    rfl

/-- The hint behind the header. -/
theorem getHint_make (pid : BitVec 32) (h : Hint) :
    ((hint pid h).make raw rawHint).getHint raw' = some (h.make raw') := by
  have hdrop : ((hint pid h).make raw rawHint).data.drop kHintDataOffset =
      (h.make rawHint).data ++ [] := by
    rw [List.append_nil]
    exact drop_store (hint_ends raw rawHint pid h)
  rw [EventObj.getHint, hdrop, h.copyConstructor_make]

/-- The members are those that the event was made of. -/
theorem members_make : (e.make raw rawHint).members raw' = some e.seen := by
  have hread := e.read_make raw rawHint []
  rw [List.append_nil] at hread
  simp only [EventObj.members, type_make, hread, Option.bind_eq_bind, Option.bind_some]
  by_cases he : e.type = .kEventHint
  · cases e with
    | hint pid h =>
      rw [if_pos he, getHint_make]
      simp only [List.getElem?_cons_succ, List.getElem?_cons_zero, Option.bind_some, h.make_hint]
      rw [toU32_u32]
      rfl
    | _ => cases he
  · rw [if_neg he, ofValues_values e he]

theorem accessible_of_none {e : Event} (h : e.queryData = none) (self : BitVec 32) :
    e.Accessible self := by
  intro queryData hq
  rw [h] at hq
  cases hq

/-- Sending an event does not change who may ask for its pointer. -/
theorem access_seen (self : BitVec 32) :
    e.seen.access self = if e.Accessible self then some e.seen else none := by
  cases e with
  | xQueueQuery pid handle data | xQueueQueryAll pid data =>
    simp only [seen, access, Accessible, queryData, Option.mem_def, Option.some.injEq, forall_eq',
      Event.pid]
  | _ => rw [if_pos (accessible_of_none rfl self)]; rfl

/-- The accessors return what the event was made of, where none exits. -/
theorem event_make (self : BitVec 32) :
    (e.make raw rawHint).event self raw' = if e.Accessible self then some e.seen else none := by
  rw [EventObj.event, members_make, Option.bind_some, access_seen]

/-- `Size()` is the number of bytes that `Data()` points to. -/
theorem size_make : (e.make raw rawHint).size = some (e.make raw rawHint).data.length := by
  rw [length_make, EventObj.size, type_make]
  by_cases he : e.type = .kEventHint
  · cases e with
    | hint pid h =>
      have hsize := size_hint raw rawHint [] pid h
      rw [List.append_nil] at hsize
      rw [if_pos he, hsize, Option.map_some, toNat_hintSize, size]
    | _ => cases he
  · rw [if_neg he]
    cases e with
    | hint _ _ => exact absurd rfl he
    | _ => rfl

end
end Event

/-- **Events.** An event of any class, sent as the `Size()` bytes of its `Data()`,
is copied out of a buffer as an event of the same class and size with the members
it was made of. The accessors return them; only `QueryData()` exits, for a null
pointer or in another process than the one that made the event. -/
theorem event_round_trip (e : Event) (raw rawHint raw' raw'' : Nat → UInt8) (rest : Bytes) :
    (e.make raw rawHint).size = some (e.make raw rawHint).data.length ∧
    ∃ o, Event.copyConstructor raw' ((e.make raw rawHint).data ++ rest) = some o ∧
      o.type = e.type ∧ o.size = some (e.make raw rawHint).data.length ∧
      o.members raw'' = some e.seen ∧
      ∀ self, o.event self raw'' = if e.Accessible self then some e.seen else none := by
  obtain ⟨r, hr⟩ := e.copyConstructor_make raw raw' rawHint rest
  refine ⟨e.size_make raw rawHint, _, hr, e.type_make r rawHint, ?_, e.members_make r raw'' rawHint,
    e.event_make r raw'' rawHint⟩
  rw [e.size_make, e.length_make, e.length_make]

/-! ## The command line of the agent -/

/-- mirrors utils/include/xsched/utils/str.h:12-20 -/
def shrinkString (str : Bytes) (maxLen : Nat) : Bytes :=
  let dots : Bytes := [46, 46, 46]
  if maxLen ≤ 0 then []
  else if str.length ≤ maxLen then str
  else if maxLen ≤ 3 then dots.take maxLen
  else
    let keepFront := (maxLen - 3 + 1) / 2
    let keepBack := maxLen - keepFront - 3
    str.take keepFront ++ dots ++ str.drop (str.length - keepBack)

/-- The loop over the lines of the file, which end with a zero byte: an empty
one ends it. `arg` is what `getline` has read of the line.
mirrors preempt/src/sched/agent.cpp:80-86 -/
def getlines (arg : Bytes) : Bytes → Bytes
  | [] => if arg = [] then [] else arg ++ [32]
  | b :: file =>
    if b = 0 then if arg = [] then [] else arg ++ 32 :: getlines [] file
    else getlines (arg ++ [b]) file

def readArgs (file : Bytes) : Bytes := getlines [] file

/-- `kCmdline`. mirrors preempt/src/sched/agent.cpp:67-90 -/
def agentCmdline (file : Bytes) : Bytes := shrinkString (readArgs file) (kCmdlineCapacity - 1)

theorem zero_notMem_getlines {arg file : Bytes} (harg : 0 ∉ arg) : 0 ∉ getlines arg file := by
  induction file generalizing arg with
  | nil =>
    unfold getlines
    split
    · exact List.not_mem_nil
    · rw [List.mem_append, List.mem_singleton]
      rintro (h | h)
      · exact harg h
      · cases h
  | cons b file ih =>
    unfold getlines
    split
    · split
      · exact List.not_mem_nil
      · rw [List.mem_append, List.mem_cons]
        rintro (h | h | h)
        · exact harg h
        · cases h
        · exact ih List.not_mem_nil h
    · rename_i hb
      refine ih ?_
      rw [List.mem_append, List.mem_singleton]
      rintro (h | h)
      · exact harg h
      · exact hb h.symm

theorem mem_shrinkString {str : Bytes} {maxLen : Nat} {b : UInt8} (h : b ∈ shrinkString str maxLen) :
    b ∈ str ∨ b = 46 := by
  unfold shrinkString at h
  split at h
  · cases h
  · split at h
    · exact .inl h
    · split at h
      · exact .inr (by simpa using List.mem_of_mem_take h)
      · simp only [List.mem_append] at h
        rcases h with (h | h) | h
        · exact .inl (List.mem_of_mem_take h)
        · exact .inr (by simpa using h)
        · exact .inl (List.mem_of_mem_drop h)

/-- A string that is too long is cut to the given length. -/
theorem length_shrinkString (str : Bytes) (maxLen : Nat) :
    (shrinkString str maxLen).length = min str.length maxLen := by
  unfold shrinkString
  split
  · simp only [List.length_nil]; omega
  · split
    · change str.length = min str.length maxLen
      omega
    · split
      · rw [List.length_take, List.length_cons, List.length_cons, List.length_cons, List.length_nil]
        omega
      · simp only [List.length_append, List.length_take, List.length_drop, List.length_cons,
          List.length_nil]
        omega

theorem zero_notMem_agentCmdline (file : Bytes) : 0 ∉ agentCmdline file := by
  intro h
  rcases mem_shrinkString h with h | h
  · exact zero_notMem_getlines List.not_mem_nil h
  · cases h

/-- The array of the event holds all of it. -/
theorem seen_agentCreate (pid : BitVec 32) (file : Bytes) :
    (Event.processCreate pid (agentCmdline file)).seen = .processCreate pid (agentCmdline file) := by
  have hlen : (agentCmdline file).length ≤ kCmdlineCapacity - 1 := by
    rw [agentCmdline, length_shrinkString]
    exact Nat.min_le_right ..
  rw [Event.seen, cString_eq_self (zero_notMem_agentCmdline file), List.take_of_length_le hlen]

/-- **Command line.** The server has exactly the command line that the agent made
of its `/proc/self/cmdline`; it is cut only where it has more than 255 bytes. -/
theorem cmdline_round_trip (file : Bytes) (pid : BitVec 32) (raw rawHint raw' raw'' : Nat → UInt8)
    (rest : Bytes) :
    (agentCmdline file).length = min (readArgs file).length 255 ∧
    ∃ o, Event.copyConstructor raw'
        (((Event.processCreate pid (agentCmdline file)).make raw rawHint).data ++ rest) = some o ∧
      ∀ self, o.event self raw'' = some (.processCreate pid (agentCmdline file)) := by
  refine ⟨length_shrinkString _ _, ?_⟩
  obtain ⟨r, hr⟩ := (Event.processCreate pid (agentCmdline file)).copyConstructor_make
    raw raw' rawHint rest
  refine ⟨_, hr, fun self => ?_⟩
  rw [Event.event_make, if_pos (Event.accessible_of_none rfl self), seen_agentCreate]

end Xsched.Sched.Wire
