import Xsched.Sched.Wire

/-!
# Operations on the wire

The server answers with operations, again the bytes of a struct. A
`SchedOperation` lists the XQueues of a process, the running ones first; it has
room for as many handles as there are, so its size is in it, and the two counts
say where the suspended ones begin.

`operation_round_trip`: the executor of the client finds in the copy what the
scheduler has put into the operation, for any number of XQueues whose size
fits a `size_t`.
-/
namespace Xsched.Sched.Wire
open Layout

/-- mirrors sched/include/xsched/sched/protocol/operation.h:11-16 -/
inductive OperationType where
  | kOperationTerminate
  | kOperationSched
  | kOperationConfig
  deriving DecidableEq

namespace OperationType

def code : OperationType → BitVec 32
  | kOperationTerminate => 0
  | kOperationSched => 1
  | kOperationConfig => 2

/-- The `switch`; `none`: `unknown operation type`. -/
def ofCode (code : BitVec 32) : Option OperationType :=
  match code.toNat with
  | 0 => some kOperationTerminate
  | 1 => some kOperationSched
  | 2 => some kOperationConfig
  | _ => none

@[simp] theorem ofCode_code (type : OperationType) : ofCode type.code = some type := by
  cases type <;> rfl

/-- The members of `OperationData`, a type and a pid first; of a
`SchedOperation` those before `handles`.
mirrors sched/include/xsched/sched/protocol/operation.h -/
def operationData : OperationType → List Member
  | kOperationTerminate => [int32, int32]
  | kOperationSched => [int32, int32, int64, int64, int64]
  | kOperationConfig => [int32, int32, int64, int32, int64, int64]

end OperationType

/-- The `OperationData` of a `SchedOperation` with room for `n` handles. -/
def schedData (n : Nat) : List Member :=
  OperationType.kOperationSched.operationData ++ List.replicate n int64

/-- `offsetof(OperationData, handles) + n * sizeof(XQueueHandle)` -/
def schedSize (n : Nat) : Nat := endOf 0 OperationType.kOperationSched.operationData + n * 8

/-- What an operation says. -/
inductive Operation where
  | terminate (pid : BitVec 32)
  | sched (pid : BitVec 32) (running suspended : List (BitVec 64))
  | config (pid : BitVec 32) (handle : BitVec 64) (level : BitVec 32)
      (threshold batchSize : BitVec 64)
  deriving DecidableEq

/-- An object of one of the classes of operations. -/
structure OperationObj where
  type : OperationType
  data : Bytes
  deriving DecidableEq

namespace Operation

def type : Operation → OperationType
  | terminate _ => .kOperationTerminate
  | sched _ _ _ => .kOperationSched
  | config _ _ _ _ _ => .kOperationConfig

def pid : Operation → BitVec 32
  | terminate pid | sched pid _ _ | config pid _ _ _ _ => pid

/-- The bytes of the operation. -/
def size : Operation → Nat
  | sched _ running suspended => schedSize (running.length + suspended.length)
  | op => structSize op.type.operationData

/-- The members of the object. -/
def members : Operation → List Member
  | sched _ running suspended => schedData (running.length + suspended.length)
  | op => op.type.operationData

/-- The loops over the two sets store the handles one behind the other. -/
def values : Operation → List Bytes
  | terminate _ => []
  | sched pid running suspended =>
    [u64 (.ofNat 64 (sched pid running suspended).size), u64 (.ofNat 64 running.length),
      u64 (.ofNat 64 suspended.length)] ++ (running ++ suspended).map u64
  | config _ handle level threshold batchSize => [u64 handle, u32 level, u64 threshold, u64 batchSize]

/-- mirrors sched/src/protocol/operation.cpp:33-53,68-81 -/
def make (raw : Nat → UInt8) (op : Operation) : OperationObj :=
  ⟨op.type, fill op.members 0 (u32 op.type.code :: u32 op.pid :: op.values) (uninit raw op.size)⟩

/-- A `SchedOperation` copies the bytes that its `size` says, a
`ConfigOperation` those of its struct.
mirrors sched/src/protocol/operation.cpp:8-31,60-66 -/
def copyConstructor (raw : Nat → UInt8) (data : Bytes) : Option OperationObj := do
  let code ← member [int32] 0 data
  let type ← OperationType.ofCode (toU32 code)
  let copied ← match type with
    | .kOperationTerminate => copy type.operationData raw data
    | .kOperationSched => do
      let size ← member OperationType.kOperationSched.operationData 2 data
      load data 0 (toU64 size).toNat
    | .kOperationConfig => load data 0 (structSize OperationType.kOperationConfig.operationData)
  return ⟨type, copied⟩

end Operation

namespace OperationObj

/-- `handles[0]`, …, `handles[n - 1]` -/
def handles (n : Nat) (o : OperationObj) : Option (List (BitVec 64)) := do
  let vs ← read (List.replicate n int64) (endOf 0 OperationType.kOperationSched.operationData) o.data
  return vs.map toU64

/-- The accessors; of `Handles()` what `ExecuteSchedOperation` reads, first
`RunningCnt()` and then `SuspendedCnt()` of them.
mirrors preempt/src/sched/executor.cpp:43-64 -/
def operation (o : OperationObj) : Option Operation := do
  let vs ← read o.type.operationData 0 o.data
  match o.type, vs with
  | .kOperationTerminate, [_, pid] => return .terminate (toU32 pid)
  | .kOperationSched, [_, pid, _, runningCnt, suspendedCnt] =>
    let running := (toU64 runningCnt).toNat
    let hs ← o.handles (running + (toU64 suspendedCnt).toNat)
    return .sched (toU32 pid) (hs.take running) (hs.drop running)
  | .kOperationConfig, [_, pid, handle, level, threshold, batchSize] =>
    return .config (toU32 pid) (toU64 handle) (toU32 level) (toU64 threshold) (toU64 batchSize)
  | _, _ => none

/-- `Size()` -/
def size (o : OperationObj) : Option Nat :=
  match o.type with
  | .kOperationSched =>
    (member OperationType.kOperationSched.operationData 2 o.data).map fun size => (toU64 size).toNat
  | type => some (structSize type.operationData)

end OperationObj

/-! ## Round trip -/

theorem endOf_schedData (n : Nat) : endOf 0 (schedData n) = schedSize n := by
  rw [schedData, endOf_append]
  exact endOf_replicate (by decide) (by decide)

namespace Operation

variable (op : Operation)

theorem fits : Fits op.members (u32 op.type.code :: u32 op.pid :: op.values) := by
  cases op with
  | sched pid running suspended =>
    have hlen : (running ++ suspended).length = ((running ++ suspended).map u64).length := by
      rw [List.length_map]
    have harr : Fits (List.replicate ((running ++ suspended).map u64).length int64)
        ((running ++ suspended).map u64) := by
      apply fits_replicate
      intro v hv
      obtain ⟨h, -, rfl⟩ := List.mem_map.1 hv
      exact length_u64 h
    rw [← hlen, List.length_append] at harr
    change Fits (OperationType.kOperationSched.operationData ++ _) ([_, _, _, _, _] ++ _)
    refine Fits.append ?_ harr
    simp [Fits, OperationType.operationData, int32, int64, scalar]
  | _ => simp [Fits, members, values, type, OperationType.operationData, int32, int64, scalar]

theorem endOf_le_size : endOf 0 op.members ≤ op.size := by
  cases op with
  | sched pid running suspended => exact Nat.le_of_eq (endOf_schedData _)
  | _ => exact endOf_le_structSize _

variable (raw raw' : Nat → UInt8) (rest : Bytes)

theorem length_make : (op.make raw).data.length = op.size := by
  calc (op.make raw).data.length
      = (uninit raw op.size).length :=
        length_fill op.fits (by rw [length_uninit]; exact op.endOf_le_size)
    _ = op.size := length_uninit raw op.size

theorem read_make :
    read op.members 0 ((op.make raw).data ++ rest) =
      some (u32 op.type.code :: u32 op.pid :: op.values) :=
  read_append (read_fill op.fits (by rw [length_uninit]; exact op.endOf_le_size)) rest

theorem code_make : member [int32] 0 ((op.make raw).data ++ rest) = some (u32 op.type.code) := by
  have h := op.read_make raw rest
  cases op <;> exact member_of_read (i := 0) h (Nat.succ_pos _)

/-- The members before the handles, and the handles. -/
theorem read_sched (pid : BitVec 32) (running suspended : List (BitVec 64)) :
    read OperationType.kOperationSched.operationData 0
        (((sched pid running suspended).make raw).data ++ rest) =
      some [u32 OperationType.kOperationSched.code, u32 pid,
        u64 (.ofNat 64 (sched pid running suspended).size), u64 (.ofNat 64 running.length),
        u64 (.ofNat 64 suspended.length)] ∧
    read (List.replicate (running.length + suspended.length) int64)
        (endOf 0 OperationType.kOperationSched.operationData)
        (((sched pid running suspended).make raw).data ++ rest) =
      some ((running ++ suspended).map u64) :=
  read_split (show _ = some ([_, _, _, _, _] ++ _) from
    (sched pid running suspended).read_make raw rest) rfl

/-- The `size` of a `SchedOperation`. -/
theorem size_sched (pid : BitVec 32) (running suspended : List (BitVec 64)) :
    member OperationType.kOperationSched.operationData 2
        (((sched pid running suspended).make raw).data ++ rest) =
      some (u64 (.ofNat 64 (sched pid running suspended).size)) :=
  member_of_read (i := 2) (read_sched raw rest pid running suspended).1
    (show 2 < OperationType.kOperationSched.operationData.length by decide)

/-- A count that fits a `size_t`. -/
theorem toNat_count {n : Nat} (h : n < 2 ^ 64) : (toU64 (u64 (.ofNat 64 n))).toNat = n := by
  rw [toU64_u64, BitVec.toNat_ofNat, Nat.mod_eq_of_lt h]

/-- The copy has the bytes of the operation, but for the padding of a
`TerminateOperation`. -/
theorem copyConstructor_make (hsize : op.size < 2 ^ 64) : ∃ raw'',
    copyConstructor raw' ((op.make raw).data ++ rest) = some (op.make raw'') := by
  simp only [copyConstructor, op.code_make, Option.bind_eq_bind, Option.bind_some, toU32_u32,
    OperationType.ofCode_code]
  have hall : load ((op.make raw).data ++ rest) 0 op.size = some (op.make raw).data := by
    rw [← op.length_make raw]
    exact load_append (load_all _) rest
  cases op with
  | terminate pid =>
    refine ⟨raw', ?_⟩
    have hcopy := copy_object (terminate pid).fits raw raw' rest
    simp only [type]
    rw [show copy OperationType.kOperationTerminate.operationData raw'
      (((terminate pid).make raw).data ++ rest) = some ((terminate pid).make raw').data from hcopy]
    rfl
  | sched pid running suspended =>
    refine ⟨raw, ?_⟩
    simp only [type, size_sched, Option.bind_some, toNat_count hsize, hall]
    rfl
  | config pid handle level threshold batchSize =>
    refine ⟨raw, ?_⟩
    simp only [type]
    rw [show load (((config pid handle level threshold batchSize).make raw).data ++ rest) 0
      (structSize OperationType.kOperationConfig.operationData) =
        some ((config pid handle level threshold batchSize).make raw).data from hall]
    rfl

theorem type_make : (op.make raw).type = op.type := rfl

/-- The accessors return what the operation was made of. -/
theorem operation_make (hsize : op.size < 2 ^ 64) : (op.make raw).operation = some op := by
  have hread := op.read_make raw []
  rw [List.append_nil] at hread
  cases op with
  | sched pid running suspended =>
    obtain ⟨hfront, hback⟩ := read_sched raw [] pid running suspended
    rw [List.append_nil] at hfront hback
    have hcount : running.length + suspended.length ≤ (sched pid running suspended).size :=
      calc running.length + suspended.length
          ≤ (running.length + suspended.length) * 8 := Nat.le_mul_of_pos_right _ (by decide)
        _ ≤ (sched pid running suspended).size := Nat.le_add_left ..
    have hhs : ((running ++ suspended).map u64).map toU64 = running ++ suspended := by
      rw [List.map_map]
      exact List.map_id'' toU64_u64 _
    have hhandles : ((sched pid running suspended).make raw).handles
        (running.length + suspended.length) = some (running ++ suspended) := by
      simp only [OperationObj.handles, hback, Option.bind_eq_bind, Option.bind_some, hhs]
      rfl
    simp only [OperationObj.operation, type_make, type, hfront, Option.bind_eq_bind,
      Option.bind_some, toU32_u32]
    rw [toNat_count (by omega), toNat_count (by omega), hhandles, Option.bind_some, List.take_left,
      List.drop_left]
    rfl
  | _ =>
    simp only [members] at hread
    simp only [OperationObj.operation, type_make, hread, Option.bind_eq_bind, Option.bind_some]
    simp [type, values, Operation.pid]

/-- `Size()` is the number of bytes that `Data()` points to. -/
theorem size_make (hsize : op.size < 2 ^ 64) :
    (op.make raw).size = some (op.make raw).data.length := by
  rw [length_make, OperationObj.size, type_make]
  cases op with
  | sched pid running suspended =>
    have h := size_sched raw [] pid running suspended
    rw [List.append_nil] at h
    simp only [type, h, Option.map_some, toNat_count hsize]
  | _ => rfl

end Operation

/-- **Operations.** An operation of any class, sent as the `Size()` bytes of its
`Data()`, is copied out of a buffer as an operation of the same class and size,
whose accessors return what it was made of: a `SchedOperation` all handles of
both sets, in their order. -/
theorem operation_round_trip (op : Operation) (hsize : op.size < 2 ^ 64)
    (raw raw' : Nat → UInt8) (rest : Bytes) :
    (op.make raw).size = some (op.make raw).data.length ∧
    ∃ o, Operation.copyConstructor raw' ((op.make raw).data ++ rest) = some o ∧
      o.type = op.type ∧ o.size = some (op.make raw).data.length ∧ o.operation = some op := by
  obtain ⟨r, hr⟩ := op.copyConstructor_make raw raw' rest hsize
  refine ⟨op.size_make raw hsize, _, hr, rfl, ?_, op.operation_make r hsize⟩
  rw [op.size_make r hsize, op.length_make, op.length_make]

/-- Two running and one suspended XQueue. -/
theorem operation_round_trip_three :
    ∃ o, Operation.copyConstructor (fun _ => 0)
        (((Operation.sched 7 [16, 32] [48]).make fun _ => 204).data ++ [1, 2]) = some o ∧
      o.size = some 56 ∧ o.operation = some (.sched 7 [16, 32] [48]) := by
  obtain ⟨-, o, ho, -, hsize, hop⟩ := operation_round_trip (.sched 7 [16, 32] [48]) (by decide)
    (fun _ => 204) (fun _ => 0) [1, 2]
  refine ⟨o, ho, ?_, hop⟩
  rw [hsize, Operation.length_make]
  rfl

end Xsched.Sched.Wire
