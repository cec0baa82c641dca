import Xsched.Core.TakeUntil
import Xsched.Sched.Policy

/-!
# Memory admission

The registry of memory regions and of the queues that use them, and what the
suspension of a queue does to it: regions of nobody in its context become its
own, and if too much memory is in use, regions are evicted to the host, those of
suspended queues first.

`size_t` and `uint64_t` are `UInt64`, so sums of sizes and the product in a
watermark wrap as they do in the code. `g_regions` is a list in the order of its
iteration, keyed by the pointer of the region. A backend is known by its address
(`B`) and by what its functions return (`XpuMemoryBackend`); they change nothing
in the registry, nor does the log.
-/
namespace Xsched.Preempt
namespace Admission

open Sched (XQueueHandle Priority PRIORITY_DEFAULT)

/-- mirrors preempt/include/xsched/preempt/memory/admission.h:12-18 -/
structure MemoryBackendCaps where
  queryMemInfo : Bool
  evictToHost : Bool

/-- mirrors preempt/include/xsched/preempt/memory/admission.h:20-36 -/
structure XpuMemoryBackend where
  enabled : Bool
  caps : MemoryBackendCaps
  /-- the free and the total bytes of a device, if the call succeeds -/
  queryMemory (context : Nat) (device : Int) : Option (UInt64 × UInt64)
  evictToHost (context : Nat) (device : Int) (ptr : Nat) (size : UInt64) : Bool

/-- mirrors preempt/src/memory/admission.cpp:26-36 -/
structure MemoryRegion (B : Type) where
  backend : Option B
  ptr : Nat
  size : UInt64
  context : Nat
  device : Int
  owner : XQueueHandle
  resident : Bool
  lastTouch : UInt64
  deriving DecidableEq

/-- mirrors preempt/src/memory/admission.cpp:38-46 -/
structure QueueState (B : Type) where
  backend : Option B := none
  context : Nat := 0
  device : Int := 0
  priority : Priority := PRIORITY_DEFAULT
  active : Bool := false

/-- `g_regions`, `g_queues` and `g_clock`. -/
structure Registry (B : Type) where
  regions : List (MemoryRegion B)
  queues : XQueueHandle → Option (QueueState B)
  clock : UInt64
  keys : (regions.map (·.ptr)).Nodup

/-! ## The environment -/

/-- What `getenv` returns: the characters of a variable that is set. -/
abbrev Env := String → Option (List Char)

def kEnableEnv : String := "XSCHED_XPU_MEM_OVERSUB"
def kCudaCompatEnableEnv : String := "XSCHED_CUDA_MEM_OVERSUB"
def kHighWatermarkEnv : String := "XSCHED_XPU_MEM_HIGH_WATERMARK"
def kLowWatermarkEnv : String := "XSCHED_XPU_MEM_LOW_WATERMARK"
def kCudaHighWatermarkEnv : String := "XSCHED_CUDA_MEM_HIGH_WATERMARK"
def kCudaLowWatermarkEnv : String := "XSCHED_CUDA_MEM_LOW_WATERMARK"
def kEvictLimitMbEnv : String := "XSCHED_XPU_MEM_EVICT_LIMIT_MB"

/-- mirrors preempt/src/memory/admission.cpp:53-58 -/
def envTruthy (env : Env) (name : String) : Bool :=
  match env name with
  | none => false
  | some v =>
    v ≠ [] && v ≠ ['0'] && v.map Char.toLower ≠ ['o', 'f', 'f'] &&
      v.map Char.toLower ≠ ['f', 'a', 'l', 's', 'e']

/-- mirrors preempt/src/memory/admission.cpp:60-63 -/
def globallyEnabled (env : Env) : Bool :=
  envTruthy env kEnableEnv || envTruthy env kCudaCompatEnableEnv

def LONG_MIN : Int := -9223372036854775808
def LONG_MAX : Int := 9223372036854775807

def isspace (c : Char) : Bool := c == ' ' || (9 ≤ c.toNat && c.toNat ≤ 13)

/-- `strtol(s, &end, 10)`: the number, and what `end` points to; `none` if there
are no digits. -/
def strtol (s : List Char) : Option (Int × List Char) :=
  let t := s.dropWhile isspace
  let negative := t.head? = some '-'
  let t := if negative ∨ t.head? = some '+' then t.tail else t
  let digits := t.takeWhile Char.isDigit
  let n : Int := digits.foldl (fun n d => 10 * n + (d.toNat - '0'.toNat : Nat)) 0
  let n := if negative then -n else n
  if digits = [] then none
  else
    some (if n < LONG_MIN then LONG_MIN else if LONG_MAX < n then LONG_MAX else n,
      t.dropWhile Char.isDigit)

/-- mirrors preempt/src/memory/admission.cpp:65-73 -/
def envInt (env : Env) (name : String) (fallback : Int) : Int :=
  match env name with
  | none | some [] => fallback
  | some v =>
    match strtol v with
    | some (val, []) => val
    | _ => fallback

/-- mirrors preempt/src/memory/admission.cpp:75-80 -/
def envPercent (env : Env) (name compatName : String) (fallback : Int) : Int :=
  let val := envInt env name (envInt env compatName fallback)
  if val ≤ 0 ∨ 100 ≤ val then fallback else val

/-- mirrors preempt/src/memory/admission.cpp:82-85 -/
def highWatermark (env : Env) (total : UInt64) : UInt64 :=
  total * (envPercent env kHighWatermarkEnv kCudaHighWatermarkEnv 85).toNat.toUInt64 / 100

/-- mirrors preempt/src/memory/admission.cpp:87-93 -/
def lowWatermark (env : Env) (total : UInt64) : UInt64 :=
  let high := envPercent env kHighWatermarkEnv kCudaHighWatermarkEnv 85
  let low := envPercent env kLowWatermarkEnv kCudaLowWatermarkEnv 75
  let low := if high ≤ low then (if 1 < high - 10 then high - 10 else 1) else low
  total * low.toNat.toUInt64 / 100

/-- mirrors preempt/src/memory/admission.cpp:95-100 -/
def mbLimit (env : Env) (name : String) (fallbackMb : Nat) : UInt64 :=
  let mb := envInt env name fallbackMb
  if mb ≤ 0 then 0 else mb.toNat.toUInt64 <<< 20

/-! ## The registry -/

section
variable {B : Type} [DecidableEq B]

/-- The region is one of this backend, context and device. -/
def MemoryRegion.within (backend : B) (context : Nat) (device : Int) (r : MemoryRegion B) : Bool :=
  r.backend = some backend && r.context = context && r.device = device

/-- The loop of `AdoptContextRegions`, over the regions with `p`. -/
def adoptRegions (p : MemoryRegion B → Bool) (queue : XQueueHandle) :
    List (MemoryRegion B) → UInt64 → List (MemoryRegion B) × UInt64
  | [], clock => ([], clock)
  | r :: rs, clock =>
    if p r && r.owner = 0 then
      let rest := adoptRegions p queue rs (clock + 1)
      ({ r with owner := queue, lastTouch := clock + 1 } :: rest.1, rest.2)
    else
      let rest := adoptRegions p queue rs clock
      (r :: rest.1, rest.2)

omit [DecidableEq B] in
@[simp] theorem adoptRegions_ptr (p : MemoryRegion B → Bool) (queue : XQueueHandle)
    (rs : List (MemoryRegion B)) (clock : UInt64) :
    (adoptRegions p queue rs clock).1.map (·.ptr) = rs.map (·.ptr) := by
  induction rs generalizing clock with
  | nil => rfl
  | cons r rs ih =>
    rw [adoptRegions]
    split <;> simp [ih]

/-- mirrors preempt/src/memory/admission.cpp:107-119 -/
def Registry.adoptContextRegions (backend : B) (context : Nat) (device : Int)
    (queue : XQueueHandle) (s : Registry B) : Registry B :=
  if queue = 0 then s
  else
    let adopted := adoptRegions (·.within backend context device) queue s.regions s.clock
    have hkeys : (adopted.1.map (·.ptr)).Nodup := by
      rw [adoptRegions_ptr]
      exact s.keys
    { s with regions := adopted.1, clock := adopted.2, keys := hkeys }

def Registry.residents (backend : B) (context : Nat) (device : Int) (s : Registry B) :
    List (MemoryRegion B) :=
  s.regions.filter fun r => r.within backend context device && r.resident

/-- What a loop that adds up sizes in a `size_t` finds. -/
def sizeSum (rs : List (MemoryRegion B)) : UInt64 := rs.foldl (fun bytes r => bytes + r.size) 0

/-- mirrors preempt/src/memory/admission.cpp:121-132 -/
def Registry.trackedResidentBytes (backend : B) (context : Nat) (device : Int)
    (s : Registry B) : UInt64 :=
  sizeSum (s.residents backend context device)

/-- The owner is a queue that is known and active. -/
def Registry.ownerActive (s : Registry B) (r : MemoryRegion B) : Bool :=
  (s.queues r.owner).any (·.active)

def Registry.ownerPriority (s : Registry B) (r : MemoryRegion B) : Priority :=
  ((s.queues r.owner).map (·.priority)).getD PRIORITY_DEFAULT

/-- The order of the victims.
mirrors preempt/src/memory/admission.cpp:311-322 -/
def Registry.victimBefore (s : Registry B) (a b : MemoryRegion B) : Bool :=
  if s.ownerActive a ≠ s.ownerActive b then !s.ownerActive a
  else if s.ownerPriority a ≠ s.ownerPriority b then s.ownerPriority a < s.ownerPriority b
  else if a.lastTouch ≠ b.lastTouch then a.lastTouch < b.lastTouch
  else b.size < a.size

/-- The region at `ptr` goes to the host. -/
def Registry.evict (ptr : Nat) (s : Registry B) : Registry B where
  regions := s.regions.map fun r =>
    if r.ptr = ptr then { r with resident := false, lastTouch := s.clock + 1 } else r
  queues := s.queues
  clock := s.clock + 1
  keys := by
    have hptr : (s.regions.map fun r =>
        if r.ptr = ptr then { r with resident := false, lastTouch := s.clock + 1 } else r).map
          (·.ptr) = s.regions.map (·.ptr) := by
      rw [List.map_map]
      refine List.map_congr_left fun r _ => ?_
      show (if r.ptr = ptr then _ else r).ptr = r.ptr
      split <;> rfl
    rw [hptr]
    exact s.keys

/-- The loop over the victims, with `evicted` bytes gone before it begins.
mirrors preempt/src/memory/admission.cpp:324-331 -/
def evictRegions (api : XpuMemoryBackend) (context : Nat) (device : Int) (need : UInt64) :
    List (MemoryRegion B) → UInt64 → Registry B → Registry B
  | [], _, s => s
  | r :: rs, evicted, s =>
    if !api.evictToHost context device r.ptr r.size then
      evictRegions api context device need rs evicted s
    else if need ≤ evicted + r.size then s.evict r.ptr
    else evictRegions api context device need rs (evicted + r.size) (s.evict r.ptr)

/-- The entry of the suspended queue. -/
def Registry.suspend (backend : B) (context : Nat) (device : Int) (queue : XQueueHandle)
    (s : Registry B) : Registry B :=
  let state := (s.queues queue).getD {}
  let state := { state with backend := some backend, context, device, active := false }
  { s with queues := Function.update s.queues queue (some state) }

/-- `std::sort`: the elements in some order that the comparison allows. -/
structure StdSort (α : Type) where
  sort : (α → α → Bool) → List α → List α
  perm : ∀ lt l, (sort lt l).Perm l
  sorted : ∀ lt l, IsStrictWeakOrder α (fun a b => lt a b = true) →
    (sort lt l).Pairwise fun a b => lt b a = false

/-- What is checked before anything is done.
mirrors preempt/src/memory/admission.cpp:102-105,272-274 -/
def admits (env : Env) (api : XpuMemoryBackend) (context : Nat) : Bool :=
  globallyEnabled env && api.enabled && context ≠ 0 && api.caps.queryMemInfo &&
    api.caps.evictToHost

/-- `need` where `used` bytes are above the high watermark.
mirrors preempt/src/memory/admission.cpp:295-298 -/
def neededBytes (env : Env) (total used : UInt64) : UInt64 :=
  let low := lowWatermark env total
  let need := if low < used then used - low else 0
  let evictLimit := mbLimit env kEvictLimitMbEnv 4096
  if evictLimit ≠ 0 then (if evictLimit < need then evictLimit else need) else need

/-- `backend` is not null.
mirrors preempt/src/memory/admission.cpp:269-338 -/
def Registry.onQueueSuspend (sort : StdSort (MemoryRegion B)) (env : Env)
    (api : B → XpuMemoryBackend) (backend : B) (context : Nat) (device : Int)
    (queue : XQueueHandle) (s : Registry B) : Registry B :=
  if admits env (api backend) context then
    let s := (s.suspend backend context device queue).adoptContextRegions backend context device
      queue
    match (api backend).queryMemory context device with
    | none => s
    | some (free, total) =>
      if total = 0 then s
      else
        let driverUsed := total - free
        let trackedUsed := s.trackedResidentBytes backend context device
        let used := if driverUsed < trackedUsed then trackedUsed else driverUsed
        if used ≤ highWatermark env total then s
        else
          let need := neededBytes env total used
          if need = 0 then s
          else
            let victims := sort.sort s.victimBefore (s.residents backend context device)
            evictRegions (api backend) context device need victims 0 s
  else s

end

end Admission
end Xsched.Preempt
