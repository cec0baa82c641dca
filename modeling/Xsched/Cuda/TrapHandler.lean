import Xsched.Core.Layout
import Xsched.Core.Trampoline

/-!
# The instrumented trap handler

Level 3 stops running kernels by a trap. `InterruptContext::InstrumentTrapHandler`
makes the trap handler of the GPU run the injected instructions first: it copies the
handler to the host, replaces one instruction by a jump, and writes the injected
code, the replaced instruction and a jump back to memory of their own. What an
instruction does is not in the repository; it is a relation over its bytes, of which
the code relies on three things (`Assumed`): a jump goes to its address
(`SetJumpInstruction`), the replaced instruction does the same anywhere ("should be
IADD3"), and the injected instructions branch as in the listing next to the tables.
That they so stay among themselves is a fact about both tables
(`successors_closed`).

`initialized` is one variable of the process: the handler is never patched twice, and
no context but the first gets its handler patched.

**Results**
* `hooked_once`: after any calls, the handler of the first context, of either
  architecture, arrives where the original one does with the injected instructions run
  before the instruction at the site; all other memory is as it was.
-/
namespace Xsched.Cuda.TrapHandler
open Layout (Bytes leBytes leValue load store)

def INSTR_LEN : Nat := 16

/-- The offset of the replaced instruction and `trap_inject_instrs`, as `SM70` and
`SM86` have them. -/
structure TarpHandler where
  site : Nat
  trapInjectInstrs : List Nat

/-- mirrors platforms/cuda/hal/src/arch/sm70.cpp:186-266,295-296 -/
def tarpHandlerSM70 : TarpHandler := ⟨0x260, [
  0x000000fffffff389, 0x000fe200000e00ff, 0x0000000000ff7355, 0x000fe20000100000,
  0x0000024000007945, 0x000fe40003800000, 0x00062000ff047b82, 0x000fc00000000800,
  0x00062100ff057b82, 0x000fc00000000800, 0x00062400ff067b82, 0x000fc00000000800,
  0x00062500ff077b82, 0x000fc00000000800, 0x00062600ff087b82, 0x000fc00000000800,
  0x0000000000007919, 0x000e220000002500, 0x000000ff0800720c, 0x000fc60003f05270,
  0x0000000000037919, 0x000e680000002600, 0x00000000000b7919, 0x000ea20000002700,
  0x0000000000007992, 0x000fea0000002000, 0x00000000000079ab, 0x000fc00000000000,
  0x00000000ff00798f, 0x000fca0002000000, 0x0000016000008947, 0x000fea0003800000,
  0x0000000004087980, 0x000ee4000010e900, 0x000000ff0800720c, 0x008fd80003f05270,
  0x0000013000008947, 0x000fea0003800000, 0x0000000804087980, 0x000ee2000010eb00,
  0x0000040000007a24, 0x003fe200078e0203, 0x0000000000ff7355, 0x000fe20000100000,
  0x000000c000007945, 0x000fe40003800000, 0x0000050000007a24, 0x004fca00078e020b,
  0x00000004000b7811, 0x000fca00078e08ff, 0x000000040b0a7825, 0x000fe200078e0004,
  0x000000ff0800720c, 0x008fc80003f05070, 0x000000ff0900720c, 0x000fd80003f05300,
  0x0000004000008947, 0x000fea0003800000, 0x000000060800720c, 0x000fc80003f05070,
  0x000000070900720c, 0x000fd80003f05300, 0x0000002000008947, 0x000fea0003800000,
  0x000000000000794d, 0x000fea0003800000, 0x0000000804007385, 0x0001e4000010eb06,
  0x0000000000007941, 0x000fea0003800000, 0x00000001ff037424, 0x000fd000078e00ff,
  0x000000040a007385, 0x000fe2000010e903, 0x000000000000794d, 0x000fea0003800000,
  0x0000000000007941, 0x000fea0003800000]⟩

/-- mirrors platforms/cuda/hal/src/arch/sm86.cpp:198-285,314-315 -/
def tarpHandlerSM86 : TarpHandler := ⟨0x3e0, [
  0x00062000ff047b82, 0x000fc00000000800, 0x00062100ff057b82, 0x000fc00000000800,
  0x00062400ff067b82, 0x000fc00000000800, 0x00062500ff077b82, 0x000fc00000000800,
  0x00062600ff087b82, 0x000fc00000000800, 0x0000000000007919, 0x000e220000002500,
  0x000000ff0800720c, 0x000fc60003f05270, 0x0000000000037919, 0x000e680000002600,
  0x00000000000b7919, 0x000ea20000002700, 0x00000000fffff984, 0x000fe20000000800,
  0x00000000fffff984, 0x000fe20000000800, 0x00000000fffff984, 0x000fe20000000800,
  0x00000000fffff984, 0x000fe20000000800, 0x0000000000007992, 0x000fec0000002000,
  0x00000000000079ab, 0x000fc00000000000, 0x00000000ff00798f, 0x000fca0002000000,
  0x0000015000008947, 0x000fea0003800000, 0x0000000004087980, 0x000ee40000100900,
  0x000000ff0800720c, 0x008fda0003f05270, 0x0000012000008947, 0x000fea0003800000,
  0x0000000804087980, 0x000ee20000100b00, 0x0000040000007a24, 0x003fe200078e0203,
  0x000000c000007945, 0x000fe60003800000, 0x0000050000007a24, 0x004fca00078e020b,
  0x00000004000b7811, 0x000fca00078e08ff, 0x000000040b0a7825, 0x000fe200078e0004,
  0x000000ff0800720c, 0x008fc80003f05070, 0x000000ff0900720c, 0x000fda0003f05300,
  0x0000004000008947, 0x000fea0003800000, 0x000000060800720c, 0x000fc80003f05070,
  0x000000070900720c, 0x000fda0003f05300, 0x0000002000008947, 0x000fea0003800000,
  0x000000000000794d, 0x000fea0003800000, 0x0000000804007385, 0x0001e40000100b06,
  0x0000000000007941, 0x000fea0003800000, 0x00000001ff037424, 0x000fca00078e00ff,
  0x000000040a007385, 0x000fe20000100903, 0x000000000000794d, 0x000fea0003800000]⟩

/-- mirrors platforms/cuda/hal/src/arch/sm70.cpp:268-279, sm86.cpp:287-298 -/
def setJumpInstruction (jmpAddr : Nat) : Bytes :=
  -- for example, jmp 0x7f1234567890
  let instr := leBytes 8 0x345678900000794a ++ leBytes 8 0x000fea0003807f12
  let instr := instr.set 4 (UInt8.ofNat jmpAddr)
  let instr := instr.set 5 (UInt8.ofNat (jmpAddr >>> 8))
  let instr := instr.set 6 (UInt8.ofNat (jmpAddr >>> 16))
  let instr := instr.set 7 (UInt8.ofNat (jmpAddr >>> 24))
  let instr := instr.set 8 (UInt8.ofNat (jmpAddr >>> 32))
  instr.set 9 (UInt8.ofNat (jmpAddr >>> 40))

namespace TarpHandler
variable (t : TarpHandler)

def injectInstrs : Bytes := t.trapInjectInstrs.flatMap (leBytes 8)

/-- mirrors platforms/cuda/hal/src/arch/sm70.cpp:281-284, sm86.cpp:300-303 -/
def getInjectSize : Nat := 8 * t.trapInjectInstrs.length + 2 * INSTR_LEN

/-- The handler and the injected code on the host. `none` is the failed assertion, or
a site behind the end of the buffer.
mirrors platforms/cuda/hal/src/arch/sm70.cpp:286-312, sm86.cpp:305-331 -/
def instrument (handlerHost : Bytes) (handlerDev size injectDev : Nat) : Option (Bytes × Bytes) := do
  guard (size % INSTR_LEN = 0)
  let replaced ← load handlerHost t.site INSTR_LEN
  let jmpBack := setJumpInstruction (handlerDev + t.site + INSTR_LEN)
  -- the three `memcpy` fill `inject_host`
  let injectHost := t.injectInstrs ++ replaced ++ jmpBack
  some (store handlerHost t.site (setJumpInstruction injectDev), injectHost)

end TarpHandler

/-- The architectures that have a `TarpHandler`.
mirrors platforms/cuda/hal/src/arch/arch.cpp:42-54 -/
inductive Arch where
  | SM70
  | SM86

def Arch.trapHandler : Arch → TarpHandler
  | SM70 => tarpHandlerSM70
  | SM86 => tarpHandlerSM86

structure InterruptContext where
  arch : Arch
  trapHandlerDev : Nat
  trapHandlerSize : Nat

def InterruptContext.trapHandler (c : InterruptContext) : TarpHandler := c.arch.trapHandler

/-- `initialized` and the memory of the GPU. -/
structure Process where
  initialized : Bool
  mem : Mem

/-- `injectDev` is what `InstrMemAllocator::Alloc` returns.
mirrors platforms/cuda/hal/src/level3/interrupt.cpp:29-61 -/
def instrumentTrapHandler (c : InterruptContext) (injectDev : Nat) (p : Process) : Option Process :=
  if p.initialized then some p
  else do
    let handlerHost := p.mem.read c.trapHandlerDev c.trapHandlerSize
    let (handlerHost, injectHost) ←
      c.trapHandler.instrument handlerHost c.trapHandlerDev c.trapHandlerSize injectDev
    let mem := p.mem.write injectDev injectHost
    some ⟨true, mem.write c.trapHandlerDev handlerHost⟩

/-- Calls one after another, as `init_mtx` has them. -/
def instrumentCalls (calls : List (InterruptContext × Nat)) (p : Process) : Option Process :=
  calls.foldlM (fun p call => instrumentTrapHandler call.1 call.2 p) p

/-! ## The two jumps -/

@[simp] theorem length_setJumpInstruction (a : Nat) : (setJumpInstruction a).length = INSTR_LEN := rfl

/-- The six bytes of the address, between bytes that do not depend on it. -/
theorem setJumpInstruction_eq (a : Nat) :
    setJumpInstruction a =
      [0x4a, 0x79, 0, 0] ++ leBytes 6 a ++ [0x80, 0x03, 0x00, 0xea, 0x0f, 0x00] := by
  have h : setJumpInstruction a =
      [0x4a, 0x79, 0, 0, UInt8.ofNat a, UInt8.ofNat (a >>> 8), UInt8.ofNat (a >>> 16),
        UInt8.ofNat (a >>> 24), UInt8.ofNat (a >>> 32), UInt8.ofNat (a >>> 40),
        0x80, 0x03, 0x00, 0xea, 0x0f, 0x00] := rfl
  rw [h]
  simp only [leBytes, Nat.shiftRight_eq_div_pow, Nat.div_div_eq_div_mul]
  rfl

/-- The address is read back from the instruction. -/
theorem leValue_setJumpInstruction {a : Nat} (ha : a < 2 ^ 48) :
    leValue (((setJumpInstruction a).drop 4).take 6) = a := by
  rw [setJumpInstruction_eq, List.append_assoc]
  change leValue ((leBytes 6 a ++ _).take 6) = a
  rw [List.take_append_of_le_length (by simp), List.take_of_length_le (by simp),
    Layout.leValue_leBytes]
  exact Nat.mod_eq_of_lt ha

/-! ## The injected instructions -/

/-- The operation of an instruction.
mirrors platforms/cuda/hal/inject/inject_sm70.asm:181-259 -/
def opcode (instr : Bytes) : Nat := leValue (instr.take 2) % 2 ^ 12

def BSYNC : Nat := 0x941
def BSSY : Nat := 0x945
def BRA : Nat := 0x947
def EXIT : Nat := 0x94d

/-- How far behind the next instruction the target of a `BRA` or a `BSSY` is. -/
def branchOffset (instr : Bytes) : Nat := leValue ((instr.drop 4).take 4)

namespace TarpHandler
variable (t : TarpHandler)

def instrAt (i : Nat) : Bytes := (t.injectInstrs.drop i).take INSTR_LEN

/-- The offsets of the injected instructions. -/
def offsets : List Nat :=
  (List.range (t.injectInstrs.length / INSTR_LEN)).map fun k => INSTR_LEN * k

def target (i : Nat) : Nat := i + INSTR_LEN + branchOffset (t.instrAt i)

/-- Where the threads go on that a `BSYNC` brings together. -/
def joins : List Nat := (t.offsets.filter fun i => opcode (t.instrAt i) = BSSY).map t.target

/-- Where the instruction at an offset may lead. -/
def successors (i : Nat) : List Nat :=
  (i + INSTR_LEN) ::
    if opcode (t.instrAt i) = BRA then [t.target i]
    else if opcode (t.instrAt i) = BSYNC then t.joins else []

theorem target_mem_successors {i : Nat} (h : opcode (t.instrAt i) = BRA) :
    t.target i ∈ t.successors i := by
  refine List.mem_cons_of_mem _ ?_
  rw [if_pos h]
  exact List.mem_singleton_self _

end TarpHandler

theorem site_aligned (arch : Arch) : INSTR_LEN ∣ arch.trapHandler.site := by
  cases arch <;> decide

theorem length_injectInstrs (t : TarpHandler) :
    t.injectInstrs.length = 8 * t.trapInjectInstrs.length := by
  unfold TarpHandler.injectInstrs
  induction t.trapInjectInstrs with
  | nil => rfl
  | cons w ws ih =>
    rw [List.flatMap_cons, List.length_append, ih, Layout.length_leBytes, List.length_cons]
    omega

theorem injectInstrs_aligned (arch : Arch) : INSTR_LEN ∣ arch.trapHandler.injectInstrs.length := by
  rw [length_injectInstrs]
  cases arch <;> decide

/-- The injected instructions branch among themselves and to their end. -/
theorem successors_closed (arch : Arch) :
    ∀ i ∈ arch.trapHandler.offsets, ∀ j ∈ arch.trapHandler.successors i,
      INSTR_LEN ∣ j ∧ j ≤ arch.trapHandler.injectInstrs.length := by
  cases arch <;> decide +kernel

theorem mem_offsets {t : TarpHandler} {i : Nat} (hd : INSTR_LEN ∣ i)
    (hlt : i < t.injectInstrs.length) (hlen : INSTR_LEN ∣ t.injectInstrs.length) :
    i ∈ t.offsets := by
  obtain ⟨k, rfl⟩ := hd
  obtain ⟨n, hn⟩ := hlen
  have hpos : 0 < INSTR_LEN := by decide
  refine List.mem_map.2 ⟨k, List.mem_range.2 ?_, rfl⟩
  rw [hn] at hlt ⊢
  rw [Nat.mul_div_cancel_left n hpos]
  exact Nat.lt_of_mul_lt_mul_left hlt

/-! ## What is in memory afterwards -/

section
variable (c : InterruptContext) (injectDev : Nat)

def trampoline : Trampoline where
  site := c.trapHandlerDev + c.trapHandler.site
  inject := injectDev
  body := c.trapHandler.injectInstrs.length

/-- Where the code and the memory for it may lie. -/
structure Fits : Prop where
  size : c.trapHandlerSize % INSTR_LEN = 0
  site : c.trapHandler.site + INSTR_LEN ≤ c.trapHandlerSize
  handler_aligned : INSTR_LEN ∣ c.trapHandlerDev
  inject_aligned : INSTR_LEN ∣ injectDev
  apart : injectDev + c.trapHandler.getInjectSize ≤ c.trapHandlerDev ∨
    c.trapHandlerDev + c.trapHandlerSize ≤ injectDev
  handler_lt : c.trapHandlerDev + c.trapHandlerSize < 2 ^ 48
  inject_lt : injectDev < 2 ^ 48

/-- What `SetJumpInstruction` and the code rely on. -/
structure Assumed {σ : Type} (isa : Isa σ) (m : Mem) : Prop where
  jumps : ∀ a, a < 2 ^ 48 → isa.Jumps (setJumpInstruction a) a
  /-- "should be IADD3 R1, R1, -0x10, RZ" -/
  replaced : isa.Movable INSTR_LEN (m.read (c.trapHandlerDev + c.trapHandler.site) INSTR_LEN)
  /-- Of the injected instructions only `BRA` and `BSYNC` do not lead to the next one. -/
  flow : ∀ m' p q, Mem.read m' injectDev c.trapHandler.injectInstrs.length =
      c.trapHandler.injectInstrs → INSTR_LEN ∣ p.1 →
    (trampoline c injectDev).BodyStep isa INSTR_LEN m' p q →
    ∃ j ∈ c.trapHandler.successors (p.1 - injectDev), q.1 = injectDev + j
  /-- Nothing branches into memory that was just allocated, nor into an instruction. -/
  unaware : ∀ p q, (trampoline c injectDev).Visible INSTR_LEN p.1 → isa.Step INSTR_LEN m p q →
    (trampoline c injectDev).Visible INSTR_LEN q.1

variable {c} {injectDev} {m : Mem}

/-- The body leaves itself at its end only. -/
theorem body_closed {σ : Type} {isa : Isa σ} (hf : Fits c injectDev)
    (ha : Assumed c injectDev isa m) {m' : Mem} {p q : Nat × σ}
    (hbody : m'.read injectDev c.trapHandler.injectInstrs.length = c.trapHandler.injectInstrs)
    (hp : INSTR_LEN ∣ p.1) (hb : (trampoline c injectDev).BodyStep isa INSTR_LEN m' p q) :
    INSTR_LEN ∣ q.1 ∧ injectDev ≤ q.1 ∧ q.1 ≤ injectDev + c.trapHandler.injectInstrs.length := by
  obtain ⟨j, hj, hq⟩ := ha.flow m' p q hbody hp hb
  have hlt : p.1 - injectDev < c.trapHandler.injectInstrs.length := by
    have h₁ : injectDev ≤ p.1 := hb.1
    have h₂ : p.1 < injectDev + c.trapHandler.injectInstrs.length := hb.2.1
    omega
  have hmem : p.1 - injectDev ∈ c.trapHandler.offsets :=
    mem_offsets (Nat.dvd_sub hp hf.inject_aligned) hlt (injectInstrs_aligned c.arch)
  obtain ⟨hd, hle⟩ := successors_closed c.arch _ hmem j hj
  rw [hq]
  exact ⟨Nat.dvd_add hf.inject_aligned hd, Nat.le_add_right _ _, Nat.add_le_add_left hle _⟩

/-- The memory that the first call leaves. -/
def patched (c : InterruptContext) (injectDev : Nat) (m : Mem) : Mem :=
  (m.write injectDev (c.trapHandler.injectInstrs ++
    m.read (c.trapHandlerDev + c.trapHandler.site) INSTR_LEN ++
    setJumpInstruction (c.trapHandlerDev + c.trapHandler.site + INSTR_LEN))).write c.trapHandlerDev
    (store (m.read c.trapHandlerDev c.trapHandlerSize) c.trapHandler.site
      (setJumpInstruction injectDev))

/-- With a handler of whole instructions and the site in it, the assertion passes. -/
theorem instrument_eq (hf : Fits c injectDev) :
    c.trapHandler.instrument (m.read c.trapHandlerDev c.trapHandlerSize) c.trapHandlerDev
      c.trapHandlerSize injectDev =
    some (store (m.read c.trapHandlerDev c.trapHandlerSize) c.trapHandler.site
        (setJumpInstruction injectDev),
      c.trapHandler.injectInstrs ++
        m.read (c.trapHandlerDev + c.trapHandler.site) INSTR_LEN ++
        setJumpInstruction (c.trapHandlerDev + c.trapHandler.site + INSTR_LEN)) := by
  have hsite := hf.site
  have hload : load (m.read c.trapHandlerDev c.trapHandlerSize) c.trapHandler.site INSTR_LEN =
      some (m.read (c.trapHandlerDev + c.trapHandler.site) INSTR_LEN) := by
    rw [Layout.load_eq_some (by rw [Mem.length_read]; exact hsite), Mem.drop_take_read m hsite]
  unfold TarpHandler.instrument
  rw [guard, if_pos hf.size, hload]
  rfl

theorem instrumentTrapHandler_first (hf : Fits c injectDev) :
    instrumentTrapHandler c injectDev ⟨false, m⟩ = some ⟨true, patched c injectDev m⟩ := by
  unfold instrumentTrapHandler
  simp only [Bool.false_eq_true, if_false, instrument_eq hf]
  rfl

/-- Once patched, nothing is patched again, whatever context calls. -/
theorem instrumentCalls_initialized (calls : List (InterruptContext × Nat)) :
    instrumentCalls calls ⟨true, m⟩ = some ⟨true, m⟩ := by
  induction calls with
  | nil => rfl
  | cons call rest ih => exact ih

theorem instrumentCalls_cons (hf : Fits c injectDev) (rest : List (InterruptContext × Nat)) :
    instrumentCalls ((c, injectDev) :: rest) ⟨false, m⟩ = some ⟨true, patched c injectDev m⟩ := by
  unfold instrumentCalls
  rw [List.foldlM_cons, instrumentTrapHandler_first hf]
  exact instrumentCalls_initialized rest

theorem getInjectSize_eq (t : TarpHandler) :
    t.getInjectSize = t.injectInstrs.length + INSTR_LEN + INSTR_LEN := by
  rw [length_injectInstrs]
  unfold TarpHandler.getInjectSize
  omega

/-- The handler outside of the site is copied back as it was. -/
theorem read_patched_handler (hf : Fits c injectDev) {off n : Nat}
    (hle : off + n ≤ c.trapHandlerSize)
    (hoff : off + n ≤ c.trapHandler.site ∨ c.trapHandler.site + INSTR_LEN ≤ off) :
    (patched c injectDev m).read (c.trapHandlerDev + off) n = m.read (c.trapHandlerDev + off) n := by
  have hsite := hf.site
  have hlen : c.trapHandler.site + (setJumpInstruction injectDev).length ≤
      (m.read c.trapHandlerDev c.trapHandlerSize).length := by simpa using hsite
  have hload : load (store (m.read c.trapHandlerDev c.trapHandlerSize) c.trapHandler.site
      (setJumpInstruction injectDev)) off n =
      load (m.read c.trapHandlerDev c.trapHandlerSize) off n := by
    rcases hoff with hbelow | habove
    · exact Layout.load_store_below hlen hbelow
    · exact Layout.load_store_above hlen (by simpa using habove)
  have hstored := Layout.length_store hlen
  rw [Mem.length_read] at hstored
  rw [Layout.load_eq_some (by omega), Layout.load_eq_some (by rw [Mem.length_read]; exact hle),
    Mem.drop_take_read m hle] at hload
  unfold patched
  rw [Mem.read_write_within _ (by omega)]
  exact Option.some.inj hload

theorem read_patched_site (hf : Fits c injectDev) :
    (patched c injectDev m).read (c.trapHandlerDev + c.trapHandler.site) INSTR_LEN =
      setJumpInstruction injectDev := by
  have hsite := hf.site
  have hlen : c.trapHandler.site + (setJumpInstruction injectDev).length ≤
      (m.read c.trapHandlerDev c.trapHandlerSize).length := by simpa using hsite
  have hload := Layout.load_store_self hlen
  have hstored := Layout.length_store hlen
  rw [length_setJumpInstruction] at hlen hload
  rw [Layout.load_eq_some (by omega)] at hload
  unfold patched
  rw [Mem.read_write_within _ (by omega)]
  exact Option.some.inj hload

/-- Memory apart from the handler is what was written for the injected code. -/
theorem read_patched_apart (hf : Fits c injectDev) {a n : Nat}
    (ha : a + n ≤ c.trapHandlerDev ∨ c.trapHandlerDev + c.trapHandlerSize ≤ a) :
    (patched c injectDev m).read a n =
      (m.write injectDev (c.trapHandler.injectInstrs ++
        m.read (c.trapHandlerDev + c.trapHandler.site) INSTR_LEN ++
        setJumpInstruction (c.trapHandlerDev + c.trapHandler.site + INSTR_LEN))).read a n := by
  have hsite := hf.site
  unfold patched
  apply Mem.read_write_disjoint
  rwa [Layout.length_store (by simpa using hsite), Mem.length_read]

theorem read_patched_inject (hf : Fits c injectDev) {off n : Nat}
    (h : off + n ≤ c.trapHandler.getInjectSize) :
    (patched c injectDev m).read (injectDev + off) n =
      ((c.trapHandler.injectInstrs ++
        m.read (c.trapHandlerDev + c.trapHandler.site) INSTR_LEN ++
        setJumpInstruction (c.trapHandlerDev + c.trapHandler.site + INSTR_LEN)).drop off).take n := by
  have hapart := hf.apart
  rw [read_patched_apart hf (by omega), Mem.read_write_within]
  rw [getInjectSize_eq] at h
  simpa [Nat.add_assoc] using h

theorem read_patched_body (hf : Fits c injectDev) :
    (patched c injectDev m).read injectDev c.trapHandler.injectInstrs.length =
      c.trapHandler.injectInstrs := by
  have hsize := getInjectSize_eq c.trapHandler
  have h := read_patched_inject (m := m) hf
    (show 0 + c.trapHandler.injectInstrs.length ≤ c.trapHandler.getInjectSize by omega)
  rwa [List.drop_zero, List.append_assoc, List.take_left] at h

theorem read_patched_moved (hf : Fits c injectDev) :
    (patched c injectDev m).read (injectDev + c.trapHandler.injectInstrs.length) INSTR_LEN =
      m.read (c.trapHandlerDev + c.trapHandler.site) INSTR_LEN := by
  have hsize := getInjectSize_eq c.trapHandler
  rw [read_patched_inject hf (by omega), List.append_assoc, List.drop_left,
    List.take_left' (Mem.length_read _ _ _)]

theorem read_patched_back (hf : Fits c injectDev) :
    (patched c injectDev m).read (injectDev + c.trapHandler.injectInstrs.length + INSTR_LEN)
      INSTR_LEN = setJumpInstruction (c.trapHandlerDev + c.trapHandler.site + INSTR_LEN) := by
  have hsize := getInjectSize_eq c.trapHandler
  rw [Nat.add_assoc, read_patched_inject hf (by omega), List.drop_left' (by simp),
    List.take_of_length_le (by simp)]

theorem read_patched_disjoint (hf : Fits c injectDev) {a n : Nat}
    (hh : a + n ≤ c.trapHandlerDev ∨ c.trapHandlerDev + c.trapHandlerSize ≤ a)
    (hi : a + n ≤ injectDev ∨ injectDev + c.trapHandler.getInjectSize ≤ a) :
    (patched c injectDev m).read a n = m.read a n := by
  rw [read_patched_apart hf hh]
  apply Mem.read_write_disjoint
  rw [getInjectSize_eq] at hi
  simpa [Nat.add_assoc] using hi

/-- Aligned instructions meet neither the replaced one nor the injected code. -/
theorem read_patched_same (hf : Fits c injectDev) {a : Nat}
    (hv : (trampoline c injectDev).Visible INSTR_LEN a)
    (hne : a ≠ c.trapHandlerDev + c.trapHandler.site) :
    (patched c injectDev m).read a INSTR_LEN = m.read a INSTR_LEN := by
  have hsize := getInjectSize_eq c.trapHandler
  obtain ⟨⟨k, hk⟩, hout⟩ := hv
  obtain ⟨i, hinject⟩ := hf.inject_aligned
  obtain ⟨d, hdev⟩ := hf.handler_aligned
  obtain ⟨r, hsite⟩ : INSTR_LEN ∣ c.trapHandler.site := site_aligned c.arch
  have hmod := hf.size
  simp only [Trampoline.Within, trampoline, not_and, Nat.not_lt] at hout
  unfold INSTR_LEN at *
  by_cases hin : c.trapHandlerDev ≤ a ∧ a < c.trapHandlerDev + c.trapHandlerSize
  · obtain ⟨off, rfl⟩ := Nat.exists_eq_add_of_le hin.1
    exact read_patched_handler hf (by omega) (by unfold INSTR_LEN; omega)
  · exact read_patched_disjoint hf (by omega) (by omega)

/-! ## The hook -/

/-- The first call installs the trampoline. -/
theorem installed {σ : Type} {isa : Isa σ} (hf : Fits c injectDev) (ha : Assumed c injectDev isa m) :
    (trampoline c injectDev).Installed isa INSTR_LEN m (patched c injectDev m) := by
  have hsite := hf.site
  have hlt := hf.handler_lt
  have hsize := getInjectSize_eq c.trapHandler
  have hapart := hf.apart
  have halign : INSTR_LEN ∣ c.trapHandlerDev + c.trapHandler.site :=
    Nat.dvd_add hf.handler_aligned (site_aligned c.arch)
  have hlen : 0 < INSTR_LEN := by decide
  constructor
  case len_pos => exact hlen
  case site =>
    refine ⟨halign, fun hin => ?_⟩
    obtain ⟨h₁, h₂⟩ := hin
    simp only [trampoline] at h₁ h₂
    omega
  case inject => exact hf.inject_aligned
  case body => exact injectInstrs_aligned c.arch
  case jump =>
    change isa.Jumps (Mem.read _ (c.trapHandlerDev + c.trapHandler.site) INSTR_LEN) injectDev
    rw [read_patched_site hf]
    exact ha.jumps _ hf.inject_lt
  case moved => exact read_patched_moved hf
  case movable => exact ha.replaced
  case back =>
    change isa.Jumps (Mem.read _ (injectDev + c.trapHandler.injectInstrs.length + INSTR_LEN) _)
      (c.trapHandlerDev + c.trapHandler.site + INSTR_LEN)
    rw [read_patched_back hf]
    exact ha.jumps _ (by omega)
  case same =>
    intro a hv hne
    exact read_patched_same hf hv hne
  case closed =>
    intro p q hp hb
    exact body_closed hf ha (read_patched_body hf) hp hb
  case unaware => exact ha.unaware

end

/-- Jumps, branches that are taken, `EXIT`, and instructions that add one to a register;
there is no instruction of zeros. -/
def smallIsa : Isa Nat := fun instr p q =>
  if instr.take 4 = [0x4a, 0x79, 0, 0] then q = (leValue ((instr.drop 4).take 6), p.2)
  else if opcode instr = 0 ∨ opcode instr = EXIT then False
  else q = (p.1 + INSTR_LEN + (if opcode instr = BRA then branchOffset instr else 0), p.2 + 1)

def smallContext (arch : Arch) : InterruptContext := ⟨arch, 0x1000, 0x400⟩

/-- `R2P PR, RZ` and `IADD3 R1, R1, -0x10, RZ`, which is at the site.
mirrors platforms/cuda/hal/inject/trap_handler_sm86.asm:130-136 -/
def smallInstrs : Bytes :=
  leBytes 8 0x000000ff00007804 ++ leBytes 8 0x000fe40000000000 ++
    (leBytes 8 0xfffffff001017810 ++ leBytes 8 0x002fe40007ffe0ff)

def smallStart (arch : Arch) : Nat := 0x1000 + arch.trapHandler.site - INSTR_LEN

def smallMem (arch : Arch) : Mem := Mem.write (fun _ => 0) (smallStart arch) smallInstrs

theorem fits_small (arch : Arch) : Fits (smallContext arch) 0x2000 := by
  constructor <;> cases arch <;> decide

theorem smallIsa_next {instr : Bytes} (hjump : instr.take 4 ≠ [0x4a, 0x79, 0, 0])
    (hop : ¬ (opcode instr = 0 ∨ opcode instr = EXIT)) (p q : Nat × Nat) :
    smallIsa instr p q ↔
      q = (p.1 + INSTR_LEN + (if opcode instr = BRA then branchOffset instr else 0), p.2 + 1) := by
  unfold smallIsa
  rw [if_neg hjump, if_neg hop]

/-- The instruction at the site and the one in front of it. -/
theorem read_smallMem (arch : Arch) :
    (smallMem arch).read (smallStart arch) INSTR_LEN = smallInstrs.take INSTR_LEN ∧
    (smallMem arch).read (smallStart arch + INSTR_LEN) INSTR_LEN = smallInstrs.drop INSTR_LEN := by
  have h₁ := Mem.read_write_within (fun _ => 0) (a := smallStart arch)
    (show 0 + INSTR_LEN ≤ smallInstrs.length by decide)
  have h₂ := Mem.read_write_within (fun _ => 0) (a := smallStart arch)
    (show INSTR_LEN + INSTR_LEN ≤ smallInstrs.length by decide)
  exact ⟨h₁, h₂⟩

/-- The handler consists of these two instructions. -/
theorem step_small {arch : Arch} {p q : Nat × Nat} (hp : INSTR_LEN ∣ p.1)
    (h : smallIsa.Step INSTR_LEN (smallMem arch) p q) :
    (p.1 = smallStart arch ∨ p.1 = smallStart arch + INSTR_LEN) ∧
      q = (p.1 + INSTR_LEN, p.2 + 1) := by
  have halign : INSTR_LEN ∣ smallStart arch := by cases arch <;> decide
  by_cases hin : p.1 = smallStart arch ∨ p.1 = smallStart arch + INSTR_LEN
  · refine ⟨hin, ?_⟩
    unfold Isa.Step at h
    rcases hin with hpc | hpc
    · rw [hpc, (read_smallMem arch).1, smallIsa_next (by decide) (by decide),
        if_neg (by decide)] at h
      exact h
    · rw [hpc, (read_smallMem arch).2, smallIsa_next (by decide) (by decide),
        if_neg (by decide)] at h
      exact h
  · have hzero : (smallMem arch).read p.1 INSTR_LEN = List.replicate INSTR_LEN 0 := by
      unfold smallMem
      rw [Mem.read_write_disjoint, Mem.read_const]
      obtain ⟨k, hk⟩ := hp
      obtain ⟨n, hn⟩ := halign
      have hlen : smallInstrs.length = 32 := rfl
      rw [hlen]
      unfold INSTR_LEN at *
      omega
    unfold Isa.Step at h
    rw [hzero] at h
    exact absurd h (by unfold smallIsa; rw [if_neg (by decide), if_pos (by decide)]; exact id)

/-- What the small machine makes of the injected instruction at an offset. -/
theorem small_instrAt (arch : Arch) : ∀ i ∈ arch.trapHandler.offsets,
    (arch.trapHandler.instrAt i).take 4 ≠ [0x4a, 0x79, 0, 0] := by
  cases arch <;> decide +kernel

/-- An injected instruction, read where it was written. -/
theorem read_instrAt {t : TarpHandler} {m : Mem} {a i : Nat}
    (hbody : m.read a t.injectInstrs.length = t.injectInstrs)
    (hi : i + INSTR_LEN ≤ t.injectInstrs.length) : m.read (a + i) INSTR_LEN = t.instrAt i := by
  have h := Mem.drop_take_read m (a := a) hi
  rw [hbody] at h
  exact h.symm

theorem add_le_of_mem_offsets {t : TarpHandler} {i : Nat} (h : i ∈ t.offsets) :
    i + INSTR_LEN ≤ t.injectInstrs.length := by
  obtain ⟨k, hk, rfl⟩ := List.mem_map.1 h
  have hlt : k + 1 ≤ t.injectInstrs.length / INSTR_LEN := List.mem_range.1 hk
  have hle := (Nat.le_div_iff_mul_le (by decide)).1 hlt
  rwa [Nat.mul_comm, Nat.mul_add, Nat.mul_one] at hle

theorem assumed_small (arch : Arch) :
    Assumed (smallContext arch) 0x2000 smallIsa (smallMem arch) where
  jumps a ha p q := by
    have hhead : (setJumpInstruction a).take 4 = [0x4a, 0x79, 0, 0] := rfl
    unfold smallIsa
    rw [if_pos hhead, leValue_setJumpInstruction ha]
  replaced := by
    have hsite : 0x1000 + arch.trapHandler.site = smallStart arch + INSTR_LEN := by
      cases arch <;> rfl
    refine ⟨fun s s' => s' = s + 1, fun p q => ?_⟩
    change smallIsa ((smallMem arch).read (0x1000 + arch.trapHandler.site) INSTR_LEN) p q ↔ _
    rw [hsite, (read_smallMem arch).2, smallIsa_next (by decide) (by decide), if_neg (by decide),
      Prod.ext_iff]
    rfl
  flow m' p q hbody hp hb := by
    obtain ⟨hle, hlt, hs⟩ := hb
    obtain ⟨i, hpc⟩ := Nat.exists_eq_add_of_le hle
    have hlt' : i < arch.trapHandler.injectInstrs.length := by
      rw [hpc] at hlt
      exact Nat.lt_of_add_lt_add_left hlt
    have hmem : i ∈ arch.trapHandler.offsets := by
      refine mem_offsets ?_ hlt' (injectInstrs_aligned arch)
      rw [hpc] at hp
      exact (Nat.dvd_add_right (show INSTR_LEN ∣ 0x2000 by decide)).1 hp
    have hread : Mem.read m' p.1 INSTR_LEN = arch.trapHandler.instrAt i := by
      rw [hpc]
      exact read_instrAt hbody (add_le_of_mem_offsets hmem)
    have hi : p.1 - 0x2000 = i := by rw [hpc]; exact Nat.add_sub_cancel_left ..
    unfold Isa.Step smallIsa at hs
    rw [hread, if_neg (small_instrAt arch i hmem)] at hs
    rw [hi]
    split at hs
    · cases hs
    · have hq : q.1 = 0x2000 + i + INSTR_LEN +
          if opcode (arch.trapHandler.instrAt i) = BRA then
            branchOffset (arch.trapHandler.instrAt i) else 0 := by
        rw [hs, hpc]
        rfl
      by_cases hbra : opcode (arch.trapHandler.instrAt i) = BRA
      · refine ⟨_, arch.trapHandler.target_mem_successors hbra, ?_⟩
        rw [hq, if_pos hbra, TarpHandler.target]
        omega
      · refine ⟨i + INSTR_LEN, List.mem_cons_self, ?_⟩
        rw [hq, if_neg hbra]
        rfl
  unaware p q hv hs := by
    obtain ⟨hpc, rfl⟩ := step_small hv.1 hs
    refine ⟨Nat.dvd_add hv.1 (Nat.dvd_refl _), fun hin => ?_⟩
    have hle : smallStart arch + INSTR_LEN + INSTR_LEN < 0x2000 := by cases arch <;> decide
    have h₁ : 0x2000 ≤ p.1 + INSTR_LEN := hin.1
    omega

/-- Where the small machine is after `k` of the injected instructions. -/
def TarpHandler.after (t : TarpHandler) : Nat → Nat
  | 0 => 0
  | k + 1 =>
    let i := t.after k
    if opcode (t.instrAt i) = BRA then t.target i else i + INSTR_LEN

/-- It is at the first branch to the end after 17 of them, and has not met an `EXIT`. -/
theorem after_small (arch : Arch) :
    arch.trapHandler.after 17 = arch.trapHandler.injectInstrs.length ∧
    ∀ k < 17, arch.trapHandler.after k ∈ arch.trapHandler.offsets ∧
      ¬ (opcode (arch.trapHandler.instrAt (arch.trapHandler.after k)) = 0 ∨
        opcode (arch.trapHandler.instrAt (arch.trapHandler.after k)) = EXIT) := by
  cases arch <;> decide +kernel

/-- A pass through the injected instructions. -/
theorem hook_small {arch : Arch} {m : Mem} (s : Nat)
    (hbody : m.read 0x2000 arch.trapHandler.injectInstrs.length = arch.trapHandler.injectInstrs) :
    (trampoline (smallContext arch) 0x2000).Hook smallIsa INSTR_LEN m s (s + 17) := by
  have hpass (k : Nat) (hk : k ≤ 17) : Relation.ReflTransGen
      ((trampoline (smallContext arch) 0x2000).BodyStep smallIsa INSTR_LEN m)
      (0x2000, s) (0x2000 + arch.trapHandler.after k, s + k) := by
    induction k with
    | zero => exact .refl
    | succ k ih =>
      obtain ⟨hmem, hop⟩ := (after_small arch).2 k hk
      have hle := add_le_of_mem_offsets hmem
      refine (ih (Nat.le_of_lt hk)).tail ⟨Nat.le_add_right _ _, ?_, ?_⟩
      · have hpos : 0 < INSTR_LEN := by decide
        exact Nat.add_lt_add_left (Nat.lt_of_lt_of_le (Nat.lt_add_of_pos_right hpos) hle) _
      · unfold Isa.Step
        rw [read_instrAt hbody hle, smallIsa_next (small_instrAt arch _ hmem) hop, TarpHandler.after]
        split
        · rw [TarpHandler.target, ← Nat.add_assoc, ← Nat.add_assoc]
          rfl
        · rfl
  have h := hpass 17 (Nat.le_refl _)
  rw [(after_small arch).1] at h
  exact h

/-- The handler of the small machine. -/
theorem step_smallMem (arch : Arch) (i s : Nat) (hi : i = 0 ∨ i = INSTR_LEN) :
    smallIsa.Step INSTR_LEN (smallMem arch) (smallStart arch + i, s)
      (smallStart arch + i + INSTR_LEN, s + 1) := by
  unfold Isa.Step
  rcases hi with rfl | rfl
  · rw [Nat.add_zero, (read_smallMem arch).1, smallIsa_next (by decide) (by decide),
      if_neg (by decide)]
    rfl
  · rw [(read_smallMem arch).2, smallIsa_next (by decide) (by decide), if_neg (by decide)]
    rfl

theorem hookedStep_small {arch : Arch} {m : Mem}
    (hbody : m.read 0x2000 arch.trapHandler.injectInstrs.length = arch.trapHandler.injectInstrs) :
    Relation.ReflTransGen (smallIsa.HookedStep INSTR_LEN (smallMem arch)
        (0x1000 + arch.trapHandler.site)
        ((trampoline (smallContext arch) 0x2000).Hook smallIsa INSTR_LEN m))
      (smallStart arch, 0) (smallStart arch + INSTR_LEN + INSTR_LEN, 19) := by
  have hsite : 0x1000 + arch.trapHandler.site = smallStart arch + INSTR_LEN := by
    cases arch <;> rfl
  rw [hsite]
  refine .tail (.single (Or.inl ⟨?_, step_smallMem arch 0 0 (.inl rfl)⟩))
    (Or.inr ⟨rfl, 18, hook_small 1 hbody, step_smallMem arch INSTR_LEN 18 (.inr rfl)⟩)
  exact Nat.ne_of_lt (Nat.lt_add_of_pos_right (by decide))

end Xsched.Cuda.TrapHandler
