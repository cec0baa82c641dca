import Mathlib.Algebra.Ring.Nat
import Xsched.Cuda.Guardian
import Xsched.Cuda.InstrMem

/-!
# The preempt buffer and the blocks of a grid

`InstrumentManager::Instrument` expands the buffer of a stream to two words for
the header and two flags for each block of the kernel. How many blocks there are
is computed by `BlockCnt` on the host, which flags are a block's by `get_blockid`
and an index on the device, all of it in 32 bits.

**The break.** The size is a `size_t`, and `ExpandTo` refuses one beyond
`VM_DEFAULT_SIZE`; but the block count is cut to 32 bits before. A grid of `2 ^ 32`
blocks asks for the header alone, and its blocks write behind the buffer.

**Results**
* `instrument_covers_iff`: the flags of every block lie in the buffer, each block
  has its own, if and only if there are at most `2 ^ 31 - 2` blocks, or the size
  from the block count cut to 32 bits is refused.
* `instruments_cover`: the buffer never shrinks, so that it covers all grids it was
  expanded for.
-/
namespace Xsched.Cuda

/-- mirrors platforms/cuda/hal/include/xsched/cuda/hal/level2/mm.h:9 -/
def VM_DEFAULT_SIZE : UInt64 := (1 : UInt64) <<< 30

/-! ## Rounding -/

/-- Rounding up to the granularity does not wrap, and gives no less. -/
theorem le_roundUp {x align : UInt64} (halign : 0 < align) (hx : 0 < x)
    (hle : x ≤ VM_DEFAULT_SIZE) : x ≤ roundUp x align := by
  have hvm : VM_DEFAULT_SIZE.toNat = 2 ^ 30 := rfl
  rw [UInt64.le_iff_toNat_le, hvm] at hle
  rw [UInt64.lt_iff_toNat_lt] at halign hx
  change 0 < align.toNat at halign
  change 0 < x.toNat at hx
  have hpred : (x - 1).toNat = x.toNat - 1 := by
    rw [UInt64.toNat_sub]
    change (2 ^ 64 - 1 + x.toNat) % 2 ^ 64 = x.toNat - 1
    have := x.toNat_lt
    omega
  have hquot : (x.toNat - 1) / align.toNat ≤ x.toNat - 1 := Nat.div_le_self _ _
  have hcount : ((x - 1) / align + 1).toNat = (x.toNat - 1) / align.toNat + 1 := by
    rw [UInt64.toNat_add, UInt64.toNat_div, hpred]
    refine Nat.mod_eq_of_lt (Nat.lt_of_le_of_lt (Nat.succ_le_succ hquot) ?_)
    omega
  have hmul := Nat.div_mul_le_self (x.toNat - 1) align.toNat
  have hlt := Nat.lt_div_mul_add (a := x.toNat - 1) halign
  have halign' := align.toNat_lt
  have hexact : (roundUp x align).toNat = (x.toNat - 1) / align.toNat * align.toNat + align.toNat := by
    rw [roundUp, UInt64.toNat_mul, hcount, Nat.succ_mul]
    refine Nat.mod_eq_of_lt ?_
    rcases Nat.lt_or_ge (x.toNat - 1) align.toNat with hsmall | hlarge
    · rw [Nat.div_eq_of_lt hsmall]
      omega
    · omega
  rw [UInt64.le_iff_toNat_le, hexact]
  omega

/-! ## The buffer -/

/-- The sizes of the handles that are mapped one behind the other from `ptr_`.
mirrors platforms/cuda/hal/include/xsched/cuda/hal/level2/mm.h:15-36 -/
structure ResizableBuffer where
  size : UInt64
  granularity : UInt64
  handles : List UInt64
  granularity_pos : 0 < granularity
  mapped : (handles.map UInt64.toNat).sum = size.toNat

/-- `maps` answers the calls that create, map and clear the memory; where one
fails, or the size is refused, the process ends.
mirrors platforms/cuda/hal/src/level2/mm.cpp:68-95 -/
def ResizableBuffer.expandTo (maps : UInt64 → Bool) (b : ResizableBuffer) (newSize : UInt64) :
    Option ResizableBuffer :=
  if hkeep : newSize ≤ b.size then some b
  else if hvm : VM_DEFAULT_SIZE < newSize then none
  else
    let rounded := roundUp newSize b.granularity
    let handleSize := rounded - b.size
    if maps handleSize then
      some {
        size := rounded
        granularity := b.granularity
        handles := b.handles ++ [handleSize]
        granularity_pos := b.granularity_pos
        mapped := by
          have hlt : b.size < newSize := UInt64.not_le.1 hkeep
          have hround := le_roundUp b.granularity_pos
            (UInt64.lt_of_le_of_lt (UInt64.le_iff_toNat_le.2 (Nat.zero_le _)) hlt)
            (UInt64.not_lt.1 hvm)
          have hle : b.size ≤ rounded := UInt64.le_trans (UInt64.le_of_lt hlt) hround
          rw [List.map_append, List.sum_append, b.mapped, List.map_singleton, List.sum_singleton,
            UInt64.toNat_sub_of_le _ _ hle]
          rw [UInt64.le_iff_toNat_le] at hle
          omega }
    else none

/-- mirrors platforms/cuda/hal/src/level2/mm.cpp:44-54 -/
def ResizableBuffer.create (granularity : UInt64) (hpos : 0 < granularity) : ResizableBuffer where
  size := roundUp BUFFER_DEFAULT_SIZE granularity
  granularity := granularity
  handles := [roundUp BUFFER_DEFAULT_SIZE granularity]
  granularity_pos := hpos
  mapped := by simp

/-! ## Grids -/

/-- A grid that CUDA launches. -/
structure LaunchGrid where
  x : UInt32
  y : UInt32
  z : UInt32
  x_le : x.toNat ≤ 2 ^ 31 - 1
  y_le : y.toNat ≤ 65535
  z_le : z.toNat ≤ 65535

namespace LaunchGrid

def blocks (g : LaunchGrid) : Nat := g.x.toNat * g.y.toNat * g.z.toNat

/-- mirrors platforms/cuda/hal/include/xsched/cuda/hal/common/cuda_command.h:74,91-92 -/
def blockCnt (g : LaunchGrid) : UInt32 := g.x * g.y * g.z

end LaunchGrid

/-- `blockIdx` in a grid. -/
structure Block (g : LaunchGrid) where
  x : UInt32
  y : UInt32
  z : UInt32
  x_lt : x < g.x
  y_lt : y < g.y
  z_lt : z < g.z

namespace Block

variable {g : LaunchGrid}

/-- mirrors platforms/cuda/hal/inject/inject.cu:178-181 -/
def getBlockid (b : Block g) : UInt32 := b.x * g.y * g.z + b.y * g.z + b.z

/-- The word of the exit flag.
mirrors platforms/cuda/hal/inject/inject.cu:53,101 -/
def exitFlag (b : Block g) : UInt64 := (2 * b.getBlockid + 4).toUInt64

/-- The word of the restore flag, to `check_preempt`.
mirrors platforms/cuda/hal/inject/inject.cu:54,102 -/
def restoreFlag (b : Block g) : UInt64 := b.exitFlag + 1

/-- The word of the restore flag, to `restore_exec`.
mirrors platforms/cuda/hal/inject/inject.cu:130,165 -/
def restoreFlag' (b : Block g) : UInt64 := (2 * b.getBlockid + 5).toUInt64

/-- The number of the block, before it is cut to 32 bits. -/
def number (b : Block g) : Nat := RowMajor.number g.y.toNat g.z.toNat b.x.toNat b.y.toNat b.z.toNat

theorem number_lt (b : Block g) : b.number < g.blocks :=
  RowMajor.number_lt (UInt32.lt_iff_toNat_lt.1 b.x_lt) (UInt32.lt_iff_toNat_lt.1 b.y_lt)
    (UInt32.lt_iff_toNat_lt.1 b.z_lt)

theorem number_inj {b b' : Block g} (h : b.number = b'.number) : b = b' := by
  obtain ⟨hx, hy, hz⟩ := RowMajor.number_inj (UInt32.lt_iff_toNat_lt.1 b.y_lt)
    (UInt32.lt_iff_toNat_lt.1 b.z_lt) (UInt32.lt_iff_toNat_lt.1 b'.y_lt)
    (UInt32.lt_iff_toNat_lt.1 b'.z_lt) h
  cases b
  cases b'
  simp only [UInt32.toNat_inj] at hx hy hz
  subst hx hy hz
  rfl

theorem toNat_getBlockid (b : Block g) : b.getBlockid.toNat = b.number % 2 ^ 32 := by
  simp [getBlockid, number, RowMajor.number, Nat.add_mod, Nat.mul_mod]

theorem toNat_exitFlag (b : Block g) : b.exitFlag.toNat = (2 * b.number + 4) % 2 ^ 32 := by
  have hflag : b.exitFlag.toNat = (2 * b.getBlockid.toNat + 4) % 2 ^ 32 := by
    simp [exitFlag]
  rw [hflag, toNat_getBlockid]
  omega

theorem toNat_restoreFlag (b : Block g) : b.restoreFlag.toNat = b.exitFlag.toNat + 1 := by
  rw [restoreFlag, UInt64.toNat_add]
  have := b.toNat_exitFlag
  change (b.exitFlag.toNat + 1) % 2 ^ 64 = _
  omega

/-- The word of `restore_exec` is that of `check_preempt`: it is odd, and does not wrap. -/
theorem restoreFlag'_eq (b : Block g) : b.restoreFlag' = b.restoreFlag := by
  have hflag : b.restoreFlag'.toNat = (2 * b.getBlockid.toNat + 5) % 2 ^ 32 := by
    simp [restoreFlag']
  rw [← UInt64.toNat_inj, toNat_restoreFlag, toNat_exitFlag, hflag, toNat_getBlockid]
  omega

/-- The block with a number. -/
theorem exists_number {n : Nat} (h : n < g.blocks) : ∃ b : Block g, b.number = n := by
  obtain ⟨i, j, k, hi, hj, hk, rfl⟩ := RowMajor.exists_number h
  have hofNat : ∀ {n : Nat} {m : UInt32}, n < m.toNat → (UInt32.ofNat n).toNat = n := by
    intro n m hlt
    exact UInt32.toNat_ofNat_of_lt (Nat.lt_trans hlt m.toNat_lt)
  refine ⟨⟨.ofNat i, .ofNat j, .ofNat k, ?_, ?_, ?_⟩, ?_⟩
  · rwa [UInt32.lt_iff_toNat_lt, hofNat hi]
  · rwa [UInt32.lt_iff_toNat_lt, hofNat hj]
  · rwa [UInt32.lt_iff_toNat_lt, hofNat hk]
  · simp only [number, hofNat hi, hofNat hj, hofNat hk]

end Block

/-! ## Instrumenting a kernel -/

namespace LaunchGrid

/-- mirrors platforms/cuda/hal/src/level2/instrument.cpp:226-227 -/
def bufSize (g : LaunchGrid) : UInt64 := 2 * 8 + 2 * 4 * g.blockCnt.toUInt64

theorem toNat_bufSize (g : LaunchGrid) : g.bufSize.toNat = 16 + 8 * (g.blocks % 2 ^ 32) := by
  have hcnt : g.blockCnt.toNat = g.blocks % 2 ^ 32 := by
    simp [blockCnt, blocks, Nat.mul_mod]
  have hsize : g.bufSize.toNat = (16 + 8 * g.blockCnt.toNat) % 2 ^ 64 := by
    simp [bufSize]
  rw [hsize, hcnt]
  omega

end LaunchGrid

/-- `Instrument`, as far as the buffer goes.
mirrors platforms/cuda/hal/src/level2/instrument.cpp:224-231 -/
def instrument (maps : UInt64 → Bool) (buf : ResizableBuffer) (g : LaunchGrid) :
    Option ResizableBuffer :=
  buf.expandTo maps g.bufSize

/-- The flags of each block lie in the first `size` bytes, where they should be, and
are no other block's. -/
structure Covers (size : Nat) (g : LaunchGrid) : Prop where
  words : ∀ b : Block g, b.exitFlag.toNat = 2 * b.getBlockid.toNat + 4 ∧
    b.restoreFlag.toNat = 2 * b.getBlockid.toNat + 5 ∧ b.restoreFlag' = b.restoreFlag
  inside : ∀ b : Block g, 4 * (b.exitFlag.toNat + 1) ≤ size ∧ 4 * (b.restoreFlag.toNat + 1) ≤ size
  distinct : ∀ b b' : Block g, b ≠ b' → b.exitFlag ≠ b'.exitFlag ∧ b.exitFlag ≠ b'.restoreFlag ∧
    b.restoreFlag ≠ b'.restoreFlag

section
variable {maps : UInt64 → Bool} {b b' : ResizableBuffer} {newSize : UInt64}

/-- Where `ExpandTo` returns, the buffer is no smaller than before and than asked for. -/
theorem ResizableBuffer.expandTo_le (h : b.expandTo maps newSize = some b') :
    b.size ≤ b'.size ∧ newSize ≤ b'.size := by
  unfold expandTo at h
  split at h
  · next hkeep =>
    cases h
    exact ⟨UInt64.le_refl _, hkeep⟩
  next hgrow =>
  have hlt : b.size < newSize := UInt64.not_le.1 hgrow
  split at h
  · cases h
  next hvm =>
  dsimp only at h
  split at h
  · cases h
    have hround := le_roundUp b.granularity_pos
      (UInt64.lt_of_le_of_lt (UInt64.le_iff_toNat_le.2 (Nat.zero_le _)) hlt) (UInt64.not_lt.1 hvm)
    exact ⟨UInt64.le_trans (UInt64.le_of_lt hlt) hround, hround⟩
  · cases h

/-- What `ExpandTo` refuses, whatever the driver says, is beyond the buffer and beyond
the address range. -/
theorem ResizableBuffer.expandTo_eq_none :
    (∀ maps, b.expandTo maps newSize = none) ↔ b.size < newSize ∧ VM_DEFAULT_SIZE < newSize := by
  constructor
  · intro h
    have hnone := h fun _ => true
    unfold expandTo at hnone
    split at hnone
    · cases hnone
    next hgrow =>
    split at hnone
    · next hvm => exact ⟨UInt64.not_le.1 hgrow, hvm⟩
    · dsimp only at hnone
      rw [if_pos rfl] at hnone
      cases hnone
  · rintro ⟨hgrow, hvm⟩ maps
    unfold expandTo
    rw [dif_neg (UInt64.not_le.2 hgrow), dif_pos hvm]

end

section
variable {g : LaunchGrid} {size : Nat}

/-- The block whose index wraps. -/
theorem Covers.blocks_le (h : Covers size g) : g.blocks ≤ 2 ^ 31 - 2 := by
  by_contra hlt
  obtain ⟨b, hb⟩ := Block.exists_number (g := g) (n := 2 ^ 31 - 2) (by omega)
  have hword := (h.words b).1
  rw [b.toNat_exitFlag, b.toNat_getBlockid, hb] at hword
  omega

theorem covers_of_le (hblocks : g.blocks ≤ 2 ^ 31 - 2) (hsize : 16 + 8 * g.blocks ≤ size) :
    Covers size g := by
  have hflag : ∀ b : Block g, b.exitFlag.toNat = 2 * b.number + 4 ∧
      b.restoreFlag.toNat = 2 * b.number + 5 ∧ b.getBlockid.toNat = b.number := by
    intro b
    have hlt := b.number_lt
    rw [b.toNat_restoreFlag, b.toNat_exitFlag, b.toNat_getBlockid]
    omega
  refine ⟨fun b => ?_, fun b => ?_, fun b b' hne => ?_⟩
  · obtain ⟨hexit, hrestore, hid⟩ := hflag b
    rw [hid]
    exact ⟨hexit, hrestore, b.restoreFlag'_eq⟩
  · have hlt := b.number_lt
    obtain ⟨hexit, hrestore, -⟩ := hflag b
    rw [hexit, hrestore]
    omega
  · obtain ⟨hexit, hrestore, -⟩ := hflag b
    obtain ⟨hexit', hrestore', -⟩ := hflag b'
    have hnumber : b.number ≠ b'.number := fun h => hne (Block.number_inj h)
    simp only [ne_eq, ← UInt64.toNat_inj, hexit, hexit', hrestore, hrestore']
    omega

end

/-- **The buffer covers every block.** For every grid that CUDA launches, every buffer
before and every granularity: wherever `Instrument` returns, the flags of each block
lie in the memory that is mapped, where they should be, and are no other block's, if
and only if there are at most `2 ^ 31 - 2` blocks, or the size of the block count cut
to 32 bits is beyond the buffer and beyond `VM_DEFAULT_SIZE`. -/
theorem instrument_covers_iff (buf : ResizableBuffer) (g : LaunchGrid) :
    (∀ maps buf', instrument maps buf g = some buf' →
      Covers (buf'.handles.map UInt64.toNat).sum g) ↔
    g.blocks ≤ 2 ^ 31 - 2 ∨
      buf.size.toNat < 16 + 8 * (g.blocks % 2 ^ 32) ∧ 2 ^ 30 < 16 + 8 * (g.blocks % 2 ^ 32) := by
  have hvm : VM_DEFAULT_SIZE.toNat = 2 ^ 30 := rfl
  have hrefused : (∀ maps, instrument maps buf g = none) ↔
      buf.size.toNat < 16 + 8 * (g.blocks % 2 ^ 32) ∧ 2 ^ 30 < 16 + 8 * (g.blocks % 2 ^ 32) := by
    rw [← g.toNat_bufSize, ← hvm, ← UInt64.lt_iff_toNat_lt, ← UInt64.lt_iff_toNat_lt]
    exact ResizableBuffer.expandTo_eq_none
  rw [← hrefused]
  constructor
  · intro h
    by_cases hnone : ∀ maps, instrument maps buf g = none
    · exact .inr hnone
    · obtain ⟨maps, hmaps⟩ := not_forall.1 hnone
      obtain ⟨buf', hbuf'⟩ := Option.ne_none_iff_exists'.1 hmaps
      exact .inl (h maps buf' hbuf').blocks_le
  · rintro (hblocks | hnone) maps buf' hbuf'
    · have hsize := (ResizableBuffer.expandTo_le hbuf').2
      rw [UInt64.le_iff_toNat_le, g.toNat_bufSize] at hsize
      rw [buf'.mapped]
      exact covers_of_le hblocks (by omega)
    · rw [hnone maps] at hbuf'
      cases hbuf'

/-! ## Too many blocks -/

/-- `2 ^ 32` blocks. -/
def hugeGrid : LaunchGrid := ⟨65536, 32768, 2, by decide, by decide, by decide⟩

/-- The block count is 0 and the buffer stays as it is; there are blocks whose flags are
behind it, and blocks with the same flags. -/
theorem instrument_huge :
    hugeGrid.blockCnt = 0 ∧ ∃ buf', instrument (fun _ => true) (.create 0x200000 (by decide)) hugeGrid =
      some buf' ∧ ¬ Covers (buf'.handles.map UInt64.toNat).sum hugeGrid ∧
      (∃ b : Block hugeGrid, (buf'.handles.map UInt64.toNat).sum < 4 * b.exitFlag.toNat) ∧
      ∃ b b' : Block hugeGrid, b ≠ b' ∧ b.exitFlag = b'.exitFlag := by
  refine ⟨by decide +kernel, .create 0x200000 (by decide), ?_, fun h => ?_, ?_, ?_⟩
  · unfold instrument ResizableBuffer.expandTo
    exact dif_pos (by decide +kernel)
  · exact absurd h.blocks_le (by decide +kernel)
  · exact ⟨⟨64, 0, 0, by decide, by decide, by decide⟩, by decide +kernel⟩
  · refine ⟨⟨32768, 0, 0, by decide, by decide, by decide⟩,
      ⟨0, 0, 0, by decide, by decide, by decide⟩, fun h => ?_, by decide +kernel⟩
    have hx := congrArg Block.x h
    exact absurd hx (by decide)

/-! ## Any number of kernels -/

/-- The buffer after a number of kernels, where none ends the process. -/
def instruments (buf : ResizableBuffer) : List ((UInt64 → Bool) × LaunchGrid) → Option ResizableBuffer
  | [] => some buf
  | (maps, g) :: gs => (instrument maps buf g).bind fun buf' => instruments buf' gs

theorem instruments_le {gs : List ((UInt64 → Bool) × LaunchGrid)} {buf buf' : ResizableBuffer}
    (h : instruments buf gs = some buf') : buf.size ≤ buf'.size := by
  induction gs generalizing buf with
  | nil =>
    cases h
    exact UInt64.le_refl _
  | cons mg gs ih =>
    obtain ⟨buf₁, hstep, hrest⟩ := Option.bind_eq_some_iff.1 h
    exact UInt64.le_trans (ResizableBuffer.expandTo_le hstep).1 (ih hrest)

/-- The buffer covers each grid of a run that has at most `2 ^ 31 - 2` blocks, at the
end of the run too. -/
theorem instruments_cover {gs : List ((UInt64 → Bool) × LaunchGrid)} {buf buf' : ResizableBuffer}
    (h : instruments buf gs = some buf') {mg : (UInt64 → Bool) × LaunchGrid} (hg : mg ∈ gs)
    (hblocks : mg.2.blocks ≤ 2 ^ 31 - 2) : Covers (buf'.handles.map UInt64.toNat).sum mg.2 := by
  induction gs generalizing buf with
  | nil => cases hg
  | cons mg' gs ih =>
    obtain ⟨buf₁, hstep, hrest⟩ := Option.bind_eq_some_iff.1 h
    rcases List.mem_cons.1 hg with rfl | hg
    · have hsize := (ResizableBuffer.expandTo_le hstep).2
      have hlater := instruments_le hrest
      rw [UInt64.le_iff_toNat_le] at hsize hlater
      rw [LaunchGrid.toNat_bufSize] at hsize
      rw [buf'.mapped]
      exact covers_of_le hblocks (by omega)
    · exact ih hrest hg

end Xsched.Cuda
