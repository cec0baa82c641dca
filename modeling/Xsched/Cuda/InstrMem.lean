import Mathlib.Algebra.Group.Nat.Defs
import Mathlib.Data.List.Pairwise

/-!
# Instruction memory

`InstrMemAllocator` hands out instruction memory from blocks of `block_size_`
bytes, each behind the one before, and takes a new block when a request does
not fit into what is left of the last one.

**The break.** Whether a request fits into a block at all is not asked. A larger
one is given the base of a new block, and what is written there goes on behind
the block.

**Result**
* `allocs_iff`: the ranges handed out lie in the blocks and do not overlap if and
  only if no request was larger than a block.
-/
namespace Xsched.Cuda

/-- mirrors utils/include/xsched/utils/common.h:37 -/
def roundUp (x align : UInt64) : UInt64 := ((x - 1) / align + 1) * align

/-- mirrors platforms/cuda/hal/include/xsched/cuda/hal/level2/mm.h:10 -/
def BUFFER_DEFAULT_SIZE : UInt64 := (16 : UInt64) <<< 20

/-! ## Ranges of addresses -/

structure Range where
  start : UInt64
  size : UInt64
  deriving DecidableEq

namespace Range

def stop (r : Range) : Nat := r.start.toNat + r.size.toNat

def Within (r s : Range) : Prop := s.start ≤ r.start ∧ r.stop ≤ s.stop

def Apart (r s : Range) : Prop := r.stop ≤ s.start.toNat ∨ s.stop ≤ r.start.toNat

instance (r s : Range) : Decidable (r.Within s) := inferInstanceAs (Decidable (_ ∧ _))

instance (r s : Range) : Decidable (r.Apart s) := inferInstanceAs (Decidable (_ ∨ _))

variable {r s t u : Range}

theorem Apart.symm (h : r.Apart s) : s.Apart r := Or.symm h

/-- What lies in ranges that are apart is apart. -/
theorem Apart.within (h : s.Apart u) (hr : r.Within s) (ht : t.Within u) : r.Apart t := by
  obtain ⟨hr₁, hr₂⟩ := hr
  obtain ⟨ht₁, ht₂⟩ := ht
  rw [UInt64.le_iff_toNat_le] at hr₁ ht₁
  unfold Apart at h ⊢
  omega

theorem Within.trans (h : r.Within s) (h' : s.Within t) : r.Within t :=
  ⟨UInt64.le_trans h'.1 h.1, Nat.le_trans h.2 h'.2⟩

/-- A range is not larger than the one it lies in. -/
theorem Within.size_le (h : r.Within s) : r.size ≤ s.size := by
  obtain ⟨h₁, h₂⟩ := h
  rw [UInt64.le_iff_toNat_le] at h₁ ⊢
  unfold stop at h₂
  omega

end Range

/-! ## The allocator -/

/-- mirrors platforms/cuda/hal/include/xsched/cuda/hal/level2/mm.h:38-57; the last
of `blocks_` is a field of its own -/
structure InstrMemAllocator where
  usedSize : UInt64
  filled : List UInt64
  back : UInt64
  blockSize : UInt64
  deriving DecidableEq

namespace InstrMemAllocator

/-- mirrors platforms/cuda/hal/src/level2/mm.cpp:97-125 -/
def create (granularity block : UInt64) : InstrMemAllocator where
  usedSize := 0
  filled := []
  back := block
  blockSize := roundUp BUFFER_DEFAULT_SIZE granularity

/-- `block` answers `cuXtraInstrMemBlockAlloc`.
mirrors platforms/cuda/hal/src/level2/mm.cpp:135-148 -/
def alloc (a : InstrMemAllocator) (size block : UInt64) : InstrMemAllocator × UInt64 :=
  let offset := a.usedSize
  let used := a.usedSize + size
  if used ≤ a.blockSize then ({ a with usedSize := used }, a.back + offset)
  else ({ a with usedSize := size, filled := a.filled ++ [a.back], back := block }, block)

/-- The blocks obtained so far, and what they are. -/
def blocks (a : InstrMemAllocator) : List Range :=
  (a.filled ++ [a.back]).map fun base => ⟨base, a.blockSize⟩

end InstrMemAllocator

/-- A call of `Alloc`, and the block it is given should it ask for one. -/
structure AllocCall where
  size : UInt64
  block : UInt64
  deriving DecidableEq

namespace InstrMemAllocator

/-- The allocator after the calls, and the ranges handed out. -/
def allocs (a : InstrMemAllocator) : List AllocCall → InstrMemAllocator × List Range
  | [] => (a, [])
  | c :: cs =>
    let (a', p) := a.alloc c.size c.block
    let (a'', out) := a'.allocs cs
    (a'', ⟨p, c.size⟩ :: out)

/-- What is assumed of the blocks: they do not overlap, and lie in the lower half
of the address space, as all memory of a process does. -/
structure Obtained (a : InstrMemAllocator) : Prop where
  apart : a.blocks.Pairwise Range.Apart
  user : ∀ b ∈ a.blocks, b.stop < 2 ^ 63

/-- Every range lies in a block, and no two overlap. -/
structure Sound (a : InstrMemAllocator) (out : List Range) : Prop where
  within : ∀ r ∈ out, ∃ b ∈ a.blocks, r.Within b
  apart : out.Pairwise Range.Apart

/-! ## One call -/

/-- The part of the last block that is taken. -/
def taken (a : InstrMemAllocator) : Range := ⟨a.back, a.usedSize⟩

/-- What the allocator has handed out. -/
structure Inv (a : InstrMemAllocator) (out : List Range) : Prop where
  used : a.usedSize ≤ a.blockSize
  within : ∀ r ∈ out, r.Within a.taken ∨ ∃ base ∈ a.filled, r.Within ⟨base, a.blockSize⟩
  apart : out.Pairwise Range.Apart

variable {a : InstrMemAllocator} {out : List Range} {size block : UInt64}

theorem mem_blocks {b : Range} :
    b ∈ a.blocks ↔ (∃ base ∈ a.filled, b = ⟨base, a.blockSize⟩) ∨ b = ⟨a.back, a.blockSize⟩ := by
  simp only [blocks, List.map_append, List.mem_append, List.mem_map, List.map_cons, List.map_nil,
    List.mem_singleton, eq_comm]

theorem mem_blocks_back : (⟨a.back, a.blockSize⟩ : Range) ∈ a.blocks := mem_blocks.2 (.inr rfl)

theorem mem_blocks_filled {base : UInt64} (h : base ∈ a.filled) :
    (⟨base, a.blockSize⟩ : Range) ∈ a.blocks :=
  mem_blocks.2 (.inl ⟨base, h, rfl⟩)

/-- A block that is filled does not overlap the last one. -/
theorem Obtained.filled_apart (h : a.Obtained) {base : UInt64} (hb : base ∈ a.filled) :
    Range.Apart ⟨base, a.blockSize⟩ ⟨a.back, a.blockSize⟩ := by
  have hapart := h.apart
  rw [blocks, List.map_append, List.pairwise_append] at hapart
  exact hapart.2.2 _ (List.mem_map_of_mem hb) _ (List.mem_singleton.2 rfl)

/-- The two cases of a call. -/
theorem alloc_cases (a : InstrMemAllocator) (size block : UInt64) :
    (a.usedSize + size ≤ a.blockSize ∧
      a.alloc size block = ({ a with usedSize := a.usedSize + size }, a.back + a.usedSize)) ∨
    (a.blockSize < a.usedSize + size ∧
      a.alloc size block =
        ({ a with usedSize := size, filled := a.filled ++ [a.back], back := block }, block)) := by
  by_cases hfits : a.usedSize + size ≤ a.blockSize
  · exact .inl ⟨hfits, if_pos hfits⟩
  · exact .inr ⟨UInt64.not_le.1 hfits, if_neg hfits⟩

theorem alloc_blockSize : (a.alloc size block).1.blockSize = a.blockSize := by
  rcases alloc_cases a size block with ⟨-, h⟩ | ⟨-, h⟩
  · rw [h]
  · rw [h]

theorem alloc_blocks : a.blocks <+: (a.alloc size block).1.blocks := by
  rcases alloc_cases a size block with ⟨-, h⟩ | ⟨-, h⟩
  · rw [h]
    exact List.prefix_refl _
  · rw [h]
    simp only [blocks, List.map_append]
    exact List.prefix_append _ _

theorem Obtained.of_blocks {a' : InstrMemAllocator} (h : a'.Obtained) (hp : a.blocks <+: a'.blocks) :
    a.Obtained where
  apart := h.apart.sublist hp.sublist
  user b hb := h.user b (hp.subset hb)

/-- A request that is not larger than a block. -/
theorem Inv.alloc (hi : a.Inv out) (ho : (a.alloc size block).1.Obtained) (hsize : size ≤ a.blockSize) :
    (a.alloc size block).1.Inv (out ++ [⟨(a.alloc size block).2, size⟩]) := by
  have ha : a.Obtained := ho.of_blocks alloc_blocks
  have hused := hi.used
  have huser : a.back.toNat + a.blockSize.toNat < 2 ^ 63 := ha.user _ mem_blocks_back
  rw [UInt64.le_iff_toNat_le] at hused hsize
  have hsum : (a.usedSize + size).toNat = a.usedSize.toNat + size.toNat := by
    rw [UInt64.toNat_add]
    omega
  have hback : (a.back + a.usedSize).toNat = a.back.toNat + a.usedSize.toNat := by
    rw [UInt64.toNat_add]
    omega
  rcases alloc_cases a size block with ⟨hfits, h⟩ | ⟨-, h⟩
  · -- behind what is taken of the last block
    rw [h]
    rw [UInt64.le_iff_toNat_le, hsum] at hfits
    have hgrow : ∀ r : Range, r.Within a.taken → r.Within ⟨a.back, a.usedSize + size⟩ := by
      rintro r ⟨h₁, h₂⟩
      refine ⟨h₁, Nat.le_trans h₂ ?_⟩
      simp only [taken, Range.stop, hsum]
      omega
    have hnew : Range.Within ⟨a.back + a.usedSize, size⟩ ⟨a.back, a.usedSize + size⟩ := by
      constructor
      · change a.back ≤ a.back + a.usedSize
        rw [UInt64.le_iff_toNat_le, hback]
        omega
      · simp only [Range.stop, hback, hsum]
        omega
    have hblock : Range.Within ⟨a.back, a.usedSize + size⟩ ⟨a.back, a.blockSize⟩ := by
      refine ⟨UInt64.le_refl _, ?_⟩
      simp only [Range.stop, hsum]
      omega
    refine ⟨by rw [UInt64.le_iff_toNat_le, hsum]; exact hfits, ?_, ?_⟩
    · intro r hr
      rcases List.mem_append.1 hr with hr | hr
      · exact (hi.within r hr).imp (hgrow r) id
      · rw [List.mem_singleton.1 hr]
        exact .inl hnew
    · rw [List.pairwise_append]
      refine ⟨hi.apart, List.pairwise_singleton _ _, fun r hr t ht => ?_⟩
      rw [List.mem_singleton.1 ht]
      rcases hi.within r hr with hr | ⟨base, hbase, hr⟩
      · refine .inl ?_
        rw [hback]
        exact hr.2
      · exact (ha.filled_apart hbase).within hr (hnew.trans hblock)
  · -- a new block
    rw [h] at ho ⊢
    have hold : ∀ r ∈ out, ∃ base ∈ a.filled ++ [a.back], r.Within ⟨base, a.blockSize⟩ := by
      intro r hr
      rcases hi.within r hr with hr | ⟨base, hbase, hr⟩
      · refine ⟨a.back, List.mem_append_right _ (List.mem_singleton.2 rfl), hr.1, Nat.le_trans hr.2 ?_⟩
        simp only [taken, Range.stop]
        omega
      · exact ⟨base, List.mem_append_left _ hbase, hr⟩
    have hblock : Range.Within ⟨block, size⟩ ⟨block, a.blockSize⟩ := by
      refine ⟨UInt64.le_refl _, ?_⟩
      simp only [Range.stop]
      omega
    refine ⟨UInt64.le_iff_toNat_le.2 hsize, ?_, ?_⟩
    · intro r hr
      rcases List.mem_append.1 hr with hr | hr
      · exact .inr (hold r hr)
      · rw [List.mem_singleton.1 hr]
        exact .inl ⟨UInt64.le_refl _, Nat.le_refl _⟩
    · rw [List.pairwise_append]
      refine ⟨hi.apart, List.pairwise_singleton _ _, fun r hr t ht => ?_⟩
      rw [List.mem_singleton.1 ht]
      obtain ⟨base, hbase, hr⟩ := hold r hr
      exact (ho.filled_apart hbase).within hr hblock

/-! ## Any number of calls -/

theorem allocs_blocks (cs : List AllocCall) : a.blocks <+: (a.allocs cs).1.blocks := by
  induction cs generalizing a with
  | nil => exact List.prefix_refl _
  | cons c cs ih => exact alloc_blocks.trans ih

theorem Inv.allocs (hi : a.Inv out) (cs : List AllocCall) (ho : (a.allocs cs).1.Obtained)
    (hsize : ∀ c ∈ cs, c.size ≤ a.blockSize) : (a.allocs cs).1.Inv (out ++ (a.allocs cs).2) := by
  induction cs generalizing a out with
  | nil =>
    have hnone : (a.allocs []).2 = [] := rfl
    rw [hnone, List.append_nil]
    exact hi
  | cons c cs ih =>
    have hstep := hi.alloc (ho.of_blocks (allocs_blocks cs)) (hsize c List.mem_cons_self)
    have hrest := ih hstep ho fun d hd => by
      rw [alloc_blockSize]
      exact hsize d (List.mem_cons_of_mem c hd)
    rwa [List.append_assoc, List.singleton_append] at hrest

theorem inv_create (granularity block : UInt64) : (create granularity block).Inv [] where
  used := UInt64.le_iff_toNat_le.2 (Nat.zero_le _)
  within _ hr := absurd hr List.not_mem_nil
  apart := List.Pairwise.nil

theorem Inv.sound (hi : a.Inv out) : a.Sound out where
  within r hr := by
    rcases hi.within r hr with h | ⟨base, hbase, h⟩
    · refine ⟨_, mem_blocks_back, h.1, Nat.le_trans h.2 ?_⟩
      exact Nat.add_le_add_left (UInt64.le_iff_toNat_le.1 hi.used) _
    · exact ⟨_, mem_blocks_filled hbase, h⟩
  apart := hi.apart

/-- Each request is given a range of its size. -/
theorem size_allocs (cs : List AllocCall) {c : AllocCall} (hc : c ∈ cs) :
    ∃ r ∈ (a.allocs cs).2, r.size = c.size := by
  induction cs generalizing a with
  | nil => cases hc
  | cons d cs ih =>
    rcases List.mem_cons.1 hc with rfl | hc
    · exact ⟨_, List.mem_cons_self, rfl⟩
    · obtain ⟨r, hr, hsize⟩ := ih (a := (a.alloc d.size d.block).1) hc
      exact ⟨r, List.mem_cons_of_mem _ hr, hsize⟩

theorem allocs_blockSize (cs : List AllocCall) : (a.allocs cs).1.blockSize = a.blockSize := by
  induction cs generalizing a with
  | nil => rfl
  | cons c cs ih => exact ih.trans alloc_blockSize

/-- **In bounds and disjoint.** For every granularity, every sequence of calls and
all blocks that do not overlap: the ranges handed out lie in the blocks and do
not overlap if and only if no request was larger than a block. -/
theorem allocs_iff (granularity block : UInt64) (cs : List AllocCall)
    (ho : ((create granularity block).allocs cs).1.Obtained) :
    ((create granularity block).allocs cs).1.Sound ((create granularity block).allocs cs).2 ↔
      ∀ c ∈ cs, c.size ≤ roundUp BUFFER_DEFAULT_SIZE granularity := by
  constructor
  · intro hs c hc
    obtain ⟨r, hr, hsize⟩ := size_allocs cs hc
    obtain ⟨b, hb, hwithin⟩ := hs.within r hr
    have hle := hwithin.size_le
    have hblock : b.size = ((create granularity block).allocs cs).1.blockSize := by
      rcases mem_blocks.1 hb with ⟨base, -, rfl⟩ | rfl
      · rfl
      · rfl
    rw [hsize, hblock, allocs_blockSize] at hle
    exact hle
  · intro hsize
    exact ((inv_create granularity block).allocs cs ho hsize).sound

/-- The second request does not fit into what is left of the first block, and fills the
next one up to a byte. -/
def blockSwitch : List AllocCall := [⟨3, 0⟩, ⟨0xffffff, 0x20000000000⟩, ⟨1, 0⟩]

theorem allocs_two :
    ((create 0x200000 0x10000000000).allocs blockSwitch).1.Sound
      [⟨0x10000000000, 3⟩, ⟨0x20000000000, 0xffffff⟩, ⟨0x20000ffffff, 1⟩] :=
  (allocs_iff 0x200000 0x10000000000 blockSwitch ⟨by decide +kernel, by decide +kernel⟩).2
    (by decide +kernel)

/-- A request of a byte more than a block, and one for the block behind it. -/
def oversize : List AllocCall := [⟨0x1000001, 0x20000000000⟩, ⟨64, 0x20001000000⟩]

/-- The blocks do not overlap, but the ranges do. -/
theorem allocs_oversize :
    ((create 0x200000 0x10000000000).allocs oversize).1.Obtained ∧
      ¬ ((create 0x200000 0x10000000000).allocs oversize).1.Sound
        ((create 0x200000 0x10000000000).allocs oversize).2 := by
  refine ⟨⟨by decide +kernel, by decide +kernel⟩, fun h => ?_⟩
  exact absurd h.apart (by decide +kernel)

end InstrMemAllocator

end Xsched.Cuda
