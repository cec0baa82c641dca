import Xsched.Core.Wrap

/-!
# Decomposing a grid

`DecomposeGrid` of the hb_split backend cuts the grid of a launch into boxes
of at most `split_blocks` blocks: `DecomposeBox` emits a box that is small
enough and otherwise cuts it along its longest axis into two boxes and calls
itself on both.

The arithmetic is that of the source, `uint32_t` for the coordinates and
`uint64_t` for the volumes, inside the `Wrap` monitor. A call that cuts does so
at a length strictly between zero and the length of the axis, whatever its
arguments (`call_split`): both halves are shorter, so the recursion ends. That
needs a positive bound. With `max_blocks = 0` a box of one block would be cut
into itself for ever; `DecomposeGrid` returns before that.

`decomposeGrid_partition`: the boxes are a partition of the grid, none is empty
or larger than the bound, and nothing wraps on the way.
-/
namespace Xsched.HbSplit

open Wrap

inductive Axis
  | x | y | z
deriving DecidableEq, Repr

theorem Axis.forall_iff {P : Axis → Prop} : (∀ a, P a) ↔ P .x ∧ P .y ∧ P .z := by
  refine ⟨fun h => ⟨h .x, h .y, h .z⟩, fun h a => ?_⟩
  cases a
  · exact h.1
  · exact h.2.1
  · exact h.2.2

instance {P : Axis → Prop} [DecidablePred P] : Decidable (∀ a, P a) :=
  decidable_of_iff _ Axis.forall_iff.symm

/-- mirrors platforms/cuda/hal/src/hb_split/backend.cpp:49-54 -/
structure Grid3D where
  x : UInt32
  y : UInt32
  z : UInt32
deriving DecidableEq, Repr

namespace Grid3D

def get (g : Grid3D) : Axis → UInt32
  | .x => g.x
  | .y => g.y
  | .z => g.z

def set (g : Grid3D) (a : Axis) (v : UInt32) : Grid3D :=
  match a with
  | .x => { g with x := v }
  | .y => { g with y := v }
  | .z => { g with z := v }

theorem get_set (g : Grid3D) (a b : Axis) (v : UInt32) :
    (g.set a v).get b = if b = a then v else g.get b := by
  cases a <;> cases b <;> rfl

/-- The number of blocks, as a number and not as a machine word. -/
def blocks (g : Grid3D) : Nat := g.x.toNat * g.y.toNat * g.z.toNat

end Grid3D

/-- mirrors platforms/cuda/hal/src/hb_split/backend.cpp:56-60 -/
structure SplitSpec where
  grid : Grid3D
  offset : Grid3D
deriving DecidableEq, Repr

/-- `(uint64_t)x * (uint64_t)y * (uint64_t)z`, backend.cpp:722-725 -/
def volume (g : Grid3D) : Wrap UInt64 := do
  let xy ← mulU64 g.x.toUInt64 g.y.toUInt64
  mulU64 xy g.z.toUInt64

/-- `dx`, `dy` and `dz` -/
def lens (lo hi : Grid3D) : Wrap Grid3D := do
  let dx ← subU32 hi.x lo.x
  let dy ← subU32 hi.y lo.y
  let dz ← subU32 hi.z lo.z
  pure { x := dx, y := dy, z := dz }

/-- The axis to cut: the longest, of equals `y` before `z` before `x`. -/
def longest (l : Grid3D) : Axis :=
  if l.y ≥ l.x ∧ l.y ≥ l.z then .y
  else if l.z ≥ l.x ∧ l.z ≥ l.y then .z
  else .x

/-- The blocks in a slice of thickness one. -/
def denom (l : Grid3D) : Axis → Wrap UInt64
  | .x => mulU64 l.y.toUInt64 l.z.toUInt64
  | .y => mulU64 l.x.toUInt64 l.z.toUInt64
  | .z => mulU64 l.x.toUInt64 l.y.toUInt64

/-- `left_len` before the test against `len`, with its narrowing cast -/
def fitLen (len : UInt32) (denom maxBlocks : UInt64) : Wrap UInt32 :=
  narrowU32 (max 1 (min len.toUInt64 (maxBlocks / max 1 denom)))

def leftLen (l : Grid3D) (maxBlocks : UInt64) : Wrap UInt32 := do
  let len := l.get (longest l)
  let denom ← denom l (longest l)
  let left ← fitLen len denom maxBlocks
  pure (if left ≥ len then max 1 (len / 2) else left)

/-- What one call of `DecomposeBox` does: nothing, push one box, or call itself
on `[lo, leftHi)` and on `[rightLo, hi)`. -/
inductive Call
  | empty
  | leaf (spec : SplitSpec)
  | split (leftHi rightLo : Grid3D)
deriving DecidableEq

/-- mirrors platforms/cuda/hal/src/hb_split/backend.cpp:727-765 (`DecomposeBox`) -/
def call (maxBlocks : UInt64) (lo hi : Grid3D) : Wrap Call := do
  let l ← lens lo hi
  let vol ← volume l
  if vol = 0 then
    pure .empty
  else if vol ≤ maxBlocks then
    pure (.leaf { grid := l, offset := lo })
  else do
    let left ← leftLen l maxBlocks
    let cut ← addU32 (lo.get (longest l)) left
    pure (.split (hi.set (longest l) cut) (lo.set (longest l) cut))

/-! ## One call -/

theorem le_longest (l : Grid3D) (a : Axis) : (l.get a).toNat ≤ (l.get (longest l)).toNat := by
  simp only [longest, ge_iff_le, UInt32.le_iff_toNat_le]
  split
  · next h => cases a <;> simp only [Grid3D.get] <;> omega
  · next h =>
    split
    · next h' => cases a <;> simp only [Grid3D.get] <;> omega
    · next h' => cases a <;> simp only [Grid3D.get] <;> omega

theorem fitLen_toNat (len : UInt32) (d mb : UInt64) :
    (fitLen len d mb).exact = true ∧
      (fitLen len d mb).val.toNat = max 1 (min len.toNat (mb.toNat / max 1 d.toNat)) := by
  have hlen := len.toNat_lt
  have h : (max 1 (min len.toUInt64 (mb / max 1 d))).toNat =
      max 1 (min len.toNat (mb.toNat / max 1 d.toNat)) := by
    rw [UInt64.toNat_max, UInt64.toNat_min, UInt64.toNat_div, UInt64.toNat_max,
      UInt32.toNat_toUInt64]
    rfl
  have hlt : (max 1 (min len.toUInt64 (mb / max 1 d))).toNat < 2 ^ 32 := by
    rw [h]
    omega
  refine ⟨by rw [fitLen, narrowU32_exact]; exact hlt, ?_⟩
  rw [fitLen, narrowU32_val, toNat_narrow hlt, h]

/-- The cut leaves something on both sides of an axis of length two or more. -/
theorem leftLen_bounds (l : Grid3D) (mb : UInt64) (h : 2 ≤ (l.get (longest l)).toNat) :
    0 < (leftLen l mb).val.toNat ∧ (leftLen l mb).val.toNat < (l.get (longest l)).toNat := by
  have hfit := (fitLen_toNat (l.get (longest l)) (denom l (longest l)).val mb).2
  simp only [leftLen, bind_val, pure_val]
  split
  · rw [UInt32.toNat_max, UInt32.toNat_div]
    change 0 < max 1 (_ / 2) ∧ max 1 (_ / 2) < _
    omega
  · next hlt =>
    rw [ge_iff_le, UInt32.le_iff_toNat_le] at hlt
    omega

theorem volume_val_le_one {l : Grid3D} (h : ∀ a, (l.get a).toNat ≤ 1) :
    (volume l).val.toNat ≤ 1 := by
  have hx := h .x
  have hy := h .y
  have hz := h .z
  simp only [Grid3D.get] at hx hy hz
  have hxy : l.x.toNat * l.y.toNat ≤ 1 := Nat.mul_le_mul hx hy
  have hxyz : l.x.toNat * l.y.toNat * l.z.toNat ≤ 1 := Nat.mul_le_mul hxy hz
  simp only [volume, bind_val, mulU64_val, UInt64.toNat_mul, UInt32.toNat_toUInt64]
  rw [Nat.mod_eq_of_lt (a := l.x.toNat * l.y.toNat) (by omega), Nat.mod_eq_of_lt (by omega)]
  exact hxyz

/-- A box over the bound has an axis of length two or more. -/
theorem two_le_longest {l : Grid3D} {mb : UInt64} (hmb : 0 < mb) (h : ¬(volume l).val ≤ mb) :
    2 ≤ (l.get (longest l)).toNat := by
  by_contra hlt
  have hone : ∀ a, (l.get a).toNat ≤ 1 := by
    intro a
    have := le_longest l a
    omega
  have hvol := volume_val_le_one hone
  rw [UInt64.le_iff_toNat_le] at h
  rw [UInt64.lt_iff_toNat_lt] at hmb
  change 0 < mb.toNat at hmb
  omega

theorem lens_get (lo hi : Grid3D) (a : Axis) :
    (lens lo hi).val.get a = hi.get a - lo.get a := by
  cases a <;> rfl

/-- What a call that cuts does, on any arguments. -/
theorem call_split {mb : UInt64} {lo hi leftHi rightLo : Grid3D} (hmb : 0 < mb)
    (h : (call mb lo hi).val = .split leftHi rightLo) :
    ∃ a left, 0 < left.toNat ∧ left.toNat < (hi.get a - lo.get a).toNat ∧
      leftHi = hi.set a (lo.get a + left) ∧ rightLo = lo.set a (lo.get a + left) := by
  simp only [call, bind_val] at h
  split at h
  · cases h
  split at h
  · cases h
  next hbig =>
    obtain ⟨hpos, hlt⟩ := leftLen_bounds _ mb (two_le_longest hmb hbig)
    rw [lens_get] at hlt
    injection h with h₁ h₂
    exact ⟨_, _, hpos, hlt, h₁.symm, h₂.symm⟩

/-! ## The recursion -/

/-- The sum of the three lengths. -/
def measure (lo hi : Grid3D) : Nat :=
  (hi.get .x - lo.get .x).toNat + (hi.get .y - lo.get .y).toNat + (hi.get .z - lo.get .z).toNat

theorem sub_cut {lo hi left : UInt32} (h : left.toNat < (hi - lo).toNat) :
    (lo + left - lo).toNat = left.toNat ∧
      (hi - (lo + left)).toNat = (hi - lo).toNat - left.toNat := by
  have hhi := hi.toNat_lt
  have hlo := lo.toNat_lt
  have hleft := left.toNat_lt
  simp only [UInt32.toNat_sub, UInt32.toNat_add] at h ⊢
  omega

/-- Both boxes of a cut are shorter than the one that is cut. -/
theorem measure_split {mb : UInt64} {lo hi leftHi rightLo : Grid3D} (hmb : 0 < mb)
    (h : (call mb lo hi).val = .split leftHi rightLo) :
    measure lo leftHi < measure lo hi ∧ measure rightLo hi < measure lo hi := by
  obtain ⟨a, left, hpos, hlt, rfl, rfl⟩ := call_split hmb h
  obtain ⟨hleft, hright⟩ := sub_cut hlt
  cases a <;> simp only [measure, Grid3D.get, Grid3D.set] at * <;> omega

/-- mirrors platforms/cuda/hal/src/hb_split/backend.cpp:727-765 (`DecomposeBox`) -/
def decomposeBox (maxBlocks : UInt64) (hmb : 0 < maxBlocks) (lo hi : Grid3D) :
    Wrap (List SplitSpec) :=
  match _ : (call maxBlocks lo hi).val with
  | .empty => ⟨[], (call maxBlocks lo hi).exact⟩
  | .leaf spec => ⟨[spec], (call maxBlocks lo hi).exact⟩
  | .split leftHi rightLo =>
    let l := decomposeBox maxBlocks hmb lo leftHi
    let r := decomposeBox maxBlocks hmb rightLo hi
    ⟨l.val ++ r.val, (call maxBlocks lo hi).exact && l.exact && r.exact⟩
termination_by measure lo hi
decreasing_by
  · exact (measure_split hmb ‹_›).1
  · exact (measure_split hmb ‹_›).2

section Equations

variable {mb : UInt64} {hmb : 0 < mb} {lo hi leftHi rightLo : Grid3D} {spec : SplitSpec}

theorem decomposeBox_leaf (h : (call mb lo hi).val = .leaf spec) :
    decomposeBox mb hmb lo hi = ⟨[spec], (call mb lo hi).exact⟩ := by
  rw [decomposeBox]
  split <;> simp_all

theorem decomposeBox_split (h : (call mb lo hi).val = .split leftHi rightLo) :
    decomposeBox mb hmb lo hi =
      ⟨(decomposeBox mb hmb lo leftHi).val ++ (decomposeBox mb hmb rightLo hi).val,
        (call mb lo hi).exact && (decomposeBox mb hmb lo leftHi).exact &&
          (decomposeBox mb hmb rightLo hi).exact⟩ := by
  rw [decomposeBox]
  split <;> simp_all

end Equations

theorem toNat_splitBlocks {n : Int32} (h : ¬n ≤ 0) :
    (n.toInt64.toUInt64.toNat : Int) = n.toInt ∧ 0 < n.toInt64.toUInt64 := by
  rw [Int32.le_iff_toInt_le] at h
  have hz : (0 : Int32).toInt = 0 := rfl
  have hle : (0 : Int64) ≤ n.toInt64 := by
    rw [Int64.le_iff_toInt_le, Int32.toInt_toInt64]
    change (0 : Int) ≤ n.toInt
    omega
  have hnat : n.toInt64.toUInt64.toNat = n.toInt.toNat := by
    rw [Int64.toNat_toUInt64_of_le hle, ← Int64.toNat_toInt, Int32.toInt_toInt64]
  refine ⟨by omega, ?_⟩
  rw [UInt64.lt_iff_toNat_lt, hnat]
  change 0 < n.toInt.toNat
  omega

/-- mirrors platforms/cuda/hal/src/hb_split/backend.cpp:767-773 (`DecomposeGrid`) -/
def decomposeGrid (grid : Grid3D) (splitBlocks : Int32) : Wrap (List SplitSpec) :=
  if h : grid.x = 0 ∨ grid.y = 0 ∨ grid.z = 0 ∨ splitBlocks ≤ 0 then
    pure []
  else
    have hpos : ¬splitBlocks ≤ 0 := fun hle => h (.inr (.inr (.inr hle)))
    decomposeBox splitBlocks.toInt64.toUInt64 (toNat_splitBlocks hpos).2
      { x := 0, y := 0, z := 0 } grid

/-! ## Boxes -/

/-- The index of a block in the grid. -/
abbrev Block := Axis → Nat

/-- The half-open box between two corners. -/
def inBox (lo hi : Grid3D) (b : Block) : Bool :=
  decide (∀ a, (lo.get a).toNat ≤ b a ∧ b a < (hi.get a).toNat)

/-- The blocks of the original launch that a child launch with this offset runs. -/
def SplitSpec.covers (s : SplitSpec) (b : Block) : Bool :=
  decide (∀ a, (s.offset.get a).toNat ≤ b a ∧
    b a < (s.offset.get a).toNat + (s.grid.get a).toNat)

theorem inBox_iff {lo hi : Grid3D} {b : Block} :
    inBox lo hi b = true ↔ ∀ a, (lo.get a).toNat ≤ b a ∧ b a < (hi.get a).toNat := by
  rw [inBox, decide_eq_true_iff]

theorem covers_iff {s : SplitSpec} {b : Block} :
    s.covers b = true ↔ ∀ a, (s.offset.get a).toNat ≤ b a ∧
      b a < (s.offset.get a).toNat + (s.grid.get a).toNat := by
  rw [SplitSpec.covers, decide_eq_true_iff]

/-- The corners are in order on each axis. -/
def Ordered (lo hi : Grid3D) : Prop := ∀ a, (lo.get a).toNat ≤ (hi.get a).toNat

theorem Ordered.lens_toNat {lo hi : Grid3D} (h : Ordered lo hi) (a : Axis) :
    ((lens lo hi).val.get a).toNat = (hi.get a).toNat - (lo.get a).toNat := by
  rw [lens_get, toNat_sub32 (h a)]

theorem Ordered.lens_exact {lo hi : Grid3D} (h : Ordered lo hi) : (lens lo hi).exact = true := by
  have hx := h .x
  have hy := h .y
  have hz := h .z
  simp only [lens, bind_exact, Bool.and_eq_true, subU32_exact, pure_exact, and_true]
  exact ⟨hx, hy, hz⟩

theorem blocks_le {l m : Grid3D} (h : ∀ a, (l.get a).toNat ≤ (m.get a).toNat) :
    l.blocks ≤ m.blocks :=
  Nat.mul_le_mul (Nat.mul_le_mul (h .x) (h .y)) (h .z)

theorem volume_spec {l : Grid3D} (h : l.blocks < 2 ^ 64) :
    (volume l).exact = true ∧ (volume l).val.toNat = l.blocks := by
  have hxy : l.x.toUInt64.toNat * l.y.toUInt64.toNat < 2 ^ 64 := by
    rw [UInt32.toNat_toUInt64, UInt32.toNat_toUInt64]
    exact mul_lt_64 l.x l.y
  have hxyz : (l.x.toUInt64 * l.y.toUInt64).toNat * l.z.toUInt64.toNat = l.blocks := by
    rw [toNat_mul64 hxy, UInt32.toNat_toUInt64, UInt32.toNat_toUInt64, UInt32.toNat_toUInt64]
    rfl
  refine ⟨?_, ?_⟩
  · simp only [volume, bind_exact, Bool.and_eq_true, mulU64_exact, mulU64_val]
    exact ⟨hxy, by omega⟩
  · simp only [volume, bind_val, mulU64_val]
    rw [toNat_mul64 (by omega), hxyz]

theorem denom_exact (l : Grid3D) (a : Axis) : (denom l a).exact = true := by
  cases a <;> simp only [denom, mulU64_exact, UInt32.toNat_toUInt64] <;> exact mul_lt_64 _ _

theorem leftLen_exact (l : Grid3D) (mb : UInt64) : (leftLen l mb).exact = true := by
  simp only [leftLen, bind_exact, Bool.and_eq_true, pure_exact, and_true]
  exact ⟨denom_exact _ _, (fitLen_toNat _ _ _).1⟩

/-- No operation of a call wraps on corners in order and a volume below 2^64. -/
theorem call_exact {mb : UInt64} {lo hi : Grid3D} (hmb : 0 < mb) (ho : Ordered lo hi)
    (hv : (lens lo hi).val.blocks < 2 ^ 64) : (call mb lo hi).exact = true := by
  simp only [call, bind_exact, Bool.and_eq_true]
  refine ⟨ho.lens_exact, (volume_spec hv).1, ?_⟩
  split
  · rfl
  split
  · rfl
  next hbig =>
    have hlt := (leftLen_bounds _ mb (two_le_longest hmb hbig)).2
    have hhi := (hi.get (longest (lens lo hi).val)).toNat_lt
    rw [ho.lens_toNat] at hlt
    simp only [bind_exact, Bool.and_eq_true, addU32_exact, pure_exact, and_true]
    refine ⟨leftLen_exact _ mb, ?_⟩
    omega

theorem call_empty {mb : UInt64} {lo hi : Grid3D} (ho : Ordered lo hi)
    (hv : (lens lo hi).val.blocks < 2 ^ 64) (h : (call mb lo hi).val = .empty) :
    ∃ a, (hi.get a).toNat = (lo.get a).toNat := by
  simp only [call, bind_val] at h
  split at h
  · next hzero =>
    have hblocks := (volume_spec hv).2
    rw [hzero] at hblocks
    have hprod : (lens lo hi).val.blocks = 0 := hblocks.symm
    rcases Nat.mul_eq_zero.1 hprod with hxy | hz
    · rcases Nat.mul_eq_zero.1 hxy with hx | hy
      · have := ho.lens_toNat .x
        have := ho .x
        exact ⟨.x, by simp only [Grid3D.get] at *; omega⟩
      · have := ho.lens_toNat .y
        have := ho .y
        exact ⟨.y, by simp only [Grid3D.get] at *; omega⟩
    · have := ho.lens_toNat .z
      have := ho .z
      exact ⟨.z, by simp only [Grid3D.get] at *; omega⟩
  split at h <;> cases h

theorem call_leaf {mb : UInt64} {lo hi : Grid3D} {s : SplitSpec}
    (hv : (lens lo hi).val.blocks < 2 ^ 64) (h : (call mb lo hi).val = .leaf s) :
    s = { grid := (lens lo hi).val, offset := lo } ∧ 1 ≤ (lens lo hi).val.blocks ∧
      (lens lo hi).val.blocks ≤ mb.toNat := by
  have hblocks := (volume_spec hv).2
  simp only [call, bind_val] at h
  split at h
  · cases h
  next hzero =>
  split at h
  · next hle =>
    injection h with hs
    rw [UInt64.le_iff_toNat_le] at hle
    rw [← UInt64.toNat_inj] at hzero
    change ¬_ = 0 at hzero
    exact ⟨hs.symm, by omega, by omega⟩
  · cases h

/-! ## The partition -/

/-- What `DecomposeBox` leaves in `out` for the box between `lo` and `hi`. -/
structure Partition (mb : UInt64) (lo hi : Grid3D) (r : Wrap (List SplitSpec)) : Prop where
  exact : r.exact = true
  tiles : Tiles (inBox lo hi) (r.val.map SplitSpec.covers)
  inside : ∀ s ∈ r.val, ∀ a, (lo.get a).toNat ≤ (s.offset.get a).toNat ∧
    (s.offset.get a).toNat + (s.grid.get a).toNat ≤ (hi.get a).toNat
  blocks : ∀ s ∈ r.val, 1 ≤ s.grid.blocks ∧ s.grid.blocks ≤ mb.toNat

theorem Partition.empty {mb : UInt64} {lo hi : Grid3D} (h : ∃ a, (hi.get a).toNat = (lo.get a).toNat) :
    Partition mb lo hi ⟨[], true⟩ where
  exact := rfl
  tiles := by
    obtain ⟨a, ha⟩ := h
    refine Tiles.nil fun b => Bool.eq_false_iff.2 fun hb => ?_
    have := inBox_iff.1 hb a
    omega
  inside s hs := by cases hs
  blocks s hs := by cases hs

theorem Partition.leaf {mb : UInt64} {lo hi : Grid3D} (ho : Ordered lo hi)
    (hpos : 1 ≤ (lens lo hi).val.blocks) (hle : (lens lo hi).val.blocks ≤ mb.toNat) :
    Partition mb lo hi ⟨[{ grid := (lens lo hi).val, offset := lo }], true⟩ where
  exact := rfl
  tiles := by
    have hcovers : SplitSpec.covers { grid := (lens lo hi).val, offset := lo } = inBox lo hi := by
      funext b
      rw [Bool.eq_iff_iff, covers_iff, inBox_iff]
      refine forall_congr' fun a => ?_
      have := ho a
      change (lo.get a).toNat ≤ b a ∧ b a < (lo.get a).toNat + ((lens lo hi).val.get a).toNat ↔ _
      rw [ho.lens_toNat a]
      omega
    rw [List.map_singleton, hcovers]
    exact Tiles.single _
  inside s hs a := by
    cases List.mem_singleton.1 hs
    have := ho a
    have hlen := ho.lens_toNat a
    refine ⟨Nat.le_refl _, ?_⟩
    change (lo.get a).toNat + ((lens lo hi).val.get a).toNat ≤ _
    omega
  blocks s hs := by
    cases List.mem_singleton.1 hs
    exact ⟨hpos, hle⟩

section Cut

variable {lo hi : Grid3D} {c : Axis} {len : UInt32}

/-- A cut strictly inside an axis does not wrap. -/
theorem Ordered.cut (ho : Ordered lo hi) (hlt : len.toNat < (hi.get c - lo.get c).toNat) :
    (lo.get c + len).toNat = (lo.get c).toNat + len.toNat ∧
      (lo.get c).toNat + len.toNat < (hi.get c).toNat := by
  have hlen := ho c
  have hhi := (hi.get c).toNat_lt
  rw [toNat_sub32 hlen] at hlt
  exact ⟨toNat_add32 (by omega), by omega⟩

theorem Ordered.left (ho : Ordered lo hi) (hlt : len.toNat < (hi.get c - lo.get c).toNat) :
    Ordered lo (hi.set c (lo.get c + len)) := by
  obtain ⟨hcut, -⟩ := ho.cut hlt
  intro a
  rw [Grid3D.get_set]
  split
  · next heq =>
    subst heq
    omega
  · exact ho a

theorem Ordered.right (ho : Ordered lo hi) (hlt : len.toNat < (hi.get c - lo.get c).toNat) :
    Ordered (lo.set c (lo.get c + len)) hi := by
  obtain ⟨hcut, hin⟩ := ho.cut hlt
  intro a
  rw [Grid3D.get_set]
  split
  · next heq =>
    subst heq
    omega
  · exact ho a

theorem lens_left_le (ho : Ordered lo hi) (hlt : len.toNat < (hi.get c - lo.get c).toNat) (a : Axis) :
    ((lens lo (hi.set c (lo.get c + len))).val.get a).toNat ≤ ((lens lo hi).val.get a).toNat := by
  obtain ⟨hcut, hin⟩ := ho.cut hlt
  rw [ho.lens_toNat, (ho.left hlt).lens_toNat, Grid3D.get_set]
  split
  · next heq =>
    subst heq
    omega
  · exact Nat.le_refl _

theorem lens_right_le (ho : Ordered lo hi) (hlt : len.toNat < (hi.get c - lo.get c).toNat)
    (a : Axis) :
    ((lens (lo.set c (lo.get c + len)) hi).val.get a).toNat ≤ ((lens lo hi).val.get a).toNat := by
  obtain ⟨hcut, hin⟩ := ho.cut hlt
  rw [ho.lens_toNat, (ho.right hlt).lens_toNat, Grid3D.get_set]
  split
  · next heq =>
    subst heq
    omega
  · exact Nat.le_refl _

theorem inBox_left (b : Block) (ho : Ordered lo hi)
    (hlt : len.toNat < (hi.get c - lo.get c).toNat) :
    inBox lo (hi.set c (lo.get c + len)) b = true ↔
      inBox lo hi b = true ∧ b c < (lo.get c).toNat + len.toNat := by
  obtain ⟨hcut, hin⟩ := ho.cut hlt
  simp only [inBox_iff, Grid3D.get_set]
  constructor
  · intro h
    have hc := h c
    rw [if_pos rfl, hcut] at hc
    refine ⟨fun a => ?_, hc.2⟩
    have ha := h a
    split at ha
    · next heq =>
      subst heq
      omega
    · exact ha
  · rintro ⟨h, hb⟩ a
    have ha := h a
    split
    · next heq =>
      subst heq
      omega
    · exact ha

theorem inBox_right (b : Block) (ho : Ordered lo hi)
    (hlt : len.toNat < (hi.get c - lo.get c).toNat) :
    inBox (lo.set c (lo.get c + len)) hi b = true ↔
      inBox lo hi b = true ∧ ¬b c < (lo.get c).toNat + len.toNat := by
  obtain ⟨hcut, hin⟩ := ho.cut hlt
  simp only [inBox_iff, Grid3D.get_set]
  constructor
  · intro h
    have hc := h c
    rw [if_pos rfl, hcut] at hc
    refine ⟨fun a => ?_, by omega⟩
    have ha := h a
    split at ha
    · next heq =>
      subst heq
      omega
    · exact ha
  · rintro ⟨h, hb⟩ a
    have ha := h a
    split
    · next heq =>
      subst heq
      omega
    · exact ha

/-- A block of the box is on one side of the cut, and no other block is on any. -/
theorem inBox_cut (b : Block) (ho : Ordered lo hi)
    (hlt : len.toNat < (hi.get c - lo.get c).toNat) :
    (inBox lo hi b).toNat = (inBox lo (hi.set c (lo.get c + len)) b).toNat +
      (inBox (lo.set c (lo.get c + len)) hi b).toNat := by
  have hl := inBox_left b ho hlt
  have hr := inBox_right b ho hlt
  by_cases hb : b c < (lo.get c).toNat + len.toNat
  · have h₁ : inBox lo (hi.set c (lo.get c + len)) b = inBox lo hi b := by
      rw [Bool.eq_iff_iff, hl]
      exact and_iff_left hb
    have h₂ : inBox (lo.set c (lo.get c + len)) hi b = false := by
      rw [Bool.eq_false_iff]
      exact fun h => (hr.1 h).2 hb
    rw [h₁, h₂]
    rfl
  · have h₁ : inBox lo (hi.set c (lo.get c + len)) b = false := by
      rw [Bool.eq_false_iff]
      exact fun h => hb (hl.1 h).2
    have h₂ : inBox (lo.set c (lo.get c + len)) hi b = inBox lo hi b := by
      rw [Bool.eq_iff_iff, hr]
      exact and_iff_left hb
    rw [h₁, h₂]
    exact (Nat.zero_add _).symm

variable {mb : UInt64} {l r : Wrap (List SplitSpec)}

theorem Partition.split (ho : Ordered lo hi) (hlt : len.toNat < (hi.get c - lo.get c).toNat)
    (hl : Partition mb lo (hi.set c (lo.get c + len)) l)
    (hr : Partition mb (lo.set c (lo.get c + len)) hi r) :
    Partition mb lo hi ⟨l.val ++ r.val, true && l.exact && r.exact⟩ := by
  obtain ⟨hcut, hin⟩ := ho.cut hlt
  refine ⟨by rw [hl.exact, hr.exact]; rfl, ?_, ?_, ?_⟩
  · rw [List.map_append]
    exact Tiles.append (fun b => inBox_cut b ho hlt) hl.tiles hr.tiles
  · intro s hs a
    rcases List.mem_append.1 hs with hs | hs
    · have h := hl.inside s hs a
      rw [Grid3D.get_set] at h
      split at h
      · next heq =>
        subst heq
        omega
      · exact h
    · have h := hr.inside s hs a
      rw [Grid3D.get_set] at h
      split at h
      · next heq =>
        subst heq
        omega
      · exact h
  · intro s hs
    rcases List.mem_append.1 hs with hs | hs
    · exact hl.blocks s hs
    · exact hr.blocks s hs

end Cut

/-- The recursion, on any corners in order. -/
theorem decomposeBox_partition {mb : UInt64} (hmb : 0 < mb) (lo hi : Grid3D) (ho : Ordered lo hi)
    (hv : (lens lo hi).val.blocks < 2 ^ 64) :
    Partition mb lo hi (decomposeBox mb hmb lo hi) := by
  fun_induction decomposeBox mb hmb lo hi with
  | case1 lo hi hcall =>
    rw [call_exact hmb ho hv]
    exact Partition.empty (call_empty ho hv hcall)
  | case2 lo hi spec hcall =>
    obtain ⟨rfl, hpos, hle⟩ := call_leaf hv hcall
    rw [call_exact hmb ho hv]
    exact Partition.leaf ho hpos hle
  | case3 lo hi leftHi rightLo hcall l r ihl ihr =>
    obtain ⟨c, len, -, hlt, rfl, rfl⟩ := call_split hmb hcall
    have hleft := blocks_le (lens_left_le ho hlt)
    have hright := blocks_le (lens_right_le ho hlt)
    rw [call_exact hmb ho hv]
    exact Partition.split ho hlt (ihl (ho.left hlt) (by omega)) (ihr (ho.right hlt) (by omega))

theorem countP_covers (specs : List SplitSpec) (b : Block) :
    (specs.map SplitSpec.covers).countP (fun t => t b) = specs.countP fun s => s.covers b := by
  rw [List.countP_map]
  rfl

/-- The boxes of a grid, as the recursion leaves them. -/
theorem decomposeGrid_spec {grid : Grid3D} {splitBlocks : Int32} (hx : 1 ≤ grid.x)
    (hy : 1 ≤ grid.y) (hz : 1 ≤ grid.z) (hv : grid.blocks < 2 ^ 64) (hs : 1 ≤ splitBlocks) :
    Partition splitBlocks.toInt64.toUInt64 { x := 0, y := 0, z := 0 } grid
        (decomposeGrid grid splitBlocks) ∧
      (splitBlocks.toInt64.toUInt64.toNat : Int) = splitBlocks.toInt := by
  have hns : ¬splitBlocks ≤ 0 := by
    rw [Int32.le_iff_toInt_le] at hs ⊢
    change (1 : Int) ≤ _ at hs
    change ¬_ ≤ (0 : Int)
    omega
  have hguard : ¬(grid.x = 0 ∨ grid.y = 0 ∨ grid.z = 0 ∨ splitBlocks ≤ 0) := by
    rw [UInt32.le_iff_toNat_le] at hx hy hz
    rintro (h | h | h | h)
    · rw [h] at hx
      exact absurd hx (by decide)
    · rw [h] at hy
      exact absurd hy (by decide)
    · rw [h] at hz
      exact absurd hz (by decide)
    · exact hns h
  obtain ⟨hcast, hmb⟩ := toNat_splitBlocks hns
  have ho : Ordered { x := 0, y := 0, z := 0 } grid := by
    intro a
    cases a <;> exact Nat.zero_le _
  have hlens : (lens { x := 0, y := 0, z := 0 } grid).val.blocks = grid.blocks := by
    have hl := ho.lens_toNat
    have hx := hl .x
    have hy := hl .y
    have hz := hl .z
    simp only [Grid3D.get] at hx hy hz
    simp only [Grid3D.blocks, hx, hy, hz]
    rfl
  have hpart := decomposeBox_partition hmb _ grid ho (by rw [hlens]; exact hv)
  have heq : decomposeGrid grid splitBlocks = decomposeBox _ hmb { x := 0, y := 0, z := 0 } grid :=
    dif_neg hguard
  rw [heq]
  exact ⟨hpart, hcast⟩

theorem Partition.countP {mb : UInt64} {grid : Grid3D} {r : Wrap (List SplitSpec)}
    (h : Partition mb { x := 0, y := 0, z := 0 } grid r) {b : Block}
    (hb : ∀ a, b a < (grid.get a).toNat) : (r.val.countP fun s => s.covers b) = 1 := by
  have hin : inBox { x := 0, y := 0, z := 0 } grid b = true := by
    refine inBox_iff.2 fun a => ⟨?_, hb a⟩
    cases a <;> exact Nat.zero_le _
  have hcount := h.tiles b
  rw [countP_covers, hin] at hcount
  exact hcount

/-- **Grid partition.** For every grid of one block or more on each axis and of
fewer than 2^64 blocks, and every positive `split_blocks`, `DecomposeGrid` wraps
nowhere, and the boxes it returns lie inside the grid, are pairwise disjoint,
hold each block of the grid exactly once, and have between one and
`split_blocks` blocks each. -/
theorem decomposeGrid_partition (grid : Grid3D) (splitBlocks : Int32) (hx : 1 ≤ grid.x)
    (hy : 1 ≤ grid.y) (hz : 1 ≤ grid.z)
    (hv : grid.x.toNat * grid.y.toNat * grid.z.toNat < 2 ^ 64) (hs : 1 ≤ splitBlocks) :
    (decomposeGrid grid splitBlocks).exact = true ∧
      (∀ s ∈ (decomposeGrid grid splitBlocks).val, ∀ a,
        (s.offset.get a).toNat + (s.grid.get a).toNat ≤ (grid.get a).toNat) ∧
      ((decomposeGrid grid splitBlocks).val.Pairwise fun s t =>
        ∀ b, s.covers b = true → t.covers b = false) ∧
      (∀ b : Block, (∀ a, b a < (grid.get a).toNat) →
        ((decomposeGrid grid splitBlocks).val.countP fun s => s.covers b) = 1) ∧
      ∀ s ∈ (decomposeGrid grid splitBlocks).val,
        1 ≤ s.grid.blocks ∧ (s.grid.blocks : Int) ≤ splitBlocks.toInt := by
  obtain ⟨hpart, hcast⟩ := decomposeGrid_spec hx hy hz hv hs
  refine ⟨hpart.exact, fun s hs a => (hpart.inside s hs a).2, ?_, fun b hb => hpart.countP hb,
    fun s hs => ?_⟩
  · have hdisj := hpart.tiles.disjoint
    rw [List.pairwise_map] at hdisj
    exact hdisj
  · obtain ⟨hpos, hle⟩ := hpart.blocks s hs
    exact ⟨hpos, by omega⟩

/-- A grid with an axis one below 2^32, cut at 2^20 blocks. -/
theorem decomposeGrid_partition_long :
    ((decomposeGrid { x := 4294967295, y := 3, z := 2 } 1048576).val.countP fun s =>
      s.covers fun _ => 1) = 1 :=
  (decomposeGrid_partition { x := 4294967295, y := 3, z := 2 } 1048576 (by decide) (by decide)
    (by decide) (by decide) (by decide)).2.2.2.1 (fun _ => 1) (by decide)

end Xsched.HbSplit
