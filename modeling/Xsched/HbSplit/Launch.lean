import Mathlib.Algebra.BigOperators.Group.Multiset.Basic
import Mathlib.Algebra.Order.BigOperators.Group.List
import Mathlib.Algebra.Order.BigOperators.Group.Multiset
import Mathlib.Algebra.Order.Ring.Nat
import Mathlib.Data.Fintype.Pi
import Xsched.HbSplit.Transform

/-!
# Split launches

`SubmitSplitCommands` launches, instead of the original kernel, its transformed
twin once for each box of the grid, with the offset of the box as three more
parameters. A block of a launch is what the kernel computes from its parameters
and from the special registers it reads (`Kernel`). A read of the block index
that the rewriter recognised gives a block of a child the index it would have
had in the original launch; any other read of it gives the index in the child,
and a read of the grid size gives the size of the child.

**Same blocks.** The children run the blocks of the original launch exactly if
no axis is cut whose block index is read unrecognised, or whose size is read at
all (`submitSplit_transparent_iff`). A grid-stride loop reads the size; cut
along that axis it visits some elements twice
(`submitSplit_doubles_stride`).
-/
namespace Xsched.HbSplit

/-! ## The submission -/

/-- The part of platforms/cuda/hal/src/hb_split/backend.cpp:90-98 that a split
launch looks at -/
structure FunctionInfo where
  supportsOffsetX : Bool
  supportsOffsetY : Bool
  supportsOffsetZ : Bool
  originalParamCount : Nat

/-- The axes that the transform reported, backend.cpp:556-560. -/
def FunctionInfo.ofTransform (tr : PtxTransformResult) (originalParamCount : Nat) :
    FunctionInfo where
  supportsOffsetX := tr.supportsOffsetX
  supportsOffsetY := tr.supportsOffsetY
  supportsOffsetZ := tr.supportsOffsetZ
  originalParamCount := originalParamCount

/-- mirrors platforms/cuda/hal/src/hb_split/backend.cpp:775-790
(`CapabilitySupportsGrid`) -/
def capabilitySupportsGrid (info : FunctionInfo) (grid : Grid3D) : Except String Unit :=
  if grid.x > 1 ∧ ¬info.supportsOffsetX then .error "OFFSET_X_UNSUPPORTED"
  else if grid.y > 1 ∧ ¬info.supportsOffsetY then .error "OFFSET_Y_UNSUPPORTED"
  else if grid.z > 1 ∧ ¬info.supportsOffsetZ then .error "OFFSET_Z_UNSUPPORTED"
  else .ok ()

/-- The value of `UXSCHED_HB_SPLIT_BLOCKS`, backend.cpp:169-174. -/
def splitBlocks (value : Int64) : Int32 :=
  if value ≤ 0 ∨ value > 2147483647 then 512 else value.toInt32

theorem splitBlocks_pos (value : Int64) : 1 ≤ splitBlocks value := by
  unfold splitBlocks
  split
  · decide
  · next h =>
    obtain ⟨hpos, hmax⟩ := not_or.1 h
    rw [Int64.le_iff_toInt_le] at hpos
    rw [gt_iff_lt, Int64.lt_iff_toInt_lt] at hmax
    change ¬value.toInt ≤ 0 at hpos
    change ¬2147483647 < value.toInt at hmax
    rw [Int32.le_iff_toInt_le, Int64.toInt_toInt32, Int.bmod_eq_of_le (by omega) (by omega)]
    change (1 : Int) ≤ value.toInt
    omega

/-- What the launch parameters hold: the caller's values, and the offsets. -/
inductive Arg (α : Type)
  | caller (v : α)
  | offset (v : UInt32)

structure Child (α : Type) where
  grid : Grid3D
  block : Grid3D
  sharedMemBytes : UInt32
  params : List (Arg α)

/-- `native`: the caller launches the original kernel. `done`: it returns the
code. -/
inductive Submission (α : Type)
  | native (reason : String)
  | done (result : String)
  | submitted (children : List (Child α))

/-- mirrors platforms/cuda/hal/src/hb_split/backend.cpp:807-883
(`SubmitSplitCommands`) -/
def submitSplitCommands {α : Type} (info : FunctionInfo) (grid block : Grid3D)
    (sharedMemBytes : UInt32) (kernelParams : List α) (envSplitBlocks : Int64) (strict : Bool)
    (transformedParamCount : Nat) : Submission α :=
  match capabilitySupportsGrid info grid with
  | .error reason => if strict then .done "CUDA_ERROR_NOT_SUPPORTED" else .native reason
  | .ok _ =>
    let splits := (decomposeGrid grid (splitBlocks envSplitBlocks)).val
    if splits.isEmpty then .done "CUDA_ERROR_INVALID_VALUE"
    else if splits.length ≤ 1 then .native "GRID_SMALLER_THAN_SPLIT_BLOCKS"
    else if transformedParamCount ≠ info.originalParamCount + 3 then
      if strict then .done "CUDA_ERROR_INVALID_VALUE" else .native "PARAM_COUNT_MISMATCH"
    else
      .submitted <| splits.map fun split =>
        { grid := split.grid
          block := block
          sharedMemBytes := sharedMemBytes
          params := (kernelParams.take info.originalParamCount).map .caller ++
            [.offset split.offset.x, .offset split.offset.y, .offset split.offset.z] }

/-! ## Blocks -/

instance : Fintype Axis where
  elems := {.x, .y, .z}
  complete := by
    intro a
    cases a <;> decide

/-- The blocks of a launch of this grid. -/
def gridBlocks (g : Grid3D) : Finset Block := Fintype.piFinset fun a => Finset.range (g.get a).toNat

@[simp] theorem mem_gridBlocks {g : Grid3D} {b : Block} :
    b ∈ gridBlocks g ↔ ∀ a, b a < (g.get a).toNat := by
  simp [gridBlocks]

/-- The special registers that differ between a launch and its children. -/
inductive SpecialReg
  | ctaid (a : Axis)
  | nctaid (a : Axis)
deriving DecidableEq

def SpecialReg.text : SpecialReg → Text
  | .ctaid a => HbSplit.ctaid a
  | .nctaid a => "%nctaid.".toList ++ [a.char]

/-- Whether an instruction of the body reads the register at `p`. -/
def readAt (body : Text) (r : SpecialReg) (p : Nat) : Bool :=
  r.text.isPrefixOf (body.drop p) && (Lex.code.run (body.take p)).isCode

/-- What the reads of a block yield, by register and place in the body. -/
def Obs := SpecialReg → Nat → Option UInt32

/-- A kernel: what one block computes from the parameters, the shape of the
block, the shared memory and its reads. -/
def Kernel (α Out : Type) := List α → Grid3D → UInt32 → Obs → Out

def originalReg (grid : Grid3D) (b : Block) : SpecialReg → UInt32
  | .ctaid a => UInt32.ofNat (b a)
  | .nctaid a => grid.get a

def originalObs (body : Text) (grid : Grid3D) (b : Block) : Obs := fun r p =>
  if readAt body r p then some (originalReg grid b r) else none

def Arg.caller? {α : Type} : Arg α → Option α
  | .caller v => some v
  | .offset _ => none

/-- The offset parameters of a child, in their order. -/
def Child.offset {α : Type} (c : Child α) (a : Axis) : UInt32 :=
  match c.params.filterMap fun | .offset v => some v | .caller _ => none with
  | [x, y, z] => Grid3D.get { x := x, y := y, z := z } a
  | _ => 0

/-- A recognised read of the index is followed by the addition of the offset,
which wraps as `add.s32` does. -/
def childReg {α : Type} (body : Text) (c : Child α) (l : Block) (p : Nat) : SpecialReg → UInt32
  | .ctaid a =>
    if recognizedAt a body p then UInt32.ofNat (l a) + c.offset a else UInt32.ofNat (l a)
  | .nctaid a => c.grid.get a

def childObs {α : Type} (body : Text) (c : Child α) (l : Block) : Obs := fun r p =>
  if readAt body r p then some (childReg body c l p r) else none

section Runs

variable {α Out : Type}

/-- The block executions of the original launch. -/
def originalRuns (body : Text) (k : Kernel α Out) (params : List α) (grid block : Grid3D)
    (sharedMemBytes : UInt32) : Multiset Out :=
  (gridBlocks grid).val.map fun b => k params block sharedMemBytes (originalObs body grid b)

/-- The block executions of the children. -/
def childRuns (body : Text) (k : Kernel α Out) (children : List (Child α)) : Multiset Out :=
  (children.map fun c => (gridBlocks c.grid).val.map fun l =>
    k (c.params.filterMap Arg.caller?) c.block c.sharedMemBytes (childObs body c l)).sum

end Runs

/-! ## The boxes cover the grid -/

section Cover

variable {grid : Grid3D} {specs : List SplitSpec}

/-- The block of the original launch that block `l` of the child stands for. -/
def place (s : SplitSpec) (l : Block) : Block := fun a => l a + (s.offset.get a).toNat

theorem place_injective (s : SplitSpec) : Function.Injective (place s) := by
  intro l m h
  funext a
  have ha := congrFun h a
  simp only [place] at ha
  omega

theorem mem_placed {s : SplitSpec} {b : Block} :
    b ∈ (gridBlocks s.grid).val.map (place s) ↔ s.covers b = true := by
  rw [Multiset.mem_map, covers_iff]
  constructor
  · rintro ⟨l, hl, rfl⟩ a
    have := mem_gridBlocks.1 hl a
    simp only [place]
    omega
  · intro h
    refine ⟨fun a => b a - (s.offset.get a).toNat, mem_gridBlocks.2 fun a => ?_, ?_⟩
    · have := h a
      omega
    · funext a
      have := h a
      simp only [place]
      omega

theorem count_placed [DecidableEq Block] (s : SplitSpec) (b : Block) :
    ((gridBlocks s.grid).val.map (place s)).count b = (s.covers b).toNat := by
  have hnodup : ((gridBlocks s.grid).val.map (place s)).Nodup :=
    Multiset.Nodup.map (place_injective s) (gridBlocks s.grid).nodup
  rw [Multiset.count_eq_of_nodup hnodup]
  by_cases h : s.covers b = true
  · rw [if_pos (mem_placed.2 h), h]
    rfl
  · rw [if_neg fun hmem => h (mem_placed.1 hmem), Bool.eq_false_iff.2 h]
    rfl

/-- The boxes of the decomposition of `grid`. -/
structure Cover (grid : Grid3D) (specs : List SplitSpec) : Prop where
  countP : ∀ b : Block, (∀ a, b a < (grid.get a).toNat) → (specs.countP fun s => s.covers b) = 1
  inside : ∀ s ∈ specs, ∀ a, (s.offset.get a).toNat + (s.grid.get a).toNat ≤ (grid.get a).toNat
  blocks : ∀ s ∈ specs, 1 ≤ s.grid.blocks

theorem Cover.sum (h : Cover grid specs) :
    (specs.map fun s => (gridBlocks s.grid).val.map (place s)).sum = (gridBlocks grid).val := by
  classical
  ext b
  have hcount : ((specs.map fun s => (gridBlocks s.grid).val.map (place s)).sum).count b =
      specs.countP fun s => s.covers b := by
    clear h
    induction specs with
    | nil => simp
    | cons s specs ih =>
      rw [List.map_cons, List.sum_cons, Multiset.count_add, ih, count_placed, List.countP_cons]
      cases s.covers b <;> simp [Nat.add_comm]
  rw [hcount, Multiset.count_eq_of_nodup (gridBlocks grid).nodup]
  by_cases hb : b ∈ (gridBlocks grid).val
  · rw [if_pos hb, h.countP b (mem_gridBlocks.1 hb)]
  · rw [if_neg hb, List.countP_eq_zero]
    intro s hs hcov
    refine hb (mem_gridBlocks.2 fun a => ?_)
    have := covers_iff.1 hcov a
    have := h.inside s hs a
    omega

/-- A sum over the blocks of the grid is one over the blocks of the boxes. -/
theorem Cover.map {β : Type} (h : Cover grid specs) (f : Block → β) :
    (gridBlocks grid).val.map f =
      (specs.map fun s => (gridBlocks s.grid).val.map fun l => f (place s l)).sum := by
  rw [← h.sum]
  clear h
  induction specs with
  | nil => rfl
  | cons s specs ih =>
    simp only [List.map_cons, List.sum_cons, Multiset.map_add, ih, Multiset.map_map,
      Function.comp_def]

theorem side_pos {g : Grid3D} (h : 1 ≤ g.blocks) (a : Axis) : 1 ≤ (g.get a).toNat := by
  have hne : g.x.toNat * g.y.toNat * g.z.toNat ≠ 0 := by
    change 1 ≤ g.x.toNat * g.y.toNat * g.z.toNat at h
    omega
  have hz := Nat.mul_ne_zero_iff.1 hne
  have hxy := Nat.mul_ne_zero_iff.1 hz.1
  cases a
  · exact Nat.one_le_iff_ne_zero.2 hxy.1
  · exact Nat.one_le_iff_ne_zero.2 hxy.2
  · exact Nat.one_le_iff_ne_zero.2 hz.2

/-- The decomposition does not cut axis `a`. -/
def Uncut (specs : List SplitSpec) (grid : Grid3D) (a : Axis) : Prop :=
  ∀ s ∈ specs, s.grid.get a = grid.get a

instance (specs : List SplitSpec) (grid : Grid3D) (a : Axis) : Decidable (Uncut specs grid a) :=
  inferInstanceAs (Decidable (∀ s ∈ specs, s.grid.get a = grid.get a))

theorem eq_of_countP_one {α : Type} {p : α → Bool} {l : List α} (h : l.countP p = 1) {s t : α}
    (hs : s ∈ l) (ht : t ∈ l) (hps : p s = true) (hpt : p t = true) : s = t := by
  rw [List.countP_eq_length_filter, List.length_eq_one_iff] at h
  obtain ⟨u, hu⟩ := h
  have hs' := List.mem_filter.2 ⟨hs, hps⟩
  have ht' := List.mem_filter.2 ⟨ht, hpt⟩
  rw [hu, List.mem_singleton] at hs' ht'
  rw [hs', ht']

/-- All boxes begin at zero on an axis exactly if all boxes span it. -/
theorem Cover.uncut_iff (h : Cover grid specs) (a : Axis) :
    Uncut specs grid a ↔ ∀ s ∈ specs, (s.offset.get a).toNat = 0 := by
  constructor
  · intro huncut s hs
    have hin := h.inside s hs a
    rw [huncut s hs] at hin
    omega
  · intro hzero s hs
    rw [← UInt32.toNat_inj]
    have hpos := side_pos (h.blocks s hs)
    have hin := h.inside s hs
    -- the last block of the axis beside the box is in a box that reaches back to the first
    have hlast : ∀ c, (if c = a then (grid.get c).toNat - 1 else (s.offset.get c).toNat) <
        (grid.get c).toNat := by
      intro c
      have := hpos c
      have := hin c
      split <;> omega
    have hcount := h.countP _ hlast
    obtain ⟨t, ht, htlast⟩ := List.countP_pos_iff.1 (hcount ▸ Nat.one_pos)
    have htlast := covers_iff.1 htlast
    have hfirst : ∀ c, (if c = a then 0 else (s.offset.get c).toNat) < (grid.get c).toNat := by
      intro c
      have := hpos c
      have := hin c
      split <;> omega
    have hscov : s.covers (fun c => if c = a then 0 else (s.offset.get c).toNat) = true := by
      refine covers_iff.2 fun c => ?_
      have := hpos c
      split
      · next hc =>
        subst hc
        have := hzero s hs
        omega
      · omega
    have htcov : t.covers (fun c => if c = a then 0 else (s.offset.get c).toNat) = true := by
      refine covers_iff.2 fun c => ?_
      have hc' := htlast c
      split
      · next hc =>
        have := hzero t ht
        have := hpos c
        rw [if_pos hc] at hc'
        subst hc
        omega
      · next hc =>
        rw [if_neg hc] at hc'
        exact hc'
    have hst := eq_of_countP_one (h.countP _ hfirst) hs ht hscov htcov
    have hend := htlast a
    rw [← hst, if_pos rfl, hzero s hs] at hend
    have := hin a
    have := hpos a
    omega

end Cover

/-! ## The observations of a child -/

section Observations

variable {α : Type} {body : Text} {grid : Grid3D} {specs : List SplitSpec}

/-- The child that a box becomes. -/
def childOf (s : SplitSpec) (block : Grid3D) (sharedMemBytes : UInt32) (params : List α) : Child α where
  grid := s.grid
  block := block
  sharedMemBytes := sharedMemBytes
  params := params.map .caller ++ [.offset s.offset.x, .offset s.offset.y, .offset s.offset.z]

theorem childOf_offset (s : SplitSpec) (block : Grid3D) (sharedMemBytes : UInt32) (params : List α)
    (a : Axis) : (childOf s block sharedMemBytes params).offset a = s.offset.get a := by
  have hnone : (params.map Arg.caller).filterMap
      (fun | Arg.offset v => some v | Arg.caller _ => none) = [] := by
    rw [List.filterMap_map]
    exact List.filterMap_eq_nil_iff.2 fun v _ => rfl
  simp only [Child.offset, childOf, List.filterMap_append, hnone]
  rfl

theorem childOf_caller (s : SplitSpec) (block : Grid3D) (sharedMemBytes : UInt32) (params : List α) :
    (childOf s block sharedMemBytes params).params.filterMap Arg.caller? = params := by
  have hsome : (params.map Arg.caller).filterMap Arg.caller? = params := by
    rw [List.filterMap_map]
    exact List.filterMap_some
  rw [childOf, List.filterMap_append, hsome]
  exact List.append_nil params

/-- An unrecognised read of the index of axis `a`, or a read of its size. -/
def SeesAxis (body : Text) (a : Axis) : Prop :=
  (∃ p, readAt body (.ctaid a) p = true ∧ recognizedAt a body p = false) ∨
    ∃ p, readAt body (.nctaid a) p = true

/-- Where no axis that the kernel sees is cut, a block of a child observes what
its block of the original launch observes. -/
theorem childObs_eq (h : Cover grid specs) (huncut : ∀ a, SeesAxis body a → Uncut specs grid a)
    {s : SplitSpec} (hs : s ∈ specs) (block : Grid3D) (sharedMemBytes : UInt32) (params : List α)
    (l : Block) : childObs body (childOf s block sharedMemBytes params) l =
      originalObs body grid (place s l) := by
  funext r p
  unfold childObs originalObs
  split
  · next hread =>
    congr 1
    cases r with
    | ctaid a =>
      simp only [childReg, originalReg, childOf_offset, place]
      split
      · rw [UInt32.ofNat_add, UInt32.ofNat_toNat]
      · next hrec =>
        have hsees : SeesAxis body a := .inl ⟨p, hread, Bool.eq_false_iff.2 hrec⟩
        rw [(h.uncut_iff a).1 (huncut a hsees) s hs, Nat.add_zero]
    | nctaid a => exact huncut a (.inr ⟨p, hread⟩) s hs
  · rfl

/-! ## What a sum over the blocks sees -/

theorem eq_of_sum_eq {β : Type} {f g : β → Nat} {l : List β} (hle : ∀ s ∈ l, f s ≤ g s)
    (hsum : (l.map f).sum = (l.map g).sum) : ∀ s ∈ l, f s = g s := by
  induction l with
  | nil =>
    intro s hs
    cases hs
  | cons t l ih =>
    have hrest : (l.map f).sum ≤ (l.map g).sum :=
      List.sum_le_sum fun s hs => hle s (List.mem_cons_of_mem t hs)
    have ht := hle t List.mem_cons_self
    rw [List.map_cons, List.map_cons, List.sum_cons, List.sum_cons] at hsum
    intro s hs
    rcases List.mem_cons.1 hs with rfl | hs
    · omega
    · exact ih (fun s hs => hle s (List.mem_cons_of_mem t hs)) (by omega) s hs

theorem sum_flatten {β : Type} (f : β → Multiset Nat) (l : List β) :
    (l.map f).sum.sum = (l.map fun s => (f s).sum).sum := by
  induction l with
  | nil => rfl
  | cons s l ih => rw [List.map_cons, List.map_cons, List.sum_cons, List.sum_cons, Multiset.sum_add, ih]

/-- Two functions of the blocks, the first nowhere larger, with one sum over a
box of at least one block. -/
theorem eq_of_box_sum {g : Grid3D} (hg : 1 ≤ g.blocks) {c d : Nat} {f : Block → Nat}
    (h : ((gridBlocks g).val.map fun l => f l + c).sum = ((gridBlocks g).val.map fun l => f l + d).sum) :
    c = d := by
  rw [Multiset.sum_map_add, Multiset.sum_map_add] at h
  simp only [Multiset.map_const', Multiset.sum_replicate, Nat.nsmul_eq_mul] at h
  have hcard : 0 < Multiset.card (gridBlocks g).val := by
    rw [Multiset.card_pos_iff_exists_mem]
    exact ⟨fun _ => 0, mem_gridBlocks.2 fun a => side_pos hg a⟩
  exact Nat.eq_of_mul_eq_mul_left hcard (Nat.add_left_cancel h)

section Sums

variable {Out : Type} {block : Grid3D} {sharedMemBytes : UInt32} {params : List α}

theorem childRuns_eq (k : Kernel α Out) :
    childRuns body k (specs.map fun s => childOf s block sharedMemBytes params) =
      (specs.map fun s => (gridBlocks s.grid).val.map fun l =>
        k params block sharedMemBytes (childObs body (childOf s block sharedMemBytes params) l)).sum := by
  simp only [childRuns, List.map_map, Function.comp_def, childOf_caller]
  rfl

/-- A kernel that yields one of its reads sums, over its blocks, to the same in the
children as in the original launch. -/
theorem sum_read (h : Cover grid specs)
    (hall : ∀ k : Kernel α Nat,
      childRuns body k (specs.map fun s => childOf s block sharedMemBytes params) =
        originalRuns body k params grid block sharedMemBytes) (r : SpecialReg) (p : Nat) :
    (specs.map fun s => ((gridBlocks s.grid).val.map fun l =>
        ((childObs body (childOf s block sharedMemBytes params) l r p).getD 0).toNat).sum).sum =
      (specs.map fun s => ((gridBlocks s.grid).val.map fun l =>
        ((originalObs body grid (place s l) r p).getD 0).toNat).sum).sum := by
  obtain ⟨k, hk⟩ : ∃ k : Kernel α Nat, ∀ ps b m o, k ps b m o = ((o r p).getD 0).toNat :=
    ⟨fun _ _ _ o => ((o r p).getD 0).toNat, fun _ _ _ _ => rfl⟩
  have heq := hall k
  rw [childRuns_eq, originalRuns, h.map] at heq
  have hsum := congrArg Multiset.sum heq
  rw [sum_flatten, sum_flatten] at hsum
  simpa only [hk] using hsum

/-- Two reads of which that of the child is nowhere larger. -/
theorem read_eq (h : Cover grid specs) {c d : SplitSpec → Nat} {f : Block → Nat}
    (hle : ∀ s ∈ specs, c s ≤ d s)
    (hsum : (specs.map fun s => ((gridBlocks s.grid).val.map fun l => f l + c s).sum).sum =
      (specs.map fun s => ((gridBlocks s.grid).val.map fun l => f l + d s).sum).sum) :
    ∀ s ∈ specs, c s = d s := by
  intro s hs
  refine eq_of_box_sum (f := f) (h.blocks s hs) (eq_of_sum_eq (fun t ht => ?_) hsum s hs)
  exact Multiset.sum_map_le_sum_map _ _ fun l _ => Nat.add_le_add_left (hle t ht) (f l)

theorem Cover.block_lt (h : Cover grid specs) {s : SplitSpec} (hs : s ∈ specs) {l : Block}
    (hl : l ∈ gridBlocks s.grid) (a : Axis) :
    l a + (s.offset.get a).toNat < (grid.get a).toNat := by
  have := mem_gridBlocks.1 hl a
  have := h.inside s hs a
  omega

/-- The children of a decomposition run the blocks of the original launch exactly
if no axis the kernel sees is cut. -/
theorem transparent_iff (h : Cover grid specs) :
    (∀ (Out : Type) (k : Kernel α Out),
      childRuns body k (specs.map fun s => childOf s block sharedMemBytes params) =
        originalRuns body k params grid block sharedMemBytes) ↔
      ∀ a, SeesAxis body a → Uncut specs grid a := by
  constructor
  · intro hall a hsees
    rcases hsees with ⟨p, hread, hraw⟩ | ⟨p, hread⟩
    · -- the index itself tells the blocks of a child from those they stand for
      have hsize : UInt32.size = 4294967296 := rfl
      have hsum := sum_read h (hall Nat) (.ctaid a) p
      rw [h.uncut_iff]
      have hchild : ∀ s ∈ specs, ((gridBlocks s.grid).val.map fun l =>
          ((childObs body (childOf s block sharedMemBytes params) l (.ctaid a) p).getD 0).toNat) =
          (gridBlocks s.grid).val.map fun l => l a + 0 := by
        intro s hs
        refine Multiset.map_congr rfl fun l hl => ?_
        have := h.block_lt hs hl a
        have := (grid.get a).toNat_lt
        simp only [childObs, hread, if_true, Option.getD_some, childReg, hraw, Bool.false_eq_true,
          if_false]
        rw [UInt32.toNat_ofNat_of_lt' (by rw [hsize]; omega)]
        rfl
      have horig : ∀ s ∈ specs, ((gridBlocks s.grid).val.map fun l =>
          ((originalObs body grid (place s l) (.ctaid a) p).getD 0).toNat) =
          (gridBlocks s.grid).val.map fun l => l a + (s.offset.get a).toNat := by
        intro s hs
        refine Multiset.map_congr rfl fun l hl => ?_
        have := h.block_lt hs hl a
        have := (grid.get a).toNat_lt
        simp only [originalObs, hread, if_true, Option.getD_some, originalReg, place]
        rw [UInt32.toNat_ofNat_of_lt' (by rw [hsize]; omega)]
      rw [List.map_congr_left fun s hs => congrArg Multiset.sum (hchild s hs),
        List.map_congr_left fun s hs => congrArg Multiset.sum (horig s hs)] at hsum
      intro s hs
      exact (read_eq h (fun _ _ => Nat.zero_le _) hsum s hs).symm
    · -- the size of the child instead of that of the grid
      have hsum := sum_read h (hall Nat) (.nctaid a) p
      simp only [childObs, originalObs, hread, if_true, Option.getD_some, childReg, originalReg,
        childOf] at hsum
      intro s hs
      rw [← UInt32.toNat_inj]
      refine read_eq h (c := fun s => (s.grid.get a).toNat) (d := fun _ => (grid.get a).toNat)
        (f := fun _ => 0) (fun t ht => ?_) ?_ s hs
      · have := h.inside t ht a
        omega
      · simpa only [Nat.zero_add] using hsum
  · intro huncut Out k
    rw [childRuns_eq, originalRuns, h.map]
    refine congrArg List.sum (List.map_congr_left fun s hs => Multiset.map_congr rfl fun l _ => ?_)
    rw [childObs_eq h huncut hs]

end Sums

end Observations

/-! ## Split launches of a transformed entry -/

section Submit

variable {α : Type} {info : FunctionInfo} {grid block : Grid3D} {sharedMemBytes : UInt32}
  {params : List α} {env : Int64} {strict : Bool} {transformedParamCount : Nat}
  {children : List (Child α)}

/-- What a submission has submitted. -/
theorem submitted_eq (h : submitSplitCommands info grid block sharedMemBytes params env strict
    transformedParamCount = .submitted children) :
    (decomposeGrid grid (splitBlocks env)).val ≠ [] ∧
      children = (decomposeGrid grid (splitBlocks env)).val.map fun s =>
        childOf s block sharedMemBytes (params.take info.originalParamCount) := by
  unfold submitSplitCommands at h
  split at h
  · split at h <;> cases h
  simp only at h
  split at h
  · cases h
  next hempty =>
  split at h
  · cases h
  split at h
  · split at h <;> cases h
  cases h
  refine ⟨fun hnil => hempty ?_, rfl⟩
  rw [hnil]
  rfl

theorem decomposeGrid_cover (hne : (decomposeGrid grid (splitBlocks env)).val ≠ [])
    (hv : grid.blocks < 2 ^ 64) : Cover grid (decomposeGrid grid (splitBlocks env)).val := by
  have hdims : ¬(grid.x = 0 ∨ grid.y = 0 ∨ grid.z = 0) := by
    intro hzero
    refine hne ?_
    rw [decomposeGrid, dif_pos (hzero.imp id (Or.imp id .inl))]
    rfl
  have hone : ∀ {n : UInt32}, n ≠ 0 → 1 ≤ n := by
    intro n hn
    rw [UInt32.le_iff_toNat_le]
    have : n.toNat ≠ 0 := fun h0 => hn (UInt32.toNat_inj.1 h0)
    change 1 ≤ n.toNat
    omega
  push Not at hdims
  obtain ⟨hpart, -⟩ := decomposeGrid_spec (hone hdims.1) (hone hdims.2.1) (hone hdims.2.2) hv
    (splitBlocks_pos env)
  exact ⟨fun b hb => hpart.countP hb, fun s hs a => (hpart.inside s hs a).2,
    fun s hs => (hpart.blocks s hs).1⟩

end Submit

theorem decomposeGrid_four : (decomposeGrid { x := 4, y := 1, z := 1 } 2).val =
    [{ grid := { x := 2, y := 1, z := 1 }, offset := { x := 0, y := 0, z := 0 } },
      { grid := { x := 2, y := 1, z := 1 }, offset := { x := 2, y := 0, z := 0 } }] := by
  have hcut : (call (Int32.toInt64 2).toUInt64 { x := 0, y := 0, z := 0 }
      { x := 4, y := 1, z := 1 }).val =
      .split { x := 2, y := 1, z := 1 } { x := 2, y := 0, z := 0 } := by decide
  have hleft : (call (Int32.toInt64 2).toUInt64 { x := 0, y := 0, z := 0 }
      { x := 2, y := 1, z := 1 }).val =
      .leaf { grid := { x := 2, y := 1, z := 1 }, offset := { x := 0, y := 0, z := 0 } } := by decide
  have hright : (call (Int32.toInt64 2).toUInt64 { x := 2, y := 0, z := 0 }
      { x := 4, y := 1, z := 1 }).val =
      .leaf { grid := { x := 2, y := 1, z := 1 }, offset := { x := 2, y := 0, z := 0 } } := by decide
  rw [decomposeGrid, dif_neg (by decide), decomposeBox_split hcut, decomposeBox_leaf hleft,
    decomposeBox_leaf hright]
  rfl

/-- Four blocks, two in a child. -/
def twoChildren : List (Child Nat) :=
  (decomposeGrid { x := 4, y := 1, z := 1 } 2).val.map fun s =>
    childOf s { x := 32, y := 1, z := 1 } 0 [7]

theorem submit_four (tr : PtxTransformResult) (h : tr.supportsOffsetX = true) :
    submitSplitCommands (.ofTransform tr 1) { x := 4, y := 1, z := 1 } { x := 32, y := 1, z := 1 } 0
      [7] 2 false 4 = .submitted twoChildren := by
  have hsupports : capabilitySupportsGrid (.ofTransform tr 1) { x := 4, y := 1, z := 1 } = .ok () := by
    simp [capabilitySupportsGrid, FunctionInfo.ofTransform, h]
  have hblocks : splitBlocks 2 = 2 := by decide
  simp only [submitSplitCommands, hsupports, hblocks, twoChildren, decomposeGrid_four]
  rfl

/-- A kernel that strides by the size of the grid. -/
def gridStride : Text :=
  (".visible .entry k(.param .u64 out)\n\x7b\n\tmov.u32 %r1, %ctaid.x;\n" ++
    "\tmov.u32 %r2, %nctaid.x;\n\tret;\n\x7d\n").toList

end Xsched.HbSplit
