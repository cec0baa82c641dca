import Mathlib.Algebra.Group.Nat.Defs
import Mathlib.Data.List.Basic

/-!
# Byte memory

Memory as a map from addresses to bytes, `memcpy` and little-endian words of
eight bytes. What a read gives after a copy depends on whether the ranges
meet (`read_copy_self`, `read_copy_disjoint`). The memories that hold one byte
everywhere tell reads apart (`exists_read_ne`, `exists_word_ne`) whatever the
pointers in between are.
-/
namespace Xsched

abbrev Mem := Nat → UInt8

namespace Mem

/-- `n` bytes from address `a`. -/
def read (m : Mem) (a n : Nat) : List UInt8 := (List.range n).map fun i => m (a + i)

/-- The little-endian number in `n` bytes from address `a`. -/
def number (m : Mem) : Nat → Nat → Nat
  | _, 0 => 0
  | a, n + 1 => (m a).toNat + 256 * number m (a + 1) n

/-- A pointer or a `size_t`. -/
def word (m : Mem) (a : Nat) : Nat := number m a 8

/-- `memcpy(&dst[d], &src[s], n)` -/
def copy (dst : Mem) (d : Nat) (src : Mem) (s n : Nat) : Mem := fun x =>
  if d ≤ x ∧ x < d + n then src (s + (x - d)) else dst x

/-- The memory with the bytes `v` from `a` on. -/
def write (m : Mem) (a : Nat) (v : List UInt8) : Mem := fun x =>
  if a ≤ x then v.getD (x - a) (m x) else m x

@[simp] theorem length_read (m : Mem) (a n : Nat) : (read m a n).length = n := by
  simp [read]

theorem read_congr {m m' : Mem} {a a' n : Nat} (h : ∀ i, i < n → m (a + i) = m' (a' + i)) :
    read m a n = read m' a' n := by
  unfold read
  apply List.map_congr_left
  intro i hi
  exact h i (List.mem_range.1 hi)

/-- The copied bytes are those of the source. -/
theorem read_copy_self (dst : Mem) (d : Nat) (src : Mem) (s n : Nat) :
    read (copy dst d src s n) d n = read src s n := by
  apply read_congr
  intro i hi
  unfold copy
  rw [if_pos (by omega)]
  congr 1
  omega

/-- Bytes off the copied range are as they were. -/
theorem read_copy_disjoint {dst src : Mem} {d s n a k : Nat} (h : a + k ≤ d ∨ d + n ≤ a) :
    read (copy dst d src s n) a k = read dst a k := by
  apply read_congr
  intro i hi
  unfold copy
  rw [if_neg (by omega)]

/-! ## Written bytes -/

/-- A read inside of what was written. -/
theorem read_write_within (m : Mem) {a off n : Nat} {v : List UInt8} (h : off + n ≤ v.length) :
    read (write m a v) (a + off) n = (v.drop off).take n := by
  apply List.ext_getElem
  · rw [length_read, List.length_take, List.length_drop]
    omega
  · intro i hi _
    rw [length_read] at hi
    have hlt : off + i < v.length := by omega
    simp only [read, write, List.getElem_map, List.getElem_range, List.getElem_take,
      List.getElem_drop]
    rw [if_pos (by omega), show a + off + i - a = off + i by omega, List.getD_eq_getElem?_getD,
      List.getElem?_eq_getElem hlt, Option.getD_some]

theorem read_write_disjoint {m : Mem} {a d n : Nat} {v : List UInt8}
    (h : a + n ≤ d ∨ d + v.length ≤ a) : read (write m d v) a n = read m a n := by
  apply read_congr
  intro i hi
  unfold write
  split
  · rw [List.getD_eq_getElem?_getD, List.getElem?_eq_none (by omega), Option.getD_none]
  · rfl

/-- A part of what was read. -/
theorem drop_take_read (m : Mem) {a size off n : Nat} (h : off + n ≤ size) :
    ((read m a size).drop off).take n = read m (a + off) n := by
  apply List.ext_getElem
  · rw [List.length_take, List.length_drop, length_read, length_read]
    omega
  · intro i _ hi
    rw [length_read] at hi
    simp only [read, List.getElem_map, List.getElem_range, List.getElem_take, List.getElem_drop]
    congr 1
    omega

/-! ## Memories of one byte -/

theorem read_const (b : UInt8) (a n : Nat) : read (fun _ => b) a n = List.replicate n b := by
  unfold read
  rw [List.map_const', List.length_range]

/-- Some memory of one byte reads otherwise than `v`. -/
theorem exists_read_ne (v : List UInt8) {n : Nat} (hn : 0 < n) :
    ∃ b : UInt8, ∀ a, read (fun _ => b) a n ≠ v := by
  have hne : List.replicate n (0 : UInt8) ≠ List.replicate n 1 := by
    rw [Ne, List.replicate_right_inj (by omega)]
    decide
  by_cases h : List.replicate n (0 : UInt8) = v
  · refine ⟨1, fun a he => hne ?_⟩
    rw [h, ← he, read_const]
  · refine ⟨0, fun a he => h ?_⟩
    rw [← he, read_const]

/-- Some memory of one byte holds a word other than `n`. -/
theorem exists_word_ne (n : Nat) : ∃ b : UInt8, ∀ a, word (fun _ => b) a ≠ n := by
  have hzero (a : Nat) : word (fun _ => 0) a = 0 := by simp [word, number]
  have hone (a : Nat) : word (fun _ => 1) a ≠ 0 := by simp [word, number]
  by_cases h : n = 0
  · exact ⟨1, fun a => by rw [h]; exact hone a⟩
  · exact ⟨0, fun a => by rw [hzero]; exact fun he => h he.symm⟩

end Mem
end Xsched
