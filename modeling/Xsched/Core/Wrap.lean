import Mathlib.Algebra.Group.Nat.Defs
import Mathlib.Data.List.Basic

/-!
# Fixed-width arithmetic with a monitor, and tilings

`Wrap α` is a value computed with machine arithmetic, together with whether
every operation on the way was exact: no sum or product wrapped, no
subtraction borrowed, no cast dropped bits. The values are those of the
machine; `exact` only watches.

A list of sets tiles a set when every point of the set is in exactly one of
them and no other point is in any (`Tiles`). Tilings of the two halves of a
set make one of the whole (`Tiles.append`).
-/
namespace Xsched

structure Wrap (α : Type) where
  val : α
  exact : Bool

namespace Wrap

variable {α β : Type}

instance : Monad Wrap where
  pure a := ⟨a, true⟩
  bind m f := ⟨(f m.val).val, m.exact && (f m.val).exact⟩

@[simp] theorem pure_val (a : α) : (pure a : Wrap α).val = a := rfl

@[simp] theorem pure_exact (a : α) : (pure a : Wrap α).exact = true := rfl

@[simp] theorem bind_val (m : Wrap α) (f : α → Wrap β) : (m >>= f).val = (f m.val).val := rfl

@[simp] theorem bind_exact (m : Wrap α) (f : α → Wrap β) :
    (m >>= f).exact = (m.exact && (f m.val).exact) := rfl

def addU32 (a b : UInt32) : Wrap UInt32 := ⟨a + b, decide (a.toNat + b.toNat < 2 ^ 32)⟩

def subU32 (a b : UInt32) : Wrap UInt32 := ⟨a - b, decide (b.toNat ≤ a.toNat)⟩

def mulU64 (a b : UInt64) : Wrap UInt64 := ⟨a * b, decide (a.toNat * b.toNat < 2 ^ 64)⟩

/-- `(uint32_t)a` -/
def narrowU32 (a : UInt64) : Wrap UInt32 := ⟨a.toUInt32, decide (a.toNat < 2 ^ 32)⟩

@[simp] theorem addU32_val (a b : UInt32) : (addU32 a b).val = a + b := rfl

@[simp] theorem subU32_val (a b : UInt32) : (subU32 a b).val = a - b := rfl

@[simp] theorem mulU64_val (a b : UInt64) : (mulU64 a b).val = a * b := rfl

@[simp] theorem narrowU32_val (a : UInt64) : (narrowU32 a).val = a.toUInt32 := rfl

@[simp] theorem addU32_exact (a b : UInt32) :
    (addU32 a b).exact = true ↔ a.toNat + b.toNat < 2 ^ 32 := decide_eq_true_iff

@[simp] theorem subU32_exact (a b : UInt32) : (subU32 a b).exact = true ↔ b.toNat ≤ a.toNat :=
  decide_eq_true_iff

@[simp] theorem mulU64_exact (a b : UInt64) :
    (mulU64 a b).exact = true ↔ a.toNat * b.toNat < 2 ^ 64 := decide_eq_true_iff

@[simp] theorem narrowU32_exact (a : UInt64) : (narrowU32 a).exact = true ↔ a.toNat < 2 ^ 32 :=
  decide_eq_true_iff

/-! ## What the operations compute while they are exact -/

theorem toNat_sub32 {a b : UInt32} (h : b.toNat ≤ a.toNat) :
    (a - b).toNat = a.toNat - b.toNat := by
  have ha := a.toNat_lt
  rw [UInt32.toNat_sub]
  omega

theorem toNat_add32 {a b : UInt32} (h : a.toNat + b.toNat < 2 ^ 32) :
    (a + b).toNat = a.toNat + b.toNat := by
  rw [UInt32.toNat_add]
  omega

theorem toNat_mul64 {a b : UInt64} (h : a.toNat * b.toNat < 2 ^ 64) :
    (a * b).toNat = a.toNat * b.toNat := by
  rw [UInt64.toNat_mul]
  exact Nat.mod_eq_of_lt h

theorem toNat_narrow {a : UInt64} (h : a.toNat < 2 ^ 32) : a.toUInt32.toNat = a.toNat := by
  rw [UInt64.toNat_toUInt32]
  exact Nat.mod_eq_of_lt h

/-- The product of two 32-bit numbers fits 64 bits. -/
theorem mul_lt_64 (a b : UInt32) : a.toNat * b.toNat < 2 ^ 64 := by
  have ha := a.toNat_lt
  have hb := b.toNat_lt
  have h : a.toNat * b.toNat ≤ (2 ^ 32 - 1) * (2 ^ 32 - 1) :=
    Nat.mul_le_mul (by omega) (by omega)
  omega

end Wrap

/-! ## Tilings -/

section Tiling
variable {α : Type}

def Tiles (s : α → Bool) (ts : List (α → Bool)) : Prop :=
  ∀ p, ts.countP (fun t => t p) = (s p).toNat

variable {s l r : α → Bool} {ts us : List (α → Bool)}

theorem Tiles.nil (h : ∀ p, s p = false) : Tiles s [] := by
  intro p
  simp [h p]

theorem Tiles.single (s : α → Bool) : Tiles s [s] := by
  intro p
  cases h : s p <;> simp [h]

/-- Every point of `s` is in one of `l` and `r`. -/
theorem Tiles.append (hsplit : ∀ p, (s p).toNat = (l p).toNat + (r p).toNat) (hl : Tiles l ts)
    (hr : Tiles r us) : Tiles s (ts ++ us) := by
  intro p
  rw [List.countP_append, hl p, hr p, hsplit p]

/-- No point is in two tiles. -/
theorem Tiles.disjoint (h : Tiles s ts) :
    ts.Pairwise fun t u => ∀ p, t p = true → u p = false := by
  have hle : ∀ p, ts.countP (fun t => t p) ≤ 1 := by
    intro p
    rw [h p]
    cases s p <;> decide
  clear h
  induction ts with
  | nil => exact List.Pairwise.nil
  | cons t ts ih =>
    refine List.pairwise_cons.2 ⟨fun u hu p ht => ?_, ih fun p => ?_⟩
    · have hp := hle p
      rw [List.countP_cons, if_pos ht] at hp
      cases hup : u p with
      | false => rfl
      | true =>
        have hpos : 0 < ts.countP (fun t => t p) := List.countP_pos_iff.2 ⟨u, hu, hup⟩
        omega
    · have hp := hle p
      rw [List.countP_cons] at hp
      omega

end Tiling
end Xsched
