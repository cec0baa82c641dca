import Mathlib.Algebra.Group.Nat.Defs

/-!
# The places of a box in a row

The place `(i, j, k)` of a box with `y` columns of `z` layers has the number
`i * y * z + j * z + k`. The places of a box of `x * y * z` have the numbers below
that, each of them once.
-/
namespace Xsched
namespace RowMajor

variable {x y z i j k i' j' k' n : Nat}

def number (y z i j k : Nat) : Nat := i * y * z + j * z + k

theorem number_eq (y z i j k : Nat) : number y z i j k = (i * y + j) * z + k := by
  rw [number, Nat.add_mul]

theorem number_lt (hi : i < x) (hj : j < y) (hk : k < z) : number y z i j k < x * y * z := by
  have hrow : j * z + k < y * z := by
    have h : (j + 1) * z ≤ y * z := Nat.mul_le_mul_right _ hj
    rw [Nat.succ_mul] at h
    omega
  have hslab : (i + 1) * (y * z) ≤ x * (y * z) := Nat.mul_le_mul_right _ hi
  rw [Nat.succ_mul] at hslab
  rw [number, Nat.mul_assoc, Nat.mul_assoc]
  omega

theorem number_inj (hj : j < y) (hk : k < z) (hj' : j' < y) (hk' : k' < z)
    (h : number y z i j k = number y z i' j' k') : i = i' ∧ j = j' ∧ k = k' := by
  rw [number_eq, number_eq] at h
  have hlayer : k = k' := by
    have hm := congrArg (· % z) h
    simpa [Nat.add_mod, Nat.mod_eq_of_lt hk, Nat.mod_eq_of_lt hk'] using hm
  have hrow : i * y + j = i' * y + j' := by
    subst hlayer
    exact Nat.eq_of_mul_eq_mul_right (by omega) (Nat.add_right_cancel h)
  have hcolumn : j = j' := by
    have hm := congrArg (· % y) hrow
    simpa [Nat.add_mod, Nat.mod_eq_of_lt hj, Nat.mod_eq_of_lt hj'] using hm
  subst hcolumn
  exact ⟨Nat.eq_of_mul_eq_mul_right (by omega) (Nat.add_right_cancel hrow), rfl, hlayer⟩

/-- The place with a number. -/
theorem exists_number (h : n < x * y * z) :
    ∃ i j k, i < x ∧ j < y ∧ k < z ∧ number y z i j k = n := by
  have hpos : 0 < x * y * z := by omega
  have hz : 0 < z := Nat.pos_of_mul_pos_left hpos
  have hy : 0 < y := Nat.pos_of_mul_pos_left (Nat.pos_of_mul_pos_right hpos)
  refine ⟨n / z / y, n / z % y, n % z, ?_, Nat.mod_lt _ hy, Nat.mod_lt _ hz, ?_⟩
  · rw [Nat.div_div_eq_div_mul, Nat.div_lt_iff_lt_mul (Nat.mul_pos hz hy), Nat.mul_comm z y,
      ← Nat.mul_assoc]
    exact h
  · rw [number_eq, Nat.div_add_mod', Nat.div_add_mod']

end RowMajor
end Xsched
