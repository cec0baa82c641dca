import Mathlib.Data.List.Basic

/-!
# Taking elements until there is enough

A loop goes over a list, takes each element, adds it to what it has, and stops
once that is enough. What it takes is the shortest prefix that is enough, or
the whole list.
-/
namespace Xsched
namespace TakeUntil

variable {α σ : Type}

/-- What the loop takes, with `s` at hand before it begins. -/
def taken (add : σ → α → σ) (enough : σ → Bool) : σ → List α → List α
  | _, [] => []
  | s, a :: as => a :: if enough (add s a) then [] else taken add enough (add s a) as

variable {add : σ → α → σ} {enough : σ → Bool} {s : σ} {as : List α}

theorem taken_prefix : taken add enough s as <+: as := by
  induction as generalizing s with
  | nil => exact List.prefix_refl _
  | cons a as ih =>
    rw [taken]
    split
    · exact List.prefix_append [a] as
    · exact List.cons_prefix_cons.2 ⟨rfl, ih⟩

/-- It is enough, or there is no more. -/
theorem taken_enough :
    enough ((taken add enough s as).foldl add s) = true ∨ taken add enough s as = as := by
  induction as generalizing s with
  | nil => exact Or.inr rfl
  | cons a as ih =>
    rw [taken]
    split
    · rename_i h
      exact Or.inl h
    · rcases ih (s := add s a) with h | h
      · exact Or.inl h
      · exact Or.inr (by rw [h])

/-- Without its last element it is not enough. -/
theorem taken_minimal (h0 : enough s = false) {init : List α} {a : α}
    (h : taken add enough s as = init ++ [a]) : enough (init.foldl add s) = false := by
  induction as generalizing s init with
  | nil => exact absurd h (by simp [taken])
  | cons b as ih =>
    rw [taken] at h
    cases init with
    | nil => exact h0
    | cons c init =>
      rw [List.cons_append, List.cons.injEq] at h
      obtain ⟨rfl, h⟩ := h
      split at h
      · exact absurd h (by simp)
      · rename_i hmore
        exact ih (s := add s b) (by simpa using hmore) h

end TakeUntil
end Xsched
