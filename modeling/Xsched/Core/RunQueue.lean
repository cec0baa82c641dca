import Mathlib.Data.List.Basic

/-!
# Rotating a queue

A scheduler that keeps its candidates in a queue looks for one that can run by
moving those that cannot from the front to the end. The loop has no bound of
its own: it ends because some entry of the queue passes, and what it moves
comes after that one.

**Results.** If an entry passes, the loop ends with the first one that does at
the front, and what was before it at the end, each moved once; as many turns
as there are entries before it are enough (`rotateTo_eq`).
-/
namespace Xsched

section
variable {α : Type} (p : α → Bool) (turn : List α → α → α)

/-- Until the front passes, it is moved to the end, as `turn` leaves it. `none`:
the queue is empty, or the fuel does not last. -/
def rotateTo : Nat → List α → Option (List α)
  | _, [] => none
  | 0, a :: as => if p a then some (a :: as) else none
  | fuel + 1, a :: as =>
    if p a then some (a :: as) else rotateTo fuel (as ++ [turn (a :: as) a])

variable {p turn}

theorem rotateTo_pass {a : α} (ha : p a = true) (fuel : Nat) (as : List α) :
    rotateTo p turn fuel (a :: as) = some (a :: as) := by
  cases fuel <;> simp [rotateTo, ha]

/-- Each entry before the first one that passes is moved to the end once. -/
theorem rotateTo_eq (turn : List α → α → α) {pre : List α} (hpre : ∀ b ∈ pre, p b = false) {a : α}
    (ha : p a = true) (post : List α) : ∃ moved, List.Forall₂ (fun b b' => ∃ l, b' = turn l b) pre moved ∧
      ∀ fuel, pre.length ≤ fuel →
        rotateTo p turn fuel (pre ++ a :: post) = some (a :: post ++ moved) := by
  induction pre generalizing post with
  | nil => exact ⟨[], .nil, fun fuel _ => by simpa using rotateTo_pass ha fuel post⟩
  | cons b pre ih =>
    have hb : p b = false := hpre b (.head _)
    obtain ⟨moved, hmoved, hrest⟩ :=
      ih (fun c hc => hpre c (.tail _ hc)) (post ++ [turn (b :: (pre ++ a :: post)) b])
    refine ⟨turn (b :: (pre ++ a :: post)) b :: moved, .cons ⟨_, rfl⟩ hmoved, fun fuel hfuel => ?_⟩
    cases fuel with
    | zero => simp at hfuel
    | succ fuel =>
      have hloop := hrest fuel (by simpa using hfuel)
      simp only [List.append_assoc, List.cons_append, List.nil_append] at hloop ⊢
      rw [rotateTo, if_neg (by simp [hb])]
      simpa using hloop

/-- The queue before and after the first entry that passes. -/
theorem split_first {l : List α} (h : l.any p = true) : ∃ pre a post, l = pre ++ a :: post ∧
    (∀ b ∈ pre, p b = false) ∧ p a = true := by
  obtain ⟨a, ha⟩ := Option.isSome_iff_exists.1 (List.find?_isSome.2 (List.any_eq_true.1 h))
  obtain ⟨hpass, pre, post, rfl, hpre⟩ := List.find?_eq_some_iff_append.1 ha
  exact ⟨pre, a, post, rfl, fun b hb => by simpa using hpre b hb, hpass⟩

end

end Xsched
