import Mathlib.Data.List.Sort
import Mathlib.Data.Prod.Lex

/-!
# Ranks in a sorted list

Where a sort may leave equal keys in any order, the place of an element is
known only up to the elements with its key: as many elements are before it as
have a smaller key, at least, and all before it have a key that is not larger
(`countP_lt_of_mem_take`, `mem_take`).

Both bounds are attained. `tieSort` sorts by the key and, among equal keys, by
a rank that may be chosen: an element that has the least rank among those with
its key comes first of them, and one that has the greatest comes last.
-/
namespace Xsched.Ranks

section
variable {α β : Type} [LinearOrder β] (f : α → β)

/-- At least as many elements are before `x` as have a smaller key. -/
theorem countP_lt_of_mem_take {l : List α} (hs : l.Pairwise fun a b => f a ≤ f b) {k : Nat} {x : α}
    (hx : x ∈ l.take k) : l.countP (fun y => decide (f y < f x)) < k := by
  obtain ⟨pre, post, hpre⟩ := List.append_of_mem hx
  have hsplit : l = pre ++ x :: (post ++ l.drop k) := by
    rw [← List.cons_append, ← List.append_assoc, ← hpre, List.take_append_drop]
  have hlen : pre.length < k := by
    have h := congrArg List.length hpre
    rw [List.length_take, List.length_append, List.length_cons] at h
    omega
  have hrest : (x :: (post ++ l.drop k)).countP (fun y => decide (f y < f x)) = 0 := by
    rw [hsplit, List.pairwise_append, List.pairwise_cons] at hs
    rw [List.countP_eq_zero]
    intro y hy
    rcases List.mem_cons.1 hy with rfl | hy
    · simp
    · simpa using hs.2.1.1 y hy
  rw [hsplit, List.countP_append, hrest]
  exact Nat.lt_of_le_of_lt List.countP_le_length hlen

/-- The elements before `x` have no larger key. -/
theorem mem_take {l : List α} (hs : l.Pairwise fun a b => f a ≤ f b) {k : Nat} {x : α}
    (hx : x ∈ l) (hk : l.countP (fun y => decide (f y ≤ f x)) ≤ k) : x ∈ l.take k := by
  obtain ⟨pre, post, rfl⟩ := List.append_of_mem hx
  rw [List.pairwise_append] at hs
  have hpre : pre.countP (fun y => decide (f y ≤ f x)) = pre.length :=
    List.countP_eq_length.2 fun y hy => by simpa using hs.2.2 y hy x (.head _)
  rw [List.countP_append, hpre, List.countP_cons_of_pos (by simp)] at hk
  rw [List.take_append]
  refine List.mem_append_right _ ?_
  obtain ⟨m, hm⟩ : ∃ m, k - pre.length = m + 1 := ⟨k - pre.length - 1, by omega⟩
  rw [hm, List.take_succ_cons]
  exact .head _

end

/-- What holds of the elements of `p` but for one. -/
theorem countP_le_succ {α : Type} {p q : α → Bool} {l : List α} (hnd : l.Nodup) (x : α)
    (h : ∀ y ∈ l, p y = true → q y = true ∨ y = x) : l.countP p ≤ l.countP q + 1 := by
  induction l with
  | nil => simp
  | cons y l ih =>
    rw [List.nodup_cons] at hnd
    by_cases hy : y = x
    · have hrest : l.countP p ≤ l.countP q := by
        refine List.countP_mono_left fun z hz hp => ?_
        rcases h z (.tail _ hz) hp with hq | rfl
        · exact hq
        · exact absurd (hy ▸ hz) hnd.1
      rw [List.countP_cons, List.countP_cons]
      split <;> split <;> omega
    · have hrest := ih hnd.2 fun z hz => h z (.tail _ hz)
      have hhead : p y = true → q y = true := fun hp => (h y (.head _) hp).resolve_right hy
      rw [List.countP_cons, List.countP_cons]
      by_cases hp : p y = true
      · rw [if_pos hp, if_pos (hhead hp)]
        omega
      · rw [if_neg hp]
        split <;> omega

/-! ## Choosing the order of equal keys -/

section
variable {α β : Type} [LinearOrder β] (f : α → β) (rank : α → Nat)

/-- The key, and the rank where it is equal. -/
def tieKey (x : α) : β ×ₗ Nat := toLex (f x, rank x)

variable {f rank}

theorem tieKey_le {x y : α} :
    tieKey f rank x ≤ tieKey f rank y ↔ f x < f y ∨ f x = f y ∧ rank x ≤ rank y :=
  Prod.Lex.toLex_le_toLex

theorem tieKey_lt {x y : α} :
    tieKey f rank x < tieKey f rank y ↔ f x < f y ∨ f x = f y ∧ rank x < rank y :=
  Prod.Lex.toLex_lt_toLex

variable (f rank)

def tieSort (l : List α) : List α :=
  l.insertionSort fun a b => tieKey f rank a ≤ tieKey f rank b

theorem tieSort_perm (l : List α) : (tieSort f rank l).Perm l := List.perm_insertionSort _ l

theorem tieSort_pairwise (l : List α) :
    (tieSort f rank l).Pairwise fun a b => tieKey f rank a ≤ tieKey f rank b := by
  have htotal : Std.Total fun a b => tieKey f rank a ≤ tieKey f rank b :=
    ⟨fun a b => le_total _ _⟩
  have htrans : IsTrans α fun a b => tieKey f rank a ≤ tieKey f rank b := ⟨fun _ _ _ => le_trans⟩
  exact List.pairwise_insertionSort _ l

theorem tieSort_sorted (l : List α) : (tieSort f rank l).Pairwise fun a b => f a ≤ f b := by
  refine (tieSort_pairwise f rank l).imp fun {a b} h => ?_
  rcases tieKey_le.1 h with h | h
  · exact h.le
  · exact h.1.le

variable {f rank} {l : List α} {k : Nat} {x : α}

/-- An element of least rank is before all others with its key. -/
theorem mem_take_tieSort (hnd : l.Nodup) (hx : x ∈ l)
    (hfirst : ∀ y ∈ l, f y = f x → rank y ≤ rank x → y = x)
    (hk : l.countP (fun y => decide (f y < f x)) < k) : x ∈ (tieSort f rank l).take k := by
  refine mem_take (tieKey f rank) (tieSort_pairwise f rank l) ((tieSort_perm f rank l).mem_iff.2 hx)
    ?_
  rw [(tieSort_perm f rank l).countP_eq]
  have hle : l.countP (fun y => decide (tieKey f rank y ≤ tieKey f rank x)) ≤
      l.countP (fun y => decide (f y < f x)) + 1 := by
    refine countP_le_succ hnd x fun y hy hle => ?_
    rcases tieKey_le.1 (of_decide_eq_true hle) with hlt | ⟨heq, hrank⟩
    · exact Or.inl (decide_eq_true hlt)
    · exact Or.inr (hfirst y hy heq hrank)
  omega

/-- An element of greatest rank is behind all others with its key. -/
theorem not_mem_take_tieSort (hnd : l.Nodup)
    (hlast : ∀ y ∈ l, f y = f x → rank x ≤ rank y → y = x)
    (hk : k < l.countP (fun y => decide (f y ≤ f x))) : x ∉ (tieSort f rank l).take k := by
  intro hx
  have hlt := countP_lt_of_mem_take (tieKey f rank) (tieSort_pairwise f rank l) hx
  rw [(tieSort_perm f rank l).countP_eq] at hlt
  have hle : l.countP (fun y => decide (f y ≤ f x)) ≤
      l.countP (fun y => decide (tieKey f rank y < tieKey f rank x)) + 1 := by
    refine countP_le_succ hnd x fun y hy hle => ?_
    rcases lt_or_eq_of_le (of_decide_eq_true hle) with hlt | heq
    · exact Or.inl (decide_eq_true (tieKey_lt.2 (Or.inl hlt)))
    · by_cases hrank : rank y < rank x
      · exact Or.inl (decide_eq_true (tieKey_lt.2 (Or.inr ⟨heq, hrank⟩)))
      · exact Or.inr (hlast y hy heq (not_lt.1 hrank))
  omega

end

end Xsched.Ranks
