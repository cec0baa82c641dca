import Mathlib.Data.List.Infix

/-!
# Where a word occurs

A word without a given character lies on one side of it (`infix_sides`), so what
changes on the other side makes no occurrence. And a word that begins with
`c d` does not begin in a text without `c d` and not with its last character
(`Skips`): whoever searches for the word may pass over the text.

Where the first character of a word does not come again in it, its occurrences do
not overlap: a text falls into the pieces between them in one way
(`occurs_behind`, `cut_unique`).
-/
namespace Xsched
namespace Infix

variable {α : Type} {c d : α} {n P Q X Y Z : List α}

/-- An occurrence lies on one side of a character, or goes over it. -/
theorem infix_cut (h : n <:+: X ++ c :: Y) :
    n <:+: X ∨ n <:+: Y ∨ ∃ n₁ n₂, n = n₁ ++ c :: n₂ ∧ n₁ <:+ X ∧ n₂ <+: Y := by
  rcases List.infix_append_iff.1 h with hl | hr | ⟨n₁, n₂, rfl, hsuffix, hprefix⟩
  · exact .inl hl
  · rcases List.infix_cons_iff.1 hr with hprefix | hinfix
    · rcases List.prefix_cons_iff.1 hprefix with rfl | ⟨n₂, rfl, hn₂⟩
      · exact .inl List.nil_infix
      · exact .inr (.inr ⟨[], n₂, rfl, List.nil_suffix, hn₂⟩)
    · exact .inr (.inl hinfix)
  · rcases List.prefix_cons_iff.1 hprefix with rfl | ⟨n₃, rfl, hn₃⟩
    · rw [List.append_nil]
      exact .inl hsuffix.isInfix
    · exact .inr (.inr ⟨n₁, n₃, rfl, hsuffix, hn₃⟩)

theorem infix_sides (hc : c ∉ n) (h : n <:+: X ++ c :: Y) : n <:+: X ∨ n <:+: Y := by
  rcases infix_cut h with hl | hr | ⟨n₁, n₂, rfl, -, -⟩
  · exact .inl hl
  · exact .inr hr
  · exact absurd (List.mem_append_right n₁ List.mem_cons_self) hc

/-- No word that begins with `c d` begins in the text. -/
def Skips (c d : α) (P : List α) : Prop :=
  ∀ n Z, c :: d :: n <:+: P ++ Z → c :: d :: n <:+: Z

theorem Skips.append (hP : Skips c d P) (hQ : Skips c d Q) : Skips c d (P ++ Q) := by
  intro n Z h
  rw [List.append_assoc] at h
  exact hQ n Z (hP n (Q ++ Z) h)

theorem skips_of_not_mem (h : c ∉ P) : Skips c d P := by
  intro n Z hin
  induction P with
  | nil => exact hin
  | cons e P ih =>
    rw [List.mem_cons, not_or] at h
    rcases List.infix_cons_iff.1 hin with hprefix | hinfix
    · exact absurd (List.cons_prefix_cons.1 hprefix).1 h.1
    · exact ih h.2 hinfix

theorem skips_of_pairs (hpair : ¬ [c, d] <:+: P) (hlast : c ∉ P.getLast?) : Skips c d P := by
  intro n Z hin
  induction P with
  | nil => exact hin
  | cons e P ih =>
    rcases List.infix_cons_iff.1 hin with hprefix | hinfix
    · obtain ⟨hce, hrest⟩ := List.cons_prefix_cons.1 hprefix
      cases P with
      | nil => exact absurd (hce ▸ rfl) hlast
      | cons f P =>
        have hdf := (List.cons_prefix_cons.1 hrest).1
        exact absurd ⟨[], P, by rw [hce, hdf]; rfl⟩ hpair
    · refine ih (fun h => hpair (List.infix_cons h)) (fun h => hlast ?_) hinfix
      cases P with
      | nil => cases h
      | cons f P =>
        rw [List.getLast?_cons_cons]
        exact h

/-! ## Between the occurrences -/

section

variable {A A' B B' U V : List α}

theorem not_infix_append (hc : c ∉ A) (h : ¬ c :: n <:+: B) : ¬ c :: n <:+: A ++ B := by
  induction A with
  | nil => exact h
  | cons e A ih =>
    rw [List.mem_cons, not_or] at hc
    rw [List.cons_append, List.infix_cons_iff, not_or]
    exact ⟨fun hprefix => hc.1 (List.cons_prefix_cons.1 hprefix).1, ih hc.2⟩

/-- Behind a text without the word, followed by the word or by nothing. -/
theorem occurs_behind (hc : c ∉ n) (hA : ¬ c :: n <:+: A) (hB : B = [] ∨ c :: n <+: B)
    (h : A ++ B = U ++ (c :: n ++ V)) : ∃ U', U = A ++ U' ∧ B = U' ++ (c :: n ++ V) := by
  rcases List.append_eq_append_iff.1 h with hright | ⟨b, rfl, hleft⟩
  · exact hright
  cases b with
  | nil => exact ⟨[], by simp, hleft.symm⟩
  | cons e b =>
    exfalso
    rw [List.cons_append, List.cons_append, List.cons_eq_cons] at hleft
    obtain ⟨rfl, hleft⟩ := hleft
    rcases List.append_eq_append_iff.1 hleft with ⟨a, rfl, -⟩ | ⟨a, rfl, hrest⟩
    · exact hA ⟨U, a, by simp⟩
    · -- the word would begin in the text and end behind it
      cases a with
      | nil => exact hA ⟨U, [], by simp⟩
      | cons f a =>
        rcases hB with rfl | ⟨r, rfl⟩
        · cases hrest
        · rw [List.cons_append, List.cons_append, List.cons_eq_cons] at hrest
          exact hc (hrest.1 ▸ List.mem_append_right b List.mem_cons_self)

/-- The first piece of a text. -/
theorem cut_unique (hc : c ∉ n) (hA : ¬ c :: n <:+: A) (hA' : ¬ c :: n <:+: A')
    (hB : B = [] ∨ c :: n <+: B) (hB' : B' = [] ∨ c :: n <+: B') (h : A ++ B = A' ++ B') :
    A = A' ∧ B = B' := by
  have hshort : ∀ {A A' B B' : List α}, ¬ c :: n <:+: A → ¬ c :: n <:+: A' → B = [] ∨ c :: n <+: B →
      B' = [] ∨ c :: n <+: B' → A ++ B = A' ++ B' → A'.length ≤ A.length := by
    intro A A' B B' hA hA' hB hB' h
    rcases hB with rfl | ⟨r, rfl⟩
    · rw [List.append_nil] at h
      rw [h, List.length_append]
      exact Nat.le_add_right _ _
    · obtain ⟨U', rfl, -⟩ := occurs_behind hc hA' hB' h.symm
      rw [List.length_append]
      exact Nat.le_add_right _ _
  exact List.append_inj h (Nat.le_antisymm (hshort hA' hA hB' hB h.symm) (hshort hA hA' hB hB' h))

end

end Infix
end Xsched
