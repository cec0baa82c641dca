import Xsched.Core.Infix
import Xsched.HbSplit.Ptx

/-!
# What a search finds

`find` finds the first occurrence of a needle. Whether an occurrence is the first
depends on the text up to its end only, so what changes behind it does not
change what is found (`find_stable`).
-/
namespace Xsched.HbSplit

variable {needle s : Text} {i j : Nat}

theorem findAux_eq_none : findAux needle s i = none ↔ ¬ needle <:+: s := by
  induction s generalizing i with
  | nil =>
    rw [findAux, List.infix_nil]
    split
    · next h => exact iff_of_false nofun fun hn => hn h
    · next h => exact iff_of_true rfl h
  | cons c s ih =>
    rw [findAux, List.infix_cons_iff, not_or]
    split
    · next h => exact iff_of_false nofun fun hn => hn.1 (List.isPrefixOf_iff_prefix.1 h)
    · next h =>
      rw [ih]
      exact (and_iff_right fun hp => h (List.isPrefixOf_iff_prefix.2 hp)).symm

/-- The text is `u`, the needle and `v`, and there is no occurrence before. -/
structure FirstAt (needle u v s : Text) : Prop where
  text : s = u ++ (needle ++ v)
  first : ∀ u' v', s = u' ++ (needle ++ v') → u.length ≤ u'.length

theorem findAux_sound (h : findAux needle s i = some j) :
    ∃ u v, FirstAt needle u v s ∧ j = i + u.length := by
  induction s generalizing i with
  | nil =>
    rw [findAux] at h
    split at h
    · next hn =>
      cases h
      exact ⟨[], [], ⟨by rw [hn]; rfl, fun _ _ _ => Nat.zero_le _⟩, rfl⟩
    · cases h
  | cons c s ih =>
    rw [findAux] at h
    split at h
    · next hn =>
      cases h
      obtain ⟨v, hv⟩ := List.isPrefixOf_iff_prefix.1 hn
      exact ⟨[], v, ⟨hv.symm, fun _ _ _ => Nat.zero_le _⟩, rfl⟩
    · next hn =>
      obtain ⟨u, v, hfirst, rfl⟩ := ih h
      refine ⟨c :: u, v, ⟨by rw [hfirst.text]; rfl, fun u' v' he => ?_⟩, ?_⟩
      · cases u' with
        | nil => exact absurd (List.isPrefixOf_iff_prefix.2 ⟨v', he.symm⟩) hn
        | cons d u' =>
          rw [List.cons_append, List.cons_eq_cons] at he
          exact Nat.succ_le_succ (hfirst.first u' v' he.2)
      · rw [List.length_cons]
        omega

theorem FirstAt.findAux {u v : Text} (h : FirstAt needle u v s) (i : Nat) :
    HbSplit.findAux needle s i = some (i + u.length) := by
  cases hfind : HbSplit.findAux needle s i with
  | none => exact absurd ⟨u, v, by rw [List.append_assoc]; exact h.text.symm⟩ (findAux_eq_none.1 hfind)
  | some j =>
    obtain ⟨u', v', h', rfl⟩ := findAux_sound hfind
    have := h.first u' v' h'.text
    have := h'.first u v h.text
    congr 1
    omega

/-- What is behind an occurrence has no part in its being the first. -/
theorem FirstAt.stable {u v : Text} (v' : Text) (h : FirstAt needle u v (u ++ (needle ++ v))) :
    FirstAt needle u v' (u ++ (needle ++ v')) := by
  refine ⟨rfl, fun u₀ v₀ he => ?_⟩
  by_contra hlt
  rw [Nat.not_le] at hlt
  rw [← List.append_assoc, ← List.append_assoc] at he
  obtain ⟨w, hw⟩ := List.prefix_of_prefix_length_le ⟨v₀, he.symm⟩ ⟨v', rfl⟩
    (by rw [List.length_append, List.length_append]; omega : (u₀ ++ needle).length ≤ (u ++ needle).length)
  have hbefore : u ++ (needle ++ v) = u₀ ++ (needle ++ (w ++ v)) := by
    rw [← List.append_assoc, ← hw]
    simp only [List.append_assoc]
  have := h.first u₀ _ hbefore
  omega

/-- A change behind the first occurrence. -/
theorem find_stable {u v v' : Text}
    (h : find needle (u ++ (needle ++ v)) 0 = some u.length) :
    find needle (u ++ (needle ++ v')) 0 = some u.length := by
  obtain ⟨u', w, hfirst, hlen⟩ := findAux_sound h
  rw [Nat.zero_add] at hlen
  have htext := hfirst.text
  rw [List.drop_zero] at htext hfirst
  obtain ⟨rfl, hrest⟩ := List.append_inj htext hlen
  rw [List.append_cancel_left_eq] at hrest
  subst hrest
  have hfind := (hfirst.stable v').findAux 0
  rwa [Nat.zero_add] at hfind

theorem find_eq_none : find needle s 0 = none ↔ ¬ needle <:+: s := findAux_eq_none

theorem find_eq_some (h : find needle s 0 = some j) :
    ∃ u v, s = u ++ (needle ++ v) ∧ u.length = j := by
  obtain ⟨u, v, hfirst, rfl⟩ := findAux_sound h
  exact ⟨u, v, hfirst.text, by rw [Nat.zero_add]⟩

theorem contains_iff : contains needle s = true ↔ needle <:+: s := by
  rw [contains, Option.isSome_iff_ne_none, ne_eq, find_eq_none, not_not]

end Xsched.HbSplit
