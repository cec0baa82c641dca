import Mathlib.Data.List.Basic

/-!
# Stamps of a logical clock

Whoever is stamped gets the next reading of a counter, so the stamps tell who
was stamped last. `stampAt l now f` are the stamps after those in `l` were
stamped, one after the other, where the counter stood at `now`.

* `stampAt_lt`: of two records that agree on an order, both still agree
  when the same are stamped in both.
* `stampAt_lt_iff_up`: stamping again does not disturb the order of the stamps
  exactly where whoever was stamped after one in `l` comes behind it in `l`.
-/
namespace Xsched
namespace Stamps

variable {K : Type} [DecidableEq K]

def stampAt (l : List K) (now : Nat) (f : K → Nat) (k : K) : Nat :=
  if k ∈ l then now + l.idxOf k + 1 else f k

variable {l : List K} {now now' : Nat} {f g : K → Nat} {a b : K}

theorem stampAt_of_mem (h : a ∈ l) : stampAt l now f a = now + l.idxOf a + 1 := if_pos h

theorem stampAt_of_not_mem (h : a ∉ l) : stampAt l now f a = f a := if_neg h

theorem stampAt_le (h : a ∉ l → f a ≤ now) : stampAt l now f a ≤ now + l.length := by
  unfold stampAt
  split
  · next hmem =>
    have := List.idxOf_lt_length_of_mem hmem
    omega
  · next hmem =>
    have := h hmem
    omega

/-- Stamping keeps two apart. -/
theorem stampAt_inj (ha : a ∉ l → f a ≤ now) (hb : b ∉ l → f b ≤ now)
    (h : a ∉ l → b ∉ l → f a = f b → a = b) (heq : stampAt l now f a = stampAt l now f b) :
    a = b := by
  by_cases hal : a ∈ l
  · by_cases hbl : b ∈ l
    · rw [stampAt_of_mem hal, stampAt_of_mem hbl] at heq
      exact (List.idxOf_inj hal).1 (by omega)
    · have := hb hbl
      rw [stampAt_of_mem hal, stampAt_of_not_mem hbl] at heq
      omega
  · have := ha hal
    by_cases hbl : b ∈ l
    · rw [stampAt_of_not_mem hal, stampAt_of_mem hbl] at heq
      omega
    · rw [stampAt_of_not_mem hal, stampAt_of_not_mem hbl] at heq
      exact h hal hbl heq

/-- `x` and `y` are the stamps of `a` and `b` in another record, where the same
were stamped: they are in the same order. -/
theorem stampAt_lt {x y : Nat} (ha : a ∉ l → f a ≤ now) (hy : b ∉ l → y ≤ now')
    (hax : a ∈ l → x = now' + l.idxOf a + 1) (hby : b ∈ l → y = now' + l.idxOf b + 1)
    (h : a ∉ l → b ∉ l → f b < f a → y < x) (hlt : stampAt l now f b < stampAt l now f a) :
    y < x := by
  by_cases hal : a ∈ l
  · have := hax hal
    by_cases hbl : b ∈ l
    · have := hby hbl
      rw [stampAt_of_mem hal, stampAt_of_mem hbl] at hlt
      omega
    · have := hy hbl
      omega
  · by_cases hbl : b ∈ l
    · have := ha hal
      rw [stampAt_of_not_mem hal, stampAt_of_mem hbl] at hlt
      omega
    · rw [stampAt_of_not_mem hal, stampAt_of_not_mem hbl] at hlt
      exact h hal hbl hlt

/-- The one that was stamped later stays later exactly if it is stamped again
behind the other, or the other is not stamped again. -/
theorem stampAt_lt_iff_up (ha : f a ≤ now) (hlt : f b < f a) :
    stampAt l now f b < stampAt l now f a ↔ (b ∈ l → a ∈ l ∧ l.idxOf b < l.idxOf a) := by
  by_cases hbl : b ∈ l
  · by_cases hal : a ∈ l
    · rw [stampAt_of_mem hal, stampAt_of_mem hbl]
      exact ⟨fun h _ => ⟨hal, by omega⟩, fun h => by have := (h hbl).2; omega⟩
    · rw [stampAt_of_not_mem hal, stampAt_of_mem hbl]
      exact ⟨fun h => by omega, fun h => absurd (h hbl).1 hal⟩
  · by_cases hal : a ∈ l
    · rw [stampAt_of_mem hal, stampAt_of_not_mem hbl]
      exact ⟨fun _ h => absurd h hbl, fun _ => by omega⟩
    · rw [stampAt_of_not_mem hal, stampAt_of_not_mem hbl]
      exact ⟨fun _ h => absurd h hbl, fun _ => hlt⟩

/-- In a list without repetitions, what stands behind has the greater index. -/
theorem idxOf_lt_of_split {pre post : List K} (hnodup : (pre ++ b :: post).Nodup) (ha : a ∈ post) :
    (pre ++ b :: post).idxOf b < (pre ++ b :: post).idxOf a := by
  obtain ⟨-, hpost, hdisj⟩ := List.nodup_append.1 hnodup
  have hbpre : b ∉ pre := fun h => hdisj b h b List.mem_cons_self rfl
  have hapre : a ∉ pre := fun h => hdisj a h a (List.mem_cons_of_mem _ ha) rfl
  have hne : b ≠ a := fun h => (List.nodup_cons.1 hpost).1 (h ▸ ha)
  rw [List.idxOf_append_of_notMem hbpre, List.idxOf_append_of_notMem hapre, List.idxOf_cons_self,
    List.idxOf_cons_ne _ hne]
  omega

end Stamps
end Xsched
