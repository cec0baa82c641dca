import Mathlib.Data.List.MinMax
import Mathlib.Data.List.Nodup
import Mathlib.Logic.Function.Basic
import Xsched.Core.Unwinding

/-!
# Loops over the entries of a map

A program goes over the entries of a map and changes another map on the way.
Two shapes of such a loop come back.

In the first, each turn reads and writes the value of its own key only
(`OwnKey`). What the loop leaves at a key is then what the turns of that key
leave (`foldl_key`), and where no two entries share a key, one turn does
(`foldl_own`). The same holds of a loop that makes calls, `forEach`: an entry
gets the calls of its own turn, from the value before the loop
(`forEach_calls`).

In the second, a running best is kept: a candidate replaces it if it is
strictly better, so of equal ones the first stays. Such a loop starts from
nothing or from a sentinel that every candidate beats, and it computes the
`List.argmin` of the candidates (`foldl_argmin`). Where it keeps a best one for
every key, it computes the `argmin` of the candidates of each (`foldl_keepBest`).
-/
namespace Xsched

/-! ## Turns with a key of their own -/

theorem forEach_state {S α C : Type} (turn : S → α → List C × S) (s : S) (xs : List α) :
    (forEach turn s xs).2 = xs.foldl (fun s a => (turn s a).2) s := by
  induction xs generalizing s with
  | nil => rfl
  | cons a xs ih =>
    simp only [forEach, List.foldl_cons]
    exact ih _

section Keyed
variable {α κ V C : Type} [DecidableEq κ] {k : α → κ} {f : V → α → V}

/-- The entry of a key in a list without repeated keys. -/
theorem filter_key {xs : List α} (hnd : (xs.map k).Nodup) {a : α} (ha : a ∈ xs) :
    xs.filter (k · = k a) = [a] := by
  induction xs with
  | nil => cases ha
  | cons b xs ih =>
    rw [List.map_cons, List.nodup_cons] at hnd
    by_cases hb : k b = k a
    · have hnone : ∀ c ∈ xs, ¬ k c = k a := by
        intro c hc he
        exact hnd.1 (hb ▸ he ▸ List.mem_map_of_mem hc)
      have hab : a = b := by
        rcases List.mem_cons.1 ha with h | h
        · exact h
        · exact absurd rfl (hnone a h)
      subst hab
      rw [List.filter_cons_of_pos (by simp), List.filter_eq_nil_iff.2 (by simpa using hnone)]
    · have hmem : a ∈ xs := by
        rcases List.mem_cons.1 ha with h | h
        · exact absurd (by rw [h]) hb
        · exact h
      rw [List.filter_cons_of_neg (by simpa using hb), ih hnd.2 hmem]

/-- A turn changes the value of its own key, to `f` of what it was. -/
def OwnKey (k : α → κ) (f : V → α → V) (turn : (κ → V) → α → κ → V) : Prop :=
  ∀ m a h, turn m a h = if h = k a then f (m h) a else m h

variable {turn : (κ → V) → α → κ → V}

/-- The turns of a key decide what the loop leaves there. -/
theorem foldl_key (ht : OwnKey k f turn) (m : κ → V) (xs : List α) (h : κ) :
    xs.foldl turn m h = (xs.filter (k · = h)).foldl f (m h) := by
  induction xs generalizing m with
  | nil => rfl
  | cons a xs ih =>
    rw [List.foldl_cons, ih, ht m a h]
    by_cases ha : k a = h
    · rw [List.filter_cons_of_pos (by simpa using ha), if_pos ha.symm, List.foldl_cons]
    · rw [List.filter_cons_of_neg (by simpa using ha), if_neg (Ne.symm ha)]

theorem foldl_other (ht : OwnKey k f turn) (m : κ → V) {xs : List α} {h : κ}
    (hh : h ∉ xs.map k) : xs.foldl turn m h = m h := by
  have hnil : xs.filter (k · = h) = [] := by
    rw [List.filter_eq_nil_iff]
    intro a ha he
    exact hh (List.mem_map.2 ⟨a, ha, by simpa using he⟩)
  rw [foldl_key ht, hnil, List.foldl_nil]

theorem foldl_own (ht : OwnKey k f turn) (m : κ → V) {xs : List α} (hnd : (xs.map k).Nodup)
    {a : α} (ha : a ∈ xs) : xs.foldl turn m (k a) = f (m (k a)) a := by
  rw [foldl_key ht, filter_key hnd ha]
  rfl

/-- The calls of a loop are those that each turn would make first. -/
theorem forEach_calls {turn : (κ → V) → α → List C × (κ → V)} {c : V → α → List C}
    (ht : OwnKey k f fun m a => (turn m a).2) (hc : ∀ m a, (turn m a).1 = c (m (k a)) a)
    (m : κ → V) {xs : List α} (hnd : (xs.map k).Nodup) :
    (forEach turn m xs).1 = xs.flatMap fun a => c (m (k a)) a := by
  induction xs generalizing m with
  | nil => rfl
  | cons a xs ih =>
    rw [List.map_cons, List.nodup_cons] at hnd
    simp only [forEach, List.flatMap_cons, hc]
    rw [ih _ hnd.2]
    congr 1
    refine List.flatMap_congr fun b hb => ?_
    have hne : k b ≠ k a := fun he => hnd.1 (he ▸ List.mem_map_of_mem hb)
    have hb' := ht m a (k b)
    rw [if_neg hne] at hb'
    simp only [hb']

end Keyed

/-! ## The running best -/

section Best
variable {α β σ : Type} [LinearOrder β] {key : α → β} {put : α → σ} {ok : α → Bool}

/-- A loop that keeps the first of the best candidates finds it. -/
theorem foldl_argmin {step : σ → α → σ} {s₀ : σ}
    (h₀ : ∀ a, step s₀ a = if ok a then put a else s₀)
    (h₁ : ∀ a b, ok b → step (put b) a = if ok a ∧ key a < key b then put a else put b)
    (xs : List α) :
    xs.foldl step s₀ = ((xs.filter ok).argmin key).elim s₀ put := by
  induction xs using List.reverseRecOn with
  | nil => rfl
  | append_singleton xs a ih =>
    rw [List.foldl_append, ih, List.filter_append]
    cases hok : ok a with
    | false =>
      cases hb : (xs.filter ok).argmin key with
      | none => simp [hb, h₀, hok]
      | some b =>
        have hokb : ok b = true := (List.mem_filter.1 (List.argmin_mem hb)).2
        simp [hb, h₁ a b hokb, hok]
    | true =>
      rw [List.filter_cons_of_pos hok, List.filter_nil, List.argmin_concat]
      cases hb : (xs.filter ok).argmin key with
      | none => simp [h₀, hok]
      | some b =>
        have hokb : ok b = true := (List.mem_filter.1 (List.argmin_mem hb)).2
        simp only [Option.elim_some, List.foldl_cons, List.foldl_nil, h₁ a b hokb, hok, true_and]
        split <;> rfl

/-- A turn of a loop that keeps the best candidate of every key. -/
def keepBest {κ V : Type} [DecidableEq κ] (ok : α → Bool) (k : α → κ) (put : α → V)
    (lt : V → V → Prop) [DecidableRel lt] (m : κ → Option V) (a : α) : κ → Option V :=
  if !ok a then m
  else
    match m (k a) with
    | none => Function.update m (k a) (some (put a))
    | some v => if lt (put a) v then Function.update m (k a) (some (put a)) else m

theorem foldl_keepBest {κ V : Type} [DecidableEq κ] (key : α → β) {k : α → κ} {put : α → V}
    {lt : V → V → Prop} [DecidableRel lt] (hlt : ∀ a b, lt (put a) (put b) ↔ key a < key b)
    (xs : List α) (d : κ) :
    xs.foldl (keepBest ok k put lt) (fun _ => none) d =
      ((xs.filter fun a => k a = d ∧ ok a).argmin key).map put := by
  have hown : OwnKey k
      (fun v a =>
        if !ok a then v
        else
          match v with
          | none => some (put a)
          | some v => if lt (put a) v then some (put a) else some v)
      (keepBest ok k put lt) := by
    intro m a h
    dsimp only [keepBest]
    cases hok : ok a with
    | false => simp
    | true =>
      by_cases hh : h = k a
      · subst hh
        cases hm : m (k a) with
        | none => simp
        | some v => by_cases hv : lt (put a) v <;> simp [hv, hm]
      · cases hm : m (k a) with
        | none => simp [hh]
        | some v => by_cases hv : lt (put a) v <;> simp [hv, hh]
  have hfilter : xs.filter (fun a => k a = d ∧ ok a) = (xs.filter (k · = d)).filter ok := by
    rw [List.filter_filter]
    congr 1
    funext a
    simp [Bool.and_comm]
  have hsearch : ∀ ys : List α, ys.foldl (fun v a =>
      if !ok a then v
      else
        match v with
        | none => some (put a)
        | some v => if lt (put a) v then some (put a) else some v) none =
      ((ys.filter ok).argmin key).elim none fun a => some (put a) := by
    intro ys
    refine foldl_argmin (fun a => ?_) (fun a b _ => ?_) ys
    · cases ok a <;> simp
    · cases ok a <;> simp [hlt]
  rw [foldl_key hown, hfilter, hsearch]
  cases ((xs.filter (k · = d)).filter ok).argmin key <;> rfl

/-- Where there is a candidate there is a best one. -/
theorem exists_argmin (key : α → β) {xs : List α} {a : α} (ha : a ∈ xs) :
    ∃ b, xs.argmin key = some b := by
  cases hb : xs.argmin key with
  | none => rw [List.argmin_eq_none.1 hb] at ha; cases ha
  | some b => exact ⟨b, rfl⟩

theorem argmin_congr {f g : α → β} {xs : List α} (h : ∀ a ∈ xs, f a = g a) :
    xs.argmin f = xs.argmin g := by
  induction xs using List.reverseRecOn with
  | nil => rfl
  | append_singleton xs a ih =>
    rw [List.argmin_concat, List.argmin_concat, ih fun b hb => h b (List.mem_append_left _ hb)]
    cases hb : xs.argmin g with
    | none => rfl
    | some b =>
      dsimp only
      rw [h a (by simp), h b (List.mem_append_left _ (List.argmin_mem hb))]

/-- The best candidate is one, and no worse than any other. -/
theorem argmin_filter_some {xs : List α} {b : α} (hb : (xs.filter ok).argmin key = some b) :
    b ∈ xs ∧ ok b = true ∧ ∀ a ∈ xs, ok a = true → key b ≤ key a := by
  obtain ⟨hmem, hok⟩ := List.mem_filter.1 (List.argmin_mem hb)
  refine ⟨hmem, hok, fun a ha hoka => ?_⟩
  exact List.le_of_mem_argmin (List.mem_filter.2 ⟨ha, hoka⟩) hb

theorem argmin_filter_none {xs : List α} (hb : (xs.filter ok).argmin key = none) :
    ∀ a ∈ xs, ok a = false := by
  intro a ha
  have hnil := List.filter_eq_nil_iff.1 (List.argmin_eq_none.1 hb) a ha
  simpa using hnil

end Best
end Xsched
