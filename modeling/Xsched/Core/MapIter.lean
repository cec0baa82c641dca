import Mathlib.Data.List.Nodup
import Std.Data.ExtTreeMap

/-!
# Iterators over an ordered map

A `for` loop over an ordered map that erases entries on its way is right only
if it moves its iterator on before the entry is gone. Here an iterator is the
key that it is at, and following or erasing it is an error where the map has no
such key: an erased iterator cannot be used. `walk` is the loop, with a turn
that skips the entry, erases it or leaves the loop; `scan` goes over a list of
keys instead.

**Results.** A walk that begins at an entry of the map, or at the end, never
uses an erased iterator, ends after as many turns as there are keys from there
on, and does what a scan over these keys does (`walk_eq`).
-/
namespace Xsched
namespace MapIter

open Std

variable {α β ρ : Type} {cmp : α → α → Ordering}

/-- `none` is `end()`. -/
abbrev Iter (α : Type) := Option α

/-- What the body of the loop does with the entry. -/
inductive Turn (ρ : Type) where
  | skip
  | erase
  | stop (r : ρ)

section
variable [TransCmp cmp]

/-- `begin()`. -/
def first (m : ExtTreeMap α β cmp) : Iter α := m.keys.head?

/-- The entry after a key. -/
def after (m : ExtTreeMap α β cmp) (k : α) : Iter α := m.keys.find? fun x => cmp k x = .lt

/-- `find(k)`. -/
def find (m : ExtTreeMap α β cmp) (k : α) : Iter α := if k ∈ m then some k else none

/-- `++it`. -/
def next (m : ExtTreeMap α β cmp) (it : Iter α) : Option (Iter α) :=
  it.bind fun k => if k ∈ m then some (after m k) else none

/-- `erase(it)`. -/
def eraseAt (m : ExtTreeMap α β cmp) (it : Iter α) : Option (ExtTreeMap α β cmp) :=
  it.bind fun k => if k ∈ m then some (m.erase k) else none

/-- `for (; it != end();)`, where an entry is erased by `erase(it++)`. `none`:
an iterator is used that is not one of the map, or the fuel does not last. -/
def walk (turn : α → β → Turn ρ) : Nat → ExtTreeMap α β cmp → Iter α →
    Option (Option ρ × ExtTreeMap α β cmp)
  | _, m, none => some (none, m)
  | 0, _, some _ => none
  | fuel + 1, m, some k =>
    (m[k]?).bind fun v =>
      match turn k v with
      | .stop r => some (some r, m)
      | .skip => (next m (some k)).bind (walk turn fuel m)
      | .erase =>
        (next m (some k)).bind fun it => (eraseAt m (some k)).bind fun m => walk turn fuel m it

/-- The turns over a list of keys. -/
def scan (turn : α → β → Turn ρ) : List α → ExtTreeMap α β cmp → Option ρ × ExtTreeMap α β cmp
  | [], m => (none, m)
  | k :: ks, m =>
    match (m[k]?).map (turn k) with
    | some (.stop r) => (some r, m)
    | some .erase => scan turn ks (m.erase k)
    | some .skip | none => scan turn ks m

end

section
variable [TransCmp cmp] {m : ExtTreeMap α β cmp} {turn : α → β → Turn ρ}

/-- The keys before and after one of them. -/
theorem keys_order {pre ks : List α} {k : α} (hkeys : m.keys = pre ++ k :: ks) :
    (∀ x ∈ pre, cmp x k = .lt ∧ cmp k x = .gt) ∧ ∀ x ∈ ks, cmp k x = .lt ∧ cmp x k = .gt := by
  have hord := m.ordered_keys
  rw [hkeys, List.pairwise_append, List.pairwise_cons] at hord
  obtain ⟨-, ⟨hks, -⟩, hpre⟩ := hord
  refine ⟨fun x hx => ⟨hpre x hx k (.head _), ?_⟩, fun x hx => ⟨hks x hx, ?_⟩⟩
  · exact OrientedCmp.gt_of_lt (hpre x hx k (.head _))
  · exact OrientedCmp.gt_of_lt (hks x hx)

/-- A filter that tells the keys on one side of `k` from the others. -/
theorem filter_keys {pre ks : List α} {k : α} {p : α → Bool} (hkeys : m.keys = pre ++ k :: ks)
    {pre' ks' : List α} (hk : p k = false) (hpre : pre.filter p = pre') (hks : ks.filter p = ks') :
    m.keys.filter p = pre' ++ ks' := by
  rw [hkeys, List.filter_append, List.filter_cons_of_neg (by simp [hk]), hpre, hks]

theorem scan_append (ks ls : List α) (m : ExtTreeMap α β cmp) : scan turn (ks ++ ls) m =
    match scan turn ks m with
    | (some r, m) => (some r, m)
    | (none, m) => scan turn ls m := by
  induction ks generalizing m with
  | nil => rfl
  | cons k ks ih =>
    simp only [List.cons_append, scan]
    cases (m[k]?).map (turn k) with
    | none => exact ih m
    | some t =>
      cases t with
      | skip => exact ih m
      | erase => exact ih (m.erase k)
      | stop r => rfl

theorem scan_congr {turn' : α → β → Turn ρ} {ks : List α}
    (h : ∀ k ∈ ks, ∀ v, turn k v = turn' k v) (m : ExtTreeMap α β cmp) :
    scan turn ks m = scan turn' ks m := by
  induction ks generalizing m with
  | nil => rfl
  | cons k ks ih =>
    have hrest := fun m => ih (fun k' hk' => h k' (.tail _ hk')) m
    simp only [scan, hrest]
    cases m[k]? with
    | none => rfl
    | some v => rw [Option.map_some, Option.map_some, h k (.head _) v]

variable [LawfulEqCmp cmp]

theorem keys_erase {pre ks : List α} {k : α} (hkeys : m.keys = pre ++ k :: ks) :
    (m.erase k).keys = pre ++ ks := by
  obtain ⟨hpre, hks⟩ := keys_order hkeys
  have hfilter : m.erase k = m.filter fun x _ => cmp k x != .eq := by
    refine ExtTreeMap.ext_getElem? fun x => ?_
    rw [ExtTreeMap.getElem?_erase, ExtTreeMap.getElem?_filter']
    cases m[x]? <;> by_cases hx : cmp k x = .eq <;> simp [hx, Option.filter]
  rw [hfilter, ExtTreeMap.keys_filter_key]
  refine filter_keys hkeys (by simp [ReflCmp.compare_self]) (List.filter_eq_self.2 ?_)
    (List.filter_eq_self.2 ?_)
  · intro x hx
    simp [(hpre x hx).2]
  · intro x hx
    simp [(hks x hx).1]

theorem after_eq {pre ks : List α} {k : α} (hkeys : m.keys = pre ++ k :: ks) :
    after m k = ks.head? := by
  obtain ⟨hpre, hks⟩ := keys_order hkeys
  have hnone : pre.find? (fun x => cmp k x = .lt) = none := by
    refine List.find?_eq_none.2 fun x hx => ?_
    simp [(hpre x hx).2]
  rw [after, hkeys, List.find?_append, hnone, Option.none_or,
    List.find?_cons_of_neg (by simp [ReflCmp.compare_self])]
  cases ks with
  | nil => rfl
  | cons x ks =>
    rw [List.find?_cons_of_pos (by simpa using (hks x (.head _)).1)]
    rfl

/-- A walk from an entry on is a scan over the keys that are left. -/
theorem walk_eq (pre : List α) {ks : List α} (hkeys : m.keys = pre ++ ks) {fuel : Nat}
    (hfuel : ks.length ≤ fuel) : walk turn fuel m ks.head? = some (scan turn ks m) := by
  induction ks generalizing m pre fuel with
  | nil => cases fuel <;> rfl
  | cons k ks ih =>
    cases fuel with
    | zero => cases hfuel
    | succ fuel =>
      have hfuel : ks.length ≤ fuel := by simpa using hfuel
      have hmem : k ∈ m := ExtTreeMap.mem_keys.1 (by rw [hkeys]; simp)
      obtain ⟨v, hv⟩ := Option.isSome_iff_exists.1 (ExtTreeMap.mem_iff_isSome_getElem?.1 hmem)
      have hnext : next m (some k) = some ks.head? := by
        simp only [next, Option.bind_some, if_pos hmem, after_eq hkeys]
      simp only [List.head?_cons, walk, scan, hv, Option.bind_some, Option.map_some]
      cases turn k v with
      | stop r => rfl
      | skip =>
        simp only [hnext, Option.bind_some]
        exact ih (pre ++ [k]) (by rw [hkeys]; simp) hfuel
      | erase =>
        simp only [hnext, eraseAt, Option.bind_some, if_pos hmem]
        exact ih pre (keys_erase hkeys) hfuel

theorem walk_first : walk turn m.size m (first m) = some (scan turn m.keys m) :=
  walk_eq [] rfl (Nat.le_of_eq ExtTreeMap.length_keys)

/-- Where the keys stand, before and after one of them. -/
theorem keys_split {k : α} (hk : k ∈ m) : ∃ pre ks, m.keys = pre ++ k :: ks ∧
    m.keys.filter (cmp · k = .lt) = pre ∧ m.keys.filter (cmp k · = .lt) = ks := by
  obtain ⟨pre, ks, hkeys⟩ := List.append_of_mem (ExtTreeMap.mem_keys.2 hk)
  obtain ⟨hpre, hks⟩ := keys_order hkeys
  refine ⟨pre, ks, hkeys, ?_, ?_⟩
  · rw [filter_keys hkeys (by simp [ReflCmp.compare_self]) (List.filter_eq_self.2 ?_)
      (List.filter_eq_nil_iff.2 ?_), List.append_nil]
    · intro x hx
      simp [(hpre x hx).1]
    · intro x hx
      simp [(hks x hx).2]
  · rw [filter_keys hkeys (by simp [ReflCmp.compare_self]) (List.filter_eq_nil_iff.2 ?_)
      (List.filter_eq_self.2 ?_), List.nil_append]
    · intro x hx
      simp [(hpre x hx).2]
    · intro x hx
      simp [(hks x hx).1]

/-- `it = find(k); ++it`, and the loop from there. -/
theorem walk_after {k : α} (hk : k ∈ m) :
    (next m (find m k)).bind (walk turn m.size m) =
      some (scan turn (m.keys.filter (cmp k · = .lt)) m) := by
  obtain ⟨pre, ks, hkeys, -, hks⟩ := keys_split hk
  have hlen : ks.length ≤ m.size := by
    rw [← ExtTreeMap.length_keys, hkeys]
    simp only [List.length_append, List.length_cons]
    omega
  rw [find, if_pos hk, next, Option.bind_some, if_pos hk, Option.bind_some, after_eq hkeys,
    walk_eq (pre ++ [k]) (by rw [hkeys]; simp) hlen, hks]

/-- A loop that erases what does not pass a test, over some of the keys. -/
theorem scan_erase (p : α → Bool) (ks : List α) (m : ExtTreeMap α β cmp) :
    (scan (ρ := ρ) (fun k _ => if p k then .skip else .erase) ks m).1 = none ∧
      ∀ x, (x ∈ ks → p x = false →
          (scan (ρ := ρ) (fun k _ => if p k then .skip else .erase) ks m).2[x]? = none) ∧
        ((x ∈ ks → p x = true) →
          (scan (ρ := ρ) (fun k _ => if p k then .skip else .erase) ks m).2[x]? = m[x]?) := by
  induction ks generalizing m with
  | nil => exact ⟨rfl, fun x => ⟨nofun, fun _ => rfl⟩⟩
  | cons k ks ih =>
    -- The loop goes on with a map that is `m` but for `k`, where that does not pass.
    obtain ⟨m', hscan, hk, hrest⟩ : ∃ m' : ExtTreeMap α β cmp,
        scan (ρ := ρ) (fun k _ => if p k then .skip else .erase) (k :: ks) m =
          scan (ρ := ρ) (fun k _ => if p k then .skip else .erase) ks m' ∧
        (p k = false → m'[k]? = none) ∧ ∀ x, (p k = true ∨ x ≠ k) → m'[x]? = m[x]? := by
      by_cases hp : p k = true
      · refine ⟨m, ?_, fun hf => absurd hp (by simp [hf]), fun x _ => rfl⟩
        cases hv : m[k]? <;> simp [scan, hv, hp]
      · cases hv : m[k]? with
        | none =>
          exact ⟨m, by simp [scan, hv], fun _ => hv, fun x _ => rfl⟩
        | some v =>
          refine ⟨m.erase k, by simp [scan, hv, hp], fun _ => by simp, fun x hx => ?_⟩
          have hne : ¬ cmp k x = .eq := by
            intro he
            rcases hx with h | h
            · exact hp h
            · exact h (LawfulEqCmp.eq_of_compare he).symm
          rw [ExtTreeMap.getElem?_erase, if_neg hne]
    rw [hscan]
    obtain ⟨hnone, hks⟩ := ih m'
    refine ⟨hnone, fun x => ⟨fun hx hp => ?_, fun hx => ?_⟩⟩
    · by_cases hxs : x ∈ ks
      · exact (hks x).1 hxs hp
      · have hxk : x = k := by
          rcases List.mem_cons.1 hx with h | h
          · exact h
          · exact absurd h hxs
        subst hxk
        rw [(hks x).2 fun h => absurd h hxs]
        exact hk hp
    · rw [(hks x).2 fun h => hx (.tail _ h)]
      refine hrest x ?_
      by_cases hxk : x = k
      · subst hxk
        exact Or.inl (hx (.head _))
      · exact Or.inr hxk

/-- Over all the keys it is a filter. -/
theorem scan_filter (p : α → Bool) (m : ExtTreeMap α β cmp) :
    scan (ρ := ρ) (fun k _ => if p k then .skip else .erase) m.keys m =
      (none, m.filter fun k _ => p k) := by
  obtain ⟨hnone, hkeys⟩ := scan_erase (ρ := ρ) p m.keys m
  refine Prod.ext hnone (ExtTreeMap.ext_getElem? fun x => ?_)
  dsimp only
  rw [ExtTreeMap.getElem?_filter']
  by_cases hp : p x = true
  · rw [(hkeys x).2 fun _ => hp]
    cases m[x]? <;> simp [Option.filter, hp]
  · have hp : p x = false := by simpa using hp
    by_cases hx : x ∈ m.keys
    · rw [(hkeys x).1 hx hp]
      cases m[x]? <;> simp [Option.filter, hp]
    · rw [(hkeys x).2 fun h => absurd h hx]
      have hnot : m[x]? = none := by
        rw [ExtTreeMap.mem_keys, ExtTreeMap.mem_iff_isSome_getElem?] at hx
        simpa using hx
      rw [hnot]
      rfl

end

end MapIter
end Xsched
