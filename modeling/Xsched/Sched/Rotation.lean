import Xsched.Core.MapIter
import Xsched.Sched.Rounds
import Xsched.Sched.TimePolicies

/-!
# A round of the utilization partition

`UtilizationPartitionPolicy::Sched` goes over `utils_` with iterators, erases
entries on the way and asserts twice that the current XQueue has one.
`schedIter` is that code with its iterators; it does what `sched` does
(`schedIter_eq`), so that neither uses an iterator that is gone and both fail
on the same assertion. Nor does that fail: an XQueue is made the current one
only with an entry in `utils_`, and it loses the entry only where it is no
longer the current one (`Current`).

**Results.** `outcome`: which of five ways a round goes. `never_aborts`: no
round of any run fails, and one that leaves the current XQueue for another goes
to the first ready key after it, in cyclic order.
-/
namespace Xsched.Sched
namespace UtilizationPartitionPolicy

open MapIter

/-! ## With iterators -/

/-- mirrors sched/src/policy/up.cpp:9-16 -/
def keep (status : Status) (h : XQueueHandle) (_ : Utilization) : Turn Unit :=
  if h ∈ status.xqueueStatus then .skip else .erase

/-- mirrors sched/src/policy/up.cpp:53-65 -/
def look (status : Status) (h : XQueueHandle) (util : Utilization) :
    Turn (Option (XQueueHandle × Utilization)) :=
  match status.xqueueStatus.lookup h with
  | none => .erase
  | some q => if !q.ready then .skip else .stop (some (h, util))

/-- mirrors sched/src/policy/up.cpp:69-83 -/
def lookUntil (status : Status) (curRunning h : XQueueHandle) (util : Utilization) :
    Turn (Option (XQueueHandle × Utilization)) :=
  if h = curRunning then .stop none else look status h util

/-- `none`: the assertion fails or a bad iterator is used.
mirrors sched/src/policy/up.cpp:46-87 -/
def rotateIter (clock : Clock) (status : Status) (s : State) (xqueues : List XQueueStatus) :
    Option (List Callback × State) :=
  (next s.utils (find s.utils s.curRunning)).bind fun bit =>
  (walk (look status) s.utils.size s.utils bit).bind fun (found, utils) =>
  match found.join with
  | some (h, util) => some (switchTo clock { s with utils } h util xqueues)
  | none =>
    (walk (lookUntil status s.curRunning) utils.size utils (first utils)).map fun (found, utils) =>
    match found.join with
    | some (h, util) => switchTo clock { s with utils } h util xqueues
    | none => ([], { s with utils, curRunning := 0 })

/-- mirrors sched/src/policy/up.cpp:24-88 -/
def partitionIter (clock : Clock) (status : Status) (s : State) (xqueues : List XQueueStatus) :
    Option (List Callback × State) :=
  if s.utils.isEmpty then some ([], s)
  else if s.curRunning = 0 then some (switchToAny clock s xqueues)
  else
    match status.xqueueStatus.lookup s.curRunning with
    | none =>
      (eraseAt s.utils (find s.utils s.curRunning)).map fun utils =>
        switchToAny clock { s with utils } xqueues
    | some q =>
      if clock.now < s.curEnd ∧ q.ready then some ([], s) else rotateIter clock status s xqueues

/-- mirrors sched/src/policy/up.cpp:6-88 -/
def schedIter (clock : Clock) (status : Status) (s : State) (xqueues : List XQueueStatus) :
    Option (List Callback × State) :=
  (walk (keep status) s.utils.size s.utils (first s.utils)).bind fun (_, utils) =>
  let curRunning :=
    if s.curRunning ≠ 0 ∧ s.curRunning ∉ status.xqueueStatus then 0 else s.curRunning
  partitionIter clock status { s with utils, curRunning } xqueues

/-! ## The loops over the keys -/

/-- `h` has been found, by a loop over keys that are in the map. -/
def found (r : Option XQueueHandle × Utils) :
    Option (Option (XQueueHandle × Utilization)) × Utils :=
  (r.1.map fun h => some (h, r.2[h]?.getD 0), r.2)

section
variable {clock : Clock} {status : Status} {s : State} {xqueues : List XQueueStatus}
  {utils : Utils} {hs : List XQueueHandle}

theorem scan_look (hnd : hs.Nodup) (hmem : ∀ h ∈ hs, h ∈ utils) :
    scan (look status) hs utils = found (firstReady status utils hs) := by
  induction hs generalizing utils with
  | nil => rfl
  | cons h hs ih =>
    obtain ⟨hout, hnd⟩ := List.nodup_cons.1 hnd
    obtain ⟨util, hutil⟩ := Option.isSome_iff_exists.1
      (Std.ExtTreeMap.mem_iff_isSome_getElem?.1 (hmem h (.head _)))
    have herase : ∀ k ∈ hs, k ∈ utils.erase h := by
      intro k hk
      have hne : h ≠ k := by rintro rfl; exact hout hk
      simp [hne, hmem k (.tail _ hk)]
    have hrest : ∀ k ∈ hs, k ∈ utils := fun k hk => hmem k (.tail _ hk)
    simp only [scan, hutil, Option.map_some, look, firstReady]
    cases hq : status.xqueueStatus.lookup h with
    | none => exact ih hnd herase
    | some q =>
      by_cases hready : q.ready = true
      · simp [hready, found, hutil]
      · simpa [hready] using ih hnd hrest

/-- A key that the loop does not meet stays. -/
theorem mem_firstReady (status : Status) (utils : Utils) {h : XQueueHandle} (hh : h ∉ hs) :
    h ∈ (firstReady status utils hs).2 ↔ h ∈ utils := by
  induction hs generalizing utils with
  | nil => rfl
  | cons k hs ih =>
    rw [List.mem_cons, not_or] at hh
    unfold firstReady
    cases status.xqueueStatus.lookup k with
    | none =>
      rw [ih _ hh.2, Std.ExtTreeMap.mem_erase]
      simp [Ne.symm hh.1]
    | some q =>
      dsimp only
      split
      · rfl
      · exact ih _ hh.2

theorem keys_after (utils : Utils) (c : XQueueHandle) :
    utils.keys.filter (compare c · = .lt) = utils.keys.filter (c < ·) := by
  simp only [Nat.compare_eq_lt]

theorem keys_before (utils : Utils) (c : XQueueHandle) :
    utils.keys.filter (compare · c = .lt) = utils.keys.filter (· < c) := by
  simp only [Nat.compare_eq_lt]

/-- The second loop meets the keys before the current one. -/
theorem scan_lookUntil (status : Status) (s : State) (hcur : s.curRunning ∈ utils) :
    (scan (lookUntil status s.curRunning) utils.keys utils).1.join =
        ((found (firstReady status utils (utils.keys.filter (· < s.curRunning)))).1).join ∧
      (scan (lookUntil status s.curRunning) utils.keys utils).2 =
        (firstReady status utils (utils.keys.filter (· < s.curRunning))).2 := by
  obtain ⟨pre, ks, hkeys, hpre, -⟩ := keys_split hcur
  rw [keys_before] at hpre
  have hnd := utils.nodup_keys
  rw [hkeys, List.nodup_append] at hnd
  have hout : s.curRunning ∉ pre := fun hm => hnd.2.2 _ hm _ (.head _) rfl
  have hsame : scan (lookUntil status s.curRunning) pre utils =
      found (firstReady status utils pre) := by
    rw [← scan_look hnd.1 fun h hh => Std.ExtTreeMap.mem_keys.1 (by rw [hkeys]; simp [hh])]
    refine scan_congr (fun k hk v => ?_) utils
    have hne : k ≠ s.curRunning := by rintro rfl; exact hout hk
    simp [lookUntil, hne]
  rw [hkeys, scan_append, hsame, ← hkeys, hpre]
  have hstay := (mem_firstReady status utils hout).2 hcur
  cases hf : firstReady status utils pre with
  | mk next utils' =>
    rw [hf] at hstay
    obtain ⟨util, hutil⟩ := Option.isSome_iff_exists.1
      (Std.ExtTreeMap.mem_iff_isSome_getElem?.1 hstay)
    cases next with
    | some h => exact ⟨rfl, rfl⟩
    | none =>
      simp only at hutil
      simp [found, scan, hutil, lookUntil]

theorem rotateIter_eq (hcur : s.curRunning ∈ s.utils) :
    rotateIter clock status s xqueues = some (rotate clock status s xqueues) := by
  have hnd : (s.utils.keys.filter (s.curRunning < ·)).Nodup := s.utils.nodup_keys.filter _
  have hmem : ∀ h ∈ s.utils.keys.filter (s.curRunning < ·), h ∈ s.utils :=
    fun h hh => Std.ExtTreeMap.mem_keys.1 (List.mem_of_mem_filter hh)
  have hout : s.curRunning ∉ s.utils.keys.filter (s.curRunning < ·) := by simp
  unfold rotateIter rotate
  rw [← Option.bind_assoc, walk_after hcur, keys_after, scan_look hnd hmem, Option.bind_some]
  have hstay := (mem_firstReady status s.utils hout).2 hcur
  cases hf : firstReady status s.utils (s.utils.keys.filter (s.curRunning < ·)) with
  | mk next utils =>
    rw [hf] at hstay
    cases next with
    | some h => rfl
    | none =>
      obtain ⟨hfound, hutils⟩ := scan_lookUntil status s hstay
      simp only [found, Option.map_none, Option.join_none, walk_first, Option.map_some, hfound,
        hutils]
      cases firstReady status utils (utils.keys.filter (· < s.curRunning)) with
      | mk next utils =>
        cases next with
        | none => rfl
        | some h => rfl

/-- No iterator is used that is gone, and the assertions are those of `sched`. -/
theorem schedIter_eq (clock : Clock) (status : Status) (s : State) (xqueues : List XQueueStatus) :
    schedIter clock status s xqueues = sched clock status s xqueues := by
  have hpurge : scan (keep status) s.utils.keys s.utils =
      (none, s.utils.filter fun h _ => h ∈ status.xqueueStatus) := by
    have hkeep : keep status = fun h _ =>
        if decide (h ∈ status.xqueueStatus) = true then .skip else .erase := by
      funext h util
      simp only [keep, decide_eq_true_eq]
    rw [hkeep]
    exact scan_filter (fun h => decide (h ∈ status.xqueueStatus)) s.utils
  unfold schedIter
  rw [walk_first, hpurge, Option.bind_some]
  change partitionIter clock status (purge status s) xqueues = _
  unfold sched partitionIter
  dsimp only
  generalize purge status s = p
  by_cases hcur : p.curRunning ∈ p.utils
  · cases status.xqueueStatus.lookup p.curRunning <;>
      simp only [find, hcur, if_true, not_true, if_false, eraseAt, Option.bind_some,
        Option.map_some, rotateIter_eq hcur]
  · cases status.xqueueStatus.lookup p.curRunning <;>
      simp only [find, hcur, if_false, not_false_eq_true, if_true, eraseAt, Option.bind_none,
        Option.map_none, rotateIter, next]

end

/-! ## The ways of a round -/

/-- The XQueue is in the status, and ready. -/
def Ready (status : Status) (h : XQueueHandle) : Prop :=
  ∃ q, status.xqueueStatus.lookup h = some q ∧ q.ready = true

def isReady (status : Status) (h : XQueueHandle) : Bool :=
  (status.xqueueStatus.lookup h).any (·.ready)

/-- `k` comes strictly between `c` and `h`, going up from `c` and on from 0. -/
def Between (c k h : Nat) : Prop := c < k ∧ k < h ∨ h ≤ c ∧ (c < k ∨ k < h)

theorem not_between_up {c k h : Nat} (hlt : c < h) (hle : c < k → h ≤ k) : ¬ Between c k h := by
  unfold Between; omega

theorem not_between_down {c k h : Nat} (hlt : h < c) (hck : ¬ c < k) (hle : k < c → h ≤ k) :
    ¬ Between c k h := by
  unfold Between; omega

/-- `h` is the first ready key after `c`, in cyclic order. -/
structure NextReady (status : Status) (utils : Utils) (c h : XQueueHandle) : Prop where
  key : h ∈ utils
  ready : Ready status h
  other : h ≠ c
  first : ∀ k ∈ utils, Ready status k → ¬ Between c k h

/-- The current XQueue has a utilization. -/
def Current (s : State) : Prop := s.curRunning ≠ 0 → s.curRunning ∈ s.utils

/-- What a round does with the state `s` after `purge`. -/
inductive Outcome (clock : Clock) (status : Status) (s : State) (xqueues : List XQueueStatus) :
    List Callback → State → Prop
  | unhinted (hutils : s.utils.isEmpty = true) : Outcome clock status s xqueues [] s
  | any (hutils : ¬ s.utils.isEmpty = true) (hcur : s.curRunning = 0) :
    Outcome clock status s xqueues (switchToAny clock s xqueues).1 (switchToAny clock s xqueues).2
  | lasts (hutils : ¬ s.utils.isEmpty = true) (hcur : s.curRunning ≠ 0)
      (hready : Ready status s.curRunning) (hlasts : clock.now < s.curEnd) :
    Outcome clock status s xqueues [] s
  | switch {h : XQueueHandle} {util : Utilization} (hcur : s.curRunning ≠ 0)
      (hover : ¬ (clock.now < s.curEnd ∧ Ready status s.curRunning))
      (hnext : NextReady status s.utils s.curRunning h) (hutil : s.utils[h]? = some util) :
    Outcome clock status s xqueues (switchTo clock s h util xqueues).1
      (switchTo clock s h util xqueues).2
  | rest (hcur : s.curRunning ≠ 0) (hover : ¬ (clock.now < s.curEnd ∧ Ready status s.curRunning))
      (hnone : ∀ k ∈ s.utils, Ready status k → k = s.curRunning) :
    Outcome clock status s xqueues [] { s with curRunning := 0 }

section
variable {clock : Clock} {status : Status} {s : State} {xqueues : List XQueueStatus}

theorem mem_purge (status : Status) (s : State) {h : XQueueHandle} :
    h ∈ (purge status s).utils ↔ h ∈ s.utils ∧ h ∈ status.xqueueStatus := by
  simp only [purge, Std.ExtTreeMap.mem_filter, Std.ExtTreeMap.getKey_eq, decide_eq_true_eq,
    exists_prop]

theorem curRunning_purge (status : Status) (s : State) (hcur : (purge status s).curRunning ≠ 0) :
    (purge status s).curRunning = s.curRunning ∧ s.curRunning ∈ status.xqueueStatus := by
  simp only [purge, ne_eq] at hcur ⊢
  split at hcur
  · exact absurd rfl hcur
  · rename_i hnot
    rw [if_neg hnot]
    exact ⟨rfl, by_contra fun hout => hnot ⟨hcur, hout⟩⟩

/-- At the point where it is used, the current XQueue is in both maps. -/
theorem current_purge (status : Status) (hc : Current s) (hcur : (purge status s).curRunning ≠ 0) :
    (purge status s).curRunning ∈ (purge status s).utils ∧
      (purge status s).curRunning ∈ status.xqueueStatus := by
  obtain ⟨hsame, hin⟩ := curRunning_purge status s hcur
  rw [mem_purge, hsame]
  exact ⟨⟨hc (hsame ▸ hcur), hin⟩, hin⟩

/-- A loop over keys in the status finds the first ready one and erases nothing. -/
theorem firstReady_live {utils : Utils} {hs : List XQueueHandle}
    (hlive : ∀ h ∈ hs, h ∈ status.xqueueStatus) : firstReady status utils hs =
      (hs.find? (isReady status), utils) := by
  induction hs with
  | nil => rfl
  | cons h hs ih =>
    obtain ⟨q, hq⟩ := Option.isSome_iff_exists.1 (AList.lookup_isSome.2 (hlive h (.head _)))
    have hrest := ih fun k hk => hlive k (.tail _ hk)
    by_cases hready : q.ready = true
    · simp [firstReady, isReady, hq, hready]
    · simp [firstReady, isReady, hq, hready, hrest]

theorem isReady_iff {h : XQueueHandle} : isReady status h = true ↔ Ready status h :=
  Option.any_eq_true _ _

/-- The first that passes, of keys in ascending order. -/
theorem find_least {hs : List XQueueHandle} {p : XQueueHandle → Bool} {h : XQueueHandle}
    (hord : hs.Pairwise (· < ·)) (hf : hs.find? p = some h) : ∀ k ∈ hs, p k = true → h ≤ k := by
  obtain ⟨-, pre, post, rfl, hpre⟩ := List.find?_eq_some_iff_append.1 hf
  intro k hk hp
  rw [List.pairwise_append, List.pairwise_cons] at hord
  rcases List.mem_append.1 hk with hk | hk
  · have hnot := hpre k hk
    simp [hp] at hnot
  · rcases List.mem_cons.1 hk with rfl | hk
    · exact le_refl k
    · exact le_of_lt (hord.2.1.1 k hk)

theorem keys_ascend (utils : Utils) : utils.keys.Pairwise (· < ·) :=
  utils.ordered_keys.imp fun h => Nat.compare_eq_lt.1 h

/-- What a loop over some of the keys finds is ready and has a utilization. -/
theorem find_key {utils : Utils} {p : XQueueHandle → Bool} {h : XQueueHandle}
    (hf : (utils.keys.filter p).find? (isReady status) = some h) :
    p h = true ∧ h ∈ utils ∧ Ready status h ∧ ∃ util, utils[h]? = some util := by
  obtain ⟨hkey, hp⟩ := List.mem_filter.1 (List.mem_of_find?_eq_some hf)
  have hin : h ∈ utils := Std.ExtTreeMap.mem_keys.1 hkey
  exact ⟨hp, hin, isReady_iff.1 (List.find?_some hf),
    Option.isSome_iff_exists.1 (Std.ExtTreeMap.mem_iff_isSome_getElem?.1 hin)⟩

theorem rotate_outcome (xqueues : List XQueueStatus) (hlive : ∀ h ∈ s.utils, h ∈ status.xqueueStatus)
    (hcur : s.curRunning ≠ 0) (hover : ¬ (clock.now < s.curEnd ∧ Ready status s.curRunning)) :
    Outcome clock status s xqueues (rotate clock status s xqueues).1
      (rotate clock status s xqueues).2 := by
  have hkeys : ∀ p : XQueueHandle → Bool, ∀ h ∈ s.utils.keys.filter p, h ∈ s.utils :=
    fun p h hh => Std.ExtTreeMap.mem_keys.1 (List.mem_of_mem_filter hh)
  have hafter : ∀ k ∈ s.utils, s.curRunning < k → k ∈ s.utils.keys.filter (s.curRunning < ·) :=
    fun k hk hlt => List.mem_filter.2 ⟨Std.ExtTreeMap.mem_keys.2 hk, by simpa using hlt⟩
  have hbefore : ∀ k ∈ s.utils, k < s.curRunning → k ∈ s.utils.keys.filter (· < s.curRunning) :=
    fun k hk hlt => List.mem_filter.2 ⟨Std.ExtTreeMap.mem_keys.2 hk, by simpa using hlt⟩
  unfold rotate
  rw [firstReady_live fun h hh => hlive h (hkeys _ h hh)]
  cases hf : (s.utils.keys.filter (s.curRunning < ·)).find? (isReady status) with
  | some h =>
    obtain ⟨hp, hkey, hready, util, hutil⟩ := find_key hf
    have hlt : s.curRunning < h := of_decide_eq_true hp
    have hnext : NextReady status s.utils s.curRunning h := by
      refine ⟨hkey, hready, Nat.ne_of_gt hlt, ?_⟩
      intro k hk hready
      refine not_between_up hlt fun hck => ?_
      exact find_least ((keys_ascend s.utils).filter _) hf k (hafter k hk hck)
        (isReady_iff.2 hready)
    simp only [hutil, Option.getD_some]
    exact .switch hcur hover hnext hutil
  | none =>
    have hnone : ∀ k ∈ s.utils, Ready status k → ¬ s.curRunning < k := fun k hk hready hck =>
      List.find?_eq_none.1 hf k (hafter k hk hck) (isReady_iff.2 hready)
    dsimp only
    rw [firstReady_live fun h hh => hlive h (hkeys _ h hh)]
    cases hf' : (s.utils.keys.filter (· < s.curRunning)).find? (isReady status) with
    | some h =>
      obtain ⟨hp, hkey, hready, util, hutil⟩ := find_key hf'
      have hlt : h < s.curRunning := of_decide_eq_true hp
      have hnext : NextReady status s.utils s.curRunning h := by
        refine ⟨hkey, hready, Nat.ne_of_lt hlt, ?_⟩
        intro k hk hready
        refine not_between_down hlt (hnone k hk hready) fun hkc => ?_
        exact find_least ((keys_ascend s.utils).filter _) hf' k (hbefore k hk hkc)
          (isReady_iff.2 hready)
      simp only [hutil, Option.getD_some]
      exact .switch hcur hover hnext hutil
    | none =>
      refine .rest hcur hover fun k hk hready => ?_
      have hck := hnone k hk hready
      have hkc : ¬ k < s.curRunning := fun hlt =>
        List.find?_eq_none.1 hf' k (hbefore k hk hlt) (isReady_iff.2 hready)
      exact Nat.le_antisymm (Nat.not_lt.1 hck) (Nat.not_lt.1 hkc)

theorem outcome {calls : List Callback} {s' : State}
    (h : sched clock status s xqueues = some (calls, s')) :
    Outcome clock status (purge status s) xqueues calls s' := by
  have hlive : ∀ h ∈ (purge status s).utils, h ∈ status.xqueueStatus :=
    fun h hh => ((mem_purge status s).1 hh).2
  have hin : (purge status s).curRunning ≠ 0 →
      (purge status s).curRunning ∈ status.xqueueStatus := by
    intro hcur
    obtain ⟨hsame, hin⟩ := curRunning_purge status s hcur
    rwa [hsame]
  unfold sched at h
  dsimp only at h
  generalize purge status s = p at *
  split at h
  · rename_i hutils; cases h; exact .unhinted hutils
  · rename_i hutils
    split at h
    · rename_i hcur; cases h; exact .any hutils hcur
    · rename_i hcur
      obtain ⟨q, hq⟩ := Option.isSome_iff_exists.1 (AList.lookup_isSome.2 (hin hcur))
      have hready : Ready status p.curRunning ↔ q.ready = true := by
        simp [Ready, hq]
      rw [hq] at h
      dsimp only at h
      split at h
      · rename_i hlasts
        cases h
        exact .lasts hutils hcur (hready.2 hlasts.2) hlasts.1
      · rename_i hover
        split at h
        · cases h
        · have he := Option.some.inj h
          rw [← hready] at hover
          have hrotate := rotate_outcome xqueues hlive hcur hover
          rwa [he] at hrotate

/-- No assertion fails where the current XQueue has a utilization. -/
theorem sched_some (clock : Clock) (status : Status) (xqueues : List XQueueStatus)
    (hc : Current s) : ∃ calls s', sched clock status s xqueues = some (calls, s') := by
  have hcurrent := current_purge status hc
  unfold sched
  dsimp only
  generalize purge status s = p at *
  by_cases hutils : p.utils.isEmpty = true
  · exact ⟨_, _, if_pos hutils⟩
  · rw [if_neg hutils]
    by_cases hcur : p.curRunning = 0
    · exact ⟨_, _, if_pos hcur⟩
    · obtain ⟨hkey, hin⟩ := hcurrent hcur
      obtain ⟨q, hq⟩ := Option.isSome_iff_exists.1 (AList.lookup_isSome.2 hin)
      rw [if_neg hcur, hq]
      by_cases hlasts : clock.now < p.curEnd ∧ q.ready = true
      · exact ⟨_, _, if_pos hlasts⟩
      · exact ⟨_, _, by dsimp only; rw [if_neg hlasts, if_neg (not_not.2 hkey)]⟩

/-- What the loop of `SwitchToAny` does: the first ready XQueue with a
utilization runs. -/
inductive AnyCases (clock : Clock) (s : State) (xqueues : List XQueueStatus) :
    List Callback → State → Prop
  | idle (hnone : ∀ q ∈ xqueues, q.ready = true → q.handle ∉ s.utils) :
    AnyCases clock s xqueues (xqueues.map fun q => .suspend q.handle) s
  | picked {pre post : List XQueueStatus} {q : XQueueStatus} {util : Utilization}
      (hxs : xqueues = pre ++ q :: post) (hready : q.ready = true)
      (hutil : s.utils[q.handle]? = some util) :
    AnyCases clock s xqueues
      (pre.map (fun q => .suspend q.handle) ++
        (.resume q.handle :: .addTimer (start clock s q.handle util).curEnd.toNat ::
          post.map fun q => .suspend q.handle))
      (start clock s q.handle util)

theorem forEach_selected (clock : Clock) (s : State) (xs : List XQueueStatus) :
    forEach (offer clock) (true, s) xs = (xs.map fun q => .suspend q.handle, true, s) := by
  induction xs with
  | nil => rfl
  | cons q xs ih => simp [forEach, offer, ih]

theorem offer_pass {q : XQueueStatus} (h : q.ready = true → q.handle ∉ s.utils) :
    offer clock (false, s) q = ([.suspend q.handle], false, s) := by
  unfold offer
  by_cases hready : q.ready = true
  · simp [hready, Std.ExtTreeMap.getElem?_eq_none (h hready)]
  · simp [hready]

theorem offer_pick {q : XQueueStatus} {util : Utilization} (hready : q.ready = true)
    (hutil : s.utils[q.handle]? = some util) : offer clock (false, s) q =
      ([.resume q.handle, .addTimer (start clock s q.handle util).curEnd.toNat], true,
        start clock s q.handle util) := by
  simp [offer, hready, hutil]

theorem forEach_offer (clock : Clock) (s : State) (xs : List XQueueStatus) :
    AnyCases clock s xs (forEach (offer clock) (false, s) xs).1
      (forEach (offer clock) (false, s) xs).2.2 := by
  induction xs with
  | nil => exact .idle nofun
  | cons q xs ih =>
    by_cases hpick : q.ready = true ∧ q.handle ∈ s.utils
    · obtain ⟨util, hutil⟩ := Option.isSome_iff_exists.1
        (Std.ExtTreeMap.mem_iff_isSome_getElem?.1 hpick.2)
      simp only [forEach, offer_pick hpick.1 hutil, forEach_selected]
      exact AnyCases.picked (List.nil_append _).symm hpick.1 hutil
    · have hpass : q.ready = true → q.handle ∉ s.utils := fun hr hm => hpick ⟨hr, hm⟩
      simp only [forEach, offer_pass hpass]
      generalize forEach (offer clock) (false, s) xs = r at ih
      obtain ⟨calls, sel, s'⟩ := r
      simp only at ih ⊢
      cases ih with
      | idle hnone =>
        refine .idle fun r hr hready => ?_
        rcases List.mem_cons.1 hr with rfl | hr
        · exact hpass hready
        · exact hnone r hr hready
      | picked hxs hready hutil =>
        exact AnyCases.picked ((congrArg (q :: ·) hxs).trans (List.cons_append ..).symm) hready hutil

theorem switchToAny_cases (clock : Clock) (s : State) (xs : List XQueueStatus) :
    AnyCases clock { s with curRunning := 0 } xs (switchToAny clock s xs).1
      (switchToAny clock s xs).2 :=
  forEach_offer clock _ xs

end

/-! ## Every round of every run -/

theorem Outcome.current {clock : Clock} {status : Status} {s s' : State}
    {xqueues : List XQueueStatus} {calls : List Callback} (hs : Current s)
    (h : Outcome clock status s xqueues calls s') : Current s' := by
  cases h with
  | unhinted => exact hs
  | any hutils hcur =>
    have hany := switchToAny_cases clock s xqueues
    generalize (switchToAny clock s xqueues).1 = calls at hany
    generalize (switchToAny clock s xqueues).2 = s' at hany
    cases hany with
    | idle hnone => exact fun h => absurd rfl h
    | picked hxs hready hutil =>
      intro _
      exact Std.ExtTreeMap.mem_iff_isSome_getElem?.2 (by simp [start, hutil])
  | lasts => exact hs
  | switch hcur hover hnext hutil =>
    intro _
    exact hnext.key
  | rest => exact fun h => absurd rfl h

theorem current_recvHint {s : State} (hs : Current s) (hint : Hint) : Current (recvHint s hint) := by
  intro hcur
  cases hint with
  | utilization pid handle util =>
    simp only [recvHint] at hcur ⊢
    split
    · rename_i hbad
      rw [if_pos hbad] at hcur
      exact hs hcur
    · rename_i hgood
      rw [if_neg hgood] at hcur
      exact Std.ExtTreeMap.mem_insert.2 (Or.inr (hs hcur))
  | timeslice ts => exact hs hcur
  | _ => exact hs hcur

theorem current_run {s : PolicyRun policy} (hr : (PolicyRun.life policy).Reachable s) :
    Current s.policy := by
  refine PolicyRun.policy_life (fun h => absurd rfl h) (fun clock hint σ hσ => ?_) ?_ hr
  · exact current_recvHint hσ hint
  · intro clock order s calls s' R hs
    have hpurge : Current (purge s.status s.policy) := fun hcur => (current_purge _ hs hcur).1
    exact (outcome R.sched).current hpurge

/-- A round that has a current XQueue makes no call, or those of a switch to
the next ready one. -/
theorem Outcome.next {clock : Clock} {status : Status} {s s' : State}
    {xqueues : List XQueueStatus} {calls : List Callback}
    (h : Outcome clock status s xqueues calls s') (hcur : s.curRunning ≠ 0) :
    calls = [] ∨ NextReady status s.utils s.curRunning s'.curRunning ∧
      ∃ util, s.utils[s'.curRunning]? = some util ∧
        (calls, s') = switchTo clock s s'.curRunning util xqueues := by
  cases h with
  | unhinted | lasts | rest => exact Or.inl rfl
  | any hutils hzero => exact absurd hzero hcur
  | @switch h util _ hover hnext hutil => exact Or.inr ⟨hnext, util, hutil, rfl⟩

/-- **No round of any run fails**, with the iterators of the source; and where a
round leaves the current XQueue for another, that is the next ready one. -/
theorem never_aborts {s : Hosted policy} (hr : (Hosted.life policy).Reachable s) :
    Current s.policy ∧
    ((purge s.scheduler.status s.policy).curRunning = 0 ∨
      (purge s.scheduler.status s.policy).curRunning ∈
        (purge s.scheduler.status s.policy).utils ∧
      (purge s.scheduler.status s.policy).curRunning ∈ s.scheduler.status.xqueueStatus) ∧
    ∀ clock order, ∃ calls s',
      schedIter clock s.scheduler.status s.policy (s.scheduler.status.inOrder order) =
        some (calls, s') ∧
      policy.sched clock s.scheduler.status order s.policy = some (calls, s') ∧
      ((purge s.scheduler.status s.policy).curRunning ≠ 0 → calls = [] ∨
        NextReady s.scheduler.status (purge s.scheduler.status s.policy).utils
          (purge s.scheduler.status s.policy).curRunning s'.curRunning ∧
        ∃ util, (purge s.scheduler.status s.policy).utils[s'.curRunning]? = some util ∧
          (calls, s') = switchTo clock (purge s.scheduler.status s.policy) s'.curRunning util
            (s.scheduler.status.inOrder order)) := by
  have hc : Current s.policy := current_run (Hosted.life_run hr)
  refine ⟨hc, ?_, fun clock order => ?_⟩
  · by_cases hcur : (purge s.scheduler.status s.policy).curRunning = 0
    · exact Or.inl hcur
    · exact Or.inr (current_purge _ hc hcur)
  · obtain ⟨calls, s', hs⟩ := sched_some clock s.scheduler.status
      (s.scheduler.status.inOrder order) hc
    exact ⟨calls, s', by rw [schedIter_eq, hs], hs, (outcome hs).next⟩

/-- Two XQueues with the same utilization. The first one gets half of the time slice. -/
def rotatingActs : List HostedAct :=
  [.own .run, .own (.recvEvent (.xQueueCreate 1 7 1 2 0 0)),
    .own (.recvEvent (.xQueueCreate 1 8 1 2 0 0)), .own (.recvEvent (.hint 1)),
    .own (.recvEvent (.hint 2)), .own (.recvEvent (.xQueueReady 1 7 0)),
    .own (.recvEvent (.xQueueReady 1 8 0)), .own (.wake 0), .own (.update 0), .own (.update 0),
    .recvHint 0 ⟨0, fun _ => 0⟩ (.utilization 1 7 50),
    .recvHint 0 ⟨0, fun _ => 0⟩ (.utilization 1 8 50), .own (.update 0),
    .reschedule ⟨0, fun _ => 0⟩ [7, 8], .own (.update 0)]

/-- At its end. -/
def rotatingClock : Clock := ⟨2500000, fun _ => 2500000⟩

theorem never_aborts_rotating : ∃ (s : Hosted policy) (calls : List Callback) (s' : State),
    s.policy.curRunning = 7 ∧
    policy.sched rotatingClock s.scheduler.status [7, 8] s.policy = some (calls, s') ∧
    s'.curRunning = 8 ∧
    NextReady s.scheduler.status (purge s.scheduler.status s.policy).utils 7 8 := by
  have htrace : (LTS.exec Hosted.step
      (⟨.init .kPolicyUtilizationPartition, policy.init⟩ : Hosted policy) rotatingActs).bind
      (fun s => (policy.sched rotatingClock s.scheduler.status [7, 8] s.policy).map fun r =>
        (s.policy.curRunning, (purge s.scheduler.status s.policy).curRunning, r.1.isEmpty,
          r.2.curRunning)) = some (7, 7, false, 8) := by
    decide +kernel
  obtain ⟨s, hs, htrace⟩ := Option.bind_eq_some_iff.1 htrace
  obtain ⟨⟨calls, s'⟩, hcalls, he⟩ := Option.map_eq_some_iff.1 htrace
  simp only [Prod.mk.injEq] at he
  obtain ⟨hcur, hpurged, hempty, hcur'⟩ := he
  obtain ⟨-, -, hrounds⟩ := never_aborts (LTS.reachable_of_exec (.construct _) hs)
  obtain ⟨calls₁, s₁, -, hcalls₁, hnext⟩ := hrounds rotatingClock [7, 8]
  rw [hcalls] at hcalls₁
  cases hcalls₁
  rw [hpurged] at hnext
  rcases hnext (by decide) with hnil | ⟨hnext, -⟩
  · rw [hnil] at hempty
    cases hempty
  · rw [hcur'] at hnext
    exact ⟨s, calls, s', hcur, hcalls, hcur', hnext⟩

end UtilizationPartitionPolicy
end Xsched.Sched
