import Mathlib
import Xsched.Core.MapLoop
import Xsched.Sched.PrioritySafety

/-!
# What the interference-aware policy protects

`InterferenceAwareHeterogeneousPolicy::Sched` lets one XQueue per device run,
the first with the highest priority of the device (`best`). If a device has no
XQueue of the highest priority of all, its best one runs only if the device
does not interfere with the device of the XQueue with the highest priority. Of
several such XQueues the loop remembers the device of the first one
(`leader`), and the map that it goes over is a hash map: the status does not
say which one is first, so every result here is about all orders.

With the highest priority on one device, or on several that interfere in the
same way with the others, the order does not matter and every XQueue of the
highest priority is protected (`protects_iff`). Otherwise one of them is, and
a device runs that disturbs another.

On one device the policy is to do what HPF does, and where all devices
interfere what HHPF does. These two run every XQueue of the highest priority
and this one a single XQueue for each device (`interpolates_iff`).
-/
namespace Xsched.Sched

/-! ## Priorities and calls -/

/-- The priorities that the hints leave. -/
def remembered (hints : List Hint) : Priorities := hints.foldl recvPriority fun _ => none

theorem remembered_min (hints : List Hint) (h : XQueueHandle) :
    PRIORITY_MIN ≤ getPriority (remembered hints) h := by
  have hmin : ∀ (ps : Priorities), (∀ h, PRIORITY_MIN ≤ getPriority ps h) →
      ∀ h, PRIORITY_MIN ≤ getPriority (hints.foldl recvPriority ps) h := by
    induction hints with
    | nil => exact fun ps hps => hps
    | cons hint hints ih =>
      intro ps hps
      refine ih _ fun h => ?_
      cases hint with
      | priority handle prio =>
        simp only [getPriority, recvPriority, Function.update_apply]
        split
        · rw [clampPriority_eq]
          exact le_max_left _ _
        · exact hps h
      | _ => exact hps h
  exact hmin _ (fun h => by simp [getPriority, PRIORITY_MIN, PRIORITY_DEFAULT]) h

namespace Status
variable {st : Status} {order : List XQueueHandle} {d : XDevice} {h : XQueueHandle}

/-- After a loop that suspends or resumes every ready XQueue those run that it
resumed. -/
theorem runs_calls {ys : List XQueueStatus} {run : XQueueStatus → Bool} (hk : st.Keyed)
    (hys : ∀ q, q.ready = true → (q ∈ ys ↔ st.xqueueStatus.lookup q.handle = some q))
    (hnd : (ys.map (·.handle)).Nodup) :
    ((ys.map fun q => if run q then Callback.resume q.handle else .suspend q.handle).foldl
      callback st).Runs d h ↔
        ∃ q ∈ ys, q.ready = true ∧ q.device = d ∧ q.handle = h ∧ run q = true := by
  have hverdict : ∀ q ∈ ys, verdict q.handle (ys.map fun q =>
      if run q then Callback.resume q.handle else .suspend q.handle) = some (!run q) := by
    intro q hq
    rw [List.map_eq_flatMap, verdict_flatMap hnd ?_ hq]
    · cases run q <;> simp
    · intro r _ h hh
      cases run r <;> simp [Ne.symm hh]
  unfold Runs
  rw [lookup_callbacks]
  constructor
  · rintro ⟨q', hq', hready, hd, hs⟩
    obtain ⟨q, hq, rfl⟩ := Option.map_eq_some_iff.1 hq'
    have hh := hk h q hq
    subst hh
    have hmem := (hys q hready).2 hq
    refine ⟨q, hmem, hready, hd, rfl, ?_⟩
    simpa [hverdict q hmem] using hs
  · rintro ⟨q, hq, hready, hd, rfl, hrun⟩
    refine ⟨{ q with suspended := false }, ?_, hready, hd, rfl⟩
    rw [(hys q hready).1 hq, hverdict q hq, hrun]
    rfl

end Status

/-! ## The best XQueues -/

section
variable (prio : XQueueHandle → Priority)

/-- Highest priority first. -/
def prioKey (q : XQueueStatus) : ℤ := -prio q.handle

/-- The first ready XQueue of the device with the highest priority there. -/
noncomputable def best (xs : List XQueueStatus) (d : XDevice) : Option XQueueStatus :=
  (xs.filter fun q => q.device = d ∧ q.ready).argmin (prioKey prio)

/-- The first ready XQueue with the highest priority, unless that is the lowest there is. -/
noncomputable def leader (xs : List XQueueStatus) : Option XQueueStatus :=
  (xs.filter fun q => q.ready ∧ PRIORITY_MIN < prio q.handle).argmin (prioKey prio)

/-- A ready XQueue of the device, with the highest priority of all. -/
def Top (st : Status) (d : XDevice) (h : XQueueHandle) : Prop :=
  st.ReadyOn d h ∧ ∀ d' h', st.ReadyOn d' h' → prio h' ≤ prio h

variable {prio} {st : Status} {order : List XQueueHandle} {d : XDevice} {h : XQueueHandle}

theorem mem_readyOn (hk : st.Keyed) (hperm : order.Perm st.xqueueStatus.keys) :
    st.ReadyOn d h ↔ ∃ q ∈ st.inOrder order, q.ready = true ∧ q.device = d ∧ q.handle = h := by
  constructor
  · rintro ⟨q, hq, hready, hd⟩
    have hh := hk h q hq
    subst hh
    exact ⟨q, (hk.mem_inOrder_iff hperm).2 hq, hready, hd, rfl⟩
  · rintro ⟨q, hq, hready, hd, rfl⟩
    exact ⟨q, (hk.mem_inOrder_iff hperm).1 hq, hready, hd⟩

/-- The best XQueue of a device is ready, and no other of the device is above it. -/
theorem best_some (hk : st.Keyed) (hperm : order.Perm st.xqueueStatus.keys) {q : XQueueStatus}
    (hb : best prio (st.inOrder order) d = some q) :
    q ∈ st.inOrder order ∧ q.ready = true ∧ q.device = d ∧ st.ReadyOn d q.handle ∧
      ∀ h', st.ReadyOn d h' → prio h' ≤ prio q.handle := by
  obtain ⟨hmem, hok, hle⟩ := argmin_filter_some hb
  simp only [decide_eq_true_eq] at hok
  refine ⟨hmem, hok.2, hok.1, (mem_readyOn hk hperm).2 ⟨q, hmem, hok.2, hok.1, rfl⟩, ?_⟩
  intro h' hh'
  obtain ⟨r, hr, hready, hd, rfl⟩ := (mem_readyOn hk hperm).1 hh'
  exact neg_le_neg_iff.1 (hle r hr (by simp [hready, hd]))

theorem exists_best (prio : XQueueHandle → Priority) (hk : st.Keyed)
    (hperm : order.Perm st.xqueueStatus.keys)
    (hd : st.ReadyOn d h) : ∃ q, best prio (st.inOrder order) d = some q := by
  obtain ⟨q, hq, hready, hdev, -⟩ := (mem_readyOn hk hperm).1 hd
  exact exists_argmin (prioKey prio) (a := q) (List.mem_filter.2 ⟨hq, by simp [hready, hdev]⟩)

/-- On a device of an XQueue with the highest priority the best one has it. -/
theorem best_top (hk : st.Keyed) (hperm : order.Perm st.xqueueStatus.keys) {q : XQueueStatus}
    (hb : best prio (st.inOrder order) d = some q) (ht : Top prio st d h) :
    Top prio st d q.handle := by
  obtain ⟨-, -, -, hready, hle⟩ := best_some hk hperm hb
  exact ⟨hready, fun d' h' hh' => (ht.2 d' h' hh').trans (hle h ht.1)⟩

/-- The leader has the highest priority. -/
theorem leader_top (hk : st.Keyed) (hperm : order.Perm st.xqueueStatus.keys) {q : XQueueStatus}
    (hl : leader prio (st.inOrder order) = some q) : Top prio st q.device q.handle := by
  obtain ⟨hmem, hok, hle⟩ := argmin_filter_some hl
  simp only [decide_eq_true_eq] at hok
  refine ⟨(mem_readyOn hk hperm).2 ⟨q, hmem, hok.1, rfl, rfl⟩, fun d' h' hh' => ?_⟩
  obtain ⟨r, hr, hready, -, rfl⟩ := (mem_readyOn hk hperm).1 hh'
  by_cases hmin : PRIORITY_MIN < prio r.handle
  · exact neg_le_neg_iff.1 (hle r hr (by simp [hready, hmin]))
  · exact (not_lt.1 hmin).trans hok.2.le

/-- With the start values of the loops: `h` has the highest priority exactly if
it is not below that of the leader. -/
theorem top_iff_leader (hk : st.Keyed) (hperm : order.Perm st.xqueueStatus.keys)
    (hmin : ∀ h, PRIORITY_MIN ≤ prio h) (hready : st.ReadyOn d h) :
    Top prio st d h ↔
      (leader prio (st.inOrder order)).elim PRIORITY_MIN (fun q => prio q.handle) ≤ prio h := by
  cases hl : leader prio (st.inOrder order) with
  | none =>
    refine ⟨fun _ => hmin h, fun _ => ⟨hready, fun d' h' hh' => ?_⟩⟩
    obtain ⟨r, hr, hr', -, rfl⟩ := (mem_readyOn hk hperm).1 hh'
    have hnone := argmin_filter_none hl r hr
    simp only [hr', true_and, decide_eq_false_iff_not, not_lt] at hnone
    exact hnone.trans (hmin h)
  | some q =>
    have htop := leader_top hk hperm hl
    constructor
    · intro ht; exact ht.2 _ _ htop.1
    · intro hle; exact ⟨hready, fun d' h' hh' => (htop.2 d' h' hh').trans hle⟩

/-- Any XQueue of the highest priority is the leader in some order. -/
theorem exists_leader (hk : st.Keyed) (ht : Top prio st d h) (hlow : PRIORITY_MIN < prio h) :
    ∃ order : List XQueueHandle, order.Perm st.xqueueStatus.keys ∧
      ∃ q, leader prio (st.inOrder order) = some q ∧ q.device = d := by
  obtain ⟨q, hq, hready, hd⟩ := ht.1
  have hh := hk h q hq
  subst hh
  have hkey : q.handle ∈ st.xqueueStatus.keys :=
    AList.lookup_isSome.1 (Option.isSome_iff_exists.2 ⟨q, hq⟩)
  have hperm : (q.handle :: st.xqueueStatus.keys.erase q.handle).Perm st.xqueueStatus.keys :=
    (List.perm_cons_erase hkey).symm
  refine ⟨_, hperm, q, ?_, hd⟩
  have hcons : st.inOrder (q.handle :: st.xqueueStatus.keys.erase q.handle) =
      q :: st.inOrder (st.xqueueStatus.keys.erase q.handle) := by
    simp [Status.inOrder, hq]
  unfold leader
  rw [hcons, List.filter_cons_of_pos (by simp [hready, hlow]), List.argmin_cons]
  cases hrest : List.argmin (prioKey prio) ((st.inOrder (st.xqueueStatus.keys.erase q.handle)).filter
      fun q => q.ready ∧ PRIORITY_MIN < prio q.handle) with
  | none => rfl
  | some r =>
    obtain ⟨hmem, hok, -⟩ := argmin_filter_some hrest
    simp only [decide_eq_true_eq] at hok
    have hr : st.ReadyOn r.device r.handle := (mem_readyOn hk hperm).2
      ⟨r, by rw [hcons]; exact List.mem_cons_of_mem _ hmem, hok.1, rfl, rfl⟩
    have hle : ¬ prioKey prio r < prioKey prio q :=
      not_lt.2 (neg_le_neg_iff.2 (ht.2 _ _ hr))
    simp [hle]

end

/-! ## Who runs -/

namespace InterferenceAwareHeterogeneousPolicy

/-- The status after a round. -/
def outcome (prio : XQueueHandle → Priority) (intensities : XDevice → Option ℚ) (st : Status)
    (order : List XQueueHandle) : Status :=
  (sched prio intensities (st.inOrder order)).foldl Status.callback st

variable {prio : XQueueHandle → Priority} {intensities : XDevice → Option ℚ} {st : Status}
  {order : List XQueueHandle} {d : XDevice} {h : XQueueHandle}

theorem deviceBest_eq (xs : List XQueueStatus) (d : XDevice) :
    deviceBest prio xs d = (best prio xs d).map fun q => (prio q.handle, q.handle) := by
  have hloop : deviceBest prio xs = xs.foldl
      (keepBest (·.ready) (·.device) (fun q => (prio q.handle, q.handle))
        fun (v w : Priority × XQueueHandle) => v.1 > w.1)
      fun _ => none := by
    unfold deviceBest
    congr 1
    funext m q
    unfold keepBest
    cases m q.device <;> rfl
  rw [hloop]
  refine foldl_keepBest (prioKey prio) (fun q r => ?_) xs d
  simp [prioKey]

/-- The start values stand until an XQueue has more than the lowest priority. -/
theorem globalMax_eq (xs : List XQueueStatus) :
    globalMax prio xs =
      (leader prio xs).elim (PRIORITY_MIN, 0) fun q => (prio q.handle, q.device) := by
  refine foldl_argmin (fun q => ?_) (fun q r hr => ?_) xs
  · cases hready : q.ready <;> simp
  · simp only [decide_eq_true_eq] at hr
    cases hready : q.ready with
    | false => simp
    | true =>
      by_cases hlt : prio r.handle < prio q.handle
      · simp [prioKey, hlt, hr.2.trans hlt]
      · simp [prioKey, hlt]

@[simp] theorem isHighInterference_self (d : XDevice) :
    isHighInterference intensities d d = true := by
  simp [isHighInterference]

/-- The best XQueue of a device runs if it has the highest priority of all, or
the device does not interfere with that of the leader. -/
theorem shouldRun_iff (xs : List XQueueStatus) (q : XQueueStatus) :
    shouldRun prio intensities (globalMax prio xs) (deviceBest prio xs) q = true ↔
      (∃ r, best prio xs q.device = some r ∧ r.handle = q.handle) ∧
        ((leader prio xs).elim PRIORITY_MIN (fun q => prio q.handle) ≤ prio q.handle ∨
          isHighInterference intensities q.device
            ((leader prio xs).elim 0 (·.device)) = false) := by
  have hmax : (globalMax prio xs).1 = (leader prio xs).elim PRIORITY_MIN (fun q => prio q.handle) ∧
      (globalMax prio xs).2 = (leader prio xs).elim 0 (·.device) := by
    rw [globalMax_eq]
    cases leader prio xs <;> simp
  unfold shouldRun
  rw [deviceBest_eq, ← hmax.1, ← hmax.2]
  cases best prio xs q.device with
  | none => simp
  | some r =>
    by_cases hh : r.handle = q.handle
    · by_cases hle : (globalMax prio xs).1 ≤ prio q.handle
      · simp [hh, hle]
      · by_cases hd : (globalMax prio xs).2 = q.device
        · simp [hh, hle, hd]
        · simp [hh, hle, hd]
    · simp [hh]

/-- Who runs after a round. -/
theorem runs_iff (hk : st.Keyed) (hperm : order.Perm st.xqueueStatus.keys)
    (hmin : ∀ h, PRIORITY_MIN ≤ prio h) :
    (outcome prio intensities st order).Runs d h ↔
      (∃ q, best prio (st.inOrder order) d = some q ∧ q.handle = h) ∧
        (Top prio st d h ∨ ∃ r, leader prio (st.inOrder order) = some r ∧
          isHighInterference intensities d r.device = false) := by
  unfold outcome sched
  dsimp only
  rw [Status.runs_calls hk]
  · constructor
    · rintro ⟨q, hq, hready, rfl, rfl, hrun⟩
      obtain ⟨hbest, hrun⟩ := (shouldRun_iff _ q).1 hrun
      obtain ⟨hmem, -⟩ := List.mem_filter.1 hq
      have hon : st.ReadyOn q.device q.handle :=
        (mem_readyOn hk hperm).2 ⟨q, hmem, hready, rfl, rfl⟩
      refine ⟨hbest, ?_⟩
      rcases hrun with hle | hlow
      · exact Or.inl ((top_iff_leader hk hperm hmin hon).2 hle)
      · cases hl : leader prio (st.inOrder order) with
        | none =>
          refine Or.inl ((top_iff_leader hk hperm hmin hon).2 ?_)
          rw [hl]
          exact hmin q.handle
        | some r =>
          rw [hl] at hlow
          exact Or.inr ⟨r, rfl, hlow⟩
    · rintro ⟨⟨q, hb, rfl⟩, hrun⟩
      obtain ⟨hmem, hready, rfl, hon, -⟩ := best_some hk hperm hb
      refine ⟨q, List.mem_filter.2 ⟨hmem, hready⟩, hready, rfl, rfl, ?_⟩
      refine (shouldRun_iff _ q).2 ⟨⟨q, hb, rfl⟩, ?_⟩
      rcases hrun with ht | ⟨r, hl, hlow⟩
      · exact Or.inl ((top_iff_leader hk hperm hmin hon).1 ht)
      · refine Or.inr ?_
        rw [hl]
        exact hlow
  · intro q hready
    rw [List.mem_filter, hk.mem_inOrder_iff hperm]
    simp [hready]
  · exact (hk.nodup_inOrder hperm).sublist (List.Sublist.map _ List.filter_sublist)

end InterferenceAwareHeterogeneousPolicy

namespace HighestPriorityFirstPolicy

/-- The status after a round. -/
def outcome (prio : XQueueHandle → Priority) (st : Status) (order : List XQueueHandle) : Status :=
  (sched prio (st.inOrder order)).foldl Status.callback st

/-- On every device the ready XQueues of its highest priority run. -/
theorem runs_iff {prio : XQueueHandle → Priority} {st : Status} {order : List XQueueHandle}
    {d : XDevice} {h : XQueueHandle} (hk : st.Keyed) (hperm : order.Perm st.xqueueStatus.keys) :
    (outcome prio st order).Runs d h ↔
      st.ReadyOn d h ∧ ∀ h', st.ReadyOn d h' → prio h' ≤ prio h := by
  have hmax := runningPrioMax_isMax prio (st.inOrder order) d
  have hcalls : sched prio (st.inOrder order) = (st.inOrder order).map fun q =>
      if decide ((runningPrioMax prio (st.inOrder order) q.device).getD PRIORITY_MIN ≤
        prio q.handle) then Callback.resume q.handle else .suspend q.handle := by
    unfold sched
    refine List.map_congr_left fun q _ => ?_
    by_cases hlt : prio q.handle <
        (runningPrioMax prio (st.inOrder order) q.device).getD PRIORITY_MIN
    · simp [hlt, not_le.2 hlt]
    · simp [hlt, not_lt.1 hlt]
  unfold outcome
  rw [hcalls, Status.runs_calls hk (fun q _ => hk.mem_inOrder_iff hperm) (hk.nodup_inOrder hperm)]
  constructor
  · rintro ⟨q, hq, hready, rfl, rfl, hrun⟩
    refine ⟨(mem_readyOn hk hperm).2 ⟨q, hq, hready, rfl, rfl⟩, fun h' hh' => ?_⟩
    obtain ⟨r, hr, hready', hd, rfl⟩ := (mem_readyOn hk hperm).1 hh'
    cases hm : runningPrioMax prio (st.inOrder order) q.device with
    | none =>
      rw [hm] at hmax
      exact absurd rfl (hmax q hq hready)
    | some m =>
      rw [hm] at hmax hrun
      exact (hmax.2 r hr hready' hd).trans (of_decide_eq_true hrun)
  · rintro ⟨hon, hle⟩
    obtain ⟨q, hq, hready, rfl, rfl⟩ := (mem_readyOn hk hperm).1 hon
    refine ⟨q, hq, hready, rfl, rfl, decide_eq_true ?_⟩
    cases hm : runningPrioMax prio (st.inOrder order) q.device with
    | none =>
      rw [hm] at hmax
      exact absurd rfl (hmax q hq hready)
    | some m =>
      rw [hm] at hmax
      obtain ⟨⟨r, hr, hready', hd, rfl⟩, -⟩ := hmax
      exact hle r.handle ((mem_readyOn hk hperm).2 ⟨r, hr, hready', hd, rfl⟩)

end HighestPriorityFirstPolicy

namespace HeterogeneousHighestPriorityFirstPolicy

/-- The status after a round. -/
def outcome (prio : XQueueHandle → Priority) (st : Status) (order : List XQueueHandle) : Status :=
  (sched prio (st.inOrder order)).foldl Status.callback st

theorem prioMax_eq (prio : XQueueHandle → Priority) (xs : List XQueueStatus) :
    prioMax prio xs = (leader prio xs).elim PRIORITY_MIN fun q => prio q.handle := by
  have hfst : prioMax prio xs =
      (InterferenceAwareHeterogeneousPolicy.globalMax prio xs).1 := by
    change xs.foldl _ (Prod.fst (PRIORITY_MIN, (0 : XDevice))) = Prod.fst (xs.foldl _ _)
    refine List.foldl_hom Prod.fst fun m q => ?_
    cases q.ready with
    | false => rfl
    | true => by_cases hlt : prio q.handle > m.1 <;> simp [hlt]
  rw [hfst, InterferenceAwareHeterogeneousPolicy.globalMax_eq]
  cases leader prio xs <;> rfl

/-- The ready XQueues of the highest priority of all run. -/
theorem runs_iff {prio : XQueueHandle → Priority} {st : Status} {order : List XQueueHandle}
    {d : XDevice} {h : XQueueHandle} (hk : st.Keyed) (hperm : order.Perm st.xqueueStatus.keys)
    (hmin : ∀ h, PRIORITY_MIN ≤ prio h) :
    (outcome prio st order).Runs d h ↔ Top prio st d h := by
  have hcalls : sched prio (st.inOrder order) = (st.inOrder order).map fun q =>
      if decide (prioMax prio (st.inOrder order) ≤ prio q.handle) then Callback.resume q.handle
      else .suspend q.handle := by
    unfold sched
    refine List.map_congr_left fun q _ => ?_
    by_cases hlt : prio q.handle < prioMax prio (st.inOrder order)
    · simp [hlt, not_le.2 hlt]
    · simp [hlt, not_lt.1 hlt]
  unfold outcome
  rw [hcalls, Status.runs_calls hk (fun q _ => hk.mem_inOrder_iff hperm) (hk.nodup_inOrder hperm)]
  constructor
  · rintro ⟨q, hq, hready, rfl, rfl, hrun⟩
    refine (top_iff_leader hk hperm hmin
      ((mem_readyOn hk hperm).2 ⟨q, hq, hready, rfl, rfl⟩)).2 ?_
    rw [← prioMax_eq]
    exact of_decide_eq_true hrun
  · intro ht
    obtain ⟨q, hq, hready, rfl, rfl⟩ := (mem_readyOn hk hperm).1 ht.1
    refine ⟨q, hq, hready, rfl, rfl, decide_eq_true ?_⟩
    rw [prioMax_eq]
    exact (top_iff_leader hk hperm hmin ht.1).1 ht

end HeterogeneousHighestPriorityFirstPolicy

/-! ## Every XQueue of the highest priority -/

namespace InterferenceAwareHeterogeneousPolicy
variable {prio : XQueueHandle → Priority} {intensities : XDevice → Option ℚ} {st : Status}
  {order : List XQueueHandle} {d : XDevice} {h : XQueueHandle}

/-- No XQueue below the highest priority runs on a device that interferes with
the device of one that has it. -/
def Protects (prio : XQueueHandle → Priority) (intensities : XDevice → Option ℚ)
    (st st' : Status) : Prop :=
  ∀ d h, st'.Runs d h → ∀ d' h', Top prio st d' h' → prio h < prio h' →
    isHighInterference intensities d d' = false

/-- The same XQueues run and the same do not, but for an exchange of XQueues
that are ready, on one device and of one priority. -/
def SameButTies (prio : XQueueHandle → Priority) (st st₁ st₂ : Status) : Prop :=
  ∃ π : Equiv.Perm XQueueHandle,
    (∀ d h, st.ReadyOn d h → st.ReadyOn d (π h) ∧ prio (π h) = prio h) ∧
      ∀ d h, st₁.Runs d h ↔ st₂.Runs d (π h)

/-- A device has an XQueue of the highest priority. -/
def Hosts (prio : XQueueHandle → Priority) (st : Status) (d : XDevice) : Prop :=
  ∃ h, Top prio st d h

/-- To a device with ready XQueues but none of the highest priority, the
devices that have one are alike. -/
def Uniform (prio : XQueueHandle → Priority) (intensities : XDevice → Option ℚ) (st : Status) :
    Prop :=
  ∀ d, (∃ h, st.ReadyOn d h) → ¬ Hosts prio st d → ∀ a b, Hosts prio st a → Hosts prio st b →
    isHighInterference intensities d a = isHighInterference intensities d b

/-- Protection in every order, of every XQueue with the highest priority. -/
theorem uniform_of_protects (hk : st.Keyed) (hmin : ∀ h, PRIORITY_MIN ≤ prio h)
    (hp : ∀ order, order.Perm st.xqueueStatus.keys →
      Protects prio intensities st (outcome prio intensities st order)) :
    Uniform prio intensities st := by
  have hlow : ∀ d, (∃ h, st.ReadyOn d h) → ¬ Hosts prio st d → ∀ a b, Hosts prio st a →
      Hosts prio st b → isHighInterference intensities d a = false →
      isHighInterference intensities d b = false := by
    rintro d ⟨h, hon⟩ hno a b ⟨ha, hta⟩ ⟨hb, htb⟩ hda
    have hbelow : ∀ h', st.ReadyOn d h' → prio h' < prio ha := by
      intro h' hh'
      refine lt_of_le_of_ne (hta.2 d h' hh') fun he => ?_
      refine hno ⟨h', hh', fun d'' h'' hh'' => ?_⟩
      rw [he]
      exact hta.2 d'' h'' hh''
    -- In the order that begins with the XQueue of `a`, the best of `d` runs.
    obtain ⟨order, hperm, r, hl, rfl⟩ :=
      exists_leader hk hta (lt_of_le_of_lt (hmin h) (hbelow h hon))
    obtain ⟨q, hbest⟩ := exists_best prio hk hperm hon
    obtain ⟨-, -, -, honq, -⟩ := best_some hk hperm hbest
    have hruns : (outcome prio intensities st order).Runs d q.handle :=
      (runs_iff hk hperm hmin).2 ⟨⟨q, hbest, rfl⟩, Or.inr ⟨r, hl, hda⟩⟩
    refine hp order hperm d q.handle hruns b hb htb ?_
    exact lt_of_lt_of_le (hbelow q.handle honq) (htb.2 _ _ hta.1)
  intro d hd hno a b ha hb
  cases hda : isHighInterference intensities d a with
  | false => exact (hlow d hd hno a b ha hb hda).symm
  | true =>
    cases hdb : isHighInterference intensities d b with
    | true => rfl
    | false =>
      rw [hlow d hd hno b a hb ha hdb] at hda
      cases hda

/-- What runs below the highest priority runs because of the leader. -/
theorem protects_of_uniform (hk : st.Keyed) (hmin : ∀ h, PRIORITY_MIN ≤ prio h)
    (hu : Uniform prio intensities st) (hperm : order.Perm st.xqueueStatus.keys) :
    Protects prio intensities st (outcome prio intensities st order) := by
  intro d h hruns d' h' ht hlt
  obtain ⟨⟨q, hbest, rfl⟩, hrun⟩ := (runs_iff hk hperm hmin).1 hruns
  obtain ⟨-, -, -, hon, -⟩ := best_some hk hperm hbest
  have hnot : ¬ Top prio st d q.handle := fun htq => not_lt.2 (htq.2 _ _ ht.1) hlt
  rcases hrun with htq | ⟨r, hl, hlow⟩
  · exact absurd htq hnot
  · rw [← hlow]
    refine hu d ⟨_, hon⟩ ?_ d' r.device ⟨h', ht⟩ ⟨_, leader_top hk hperm hl⟩
    rintro ⟨h'', ht''⟩
    exact hnot (best_top hk hperm hbest ht'')

/-- Whether the best XQueue of a device runs is then the same in every order. -/
theorem runs_of_uniform (hk : st.Keyed) (hmin : ∀ h, PRIORITY_MIN ≤ prio h)
    (hu : Uniform prio intensities st) {order₁ order₂ : List XQueueHandle}
    (hperm₁ : order₁.Perm st.xqueueStatus.keys) (hperm₂ : order₂.Perm st.xqueueStatus.keys)
    (hruns : (outcome prio intensities st order₁).Runs d h) {q₂ : XQueueStatus}
    (hb₂ : best prio (st.inOrder order₂) d = some q₂) :
    (outcome prio intensities st order₂).Runs d q₂.handle := by
  refine (runs_iff hk hperm₂ hmin).2 ⟨⟨q₂, hb₂, rfl⟩, ?_⟩
  by_cases hhost : Hosts prio st d
  · obtain ⟨h, ht⟩ := hhost
    exact Or.inl (best_top hk hperm₂ hb₂ ht)
  · obtain ⟨-, -, -, hon, -⟩ := best_some hk hperm₂ hb₂
    rcases ((runs_iff hk hperm₁ hmin).1 hruns).2 with ht | ⟨r, hl, hlow⟩
    · exact absurd ⟨_, ht⟩ hhost
    · have hnot : ¬ Top prio st d q₂.handle := fun ht => hhost ⟨_, ht⟩
      cases hl₂ : leader prio (st.inOrder order₂) with
      | none =>
        rw [top_iff_leader hk hperm₂ hmin hon, hl₂] at hnot
        exact absurd (hmin _) hnot
      | some r₂ =>
        refine Or.inr ⟨r₂, rfl, ?_⟩
        rw [← hlow]
        exact hu d ⟨_, hon⟩ hhost _ _ ⟨_, leader_top hk hperm₂ hl₂⟩ ⟨_, leader_top hk hperm₁ hl⟩

/-- Exchange the XQueue `a d` of each device for `b d`. -/
def exchange (st : Status) (a b : XDevice → XQueueHandle) (h : XQueueHandle) : XQueueHandle :=
  match st.xqueueStatus.lookup h with
  | some q => if q.ready then Equiv.swap (a q.device) (b q.device) h else h
  | none => h

section
variable {a b : XDevice → XQueueHandle}

theorem exchange_ready (hon : st.ReadyOn d h) : exchange st a b h = Equiv.swap (a d) (b d) h := by
  obtain ⟨q, hq, hready, rfl⟩ := hon
  simp [exchange, hq, hready]

theorem exchange_other (hon : ∀ d, ¬ st.ReadyOn d h) : exchange st a b h = h := by
  unfold exchange
  cases hq : st.xqueueStatus.lookup h with
  | none => rfl
  | some q =>
    cases hready : q.ready with
    | false => simp [hready]
    | true => exact absurd ⟨q, hq, hready, rfl⟩ (hon q.device)

theorem exchange_readyOn (ha : ∀ d h, st.ReadyOn d h → st.ReadyOn d (a d))
    (hb : ∀ d h, st.ReadyOn d h → st.ReadyOn d (b d)) (hon : st.ReadyOn d h) :
    st.ReadyOn d (exchange st a b h) := by
  rw [exchange_ready hon, Equiv.swap_apply_def]
  split_ifs
  · exact hb d h hon
  · exact ha d h hon
  · exact hon

theorem exchange_involutive (ha : ∀ d h, st.ReadyOn d h → st.ReadyOn d (a d))
    (hb : ∀ d h, st.ReadyOn d h → st.ReadyOn d (b d)) : Function.Involutive (exchange st a b) := by
  intro h
  by_cases hon : ∃ d, st.ReadyOn d h
  · obtain ⟨d, hon⟩ := hon
    rw [exchange_ready (exchange_readyOn ha hb hon), exchange_ready hon, Equiv.swap_apply_self]
  · have hother : exchange st a b h = h := exchange_other (not_exists.1 hon)
    rw [hother, hother]

end

/-- The handle of the best XQueue of a device. -/
noncomputable def bestHandle (prio : XQueueHandle → Priority) (st : Status) (order : List XQueueHandle)
    (d : XDevice) : XQueueHandle :=
  (best prio (st.inOrder order) d).elim 0 (·.handle)

theorem bestHandle_best (prio : XQueueHandle → Priority) (hk : st.Keyed)
    (hperm : order.Perm st.xqueueStatus.keys)
    (hon : st.ReadyOn d h) : ∃ q, best prio (st.inOrder order) d = some q ∧
      bestHandle prio st order d = q.handle ∧ st.ReadyOn d q.handle ∧
        ∀ h', st.ReadyOn d h' → prio h' ≤ prio q.handle := by
  obtain ⟨q, hbest⟩ := exists_best prio hk hperm hon
  obtain ⟨-, -, -, hready, hle⟩ := best_some hk hperm hbest
  exact ⟨q, hbest, by rw [bestHandle, hbest]; rfl, hready, hle⟩

theorem same_of_uniform (hk : st.Keyed) (hmin : ∀ h, PRIORITY_MIN ≤ prio h)
    (hu : Uniform prio intensities st) {order₁ order₂ : List XQueueHandle}
    (hperm₁ : order₁.Perm st.xqueueStatus.keys) (hperm₂ : order₂.Perm st.xqueueStatus.keys) :
    SameButTies prio st (outcome prio intensities st order₁)
      (outcome prio intensities st order₂) := by
  have hready : ∀ {order : List XQueueHandle}, order.Perm st.xqueueStatus.keys → ∀ d h,
      st.ReadyOn d h → st.ReadyOn d (bestHandle prio st order d) := by
    intro order hperm d h hon
    obtain ⟨q, -, he, hon', -⟩ := bestHandle_best prio hk hperm hon
    rw [he]
    exact hon'
  have hinv := exchange_involutive (hready hperm₁) (hready hperm₂)
  -- Who runs is the best one of its device, before and after the exchange.
  have hbest : ∀ {order : List XQueueHandle}, order.Perm st.xqueueStatus.keys → ∀ d h,
      (outcome prio intensities st order).Runs d h → h = bestHandle prio st order d := by
    intro order hperm d h hruns
    obtain ⟨⟨q, hb, rfl⟩, -⟩ := (runs_iff hk hperm hmin).1 hruns
    rw [bestHandle, hb]
    rfl
  have hon : ∀ {order : List XQueueHandle}, order.Perm st.xqueueStatus.keys → ∀ d h,
      (outcome prio intensities st order).Runs d h → st.ReadyOn d h := by
    intro order _ d h hruns
    exact Status.readyOn_callbacks.1 hruns.readyOn
  refine ⟨hinv.toPerm, fun d h hh => ⟨exchange_readyOn (hready hperm₁) (hready hperm₂) hh, ?_⟩,
    fun d h => ⟨fun hruns => ?_, fun hruns => ?_⟩⟩
  · obtain ⟨q₁, -, he₁, hon₁, hle₁⟩ := bestHandle_best prio hk hperm₁ hh
    obtain ⟨q₂, -, he₂, hon₂, hle₂⟩ := bestHandle_best prio hk hperm₂ hh
    have heq : prio q₁.handle = prio q₂.handle := le_antisymm (hle₂ _ hon₁) (hle₁ _ hon₂)
    change prio (exchange st _ _ h) = prio h
    rw [exchange_ready hh, Equiv.swap_apply_def, he₁, he₂]
    split_ifs with h₁ h₂
    · rw [h₁, heq]
    · rw [h₂, heq]
    · rfl
  · have hh := hon hperm₁ d h hruns
    obtain ⟨q₂, hb₂, he₂, -, -⟩ := bestHandle_best prio hk hperm₂ hh
    have hmap : exchange st (bestHandle prio st order₁) (bestHandle prio st order₂) h = q₂.handle := by
      rw [exchange_ready hh, hbest hperm₁ d h hruns, Equiv.swap_apply_left, he₂]
    change (outcome prio intensities st order₂).Runs d (exchange st _ _ h)
    rw [hmap]
    exact runs_of_uniform hk hmin hu hperm₁ hperm₂ hruns hb₂
  · change (outcome prio intensities st order₂).Runs d (exchange st _ _ h) at hruns
    have hh := exchange_readyOn (hready hperm₁) (hready hperm₂) (hon hperm₂ d _ hruns)
    rw [hinv h] at hh
    obtain ⟨q₁, hb₁, he₁, -, -⟩ := bestHandle_best prio hk hperm₁ hh
    have hmap : h = q₁.handle := by
      rw [← hinv h, exchange_ready (hon hperm₂ d _ hruns), hbest hperm₂ d _ hruns,
        Equiv.swap_apply_right, he₁]
    rw [hmap]
    exact runs_of_uniform hk hmin hu hperm₂ hperm₁ hruns hb₁

/-- **Every XQueue of the highest priority is protected in every order, and the
order decides no more than ties, exactly if** the devices of these XQueues
interfere alike with each of the other devices. -/
theorem protects_iff {st : Status} (hk : st.Keyed) (hints : List Hint)
    (intensities : XDevice → Option ℚ) :
    ((∀ order, order.Perm st.xqueueStatus.keys →
        Protects (getPriority (remembered hints)) intensities st
          (outcome (getPriority (remembered hints)) intensities st order)) ∧
      ∀ order₁ order₂, order₁.Perm st.xqueueStatus.keys → order₂.Perm st.xqueueStatus.keys →
        SameButTies (getPriority (remembered hints)) st
          (outcome (getPriority (remembered hints)) intensities st order₁)
          (outcome (getPriority (remembered hints)) intensities st order₂)) ↔
      Uniform (getPriority (remembered hints)) intensities st := by
  have hmin := remembered_min hints
  constructor
  · rintro ⟨hp, -⟩
    exact uniform_of_protects hk hmin hp
  · intro hu
    refine ⟨fun order hperm => protects_of_uniform hk hmin hu hperm, ?_⟩
    intro order₁ order₂ hperm₁ hperm₂
    exact same_of_uniform hk hmin hu hperm₁ hperm₂

/-- Three devices with one ready XQueue each. -/
def tied : Status where
  xqueueStatus :=
    ((AList.insert 3 ⟨3, 3, 2, 1, 0, 0, true, false, 0⟩ ∅).insert 2
      ⟨2, 2, 2, 1, 0, 0, true, false, 0⟩).insert 1 ⟨1, 1, 2, 1, 0, 0, true, false, 0⟩
  processStatus := AList.insert 1 ⟨⟨1, ""⟩, ⟨[1, 2, 3], by decide⟩, .empty⟩ ∅

/-- XQueues 1 and 2 have the highest priority. -/
def tiedHints : List Hint := [.priority 1 100, .priority 2 100]

/-- Device 2 has all its traffic to the memory, and device 1 has none. -/
def tiedIntensities (d : XDevice) : Option ℚ := if d = 1 then some 0 else if d = 2 then some 1 else none

theorem lookup_tied {h : XQueueHandle} {q : XQueueStatus}
    (hq : tied.xqueueStatus.lookup h = some q) :
    h ∈ [1, 2, 3] ∧ q = ⟨h, h, 2, 1, 0, 0, true, false, 0⟩ := by
  have hkeys : tied.xqueueStatus.keys = [1, 2, 3] := by decide
  have hmem : h ∈ tied.xqueueStatus.keys := AList.lookup_isSome.1 (by rw [hq]; rfl)
  rw [hkeys] at hmem
  refine ⟨hmem, ?_⟩
  simp only [List.mem_cons, List.not_mem_nil, or_false] at hmem
  rcases hmem with rfl | rfl | rfl <;> exact Option.some.inj (hq.symm.trans rfl)

theorem keyed_tied : tied.Keyed := by
  intro h q hq
  rw [(lookup_tied hq).2]

/-- Device 3 runs beside device 2 if the loop meets XQueue 1 first. -/
theorem tied_unprotected : tied.Keyed ∧ [1, 2, 3].Perm tied.xqueueStatus.keys ∧
    [2, 1, 3].Perm tied.xqueueStatus.keys ∧
    ¬ Protects (getPriority (remembered tiedHints)) tiedIntensities tied
        (outcome (getPriority (remembered tiedHints)) tiedIntensities tied [1, 2, 3]) ∧
      ¬ SameButTies (getPriority (remembered tiedHints)) tied
        (outcome (getPriority (remembered tiedHints)) tiedIntensities tied [1, 2, 3])
        (outcome (getPriority (remembered tiedHints)) tiedIntensities tied [2, 1, 3]) := by
  have hruns : (outcome (getPriority (remembered tiedHints)) tiedIntensities tied
      [1, 2, 3]).Runs 3 3 := ⟨⟨3, 3, 2, 1, 0, 0, true, false, 0⟩, by decide +kernel, rfl, rfl, rfl⟩
  refine ⟨keyed_tied, by decide, by decide, ?_, ?_⟩
  · intro hp
    have htop : Top (getPriority (remembered tiedHints)) tied 2 2 := by
      refine ⟨⟨_, rfl, rfl, rfl⟩, ?_⟩
      rintro d h ⟨q, hq, -⟩
      have hall : ∀ h ∈ [1, 2, 3], getPriority (remembered tiedHints) h ≤ 100 := by decide
      exact hall h (lookup_tied hq).1
    have hlow := hp 3 3 hruns 2 2 htop (by decide)
    revert hlow
    decide +kernel
  · rintro ⟨π, hπ, hsame⟩
    obtain ⟨q, hq, -, hd⟩ := (hπ 3 3 ⟨_, rfl, rfl, rfl⟩).1
    have h3 : π 3 = 3 := by
      rw [(lookup_tied hq).2] at hd
      exact hd
    obtain ⟨q, hq, -, -, hs⟩ := (hsame 3 3).1 hruns
    rw [h3] at hq
    have hafter : (outcome (getPriority (remembered tiedHints)) tiedIntensities tied
        [2, 1, 3]).xqueueStatus.lookup 3 = some ⟨3, 3, 2, 1, 0, 0, true, true, 0⟩ := by
      decide +kernel
    rw [hafter] at hq
    cases hq
    cases hs

/-- Neither holds of these XQueues, and device 3 tells devices 1 and 2 apart. -/
theorem protects_iff_tied : tied.Keyed ∧
    (((∀ order, order.Perm tied.xqueueStatus.keys →
        Protects (getPriority (remembered tiedHints)) tiedIntensities tied
          (outcome (getPriority (remembered tiedHints)) tiedIntensities tied order)) ∧
      ∀ order₁ order₂, order₁.Perm tied.xqueueStatus.keys → order₂.Perm tied.xqueueStatus.keys →
        SameButTies (getPriority (remembered tiedHints)) tied
          (outcome (getPriority (remembered tiedHints)) tiedIntensities tied order₁)
          (outcome (getPriority (remembered tiedHints)) tiedIntensities tied order₂)) ↔
      Uniform (getPriority (remembered tiedHints)) tiedIntensities tied) :=
  ⟨keyed_tied, protects_iff keyed_tied tiedHints tiedIntensities⟩

/-! ## Between two policies -/

/-- All ready XQueues are on one device. -/
def OneDevice (st : Status) : Prop :=
  ∀ d d' h h', st.ReadyOn d h → st.ReadyOn d' h' → d = d'

/-- Any two devices with ready XQueues interfere. -/
def AllInterfere (intensities : XDevice → Option ℚ) (st : Status) : Prop :=
  ∀ d d' h h', st.ReadyOn d h → st.ReadyOn d' h' → d ≠ d' →
    isHighInterference intensities d d' = true

theorem OneDevice.allInterfere (ho : OneDevice st) : AllInterfere intensities st := by
  intro d d' h h' hh hh' hne
  exact absurd (ho d d' h h' hh hh') hne

/-- Where all devices interfere, the best XQueue of each device runs if it has
the highest priority of all. -/
theorem runs_allInterfere (hk : st.Keyed) (hperm : order.Perm st.xqueueStatus.keys)
    (hmin : ∀ h, PRIORITY_MIN ≤ prio h) (hall : AllInterfere intensities st) :
    (outcome prio intensities st order).Runs d h ↔
      (∃ q, best prio (st.inOrder order) d = some q ∧ q.handle = h) ∧ Top prio st d h := by
  rw [runs_iff hk hperm hmin]
  refine and_congr_right fun hbest => or_iff_left ?_
  rintro ⟨r, hl, hlow⟩
  obtain ⟨q, hb, -⟩ := hbest
  obtain ⟨-, -, -, hon, -⟩ := best_some hk hperm hb
  have htop := leader_top hk hperm hl
  by_cases hd : d = r.device
  · rw [hd, isHighInterference_self] at hlow
    cases hlow
  · rw [hall d r.device _ _ hon htop.1 hd] at hlow
    cases hlow

/-- **What the policy has in common with HPF and HHPF.** Of the XQueues with
the highest priority of all it runs one for each device, and these run all. -/
theorem interpolates_iff {st : Status} (hk : st.Keyed) (hints : List Hint)
    (intensities : XDevice → Option ℚ) :
    ((OneDevice st → ∀ order order', order.Perm st.xqueueStatus.keys →
        order'.Perm st.xqueueStatus.keys → ∀ d h,
        ((outcome (getPriority (remembered hints)) intensities st order).Runs d h ↔
          (HighestPriorityFirstPolicy.outcome (getPriority (remembered hints)) st
            order').Runs d h)) ∧
      (AllInterfere intensities st → ∀ order order', order.Perm st.xqueueStatus.keys →
        order'.Perm st.xqueueStatus.keys → ∀ d h,
        ((outcome (getPriority (remembered hints)) intensities st order).Runs d h ↔
          (HeterogeneousHighestPriorityFirstPolicy.outcome (getPriority (remembered hints)) st
            order').Runs d h))) ↔
      (AllInterfere intensities st → ∀ d h h', Top (getPriority (remembered hints)) st d h →
        Top (getPriority (remembered hints)) st d h' → h = h') := by
  have hmin := remembered_min hints
  generalize getPriority (remembered hints) = prio at hmin ⊢
  constructor
  · rintro ⟨-, hhhpf⟩ hall d h h' ht ht'
    have hkeys := List.Perm.refl st.xqueueStatus.keys
    have honly : ∀ {h}, Top prio st d h →
        ∃ q, best prio (st.inOrder st.xqueueStatus.keys) d = some q ∧ q.handle = h := by
      intro h ht
      have hruns := (hhhpf hall _ _ hkeys hkeys d h).2
        ((HeterogeneousHighestPriorityFirstPolicy.runs_iff hk hkeys hmin).2 ht)
      exact ((runs_iff hk hkeys hmin).1 hruns).1
    obtain ⟨q, hb, rfl⟩ := honly ht
    obtain ⟨q', hb', rfl⟩ := honly ht'
    rw [hb] at hb'
    cases hb'
    rfl
  · intro hsolo
    have htop : AllInterfere intensities st → ∀ {order}, order.Perm st.xqueueStatus.keys →
        ∀ d h, ((outcome prio intensities st order).Runs d h ↔ Top prio st d h) := by
      intro hall order hperm d h
      rw [runs_allInterfere hk hperm hmin hall]
      refine and_iff_right_of_imp fun ht => ?_
      obtain ⟨q, hb⟩ := exists_best prio hk hperm ht.1
      exact ⟨q, hb, hsolo hall d _ _ (best_top hk hperm hb ht) ht⟩
    constructor
    · intro hone order order' hperm hperm' d h
      rw [htop hone.allInterfere hperm, HighestPriorityFirstPolicy.runs_iff hk hperm']
      refine and_congr_right fun hon => ⟨fun hle h' hh' => hle d h' hh', fun hle d' h' hh' => ?_⟩
      rw [hone d' d h' h hh' hon] at hh'
      exact hle h' hh'
    · intro hall order order' hperm hperm' d h
      rw [htop hall hperm, HeterogeneousHighestPriorityFirstPolicy.runs_iff hk hperm' hmin]

/-- Two ready XQueues of one device, without a hint. -/
def twins : Status where
  xqueueStatus :=
    (AList.insert 2 ⟨2, 1, 2, 1, 0, 0, true, false, 0⟩ ∅).insert 1
      ⟨1, 1, 2, 1, 0, 0, true, false, 0⟩
  processStatus := AList.insert 1 ⟨⟨1, ""⟩, ⟨[1, 2], by decide⟩, .empty⟩ ∅

theorem lookup_twins {h : XQueueHandle} {q : XQueueStatus}
    (hq : twins.xqueueStatus.lookup h = some q) :
    q = ⟨h, 1, 2, 1, 0, 0, true, false, 0⟩ := by
  have hkeys : twins.xqueueStatus.keys = [1, 2] := by decide
  have hmem : h ∈ twins.xqueueStatus.keys := AList.lookup_isSome.1 (by rw [hq]; rfl)
  rw [hkeys] at hmem
  simp only [List.mem_cons, List.not_mem_nil, or_false] at hmem
  rcases hmem with rfl | rfl <;> exact Option.some.inj (hq.symm.trans rfl)

theorem keyed_twins : twins.Keyed := by
  intro h q hq
  rw [lookup_twins hq]

/-- On one device, XQueue 2 runs under HPF and HHPF, and not under IAH. -/
theorem twins_differ : twins.Keyed ∧ [1, 2].Perm twins.xqueueStatus.keys ∧ OneDevice twins ∧
    AllInterfere (fun _ => none) twins ∧
    ¬ (outcome (getPriority (remembered [])) (fun _ => none) twins [1, 2]).Runs 1 2 ∧
    (HighestPriorityFirstPolicy.outcome (getPriority (remembered [])) twins [1, 2]).Runs 1 2 ∧
    (HeterogeneousHighestPriorityFirstPolicy.outcome (getPriority (remembered [])) twins
      [1, 2]).Runs 1 2 := by
  have hone : OneDevice twins := by
    rintro d d' h h' ⟨q, hq, -, rfl⟩ ⟨q', hq', -, rfl⟩
    rw [lookup_twins hq, lookup_twins hq']
  refine ⟨keyed_twins, by decide, hone, hone.allInterfere, ?_, ?_, ?_⟩
  · rintro ⟨q, hq, -, -, hs⟩
    have hafter : (outcome (getPriority (remembered [])) (fun _ => none) twins
        [1, 2]).xqueueStatus.lookup 2 = some ⟨2, 1, 2, 1, 0, 0, true, true, 0⟩ := by
      decide +kernel
    rw [hafter] at hq
    cases hq
    cases hs
  · exact ⟨⟨2, 1, 2, 1, 0, 0, true, false, 0⟩, by decide +kernel, rfl, rfl, rfl⟩
  · exact ⟨⟨2, 1, 2, 1, 0, 0, true, false, 0⟩, by decide +kernel, rfl, rfl, rfl⟩

/-- With two XQueues of the highest priority on one device, IAH has neither in common. -/
theorem interpolates_iff_twins : twins.Keyed ∧
    (((OneDevice twins → ∀ order order', order.Perm twins.xqueueStatus.keys →
        order'.Perm twins.xqueueStatus.keys → ∀ d h,
        ((outcome (getPriority (remembered [])) (fun _ => none) twins order).Runs d h ↔
          (HighestPriorityFirstPolicy.outcome (getPriority (remembered [])) twins
            order').Runs d h)) ∧
      (AllInterfere (fun _ => none) twins → ∀ order order', order.Perm twins.xqueueStatus.keys →
        order'.Perm twins.xqueueStatus.keys → ∀ d h,
        ((outcome (getPriority (remembered [])) (fun _ => none) twins order).Runs d h ↔
          (HeterogeneousHighestPriorityFirstPolicy.outcome (getPriority (remembered [])) twins
            order').Runs d h))) ↔
      (AllInterfere (fun _ => none) twins → ∀ d h h', Top (getPriority (remembered [])) twins d h →
        Top (getPriority (remembered [])) twins d h' → h = h')) :=
  ⟨keyed_twins, interpolates_iff keyed_twins [] fun _ => none⟩

end InterferenceAwareHeterogeneousPolicy
end Xsched.Sched
