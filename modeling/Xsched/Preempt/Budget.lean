import Mathlib.Algebra.Order.BigOperators.Group.List
import Mathlib.Algebra.Order.Ring.Nat
import Xsched.Preempt.Prefetch

/-!
# Budgets

The active queues of a context share its low watermark by their weights, and a
resume prefetches regions until the queue has its budget, or a little more: the
last region may be larger than what was missing.

**Fair.** Below 2^54 bytes of memory no product wraps; if the weights add up
below 2^64, as those of fewer than 2^55 queues do, the budgets add up to no more
than the low watermark; a higher priority has no smaller share; and what a queue
has after a resume is above its budget, and above what it had once it adopted the
regions of nobody, by less than the last region that came back (`budgets_fair`).
The manager keeps its priorities clamped whatever it is asked for (`clamped_after`).

`adopted_beyond_budget`: the adopted regions alone may be more than the budget.
With 2^56 queues the sum of the weights wraps to nothing, and each of them may
have it all.
-/
namespace Xsched.Preempt
namespace Admission

open Sched (XQueueHandle Priority PRIORITY_MIN PRIORITY_MAX)

/-! ## Shares of a whole -/

/-- The shares of a whole, rounded down, are not more than the whole. -/
theorem sum_floor_le {ι : Type} (whole : Nat) (weight : ι → Nat) (l : List ι)
    (hpos : 0 < (l.map weight).sum) :
    (l.map fun i => whole * weight i / (l.map weight).sum).sum ≤ whole := by
  generalize hW : (l.map weight).sum = W at hpos
  have hmul : ∀ l : List ι, W * (l.map fun i => whole * weight i / W).sum ≤
      whole * (l.map weight).sum := by
    intro l
    induction l with
    | nil => simp
    | cons i l ih =>
      simp only [List.map_cons, List.sum_cons, Nat.mul_add]
      have := Nat.mul_div_le (whole * weight i) W
      omega
  have hle := hmul l
  rw [hW, Nat.mul_comm whole W] at hle
  exact Nat.le_of_mul_le_mul_left hle hpos

/-! ## The watermark -/

theorem envPercent_bounds (env : Env) (name compatName : String) (fallback : Int)
    (h : 0 < fallback ∧ fallback < 100) :
    0 < envPercent env name compatName fallback ∧ envPercent env name compatName fallback < 100 := by
  unfold envPercent
  dsimp only
  split
  · exact h
  · omega

/-- The percentage of `LowWatermark`. -/
def lowPercent (env : Env) : Int :=
  let high := envPercent env kHighWatermarkEnv kCudaHighWatermarkEnv 85
  let low := envPercent env kLowWatermarkEnv kCudaLowWatermarkEnv 75
  if high ≤ low then (if 1 < high - 10 then high - 10 else 1) else low

theorem lowPercent_bounds (env : Env) : 1 ≤ lowPercent env ∧ lowPercent env ≤ 99 := by
  have hhigh := envPercent_bounds env kHighWatermarkEnv kCudaHighWatermarkEnv
    85 (by decide)
  have hlow := envPercent_bounds env kLowWatermarkEnv kCudaLowWatermarkEnv
    75 (by decide)
  unfold lowPercent
  dsimp only
  split
  · split <;> omega
  · omega

/-- Below 2^54 bytes the product of the watermark does not wrap. -/
theorem lowWatermark_toNat (env : Env) {total : UInt64} (htotal : total.toNat < 2 ^ 54) :
    (lowWatermark env total).toNat = total.toNat * (lowPercent env).toNat / 100 := by
  have hbounds := lowPercent_bounds env
  have hpercent : (lowPercent env).toNat.toUInt64.toNat = (lowPercent env).toNat := by
    rw [Nat.toUInt64, UInt64.toNat_ofNat']
    exact Nat.mod_eq_of_lt (by omega)
  have hle : total.toNat * (lowPercent env).toNat ≤ 2 ^ 54 * 99 :=
    Nat.mul_le_mul (by omega) (by omega)
  change (total * (lowPercent env).toNat.toUInt64 / 100).toNat = _
  rw [UInt64.toNat_div, UInt64.toNat_mul, hpercent, Nat.mod_eq_of_lt (by omega)]
  rfl

theorem lowWatermark_lt (env : Env) {total : UInt64} (htotal : total.toNat < 2 ^ 54) :
    (lowWatermark env total).toNat < 2 ^ 54 := by
  have hbounds := lowPercent_bounds env
  rw [lowWatermark_toNat env htotal]
  have hle : total.toNat * (lowPercent env).toNat ≤ total.toNat * 99 :=
    Nat.mul_le_mul_left _ (by omega)
  omega

/-! ## Weights -/

/-- `SetQueuePriority` lets no other priority in. -/
def Clamped {B : Type} (s : Registry B) : Prop :=
  ∀ h state, s.queues h = some state → PRIORITY_MIN ≤ state.priority ∧ state.priority ≤ PRIORITY_MAX

variable {B : Type} [DecidableEq B] {backend : B} {context : Nat} {device : Int}
  {queue : XQueueHandle} {s : Registry B} {handles : List XQueueHandle}

theorem weight_toNat {priority : Int} (h : priority ≤ 255) :
    (((max 1 (priority - -255 + 1)).toNat % 2 ^ 64 : Nat) : Int) = max 1 (priority - -255 + 1) ∧
      max 1 (priority - -255 + 1) ≤ 511 := by
  rcases le_total 1 (priority - -255 + 1) with hn | hn
  · rw [max_eq_right hn]
    omega
  · rw [max_eq_left hn]
    decide

omit [DecidableEq B] in
theorem queueWeight_toNat {state : QueueState B} (h : state.priority ≤ PRIORITY_MAX) :
    ((queueWeight state).toNat : Int) = max 1 (state.priority - PRIORITY_MIN + 1) := by
  unfold queueWeight
  rw [Nat.toUInt64, UInt64.toNat_ofNat']
  exact (weight_toNat h).1

omit [DecidableEq B] in
theorem queueWeight_bounds {state : QueueState B} (h : state.priority ≤ PRIORITY_MAX) :
    1 ≤ (queueWeight state).toNat ∧ (queueWeight state).toNat ≤ 511 := by
  have hw := queueWeight_toNat h
  have hlow : (1 : Int) ≤ ((queueWeight state).toNat : Int) := (le_max_left _ _).trans_eq hw.symm
  have hhigh : ((queueWeight state).toNat : Int) ≤ 511 := hw.trans_le (weight_toNat h).2
  omega

theorem weight_mono {priority priority' : Int} (h : priority ≤ priority') :
    max 1 (priority - -255 + 1) ≤ max 1 (priority' - -255 + 1) := by
  omega

omit [DecidableEq B] in
/-- A higher priority weighs at least as much. -/
theorem queueWeight_mono {state state' : QueueState B} (h : state.priority ≤ state'.priority)
    (hmax : state'.priority ≤ PRIORITY_MAX) :
    (queueWeight state).toNat ≤ (queueWeight state').toNat := by
  have hw := queueWeight_toNat (le_trans h hmax)
  have hw' := queueWeight_toNat hmax
  exact Int.ofNat_le.1 ((hw.trans_le (weight_mono h)).trans_eq hw'.symm)

omit [DecidableEq B] in
theorem clamped_update {h : XQueueHandle} {state : QueueState B} (hc : Clamped s)
    (hmin : PRIORITY_MIN ≤ state.priority) (hmax : state.priority ≤ PRIORITY_MAX)
    {queues : XQueueHandle → Option (QueueState B)}
    (hq : queues = Function.update s.queues h (some state)) :
    ∀ h state, queues h = some state →
      PRIORITY_MIN ≤ state.priority ∧ state.priority ≤ PRIORITY_MAX := by
  subst hq
  intro h' state' hstate
  by_cases he : h' = h
  · subst he
    rw [Function.update_self] at hstate
    cases hstate
    exact ⟨hmin, hmax⟩
  · rw [Function.update_of_ne he] at hstate
    exact hc h' state' hstate

omit [DecidableEq B] in
/-- The priority that a queue keeps, or gets with its entry. -/
theorem Clamped.getD (hc : Clamped s) (h : XQueueHandle) :
    PRIORITY_MIN ≤ ((s.queues h).getD {}).priority ∧
      ((s.queues h).getD {}).priority ≤ PRIORITY_MAX := by
  cases hstate : s.queues h with
  | none => exact ⟨show (-255 : Int) ≤ 0 by decide, show (0 : Int) ≤ 255 by decide⟩
  | some state => exact hc h state hstate

theorem clamped_run (c : Call B) (hc : Clamped s) : Clamped (c.run s) := by
  have hdefault := hc.getD
  have hwrites := run_writes c s
  unfold Clamped
  generalize (c.run s).queues = queues at hwrites
  cases hwrites with
  | nothing c => exact hc
  | priority queue priority hqueue =>
    exact clamped_update hc (le_min (le_max_right _ _) (show (-255 : Int) ≤ 255 by decide))
      (min_le_right _ _) rfl
  | removal queue hqueue =>
    intro h state hstate
    by_cases he : h = queue
    · subst he
      rw [Function.update_self] at hstate
      cases hstate
    · rw [Function.update_of_ne he] at hstate
      exact hc h state hstate
  | suspension sort env api backend context device queue hadmits =>
    refine clamped_update hc ?_ ?_ rfl
    · exact (hdefault queue).1
    · exact (hdefault queue).2
  | resumption sort env api backend context device queue handles hadmits =>
    refine clamped_update hc ?_ ?_ rfl
    · exact (hdefault queue).1
    · exact (hdefault queue).2

/-- Whatever is asked for, in any order, the priorities of the manager stay clamped. -/
theorem clamped_after (hc : Clamped s) (calls : List (Call B)) : Clamped (s.after calls) := by
  induction calls generalizing s with
  | nil => exact hc
  | cons c calls ih => exact ih (clamped_run c hc)

/-- The queues of this backend, context and device that are active. -/
def Registry.activeHandles (backend : B) (context : Nat) (device : Int)
    (handles : List XQueueHandle) (s : Registry B) : List XQueueHandle :=
  handles.filter fun h => (s.queues h).any (·.counts backend context device)

/-- The weight of a known queue. -/
def Registry.weightOf (s : Registry B) (h : XQueueHandle) : UInt64 :=
  ((s.queues h).map queueWeight).getD 0

/-- The sum of the weights, as it would be without wrapping. -/
def Registry.totalWeight (backend : B) (context : Nat) (device : Int)
    (handles : List XQueueHandle) (s : Registry B) : Nat :=
  ((s.activeHandles backend context device handles).map fun h => (s.weightOf h).toNat).sum

theorem activeHandles_cons (handle : XQueueHandle) (handles : List XQueueHandle)
    (s : Registry B) :
    s.activeHandles backend context device (handle :: handles) =
      if (s.queues handle).any (·.counts backend context device) then
        handle :: s.activeHandles backend context device handles
      else s.activeHandles backend context device handles :=
  List.filter_cons

variable (backend context device) in
/-- What the loop over the queues adds up to, from `w` on. -/
theorem foldl_addWeight (queue : XQueueHandle) (handles : List XQueueHandle) (s : Registry B)
    (w : Weights) :
    let w' := handles.foldl (s.addWeight backend context device queue) w
    w'.sum.toNat = (w.sum.toNat + s.totalWeight backend context device handles) % 2 ^ 64 ∧
    w'.count.toNat =
      (w.count.toNat + (s.activeHandles backend context device handles).length) % 2 ^ 64 ∧
    w'.this = if queue ∈ s.activeHandles backend context device handles then s.weightOf queue
      else w.this := by
  induction handles generalizing w with
  | nil =>
    refine ⟨?_, ?_, rfl⟩
    · exact (Nat.mod_eq_of_lt w.sum.toNat_lt).symm
    · exact (Nat.mod_eq_of_lt w.count.toNat_lt).symm
  | cons handle handles ih =>
    rw [List.foldl_cons]
    obtain ⟨hsum, hcount, hthis⟩ := ih (s.addWeight backend context device queue w handle)
    unfold Registry.totalWeight at hsum ⊢
    rw [activeHandles_cons]
    cases hstate : s.queues handle with
    | none =>
      have hadd : s.addWeight backend context device queue w handle = w := by
        simp only [Registry.addWeight, hstate]
      rw [hadd] at hsum hcount hthis ⊢
      exact ⟨hsum, hcount, hthis⟩
    | some state =>
      by_cases hcounts : state.counts backend context device = true
      · have hadd : s.addWeight backend context device queue w handle =
            ⟨w.sum + queueWeight state, if handle = queue then queueWeight state else w.this,
              w.count + 1⟩ := by
          simp only [Registry.addWeight, hstate, if_pos hcounts]
        have hweight : s.weightOf handle = queueWeight state := by
          simp only [Registry.weightOf, hstate, Option.map_some, Option.getD_some]
        rw [hadd] at hsum hcount hthis ⊢
        rw [Option.any_some, if_pos hcounts]
        refine ⟨hsum.trans ?_, hcount.trans ?_, hthis.trans ?_⟩
        · rw [List.map_cons, List.sum_cons, hweight]
          change ((w.sum + queueWeight state).toNat + _) % _ = _
          rw [UInt64.toNat_add]
          omega
        · rw [List.length_cons]
          change ((w.count + 1).toNat + _) % _ = _
          rw [UInt64.toNat_add, UInt64.toNat_one]
          omega
        · by_cases hq : queue ∈ s.activeHandles backend context device handles
          · rw [if_pos hq, if_pos (List.mem_cons_of_mem _ hq)]
          · rw [if_neg hq]
            by_cases hhandle : handle = queue
            · rw [if_pos (List.mem_cons.2 (.inl hhandle.symm)), ← hhandle, hweight]
              exact if_pos rfl
            · rw [if_neg fun h => (List.mem_cons.1 h).elim (Ne.symm hhandle) hq]
              exact if_neg hhandle
      · have hadd : s.addWeight backend context device queue w handle = w := by
          simp only [Registry.addWeight, hstate, if_neg hcounts]
        rw [hadd] at hsum hcount hthis ⊢
        rw [Option.any_some, if_neg hcounts]
        exact ⟨hsum, hcount, hthis⟩

variable (backend context device) in
theorem weights_spec (queue : XQueueHandle) (handles : List XQueueHandle) (s : Registry B) :
    let w := s.weights backend context device queue handles
    w.sum.toNat = s.totalWeight backend context device handles % 2 ^ 64 ∧
    w.count.toNat = (s.activeHandles backend context device handles).length % 2 ^ 64 ∧
    w.this = if queue ∈ s.activeHandles backend context device handles then s.weightOf queue
      else 1 := by
  obtain ⟨hsum, hcount, hthis⟩ := foldl_addWeight backend context device queue handles s {}
  refine ⟨hsum.trans ?_, hcount.trans ?_, hthis⟩
  · rw [show ({} : Weights).sum.toNat = 0 from rfl, Nat.zero_add]
  · rw [show ({} : Weights).count.toNat = 0 from rfl, Nat.zero_add]

theorem weightOf_bounds (hc : Clamped s)
    (hq : queue ∈ s.activeHandles backend context device handles) :
    1 ≤ (s.weightOf queue).toNat ∧ (s.weightOf queue).toNat ≤ 511 := by
  have hany := (List.mem_filter.1 hq).2
  cases hstate : s.queues queue with
  | none =>
    rw [hstate] at hany
    cases hany
  | some state =>
    have hweight : s.weightOf queue = queueWeight state := by
      simp only [Registry.weightOf, hstate, Option.map_some, Option.getD_some]
    rw [hweight]
    exact queueWeight_bounds (hc queue state hstate).2

/-- With a weight of at most 511, the product of a share does not wrap. -/
theorem product_toNat (env : Env) {total weight : UInt64} (htotal : total.toNat < 2 ^ 54)
    (hweight : weight.toNat ≤ 511) :
    (lowWatermark env total * weight).toNat = (lowWatermark env total).toNat * weight.toNat := by
  have hlow := lowWatermark_lt env htotal
  have hle : (lowWatermark env total).toNat * weight.toNat ≤ 2 ^ 54 * 511 :=
    Nat.mul_le_mul (by omega) hweight
  rw [UInt64.toNat_mul, Nat.mod_eq_of_lt (by omega)]

theorem this_le (hc : Clamped s) (queue : XQueueHandle) (handles : List XQueueHandle) :
    (s.weights backend context device queue handles).this.toNat ≤ 511 := by
  rw [(weights_spec backend context device queue handles s).2.2]
  split
  · next hq => exact (weightOf_bounds hc hq).2
  · decide

/-! ## Shares and budgets -/

section
variable {env : Env} {total : UInt64}

/-- An active queue's share of the low watermark. -/
theorem queueShare_toNat (htotal : total.toNat < 2 ^ 54) (hc : Clamped s)
    (hsum : s.totalWeight backend context device handles < 2 ^ 64)
    (hq : queue ∈ s.activeHandles backend context device handles) :
    (s.queueShare env backend context device queue total handles).toNat =
      (lowWatermark env total).toNat * (s.weightOf queue).toNat /
        s.totalWeight backend context device handles := by
  obtain ⟨hwsum, hwcount, hwthis⟩ := weights_spec backend context device queue handles s
  have hlength : (s.activeHandles backend context device handles).length ≤
      s.totalWeight backend context device handles := by
    have h := List.length_le_sum_of_one_le
      ((s.activeHandles backend context device handles).map fun h => (s.weightOf h).toNat)
      (fun w hw => by
        obtain ⟨h, hh, rfl⟩ := List.mem_map.1 hw
        exact (weightOf_bounds hc hh).1)
    rwa [List.length_map] at h
  have hpos := List.length_pos_of_mem hq
  rw [Nat.mod_eq_of_lt hsum] at hwsum
  rw [Nat.mod_eq_of_lt (by omega)] at hwcount
  rw [if_pos hq] at hwthis
  have hcount : (s.weights backend context device queue handles).count ≠ 0 := by
    intro h0
    rw [h0] at hwcount
    exact absurd hwcount.symm (by change _ ≠ 0; omega)
  have hne : (s.weights backend context device queue handles).sum ≠ 0 := by
    intro h0
    rw [h0] at hwsum
    exact absurd hwsum.symm (by change _ ≠ 0; omega)
  unfold Registry.queueShare
  rw [if_neg (not_or.2 ⟨hcount, hne⟩), UInt64.toNat_div, hwsum, hwthis,
    product_toNat env htotal (weightOf_bounds hc hq).2]

theorem queueBudget_le_share (queue : XQueueHandle) (handles : List XQueueHandle) (s : Registry B) :
    (s.queueBudget env backend context device queue total handles).toNat ≤
      (s.queueShare env backend context device queue total handles).toNat := by
  unfold Registry.queueBudget
  dsimp only
  split
  · next h =>
    unfold Registry.queueShare
    rw [if_pos h]
  split
  · split
    · next h =>
      rw [UInt64.lt_iff_toNat_lt] at h
      omega
    · exact le_rfl
  · exact le_rfl

/-- The weights of fewer than 2^55 queues add up without wrapping. -/
theorem totalWeight_lt (hc : Clamped s)
    (hfew : (s.activeHandles backend context device handles).length < 2 ^ 55) :
    s.totalWeight backend context device handles < 2 ^ 64 := by
  have hle : s.totalWeight backend context device handles ≤
      (s.activeHandles backend context device handles).length * 511 := by
    have h := List.sum_le_card_nsmul
      ((s.activeHandles backend context device handles).map fun h => (s.weightOf h).toNat) 511
      (fun w hw => by
        obtain ⟨h, hh, rfl⟩ := List.mem_map.1 hw
        exact (weightOf_bounds hc hh).2)
    rw [List.length_map] at h
    exact h
  omega

/-- The budgets of the active queues are no more than the low watermark. -/
theorem sum_budgets_le (htotal : total.toNat < 2 ^ 54) (hc : Clamped s)
    (hsum : s.totalWeight backend context device handles < 2 ^ 64) :
    ((s.activeHandles backend context device handles).map fun q =>
      (s.queueBudget env backend context device q total handles).toNat).sum ≤
      (lowWatermark env total).toNat := by
  rcases Nat.eq_zero_or_pos (s.totalWeight backend context device handles) with h0 | hpos
  · have hnil : s.activeHandles backend context device handles = [] := by
      refine List.eq_nil_iff_forall_not_mem.2 fun q hq => ?_
      have hle := List.single_le_sum (fun _ _ => Nat.zero_le _) _
        (List.mem_map_of_mem (f := fun h => (s.weightOf h).toNat) hq)
      have hone := (weightOf_bounds hc hq).1
      change (s.weightOf q).toNat ≤ s.totalWeight backend context device handles at hle
      omega
    rw [hnil]
    exact Nat.zero_le _
  · refine le_trans (List.sum_le_sum fun q hq => ?_)
      (sum_floor_le (lowWatermark env total).toNat (fun q => (s.weightOf q).toNat)
        (s.activeHandles backend context device handles) hpos)
    exact (queueBudget_le_share q handles s).trans_eq (queueShare_toNat htotal hc hsum hq)

/-- The higher priority has no smaller share, whatever the weights add up to. -/
theorem queueShare_mono (htotal : total.toNat < 2 ^ 54) (hc : Clamped s) {p q : XQueueHandle}
    (hp : p ∈ s.activeHandles backend context device handles)
    (hq : q ∈ s.activeHandles backend context device handles) {sp sq : QueueState B}
    (hsp : s.queues p = some sp) (hsq : s.queues q = some sq) (hle : sp.priority ≤ sq.priority) :
    s.queueShare env backend context device p total handles ≤
      s.queueShare env backend context device q total handles := by
  obtain ⟨hpsum, hpcount, hpthis⟩ := weights_spec backend context device p handles s
  obtain ⟨hqsum, hqcount, hqthis⟩ := weights_spec backend context device q handles s
  have hsum := UInt64.toNat_inj.1 (hpsum.trans hqsum.symm)
  have hcount := UInt64.toNat_inj.1 (hpcount.trans hqcount.symm)
  have hweight : (s.weightOf p).toNat ≤ (s.weightOf q).toNat := by
    simp only [Registry.weightOf, hsp, hsq, Option.map_some, Option.getD_some]
    exact queueWeight_mono hle (hc q sq hsq).2
  unfold Registry.queueShare
  dsimp only
  rw [hsum, hcount, hpthis, hqthis, if_pos hp, if_pos hq]
  split
  · exact UInt64.le_refl _
  · rw [UInt64.le_iff_toNat_le, UInt64.toNat_div, UInt64.toNat_div,
      product_toNat env htotal (weightOf_bounds hc hp).2,
      product_toNat env htotal (weightOf_bounds hc hq).2]
    exact Nat.div_le_div_right (Nat.mul_le_mul_left _ hweight)

end

/-! ## The prefetch -/

omit [DecidableEq B] in
/-- A region of the registry stands between others, none of which has its key. -/
theorem regions_split {t : Registry B} {r : MemoryRegion B} (hr : r ∈ t.regions) :
    ∃ pre post, t.regions = pre ++ r :: post ∧ (∀ v ∈ pre, v.ptr ≠ r.ptr) ∧
      ∀ v ∈ post, v.ptr ≠ r.ptr := by
  obtain ⟨pre, post, hsplit⟩ := List.append_of_mem hr
  have hkeys := t.keys
  rw [hsplit, List.map_append, List.map_cons, List.nodup_append] at hkeys
  obtain ⟨-, hpost, hdisj⟩ := hkeys
  refine ⟨pre, post, hsplit, fun v hv he => ?_, fun v hv he => ?_⟩
  · exact hdisj v.ptr (List.mem_map_of_mem hv) r.ptr List.mem_cons_self he
  · exact (List.nodup_cons.1 hpost).1 (he ▸ List.mem_map_of_mem hv)

/-- A region that was not on the device adds its size to what its queue has there. -/
theorem queueResidentBytes_prefetch {t : Registry B} {r : MemoryRegion B}
    (hr : r ∈ t.absent backend context device queue) :
    (t.prefetch r.ptr).queueResidentBytes backend context device queue =
      t.queueResidentBytes backend context device queue + r.size := by
  obtain ⟨hr, hp⟩ := List.mem_filter.1 hr
  obtain ⟨pre, post, hsplit, hpre, hpost⟩ := regions_split hr
  have hsame : ∀ l : List (MemoryRegion B), (∀ v ∈ l, v.ptr ≠ r.ptr) →
      l.map (fun v => if v.ptr = r.ptr then
        { v with resident := true, lastTouch := t.clock + 1 } else v) = l := fun l hl =>
    (List.map_congr_left fun v hv => if_neg (hl v hv)).trans (List.map_id l)
  have hregions : (t.prefetch r.ptr).regions =
      pre ++ { r with resident := true, lastTouch := t.clock + 1 } :: post := by
    change t.regions.map _ = _
    rw [hsplit, List.map_append, List.map_cons, hsame pre hpre, hsame post hpost, if_pos rfl]
  simp only [Bool.and_eq_true, Bool.not_eq_true', decide_eq_true_eq] at hp
  have hout : (r.within backend context device && decide (r.owner = queue) && r.resident) = false := by
    rw [hp.2, Bool.and_false]
  have hin : (MemoryRegion.within backend context device
      { r with resident := true, lastTouch := t.clock + 1 } && decide (r.owner = queue) && true) =
        true := by
    rw [Bool.and_true, Bool.and_eq_true, decide_eq_true_eq]
    exact hp.1
  rw [← UInt64.toNat_inj, UInt64.toNat_add]
  unfold Registry.queueResidentBytes
  rw [hregions, hsplit, List.filter_append, List.filter_append, List.filter_cons, List.filter_cons,
    hout, if_pos hin, if_neg Bool.false_ne_true, sizeSum_toNat, sizeSum_toNat, trueSum_append,
    trueSum_append]
  change (trueSum _ + (r.size.toNat + trueSum _)) % 2 ^ 64 = _
  omega

theorem mem_absent_prefetch {t : Registry B} {r : MemoryRegion B} {ptr : Nat}
    (hr : r ∈ t.absent backend context device queue) (hne : r.ptr ≠ ptr) :
    r ∈ (t.prefetch ptr).absent backend context device queue := by
  obtain ⟨hr, hp⟩ := List.mem_filter.1 hr
  exact List.mem_filter.2 ⟨List.mem_map.2 ⟨r, hr, if_neg hne⟩, hp⟩

theorem queueResidentBytes_prefetchAll {t : Registry B} {back : List (MemoryRegion B)}
    (hback : ∀ r ∈ back, r ∈ t.absent backend context device queue)
    (hkeys : (back.map (·.ptr)).Nodup) :
    (t.prefetchAll back).queueResidentBytes backend context device queue =
      t.queueResidentBytes backend context device queue + sizeSum back := by
  induction back generalizing t with
  | nil => exact (UInt64.add_zero _).symm
  | cons r back ih =>
    rw [List.map_cons, List.nodup_cons] at hkeys
    have hrest : ∀ v ∈ back, v ∈ (t.prefetch r.ptr).absent backend context device queue :=
      fun v hv => mem_absent_prefetch (hback v (List.mem_cons_of_mem _ hv))
        fun he => hkeys.1 (he ▸ List.mem_map_of_mem hv)
    refine (ih hrest hkeys.2).trans ?_
    rw [queueResidentBytes_prefetch (hback r List.mem_cons_self), UInt64.add_assoc]
    congr 1
    rw [← UInt64.toNat_inj, UInt64.toNat_add, sizeSum_toNat, sizeSum_toNat]
    change _ = (r.size.toNat + trueSum back) % 2 ^ 64
    omega

theorem missingBytes_le (env : Env) {budget resident : UInt64} (h : resident < budget) :
    (missingBytes env budget resident).toNat ≤ budget.toNat - resident.toNat := by
  have hsub := UInt64.toNat_sub_of_le _ _ (UInt64.le_of_lt h)
  unfold missingBytes
  dsimp only
  split
  · split
    · next hlimit =>
      rw [UInt64.lt_iff_toNat_lt] at hlimit
      omega
    · omega
  · omega

/-- The regions that come back are just enough for what is missing: without the
last of them it would not be enough. -/
theorem prefetches_minimal (sort : StdSort (MemoryRegion B)) {env : Env}
    {api : B → PrefetchBackend} {t : Registry B} {free memory : UInt64}
    (hquery : (api backend).queryMemory context device = some (free, memory))
    {init : List (MemoryRegion B)} {last : MemoryRegion B}
    (h : t.prefetches sort env api backend context device queue handles = init ++ [last]) :
    let budget := t.queueBudget env backend context device queue memory handles
    let resident := t.queueResidentBytes backend context device queue
    resident.toNat + (sizeSum init).toNat < budget.toNat := by
  intro budget resident
  unfold Registry.prefetches at h
  simp only [hquery] at h
  split at h
  · exact absurd h (by simp)
  next hmore =>
  obtain ⟨-, hmore⟩ := not_or.1 hmore
  obtain ⟨hbudget, hneed⟩ := not_or.1 hmore
  have hzero : decide (missingBytes env budget resident ≤ 0) = false := by
    rw [decide_eq_false_iff_not, UInt64.le_iff_toNat_le]
    have hne : (missingBytes env budget resident).toNat ≠ 0 := fun h => hneed (UInt64.toNat_inj.1 h)
    change ¬(missingBytes env budget resident).toNat ≤ 0
    omega
  have hinit : decide (missingBytes env budget resident ≤ sizeSum init) = false :=
    @TakeUntil.taken_minimal _ _ _ (fun bytes => decide (missingBytes env budget resident ≤ bytes))
      _ _ hzero _ _ h
  rw [decide_eq_false_iff_not, UInt64.le_iff_toNat_le] at hinit
  rw [UInt64.not_le] at hbudget
  have hle := missingBytes_le env hbudget
  rw [UInt64.lt_iff_toNat_lt] at hbudget
  change ¬(missingBytes env budget resident).toNat ≤ _ at hinit
  change (missingBytes env budget resident).toNat ≤ _ at hle
  change resident.toNat < budget.toNat at hbudget
  change (missingBytes env budget resident).toNat ≤ budget.toNat - resident.toNat at hle
  omega

/-- A resume whose backend answers leaves the queue what it had after the
adoption, or brings regions back and goes beyond the budget by less than the
last of them. -/
theorem resume_overshoot (sort : StdSort (MemoryRegion B)) {env : Env}
    {api : B → PrefetchBackend} (handles : List XQueueHandle) (s : Registry B)
    {free memory : UInt64} (hadmits : admitsResume env (api backend) context queue = true)
    (hquery : (api backend).queryMemory context device = some (free, memory)) :
    let t := s.joined backend context device queue
    let s' := s.beforeQueueResume sort env api backend context device queue handles
    let resident := t.queueResidentBytes backend context device queue
    let budget := t.queueBudget env backend context device queue memory handles
    let back := t.prefetches sort env api backend context device queue handles
    s' = t.prefetchAll back ∧ (∀ r ∈ back, r ∈ t.absent backend context device queue) ∧
      (back.map (·.ptr)).Nodup ∧
      (back = [] → s'.queueResidentBytes backend context device queue = resident) ∧
      ∀ init last, back = init ++ [last] →
        (s'.queueResidentBytes backend context device queue).toNat <
          max resident.toNat budget.toNat + last.size.toNat := by
  intro t s' resident budget back
  have hs' : s' = t.prefetchAll back := beforeQueueResume_prefetches sort device handles s hadmits
  obtain ⟨hmem, hkeys⟩ := moved_of_sublist sort
    (prefetches_sublist sort env api backend context device queue handles t)
  have hback : ∀ r ∈ back, r ∈ t.absent backend context device queue :=
    fun r hr => List.mem_filter.2 (hmem r hr)
  refine ⟨hs', hback, hkeys, fun hnil => ?_, fun init last hlast => ?_⟩
  · rw [hs', hnil]
    rfl
  · have hall := queueResidentBytes_prefetchAll hback hkeys
    have hmin := prefetches_minimal sort hquery hlast
    rw [hs', hall, hlast, UInt64.toNat_add, sizeSum_toNat, trueSum_append]
    change resident.toNat + (sizeSum init).toNat < budget.toNat at hmin
    rw [sizeSum_toNat] at hmin
    change (resident.toNat + (trueSum init + (last.size.toNat + 0)) % 2 ^ 64) % 2 ^ 64 < _
    have hbudget := budget.toNat_lt
    have hmax := le_max_right resident.toNat budget.toNat
    omega

/-! ## Fair budgets -/

/-- **Fair budgets**, for every registry whose priorities are clamped, as those of
the manager are: below 2^54 bytes of memory, and where the weights of the active
queues add up to less than 2^64, as they do for fewer than 2^55 queues, the budgets
are no more than the low watermark. The other parts hold whatever the weights add up
to: weights are between 1 and 511 and no product wraps, a higher priority has no
smaller share, and a resume goes beyond the budget, or beyond what the queue has
after the adoption, by less than the last region it prefetches. -/
theorem budgets_fair (env : Env) (backend : B) (context : Nat) (device : Int) (total : UInt64)
    (htotal : total.toNat < 2 ^ 54) (s : Registry B) (hc : Clamped s)
    (handles : List XQueueHandle) :
    ((s.activeHandles backend context device handles).length < 2 ^ 55 →
      s.totalWeight backend context device handles < 2 ^ 64) ∧
    (s.totalWeight backend context device handles < 2 ^ 64 →
      ((s.activeHandles backend context device handles).map fun q =>
        (s.queueBudget env backend context device q total handles).toNat).sum ≤
        (lowWatermark env total).toNat) ∧
    (∀ h state, s.queues h = some state →
      1 ≤ (queueWeight state).toNat ∧ (queueWeight state).toNat ≤ 511) ∧
    ((lowWatermark env total).toNat = total.toNat * (lowPercent env).toNat / 100 ∧
      ∀ q, (lowWatermark env total * (s.weights backend context device q handles).this).toNat =
        (lowWatermark env total).toNat * (s.weights backend context device q handles).this.toNat) ∧
    (∀ p ∈ s.activeHandles backend context device handles,
      ∀ q ∈ s.activeHandles backend context device handles, ∀ sp sq,
      s.queues p = some sp → s.queues q = some sq → sp.priority ≤ sq.priority →
        s.queueShare env backend context device p total handles ≤
          s.queueShare env backend context device q total handles) ∧
    (∀ (sort : StdSort (MemoryRegion B)) (api : B → PrefetchBackend) (queue : XQueueHandle)
      (free memory : UInt64), admitsResume env (api backend) context queue = true →
      (api backend).queryMemory context device = some (free, memory) →
      let t := s.joined backend context device queue
      let s' := s.beforeQueueResume sort env api backend context device queue handles
      let resident := t.queueResidentBytes backend context device queue
      let budget := t.queueBudget env backend context device queue memory handles
      let back := t.prefetches sort env api backend context device queue handles
      s' = t.prefetchAll back ∧ (∀ r ∈ back, r ∈ t.absent backend context device queue) ∧
        (back.map (·.ptr)).Nodup ∧
        (back = [] → s'.queueResidentBytes backend context device queue = resident) ∧
        ∀ init last, back = init ++ [last] →
          (s'.queueResidentBytes backend context device queue).toNat <
            max resident.toNat budget.toNat + last.size.toNat) :=
  ⟨totalWeight_lt hc, sum_budgets_le htotal hc,
    fun h state hstate => queueWeight_bounds (hc h state hstate).2,
    ⟨lowWatermark_toNat env htotal, fun q => product_toNat env htotal (this_le hc q handles)⟩,
    fun _ hp _ hq _ _ hsp hsq hle => queueShare_mono htotal hc hp hq hsp hsq hle,
    fun sort _ _ _ _ hadmits hquery => resume_overshoot sort handles s hadmits hquery⟩

/-- A backend that can do everything, on a device of this many bytes, all in use. -/
def prefetchApi (memory : UInt64) (_ : Unit) : PrefetchBackend :=
  { apiOf 0 () with
    queryMemory := fun _ _ => some (0, memory), asyncPrefetch := true
    prefetchToDevice := fun _ _ _ _ => true }

/-- A region of queue 1 that an eviction stamped. -/
def evicted (ptr : Nat) (size : UInt64) (lastTouch : UInt64) : MemoryRegion Unit :=
  { regionOf ptr size with resident := false, lastTouch }

/-- The regions of queue 1 are registered, the priorities of queues 1 and 2 asked for beyond
the bounds, both queues resumed, and the regions evicted by the suspension of a third queue. -/
def highAndLow : Registry Unit :=
  Registry.empty.after
    [.registerRegion envOne (prefetchApi 51200) () 1 60 1 0 1,
      .registerRegion envOne (prefetchApi 51200) () 2 60 1 0 1,
      .registerRegion envOne (prefetchApi 51200) () 3 400 1 0 1,
      .setQueuePriority 1 300, .setQueuePriority 2 (-300),
      .beforeQueueResume (stableSort _) envOne (prefetchApi 51200) () 1 0 1 [1, 2],
      .beforeQueueResume (stableSort _) envOne (prefetchApi 51200) () 1 0 2 [1, 2],
      .onQueueSuspend (stableSort _) envOne (prefetchApi 51200) () 1 0 3]

theorem clamped_highAndLow : Clamped highAndLow :=
  clamped_after (fun _ _ hstate => by cases hstate) _

/-- Of 512 bytes the one has a share of 511, of which it can use all; the other has 1. A resume of
the first brings its regions back, and only the last takes it beyond its budget. -/
theorem budgets_fair_highAndLow :
    let s' := highAndLow.beforeQueueResume (stableSort _) envOne (prefetchApi 51200) () 1 0 1 [1, 2]
    (lowWatermark envOne 51200).toNat = 512 ∧
    ([1, 2].map fun q => (highAndLow.queueBudget envOne () 1 0 q 51200 [1, 2]).toNat) =
      [511, 1] ∧
    ([1, 2].map fun q => (highAndLow.queueBudget envOne () 1 0 q 51200 [1, 2]).toNat).sum ≤ 512 ∧
    (s'.queueResidentBytes () 1 0 1).toNat = 520 ∧
    (s'.queueResidentBytes () 1 0 1).toNat < max 0 511 + 60 := by
  intro s'
  obtain ⟨hfew, hsum, -, -, -, hresume⟩ :=
    budgets_fair envOne () 1 0 51200 (by decide) highAndLow clamped_highAndLow [1, 2]
  obtain ⟨-, -, -, -, hover⟩ :=
    hresume (stableSort _) (prefetchApi 51200) 1 0 51200 (by decide) rfl
  have hback : (highAndLow.joined () 1 0 1).prefetches (stableSort _) envOne (prefetchApi 51200)
      () 1 0 1 [1, 2] = [evicted 3 400 8, evicted 2 60 7] ++ [evicted 1 60 6] := by decide
  exact ⟨by decide, by decide, hsum (hfew (by decide)), by decide, hover _ _ hback⟩

/-- An active queue in context 1. -/
def activeQueue (priority : Priority) : QueueState Unit :=
  { backend := some (), context := 1, device := 0, priority, active := true }

/-- A resident region of nobody. -/
def orphan : Registry Unit := ⟨[{ regionOf 1 60 with owner := 0 }], fun _ => none, 0, by decide⟩

/-- Queues of the default priority, all of them active. -/
def queuesBelow (n : Nat) : Registry Unit :=
  ⟨[], fun h => if h < n then some (activeQueue 0) else none, 0, List.nodup_nil⟩

theorem activeHandles_below (n : Nat) :
    (queuesBelow n).activeHandles () 1 0 (List.range n) = List.range n := by
  refine List.filter_eq_self.2 fun h hh => ?_
  change Option.any _ (if h < n then _ else _) = true
  rw [if_pos (List.mem_range.1 hh)]
  rfl

theorem totalWeight_below (n : Nat) :
    (queuesBelow n).totalWeight () 1 0 (List.range n) = n * 256 := by
  have hweight : ∀ h ∈ List.range n, ((queuesBelow n).weightOf h).toNat = 256 := by
    intro h hh
    have hqueue : (queuesBelow n).queues h = some (activeQueue 0) := if_pos (List.mem_range.1 hh)
    simp only [Registry.weightOf, hqueue]
    rfl
  unfold Registry.totalWeight
  rw [activeHandles_below, List.map_congr_left hweight, List.map_const', List.sum_replicate,
    List.length_range]
  rfl

/-- Where the sum of the weights wraps to nothing, every budget is all there is. -/
theorem queueBudget_below {n : Nat} (hn : n * 256 % 2 ^ 64 = 0) (q : XQueueHandle) :
    (queuesBelow n).queueBudget envOne () 1 0 q 100 (List.range n) = lowWatermark envOne 100 := by
  have hsum : ((queuesBelow n).weights () 1 0 q (List.range n)).sum = 0 := by
    rw [← UInt64.toNat_inj, (weights_spec _ _ _ q (List.range n) (queuesBelow n)).1,
      totalWeight_below, hn]
    rfl
  unfold Registry.queueBudget
  exact if_pos (.inr hsum)

/-- A queue that adopts a region of 60 bytes has 60 bytes, one byte is its
budget, and none came back to it; and 2^56 queues of the default priority have
budgets of 2^56 bytes where the low watermark is one. -/
theorem adopted_beyond_budget :
    let s' := orphan.beforeQueueResume (stableSort _) envOne (prefetchApi 100) () 1 0 1 [1]
    orphan.queueResidentBytes () 1 0 1 = 0 ∧
    (orphan.joined () 1 0 1).queueBudget envOne () 1 0 1 100 [1] = 1 ∧
    s'.queueResidentBytes () 1 0 1 = 60 ∧
    (s'.regions.map fun r => (r.ptr, r.resident)) = orphan.regions.map (fun r => (r.ptr, r.resident)) ∧
    (lowWatermark envOne 100).toNat = 1 ∧
    (((queuesBelow (2 ^ 56)).activeHandles () 1 0 (List.range (2 ^ 56))).map fun q =>
      ((queuesBelow (2 ^ 56)).queueBudget envOne () 1 0 q 100 (List.range (2 ^ 56))).toNat).sum =
        2 ^ 56 := by
  intro s'
  refine ⟨by decide, by decide, by decide, by decide, by decide, ?_⟩
  rw [activeHandles_below]
  generalize hn : 2 ^ 56 = n
  have hwrap : n * 256 % 2 ^ 64 = 0 := by
    rw [← hn]
    decide
  have hbudget : ∀ q ∈ List.range n,
      ((queuesBelow n).queueBudget envOne () 1 0 q 100 (List.range n)).toNat = 1 := by
    intro q _
    rw [queueBudget_below hwrap]
    decide
  rw [List.map_congr_left hbudget, List.map_const', List.sum_replicate, List.length_range]
  exact Nat.mul_one n

end Admission
end Xsched.Preempt
