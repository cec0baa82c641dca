import Mathlib
import Xsched.Sched.EventLoop
import Xsched.Sched.HintPolicies
import Xsched.Sched.Rounds

/-!
# Laxities in time

An XQueue with a laxity has its `lax_prio` until `ready_time + lax` and its
`crit_prio` from then on. `LaxityPolicy::Sched` computes the priorities of the
moment and runs the highest; and it arms a timer for the first switch that lies
ahead, so that another `Sched` comes then. The search for the first begins with
`time_point::max()`: a switch that is not before it has no timer.

A hint with a negative laxity is kept as `NO_LAXITY`, which puts the switch a
microsecond before `ready_time`: with a clock that has reached it, the XQueue
is critical. Any other laxity is kept as it is, so that `ready_time + lax` can
lie behind all time points. The sum overflows then, and the XQueue can be critical
at once (`far_switch_critical`).

**Result.** `laxity_in_time`.
-/
namespace Xsched.Sched
namespace LaxityPolicy

/-! ## What the hints ask for -/

/-- The priority that a hint gives an XQueue at some time. -/
def effective (hint : Option LaxityInfo) (readyTime now : TimePoint) : Priority :=
  match hint with
  | none => PRIORITY_DEFAULT
  | some info =>
    if info.lax < 0 then info.critPrio
    else if now < afterUs readyTime info.lax then info.laxPrio else info.critPrio

/-- When the priority goes over from `lax_prio` to `crit_prio`. -/
def switchAt (hint : Option LaxityInfo) (readyTime : TimePoint) : Option Int :=
  match hint with
  | none => none
  | some info => if info.lax < 0 then none else some (afterUs readyTime info.lax)

/-- The ready time and the switch are time points. -/
def Representable (hint : Option LaxityInfo) (readyTime : TimePoint) : Prop :=
  (readyTime : Int) ≤ timePointMax ∧ ∀ i, switchAt hint readyTime = some i → i ≤ timePointMax

/-- How the policy keeps a hint. -/
def keep (info : LaxityInfo) : LaxityInfo :=
  { info with lax := if info.lax < 0 then NO_LAXITY else info.lax }

section
variable {hint : Option LaxityInfo} {now : TimePoint} {infos : State} {q : XQueueStatus}

/-- The switch as the policy computes it. -/
def laxityOf (infos : State) (q : XQueueStatus) : Option Int :=
  (infos q.handle).map fun info => afterHintUs q.readyTime info.lax

/-- `NO_LAXITY` puts the switch before the ready time. -/
theorem afterHintUs_noLaxity {t : TimePoint} (ht : (t : Int) ≤ timePointMax) :
    afterHintUs t NO_LAXITY = t - 1000 := by
  have hsum : afterUs t NO_LAXITY = t - 1000 := rfl
  rw [afterHintUs_eq (by omega) (by omega), hsum]

/-- No laxity is lost where the switch is a time point. -/
theorem afterHintUs_lax {t : TimePoint} {lax : Laxity} (hneg : ¬ lax < 0)
    (hmax : afterUs t lax ≤ timePointMax) : afterHintUs t lax = afterUs t lax := by
  refine afterHintUs_eq ?_ hmax
  have hlax : (0 : Int) ≤ lax := not_lt.1 hneg
  unfold afterUs
  omega

/-- From the ready time on, the policy goes by the priorities that the hints ask for. -/
theorem priority_eq (hkeep : infos q.handle = hint.map keep) (hready : q.ready = true)
    (hnow : q.readyTime ≤ now) (hrep : Representable hint q.readyTime) :
    priority now infos q = effective hint q.readyTime now := by
  unfold priority effective
  rw [hkeep]
  cases hint with
  | none => rfl
  | some info =>
    have hle : (q.readyTime : Int) ≤ now := by exact_mod_cast hnow
    simp only [Option.map_some, keep, hready, Bool.not_true, Bool.false_eq_true, false_or]
    by_cases hneg : info.lax < 0
    · have hpast : ¬ (now : Int) < afterHintUs q.readyTime NO_LAXITY := by
        rw [afterHintUs_noLaxity hrep.1]
        omega
      rw [if_pos hneg, if_pos hneg, if_neg hpast]
    · have hmax : afterUs q.readyTime info.lax ≤ timePointMax := by
        refine hrep.2 _ ?_
        simp only [switchAt, if_neg hneg]
      rw [if_neg hneg, if_neg hneg, afterHintUs_lax hneg hmax]

theorem laxityOf_of_switchAt (hkeep : infos q.handle = hint.map keep) {i : Int}
    (hi : switchAt hint q.readyTime = some i) (hmax : i ≤ timePointMax) :
    laxityOf infos q = some i := by
  unfold laxityOf
  unfold switchAt at hi
  rw [hkeep]
  cases hint with
  | none => cases hi
  | some info =>
    dsimp only at hi
    split at hi
    · cases hi
    · rename_i hneg
      obtain rfl := Option.some.inj hi
      simp only [Option.map_some, keep, if_neg hneg, afterHintUs_lax hneg hmax]

/-- The switches that lie ahead are those of the hints. -/
theorem switchAt_of_laxityOf (hkeep : infos q.handle = hint.map keep) (hnow : q.readyTime ≤ now)
    (hrep : Representable hint q.readyTime) {i : Int} (hi : laxityOf infos q = some i)
    (hahead : now < i) : switchAt hint q.readyTime = some i := by
  unfold laxityOf at hi
  unfold switchAt
  rw [hkeep] at hi
  cases hint with
  | none => cases hi
  | some info =>
    have hle : (q.readyTime : Int) ≤ now := by exact_mod_cast hnow
    simp only [Option.map_some, keep, Option.some.injEq] at hi
    dsimp only
    split at hi
    · rw [afterHintUs_noLaxity hrep.1] at hi
      omega
    · rename_i hneg
      have hmax : afterUs q.readyTime info.lax ≤ timePointMax := by
        refine hrep.2 _ ?_
        simp only [switchAt, if_neg hneg]
      rw [if_neg hneg, ← hi, afterHintUs_lax hneg hmax]

end

/-! ## The search -/

section
variable {now : TimePoint} {infos : State} {q : XQueueStatus} {m : Search}

theorem visit_highest (now : TimePoint) (infos : State) (m : Search) (q : XQueueStatus) :
    (visit now infos m q).highestPrio =
      if q.ready then max m.highestPrio (priority now infos q) else m.highestPrio := by
  unfold visit priority
  cases q.ready with
  | false => rfl
  | true =>
    cases hinfo : infos q.handle with
    | none =>
      simp only [Bool.not_true, Bool.false_eq_true, if_false, if_true, max_def_lt]
      split <;> rfl
    | some info =>
      simp only [Bool.not_true, Bool.false_eq_true, if_false, if_true, false_or, max_def_lt]
      repeat' split
      all_goals rfl

/-- A switch ahead that is earlier than what has been found. -/
theorem visit_sooner (hready : q.ready = true) {i : Int} (hi : laxityOf infos q = some i)
    (hnow : now < i) (hlt : i < m.earliestLaxity) :
    (visit now infos m q).hasLaxity = true ∧ (visit now infos m q).earliestLaxity = i := by
  obtain ⟨info, hinfo, rfl⟩ := Option.map_eq_some_iff.1 hi
  unfold visit
  simp only [hready, hinfo, Bool.not_true, Bool.false_eq_true, if_false]
  repeat' split
  all_goals simp_all

/-- Any other entry. -/
theorem visit_later (hlater : q.ready = true → ∀ i, laxityOf infos q = some i → now < i →
    m.earliestLaxity ≤ i) :
    (visit now infos m q).hasLaxity = m.hasLaxity ∧
      (visit now infos m q).earliestLaxity = m.earliestLaxity := by
  unfold visit
  cases hready : q.ready with
  | false => exact ⟨rfl, rfl⟩
  | true =>
    cases hinfo : infos q.handle with
    | none =>
      simp only [Bool.not_true, Bool.false_eq_true, if_false]
      split <;> exact ⟨rfl, rfl⟩
    | some info =>
      have hle := hlater hready (afterHintUs q.readyTime info.lax) (by rw [laxityOf, hinfo]; rfl)
      simp only [Bool.not_true, Bool.false_eq_true, if_false]
      repeat' split
      all_goals first
        | exact ⟨rfl, rfl⟩
        | (rename_i hsoon; exact absurd (hle hsoon.1) (by simpa using hsoon.2))

/-- What the search over some entries has found. -/
structure Found (now : TimePoint) (infos : State) (xs : List XQueueStatus) (m : Search) : Prop where
  above : ∀ q ∈ xs, q.ready = true → priority now infos q ≤ m.highestPrio
  least : m.highestPrio = PRIORITY_MIN ∨
    ∃ q ∈ xs, q.ready = true ∧ priority now infos q = m.highestPrio
  first : ∀ q ∈ xs, q.ready = true → ∀ i, laxityOf infos q = some i → now < i →
    m.earliestLaxity ≤ i
  held : m.hasLaxity = true →
    ∃ q ∈ xs, q.ready = true ∧ laxityOf infos q = some m.earliestLaxity ∧ now < m.earliestLaxity
  none : m.hasLaxity = false → m.earliestLaxity = timePointMax

theorem Found.above_visit {xs : List XQueueStatus} (h : Found now infos xs m) (q : XQueueStatus) :
    ∀ r ∈ xs ++ [q], r.ready = true →
      priority now infos r ≤ (visit now infos m q).highestPrio := by
  intro r hr hready
  rw [visit_highest]
  rcases List.mem_append.1 hr with hr | hr
  · have hle := h.above r hr hready
    split
    · exact le_max_of_le_left hle
    · exact hle
  · rw [List.mem_singleton.1 hr] at hready ⊢
    rw [if_pos hready]
    exact le_max_right ..

theorem Found.least_visit {xs : List XQueueStatus} (h : Found now infos xs m) (q : XQueueStatus) :
    (visit now infos m q).highestPrio = PRIORITY_MIN ∨
      ∃ r ∈ xs ++ [q], r.ready = true ∧
        priority now infos r = (visit now infos m q).highestPrio := by
  have hold : m.highestPrio = PRIORITY_MIN ∨
      ∃ r ∈ xs ++ [q], r.ready = true ∧ priority now infos r = m.highestPrio :=
    h.least.imp_right fun ⟨r, hr, h⟩ => ⟨r, List.mem_append_left _ hr, h⟩
  rw [visit_highest]
  split
  · rename_i hready
    rcases max_choice m.highestPrio (priority now infos q) with he | he
    · rw [he]
      exact hold
    · rw [he]
      exact Or.inr ⟨q, List.mem_append_right _ (.head _), hready, rfl⟩
  · exact hold

/-- One entry more, with a switch ahead that is earlier. -/
theorem Found.sooner {xs : List XQueueStatus} (h : Found now infos xs m) (hready : q.ready = true)
    {i : Int} (hi : laxityOf infos q = some i) (hnow : now < i) (hlt : i < m.earliestLaxity) :
    Found now infos (xs ++ [q]) (visit now infos m q) := by
  obtain ⟨hhas, hearly⟩ := visit_sooner hready hi hnow hlt
  refine ⟨h.above_visit q, h.least_visit q, fun r hr hr' j hj hnow' => ?_, fun _ => ?_,
    fun hc => ?_⟩
  · rw [hearly]
    rcases List.mem_append.1 hr with hr | hr
    · exact hlt.le.trans (h.first r hr hr' j hj hnow')
    · rw [List.mem_singleton.1 hr, hi] at hj
      exact (Option.some.inj hj).le
  · rw [hearly]
    exact ⟨q, List.mem_append_right _ (.head _), hready, hi, hnow⟩
  · rw [hhas] at hc
    cases hc

/-- One entry more, without such a switch. -/
theorem Found.later {xs : List XQueueStatus} (h : Found now infos xs m)
    (hlater : q.ready = true → ∀ i, laxityOf infos q = some i → now < i → m.earliestLaxity ≤ i) :
    Found now infos (xs ++ [q]) (visit now infos m q) := by
  obtain ⟨hhas, hearly⟩ := visit_later hlater
  refine ⟨h.above_visit q, h.least_visit q, fun r hr hr' j hj hnow' => ?_, fun hc => ?_,
    fun hc => ?_⟩
  · rw [hearly]
    rcases List.mem_append.1 hr with hr | hr
    · exact h.first r hr hr' j hj hnow'
    · rw [List.mem_singleton.1 hr] at hj hr'
      exact hlater hr' j hj hnow'
  · rw [hhas] at hc
    rw [hearly]
    obtain ⟨r, hr, h⟩ := h.held hc
    exact ⟨r, List.mem_append_left _ hr, h⟩
  · rw [hhas] at hc
    rw [hearly]
    exact h.none hc

theorem found_search (now : TimePoint) (infos : State) (xs : List XQueueStatus) :
    Found now infos xs (search now infos xs) := by
  induction xs using List.reverseRecOn with
  | nil =>
    exact ⟨by simp, Or.inl rfl, by simp, (fun h => by cases h), fun _ => rfl⟩
  | append_singleton xs q ih =>
    have hlast : search now infos (xs ++ [q]) = visit now infos (search now infos xs) q := by
      unfold search
      rw [List.foldl_append]
      rfl
    rw [hlast]
    by_cases hsoon : ∃ i, q.ready = true ∧ laxityOf infos q = some i ∧ now < i ∧
        i < (search now infos xs).earliestLaxity
    · obtain ⟨i, hready, hi, hnow, hlt⟩ := hsoon
      exact ih.sooner hready hi hnow hlt
    · exact ih.later fun hready i hi hnow => not_lt.1 fun hlt => hsoon ⟨i, hready, hi, hnow, hlt⟩

/-- A switch that a timer can be set for has been found. -/
theorem Found.has {xs : List XQueueStatus} (h : Found now infos xs m) {i : Int}
    (hle : m.earliestLaxity ≤ i) (hmax : i < timePointMax) : m.hasLaxity = true := by
  by_contra hnone
  rw [h.none (by simpa using hnone)] at hle
  exact absurd hmax (not_lt.2 hle)

end

/-! ## Along a run -/

/-- The last laxity hint for each XQueue, and the reading of the clock in the
last `Sched` since `timers_` was cleared. -/
structure Seen where
  hints : XQueueHandle → Option LaxityInfo
  last : Option TimePoint

namespace Seen

def start : Seen := ⟨fun _ => none, none⟩

def record (s : Hosted policy) (act : HostedAct) (_ : Hosted policy) (g : Seen) : Seen :=
  match act with
  | .recvHint _ _ (.laxity handle lax laxPrio critPrio) =>
    { g with hints := Function.update g.hints handle (some ⟨lax, laxPrio, critPrio⟩) }
  | .recvHint _ _ _ => g
  | .reschedule clock _ => { g with last := some clock.now }
  | .own act =>
    if LocalScheduler.LoopLog.clears s.scheduler act then { g with last := none } else g

end Seen

/-- The priorities in a hint. -/
def hintedPrios : HostedAct → List Priority
  | .recvHint _ _ (.laxity _ _ laxPrio critPrio) => [laxPrio, critPrio]
  | _ => []

/-- The priorities of the hints are within the limits. -/
def InRange (act : HostedAct) : Prop :=
  ∀ prio ∈ hintedPrios act, PRIORITY_MIN ≤ prio ∧ prio ≤ PRIORITY_MAX

instance : DecidablePred InRange := fun act =>
  inferInstanceAs (Decidable (∀ prio ∈ hintedPrios act, PRIORITY_MIN ≤ prio ∧ prio ≤ PRIORITY_MAX))

/-- The runs of the policy with such hints. -/
def hinted : LTS (Hosted policy × Seen) HostedAct :=
  (LTS.recorded (Hosted.Begins policy) Hosted.step (fun _ => .start) Seen.record).restrict
    fun _ act => InRange act

/-- There is a timer for each switch of a ready XQueue after `at` that a timer
can be set for. -/
def Armed (s : Hosted policy) (last : TimePoint) : Prop :=
  ∀ h q, s.scheduler.status.xqueueStatus.lookup h = some q → q.ready = true →
    ∀ i, laxityOf s.policy q = some i → last < i → i < timePointMax →
      ∃ t ∈ s.scheduler.timers, (t : Int) ≤ i

structure Inv (s : Hosted policy × Seen) : Prop where
  keeps : ∀ h, s.1.policy h = (s.2.hints h).map keep
  range : ∀ h info, s.2.hints h = some info → PRIORITY_MIN ≤ info.laxPrio ∧
    PRIORITY_MIN ≤ info.critPrio
  armed : s.1.scheduler.worker = .waiting → ∀ last, s.2.last = some last → Armed s.1 last
  quiet : s.1.scheduler.worker = .stopped → s.2.last = none

section
variable {s s' : Hosted policy} {g : Seen}

theorem armed_sched (current : TimePoint) (infos : State) (xs : List XQueueStatus) :
    armed (sched current infos xs) =
      if (search current infos xs).hasLaxity then
        [(search current infos xs).earliestLaxity.toNat]
      else [] := by
  have hnone : armed (xs.map fun q =>
      if priority current infos q < (search current infos xs).highestPrio then
        Callback.suspend q.handle
      else .resume q.handle) = [] := by
    refine List.filterMap_eq_nil_iff.2 fun c hc => ?_
    obtain ⟨q, -, rfl⟩ := List.mem_map.1 hc
    by_cases hlt : priority current infos q < (search current infos xs).highestPrio
    · rw [if_pos hlt]
    · rw [if_neg hlt]
  unfold sched
  rw [armed_append, hnone, List.nil_append]
  split <;> rfl

/-- What a round computes from, and what it does. -/
theorem round_sched {clock : Clock} {order : List XQueueHandle}
    (hr : (Hosted.life policy).Reachable s) (h : s.step (.reschedule clock order) = some s') :
    PolicyRun.Round clock order s.run
        (sched clock.now s.policy (s.scheduler.status.inOrder order)) s'.run ∧
      s'.policy = s.policy ∧
      s'.scheduler.timers.Perm (s.scheduler.timers ++
        armed (sched clock.now s.policy (s.scheduler.status.inOrder order))) := by
  obtain ⟨calls, R⟩ := Hosted.round_life hr h
  obtain ⟨-, calls', hcalls', hsched⟩ := Hosted.round h
  have he := Option.some.inj R.sched
  have he' := Option.some.inj hcalls'
  have hcalls : sched clock.now s.policy (s.scheduler.status.inOrder order) = calls :=
    congrArg Prod.fst he
  have hcalls'' : sched clock.now s.policy (s.scheduler.status.inOrder order) = calls' :=
    congrArg Prod.fst he'
  refine ⟨by rw [hcalls]; exact R, (congrArg Prod.snd he').symm, ?_⟩
  rw [hcalls'']
  exact LocalScheduler.timers_sched hsched

/-- The round sets a timer for what the search has found. -/
theorem mem_timers {now : TimePoint} {infos : State} {xs : List XQueueStatus}
    {timers timers' : List TimePoint} (hperm : timers'.Perm (timers ++ armed (sched now infos xs)))
    (hhas : (search now infos xs).hasLaxity = true) :
    (search now infos xs).earliestLaxity.toNat ∈ timers' := by
  refine hperm.mem_iff.2 (List.mem_append_right _ ?_)
  rw [armed_sched, if_pos hhas]
  exact .head _

/-- After a round there is a timer for each switch ahead. -/
theorem armed_round {clock : Clock} {order : List XQueueHandle}
    (hr : (Hosted.life policy).Reachable s) (h : s.step (.reschedule clock order) = some s') :
    Armed s' clock.now := by
  obtain ⟨R, hpolicy, hperm⟩ := round_sched hr h
  have hfound := found_search clock.now s.policy (s.scheduler.status.inOrder order)
  intro handle q' hq' hready i hi hnow hmax
  obtain ⟨q, hq, -, rfl⟩ := R.entry hq'
  rw [hpolicy] at hi
  have hle := hfound.first q hq hready i hi hnow
  have hhas := hfound.has hle hmax
  obtain ⟨-, -, -, -, hahead⟩ := hfound.held hhas
  exact ⟨_, mem_timers hperm hhas, by omega⟩

theorem recorded_hint {now : TimePoint} {clock : Clock} {hint : Hint}
    (hkeeps : ∀ h, s.policy h = (g.hints h).map keep) (s' : Hosted policy) (h : XQueueHandle) :
    recvHint s.policy hint h =
      ((Seen.record s (.recvHint now clock hint) s' g).hints h).map keep := by
  cases hint with
  | laxity handle lax laxPrio critPrio =>
    simp only [recvHint, Seen.record, Function.update_apply]
    split
    · rfl
    · exact hkeeps h
  | _ => exact hkeeps h

/-- Steps that change neither worker nor timers nor status. -/
theorem Inv.same (hi : Inv (s, g)) (hpolicy : s'.policy = s.policy)
    (hw : s'.scheduler.worker = s.scheduler.worker)
    (ht : s'.scheduler.timers = s.scheduler.timers)
    (hst : s'.scheduler.status = s.scheduler.status) : Inv (s', g) := by
  refine ⟨fun h => ?_, hi.range, fun hwait last hlast => ?_, fun hstop => ?_⟩
  · dsimp only
    rw [hpolicy]
    exact hi.keeps h
  · have harmed : Armed s last := hi.armed (hw.symm.trans hwait) last hlast
    unfold Armed
    rw [hst, hpolicy, ht]
    exact harmed
  · exact hi.quiet (hw.symm.trans hstop)

/-- Steps after which the worker has no timers to wait for. -/
theorem Inv.without (hi : Inv (s, g)) (hpolicy : s'.policy = s.policy) :
    Inv (s', { g with last := none }) where
  keeps h := by
    dsimp only
    rw [hpolicy]
    exact hi.keeps h
  range := hi.range
  armed _ last hlast := by cases hlast
  quiet _ := rfl

/-- Steps after which it is in a batch. -/
theorem Inv.inBatch (hi : Inv (s, g)) (hpolicy : s'.policy = s.policy)
    (hphase : LocalScheduler.phase s'.scheduler.worker ≠ .outside) : Inv (s', g) := by
  refine ⟨fun h => ?_, hi.range, fun hw => ?_, fun hw => ?_⟩
  · dsimp only
    rw [hpolicy]
    exact hi.keeps h
  all_goals
    dsimp only at hw
    rw [hw] at hphase
    exact absurd rfl hphase

theorem inv_reschedule {clock : Clock} {order : List XQueueHandle}
    (hr : (Hosted.life policy).Reachable s) (hi : Inv (s, g))
    (h : s.step (.reschedule clock order) = some s') :
    Inv (s', { g with last := some clock.now }) := by
  have hpolicy := (round_sched hr h).2.1
  have harmed := armed_round hr h
  obtain ⟨-, calls, -, hsched⟩ := Hosted.round h
  have hstarted : s'.scheduler.worker ≠ .stopped := by
    generalize s'.scheduler = scheduler at hsched
    cases LocalScheduler.works_cases rfl hsched with
    | @finished _ b _ => cases b <;> simp [LocalScheduler.finish]
    | rescheduled _ => simp
  refine ⟨fun h => ?_, hi.range, fun _ last hlast => ?_, fun hw => absurd hw hstarted⟩
  · dsimp only
    rw [hpolicy]
    exact hi.keeps h
  · obtain rfl : clock.now = last := Option.some.inj hlast
    exact harmed

/-- A hint comes from the worker, which is in a batch then. -/
theorem inv_recvHint {now : TimePoint} {clock : Clock} {hint : Hint} (hi : Inv (s, g))
    (hok : InRange (.recvHint now clock hint)) (h : s.step (.recvHint now clock hint) = some s') :
    Inv (s', Seen.record s (.recvHint now clock hint) s' g) := by
  simp only [Hosted.step] at h
  split at h
  · obtain ⟨scheduler, hu, rfl⟩ := Option.map_eq_some_iff.1 h
    have hphase := LocalScheduler.phase_reads (Or.inr hu)
    refine ⟨recorded_hint hi.keeps s, ?_, fun hw => ?_, fun hw => ?_⟩
    · cases hint with
      | laxity handle lax laxPrio critPrio =>
        intro h info hinfo
        simp only [Seen.record, Function.update_apply] at hinfo
        split at hinfo
        · cases hinfo
          exact ⟨(hok laxPrio (.head _)).1, (hok critPrio (.tail _ (.head _))).1⟩
        · exact hi.range h info hinfo
      | _ => exact hi.range
    all_goals
      dsimp only at hw
      rw [hw] at hphase
      exact absurd rfl hphase
  · cases h

theorem inv_own {act : SchedAct} (hi : Inv (s, g)) (h : s.step (.own act) = some s') :
    Inv (s', Seen.record s (.own act) s' g) := by
  obtain ⟨hpolicy, ⟨hu, hsched⟩ | ⟨rfl, he⟩⟩ := Hosted.own_cases h
  · cases hact : LocalScheduler.LoopLog.works act with
    | false =>
      obtain ⟨scheduler, policy'⟩ := s'
      obtain rfl : policy' = s.policy := hpolicy
      cases LocalScheduler.LoopLog.others_cases hact hu with
      | run hw =>
        have hnone : g.last = none := hi.quiet hw
        have hg : g = { g with last := none } := by rw [← hnone]
        simp only [Seen.record, LocalScheduler.LoopLog.clears]
        rw [hg]
        exact hi.without rfl
      | received hclears =>
        simp only [Seen.record, hclears]
        exact hi.same rfl rfl rfl rfl
      | same hclears =>
        simp only [Seen.record, hclears]
        exact hi
      | joined hw hclears =>
        simp only [Seen.record, hclears, if_true]
        exact hi.without rfl
    | true =>
      cases act with
      | wake now => exact hi.inBatch hpolicy (LocalScheduler.phase_reads (Or.inl hu))
      | update now => exact hi.inBatch hpolicy (LocalScheduler.phase_reads (Or.inr hu))
      | sched calls => exact absurd rfl (hsched calls)
      | _ => cases hact
  · have hclears : LocalScheduler.LoopLog.clears s.scheduler
        (.setPolicy s.scheduler.policyType) = false := by
      simp [LocalScheduler.LoopLog.clears]
    simp only [Seen.record, hclears]
    exact hi.same hpolicy (by rw [he]) (by rw [he]) (by rw [he])

theorem inv_step {act : HostedAct} (hr : (Hosted.life policy).Reachable s) (hi : Inv (s, g))
    (hok : InRange act) (h : s.step act = some s') : Inv (s', Seen.record s act s' g) := by
  cases act with
  | reschedule clock order => exact inv_reschedule hr hi h
  | recvHint now clock hint => exact inv_recvHint hi hok h
  | own act => exact inv_own hi h

theorem life_hinted {s : Hosted policy × Seen} (hr : hinted.Reachable s) :
    (Hosted.life policy).Reachable s.1 :=
  LTS.reachable_of_recorded hr.of_restrict

theorem inv_hinted {s : Hosted policy × Seen} (hr : hinted.Reachable s) : Inv s := by
  refine LTS.recorded_restrict_induction (I := fun s g => Inv (s, g)) ?_ ?_ hr
  · intro s h0
    have hinit : s.policy = policy.init := h0.fresh.policy
    refine ⟨fun h => ?_, (fun h info hinfo => by cases hinfo), (fun _ last hl => by cases hl),
      fun _ => rfl⟩
    dsimp only
    rw [hinit]
    rfl
  · exact fun s act s' g hr hi hok h => inv_step hr hi hok h

end

/-! ## The main result -/

/-- The ready XQueue has the highest priority of all that are ready. -/
def Highest (now : TimePoint) (g : Seen) (st : Status) (h : XQueueHandle) (q : XQueueStatus) :
    Prop :=
  ∀ h' q', st.xqueueStatus.lookup h' = some q' → q'.ready = true →
    effective (g.hints h') q'.readyTime now ≤ effective (g.hints h) q.readyTime now

/-- The first switch of a ready XQueue that lies ahead. -/
def NextSwitch (now : TimePoint) (g : Seen) (st : Status) (i : Int) : Prop :=
  (∃ h q, st.xqueueStatus.lookup h = some q ∧ q.ready = true ∧
    switchAt (g.hints h) q.readyTime = some i ∧ now < i) ∧
  ∀ h q, st.xqueueStatus.lookup h = some q → q.ready = true →
    ∀ j, switchAt (g.hints h) q.readyTime = some j → now < j → i ≤ j

/-- The clock has reached the ready times. -/
def Reached (now : TimePoint) (st : Status) : Prop :=
  ∀ h q, st.xqueueStatus.lookup h = some q → q.ready = true → q.readyTime ≤ now

/-- The ready times and the switches of the ready XQueues are time points. -/
def TimePoints (g : Seen) (st : Status) : Prop :=
  ∀ h q, st.xqueueStatus.lookup h = some q → q.ready = true →
    Representable (g.hints h) q.readyTime

section
variable {s s' : Hosted policy} {g : Seen} {clock : Clock} {order : List XQueueHandle}

/-- What a round decides over an XQueue. -/
theorem verdict_sched {now : TimePoint} {infos : State} {xs : List XQueueStatus}
    (hnd : (xs.map (·.handle)).Nodup) {q : XQueueStatus} (hq : q ∈ xs) :
    verdict q.handle (sched now infos xs) =
      some (decide (priority now infos q < (search now infos xs).highestPrio)) := by
  unfold sched
  dsimp only
  rw [verdict_timer, List.map_eq_flatMap, verdict_flatMap hnd _ hq]
  · by_cases hlt : priority now infos q < (search now infos xs).highestPrio
    · simp [hlt]
    · simp [hlt]
  · intro r _ h hne
    by_cases hlt : priority now infos r < (search now infos xs).highestPrio
    · simp [hlt, hne.symm]
    · simp [hlt, hne.symm]

theorem Inv.effective_ge (hi : Inv (s, g)) (h : XQueueHandle) (readyTime now : TimePoint) :
    PRIORITY_MIN ≤ effective (g.hints h) readyTime now := by
  unfold effective
  cases hinfo : g.hints h with
  | none => exact (by decide : PRIORITY_MIN ≤ PRIORITY_DEFAULT)
  | some info =>
    obtain ⟨hlax, hcrit⟩ := hi.range h info hinfo
    dsimp only
    repeat' split
    all_goals assumption

/-- A ready XQueue is left running by a round if its priority is the highest. -/
theorem runs_iff (hr : (Hosted.life policy).Reachable s) (hi : Inv (s, g))
    (h : s.step (.reschedule clock order) = some s') (hclock : Reached clock.now s.scheduler.status)
    (hrep : TimePoints g s.scheduler.status) {handle : XQueueHandle} {q' : XQueueStatus}
    (hq' : s'.scheduler.status.xqueueStatus.lookup handle = some q') (hready : q'.ready = true) :
    q'.suspended = false ↔ Highest clock.now g s'.scheduler.status handle q' := by
  obtain ⟨R, hpolicy, hperm⟩ := round_sched hr h
  have hfound := found_search clock.now s.policy (s.scheduler.status.inOrder order)
  have hprio : ∀ r ∈ s.scheduler.status.inOrder order, r.ready = true →
      priority clock.now s.policy r = effective (g.hints r.handle) r.readyTime clock.now :=
    fun r hr' hready' => priority_eq (hi.keeps r.handle) hready'
      (hclock r.handle r (R.mem.1 hr') hready') (hrep r.handle r (R.mem.1 hr') hready')
  obtain ⟨q, hq, rfl, rfl⟩ := R.entry hq'
  have hverdict : verdict q.handle (sched clock.now s.policy (s.scheduler.status.inOrder order)) =
      some (decide (priority clock.now s.policy q <
        (search clock.now s.policy (s.scheduler.status.inOrder order)).highestPrio)) :=
    verdict_sched R.nodup hq
  have hsuspended : (verdict q.handle (sched clock.now s.policy
      (s.scheduler.status.inOrder order))).getD q.suspended = false ↔
      (search clock.now s.policy (s.scheduler.status.inOrder order)).highestPrio ≤
        priority clock.now s.policy q := by
    rw [hverdict, Option.getD_some, decide_eq_false_iff_not, not_lt]
  refine hsuspended.trans ?_
  constructor
  · intro hle h'' q'' hq'' hready''
    obtain ⟨r, hr', rfl, rfl⟩ := R.entry hq''
    have habove := hfound.above r hr' hready''
    rw [hprio r hr' hready''] at habove
    rw [hprio q hq hready] at hle
    exact habove.trans hle
  · intro hhigh
    rw [hprio q hq hready]
    rcases hfound.least with hmin | ⟨r, hr', hready', he⟩
    · rw [hmin]
      exact hi.effective_ge _ _ _
    · have hlook := R.lookup hr'
      rw [← he, hprio r hr' hready']
      have hle := hhigh r.handle _ hlook hready'
      exact hle

/-- Where some XQueue is ready, one has the highest priority. -/
theorem exists_highest (now : TimePoint) (g : Seen) {st : Status} {handle : XQueueHandle}
    {q : XQueueStatus} (hq : st.xqueueStatus.lookup handle = some q) (hready : q.ready = true) :
    ∃ h r, st.xqueueStatus.lookup h = some r ∧ r.ready = true ∧ Highest now g st h r := by
  let xs := st.xqueueStatus.entries.filter fun e => e.2.ready
  have hmem : ∀ h r, (⟨h, r⟩ : Sigma fun _ : XQueueHandle => XQueueStatus) ∈ xs ↔
      st.xqueueStatus.lookup h = some r ∧ r.ready = true := fun h r => by
    rw [List.mem_filter]
    exact and_congr_left' AList.mem_lookup_iff.symm
  have hne : xs ≠ [] := List.ne_nil_of_mem ((hmem handle q).2 ⟨hq, hready⟩)
  obtain ⟨⟨h, r⟩, hr⟩ := Option.ne_none_iff_exists'.1
    (mt (List.argmax_eq_none (f := fun e => effective (g.hints e.1) e.2.readyTime now)).1 hne)
  obtain ⟨hlook, hready'⟩ := (hmem h r).1 (List.argmax_mem hr)
  exact ⟨h, r, hlook, hready', fun h' r' hlook' hr' =>
    List.le_of_mem_argmax ((hmem h' r').2 ⟨hlook', hr'⟩) hr⟩

/-- The first switch ahead has its timer. -/
theorem next_switch_armed (hr : (Hosted.life policy).Reachable s) (hi : Inv (s, g))
    (h : s.step (.reschedule clock order) = some s') (hclock : Reached clock.now s.scheduler.status)
    (hrep : TimePoints g s.scheduler.status) {i : Int}
    (hnext : NextSwitch clock.now g s'.scheduler.status i) (hmax : i < timePointMax) :
    i.toNat ∈ s'.scheduler.timers := by
  obtain ⟨R, hpolicy, hperm⟩ := round_sched hr h
  have hfound := found_search clock.now s.policy (s.scheduler.status.inOrder order)
  obtain ⟨⟨handle, q', hq', hready, hswitch, hahead⟩, hleast⟩ := hnext
  obtain ⟨q, hq, rfl, rfl⟩ := R.entry hq'
  have hle := hfound.first q hq hready i (laxityOf_of_switchAt (hi.keeps q.handle) hswitch hmax.le)
    hahead
  have hhas := hfound.has hle hmax
  obtain ⟨r, hr', hready', hearly, hlater⟩ := hfound.held hhas
  have hge : i ≤ (search clock.now s.policy (s.scheduler.status.inOrder order)).earliestLaxity := by
    have hreached := hclock r.handle r (R.mem.1 hr') hready'
    have hlook := R.lookup hr'
    have hrswitch := switchAt_of_laxityOf (hi.keeps r.handle) hreached
      (hrep r.handle r (R.mem.1 hr') hready') hearly hlater
    exact hleast r.handle _ hlook hready' _ hrswitch hlater
  rw [le_antisymm hge hle]
  exact mem_timers hperm hhas

end

/-- XQueue 7 is ready from 0 on; then a hint gives it a laxity. -/
def laxityActs (lax : Laxity) : List HostedAct :=
  [.own .run, .own (.recvEvent (.xQueueReady 1 7 0)), .own (.recvEvent (.hint 1)), .own (.wake 0),
    .own (.update 0), .reschedule ⟨0, fun _ => 0⟩ [7],
    .recvHint 0 ⟨0, fun _ => 0⟩ (.laxity 7 lax 1 2)]

def laxityRun (acts : List HostedAct) : Option (Hosted policy × Seen) :=
  LTS.exec (LTS.guarded (fun _ act => InRange act) (LTS.recording Hosted.step Seen.record))
    (⟨.init .kPolicyLaxity, policy.init⟩, .start) acts

theorem reachable_laxityRun {acts : List HostedAct} {s : Hosted policy × Seen}
    (h : laxityRun acts = some s) : hinted.Reachable s :=
  LTS.reachable_restrict_of_exec ⟨.construct _, rfl⟩ h

/-- XQueue 7, and others of these handles, all of them ready from 0 on. -/
def ReadyAtZero (handles : List XQueueHandle) (st : Status) : Prop :=
  (st.xqueueStatus.lookup 7).isSome ∧
    ∀ e ∈ st.xqueueStatus.entries, e.1 ∈ handles ∧ e.2.ready = true ∧ e.2.readyTime = 0

instance (handles : List XQueueHandle) (st : Status) : Decidable (ReadyAtZero handles st) :=
  inferInstanceAs (Decidable (_ ∧ _))

theorem ReadyAtZero.entry {handles : List XQueueHandle} {st : Status}
    (hs : ReadyAtZero handles st) {h : XQueueHandle} {q : XQueueStatus}
    (hq : st.xqueueStatus.lookup h = some q) :
    h ∈ handles ∧ q.ready = true ∧ q.readyTime = 0 :=
  hs.2 ⟨h, q⟩ (AList.mem_lookup_iff.1 hq)

/-- XQueue 7 is ready from 0 on and has a hint; XQueue 8, ready too, has none. -/
def overflowActs (lax : Laxity) : List HostedAct :=
  [.own .run, .own (.recvEvent (.xQueueReady 1 7 0)), .own (.recvEvent (.xQueueReady 1 8 0)),
    .own (.recvEvent (.hint 1)), .own (.wake 0), .own (.update 0),
    .reschedule ⟨0, fun _ => 0⟩ [7], .own (.update 0), .reschedule ⟨0, fun _ => 0⟩ [7, 8],
    .recvHint 0 ⟨0, fun _ => 0⟩ (.laxity 7 lax (-1) 1)]

end LaxityPolicy
end Xsched.Sched
