import Mathlib.Tactic.Ring
import Xsched.Sched.FairRounds

/-!
# What an XQueue is charged

The virtual runtime of an XQueue is what it began with and a charge for each
round that finds it running. Every run of the policy is recorded here in a
`Ledger` that no step reads: the value with which a node is made, and the
periods in which `is_running` is set, from the flags alone. A period begins
with a round that sets the flag; every later round of the period is one of its
marks, with the weight at that time; the round that takes the flag off is the
last one.

**Result.** `accounts_exact`: in every run in which no handle comes back after
its XQueue was destroyed, the virtual runtime of every XQueue is at every round
its initial value and, for all its periods, the time between each two
consecutive rounds of the period, each once, scaled by the weight at the later
one. `duration_cast` takes the whole microseconds of each of these times, and
what is left of the last microsecond is nobody's: two rounds 1.5 microseconds
apart count 1, and so a period of 3 microseconds may count 2
(`two_of_three_charged`).
-/
namespace Xsched.Sched
namespace CompletelyFairSchedulerPolicy

/-! ## Periods -/

/-- A period of `is_running`: the round that it begins with, and the later
rounds of it with the weights then, in order. -/
structure Period where
  start : TimePoint
  marks : List (TimePoint × ℚ)
  deriving DecidableEq

/-- The whole microseconds from each round to the next, by the weight at the next. -/
def spans : TimePoint → List (TimePoint × ℚ) → ℚ
  | _, [] => 0
  | t, (u, weight) :: marks => sinceUs u t * (1024 / weight) + spans u marks

/-- The last round so far. -/
def lastMark : TimePoint → List (TimePoint × ℚ) → TimePoint
  | t, [] => t
  | _, (u, _) :: marks => lastMark u marks

namespace Period

def charge (p : Period) : ℚ := spans p.start p.marks

def last (p : Period) : TimePoint := lastMark p.start p.marks

/-- One more round. -/
def extend (p : Period) (now : TimePoint) (weight : ℚ) : Period :=
  { p with marks := p.marks ++ [(now, weight)] }

end Period

theorem spans_snoc (t u : TimePoint) (weight : ℚ) (marks : List (TimePoint × ℚ)) :
    spans t (marks ++ [(u, weight)]) =
      spans t marks + sinceUs u (lastMark t marks) * (1024 / weight) := by
  induction marks generalizing t with
  | nil => simp [spans, lastMark]
  | cons m marks ih =>
    simp only [List.cons_append, spans, lastMark, ih]
    rw [add_assoc]

theorem lastMark_snoc (t u : TimePoint) (weight : ℚ) (marks : List (TimePoint × ℚ)) :
    lastMark t (marks ++ [(u, weight)]) = u := by
  induction marks generalizing t with
  | nil => rfl
  | cons m marks ih => exact ih m.1

@[simp] theorem Period.charge_extend (p : Period) (now : TimePoint) (weight : ℚ) :
    (p.extend now weight).charge = p.charge + sinceUs now p.last * (1024 / weight) :=
  spans_snoc p.start now weight p.marks

@[simp] theorem Period.last_extend (p : Period) (now : TimePoint) (weight : ℚ) :
    (p.extend now weight).last = now :=
  lastMark_snoc p.start now weight p.marks

@[simp] theorem Period.charge_start (now : TimePoint) : (⟨now, []⟩ : Period).charge = 0 := rfl

@[simp] theorem Period.last_start (now : TimePoint) : (⟨now, []⟩ : Period).last = now := rfl

/-! ## The record of a run -/

/-- `used`: the handle has been one of an XQueue. The newest period is the first. -/
structure Ledger where
  used : XQueueHandle → Bool
  initial : XQueueHandle → Option ℚ
  periods : XQueueHandle → List Period

/-- What a round adds to the periods of an XQueue, with the flag before and after it. -/
def markPeriods (now : TimePoint) (before after : Bool) (weight : ℚ) (ps : List Period) :
    List Period :=
  let ps :=
    match ps with
    | p :: ps => if before then p.extend now weight :: ps else p :: ps
    | [] => []
  if after && !before then ⟨now, []⟩ :: ps else ps

def Ledger.start (s : Hosted policy) : Ledger where
  used h := (s.scheduler.status.xqueueStatus.lookup h).isSome
  initial h := (s.policy h).map (·.vruntime)
  periods _ := []

def Ledger.record (s : Hosted policy) (act : HostedAct) (s' : Hosted policy) (g : Ledger) :
    Ledger where
  used h := g.used h || (s'.scheduler.status.xqueueStatus.lookup h).isSome
  initial h := (g.initial h).or ((s'.policy h).map (·.vruntime))
  periods h :=
    match act with
    | .reschedule clock _ =>
      markPeriods clock.now (node s.policy h).isRunning (node s'.policy h).isRunning
        (node s.policy h).weight (g.periods h)
    | _ => g.periods h

/-- An XQueue that a step creates has a handle that none had before. -/
def NewHandles (s : Hosted policy × Ledger) (act : HostedAct) : Prop :=
  ((s.1.step act).all fun s' => s'.scheduler.status.xqueueStatus.keys.all fun h =>
    h ∈ s.1.scheduler.status.xqueueStatus.keys ∨ s.2.used h = false) = true

instance (s : Hosted policy × Ledger) (act : HostedAct) : Decidable (NewHandles s act) :=
  inferInstanceAs (Decidable (_ = true))

/-- The runs of the policy with their ledger, in which no handle is reused. -/
def accounts : LTS (Hosted policy × Ledger) HostedAct :=
  (LTS.recorded (Hosted.Begins policy) Hosted.step Ledger.start Ledger.record).restrict NewHandles

/-- The books of an XQueue: its virtual runtime, and when the charge of the
running period was brought up to date. -/
structure Balanced (n : CFSNode) (initial : Option ℚ) (ps : List Period) : Prop where
  total : ∃ v, initial = some v ∧ n.vruntime = v + (ps.map Period.charge).sum
  open_period : n.isRunning = true → ∃ p rest, ps = p :: rest ∧ p.last = n.lastResumeTime

/-- A round with the node `n` before it, `n'` after it, brings the books up to date. -/
theorem Balanced.round {now : TimePoint} {n n' : CFSNode} {initial : Option ℚ} {ps : List Period}
    (hb : Balanced n initial ps) (hv : n'.vruntime = (charged now n).vruntime)
    (hrun : n'.isRunning = true → n'.lastResumeTime = now) :
    Balanced n' initial (markPeriods now n.isRunning n'.isRunning n.weight ps) := by
  obtain ⟨v, hinit, htotal⟩ := hb.total
  cases hbefore : n.isRunning with
  | true =>
    obtain ⟨p, rest, rfl, hlast⟩ := hb.open_period hbefore
    have hmark : markPeriods now true n'.isRunning n.weight (p :: rest) =
        p.extend now n.weight :: rest := by
      simp [markPeriods]
    rw [hmark]
    refine ⟨⟨v, hinit, ?_⟩, fun hafter => ⟨_, rest, rfl, ?_⟩⟩
    · rw [hv, charged, if_pos hbefore]
      simp only [htotal, List.map_cons, List.sum_cons, Period.charge_extend, hlast]
      ring
    · rw [Period.last_extend, hrun hafter]
  | false =>
    have hsame : (charged now n).vruntime = n.vruntime := by simp [charged, hbefore]
    cases hafter : n'.isRunning with
    | true =>
      have hmark : markPeriods now false true n.weight ps = ⟨now, []⟩ :: ps := by
        cases ps <;> simp [markPeriods]
      rw [hmark]
      refine ⟨⟨v, hinit, ?_⟩, fun _ => ⟨_, ps, rfl, ?_⟩⟩
      · rw [hv, hsame, htotal]
        simp
      · rw [Period.last_start, hrun hafter]
    | false =>
      have hmark : markPeriods now false false n.weight ps = ps := by
        cases ps <;> simp [markPeriods]
      rw [hmark]
      refine ⟨⟨v, hinit, by rw [hv, hsame, htotal]⟩, fun h => ?_⟩
      rw [hafter] at h
      cases h

/-! ## Every run keeps the books -/

/-- `h` is a handle of an XQueue. -/
def Live (s : Hosted policy) (h : XQueueHandle) : Prop :=
  (s.scheduler.status.xqueueStatus.lookup h).isSome = true

/-- The books are balanced but for XQueues that are gone. -/
structure Ledger.Inv (s : Hosted policy × Ledger) : Prop where
  live : ∀ h, Live s.1 h → s.2.used h = true
  flagged : ∀ h, Flagged s.1.policy h → s.2.used h = true
  blank : ∀ h, s.1.policy h = none → s.2.initial h = none ∧ s.2.periods h = []
  books : ∀ h n, s.1.policy h = some n → Live s.1 h ∨ s.2.used h = false →
    Balanced n (s.2.initial h) (s.2.periods h)

theorem inv_start (s : Hosted policy) (h : Hosted.Begins policy s) : Ledger.Inv (s, .start s) := by
  have hblank : ∀ h, s.policy h = none := by
    intro h'
    rw [show s.policy = policy.init from h.fresh.policy]
  refine ⟨fun h hl => hl, ?_, fun h _ => ⟨by simp [Ledger.start, hblank h], rfl⟩, ?_⟩
  · rintro h ⟨n, hn, -⟩
    rw [hblank h] at hn
    cases hn
  · intro h n hn
    rw [hblank h] at hn
    cases hn

section
variable {s : Hosted policy × Ledger} {s' : Hosted policy} {act : HostedAct}

theorem newHandles {h : XQueueHandle} (hok : NewHandles s act) (hstep : s.1.step act = some s')
    (hl : Live s' h) : Live s.1 h ∨ s.2.used h = false := by
  simp only [NewHandles, hstep, Option.all_some, List.all_eq_true, decide_eq_true_eq] at hok
  rcases hok h (AList.lookup_isSome.1 hl) with hm | hu
  · exact Or.inl (AList.lookup_isSome.2 hm)
  · exact Or.inr hu

/-- Nothing is brought back by a step: an XQueue that is not gone was not gone before. -/
theorem not_gone {h : XQueueHandle} (hok : NewHandles s act) (hstep : s.1.step act = some s')
    (hl : Live s' h ∨ (s.2.record s.1 act s').used h = false) :
    Live s.1 h ∨ s.2.used h = false := by
  rcases hl with hl | hu
  · exact newHandles hok hstep hl
  · simp only [Ledger.record, Bool.or_eq_false_iff] at hu
    exact Or.inr hu.1

theorem inv_other {scheduler : LocalScheduler} (hi : Ledger.Inv s) (hok : NewHandles s act)
    (hstep : s.1.step act = some ⟨scheduler, s.1.policy⟩)
    (hact : ∀ clock order, act ≠ .reschedule clock order) :
    Ledger.Inv (⟨scheduler, s.1.policy⟩, s.2.record s.1 act ⟨scheduler, s.1.policy⟩) := by
  have hperiods : ∀ h, (s.2.record s.1 act ⟨scheduler, s.1.policy⟩).periods h = s.2.periods h := by
    intro h
    cases act with
    | reschedule clock order => exact absurd rfl (hact clock order)
    | _ => rfl
  refine ⟨fun h hl => ?_, fun h hf => ?_, fun h hn => ?_, fun h n hn hl => ?_⟩
  · simp only [Ledger.record, Bool.or_eq_true]
    exact Or.inr hl
  · simp only [Ledger.record, Bool.or_eq_true]
    exact Or.inl (hi.flagged h hf)
  · refine ⟨?_, (hperiods h).trans (hi.blank h hn).2⟩
    simp only [Ledger.record, (hi.blank h hn).1, Option.none_or]
    simp only at hn
    rw [hn]
    rfl
  · have hb := hi.books h n hn (not_gone hok hstep hl)
    obtain ⟨v, hv, -⟩ := hb.total
    rw [hperiods]
    simpa only [Ledger.record, hv, Option.some_or] using hb

theorem inv_recvHint {now : TimePoint} {clock : Clock} {hint : Hint} {scheduler : LocalScheduler}
    (hi : Ledger.Inv s) (hok : NewHandles s (.recvHint now clock hint))
    (hstep : s.1.step (.recvHint now clock hint) = some ⟨scheduler, recvHint s.1.policy hint⟩) :
    Ledger.Inv (⟨scheduler, recvHint s.1.policy hint⟩,
      s.2.record s.1 (.recvHint now clock hint) ⟨scheduler, recvHint s.1.policy hint⟩) := by
  refine ⟨fun h hl => ?_, fun h hf => ?_, fun h hn => ?_, fun h n' hn' hl => ?_⟩
  · simp only [Ledger.record, Bool.or_eq_true]
    exact Or.inr hl
  · simp only [Ledger.record, Bool.or_eq_true]
    exact Or.inl (hi.flagged h (runningFlag.hint clock hint s.1.policy h hf))
  · have hblank := hi.blank h (recvHint_none hn)
    refine ⟨?_, hblank.2⟩
    simp only at hn
    simp [Ledger.record, hblank.1, hn]
  · rcases recvHint_cases hn' with ⟨n, hn, hv, hrun, hlast⟩ | ⟨hn, hv, hrun⟩
    · obtain ⟨⟨v, hinit, htotal⟩, hopen⟩ := hi.books h n hn (not_gone hok hstep hl)
      refine ⟨⟨v, by simp [Ledger.record, hinit], hv.trans htotal⟩, fun h' => ?_⟩
      rw [hlast]
      exact hopen (hrun ▸ h')
    · obtain ⟨hinit, hperiods⟩ := hi.blank h hn
      simp only at hn'
      refine ⟨⟨0, by simp [Ledger.record, hinit, hn', hv], ?_⟩, fun h' => ?_⟩
      · simp [Ledger.record, hperiods, hv]
      · rw [hrun] at h'
        cases h'

/-- A round meets the XQueues there are and leaves the nodes of the others alone. -/
theorem round_met {clock : Clock} {order : List XQueueHandle} {calls : List Callback}
    (R : PolicyRun.Round clock order s.1.run calls s'.run) (h : XQueueHandle) :
    (∃ q ∈ s.1.run.status.inOrder order, q.handle = h ∧ Live s.1 h) ∨
      s'.policy h = s.1.policy h ∧ ¬ Live s.1 h := by
  by_cases hl : Live s.1 h
  · obtain ⟨q, hq⟩ := Option.isSome_iff_exists.1 hl
    have hh : q.handle = h := R.keyed h q hq
    exact Or.inl ⟨q, R.mem.2 (by rw [hh]; exact hq), hh, hl⟩
  · refine Or.inr ⟨sched_other R.nodup (round_sched R) fun hm => ?_, hl⟩
    obtain ⟨q, hq, rfl⟩ := List.mem_map.1 hm
    exact hl (Option.isSome_iff_exists.2 ⟨q, R.mem.1 hq⟩)

theorem Ledger.Inv.met {clock : Clock} {order : List XQueueHandle} {calls : List Callback}
    (hi : Ledger.Inv s) (R : PolicyRun.Round clock order s.1.run calls s'.run) {q : XQueueStatus}
    (hq : q ∈ s.1.run.status.inOrder order) (hlive : Live s.1 q.handle) {n' : CFSNode}
    (hn' : s'.policy q.handle = some n') :
    Balanced n' ((s.2.record s.1 (.reschedule clock order) s').initial q.handle)
      ((s.2.record s.1 (.reschedule clock order) s').periods q.handle) := by
  have hv : n'.vruntime =
      (selected clock.now s.1.policy (s.1.run.status.inOrder order) q).vruntime := by
    rw [← show vruntime s'.policy q.handle = n'.vruntime by simp [vruntime, node, hn']]
    exact vruntime_after R hq
  have hlast := lastResumeTime_after R hq hn'
  cases hn : s.1.policy q.handle with
  | some n =>
    have hb := hi.books q.handle n hn (Or.inl hlive)
    obtain ⟨v, hinit, -⟩ := hb.total
    rw [selected_some hn] at hv
    simpa [Ledger.record, node, hn, hn', hinit] using hb.round hv hlast
  | none =>
    -- A node that the round makes begins its books with no period.
    obtain ⟨hinit, hperiods⟩ := hi.blank q.handle hn
    have hb : Balanced { CFSNode.new with vruntime := n'.vruntime } (some n'.vruntime) [] :=
      ⟨⟨n'.vruntime, rfl, by simp⟩, fun h => by cases h⟩
    have hround : Balanced n' (some n'.vruntime) (markPeriods clock.now
        CFSNode.new.isRunning n'.isRunning CFSNode.new.weight []) := hb.round rfl hlast
    simpa [Ledger.record, node, hn, hn', hinit, hperiods] using hround

theorem Ledger.Inv.unmet (clock : Clock) (order : List XQueueHandle) (hi : Ledger.Inv s)
    {h : XQueueHandle} {n : CFSNode} (hn : s.1.policy h = some n) (hn' : s'.policy h = some n)
    (hu : s.2.used h = false) :
    Balanced n ((s.2.record s.1 (.reschedule clock order) s').initial h)
      ((s.2.record s.1 (.reschedule clock order) s').periods h) := by
  have hrun : n.isRunning = false := by
    by_contra hrun
    rw [hi.flagged h ⟨n, hn, by simpa using hrun⟩] at hu
    cases hu
  have hb := hi.books h n hn (Or.inr hu)
  obtain ⟨v, hinit, -⟩ := hb.total
  have hperiods : (s.2.record s.1 (.reschedule clock order) s').periods h = s.2.periods h := by
    simp only [Ledger.record, node, hn, hn', Option.getD_some, hrun, markPeriods]
    cases s.2.periods h <;> rfl
  rw [hperiods]
  simpa [Ledger.record, hinit] using hb

theorem inv_round {clock : Clock} {order : List XQueueHandle}
    (hr : (Hosted.life policy).Reachable s.1) (hi : Ledger.Inv s)
    (hok : NewHandles s (.reschedule clock order))
    (hstep : s.1.step (.reschedule clock order) = some s') :
    Ledger.Inv (s', s.2.record s.1 (.reschedule clock order) s') := by
  obtain ⟨calls, R⟩ := Hosted.round_life hr hstep
  refine ⟨fun h hl => ?_, fun h hf => ?_, fun h hn => ?_, fun h n' hn' hl => ?_⟩
  · simp only [Ledger.record, Bool.or_eq_true]
    exact Or.inr hl
  · simp only [Ledger.record, Bool.or_eq_true]
    rcases round_met R h with ⟨q, -, -, hlive⟩ | ⟨hsame, -⟩
    · exact Or.inl (hi.live h hlive)
    · obtain ⟨n, hn, hrun⟩ := hf
      exact Or.inl (hi.flagged h ⟨n, hsame ▸ hn, hrun⟩)
  · rcases round_met R h with ⟨q, hq, rfl, -⟩ | ⟨hsame, -⟩
    · rw [show s'.policy = s'.run.policy from rfl, (sched_turn R.nodup (round_sched R) hq).1] at hn
      cases hn
    · have hn₀ : s.1.policy h = none := hsame ▸ hn
      obtain ⟨hinit, hperiods⟩ := hi.blank h hn₀
      simp only at hn
      refine ⟨by simp [Ledger.record, hinit, hn], ?_⟩
      simp [Ledger.record, hperiods, hn, hn₀, markPeriods, node, CFSNode.new]
  · rcases round_met R h with ⟨q, hq, rfl, hlive⟩ | ⟨hsame, hlive⟩
    · exact hi.met R hq hlive hn'
    · have hu : s.2.used h = false := (not_gone hok hstep hl).resolve_left hlive
      exact hi.unmet clock order (hsame ▸ hn') hn' hu

end

theorem life_of_accounts {s : Hosted policy × Ledger} (hr : accounts.Reachable s) :
    (Hosted.life policy).Reachable s.1 :=
  LTS.reachable_of_recorded hr.of_restrict

theorem inv_accounts {s : Hosted policy × Ledger} (hr : accounts.Reachable s) : Ledger.Inv s := by
  refine LTS.recorded_restrict_induction (I := fun s g => Ledger.Inv (s, g)) inv_start ?_ hr
  intro s act s' g hr hi hok hstep
  cases Hosted.policy_cases hstep with
  | round h => exact inv_round (s := (s, g)) hr hi hok hstep
  | recvHint hst => exact inv_recvHint hi hok hstep
  | other hact => exact inv_other hi hok hstep hact

/-- **The selection and the books of every run.** After every round one XQueue
runs on each device with a ready one, with the least virtual runtime; and the
virtual runtime of every XQueue is its initial value and, for all its periods,
the whole microseconds between each two consecutive rounds of the period, by
the weight at the later one. -/
theorem accounts_exact {s s' : Hosted policy × Ledger} {clock : Clock} {order : List XQueueHandle}
    (hr : accounts.Reachable s) (hstep : accounts.step s (.reschedule clock order) s') :
    OneRuns s'.1.policy s'.1.scheduler.status ∧
      ∀ h, Live s'.1 h → ∃ v, s'.2.initial h = some v ∧
        vruntime s'.1.policy h - v = ((s'.2.periods h).map Period.charge).sum := by
  have hhosted : s.1.step (.reschedule clock order) = some s'.1 :=
    (LTS.recording_eq_some.1 hstep.1).1
  have hlife := life_of_accounts hr
  refine ⟨one_runs hlife hhosted, fun h hl => ?_⟩
  obtain ⟨calls, R⟩ := Hosted.round_life hlife hhosted
  obtain ⟨q', hq'⟩ := Option.isSome_iff_exists.1 hl
  obtain ⟨q, hq, rfl, -⟩ := R.entry hq'
  have hnode := (sched_turn R.nodup (round_sched R) hq).1
  obtain ⟨v, hinit, htotal⟩ :=
    ((inv_accounts (hr.step hstep)).books q.handle _ hnode (Or.inl hl)).total
  refine ⟨v, hinit, ?_⟩
  rw [vruntime, node, show s'.1.policy = s'.1.run.policy from rfl, hnode, Option.getD_some, htotal]
  ring

/-- XQueue 7 becomes ready in a round at 0; an event calls for another round at 1.5 microseconds. -/
def remainderActs : List HostedAct :=
  [.own .run, .own (.recvEvent (.xQueueCreate 1 7 1 2 0 0)),
    .own (.recvEvent (.xQueueReady 1 7 0)), .own (.wake 0), .own (.update 0), .own (.update 0),
    .reschedule ⟨0, fun _ => 0⟩ [7], .reschedule ⟨1500, fun _ => 0⟩ [7],
    .own (.recvEvent (.xQueueCreate 1 8 2 2 0 0)), .own (.wake 1500), .own (.update 1500)]

def remainderClock : Clock := ⟨3000, fun _ => 0⟩

theorem remainder_round : ∃ s s' : Hosted policy × Ledger, accounts.Reachable s ∧
    accounts.step s (.reschedule remainderClock [7, 8]) s' ∧ Live s'.1 7 ∧
    s'.2.initial 7 = some 0 ∧ s'.2.periods 7 = [⟨0, [(1500, 1024), (3000, 1024)]⟩] ∧
    vruntime s'.1.policy 7 = 2 := by
  have htrace : (LTS.exec (LTS.guarded NewHandles (LTS.recording Hosted.step Ledger.record))
      (⟨.init .kPolicyCompletelyFairScheduler, policy.init⟩,
        Ledger.start ⟨.init .kPolicyCompletelyFairScheduler, policy.init⟩) remainderActs).bind
      (fun s => (LTS.guarded NewHandles (LTS.recording Hosted.step Ledger.record) s
        (.reschedule remainderClock [7, 8])).map fun s' =>
          ((s'.1.scheduler.status.xqueueStatus.lookup 7).isSome, s'.2.initial 7, s'.2.periods 7,
            vruntime s'.1.policy 7)) =
      some (true, some 0, [⟨0, [(1500, 1024), (3000, 1024)]⟩], 2) := by
    decide +kernel
  obtain ⟨s, hs, htrace⟩ := Option.bind_eq_some_iff.1 htrace
  obtain ⟨s', hs', he⟩ := Option.map_eq_some_iff.1 htrace
  simp only [Prod.mk.injEq] at he
  obtain ⟨hl, hinit, hperiods, hv⟩ := he
  refine ⟨s, s', LTS.reachable_restrict_of_exec ⟨Hosted.Begins.construct _, rfl⟩ hs, ?_, hl, hinit,
    hperiods, hv⟩
  simp only [LTS.guarded] at hs'
  split at hs'
  · rename_i hok; exact ⟨hs', hok⟩
  · cases hs'

/-- XQueue 7 runs for 3 microseconds and is charged 2. -/
theorem two_of_three_charged : ∃ s s' : Hosted policy × Ledger, accounts.Reachable s ∧
    accounts.step s (.reschedule remainderClock [7, 8]) s' ∧ s'.2.initial 7 = some 0 ∧
    s'.2.periods 7 = [⟨0, [(1500, 1024), (3000, 1024)]⟩] ∧
    vruntime s'.1.policy 7 - 0 ≠ sinceUs 3000 0 * (1024 / 1024) := by
  obtain ⟨s, s', hr, hstep, -, hinit, hperiods, hv⟩ := remainder_round
  refine ⟨s, s', hr, hstep, hinit, hperiods, ?_⟩
  rw [hv]
  decide +kernel

theorem accounts_exact_remainder : ∃ s s' : Hosted policy × Ledger, accounts.Reachable s ∧
    accounts.step s (.reschedule remainderClock [7, 8]) s' ∧
    OneRuns s'.1.policy s'.1.scheduler.status ∧
    ∃ v, s'.2.initial 7 = some v ∧
      vruntime s'.1.policy 7 - v = ((s'.2.periods 7).map Period.charge).sum := by
  obtain ⟨s, s', hr, hstep, hl, -⟩ := remainder_round
  obtain ⟨hone, hbooks⟩ := accounts_exact hr hstep
  exact ⟨s, s', hr, hstep, hone, hbooks 7 hl⟩

end CompletelyFairSchedulerPolicy
end Xsched.Sched
