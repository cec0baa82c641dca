import Mathlib
import Xsched.Sched.ProcessPartition

/-!
# What a process saves of its time

A process that is not ready when its turn comes is moved to the end of the
queue with its budget and the one it gets for the turn, and a process that goes
idle in its slice keeps the rest of it. So that no process saves up without
end, what is above the new budget decays by a tenth before the new one is
added.

The new budget is not the same in each turn: it depends on the number of
processes and on the utilizations, which hints change at any time. If it is at
most `M` in every turn, then no budget and no slice is above `11 * M`, which is
what a process ends up with that always gets `M`.

**The turns of a round.** `GetBudgetUs` is called once for each front that the
loop of `Sched` meets; `turns` are these fronts, each with the queue at that
time.

**Result.** `budgets_bounded`.
-/
namespace Xsched.Sched
namespace ProcessUtilizationPartitionPolicy

/-! ## The turns of a round -/

/-- The fronts that the loop meets, up to the first ready one.
mirrors sched/src/policy/pup.cpp:72-92 -/
def turns (s : State) : Nat → List RunEntry → List (State × RunEntry)
  | _, [] => []
  | 0, e :: queue => [({ s with runQueue := e :: queue }, e)]
  | fuel + 1, e :: queue =>
    ({ s with runQueue := e :: queue }, e) ::
      if e.ready then [] else turns s fuel (queue ++ [pass s (e :: queue) e])

/-- The turns of a `Sched`; none if it returns early.
mirrors sched/src/policy/pup.cpp:7-96 -/
def schedTurns (clock : Clock) (status : Status) (processes : List PID) (s : State) :
    List (State × RunEntry) :=
  match enqueue status processes s with
  | none => []
  | some (s, anyReady) =>
    match s.runQueue with
    | [] => []
    | front :: _ =>
      if !anyReady then []
      else if front.running ∧ s.timesliceEnd > clock.now ∧ front.ready then []
      else
        let s := expire clock.now s
        turns s s.runQueue.length s.runQueue

/-- The clock has been at `last`: it does not go back, and no process gets more
than `M` in this step. -/
def Timely {o : ProcessOrder} (M : Nat) (s : Hosted (policy o) × TimePoint) : HostedAct → Prop
  | .reschedule clock _ =>
    s.2 ≤ clock.now ∧
      ∀ t ∈ schedTurns clock s.1.scheduler.status
          (o.order s.1.policy.rounds s.1.scheduler.status) s.1.policy,
        0 ≤ getBudgetUs t.1 t.2.pid ∧ getBudgetUs t.1 t.2.pid ≤ M
  | _ => True

instance {o : ProcessOrder} (M : Nat) (s : Hosted (policy o) × TimePoint) (act : HostedAct) :
    Decidable (Timely M s act) :=
  match act with
  | .reschedule _ _ => inferInstanceAs (Decidable (_ ∧ _))
  | .own _ => inferInstanceAs (Decidable True)
  | .recvHint _ _ _ => inferInstanceAs (Decidable True)

/-- The last reading of the clock by the policy. -/
def reading {o : ProcessOrder} (_ : Hosted (policy o)) (act : HostedAct) (_ : Hosted (policy o))
    (last : TimePoint) : TimePoint :=
  match act with
  | .reschedule clock _ => clock.now
  | _ => last

/-- The runs with a clock that does not go back and at most `M` in each turn. -/
def budgeted (o : ProcessOrder) (M : Nat) : LTS (Hosted (policy o) × TimePoint) HostedAct :=
  (LTS.recorded (Hosted.Begins (policy o)) Hosted.step (fun _ => 0) reading).restrict (Timely M)

/-! ## One turn -/

/-- Between nothing and eleven times what one turn gives. -/
def InBounds (M : Nat) (us : Int) : Prop := 0 ≤ us ∧ us ≤ 11 * M

theorem tdiv_num_den {q : ℚ} (h : 0 ≤ q) : q.num.tdiv q.den = ⌊q⌋ := by
  rw [Int.tdiv_eq_ediv_of_nonneg (Rat.num_nonneg.2 h), Rat.floor_def']

/-- The bound is the fixed point of one turn: a tenth of what is above the new
budget goes, and the new budget comes. -/
theorem grant_inBounds {M : Nat} {s : State} {e : RunEntry} (hb : InBounds M e.budgetUs)
    (hnew : 0 ≤ getBudgetUs s e.pid ∧ getBudgetUs s e.pid ≤ M) : InBounds M (grant s e) := by
  obtain ⟨hb0, hb⟩ := hb
  obtain ⟨hn0, hn⟩ := hnew
  unfold grant
  generalize getBudgetUs s e.pid = n at hn0 hn ⊢
  generalize e.budgetUs = b at hb0 hb ⊢
  dsimp only
  split
  · rename_i hgt
    have hgt' : (n : ℚ) < b := by exact_mod_cast hgt
    have hn0' : (0 : ℚ) ≤ n := by exact_mod_cast hn0
    have hn' : (n : ℚ) ≤ M := by exact_mod_cast hn
    have hb' : (b : ℚ) ≤ 11 * M := by exact_mod_cast hb
    have hdecayed : (0 : ℚ) ≤ n + (b - n) * (9 / 10) := by linarith
    rw [tdiv_num_den hdecayed]
    have hfloor : ((⌊(n : ℚ) + (b - n) * (9 / 10)⌋ : ℤ) : ℚ) ≤ n + (b - n) * (9 / 10) :=
      Int.floor_le _
    have hsum : ((⌊(n : ℚ) + (b - n) * (9 / 10)⌋ + n : ℤ) : ℚ) ≤ ((11 * M : ℤ) : ℚ) := by
      push_cast
      linarith
    refine ⟨?_, by exact_mod_cast hsum⟩
    have := Int.floor_nonneg.2 hdecayed
    omega
  · exact ⟨by omega, by omega⟩

/-! ## One round -/

section
variable {M : Nat} {s : State} {queue : List RunEntry}

/-- The loop ends in the last of its turns. -/
theorem turns_getLast (s : State) (fuel : Nat) {queue' : List RunEntry} {front : RunEntry}
    (h : rotateTo (·.ready) (pass s) fuel queue = some queue') (hf : queue'.head? = some front) :
    (turns s fuel queue).getLast? = some ({ s with runQueue := queue' }, front) := by
  induction fuel generalizing queue with
  | zero =>
    cases queue with
    | nil => cases h
    | cons e queue =>
      simp only [rotateTo] at h
      split at h <;> cases h
      cases hf
      rfl
  | succ fuel ih =>
    cases queue with
    | nil => cases h
    | cons e queue =>
      by_cases hready : e.ready = true
      · simp only [turns, rotateTo, if_pos hready] at h ⊢
        cases h
        cases hf
        rfl
      · simp only [turns, rotateTo, if_neg hready] at h ⊢
        rw [List.getLast?_cons, ih h]
        rfl

/-- What the loop leaves, if every turn gives at most `M`. -/
theorem turns_inBounds (s : State) (fuel : Nat) (hq : ∀ e ∈ queue, InBounds M e.budgetUs)
    (hnew : ∀ t ∈ turns s fuel queue,
      0 ≤ getBudgetUs t.1 t.2.pid ∧ getBudgetUs t.1 t.2.pid ≤ M) :
    (∀ t ∈ turns s fuel queue, InBounds M t.2.budgetUs ∧ InBounds M (grant t.1 t.2)) ∧
    ∀ queue', rotateTo (·.ready) (pass s) fuel queue = some queue' →
      ∀ e ∈ queue', InBounds M e.budgetUs := by
  induction fuel generalizing queue with
  | zero =>
    cases queue with
    | nil => exact ⟨by simp [turns], by simp [rotateTo]⟩
    | cons e queue =>
      have hturn := hnew _ (by simp only [turns]; exact .head _)
      have hb := hq e (.head _)
      refine ⟨?_, fun queue' hr => ?_⟩
      · intro t ht
        simp only [turns, List.mem_singleton] at ht
        subst ht
        exact ⟨hb, grant_inBounds hb hturn⟩
      · simp only [rotateTo] at hr
        split at hr <;> cases hr
        exact hq
  | succ fuel ih =>
    cases queue with
    | nil => exact ⟨by simp [turns], by simp [rotateTo]⟩
    | cons e queue =>
      have hturn := hnew _ (by simp only [turns]; exact .head _)
      have hb := hq e (.head _)
      have hgrant := grant_inBounds hb hturn
      by_cases hready : e.ready = true
      · simp only [turns, rotateTo, if_pos hready, List.mem_singleton]
        refine ⟨?_, fun queue' hr => ?_⟩
        · intro t ht
          subst ht
          exact ⟨hb, hgrant⟩
        · cases hr
          exact hq
      · have hq' : ∀ e' ∈ queue ++ [pass s (e :: queue) e], InBounds M e'.budgetUs := by
          intro e' he'
          rcases List.mem_append.1 he' with he' | he'
          · exact hq e' (.tail _ he')
          · rw [List.mem_singleton.1 he']
            exact hgrant
        simp only [turns, if_neg hready] at hnew
        obtain ⟨hall, hrest⟩ := ih hq' fun t ht => hnew t (.tail _ ht)
        simp only [turns, rotateTo, if_neg hready]
        refine ⟨?_, hrest⟩
        intro t ht
        rcases List.mem_cons.1 ht with rfl | ht
        · exact ⟨hb, hgrant⟩
        · exact hall t ht

/-- The first two loops take no budget and give none. -/
theorem refresh_budget {status : Status} {pids pids' : Finset PID} {old : List RunEntry}
    {anyReady : Bool} (h : refresh status old pids = some (queue, pids', anyReady)) :
    ∀ e ∈ queue, ∃ e₀ ∈ old, e.budgetUs = e₀.budgetUs := by
  induction old generalizing pids queue pids' anyReady with
  | nil =>
    cases h
    simp
  | cons e₀ old ih =>
    simp only [refresh] at h
    split at h
    · intro e he
      obtain ⟨e₁, he₁, hb⟩ := ih h e he
      exact ⟨e₁, .tail _ he₁, hb⟩
    · obtain ⟨ready, -, h⟩ := Option.bind_eq_some_iff.1 h
      obtain ⟨⟨queue₁, pids₁, anyReady₁⟩, hr, he⟩ := Option.map_eq_some_iff.1 h
      cases he
      intro e he
      rcases List.mem_cons.1 he with rfl | he
      · exact ⟨e₀, .head _, rfl⟩
      · obtain ⟨e₁, he₁, hb⟩ := ih hr e he
        exact ⟨e₁, .tail _ he₁, hb⟩

theorem addNew_budget {status : Status} {processes : List PID} {old : List RunEntry}
    {pids pids' : Finset PID} {anyReady anyReady' : Bool}
    (h : addNew status processes (old, pids, anyReady) = some (queue, pids', anyReady')) :
    ∀ e ∈ queue, e ∈ old ∨ e.budgetUs = 0 := by
  induction processes generalizing old pids anyReady with
  | nil =>
    cases h
    exact fun e he => Or.inl he
  | cons pid processes ih =>
    simp only [addNew] at h
    split at h
    · exact ih h
    · split at h
      · exact ih h
      · obtain ⟨ready, -, h⟩ := Option.bind_eq_some_iff.1 h
        intro e he
        rcases ih h e he with hold | hzero
        · rcases List.mem_append.1 hold with hold | hnew
          · exact Or.inl hold
          · rw [List.mem_singleton.1 hnew]
            exact Or.inr rfl
        · exact Or.inr hzero

theorem enqueue_budget {status : Status} {processes : List PID} {σ : State} {anyReady : Bool}
    (h : enqueue status processes s = some (σ, anyReady))
    (hs : ∀ e ∈ s.runQueue, InBounds M e.budgetUs) :
    (∀ e ∈ σ.runQueue, InBounds M e.budgetUs) ∧ σ.timesliceEnd = s.timesliceEnd := by
  obtain ⟨⟨kept, pids, any⟩, hr, h⟩ := Option.bind_eq_some_iff.1 h
  obtain ⟨⟨queue', pids', any'⟩, ha, he⟩ := Option.map_eq_some_iff.1 h
  cases he
  refine ⟨fun e he => ?_, rfl⟩
  rcases addNew_budget ha e he with hkept | hzero
  · obtain ⟨e₀, he₀, hb⟩ := refresh_budget hr e hkept
    rw [hb]
    exact hs e₀ he₀
  · rw [hzero]
    exact ⟨le_refl 0, by omega⟩

/-- What a process saves of its slice it has been given. -/
theorem expire_budget {now last : TimePoint} (hnow : last ≤ now)
    (hs : ∀ e ∈ s.runQueue, InBounds M e.budgetUs)
    (hend : s.timesliceEnd ≤ afterUs last (11 * M)) :
    ∀ e ∈ (expire now s).runQueue, InBounds M e.budgetUs := by
  unfold expire
  split
  · exact hs
  · rename_i front rest hq
    split
    · intro e he
      rcases List.mem_append.1 he with he | he
      · exact hs e (by rw [hq]; exact .tail _ he)
      · rw [List.mem_singleton.1 he]
        unfold InBounds
        dsimp only
        unfold afterUs at hend
        have hnow' : (last : Int) ≤ now := by exact_mod_cast hnow
        split
        · rw [Int.tdiv_eq_ediv_of_nonneg (by omega)]
          omega
        · omega
    · exact hs

theorem recvHint_timesliceEnd (s : State) (hint : Hint) :
    (recvHint s hint).timesliceEnd = s.timesliceEnd := by
  cases hint with
  | utilization pid handle util =>
    simp only [recvHint]
    split
    · rfl
    · split <;> rfl
  | timeslice ts =>
    simp only [recvHint]
    split <;> rfl
  | _ => rfl

theorem switchEntry_budget (status : Status) (pid : PID) (e : RunEntry) :
    (switchEntry status pid e).2.budgetUs = e.budgetUs := by
  unfold switchEntry
  split
  · rfl
  · split <;> rfl

/-- No budget is out of bounds, and nor is what may be left of the slice. -/
structure Saved (M : Nat) (last : TimePoint) (s : State) : Prop where
  budgets : ∀ e ∈ s.runQueue, InBounds M e.budgetUs
  slice : s.timesliceEnd ≤ afterUs last (11 * M)

/-- A round keeps the bounds, and its slice, if it grants one, is that of its
last turn. -/
theorem Saved.sched {status : Status} {clock : Clock} {processes : List PID} {last : TimePoint}
    {s' : State} {calls : List Callback} (hs : Saved M last s) (hnow : last ≤ clock.now)
    (h : sched clock status processes s = some (calls, s'))
    (hnew : ∀ t ∈ schedTurns clock status processes s,
      0 ≤ getBudgetUs t.1 t.2.pid ∧ getBudgetUs t.1 t.2.pid ≤ M) :
    Saved M clock.now s' ∧
    (∀ t ∈ schedTurns clock status processes s,
      InBounds M t.2.budgetUs ∧ InBounds M (grant t.1 t.2)) ∧
    match (schedTurns clock status processes s).getLast? with
    | none => calls = [] ∧ s'.timesliceEnd = s.timesliceEnd
    | some t => .addTimer (afterUs clock.now (grant t.1 t.2)).toNat ∈ calls ∧
        s'.timesliceEnd = afterUs clock.now (grant t.1 t.2) := by
  obtain ⟨⟨σ, anyReady⟩, he, hd⟩ := Option.bind_eq_some_iff.1 h
  obtain ⟨hσ, hend⟩ := enqueue_budget he hs.budgets
  have hlater : s.timesliceEnd ≤ afterUs clock.now (11 * M) := by
    have hslice := hs.slice
    have hnow' : (last : Int) ≤ clock.now := by exact_mod_cast hnow
    unfold afterUs at hslice ⊢
    omega
  -- a round that returns early leaves budgets and slice alone
  have hearly : Saved M clock.now σ := ⟨hσ, by rw [hend]; exact hlater⟩
  simp only [schedTurns, he] at hnew ⊢
  dsimp only [dispatch] at hd
  cases hq : σ.runQueue with
  | nil =>
    simp only [hq] at hd hnew ⊢
    cases hd
    exact ⟨hearly, by simp, rfl, hend⟩
  | cons front rest =>
    simp only [hq] at hd hnew ⊢
    split at hd
    · rename_i hnone
      rw [if_pos hnone] at hnew ⊢
      cases hd
      exact ⟨hearly, by simp, rfl, hend⟩
    · rename_i hany
      rw [if_neg hany] at hnew ⊢
      split at hd
      · rename_i hlasts
        rw [if_pos hlasts] at hnew ⊢
        cases hd
        exact ⟨hearly, by simp, rfl, hend⟩
      · rename_i hover
        rw [if_neg hover] at hnew ⊢
        have hexp : ∀ e ∈ (expire clock.now σ).runQueue, InBounds M e.budgetUs :=
          expire_budget hnow hσ (by rw [hend]; exact hs.slice)
        obtain ⟨hall, hrest⟩ := turns_inBounds (expire clock.now σ) _ hexp hnew
        obtain ⟨queue', hrot, hd⟩ := Option.bind_eq_some_iff.1 hd
        obtain ⟨front', hfront, hd⟩ := Option.map_eq_some_iff.1 hd
        have hin := hrest queue' hrot
        have hlast := turns_getLast (expire clock.now σ) _ hrot hfront
        rw [hlast]
        cases hd
        have hturn := List.mem_of_getLast? hlast
        refine ⟨⟨?_, ?_⟩, hall, .head _, rfl⟩
        · intro e he
          obtain ⟨e₀, he₀, rfl⟩ := List.mem_map.1 he
          rw [switchEntry_budget]
          exact hin e₀ he₀
        · have hbound := (hall _ hturn).2.2
          exact Int.add_le_add_left (Int.mul_le_mul_of_nonneg_right hbound (by decide)) _

end

/-! ## Every run -/

section
variable {o : ProcessOrder} {M : Nat} {s : Hosted (policy o) × TimePoint}

theorem life_of_budgeted (hr : (budgeted o M).Reachable s) :
    (Hosted.life (policy o)).Reachable s.1 :=
  LTS.reachable_of_recorded hr.of_restrict

theorem saved_budgeted (hr : (budgeted o M).Reachable s) : Saved M s.2 s.1.policy := by
  refine LTS.recorded_restrict_induction (I := fun s last => Saved M last s.policy) ?_ ?_ hr
  · intro s h0
    have hpolicy : s.policy = (policy o).init := h0.fresh.policy
    rw [hpolicy]
    refine ⟨by simp, ?_⟩
    change timePointMin ≤ _
    unfold timePointMin afterUs
    omega
  · intro s act s' last hlife hs hok hact
    cases Hosted.policy_cases hact with
    | round hround =>
      obtain ⟨calls, R⟩ := Hosted.round_life hlife hround
      exact (hs.sched hok.1 R.sched hok.2).1
    | @recvHint now clock hint scheduler hst =>
      refine ⟨?_, ?_⟩
      · change ∀ e ∈ (recvHint s.policy hint).runQueue, _
        rw [(recvHint_runQueue _ hint).1]
        exact hs.budgets
      · change (recvHint s.policy hint).timesliceEnd ≤ _
        rw [recvHint_timesliceEnd]
        exact hs.slice
    | @other act scheduler hother =>
      have hsame : reading s act ⟨scheduler, s.policy⟩ last = last := by
        cases act with
        | reschedule clock order => exact absurd rfl (hother clock order)
        | own | recvHint => rfl
      rw [hsame]
      exact hs

/-- **Budgets cannot be hoarded.** With a clock that does not go back, and no
more than `M` for a process in any turn, every budget that a run stores and
every slice that it grants is between 0 and `11 * M`. -/
theorem budgets_bounded (hr : (budgeted o M).Reachable s) :
    (∀ e ∈ s.1.policy.runQueue, 0 ≤ e.budgetUs ∧ e.budgetUs ≤ 11 * M) ∧
    ∀ clock order s', (budgeted o M).step s (.reschedule clock order) s' →
      let ts := schedTurns clock s.1.scheduler.status
        (o.order s.1.policy.rounds s.1.scheduler.status) s.1.policy
      (∀ t ∈ ts, (0 ≤ t.2.budgetUs ∧ t.2.budgetUs ≤ 11 * M) ∧
        0 ≤ grant t.1 t.2 ∧ grant t.1 t.2 ≤ 11 * M) ∧
      s'.1.policy.timesliceEnd = ts.getLast?.elim s.1.policy.timesliceEnd
        fun t => afterUs clock.now (grant t.1 t.2) := by
  have hs := saved_budgeted hr
  refine ⟨hs.budgets, fun clock order s' hstep => ?_⟩
  obtain ⟨hact, -⟩ := LTS.recording_eq_some.1 hstep.1
  obtain ⟨calls, R⟩ := Hosted.round_life (life_of_budgeted hr) hact
  obtain ⟨-, hall, hslice⟩ := hs.sched hstep.2.1 R.sched hstep.2.2
  refine ⟨hall, ?_⟩
  dsimp only [Hosted.run] at hslice
  split at hslice
  · rename_i hnone
    rw [hnone]
    exact hslice.2
  · rename_i t hsome
    rw [hsome]
    exact hslice.2

end

/-- Process 1 is idle while process 2 has one slice after the other. -/
def savingActs : List HostedAct :=
  rotatingActs ++ [.reschedule rotatingClock [7, 8], .reschedule rotatingClock [7, 8],
    .own (.wake 5000000), .reschedule ⟨5000000, fun _ => 0⟩ [7, 8],
    .own (.wake 10000000), .reschedule ⟨10000000, fun _ => 0⟩ [7, 8]]

theorem budgets_saving : ∃ s : Hosted (policy keysOrder) × TimePoint,
    (budgeted keysOrder 5000).Reachable s ∧
    s.1.policy.runQueue.map (fun e => (e.pid, e.budgetUs)) = [(2, 0), (1, 14500)] ∧
    ∀ e ∈ s.1.policy.runQueue, 0 ≤ e.budgetUs ∧ e.budgetUs ≤ 11 * (5000 : Nat) := by
  have htrace : (LTS.exec (LTS.guarded (Timely 5000) (LTS.recording Hosted.step reading))
      ((⟨.init .kPolicyProcessUtilizationPartition, (policy keysOrder).init⟩ :
        Hosted (policy keysOrder)), 0) savingActs).map
      (fun s => s.1.policy.runQueue.map fun e => (e.pid, e.budgetUs)) =
      some [(2, 0), (1, 14500)] := by
    decide +kernel
  obtain ⟨s, hs, he⟩ := Option.map_eq_some_iff.1 htrace
  have hr : (budgeted keysOrder 5000).Reachable s :=
    LTS.reachable_restrict_of_exec ⟨Hosted.Begins.construct _, rfl⟩ hs
  exact ⟨s, hr, he, (budgets_bounded hr).1⟩

end ProcessUtilizationPartitionPolicy
end Xsched.Sched
