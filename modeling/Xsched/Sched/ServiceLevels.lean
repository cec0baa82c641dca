import Mathlib
import Xsched.Core.MapLoop
import Xsched.Sched.Rounds
import Xsched.Sched.TimePolicies

/-!
# Which XQueue the SLO policy runs

`SLOAdaptivePolicy::Sched` charges the running XQueues, picks one for each
device and resumes it. `PickBestQueue` finds three candidates in one pass: of
the urgent XQueues (a deadline, and at most one tick of slack) the one with
the least slack, of the latency-sensitive ones (a deadline, or a raised
priority) the one with the highest priority, of the others the one with the
least virtual runtime; and takes the first of the three there is, where
handle 0 stands for none. The three searches do not look at one another, and
each is the `argmin` of a key (`pickBestQueue_eq`).

`Resume` is called only for a chosen XQueue without the `running` flag, and
`Suspend` not for one that is without the flag and suspended. The flag of an
XQueue that is suspended is never set (`runningFlag`), whatever has become of
the XQueue since.

**Result.** `slo_runs_best`: after every round, on each device with a ready
XQueue exactly one ready XQueue is not suspended, and it is the best.
-/
namespace Xsched.Sched
namespace SLOAdaptivePolicy

/-! ## Charging -/

/-- The info of an XQueue after it is charged. -/
def charged (clock : Clock) (utils : PID → Option Utilization) (q : XQueueStatus)
    (info : SLOQueueInfo) : SLOQueueInfo :=
  let elapsed := sinceUs clock.now info.lastResumeTime
  if !info.running ∨ elapsed ≤ 0 then info
  else
    { info with
      vruntime := info.vruntime +
        elapsed * (UTILIZATION_DEFAULT / (max (getUtilization utils q info) 1 : Utilization) : ℚ)
      lastResumeTime := clock.now }

/-- The info that a `Sched` works with. -/
def infoAt (clock : Clock) (σ : State) (q : XQueueStatus) : SLOQueueInfo :=
  charged clock σ.processUtils q (getInfo clock σ.queueInfos q.handle)

section
variable {clock : Clock} {σ σ' : State} {q : XQueueStatus} {info : SLOQueueInfo}

@[simp] theorem charged_running (utils : PID → Option Utilization) :
    (charged clock utils q info).running = info.running := by
  unfold charged; dsimp only; split <;> rfl

@[simp] theorem charged_priority (utils : PID → Option Utilization) :
    (charged clock utils q info).priority = info.priority := by
  unfold charged; dsimp only; split <;> rfl

/-- Only an XQueue that has an info is flagged. -/
theorem infoAt_running (hrun : (infoAt clock σ q).running = true) :
    ∃ info, σ.queueInfos q.handle = some info ∧ info.running = true := by
  rw [infoAt, charged_running] at hrun
  cases hq : σ.queueInfos q.handle with
  | none => simp [getInfo, hq, SLOQueueInfo.new] at hrun
  | some info => exact ⟨info, rfl, by simpa [getInfo, hq] using hrun⟩

theorem charge_eq (utils : PID → Option Utilization) (infos : Infos) (q : XQueueStatus) :
    charge clock utils infos q =
      setInfo infos q.handle (charged clock utils q (getInfo clock infos q.handle)) := by
  unfold charge charged
  dsimp only
  split <;> rfl

/-- A change of the info of an XQueue, which is made if it is missing. -/
theorem setInfo_apply (f : SLOQueueInfo → SLOQueueInfo) (infos : Infos) (q : XQueueStatus)
    (h : XQueueHandle) : setInfo infos q.handle (f (getInfo clock infos q.handle)) h =
      if h = q.handle then some (f ((infos h).getD (.new (clock.later q.handle))))
      else infos h := by
  rw [setInfo, Function.update_apply, getInfo]
  split
  · rename_i hh; rw [hh]
  · rfl

theorem charge_own (utils : PID → Option Utilization) :
    OwnKey (·.handle)
      (fun v q => some (charged clock utils q (v.getD (.new (clock.later q.handle)))))
      (charge clock utils) := by
  intro m q h
  rw [charge_eq]
  exact setInfo_apply (charged clock utils q) m q h

theorem updateRuntime_own {xs : List XQueueStatus} (hnd : (xs.map (·.handle)).Nodup)
    (hq : q ∈ xs) :
    updateRuntime clock σ.processUtils σ.queueInfos xs q.handle = some (infoAt clock σ q) :=
  foldl_own (charge_own σ.processUtils) σ.queueInfos hnd hq

end

/-! ## Picking the best -/

section
variable (clock : Clock) (tick : Int) (info : XQueueStatus → SLOQueueInfo)

def slack (q : XQueueStatus) : WithTop ℚ := getSlackUs q (info q) clock.now

/-- A deadline, and no more than a tick until then. -/
def urgent (q : XQueueStatus) : Bool :=
  (info q).deadlineUs ≠ NO_DEADLINE ∧ slack clock info q ≤ ((tick : ℚ) : WithTop ℚ)

def sensitive (q : XQueueStatus) : Bool := isLatencySensitive (info q)

/-- Least slack first, then the highest priority. -/
def urgentKey (q : XQueueStatus) : WithTop ℚ ×ₗ ℤ := toLex (slack clock info q, -(info q).priority)

/-- Highest priority first, then the least slack. -/
def latencyKey (q : XQueueStatus) : ℤ ×ₗ WithTop ℚ := toLex (-(info q).priority, slack clock info q)

def batchKey (q : XQueueStatus) : ℚ := (info q).vruntime

/-- The three candidates of a list of XQueues. -/
noncomputable def bestUrgent (xs : List XQueueStatus) : Option XQueueStatus :=
  (xs.filter (urgent clock tick info)).argmin (urgentKey clock info)

noncomputable def bestLatency (xs : List XQueueStatus) : Option XQueueStatus :=
  (xs.filter (sensitive info)).argmin (latencyKey clock info)

def bestBatch (xs : List XQueueStatus) : Option XQueueStatus :=
  (xs.filter fun q => !sensitive info q).argmin (batchKey info)

variable {clock tick info}

theorem slack_lt_top {q : XQueueStatus} (hd : (info q).deadlineUs ≠ NO_DEADLINE) :
    slack clock info q < ⊤ := by
  simp only [slack, getSlackUs, if_neg hd]
  exact WithTop.coe_lt_top _

theorem urgent_sensitive {q : XQueueStatus} (hu : urgent clock tick info q = true) :
    sensitive info q = true := by
  simp only [urgent, decide_eq_true_eq] at hu
  simp [sensitive, isLatencySensitive, hu.1]

end

section
variable {clock : Clock} {tick : Int} {infos : Infos}

/-- The infos as `PickBestQueue` finds them. -/
abbrev found (clock : Clock) (infos : Infos) (q : XQueueStatus) : SLOQueueInfo :=
  getInfo clock infos q.handle

/-- The running best before the first XQueue. -/
def noBest : Best := ⟨0, ⊤, PRIORITY_MIN, 0, PRIORITY_MIN, ⊤, 0, ⊤⟩

/-- What is kept of the most urgent XQueue so far. -/
def Best.urgentPart (b : Best) : XQueueHandle × WithTop ℚ × Priority :=
  (b.urgent, b.slack, b.urgentPrio)

def Best.latencyPart (b : Best) : XQueueHandle × Priority × WithTop ℚ :=
  (b.latency, b.latencyPrio, b.latencySlack)

def Best.batchPart (b : Best) : XQueueHandle × WithTop ℚ := (b.batch, b.vruntime)

/-- The three turns of `compare`. -/
def seekUrgent (clock : Clock) (tick : Int) (infos : Infos) (b : Best) (q : XQueueStatus) : Best :=
  if urgent clock tick (found clock infos) q ∧ (slack clock (found clock infos) q < b.slack ∨
    slack clock (found clock infos) q = b.slack ∧ (found clock infos q).priority > b.urgentPrio) then
    { b with
      urgent := q.handle
      slack := slack clock (found clock infos) q
      urgentPrio := (found clock infos q).priority }
  else b

def seekLatency (clock : Clock) (infos : Infos) (b : Best) (q : XQueueStatus) : Best :=
  if sensitive (found clock infos) q ∧ ((found clock infos q).priority > b.latencyPrio ∨
    (found clock infos q).priority = b.latencyPrio ∧
      slack clock (found clock infos) q < b.latencySlack) then
    { b with
      latency := q.handle
      latencyPrio := (found clock infos q).priority
      latencySlack := slack clock (found clock infos) q }
  else b

def seekBatch (clock : Clock) (infos : Infos) (b : Best) (q : XQueueStatus) : Best :=
  if !sensitive (found clock infos) q ∧
    (batchKey (found clock infos) q : WithTop ℚ) < b.vruntime then
    { b with batch := q.handle, vruntime := batchKey (found clock infos) q }
  else b

theorem compare_eq (b : Best) (q : XQueueStatus) : compare clock tick infos b q =
    seekBatch clock infos (seekLatency clock infos (seekUrgent clock tick infos b q) q) q := rfl

/-- Each turn leaves the other two candidates alone. -/
theorem seekUrgent_frame (clock : Clock) (tick : Int) (infos : Infos) (b : Best) (q : XQueueStatus) :
    (seekUrgent clock tick infos b q).latencyPart = b.latencyPart ∧
      (seekUrgent clock tick infos b q).batchPart = b.batchPart := by
  unfold seekUrgent; split <;> exact ⟨rfl, rfl⟩

theorem seekLatency_frame (clock : Clock) (infos : Infos) (b : Best) (q : XQueueStatus) :
    (seekLatency clock infos b q).urgentPart = b.urgentPart ∧
      (seekLatency clock infos b q).batchPart = b.batchPart := by
  unfold seekLatency; split <;> exact ⟨rfl, rfl⟩

theorem seekBatch_frame (clock : Clock) (infos : Infos) (b : Best) (q : XQueueStatus) :
    (seekBatch clock infos b q).urgentPart = b.urgentPart ∧
      (seekBatch clock infos b q).latencyPart = b.latencyPart := by
  unfold seekBatch; split <;> exact ⟨rfl, rfl⟩

/-- A search that is a loop of its own finds the best of its candidates. -/
theorem search_part {T β : Type} [LinearOrder β] (part : Best → XQueueHandle × T)
    (step : XQueueHandle × T → XQueueStatus → XQueueHandle × T) (put : XQueueStatus → T)
    {ok : XQueueStatus → Bool} {key : XQueueStatus → β}
    (hpart : ∀ b q, step (part b) q = part (compare clock tick infos b q))
    (hnone : (part noBest).1 = 0)
    (h₀ : ∀ q, step (part noBest) q = if ok q then (q.handle, put q) else part noBest)
    (h₁ : ∀ a b, ok b → step (b.handle, put b) a =
      if ok a ∧ key a < key b then (a.handle, put a) else (b.handle, put b))
    (xs : List XQueueStatus) :
    (part (xs.foldl (compare clock tick infos) noBest)).1 =
      ((xs.filter ok).argmin key).elim 0 (·.handle) := by
  rw [← List.foldl_hom part hpart, foldl_argmin h₀ h₁ xs]
  cases (xs.filter ok).argmin key with
  | none => exact hnone
  | some q => rfl

theorem search_urgent (xs : List XQueueStatus) :
    (xs.foldl (compare clock tick infos) noBest).urgent =
      (bestUrgent clock tick (found clock infos) xs).elim 0 (·.handle) := by
  refine search_part Best.urgentPart
    (fun s q =>
      if urgent clock tick (found clock infos) q ∧ (slack clock (found clock infos) q < s.2.1 ∨
        slack clock (found clock infos) q = s.2.1 ∧ (found clock infos q).priority > s.2.2) then
        (q.handle, slack clock (found clock infos) q, (found clock infos q).priority)
      else s)
    (fun q => (slack clock (found clock infos) q, (found clock infos q).priority)) ?_ rfl ?_ ?_ xs
  · intro b q
    rw [compare_eq, (seekBatch_frame clock infos _ q).1, (seekLatency_frame clock infos _ q).1,
      seekUrgent, apply_ite Best.urgentPart]
    rfl
  · intro q
    by_cases hu : urgent clock tick (found clock infos) q = true
    · have hd : (found clock infos q).deadlineUs ≠ NO_DEADLINE := by
        simp only [urgent, decide_eq_true_eq] at hu; exact hu.1
      have htop : slack clock (found clock infos) q < (⊤ : WithTop ℚ) := slack_lt_top hd
      simp [hu, Best.urgentPart, noBest, htop]
    · simp [hu]
  · intro a b hb
    simp only [urgentKey, Prod.Lex.toLex_lt_toLex, neg_lt_neg_iff, gt_iff_lt]

theorem getInfo_min (hmin : ∀ h info, infos h = some info → PRIORITY_MIN ≤ info.priority)
    (h : XQueueHandle) : PRIORITY_MIN ≤ (getInfo clock infos h).priority := by
  unfold getInfo
  cases hq : infos h with
  | none => simp [SLOQueueInfo.new, PRIORITY_MIN, PRIORITY_DEFAULT]
  | some info => exact hmin h info hq

/-- A latency-sensitive XQueue beats the start values: it has a deadline or a
priority above the default. -/
theorem search_latency (hmin : ∀ h info, infos h = some info → PRIORITY_MIN ≤ info.priority)
    (xs : List XQueueStatus) :
    (xs.foldl (compare clock tick infos) noBest).latency =
      (bestLatency clock (found clock infos) xs).elim 0 (·.handle) := by
  refine search_part Best.latencyPart
    (fun s q =>
      if sensitive (found clock infos) q ∧ ((found clock infos q).priority > s.2.1 ∨
        (found clock infos q).priority = s.2.1 ∧ slack clock (found clock infos) q < s.2.2) then
        (q.handle, (found clock infos q).priority, slack clock (found clock infos) q)
      else s)
    (fun q => ((found clock infos q).priority, slack clock (found clock infos) q)) ?_ rfl ?_ ?_ xs
  · intro b q
    rw [compare_eq, (seekBatch_frame clock infos _ q).2,
      ← (seekUrgent_frame clock tick infos b q).1, seekLatency, apply_ite Best.latencyPart]
    rfl
  · intro q
    by_cases hs : sensitive (found clock infos) q = true
    · have hmin' : PRIORITY_MIN ≤ (found clock infos q).priority := getInfo_min hmin q.handle
      have hbeats : PRIORITY_MIN < (found clock infos q).priority ∨
          (found clock infos q).priority = PRIORITY_MIN ∧
            slack clock (found clock infos) q < (⊤ : WithTop ℚ) := by
        rcases lt_or_eq_of_le hmin' with hlt | heq
        · exact Or.inl hlt
        · refine Or.inr ⟨heq.symm, slack_lt_top ?_⟩
          simp only [sensitive, isLatencySensitive, ← heq] at hs
          simpa [PRIORITY_MIN, PRIORITY_DEFAULT] using hs
      simp [hs, Best.latencyPart, noBest, hbeats]
    · simp [hs]
  · intro a b hb
    simp only [latencyKey, Prod.Lex.toLex_lt_toLex, neg_lt_neg_iff, gt_iff_lt, neg_inj]

theorem search_batch (xs : List XQueueStatus) :
    (xs.foldl (compare clock tick infos) noBest).batch =
      (bestBatch (found clock infos) xs).elim 0 (·.handle) := by
  refine search_part Best.batchPart
    (fun s q =>
      if !sensitive (found clock infos) q ∧ (batchKey (found clock infos) q : WithTop ℚ) < s.2 then
        (q.handle, (batchKey (found clock infos) q : WithTop ℚ))
      else s)
    (fun q => (batchKey (found clock infos) q : WithTop ℚ)) ?_ rfl ?_ ?_ xs
  · intro b q
    rw [compare_eq, ← (seekUrgent_frame clock tick infos b q).2,
      ← (seekLatency_frame clock infos _ q).2, seekBatch, apply_ite Best.batchPart]
    rfl
  · intro q
    simp [Best.batchPart, noBest]
  · intro a b hb
    simp only [WithTop.coe_lt_coe]

/-- `PickBestQueue` takes the first of the three candidates there is. -/
theorem pickBestQueue_eq (hmin : ∀ h info, infos h = some info → PRIORITY_MIN ≤ info.priority)
    (device : XDevice) {xs : List XQueueStatus} (hzero : ∀ q ∈ xs, q.handle ≠ 0) :
    pickBestQueue clock tick infos device xs =
      let ys := xs.filter fun q => q.ready ∧ q.device = device
      ((bestUrgent clock tick (found clock infos) ys).or
        ((bestLatency clock (found clock infos) ys).or
          (bestBatch (found clock infos) ys))).elim 0 (·.handle) := by
  have hne : ∀ {β : Type} [LinearOrder β] {p r : XQueueStatus → Bool} {key : XQueueStatus → β} {q},
      ((xs.filter p).filter r).argmin key = some q → q.handle ≠ 0 := by
    intro β _ p r key q hq
    exact hzero q (List.mem_of_mem_filter (List.mem_of_mem_filter (List.argmin_mem hq)))
  have hstart : (⟨0, ⊤, PRIORITY_MIN, 0, PRIORITY_MIN, ⊤, 0, ⊤⟩ : Best) = noBest := rfl
  unfold pickBestQueue
  dsimp only
  rw [hstart, search_urgent, search_latency hmin, search_batch]
  cases hu : bestUrgent clock tick (found clock infos)
      (xs.filter fun q => q.ready ∧ q.device = device) with
  | some q => simp [hne hu]
  | none =>
    cases hl : bestLatency clock (found clock infos)
        (xs.filter fun q => q.ready ∧ q.device = device) with
    | some q => simp [hne hl]
    | none => simp

end

/-! ## The decisions -/

section
variable {clock : Clock} {chosen : XDevice → XQueueHandle}

/-- The info of an XQueue after the decision over it. -/
def operated (clock : Clock) (chosen : XDevice → XQueueHandle) (q : XQueueStatus)
    (info : SLOQueueInfo) : SLOQueueInfo :=
  if !q.ready then { info with running := false }
  else if chosen q.device = q.handle then { info with running := true, lastResumeTime := clock.now }
  else { info with running := false }

/-- The calls of the decision over an XQueue. -/
def operation (chosen : XDevice → XQueueHandle) (q : XQueueStatus) (info : SLOQueueInfo) :
    List Callback :=
  if !q.ready then []
  else if chosen q.device = q.handle then if !info.running then [.resume q.handle] else []
  else if info.running ∨ !q.suspended then [.suspend q.handle] else []

theorem operate_eq (infos : Infos) (q : XQueueStatus) : operate clock chosen infos q =
    (operation chosen q (getInfo clock infos q.handle),
      setInfo infos q.handle (operated clock chosen q (getInfo clock infos q.handle))) := by
  unfold operate operation operated
  dsimp only
  split_ifs <;> rfl

theorem operate_own : OwnKey (·.handle)
    (fun v q => some (operated clock chosen q (v.getD (.new (clock.later q.handle)))))
    fun m q => (operate clock chosen m q).2 := by
  intro m q h
  dsimp only
  rw [operate_eq]
  exact setInfo_apply (operated clock chosen q) m q h

theorem verdict_operation_other {q : XQueueStatus} {info : SLOQueueInfo} {h : XQueueHandle}
    (hh : h ≠ q.handle) : verdict h (operation chosen q info) = none := by
  unfold operation
  split_ifs <;> simp [Ne.symm hh]

/-- A ready XQueue runs after its turn exactly if it is the chosen one; the
flag, if set, says that it runs already. -/
theorem operation_suspended {q : XQueueStatus} {info : SLOQueueInfo} (hready : q.ready = true)
    (hflag : info.running = true → q.suspended = false) :
    (verdict q.handle (operation chosen q info)).getD q.suspended = false ↔
      q.handle = chosen q.device := by
  unfold operation
  by_cases hc : chosen q.device = q.handle
  · cases hrun : info.running with
    | true => simp [hready, hc, hflag hrun]
    | false => simp [hready, hc]
  · have hne : q.handle ≠ chosen q.device := Ne.symm hc
    cases hsus : q.suspended with
    | true => by_cases hrun : info.running = true <;> simp [hready, hc, hrun, hne]
    | false => simp [hready, hc, hne]

end

/-! ## A round -/

/-- The XQueue that a round chooses for a device. -/
def choice (clock : Clock) (σ : State) (xs : List XQueueStatus) (device : XDevice) :
    XQueueHandle :=
  pickBestQueue clock σ.tick (updateRuntime clock σ.processUtils σ.queueInfos xs) device xs

section
variable {clock : Clock} {σ σ' : State} {xs : List XQueueStatus} {calls : List Callback}
  {q : XQueueStatus}

/-- What a round makes of the info of an XQueue, and its verdict over it. -/
theorem sched_turn (hnd : (xs.map (·.handle)).Nodup) (hs : sched clock σ xs = (calls, σ'))
    (hq : q ∈ xs) :
    σ'.queueInfos q.handle = some (operated clock (choice clock σ xs) q (infoAt clock σ q)) ∧
      verdict q.handle calls =
        verdict q.handle (operation (choice clock σ xs) q (infoAt clock σ q)) := by
  have hfound : ∀ r ∈ xs, getInfo clock
      (updateRuntime clock σ.processUtils σ.queueInfos xs) r.handle = infoAt clock σ r := by
    intro r hr
    rw [getInfo, updateRuntime_own hnd hr]
    rfl
  have hloop := forEach_calls operate_own
    (c := fun v r => operation (choice clock σ xs) r (v.getD (.new (clock.later r.handle))))
    (fun m r => by rw [operate_eq]; rfl)
    (updateRuntime clock σ.processUtils σ.queueInfos xs) hnd
  obtain ⟨rfl, rfl⟩ := Prod.mk.inj hs
  constructor
  · dsimp only
    rw [forEach_state, foldl_own operate_own _ hnd hq]
    exact congrArg some (congrArg (operated clock (choice clock σ xs) q) (hfound q hq))
  · rw [verdict_timer]
    refine Eq.trans (congrArg (verdict q.handle) hloop) ?_
    rw [verdict_flatMap hnd (fun r _ h hh => verdict_operation_other hh) hq]
    exact congrArg (fun info => verdict q.handle (operation (choice clock σ xs) q info))
      (hfound q hq)

/-- A round leaves the infos of other XQueues alone. -/
theorem sched_other (hs : sched clock σ xs = (calls, σ')) {h : XQueueHandle}
    (hh : h ∉ xs.map (·.handle)) : σ'.queueInfos h = σ.queueInfos h := by
  obtain ⟨rfl, rfl⟩ := Prod.mk.inj hs
  dsimp only
  rw [forEach_state, foldl_other operate_own _ hh]
  exact foldl_other (charge_own σ.processUtils) _ hh

@[simp] theorem operated_priority (chosen : XDevice → XQueueHandle) (info : SLOQueueInfo) :
    (operated clock chosen q info).priority = info.priority := by
  unfold operated; split_ifs <;> rfl

@[simp] theorem operated_deadlineUs (chosen : XDevice → XQueueHandle) (info : SLOQueueInfo) :
    (operated clock chosen q info).deadlineUs = info.deadlineUs := by
  unfold operated; split_ifs <;> rfl

@[simp] theorem operated_vruntime (chosen : XDevice → XQueueHandle) (info : SLOQueueInfo) :
    (operated clock chosen q info).vruntime = info.vruntime := by
  unfold operated; split_ifs <;> rfl

/-- The flag is left only for the chosen one of the ready XQueues. -/
theorem operated_running {chosen : XDevice → XQueueHandle} {info : SLOQueueInfo} :
    (operated clock chosen q info).running = true ↔ q.ready = true ∧ q.handle = chosen q.device := by
  unfold operated
  cases hready : q.ready with
  | false => simp
  | true =>
    by_cases hc : chosen q.device = q.handle
    · simp [hc]
    · simp [hc, Ne.symm hc]

end

/-! ## Hints between the rounds -/

/-- A hint leaves the running flag of an info alone. -/
theorem recvHint_info {clock : Clock} {hint : Hint} {σ : State} {h : XQueueHandle}
    {info : SLOQueueInfo} (he : (recvHint clock σ hint).queueInfos h = some info) :
    σ.queueInfos h = some info ∨
      info.running = (getInfo clock σ.queueInfos h).running ∧
        (info.priority = (getInfo clock σ.queueInfos h).priority ∨
          PRIORITY_MIN ≤ info.priority) := by
  have hset : ∀ {handle : XQueueHandle} {new : SLOQueueInfo},
      setInfo σ.queueInfos handle new h = some info →
      σ.queueInfos h = some info ∨ h = handle ∧ info = new := by
    intro handle new he
    rw [setInfo, Function.update_apply] at he
    split at he
    · rename_i hh; cases he; exact Or.inr ⟨hh, rfl⟩
    · exact Or.inl he
  cases hint with
  | priority handle prio =>
    rcases hset he with he | ⟨rfl, rfl⟩
    · exact Or.inl he
    · refine Or.inr ⟨rfl, Or.inr ?_⟩
      simp [PRIORITY_MIN, PRIORITY_MAX]
  | deadline handle ddl =>
    rcases hset he with he | ⟨rfl, rfl⟩
    · exact Or.inl he
    · exact Or.inr ⟨rfl, Or.inl rfl⟩
  | utilization pid handle util =>
    have hinfos : (recvHint clock σ (.utilization pid handle util)).queueInfos =
        if handle ≠ 0 then
          setInfo σ.queueInfos handle { getInfo clock σ.queueInfos handle with
            utilization := min (max util UTILIZATION_MIN) UTILIZATION_MAX }
        else σ.queueInfos := by
      simp only [recvHint]
      split_ifs <;> rfl
    rw [hinfos] at he
    split at he
    · rcases hset he with he | ⟨rfl, rfl⟩
      · exact Or.inl he
      · exact Or.inr ⟨rfl, Or.inl rfl⟩
    · exact Or.inl he
  | timeslice ts =>
    simp only [recvHint] at he
    split_ifs at he <;> exact Or.inl he
  | _ => exact Or.inl he

theorem getInfo_some {clock : Clock} {infos : Infos} {h : XQueueHandle} {info : SLOQueueInfo}
    (he : infos h = some info) : getInfo clock infos h = info := by
  rw [getInfo, he]
  rfl

theorem round_sched {s s' : PolicyRun policy} {clock : Clock} {order : List XQueueHandle}
    {calls : List Callback} (R : PolicyRun.Round clock order s calls s') :
    sched clock s.policy (s.status.inOrder order) = (calls, s'.policy) :=
  Option.some.inj R.sched

/-- Priorities are at least the lowest. -/
theorem priority_life {s : PolicyRun policy} (hr : (PolicyRun.life policy).Reachable s) :
    ∀ h info, s.policy.queueInfos h = some info → PRIORITY_MIN ≤ info.priority := by
  refine PolicyRun.policy_life (P := policy)
    (I := fun σ => ∀ h info, σ.queueInfos h = some info → PRIORITY_MIN ≤ info.priority) ?_ ?_ ?_ hr
  · intro h info he; cases he
  · intro clock hint σ hmin h info he
    rcases recvHint_info he with he | ⟨-, he | he⟩
    · exact hmin h info he
    · rw [he]; exact getInfo_min hmin h
    · exact he
  · intro clock order s calls s' R hmin h info he
    have hs := round_sched R
    by_cases hh : h ∈ (s.status.inOrder order).map (·.handle)
    · obtain ⟨q, hq, rfl⟩ := List.mem_map.1 hh
      rw [(sched_turn R.nodup hs hq).1] at he
      cases he
      simp only [operated_priority, infoAt, charged_priority]
      exact getInfo_min hmin q.handle
    · rw [sched_other hs hh] at he
      exact hmin h info he

/-- The `running` flag of the infos. -/
def runningFlag : RunningFlag policy where
  flag σ h := ∃ info, σ.queueInfos h = some info ∧ info.running = true
  init h := by rintro ⟨info, he, -⟩; cases he
  hint clock hint σ h hf := by
    obtain ⟨info, he, hrun⟩ := hf
    rcases recvHint_info he with he | ⟨hsame, -⟩
    · exact ⟨info, he, hrun⟩
    · rw [hrun] at hsame
      cases hq : σ.queueInfos h with
      | none => simp [getInfo, hq, SLOQueueInfo.new] at hsame
      | some info₀ => exact ⟨info₀, rfl, by rw [hsame, getInfo_some hq]⟩
  sched clock order s calls s' R hclear q hq hf := by
    obtain ⟨hinfo, hverdict⟩ := sched_turn R.nodup (round_sched R) hq
    obtain ⟨info, he, hrun⟩ := hf
    rw [hinfo] at he
    cases he
    obtain ⟨hready, hchosen⟩ := operated_running.1 hrun
    rw [hverdict]
    exact (operation_suspended hready fun hrun₀ => hclear q hq (infoAt_running hrun₀)).2 hchosen

/-! ## The best XQueue of a device -/

/-- `q` is the best of some ready XQueues: the most urgent one; without an
urgent one the most important of the latency-sensitive ones; without these the
one that has had the least. -/
structure BestAmong (clock : Clock) (tick : Int) (info : XQueueStatus → SLOQueueInfo)
    (ready : XQueueStatus → Prop) (q : XQueueStatus) : Prop where
  mem : ready q
  mostUrgent : (∃ r, ready r ∧ urgent clock tick info r = true) →
    urgent clock tick info q = true ∧ ∀ r, ready r → urgent clock tick info r = true →
      slack clock info q < slack clock info r ∨
        slack clock info q = slack clock info r ∧ (info r).priority ≤ (info q).priority
  mostImportant : (∀ r, ready r → urgent clock tick info r = false) →
    (∃ r, ready r ∧ sensitive info r = true) →
    sensitive info q = true ∧ ∀ r, ready r → sensitive info r = true →
      (info r).priority < (info q).priority ∨
        (info r).priority = (info q).priority ∧ slack clock info q ≤ slack clock info r
  leastServed : (∀ r, ready r → sensitive info r = false) →
    ∀ r, ready r → (info q).vruntime ≤ (info r).vruntime

section
variable {clock : Clock} {tick : Int}

/-- What `PickBestQueue` returns is the handle of the best one. -/
theorem pickBestQueue_best {infos : Infos} {device : XDevice} {xs : List XQueueStatus}
    (hmin : ∀ h info, infos h = some info → PRIORITY_MIN ≤ info.priority)
    (hzero : ∀ q ∈ xs, q.handle ≠ 0) (hsome : ∃ q ∈ xs, q.ready = true ∧ q.device = device) :
    ∃ q, BestAmong clock tick (found clock infos)
        (fun q => q ∈ xs ∧ q.ready = true ∧ q.device = device) q ∧
      q.handle = pickBestQueue clock tick infos device xs := by
  have hys : ∀ q, q ∈ xs.filter (fun q => q.ready ∧ q.device = device) ↔
      q ∈ xs ∧ q.ready = true ∧ q.device = device := by
    intro q; simp
  rw [pickBestQueue_eq hmin device hzero]
  dsimp only
  simp only [← hys] at hsome ⊢
  generalize xs.filter (fun q => q.ready ∧ q.device = device) = ys at hsome ⊢
  cases hu : bestUrgent clock tick (found clock infos) ys with
  | some q =>
    obtain ⟨hmem, hurgent, hle⟩ := argmin_filter_some hu
    refine ⟨q, ⟨hmem, fun _ => ⟨hurgent, fun r hr hur => ?_⟩, fun hno => ?_, fun hno => ?_⟩, rfl⟩
    · simpa [urgentKey, Prod.Lex.toLex_le_toLex] using hle r hr hur
    · rw [hno q hmem] at hurgent; cases hurgent
    · have hs := urgent_sensitive hurgent
      rw [hno q hmem] at hs
      cases hs
  | none =>
    have hnourgent := argmin_filter_none hu
    cases hl : bestLatency clock (found clock infos) ys with
    | some q =>
      obtain ⟨hmem, hsens, hle⟩ := argmin_filter_some hl
      refine ⟨q, ⟨hmem, ?_, fun _ _ => ⟨hsens, fun r hr hsr => ?_⟩, fun hno => ?_⟩, rfl⟩
      · rintro ⟨r, hr, hur⟩
        rw [hnourgent r hr] at hur; cases hur
      · have hkey := hle r hr hsr
        simp only [latencyKey, Prod.Lex.toLex_le_toLex, neg_lt_neg_iff, neg_inj] at hkey
        exact hkey.imp_right fun hk => ⟨hk.1.symm, hk.2⟩
      · rw [hno q hmem] at hsens; cases hsens
    | none =>
      have hnosens := argmin_filter_none hl
      obtain ⟨p, hp⟩ := hsome
      have hp' : p ∈ ys.filter fun q => !sensitive (found clock infos) q := by
        simp [hp, hnosens p hp]
      obtain ⟨q, hb⟩ := exists_argmin (batchKey (found clock infos)) hp'
      obtain ⟨hmem, -, hle⟩ := argmin_filter_some hb
      refine ⟨q, ⟨hmem, ?_, ?_, fun _ r hr => ?_⟩, by simp [bestBatch, hb]⟩
      · rintro ⟨r, hr, hur⟩
        rw [hnourgent r hr] at hur; cases hur
      · rintro - ⟨r, hr, hsr⟩
        rw [hnosens r hr] at hsr; cases hsr
      · exact hle r hr (by simp [hnosens r hr])

/-- The best one stays it while deadlines, priorities, virtual runtimes and
ready times stay. -/
theorem BestAmong.map {info info' : XQueueStatus → SLOQueueInfo} {ready ready' : XQueueStatus → Prop}
    (g : XQueueStatus → XQueueStatus) {q : XQueueStatus}
    (hb : BestAmong clock tick info ready q)
    (hready : ∀ r', ready' r' ↔ ∃ r, ready r ∧ r' = g r)
    (htime : ∀ r, (g r).readyTime = r.readyTime)
    (hinfo : ∀ r, ready r → (info' (g r)).deadlineUs = (info r).deadlineUs ∧
      (info' (g r)).priority = (info r).priority ∧ (info' (g r)).vruntime = (info r).vruntime) :
    BestAmong clock tick info' ready' (g q) := by
  have hslack : ∀ r, ready r → slack clock info' (g r) = slack clock info r := by
    intro r hr
    simp only [slack, getSlackUs, (hinfo r hr).1, htime]
  have hurgent : ∀ r, ready r → urgent clock tick info' (g r) = urgent clock tick info r := by
    intro r hr
    simp only [urgent, (hinfo r hr).1, hslack r hr]
  have hsens : ∀ r, ready r → sensitive info' (g r) = sensitive info r := by
    intro r hr
    simp only [sensitive, isLatencySensitive, (hinfo r hr).1, (hinfo r hr).2.1]
  have hall : ∀ {p p' : XQueueStatus → Prop}, (∀ r, ready r → (p' (g r) ↔ p r)) →
      ((∀ r', ready' r' → p' r') ↔ ∀ r, ready r → p r) := by
    intro p p' hp
    constructor
    · intro h r hr; exact (hp r hr).1 (h (g r) ((hready _).2 ⟨r, hr, rfl⟩))
    · intro h r' hr'
      obtain ⟨r, hr, rfl⟩ := (hready r').1 hr'
      exact (hp r hr).2 (h r hr)
  have hex : ∀ {p p' : XQueueStatus → Prop}, (∀ r, ready r → (p' (g r) ↔ p r)) →
      (∃ r', ready' r' ∧ p' r') → ∃ r, ready r ∧ p r := by
    rintro p p' hp ⟨r', hr', hpr⟩
    obtain ⟨r, hr, rfl⟩ := (hready r').1 hr'
    exact ⟨r, hr, (hp r hr).1 hpr⟩
  refine ⟨(hready _).2 ⟨q, hb.mem, rfl⟩, fun h => ?_, fun h h' => ?_, fun h => ?_⟩
  · obtain ⟨hu, hle⟩ := hb.mostUrgent (hex (fun r hr => by rw [hurgent r hr]) h)
    refine ⟨by rw [hurgent q hb.mem]; exact hu, (hall fun r hr => ?_).2 hle⟩
    rw [hurgent r hr, hslack r hr, hslack q hb.mem, (hinfo r hr).2.1, (hinfo q hb.mem).2.1]
  · obtain ⟨hs, hle⟩ := hb.mostImportant ((hall fun r hr => by rw [hurgent r hr]).1 h)
      (hex (fun r hr => by rw [hsens r hr]) h')
    refine ⟨by rw [hsens q hb.mem]; exact hs, (hall fun r hr => ?_).2 hle⟩
    rw [hsens r hr, hslack r hr, hslack q hb.mem, (hinfo r hr).2.1, (hinfo q hb.mem).2.1]
  · refine (hall fun r hr => ?_).2 (hb.leastServed ((hall fun r hr => by rw [hsens r hr]).1 h))
    rw [(hinfo r hr).2.2, (hinfo q hb.mem).2.2]

end

/-- The info that the policy has of an XQueue. -/
def State.info (σ : State) (q : XQueueStatus) : SLOQueueInfo :=
  (σ.queueInfos q.handle).getD (.new 0)

/-- `h` is the best ready XQueue of the device. -/
def IsBest (clock : Clock) (σ : State) (st : Status) (d : XDevice) (h : XQueueHandle) : Prop :=
  ∃ q, BestAmong clock σ.tick σ.info (st.ReadyEntry d) q ∧ q.handle = h

section
variable {clock : Clock} {order : List XQueueHandle} {calls : List Callback}

/-- What a charge leaves has a legal priority if every info before has. -/
theorem updateRuntime_min {σ : State} {xs : List XQueueStatus}
    (hnd : (xs.map (·.handle)).Nodup)
    (hmin : ∀ h info, σ.queueInfos h = some info → PRIORITY_MIN ≤ info.priority)
    {h : XQueueHandle} {info : SLOQueueInfo}
    (he : updateRuntime clock σ.processUtils σ.queueInfos xs h = some info) :
    PRIORITY_MIN ≤ info.priority := by
  by_cases hh : h ∈ xs.map (·.handle)
  · obtain ⟨q, hq, rfl⟩ := List.mem_map.1 hh
    rw [updateRuntime_own hnd hq] at he
    cases he
    rw [infoAt, charged_priority]
    exact getInfo_min hmin q.handle
  · rw [updateRuntime, foldl_other (charge_own σ.processUtils) _ hh] at he
    exact hmin h info he

/-- The XQueue chosen for a device is the best one after the round too. -/
theorem choice_isBest {s s' : PolicyRun policy} (R : PolicyRun.Round clock order s calls s')
    (hmin : ∀ h info, s.policy.queueInfos h = some info → PRIORITY_MIN ≤ info.priority)
    (hzero : ∀ q ∈ s.status.inOrder order, q.handle ≠ 0) {d : XDevice}
    (hd : ∃ q ∈ s.status.inOrder order, q.ready = true ∧ q.device = d) :
    s'.status.ReadyOn d (choice clock s.policy (s.status.inOrder order) d) ∧
      IsBest clock s'.policy s'.status d (choice clock s.policy (s.status.inOrder order) d) := by
  have hs := round_sched R
  have htick : s'.policy.tick = s.policy.tick := (congrArg (fun r => r.2.tick) hs).symm
  have hinfo : ∀ q ∈ s.status.inOrder order, ∀ b : Bool,
      s'.policy.info { q with suspended := b } =
        operated clock (choice clock s.policy (s.status.inOrder order)) q
          (infoAt clock s.policy q) := by
    intro q hq b
    simp only [State.info, (sched_turn R.nodup hs hq).1, Option.getD_some]
  have hfound : ∀ q ∈ s.status.inOrder order, found clock (updateRuntime clock
      s.policy.processUtils s.policy.queueInfos (s.status.inOrder order)) q =
        infoAt clock s.policy q := by
    intro q hq
    exact getInfo_some (updateRuntime_own R.nodup hq)
  obtain ⟨q, hbest, hq⟩ := pickBestQueue_best
    (fun h info he => updateRuntime_min R.nodup hmin he) hzero hd
  obtain ⟨hmem, hready, hdev⟩ := hbest.mem
  refine ⟨R.readyOn.2 ⟨q, hmem, hready, hdev, hq⟩,
    { q with suspended := (verdict q.handle calls).getD q.suspended }, ?_, hq⟩
  rw [htick]
  refine BestAmong.map
    (fun r => { r with suspended := (verdict r.handle calls).getD r.suspended }) hbest
    (fun r' => ?_) (fun r => rfl) fun r hr => ?_
  · simp only [R.readyEntry, and_assoc]
  · rw [hinfo r hr.1, hfound r hr.1]
    simp

end

/-- After every round, on each device with a ready XQueue exactly one of them
is not suspended, and it is the best. -/
theorem slo_runs_best {s s' : Hosted policy} {clock : Clock} {order : List XQueueHandle}
    (hr : (Hosted.life policy).Reachable s) (hzero : 0 ∉ s.scheduler.status.xqueueStatus)
    (hround : s.step (.reschedule clock order) = some s') :
    s'.scheduler.status.OneEach (IsBest clock s'.policy s'.scheduler.status) := by
  have hlife := Hosted.life_run hr
  obtain ⟨calls, R⟩ := Hosted.round_life hr hround
  have hzero' : ∀ q ∈ s.run.status.inOrder order, q.handle ≠ 0 := by
    intro q hq h0
    have hlook := R.mem.1 hq
    rw [h0] at hlook
    exact hzero (AList.lookup_isSome.1 (Option.isSome_iff_exists.2 ⟨q, hlook⟩))
  refine R.oneEach (choice clock s.policy (s.run.status.inOrder order)) ?_ ?_
  · intro d hd
    exact choice_isBest R (priority_life hlife) hzero' hd
  · intro q hq hready
    rw [(sched_turn R.nodup (round_sched R) hq).2]
    exact operation_suspended hready fun hrun =>
      runningFlag.clear hlife (R.mem.1 hq) (infoAt_running hrun)

/-- XQueues 7 and 8 of one device become ready, 8 with a deadline. -/
def deadlineActs : List HostedAct :=
  [.own .run, .own (.recvEvent (.xQueueCreate 1 7 1 2 0 0)),
    .own (.recvEvent (.xQueueCreate 1 8 1 2 0 0)), .own (.recvEvent (.hint 1)),
    .own (.recvEvent (.xQueueReady 1 7 0)), .own (.recvEvent (.xQueueReady 1 8 0)),
    .own (.wake 0), .own (.update 0), .own (.update 0),
    .recvHint 0 ⟨0, fun _ => 0⟩ (.deadline 8 300), .own (.update 0),
    .reschedule ⟨0, fun _ => 0⟩ [7, 8], .own (.update 0)]

/-- The round runs XQueue 8 and suspends XQueue 7. -/
theorem slo_runs_best_deadline : ∃ s' : Hosted policy,
    s'.scheduler.status.xqueueStatus.lookup 7 = some ⟨7, 1, 2, 1, 0, 0, true, true, 0⟩ ∧
    s'.scheduler.status.xqueueStatus.lookup 8 = some ⟨8, 1, 2, 1, 0, 0, true, false, 0⟩ ∧
    s'.scheduler.status.OneEach (IsBest ⟨5, fun _ => 0⟩ s'.policy s'.scheduler.status) := by
  have htrace : (LTS.exec Hosted.step
      (⟨.init .kPolicySLOAdaptive, policy.init⟩ : Hosted policy) deadlineActs).bind (fun s =>
        (s.step (.reschedule ⟨5, fun _ => 0⟩ [7, 8])).map fun s' =>
          (s.scheduler.status.xqueueStatus.keys, s'.scheduler.status.xqueueStatus.lookup 7,
            s'.scheduler.status.xqueueStatus.lookup 8)) =
      some ([8, 7], some ⟨7, 1, 2, 1, 0, 0, true, true, 0⟩,
        some ⟨8, 1, 2, 1, 0, 0, true, false, 0⟩) := by
    decide +kernel
  obtain ⟨s, hs, htrace⟩ := Option.bind_eq_some_iff.1 htrace
  obtain ⟨s', hs', he⟩ := Option.map_eq_some_iff.1 htrace
  simp only [Prod.mk.injEq] at he
  obtain ⟨hkeys, h7, h8⟩ := he
  have hr : (Hosted.life policy).Reachable s :=
    LTS.reachable_of_exec (Hosted.Begins.construct _) hs
  refine ⟨s', h7, h8, slo_runs_best hr ?_ hs'⟩
  rw [AList.mem_keys, hkeys]
  decide

end SLOAdaptivePolicy
end Xsched.Sched
