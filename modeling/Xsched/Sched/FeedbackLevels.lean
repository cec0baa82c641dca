import Mathlib
import Xsched.Core.MapLoop
import Xsched.Sched.Rounds
import Xsched.Sched.TimePolicies

/-!
# Which XQueues run under MLFQ

`MultiLevelFeedbackQueuePolicy::Sched` goes over the XQueues four times: it
makes the missing nodes, accounts for the time since the last round, picks the
ready XQueue of the lowest level for each device (of several the one that has
waited longest), and operates. An XQueue whose slice is used up is suspended
in the second pass and may be picked and resumed again.

It suspends an XQueue only if the node says that it is running. That flag is
set for no suspended XQueue (`runningFlag`), but it may be missing for one
that is not suspended: an XQueue is created without being suspended, and one
that goes idle while it runs loses the flag and not more. When such an XQueue
is ready and another one is picked, nobody suspends it.

**Result.** `one_runs_iff`: a round leaves exactly the picked XQueues running,
and the flags say so, exactly if every ready XQueue that is neither suspended
nor flagged comes out first of its device.
-/
namespace Xsched.Sched
namespace MultiLevelFeedbackQueuePolicy

/-! ## The turns of a round -/

/-- The node of an XQueue as the accounting finds it. -/
def observed (now : TimePoint) (infos : State) (q : XQueueStatus) : MLFQNode :=
  observe now q ((infos q.handle).getD (.new now))

/-- The accounting for one node, and its calls. -/
def accounted (now : TimePoint) (count : XDevice → Nat → Nat) (q : XQueueStatus) (n : MLFQNode) :
    List Callback × MLFQNode :=
  if !q.ready then ([], n)
  else demote now q.handle (recover now (count q.device n.priority) (elapse now n))

/-- The decision over one node, and its calls. -/
def operated (now : TimePoint) (chosen : XDevice → Option XQueueHandle) (q : XQueueStatus)
    (n : MLFQNode) : List Callback × MLFQNode :=
  if !q.ready then ([], { n with isRunning := false })
  else if chosen q.device = some q.handle then
    if !n.isRunning then
      ([.resume q.handle],
        { n with isRunning := true, lastResumeTime := now, lastPendingStart := now })
    else ([], { n with lastResumeTime := now })
  else if n.isRunning then
    ([.suspend q.handle], { n with isRunning := false, lastPendingStart := now })
  else ([], n)

section
variable {now : TimePoint} {count : XDevice → Nat → Nat} {q : XQueueStatus} {n : MLFQNode}
  {best : XDevice → Option (Nat × XQueueHandle)} {chosen : XDevice → Option XQueueHandle}

theorem observeAll_own : OwnKey (·.handle)
    (fun v q => some (observe now q (v.getD (.new now))))
    (fun (infos : State) (q : XQueueStatus) =>
      Function.update infos q.handle (some (observe now q ((infos q.handle).getD (.new now))))) := by
  intro m q h
  dsimp only
  rw [Function.update_apply]
  split
  · rename_i hh; rw [hh]
  · rfl

theorem account_own : OwnKey (·.handle)
    (fun v q => if !q.ready then v else some (accounted now count q (v.getD (.new now))).2)
    fun (infos : State) (q : XQueueStatus) => (account now count infos q).2 := by
  intro m q h
  dsimp only [account]
  cases hready : q.ready with
  | false => simp
  | true =>
    simp only [Bool.not_true, Bool.false_eq_true, if_false, Function.update_apply, accounted, hready]
    split
    · rename_i hh; rw [hh]; rfl
    · rfl

theorem account_calls (infos : State) (q : XQueueStatus) : (account now count infos q).1 =
    (accounted now count q ((infos q.handle).getD (.new now))).1 := by
  unfold account accounted
  cases q.ready <;> rfl

/-- The decision writes a node unless it has nothing to say. -/
theorem operate_eq (infos : State) (q : XQueueStatus) : operate now best infos q =
    ((operated now (fun d => (best d).map Prod.snd) q ((infos q.handle).getD (.new now))).1,
      if q.ready ∧ (best q.device).map Prod.snd ≠ some q.handle ∧
        ((infos q.handle).getD (.new now)).isRunning = false then infos
      else Function.update infos q.handle
        (some (operated now (fun d => (best d).map Prod.snd) q
          ((infos q.handle).getD (.new now))).2)) := by
  unfold operate operated node
  dsimp only
  split_ifs <;> simp_all

theorem operate_own : OwnKey (·.handle)
    (fun v q =>
      if q.ready ∧ (best q.device).map Prod.snd ≠ some q.handle ∧
        (v.getD (.new now)).isRunning = false then v
      else some (operated now (fun d => (best d).map Prod.snd) q (v.getD (.new now))).2)
    fun (infos : State) (q : XQueueStatus) => (operate now best infos q).2 := by
  intro m q h
  dsimp only
  rw [operate_eq]
  by_cases hh : h = q.handle
  · subst hh
    rw [if_pos rfl]
    split_ifs <;> simp
  · rw [if_neg hh]
    split_ifs <;> simp [hh]

/-- An XQueue that waits and is not picked keeps its node as it is. -/
theorem operated_waiting (hready : q.ready = true) (hc : chosen q.device ≠ some q.handle)
    (hrun : n.isRunning = false) : operated now chosen q n = ([], n) := by
  simp [operated, hready, hc, hrun]

theorem operated_level : (operated now chosen q n).2.priority = n.priority ∧
    (operated now chosen q n).2.accumulatedPendingTime = n.accumulatedPendingTime := by
  unfold operated
  split_ifs <;> exact ⟨rfl, rfl⟩

/-- The calls of a turn are about its own XQueue. -/
theorem verdict_operated_other {h : XQueueHandle} (hh : h ≠ q.handle) :
    verdict h (operated now chosen q n).1 = none := by
  unfold operated
  split_ifs <;> simp [Ne.symm hh]

theorem verdict_accounted_other {h : XQueueHandle} (hh : h ≠ q.handle) :
    verdict h (accounted now count q n).1 = none := by
  unfold accounted demote
  split_ifs <;> simp [Ne.symm hh]

/-- The flag is left for the picked one of the ready XQueues. -/
theorem operated_running : (operated now chosen q n).2.isRunning = true ↔
    q.ready = true ∧ chosen q.device = some q.handle := by
  unfold operated
  cases hready : q.ready with
  | false => simp
  | true =>
    by_cases hc : chosen q.device = some q.handle <;> cases hrun : n.isRunning <;> simp [hc, hrun]

/-- The accounting takes the flag off, with a `Suspend`, or leaves it. -/
theorem accounted_cases (now : TimePoint) (count : XDevice → Nat → Nat) (q : XQueueStatus)
    (n : MLFQNode) : (accounted now count q n).1 = [] ∧
      (accounted now count q n).2.isRunning = n.isRunning ∨
    q.ready = true ∧ n.isRunning = true ∧ (accounted now count q n).1 = [.suspend q.handle] ∧
      (accounted now count q n).2.isRunning = false := by
  have hrun : ∀ c, (recover now c (elapse now n)).isRunning = n.isRunning := by
    intro c
    unfold recover elapse
    split_ifs <;> rfl
  unfold accounted
  cases hready : q.ready with
  | false => exact Or.inl ⟨rfl, rfl⟩
  | true =>
    simp only [Bool.not_true, Bool.false_eq_true, if_false]
    unfold demote
    split
    · rename_i hd
      exact Or.inr ⟨trivial, (hrun _).symm.trans hd.1, rfl, rfl⟩
    · exact Or.inl ⟨rfl, hrun _⟩

@[simp] theorem observed_running (infos : State) : (observed now infos q).isRunning =
    ((infos q.handle).getD (.new now)).isRunning := by
  unfold observed observe
  dsimp only
  split_ifs <;> rfl

/-- A ready XQueue does not run after its turns if it is not the picked one, and
had the flag or was suspended. -/
theorem turns_suspended (hready : q.ready = true)
    (hflag : n.isRunning = true → q.suspended = false) :
    ((verdict q.handle (operated now chosen q (accounted now count q n).2).1).or
      (verdict q.handle (accounted now count q n).1)).getD q.suspended = false ↔
        chosen q.device = some q.handle ∨ n.isRunning = false ∧ q.suspended = false := by
  rcases accounted_cases now count q n with
    ⟨hcalls, hrun⟩ | ⟨-, hn, hcalls, hrun⟩
  · rw [hcalls]
    unfold operated
    by_cases hc : chosen q.device = some q.handle
    · cases hn : n.isRunning with
      | true => simp [hready, hc, hrun, hn, hflag hn]
      | false => simp [hready, hc, hrun, hn]
    · cases hn : n.isRunning <;> simp [hready, hc, hrun, hn]
  · rw [hcalls]
    unfold operated
    by_cases hc : chosen q.device = some q.handle <;> simp [hready, hc, hrun, hn]

end

/-! ## A round -/

/-- The nodes after the accounting. -/
def accountedAll (now : TimePoint) (infos : State) (xs : List XQueueStatus) : State :=
  (forEach (account now (nCount now (observeAll now infos xs) xs)) (observeAll now infos xs) xs).2

/-- Lowest level first, then the longest wait. -/
def levelKey (now : TimePoint) (infos : State) (q : XQueueStatus) : ℕ ×ₗ ℤ :=
  toLex ((node now infos q.handle).priority, -(node now infos q.handle).accumulatedPendingTime)

/-- The XQueue that a round picks for a device. -/
noncomputable def pick (now : TimePoint) (infos : State) (xs : List XQueueStatus) (d : XDevice) :
    Option XQueueStatus :=
  (readyOf xs d).argmin (levelKey now (accountedAll now infos xs))

section
variable {now : TimePoint} {σ σ' : State} {xs : List XQueueStatus} {calls : List Callback}
  {q : XQueueStatus} {d : XDevice}

theorem bestHandles_eq (infos : State) (xs : List XQueueStatus) (d : XDevice) :
    (bestHandles now infos xs d).map Prod.snd =
      ((readyOf xs d).argmin (levelKey now infos)).map (·.handle) := by
  have hloop : bestHandles now infos xs = xs.foldl
      (keepBest (·.ready) (·.device) (fun q => ((node now infos q.handle).priority, q.handle))
        fun (v w : Nat × XQueueHandle) => v.1 < w.1 ∨ v.1 = w.1 ∧
          (node now infos v.2).accumulatedPendingTime > (node now infos w.2).accumulatedPendingTime)
      fun _ => none := by
    unfold bestHandles
    congr 1
    funext m q
    dsimp only [keepBest]
    by_cases hready : q.ready = true
    · rw [if_neg (by simp [hready]), if_neg (by simp [hready])]
      cases m q.device with
      | none => rfl
      | some v =>
        by_cases hlt : (node now infos q.handle).priority < v.1
        · simp [hlt]
        · by_cases heq : (node now infos q.handle).priority = v.1
          · simp [heq]
          · simp [hlt, heq]
    · rw [if_pos (by simp [hready]), if_pos (by simp [hready])]
  rw [hloop, foldl_keepBest (levelKey now infos) (fun q r => ?_) xs d, Option.map_map]
  · rfl
  · simp [levelKey, Prod.Lex.toLex_lt_toLex]

theorem accountedAll_own (hnd : (xs.map (·.handle)).Nodup) (hq : q ∈ xs) :
    node now (accountedAll now σ xs) q.handle =
      (accounted now (nCount now (observeAll now σ xs) xs) q (observed now σ q)).2 := by
  have hfound : observeAll now σ xs q.handle = some (observed now σ q) :=
    foldl_own observeAll_own σ hnd hq
  rw [node, accountedAll, forEach_state, foldl_own account_own _ hnd hq, hfound]
  unfold accounted
  cases q.ready <;> rfl

/-- The verdict of the accounting over an XQueue, and that of the decisions. -/
theorem account_verdict (count : XDevice → Nat → Nat) (hnd : (xs.map (·.handle)).Nodup)
    (hq : q ∈ xs) {n : MLFQNode} {m : State} (hm : m q.handle = some n) :
    verdict q.handle (forEach (account now count) m xs).1 =
      verdict q.handle (accounted now count q n).1 := by
  have hloop := forEach_calls account_own
    (c := fun v q => (accounted now count q (v.getD (.new now))).1)
    (fun m q => by rw [account_calls]) m hnd
  rw [hloop, verdict_flatMap hnd (fun r _ h hh => verdict_accounted_other hh) hq, hm]
  rfl

theorem operate_verdict (now : TimePoint) (best : XDevice → Option (Nat × XQueueHandle))
    (hnd : (xs.map (·.handle)).Nodup) (hq : q ∈ xs) {n : MLFQNode} {m : State}
    (hm : m q.handle = some n) :
    verdict q.handle (forEach (operate now best) m xs).1 =
      verdict q.handle (operated now (fun d => (best d).map Prod.snd) q n).1 := by
  have hloop := forEach_calls operate_own
    (c := fun v q => (operated now (fun d => (best d).map Prod.snd) q (v.getD (.new now))).1)
    (fun m q => by rw [operate_eq]) m hnd
  rw [hloop, verdict_flatMap hnd (fun r _ h hh => verdict_operated_other hh) hq, hm]
  rfl

/-- What a round makes of the node of an XQueue, and its verdict over it. -/
theorem sched_turn (hnd : (xs.map (·.handle)).Nodup) (hs : sched now σ xs = (calls, σ'))
    (hq : q ∈ xs) :
    σ' q.handle = some (operated now (fun d => (pick now σ xs d).map (·.handle)) q
        (node now (accountedAll now σ xs) q.handle)).2 ∧
      verdict q.handle calls =
        (verdict q.handle (operated now (fun d => (pick now σ xs d).map (·.handle)) q
          (node now (accountedAll now σ xs) q.handle)).1).or
        (verdict q.handle (accounted now (nCount now (observeAll now σ xs) xs) q
          (observed now σ q)).1) := by
  have hpick : (fun d => (bestHandles now (accountedAll now σ xs) xs d).map Prod.snd) =
      fun d => (pick now σ xs d).map (·.handle) :=
    funext fun d => bestHandles_eq (accountedAll now σ xs) xs d
  have hobserved : ∀ r ∈ xs, observeAll now σ xs r.handle = some (observed now σ r) :=
    fun r hr => foldl_own observeAll_own σ hnd hr
  have hnode : ∀ r ∈ xs, ∃ n, accountedAll now σ xs r.handle = some n := by
    intro r hr
    rw [accountedAll, forEach_state, foldl_own account_own _ hnd hr, hobserved r hr]
    split <;> exact ⟨_, rfl⟩
  have hstate : σ' = (forEach (operate now (bestHandles now (accountedAll now σ xs) xs))
      (accountedAll now σ xs) xs).2 := (congrArg Prod.snd hs).symm
  have hcalls : calls = (forEach (account now (nCount now (observeAll now σ xs) xs))
        (observeAll now σ xs) xs).1 ++
      (forEach (operate now (bestHandles now (accountedAll now σ xs) xs))
        (accountedAll now σ xs) xs).1 ++
      if xs.any (·.ready) then [.addTimer (now + defaultTick * 1000)] else [] :=
    (congrArg Prod.fst hs).symm
  constructor
  · obtain ⟨n, hn⟩ := hnode q hq
    rw [hstate, forEach_state, foldl_own operate_own _ hnd hq, node, hn, Option.getD_some, hpick]
    split
    · rename_i hwait
      rw [operated_waiting hwait.1 ?_ hwait.2.2]
      rw [← congrFun hpick]
      exact hwait.2.1
    · rfl
  · obtain ⟨n, hn⟩ := hnode q hq
    have hoperated := operate_verdict now
      (bestHandles now (accountedAll now σ xs) xs) hnd hq hn
    rw [hpick] at hoperated
    rw [hcalls, verdict_timer, verdict_append, hoperated,
      account_verdict _ hnd hq (hobserved q hq), node, hn, Option.getD_some]

end

/-! ## The flags -/

/-- The node of the XQueue says that it is running. -/
def Flagged (σ : State) (h : XQueueHandle) : Prop := ∃ n, σ h = some n ∧ n.isRunning = true

theorem round_sched {s s' : PolicyRun policy} {clock : Clock} {order : List XQueueHandle}
    {calls : List Callback} (R : PolicyRun.Round clock order s calls s') :
    sched clock.now s.policy (s.status.inOrder order) = (calls, s'.policy) :=
  Option.some.inj R.sched

section
variable {s s' : PolicyRun policy} {clock : Clock} {order : List XQueueHandle}
  {calls : List Callback} {q : XQueueStatus}

theorem observed_flagged (now : TimePoint) {σ : State} :
    (observed now σ q).isRunning = true ↔ Flagged σ q.handle := by
  unfold Flagged
  rw [observed_running]
  cases σ q.handle <;> simp [MLFQNode.new]

/-- After a round those ready XQueues have the flag that it picked. -/
theorem flagged_after (R : PolicyRun.Round clock order s calls s')
    (hq : q ∈ s.status.inOrder order) : Flagged s'.policy q.handle ↔
      q.ready = true ∧
        (pick clock.now s.policy (s.status.inOrder order) q.device).map (·.handle) =
          some q.handle := by
  unfold Flagged
  rw [(sched_turn R.nodup (round_sched R) hq).1]
  simp [operated_running]

/-- After a round those ready XQueues run that it picked, and those that nobody suspends. -/
theorem running_after (R : PolicyRun.Round clock order s calls s')
    (hq : q ∈ s.status.inOrder order) (hready : q.ready = true)
    (hflag : Flagged s.policy q.handle → q.suspended = false) :
    (verdict q.handle calls).getD q.suspended = false ↔
      (pick clock.now s.policy (s.status.inOrder order) q.device).map (·.handle) =
        some q.handle ∨ ¬ Flagged s.policy q.handle ∧ q.suspended = false := by
  rw [(sched_turn R.nodup (round_sched R) hq).2, accountedAll_own R.nodup hq, ← observed_flagged
    clock.now, Bool.not_eq_true]
  exact turns_suspended hready fun hrun => hflag ((observed_flagged clock.now).1 hrun)

end

/-- The `is_running` flag of the nodes. -/
def runningFlag : RunningFlag policy where
  flag := Flagged
  init h := by rintro ⟨n, he, -⟩; cases he
  hint clock hint σ h hf := hf
  sched clock order s calls s' R hclear q hq hf := by
    obtain ⟨hready, hpick⟩ := (flagged_after R hq).1 hf
    exact (running_after R hq hready (hclear q hq)).2 (Or.inl hpick)

/-! ## The result -/

/-- The level of an XQueue, and how long it has waited. -/
def level (σ : State) (h : XQueueHandle) : Nat := (σ h).elim 0 (·.priority)

def pending (σ : State) (h : XQueueHandle) : Int := (σ h).elim 0 (·.accumulatedPendingTime)

/-- No ready XQueue of the device is on a lower level, and none of its level has waited longer. -/
def IsBest (σ : State) (st : Status) (d : XDevice) (h : XQueueHandle) : Prop :=
  ∀ h', st.ReadyOn d h' →
    level σ h < level σ h' ∨ level σ h = level σ h' ∧ pending σ h' ≤ pending σ h

/-- On each device with a ready XQueue a single one runs, the best one, and the
flags say which. -/
structure OneRuns (σ : State) (st : Status) : Prop where
  one : st.OneEach (IsBest σ st)
  flags : ∀ h q, st.xqueueStatus.lookup h = some q →
    (Flagged σ h ↔ q.ready = true ∧ q.suspended = false)

/-- `q` is the first of its device: the others are on a higher level or, if on
the same, have waited less or as long and come later in the loop. -/
def First (now : TimePoint) (σ : State) (xs : List XQueueStatus) (q : XQueueStatus) : Prop :=
  ∀ r ∈ readyOf xs q.device,
    levelKey now (accountedAll now σ xs) q < levelKey now (accountedAll now σ xs) r ∨
      levelKey now (accountedAll now σ xs) q = levelKey now (accountedAll now σ xs) r ∧
        (readyOf xs q.device).idxOf q ≤ (readyOf xs q.device).idxOf r

theorem first_iff_pick {now : TimePoint} {σ : State} {xs : List XQueueStatus} {q : XQueueStatus}
    (hq : q ∈ xs) (hready : q.ready = true) :
    First now σ xs q ↔ pick now σ xs q.device = some q := by
  unfold First pick
  rw [List.argmin_eq_some_iff]
  constructor
  · intro hf
    refine ⟨mem_readyOf.2 ⟨hq, hready, rfl⟩, fun r hr => ?_, fun r hr hle => ?_⟩
    · rcases hf r hr with hlt | ⟨heq, -⟩
      · exact hlt.le
      · exact heq.le
    · rcases hf r hr with hlt | ⟨-, hidx⟩
      · exact absurd hlt (not_lt.2 hle)
      · exact hidx
  · rintro ⟨-, hle, hidx⟩ r hr
    rcases lt_or_eq_of_le (hle r hr) with hlt | heq
    · exact Or.inl hlt
    · exact Or.inr ⟨heq, hidx r hr heq.ge⟩

/-- The picked XQueue is the best one after the round too. -/
theorem pick_isBest {s s' : PolicyRun policy} {clock : Clock} {order : List XQueueHandle}
    {calls : List Callback} (R : PolicyRun.Round clock order s calls s') {d : XDevice}
    {c : XQueueStatus} (hc : pick clock.now s.policy (s.status.inOrder order) d = some c) :
    s'.status.ReadyOn d c.handle ∧ IsBest s'.policy s'.status d c.handle := by
  have hafter : ∀ r ∈ s.status.inOrder order,
      levelKey clock.now (accountedAll clock.now s.policy (s.status.inOrder order)) r =
        toLex (level s'.policy r.handle, -pending s'.policy r.handle) := by
    intro r hr
    rw [levelKey, level, pending, (sched_turn R.nodup (round_sched R) hr).1]
    simp only [Option.elim_some, operated_level]
  obtain ⟨hmem, hready, hd⟩ := mem_readyOf.1 (List.argmin_mem hc)
  refine ⟨R.readyOn.2 ⟨c, hmem, hready, hd, rfl⟩, fun h' hh' => ?_⟩
  obtain ⟨r, hr, hready', hd', rfl⟩ := R.readyOn.1 hh'
  have hle := List.le_of_mem_argmin (mem_readyOf.2 ⟨hr, hready', hd'⟩) hc
  rw [hafter c hmem, hafter r hr, Prod.Lex.toLex_le_toLex] at hle
  simpa using hle

/-- What a round leaves, if no XQueue with the flag is suspended. -/
theorem Round.oneRuns_iff {s s' : PolicyRun policy} {clock : Clock} {order : List XQueueHandle}
    {calls : List Callback} (R : PolicyRun.Round clock order s calls s')
    (hclear : ∀ q ∈ s.status.inOrder order, Flagged s.policy q.handle → q.suspended = false) :
    OneRuns s'.policy s'.status ↔
      ∀ q ∈ s.status.inOrder order, q.ready = true → q.suspended = false →
        ¬ Flagged s.policy q.handle → First clock.now s.policy (s.status.inOrder order) q := by
  have hpicked : ∀ d, (∃ q ∈ s.status.inOrder order, q.ready = true ∧ q.device = d) →
      ∃ c, pick clock.now s.policy (s.status.inOrder order) d = some c := by
    rintro d ⟨q, hq, hready, hd⟩
    exact exists_argmin _ (mem_readyOf.2 ⟨hq, hready, hd⟩)
  constructor
  · intro hone q hq hready hsus hflag
    obtain ⟨c, hc⟩ := hpicked q.device ⟨q, hq, hready, rfl⟩
    obtain ⟨hmem, hcready, hcd⟩ := mem_readyOf.1 (List.argmin_mem hc)
    obtain ⟨h, -, -, honly⟩ := hone.one q.device ⟨q.handle, R.readyOn.2 ⟨q, hq, hready, rfl, rfl⟩⟩
    have hqruns : s'.status.Runs q.device q.handle :=
      (R.runs hq hready).2 ((running_after R hq hready (hclear q hq)).2 (Or.inr ⟨hflag, hsus⟩))
    have hcruns : s'.status.Runs q.device c.handle := by
      rw [← hcd]
      refine (R.runs hmem hcready).2 ((running_after R hmem hcready (hclear c hmem)).2 (Or.inl ?_))
      rw [hcd, hc]
      rfl
    have hsame : q.handle = c.handle := ((honly _).1 hqruns).trans ((honly _).1 hcruns).symm
    have hlook := R.mem.1 hq
    rw [hsame, R.mem.1 hmem] at hlook
    cases hlook
    exact (first_iff_pick hq hready).2 hc
  · intro hfirst
    -- An XQueue that nobody suspends is the picked one by the condition.
    have hruns : ∀ q ∈ s.status.inOrder order, q.ready = true →
        ((verdict q.handle calls).getD q.suspended = false ↔
          (pick clock.now s.policy (s.status.inOrder order) q.device).map (·.handle) =
            some q.handle) := by
      intro q hq hready
      rw [running_after R hq hready (hclear q hq)]
      refine or_iff_left_of_imp fun ⟨hflag, hsus⟩ => ?_
      rw [(first_iff_pick hq hready).1 (hfirst q hq hready hsus hflag)]
      rfl
    refine ⟨R.oneEach (fun d => (pick clock.now s.policy (s.status.inOrder order) d).elim 0
      (·.handle)) (fun d hd => ?_) (fun q hq hready => ?_), fun h q' hq' => ?_⟩
    · obtain ⟨c, hc⟩ := hpicked d hd
      rw [hc]
      exact pick_isBest R hc
    · obtain ⟨c, hc⟩ := hpicked q.device ⟨q, hq, hready, rfl⟩
      rw [hruns q hq hready, hc]
      simp [eq_comm]
    · obtain ⟨q, hq, rfl, rfl⟩ := R.entry hq'
      refine (flagged_after R hq).trans (and_congr_right fun hready => ?_)
      exact (hruns q hq hready).symm

/-- **A round leaves one XQueue running for each device, the best, and the
flags say which, exactly if** every ready XQueue comes out first of its device
that is not suspended and has no flag. -/
theorem one_runs_iff {s s' : Hosted policy} {clock : Clock} {order : List XQueueHandle}
    (hr : (Hosted.life policy).Reachable s) (hround : s.step (.reschedule clock order) = some s') :
    OneRuns s'.policy s'.scheduler.status ↔
      ∀ q ∈ s.scheduler.status.inOrder order, q.ready = true → q.suspended = false →
        ¬ Flagged s.policy q.handle →
        First clock.now s.policy (s.scheduler.status.inOrder order) q := by
  obtain ⟨calls, R⟩ := Hosted.round_life hr hround
  exact Round.oneRuns_iff R fun q hq hf =>
    runningFlag.clear (Hosted.life_run hr) (R.mem.1 hq) hf

/-- XQueue 7 runs when XQueue 8 of its device becomes ready. -/
def newcomerActs : List HostedAct :=
  [.own .run, .own (.recvEvent (.xQueueCreate 1 7 1 2 0 0)),
    .own (.recvEvent (.xQueueReady 1 7 0)), .own (.recvEvent (.xQueueCreate 1 8 1 2 0 0)),
    .own (.recvEvent (.xQueueReady 1 8 0)), .own (.wake 0), .own (.update 0), .own (.update 0),
    .reschedule ⟨0, fun _ => 0⟩ [7], .own (.update 0), .own (.update 0)]

def newcomerClock : Clock := ⟨1000, fun _ => 0⟩

theorem newcomer_round : ∃ s s' : Hosted policy, (Hosted.life policy).Reachable s ∧
    s.step (.reschedule newcomerClock [7, 8]) = some s' ∧
    s'.scheduler.status.xqueueStatus.lookup 7 = some ⟨7, 1, 2, 1, 0, 0, true, false, 0⟩ ∧
    s'.scheduler.status.xqueueStatus.lookup 8 = some ⟨8, 1, 2, 1, 0, 0, true, false, 0⟩ := by
  have htrace : (LTS.exec Hosted.step (⟨.init .kPolicyMultiLevelFeedbackQueue, policy.init⟩ :
      Hosted policy) newcomerActs).bind (fun s =>
        (s.step (.reschedule newcomerClock [7, 8])).map fun s' =>
          (s'.scheduler.status.xqueueStatus.lookup 7, s'.scheduler.status.xqueueStatus.lookup 8)) =
      some (some ⟨7, 1, 2, 1, 0, 0, true, false, 0⟩, some ⟨8, 1, 2, 1, 0, 0, true, false, 0⟩) := by
    decide +kernel
  obtain ⟨s, hs, htrace⟩ := Option.bind_eq_some_iff.1 htrace
  obtain ⟨s', hs', he⟩ := Option.map_eq_some_iff.1 htrace
  obtain ⟨h7, h8⟩ := Prod.mk.inj he
  exact ⟨s, s', LTS.reachable_of_exec (Hosted.Begins.construct _) hs, hs', h7, h8⟩

/-- The newcomer is not picked and runs beside XQueue 7. -/
theorem newcomer_runs_too : ∃ s s' : Hosted policy, (Hosted.life policy).Reachable s ∧
    s.step (.reschedule newcomerClock [7, 8]) = some s' ∧
    ¬ OneRuns s'.policy s'.scheduler.status := by
  obtain ⟨s, s', hr, hround, h7, h8⟩ := newcomer_round
  refine ⟨s, s', hr, hround, fun hone => ?_⟩
  obtain ⟨h, -, -, honly⟩ := hone.one 1 ⟨7, _, h7, rfl, rfl⟩
  have h₇ : 7 = h := (honly 7).1 ⟨_, h7, rfl, rfl, rfl⟩
  have h₈ : 8 = h := (honly 8).1 ⟨_, h8, rfl, rfl, rfl⟩
  rw [← h₈] at h₇
  cases h₇

theorem one_runs_iff_newcomer : ∃ s s' : Hosted policy,
    (Hosted.life policy).Reachable s ∧ s.step (.reschedule newcomerClock [7, 8]) = some s' ∧
    (OneRuns s'.policy s'.scheduler.status ↔
      ∀ q ∈ s.scheduler.status.inOrder [7, 8], q.ready = true → q.suspended = false →
        ¬ Flagged s.policy q.handle →
        First newcomerClock.now s.policy (s.scheduler.status.inOrder [7, 8]) q) := by
  obtain ⟨s, s', hr, hround, -⟩ := newcomer_round
  exact ⟨s, s', hr, hround, one_runs_iff hr hround⟩

end MultiLevelFeedbackQueuePolicy
end Xsched.Sched
