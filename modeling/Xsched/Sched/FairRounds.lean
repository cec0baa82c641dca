import Mathlib.Algebra.Order.Ring.Rat
import Xsched.Core.MapLoop
import Xsched.Sched.Rounds
import Xsched.Sched.TimePolicies

/-!
# A round of the completely fair scheduler

`CompletelyFairSchedulerPolicy::Sched` goes over the XQueues four times. It
charges those that are running for the time since the last round, looks for
the least virtual runtime of each device, gives a node to the ready XQueues
that have none and picks the one with the least virtual runtime, and resumes
that one and suspends the other ready ones.

The third pass changes `min_vruntimes` while it reads it, but never what a new
node gets from it (`select_fold`): on a device without an old node each new one
begins at 0. The last pass makes a node too, for an XQueue that is not ready.

**Result.** `selected`, `operated` and `sched_turn` say what a round makes of
the node of an XQueue, and which calls it makes. On each device the one that
runs afterwards has the least virtual runtime, and only its node has the flag
(`one_runs`).
-/
namespace Xsched.Sched
namespace CompletelyFairSchedulerPolicy

/-! ## The turns of a round -/

/-- The charge of a node. -/
def charged (now : TimePoint) (n : CFSNode) : CFSNode :=
  if n.isRunning then
    { n with vruntime := n.vruntime + sinceUs now n.lastResumeTime * (1024 / n.weight) }
  else n

/-- The node of an XQueue that is ready and has none. -/
def fresh (now : TimePoint) (vruntime : ℚ) : CFSNode :=
  { CFSNode.new with lastResumeTime := now, vruntime }

/-- The decision over one node, and its calls. -/
def operated (now : TimePoint) (chosen : XDevice → Option XQueueHandle) (q : XQueueStatus)
    (n : CFSNode) : List Callback × CFSNode :=
  if !q.ready then ([], { n with isRunning := false })
  else if chosen q.device = some q.handle then
    if !n.isRunning then
      ([.resume q.handle], { n with isRunning := true, lastResumeTime := now })
    else ([], { n with lastResumeTime := now })
  else ([.suspend q.handle], { n with isRunning := false })

section
variable {now : TimePoint} {q : XQueueStatus} {n : CFSNode}
  {chosen : XDevice → Option XQueueHandle}

@[simp] theorem charged_running : (charged now n).isRunning = n.isRunning := by
  unfold charged; split <;> rfl

theorem charge_own :
    OwnKey (·.handle) (fun v (_ : XQueueStatus) => v.map (charged now)) (charge now) := by
  intro m q h
  unfold charge
  by_cases hh : h = q.handle
  · subst hh
    rw [if_pos rfl]
    cases hm : m q.handle with
    | none => simpa using hm
    | some n => by_cases hrun : n.isRunning = true <;> simp [charged, hm, hrun, setNode]
  · rw [if_neg hh]
    cases m q.handle with
    | none => rfl
    | some n => by_cases hrun : n.isRunning = true <;> simp [hrun, setNode, hh]

theorem operate_eq (m : State) (q : XQueueStatus) : operate now chosen m q =
    ((operated now chosen q (node m q.handle)).1,
      setNode m q.handle (operated now chosen q (node m q.handle)).2) := by
  unfold operate operated
  dsimp only
  split_ifs <;> rfl

theorem operate_own (now : TimePoint) (chosen : XDevice → Option XQueueHandle) : OwnKey (·.handle)
    (fun v q => some (operated now chosen q (v.getD .new)).2)
    fun m q => (operate now chosen m q).2 := by
  intro m q h
  dsimp only
  rw [operate_eq]
  simp only [setNode, Function.update_apply, node]
  split
  · rename_i hh; rw [hh]
  · rfl

theorem verdict_operated_other {h : XQueueHandle} (hh : h ≠ q.handle) :
    verdict h (operated now chosen q n).1 = none := by
  unfold operated
  split_ifs <;> simp [Ne.symm hh]

@[simp] theorem operated_vruntime : (operated now chosen q n).2.vruntime = n.vruntime := by
  unfold operated; split_ifs <;> rfl

/-- The flag is left for the picked one of the ready XQueues, and its time is the round's. -/
theorem operated_running : (operated now chosen q n).2.isRunning = true ↔
    q.ready = true ∧ chosen q.device = some q.handle := by
  unfold operated
  by_cases hready : q.ready = true <;> by_cases hc : chosen q.device = some q.handle <;>
    by_cases hrun : n.isRunning = true <;> simp [hready, hc, hrun]

theorem operated_lastResumeTime (h : (operated now chosen q n).2.isRunning = true) :
    (operated now chosen q n).2.lastResumeTime = now := by
  obtain ⟨hready, hc⟩ := operated_running.1 h
  unfold operated
  by_cases hrun : n.isRunning = true <;> simp [hready, hc, hrun]

/-- A ready XQueue runs after its turn exactly if it is the picked one. -/
theorem operated_suspended (hready : q.ready = true)
    (hflag : n.isRunning = true → q.suspended = false) :
    (verdict q.handle (operated now chosen q n).1).getD q.suspended = false ↔
      chosen q.device = some q.handle := by
  unfold operated
  by_cases hc : chosen q.device = some q.handle
  · by_cases hrun : n.isRunning = true
    · simp [hready, hc, hrun, hflag hrun]
    · simp [hready, hc, hrun]
  · simp [hready, hc]

end

/-! ## Picking the least -/

/-- The ready XQueues of a device that have a node. -/
theorem minVruntimes_eq (infos : State) (xs : List XQueueStatus) (d : XDevice) :
    minVruntimes infos xs d =
      ((xs.filter fun q => q.device = d ∧ (q.ready && (infos q.handle).isSome)).argmin
        fun q => (node infos q.handle).vruntime).map fun q => (node infos q.handle).vruntime := by
  have hloop : minVruntimes infos xs = xs.foldl
      (keepBest (fun q => q.ready && (infos q.handle).isSome) (·.device)
        (fun q => (node infos q.handle).vruntime) (· < ·))
      fun _ => none := by
    unfold minVruntimes
    congr 1
    funext m q
    dsimp only [keepBest, node]
    by_cases hready : q.ready = true
    · rcases Option.eq_none_or_eq_some (infos q.handle) with hq | ⟨n, hq⟩
      · simp [hready, hq]
      · rcases Option.eq_none_or_eq_some (m q.device) with hm | ⟨v, hm⟩ <;>
          simp [hready, hq, hm]
    · simp [hready]
  rw [hloop]
  exact foldl_keepBest (fun q => (node infos q.handle).vruntime) (fun q r => Iff.rfl) xs d

/-- A new node, if the XQueue is ready and has none. -/
def makeNode (now : TimePoint) (floor : XDevice → ℚ) (infos : State) (q : XQueueStatus) : State :=
  match infos q.handle with
  | some _ => infos
  | none => if q.ready then setNode infos q.handle (fresh now (floor q.device)) else infos

section
variable {now : TimePoint} {floor : XDevice → ℚ} {q : XQueueStatus} {s : Selection}

theorem makeNode_own : OwnKey (·.handle)
    (fun v q => if q.ready then some (v.getD (fresh now (floor q.device))) else v)
    (makeNode now floor) := by
  intro m q h
  unfold makeNode
  by_cases hh : h = q.handle
  · subst hh
    rw [if_pos rfl]
    rcases Option.eq_none_or_eq_some (m q.handle) with hm | ⟨n, hm⟩ <;>
      by_cases hready : q.ready = true <;> simp [hm, hready, setNode]
  · rw [if_neg hh]
    rcases Option.eq_none_or_eq_some (m q.handle) with hm | ⟨n, hm⟩ <;>
      by_cases hready : q.ready = true <;> simp [hm, hready, setNode, hh]

/-- What a new node gets is the same through the whole pass. -/
theorem admitNew_spec (now : TimePoint) (hfloor : ∀ d, (s.minVruntimes d).getD 0 = floor d)
    (hready : q.ready = true) :
    (admitNew now q s).infos = makeNode now floor s.infos q ∧
      (∀ d, ((admitNew now q s).minVruntimes d).getD 0 = floor d) ∧
      (admitNew now q s).minHandles = s.minHandles := by
  unfold admitNew makeNode
  cases s.infos q.handle with
  | some n => exact ⟨rfl, hfloor, rfl⟩
  | none =>
    refine ⟨?_, fun d => ?_, rfl⟩
    · simp only [hready, if_true, fresh, hfloor]
    · cases hm : s.minVruntimes q.device with
      | some v => exact hfloor d
      | none =>
        dsimp only
        rw [Function.update_apply]
        split
        · rename_i hd
          rw [hd, ← hfloor, hm]
          rfl
        · exact hfloor d

theorem selectMin_spec (s : Selection) (q : XQueueStatus) (d : XDevice) :
    (selectMin q s).infos = s.infos ∧ (selectMin q s).minVruntimes = s.minVruntimes ∧
      (selectMin q s).minHandles d =
        if d = q.device then
          match s.minHandles d with
          | none => some q.handle
          | some h =>
            if (node s.infos q.handle).vruntime < (node s.infos h).vruntime then some q.handle
            else some h
        else s.minHandles d := by
  unfold selectMin
  cases hm : s.minHandles q.device with
  | none =>
    refine ⟨rfl, rfl, ?_⟩
    by_cases hd : d = q.device
    · subst hd; simp [hm]
    · simp [hd]
  | some h =>
    dsimp only
    by_cases hlt : (node s.infos q.handle).vruntime < (node s.infos h).vruntime
    · rw [if_pos hlt]
      refine ⟨rfl, rfl, ?_⟩
      by_cases hd : d = q.device
      · subst hd; simp [hm, hlt]
      · simp [hd]
    · rw [if_neg hlt]
      refine ⟨rfl, rfl, ?_⟩
      by_cases hd : d = q.device
      · subst hd; simp [hm, hlt]
      · simp [hd]

/-- The node of an XQueue after the third pass. -/
def given (now : TimePoint) (floor : XDevice → ℚ) (infos : State) (q : XQueueStatus) : CFSNode :=
  (infos q.handle).getD (if q.ready then fresh now (floor q.device) else .new)

theorem node_makeNode {infos : State} {xs : List XQueueStatus} (hnd : (xs.map (·.handle)).Nodup)
    (hq : q ∈ xs) :
    node (xs.foldl (makeNode now floor) infos) q.handle = given now floor infos q := by
  rw [node, foldl_own makeNode_own infos hnd hq, given]
  by_cases hready : q.ready = true
  · simp [hready]
  · simp [hready]

/-- The third pass gives nodes as `makeNode` does, and picks the least for each device. -/
theorem select_fold (now : TimePoint) (infos : State) {minVruntimes : XDevice → Option ℚ}
    (hfloor : ∀ d, (minVruntimes d).getD 0 = floor d) {xs : List XQueueStatus}
    (hnd : (xs.map (·.handle)).Nodup) :
    (∀ d, ((xs.foldl (select now) ⟨infos, minVruntimes, fun _ => none⟩).minVruntimes d).getD 0 =
        floor d) ∧
      (xs.foldl (select now) ⟨infos, minVruntimes, fun _ => none⟩).infos =
        xs.foldl (makeNode now floor) infos ∧
      ∀ d, (xs.foldl (select now) ⟨infos, minVruntimes, fun _ => none⟩).minHandles d =
        ((readyOf xs d).argmin fun q => (given now floor infos q).vruntime).map (·.handle) := by
  induction xs using List.reverseRecOn with
  | nil => exact ⟨hfloor, rfl, fun d => rfl⟩
  | append_singleton xs q ih =>
    have hnd' : (xs.map (·.handle)).Nodup := hnd.sublist (List.Sublist.map _ (by simp))
    obtain ⟨hmin, hinfos, hhandles⟩ := ih hnd'
    have hnode : ∀ r ∈ xs ++ [q], node ((xs ++ [q]).foldl (makeNode now floor) infos) r.handle =
        given now floor infos r := fun r hr => node_makeNode hnd hr
    simp only [List.foldl_append, List.foldl_cons, List.foldl_nil] at hnode ⊢
    generalize hs : xs.foldl (select now) ⟨infos, minVruntimes, fun _ => none⟩ = s at *
    by_cases hready : q.ready = true
    · obtain ⟨hinfos', hmin', hhandles'⟩ := admitNew_spec now hmin hready
      have hsel : select now s q = selectMin q (admitNew now q s) := by simp [select, hready]
      rw [hinfos] at hinfos'
      rw [hsel]
      refine ⟨?_, ?_, fun d => ?_⟩
      · rw [(selectMin_spec _ q q.device).2.1]; exact hmin'
      · rw [(selectMin_spec _ q q.device).1]; exact hinfos'
      · rw [(selectMin_spec _ q d).2.2, hhandles', hhandles, hinfos']
        by_cases hd : d = q.device
        · rw [if_pos hd, readyOf_snoc_self hready hd, List.argmin_concat]
          cases hr : (readyOf xs d).argmin fun q => (given now floor infos q).vruntime with
          | none => rfl
          | some r =>
            have hmem : r ∈ xs := (mem_readyOf.1 (List.argmin_mem hr)).1
            simp only [Option.map_some, hnode q (by simp), hnode r (by simp [hmem])]
            split <;> rfl
        · rw [if_neg hd, readyOf_snoc_other (Or.inr hd)]
    · have hsel : select now s q = s := by simp [select, hready]
      have hadmit : makeNode now floor s.infos q = s.infos := by
        unfold makeNode
        cases s.infos q.handle <;> simp [hready]
      rw [hsel, ← hinfos, hadmit]
      refine ⟨hmin, rfl, fun d => ?_⟩
      rw [hhandles, readyOf_snoc_other (Or.inl (by simpa using hready))]

end

/-- The least virtual runtime of a device, or 0: where a new node begins. -/
def base (now : TimePoint) (σ : State) (xs : List XQueueStatus) (d : XDevice) : ℚ :=
  (minVruntimes (xs.foldl (charge now) σ) xs d).getD 0

/-- The node that a round picks by and operates on. -/
def selected (now : TimePoint) (σ : State) (xs : List XQueueStatus) (q : XQueueStatus) : CFSNode :=
  given now (base now σ xs) (fun h => (σ h).map (charged now)) q

/-- The ready XQueue that a round picks for a device. -/
def pick (now : TimePoint) (σ : State) (xs : List XQueueStatus) (d : XDevice) :
    Option XQueueStatus :=
  (readyOf xs d).argmin fun q => (selected now σ xs q).vruntime

/-! ## A round -/

section
variable {now : TimePoint} {σ σ' : State} {xs : List XQueueStatus} {calls : List Callback}
  {q : XQueueStatus} {d : XDevice}

/-- A node is charged, unless the round has to make one. -/
theorem selected_some {n : CFSNode} (hn : σ q.handle = some n) :
    selected now σ xs q = charged now n := by
  simp [selected, given, hn]

theorem selected_none (hn : σ q.handle = none) (hready : q.ready = true) :
    selected now σ xs q = fresh now (base now σ xs q.device) := by
  simp [selected, given, hn, hready]

theorem selected_running : (selected now σ xs q).isRunning = true ↔
    ∃ n, σ q.handle = some n ∧ n.isRunning = true := by
  cases hn : σ q.handle with
  | some n => simp [selected_some hn]
  | none =>
    by_cases hready : q.ready = true <;>
      simp [selected, given, hn, hready, fresh, CFSNode.new]

/-- The picked XQueue has had the least. -/
theorem pick_le {c r : XQueueStatus} (hc : pick now σ xs d = some c) (hr : r ∈ readyOf xs d) :
    (selected now σ xs c).vruntime ≤ (selected now σ xs r).vruntime :=
  List.le_of_mem_argmin (f := fun q => (selected now σ xs q).vruntime) hr hc

theorem foldl_charge (hnd : (xs.map (·.handle)).Nodup) (hq : q ∈ xs) :
    xs.foldl (charge now) σ q.handle = (σ q.handle).map (charged now) :=
  foldl_own charge_own σ hnd hq

/-- A new node begins where some ready XQueue of the device with a node stands. -/
theorem base_spec (now : TimePoint) (hnd : (xs.map (·.handle)).Nodup) {n : CFSNode}
    (hq : q ∈ readyOf xs d)
    (hn : σ q.handle = some n) :
    ∃ r ∈ readyOf xs d, ∃ m, σ r.handle = some m ∧ base now σ xs d = (charged now m).vruntime := by
  have hcand : ∀ r ∈ xs, node (xs.foldl (charge now) σ) r.handle =
      ((σ r.handle).map (charged now)).getD .new := by
    intro r hr
    rw [node, foldl_charge hnd hr]
  obtain ⟨hmem, hready, hd⟩ := mem_readyOf.1 hq
  have hq' : q ∈ xs.filter fun r => r.device = d ∧
      (r.ready && (xs.foldl (charge now) σ r.handle).isSome) := by
    rw [List.mem_filter, foldl_charge hnd hmem, hn]
    simp [hmem, hready, hd]
  obtain ⟨r, hr⟩ := exists_argmin
    (fun r => (node (xs.foldl (charge now) σ) r.handle).vruntime) hq'
  obtain ⟨hrmem, hrok, -⟩ := argmin_filter_some hr
  simp only [decide_eq_true_eq, Bool.and_eq_true, foldl_charge hnd hrmem, Option.isSome_map] at hrok
  obtain ⟨m, hm⟩ := Option.isSome_iff_exists.1 hrok.2.2
  refine ⟨r, mem_readyOf.2 ⟨hrmem, hrok.2.1, hrok.1⟩, m, hm, ?_⟩
  rw [base, minVruntimes_eq, hr, Option.map_some, Option.getD_some, hcand r hrmem, hm]
  rfl

/-- What a round makes of the node of an XQueue, and its verdict over it. -/
theorem sched_turn (hnd : (xs.map (·.handle)).Nodup) (hs : sched now σ xs = (calls, σ'))
    (hq : q ∈ xs) :
    σ' q.handle = some (operated now (fun d => (pick now σ xs d).map (·.handle)) q
        (selected now σ xs q)).2 ∧
      verdict q.handle calls =
        verdict q.handle (operated now (fun d => (pick now σ xs d).map (·.handle)) q
          (selected now σ xs q)).1 := by
  obtain ⟨-, hinfos, hhandles⟩ := select_fold now (xs.foldl (charge now) σ)
    (fun d => (rfl : _ = base now σ xs d)) hnd
  have hgiven : ∀ r ∈ xs, given now (base now σ xs) (xs.foldl (charge now) σ) r =
      selected now σ xs r := by
    intro r hr
    rw [given, foldl_charge hnd hr]
    rfl
  have hpick : (xs.foldl (select now) ⟨xs.foldl (charge now) σ,
      minVruntimes (xs.foldl (charge now) σ) xs, fun _ => none⟩).minHandles =
        fun d => (pick now σ xs d).map (·.handle) := by
    funext d
    rw [hhandles, pick]
    congr 1
    exact argmin_congr fun r hr => by rw [hgiven r (mem_readyOf.1 hr).1]
  simp only [sched, hpick, hinfos, Prod.mk.injEq] at hs
  obtain ⟨hcalls, hstate⟩ := hs
  have hnode : (xs.foldl (makeNode now (base now σ xs)) (xs.foldl (charge now) σ) q.handle).getD .new =
      selected now σ xs q := by
    rw [← hgiven q hq]
    exact node_makeNode hnd hq
  constructor
  · rw [← hstate, forEach_state, foldl_own (operate_own now _) _ hnd hq, hnode]
  · have hloop := forEach_calls (operate_own now fun d => (pick now σ xs d).map (·.handle))
      (c := fun v q => (operated now (fun d => (pick now σ xs d).map (·.handle)) q
        (v.getD .new)).1)
      (fun m q => by rw [operate_eq]; rfl)
      (xs.foldl (makeNode now (base now σ xs)) (xs.foldl (charge now) σ)) hnd
    rw [← hcalls, verdict_timer, hloop,
      verdict_flatMap hnd (fun r _ h hh => verdict_operated_other hh) hq, hnode]

end

/-- A round leaves the nodes of other XQueues alone. -/
theorem sched_other {now : TimePoint} {σ σ' : State} {xs : List XQueueStatus}
    {calls : List Callback} (hnd : (xs.map (·.handle)).Nodup) (hs : sched now σ xs = (calls, σ'))
    {h : XQueueHandle} (hh : h ∉ xs.map (·.handle)) : σ' h = σ h := by
  obtain ⟨-, hinfos, -⟩ := select_fold now (xs.foldl (charge now) σ)
    (fun d => (rfl : _ = base now σ xs d)) hnd
  simp only [sched, hinfos, Prod.mk.injEq] at hs
  rw [← hs.2, forEach_state, foldl_other (operate_own now _) _ hh, foldl_other makeNode_own _ hh,
    foldl_other charge_own _ hh]

/-! ## One XQueue runs -/

/-- The node of the XQueue says that it is running. -/
def Flagged (σ : State) (h : XQueueHandle) : Prop := ∃ n, σ h = some n ∧ n.isRunning = true

def vruntime (σ : State) (h : XQueueHandle) : ℚ := (node σ h).vruntime

section
variable {s s' : PolicyRun policy} {clock : Clock} {order : List XQueueHandle}
  {calls : List Callback} {q : XQueueStatus}

theorem round_sched (R : PolicyRun.Round clock order s calls s') :
    sched clock.now s.policy (s.status.inOrder order) = (calls, s'.policy) :=
  Option.some.inj R.sched

/-- After a round a node has the virtual runtime that the round picked by. -/
theorem vruntime_after (R : PolicyRun.Round clock order s calls s')
    (hq : q ∈ s.status.inOrder order) : vruntime s'.policy q.handle =
      (selected clock.now s.policy (s.status.inOrder order) q).vruntime := by
  rw [vruntime, node, (sched_turn R.nodup (round_sched R) hq).1, Option.getD_some,
    operated_vruntime]

/-- A flag that a round leaves is as old as the round. -/
theorem lastResumeTime_after (R : PolicyRun.Round clock order s calls s')
    (hq : q ∈ s.status.inOrder order) {n' : CFSNode} (hn' : s'.policy q.handle = some n')
    (hrun : n'.isRunning = true) : n'.lastResumeTime = clock.now := by
  rw [(sched_turn R.nodup (round_sched R) hq).1] at hn'
  cases hn'
  exact operated_lastResumeTime hrun

theorem flagged_after (R : PolicyRun.Round clock order s calls s')
    (hq : q ∈ s.status.inOrder order) : Flagged s'.policy q.handle ↔
      q.ready = true ∧
        (pick clock.now s.policy (s.status.inOrder order) q.device).map (·.handle) =
          some q.handle := by
  unfold Flagged
  rw [(sched_turn R.nodup (round_sched R) hq).1]
  simp [operated_running]

theorem running_after (R : PolicyRun.Round clock order s calls s')
    (hq : q ∈ s.status.inOrder order) (hready : q.ready = true)
    (hflag : Flagged s.policy q.handle → q.suspended = false) :
    (verdict q.handle calls).getD q.suspended = false ↔
      (pick clock.now s.policy (s.status.inOrder order) q.device).map (·.handle) =
        some q.handle := by
  rw [(sched_turn R.nodup (round_sched R) hq).2]
  exact operated_suspended hready fun hrun => hflag (selected_running.1 hrun)

end

/-- A hint makes a node or changes the weight of one. -/
theorem recvHint_cases {σ : State} {hint : Hint} {h : XQueueHandle} {n' : CFSNode}
    (he : recvHint σ hint h = some n') :
    (∃ n, σ h = some n ∧ n'.vruntime = n.vruntime ∧ n'.isRunning = n.isRunning ∧
      n'.lastResumeTime = n.lastResumeTime) ∨
      σ h = none ∧ n'.vruntime = 0 ∧ n'.isRunning = false := by
  cases hint with
  | priority handle prio =>
    simp only [recvHint, setNode, Function.update_apply] at he
    split at he
    · rename_i hh
      subst hh
      cases he
      cases hn : σ h with
      | none => exact Or.inr ⟨rfl, by simp [node, hn, CFSNode.new]⟩
      | some n => exact Or.inl ⟨n, rfl, by simp [node, hn]⟩
    · exact Or.inl ⟨n', he, rfl, rfl, rfl⟩
  | _ => exact Or.inl ⟨n', he, rfl, rfl, rfl⟩

theorem recvHint_none {σ : State} {hint : Hint} {h : XQueueHandle}
    (he : recvHint σ hint h = none) : σ h = none := by
  cases hint with
  | priority handle prio =>
    simp only [recvHint, setNode, Function.update_apply] at he
    split at he
    · cases he
    · exact he
  | _ => exact he

/-- The `is_running` flag of the nodes. -/
def runningFlag : RunningFlag policy where
  flag := Flagged
  init h := by rintro ⟨n, he, -⟩; cases he
  hint clock hint σ h hf := by
    obtain ⟨n', he, hrun⟩ := hf
    rcases recvHint_cases he with ⟨n, hn, -, hsame, -⟩ | ⟨-, -, hnot⟩
    · exact ⟨n, hn, hsame ▸ hrun⟩
    · rw [hnot] at hrun
      cases hrun
  sched clock order s calls s' R hclear q hq hf := by
    obtain ⟨hready, hpick⟩ := (flagged_after R hq).1 hf
    exact (running_after R hq hready (hclear q hq)).2 hpick

/-- No ready XQueue of the device has had less. -/
def IsBest (σ : State) (st : Status) (d : XDevice) (h : XQueueHandle) : Prop :=
  ∀ h', st.ReadyOn d h' → vruntime σ h ≤ vruntime σ h'

/-- On each device with a ready XQueue a single one runs, one that has had the
least, and the flags say which. -/
structure OneRuns (σ : State) (st : Status) : Prop where
  one : st.OneEach (IsBest σ st)
  flags : ∀ h q, st.xqueueStatus.lookup h = some q →
    (Flagged σ h ↔ q.ready = true ∧ q.suspended = false)

theorem Round.oneRuns {s s' : PolicyRun policy} {clock : Clock} {order : List XQueueHandle}
    {calls : List Callback} (R : PolicyRun.Round clock order s calls s')
    (hclear : ∀ q ∈ s.status.inOrder order, Flagged s.policy q.handle → q.suspended = false) :
    OneRuns s'.policy s'.status := by
  have hpicked : ∀ d, (∃ q ∈ s.status.inOrder order, q.ready = true ∧ q.device = d) →
      ∃ c, pick clock.now s.policy (s.status.inOrder order) d = some c := by
    rintro d ⟨q, hq, hready, hd⟩
    exact exists_argmin _ (mem_readyOf.2 ⟨hq, hready, hd⟩)
  refine ⟨R.oneEach (fun d => (pick clock.now s.policy (s.status.inOrder order) d).elim 0
    (·.handle)) (fun d hd => ?_) (fun q hq hready => ?_), fun h q' hq' => ?_⟩
  · obtain ⟨c, hc⟩ := hpicked d hd
    obtain ⟨hmem, hready, hdev⟩ := mem_readyOf.1 (List.argmin_mem hc)
    rw [hc]
    refine ⟨R.readyOn.2 ⟨c, hmem, hready, hdev, rfl⟩, fun h' hh' => ?_⟩
    obtain ⟨r, hr, hready', hd', rfl⟩ := R.readyOn.1 hh'
    rw [Option.elim_some, vruntime_after R hmem, vruntime_after R hr]
    exact pick_le hc (mem_readyOf.2 ⟨hr, hready', hd'⟩)
  · obtain ⟨c, hc⟩ := hpicked q.device ⟨q, hq, hready, rfl⟩
    rw [running_after R hq hready (hclear q hq), hc]
    simp [eq_comm]
  · obtain ⟨q, hq, rfl, rfl⟩ := R.entry hq'
    refine (flagged_after R hq).trans (and_congr_right fun hready => ?_)
    exact (running_after R hq hready (hclear q hq)).symm

/-- **One XQueue runs on each device with a ready one**, after every round. -/
theorem one_runs {s s' : Hosted policy} {clock : Clock} {order : List XQueueHandle}
    (hr : (Hosted.life policy).Reachable s) (hround : s.step (.reschedule clock order) = some s') :
    OneRuns s'.policy s'.scheduler.status := by
  obtain ⟨calls, R⟩ := Hosted.round_life hr hround
  exact Round.oneRuns R fun q hq hf => runningFlag.clear (Hosted.life_run hr) (R.mem.1 hq) hf

end CompletelyFairSchedulerPolicy
end Xsched.Sched
