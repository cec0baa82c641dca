import Mathlib.Data.List.Induction
import Xsched.Sched.HintPolicies
import Xsched.Sched.Rounds

/-!
# Highest priority first over whole runs

A `LocalScheduler` runs `HighestPriorityFirstPolicy`, from its construction
or from a `SetPolicy` on. Events come and hints arrive, XQueues are created
and destroyed, become ready and idle, and the worker reschedules. After each
`Reschedule` the status is such that on every device exactly the ready
XQueues with the maximal priority of that device are not suspended.

The priority of an XQueue is what the hints say: the last `PriorityHint` for
its handle, clamped, or the default (`hintedPriority`). It is read off the
history; `priorities_` is the map that the policy keeps of it
(`priority_hinted`).

A round reads the status in one order and calls `Suspend` and `Resume`, which
write to the map it iterates. Each handle is called for once
(`lookup_calls`), and no call changes what a later turn of the loop reads.

**Result.** `hpf_priority_safe`.
-/
namespace Xsched.Sched

/-! ## A round of the scheduler -/

namespace Status
variable {st : Status} {order : List XQueueHandle}

/-- The calls of a loop that suspends the XQueues with `f` and resumes the others. -/
def calls (f : XQueueStatus → Prop) [DecidablePred f] (xs : List XQueueStatus) : List Callback :=
  xs.map fun q => if f q then .suspend q.handle else .resume q.handle

variable {f : XQueueStatus → Prop} [DecidablePred f] {xs : List XQueueStatus}

theorem callback_call (q : XQueueStatus) :
    st.callback (if f q then .suspend q.handle else .resume q.handle) =
      st.operate (decide (f q)) q.handle := by
  by_cases hf : f q <;> simp [hf, callback, suspend, resume]

/-- An entry that no call is about. -/
theorem lookup_calls_other {h : XQueueHandle} (hh : h ∉ xs.map (·.handle)) :
    ((calls f xs).foldl callback st).xqueueStatus.lookup h = st.xqueueStatus.lookup h := by
  induction xs generalizing st with
  | nil => rfl
  | cons q xs ih =>
    rw [List.map_cons, List.mem_cons, not_or] at hh
    simp only [calls, List.map_cons, List.foldl_cons] at ih ⊢
    rw [ih hh.2, callback_call, lookup_operate, if_neg hh.1]

/-- Each XQueue of the loop is suspended or not as its turn decided. -/
theorem lookup_calls (hnd : (xs.map (·.handle)).Nodup) {q q₀ : XQueueStatus} (hq : q ∈ xs)
    (hq₀ : st.xqueueStatus.lookup q.handle = some q₀) :
    ((calls f xs).foldl callback st).xqueueStatus.lookup q.handle =
      some { q₀ with suspended := decide (f q) } := by
  induction xs generalizing st with
  | nil => cases hq
  | cons q₁ xs ih =>
    rw [List.map_cons, List.nodup_cons] at hnd
    rcases List.mem_cons.1 hq with rfl | hq
    · have hother :
          ((calls f xs).foldl callback (st.operate (decide (f q)) q.handle)).xqueueStatus.lookup
              q.handle =
            (st.operate (decide (f q)) q.handle).xqueueStatus.lookup q.handle :=
        lookup_calls_other hnd.1
      simp only [calls, List.map_cons, List.foldl_cons, callback_call] at hother ⊢
      rw [hother, lookup_operate, if_pos rfl, hq₀]
      rfl
    · have hne : q.handle ≠ q₁.handle := fun he => hnd.1 (he ▸ List.mem_map_of_mem hq)
      have hlook :
          (st.operate (decide (f q₁)) q₁.handle).xqueueStatus.lookup q.handle = some q₀ := by
        rw [lookup_operate, if_neg hne, hq₀]
      have hrest := ih hnd.2 hq hlook
      simp only [calls, List.map_cons, List.foldl_cons, callback_call] at hrest ⊢
      exact hrest

end Status

/-- What a round of such calls leaves: the same entries, suspended or not as
their turn decided. -/
theorem Hosted.round_entry {scheduler scheduler' : LocalScheduler} {order : List XQueueHandle}
    {f : XQueueStatus → Prop} [DecidablePred f] (hkey : scheduler.status.Keyed)
    (hperm : order.Perm scheduler.status.xqueueStatus.keys)
    (hstep : scheduler.step (.sched (Status.calls f (scheduler.status.inOrder order))) =
      some scheduler') (h : XQueueHandle) (q : XQueueStatus) :
    scheduler'.status.xqueueStatus.lookup h = some q ↔
      ∃ q₀ ∈ scheduler.status.inOrder order, q₀.handle = h ∧
        q = { q₀ with suspended := decide (f q₀) } := by
  have hhandles : (scheduler.status.inOrder order).map (·.handle) = order :=
    hkey.map_handle fun h hh => hperm.mem_iff.1 hh
  have hnd : ((scheduler.status.inOrder order).map (·.handle)).Nodup := by
    rw [hhandles]; exact hperm.nodup_iff.2 scheduler.status.xqueueStatus.keys_nodup
  have hlook : ∀ q₀ ∈ scheduler.status.inOrder order,
      scheduler'.status.xqueueStatus.lookup q₀.handle =
        some { q₀ with suspended := decide (f q₀) } := by
    intro q₀ hmem
    obtain ⟨h₀, -, hq₀⟩ := List.mem_filterMap.1 hmem
    rw [Hosted.status_sched hstep]
    exact Status.lookup_calls hnd hmem (by rw [hkey h₀ q₀ hq₀]; exact hq₀)
  constructor
  · intro hq
    have hold : h ∈ order := by
      by_contra hh
      rw [Hosted.status_sched hstep, Status.lookup_calls_other (by rw [hhandles]; exact hh)] at hq
      exact hh (hperm.mem_iff.2 (AList.lookup_isSome.1 (by rw [hq]; rfl)))
    obtain ⟨q₀, hmem, hh⟩ := List.mem_map.1 (hhandles.symm ▸ hold)
    subst hh
    exact ⟨q₀, hmem, rfl, Option.some.inj (hq.symm.trans (hlook q₀ hmem))⟩
  · rintro ⟨q₀, hmem, rfl, rfl⟩
    exact hlook q₀ hmem

/-! ## What the hints say -/

/-- The last priority that a hint gave a handle. -/
def hintedPriority (h : XQueueHandle) (acts : List HostedAct) : Option Priority :=
  acts.foldl
    (fun last act =>
      match act with
      | .recvHint _ _ (.priority handle prio) => if handle = h then some prio else last
      | _ => last)
    none

/-- The priority of an XQueue: what was hinted, within the limits, or the default. -/
def priorityOf (acts : List HostedAct) (h : XQueueHandle) : Priority :=
  match hintedPriority h acts with
  | some prio => max PRIORITY_MIN (min prio PRIORITY_MAX)
  | none => PRIORITY_DEFAULT

theorem clampPriority_eq (prio : Priority) :
    clampPriority prio = max PRIORITY_MIN (min prio PRIORITY_MAX) := by
  simp only [clampPriority, PRIORITY_MIN, PRIORITY_MAX]
  unfold Priority at *
  split_ifs <;> omega

namespace HighestPriorityFirstPolicy

/-- What an act of the scheduler makes of the entry for a handle. -/
def entryAfter (h : XQueueHandle) (last : Option Priority) : HostedAct → Option Priority
  | .recvHint _ _ (.priority handle prio) => if handle = h then some (clampPriority prio) else last
  | _ => last

theorem step_entry {s s' : Hosted policy} {act : HostedAct} (h : s.step act = some s')
    (handle : XQueueHandle) : s'.policy handle = entryAfter handle (s.policy handle) act := by
  cases act with
  | recvHint now clock hint =>
    simp only [Hosted.step] at h
    split at h
    · obtain ⟨scheduler, -, rfl⟩ := Option.map_eq_some_iff.1 h
      cases hint with
      | priority handle' prio =>
        simp only [recvPriority, entryAfter, Function.update_apply, eq_comm]
      | _ => rfl
    · cases h
  | reschedule clock order =>
    obtain ⟨-, calls, hcalls, -⟩ := Hosted.round h
    exact congrFun (congrArg Prod.snd (Option.some.inj hcalls)).symm handle
  | own act =>
    cases act with
    | sched calls => cases h
    | setPolicy type =>
      simp only [Hosted.step] at h
      split at h <;> cases h
      rfl
    | update now =>
      simp only [Hosted.step] at h
      split at h
      · cases h
      · obtain ⟨scheduler, -, rfl⟩ := Option.map_eq_some_iff.1 h
        rfl
    | recvEvent e => cases h; rfl
    | run | stop | join | wake now =>
      obtain ⟨scheduler, -, rfl⟩ := Option.map_eq_some_iff.1 h
      rfl

theorem exec_entry {s s' : Hosted policy} {acts : List HostedAct}
    (h : LTS.exec Hosted.step s acts = some s') (handle : XQueueHandle) :
    s'.policy handle = acts.foldl (entryAfter handle) (s.policy handle) :=
  LTS.exec_foldl (g := fun s => s.policy handle) (fun _ _ _ hstep => step_entry hstep handle) h

/-- **The map of the policy is what the hints say**, within the limits. -/
theorem priority_hinted {s s' : Hosted policy} {acts : List HostedAct}
    (hinit : s.policy = policy.init) (h : LTS.exec Hosted.step s acts = some s')
    (handle : XQueueHandle) : getPriority s'.policy handle = priorityOf acts handle := by
  have hhom : acts.foldl (entryAfter handle) ((none : Option Priority).map clampPriority) =
      (hintedPriority handle acts).map clampPriority := by
    refine List.foldl_hom (Option.map clampPriority) ?_
    intro last act
    cases act with
    | recvHint now clock hint =>
      cases hint with
      | priority h prio =>
        simp only [entryAfter]
        split <;> rfl
      | _ => rfl
    | _ => rfl
  unfold getPriority priorityOf
  rw [exec_entry h, hinit]
  change (acts.foldl (entryAfter handle) ((none : Option Priority).map clampPriority)).getD
    PRIORITY_DEFAULT = _
  rw [hhom]
  cases hintedPriority handle acts with
  | none => rfl
  | some prio => exact clampPriority_eq prio

/-! ## The maximum of a device -/

/-- `m` is the maximal priority of the ready XQueues of a device; `none`: it has none. -/
def IsMax (prio : XQueueHandle → Priority) (xs : List XQueueStatus) (d : XDevice) :
    Option Priority → Prop
  | none => ∀ q ∈ xs, q.ready = true → q.device ≠ d
  | some m => (∃ q ∈ xs, q.ready = true ∧ q.device = d ∧ prio q.handle = m) ∧
      ∀ q ∈ xs, q.ready = true → q.device = d → prio q.handle ≤ m

section
variable {prio : XQueueHandle → Priority} {xs : List XQueueStatus} {d : XDevice}
  {q : XQueueStatus} {m : Option Priority}

/-- An XQueue that is not ready, or on another device, changes no maximum. -/
theorem IsMax.skip (hm : IsMax prio xs d m) (hq : q.ready = true → q.device ≠ d) :
    IsMax prio (xs ++ [q]) d m := by
  have hlast : ∀ q' ∈ xs ++ [q], q'.ready = true → q'.device = d → q' ∈ xs := by
    intro q' hq' hr hd
    rcases List.mem_append.1 hq' with hmem | hmem
    · exact hmem
    · rw [List.mem_singleton.1 hmem] at hr hd
      exact absurd hd (hq hr)
  cases m with
  | none => exact fun q' hq' hr hd => hm q' (hlast q' hq' hr hd) hr hd
  | some m =>
    obtain ⟨⟨q', hmem, hq'⟩, hle⟩ := hm
    exact ⟨⟨q', List.mem_append_left _ hmem, hq'⟩,
      fun q'' hq'' hr hd => hle q'' (hlast q'' hq'' hr hd) hr hd⟩

/-- A ready XQueue of the device that no earlier one exceeds. -/
theorem IsMax.raise (hm : IsMax prio xs d m) (hr : q.ready = true) (hd : q.device = d)
    (hle : ∀ p, m = some p → p ≤ prio q.handle) :
    IsMax prio (xs ++ [q]) d (some (prio q.handle)) := by
  refine ⟨⟨q, by simp, hr, hd, rfl⟩, fun q' hq' hr' hd' => ?_⟩
  rcases List.mem_append.1 hq' with hmem | hmem
  · cases m with
    | none => exact absurd hd' (hm q' hmem hr')
    | some p => exact (hm.2 q' hmem hr' hd').trans (hle p rfl)
  · rw [List.mem_singleton.1 hmem]

/-- A ready XQueue of the device that an earlier one exceeds or equals. -/
theorem IsMax.keep {p : Priority} (hm : IsMax prio xs d (some p)) (hle : prio q.handle ≤ p) :
    IsMax prio (xs ++ [q]) d (some p) := by
  obtain ⟨⟨q', hmem, hq'⟩, hmax⟩ := hm
  refine ⟨⟨q', List.mem_append_left _ hmem, hq'⟩, fun q'' hq'' hr hd => ?_⟩
  rcases List.mem_append.1 hq'' with hmem' | hmem'
  · exact hmax q'' hmem' hr hd
  · rw [List.mem_singleton.1 hmem']; exact hle

end

theorem runningPrioMax_snoc (prio : XQueueHandle → Priority) (xs : List XQueueStatus)
    (q : XQueueStatus) : runningPrioMax prio (xs ++ [q]) =
      if !q.ready then runningPrioMax prio xs
      else
        match runningPrioMax prio xs q.device with
        | none => Function.update (runningPrioMax prio xs) q.device (some (prio q.handle))
        | some p =>
          if prio q.handle > p then
            Function.update (runningPrioMax prio xs) q.device (some (prio q.handle))
          else runningPrioMax prio xs := by
  unfold runningPrioMax
  rw [List.foldl_append]
  rfl

/-- The first pass finds the maximum of every device. -/
theorem runningPrioMax_isMax (prio : XQueueHandle → Priority) (xs : List XQueueStatus)
    (d : XDevice) : IsMax prio xs d (runningPrioMax prio xs d) := by
  induction xs using List.reverseRecOn with
  | nil => intro q hq; cases hq
  | append_singleton xs q ih =>
    rw [runningPrioMax_snoc]
    cases hready : q.ready with
    | false => exact ih.skip fun hr => absurd hr (by simp [hready])
    | true =>
      by_cases hd : q.device = d
      · subst hd
        cases hm : runningPrioMax prio xs q.device with
        | none =>
          simp only [Bool.not_true, Bool.false_eq_true, if_false, Function.update_self]
          exact ih.raise hready rfl fun p hp => by rw [hm] at hp; cases hp
        | some p =>
          simp only [Bool.not_true, Bool.false_eq_true, if_false]
          rw [hm] at ih
          split
          · rename_i hgt
            rw [Function.update_self]
            exact ih.raise hready rfl fun p' hp' => by cases hp'; exact le_of_lt hgt
          · rename_i hle
            rw [hm]
            exact ih.keep (not_lt.1 hle)
      · have hskip := ih.skip (q := q) fun _ => hd
        cases hm : runningPrioMax prio xs q.device with
        | none =>
          simp only [Bool.not_true, Bool.false_eq_true, if_false]
          rw [Function.update_of_ne (Ne.symm hd)]; exact hskip
        | some p =>
          simp only [Bool.not_true, Bool.false_eq_true, if_false]
          split
          · rw [Function.update_of_ne (Ne.symm hd)]; exact hskip
          · exact hskip

open Hosted in
/-- **Exactly the ready XQueues of maximal priority run on every device**, after
every reschedule of a local scheduler with highest priority first. -/
theorem hpf_priority_safe {r : LocalScheduler} (hr : LocalScheduler.lts.Reachable r)
    {acts : List HostedAct} {s s' : Hosted policy} {clock : Clock} {order : List XQueueHandle}
    (hrun : LTS.exec step ⟨r, policy.init⟩ acts = some s)
    (hround : s.step (.reschedule clock order) = some s') {h : XQueueHandle} {q : XQueueStatus}
    (hq : s'.scheduler.status.xqueueStatus.lookup h = some q) (hready : q.ready = true) :
    (∀ h' q', s'.scheduler.status.xqueueStatus.lookup h' = some q' → q'.ready = true →
      q'.device = q.device → priorityOf acts h < priorityOf acts h' → q.suspended = true) ∧
    ((∀ h' q', s'.scheduler.status.xqueueStatus.lookup h' = some q' → q'.ready = true →
      q'.device = q.device → priorityOf acts h' ≤ priorityOf acts h) → q.suspended = false) := by
  have hkey : s.scheduler.status.Keyed :=
    LocalScheduler.keyed_reachable (exec_scheduler hr hrun)
  obtain ⟨hperm, calls, hcalls, hstep⟩ := round hround
  obtain ⟨rfl, -⟩ := Prod.mk.inj (Option.some.inj hcalls)
  have hprio : getPriority s.policy = priorityOf acts := funext (priority_hinted rfl hrun)
  rw [hprio] at hstep
  have hmax := runningPrioMax_isMax (priorityOf acts) (s.scheduler.status.inOrder order)
  have hround := round_entry hkey hperm hstep
  obtain ⟨q₀, hmem, rfl, rfl⟩ := (hround h q).1 hq
  have hm := hmax q₀.device
  -- The entry is on a device with a ready XQueue, so the device has a maximum.
  cases htop : runningPrioMax (priorityOf acts) (s.scheduler.status.inOrder order) q₀.device with
  | none =>
    rw [htop] at hm
    exact absurd rfl (hm q₀ hmem hready)
  | some m =>
    rw [htop] at hm
    obtain ⟨⟨q₁, hmem₁, hready₁, hdev₁, hprio₁⟩, hle⟩ := hm
    simp only [Option.getD_some]
    constructor
    · intro h' q' hq' hready' hdev hlt
      obtain ⟨q₀', hmem', rfl, rfl⟩ := (hround h' q').1 hq'
      exact decide_eq_true (lt_of_lt_of_le hlt (hle q₀' hmem' hready' hdev))
    · intro hall
      refine decide_eq_false (not_lt.2 ?_)
      rw [← hprio₁]
      exact hall q₁.handle _ ((hround _ _).2 ⟨q₁, hmem₁, rfl, rfl⟩) hready₁ hdev₁

/-- XQueues 7 and 8 of one device become ready, 8 with a higher priority. -/
def hintedActs : List HostedAct :=
  [.own .run, .own (.recvEvent (.xQueueCreate 1 7 1 2 0 0)),
    .own (.recvEvent (.xQueueCreate 1 8 1 2 0 0)), .own (.recvEvent (.hint 1)),
    .own (.recvEvent (.xQueueReady 1 7 0)), .own (.recvEvent (.xQueueReady 1 8 0)),
    .own (.wake 0), .own (.update 0), .own (.update 0),
    .recvHint 0 ⟨0, fun _ => 0⟩ (.priority 8 300), .own (.update 0),
    .reschedule ⟨0, fun _ => 0⟩ [7, 8], .own (.update 0)]

open Hosted in
/-- The first of two ready XQueues is suspended while the second has priority 255. -/
theorem hpf_priority_safe_hinted : ∃ (s' : Hosted policy) (q : XQueueStatus),
    s'.scheduler.status.xqueueStatus.lookup 7 = some q ∧ q.suspended = true := by
  have htrace : (LTS.exec step (⟨.init .kPolicyHighestPriorityFirst, policy.init⟩ : Hosted policy)
      hintedActs).bind (fun s => (s.step (.reschedule ⟨0, fun _ => 0⟩ [7, 8])).map fun s' =>
        (s'.scheduler.status.xqueueStatus.lookup 7, s'.scheduler.status.xqueueStatus.lookup 8)) =
      some (some ⟨7, 1, 2, 1, 0, 0, true, true, 0⟩, some ⟨8, 1, 2, 1, 0, 0, true, false, 0⟩) := by
    decide
  obtain ⟨s, hs, htrace⟩ := Option.bind_eq_some_iff.1 htrace
  obtain ⟨s', hs', he⟩ := Option.map_eq_some_iff.1 htrace
  obtain ⟨h7, h8⟩ := Prod.mk.inj he
  refine ⟨s', _, h7, ?_⟩
  exact (hpf_priority_safe (LTS.reachable_init ⟨_, rfl⟩) hs hs' h7 rfl).1 8 _ h8 rfl rfl
    (by decide)

end HighestPriorityFirstPolicy
end Xsched.Sched
