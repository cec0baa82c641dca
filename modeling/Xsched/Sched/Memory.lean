import Xsched.Sched.Policy

/-!
# What a policy keeps of an XQueue

Two runs of a policy decide alike from here on if no input tells their states
apart. A `Memory` says what there is to tell: a part that all XQueues share,
and for each handle an entry, as the decisions depend on it. Two fields may
differ between policy states with the same memory: those that are
overwritten before they are read, and an entry that is missing may be as good
as one with the default values.

Of the status, a `Sched` sees the entries of the XQueues; all but one of the
policies do not look at `suspended`. Every other field is a function of the
events alone: `Event.entry` is what an event makes of the entry of a handle,
whatever the policy has decided (`lookup_updateStatus`).

`Sound` is the obligation of a policy: hints and `Sched` keep equal memories
equal, and the calls are the same. It gives the unwinding of `PolicyRun`
(`Sound.unwinding`).
-/
namespace Xsched.Sched

/-! ## What the events say -/

/-- An entry as a policy sees it that does (`b`) or does not look at `suspended`. -/
def XQueueStatus.seen (b : Bool) (q : XQueueStatus) : XQueueStatus :=
  { q with suspended := b && q.suspended }

namespace XQueueStatus

@[simp] theorem seen_handle (b : Bool) (q : XQueueStatus) : (q.seen b).handle = q.handle := rfl

@[simp] theorem seen_device (b : Bool) (q : XQueueStatus) : (q.seen b).device = q.device := rfl

@[simp] theorem seen_pid (b : Bool) (q : XQueueStatus) : (q.seen b).pid = q.pid := rfl

@[simp] theorem seen_ready (b : Bool) (q : XQueueStatus) : (q.seen b).ready = q.ready := rfl

@[simp] theorem seen_readyTime (b : Bool) (q : XQueueStatus) :
    (q.seen b).readyTime = q.readyTime := rfl

end XQueueStatus

/-- The entry of `h` after an event, from the one before it. -/
def Event.entry (now : TimePoint) (h : XQueueHandle) (old : Option XQueueStatus) :
    Event → Option XQueueStatus
  | .processDestroy pid => old.filter (·.pid ≠ pid)
  | .xQueueCreate pid handle device level threshold batchSize
  | .xQueueConfigUpdate pid handle device level threshold batchSize =>
    if h = handle then
      match old with
      | none => some ⟨handle, device, level, pid, threshold, batchSize, false, false, now⟩
      | some q => some { q with device, level, threshold, batchSize }
    else old
  | .xQueueDestroy _ handle => if h = handle then none else old
  | .xQueueReady pid handle readyTime =>
    if h = handle then
      match old with
      | none => some ⟨handle, kDeviceTypeUnknown, kPreemptLevelUnknown, pid, 0, 0, true, false,
          readyTime⟩
      | some q => some { q with ready := true, readyTime }
    else old
  | .xQueueIdle pid handle =>
    if h = handle then
      match old with
      | none => some ⟨handle, kDeviceTypeUnknown, kPreemptLevelUnknown, pid, 0, 0, false, false,
          now⟩
      | some q => some { q with ready := false }
    else old
  | .hint _ | .schedulerTerminate _ | .processCreate _ _ | .xQueueQuery _ _
  | .xQueueQueryAll _ => old

/-- An event does to an entry what it does to what is seen of it. -/
theorem Event.entry_seen (b : Bool) (now : TimePoint) (h : XQueueHandle)
    (old : Option XQueueStatus) (e : Event) :
    (e.entry now h old).map (·.seen b) = e.entry now h (old.map (·.seen b)) := by
  cases e with
  | processDestroy pid =>
    cases old with
    | none => rfl
    | some q => by_cases hq : q.pid = pid <;> simp [entry, Option.filter, hq]
  | hint | schedulerTerminate | processCreate | xQueueQuery | xQueueQueryAll => rfl
  | xQueueDestroy pid handle =>
    by_cases hh : h = handle <;> simp [entry, hh]
  | _ =>
    simp only [entry]
    split
    · cases old <;> simp [XQueueStatus.seen]
    · rfl

namespace Status

theorem lookup_setXQueue (s : Status) (h h' : XQueueHandle) (q : XQueueStatus) :
    (s.setXQueue h' q).xqueueStatus.lookup h =
      if h = h' then some q else s.xqueueStatus.lookup h := by
  unfold setXQueue
  split
  · rename_i hh; rw [hh]; exact AList.lookup_insert _
  · rename_i hh; exact AList.lookup_insert_ne hh

/-- The entries after an event are those that `Event.entry` gives. -/
theorem Linked.lookup_updateStatus {s s' : Status} (hs : s.Linked) {now : TimePoint} {e : Event}
    (hu : s.updateStatus now e = some s') (h : XQueueHandle) :
    s'.xqueueStatus.lookup h = e.entry now h (s.xqueueStatus.lookup h) := by
  cases e with
  | hint | schedulerTerminate | xQueueQuery | xQueueQueryAll => cases hu; rfl
  | processCreate pid cmdline =>
    simp only [Status.updateStatus] at hu
    split at hu <;> cases hu <;> rfl
  | processDestroy pid =>
    simp only [Status.updateStatus] at hu
    split at hu <;> cases hu
    · rename_i hnone
      cases hq : s.xqueueStatus.lookup h with
      | none => rfl
      | some q =>
        have hne := hs.no_xqueue (AList.lookup_eq_none.1 hnone) hq
        simp [Event.entry, Option.filter, hne]
    · rename_i p hp
      apply Option.ext
      intro q
      simp only [Event.entry, hs.lookup_destroyed hp, Option.filter_eq_some_iff,
        decide_eq_true_eq]
  | xQueueCreate pid handle device level threshold batchSize
  | xQueueConfigUpdate pid handle device level threshold batchSize =>
    cases hu
    unfold Status.config
    split
    · rename_i hnone
      simp only [Status.createXQueueStatus, Status.setProcess, lookup_setXQueue, Event.entry]
      by_cases hh : h = handle
      · subst hh; simp [hnone]
      · simp [hh]
    · rename_i q hq
      simp only [lookup_setXQueue, Event.entry]
      by_cases hh : h = handle
      · subst hh; simp [hq]
      · simp [hh]
  | xQueueReady pid handle readyTime | xQueueIdle pid handle =>
    simp only [Status.updateStatus] at hu
    split at hu <;> cases hu
    · rename_i hnone
      simp only [Status.createXQueueStatus, Status.setProcess, lookup_setXQueue, Event.entry]
      by_cases hh : h = handle
      · subst hh; simp [hnone]
      · simp [hh]
    · rename_i q hq
      simp only [lookup_setXQueue, Event.entry]
      by_cases hh : h = handle
      · subst hh; simp [hq]
      · simp [hh]
  | xQueueDestroy pid handle =>
    simp only [Status.updateStatus] at hu
    split at hu
    · rename_i hnone
      cases hu
      simp only [Event.entry]
      split
      · rename_i hh; rw [hh, hnone]
      · rfl
    · rename_i q hq
      split at hu
      · cases hu
      · split at hu
        · rename_i hnone
          exact absurd rfl (hs.no_xqueue (AList.lookup_eq_none.1 hnone) hq)
        · cases hu
          simp only [Event.entry]
          split
          · rename_i hh; rw [hh]; exact AList.lookup_erase _ _
          · rename_i hh; exact AList.lookup_erase_ne hh

/-- The only event that fails is the destruction of another process's XQueue. -/
theorem updateStatus_eq_none {s : Status} {now : TimePoint} {e : Event} :
    s.updateStatus now e = none ↔
      ∃ pid h q, e = .xQueueDestroy pid h ∧ s.xqueueStatus.lookup h = some q ∧ pid ≠ q.pid := by
  cases e with
  | xQueueDestroy pid handle =>
    simp only [updateStatus]
    constructor
    · intro hu
      split at hu
      · cases hu
      · rename_i q hq
        split at hu
        · rename_i hne; exact ⟨pid, handle, q, rfl, hq, hne⟩
        · split at hu <;> cases hu
    · rintro ⟨pid', h, q, he, hq, hne⟩
      cases he
      simp only [hq]
      exact if_pos hne
  | processCreate | processDestroy | xQueueReady | xQueueIdle =>
    simp only [updateStatus]
    constructor
    · intro hu; split at hu <;> cases hu
    · rintro ⟨pid, h, q, he, -⟩; cases he
  | _ =>
    constructor
    · intro hu; cases hu
    · rintro ⟨pid, h, q, he, -⟩; cases he

/-! ## Statuses that look alike -/

/-- The XQueues of both are the same, but for `suspended` unless `b`. -/
def Alike (b : Bool) (s t : Status) : Prop :=
  ∀ h, (s.xqueueStatus.lookup h).map (·.seen b) = (t.xqueueStatus.lookup h).map (·.seen b)

section
variable {b : Bool} {s t : Status}

theorem Alike.symm (ha : Alike b s t) : Alike b t s := fun h => (ha h).symm

theorem Alike.mem_iff (ha : Alike b s t) (h : XQueueHandle) :
    h ∈ s.xqueueStatus ↔ h ∈ t.xqueueStatus := by
  rw [← AList.lookup_isSome, ← AList.lookup_isSome, ← Option.isSome_map (f := (·.seen b)), ha h,
    Option.isSome_map]

theorem Alike.perm_iff (ha : Alike b s t) (order : List XQueueHandle) :
    order.Perm s.xqueueStatus.keys ↔ order.Perm t.xqueueStatus.keys := by
  have hkeys : s.xqueueStatus.keys.Perm t.xqueueStatus.keys :=
    (List.perm_ext_iff_of_nodup s.xqueueStatus.keys_nodup t.xqueueStatus.keys_nodup).2 ha.mem_iff
  exact ⟨fun hp => hp.trans hkeys, fun hp => hp.trans hkeys.symm⟩

/-- In the same order, both show the same. -/
theorem Alike.inOrder (ha : Alike b s t) (order : List XQueueHandle) :
    (s.inOrder order).map (·.seen b) = (t.inOrder order).map (·.seen b) := by
  unfold Status.inOrder
  rw [List.map_filterMap, List.map_filterMap]
  congr 1
  exact funext ha

theorem Alike.lookup (ha : Alike b s t) {h : XQueueHandle} {q : XQueueStatus}
    (hq : s.xqueueStatus.lookup h = some q) :
    ∃ q', t.xqueueStatus.lookup h = some q' ∧ q'.seen b = q.seen b := by
  have hh := ha h
  rw [hq, Option.map_some] at hh
  exact Option.map_eq_some_iff.1 hh.symm

theorem Alike.updateStatus_none (ha : Alike b s t) {now : TimePoint} {e : Event}
    (hu : s.updateStatus now e = none) : t.updateStatus now e = none := by
  obtain ⟨pid, h, q, rfl, hq, hne⟩ := updateStatus_eq_none.1 hu
  obtain ⟨q', hq', hseen⟩ := ha.lookup hq
  have hpid : (q'.seen b).pid = (q.seen b).pid := congrArg XQueueStatus.pid hseen
  exact updateStatus_eq_none.2 ⟨pid, h, q', rfl, hq', fun he => hne (he.trans hpid)⟩

theorem Alike.updateStatus (ha : Alike b s t) (hs : s.Linked) (ht : t.Linked) {s' t' : Status}
    {now : TimePoint} {e : Event} (hs' : s.updateStatus now e = some s')
    (ht' : t.updateStatus now e = some t') : Alike b s' t' := by
  intro h
  rw [hs.lookup_updateStatus hs', ht.lookup_updateStatus ht', Event.entry_seen, Event.entry_seen,
    ha h]

theorem Alike.operate (ha : Alike b s t) (c : Bool) (h₀ : XQueueHandle) :
    Alike b (s.operate c h₀) (t.operate c h₀) := by
  intro h
  rw [lookup_operate, lookup_operate]
  split
  · have h₁ := ha h₀
    cases hs : s.xqueueStatus.lookup h₀ <;> cases ht : t.xqueueStatus.lookup h₀ <;>
      simp only [hs, ht, Option.map_some, Option.map_none, reduceCtorEq] at h₁ ⊢
    rename_i q q'
    simp only [Option.some.injEq, XQueueStatus.seen, XQueueStatus.mk.injEq] at h₁ ⊢
    tauto
  · exact ha h

theorem Alike.callbacks (ha : Alike b s t) (calls : List Callback) :
    Alike b (calls.foldl Status.callback s) (calls.foldl Status.callback t) := by
  induction calls generalizing s t with
  | nil => exact ha
  | cons c calls ih =>
    refine ih ?_
    cases c with
    | suspend h => exact ha.operate true h
    | resume h => exact ha.operate false h
    | addTimer t => exact ha

end
end Status

/-! ## Memories -/

/-- What the decisions of a policy depend on. -/
structure Memory (P : Policy) where
  /-- The policy looks at `suspended`. -/
  looks : Bool
  Shared : Type
  Entry : Type
  shared : P.State → Shared
  kept : P.State → XQueueHandle → Entry

namespace Memory
variable {P : Policy} (M : Memory P)

def Same (σ τ : P.State) : Prop := M.shared σ = M.shared τ ∧ ∀ h, M.kept σ h = M.kept τ h

/-- Hints and `Sched` depend on the memory only. -/
structure Sound : Prop where
  recvHint : ∀ clock hint σ τ, M.Same σ τ →
    M.Same (P.recvHint clock hint σ) (P.recvHint clock hint τ)
  sched : ∀ clock order s t σ τ, M.Same σ τ → Status.Alike M.looks s t →
    SameAnswer M.Same (P.sched clock s order σ) (P.sched clock t order τ)

/-- Two runs that no input tells apart. -/
structure Agree (s t : PolicyRun P) : Prop where
  linked : s.status.Linked
  linked' : t.status.Linked
  status : Status.Alike M.looks s.status t.status
  policy : M.Same s.policy t.policy

variable {M}

theorem Sound.unwinding (hM : M.Sound) : Unwinding (PolicyRun.answer (P := P)) M.Agree := by
  intro s t i ha
  cases i with
  | event now e =>
    simp only [PolicyRun.answer]
    cases hs : s.status.updateStatus now e with
    | none => rw [ha.status.updateStatus_none hs]; trivial
    | some s' =>
      cases ht : t.status.updateStatus now e with
      | none => rw [ha.status.symm.updateStatus_none ht] at hs; cases hs
      | some t' =>
        exact ⟨rfl, ha.linked.updateStatus hs, ha.linked'.updateStatus ht,
          ha.status.updateStatus ha.linked ha.linked' hs ht, ha.policy⟩
  | recvHint clock hint =>
    exact ⟨rfl, ha.linked, ha.linked', ha.status, hM.recvHint clock hint _ _ ha.policy⟩
  | reschedule clock order =>
    simp only [PolicyRun.answer, ha.status.perm_iff order]
    split
    · have hsame := hM.sched clock order _ _ _ _ ha.policy ha.status
      cases hs : P.sched clock s.status order s.policy with
      | none =>
        cases ht : P.sched clock t.status order t.policy with
        | none => trivial
        | some b => rw [hs, ht] at hsame; exact hsame.elim
      | some a =>
        cases ht : P.sched clock t.status order t.policy with
        | none => rw [hs, ht] at hsame; exact hsame.elim
        | some b =>
          rw [hs, ht] at hsame
          obtain ⟨calls, σ⟩ := a
          obtain ⟨calls', τ⟩ := b
          obtain ⟨hcalls, hsame⟩ := hsame
          subst hcalls
          exact ⟨rfl, PolicyRun.linked_callbacks ha.linked calls,
            PolicyRun.linked_callbacks ha.linked' calls, ha.status.callbacks calls, hsame⟩
    · trivial

/-- A policy that goes over the entries in order and asserts nothing. -/
theorem Sound.of_lists
    (f : Clock → List XQueueStatus → P.State → List Callback × P.State)
    (hf : ∀ clock s order σ, P.sched clock s order σ = some (f clock (s.inOrder order) σ))
    (hint : ∀ clock hint σ τ, M.Same σ τ →
      M.Same (P.recvHint clock hint σ) (P.recvHint clock hint τ))
    (hseen : ∀ clock xs σ, f clock (xs.map (·.seen M.looks)) σ = f clock xs σ)
    (hsame : ∀ clock xs σ τ, M.Same σ τ →
      (f clock xs σ).1 = (f clock xs τ).1 ∧ M.Same (f clock xs σ).2 (f clock xs τ).2) :
    M.Sound := by
  refine ⟨hint, ?_⟩
  intro clock order s t σ τ hst ha
  have hlist : f clock (s.inOrder order) σ = f clock (t.inOrder order) σ := by
    rw [← hseen clock (s.inOrder order), ha.inOrder, hseen]
  rw [hf, hf, hlist]
  exact hsame clock (t.inOrder order) σ τ hst

end Memory
end Xsched.Sched
