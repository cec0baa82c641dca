import Xsched.Sched.Local

/-!
# The two maps of the status

`status_.xqueue_status` says which process an XQueue belongs to and whether it
is suspended, and the two sets of that process say it again. About ten
operations change one or the other; every policy and every `SchedOperation`
relies on their agreement.

`Status.Linked` is the part of it that one operation can break for another.
Here it is put together with the keys of the first map, which only entries
made by an event could break (`entry_step`: a step keeps the owner and the
handle of an entry, or makes one for the event it processes).

**Result.** `representation`: in every state that the scheduler reaches, with
any events, any decisions of the policy on any handles and any changes of
the policy, the two maps represent one assignment of XQueues to processes.
-/
namespace Xsched.Sched

/-- `xqueue_status` and the sets of `process_status` are two views of one
assignment. -/
structure Status.Represents (s : Status) : Prop where
  key : ∀ h q, s.xqueueStatus.lookup h = some q → q.handle = h
  owner : ∀ h q, s.xqueueStatus.lookup h = some q →
    ∃ p, s.processStatus.lookup q.pid = some p ∧
      (h ∈ p.suspendedXqueues ↔ q.suspended = true) ∧
      (h ∈ p.runningXqueues ↔ h ∉ p.suspendedXqueues)
  others : ∀ h q, s.xqueueStatus.lookup h = some q →
    ∀ pid p, s.processStatus.lookup pid = some p → pid ≠ q.pid →
      h ∉ p.runningXqueues ∧ h ∉ p.suspendedXqueues
  listed : ∀ pid p, s.processStatus.lookup pid = some p →
    ∀ h, h ∈ p.runningXqueues ∨ h ∈ p.suspendedXqueues →
      ∃ q, s.xqueueStatus.lookup h = some q ∧ q.pid = pid

theorem Status.Linked.represents {s : Status} (hs : s.Linked)
    (hkey : ∀ h q, s.xqueueStatus.lookup h = some q → q.handle = h) : s.Represents := by
  refine ⟨hkey, ?_, ?_, ?_⟩
  · intro h q hq
    obtain ⟨p, hp⟩ := Option.isSome_iff_exists.1 (AList.lookup_isSome.2 (hs.home h q hq))
    have hsus : h ∈ p.suspendedXqueues ↔ q.pid = q.pid ∧ q.suspended = true :=
      (hs.sets _ p hp true h).trans (placed_iff hq)
    have hrun : h ∈ p.runningXqueues ↔ q.pid = q.pid ∧ q.suspended = false :=
      (hs.sets _ p hp false h).trans (placed_iff hq)
    refine ⟨p, hp, by simpa using hsus, ?_⟩
    rw [hrun, hsus]
    simp
  · intro h q hq pid p hp hne
    have hnot : ∀ b, h ∉ p.xqueues b := by
      intro b hm
      exact hne ((placed_iff hq).1 ((hs.sets pid p hp b h).1 hm)).1.symm
    exact ⟨hnot false, hnot true⟩
  · intro pid p hp h hm
    have hplaced : ∃ b, h ∈ p.xqueues b := by
      rcases hm with hm | hm
      · exact ⟨false, hm⟩
      · exact ⟨true, hm⟩
    obtain ⟨b, hb⟩ := hplaced
    obtain ⟨q, hq, hpid, -⟩ := (hs.sets pid p hp b h).1 hb
    exact ⟨q, hq, hpid⟩

namespace LocalScheduler

/-! ## The entries along a run -/

section
variable {s s' : LocalScheduler} {act : SchedAct}

/-- A decision of the policy keeps the owner and the handle of every entry. -/
theorem entry_operate {st : Status} {b : Bool} {h h₀ : XQueueHandle} {q' : XQueueStatus}
    (hq' : (st.operate b h₀).xqueueStatus.lookup h = some q') :
    ∃ q, st.xqueueStatus.lookup h = some q ∧ q'.pid = q.pid ∧ q'.handle = q.handle := by
  rw [Status.lookup_operate] at hq'
  split at hq'
  · rename_i hh
    obtain ⟨q, hq, rfl⟩ := Option.map_eq_some_iff.1 hq'
    exact ⟨q, by rw [hh]; exact hq, rfl, rfl⟩
  · exact ⟨q', hq', rfl, rfl⟩

theorem entry_callbacks {calls : List Callback} {h : XQueueHandle} {q' : XQueueStatus}
    (hq' : (calls.foldl callback s).status.xqueueStatus.lookup h = some q') :
    ∃ q, s.status.xqueueStatus.lookup h = some q ∧ q'.pid = q.pid ∧ q'.handle = q.handle := by
  induction calls generalizing s with
  | nil => exact ⟨q', hq', rfl, rfl⟩
  | cons c calls ih =>
    obtain ⟨q₁, hq₁, hpid, hhandle⟩ := ih hq'
    cases c with
    | suspend h₀ =>
      obtain ⟨q, hq, hp, hh⟩ := entry_operate (b := true) hq₁
      exact ⟨q, hq, hpid.trans hp, hhandle.trans hh⟩
    | resume h₀ =>
      obtain ⟨q, hq, hp, hh⟩ := entry_operate (b := false) hq₁
      exact ⟨q, hq, hpid.trans hp, hhandle.trans hh⟩
    | addTimer t => exact ⟨q₁, hq₁, hpid, hhandle⟩

/-- The event that the worker processes next is pending. -/
theorem head_pending {e : Event} {tmp : List Event} {b : Bool}
    (hw : s.worker = .processing (e :: tmp) b) : e ∈ s.pending := by
  simp [pending, hw]

/-- An entry after a step was there, or the worker has made it for an event. -/
theorem entry_step (hc : StepCases s act s') {h : XQueueHandle} {q' : XQueueStatus}
    (hq' : s'.status.xqueueStatus.lookup h = some q') :
    (∃ q, s.status.xqueueStatus.lookup h = some q ∧ q'.pid = q.pid ∧ q'.handle = q.handle) ∨
    ∃ e ∈ s.pending, e.xqueue = some h ∧ q'.pid = e.pid ∧ q'.handle = h := by
  cases hc with
  | run | recvEvent | samePolicy | stopping | wake | terminate => exact Or.inl ⟨q', hq', rfl, rfl⟩
  | @joined act next hw hr =>
    cases next with
    | none => exact Or.inl ⟨q', hq', rfl, rfl⟩
    | some type =>
      simp only [LocalScheduler.joined, Status.lookup_resumeAll] at hq'
      obtain ⟨q, hq, rfl⟩ := Option.map_eq_some_iff.1 hq'
      exact Or.inl ⟨q, hq, rfl, rfl⟩
  | @update now e tmp b status pc hw hu hpc =>
    rcases Status.inherits_updateStatus hu hq' with ⟨q, hq, hp, hh, -⟩ | ⟨-, he, hp, hh, -⟩
    · exact Or.inl ⟨q, hq, hp, hh⟩
    · exact Or.inr ⟨e, head_pending hw, he, hp, hh⟩
  | finish hw => exact Or.inl (entry_callbacks hq')
  | ready hw => exact Or.inl (entry_callbacks hq')

theorem mem_pending_append {e e₀ : Event} (he : e ∈ s'.pending) (hw : s'.worker = s.worker)
    (hq : s'.eventQueue = s.eventQueue ++ [e₀]) : e ∈ s.pending ∨ e = e₀ := by
  rw [pending_append hw hq] at he
  simpa using he

/-- An event that is pending after a step was pending, or comes in with the
step, or is the one that ends the worker. -/
theorem pending_step (hc : StepCases s act s') {e : Event} (he : e ∈ s'.pending) :
    e ∈ s.pending ∨ act = .recvEvent e ∨ e.xqueue = none := by
  cases hc with
  | run hw => exact Or.inl (by simpa only [pending, hw] using he)
  | recvEvent e₀ =>
    rcases mem_pending_append (s := s) he rfl rfl with he | rfl
    · exact Or.inl he
    · exact Or.inr (Or.inl rfl)
  | samePolicy => exact Or.inl he
  | stopping hr =>
    rcases mem_pending_append (s := s) he rfl rfl with he | rfl
    · exact Or.inl he
    · exact Or.inr (Or.inr rfl)
  | @joined act next hw hr =>
    have hq : s.pending = s.eventQueue := by
      rcases hw with hw | hw <;> simp only [pending, hw]
    rw [hq]
    cases next with
    | none => exact Or.inl he
    | some type => exact Or.inl he
  | wake hw => exact Or.inl (by simpa only [pending, hw, List.append_nil] using he)
  | terminate hw =>
    refine Or.inl ?_
    simp only [pending, hw] at he ⊢
    exact List.mem_cons_of_mem _ he
  | update hw hu hpc =>
    refine Or.inl ?_
    simp only [pending, hw]
    rcases hpc with rfl | rfl <;> exact List.mem_cons_of_mem _ he
  | @finish calls b hw =>
    obtain ⟨hq, -, -⟩ := callbacks_frame calls s
    have hp : (s.finish calls b).pending = s.eventQueue := by
      rw [← hq]; cases b <;> rfl
    rw [hp] at he
    exact Or.inl (by simpa only [pending, hw, List.nil_append] using he)
  | @ready calls tmp b hw =>
    obtain ⟨hq, -, -⟩ := callbacks_frame calls s
    have hq' : (s.reschedule calls).eventQueue = s.eventQueue := hq
    exact Or.inl (by simpa only [pending, hw, hq'] using he)

end

theorem keyed_reachable {s : LocalScheduler} (hr : lts.Reachable s) :
    ∀ h q, s.status.xqueueStatus.lookup h = some q → q.handle = h := by
  refine LTS.reachable_induction
    (I := fun s => ∀ h q, s.status.xqueueStatus.lookup h = some q → q.handle = h) ?_ ?_ hr
  · rintro s ⟨type, rfl⟩ h q hq
    cases hq
  · intro s act s' _ hi hs h q' hq'
    rcases entry_step (step_cases hs) hq' with ⟨q, hq, -, hh⟩ | ⟨e, -, -, -, hh⟩
    · rw [hh]; exact hi h q hq
    · exact hh

/-- **The status is consistent**: in every reachable state its two maps
represent one assignment of XQueues to processes. -/
theorem representation (s : LocalScheduler) (hr : lts.Reachable s) : s.status.Represents :=
  (inv_reachable hr).linked.represents (keyed_reachable hr)

/-- With XQueue 10 of process 1 suspended and XQueue 20 of process 2 running. -/
theorem representation_suspended : ∃ s : LocalScheduler, s.status.Represents ∧
    (s.status.processStatus.lookup 1).map (·.suspendedXqueues.elems) = some [10] := by
  have htrace : ((LTS.exec step (init .kPolicyHighestPriorityFirst) suspendTrace).map fun s =>
      (s.status.processStatus.lookup 1).map (·.suspendedXqueues.elems)) = some (some [10]) := by
    decide
  obtain ⟨s, hs, he⟩ := Option.map_eq_some_iff.1 htrace
  exact ⟨s, representation s (LTS.reachable_of_exec ⟨_, rfl⟩ hs), he⟩

end LocalScheduler
end Xsched.Sched
