import Xsched.Sched.Settled
import Xsched.Sched.Memory

/-!
# What the scheduler will know of an XQueue

An entry has the device and the level that the XQueue was announced with
(`XQueueCreateEvent`, `XQueueConfigUpdateEvent`). A Ready or an Idle event of
an XQueue that has no entry makes one without them.

`track pid h v e` is what the entry of `h` says after the event, when it said
`v` before; `heard` follows it through the events under way. `updateStatus`
does what `track` says (`view_updateStatus`), so the worker leaves
`heard` as it is, and at rest it is what the entry says.

**Result.** `StepCases.viewed`: with its events a client keeps the scheduler
informed: an entry says nothing of an XQueue, or the truth (`Viewed`).
-/
namespace Xsched.Sched

/-- What an entry says of the XQueue. -/
abbrev View := Option (XDevice × XPreemptLevel)

/-- An entry made by a Ready or an Idle event. -/
def unannounced : XDevice × XPreemptLevel := (kDeviceTypeUnknown, kPreemptLevelUnknown)

def Status.view (s : Status) (h : XQueueHandle) : View :=
  (s.xqueueStatus.lookup h).map fun q => (q.device, q.level)

/-- What the entry of XQueue `h` of process `pid` says after an event. -/
def track (pid : PID) (h : XQueueHandle) (v : View) : Event → View
  | .xQueueCreate _ h' device level _ _ | .xQueueConfigUpdate _ h' device level _ _ =>
    if h' = h then some (device, level) else v
  | .xQueueReady _ h' _ | .xQueueIdle _ h' =>
    if h' = h then some (v.getD unannounced) else v
  | .xQueueDestroy _ h' => if h' = h then none else v
  | .processDestroy pid' => if pid' = pid then none else v
  | _ => v

/-- What the entry will say when the events have arrived. -/
def heard (pid : PID) (h : XQueueHandle) (v : View) (es : List Event) : View :=
  es.foldl (track pid h) v

/-- An event about another XQueue changes nothing. -/
theorem track_others {pid : PID} {h : XQueueHandle} {v : View} {e : Event}
    (hx : e.xqueue ≠ some h) (hd : e ≠ .processDestroy pid) : track pid h v e = v := by
  cases e with
  | xQueueCreate _ h' | xQueueConfigUpdate _ h' | xQueueReady _ h' | xQueueIdle _ h'
  | xQueueDestroy _ h' =>
    have hne : h' ≠ h := by
      intro hh
      exact hx (by rw [hh]; rfl)
    simp [track, hne]
  | processDestroy pid' =>
    have hne : pid' ≠ pid := by
      intro hp
      exact hd (by rw [hp])
    simp [track, hne]
  | _ => rfl

theorem heard_others {pid : PID} {h : XQueueHandle} {v : View} {es : List Event}
    (hes : ∀ e ∈ es, e.xqueue ≠ some h ∧ e ≠ .processDestroy pid) : heard pid h v es = v := by
  induction es generalizing v with
  | nil => rfl
  | cons e es ih =>
    obtain ⟨hx, hd⟩ := hes e List.mem_cons_self
    change heard pid h (track pid h v e) es = v
    rw [track_others hx hd]
    exact ih fun e' he' => hes e' (List.mem_cons_of_mem _ he')

/-- Without an entry and without an event about it, an XQueue stays unknown. -/
theorem heard_none {pid : PID} {h : XQueueHandle} {es : List Event}
    (hes : ∀ e ∈ es, e.xqueue ≠ some h) : heard pid h none es = none := by
  induction es with
  | nil => rfl
  | cons e es ih =>
    have he : track pid h none e = none := by
      by_cases hd : e = .processDestroy pid
      · subst hd; simp [track]
      · exact track_others (hes e List.mem_cons_self) hd
    change heard pid h (track pid h none e) es = none
    rw [he]
    exact ih fun e' he' => hes e' (List.mem_cons_of_mem _ he')

theorem heard_append {pid : PID} {h : XQueueHandle} {v : View} (es es' : List Event) :
    heard pid h v (es ++ es') = heard pid h (heard pid h v es) es' := List.foldl_append

/-- An event that comes in between and is not about the XQueue. -/
theorem heard_insert {pid : PID} {h : XQueueHandle} {v : View} {e : Event} (es es' : List Event)
    (hx : e.xqueue ≠ some h) (hd : e ≠ .processDestroy pid) :
    heard pid h v (es ++ e :: es') = heard pid h v (es ++ es') := by
  rw [heard_append, heard_append]
  change heard pid h (track pid h (heard pid h v es) e) es' = _
  rw [track_others hx hd]

namespace Status
section
variable {s s' : Status} {pid : PID} {h : XQueueHandle}

theorem view_of_lookup {q : XQueueStatus} (hq : s.xqueueStatus.lookup h = some q) :
    s.view h = some (q.device, q.level) := by
  simp [view, hq]

theorem view_eq_none : s.view h = none ↔ s.xqueueStatus.lookup h = none := by
  simp [view]

/-- What an event makes of an entry, as far as a view of it goes. -/
theorem entry_track {now : TimePoint} {e : Event}
    (hown : ∀ q, s.xqueueStatus.lookup h = some q → q.pid = pid) :
    (e.entry now h (s.xqueueStatus.lookup h)).map (fun q => (q.device, q.level)) =
      track pid h (s.view h) e := by
  cases hq : s.xqueueStatus.lookup h with
  | none =>
    rw [view_eq_none.2 hq]
    cases e with
    | processDestroy epid => simp [Event.entry, track]
    | hint | schedulerTerminate | processCreate | xQueueQuery | xQueueQueryAll => rfl
    | _ => simp only [Event.entry, track, eq_comm]; split <;> rfl
  | some q =>
    rw [view_of_lookup hq]
    cases e with
    | processDestroy epid =>
      have hpid := hown q hq
      by_cases he : epid = pid
      · simp [Event.entry, track, Option.filter, hpid, he]
      · simp [Event.entry, track, Option.filter, hpid, he, Ne.symm he]
    | hint | schedulerTerminate | processCreate | xQueueQuery | xQueueQueryAll => rfl
    | _ => simp only [Event.entry, track, eq_comm]; split <;> rfl

/-- `UpdateStatus` does to an entry what `track` says, when the entry and the
event are of one process. -/
theorem view_updateStatus (hs : s.Linked) {now : TimePoint} {e : Event}
    (hu : s.updateStatus now e = some s')
    (hown : ∀ q, s.xqueueStatus.lookup h = some q → q.pid = pid) :
    s'.view h = track pid h (s.view h) e := by
  have hentry := hs.lookup_updateStatus hu h
  unfold view
  rw [hentry]
  exact entry_track hown

theorem view_operate (b : Bool) (h' : XQueueHandle) : (s.operate b h').view h = s.view h := by
  unfold view
  rw [lookup_operate]
  split
  · rename_i hh
    subst hh
    cases s.xqueueStatus.lookup h <;> rfl
  · rfl

end
end Status

theorem view_callbacks (calls : List Callback) (s : LocalScheduler) (h : XQueueHandle) :
    (calls.foldl LocalScheduler.callback s).status.view h = s.status.view h := by
  induction calls generalizing s with
  | nil => rfl
  | cons c calls ih =>
    rw [List.foldl_cons, ih]
    cases c with
    | suspend h' => exact Status.view_operate true h'
    | resume h' => exact Status.view_operate false h'
    | addTimer t => rfl

/-- The worker leaves what the entry will say. -/
theorem LocalScheduler.StepCases.heard {s s' : LocalScheduler} {a : SchedAct}
    (hc : s.StepCases a s') (hrun : a.runs = true) (hs : s.status.Linked) {pid : PID}
    {h : XQueueHandle} (hown : ∀ q, s.status.xqueueStatus.lookup h = some q → q.pid = pid)
    (es : List Event) :
    Sched.heard pid h (s'.status.view h) (s'.pending ++ es) =
      Sched.heard pid h (s.status.view h) (s.pending ++ es) := by
  cases hc with
  | run hw => simp only [pending, hw]
  | recvEvent | samePolicy => cases hrun
  | @stopping _ next hr =>
    have hp : pending { s with
        eventQueue := s.eventQueue ++ [.schedulerTerminate kServerPid]
        control := .joining next } = s.pending ++ [.schedulerTerminate kServerPid] :=
      pending_append rfl rfl
    rw [hp, List.append_assoc]
    exact heard_insert _ _ (by simp [Event.xqueue]) (by simp)
  | @joined _ next hw hr =>
    have hq : s.pending = s.eventQueue := by
      rcases hw with hw | hw <;> simp only [pending, hw]
    obtain rfl := SchedAct.not_restarted hrun hr
    rw [hq]
    rfl
  | wake hw => simp only [pending, hw, List.append_nil]
  | terminate hw => simp only [pending, hw]; rfl
  | update hw hu hpc =>
    simp only [pending, hw]
    rcases hpc with rfl | rfl <;>
    · change Sched.heard pid h (Status.view _ h) _ =
        Sched.heard pid h (track pid h (s.status.view h) _) _
      rw [Status.view_updateStatus hs hu hown]
      rfl
  | @finish calls b hw =>
    obtain ⟨hq, -, -⟩ := callbacks_frame calls s
    have hp : (s.finish calls b).pending = s.eventQueue := by
      rw [← hq]; cases b <;> rfl
    have hv : (s.finish calls b).status.view h = s.status.view h := view_callbacks calls s h
    rw [hp, hv]
    simp only [pending, hw, List.nil_append]
  | @ready calls tmp b hw =>
    obtain ⟨hq, -, -⟩ := callbacks_frame calls s
    have hq' : (s.reschedule calls).eventQueue = s.eventQueue := hq
    have hv : (s.reschedule calls).status.view h = s.status.view h := view_callbacks calls s h
    simp only [pending, hw, hq', hv]

/-- The level that an event announces. -/
def Event.announces : Event → Option XPreemptLevel
  | .xQueueCreate _ _ _ level _ _ | .xQueueConfigUpdate _ _ _ level _ _ => some level
  | _ => none

/-- A level changes only by an event that announces another. -/
theorem track_level {pid : PID} {h : XQueueHandle} {d d' : XDevice} {l l' : XPreemptLevel}
    {e : Event} (ht : track pid h (some (d, l)) e = some (d', l')) :
    l' = l ∨ e.xqueue = some h ∧ e.announces = some l' := by
  cases e with
  | xQueueCreate _ h' | xQueueConfigUpdate _ h' =>
    simp only [track] at ht
    split at ht
    · rename_i hh
      subst hh
      cases ht
      exact Or.inr ⟨rfl, rfl⟩
    · cases ht; exact Or.inl rfl
  | xQueueReady _ h' | xQueueIdle _ h' =>
    simp only [track, Option.getD_some, ite_self, Option.some.injEq, Prod.mk.injEq] at ht
    exact Or.inl ht.2.symm
  | xQueueDestroy | processDestroy =>
    simp only [track] at ht
    split at ht
    · cases ht
    · cases ht; exact Or.inl rfl
  | _ => cases ht; exact Or.inl rfl

/-- The policy suspends an XQueue only by a call for it. -/
theorem callbacks_suspended {calls : List Callback} {s : LocalScheduler} {h : XQueueHandle}
    {q' : XQueueStatus}
    (hq' : (calls.foldl LocalScheduler.callback s).status.xqueueStatus.lookup h = some q') :
    ∃ q, s.status.xqueueStatus.lookup h = some q ∧ q'.pid = q.pid ∧ q'.level = q.level ∧
      (q'.suspended = true → q.suspended = true ∨ .suspend h ∈ calls) := by
  have hoperate : ∀ {st : Status} {b : Bool} {h₀ : XQueueHandle} {q₁ : XQueueStatus},
      (st.operate b h₀).xqueueStatus.lookup h = some q₁ →
      ∃ q, st.xqueueStatus.lookup h = some q ∧ q₁.pid = q.pid ∧ q₁.level = q.level ∧
        (q₁.suspended = true → q.suspended = true ∨ b = true ∧ h = h₀) := by
    intro st b h₀ q₁ hq₁
    rw [Status.lookup_operate] at hq₁
    split at hq₁
    · rename_i hh
      obtain ⟨q, hq, rfl⟩ := Option.map_eq_some_iff.1 hq₁
      exact ⟨q, by rw [hh]; exact hq, rfl, rfl, fun hb => Or.inr ⟨hb, hh⟩⟩
    · exact ⟨q₁, hq₁, rfl, rfl, Or.inl⟩
  induction calls generalizing s with
  | nil => exact ⟨q', hq', rfl, rfl, Or.inl⟩
  | cons c calls ih =>
    obtain ⟨q₁, hq₁, hp, hl, hsus⟩ := ih hq'
    cases c with
    | suspend h₀ =>
      obtain ⟨q, hq, hp₀, hl₀, hsus₀⟩ := hoperate (b := true) hq₁
      refine ⟨q, hq, hp.trans hp₀, hl.trans hl₀, fun hb => ?_⟩
      rcases hsus hb with hb | hm
      · rcases hsus₀ hb with hb | ⟨-, rfl⟩
        · exact Or.inl hb
        · exact Or.inr List.mem_cons_self
      · exact Or.inr (List.mem_cons_of_mem _ hm)
    | resume h₀ =>
      obtain ⟨q, hq, hp₀, hl₀, hsus₀⟩ := hoperate (b := false) hq₁
      refine ⟨q, hq, hp.trans hp₀, hl.trans hl₀, fun hb => ?_⟩
      rcases hsus hb with hb | hm
      · exact Or.inl ((hsus₀ hb).resolve_right fun hf => by cases hf.1)
      · exact Or.inr (List.mem_cons_of_mem _ hm)
    | addTimer t =>
      exact ⟨q₁, hq₁, hp, hl, fun hb => (hsus hb).imp_right (List.mem_cons_of_mem _)⟩

/-- What a step passes to `Execute` are operations of the status it leaves. -/
theorem LocalScheduler.StepCases.since {s s' : LocalScheduler} {a : SchedAct}
    (hc : s.StepCases a s') {op : SchedOperation} (hop : op ∈ s.since s') :
    op ∈ operations s'.status := by
  have hsame : s'.executed = s.executed → op ∈ operations s'.status := by
    intro he
    rw [LocalScheduler.since, he, List.drop_length] at hop
    cases hop
  cases hc with
  | joined => exact hsame (by cases ‹Option XPolicyType› <;> rfl)
  | @finish calls b hw => rwa [since_finish] at hop
  | @ready calls tmp b hw =>
    change op ∈ (_ ++ _ : List SchedOperation).drop _ at hop
    rwa [callbacks_executed, List.drop_left] at hop
  | _ => exact hsame rfl

/-- An operation makes no call for an XQueue without an entry. -/
theorem calls_operations {st : Status} (hs : st.Linked) {op : SchedOperation}
    (hop : op ∈ LocalScheduler.operations st) {h : XQueueHandle}
    (hnone : st.xqueueStatus.lookup h = none) :
    ∀ d ∈ op.copyConstructor.calls, d.1 ≠ h := by
  obtain ⟨⟨pid, p⟩, hmem, rfl⟩ := List.mem_map.1 hop
  have hp : st.processStatus.lookup pid = some p :=
    AList.mem_lookup_iff.2 (List.mem_of_mem_filter hmem)
  have hnot : ∀ b, h ∉ p.xqueues b := by
    intro b hm
    exact Status.not_placed hnone ((hs.sets pid p hp b h).1 hm)
  intro d hd hh
  rw [SchedOperation.copyConstructor_ofStatus, SchedOperation.calls_ofStatus, List.mem_append,
    List.mem_map, List.mem_map] at hd
  rcases hd with ⟨h', hm, rfl⟩ | ⟨h', hm, rfl⟩
  · exact hnot false (hh ▸ hm)
  · exact hnot true (hh ▸ hm)

/-! ## What a client announces -/

/-- An entry says nothing of the XQueue, or the truth. -/
def Viewed (v : View) (o : XQueueObj) : Prop :=
  v = none ∨ v = some unannounced ∨ v = some (o.device, o.level)

namespace Client
section
variable {c c' : Client} {h : XQueueHandle}

/-- The executor changes no object but in `suspended_`. -/
theorem execute_config (he : c.execute = some c') {o' : XQueueObj} (ho : c'.objs h = some o') :
    ∃ o, c.objs h = some o ∧ o'.registered = o.registered ∧ o'.device = o.device ∧
      o'.level = o.level := by
  unfold execute at he
  split at he
  · split at he
    · cases he
    · cases he; exact ⟨o', ho, rfl, rfl, rfl⟩
  · cases he; exact ⟨o', ho, rfl, rfl, rfl⟩
  · split at he
    · cases he
    · split at he
      · split at he
        · cases he; exact ⟨o', ho, rfl, rfl, rfl⟩
        · cases he; exact ⟨o', ho, rfl, rfl, rfl⟩
      · cases he; exact ⟨o', ho, rfl, rfl, rfl⟩
  · rename_i h₁ b rest hpc
    cases he
    by_cases hh : h = h₁
    · subst hh
      simp only [setObj_objs_self] at ho
      obtain ⟨o, ho₁, rfl⟩ := Option.map_eq_some_iff.1 ho
      exact ⟨o, ho₁, rfl, rfl, rfl⟩
    · simp only [setObj_objs_ne hh] at ho
      exact ⟨o', ho, rfl, rfl, rfl⟩

theorem track_send (hst : c.started = true) (pid : PID) (v : View) (e : Event) :
    heard pid h v (c.send e).toList = track pid h v e := by
  simp [send, hst, heard]

/-- An XQueue is new, and announced, or it was there and the event that the
step sends keeps what the scheduler will know of it. -/
theorem StepCases.viewed {a : ClientAct} {e : Option Event} (hc : StepCases c a c' e)
    (hst : c.started = true) {o' : XQueueObj} (hl : c'.Live h o') (pid : PID) (v : View)
    (hv : ∀ o, c.Live h o → Viewed v o) : Viewed (heard pid h v e.toList) o' := by
  have hkeep : ∀ {o : XQueueObj}, c.Live h o → o'.device = o.device → o'.level = o.level →
      Viewed v o' := by
    intro o hlo hd hlev
    rcases hv o hlo with h₁ | h₁ | h₁
    · exact Or.inl h₁
    · exact Or.inr (Or.inl h₁)
    · exact Or.inr (Or.inr (by rw [h₁, hd, hlev]))
  have hready : Viewed v o' → Viewed (some (v.getD unannounced)) o' := by
    intro hvo
    rcases hvo with h₁ | h₁ | h₁ <;> rw [h₁]
    · exact Or.inr (Or.inl rfl)
    · exact Or.inr (Or.inl rfl)
    · exact Or.inr (Or.inr rfl)
  obtain ⟨ho', hreg'⟩ := hl
  cases hc with
  | @create _ _ _ _ _ h₁ hh hadd hnone =>
    rw [track_send hst]
    by_cases hh' : h = h₁
    · subst hh'
      simp only [setObj_objs_self, Option.some.injEq] at ho'
      subst ho'
      exact Or.inr (Or.inr (by simp [track]))
    · have hne : h₁ ≠ h := Ne.symm hh'
      simp only [setObj_objs_ne hh'] at ho'
      simp only [track, if_neg hne]
      refine hkeep ⟨ho', Or.inl ?_⟩ rfl rfl
      rcases hreg' with hreg | hadd'
      · exact hreg
      · exact absurd (Option.some.inj hadd') hne
  | @add h₁ hadd =>
    by_cases hh : h = h₁
    · subst hh
      simp only [setObj_objs_self] at ho'
      obtain ⟨o, ho, rfl⟩ := Option.map_eq_some_iff.1 ho'
      exact hkeep ⟨ho, Or.inr hadd⟩ rfl rfl
    · simp only [setObj_objs_ne hh] at ho'
      exact hkeep ⟨ho', hreg'.imp_right nofun⟩ rfl rfl
  | @destroy h₁ o₁ hadd ho =>
    by_cases hh : h = h₁
    · subst hh
      simp only [setObj_objs_self, Option.some.injEq] at ho'
      subst ho'
      rcases hreg' with hreg | hadd'
      · cases hreg
      · rw [setObj_adding, hadd] at hadd'; cases hadd'
    · rw [setObj_objs_ne hh] at ho'
      exact hkeep ⟨ho', hreg'⟩ rfl rfl
  | @free h₁ o₁ ho hreg hadd hholds =>
    rw [track_send hst]
    by_cases hh : h = h₁
    · subst hh; simp only [setObj_objs_self] at ho'; cases ho'
    · have hne : h₁ ≠ h := Ne.symm hh
      rw [setObj_objs_ne hh] at ho'
      simp only [track, if_neg hne]
      exact hkeep ⟨ho', hreg'⟩ rfl rfl
  | @submit h₁ o₁ readyTime ho hidle =>
    rw [track_send hst]
    by_cases hh : h = h₁
    · subst hh
      simp only [setObj_objs_self, Option.some.injEq] at ho'
      subst ho'
      simp only [track, if_true]
      exact hready (hkeep ⟨ho, hreg'⟩ rfl rfl)
    · have hne : h₁ ≠ h := Ne.symm hh
      rw [setObj_objs_ne hh] at ho'
      simp only [track, if_neg hne]
      exact hkeep ⟨ho', hreg'⟩ rfl rfl
  | submitted => exact hkeep ⟨ho', hreg'⟩ rfl rfl
  | @drain h₁ o₁ ho hready₁ =>
    rw [track_send hst]
    by_cases hh : h = h₁
    · subst hh
      simp only [setObj_objs_self, Option.some.injEq] at ho'
      subst ho'
      simp only [track, if_true]
      exact hready (hkeep ⟨ho, hreg'⟩ rfl rfl)
    · have hne : h₁ ≠ h := Ne.symm hh
      rw [setObj_objs_ne hh] at ho'
      simp only [track, if_neg hne]
      exact hkeep ⟨ho', hreg'⟩ rfl rfl
  | @configure h₁ o₁ level threshold batchSize ho =>
    rw [track_send hst]
    by_cases hh : h = h₁
    · subst hh
      simp only [setObj_objs_self, Option.some.injEq] at ho'
      subst ho'
      exact Or.inr (Or.inr (by simp [track]))
    · have hne : h₁ ≠ h := Ne.symm hh
      rw [setObj_objs_ne hh] at ho'
      simp only [track, if_neg hne]
      exact hkeep ⟨ho', hreg'⟩ rfl rfl
  | execute he =>
    obtain ⟨o, ho, hreg, hd, hlev⟩ := execute_config he ho'
    refine hkeep ⟨ho, ?_⟩ hd hlev
    rw [hreg, (execute_objs (h := h) he).2.1] at hreg'
    exact hreg'

/-- An event about an XQueue that is still there makes it known. -/
theorem StepCases.heard_none {a : ClientAct} {e : Option Event} (hc : StepCases c a c' e)
    {o' : XQueueObj} (hl : c'.Live h o') {pid : PID} {v : View} (hst : c.started = true)
    (hnone : heard pid h v e.toList = none) :
    v = none ∧ (∀ e₁ ∈ e.toList, e₁.xqueue ≠ some h) ∧
      ∃ o, c.Live h o ∧ outcome h o'.suspended c'.decisions = outcome h o.suspended c.decisions := by
  have hother : ∀ e₁ ∈ e.toList, e₁.xqueue ≠ some h := by
    intro e₁ he₁ hx
    have hknown : track pid h v e₁ ≠ none := by
      obtain rfl : e = some e₁ := by simpa [Option.mem_toList] using he₁
      generalize hev : some e₁ = ev at hc
      cases hc with
      | create hh hadd hnone =>
        obtain ⟨-, rfl⟩ := send_eq_some.1 hev.symm
        cases hx; simp [track]
      | free ho hreg hadd hholds =>
        obtain ⟨-, rfl⟩ := send_eq_some.1 hev.symm
        cases hx
        rw [Live, setObj_objs_self] at hl
        cases hl.1
      | submit ho | drain ho | configure ho =>
        obtain ⟨-, rfl⟩ := send_eq_some.1 hev.symm
        cases hx; simp [track]
      | add | destroy | submitted | execute => cases hev
    obtain rfl : e = some e₁ := by simpa [Option.mem_toList] using he₁
    exact hknown hnone
  refine ⟨?_, hother, ?_⟩
  · rw [← hnone]
    refine (heard_others fun e₁ he₁ => ⟨hother e₁ he₁, ?_⟩).symm
    obtain rfl : e = some e₁ := by simpa [Option.mem_toList] using he₁
    obtain ⟨-, -, h', hx, -⟩ := hc.event
    intro hd
    rw [hd] at hx; cases hx
  · rcases hc.live hl with hold | ⟨-, hsent⟩
    · exact hold
    · obtain ⟨e₁, rfl, -, hx⟩ := hsent hst
      exact absurd hx (hother e₁ (by simp))

end
end Client
end Xsched.Sched
