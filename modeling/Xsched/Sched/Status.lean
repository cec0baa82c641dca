import Mathlib.Data.List.AList

/-!
# The status of the local scheduler

`LocalScheduler` keeps two maps: `xqueue_status` has an entry for each XQueue
it knows, with the pid that owns it and whether it is suspended, and
`process_status` has for each process the set of its running and the set of
its suspended XQueues. `UpdateStatus` changes them on an event of a client,
`Suspend` and `Resume` on a decision of the policy.

The two maps say the same thing twice, and the code keeps them in step by
hand. `Status.Linked` is what it keeps: every XQueue belongs to a process that
has an entry, and the two sets of a process are exactly its XQueues that are
not suspended and those that are. Every event (`Linked.updateStatus`) and
every decision (`Linked.operate`) preserves it.

An entry is never refused: an event for an unknown XQueue makes one
(`createXQueueStatus`), and with it the entry of its process.
`mem_updateStatus` says which events leave a process with an entry.
-/
namespace Xsched.Sched

abbrev PID := Nat
abbrev XQueueHandle := Nat
abbrev XDevice := Nat
abbrev XPreemptLevel := Int
/-- A `system_clock::time_point`. -/
abbrev TimePoint := Nat

def kDeviceTypeUnknown : XDevice := 0
def kPreemptLevelUnknown : XPreemptLevel := 0

/-- A `std::unordered_set<XQueueHandle>`, in the order it is iterated. -/
structure HandleSet where
  elems : List XQueueHandle
  nodup : elems.Nodup
  deriving DecidableEq

namespace HandleSet

instance : Membership XQueueHandle HandleSet := ⟨fun s h => h ∈ s.elems⟩

instance (h : XQueueHandle) (s : HandleSet) : Decidable (h ∈ s) :=
  inferInstanceAs (Decidable (h ∈ s.elems))

def empty : HandleSet := ⟨[], List.nodup_nil⟩

def insert (h : XQueueHandle) (s : HandleSet) : HandleSet := ⟨s.elems.insert h, s.nodup.insert⟩

def erase (h : XQueueHandle) (s : HandleSet) : HandleSet := ⟨s.elems.erase h, s.nodup.erase h⟩

theorem not_mem_empty (h : XQueueHandle) : h ∉ empty := List.not_mem_nil

@[simp] theorem mem_insert {h h' : XQueueHandle} {s : HandleSet} :
    h' ∈ s.insert h ↔ h' = h ∨ h' ∈ s := List.mem_insert_iff

@[simp] theorem mem_erase {h h' : XQueueHandle} {s : HandleSet} :
    h' ∈ s.erase h ↔ h' ≠ h ∧ h' ∈ s := s.nodup.mem_erase_iff

end HandleSet

/-- mirrors sched/include/xsched/sched/protocol/status.h:17-28 -/
structure XQueueStatus where
  handle : XQueueHandle
  device : XDevice
  level : XPreemptLevel
  pid : PID
  threshold : Int
  batchSize : Int
  ready : Bool
  suspended : Bool
  readyTime : TimePoint
  deriving DecidableEq

/-- mirrors sched/include/xsched/sched/protocol/status.h:30-34 -/
structure ProcessInfo where
  pid : PID
  cmdline : String
  deriving DecidableEq

/-- mirrors sched/include/xsched/sched/protocol/status.h:36-41 -/
structure ProcessStatus where
  info : ProcessInfo
  runningXqueues : HandleSet
  suspendedXqueues : HandleSet
  deriving DecidableEq

/-- mirrors sched/include/xsched/sched/protocol/status.h:43-47 -/
structure Status where
  xqueueStatus : AList fun _ : XQueueHandle => XQueueStatus
  processStatus : AList fun _ : PID => ProcessStatus

/-- The events of the scheduler; a query has no effect on the status.
mirrors sched/include/xsched/sched/protocol/event.h -/
inductive Event where
  | hint (pid : PID)
  | schedulerTerminate (pid : PID)
  | processCreate (pid : PID) (cmdline : String)
  | processDestroy (pid : PID)
  | xQueueCreate (pid : PID) (handle : XQueueHandle) (device : XDevice) (level : XPreemptLevel)
      (threshold batchSize : Int)
  | xQueueDestroy (pid : PID) (handle : XQueueHandle)
  | xQueueReady (pid : PID) (handle : XQueueHandle) (readyTime : TimePoint)
  | xQueueIdle (pid : PID) (handle : XQueueHandle)
  | xQueueConfigUpdate (pid : PID) (handle : XQueueHandle) (device : XDevice)
      (level : XPreemptLevel) (threshold batchSize : Int)
  | xQueueQuery (pid : PID) (handle : XQueueHandle)
  | xQueueQueryAll (pid : PID)
  deriving DecidableEq

namespace Event

/-- `Event::Pid()`: the process that made the event; for a `ProcessDestroyEvent`
the process it is about. -/
def pid : Event → PID
  | hint pid | schedulerTerminate pid | processCreate pid _ | processDestroy pid
  | xQueueCreate pid _ _ _ _ _ | xQueueDestroy pid _ | xQueueReady pid _ _ | xQueueIdle pid _
  | xQueueConfigUpdate pid _ _ _ _ _ | xQueueQuery pid _ | xQueueQueryAll pid => pid

/-- The events that make an entry where there is none. -/
def creates : Event → Bool
  | processCreate _ _ | xQueueCreate _ _ _ _ _ _ | xQueueReady _ _ _ | xQueueIdle _ _
  | xQueueConfigUpdate _ _ _ _ _ _ => true
  | _ => false

/-- `Handle()`, of the events that a process sends about one of its XQueues. -/
def xqueue : Event → Option XQueueHandle
  | xQueueCreate _ h _ _ _ _ | xQueueDestroy _ h | xQueueReady _ h _ | xQueueIdle _ h
  | xQueueConfigUpdate _ h _ _ _ _ => some h
  | _ => none

end Event

namespace Status

def empty : Status := ⟨∅, ∅⟩

def setXQueue (h : XQueueHandle) (q : XQueueStatus) (s : Status) : Status :=
  { s with xqueueStatus := s.xqueueStatus.insert h q }

def setProcess (pid : PID) (p : ProcessStatus) (s : Status) : Status :=
  { s with processStatus := s.processStatus.insert pid p }

/-- The process entry that `CreateXQueueStatus` uses: the one there is, or a
new one. mirrors sched/src/scheduler/local.cpp:153-161 -/
def processOf (pid : PID) (cmdline : String) (s : Status) : ProcessStatus :=
  match s.processStatus.lookup pid with
  | some p => p
  | none => ⟨⟨pid, cmdline⟩, .empty, .empty⟩

/-- mirrors sched/src/scheduler/local.cpp:136-163 -/
def createXQueueStatus (pid : PID) (cmdline : String) (handle : XQueueHandle) (device : XDevice)
    (level : XPreemptLevel) (threshold batchSize : Int) (ready : Bool) (readyTime : TimePoint)
    (s : Status) : Status :=
  let q := ⟨handle, device, level, pid, threshold, batchSize, ready, false, readyTime⟩
  let p := s.processOf pid cmdline
  (s.setXQueue handle q).setProcess pid
    { p with runningXqueues := p.runningXqueues.insert handle }

/-- The case of `XQueueCreateEvent`, and that of `XQueueConfigUpdateEvent`.
mirrors sched/src/scheduler/local.cpp:204-222,271-287 -/
def config (now : TimePoint) (pid : PID) (handle : XQueueHandle) (device : XDevice)
    (level : XPreemptLevel) (threshold batchSize : Int) (s : Status) : Status :=
  match s.xqueueStatus.lookup handle with
  | none => s.createXQueueStatus pid "" handle device level threshold batchSize false now
  | some q => s.setXQueue handle { q with device, level, threshold, batchSize }

/-- `for (auto &handle : handles) status_.xqueue_status.erase(handle)`. -/
def eraseAll (handles : HandleSet) (m : AList fun _ : XQueueHandle => XQueueStatus) :
    AList fun _ : XQueueHandle => XQueueStatus :=
  handles.elems.foldl (fun m h => m.erase h) m

/-- `none`: the assertion `e->Pid() == pid` fails.
mirrors sched/src/scheduler/local.cpp:165-335 -/
def updateStatus (now : TimePoint) (e : Event) (s : Status) : Option Status :=
  match e with
  | .processCreate pid cmdline =>
    match s.processStatus.lookup pid with
    | some p => some (s.setProcess pid { p with info := { p.info with cmdline } })
    | none => some (s.setProcess pid ⟨⟨pid, cmdline⟩, .empty, .empty⟩)
  | .processDestroy pid =>
    match s.processStatus.lookup pid with
    | none => some s
    | some p => some
        { xqueueStatus :=
            eraseAll p.suspendedXqueues (eraseAll p.runningXqueues s.xqueueStatus)
          processStatus := s.processStatus.erase pid }
  | .xQueueCreate pid handle device level threshold batchSize =>
    some (s.config now pid handle device level threshold batchSize)
  | .xQueueDestroy epid handle =>
    match s.xqueueStatus.lookup handle with
    | none => some s
    | some q =>
      if epid ≠ q.pid then none
      else
        match s.processStatus.lookup q.pid with
        | none => some s
        | some p => some
            { xqueueStatus := s.xqueueStatus.erase handle
              processStatus := s.processStatus.insert q.pid
                { p with
                  runningXqueues := p.runningXqueues.erase handle
                  suspendedXqueues := p.suspendedXqueues.erase handle } }
  | .xQueueReady pid handle readyTime =>
    match s.xqueueStatus.lookup handle with
    | none => some (s.createXQueueStatus pid "" handle kDeviceTypeUnknown kPreemptLevelUnknown
        0 0 true readyTime)
    | some q => some (s.setXQueue handle { q with ready := true, readyTime })
  | .xQueueIdle pid handle =>
    match s.xqueueStatus.lookup handle with
    | none => some (s.createXQueueStatus pid "" handle kDeviceTypeUnknown kPreemptLevelUnknown
        0 0 false now)
    | some q => some (s.setXQueue handle { q with ready := false })
  | .xQueueConfigUpdate pid handle device level threshold batchSize =>
    some (s.config now pid handle device level threshold batchSize)
  | .hint _ | .schedulerTerminate _ | .xQueueQuery _ _ | .xQueueQueryAll _ => some s

end Status

/-- A process's entry after one of its XQueues was suspended (`b`) or resumed. -/
def ProcessStatus.place (b : Bool) (h : XQueueHandle) (p : ProcessStatus) : ProcessStatus :=
  match b with
  | true =>
    { p with
      runningXqueues := p.runningXqueues.erase h
      suspendedXqueues := p.suspendedXqueues.insert h }
  | false =>
    { p with
      runningXqueues := p.runningXqueues.insert h
      suspendedXqueues := p.suspendedXqueues.erase h }

namespace Status

/-- The common body of `Suspend` (`b`) and `Resume`. -/
def operate (b : Bool) (h : XQueueHandle) (s : Status) : Status :=
  match s.xqueueStatus.lookup h with
  | none => s
  | some q =>
    let s := s.setXQueue h { q with suspended := b }
    match s.processStatus.lookup q.pid with
    | none => s
    | some p => s.setProcess q.pid (p.place b h)

/-- mirrors sched/src/scheduler/local.cpp:337-350 -/
def suspend (h : XQueueHandle) (s : Status) : Status := s.operate true h

/-- mirrors sched/src/scheduler/local.cpp:352-365 -/
def resume (h : XQueueHandle) (s : Status) : Status := s.operate false h

/-! ## What the two maps agree on -/

/-- `xqueue_status` has `h` as an XQueue of `pid` with this `suspended`. -/
def Placed (s : Status) (pid : PID) (b : Bool) (h : XQueueHandle) : Prop :=
  ∃ q, s.xqueueStatus.lookup h = some q ∧ q.pid = pid ∧ q.suspended = b

end Status

/-- The suspended (`b`) or the running XQueues of a process. -/
def ProcessStatus.xqueues (b : Bool) (p : ProcessStatus) : HandleSet :=
  match b with
  | true => p.suspendedXqueues
  | false => p.runningXqueues

theorem ProcessStatus.mem_place {b b' : Bool} {h h' : XQueueHandle} {p : ProcessStatus} :
    h' ∈ (p.place b h).xqueues b' ↔ if h' = h then b' = b else h' ∈ p.xqueues b' := by
  cases b <;> cases b' <;> by_cases hh : h' = h <;> simp [place, xqueues, hh]

namespace Status

/-- What the scheduler keeps between the two maps. -/
structure Linked (s : Status) : Prop where
  keyed : ∀ pid p, s.processStatus.lookup pid = some p → p.info.pid = pid
  home : ∀ h q, s.xqueueStatus.lookup h = some q → q.pid ∈ s.processStatus
  sets : ∀ pid p, s.processStatus.lookup pid = some p →
    ∀ b h, h ∈ p.xqueues b ↔ s.Placed pid b h

theorem linked_empty : empty.Linked := by
  refine ⟨?_, ?_, ?_⟩
  · intro pid p hp; cases hp
  · intro h q hq; cases hq
  · intro pid p hp; cases hp

section
variable {s s' : Status} {pid : PID} {h : XQueueHandle}

theorem placed_iff {q : XQueueStatus} {b : Bool} (hq : s.xqueueStatus.lookup h = some q) :
    s.Placed pid b h ↔ q.pid = pid ∧ q.suspended = b := by
  unfold Placed
  rw [hq]
  simp

theorem not_placed {b : Bool} (hq : s.xqueueStatus.lookup h = none) : ¬ s.Placed pid b h := by
  rintro ⟨q, hq', -⟩
  rw [hq] at hq'; cases hq'

theorem processOf_eq {p : ProcessStatus} (hp : s.processStatus.lookup pid = some p)
    (cmdline : String) : s.processOf pid cmdline = p := by
  unfold processOf; rw [hp]

theorem processOf_new (hp : s.processStatus.lookup pid = none) (cmdline : String) :
    s.processOf pid cmdline = ⟨⟨pid, cmdline⟩, .empty, .empty⟩ := by
  unfold processOf; rw [hp]

theorem Linked.processOf_pid (hs : s.Linked) (cmdline : String) :
    (s.processOf pid cmdline).info.pid = pid := by
  cases hp : s.processStatus.lookup pid with
  | none => rw [processOf_new hp]
  | some p => rw [processOf_eq hp]; exact hs.keyed pid p hp

theorem Linked.mem_processOf (hs : s.Linked) (cmdline : String) (b : Bool) :
    h ∈ (s.processOf pid cmdline).xqueues b ↔ s.Placed pid b h := by
  cases hp : s.processStatus.lookup pid with
  | some p => rw [processOf_eq hp]; exact hs.sets pid p hp b h
  | none =>
    rw [processOf_new hp]
    constructor
    · intro hm; cases b <;> exact absurd hm (HandleSet.not_mem_empty h)
    · rintro ⟨q, hq, rfl, -⟩
      exact absurd (hs.home h q hq) (AList.lookup_eq_none.1 hp)

/-- A change at one XQueue of one process, made in both maps. -/
theorem Linked.changeAt (hs : s.Linked) (cmdline : String) {p' : ProcessStatus}
    (hproc : s'.processStatus = s.processStatus.insert pid p') (hkey : p'.info.pid = pid)
    (hother : ∀ h', h' ≠ h → s'.xqueueStatus.lookup h' = s.xqueueStatus.lookup h')
    (hold : ∀ q, s.xqueueStatus.lookup h = some q → q.pid = pid)
    (hnew : ∀ q, s'.xqueueStatus.lookup h = some q → q.pid = pid)
    (hat : ∀ b, h ∈ p'.xqueues b ↔ s'.Placed pid b h)
    (hsets : ∀ b h', h' ≠ h →
      (h' ∈ p'.xqueues b ↔ h' ∈ (s.processOf pid cmdline).xqueues b)) : s'.Linked := by
  have hsame : ∀ h', h' ≠ h → ∀ pid' b, s'.Placed pid' b h' ↔ s.Placed pid' b h' := by
    intro h' hne pid' b
    unfold Placed
    rw [hother h' hne]
  refine ⟨?_, ?_, ?_⟩
  · intro pid' p hp
    rw [hproc] at hp
    by_cases hpid : pid' = pid
    · subst hpid
      rw [AList.lookup_insert] at hp
      cases hp; exact hkey
    · rw [AList.lookup_insert_ne hpid] at hp
      exact hs.keyed pid' p hp
  · intro h' q hq
    rw [hproc, AList.mem_insert]
    by_cases hh : h' = h
    · subst hh; exact Or.inl (hnew q hq)
    · rw [hother h' hh] at hq
      exact Or.inr (hs.home h' q hq)
  · intro pid' p hp b h'
    rw [hproc] at hp
    by_cases hpid : pid' = pid
    · subst hpid
      rw [AList.lookup_insert] at hp
      cases hp
      by_cases hh : h' = h
      · subst hh; exact hat b
      · rw [hsets b h' hh, hsame h' hh]
        exact hs.mem_processOf cmdline b
    · rw [AList.lookup_insert_ne hpid] at hp
      rw [hs.sets pid' p hp b h']
      by_cases hh : h' = h
      · subst hh
        constructor
        · rintro ⟨q, hq, hqp, -⟩
          exact absurd (hqp.symm.trans (hold q hq)) hpid
        · rintro ⟨q, hq, hqp, -⟩
          exact absurd (hqp.symm.trans (hnew q hq)) hpid
      · exact (hsame h' hh pid' b).symm

/-- An XQueue's entry may change in any field but `pid` and `suspended`. -/
theorem Linked.setXQueue (hs : s.Linked) {q q' : XQueueStatus}
    (hq : s.xqueueStatus.lookup h = some q) (hpid : q'.pid = q.pid)
    (hsus : q'.suspended = q.suspended) : (s.setXQueue h q').Linked := by
  have hplaced : ∀ pid b h', (s.setXQueue h q').Placed pid b h' ↔ s.Placed pid b h' := by
    intro pid b h'
    unfold Placed Status.setXQueue
    by_cases hh : h' = h
    · subst hh; simp [hq, hpid, hsus]
    · rw [AList.lookup_insert_ne hh]
  refine ⟨hs.keyed, ?_, ?_⟩
  · intro h' q₁ hq₁
    by_cases hh : h' = h
    · subst hh
      simp only [Status.setXQueue, AList.lookup_insert, Option.some.injEq] at hq₁
      subst hq₁
      rw [hpid]; exact hs.home h' q hq
    · simp only [Status.setXQueue, AList.lookup_insert_ne hh] at hq₁
      exact hs.home h' q₁ hq₁
  · intro pid p hp b h'
    rw [hplaced]; exact hs.sets pid p hp b h'

/-- A process's entry may change in `info.cmdline`. -/
theorem Linked.setProcess (hs : s.Linked) {p' : ProcessStatus} (hkey : p'.info.pid = pid)
    (hsets : ∀ b h, h ∈ p'.xqueues b ↔ s.Placed pid b h) : (s.setProcess pid p').Linked := by
  refine ⟨?_, ?_, ?_⟩
  · intro pid' p hp
    by_cases hpid : pid' = pid
    · subst hpid
      simp only [Status.setProcess, AList.lookup_insert, Option.some.injEq] at hp
      subst hp; exact hkey
    · simp only [Status.setProcess, AList.lookup_insert_ne hpid] at hp
      exact hs.keyed pid' p hp
  · intro h q hq
    exact (AList.mem_insert _).2 (Or.inr (hs.home h q hq))
  · intro pid' p hp b h
    by_cases hpid : pid' = pid
    · subst hpid
      simp only [Status.setProcess, AList.lookup_insert, Option.some.injEq] at hp
      subst hp; exact hsets b h
    · simp only [Status.setProcess, AList.lookup_insert_ne hpid] at hp
      exact hs.sets pid' p hp b h

theorem Linked.createXQueueStatus (hs : s.Linked) (hnone : s.xqueueStatus.lookup h = none)
    (cmdline : String) (device : XDevice) (level : XPreemptLevel) (threshold batchSize : Int)
    (ready : Bool) (readyTime : TimePoint) :
    (s.createXQueueStatus pid cmdline h device level threshold batchSize ready readyTime).Linked := by
  have hnew : (s.createXQueueStatus pid cmdline h device level threshold batchSize ready
      readyTime).xqueueStatus.lookup h =
      some ⟨h, device, level, pid, threshold, batchSize, ready, false, readyTime⟩ :=
    AList.lookup_insert _
  refine hs.changeAt cmdline (h := h) rfl ?_ ?_ ?_ ?_ ?_ ?_
  · exact hs.processOf_pid cmdline
  · intro h' hne; exact AList.lookup_insert_ne hne
  · intro q hq; rw [hnone] at hq; cases hq
  · intro q hq; rw [hnew] at hq; cases hq; rfl
  · intro b
    rw [placed_iff hnew]
    cases b with
    | false => simp [ProcessStatus.xqueues]
    | true =>
      have hnot : h ∉ (s.processOf pid cmdline).suspendedXqueues := by
        intro hm
        exact not_placed hnone ((hs.mem_processOf cmdline true).1 hm)
      simp [ProcessStatus.xqueues, hnot]
  · intro b h' hne
    cases b <;> simp [ProcessStatus.xqueues, hne]

/-! ## What an event keeps -/

theorem Linked.config (hs : s.Linked) (now : TimePoint) (device : XDevice)
    (level : XPreemptLevel) (threshold batchSize : Int) :
    (s.config now pid h device level threshold batchSize).Linked := by
  unfold Status.config
  cases hq : s.xqueueStatus.lookup h with
  | none => exact hs.createXQueueStatus hq _ _ _ _ _ _ _
  | some q => exact hs.setXQueue hq rfl rfl

theorem lookup_eraseAll (handles : HandleSet)
    (m : AList fun _ : XQueueHandle => XQueueStatus) :
    (eraseAll handles m).lookup h = if h ∈ handles then none else m.lookup h := by
  obtain ⟨elems, hnd⟩ := handles
  change (elems.foldl (fun m h => m.erase h) m).lookup h = if h ∈ elems then none else m.lookup h
  clear hnd
  induction elems generalizing m with
  | nil => simp
  | cons h' elems ih =>
    rw [List.foldl_cons, ih]
    by_cases hh : h = h'
    · subst hh; simp
    · simp [hh]

/-- What `ProcessDestroyEvent` leaves: the XQueues of the other processes. -/
theorem Linked.lookup_destroyed (hs : s.Linked) {p : ProcessStatus}
    (hp : s.processStatus.lookup pid = some p) {q : XQueueStatus} :
    (eraseAll p.suspendedXqueues (eraseAll p.runningXqueues s.xqueueStatus)).lookup h = some q ↔
      s.xqueueStatus.lookup h = some q ∧ q.pid ≠ pid := by
  have hsets := hs.sets pid p hp
  rw [lookup_eraseAll, lookup_eraseAll]
  cases hq : s.xqueueStatus.lookup h with
  | none => simp
  | some q' =>
    have hsus := (hsets true h).trans (placed_iff hq)
    have hrun := (hsets false h).trans (placed_iff hq)
    simp only [ProcessStatus.xqueues] at hsus hrun
    by_cases hpid : q'.pid = pid
    · cases hb : q'.suspended with
      | true => simp [hsus.2 ⟨hpid, hb⟩]; rintro rfl; exact hpid
      | false => simp [hrun.2 ⟨hpid, hb⟩]; rintro rfl; exact hpid
    · have h₁ : h ∉ p.suspendedXqueues := fun hm => hpid (hsus.1 hm).1
      have h₂ : h ∉ p.runningXqueues := fun hm => hpid (hrun.1 hm).1
      simp only [h₁, h₂, if_false, Option.some.injEq]
      constructor
      · rintro rfl; exact ⟨rfl, hpid⟩
      · exact fun hh => hh.1

theorem Linked.destroyProcess (hs : s.Linked) {p : ProcessStatus}
    (hp : s.processStatus.lookup pid = some p) :
    (⟨eraseAll p.suspendedXqueues (eraseAll p.runningXqueues s.xqueueStatus),
      s.processStatus.erase pid⟩ : Status).Linked := by
  have hold : ∀ {pid' p'}, (s.processStatus.erase pid).lookup pid' = some p' →
      pid' ≠ pid ∧ s.processStatus.lookup pid' = some p' := by
    intro pid' p' hp'
    by_cases hpid : pid' = pid
    · subst hpid; rw [AList.lookup_erase] at hp'; cases hp'
    · rw [AList.lookup_erase_ne hpid] at hp'; exact ⟨hpid, hp'⟩
  refine ⟨?_, ?_, ?_⟩
  · intro pid' p' hp'
    exact hs.keyed pid' p' (hold hp').2
  · intro h q hq
    obtain ⟨hq, hpid⟩ := (hs.lookup_destroyed hp).1 hq
    exact AList.mem_erase.2 ⟨hpid, hs.home h q hq⟩
  · intro pid' p' hp' b h
    obtain ⟨hpid, hp'⟩ := hold hp'
    rw [hs.sets pid' p' hp' b h]
    constructor
    · rintro ⟨q, hq, hqp, hb⟩
      exact ⟨q, (hs.lookup_destroyed hp).2 ⟨hq, by rw [hqp]; exact hpid⟩, hqp, hb⟩
    · rintro ⟨q, hq, hqp, hb⟩
      exact ⟨q, ((hs.lookup_destroyed hp).1 hq).1, hqp, hb⟩

theorem Linked.destroyXQueue (hs : s.Linked) {q : XQueueStatus} {p : ProcessStatus}
    (hq : s.xqueueStatus.lookup h = some q) (hp : s.processStatus.lookup q.pid = some p) :
    (⟨s.xqueueStatus.erase h, s.processStatus.insert q.pid
      { p with
        runningXqueues := p.runningXqueues.erase h
        suspendedXqueues := p.suspendedXqueues.erase h }⟩ : Status).Linked := by
  have hnone : (s.xqueueStatus.erase h).lookup h = none := AList.lookup_erase _ _
  refine hs.changeAt "" (h := h) rfl (hs.keyed _ p hp) ?_ ?_ ?_ ?_ ?_
  · intro h' hne; exact AList.lookup_erase_ne hne
  · intro q' hq'; rw [hq] at hq'; cases hq'; rfl
  · intro q' hq'; rw [hnone] at hq'; cases hq'
  · intro b
    refine iff_of_false ?_ (not_placed hnone)
    cases b <;> simp [ProcessStatus.xqueues]
  · intro b h' hne
    rw [processOf_eq hp]
    cases b <;> simp [ProcessStatus.xqueues, hne]

/-- An event keeps the two maps in step. -/
theorem Linked.updateStatus (hs : s.Linked) {now : TimePoint} {e : Event}
    (hu : s.updateStatus now e = some s') : s'.Linked := by
  cases e with
  | hint | schedulerTerminate | xQueueQuery | xQueueQueryAll => cases hu; exact hs
  | processCreate pid cmdline =>
    simp only [Status.updateStatus] at hu
    cases hp : s.processStatus.lookup pid with
    | some p =>
      rw [hp] at hu; cases hu
      refine hs.setProcess (hs.keyed pid p hp) fun b h => ?_
      rw [← hs.sets pid p hp b h]
      cases b <;> rfl
    | none =>
      rw [hp] at hu; cases hu
      refine hs.setProcess rfl fun b h => ?_
      rw [← processOf_new hp cmdline]
      exact hs.mem_processOf cmdline b
  | processDestroy pid =>
    simp only [Status.updateStatus] at hu
    cases hp : s.processStatus.lookup pid with
    | none => rw [hp] at hu; cases hu; exact hs
    | some p => rw [hp] at hu; cases hu; exact hs.destroyProcess hp
  | xQueueCreate pid handle device level threshold batchSize =>
    cases hu; exact hs.config now device level threshold batchSize
  | xQueueConfigUpdate pid handle device level threshold batchSize =>
    cases hu; exact hs.config now device level threshold batchSize
  | xQueueReady pid handle readyTime =>
    simp only [Status.updateStatus] at hu
    cases hq : s.xqueueStatus.lookup handle with
    | none => rw [hq] at hu; cases hu; exact hs.createXQueueStatus hq _ _ _ _ _ _ _
    | some q => rw [hq] at hu; cases hu; exact hs.setXQueue hq rfl rfl
  | xQueueIdle pid handle =>
    simp only [Status.updateStatus] at hu
    cases hq : s.xqueueStatus.lookup handle with
    | none => rw [hq] at hu; cases hu; exact hs.createXQueueStatus hq _ _ _ _ _ _ _
    | some q => rw [hq] at hu; cases hu; exact hs.setXQueue hq rfl rfl
  | xQueueDestroy epid handle =>
    simp only [Status.updateStatus] at hu
    cases hq : s.xqueueStatus.lookup handle with
    | none => rw [hq] at hu; cases hu; exact hs
    | some q =>
      rw [hq] at hu
      simp only at hu
      split at hu
      · cases hu
      · cases hp : s.processStatus.lookup q.pid with
        | none => rw [hp] at hu; cases hu; exact hs
        | some p => rw [hp] at hu; cases hu; exact hs.destroyXQueue hq hp

/-- A decision of the policy keeps the two maps in step. -/
theorem Linked.operate (hs : s.Linked) (b : Bool) : (s.operate b h).Linked := by
  unfold Status.operate
  cases hq : s.xqueueStatus.lookup h with
  | none => exact hs
  | some q =>
    obtain ⟨p, hp⟩ := Option.isSome_iff_exists.1 (AList.lookup_isSome.2 (hs.home h q hq))
    simp only [Status.setXQueue, hp]
    have hnew : (s.xqueueStatus.insert h { q with suspended := b }).lookup h =
        some { q with suspended := b } := AList.lookup_insert _
    refine hs.changeAt "" (h := h) rfl ?_ ?_ ?_ ?_ ?_ ?_
    · cases b <;> exact hs.keyed _ p hp
    · intro h' hne; exact AList.lookup_insert_ne hne
    · intro q' hq'; rw [hq] at hq'; cases hq'; rfl
    · intro q' hq'; cases hnew.symm.trans hq'; rfl
    · intro b'
      rw [ProcessStatus.mem_place, if_pos rfl]
      refine Iff.trans ?_ (placed_iff hnew).symm
      simp [eq_comm]
    · intro b' h' hne
      rw [ProcessStatus.mem_place, if_neg hne, processOf_eq hp]

/-! ## Which processes have an entry -/

theorem mem_setProcess {pid' : PID} {p : ProcessStatus} :
    pid ∈ (s.setProcess pid' p).processStatus ↔ pid = pid' ∨ pid ∈ s.processStatus :=
  AList.mem_insert _

theorem mem_config {now : TimePoint} {epid : PID} {device : XDevice} {level : XPreemptLevel}
    {threshold batchSize : Int}
    (hm : pid ∈ (s.config now epid h device level threshold batchSize).processStatus) :
    pid ∈ s.processStatus ∨ pid = epid := by
  unfold config at hm
  split at hm
  · exact (mem_setProcess.1 hm).symm
  · exact Or.inl hm

/-- A process has an entry after an event only if it had one and the event
does not destroy it, or if the event is its own and makes one. -/
theorem mem_updateStatus {now : TimePoint} {e : Event} (hu : s.updateStatus now e = some s')
    (hm : pid ∈ s'.processStatus) :
    pid ∈ s.processStatus ∧ e ≠ .processDestroy pid ∨ e.pid = pid ∧ e.creates = true := by
  cases e with
  | hint | schedulerTerminate | xQueueQuery | xQueueQueryAll => cases hu; exact Or.inl ⟨hm, nofun⟩
  | processCreate epid cmdline =>
    simp only [updateStatus] at hu
    split at hu <;> cases hu <;> rcases mem_setProcess.1 hm with rfl | hm
    · exact Or.inr ⟨rfl, rfl⟩
    · exact Or.inl ⟨hm, nofun⟩
    · exact Or.inr ⟨rfl, rfl⟩
    · exact Or.inl ⟨hm, nofun⟩
  | processDestroy epid =>
    simp only [updateStatus] at hu
    split at hu <;> cases hu
    · rename_i hnone
      refine Or.inl ⟨hm, ?_⟩
      rintro ⟨⟩
      exact AList.lookup_eq_none.1 hnone hm
    · obtain ⟨hne, hm⟩ := AList.mem_erase.1 hm
      refine Or.inl ⟨hm, ?_⟩
      rintro ⟨⟩
      exact hne rfl
  | xQueueCreate epid handle device level threshold batchSize =>
    cases hu
    rcases mem_config hm with hm | rfl
    · exact Or.inl ⟨hm, nofun⟩
    · exact Or.inr ⟨rfl, rfl⟩
  | xQueueConfigUpdate epid handle device level threshold batchSize =>
    cases hu
    rcases mem_config hm with hm | rfl
    · exact Or.inl ⟨hm, nofun⟩
    · exact Or.inr ⟨rfl, rfl⟩
  | xQueueReady epid handle readyTime =>
    simp only [updateStatus] at hu
    split at hu <;> cases hu
    · rcases mem_setProcess.1 hm with rfl | hm
      · exact Or.inr ⟨rfl, rfl⟩
      · exact Or.inl ⟨hm, nofun⟩
    · exact Or.inl ⟨hm, nofun⟩
  | xQueueIdle epid handle =>
    simp only [updateStatus] at hu
    split at hu <;> cases hu
    · rcases mem_setProcess.1 hm with rfl | hm
      · exact Or.inr ⟨rfl, rfl⟩
      · exact Or.inl ⟨hm, nofun⟩
    · exact Or.inl ⟨hm, nofun⟩
  | xQueueDestroy epid handle =>
    refine Or.inl ⟨?_, nofun⟩
    simp only [updateStatus] at hu
    split at hu
    · cases hu; exact hm
    · split at hu
      · cases hu
      · split at hu <;> cases hu
        · exact hm
        · rename_i p hp
          rcases (AList.mem_insert _).1 hm with rfl | hm
          · exact AList.lookup_isSome.1 (by rw [hp]; rfl)
          · exact hm

/-- A decision of the policy makes and removes no entry. -/
theorem mem_operate (b : Bool) : pid ∈ (s.operate b h).processStatus ↔ pid ∈ s.processStatus := by
  unfold operate
  split
  · rfl
  · simp only [setXQueue]
    split
    · rfl
    · rename_i p hp
      rw [mem_setProcess]
      constructor
      · rintro (rfl | hm)
        · exact AList.lookup_isSome.1 (by rw [hp]; rfl)
        · exact hm
      · exact Or.inr

theorem lookup_operate (b : Bool) (h' : XQueueHandle) :
    (s.operate b h).xqueueStatus.lookup h' =
      if h' = h then (s.xqueueStatus.lookup h).map fun q => { q with suspended := b }
      else s.xqueueStatus.lookup h' := by
  cases hq : s.xqueueStatus.lookup h with
  | none =>
    simp only [operate, hq, Option.map_none]
    split
    · rename_i hh; rw [hh, hq]
    · rfl
  | some q =>
    have hx : (s.operate b h).xqueueStatus =
        s.xqueueStatus.insert h { q with suspended := b } := by
      simp only [operate, hq, setXQueue]
      split <;> rfl
    rw [hx]
    split
    · rename_i hh; rw [hh]; exact AList.lookup_insert _
    · rename_i hh; exact AList.lookup_insert_ne hh

/-- With its process entry gone, a process has no XQueue left. -/
theorem Linked.no_xqueue (hs : s.Linked) (hm : pid ∉ s.processStatus) {q : XQueueStatus}
    (hq : s.xqueueStatus.lookup h = some q) : q.pid ≠ pid := by
  rintro rfl
  exact hm (hs.home h q hq)

/-! ## Where an entry comes from -/

/-- The entry of an XQueue after an event: the one there was, with its owner
and what the policy decided, or one that the event made. -/
def Inherits (s : Status) (e : Event) (h : XQueueHandle) (q' : XQueueStatus) : Prop :=
  (∃ q, s.xqueueStatus.lookup h = some q ∧ q'.pid = q.pid ∧ q'.handle = q.handle ∧
    q'.suspended = q.suspended) ∨
  s.xqueueStatus.lookup h = none ∧ e.xqueue = some h ∧ q'.pid = e.pid ∧ q'.handle = h ∧
    q'.suspended = false

theorem Inherits.old {e : Event} {q : XQueueStatus} (hq : s.xqueueStatus.lookup h = some q) :
    s.Inherits e h q := Or.inl ⟨q, hq, rfl, rfl, rfl⟩

/-- An entry that is set in place. -/
theorem Inherits.setXQueue {e : Event} {h₀ : XQueueHandle} {q₀ q₁ q' : XQueueStatus}
    (hq₀ : s.xqueueStatus.lookup h₀ = some q₀)
    (hq' : (s.setXQueue h₀ q₁).xqueueStatus.lookup h = some q') (hpid : q₁.pid = q₀.pid)
    (hhandle : q₁.handle = q₀.handle) (hsus : q₁.suspended = q₀.suspended) :
    s.Inherits e h q' := by
  by_cases hh : h = h₀
  · subst hh
    simp only [Status.setXQueue, AList.lookup_insert, Option.some.injEq] at hq'
    subst hq'
    exact Or.inl ⟨q₀, hq₀, hpid, hhandle, hsus⟩
  · simp only [Status.setXQueue, AList.lookup_insert_ne hh] at hq'
    exact .old hq'

theorem Inherits.createXQueueStatus {e : Event} {h₀ : XQueueHandle} {cmdline : String}
    {device : XDevice} {level : XPreemptLevel} {threshold batchSize : Int} {ready : Bool}
    {readyTime : TimePoint} {q' : XQueueStatus} (hnone : s.xqueueStatus.lookup h₀ = none)
    (he : e.xqueue = some h₀)
    (hq' : (s.createXQueueStatus e.pid cmdline h₀ device level threshold batchSize ready
      readyTime).xqueueStatus.lookup h = some q') : s.Inherits e h q' := by
  by_cases hh : h = h₀
  · subst hh
    simp only [Status.createXQueueStatus, Status.setProcess, Status.setXQueue,
      AList.lookup_insert, Option.some.injEq] at hq'
    subst hq'
    exact Or.inr ⟨hnone, he, rfl, rfl, rfl⟩
  · simp only [Status.createXQueueStatus, Status.setProcess, Status.setXQueue,
      AList.lookup_insert_ne hh] at hq'
    exact .old hq'

theorem Inherits.config {e : Event} {now : TimePoint} {h₀ : XQueueHandle} {device : XDevice}
    {level : XPreemptLevel} {threshold batchSize : Int} {q' : XQueueStatus}
    (he : e.xqueue = some h₀)
    (hq' : (s.config now e.pid h₀ device level threshold batchSize).xqueueStatus.lookup h =
      some q') : s.Inherits e h q' := by
  unfold Status.config at hq'
  split at hq'
  · rename_i hnone; exact .createXQueueStatus hnone he hq'
  · rename_i q hq; exact .setXQueue hq hq' rfl rfl rfl

theorem inherits_updateStatus {now : TimePoint} {e : Event}
    (hu : s.updateStatus now e = some s') {q' : XQueueStatus}
    (hq' : s'.xqueueStatus.lookup h = some q') : s.Inherits e h q' := by
  cases e with
  | hint | schedulerTerminate | xQueueQuery | xQueueQueryAll => cases hu; exact .old hq'
  | processCreate epid cmdline =>
    simp only [updateStatus] at hu
    split at hu <;> cases hu <;> exact .old hq'
  | processDestroy epid =>
    simp only [updateStatus] at hu
    split at hu <;> cases hu
    · exact .old hq'
    · simp only [lookup_eraseAll] at hq'
      split at hq'
      · cases hq'
      · split at hq'
        · cases hq'
        · exact .old hq'
  | xQueueCreate epid handle device level threshold batchSize =>
    cases hu; exact .config rfl hq'
  | xQueueConfigUpdate epid handle device level threshold batchSize =>
    cases hu; exact .config rfl hq'
  | xQueueReady epid handle readyTime =>
    simp only [updateStatus] at hu
    split at hu <;> cases hu
    · rename_i hnone; exact .createXQueueStatus hnone rfl hq'
    · rename_i q hq; exact .setXQueue hq hq' rfl rfl rfl
  | xQueueIdle epid handle =>
    simp only [updateStatus] at hu
    split at hu <;> cases hu
    · rename_i hnone; exact .createXQueueStatus hnone rfl hq'
    · rename_i q hq; exact .setXQueue hq hq' rfl rfl rfl
  | xQueueDestroy epid handle =>
    simp only [updateStatus] at hu
    split at hu
    · cases hu; exact .old hq'
    · split at hu
      · cases hu
      · split at hu <;> cases hu
        · exact .old hq'
        · by_cases hh : h = handle
          · subst hh; simp only [AList.lookup_erase] at hq'; cases hq'
          · simp only [AList.lookup_erase_ne hh] at hq'
            exact .old hq'

end
end Status
end Xsched.Sched
