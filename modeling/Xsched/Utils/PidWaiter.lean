import Mathlib.Data.List.AList
import Mathlib.Logic.Function.Basic
import Xsched.Core.LTS

/-!
# Waiting for the exit of processes

`PidFdWaiter::AddWait` opens a pid fd, records it in `pid_fds_` under the pid
and adds it to an epoll set with the pid as its data. `WaitWorker` takes an
event, looks the fd up by the pid in it, drops the record, removes and closes
the fd and calls back. The caller and the worker interleave at every system
call and every access to the map.

The kernel is part of the system: processes are forked, exit and are reaped,
a pid is used again, a pid fd refers to one process for as long as it is open
and is ready once that process has exited, and a number that is not open may be
handed out again. A process is its pid and a generation.

**The break.** `pid_fds_` has one fd for a pid, the epoll set one entry for
each fd. A second `AddWait` of a watched pid overwrites the record and leaves
two entries; the exit makes both ready, and the second event finds no record.

**Results**
* `watch_exact`: while every process is added once and no record is
  overwritten (`FirstAdd`), no assertion fails, each open pid fd is recorded
  and registered or in the hands of a thread, and each process that was added
  and has exited is called back exactly once, or is ready and leads the worker
  to its callback.
* `added_twice`: two `AddWait` of one process.
-/
namespace Xsched
namespace PidFdWaiter

open Function (update)

abbrev PID := UInt32
abbrev Fd := Nat

/-- One use of a pid. -/
structure Process where
  pid : PID
  generation : Nat
  deriving DecidableEq, Repr

inductive ProcessPhase where
  | running
  /-- Exited, its pid not free yet. -/
  | zombie
  | gone
  deriving DecidableEq, Repr

/-! ## Event data -/

/-- mirrors utils/include/xsched/utils/waitpid.h:18-22 -/
inductive EpollEventType where
  | terminate
  | pid
  deriving DecidableEq, Repr

def EpollEventType.value : EpollEventType → UInt64
  | .terminate => 0
  | .pid => 1

/-- mirrors utils/src/waitpid.cpp:163-166 -/
def packEventData (type : EpollEventType) (pid : PID) : UInt64 :=
  type.value <<< 32 ||| pid.toUInt64

/-- mirrors utils/src/waitpid.cpp:153-156 -/
def getEventPid (data : UInt64) : PID := (data &&& 0xFFFFFFFF).toUInt32

/-- mirrors utils/src/waitpid.cpp:158-161 -/
def getEventType (data : UInt64) : UInt64 := data >>> 32

theorem toNat_packEventData (pid : PID) :
    (packEventData .pid pid).toNat = 2 ^ 32 + pid.toNat := by
  have hor := Nat.shiftLeft_add_eq_or_of_lt pid.toNat_lt 1
  have hone : ((1 : UInt64) <<< 32).toNat = 1 <<< 32 := by decide
  rw [packEventData, EpollEventType.value, UInt64.toNat_or, UInt32.toNat_toUInt64, hone, ← hor]
  rfl

@[simp] theorem getEventPid_pack (pid : PID) : getEventPid (packEventData .pid pid) = pid := by
  have hlt : pid.toNat < 2 ^ 32 := pid.toNat_lt
  have hmask : (0xFFFFFFFF : UInt64).toNat = 2 ^ 32 - 1 := by decide
  apply UInt32.toNat_inj.1
  rw [getEventPid, UInt64.toNat_toUInt32, UInt64.toNat_and, toNat_packEventData, hmask,
    Nat.and_two_pow_sub_one_eq_mod]
  omega

@[simp] theorem getEventType_pack (pid : PID) :
    getEventType (packEventData .pid pid) = EpollEventType.pid.value := by
  have hlt : pid.toNat < 2 ^ 32 := pid.toNat_lt
  have hshift : (32 : UInt64).toNat % 64 = 32 := by decide
  have hone : EpollEventType.pid.value.toNat = 1 := by decide
  apply UInt64.toNat_inj.1
  rw [getEventType, UInt64.toNat_shiftRight, toNat_packEventData, hshift, Nat.shiftRight_eq_div_pow]
  omega

/-! ## The waiter -/

/-- The `XASSERT`s that may fail, by what they say. -/
inductive Assertion where
  /-- "fail to add pid fd to epoll" -/
  | failToAdd
  /-- "invalid event type: %d" -/
  | invalidEventType
  /-- "pid fd not found" -/
  | pidFdNotFound
  /-- "fail to remove pid fd from epoll" -/
  | failToRemove
  /-- "fail to close pid fd" -/
  | failToClose
  deriving DecidableEq, Repr

/-- The thread that calls `AddWait` and `Stop`. -/
inductive CallerPc where
  | idle
  | opened (pid : PID) (fd : Fd)
  | recorded (pid : PID) (fd : Fd)
  /-- `ESRCH`: about to call back itself. -/
  | gone (process : Process)
  | stopping
  | stopped
  deriving DecidableEq, Repr

inductive WorkerPc where
  | waiting
  | event (data : UInt64)
  | erased (pid : PID) (fd : Fd)
  | removed (pid : PID) (fd : Fd)
  /-- About to call back; `process` is what the closed fd referred to. -/
  | closed (process : Process)
  | returned
  deriving DecidableEq, Repr

/-- The kernel's processes, open pid fds and epoll set, and the waiter. Ghosts:
`added` are the processes that `AddWait` was called for (of a free pid: the last
one that had it), `callbacks` the calls of `callback_`. -/
structure State where
  generation : PID → Nat
  phase : PID → ProcessPhase
  fds : Fd → Option Process
  epoll : Fd → Option UInt64
  terminate : Bool
  pidFds : AList fun _ : PID => Fd
  caller : CallerPc
  worker : WorkerPc
  aborted : Option Assertion
  added : List Process
  callbacks : List Process

inductive Act where
  | fork (pid : PID)
  | exit (pid : PID)
  | reap (pid : PID)
  /-- `fd` is what `pidfd_open` returns, if it does. -/
  | addWait (pid : PID) (fd : Fd)
  | stop
  | caller
  /-- `epoll_wait` returns the event of a pid fd, or of `event_fd_`. -/
  | epollWait (source : Option Fd)
  | worker
  deriving DecidableEq, Repr

namespace State

def current (s : State) (pid : PID) : Process := ⟨pid, s.generation pid⟩

/-- The process no longer runs. -/
def Exited (s : State) (p : Process) : Prop :=
  p.generation < s.generation p.pid ∨
    p.generation = s.generation p.pid ∧ s.phase p.pid ≠ .running

instance (s : State) (p : Process) : Decidable (s.Exited p) :=
  inferInstanceAs (Decidable (_ ∨ _))

/-- `AddWait` up to the return of `OpenPidFd`.
mirrors utils/src/waitpid.cpp:88-99 -/
def addWait (s : State) (pid : PID) (fd : Fd) : Option State :=
  match s.phase pid with
  | .gone =>
    some { s with added := s.added ++ [s.current pid], caller := .gone (s.current pid) }
  | _ =>
    if s.fds fd = none then
      some { s with
        added := s.added ++ [s.current pid]
        fds := update s.fds fd (some (s.current pid))
        caller := .opened pid fd }
    else none

/-- The next step of the thread in `AddWait` or `Stop`.
mirrors utils/src/waitpid.cpp:71-117 -/
def callerStep (s : State) : Option State :=
  match s.caller with
  | .opened pid fd =>
    some { s with pidFds := s.pidFds.insert pid fd, caller := .recorded pid fd }
  | .recorded pid fd =>
    if s.epoll fd = none then
      some { s with epoll := update s.epoll fd (some (packEventData .pid pid)), caller := .idle }
    else some { s with aborted := some .failToAdd }
  | .gone p => some { s with callbacks := s.callbacks ++ [p], caller := .idle }
  | .stopping =>
    if s.worker = .returned then
      some { s with
        fds := fun fd => if fd ∈ s.pidFds.entries.map (·.2) then none else s.fds fd
        epoll := fun _ => none
        pidFds := ∅
        caller := .stopped }
    else none
  | .idle | .stopped => none

/-- `epoll_wait`: any entry that is ready. -/
def epollWait (s : State) : Option Fd → Option State
  | none =>
    if s.terminate then some { s with worker := .event (packEventData .terminate 0) } else none
  | some fd =>
    match s.epoll fd, s.fds fd with
    | some data, some p => if s.Exited p then some { s with worker := .event data } else none
    | _, _ => none

/-- `pid_fds_.find(pid)` -/
def find (pidFds : AList fun _ : PID => Fd) (pid : PID) : Option Fd := pidFds.lookup pid

/-- The next step of `WaitWorker` behind `epoll_wait`.
mirrors utils/src/waitpid.cpp:119-151 -/
def workerStep (s : State) : Option State :=
  match s.worker with
  | .event data =>
    if getEventType data = EpollEventType.terminate.value then some { s with worker := .returned }
    else if getEventType data = EpollEventType.pid.value then
      match find s.pidFds (getEventPid data) with
      | none => some { s with aborted := some .pidFdNotFound }
      | some fd =>
        some { s with
          pidFds := s.pidFds.erase (getEventPid data)
          worker := .erased (getEventPid data) fd }
    else some { s with aborted := some .invalidEventType }
  | .erased pid fd =>
    if s.epoll fd = none then some { s with aborted := some .failToRemove }
    else some { s with epoll := update s.epoll fd none, worker := .removed pid fd }
  | .removed pid fd =>
    match s.fds fd with
    | none => some { s with aborted := some .failToClose }
    | some p =>
      some { s with
        fds := update s.fds fd none
        epoll := update s.epoll fd none
        worker := .closed ⟨pid, p.generation⟩ }
  | .closed p => some { s with callbacks := s.callbacks ++ [p], worker := .waiting }
  | .waiting | .returned => none

end State

def step (s : State) (act : Act) : Option State :=
  if s.aborted.isSome then none
  else match act with
    | .fork pid =>
      if s.phase pid = .gone then
        some { s with
          generation := update s.generation pid (s.generation pid + 1)
          phase := update s.phase pid .running }
      else none
    | .exit pid =>
      if s.phase pid = .running then some { s with phase := update s.phase pid .zombie } else none
    | .reap pid =>
      if s.phase pid = .zombie then some { s with phase := update s.phase pid .gone } else none
    | .addWait pid fd => if s.caller = .idle then s.addWait pid fd else none
    | .stop =>
      if s.caller = .idle then some { s with terminate := true, caller := .stopping } else none
    | .caller => s.callerStep
    | .epollWait source => if s.worker = .waiting then s.epollWait source else none
    | .worker => s.workerStep

/-- `Start` has returned; no pid is in use. -/
def init : State where
  generation _ := 0
  phase _ := .gone
  fds _ := none
  epoll _ := none
  terminate := false
  pidFds := ∅
  caller := .idle
  worker := .waiting
  aborted := none
  added := []
  callbacks := []

def system : LTS State Act := .ofFn (· = init) step

/-- `AddWait` is called once for a process, and finds no record of an earlier
process with the same pid when it writes its own. -/
def FirstAdd (s : State) : Act → Prop
  | .addWait pid _ => s.current pid ∉ s.added
  | .caller =>
    match s.caller with
    | .opened pid _ => pid ∉ s.pidFds
    | _ => True
  | _ => True

/-! ## What a step does -/

/-- The steps, with the branch that was taken. -/
inductive Step (s : State) : Act → State → Prop
  | fork {pid} : s.phase pid = .gone →
    Step s (.fork pid) { s with
      generation := update s.generation pid (s.generation pid + 1)
      phase := update s.phase pid .running }
  | exit {pid} : s.phase pid = .running →
    Step s (.exit pid) { s with phase := update s.phase pid .zombie }
  | reap {pid} : s.phase pid = .zombie →
    Step s (.reap pid) { s with phase := update s.phase pid .gone }
  | openFd {pid fd} : s.caller = .idle → s.fds fd = none →
    Step s (.addWait pid fd) { s with
      added := s.added ++ [s.current pid]
      fds := update s.fds fd (some (s.current pid))
      caller := .opened pid fd }
  | noProcess {pid fd} : s.caller = .idle → s.phase pid = .gone →
    Step s (.addWait pid fd) { s with
      added := s.added ++ [s.current pid]
      caller := .gone (s.current pid) }
  | record {pid fd} : s.caller = .opened pid fd →
    Step s .caller { s with pidFds := s.pidFds.insert pid fd, caller := .recorded pid fd }
  | register {pid fd} : s.caller = .recorded pid fd → s.epoll fd = none →
    Step s .caller { s with
      epoll := update s.epoll fd (some (packEventData .pid pid))
      caller := .idle }
  | failToAdd {pid fd} : s.caller = .recorded pid fd → s.epoll fd ≠ none →
    Step s .caller { s with aborted := some .failToAdd }
  | callerBack {p} : s.caller = .gone p →
    Step s .caller { s with callbacks := s.callbacks ++ [p], caller := .idle }
  | stop : s.caller = .idle → Step s .stop { s with terminate := true, caller := .stopping }
  | stopped : s.caller = .stopping → s.worker = .returned →
    Step s .caller { s with
      fds := fun fd => if fd ∈ s.pidFds.entries.map (·.2) then none else s.fds fd
      epoll := fun _ => none
      pidFds := ∅
      caller := .stopped }
  | terminate : s.worker = .waiting → s.terminate = true →
    Step s (.epollWait none) { s with worker := .event (packEventData .terminate 0) }
  | ready {fd data p} : s.worker = .waiting → s.epoll fd = some data → s.fds fd = some p →
    s.Exited p → Step s (.epollWait (some fd)) { s with worker := .event data }
  | returned {data} : s.worker = .event data →
    getEventType data = EpollEventType.terminate.value →
    Step s .worker { s with worker := .returned }
  | invalidEventType {data} : s.worker = .event data →
    getEventType data ≠ EpollEventType.terminate.value →
    getEventType data ≠ EpollEventType.pid.value →
    Step s .worker { s with aborted := some .invalidEventType }
  | pidFdNotFound {data} : s.worker = .event data →
    getEventType data ≠ EpollEventType.terminate.value →
    State.find s.pidFds (getEventPid data) = none →
    Step s .worker { s with aborted := some .pidFdNotFound }
  | erase {data fd} : s.worker = .event data →
    getEventType data ≠ EpollEventType.terminate.value →
    State.find s.pidFds (getEventPid data) = some fd →
    Step s .worker { s with
      pidFds := s.pidFds.erase (getEventPid data)
      worker := .erased (getEventPid data) fd }
  | failToRemove {pid fd} : s.worker = .erased pid fd → s.epoll fd = none →
    Step s .worker { s with aborted := some .failToRemove }
  | remove {pid fd} : s.worker = .erased pid fd → s.epoll fd ≠ none →
    Step s .worker { s with epoll := update s.epoll fd none, worker := .removed pid fd }
  | failToClose {pid fd} : s.worker = .removed pid fd → s.fds fd = none →
    Step s .worker { s with aborted := some .failToClose }
  | closeFd {pid fd p} : s.worker = .removed pid fd → s.fds fd = some p →
    Step s .worker { s with
      fds := update s.fds fd none
      epoll := update s.epoll fd none
      worker := .closed ⟨pid, p.generation⟩ }
  | workerBack {p} : s.worker = .closed p →
    Step s .worker { s with callbacks := s.callbacks ++ [p], worker := .waiting }

section Cases
variable {s s' : State}

theorem addWait_cases {pid : PID} {fd : Fd} (hc : s.caller = .idle)
    (h : s.addWait pid fd = some s') : Step s (.addWait pid fd) s' := by
  unfold State.addWait at h
  split at h
  · rename_i hp
    cases h; exact .noProcess hc hp
  · split at h
    · rename_i hf
      cases h; exact .openFd hc hf
    · cases h

theorem callerStep_cases (h : s.callerStep = some s') : Step s .caller s' := by
  unfold State.callerStep at h
  split at h
  · cases h; exact .record ‹_›
  · split at h
    · cases h; exact .register ‹_› ‹_›
    · cases h; exact .failToAdd ‹_› ‹_›
  · cases h; exact .callerBack ‹_›
  · split at h
    · cases h; exact .stopped ‹_› ‹_›
    · cases h
  · cases h
  · cases h

theorem epollWait_cases {source : Option Fd} (hw : s.worker = .waiting)
    (h : s.epollWait source = some s') : Step s (.epollWait source) s' := by
  unfold State.epollWait at h
  split at h
  · split at h
    · cases h; exact .terminate hw ‹_›
    · cases h
  · split at h
    · split at h
      · cases h; exact .ready hw ‹_› ‹_› ‹_›
      · cases h
    · cases h

theorem workerStep_cases (h : s.workerStep = some s') : Step s .worker s' := by
  unfold State.workerStep at h
  split at h
  · split at h
    · cases h; exact .returned ‹_› ‹_›
    · split at h
      · split at h
        · cases h; exact .pidFdNotFound ‹_› ‹_› ‹_›
        · cases h; exact .erase ‹_› ‹_› ‹_›
      · cases h; exact .invalidEventType ‹_› ‹_› ‹_›
  · split at h
    · cases h; exact .failToRemove ‹_› ‹_›
    · cases h; exact .remove ‹_› ‹_›
  · split at h
    · cases h; exact .failToClose ‹_› ‹_›
    · cases h; exact .closeFd ‹_› ‹_›
  · cases h; exact .workerBack ‹_›
  · cases h
  · cases h

theorem step_cases {act : Act} (h : step s act = some s') : Step s act s' := by
  unfold step at h
  split at h
  · cases h
  · cases act with
    | fork pid =>
      simp only [Option.ite_none_right_eq_some, Option.some.injEq] at h
      obtain ⟨hp, rfl⟩ := h; exact .fork hp
    | exit pid =>
      simp only [Option.ite_none_right_eq_some, Option.some.injEq] at h
      obtain ⟨hp, rfl⟩ := h; exact .exit hp
    | reap pid =>
      simp only [Option.ite_none_right_eq_some, Option.some.injEq] at h
      obtain ⟨hp, rfl⟩ := h; exact .reap hp
    | addWait pid fd =>
      simp only [Option.ite_none_right_eq_some] at h
      exact addWait_cases h.1 h.2
    | stop =>
      simp only [Option.ite_none_right_eq_some, Option.some.injEq] at h
      obtain ⟨hc, rfl⟩ := h; exact .stop hc
    | caller => exact callerStep_cases h
    | epollWait source =>
      simp only [Option.ite_none_right_eq_some] at h
      exact epollWait_cases h.1 h.2
    | worker => exact workerStep_cases h

end Cases

/-! ## Where a pid fd is -/

/-- A pid fd on its way from `pidfd_open` to `close`. -/
inductive Place where
  | opened
  | recorded
  | watched
  | erased
  | removed
  deriving DecidableEq

/-- The caller or the worker has the fd in its hands. -/
def Held (s : State) : Place → PID → Fd → Prop
  | .opened, pid, fd => s.caller = .opened pid fd
  | .recorded, pid, fd => s.caller = .recorded pid fd
  | .watched, _, _ => False
  | .erased, pid, fd => s.worker = .erased pid fd
  | .removed, pid, fd => s.worker = .removed pid fd

def InMap (s : State) (pid : PID) (fd : Fd) : Prop := s.pidFds.lookup pid = some fd

/-- What is true of a pid fd at each place, and nowhere else. -/
structure At (s : State) (fd : Fd) (p : Process) (place : Place) : Prop where
  held : ∀ pl pid, Held s pl pid fd ↔ pl ≠ .watched ∧ pl = place ∧ pid = p.pid
  inMap : ∀ pid, InMap s pid fd ↔ (place = .recorded ∨ place = .watched) ∧ pid = p.pid
  epoll : s.epoll fd =
    if place = .watched ∨ place = .erased then some (packEventData .pid p.pid) else none
  exited : place = .erased ∨ place = .removed → s.Exited p

/-- A number that is not open is named nowhere. -/
structure Unused (s : State) (fd : Fd) : Prop where
  held : ∀ pl pid, ¬Held s pl pid fd
  inMap : ∀ pid, ¬InMap s pid fd
  epoll : s.epoll fd = none

def Placed (s : State) (fd : Fd) : Prop :=
  match s.fds fd with
  | none => Unused s fd
  | some p => ∃ place, At s fd p place

/-- An event that the worker has is that of a watched fd which is ready. -/
def EventOk (s : State) : Prop :=
  ∀ data, s.worker = .event data → data = packEventData .terminate 0 ∨
    ∃ fd p, s.fds fd = some p ∧ At s fd p .watched ∧ data = packEventData .pid p.pid ∧ s.Exited p

structure Inv (s : State) : Prop where
  aborted : s.aborted = none
  placed : ∀ fd, Placed s fd
  event : EventOk s

section Invariant
variable {s s' : State}

theorem Exited.mono {act : Act} (h : Step s act s') {p : Process} (hx : s.Exited p) :
    s'.Exited p := by
  cases h
  case fork pid hp =>
    by_cases hpid : p.pid = pid
    · subst hpid
      rcases hx with hlt | ⟨heq, -⟩
      · exact .inl (by simp; omega)
      · exact .inl (by simp [heq])
    · simpa [State.Exited, hpid] using hx
  case exit pid hp =>
    by_cases hpid : p.pid = pid
    · subst hpid
      rcases hx with hlt | ⟨heq, -⟩
      · exact .inl hlt
      · exact .inr ⟨heq, by simp⟩
    · simpa [State.Exited, hpid] using hx
  case reap pid hp =>
    by_cases hpid : p.pid = pid
    · subst hpid
      rcases hx with hlt | ⟨heq, -⟩
      · exact .inl hlt
      · exact .inr ⟨heq, by simp⟩
    · simpa [State.Exited, hpid] using hx
  all_goals exact hx

/-- An fd that a step does not concern. -/
structure Same (s s' : State) (fd : Fd) : Prop where
  fds : s'.fds fd = s.fds fd
  held : ∀ pl pid, Held s' pl pid fd ↔ Held s pl pid fd
  inMap : ∀ pid, InMap s' pid fd ↔ InMap s pid fd
  epoll : s'.epoll fd = s.epoll fd

theorem At.same {fd : Fd} {p : Process} {place : Place} (h : At s fd p place)
    (hs : Same s s' fd) (hx : s.Exited p → s'.Exited p) : At s' fd p place :=
  ⟨fun pl pid => (hs.held pl pid).trans (h.held pl pid),
    fun pid => (hs.inMap pid).trans (h.inMap pid), hs.epoll.trans h.epoll,
    fun hp => hx (h.exited hp)⟩

theorem Placed.same {fd : Fd} (h : Placed s fd) (hs : Same s s' fd)
    (hx : ∀ p, s.Exited p → s'.Exited p) : Placed s' fd := by
  unfold Placed at h ⊢
  rw [hs.fds]
  split at h
  · exact ⟨fun pl pid ho => h.held pl pid ((hs.held pl pid).1 ho),
      fun pid ho => h.inMap pid ((hs.inMap pid).1 ho), hs.epoll.trans h.epoll⟩
  · obtain ⟨place, hp⟩ := h; exact ⟨place, hp.same hs (hx _)⟩

theorem Placed.of_at {fd : Fd} {p : Process} (place : Place) (hf : s.fds fd = some p)
    (h : At s fd p place) : Placed s fd := by
  unfold Placed; rw [hf]; exact ⟨place, h⟩

theorem Placed.unused {fd : Fd} (h : Placed s fd) (hf : s.fds fd = none) : Unused s fd := by
  unfold Placed at h; rw [hf] at h; exact h

theorem Placed.of_unused {fd : Fd} (hf : s.fds fd = none) (h : Unused s fd) : Placed s fd := by
  unfold Placed; rw [hf]; exact h

/-- An fd in somebody's hands is open, and at the place that belongs to it. -/
theorem Placed.at_held {pid : PID} {fd : Fd} (place : Place) (hp : Placed s fd)
    (h : Held s place pid fd) : ∃ p, s.fds fd = some p ∧ p.pid = pid ∧ At s fd p place := by
  unfold Placed at hp
  split at hp
  · exact absurd h (hp.held place pid)
  · rename_i p hf
    obtain ⟨pl, hp⟩ := hp
    obtain ⟨-, rfl, rfl⟩ := (hp.held place pid).1 h
    exact ⟨p, hf, rfl, hp⟩

/-! ## From place to place -/

/-- A step with no pid fd in its hands, before and after. -/
theorem placed_idle (hi : Inv s) (hmono : ∀ p, s.Exited p → s'.Exited p) (hfds : s'.fds = s.fds)
    (hepoll : s'.epoll = s.epoll) (hmap : s'.pidFds = s.pidFds)
    (hheld : ∀ pl pid fd, Held s' pl pid fd ↔ Held s pl pid fd) (fd : Fd) : Placed s' fd :=
  (hi.placed fd).same ⟨by rw [hfds], fun pl pid => hheld pl pid fd,
    fun pid => by rw [InMap, InMap, hmap], by rw [hepoll]⟩ hmono

theorem placed_open (hi : Inv s) {pid : PID} {fd : Fd} (hc : s.caller = .idle)
    (hf : s.fds fd = none) (u : Fd) :
    Placed { s with
      added := s.added ++ [s.current pid]
      fds := update s.fds fd (some (s.current pid))
      caller := .opened pid fd } u := by
  by_cases hu : u = fd
  · subst hu
    have hunused := (hi.placed u).unused hf
    refine .of_at .opened (Function.update_self ..) ⟨fun pl pid' => ?_, fun pid' => ?_,
      ?_, ?_⟩
    · have hold := hunused.held pl pid'
      cases pl <;> simp_all [Held, State.current, eq_comm]
    · simpa [InMap] using hunused.inMap pid'
    · simpa using hunused.epoll
    · simp
  · refine (hi.placed u).same ⟨Function.update_of_ne hu _ _, fun pl pid' => ?_, fun _ => .rfl,
      rfl⟩ fun _ => id
    cases pl <;> simp [Held, hc, Ne.symm hu]

theorem placed_record (hi : Inv s) {pid : PID} {fd : Fd} (hc : s.caller = .opened pid fd)
    (hnew : pid ∉ s.pidFds) (u : Fd) :
    Placed { s with pidFds := s.pidFds.insert pid fd, caller := .recorded pid fd } u := by
  obtain ⟨p, hf, rfl, hat⟩ := (hi.placed fd).at_held .opened hc
  have hlookup : ∀ pid', pid' ≠ p.pid →
      (s.pidFds.insert p.pid fd).lookup pid' = s.pidFds.lookup pid' := fun pid' h =>
    AList.lookup_insert_ne h
  by_cases hu : u = fd
  · subst hu
    refine .of_at .recorded hf ⟨fun pl pid' => ?_, fun pid' => ?_, ?_, ?_⟩
    · have hold := hat.held pl pid'
      cases pl <;> simp_all [Held, eq_comm]
    · by_cases hpid : pid' = p.pid
      · subst hpid; simp [InMap]
      · have hold := hat.inMap pid'
        simp only [InMap, hlookup pid' hpid] at hold ⊢
        simpa [hpid] using hold
    · simpa using hat.epoll
    · simp
  · refine (hi.placed u).same ⟨rfl, fun pl pid' => ?_, fun pid' => ?_, rfl⟩ fun _ => id
    · cases pl <;> simp [Held, hc, Ne.symm hu]
    · by_cases hpid : pid' = p.pid
      · subst hpid
        simp [InMap, Ne.symm hu, AList.lookup_eq_none.2 hnew]
      · simp only [InMap, hlookup pid' hpid]

theorem placed_register (hi : Inv s) {pid : PID} {fd : Fd} (hc : s.caller = .recorded pid fd)
    (u : Fd) :
    Placed { s with
      epoll := update s.epoll fd (some (packEventData .pid pid))
      caller := .idle } u := by
  obtain ⟨p, hf, rfl, hat⟩ := (hi.placed fd).at_held .recorded hc
  by_cases hu : u = fd
  · subst hu
    refine .of_at .watched hf ⟨fun pl pid' => ?_, fun pid' => ?_, ?_, ?_⟩
    · have hold := hat.held pl pid'
      cases pl <;> simp_all [Held]
    · simpa [InMap] using hat.inMap pid'
    · simp
    · simp
  · refine (hi.placed u).same ⟨rfl, fun pl pid' => ?_, fun _ => .rfl,
      Function.update_of_ne hu _ _⟩ fun _ => id
    cases pl <;> simp [Held, hc, Ne.symm hu]

theorem placed_erase (hi : Inv s) {p : Process} {fd : Fd} {data : UInt64}
    (hw : s.worker = .event data) (hf : s.fds fd = some p) (hat : At s fd p .watched)
    (hx : s.Exited p) (u : Fd) :
    Placed { s with pidFds := s.pidFds.erase p.pid, worker := .erased p.pid fd } u := by
  by_cases hu : u = fd
  · subst hu
    refine .of_at .erased hf ⟨fun pl pid' => ?_, fun pid' => ?_, ?_, fun _ => hx⟩
    · have hold := hat.held pl pid'
      cases pl <;> simp_all [Held, eq_comm]
    · by_cases hpid : pid' = p.pid
      · subst hpid; simp [InMap]
      · have hold := hat.inMap pid'
        simp only [InMap, AList.lookup_erase_ne hpid] at hold ⊢
        simpa [hpid] using hold
    · simpa using hat.epoll
  · refine (hi.placed u).same ⟨rfl, fun pl pid' => ?_, fun pid' => ?_, rfl⟩ fun _ => id
    · cases pl <;> simp [Held, hw, Ne.symm hu]
    · by_cases hpid : pid' = p.pid
      · subst hpid
        have hlookup : s.pidFds.lookup p.pid = some fd := (hat.inMap _).2 ⟨.inr rfl, rfl⟩
        simp [InMap, hlookup, Ne.symm hu]
      · simp only [InMap, AList.lookup_erase_ne hpid]

theorem placed_remove (hi : Inv s) {pid : PID} {fd : Fd} (hw : s.worker = .erased pid fd) (u : Fd) :
    Placed { s with epoll := update s.epoll fd none, worker := .removed pid fd } u := by
  obtain ⟨p, hf, rfl, hat⟩ := (hi.placed fd).at_held .erased hw
  by_cases hu : u = fd
  · subst hu
    refine .of_at .removed hf ⟨fun pl pid' => ?_, fun pid' => ?_, ?_,
      fun _ => hat.exited (.inl rfl)⟩
    · have hold := hat.held pl pid'
      cases pl <;> simp_all [Held, eq_comm]
    · simpa [InMap] using hat.inMap pid'
    · simp
  · refine (hi.placed u).same ⟨rfl, fun pl pid' => ?_, fun _ => .rfl,
      Function.update_of_ne hu _ _⟩ fun _ => id
    cases pl <;> simp [Held, hw, Ne.symm hu]

theorem placed_close (hi : Inv s) {pid : PID} {fd : Fd} {q : Process}
    (hw : s.worker = .removed pid fd) (u : Fd) :
    Placed { s with
      fds := update s.fds fd none
      epoll := update s.epoll fd none
      worker := .closed q } u := by
  obtain ⟨p, hf, rfl, hat⟩ := (hi.placed fd).at_held .removed hw
  by_cases hu : u = fd
  · subst hu
    refine .of_unused (Function.update_self ..) ⟨fun pl pid' => ?_, fun pid' => ?_, ?_⟩
    · have hold := hat.held pl pid'
      cases pl <;> simp_all [Held]
    · simpa [InMap] using hat.inMap pid'
    · simp
  · refine (hi.placed u).same ⟨Function.update_of_ne hu _ _, fun pl pid' => ?_, fun _ => .rfl,
      Function.update_of_ne hu _ _⟩ fun _ => id
    cases pl <;> simp [Held, hw, Ne.symm hu]

/-- `Stop` closes what is in the map, and nothing else is open. -/
theorem closed_all (hi : Inv s) (hc : s.caller = .stopping) (hw : s.worker = .returned) (fd : Fd) :
    (if fd ∈ s.pidFds.entries.map (·.2) then none else s.fds fd) = none := by
  have hp := hi.placed fd
  unfold Placed at hp
  split at hp
  · rename_i hf; simp [hf]
  · rename_i p hf
    obtain ⟨place, hat⟩ := hp
    have hheld := hat.held place p.pid
    have hwatched : place = .watched := by
      cases place <;> simp_all [Held]
    have hmap : InMap s p.pid fd := (hat.inMap _).2 ⟨.inr hwatched, rfl⟩
    have hmem : fd ∈ s.pidFds.entries.map (·.2) :=
      List.mem_map_of_mem (f := fun e => e.2) (AList.mem_lookup_iff.1 hmap)
    exact if_pos hmem

theorem placed_stopped (hi : Inv s) (hc : s.caller = .stopping) (hw : s.worker = .returned)
    (u : Fd) :
    Placed { s with
      fds := fun fd => if fd ∈ s.pidFds.entries.map (·.2) then none else s.fds fd
      epoll := fun _ => none
      pidFds := ∅
      caller := .stopped } u := by
  refine .of_unused (closed_all hi hc hw u) ⟨fun pl pid => ?_, fun pid => ?_, rfl⟩
  · cases pl <;> simp [Held, hw]
  · simp [InMap]

theorem Placed.watched {fd : Fd} {p : Process} (h : Placed s fd) (hf : s.fds fd = some p)
    (he : s.epoll fd ≠ none) (hw : s.worker ≠ .erased p.pid fd) : At s fd p .watched := by
  unfold Placed at h
  rw [hf] at h
  obtain ⟨place, hat⟩ := h
  have hepoll := hat.epoll
  have herased := hat.held .erased p.pid
  cases place <;> simp_all [Held]

/-! ## Every step -/

theorem placed_step (hi : Inv s) {act : Act} (hok : FirstAdd s act) (h : Step s act s') :
    ∀ fd, Placed s' fd := by
  have hmono := @Exited.mono s s' act h
  have hidle := placed_idle hi @hmono
  cases h with
  | fork hp => exact hidle rfl rfl rfl fun pl _ _ => by cases pl <;> rfl
  | exit hp => exact hidle rfl rfl rfl fun pl _ _ => by cases pl <;> rfl
  | reap hp => exact hidle rfl rfl rfl fun pl _ _ => by cases pl <;> rfl
  | openFd hc hf => exact placed_open hi hc hf
  | noProcess hc hp => exact hidle rfl rfl rfl fun pl _ _ => by cases pl <;> simp [Held, hc]
  | record hc => exact placed_record hi hc (by simpa [FirstAdd, hc] using hok)
  | register hc he => exact placed_register hi hc
  | failToAdd hc he => exact hidle rfl rfl rfl fun pl _ _ => by cases pl <;> rfl
  | callerBack hc => exact hidle rfl rfl rfl fun pl _ _ => by cases pl <;> simp [Held, hc]
  | stop hc => exact hidle rfl rfl rfl fun pl _ _ => by cases pl <;> simp [Held, hc]
  | stopped hc hw => exact placed_stopped hi hc hw
  | terminate hw ht => exact hidle rfl rfl rfl fun pl _ _ => by cases pl <;> simp [Held, hw]
  | ready hw he hf hx => exact hidle rfl rfl rfl fun pl _ _ => by cases pl <;> simp [Held, hw]
  | returned hw ht => exact hidle rfl rfl rfl fun pl _ _ => by cases pl <;> simp [Held, hw]
  | invalidEventType hw ht ht' => exact hidle rfl rfl rfl fun pl _ _ => by cases pl <;> rfl
  | pidFdNotFound hw ht hl => exact hidle rfl rfl rfl fun pl _ _ => by cases pl <;> rfl
  | @erase data fd hw ht hl =>
    rcases hi.event data hw with rfl | ⟨fd', p, hf, hat, rfl, hx⟩
    · exact absurd rfl ht
    · have hmap : s.pidFds.lookup p.pid = some fd' := (hat.inMap _).2 ⟨.inr rfl, rfl⟩
      rw [getEventPid_pack] at hl ⊢
      obtain rfl : fd' = fd := Option.some.inj (hmap.symm.trans hl)
      exact placed_erase hi hw hf hat hx
  | failToRemove hw he => exact hidle rfl rfl rfl fun pl _ _ => by cases pl <;> rfl
  | remove hw he => exact placed_remove hi hw
  | failToClose hw hf => exact hidle rfl rfl rfl fun pl _ _ => by cases pl <;> rfl
  | closeFd hw hf => exact placed_close hi hw
  | workerBack hw => exact hidle rfl rfl rfl fun pl _ _ => by cases pl <;> simp [Held, hw]

theorem event_step (hi : Inv s) {act : Act} (hplaced : ∀ fd, Placed s' fd) (h : Step s act s') :
    EventOk s' := by
  have hmono := @Exited.mono s s' act h
  -- what the event needs: its fd open for the same process, and in the epoll set
  have hkeep : s'.worker = s.worker →
      (∀ fd p, s.fds fd = some p → s.epoll fd ≠ none →
        s'.fds fd = some p ∧ s'.epoll fd ≠ none) → EventOk s' := by
    intro hw hopen data hdata
    rcases hi.event data (hw.symm.trans hdata) with he | ⟨fd, p, hf, hat, he, hx⟩
    · exact .inl he
    · obtain ⟨hf', he'⟩ := hopen fd p hf (by simp [hat.epoll])
      exact .inr ⟨fd, p, hf', (hplaced fd).watched hf' he' (by rw [hdata]; nofun), he, hmono hx⟩
  cases h with
  | fork hp => exact hkeep rfl fun fd p hf he => ⟨hf, he⟩
  | exit hp => exact hkeep rfl fun fd p hf he => ⟨hf, he⟩
  | reap hp => exact hkeep rfl fun fd p hf he => ⟨hf, he⟩
  | @openFd pid fd' hc hf' =>
    refine hkeep rfl fun fd p hf he => ⟨?_, he⟩
    have hne : fd ≠ fd' := by rintro rfl; rw [hf'] at hf; cases hf
    exact (Function.update_of_ne hne _ _).trans hf
  | noProcess hc hp => exact hkeep rfl fun fd p hf he => ⟨hf, he⟩
  | record hc => exact hkeep rfl fun fd p hf he => ⟨hf, he⟩
  | @register pid fd' hc he' =>
    refine hkeep rfl fun fd p hf he => ⟨hf, ?_⟩
    have hne : fd ≠ fd' := by rintro rfl; exact he he'
    simpa [hne] using he
  | failToAdd hc he => exact hkeep rfl fun fd p hf he => ⟨hf, he⟩
  | callerBack hc => exact hkeep rfl fun fd p hf he => ⟨hf, he⟩
  | stop hc => exact hkeep rfl fun fd p hf he => ⟨hf, he⟩
  | stopped hc hw => intro data hdata; rw [hw] at hdata; cases hdata
  | terminate hw ht =>
    intro data hdata
    cases hdata; exact .inl rfl
  | @ready fd data p hw he hf hx =>
    intro data' hdata
    cases hdata
    have hat := (hplaced fd).watched hf (by simp [he]) (by simp)
    have hepoll := he.symm.trans hat.epoll
    exact .inr ⟨fd, p, hf, hat, by simpa using hepoll, hx⟩
  | returned hw ht => nofun
  | invalidEventType hw ht ht' => exact hkeep rfl fun fd p hf he => ⟨hf, he⟩
  | pidFdNotFound hw ht hl => exact hkeep rfl fun fd p hf he => ⟨hf, he⟩
  | erase hw ht hl => nofun
  | failToRemove hw he => exact hkeep rfl fun fd p hf he => ⟨hf, he⟩
  | remove hw he => nofun
  | failToClose hw hf => exact hkeep rfl fun fd p hf he => ⟨hf, he⟩
  | closeFd hw hf => nofun
  | workerBack hw => nofun

theorem aborted_step (hi : Inv s) {act : Act} (h : Step s act s') : s'.aborted = none := by
  cases h with
  | @failToAdd pid fd hc he =>
    obtain ⟨p, hf, rfl, hat⟩ := (hi.placed fd).at_held .recorded hc
    exact absurd (by simpa using hat.epoll) he
  | @invalidEventType data hw ht ht' =>
    rcases hi.event data hw with rfl | ⟨fd, p, hf, hat, rfl, hx⟩
    · exact absurd rfl ht
    · exact absurd (getEventType_pack p.pid) ht'
  | @pidFdNotFound data hw ht hl =>
    rcases hi.event data hw with rfl | ⟨fd, p, hf, hat, rfl, hx⟩
    · exact absurd rfl ht
    · have hmap : State.find s.pidFds p.pid = some fd := (hat.inMap _).2 ⟨.inr rfl, rfl⟩
      rw [getEventPid_pack, hmap] at hl; cases hl
  | @failToRemove pid fd hw he =>
    obtain ⟨p, hf, rfl, hat⟩ := (hi.placed fd).at_held .erased hw
    rw [hat.epoll] at he
    simp at he
  | @failToClose pid fd hw hf =>
    obtain ⟨p, hf', -, -⟩ := (hi.placed fd).at_held .removed hw
    rw [hf] at hf'; cases hf'
  | _ => exact hi.aborted

/-! ## The callbacks -/

/-- The process of an `AddWait` that has not been called back for. -/
def Pending (s : State) (p : Process) : Prop :=
  (∃ fd, s.fds fd = some p) ∨ s.worker = .closed p ∨ s.caller = .gone p

/-- A process is in one hand at a time; what is about to be called back for has
exited. -/
structure Hands (s : State) : Prop where
  single : ∀ fd fd' p, s.fds fd = some p → s.fds fd' = some p → fd = fd'
  closed : ∀ p, s.worker = .closed p → s.Exited p ∧ ∀ fd, s.fds fd ≠ some p
  gone : ∀ p, s.caller = .gone p → s.Exited p ∧ s.worker ≠ .closed p ∧ ∀ fd, s.fds fd ≠ some p

/-- Each process that was added is pending or was called back for, not both. -/
structure Tally (s : State) : Prop where
  once : s.callbacks.Nodup
  added : ∀ p, Pending s p ∨ p ∈ s.callbacks → p ∈ s.added
  done : ∀ p ∈ s.callbacks, ¬Pending s p ∧ s.Exited p
  kept : ∀ p ∈ s.added, Pending s p ∨ p ∈ s.callbacks ∨ s.caller = .stopped

theorem Tally.keep (ht : Tally s) (hmono : ∀ p, s.Exited p → s'.Exited p)
    (hpending : ∀ p, Pending s' p ↔ Pending s p) (hadded : s'.added = s.added)
    (hcallbacks : s'.callbacks = s.callbacks)
    (hstopped : s.caller = .stopped → s'.caller = .stopped) : Tally s' := by
  refine ⟨by rw [hcallbacks]; exact ht.once, fun p hp => ?_, fun p hp => ?_, fun p hp => ?_⟩
  · rw [hpending, hcallbacks] at hp
    rw [hadded]; exact ht.added p hp
  · rw [hcallbacks] at hp
    rw [hpending]; exact ⟨(ht.done p hp).1, hmono p (ht.done p hp).2⟩
  · rw [hadded] at hp
    rw [hpending, hcallbacks]; exact (ht.kept p hp).imp_right (Or.imp_right hstopped)

/-- `AddWait` takes up a process. -/
theorem Tally.begin (ht : Tally s) {q : Process} (hnew : q ∉ s.added) (hc : s.caller = .idle)
    (hmono : ∀ p, s.Exited p → s'.Exited p)
    (hpending : ∀ p, Pending s' p ↔ Pending s p ∨ p = q) (hadded : s'.added = s.added ++ [q])
    (hcallbacks : s'.callbacks = s.callbacks) : Tally s' := by
  refine ⟨by rw [hcallbacks]; exact ht.once, fun p hp => ?_, fun p hp => ?_, fun p hp => ?_⟩
  · rw [hpending, hcallbacks] at hp
    rw [hadded, List.mem_append, List.mem_singleton]
    rcases hp with (hp | rfl) | hp
    · exact .inl (ht.added p (.inl hp))
    · exact .inr rfl
    · exact .inl (ht.added p (.inr hp))
  · rw [hcallbacks] at hp
    refine ⟨fun hp' => ?_, hmono p (ht.done p hp).2⟩
    rcases (hpending p).1 hp' with h | rfl
    · exact (ht.done p hp).1 h
    · exact hnew (ht.added p (.inr hp))
  · rw [hadded, List.mem_append, List.mem_singleton] at hp
    rw [hpending, hcallbacks]
    rcases hp with hp | rfl
    · rcases ht.kept p hp with h | h | h
      · exact .inl (.inl h)
      · exact .inr (.inl h)
      · rw [hc] at h; cases h
    · exact .inl (.inr rfl)

/-- A callback for a process that is pending. -/
theorem Tally.back (ht : Tally s) {q : Process} (hq : Pending s q) (hx : s.Exited q)
    (hmono : ∀ p, s.Exited p → s'.Exited p)
    (hpending : ∀ p, Pending s' p ↔ Pending s p ∧ p ≠ q) (hadded : s'.added = s.added)
    (hcallbacks : s'.callbacks = s.callbacks ++ [q])
    (hstopped : s.caller = .stopped → s'.caller = .stopped) : Tally s' := by
  have hfresh : q ∉ s.callbacks := fun hmem => (ht.done q hmem).1 hq
  refine ⟨?_, fun p hp => ?_, fun p hp => ?_, fun p hp => ?_⟩
  · rw [hcallbacks]
    exact List.nodup_append.2 ⟨ht.once, List.nodup_cons.2 ⟨nofun, List.nodup_nil⟩,
      fun x hx y hy he => hfresh (List.mem_singleton.1 hy ▸ he ▸ hx)⟩
  · rw [hadded]
    rw [hpending, hcallbacks, List.mem_append, List.mem_singleton] at hp
    rcases hp with ⟨hp, -⟩ | hp | rfl
    · exact ht.added p (.inl hp)
    · exact ht.added p (.inr hp)
    · exact ht.added p (.inl hq)
  · rw [hcallbacks, List.mem_append, List.mem_singleton] at hp
    rw [hpending]
    rcases hp with hp | rfl
    · exact ⟨fun h => (ht.done p hp).1 h.1, hmono p (ht.done p hp).2⟩
    · exact ⟨fun h => h.2 rfl, hmono p hx⟩
  · rw [hadded] at hp
    rw [hpending, hcallbacks, List.mem_append, List.mem_singleton]
    by_cases hpq : p = q
    · exact .inr (.inl (.inr hpq))
    · rcases ht.kept p hp with h | h | h
      · exact .inl ⟨h, hpq⟩
      · exact .inr (.inl (.inl h))
      · exact .inr (.inr (hstopped h))

theorem hands_step (hi : Inv s) (hh : Hands s) (ht : Tally s) {act : Act} (hok : FirstAdd s act)
    (h : Step s act s') : Hands s' := by
  have hmono := @Exited.mono s s' act h
  have hadded := ht.added
  obtain ⟨hsingle, hclosed, hgone⟩ := hh
  unfold Pending at hadded
  cases h with
  | @openFd pid fd hc hf =>
    have hnew : s.current pid ∉ s.added := hok
    constructor <;> grind [State.Exited]
  | @noProcess pid fd hc hp =>
    have hnew : s.current pid ∉ s.added := hok
    constructor <;> grind [State.Exited, State.current]
  | @closeFd pid fd p hw hf =>
    obtain ⟨p', hf', rfl, hat⟩ := (hi.placed fd).at_held .removed hw
    obtain rfl : p' = p := Option.some.inj (hf'.symm.trans hf)
    have hopen : ∀ u q, update s.fds fd none u = some q → u ≠ fd ∧ s.fds u = some q := by grind
    refine ⟨fun u v q hu hv => ?_, fun q hq => ?_, fun q hq => ?_⟩
    · exact hsingle u v q (hopen u q hu).2 (hopen v q hv).2
    · cases hq
      refine ⟨hat.exited (.inr rfl), fun u hu => ?_⟩
      exact (hopen u p' hu).1 (hsingle u fd p' (hopen u p' hu).2 hf)
    · obtain ⟨hx, -, hq⟩ := hgone q hq
      exact ⟨hx, fun he => by cases he; exact hq fd hf, fun u hu => hq u (hopen u q hu).2⟩
  | _ => constructor <;> grind [State.Exited]

theorem tally_step (hi : Inv s) (hh : Hands s) (ht : Tally s) {act : Act} (hok : FirstAdd s act)
    (h : Step s act s') : Tally s' := by
  have hmono := @Exited.mono s s' act h
  have hkeep := ht.keep @hmono
  cases h with
  | fork hp => exact hkeep (fun _ => .rfl) rfl rfl id
  | exit hp => exact hkeep (fun _ => .rfl) rfl rfl id
  | reap hp => exact hkeep (fun _ => .rfl) rfl rfl id
  | @openFd pid fd hc hf =>
    refine ht.begin hok hc @hmono (fun p => ?_) rfl rfl
    simp only [Pending, hc, Function.update_apply]
    grind
  | @noProcess pid fd hc hp =>
    refine ht.begin hok hc @hmono (fun p => ?_) rfl rfl
    simp only [Pending, hc]
    grind
  | record hc => exact hkeep (fun p => by simp [Pending, hc]) rfl rfl (by simp [hc])
  | register hc he => exact hkeep (fun p => by simp [Pending, hc]) rfl rfl (by simp [hc])
  | failToAdd hc he => exact hkeep (fun _ => .rfl) rfl rfl id
  | @callerBack p hc =>
    have hgone := hh.gone p hc
    refine ht.back (.inr (.inr hc)) hgone.1 @hmono (fun q => ?_) rfl rfl (by simp [hc])
    simp only [Pending, hc]
    grind
  | stop hc => exact hkeep (fun p => by simp [Pending, hc]) rfl rfl (by simp [hc])
  | stopped hc hw =>
    have hnone := closed_all hi hc hw
    refine ⟨ht.once, fun p hp => ht.added p (hp.imp_left ?_), fun p hp => ⟨?_, (ht.done p hp).2⟩,
      fun _ _ => .inr (.inr rfl)⟩
    · rintro (⟨fd, hf⟩ | hq | hq)
      · cases (hnone fd).symm.trans hf
      · exact .inr (.inl hq)
      · cases hq
    · rintro (⟨fd, hf⟩ | hq | hq)
      · cases (hnone fd).symm.trans hf
      · rw [hw] at hq; cases hq
      · cases hq
  | terminate hw ht => exact hkeep (fun p => by simp [Pending, hw]) rfl rfl id
  | ready hw he hf hx => exact hkeep (fun p => by simp [Pending, hw]) rfl rfl id
  | returned hw ht => exact hkeep (fun p => by simp [Pending, hw]) rfl rfl id
  | invalidEventType hw ht ht' => exact hkeep (fun _ => .rfl) rfl rfl id
  | pidFdNotFound hw ht hl => exact hkeep (fun _ => .rfl) rfl rfl id
  | erase hw ht hl => exact hkeep (fun p => by simp [Pending, hw]) rfl rfl id
  | failToRemove hw he => exact hkeep (fun _ => .rfl) rfl rfl id
  | remove hw he => exact hkeep (fun p => by simp [Pending, hw]) rfl rfl id
  | failToClose hw hf => exact hkeep (fun _ => .rfl) rfl rfl id
  | @closeFd pid fd p hw hf =>
    obtain ⟨p', hf', rfl, hat⟩ := (hi.placed fd).at_held .removed hw
    obtain rfl : p' = p := Option.some.inj (hf'.symm.trans hf)
    refine hkeep (fun q => ⟨?_, ?_⟩) rfl rfl id
    · rintro (⟨u, hu⟩ | hq | hq)
      · by_cases hne : u = fd
        · subst hne; simp at hu
        · exact .inl ⟨u, by simpa [hne] using hu⟩
      · cases hq; exact .inl ⟨fd, hf⟩
      · exact .inr (.inr hq)
    · rintro (⟨u, hu⟩ | hq | hq)
      · by_cases hne : u = fd
        · subst hne
          cases hf.symm.trans hu
          exact .inr (.inl rfl)
        · exact .inl ⟨u, by simpa [hne] using hu⟩
      · rw [hw] at hq; cases hq
      · exact .inr (.inr hq)
  | @workerBack p hw =>
    have hclosed := hh.closed p hw
    have hgone := hh.gone p
    refine ht.back (.inr (.inl hw)) hclosed.1 @hmono (fun q => ?_) rfl rfl id
    simp only [Pending, hw]
    grind

theorem inv_reachable (hr : (system.restrict FirstAdd).Reachable s) :
    Inv s ∧ Hands s ∧ Tally s := by
  refine LTS.Inductive.reachable (I := fun s => Inv s ∧ Hands s ∧ Tally s) ⟨?_, ?_⟩ s hr
  · rintro s rfl
    refine ⟨⟨rfl, fun fd => .of_unused rfl ⟨fun pl _ => ?_, nofun, rfl⟩, nofun⟩,
      ⟨nofun, nofun, nofun⟩, ⟨List.nodup_nil, ?_, nofun, nofun⟩⟩
    · cases pl <;> nofun
    · rintro p ((⟨fd, hf⟩ | hw | hc) | hp)
      · cases hf
      · cases hw
      · cases hc
      · cases hp
  · rintro s act s' ⟨hi, hh, ht⟩ ⟨hstep, hok⟩
    have h := step_cases hstep
    have hplaced := placed_step hi hok h
    exact ⟨⟨aborted_step hi h, hplaced, event_step hi hplaced h⟩, hands_step hi hh ht hok h,
      tally_step hi hh ht hok h⟩

/-- From the event of a watched process to its callback. -/
theorem deliver (ha : s.aborted = none) {fd : Fd} {p : Process} (hf : s.fds fd = some p)
    (hat : At s fd p .watched) (hx : s.Exited p) (hw : s.worker = .waiting) :
    ∃ s', system.Run s [.epollWait (some fd), .worker, .worker, .worker, .worker] s' ∧
      s'.callbacks = s.callbacks ++ [p] := by
  have hepoll : s.epoll fd = some (packEventData .pid p.pid) := by simpa using hat.epoll
  have hfind : State.find s.pidFds p.pid = some fd := (hat.inMap _).2 ⟨.inr rfl, rfl⟩
  have htype : EpollEventType.pid.value ≠ EpollEventType.terminate.value := by decide
  have hrun : ((LTS.exec step s [.epollWait (some fd), .worker, .worker, .worker, .worker]).map
      (·.callbacks)) = some (s.callbacks ++ [p]) := by
    simp [LTS.exec, step, State.epollWait, State.workerStep, ha, hw, hepoll, hf, hx, hfind, htype]
  obtain ⟨s', hs', hc⟩ := Option.map_eq_some_iff.1 hrun
  have hstar : system.Run s _ s' := LTS.run_of_exec hs'
  exact ⟨s', hstar, hc⟩

/-- **Process-exit watching is exact.** While every process is added once, and no
record is overwritten: no assertion fails; an open pid fd is recorded and
registered, or a thread is on its way with it; a callback is for a process that
was added and has exited, and no process has two; and when the caller and the
worker are between calls, a process that was added and has exited has had its
callback, or is in the epoll set and five steps of the worker away from it. -/
theorem watch_exact (hr : (system.restrict FirstAdd).Reachable s) :
    s.aborted = none ∧
      (∀ fd p, s.fds fd = some p →
        s.pidFds.lookup p.pid = some fd ∧ s.epoll fd = some (packEventData .pid p.pid) ∨
          ∃ place, Held s place p.pid fd) ∧
      s.callbacks.Nodup ∧ (∀ p ∈ s.callbacks, p ∈ s.added ∧ s.Exited p) ∧
      ∀ p ∈ s.added, s.Exited p → s.caller = .idle → s.worker = .waiting →
        p ∈ s.callbacks ∨ ∃ fd s',
          system.Run s [.epollWait (some fd), .worker, .worker, .worker, .worker] s' ∧
            s'.callbacks = s.callbacks ++ [p] := by
  obtain ⟨hi, -, ht⟩ := inv_reachable hr
  have hopen : ∀ fd p, s.fds fd = some p → ∃ place, At s fd p place := fun fd p hf => by
    have hp := hi.placed fd
    unfold Placed at hp
    rw [hf] at hp; exact hp
  refine ⟨hi.aborted, fun fd p hf => ?_, ht.once,
    fun p hp => ⟨ht.added p (.inr hp), (ht.done p hp).2⟩, fun p hp hx hc hw => ?_⟩
  · obtain ⟨place, hat⟩ := hopen fd p hf
    by_cases hplace : place = .watched
    · subst hplace
      exact .inl ⟨(hat.inMap _).2 ⟨.inr rfl, rfl⟩, by simpa using hat.epoll⟩
    · exact .inr ⟨place, (hat.held place p.pid).2 ⟨hplace, rfl, rfl⟩⟩
  · rcases ht.kept p hp with (⟨fd, hf⟩ | hclosed | hgone) | hdone | hstopped
    · obtain ⟨place, hat⟩ := hopen fd p hf
      have hheld := hat.held place p.pid
      have hwatched : place = .watched := by
        cases place <;> simp_all [Held]
      subst hwatched
      exact .inr ⟨fd, deliver hi.aborted hf hat hx hw⟩
    · rw [hw] at hclosed; cases hclosed
    · rw [hc] at hgone; cases hgone
    · exact .inl hdone
    · rw [hc] at hstopped; cases hstopped

/-- The condition can be decided. -/
instance (s : State) : ∀ act, Decidable (FirstAdd s act)
  | .addWait pid _ => inferInstanceAs (Decidable (s.current pid ∉ s.added))
  | .caller =>
    match h : s.caller with
    | .opened pid _ => decidable_of_iff (pid ∉ s.pidFds) (by simp [FirstAdd, h])
    | .idle | .recorded _ _ | .gone _ | .stopping | .stopped =>
      .isTrue (by simp [FirstAdd, h])
  | .fork _ | .exit _ | .reap _ | .stop | .epollWait _ | .worker => .isTrue trivial

/-- One process is watched, exits and is called back for; its pid is used again. -/
theorem watch_exact_reuse :
    ∃ s, (system.restrict FirstAdd).Reachable s ∧ s.callbacks = [⟨7, 1⟩] ∧
      s.added = [⟨7, 1⟩, ⟨7, 2⟩] ∧ s.aborted = none := by
  have htrace : ((LTS.exec (LTS.guarded FirstAdd step) init
      [.fork 7, .addWait 7 3, .caller, .caller, .exit 7, .epollWait (some 3), .worker, .worker,
        .reap 7, .fork 7, .addWait 7 4, .caller, .worker, .worker, .caller]).map
      fun s => (s.callbacks, s.added)) = some ([⟨7, 1⟩], [⟨7, 1⟩, ⟨7, 2⟩]) := by
    decide +kernel
  obtain ⟨s, hs, he⟩ := Option.map_eq_some_iff.1 htrace
  have hr : (system.restrict FirstAdd).Reachable s := LTS.reachable_restrict_of_exec rfl hs
  exact ⟨s, hr, congrArg Prod.fst he, congrArg Prod.snd he, (watch_exact hr).1⟩

/-- **Added twice.** Process 7 is added, and added again while it is watched; it
exits. The worker handles the first of the two events, and the second aborts. -/
theorem added_twice : ∃ s, system.Reachable s ∧ s.aborted = some .pidFdNotFound := by
  have htrace : ((LTS.exec step init
      [.fork 7, .addWait 7 3, .caller, .caller, .addWait 7 4, .caller, .caller, .exit 7,
        .epollWait (some 3), .worker, .worker, .worker, .worker, .epollWait (some 3),
        .worker]).map (·.aborted)) = some (some .pidFdNotFound) := by
    decide +kernel
  obtain ⟨s, hs, he⟩ := Option.map_eq_some_iff.1 htrace
  exact ⟨s, LTS.reachable_of_exec rfl hs, he⟩

end Invariant

end PidFdWaiter
end Xsched
