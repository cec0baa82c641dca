import Mathlib
import Std.Data.ExtTreeMap
import Xsched.Core.RunQueue
import Xsched.Sched.Rounds

/-!
# The process utilization partition

`ProcessUtilizationPartitionPolicy` gives one process after the other a share
of the time. The processes that own an XQueue are in a run queue, each with
what it has saved of its time, and `pid_in_queue_` says which are in it. A round
drops the processes that are gone from the queue, adds the new ones, and if the
slice of the front is over or the front is idle, it rotates the queue until a
ready process is at the front, and switches to that one: its XQueues are
resumed and those of the others suspended.

The rotation has no bound of its own. It ends because `any_ready` was computed
over the queue that is rotated.

**The iteration order.** `process_status` is a `std::unordered_map` too. The
order in which each round goes over it is a parameter of the policy
(`ProcessOrder`), and `rounds` counts the rounds for it.

**Results.** `run_queue`: in every run the queue has each process once, those in
`pid_in_queue_` and after a round those that own an XQueue; only the front can
be running; and every rotation ends, with each entry moved at most once and
none lost.
-/
namespace Xsched.Sched
namespace ProcessUtilizationPartitionPolicy

/-! ## The policy -/

/-- mirrors sched/include/xsched/sched/policy/pup.h:16-22 -/
structure RunEntry where
  pid : PID
  ready : Bool
  running : Bool
  budgetUs : Int
  deriving DecidableEq

/-- `rounds` is only for the iteration order.
mirrors sched/include/xsched/sched/policy/pup.h:39-43 -/
structure State where
  runQueue : List RunEntry
  utils : Std.ExtTreeMap PID Utilization
  pidInQueue : Finset PID
  timesliceEnd : Int
  timesliceAvgUs : Timeslice
  rounds : Nat

/-- `(std::chrono::system_clock::time_point::min)()`. -/
def timePointMin : Int := -2 ^ 63

/-- How each round goes over `process_status`. -/
structure ProcessOrder where
  order : Nat → Status → List PID
  perm : ∀ n st, (order n st).Perm st.processStatus.keys

/-- An entry of `process_status` that is not without XQueues. -/
def hasXqueues (status : Status) (pid : PID) : Bool :=
  (status.processStatus.lookup pid).any fun p =>
    !(p.runningXqueues.elems.isEmpty && p.suspendedXqueues.elems.isEmpty)

/-- `none`: the assertion fails. mirrors sched/src/policy/pup.cpp:157-174 -/
def processReady (status : Status) (pid : PID) : Option Bool :=
  (status.processStatus.lookup pid).map fun p =>
    (p.runningXqueues.elems ++ p.suspendedXqueues.elems).any fun xq =>
      (status.xqueueStatus.lookup xq).any (·.ready)

def utilOf (s : State) (pid : PID) : Int := s.utils[pid]?.getD UTILIZATION_DEFAULT

/-- mirrors sched/src/policy/pup.cpp:136-155 -/
def getBudgetUs (s : State) (pid : PID) : Int :=
  let total := (s.runQueue.map fun e => utilOf s e.pid).sum
  if total = 0 then 0
  else (s.timesliceAvgUs * s.runQueue.length * utilOf s pid).tdiv total

/-- The budget of an entry with what it gets, after the decay.
mirrors sched/src/policy/pup.cpp:76-80,88-92 -/
def grant (s : State) (e : RunEntry) : Int :=
  let newBudget := getBudgetUs s e.pid
  let budget :=
    if e.budgetUs > newBudget then
      let decayed : ℚ := newBudget + (e.budgetUs - newBudget) * (9 / 10)
      decayed.num.tdiv decayed.den
    else e.budgetUs
  budget + newBudget

/-- The entries that are still there, with their readiness; and `any_ready`.
mirrors sched/src/policy/pup.cpp:22-38 -/
def refresh (status : Status) : List RunEntry → Finset PID →
    Option (List RunEntry × Finset PID × Bool)
  | [], pids => some ([], pids, false)
  | e :: queue, pids =>
    if !hasXqueues status e.pid then refresh status queue (pids.erase e.pid)
    else
      (processReady status e.pid).bind fun ready =>
      (refresh status queue pids).map fun (queue, pids, anyReady) =>
      ({ e with ready } :: queue, pids, ready || anyReady)

/-- mirrors sched/src/policy/pup.cpp:40-51 -/
def addNew (status : Status) : List PID → List RunEntry × Finset PID × Bool →
    Option (List RunEntry × Finset PID × Bool)
  | [], acc => some acc
  | pid :: processes, (queue, pids, anyReady) =>
    if !hasXqueues status pid then addNew status processes (queue, pids, anyReady)
    else if pid ∈ pids then addNew status processes (queue, pids, anyReady)
    else
      (processReady status pid).bind fun ready =>
      addNew status processes (queue ++ [⟨pid, ready, false, 0⟩], insert pid pids, anyReady || ready)

/-- The run queue of this round. mirrors sched/src/policy/pup.cpp:11-51 -/
def enqueue (status : Status) (processes : List PID) (s : State) : Option (State × Bool) :=
  (refresh status s.runQueue s.pidInQueue).bind fun acc =>
  (addNew status processes acc).map fun (runQueue, pidInQueue, anyReady) =>
  ({ s with
      utils := s.utils.filter fun pid _ => pid ∈ status.processStatus
      runQueue, pidInQueue
      rounds := s.rounds + 1 }, anyReady)

/-- A front that was running is moved to the end, with what it has not used.
mirrors sched/src/policy/pup.cpp:57-70 -/
def expire (now : TimePoint) (s : State) : State :=
  match s.runQueue with
  | [] => s
  | front :: rest =>
    if front.running then
      let budgetUs := if s.timesliceEnd > now then (s.timesliceEnd - now).tdiv 1000 else 0
      { s with runQueue := rest ++ [{ front with running := false, budgetUs }] }
    else s

/-- A process that is not ready, at the end of the queue.
mirrors sched/src/policy/pup.cpp:73-84 -/
def pass (s : State) (queue : List RunEntry) (e : RunEntry) : RunEntry :=
  { e with ready := false, running := false, budgetUs := grant { s with runQueue := queue } e }

/-- The turn of an entry in `SwitchProcess`. mirrors sched/src/policy/pup.cpp:178-199 -/
def switchEntry (status : Status) (pid : PID) (e : RunEntry) : List Callback × RunEntry :=
  match status.processStatus.lookup e.pid with
  | none => ([], e)
  | some p =>
    if e.pid = pid then (p.suspendedXqueues.elems.map .resume, { e with running := true })
    else (p.runningXqueues.elems.map .suspend, { e with running := false })

/-- mirrors sched/src/policy/pup.cpp:176-200 -/
def switchProcess (status : Status) (pid : PID) (queue : List RunEntry) :
    List Callback × List RunEntry :=
  (queue.flatMap fun e => (switchEntry status pid e).1, queue.map fun e => (switchEntry status pid e).2)

/-- The front is run. mirrors sched/src/policy/pup.cpp:86-95 -/
def run (clock : Clock) (status : Status) (s : State) (front : RunEntry) : List Callback × State :=
  let timesliceEnd := afterUs clock.now (grant s front)
  let (calls, runQueue) := switchProcess status front.pid s.runQueue
  (.addTimer timesliceEnd.toNat :: calls, { s with timesliceEnd, runQueue })

/-- `none`: the queue is empty where its front is used, or the rotation does not
end. mirrors sched/src/policy/pup.cpp:53-95 -/
def dispatch (clock : Clock) (status : Status) (s : State) (anyReady : Bool) :
    Option (List Callback × State) :=
  match s.runQueue with
  | [] => some ([], s)
  | front :: _ =>
    if !anyReady then some ([], s)
    else if front.running ∧ s.timesliceEnd > clock.now ∧ front.ready then some ([], s)
    else
      let s := expire clock.now s
      (rotateTo (·.ready) (pass s) s.runQueue.length s.runQueue).bind fun runQueue =>
      runQueue.head?.map fun front => run clock status { s with runQueue } front

/-- mirrors sched/src/policy/pup.cpp:7-96 -/
def sched (clock : Clock) (status : Status) (processes : List PID) (s : State) :
    Option (List Callback × State) :=
  (enqueue status processes s).bind fun (s, anyReady) => dispatch clock status s anyReady

/-- mirrors sched/src/policy/pup.cpp:98-134 -/
def recvHint (s : State) : Hint → State
  | .utilization pid _ util =>
    if pid = 0 then s
    else if util < UTILIZATION_MIN ∨ util > UTILIZATION_MAX then s
    else { s with utils := s.utils.insert pid util }
  | .timeslice ts =>
    if ts < TIMESLICE_MIN ∨ ts > TIMESLICE_MAX then s else { s with timesliceAvgUs := ts }
  | _ => s

abbrev policy (o : ProcessOrder) : Policy where
  State := State
  init := ⟨[], ∅, ∅, timePointMin, TIMESLICE_DEFAULT, 0⟩
  recvHint _ hint s := recvHint s hint
  sched clock status _ s := sched clock status (o.order s.rounds status) s

/-! ## The queue of a round -/

/-- Each process once, and the same ones as in the set. -/
structure InStep (queue : List RunEntry) (pids : Finset PID) : Prop where
  nodup : (queue.map (·.pid)).Nodup
  mem : ∀ pid, pid ∈ pids ↔ pid ∈ queue.map (·.pid)

/-- No entry but the front is running. -/
def FrontOnly (queue : List RunEntry) : Prop := ∀ e ∈ queue.tail, e.running = false

/-- What the first two loops make of the run queue: the entries with XQueues, as
they were but for their readiness, and after them the new ones. -/
structure Enqueued (status : Status) (s σ : State) (anyReady : Bool) : Prop where
  inStep : InStep σ.runQueue σ.pidInQueue
  ready : ∀ e ∈ σ.runQueue, processReady status e.pid = some e.ready
  any : anyReady = σ.runQueue.any (·.ready)
  mem : ∀ pid, pid ∈ σ.runQueue.map (·.pid) ↔ hasXqueues status pid = true
  parts : ∃ kept new, σ.runQueue = kept ++ new ∧ (∀ e ∈ new, e.running = false) ∧
    kept.map (fun e => (e.pid, e.running)) =
      (s.runQueue.filter (hasXqueues status ·.pid)).map fun e => (e.pid, e.running)
  timesliceEnd : σ.timesliceEnd = s.timesliceEnd

section
variable {status : Status} {queue : List RunEntry} {pids : Finset PID}

theorem processReady_some {pid : PID} (h : hasXqueues status pid = true) :
    ∃ ready, processReady status pid = some ready := by
  obtain ⟨p, hp, -⟩ := (Option.any_eq_true _ _).1 h
  exact ⟨_, by rw [processReady, hp]; rfl⟩

theorem refresh_spec (status : Status) (old : List RunEntry) (pids : Finset PID) :
    ∃ queue pids' anyReady, refresh status old pids = some (queue, pids', anyReady) ∧
      queue.map (fun e => (e.pid, e.running)) =
        (old.filter (hasXqueues status ·.pid)).map (fun e => (e.pid, e.running)) ∧
      (∀ e ∈ queue, processReady status e.pid = some e.ready) ∧
      anyReady = queue.any (·.ready) ∧
      ∀ pid, pid ∈ pids' ↔ pid ∈ pids ∧ ∀ e ∈ old, e.pid = pid → hasXqueues status pid = true := by
  induction old generalizing pids with
  | nil => exact ⟨[], pids, false, rfl, rfl, nofun, rfl, fun pid => by simp⟩
  | cons e old ih =>
    by_cases hx : hasXqueues status e.pid = true
    · obtain ⟨ready, hready⟩ := processReady_some hx
      obtain ⟨queue, pids', anyReady, hr, hmap, hall, hany, hpids⟩ := ih pids
      refine ⟨{ e with ready } :: queue, pids', ready || anyReady, ?_, ?_, ?_, ?_, fun pid => ?_⟩
      · simp [refresh, hx, hready, hr]
      · simp [hx, hmap]
      · intro e' he'
        rcases List.mem_cons.1 he' with rfl | he'
        · exact hready
        · exact hall e' he'
      · simp [hany]
      · rw [hpids]
        simp only [List.mem_cons, forall_eq_or_imp]
        constructor
        · rintro ⟨hin, hold⟩
          exact ⟨hin, fun he => he ▸ hx, hold⟩
        · rintro ⟨hin, -, hold⟩
          exact ⟨hin, hold⟩
    · obtain ⟨queue, pids', anyReady, hr, hmap, hall, hany, hpids⟩ := ih (pids.erase e.pid)
      refine ⟨queue, pids', anyReady, ?_, ?_, hall, hany, fun pid => ?_⟩
      · simp [refresh, hx, hr]
      · simp [hx, hmap]
      · rw [hpids, Finset.mem_erase]
        simp only [List.mem_cons, forall_eq_or_imp]
        constructor
        · rintro ⟨⟨hne, hin⟩, hold⟩
          exact ⟨hin, fun he => absurd he.symm hne, hold⟩
        · rintro ⟨hin, hself, hold⟩
          exact ⟨⟨fun he => hx (he ▸ hself he.symm), hin⟩, hold⟩

/-- A process that is not in the queue may be put at its end. -/
theorem InStep.snoc {queue : List RunEntry} {pids : Finset PID} (h : InStep queue pids)
    {e : RunEntry} (he : e.pid ∉ pids) : InStep (queue ++ [e]) (insert e.pid pids) := by
  refine ⟨?_, fun p => ?_⟩
  · rw [List.map_append, List.nodup_append]
    refine ⟨h.nodup, List.nodup_singleton _, ?_⟩
    intro a ha b hb hab
    simp only [List.map_cons, List.map_nil, List.mem_singleton] at hb
    subst hab hb
    exact he ((h.mem _).2 ha)
  · rw [Finset.mem_insert, h.mem]
    simp [or_comm]

theorem addNew_spec (status : Status) (processes : List PID) {queue : List RunEntry}
    {pids : Finset PID} {anyReady : Bool} (hstep : InStep queue pids)
    (hready : ∀ e ∈ queue, processReady status e.pid = some e.ready)
    (hany : anyReady = queue.any (·.ready)) :
    ∃ new pids' anyReady', addNew status processes (queue, pids, anyReady) =
        some (queue ++ new, pids', anyReady') ∧
      InStep (queue ++ new) pids' ∧
      (∀ e ∈ queue ++ new, processReady status e.pid = some e.ready) ∧
      anyReady' = (queue ++ new).any (·.ready) ∧
      (∀ e ∈ new, e.running = false ∧ hasXqueues status e.pid = true) ∧
      ∀ pid ∈ processes, hasXqueues status pid = true → pid ∈ (queue ++ new).map (·.pid) := by
  induction processes generalizing queue pids anyReady with
  | nil =>
    exact ⟨[], pids, anyReady, by simp [addNew], by simpa using hstep, by simpa using hready,
      by simpa using hany, nofun, nofun⟩
  | cons pid processes ih =>
    by_cases hx : hasXqueues status pid = true
    · by_cases hin : pid ∈ pids
      · obtain ⟨new, pids', anyReady', ha, hs, hr, hany', hnew, hall⟩ := ih hstep hready hany
        refine ⟨new, pids', anyReady', by simp [addNew, hx, hin, ha], hs, hr, hany', hnew, ?_⟩
        intro p hp hpx
        rcases List.mem_cons.1 hp with rfl | hp
        · rw [List.map_append]
          exact List.mem_append_left _ ((hstep.mem p).1 hin)
        · exact hall p hp hpx
      · obtain ⟨ready, hpr⟩ := processReady_some hx
        have hstep' : InStep (queue ++ [⟨pid, ready, false, 0⟩]) (insert pid pids) :=
          hstep.snoc hin
        have hready' : ∀ e ∈ queue ++ [⟨pid, ready, false, 0⟩],
            processReady status e.pid = some e.ready := by
          intro e he
          rcases List.mem_append.1 he with he | he
          · exact hready e he
          · rw [List.mem_singleton.1 he]
            exact hpr
        obtain ⟨new, pids', anyReady', ha, hs, hr, hany', hnew, hall⟩ :=
          ih hstep' hready' (show (anyReady || ready) = _ by simp [hany])
        refine ⟨⟨pid, ready, false, 0⟩ :: new, pids', anyReady', ?_, ?_, ?_, ?_, ?_, ?_⟩
        · simp [addNew, hx, hin, hpr, ha]
        · simpa using hs
        · simpa using hr
        · simpa using hany'
        · intro e he
          rcases List.mem_cons.1 he with rfl | he
          · exact ⟨rfl, hx⟩
          · exact hnew e he
        · intro p hp hpx
          rcases List.mem_cons.1 hp with rfl | hp
          · simp
          · simpa using hall p hp hpx
    · obtain ⟨new, pids', anyReady', ha, hs, hr, hany', hnew, hall⟩ := ih hstep hready hany
      refine ⟨new, pids', anyReady', by simp [addNew, hx, ha], hs, hr, hany', hnew, ?_⟩
      intro p hp hpx
      rcases List.mem_cons.1 hp with rfl | hp
      · exact absurd hpx hx
      · exact hall p hp hpx

theorem hasXqueues_mem {pid : PID} (h : hasXqueues status pid = true) :
    pid ∈ status.processStatus := by
  obtain ⟨p, hp, -⟩ := (Option.any_eq_true _ _).1 h
  exact AList.lookup_isSome.1 (by rw [hp]; rfl)

theorem enqueue_spec {processes : List PID} {s : State}
    (hall : ∀ pid ∈ status.processStatus, pid ∈ processes) (hs : InStep s.runQueue s.pidInQueue) :
    ∃ σ anyReady, enqueue status processes s = some (σ, anyReady) ∧
      Enqueued status s σ anyReady := by
  obtain ⟨kept, pids, anyReady, hr, hmap, hready, hany, hpids⟩ :=
    refresh_spec status s.runQueue s.pidInQueue
  have hkept : kept.map (·.pid) = (s.runQueue.map (·.pid)).filter (hasXqueues status) := by
    have h := congrArg (List.map Prod.fst) hmap
    simpa [List.map_map, List.filter_map, Function.comp_def] using h
  have hstep : InStep kept pids := by
    refine ⟨by rw [hkept]; exact hs.nodup.filter _, fun pid => ?_⟩
    rw [hpids, hs.mem, hkept, List.mem_filter]
    constructor
    · rintro ⟨hin, hold⟩
      obtain ⟨e, he, hpid⟩ := List.mem_map.1 hin
      exact ⟨hin, hold e he hpid⟩
    · rintro ⟨hin, hx⟩
      exact ⟨hin, fun _ _ _ => hx⟩
  obtain ⟨new, pids', anyReady', ha, hs', hready', hany', hnew, hcover⟩ :=
    addNew_spec status processes hstep hready hany
  have hsome : enqueue status processes s = some
      ({ s with
          utils := s.utils.filter fun pid _ => pid ∈ status.processStatus
          runQueue := kept ++ new
          pidInQueue := pids'
          rounds := s.rounds + 1 }, anyReady') := by
    simp only [enqueue, hr, Option.bind_some, ha, Option.map_some]
  refine ⟨_, anyReady', hsome, hs', hready', hany', ?_,
    ⟨kept, new, rfl, fun e he => (hnew e he).1, hmap⟩, rfl⟩
  intro pid
  constructor
  · intro hin
    rw [List.map_append, List.mem_append, hkept, List.mem_filter] at hin
    rcases hin with ⟨-, hx⟩ | hin
    · exact hx
    · obtain ⟨e, he, rfl⟩ := List.mem_map.1 hin
      exact (hnew e he).2
  · intro hx
    exact hcover pid (hall pid (hasXqueues_mem hx)) hx

theorem FrontOnly.filter {queue : List RunEntry} (h : FrontOnly queue) (p : RunEntry → Bool) :
    FrontOnly (queue.filter p) := by
  cases queue with
  | nil => exact h
  | cons e queue =>
    intro e' he'
    rw [List.filter_cons] at he'
    refine h e' (List.mem_of_mem_filter (p := p) ?_)
    split at he'
    · exact he'
    · exact List.mem_of_mem_tail he'

theorem frontOnly_iff (queue : List RunEntry) :
    FrontOnly queue ↔ ∀ b ∈ ((queue.map fun e => (e.pid, e.running)).tail), b.2 = false := by
  simp only [FrontOnly, ← List.map_tail, List.mem_map, forall_exists_index, and_imp,
    forall_apply_eq_imp_iff₂]

theorem Enqueued.frontOnly {s σ : State} {anyReady : Bool} (h : Enqueued status s σ anyReady)
    (hs : FrontOnly s.runQueue) : FrontOnly σ.runQueue := by
  obtain ⟨kept, new, hqueue, hnew, hkept⟩ := h.parts
  have hfront : FrontOnly kept := by
    rw [frontOnly_iff, hkept, ← frontOnly_iff]
    exact hs.filter _
  intro e he
  rw [hqueue] at he
  cases kept with
  | nil => exact hnew e (List.mem_of_mem_tail he)
  | cons e₀ kept =>
    rcases List.mem_append.1 he with he | he
    · exact hfront e he
    · exact hnew e he

end

/-! ## The rotation -/

section
variable {now : TimePoint} {s : State}

/-- A queue that begins with a running entry loses none of them when that is moved. -/
theorem expire_perm (now : TimePoint) (s : State) :
    ((expire now s).runQueue.map fun e => (e.pid, e.ready)).Perm
      (s.runQueue.map fun e => (e.pid, e.ready)) := by
  unfold expire
  split
  · exact .refl _
  · rename_i front rest hq
    split
    · rw [hq]
      simp
    · exact .refl _

theorem any_ready_congr {queue queue' : List RunEntry}
    (h : (queue.map fun e => (e.pid, e.ready)).Perm (queue'.map fun e => (e.pid, e.ready))) :
    queue.any (·.ready) = queue'.any (·.ready) := by
  have hany : ∀ q : List RunEntry, q.any (·.ready) = (q.map fun e => (e.pid, e.ready)).any (·.2) := by
    intro q
    rw [List.any_map]
    rfl
  rw [hany, hany, h.any_eq]

/-- **The rotation ends**: each entry before the first ready one is moved to the
end, once, and nothing is lost. -/
theorem rotation (now : TimePoint) (h : s.runQueue.any (·.ready) = true) :
    ∃ pre front post moved, (expire now s).runQueue = pre ++ front :: post ∧
      (∀ e ∈ pre, e.ready = false) ∧ front.ready = true ∧
      moved.map (fun e => (e.pid, e.ready)) = pre.map (fun e => (e.pid, e.ready)) ∧
      ∀ fuel, pre.length ≤ fuel →
        rotateTo (·.ready) (pass (expire now s)) fuel (expire now s).runQueue =
          some (front :: post ++ moved) := by
  rw [← any_ready_congr (expire_perm now s)] at h
  obtain ⟨pre, front, post, hq, hpre, hfront⟩ := split_first h
  obtain ⟨moved, hmoved, hloop⟩ :=
    rotateTo_eq (p := (·.ready)) (pass (expire now s)) hpre hfront post
  refine ⟨pre, front, post, moved, hq, hpre, hfront, ?_, fun fuel hfuel => by rw [hq, hloop fuel hfuel]⟩
  clear hq hloop
  induction hmoved with
  | nil => rfl
  | @cons b b' pre moved hb hrest ih =>
    obtain ⟨l, rfl⟩ := hb
    rw [List.map_cons, List.map_cons, ih fun e he => hpre e (.tail _ he)]
    simp [pass, hpre b (.head _)]

/-- What a round does after its queue is prepared. -/
inductive Outcome (clock : Clock) (status : Status) (s : State) : List Callback → State → Prop
  | idle (hidle : ∀ e ∈ s.runQueue, e.ready = false) : Outcome clock status s [] s
  | lasts {front : RunEntry} {rest : List RunEntry} (hq : s.runQueue = front :: rest)
      (hrunning : front.running = true) (hlasts : s.timesliceEnd > clock.now)
      (hready : front.ready = true) : Outcome clock status s [] s
  | switch {front : RunEntry} {rest : List RunEntry} {σ : State}
      (hover : ∀ front' rest', s.runQueue = front' :: rest' →
        ¬ (front'.running ∧ s.timesliceEnd > clock.now ∧ front'.ready))
      (hperm : ((front :: rest).map fun e => (e.pid, e.ready)).Perm
        (s.runQueue.map fun e => (e.pid, e.ready)))
      (hfront : front.ready = true) (hσ : σ.runQueue = front :: rest)
      (hpids : σ.pidInQueue = s.pidInQueue) :
    Outcome clock status s (run clock status σ front).1 (run clock status σ front).2

theorem outcome (clock : Clock) (status : Status) {anyReady : Bool}
    (hany : anyReady = s.runQueue.any (·.ready)) :
    ∃ calls s', dispatch clock status s anyReady = some (calls, s') ∧
      Outcome clock status s calls s' := by
  unfold dispatch
  cases hq : s.runQueue with
  | nil => exact ⟨[], s, rfl, .idle (by rw [hq]; nofun)⟩
  | cons front rest =>
    dsimp only
    by_cases hready : s.runQueue.any (·.ready) = true
    · rw [hany, hready]
      by_cases hlasts : front.running ∧ s.timesliceEnd > clock.now ∧ front.ready
      · exact ⟨[], s, by simp [hlasts], .lasts hq hlasts.1 hlasts.2.1 hlasts.2.2⟩
      · obtain ⟨pre, front', post, moved, hsplit, -, hfront, hmoved, hloop⟩ :=
          rotation clock.now hready
        have hperm : ((front' :: (post ++ moved)).map fun e => (e.pid, e.ready)).Perm
            (s.runQueue.map fun e => (e.pid, e.ready)) := by
          refine List.Perm.trans ?_ (expire_perm clock.now s)
          rw [hsplit, List.map_append, ← hmoved, ← List.cons_append, List.map_append]
          exact List.perm_append_comm
        have hover : ∀ front' rest', s.runQueue = front' :: rest' →
            ¬ (front'.running ∧ s.timesliceEnd > clock.now ∧ front'.ready) := by
          intro front' rest' hq'
          rw [hq] at hq'
          cases hq'
          exact hlasts
        have hlen : pre.length ≤ (expire clock.now s).runQueue.length := by
          rw [hsplit, List.length_append]
          omega
        have hpids : (expire clock.now s).pidInQueue = s.pidInQueue := by
          unfold expire
          split
          · rfl
          · split <;> rfl
        have hswitch : Outcome clock status s _ _ :=
          .switch (σ := { expire clock.now s with runQueue := front' :: (post ++ moved) }) hover hperm
            hfront rfl hpids
        refine ⟨_, _, ?_, hswitch⟩
        simp only [Bool.not_true, Bool.false_eq_true, if_false, if_neg hlasts, hloop _ hlen,
          Option.bind_some, List.cons_append, List.head?_cons, Option.map_some]
    · have hnone : s.runQueue.any (·.ready) = false := by simpa using hready
      refine ⟨[], s, by simp [hany, hnone], .idle fun e he => ?_⟩
      rw [List.any_eq_false] at hnone
      simpa using hnone e he

end

/-! ## Every round of every run -/

section
variable {status : Status} {clock : Clock} {s s' : State} {calls : List Callback}

/-- In a queue of processes that are in the status, a switch marks the one it is to. -/
theorem switchEntry_eq {pid : PID} {e : RunEntry} (h : ∃ r, processReady status e.pid = some r) :
    (switchEntry status pid e).2 = { e with running := decide (e.pid = pid) } := by
  obtain ⟨r, hr⟩ := h
  obtain ⟨p, hp, -⟩ := Option.map_eq_some_iff.1 hr
  unfold switchEntry
  rw [hp]
  by_cases he : e.pid = pid <;> simp [he]

/-- The entries that a rotation leaves are as ready as they were. -/
theorem ready_of_perm {queue queue' : List RunEntry}
    (hperm : (queue.map fun e => (e.pid, e.ready)).Perm (queue'.map fun e => (e.pid, e.ready)))
    (hready : ∀ e ∈ queue', processReady status e.pid = some e.ready) :
    ∀ e ∈ queue, processReady status e.pid = some e.ready := by
  intro e he
  obtain ⟨e', he', heq⟩ := List.mem_map.1 (hperm.mem_iff.1 (List.mem_map_of_mem he))
  simp only [Prod.mk.injEq] at heq
  rw [← heq.1, ← heq.2]
  exact hready e' he'

/-- After a switch exactly the entry of its process is marked. -/
theorem run_runQueue (status : Status) (clock : Clock) (σ : State) (front : RunEntry)
    (hready : ∀ e ∈ σ.runQueue, processReady status e.pid = some e.ready) :
    (run clock status σ front).2.runQueue =
      σ.runQueue.map fun e => { e with running := decide (e.pid = front.pid) } :=
  List.map_congr_left fun e he => switchEntry_eq ⟨e.ready, hready e he⟩

theorem Outcome.runQueue (hs : InStep s.runQueue s.pidInQueue) (hf : FrontOnly s.runQueue)
    (hready : ∀ e ∈ s.runQueue, processReady status e.pid = some e.ready)
    (h : Outcome clock status s calls s') :
    InStep s'.runQueue s'.pidInQueue ∧ FrontOnly s'.runQueue ∧
      ∀ pid, pid ∈ s'.runQueue.map (·.pid) ↔ pid ∈ s.runQueue.map (·.pid) := by
  cases h with
  | idle | lasts => exact ⟨hs, hf, fun pid => Iff.rfl⟩
  | @switch front rest σ hover hperm hfront hσ hpids =>
    have hperm' : ((front :: rest).map (·.pid)).Perm (s.runQueue.map (·.pid)) := by
      have h := hperm.map Prod.fst
      simpa [List.map_map, Function.comp_def] using h
    have hswitch := run_runQueue status clock σ front
      (by rw [hσ]; exact ready_of_perm hperm hready)
    rw [hσ] at hswitch
    have hsame : (run clock status σ front).2.runQueue.map (·.pid) = (front :: rest).map (·.pid) := by
      rw [hswitch, List.map_map]
      rfl
    have hnd : ((front :: rest).map (·.pid)).Nodup := hperm'.nodup_iff.2 hs.nodup
    refine ⟨⟨by rw [hsame]; exact hnd, fun pid => ?_⟩, ?_, fun pid => ?_⟩
    · rw [hsame, hperm'.mem_iff, ← hs.mem]
      change pid ∈ σ.pidInQueue ↔ _
      rw [hpids]
    · intro e he
      rw [hswitch, List.map_cons, List.tail_cons] at he
      obtain ⟨e₀, he₀, rfl⟩ := List.mem_map.1 he
      rw [List.map_cons, List.nodup_cons] at hnd
      have hne : e₀.pid ≠ front.pid := fun hpid => hnd.1 (hpid ▸ List.mem_map_of_mem he₀)
      simpa using hne
    · rw [hsame, hperm'.mem_iff]

theorem recvHint_runQueue (s : State) (hint : Hint) :
    (recvHint s hint).runQueue = s.runQueue ∧ (recvHint s hint).pidInQueue = s.pidInQueue := by
  cases hint with
  | utilization pid handle util =>
    simp only [recvHint]
    split
    · exact ⟨rfl, rfl⟩
    · split <;> exact ⟨rfl, rfl⟩
  | timeslice ts =>
    simp only [recvHint]
    split <;> exact ⟨rfl, rfl⟩
  | _ => exact ⟨rfl, rfl⟩

/-- The run queue of a policy between two rounds. -/
structure RunQueue (s : State) : Prop where
  inStep : InStep s.runQueue s.pidInQueue
  front : FrontOnly s.runQueue

/-- A round prepares its queue and dispatches. -/
theorem sched_spec (clock : Clock) {processes : List PID}
    (hall : ∀ pid ∈ status.processStatus, pid ∈ processes) (hs : RunQueue s) :
    ∃ σ anyReady calls s', enqueue status processes s = some (σ, anyReady) ∧
      Enqueued status s σ anyReady ∧ sched clock status processes s = some (calls, s') ∧
      Outcome clock status σ calls s' := by
  obtain ⟨σ, anyReady, he, hq⟩ := enqueue_spec hall hs.inStep
  obtain ⟨calls, s', hd, ho⟩ := outcome clock status hq.any
  exact ⟨σ, anyReady, calls, s', he, hq, by rw [sched, he]; exact hd, ho⟩

theorem RunQueue.sched {processes : List PID}
    (hall : ∀ pid ∈ status.processStatus, pid ∈ processes) (hs : RunQueue s)
    (h : sched clock status processes s = some (calls, s')) :
    RunQueue s' ∧ ∀ pid, pid ∈ s'.runQueue.map (·.pid) ↔ hasXqueues status pid = true := by
  obtain ⟨σ, anyReady, calls', s₁, -, hq, hsched, ho⟩ := sched_spec clock hall hs
  rw [h] at hsched
  cases hsched
  obtain ⟨hstep, hfront, hpids⟩ := ho.runQueue hq.inStep (hq.frontOnly hs.front) hq.ready
  exact ⟨⟨hstep, hfront⟩, fun pid => (hpids pid).trans (hq.mem pid)⟩

end

theorem ProcessOrder.mem (o : ProcessOrder) (n : Nat) (st : Status) :
    ∀ pid ∈ st.processStatus, pid ∈ o.order n st :=
  fun _ h => (o.perm n st).mem_iff.2 h

theorem runQueue_run {o : ProcessOrder} {s : PolicyRun (policy o)}
    (hr : (PolicyRun.life (policy o)).Reachable s) : RunQueue s.policy := by
  refine PolicyRun.policy_life ?_ (fun clock hint σ hσ => ?_) ?_ hr
  · exact ⟨⟨List.nodup_nil, fun pid => by simp⟩, nofun⟩
  · obtain ⟨hq, hp⟩ := recvHint_runQueue σ hint
    refine ⟨?_, ?_⟩
    · change InStep (recvHint σ hint).runQueue (recvHint σ hint).pidInQueue
      rw [hq, hp]
      exact hσ.inStep
    · change FrontOnly (recvHint σ hint).runQueue
      rw [hq]
      exact hσ.front
  · intro clock order s calls s' R hs
    exact (hs.sched (o.mem _ _) R.sched).1

/-- A process has XQueues if one of the XQueues is its. -/
theorem hasXqueues_iff {st : Status} (hl : st.Linked) {pid : PID} : hasXqueues st pid = true ↔
    ∃ h q, st.xqueueStatus.lookup h = some q ∧ q.pid = pid := by
  unfold hasXqueues
  rw [Option.any_eq_true]
  constructor
  · rintro ⟨p, hp, hne⟩
    have hplaced : ∃ b h, h ∈ p.xqueues b := by
      simp only [Bool.not_and, Bool.or_eq_true, Bool.not_eq_true', List.isEmpty_eq_false_iff] at hne
      rcases hne with hne | hne
      · exact ⟨false, List.exists_mem_of_ne_nil _ hne⟩
      · exact ⟨true, List.exists_mem_of_ne_nil _ hne⟩
    obtain ⟨b, h, hmem⟩ := hplaced
    obtain ⟨q, hq, hpid, -⟩ := (hl.sets pid p hp b h).1 hmem
    exact ⟨h, q, hq, hpid⟩
  · rintro ⟨h, q, hq, rfl⟩
    obtain ⟨p, hp⟩ := Option.isSome_iff_exists.1 (AList.lookup_isSome.2 (hl.home h q hq))
    refine ⟨p, hp, ?_⟩
    have hmem : h ∈ p.xqueues q.suspended := (hl.sets q.pid p hp q.suspended h).2 ⟨q, hq, rfl, rfl⟩
    simp only [Bool.not_and, Bool.or_eq_true, Bool.not_eq_true', List.isEmpty_eq_false_iff]
    cases hsus : q.suspended with
    | false => rw [hsus] at hmem; exact Or.inl (List.ne_nil_of_mem hmem)
    | true => rw [hsus] at hmem; exact Or.inr (List.ne_nil_of_mem hmem)

/-- A round changes the owner of no XQueue. -/
theorem owns_after {P : Policy} {s s' : PolicyRun P} {clock : Clock} {order : List XQueueHandle}
    {calls : List Callback} (R : PolicyRun.Round clock order s calls s') {pid : PID} :
    (∃ h q, s'.status.xqueueStatus.lookup h = some q ∧ q.pid = pid) ↔
      ∃ h q, s.status.xqueueStatus.lookup h = some q ∧ q.pid = pid := by
  constructor
  · rintro ⟨h, q', hq', hpid⟩
    obtain ⟨q, hq, rfl, rfl⟩ := R.entry hq'
    exact ⟨q.handle, q, R.mem.1 hq, hpid⟩
  · rintro ⟨h, q, hq, hpid⟩
    have hh := R.keyed h q hq
    subst hh
    exact ⟨q.handle, _, R.lookup (R.mem.2 hq), hpid⟩

/-- **The run queue of every run.** It has each process once, those of
`pid_in_queue_`; only the front can be running; no round fails, and after one
the queue has the processes that own an XQueue. The rotation of a round moves
each entry before the first ready one once, loses none and ends. -/
theorem run_queue {o : ProcessOrder} {s : Hosted (policy o)}
    (hr : (Hosted.life (policy o)).Reachable s) :
    (s.policy.runQueue.map (·.pid)).Nodup ∧
    (∀ pid, pid ∈ s.policy.pidInQueue ↔ pid ∈ s.policy.runQueue.map (·.pid)) ∧
    FrontOnly s.policy.runQueue ∧
    (∀ clock order, ∃ r, (policy o).sched clock s.scheduler.status order s.policy = some r) ∧
    (∀ clock order s', s.step (.reschedule clock order) = some s' → ∀ pid,
      pid ∈ s'.policy.runQueue.map (·.pid) ↔ pid ∈ s'.scheduler.status.processStatus ∧
        ∃ h q, s'.scheduler.status.xqueueStatus.lookup h = some q ∧ q.pid = pid) ∧
    ∀ now σ, enqueue s.scheduler.status (o.order s.policy.rounds s.scheduler.status) s.policy =
        some (σ, true) →
      ∃ pre front post moved, (expire now σ).runQueue = pre ++ front :: post ∧
        (∀ e ∈ pre, e.ready = false) ∧ front.ready = true ∧
        moved.map (fun e => (e.pid, e.ready)) = pre.map (fun e => (e.pid, e.ready)) ∧
        ∀ fuel, pre.length ≤ fuel →
          rotateTo (·.ready) (pass (expire now σ)) fuel (expire now σ).runQueue =
            some (front :: post ++ moved) := by
  have hs : RunQueue s.policy := runQueue_run (Hosted.life_run hr)
  refine ⟨hs.inStep.nodup, hs.inStep.mem, hs.front, fun clock order => ?_, ?_, ?_⟩
  · obtain ⟨-, -, calls, s', -, -, hsched, -⟩ := sched_spec clock
      (o.mem s.policy.rounds s.scheduler.status) hs
    exact ⟨_, hsched⟩
  · intro clock order s' hround pid
    obtain ⟨calls, R⟩ := Hosted.round_life hr hround
    have hlinked := (PolicyRun.keyed_life (Hosted.life_run hr)).1
    have hlinked' := (PolicyRun.keyed_life (Hosted.life_run (hr.step hround))).1
    obtain ⟨-, hmem⟩ := hs.sched (o.mem _ _) R.sched
    refine (hmem pid).trans ((hasXqueues_iff hlinked).trans ((owns_after R).symm.trans ?_))
    refine ⟨fun hown => ⟨?_, hown⟩, And.right⟩
    obtain ⟨h, q, hq, rfl⟩ := hown
    exact hlinked'.home h q hq
  · intro now σ he
    obtain ⟨σ', anyReady, calls, s', he', hq, -, -⟩ := sched_spec ⟨now, fun _ => now⟩
      (o.mem s.policy.rounds s.scheduler.status) hs
    rw [he] at he'
    cases he'
    exact rotation now hq.any.symm

/-- The library goes over `process_status` as the model has it. -/
def keysOrder : ProcessOrder := ⟨fun _ st => st.processStatus.keys, fun _ _ => .refl _⟩

/-- XQueues 7 and 8 of processes 1 and 2; only the second one becomes ready. -/
def rotatingActs : List HostedAct :=
  [.own .run, .own (.recvEvent (.xQueueCreate 2 8 1 2 0 0)),
    .own (.recvEvent (.xQueueCreate 1 7 1 2 0 0)), .own (.recvEvent (.xQueueReady 2 8 0)),
    .own (.wake 0), .own (.update 0), .own (.update 0), .own (.update 0)]

def rotatingClock : Clock := ⟨0, fun _ => 0⟩

/-- Process 1 is moved behind process 2. -/
theorem run_queue_rotating : ∃ s s' : Hosted (policy keysOrder),
    (Hosted.life (policy keysOrder)).Reachable s ∧
    s.step (.reschedule rotatingClock [7, 8]) = some s' ∧
    s'.policy.runQueue.map (·.pid) = [2, 1] ∧ (s'.policy.runQueue.map (·.pid)).Nodup ∧
    FrontOnly s'.policy.runQueue := by
  have htrace : (LTS.exec Hosted.step
      (⟨.init .kPolicyProcessUtilizationPartition, (policy keysOrder).init⟩ :
        Hosted (policy keysOrder)) rotatingActs).bind
      (fun s => (s.step (.reschedule rotatingClock [7, 8])).map fun s' =>
        s'.policy.runQueue.map fun e => (e.pid, e.running)) = some [(2, true), (1, false)] := by
    decide +kernel
  obtain ⟨s, hs, htrace⟩ := Option.bind_eq_some_iff.1 htrace
  obtain ⟨s', hs', he⟩ := Option.map_eq_some_iff.1 htrace
  have hr : (Hosted.life (policy keysOrder)).Reachable s := LTS.reachable_of_exec (.construct _) hs
  obtain ⟨hnd, -, hfront, -⟩ := run_queue (hr.step hs')
  refine ⟨s, s', hr, hs', ?_, hnd, hfront⟩
  have h := congrArg (List.map Prod.fst) he
  simpa [List.map_map, Function.comp_def] using h

end ProcessUtilizationPartitionPolicy
end Xsched.Sched
