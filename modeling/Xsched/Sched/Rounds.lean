import Mathlib.Data.List.Nodup
import Xsched.Sched.Policy
import Xsched.Sched.Representation

/-!
# Rounds of a policy

A policy begins with its scheduler, or when `SetPolicy` starts the worker for
it; in the second case there are XQueues already, all of them resumed
(`Hosted.Begins`). From there on it sees events, hints and rounds in any
order. `Hosted.life` are the runs of a policy under the scheduler and
`PolicyRun.life` what the policy sees of them (`life_run`).

A round is a `Sched` and the calls it makes. Of several calls for one XQueue
the last one counts (`verdict`), and nothing but `suspended` changes
(`lookup_callbacks`). A policy that decides over each XQueue in a turn of its
own makes the calls of that turn (`verdict_flatMap`).

Policies that run one XQueue per device have a flag for the XQueue they
resumed and call `Resume` only where it is not set. That goes well if the flag
is set for no suspended XQueue (`RunningFlag`), which is a fact about whole
lives: the flag stays where it is while the XQueue goes idle, is destroyed or
comes back under the same handle (`RunningFlag.clear`).
-/
namespace Xsched.Sched

namespace Hosted
variable {P : Policy}

theorem round {s s' : Hosted P} {clock : Clock} {order : List XQueueHandle}
    (h : s.step (.reschedule clock order) = some s') :
    order.Perm s.scheduler.status.xqueueStatus.keys ∧
      ∃ calls, P.sched clock s.scheduler.status order s.policy = some (calls, s'.policy) ∧
        s.scheduler.step (.sched calls) = some s'.scheduler := by
  simp only [step] at h
  split at h
  · rename_i hperm
    obtain ⟨⟨calls, policy⟩, hcalls, h⟩ := Option.bind_eq_some_iff.1 h
    obtain ⟨scheduler, hu, rfl⟩ := Option.map_eq_some_iff.1 h
    exact ⟨hperm, calls, hcalls, hu⟩
  · cases h

/-- A step of the scheduler's own leaves the policy alone. `SetPolicy` to the
type it has does nothing. -/
theorem own_cases {s s' : Hosted P} {act : SchedAct} (h : s.step (.own act) = some s') :
    s'.policy = s.policy ∧ (s.scheduler.step act = some s'.scheduler ∧
      (∀ calls, act ≠ .sched calls) ∨
      act = .setPolicy s.scheduler.policyType ∧ s'.scheduler = s.scheduler) := by
  cases act with
  | sched calls => cases h
  | setPolicy type =>
    simp only [step] at h
    split at h
    · rename_i ht
      cases h
      exact ⟨rfl, Or.inr ⟨by rw [ht], rfl⟩⟩
    · cases h
  | update now =>
    simp only [step] at h
    split at h
    · cases h
    · obtain ⟨scheduler, hu, rfl⟩ := Option.map_eq_some_iff.1 h
      exact ⟨rfl, Or.inl ⟨hu, fun calls => by simp⟩⟩
  | recvEvent e =>
    cases h
    exact ⟨rfl, Or.inl ⟨rfl, fun calls => by simp⟩⟩
  | run | stop | join | wake now =>
    obtain ⟨scheduler, hu, rfl⟩ := Option.map_eq_some_iff.1 h
    exact ⟨rfl, Or.inl ⟨hu, fun calls => by simp⟩⟩

/-- A step of a hosted policy is a step of its scheduler or leaves it alone. -/
theorem step_scheduler {s s' : Hosted P} {act : HostedAct} (h : s.step act = some s') :
    s'.scheduler = s.scheduler ∨ ∃ a, s.scheduler.step a = some s'.scheduler := by
  cases act with
  | recvHint now clock hint =>
    simp only [step] at h
    split at h
    · obtain ⟨scheduler, hu, rfl⟩ := Option.map_eq_some_iff.1 h
      exact Or.inr ⟨_, hu⟩
    · cases h
  | reschedule clock order =>
    obtain ⟨-, calls, -, hu⟩ := round h
    exact Or.inr ⟨_, hu⟩
  | own act =>
    rcases (own_cases h).2 with ⟨hu, -⟩ | ⟨-, he⟩
    · exact Or.inr ⟨act, hu⟩
    · exact Or.inl he

/-- What a step does to the policy: only a round and a hint change it. -/
inductive PolicyCases (s : Hosted P) : HostedAct → Hosted P → Prop
  | round {clock : Clock} {order : List XQueueHandle} {s' : Hosted P}
      (h : s.step (.reschedule clock order) = some s') : PolicyCases s (.reschedule clock order) s'
  | recvHint {now : TimePoint} {clock : Clock} {hint : Hint} {scheduler : LocalScheduler}
      (hst : scheduler.status = s.scheduler.status) :
    PolicyCases s (.recvHint now clock hint) ⟨scheduler, P.recvHint clock hint s.policy⟩
  | other {act : HostedAct} {scheduler : LocalScheduler}
      (hact : ∀ clock order, act ≠ .reschedule clock order) :
    PolicyCases s act ⟨scheduler, s.policy⟩

theorem policy_cases {s s' : Hosted P} {act : HostedAct} (h : s.step act = some s') :
    PolicyCases s act s' := by
  cases act with
  | reschedule clock order => exact .round h
  | recvHint now clock hint =>
    simp only [step] at h
    split at h
    · rename_i hhint
      obtain ⟨scheduler, hu, rfl⟩ := Option.map_eq_some_iff.1 h
      exact .recvHint (status_hint hhint hu)
    · cases h
  | own act =>
    have hact : ∀ clock order, HostedAct.own act ≠ .reschedule clock order := by
      intro clock order he; cases he
    have hpolicy := (own_cases h).1
    obtain ⟨scheduler, policy⟩ := s'
    cases hpolicy
    exact .other hact

/-- Hosting a policy from a reachable state on, the scheduler stays reachable. -/
theorem exec_scheduler {s s' : Hosted P} (hr : LocalScheduler.lts.Reachable s.scheduler)
    {acts : List HostedAct} (h : LTS.exec step s acts = some s') :
    LocalScheduler.lts.Reachable s'.scheduler := by
  induction acts generalizing s with
  | nil => cases h; exact hr
  | cons act acts ih =>
    simp only [LTS.exec, Option.bind_eq_some_iff] at h
    obtain ⟨s₁, hstep, h⟩ := h
    refine ih ?_ h
    rcases step_scheduler hstep with he | ⟨a, ha⟩
    · rw [he]; exact hr
    · exact hr.step ha

/-- A round of the scheduler is a round of what the policy sees. -/
theorem round_run {s s' : Hosted P} {clock : Clock} {order : List XQueueHandle}
    (h : s.step (.reschedule clock order) = some s') :
    s.run.step (.reschedule clock order) = some s'.run := by
  obtain ⟨hperm, calls, hcalls, hu⟩ := round h
  simp only [PolicyRun.step, PolicyRun.answer, run, if_pos hperm, hcalls, Option.map_some,
    status_sched hu]

end Hosted

/-! ## Entries in a loop -/

/-- Every entry is under its own handle. -/
def Status.Keyed (st : Status) : Prop :=
  ∀ h q, st.xqueueStatus.lookup h = some q → q.handle = h

namespace Status
variable {st : Status} {order : List XQueueHandle}

/-- The loop meets the handles in the order it is given. -/
theorem Keyed.map_handle (hk : st.Keyed) (horder : ∀ h ∈ order, h ∈ st.xqueueStatus) :
    (st.inOrder order).map (·.handle) = order := by
  induction order with
  | nil => rfl
  | cons h order ih =>
    obtain ⟨q, hq⟩ := Option.isSome_iff_exists.1 (AList.lookup_isSome.2 (horder h (.head _)))
    have hrest := ih fun h' hm => horder h' (.tail _ hm)
    simp only [inOrder, List.filterMap_cons, hq, List.map_cons, hk h q hq] at hrest ⊢
    rw [hrest]

theorem mem_inOrder {h : XQueueHandle} {q : XQueueStatus} (hh : h ∈ order)
    (hq : st.xqueueStatus.lookup h = some q) : q ∈ st.inOrder order :=
  List.mem_filterMap.2 ⟨h, hh, hq⟩

theorem Keyed.nodup_inOrder (hk : st.Keyed) (hperm : order.Perm st.xqueueStatus.keys) :
    ((st.inOrder order).map (·.handle)).Nodup := by
  rw [hk.map_handle fun h hh => hperm.mem_iff.1 hh]
  exact hperm.nodup_iff.2 st.xqueueStatus.keys_nodup

/-- The loop meets exactly the entries of the map. -/
theorem Keyed.mem_inOrder_iff (hk : st.Keyed) (hperm : order.Perm st.xqueueStatus.keys)
    {q : XQueueStatus} :
    q ∈ st.inOrder order ↔ st.xqueueStatus.lookup q.handle = some q := by
  constructor
  · intro hq
    obtain ⟨h, -, hlook⟩ := List.mem_filterMap.1 hq
    rw [hk h q hlook]
    exact hlook
  · intro hq
    exact mem_inOrder (hperm.mem_iff.2 (AList.lookup_isSome.1 (by rw [hq]; rfl))) hq

theorem keyed_empty : empty.Keyed := by
  intro h q hq; cases hq

theorem Keyed.updateStatus (hk : st.Keyed) {st' : Status} {now : TimePoint} {e : Event}
    (hu : st.updateStatus now e = some st') : st'.Keyed := by
  intro h q' hq'
  rcases inherits_updateStatus hu hq' with ⟨q, hq, -, hh, -⟩ | ⟨-, -, -, hh, -⟩
  · rw [hh, hk h q hq]
  · exact hh

end Status

/-- The ready XQueues of a device. -/
def readyOf (xs : List XQueueStatus) (d : XDevice) : List XQueueStatus :=
  xs.filter fun q => q.device = d ∧ q.ready

theorem mem_readyOf {xs : List XQueueStatus} {d : XDevice} {q : XQueueStatus} :
    q ∈ readyOf xs d ↔ q ∈ xs ∧ q.ready = true ∧ q.device = d := by
  simp [readyOf, and_comm]

theorem readyOf_snoc_self {xs : List XQueueStatus} {d : XDevice} {q : XQueueStatus}
    (hready : q.ready = true) (hd : d = q.device) :
    readyOf (xs ++ [q]) d = readyOf xs d ++ [q] := by
  simp [readyOf, hready, hd]

theorem readyOf_snoc_other {xs : List XQueueStatus} {d : XDevice} {q : XQueueStatus}
    (h : q.ready = false ∨ d ≠ q.device) : readyOf (xs ++ [q]) d = readyOf xs d := by
  rcases h with h | h
  · simp [readyOf, h]
  · simp [readyOf, Ne.symm h]

/-! ## What the calls decide -/

/-- The last call for `h`: suspended (`true`) or resumed. -/
def verdict (h : XQueueHandle) : List Callback → Option Bool
  | [] => none
  | .suspend h' :: calls => (verdict h calls).or (if h' = h then some true else none)
  | .resume h' :: calls => (verdict h calls).or (if h' = h then some false else none)
  | .addTimer _ :: calls => verdict h calls

section
variable {h : XQueueHandle}

@[simp] theorem verdict_nil : verdict h [] = none := rfl

@[simp] theorem verdict_suspend (h' : XQueueHandle) :
    verdict h [.suspend h'] = if h' = h then some true else none := rfl

@[simp] theorem verdict_resume (h' : XQueueHandle) :
    verdict h [.resume h'] = if h' = h then some false else none := rfl

@[simp] theorem verdict_addTimer (t : TimePoint) (calls : List Callback) :
    verdict h (.addTimer t :: calls) = verdict h calls := rfl

theorem verdict_append (calls calls' : List Callback) :
    verdict h (calls ++ calls') = (verdict h calls').or (verdict h calls) := by
  induction calls with
  | nil => simp
  | cons c calls ih =>
    cases c with
    | addTimer t => exact ih
    | suspend h' | resume h' => simp only [List.cons_append, verdict, ih, Option.or_assoc]

/-- The timer at the end of a round decides nothing. -/
theorem verdict_timer (calls : List Callback) (b : Bool) (t : TimePoint) :
    verdict h (calls ++ if b then [.addTimer t] else []) = verdict h calls := by
  cases b with
  | false => simp
  | true => simp [verdict_append]

/-- Where each turn is about its own XQueue, an XQueue gets the verdict of its turn. -/
theorem verdict_flatMap {xs : List XQueueStatus} {c : XQueueStatus → List Callback}
    (hnd : (xs.map (·.handle)).Nodup) (hown : ∀ q ∈ xs, ∀ h, h ≠ q.handle → verdict h (c q) = none)
    {q : XQueueStatus} (hq : q ∈ xs) :
    verdict q.handle (xs.flatMap c) = verdict q.handle (c q) := by
  have hnone : ∀ ys ⊆ xs, q.handle ∉ ys.map (·.handle) → verdict q.handle (ys.flatMap c) = none := by
    intro ys hsub hout
    induction ys with
    | nil => rfl
    | cons r ys ih =>
      simp only [List.map_cons, List.mem_cons, not_or, List.cons_subset] at hout hsub
      rw [List.flatMap_cons, verdict_append, ih hsub.2 hout.2, hown r hsub.1 _ hout.1]
      rfl
  obtain ⟨ys, zs, rfl⟩ := List.append_of_mem hq
  simp only [List.map_append, List.map_cons, List.nodup_append, List.nodup_cons,
    List.mem_cons] at hnd
  have hys : q.handle ∉ ys.map (·.handle) := by
    intro hm
    exact hnd.2.2 _ hm _ (Or.inl rfl) rfl
  rw [List.flatMap_append, List.flatMap_cons, verdict_append, verdict_append,
    hnone zs (by simp) hnd.2.1.1, hnone ys (by simp) hys]
  cases verdict q.handle (c q) <;> rfl

/-- The calls of a round change `suspended` as the last call for an XQueue says. -/
theorem Status.lookup_callbacks (calls : List Callback) (st : Status) (h : XQueueHandle) :
    (calls.foldl Status.callback st).xqueueStatus.lookup h =
      (st.xqueueStatus.lookup h).map fun q =>
        { q with suspended := (verdict h calls).getD q.suspended } := by
  induction calls generalizing st with
  | nil => simp
  | cons c calls ih =>
    rw [List.foldl_cons, ih]
    have hoperate : ∀ b h', ((st.operate b h').xqueueStatus.lookup h).map (fun q =>
        { q with suspended := (verdict h calls).getD q.suspended }) =
        (st.xqueueStatus.lookup h).map fun q => { q with
          suspended := ((verdict h calls).or (if h' = h then some b else none)).getD
            q.suspended } := by
      intro b h'
      rw [lookup_operate]
      by_cases hh : h = h'
      · subst hh
        cases st.xqueueStatus.lookup h <;> cases verdict h calls <;> simp
      · cases verdict h calls <;> simp [hh, Ne.symm hh]
    cases c with
    | addTimer t => rfl
    | suspend h' => exact hoperate true h'
    | resume h' => exact hoperate false h'

theorem Status.Keyed.callbacks {st : Status} (hk : st.Keyed) (calls : List Callback) :
    (calls.foldl Status.callback st).Keyed := by
  intro h q hq
  rw [lookup_callbacks] at hq
  obtain ⟨q₀, hq₀, rfl⟩ := Option.map_eq_some_iff.1 hq
  exact hk h q₀ hq₀

end

/-! ## One XQueue per device -/

namespace Status

/-- `h` is a ready XQueue of the device. -/
def ReadyOn (st : Status) (d : XDevice) (h : XQueueHandle) : Prop :=
  ∃ q, st.xqueueStatus.lookup h = some q ∧ q.ready = true ∧ q.device = d

/-- `h` is a ready XQueue of the device and not suspended. -/
def Runs (st : Status) (d : XDevice) (h : XQueueHandle) : Prop :=
  ∃ q, st.xqueueStatus.lookup h = some q ∧ q.ready = true ∧ q.device = d ∧ q.suspended = false

/-- On every device with a ready XQueue exactly one runs, and it is a best one. -/
def OneEach (st : Status) (Best : XDevice → XQueueHandle → Prop) : Prop :=
  ∀ d, (∃ h, st.ReadyOn d h) →
    ∃ h, st.ReadyOn d h ∧ Best d h ∧ ∀ h', st.Runs d h' ↔ h' = h

variable {st : Status} {d : XDevice} {h : XQueueHandle}

theorem Runs.readyOn (hr : st.Runs d h) : st.ReadyOn d h := by
  obtain ⟨q, hq, hready, hd, -⟩ := hr
  exact ⟨q, hq, hready, hd⟩

theorem readyOn_callbacks {calls : List Callback} :
    (calls.foldl callback st).ReadyOn d h ↔ st.ReadyOn d h := by
  unfold ReadyOn
  rw [lookup_callbacks]
  constructor
  · rintro ⟨q, hq, hready, hd⟩
    obtain ⟨q₀, hq₀, rfl⟩ := Option.map_eq_some_iff.1 hq
    exact ⟨q₀, hq₀, hready, hd⟩
  · rintro ⟨q, hq, hready, hd⟩
    exact ⟨{ q with suspended := (verdict h calls).getD q.suspended }, by rw [hq]; rfl, hready, hd⟩

/-- `q` is the entry of a ready XQueue of the device. -/
def ReadyEntry (st : Status) (d : XDevice) (q : XQueueStatus) : Prop :=
  st.xqueueStatus.lookup q.handle = some q ∧ q.ready = true ∧ q.device = d

/-- After a round an entry is as a loop of the round has met it, but for `suspended`. -/
theorem Keyed.callbacks_entry (hk : st.Keyed) {order : List XQueueHandle}
    (hperm : order.Perm st.xqueueStatus.keys) {calls : List Callback} {q' : XQueueStatus} :
    (calls.foldl callback st).ReadyEntry d q' ↔
      ∃ q ∈ st.inOrder order, q.ready = true ∧ q.device = d ∧
        q' = { q with suspended := (verdict q.handle calls).getD q.suspended } := by
  unfold ReadyEntry
  rw [lookup_callbacks]
  constructor
  · rintro ⟨hq', hready, hd⟩
    obtain ⟨q, hq, he⟩ := Option.map_eq_some_iff.1 hq'
    have hh : q.handle = q'.handle := hk _ q hq
    rw [← hh] at hq he
    refine ⟨q, (hk.mem_inOrder_iff hperm).2 hq, ?_, ?_, he.symm⟩
    · rw [← he] at hready; exact hready
    · rw [← he] at hd; exact hd
  · rintro ⟨q, hq, hready, hd, rfl⟩
    exact ⟨by rw [(hk.mem_inOrder_iff hperm).1 hq]; rfl, hready, hd⟩

/-- A choice for every device, with exactly the chosen XQueues running. -/
theorem OneEach.of_chosen {Best : XDevice → XQueueHandle → Prop}
    (chosen : XDevice → XQueueHandle)
    (hchosen : ∀ d, (∃ h, st.ReadyOn d h) → st.ReadyOn d (chosen d) ∧ Best d (chosen d))
    (hrun : ∀ h q, st.xqueueStatus.lookup h = some q → q.ready = true →
      (q.suspended = false ↔ h = chosen q.device)) : st.OneEach Best := by
  intro d hd
  obtain ⟨hready, hbest⟩ := hchosen d hd
  refine ⟨chosen d, hready, hbest, fun h' => ?_⟩
  constructor
  · rintro ⟨q, hq, hr, rfl, hs⟩
    exact (hrun h' q hq hr).1 hs
  · rintro rfl
    obtain ⟨q, hq, hr, hdev⟩ := hready
    exact ⟨q, hq, hr, hdev, (hrun _ q hq hr).2 (by rw [hdev])⟩

end Status

/-! ## The life of a policy -/

namespace PolicyRun
variable {P : Policy} {s s' : PolicyRun P}

/-- What a policy begins with. -/
structure Fresh (s : PolicyRun P) : Prop where
  policy : s.policy = P.init
  linked : s.status.Linked
  keyed : s.status.Keyed
  resumed : ∀ h q, s.status.xqueueStatus.lookup h = some q → q.suspended = false

def life (P : Policy) : LTS (PolicyRun P) Input := .ofFn Fresh step

inductive StepCases (s : PolicyRun P) : Input → PolicyRun P → Prop
  | event {now : TimePoint} {e : Event} {status : Status}
      (hu : s.status.updateStatus now e = some status) :
    StepCases s (.event now e) ⟨status, s.policy⟩
  | recvHint (clock : Clock) (hint : Hint) :
    StepCases s (.recvHint clock hint) ⟨s.status, P.recvHint clock hint s.policy⟩
  | reschedule {clock : Clock} {order : List XQueueHandle} {calls : List Callback}
      {policy : P.State} (hperm : order.Perm s.status.xqueueStatus.keys)
      (hcalls : P.sched clock s.status order s.policy = some (calls, policy)) :
    StepCases s (.reschedule clock order) ⟨calls.foldl Status.callback s.status, policy⟩

theorem step_cases {i : Input} (h : s.step i = some s') : StepCases s i s' := by
  obtain ⟨⟨calls, s₁⟩, ha, rfl⟩ := Option.map_eq_some_iff.1 h
  cases i with
  | event now e =>
    obtain ⟨status, hu, he⟩ := Option.map_eq_some_iff.1 ha
    cases he
    exact .event hu
  | recvHint clock hint =>
    cases ha
    exact .recvHint clock hint
  | reschedule clock order =>
    simp only [answer] at ha
    split at ha
    · rename_i hperm
      obtain ⟨⟨calls', policy⟩, hsched, he⟩ := Option.map_eq_some_iff.1 ha
      cases he
      exact .reschedule hperm hsched
    · cases ha

/-- The entries are well formed all through the life of a policy. -/
theorem keyed_life (hr : (life P).Reachable s) : s.status.Linked ∧ s.status.Keyed := by
  refine LTS.reachable_induction (I := fun s => s.status.Linked ∧ s.status.Keyed) ?_ ?_ hr
  · intro s hs; exact ⟨hs.linked, hs.keyed⟩
  · intro s i s' _ hs hstep
    cases step_cases hstep with
    | event hu => exact ⟨hs.1.updateStatus hu, hs.2.updateStatus hu⟩
    | recvHint clock hint => exact hs
    | @reschedule clock order calls policy hperm hcalls =>
      exact ⟨linked_callbacks hs.1 calls, hs.2.callbacks calls⟩

/-- A round in the life of a policy, and the calls it makes. -/
structure Round (clock : Clock) (order : List XQueueHandle) (s : PolicyRun P)
    (calls : List Callback) (s' : PolicyRun P) : Prop where
  keyed : s.status.Keyed
  perm : order.Perm s.status.xqueueStatus.keys
  sched : P.sched clock s.status order s.policy = some (calls, s'.policy)
  status : s'.status = calls.foldl Status.callback s.status

section
variable {clock : Clock} {order : List XQueueHandle} {calls : List Callback} {d : XDevice}

theorem round_cases (hr : (life P).Reachable s) (h : s.step (.reschedule clock order) = some s') :
    ∃ calls, Round clock order s calls s' := by
  cases step_cases h with
  | @reschedule _ _ calls _ hperm hcalls => exact ⟨calls, (keyed_life hr).2, hperm, hcalls, rfl⟩

theorem Round.nodup (R : Round clock order s calls s') :
    ((s.status.inOrder order).map (·.handle)).Nodup :=
  R.keyed.nodup_inOrder R.perm

theorem Round.mem (R : Round clock order s calls s') {q : XQueueStatus} :
    q ∈ s.status.inOrder order ↔ s.status.xqueueStatus.lookup q.handle = some q :=
  R.keyed.mem_inOrder_iff R.perm

theorem Round.readyEntry (R : Round clock order s calls s') {q' : XQueueStatus} :
    s'.status.ReadyEntry d q' ↔
      ∃ q ∈ s.status.inOrder order, q.ready = true ∧ q.device = d ∧
        q' = { q with suspended := (verdict q.handle calls).getD q.suspended } := by
  rw [R.status]
  exact R.keyed.callbacks_entry R.perm

theorem Round.readyOn (R : Round clock order s calls s') {h : XQueueHandle} :
    s'.status.ReadyOn d h ↔
      ∃ q ∈ s.status.inOrder order, q.ready = true ∧ q.device = d ∧ q.handle = h := by
  rw [R.status, Status.readyOn_callbacks]
  constructor
  · rintro ⟨q, hq, hready, hd⟩
    have hh := R.keyed h q hq
    exact ⟨q, R.mem.2 (by rw [hh]; exact hq), hready, hd, hh⟩
  · rintro ⟨q, hq, hready, hd, rfl⟩
    exact ⟨q, R.mem.1 hq, hready, hd⟩

/-- An entry that the loop has met is after the round as its calls say. -/
theorem Round.lookup (R : Round clock order s calls s') {q : XQueueStatus}
    (hq : q ∈ s.status.inOrder order) : s'.status.xqueueStatus.lookup q.handle =
      some { q with suspended := (verdict q.handle calls).getD q.suspended } := by
  rw [R.status, Status.lookup_callbacks, R.mem.1 hq]
  rfl

theorem Round.runs (R : Round clock order s calls s') {q : XQueueStatus}
    (hq : q ∈ s.status.inOrder order) (hready : q.ready = true) :
    s'.status.Runs q.device q.handle ↔ (verdict q.handle calls).getD q.suspended = false := by
  unfold Status.Runs
  rw [R.lookup hq]
  simp [hready]

/-- The entries after the round are those that the loop has met. -/
theorem Round.entry (R : Round clock order s calls s') {h : XQueueHandle} {q' : XQueueStatus}
    (hq' : s'.status.xqueueStatus.lookup h = some q') :
    ∃ q ∈ s.status.inOrder order, q.handle = h ∧
      q' = { q with suspended := (verdict q.handle calls).getD q.suspended } := by
  rw [R.status, Status.lookup_callbacks] at hq'
  obtain ⟨q, hq, rfl⟩ := Option.map_eq_some_iff.1 hq'
  have hh := R.keyed h q hq
  subst hh
  exact ⟨q, R.mem.2 hq, rfl, rfl⟩

/-- A round that chooses an XQueue for each device and sees to it that no
other is left running. -/
theorem Round.oneEach (R : Round clock order s calls s') {Best : XDevice → XQueueHandle → Prop}
    (chosen : XDevice → XQueueHandle)
    (hchosen : ∀ d, (∃ q ∈ s.status.inOrder order, q.ready = true ∧ q.device = d) →
      s'.status.ReadyOn d (chosen d) ∧ Best d (chosen d))
    (hrun : ∀ q ∈ s.status.inOrder order, q.ready = true →
      ((verdict q.handle calls).getD q.suspended = false ↔ q.handle = chosen q.device)) :
    s'.status.OneEach Best := by
  refine Status.OneEach.of_chosen chosen ?_ ?_
  · rintro d ⟨h, hh⟩
    obtain ⟨q, hq, hready, hd, -⟩ := R.readyOn.1 hh
    exact hchosen d ⟨q, hq, hready, hd⟩
  · intro h q' hq' hready
    obtain ⟨q, hq, rfl, rfl⟩ := R.entry hq'
    exact hrun q hq hready

end

/-- An invariant of the policy's own state. -/
theorem policy_life {I : P.State → Prop} (h0 : I P.init)
    (hhint : ∀ clock hint σ, I σ → I (P.recvHint clock hint σ))
    (hsched : ∀ clock order s calls s', Round clock order s calls s' → I s.policy → I s'.policy)
    (hr : (life P).Reachable s) : I s.policy := by
  refine LTS.reachable_induction (I := fun s => I s.policy) ?_ ?_ hr
  · intro s hs; rw [hs.policy]; exact h0
  · intro s i s' hr hs hstep
    cases step_cases hstep with
    | event hu => exact hs
    | recvHint clock hint => exact hhint clock hint _ hs
    | reschedule hperm hcalls =>
      exact hsched _ _ _ _ _ ⟨(keyed_life hr).2, hperm, hcalls, rfl⟩ hs

end PolicyRun

/-- A flag that a policy keeps for the XQueues it has resumed: only a round
sets it, and for no XQueue that the round leaves suspended. -/
structure RunningFlag (P : Policy) where
  flag : P.State → XQueueHandle → Prop
  init : ∀ h, ¬ flag P.init h
  hint : ∀ clock hint σ h, flag (P.recvHint clock hint σ) h → flag σ h
  sched : ∀ clock order (s : PolicyRun P) calls s', PolicyRun.Round clock order s calls s' →
    (∀ q ∈ s.status.inOrder order, flag s.policy q.handle → q.suspended = false) →
    ∀ q ∈ s.status.inOrder order, flag s'.policy q.handle →
      (verdict q.handle calls).getD q.suspended = false

/-- No XQueue with the flag is suspended. -/
theorem RunningFlag.clear {P : Policy} (F : RunningFlag P) {s : PolicyRun P}
    (hr : (PolicyRun.life P).Reachable s) {h : XQueueHandle} {q : XQueueStatus}
    (hq : s.status.xqueueStatus.lookup h = some q) (hf : F.flag s.policy h) :
    q.suspended = false := by
  refine LTS.reachable_induction
    (I := fun s : PolicyRun P => ∀ h q, s.status.xqueueStatus.lookup h = some q →
      F.flag s.policy h → q.suspended = false) ?_ ?_ hr h q hq hf
  · intro s hs h q hq _; exact hs.resumed h q hq
  · intro s i s' hr hs hstep h q hq hf
    cases PolicyRun.step_cases hstep with
    | event hu =>
      rcases Status.inherits_updateStatus hu hq with ⟨q₀, hq₀, -, -, hsus⟩ | ⟨-, -, -, -, hsus⟩
      · rw [hsus]; exact hs h q₀ hq₀ hf
      · exact hsus
    | recvHint clock hint => exact hs h q hq (F.hint clock hint _ h hf)
    | @reschedule clock order calls policy hperm hcalls =>
      have R : PolicyRun.Round clock order s calls ⟨_, policy⟩ :=
        ⟨(PolicyRun.keyed_life hr).2, hperm, hcalls, rfl⟩
      rw [Status.lookup_callbacks] at hq
      obtain ⟨q₀, hq₀, rfl⟩ := Option.map_eq_some_iff.1 hq
      have hh := R.keyed h q₀ hq₀
      subst hh
      exact F.sched _ _ s calls _ R (fun r hr' hf' => hs _ r (R.mem.1 hr') hf') q₀ (R.mem.2 hq₀) hf

namespace Hosted
variable {P : Policy}

/-- A policy begins with its scheduler, or when `SetPolicy` starts the worker for it. -/
inductive Begins (P : Policy) : Hosted P → Prop
  | construct (type : XPolicyType) : Begins P ⟨.init type, P.init⟩
  | setPolicy {r r' : LocalScheduler} {act : SchedAct} (hr : LocalScheduler.lts.Reachable r)
      (hact : r.restarts act = true) (hstep : r.step act = some r') : Begins P ⟨r', P.init⟩

/-- The runs of a policy under the local scheduler. -/
def life (P : Policy) : LTS (Hosted P) HostedAct := .ofFn (Begins P) step

/-- A restart leaves every XQueue resumed and `SetPolicy` at its end. -/
theorem restart_cases {r r' : LocalScheduler} {act : SchedAct} (hact : r.restarts act = true)
    (hstep : r.step act = some r') : ∃ type, r' = r.joined (some type) := by
  cases LocalScheduler.step_cases hstep with
  | @joined act next hw hr =>
    rw [hact] at hr
    obtain ⟨type, rfl⟩ := Option.isSome_iff_exists.1 hr.symm
    exact ⟨type, rfl⟩
  | stopping hr => rw [hr] at hact; cases hact
  | samePolicy => simp [LocalScheduler.restarts] at hact
  | _ => cases hact

theorem Begins.stays {s : Hosted P} (hs : Begins P s) : Stays s.scheduler := by
  intro next hc
  cases hs with
  | construct type => cases hc
  | setPolicy hr hact hstep =>
    obtain ⟨type, rfl⟩ := restart_cases hact hstep
    cases hc

theorem Begins.fresh {s : Hosted P} (hs : Begins P s) : s.run.Fresh := by
  cases hs with
  | construct type =>
    refine ⟨rfl, Status.linked_empty, Status.keyed_empty, ?_⟩
    intro h q hq; cases hq
  | @setPolicy r r' act hr hact hstep =>
    have hr' : LocalScheduler.lts.Reachable r' := hr.step hstep
    refine ⟨rfl, (LocalScheduler.inv_reachable hr').linked, LocalScheduler.keyed_reachable hr', ?_⟩
    intro h q hq
    obtain ⟨type, rfl⟩ := restart_cases hact hstep
    simp only [run, LocalScheduler.joined, Status.lookup_resumeAll] at hq
    obtain ⟨q₀, -, rfl⟩ := Option.map_eq_some_iff.1 hq
    rfl

/-- The scheduler of a hosted policy is one of the scheduler's own runs. -/
theorem scheduler_life {s : Hosted P} (hr : (life P).Reachable s) :
    LocalScheduler.lts.Reachable s.scheduler := by
  refine LTS.reachable_induction (I := fun s => LocalScheduler.lts.Reachable s.scheduler) ?_ ?_ hr
  · intro s hs
    cases hs with
    | construct type => exact LTS.reachable_init ⟨type, rfl⟩
    | setPolicy hr hact hstep => exact hr.step hstep
  · intro s act s' _ hs hstep
    rcases step_scheduler hstep with he | ⟨a, ha⟩
    · rw [he]
      exact hs
    · exact hs.step ha

theorem stays_life {s : Hosted P} (hr : (life P).Reachable s) : Stays s.scheduler := by
  refine LTS.reachable_induction (I := fun s => Stays s.scheduler) ?_ ?_ hr
  · intro s hs; exact hs.stays
  · intro s act s' _ hs hstep; exact stays_step hs hstep

/-- What a policy sees of its life under the scheduler. -/
theorem life_run {s : Hosted P} (hr : (life P).Reachable s) :
    (PolicyRun.life P).Reachable s.run := by
  refine LTS.reachable_map (M := life P) (N := PolicyRun.life P) run ?_ ?_ hr
  · intro s hs; exact hs.fresh
  · intro s act s' hr hstep; exact step_run (stays_life hr) hstep

/-- A round of the scheduler is a round in the life of its policy. -/
theorem round_life {s s' : Hosted P} {clock : Clock} {order : List XQueueHandle}
    (hr : (life P).Reachable s) (h : s.step (.reschedule clock order) = some s') :
    ∃ calls, PolicyRun.Round clock order s.run calls s'.run :=
  PolicyRun.round_cases (life_run hr) (round_run h)

end Hosted
end Xsched.Sched
