import Mathlib.Data.List.Chain
import Mathlib.Data.List.Nodup
import Mathlib.Logic.Function.Basic
import Xsched.Core.LTS

/-!
# The MCS lock

`MCSLock` queues the threads that want it: `tail_` names the node of the last
one, each node names its successor, and a thread spins on the flag of its own
node until its predecessor grants it the lock. A thread has one node
(`thread_local me`), used in every round and on every `MCSLock`; so the system
has any number of locks, and a thread is in a call on at most one of them.

Every load, store, exchange and compare-exchange is a step. The queue of a
lock is not in the state. It is the threads between their exchange and their
release, and the invariant `Lane` says what `tail_`, the nodes and the
program counters look like along it.

**Results**
* `mcs_lock_correct`: one holder, the order of the exchanges is the order of
  acquiring, a grant is written to the node of a thread that waits for it, and
  an unused lock has no tail. No null `next` is dereferenced.
-/
namespace Xsched
namespace MCSLock

/-- mirrors utils/include/xsched/utils/lock.h:73-77 -/
inductive LockStatus where
  | waiting
  | granted
  deriving DecidableEq, Repr

/-- A node is named by the thread that owns it.
mirrors utils/include/xsched/utils/lock.h:79-83 -/
structure MCSNode (T : Type) where
  flag : LockStatus
  next : Option T
  deriving DecidableEq, Repr

/-- Where a thread is in `lock` and `unlock`; `tail` is the local variable of
`lock`, `succ` the node that `me.next` was when `me.next->flag` was reached. -/
inductive Pc (T L : Type) where
  | idle
  | setFlag (l : L)
  | setNext (l : L)
  | exchange (l : L)
  | link (l : L) (tail : T)
  | spin (l : L) (tail : T)
  | held (l : L)
  | loadNext (l : L)
  | compareExchange (l : L)
  | await (l : L)
  | loadSucc (l : L)
  | grant (l : L) (succ : T)
  /-- a null `me.next` was dereferenced -/
  | fault
  deriving DecidableEq, Repr

/-- The lock that a thread waits for or holds: from its exchange of `tail_` to
the write that releases it. -/
def Pc.engaged {T L : Type} : Pc T L → Option L
  | .link l _ | .spin l _ | .held l | .loadNext l | .compareExchange l | .await l | .loadSucc l
  | .grant l _ => some l
  | _ => none

/-- The thread has returned from its last wait in `lock`. -/
def Pc.holds {T L : Type} : Pc T L → Bool
  | .held _ | .loadNext _ | .compareExchange _ | .await _ | .loadSucc _ | .grant _ _ => true
  | _ => false

/-- The locks, the nodes and the threads, with the history of each lock. -/
structure State (T L : Type) where
  tail : L → Option T
  me : T → MCSNode T
  pc : T → Pc T L
  exchanged : L → List T
  acquired : L → List T
  released : L → List T

/-- A call of `lock` or `unlock`, or the next step of the call a thread is in. -/
inductive Act (T L : Type) where
  | lock (t : T) (l : L)
  | unlock (t : T)
  | thread (t : T)

section Steps
variable {T L : Type} [DecidableEq T] [DecidableEq L]

open Function (update)

def State.goto (s : State T L) (t : T) (pc : Pc T L) : State T L :=
  { s with pc := update s.pc t pc }

def State.setFlag (s : State T L) (t : T) (flag : LockStatus) : State T L :=
  { s with me := update s.me t { s.me t with flag := flag } }

def State.setNext (s : State T L) (t : T) (next : Option T) : State T L :=
  { s with me := update s.me t { s.me t with next := next } }

/-- `tail_.exchange(&me)`, with the return to the caller when the lock was free. -/
def State.exchange (s : State T L) (t : T) (l : L) : State T L :=
  let s' := { s with
    tail := update s.tail l (some t)
    exchanged := update s.exchanged l (s.exchanged l ++ [t]) }
  match s.tail l with
  | some tail => s'.goto t (.link l tail)
  | none => { s' with acquired := update s.acquired l (s.acquired l ++ [t]) }.goto t (.held l)

/-- The thread leaves the queue of the lock. -/
def State.release (s : State T L) (t : T) (l : L) : State T L :=
  { s with released := update s.released l (s.released l ++ [t]) }.goto t .idle

/-- One access to memory of a thread in a call.
mirrors utils/src/lock.cpp:19-45 -/
def State.thread (s : State T L) (t : T) : Option (State T L) :=
  match s.pc t with
  | .setFlag l => some ((s.setFlag t .waiting).goto t (.setNext l))
  | .setNext l => some ((s.setNext t none).goto t (.exchange l))
  | .exchange l => some (s.exchange t l)
  | .link l tail => some ((s.setNext tail (some t)).goto t (.spin l tail))
  | .spin l _ =>
    if (s.me t).flag = .granted then
      some ({ s with acquired := update s.acquired l (s.acquired l ++ [t]) }.goto t (.held l))
    else some s
  | .loadNext l =>
    some (s.goto t (if (s.me t).next = none then .compareExchange l else .loadSucc l))
  | .compareExchange l =>
    if s.tail l = some t then some ({ s with tail := update s.tail l none }.release t l)
    else some (s.goto t (.await l))
  | .await l => some (if (s.me t).next = none then s else s.goto t (.loadSucc l))
  | .loadSucc l =>
    match (s.me t).next with
    | some succ => some (s.goto t (.grant l succ))
    | none => some (s.goto t .fault)
  | .grant l succ => some ((s.setFlag succ .granted).release t l)
  | .idle | .held _ | .fault => none

/-- A thread calls `lock` when it is in no call and holds no lock. -/
def step (s : State T L) : Act T L → Option (State T L)
  | .lock t l => if s.pc t = .idle then some (s.goto t (.setFlag l)) else none
  | .unlock t =>
    match s.pc t with
    | .held l => some (s.goto t (.loadNext l))
    | _ => none
  | .thread t => s.thread t

/-- Static storage: every node is zero, every `tail_` null. -/
def init : State T L where
  tail _ := none
  me _ := ⟨.waiting, none⟩
  pc _ := .idle
  exchanged _ := []
  acquired _ := []
  released _ := []

/-- Any number of threads and locks. -/
def system (T L : Type) [DecidableEq T] [DecidableEq L] : LTS (State T L) (Act T L) :=
  .ofFn (· = init) step

/-! ## What a step does -/

variable {s s' : State T L}

/-- The steps, with the branch that was taken. -/
inductive Step (s : State T L) : State T L → Prop where
  | lock {t l} : s.pc t = .idle → Step s (s.goto t (.setFlag l))
  | unlock {t l} : s.pc t = .held l → Step s (s.goto t (.loadNext l))
  | setFlag {t l} : s.pc t = .setFlag l → Step s ((s.setFlag t .waiting).goto t (.setNext l))
  | setNext {t l} : s.pc t = .setNext l → Step s ((s.setNext t none).goto t (.exchange l))
  | exchange {t l} : s.pc t = .exchange l → Step s (s.exchange t l)
  | link {t l p} : s.pc t = .link l p → Step s ((s.setNext p (some t)).goto t (.spin l p))
  | acquire {t l p} : s.pc t = .spin l p → (s.me t).flag = .granted →
      Step s ({ s with acquired := update s.acquired l (s.acquired l ++ [t]) }.goto t (.held l))
  | stay : Step s s
  | noSucc {t l} : s.pc t = .loadNext l → (s.me t).next = none →
      Step s (s.goto t (.compareExchange l))
  | hasSucc {t l} : s.pc t = .loadNext l ∨ s.pc t = .await l → (s.me t).next ≠ none →
      Step s (s.goto t (.loadSucc l))
  | freed {t l} : s.pc t = .compareExchange l → s.tail l = some t →
      Step s ({ s with tail := update s.tail l none }.release t l)
  | notLast {t l} : s.pc t = .compareExchange l → s.tail l ≠ some t → Step s (s.goto t (.await l))
  | loadSucc {t l n} : s.pc t = .loadSucc l → (s.me t).next = some n →
      Step s (s.goto t (.grant l n))
  | null {t l} : s.pc t = .loadSucc l → (s.me t).next = none → Step s (s.goto t .fault)
  | grant {t l n} : s.pc t = .grant l n → Step s ((s.setFlag n .granted).release t l)

theorem thread_cases {t : T} (h : s.thread t = some s') : Step s s' := by
  unfold State.thread at h
  split at h
  · cases h; exact .setFlag ‹_›
  · cases h; exact .setNext ‹_›
  · cases h; exact .exchange ‹_›
  · cases h; exact .link ‹_›
  · split at h
    · cases h; exact .acquire ‹_› ‹_›
    · cases h; exact .stay
  · split at h
    · cases h; exact .noSucc ‹_› ‹_›
    · cases h; exact .hasSucc (.inl ‹_›) ‹_›
  · split at h
    · cases h; exact .freed ‹_› ‹_›
    · cases h; exact .notLast ‹_› ‹_›
  · split at h
    · cases h; exact .stay
    · cases h; exact .hasSucc (.inr ‹_›) ‹_›
  · split at h
    · cases h; exact .loadSucc ‹_› ‹_›
    · cases h; exact .null ‹_› ‹_›
  · cases h; exact .grant ‹_›
  all_goals cases h

theorem step_cases {act : Act T L} (h : step s act = some s') : Step s s' := by
  cases act with
  | lock t l =>
    simp only [step, Option.ite_none_right_eq_some, Option.some.injEq] at h
    obtain ⟨hpc, rfl⟩ := h
    exact .lock hpc
  | unlock t =>
    simp only [step] at h
    split at h
    · cases h; exact .unlock ‹_›
    · cases h
  | thread t => exact thread_cases h

end Steps

/-! ## The queue of a lock -/

section Queue
variable {T L : Type} {s s' : State T L}

open Function (update update_of_ne update_self update_eq_self)

/-- `a` is right before `b` in the queue: `b` has yet to write its name into
`a`'s node, or has done so and spins. -/
def Linked (s : State T L) (l : L) (a b : T) : Prop :=
  (s.me b).flag = .waiting ∧
    (s.pc b = .link l a ∧ (s.me a).next = none ∨ s.pc b = .spin l a ∧ (s.me a).next = some b)

/-- The first of the queue has the lock, or has been granted it. -/
def AtHead (pc : Pc T L) (node : MCSNode T) (rest : List T) : Prop :=
  match pc with
  | .spin _ _ => node.flag = .granted
  | .held _ | .loadNext _ | .compareExchange _ => True
  | .await _ => rest ≠ []
  | .loadSucc _ => node.next ≠ none
  | .grant _ succ => node.next = some succ
  | _ => False

/-- The first of the queue, if it has returned from its last wait. -/
def holder (pc : T → Pc T L) (q : List T) : List T := q.head?.toList.filter fun t => (pc t).holds

@[simp] theorem holder_cons {pc : T → Pc T L} {t : T} {rest : List T} :
    holder pc (t :: rest) = if (pc t).holds then [t] else [] := by
  simp [holder, List.filter_cons]

theorem holder_congr {pc pc' : T → Pc T L} {q : List T} (h : ∀ t ∈ q.head?, pc' t = pc t) :
    holder pc' q = holder pc q := by
  cases q with
  | nil => rfl
  | cons a rest => simp [h a rfl]

/-- The queue of a lock: the threads from their exchange to their release. -/
structure Lane (s : State T L) (l : L) (q : List T) : Prop where
  nodup : q.Nodup
  mem : ∀ t, t ∈ q ↔ (s.pc t).engaged = some l
  tail : s.tail l = q.getLast?
  last : ∀ t, q.getLast? = some t → (s.me t).next = none
  head : ∀ t rest, q = t :: rest → AtHead (s.pc t) (s.me t) rest
  chain : q.IsChain (Linked s l)
  exchanged : s.exchanged l = s.released l ++ q
  acquired : s.acquired l = s.released l ++ holder s.pc q

/-- A thread about to enter the queue has reset its node; none has failed. -/
def Fresh (pc : Pc T L) (node : MCSNode T) : Prop :=
  match pc with
  | .setNext _ => node.flag = .waiting
  | .exchange _ => node = ⟨.waiting, none⟩
  | .fault => False
  | _ => True

structure Inv (s : State T L) : Prop where
  lanes : ∀ l, ∃ q, Lane s l q
  fresh : ∀ t, Fresh (s.pc t) (s.me t)

theorem Fresh.of_engaged {pc : Pc T L} {l : L} (h : pc.engaged = some l) (node : MCSNode T) :
    Fresh pc node := by
  cases pc <;> trivial

/-- A thread behind the first one, with the one before it. -/
theorem Lane.pred {l : L} {a t : T} {rest : List T} (h : Lane s l (a :: rest)) (ht : t ∈ rest) :
    ∃ i, ∃ hi : i + 1 < (a :: rest).length,
      (a :: rest)[i + 1] = t ∧ Linked s l (a :: rest)[i] t := by
  obtain ⟨i, hi, rfl⟩ := List.getElem_of_mem ht
  have hlen : i + 1 < (a :: rest).length := Nat.succ_lt_succ hi
  exact ⟨i, hlen, rfl, List.isChain_iff_getElem.1 h.chain i hlen⟩

/-- A thread in the queue that is past waiting is the first. -/
theorem Lane.first {l : L} {q : List T} {t : T} (h : Lane s l q)
    (hengaged : (s.pc t).engaged = some l)
    (hnlink : ∀ p, s.pc t ≠ .link l p)
    (hspin : ∀ p, s.pc t = .spin l p → (s.me t).flag = .granted) :
    ∃ rest, q = t :: rest := by
  cases q with
  | nil => cases (h.mem t).2 hengaged
  | cons a rest =>
    rcases List.mem_cons.1 ((h.mem t).2 hengaged) with rfl | ht
    · exact ⟨rest, rfl⟩
    · obtain ⟨i, hlen, -, hflag, hlink⟩ := h.pred ht
      rcases hlink with ⟨hp, -⟩ | ⟨hp, -⟩
      · exact absurd hp (hnlink _)
      · rw [hspin _ hp] at hflag; cases hflag

theorem Lane.first_of_holds {l : L} {q : List T} {t : T} (h : Lane s l q)
    (hengaged : (s.pc t).engaged = some l) (hholds : (s.pc t).holds = true) :
    ∃ rest, q = t :: rest := by
  refine h.first hengaged (fun p he => ?_) (fun p he => ?_)
  · rw [he] at hholds; cases hholds
  · rw [he] at hholds; cases hholds

/-! ## What a step leaves alone -/

/-- A step of `t` in a call on `l`: other locks, the program counters of other
threads and the nodes of the threads outside the queue are as they were. -/
structure Local (s s' : State T L) (t : T) (l : L) : Prop where
  lock : ∀ l', l' ≠ l → s'.tail l' = s.tail l' ∧ s'.exchanged l' = s.exchanged l' ∧
    s'.acquired l' = s.acquired l' ∧ s'.released l' = s.released l'
  pc : ∀ u, u ≠ t → s'.pc u = s.pc u
  node : ∀ u, u ≠ t → (s.pc u).engaged ≠ some l → s'.me u = s.me u
  self : ∀ l', l' ≠ l → (s.pc t).engaged ≠ some l' ∧ (s'.pc t).engaged ≠ some l'

/-- A queue whose lock and whose threads the step leaves alone. -/
theorem Lane.frame {l : L} {q : List T} (h : Lane s l q)
    (hlock : s'.tail l = s.tail l ∧ s'.exchanged l = s.exchanged l ∧
      s'.acquired l = s.acquired l ∧ s'.released l = s.released l)
    (hin : ∀ t ∈ q, s'.pc t = s.pc t ∧ s'.me t = s.me t)
    (hout : ∀ t, t ∉ q → (s'.pc t).engaged ≠ some l) : Lane s' l q := by
  obtain ⟨htail, hexchanged, hacquired, hreleased⟩ := hlock
  refine ⟨h.nodup, fun t => ?_, htail.trans h.tail, fun t ht => ?_, ?_, ?_, ?_, ?_⟩
  · by_cases ht : t ∈ q
    · rw [(hin t ht).1]; exact h.mem t
    · exact ⟨fun hmem => absurd hmem ht, fun he => absurd he (hout t ht)⟩
  · rw [(hin t (List.mem_of_getLast? ht)).2]
    exact h.last t ht
  · rintro t rest rfl
    rw [(hin t List.mem_cons_self).1, (hin t List.mem_cons_self).2]
    exact h.head t rest rfl
  · refine h.chain.imp_of_mem_imp fun a b ha hb hab => ?_
    unfold Linked
    rw [(hin b hb).1, (hin b hb).2, (hin a ha).2]
    exact hab
  · rw [hexchanged, hreleased]; exact h.exchanged
  · rw [hacquired, hreleased, h.acquired,
      holder_congr fun t ht => (hin t (List.mem_of_mem_head? ht)).1]

/-- The invariant after a step follows from what becomes of the lock that the
call is about and of the thread's own node. -/
theorem Inv.step_local (hi : Inv s) {t : T} {l : L} (hloc : Local s s' t l)
    (hlane : ∃ q, Lane s' l q) (hfresh : Fresh (s'.pc t) (s'.me t)) : Inv s' := by
  constructor
  · intro l'
    by_cases hl : l' = l
    · subst hl; exact hlane
    · obtain ⟨q, hq⟩ := hi.lanes l'
      refine ⟨q, hq.frame (hloc.lock l' hl) (fun u hu => ?_) (fun u hu => ?_)⟩
      · have hengaged := (hq.mem u).1 hu
        have hne : u ≠ t := by
          rintro rfl; exact (hloc.self l' hl).1 hengaged
        have hnode := hloc.node u hne (by rw [hengaged]; simpa using hl)
        exact ⟨hloc.pc u hne, hnode⟩
      · by_cases hne : u = t
        · subst hne; exact (hloc.self l' hl).2
        · rw [hloc.pc u hne]; exact fun he => hu ((hq.mem u).2 he)
  · intro u
    by_cases hne : u = t
    · subst hne; exact hfresh
    · rw [hloc.pc u hne]
      by_cases hengaged : (s.pc u).engaged = some l
      · exact .of_engaged hengaged _
      · rw [hloc.node u hne hengaged]; exact hi.fresh u

/-! ## The queue after a step -/

/-- A thread outside the queue, before and after the step. -/
theorem Lane.outside {t : T} {l : L} {q : List T} (h : Lane s l q)
    (hlock : s'.tail l = s.tail l ∧ s'.exchanged l = s.exchanged l ∧
      s'.acquired l = s.acquired l ∧ s'.released l = s.released l)
    (hother : ∀ u, u ≠ t → s'.pc u = s.pc u ∧ s'.me u = s.me u)
    (ht : (s.pc t).engaged = none) (ht' : (s'.pc t).engaged = none) : Lane s' l q := by
  have hnot : t ∉ q := fun hmem => by
    have hengaged := (h.mem t).1 hmem
    rw [ht] at hengaged; cases hengaged
  refine h.frame hlock (fun u hu => hother u (ne_of_mem_of_not_mem hu hnot)) (fun u hu => ?_)
  by_cases hne : u = t
  · subst hne; rw [ht']; nofun
  · rw [(hother u hne).1]; exact fun he => hu ((h.mem u).2 he)

/-- The first thread goes on and stays the first. -/
theorem Lane.advance {t : T} {l : L} {rest : List T} (h : Lane s l (t :: rest))
    (htail : s'.tail l = s.tail l) (hexchanged : s'.exchanged l = s.exchanged l)
    (hreleased : s'.released l = s.released l) (hme : s'.me = s.me)
    (hother : ∀ u, u ≠ t → s'.pc u = s.pc u) (hpc : (s'.pc t).engaged = some l)
    (hhead : AtHead (s'.pc t) (s.me t) rest)
    (hacquired : s'.acquired l = s.released l ++ holder s'.pc [t]) :
    Lane s' l (t :: rest) := by
  refine ⟨h.nodup, fun u => ?_, htail.trans h.tail, by rw [hme]; exact h.last, ?_, ?_, ?_, ?_⟩
  · by_cases hu : u = t
    · subst hu; exact ⟨fun _ => hpc, fun _ => List.mem_cons_self⟩
    · rw [hother u hu]; exact h.mem u
  · intro u rest' heq
    obtain ⟨rfl, rfl⟩ := List.cons.inj heq
    rw [hme]; exact hhead
  · refine h.chain.imp_of_mem_tail_imp fun a b _ hb hab => ?_
    have hne : b ≠ t := ne_of_mem_of_not_mem hb (List.nodup_cons.1 h.nodup).1
    unfold Linked
    rw [hme, hother b hne]
    exact hab
  · rw [hexchanged, hreleased]; exact h.exchanged
  · rw [hacquired, hreleased]; rfl

/-- The exchange on a lock that somebody has: the thread is the last of the queue. -/
theorem Lane.enter {t p : T} {l : L} {q : List T} (h : Lane s l q) (ht : t ∉ q)
    (hp : s.tail l = some p) (hnode : s.me t = ⟨.waiting, none⟩) (hpc : s'.pc t = .link l p)
    (htail : s'.tail l = some t) (hexchanged : s'.exchanged l = s.exchanged l ++ [t])
    (hacquired : s'.acquired l = s.acquired l) (hreleased : s'.released l = s.released l)
    (hme : s'.me = s.me) (hother : ∀ u, u ≠ t → s'.pc u = s.pc u) : Lane s' l (q ++ [t]) := by
  have hsame : ∀ u ∈ q, s'.pc u = s.pc u := fun u hu => hother u (ne_of_mem_of_not_mem hu ht)
  have hlast : q.getLast? = some p := h.tail.symm.trans hp
  obtain ⟨a, rest, rfl⟩ : ∃ a rest, q = a :: rest := by
    cases q with
    | nil => cases hlast
    | cons a rest => exact ⟨a, rest, rfl⟩
  have ha := hsame a List.mem_cons_self
  constructor
  · exact List.nodup_append.2 ⟨h.nodup, List.nodup_cons.2 ⟨nofun, List.nodup_nil⟩,
      fun x hx y hy he => ht (List.mem_singleton.1 hy ▸ he ▸ hx)⟩
  · intro u
    by_cases hu : u = t
    · subst hu; simp [hpc, Pc.engaged]
    · rw [hother u hu, ← h.mem u]; simp [hu]
  · rw [htail, List.getLast?_append]; rfl
  · intro u hu
    rw [List.getLast?_append] at hu
    obtain rfl : t = u := Option.some.inj hu
    rw [hme, hnode]
  · intro u rest' heq
    obtain ⟨rfl, rfl⟩ := List.cons.inj heq
    rw [hme, ha]
    have hhead := h.head a rest rfl
    revert hhead
    cases s.pc a <;> simp [AtHead]
  · rw [List.isChain_append]
    refine ⟨h.chain.imp_of_mem_imp fun x y _ hy hxy => ?_, .singleton t, fun x hx y hy => ?_⟩
    · unfold Linked
      rw [hme, hsame y hy]
      exact hxy
    · cases hlast.symm.trans hx
      cases hy
      unfold Linked
      rw [hme, hnode]
      exact ⟨rfl, .inl ⟨hpc, h.last p hlast⟩⟩
  · rw [hexchanged, h.exchanged, hreleased, List.append_assoc]
  · rw [hacquired, h.acquired, hreleased, List.cons_append, holder_cons, holder_cons, ha]

/-- The exchange on a free lock. -/
theorem Lane.enter_free {t : T} {l : L} {q : List T} (h : Lane s l q) (hp : s.tail l = none)
    (hnode : s.me t = ⟨.waiting, none⟩) (hpc : s'.pc t = .held l)
    (htail : s'.tail l = some t) (hexchanged : s'.exchanged l = s.exchanged l ++ [t])
    (hacquired : s'.acquired l = s.acquired l ++ [t]) (hreleased : s'.released l = s.released l)
    (hme : s'.me = s.me) (hother : ∀ u, u ≠ t → s'.pc u = s.pc u) : Lane s' l [t] := by
  obtain rfl : q = [] := List.getLast?_eq_none_iff.1 (h.tail.symm.trans hp)
  constructor
  · exact List.nodup_cons.2 ⟨nofun, List.nodup_nil⟩
  · intro u
    by_cases hu : u = t
    · subst hu; simp [hpc, Pc.engaged]
    · rw [hother u hu, ← h.mem u]; simp [hu]
  · exact htail
  · intro u hu
    obtain rfl : t = u := Option.some.inj hu
    rw [hme, hnode]
  · intro u rest heq
    obtain ⟨rfl, rfl⟩ := List.cons.inj heq
    rw [hpc]; trivial
  · exact .singleton t
  · rw [hexchanged, h.exchanged, hreleased, List.append_nil]
  · rw [hacquired, h.acquired, hreleased, holder_cons, hpc]
    simp [holder, Pc.holds]

/-- A thread about to write its name into the node of the one before it. -/
theorem Lane.linking {t p : T} {l : L} {q : List T} (h : Lane s l q) (hpc : s.pc t = .link l p) :
    ∃ a rest, q = a :: rest ∧ t ≠ a ∧ ∃ i, ∃ hi : i + 1 < q.length,
      q[i + 1] = t ∧ q[i] = p ∧ (s.me p).next = none ∧ (s.me t).flag = .waiting := by
  have hengaged : (s.pc t).engaged = some l := by rw [hpc]; rfl
  have htq := (h.mem t).2 hengaged
  cases q with
  | nil => cases htq
  | cons a rest =>
    have hta : t ≠ a := by
      rintro rfl
      have hhead := h.head t rest rfl
      rw [hpc] at hhead; exact hhead
    have htr : t ∈ rest := (List.mem_cons.1 htq).resolve_left hta
    obtain ⟨i, hi, hit, hflag, ⟨hp, hnext⟩ | ⟨hp, -⟩⟩ := h.pred htr
    · cases hpc.symm.trans hp
      exact ⟨a, rest, rfl, hta, i, hi, hit, rfl, hnext, hflag⟩
    · cases hpc.symm.trans hp

theorem Lane.link_pred {t p : T} {l : L} {q : List T} (h : Lane s l q)
    (hpc : s.pc t = .link l p) : (s.pc p).engaged = some l := by
  obtain ⟨a, rest, -, -, i, hi, -, rfl, -, -⟩ := h.linking hpc
  exact (h.mem _).1 (List.getElem_mem _)

/-- The thread writes its name into the node of the one before it. -/
theorem Lane.link [DecidableEq T] {t p : T} {l : L} {q : List T} (h : Lane s l q)
    (hpc : s.pc t = .link l p) : Lane ((s.setNext p (some t)).goto t (.spin l p)) l q := by
  obtain ⟨a, rest, rfl, hta, i, hi, hit, hip, hnext, hflag⟩ := h.linking hpc
  have hindex : ∀ j (hj : j < (a :: rest).length), (a :: rest)[j] = p → j = i := fun j hj he =>
    (List.Nodup.getElem_inj_iff h.nodup).1 (he.trans hip.symm)
  have hflag' : ∀ u, (update s.me p { s.me p with next := some t } u).flag = (s.me u).flag := by
    intro u
    by_cases hu : u = p
    · subst hu; rw [update_self]
    · rw [update_of_ne hu]
  constructor
  · exact h.nodup
  · intro u
    by_cases hu : u = t
    · subst hu
      simp only [State.goto, update_self]
      exact ⟨fun _ => rfl, fun _ => hit ▸ List.getElem_mem hi⟩
    · simp only [State.goto, update_of_ne hu]
      exact h.mem u
  · exact h.tail
  · intro u hu
    have hne : u ≠ p := by
      rintro rfl
      rw [List.getLast?_eq_getElem?, List.getElem?_eq_some_iff] at hu
      obtain ⟨hlt, hu⟩ := hu
      have := hindex _ hlt hu
      omega
    simp only [State.goto, State.setNext, update_of_ne hne]
    exact h.last u hu
  · intro u rest' heq
    obtain ⟨rfl, rfl⟩ := List.cons.inj heq
    have hhead := h.head a rest rfl
    simp only [State.goto, State.setNext, update_of_ne hta.symm]
    by_cases hne : a = p
    · subst hne
      rw [update_self]
      revert hhead
      cases s.pc a <;> simp [AtHead, hnext]
    · rw [update_of_ne hne]; exact hhead
  · rw [List.isChain_iff_getElem]
    intro j hj
    have hold := List.isChain_iff_getElem.1 h.chain j hj
    unfold Linked at hold ⊢
    simp only [State.goto, State.setNext]
    by_cases hjp : (a :: rest)[j] = p
    · obtain rfl := hindex j _ hjp
      simp only [hit, hip, update_self]
      exact ⟨(hflag' t).trans hflag, .inr ⟨trivial, trivial⟩⟩
    · have hne : (a :: rest)[j + 1] ≠ t := by
        intro he
        have := (List.Nodup.getElem_inj_iff h.nodup).1 (he.trans hit.symm)
        obtain rfl : j = i := by omega
        exact hjp hip
      rw [update_of_ne hne, update_of_ne hjp, hflag']
      exact hold
  · exact h.exchanged
  · refine h.acquired.trans (congrArg (s.released l ++ ·) (holder_congr fun u hu => ?_).symm)
    obtain rfl : a = u := Option.some.inj hu
    exact update_of_ne hta.symm _ _

/-- The next of the queue: it spins on a flag that nobody has set. -/
theorem Lane.next {t n : T} {l : L} {rest : List T} (h : Lane s l (t :: rest))
    (hnext : (s.me t).next = some n) :
    ∃ rest', rest = n :: rest' ∧ s.pc n = .spin l t ∧ (s.me n).flag = .waiting := by
  cases rest with
  | nil =>
    have hlast := h.last t rfl
    rw [hnext] at hlast; cases hlast
  | cons b rest' =>
    obtain ⟨hflag, ⟨-, hnone⟩ | ⟨hpc, hsome⟩⟩ := (List.isChain_cons_cons.1 h.chain).1
    · rw [hnext] at hnone; cases hnone
    · cases hnext.symm.trans hsome
      exact ⟨rest', rfl, hpc, hflag⟩

theorem inv_init : Inv (init : State T L) where
  lanes _ := ⟨[], List.nodup_nil, fun _ => ⟨nofun, nofun⟩, rfl, nofun, nofun, .nil, rfl, rfl⟩
  fresh _ := trivial

/-- The node that a release grants is the next one's. -/
theorem Inv.grantee (hi : Inv s) {t n : T} {l : L} (hpc : s.pc t = .grant l n) :
    ∃ rest, Lane s l (t :: n :: rest) ∧ s.pc n = .spin l t ∧ (s.me n).flag = .waiting := by
  obtain ⟨q, hq⟩ := hi.lanes l
  obtain ⟨rest, rfl⟩ := hq.first_of_holds (by rw [hpc]; rfl) (by rw [hpc]; rfl)
  have hhead := hq.head t rest rfl
  rw [hpc] at hhead
  obtain ⟨rest', rfl, hn, hflag⟩ := hq.next hhead
  exact ⟨rest', hq, hn, hflag⟩

section Moves
variable [DecidableEq T]

/-- A step of a thread that is in no queue, on its own node. -/
theorem Inv.outside (hi : Inv s) {t : T} {l : L} {pc : Pc T L} {node : MCSNode T}
    (ht : (s.pc t).engaged = none) (hpc : pc.engaged = none) (hfresh : Fresh pc node) :
    Inv ({ s with me := update s.me t node }.goto t pc) := by
  have hpc' : ({ s with me := update s.me t node }.goto t pc).pc t = pc := update_self ..
  have hother : ∀ u, u ≠ t →
      ({ s with me := update s.me t node }.goto t pc).pc u = s.pc u ∧
        ({ s with me := update s.me t node }.goto t pc).me u = s.me u := fun u hu =>
    ⟨update_of_ne hu _ _, update_of_ne hu _ _⟩
  refine hi.step_local (t := t) (l := l)
    ⟨fun l' _ => ⟨rfl, rfl, rfl, rfl⟩, fun u hu => (hother u hu).1, fun u hu _ => (hother u hu).2,
      fun l' _ => ⟨by rw [ht]; nofun, by rw [hpc', hpc]; nofun⟩⟩ ?_ ?_
  · obtain ⟨q, hq⟩ := hi.lanes l
    exact ⟨q, hq.outside ⟨rfl, rfl, rfl, rfl⟩ hother ht (by rw [hpc', hpc])⟩
  · rw [hpc']
    simpa [State.goto] using hfresh

/-- A step of the first of a queue that keeps its place. -/
theorem Inv.advance (hi : Inv s) {t : T} {l : L} {pc : Pc T L}
    (ht : (s.pc t).engaged = some l) (hholds : (s.pc t).holds = true)
    (hpc : pc.engaged = some l) (hholds' : pc.holds = true)
    (hhead : ∀ rest, Lane s l (t :: rest) → AtHead (s.pc t) (s.me t) rest →
      AtHead pc (s.me t) rest) : Inv (s.goto t pc) := by
  have hpc' : (s.goto t pc).pc t = pc := update_self ..
  have hother : ∀ u, u ≠ t → (s.goto t pc).pc u = s.pc u := fun u hu => update_of_ne hu _ _
  refine hi.step_local (t := t) (l := l)
    ⟨fun l' _ => ⟨rfl, rfl, rfl, rfl⟩, hother, fun u _ _ => rfl,
      fun l' hl => ⟨by rw [ht]; simpa using hl.symm, by rw [hpc', hpc]; simpa using hl.symm⟩⟩
    ?_ (by rw [hpc']; exact .of_engaged hpc _)
  obtain ⟨q, hq⟩ := hi.lanes l
  obtain ⟨rest, rfl⟩ := hq.first_of_holds ht hholds
  refine ⟨_, hq.advance rfl rfl rfl rfl hother (by rw [hpc', hpc]) ?_ ?_⟩
  · rw [hpc']; exact hhead rest hq (hq.head t rest rfl)
  · refine hq.acquired.trans ?_
    rw [holder_cons, holder_cons, if_pos hholds, hpc', if_pos hholds']

theorem Inv.link (hi : Inv s) {t p : T} {l : L} (hpc : s.pc t = .link l p) :
    Inv ((s.setNext p (some t)).goto t (.spin l p)) := by
  obtain ⟨q, hq⟩ := hi.lanes l
  have ht : (s.pc t).engaged = some l := by rw [hpc]; rfl
  have hp : (s.pc p).engaged = some l := hq.link_pred hpc
  refine hi.step_local (t := t) (l := l)
    ⟨fun l' _ => ⟨rfl, rfl, rfl, rfl⟩, fun u hu => update_of_ne hu _ _,
      fun u _ hu => update_of_ne ?_ _ _,
      fun l' hl => ⟨by rw [ht]; simpa using hl.symm, ?_⟩⟩ ⟨q, hq.link hpc⟩ ?_
  · rintro rfl; exact hu hp
  · simpa [State.goto, Pc.engaged] using hl.symm
  · simp [State.goto, Fresh]

end Moves

variable [DecidableEq T] [DecidableEq L]

/-- The compare-exchange of the only thread of the queue. -/
theorem Lane.freed {t : T} {l : L} (h : Lane s l [t]) (hpc : (s.pc t).holds = true) :
    Lane ({ s with tail := update s.tail l none }.release t l) l [] := by
  constructor
  · exact List.nodup_nil
  · intro u
    by_cases hu : u = t
    · subst hu; simp [State.release, State.goto, Pc.engaged]
    · simp only [State.release, State.goto, update_of_ne hu, ← h.mem u]
      simp [hu]
  · exact update_self l none s.tail
  · nofun
  · nofun
  · exact .nil
  · exact h.exchanged.trans (by simp [State.release, State.goto])
  · exact h.acquired.trans (by simp [State.release, State.goto, hpc, holder])

/-- The write of the grant: the next of the queue is its first. -/
theorem Lane.grant {t n : T} {l : L} {rest : List T} (h : Lane s l (t :: n :: rest))
    (hpc : (s.pc t).holds = true) (hn : s.pc n = .spin l t) :
    Lane ((s.setFlag n .granted).release t l) l (n :: rest) := by
  obtain ⟨ht, hnd⟩ := List.nodup_cons.1 h.nodup
  have hnt : n ≠ t := fun he => ht (he ▸ List.mem_cons_self)
  have hpcn : ((s.setFlag n .granted).release t l).pc n = .spin l t :=
    (update_of_ne hnt _ _).trans hn
  constructor
  · exact hnd
  · intro u
    by_cases hu : u = t
    · subst hu
      simp only [State.release, State.goto, update_self]
      exact ⟨fun hmem => absurd hmem ht, nofun⟩
    · simp only [State.release, State.goto, State.setFlag, update_of_ne hu, ← h.mem u]
      exact ⟨List.mem_cons_of_mem t, fun hmem => (List.mem_cons.1 hmem).resolve_left hu⟩
  · exact h.tail.trans List.getLast?_cons_cons
  · intro u hu
    have hold := h.last u (List.getLast?_cons_cons.trans hu)
    simp only [State.release, State.goto, State.setFlag]
    by_cases hun : u = n
    · subst hun; rw [update_self]; exact hold
    · rw [update_of_ne hun]; exact hold
  · intro u rest' heq
    obtain ⟨rfl, rfl⟩ := List.cons.inj heq
    rw [hpcn]
    simp [AtHead, State.release, State.goto, State.setFlag]
  · refine (List.isChain_cons_cons.1 h.chain).2.imp_of_mem_tail_imp fun a b ha hb hab => ?_
    have hbn : b ≠ n := ne_of_mem_of_not_mem hb (List.nodup_cons.1 hnd).1
    have hbt : b ≠ t := fun he => ht (he ▸ List.mem_cons_of_mem n hb)
    have hnext : (((s.setFlag n .granted).release t l).me a).next = (s.me a).next := by
      simp only [State.release, State.goto, State.setFlag]
      by_cases han : a = n
      · subst han; rw [update_self]
      · rw [update_of_ne han]
    unfold Linked
    rw [hnext]
    simp only [State.release, State.goto, State.setFlag, update_of_ne hbn, update_of_ne hbt]
    exact hab
  · exact h.exchanged.trans (by simp [State.release, State.goto, State.setFlag])
  · refine h.acquired.trans ?_
    rw [holder_cons, holder_cons, hpcn, if_pos hpc]
    simp [State.release, State.goto, State.setFlag, Pc.holds]

/-! ## Every step -/

theorem Inv.acquire (hi : Inv s) {t p : T} {l : L} (hpc : s.pc t = .spin l p)
    (hflag : (s.me t).flag = .granted) :
    Inv ({ s with acquired := update s.acquired l (s.acquired l ++ [t]) }.goto t (.held l)) := by
  have ht : (s.pc t).engaged = some l := by rw [hpc]; rfl
  refine hi.step_local (t := t) (l := l)
    ⟨fun l' hl => ⟨rfl, rfl, update_of_ne hl _ _, rfl⟩, fun u hu => update_of_ne hu _ _,
      fun u _ _ => rfl, fun l' hl => ⟨by rw [ht]; simpa using hl.symm, ?_⟩⟩ ?_ ?_
  · simpa [State.goto, Pc.engaged] using hl.symm
  · obtain ⟨q, hq⟩ := hi.lanes l
    obtain ⟨rest, rfl⟩ := hq.first ht (fun p' he => by rw [hpc] at he; cases he) fun _ _ => hflag
    refine ⟨_, hq.advance rfl rfl rfl rfl (fun u hu => update_of_ne hu _ _) ?_ ?_ ?_⟩
    · simp [State.goto, Pc.engaged]
    · simp [State.goto, AtHead]
    · simp [State.goto, hq.acquired, hpc, Pc.holds]
  · simp [State.goto, Fresh]

theorem Inv.exchange (hi : Inv s) {t : T} {l : L} (hpc : s.pc t = .exchange l) :
    Inv (s.exchange t l) := by
  have hnode : s.me t = ⟨.waiting, none⟩ := by
    have hfresh := hi.fresh t
    rw [hpc] at hfresh; exact hfresh
  obtain ⟨q, hq⟩ := hi.lanes l
  have htq : t ∉ q := fun hmem => by
    have hengaged := (hq.mem t).1 hmem
    rw [hpc] at hengaged; cases hengaged
  cases htail : s.tail l with
  | none =>
    simp only [State.exchange, htail]
    refine hi.step_local (t := t) (l := l)
      ⟨fun l' hl => ⟨update_of_ne hl _ _, update_of_ne hl _ _, update_of_ne hl _ _, rfl⟩,
        fun u hu => update_of_ne hu _ _, fun u _ _ => rfl,
        fun l' hl => ⟨by rw [hpc]; nofun, ?_⟩⟩ ⟨[t], ?_⟩ ?_
    · simpa [State.goto, Pc.engaged] using hl.symm
    · exact hq.enter_free htail hnode (update_self ..) (update_self ..) (update_self ..)
        (update_self ..) rfl rfl fun u hu => update_of_ne hu _ _
    · simp [State.goto, Fresh]
  | some p =>
    simp only [State.exchange, htail]
    refine hi.step_local (t := t) (l := l)
      ⟨fun l' hl => ⟨update_of_ne hl _ _, update_of_ne hl _ _, rfl, rfl⟩,
        fun u hu => update_of_ne hu _ _, fun u _ _ => rfl,
        fun l' hl => ⟨by rw [hpc]; nofun, ?_⟩⟩ ⟨q ++ [t], ?_⟩ ?_
    · simpa [State.goto, Pc.engaged] using hl.symm
    · exact hq.enter htq htail hnode (update_self ..) (update_self ..) (update_self ..)
        rfl rfl rfl fun u hu => update_of_ne hu _ _
    · simp [State.goto, Fresh]

theorem Inv.freed (hi : Inv s) {t : T} {l : L} (hpc : s.pc t = .compareExchange l)
    (htail : s.tail l = some t) : Inv ({ s with tail := update s.tail l none }.release t l) := by
  obtain ⟨q, hq⟩ := hi.lanes l
  have ht : (s.pc t).engaged = some l := by rw [hpc]; rfl
  have hholds : (s.pc t).holds = true := by rw [hpc]; rfl
  obtain ⟨rest, rfl⟩ := hq.first_of_holds ht hholds
  have hrest : rest = [] := by
    rcases List.eq_nil_or_concat' rest with rfl | ⟨pre, b, rfl⟩
    · rfl
    · have hb := hq.tail
      rw [htail, ← List.cons_append, List.getLast?_append] at hb
      obtain rfl : t = b := Option.some.inj hb
      exact absurd (by simp) (List.nodup_cons.1 hq.nodup).1
  subst hrest
  refine hi.step_local (t := t) (l := l)
    ⟨fun l' hl => ⟨update_of_ne hl _ _, rfl, rfl, update_of_ne hl _ _⟩,
      fun u hu => update_of_ne hu _ _, fun u _ _ => rfl,
      fun l' hl => ⟨by rw [ht]; simpa using hl.symm, ?_⟩⟩ ⟨[], hq.freed hholds⟩ ?_
  · simp [State.release, State.goto, Pc.engaged]
  · simp [State.release, State.goto, Fresh]

theorem Inv.grant (hi : Inv s) {t n : T} {l : L} (hpc : s.pc t = .grant l n) :
    Inv ((s.setFlag n .granted).release t l) := by
  obtain ⟨rest, hq, hn, -⟩ := hi.grantee hpc
  have ht : (s.pc t).engaged = some l := by rw [hpc]; rfl
  refine hi.step_local (t := t) (l := l)
    ⟨fun l' hl => ⟨rfl, rfl, rfl, update_of_ne hl _ _⟩, fun u hu => update_of_ne hu _ _,
      fun u _ hu => update_of_ne ?_ _ _, fun l' hl => ⟨by rw [ht]; simpa using hl.symm, ?_⟩⟩
    ⟨n :: rest, hq.grant (by rw [hpc]; rfl) hn⟩ ?_
  · rintro rfl; exact hu (by rw [hn]; rfl)
  · simp [State.release, State.goto, Pc.engaged]
  · simp [State.release, State.goto, Fresh]

theorem Inv.step (hi : Inv s) (h : Step s s') : Inv s' := by
  cases h with
  | @lock t l hpc =>
    have hsame : s.goto t (.setFlag l) =
        { s with me := update s.me t (s.me t) }.goto t (.setFlag l) := by
      rw [update_eq_self]
    rw [hsame]
    exact hi.outside (l := l) (by rw [hpc]; rfl) rfl trivial
  | unlock hpc =>
    exact hi.advance (by rw [hpc]; rfl) (by rw [hpc]; rfl) rfl rfl fun _ _ _ => trivial
  | @setFlag t l hpc => exact hi.outside (l := l) (by rw [hpc]; rfl) rfl rfl
  | @setNext t l hpc =>
    have hfresh := hi.fresh t
    rw [hpc] at hfresh
    exact hi.outside (l := l) (by rw [hpc]; rfl) rfl (congrArg (MCSNode.mk · none) hfresh)
  | exchange hpc => exact hi.exchange hpc
  | link hpc => exact hi.link hpc
  | acquire hpc hflag => exact hi.acquire hpc hflag
  | stay => exact hi
  | noSucc hpc hnext =>
    exact hi.advance (by rw [hpc]; rfl) (by rw [hpc]; rfl) rfl rfl fun _ _ _ => trivial
  | hasSucc hpc hnext =>
    rcases hpc with hpc | hpc
    · exact hi.advance (by rw [hpc]; rfl) (by rw [hpc]; rfl) rfl rfl fun _ _ _ => hnext
    · exact hi.advance (by rw [hpc]; rfl) (by rw [hpc]; rfl) rfl rfl fun _ _ _ => hnext
  | freed hpc htail => exact hi.freed hpc htail
  | notLast hpc htail =>
    refine hi.advance (by rw [hpc]; rfl) (by rw [hpc]; rfl) rfl rfl fun rest hq hhead => ?_
    rintro rfl
    exact htail hq.tail
  | loadSucc hpc hnext =>
    exact hi.advance (by rw [hpc]; rfl) (by rw [hpc]; rfl) rfl rfl fun _ _ _ => hnext
  | @null t l hpc hnext =>
    -- the thread is the first of the queue and has seen a successor
    obtain ⟨q, hq⟩ := hi.lanes l
    obtain ⟨rest, rfl⟩ := hq.first_of_holds (by rw [hpc]; rfl) (by rw [hpc]; rfl)
    have hhead := hq.head t rest rfl
    rw [hpc] at hhead
    exact absurd hnext hhead
  | grant hpc => exact hi.grant hpc

theorem inv_reachable (hr : (system T L).Reachable s) : Inv s :=
  LTS.Inductive.reachable ⟨fun _ h => h ▸ inv_init, fun _ _ _ hi h => hi.step (step_cases h)⟩ s hr

/-! ## The lock -/

/-- **The MCS lock.** In every reachable state: at most one thread is between
the return of `lock` and the call of `unlock`; the threads have acquired the
lock in the order of their exchanges; a thread about to write a grant writes it
to the node of the thread that spins for its release; a lock that no thread
waits for or holds has no tail; and no null successor has been dereferenced. -/
theorem mcs_lock_correct (hr : (system T L).Reachable s) :
    (∀ l a b, s.pc a = .held l → s.pc b = .held l → a = b) ∧
      (∀ l, s.acquired l <+: s.exchanged l) ∧
      (∀ l t n, s.pc t = .grant l n → s.pc n = .spin l t ∧ (s.me n).flag = .waiting) ∧
      (∀ l, (∀ t, (s.pc t).engaged ≠ some l) → s.tail l = none) ∧
      ∀ t, s.pc t ≠ .fault := by
  have hi := inv_reachable hr
  refine ⟨fun l a b ha hb => ?_, fun l => ?_, fun l t n hpc => ?_, fun l hfree => ?_,
    fun t hpc => ?_⟩
  · obtain ⟨q, hq⟩ := hi.lanes l
    obtain ⟨rest, rfl⟩ := hq.first_of_holds (t := a) (by rw [ha]; rfl) (by rw [ha]; rfl)
    obtain ⟨rest', he⟩ := hq.first_of_holds (t := b) (by rw [hb]; rfl) (by rw [hb]; rfl)
    exact (List.cons.inj he).1
  · obtain ⟨q, hq⟩ := hi.lanes l
    rw [hq.acquired, hq.exchanged]
    refine (List.prefix_append_right_inj _).2 ?_
    cases q with
    | nil => exact List.nil_prefix
    | cons a rest =>
      rw [holder_cons]
      split
      · exact ⟨rest, rfl⟩
      · exact List.nil_prefix
  · obtain ⟨rest, -, hn, hflag⟩ := hi.grantee hpc
    exact ⟨hn, hflag⟩
  · obtain ⟨q, hq⟩ := hi.lanes l
    obtain rfl : q = [] := List.eq_nil_iff_forall_not_mem.2 fun t ht => hfree t ((hq.mem t).1 ht)
    exact hq.tail
  · have hfresh := hi.fresh t
    rw [hpc] at hfresh; exact hfresh

/-- Two threads: the second waits while the first is about to hand the lock over. -/
def handover : List (Act Bool Unit) :=
  [.lock false (), .thread false, .thread false, .thread false, .lock true (), .thread true,
    .thread true, .thread true, .unlock false, .thread false, .thread false, .thread true,
    .thread true, .thread false, .thread false]

theorem mcs_lock_correct_handover :
    ∃ s, (system Bool Unit).Reachable s ∧ s.pc false = .grant () true ∧
      s.pc true = .spin () false ∧ (s.me true).flag = .waiting := by
  have htrace : ((LTS.exec step init handover).map (·.pc false)) = some (.grant () true) := by
    decide
  obtain ⟨s, hs, he⟩ := Option.map_eq_some_iff.1 htrace
  have hr : (system Bool Unit).Reachable s := LTS.reachable_of_exec rfl hs
  exact ⟨s, hr, he, (mcs_lock_correct hr).2.2.1 () false true he⟩

end Queue

end MCSLock
end Xsched
