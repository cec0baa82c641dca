import Xsched.Preempt.LifeCycle

/-!
# The life of an XCommand: states only go forward, listeners hear of each once

No lock of a command orders the `SetState` calls made for it, so the order
comes from who holds the command: a thread that enqueues it, the buffer, the
worker's hand, or `cmd_log_` (`Place`). Each place belongs to a lock or to a
thread (`Guard`), and only under that lock, or on that thread, is a command
moved or a call made for it. `Inv` says so, and that a command has, or is
about to get, the state of its place (`due`).

What happens to one command in a region is its `Fate`: nothing, a move with
or without a call, or its making. `Inv.begins` says that a region that gives
every command a fate keeps `Inv`; the regions of the machine do (`fate_of_opening`).

**Results**
* `command_life_cycle`: no `SetState` goes back, a listener has heard of the
  states from Pending on in order, each once, and of all up to the current one
  whenever no thread is telling the command's listeners.
-/
namespace Xsched.Preempt.LifeCycle

/-! ## Places -/

/-- Where a command can be; `hand d`: in the worker's hand, in state `d`. -/
inductive Place where
  | caller (t : Nat)
  | buffer
  | hand (d : XCommandState)
  | log
  deriving DecidableEq, Repr

/-- The state a command has there once no call is made for it. -/
def Place.due : Place → XCommandState
  | .caller _ => .pending
  | .buffer => .pending
  | .hand d => d
  | .log => .inFlight

def At (f : Fine) (x : XCommand) : Place → Prop
  | .caller t => f.enq t = some x
  | .buffer => x ∈ f.m.cmds
  | .hand d => handOf f.m.pc = some (x, d)
  | .log => ∃ c ∈ f.m.cmdLog, x = .hardware c

/-- Thread `th` holds what the place belongs to. -/
def Guard (f : Fine) (th : Thread) : Place → Prop
  | .caller t => th = .client t
  | .buffer => f.owner .cmdBuf = some th
  | .hand _ => th = .worker
  | .log => f.owner .worker = some th

/-- Thread `th` may touch what is at the place in a region under `lock`. -/
def Avail (th : Thread) (lock : Option Lock) : Place → Prop
  | .caller t => th = .client t
  | .buffer => lock = some .cmdBuf
  | .hand _ => th = .worker
  | .log => lock = some .worker

/-- The object has been made and, if it is a HwCommand, submitted. -/
def Known (f : Fine) : XCommand → Prop
  | .hardware c => c ∈ f.submitted
  | x => x.id < f.m.nextId

structure Inv (listeners : XCommand → Nat) (f : Fine) : Prop where
  notify : Notify.Inv ladder listeners f.notify
  one : ∀ {x : XCommand} {p q : Place}, At f x p → At f x q → p = q
  known : ∀ {x : XCommand} {p : Place}, At f x p → Known f x
  buffer : f.m.cmds.Nodup
  log : f.m.cmdLog.Nodup
  due : ∀ {x : XCommand} {p : Place}, At f x p → f.notify.Settles x p.due
  guard : ∀ {th : Thread} {x : XCommand} {p : Place},
    f.notify.Busy th x → At f x p → Guard f th p
  busy : ∀ {th : Thread} {x : XCommand}, f.notify.Busy th x → Known f x
  fresh : ∀ {x : XCommand}, ¬ Known f x → f.m.cmdState x = .created
  pcOk : PcOk f.m.pc

variable {listeners : XCommand → Nat} {f f' : Fine} {th : Thread} {lock : Option Lock}

/-- In the states between regions nobody is busy with a command that a thread
with the lock may touch. -/
theorem Inv.untouched (h : Inv listeners f) (hfree : f.Free th)
    (hlock : ∀ l, lock = some l → f.owner l = none) {x : XCommand} {p : Place} (hp : At f x p)
    (ha : Avail th lock p) (t : Thread) : ¬ f.notify.Busy t x := by
  intro hb
  have hg := h.guard hb hp
  have hidle : ¬ f.notify.Busy th x := by
    have htask : f.notify.task th = .none _ _ := hfree.1
    unfold Notify.State.Busy Notify.State.Tells
    rw [htask]
    rintro (hm | ⟨note, hm, -⟩) <;> cases hm
  cases p with
  | caller u =>
    have ht : t = .client u := hg
    have hth : th = .client u := ha
    exact hidle (by rw [hth, ← ht]; exact hb)
  | buffer =>
    have ho : f.owner .cmdBuf = some t := hg
    rw [hlock _ ha] at ho; cases ho
  | hand d =>
    have ht : t = .worker := hg
    have hth : th = .worker := ha
    exact hidle (by rw [hth, ← ht]; exact hb)
  | log =>
    have ho : f.owner .worker = some t := hg
    rw [hlock _ ha] at ho; cases ho

/-! ## The fate of one command in a region -/

/-- What a region of thread `th` under `lock` with the calls `cs` does to `x`. -/
inductive Fate (f f' : Fine) (th : Thread) (lock : Option Lock) (cs : List Call) (x : XCommand) :
    Prop
  | same (hp : ∀ p, At f' x p ↔ At f x p) (hc : x ∉ cs.map Prod.fst) : Fate f f' th lock cs x
  | moved (q : Place) (o : Option Place) (hq : At f x q) (ha : Avail th lock q)
      (hp : ∀ p, At f' x p ↔ o = some p) (hc : x ∉ cs.map Prod.fst)
      (hd : ∀ p, o = some p → p.due = q.due) : Fate f f' th lock cs x
  | called (q : Place) (o : Option Place) (st : XCommandState) (hq : At f x q)
      (ha : Avail th lock q) (hp : ∀ p, At f' x p ↔ o = some p) (hc : (x, st) ∈ cs)
      (hst : q.due.val ≤ st.val) (hd : ∀ p, o = some p → p.due = st ∧ Avail th lock p) :
      Fate f f' th lock cs x
  | made (q : Place) (hn : ¬ Known f x) (hk : Known f' x) (hp : ∀ p, At f' x p ↔ p = q)
      (ha : Avail th lock q) (hc : (x, q.due) ∈ cs) : Fate f f' th lock cs x

/-- Whoever guards a place still does when the lock was free. -/
theorem Guard.begins {t : Thread} {p : Place} (hg : Guard f t p)
    (hlock : ∀ l, lock = some l → f.owner l = none)
    (ho : ∀ l, f'.owner l = if lock = some l then some th else f.owner l) : Guard f' t p := by
  have hkeep {l : Lock} (hl : f.owner l = some t) : f'.owner l = some t := by
    rw [ho, if_neg]
    · exact hl
    · intro he
      rw [hlock l he] at hl
      cases hl
  cases p with
  | caller u => exact hg
  | buffer => exact hkeep hg
  | hand d => exact hg
  | log => exact hkeep hg

/-- With the lock the thread guards what it may touch. -/
theorem Avail.guard {p : Place} (ha : Avail th lock p)
    (ho : ∀ l, f'.owner l = if lock = some l then some th else f.owner l) : Guard f' th p := by
  cases p with
  | caller u => exact ha
  | buffer =>
    show f'.owner .cmdBuf = some th
    rw [ho]
    exact if_pos ha
  | hand d => exact ha
  | log =>
    show f'.owner .worker = some th
    rw [ho]
    exact if_pos ha

/-- Nobody is busy with a command a call is made for, and the call goes up. -/
theorem Inv.calls_up (h : Inv listeners f) {cs : List Call} (hfree : f.Free th)
    (hlock : ∀ l, lock = some l → f.owner l = none) (hcs : (cs.map Prod.fst).Nodup)
    (hfate : ∀ x, Fate f f' th lock cs x) {c : Call} (hc : c ∈ cs) :
    (∀ t, ¬ f.notify.Busy t c.1) ∧ ladder.le (f.notify.cur c.1) c.2 = true := by
  have hm : c.1 ∈ cs.map Prod.fst := List.mem_map_of_mem hc
  cases hfate c.1 with
  | same hp hno => exact absurd hm hno
  | moved q o hq ha hp hno hd => exact absurd hm hno
  | called q o st hq ha hp hst hle hd =>
    have hb := h.untouched hfree hlock hq ha
    have heq : c.2 = st := by
      have he := List.inj_on_of_nodup_map hcs hc hst rfl
      rw [he]
    refine ⟨hb, ?_⟩
    rw [(h.due hq).cur hb, heq]
    exact decide_eq_true hle
  | made q hnew hk hp ha hst =>
    refine ⟨fun t hb => hnew (h.busy hb), ?_⟩
    have hcur : f.notify.cur c.1 = .created := h.fresh hnew
    rw [hcur]
    exact ladder.bot_le _

section
variable {cs : List Call} {x : XCommand} {p : Place}

theorem Fate.one (hx : Fate f f' th lock cs x) (h : Inv listeners f) {q : Place} (hp : At f' x p)
    (hq : At f' x q) : p = q := by
  cases hx with
  | same he _ => exact h.one ((he p).1 hp) ((he q).1 hq)
  | moved q' o _ _ he _ _ => exact Option.some.inj (((he p).1 hp).symm.trans ((he q).1 hq))
  | called q' o st _ _ he _ _ _ => exact Option.some.inj (((he p).1 hp).symm.trans ((he q).1 hq))
  | made q' _ _ he _ _ => exact ((he p).1 hp).trans ((he q).1 hq).symm

theorem Fate.known (hx : Fate f f' th lock cs x) (h : Inv listeners f)
    (hknown : Known f x → Known f' x) (hp : At f' x p) : Known f' x := by
  cases hx with
  | same he _ => exact hknown (h.known ((he p).1 hp))
  | moved q o hq _ _ _ _ => exact hknown (h.known hq)
  | called q o st hq _ _ _ _ _ => exact hknown (h.known hq)
  | made q _ hk _ _ _ => exact hk

/-- The calls bring a command to the state that its new place is for. -/
theorem Fate.due (hx : Fate f f' th lock cs x) (h : Inv listeners f) (hfree : f.Free th)
    (hp : At f' x p) : (f.notify.take th cs).Settles x p.due := by
  have hidle : f.notify.task th = .none _ _ := hfree.1
  cases hx with
  | same he hno => exact (h.due ((he p).1 hp)).take hidle hno
  | moved q o hq ha he hno hd =>
    rw [hd p ((he p).1 hp)]
    exact (h.due hq).take hidle hno
  | called q o st hq ha he hc hle hd =>
    rw [(hd p ((he p).1 hp)).1]
    exact Notify.settles_take hc
  | made q _ _ he _ hc =>
    rw [(he p).1 hp]
    exact Notify.settles_take hc

/-- Who is busy with a command guards its new place: the thread with its new
calls, or who was busy before. -/
theorem Fate.guard (hx : Fate f f' th lock cs x) (h : Inv listeners f) (hfree : f.Free th)
    (hlock : ∀ l, lock = some l → f.owner l = none)
    (ho : ∀ l, f'.owner l = if lock = some l then some th else f.owner l) {t : Thread}
    (hb : (f.notify.take th cs).Busy t x) (hp : At f' x p) : Guard f' t p := by
  rcases Notify.busy_take hb with ⟨rfl, hm⟩ | hb
  · cases hx with
    | same he hno => exact absurd hm hno
    | moved q o hq ha he hno hd => exact absurd hm hno
    | called q o st hq ha he hc hle hd => exact (hd p ((he p).1 hp)).2.guard ho
    | made q _ _ he ha hc =>
      rw [(he p).1 hp]
      exact ha.guard ho
  · cases hx with
    | same he hno => exact (h.guard hb ((he p).1 hp)).begins hlock ho
    | moved q o hq ha he hno hd => exact absurd hb (h.untouched hfree hlock hq ha t)
    | called q o st hq ha he hc hle hd => exact absurd hb (h.untouched hfree hlock hq ha t)
    | made q hnew _ _ _ _ => exact absurd (h.busy hb) hnew

theorem Fate.busy (hx : Fate f f' th lock cs x) (h : Inv listeners f)
    (hknown : Known f x → Known f' x) {t : Thread} (hb : (f.notify.take th cs).Busy t x) :
    Known f' x := by
  rcases Notify.busy_take hb with ⟨rfl, hm⟩ | hb
  · cases hx with
    | same he hno => exact absurd hm hno
    | moved q o hq ha he hno hd => exact absurd hm hno
    | called q o st hq ha he hc hle hd => exact hknown (h.known hq)
    | made q _ hk _ _ _ => exact hk
  · exact hknown (h.busy hb)

end

/-- A region in which every command has a fate keeps the invariant. -/
theorem Inv.begins (h : Inv listeners f) {cs : List Call} (hfree : f.Free th)
    (hlock : ∀ l, lock = some l → f.owner l = none)
    (hn : f'.notify = f.notify.take th cs)
    (ho : ∀ l, f'.owner l = if lock = some l then some th else f.owner l)
    (hcs : (cs.map Prod.fst).Nodup) (hfate : ∀ x, Fate f f' th lock cs x)
    (hknown : ∀ x, Known f x → Known f' x) (hbuf : f'.m.cmds.Nodup) (hlog : f'.m.cmdLog.Nodup)
    (hpc : PcOk f'.m.pc) : Inv listeners f' where
  notify := by
    rw [hn]
    exact h.notify.take hfree.1 hcs fun c hc => h.calls_up hfree hlock hcs hfate hc
  one hp hq := (hfate _).one h hp hq
  known hp := (hfate _).known h (hknown _) hp
  buffer := hbuf
  log := hlog
  due hp := by
    rw [hn]
    exact (hfate _).due h hfree hp
  guard hb hp := by
    rw [hn] at hb
    exact (hfate _).guard h hfree hlock ho hb hp
  busy hb := by
    rw [hn] at hb
    exact (hfate _).busy h (hknown _) hb
  fresh {x} hx := by
    have hstate : f'.m.cmdState = f.m.cmdState := congrArg Notify.State.cur hn
    rw [hstate]
    exact h.fresh fun hk => hx (hknown x hk)
  pcOk := hpc

/-! ## The regions of the machine -/

/-- The places of one command, place by place. -/
theorem at_iff {x : XCommand} {o : Option Place} (hc : ∀ t, f.enq t = some x ↔ o = some (.caller t))
    (hb : x ∈ f.m.cmds ↔ o = some .buffer)
    (hh : ∀ d, handOf f.m.pc = some (x, d) ↔ o = some (.hand d))
    (hl : (∃ c ∈ f.m.cmdLog, x = .hardware c) ↔ o = some .log) (p : Place) :
    At f x p ↔ o = some p := by
  cases p with
  | caller t => exact hc t
  | buffer => exact hb
  | hand d => exact hh d
  | log => exact hl

theorem at_congr {x : XCommand} (hc : ∀ t, f'.enq t = some x ↔ f.enq t = some x)
    (hb : x ∈ f'.m.cmds ↔ x ∈ f.m.cmds)
    (hh : ∀ d, handOf f'.m.pc = some (x, d) ↔ handOf f.m.pc = some (x, d))
    (hl : (∃ c ∈ f'.m.cmdLog, x = .hardware c) ↔ ∃ c ∈ f.m.cmdLog, x = .hardware c) (p : Place) :
    At f' x p ↔ At f x p := by
  cases p with
  | caller t => exact hc t
  | buffer => exact hb
  | hand d => exact hh d
  | log => exact hl

section
variable {x y : XCommand} {m' : State} {cs : List Call}

/-- A command in a place of its own is in no other. -/
theorem Inv.only (h : Inv listeners f) {q : Place} (hq : At f x q) {p : Place} (hp : p ≠ q) :
    ¬ At f x p := fun ha => hp (h.one ha hq)

theorem Inv.nowhere (h : Inv listeners f) (hn : ¬ Known f x) (p : Place) : ¬ At f x p :=
  fun ha => hn (h.known ha)

theorem hand_iff {p : WorkerPc} {d : XCommandState} (hp : handOf p = some (y, d))
    (e : XCommandState) : handOf p = some (x, e) ↔ x = y ∧ e = d := by
  rw [hp, Option.some.injEq, Prod.mk.injEq]
  exact ⟨fun he => ⟨he.1.symm, he.2.symm⟩, fun he => ⟨he.1.symm, he.2.symm⟩⟩

theorem hand_ne {p : WorkerPc} {d : XCommandState} (hp : handOf p = some (y, d)) (hne : x ≠ y)
    (e : XCommandState) : handOf p ≠ some (x, e) := fun he => hne ((hand_iff hp e).1 he).1

theorem hand_none {p : WorkerPc} (hp : handOf p = none) (e : XCommandState) :
    handOf p ≠ some (x, e) := by rw [hp]; nofun

theorem known_of_next (hs : f.submitted ⊆ f'.submitted)
    (hn : f.m.nextId ≤ f'.m.nextId) (hk : Known f x) : Known f' x := by
  cases x with
  | hardware c => exact hs hk
  | _ => exact Nat.lt_of_lt_of_le hk hn

theorem fresh_unknown (hx : y.hw? = none) (hid : y.id = f.m.nextId) : ¬ Known f y := by
  intro hk
  cases y with
  | hardware c => cases hx
  | _ =>
    have hlt : XCommand.id _ < f.m.nextId := hk
    omega

theorem fresh_known (hx : y.hw? = none) (hid : y.id = f.m.nextId)
    (hn : f'.m.nextId = f.m.nextId + 1) : Known f' y := by
  cases y with
  | hardware c => cases hx
  | _ =>
    show XCommand.id _ < f'.m.nextId
    omega

/-- The commands of the log that a region completes. -/
theorem completions_fst (pre : List HwCommand) :
    (completions pre).map Prod.fst = pre.map XCommand.hardware := by
  rw [completions, List.map_map]; rfl

theorem hardware_nodup {cs : List HwCommand} (h : cs.Nodup) : (cs.map XCommand.hardware).Nodup :=
  h.map fun _ _ he => XCommand.hardware.inj he

theorem not_mem_completions {pre : List HwCommand} (hx : ∀ c ∈ pre, x ≠ .hardware c) :
    x ∉ (completions pre).map Prod.fst := by
  rw [completions_fst]
  intro hm
  obtain ⟨c, hc, rfl⟩ := List.mem_map.1 hm
  exact hx c hc rfl

theorem mem_completions {pre : List HwCommand} {c : HwCommand} (hc : c ∈ pre) :
    (.hardware c, .completed) ∈ completions pre := List.mem_map_of_mem hc

/-- A step of the machine keeps the kinds of the worker's waits. -/
theorem pcOk_tail {n : Nat} {x : XCommand} {s s' : State} (hok : PcOk s.pc) (ht : Tail n x s s') :
    PcOk s'.pc := by
  cases ht with
  | launchWait => trivial
  | syncWait t r a hx hr => exact hr
  | syncCall t r a hx hr => exact hr
  | abort => exact hok
  | finish a st hx => exact hx
  | drop => trivial
  | launch => trivial

theorem pcOk_worker {s s' : State} (hok : PcOk s.pc) (ht : WorkerStep s s') : PcOk s'.pc := by
  cases ht with
  | region x s' hpc hne ht => exact pcOk_tail hok ht
  | calling call r hpc => rw [hpc] at hok; exact hok
  | returning call r hpc => rw [hpc] at hok; exact hok
  | synced call r s' hpc hp ht =>
    refine pcOk_tail ?_ ht
    rw [syncFinish_pc]; exact hok
  | complete x hpc hx => cases x <;> trivial
  | _ => trivial

theorem pcOk_step {s s' : State} {a : Act} (hok : PcOk s.pc) (ht : Step s a s') : PcOk s'.pc := by
  cases ht with
  | worker b s' ht => exact pcOk_worker hok ht
  | app t s' ht => cases ht <;> exact hok
  | wait t c s' ht => cases ht <;> exact hok
  | _ => exact hok

/-- A command nothing is done to. -/
theorem fate_same (hb : x ∈ m'.cmds ↔ x ∈ f.m.cmds)
    (hh : ∀ d, handOf m'.pc = some (x, d) ↔ handOf f.m.pc = some (x, d))
    (hl : (∃ c ∈ m'.cmdLog, x = .hardware c) ↔ ∃ c ∈ f.m.cmdLog, x = .hardware c)
    (hc : x ∉ cs.map Prod.fst) : Fate f (f.begins th lock cs m') th lock cs x :=
  .same (at_congr (fun _ => Iff.rfl) hb hh hl) hc

/-- The places of a command that leaves place `q` for `o`, not to or from a
thread that enqueues it. -/
theorem Inv.at_moved (h : Inv listeners f) {q : Place} {o : Option Place} (hq : At f x q)
    (hnq : ∀ t, q ≠ .caller t) (hno : ∀ t, o ≠ some (.caller t))
    (hb : x ∈ m'.cmds ↔ o = some .buffer)
    (hh : ∀ d, handOf m'.pc = some (x, d) ↔ o = some (.hand d))
    (hl : (∃ c ∈ m'.cmdLog, x = .hardware c) ↔ o = some .log) (p : Place) :
    At (f.begins th lock cs m') x p ↔ o = some p := by
  refine at_iff (fun t => ?_) hb hh hl p
  exact ⟨fun he => absurd he (h.only (p := .caller t) hq (hnq t).symm), fun he => absurd he (hno t)⟩

/-- The places of a command that is made. -/
theorem Inv.at_made (h : Inv listeners f) {q : Place} (hn : ¬ Known f x) (hq : ∀ t, q ≠ .caller t)
    (hb : x ∈ m'.cmds ↔ some q = some .buffer)
    (hh : ∀ d, handOf m'.pc = some (x, d) ↔ some q = some (.hand d))
    (hl : (∃ c ∈ m'.cmdLog, x = .hardware c) ↔ some q = some .log) (p : Place) :
    At (f.begins th lock cs m') x p ↔ p = q := by
  have hat : At (f.begins th lock cs m') x p ↔ some q = some p := by
    refine at_iff (fun t => ?_) hb hh hl p
    exact ⟨fun he => absurd he (h.nowhere hn (.caller t)), fun he => absurd (Option.some.inj he) (hq t)⟩
  exact hat.trans ⟨fun he => (Option.some.inj he).symm, fun he => congrArg some he.symm⟩

theorem not_mem_nil_fst : x ∉ ([] : List Call).map Prod.fst := nofun

theorem not_mem_single {st : XCommandState} (hne : x ≠ y) : x ∉ [(y, st)].map Prod.fst := by
  intro hm
  exact hne (List.mem_singleton.1 hm)

theorem nodup_ends {pre : List HwCommand} {c : HwCommand} {st : XCommandState} (hn : pre.Nodup)
    (hc : c ∉ pre) : ((completions pre ++ [(XCommand.hardware c, st)]).map Prod.fst).Nodup := by
  rw [List.map_append, completions_fst]
  refine List.nodup_append.2 ⟨hardware_nodup hn, List.nodup_singleton _, fun z hz z' hz' => ?_⟩
  rw [List.mem_singleton.1 hz']
  obtain ⟨d, hd, rfl⟩ := List.mem_map.1 hz
  intro he
  exact hc (XCommand.hardware.inj he ▸ hd)

theorem not_mem_ends {pre : List HwCommand} {st : XCommandState}
    (hno : ∀ c ∈ pre, x ≠ .hardware c) (hne : x ≠ y) :
    x ∉ (completions pre ++ [(y, st)]).map Prod.fst := by
  rw [List.map_append, List.mem_append]
  exact not_or.2 ⟨not_mem_completions hno, not_mem_single hne⟩

theorem at_log {pre rest : List HwCommand} {c : HwCommand}
    (hl : f.m.cmdLog = pre ++ rest) (hc : c ∈ pre) : At f (.hardware c) .log :=
  ⟨c, by rw [hl]; exact List.mem_append_left _ hc, rfl⟩

/-- A command that is popped from the log. -/
theorem Inv.fate_popped (h : Inv listeners f) {pre rest : List HwCommand} {c : HwCommand}
    (hl : f.m.cmdLog = pre ++ rest) (hc : c ∈ pre) (hcs : (.hardware c, .completed) ∈ cs)
    (hb : m'.cmds = f.m.cmds) (hh : ∀ d, handOf m'.pc ≠ some (.hardware c, d))
    (hm : c ∉ m'.cmdLog) :
    Fate f (f.begins th (some .worker) cs m') th (some .worker) cs (.hardware c) := by
  have hq : At f (.hardware c) .log := at_log hl hc
  have hbuf : XCommand.hardware c ∉ m'.cmds := by
    rw [hb]; exact h.only (p := .buffer) hq nofun
  refine .called .log none .completed hq rfl ?_ hcs (by decide) nofun
  refine h.at_moved hq nofun nofun ?_ (fun d => ?_) ?_
  · exact ⟨fun he => absurd he hbuf, nofun⟩
  · exact ⟨fun he => absurd he (hh d), nofun⟩
  · refine ⟨?_, nofun⟩
    rintro ⟨d, hd, he⟩
    rw [XCommand.hardware.inj he] at hm
    exact absurd hd hm

theorem mem_log_pop {pre rest log : List HwCommand} (hl : log = pre ++ rest)
    (hx : ∀ c ∈ pre, x ≠ .hardware c) :
    (∃ c ∈ rest, x = .hardware c) ↔ ∃ c ∈ log, x = .hardware c := by
  rw [hl]
  constructor
  · rintro ⟨c, hc, rfl⟩
    exact ⟨c, List.mem_append_right _ hc, rfl⟩
  · rintro ⟨c, hc, rfl⟩
    exact ⟨c, (List.mem_append.1 hc).resolve_left fun hp => hx c hp rfl, rfl⟩

/-- A command that the worker has in hand neither before nor after. -/
theorem fate_others (hb : x ∈ m'.cmds ↔ x ∈ f.m.cmds) (hh' : ∀ d, handOf m'.pc ≠ some (x, d))
    (hh : ∀ d, handOf f.m.pc ≠ some (x, d))
    (hl : (∃ c ∈ m'.cmdLog, x = .hardware c) ↔ ∃ c ∈ f.m.cmdLog, x = .hardware c)
    (hc : x ∉ cs.map Prod.fst) : Fate f (f.begins th lock cs m') th lock cs x :=
  fate_same hb (fun d => ⟨fun he => absurd he (hh' d), fun he => absurd he (hh d)⟩) hl hc

/-- The places of a command that the worker has had in hand. -/
theorem Inv.at_hand (h : Inv listeners f) {d : XCommandState} {o : Option Place}
    (hq : At f x (.hand d)) (ho : o = none ∨ ∃ e, o = some (.hand e))
    (hb : x ∈ m'.cmds ↔ x ∈ f.m.cmds)
    (hh : ∀ e, handOf m'.pc = some (x, e) ↔ o = some (.hand e))
    (hl : (∃ c ∈ m'.cmdLog, x = .hardware c) ↔ ∃ c ∈ f.m.cmdLog, x = .hardware c) (p : Place) :
    At (f.begins th lock cs m') x p ↔ o = some p := by
  have hne (p : Place) (hp : ∀ e, p ≠ .hand e) : o ≠ some p := by
    intro he
    rcases ho with rfl | ⟨e, rfl⟩
    · cases he
    · exact hp e (Option.some.inj he).symm
  refine h.at_moved hq nofun (fun t => hne (.caller t) nofun) ?_ hh ?_ p
  · rw [hb]
    exact ⟨fun he => absurd he (h.only (p := .buffer) hq nofun),
      fun he => absurd he (hne .buffer nofun)⟩
  · rw [hl]
    exact ⟨fun he => absurd he (h.only (p := .log) hq nofun), fun he => absurd he (hne .log nofun)⟩

/-- The worker lets go of the command it has in hand. -/
theorem Inv.at_dropped (h : Inv listeners f) {d : XCommandState} (hq : At f x (.hand d))
    (hb : m'.cmds = f.m.cmds) (hpc' : handOf m'.pc = none)
    (hl : (∃ c ∈ m'.cmdLog, x = .hardware c) ↔ ∃ c ∈ f.m.cmdLog, x = .hardware c) (p : Place) :
    At (f.begins th lock cs m') x p ↔ none = some p := by
  refine h.at_hand hq (Or.inl rfl) (by rw [hb]) (fun e => ?_) hl p
  exact ⟨fun he => absurd he (hand_none hpc' e), nofun⟩

/-! ### The fates, region by region -/

theorem Inv.fate_dequeued (h : Inv listeners f) {rest : List XCommand} (hc : f.m.cmds = y :: rest)
    (hc' : m'.cmds = rest) (hl : m'.cmdLog = f.m.cmdLog) (hpc : handOf f.m.pc = none)
    (hpc' : handOf m'.pc = some (y, .pending)) (x : XCommand) :
    Fate f (f.begins th (some .cmdBuf) [] m') th (some .cmdBuf) [] x := by
  have hq : At f y .buffer := by
    show y ∈ f.m.cmds
    rw [hc]
    exact List.mem_cons_self
  have hrest : y ∉ m'.cmds := by
    have hnd := h.buffer
    rw [hc] at hnd
    rw [hc']
    exact (List.nodup_cons.1 hnd).1
  by_cases hx : x = y
  · subst hx
    refine .moved .buffer (some (.hand .pending)) hq rfl ?_ not_mem_nil_fst ?_
    · refine h.at_moved hq nofun nofun ⟨fun he => absurd he hrest, nofun⟩ (fun d => ?_) ?_
      · rw [hand_iff hpc']
        simp [eq_comm]
      · rw [hl]
        exact ⟨fun he => absurd he (h.only (p := .log) hq nofun), nofun⟩
    · intro p hp
      cases hp
      rfl
  · refine fate_others ?_ (hand_ne hpc' hx) (hand_none hpc) (by rw [hl]) not_mem_nil_fst
    rw [hc', hc]
    simp [hx]

theorem Inv.fate_generated (h : Inv listeners f) (hw : th = .worker) (hy : y.hw? = none)
    (hid : y.id = f.m.nextId) (hn : m'.nextId = f.m.nextId + 1) (hc : m'.cmds = f.m.cmds)
    (hl : m'.cmdLog = f.m.cmdLog) (hpc : handOf f.m.pc = none)
    (hpc' : handOf m'.pc = some (y, .pending)) (x : XCommand) :
    Fate f (f.begins th lock [(y, .pending)] m') th lock [(y, .pending)] x := by
  have hnew : ¬ Known f y := fresh_unknown hy hid
  by_cases hx : x = y
  · subst hx
    refine .made (.hand .pending) hnew (fresh_known hy hid hn) ?_ hw (List.mem_singleton.2 rfl)
    refine h.at_made hnew nofun ?_ (fun d => ?_) ?_
    · rw [hc]
      exact ⟨fun he => absurd he (h.nowhere hnew .buffer), nofun⟩
    · rw [hand_iff hpc']
      simp [eq_comm]
    · rw [hl]
      exact ⟨fun he => absurd he (h.nowhere hnew .log), nofun⟩
  · exact fate_others (by rw [hc]) (hand_ne hpc' hx) (hand_none hpc) (by rw [hl])
      (not_mem_single hx)

theorem Inv.fate_started (h : Inv listeners f) (hw : th = .worker) (hb : m'.cmds = f.m.cmds)
    (hl : m'.cmdLog = f.m.cmdLog) (hpc : handOf f.m.pc = some (y, .pending))
    (hpc' : handOf m'.pc = some (y, .inFlight)) (x : XCommand) :
    Fate f (f.begins th lock [(y, .inFlight)] m') th lock [(y, .inFlight)] x := by
  have hq : At f y (.hand .pending) := hpc
  by_cases hx : x = y
  · subst hx
    refine .called (.hand .pending) (some (.hand .inFlight)) .inFlight hq hw ?_
      (List.mem_singleton.2 rfl) (by decide) ?_
    · refine h.at_hand hq (Or.inr ⟨_, rfl⟩) (by rw [hb]) (fun d => ?_) (by rw [hl])
      rw [hand_iff hpc']
      simp [eq_comm]
    · intro p hp
      cases hp
      exact ⟨rfl, hw⟩
  · exact fate_others (by rw [hb]) (hand_ne hpc' hx) (hand_ne hpc hx) (by rw [hl])
      (not_mem_single hx)

theorem Inv.fate_left (h : Inv listeners f) (hw : th = .worker) {d : XCommandState}
    (hb : m'.cmds = f.m.cmds) (hl : m'.cmdLog = f.m.cmdLog) (hpc : handOf f.m.pc = some (y, d))
    (hpc' : handOf m'.pc = none) (x : XCommand) : Fate f (f.begins th lock [] m') th lock [] x := by
  have hq : At f y (.hand d) := hpc
  by_cases hx : x = y
  · subst hx
    exact .moved (.hand d) none hq hw (h.at_dropped hq hb hpc' (by rw [hl])) not_mem_nil_fst nofun
  · exact fate_others (by rw [hb]) (hand_none hpc') (hand_ne hpc hx) (by rw [hl]) not_mem_nil_fst

theorem Inv.fate_completed (h : Inv listeners f) (hw : th = .worker) {d : XCommandState}
    (hb : m'.cmds = f.m.cmds) (hl : m'.cmdLog = f.m.cmdLog) (hpc : handOf f.m.pc = some (y, d))
    (hpc' : handOf m'.pc = none) (x : XCommand) :
    Fate f (f.begins th lock [(y, .completed)] m') th lock [(y, .completed)] x := by
  have hq : At f y (.hand d) := hpc
  by_cases hx : x = y
  · subst hx
    exact .called (.hand d) none .completed hq hw (h.at_dropped hq hb hpc' (by rw [hl]))
      (List.mem_singleton.2 rfl) (XCommandState.val_le _) nofun
  · exact fate_others (by rw [hb]) (hand_none hpc') (hand_ne hpc hx) (by rw [hl])
      (not_mem_single hx)

theorem Inv.fate_dropped (h : Inv listeners f) (hw : th = .worker) {pre : List HwCommand}
    {c : HwCommand} (hb : m'.cmds = f.m.cmds) (hl : f.m.cmdLog = pre ++ m'.cmdLog)
    (hpc : handOf f.m.pc = some (.hardware c, .pending)) (hpc' : handOf m'.pc = none)
    (hcs : cs = completions pre ++ [(.hardware c, .completed)]) (x : XCommand) :
    Fate f (f.begins th (some .worker) cs m') th (some .worker) cs x := by
  have hnd := h.log
  rw [hl] at hnd
  have hq : At f (.hardware c) (.hand .pending) := hpc
  subst hcs
  by_cases hx : ∃ d ∈ pre, x = .hardware d
  · obtain ⟨d, hd, rfl⟩ := hx
    refine h.fate_popped hl hd (List.mem_append_left _ (mem_completions hd)) hb
      (fun e => hand_none hpc' e) fun hm => ?_
    exact (List.nodup_append.1 hnd).2.2 d hd d hm rfl
  · have hno (d : HwCommand) (hd : d ∈ pre) : x ≠ .hardware d := fun he => hx ⟨d, hd, he⟩
    by_cases hxc : x = .hardware c
    · subst hxc
      exact .called (.hand .pending) none .completed hq hw
        (h.at_dropped hq hb hpc' (mem_log_pop hl hno))
        (List.mem_append_right _ (List.mem_singleton.2 rfl)) (by decide) nofun
    · exact fate_others (by rw [hb]) (hand_none hpc') (hand_ne hpc hxc) (mem_log_pop hl hno)
        (not_mem_ends hno hxc)

theorem Inv.fate_launched (h : Inv listeners f) (hw : th = .worker) {pre rest : List HwCommand}
    {c : HwCommand} (hb : m'.cmds = f.m.cmds) (hl : f.m.cmdLog = pre ++ rest)
    (hl' : m'.cmdLog = rest ++ [c]) (hpc : handOf f.m.pc = some (.hardware c, .pending))
    (hpc' : handOf m'.pc = none) (hcs : cs = completions pre ++ [(.hardware c, .inFlight)])
    (hcl : c ∉ pre) (x : XCommand) :
    Fate f (f.begins th (some .worker) cs m') th (some .worker) cs x := by
  have hnd := h.log
  rw [hl] at hnd
  have hq : At f (.hardware c) (.hand .pending) := hpc
  subst hcs
  by_cases hx : ∃ d ∈ pre, x = .hardware d
  · obtain ⟨d, hd, rfl⟩ := hx
    refine h.fate_popped hl hd (List.mem_append_left _ (mem_completions hd)) hb
      (fun e => hand_none hpc' e) fun hm => ?_
    rw [hl', List.mem_append, List.mem_singleton] at hm
    rcases hm with hm | rfl
    · exact (List.nodup_append.1 hnd).2.2 d hd d hm rfl
    · exact hcl hd
  · have hno (d : HwCommand) (hd : d ∈ pre) : x ≠ .hardware d := fun he => hx ⟨d, hd, he⟩
    by_cases hxc : x = .hardware c
    · subst hxc
      refine .called (.hand .pending) (some .log) .inFlight hq hw ?_
        (List.mem_append_right _ (List.mem_singleton.2 rfl)) (by decide) ?_
      · refine h.at_moved hq nofun nofun ?_ (fun e => ?_) ?_
        · rw [hb]
          exact ⟨fun he => absurd he (h.only (p := .buffer) hq nofun), nofun⟩
        · exact ⟨fun he => absurd he (hand_none hpc' e), nofun⟩
        · refine ⟨fun _ => rfl, fun _ => ⟨c, ?_, rfl⟩⟩
          rw [hl']
          exact List.mem_append_right _ (List.mem_singleton.2 rfl)
      · intro p hp
        cases hp
        exact ⟨rfl, rfl⟩
    · refine fate_others (by rw [hb]) (hand_none hpc') (hand_ne hpc hxc) ?_ (not_mem_ends hno hxc)
      rw [← mem_log_pop hl hno, hl']
      simp [hxc]

theorem Inv.fate_waitAllFresh (h : Inv listeners f) (hy : y.hw? = none) (hid : y.id = f.m.nextId)
    (hn : m'.nextId = f.m.nextId + 1) (hc : m'.cmds = f.m.cmds ++ [y])
    (hl : m'.cmdLog = f.m.cmdLog) (hpc : handOf m'.pc = handOf f.m.pc) (x : XCommand) :
    Fate f (f.begins th (some .cmdBuf) [(y, .pending)] m') th (some .cmdBuf) [(y, .pending)] x := by
  have hnew : ¬ Known f y := fresh_unknown hy hid
  by_cases hx : x = y
  · subst hx
    refine .made .buffer hnew (fresh_known hy hid hn) ?_ rfl (List.mem_singleton.2 rfl)
    refine h.at_made hnew nofun ?_ (fun d => ?_) ?_
    · rw [hc]
      simp
    · rw [hpc]
      exact ⟨fun he => absurd he (h.nowhere hnew (.hand d)), nofun⟩
    · rw [hl]
      exact ⟨fun he => absurd he (h.nowhere hnew .log), nofun⟩
  · refine fate_same ?_ (fun d => by rw [hpc]) (by rw [hl]) (not_mem_single hx)
    rw [hc]
    simp [hx]

theorem all_completed_fst (cs : List XCommand) :
    (cs.map fun x => (x, XCommandState.completed)).map Prod.fst = cs := by
  rw [List.map_map]
  exact List.map_id _

theorem Inv.fate_droppedAll (h : Inv listeners f) (hc : m'.cmds = []) (hl : m'.cmdLog = f.m.cmdLog)
    (hpc : handOf m'.pc = handOf f.m.pc) (hcs : cs = f.m.cmds.map fun x => (x, .completed))
    (x : XCommand) : Fate f (f.begins th (some .cmdBuf) cs m') th (some .cmdBuf) cs x := by
  subst hcs
  by_cases hx : x ∈ f.m.cmds
  · have hq : At f x .buffer := hx
    refine .called .buffer none .completed hq rfl ?_ (List.mem_map_of_mem hx) (by decide) nofun
    refine h.at_moved hq nofun nofun ?_ (fun d => ?_) ?_
    · rw [hc]
      exact ⟨nofun, nofun⟩
    · rw [hpc]
      exact ⟨fun he => absurd he (h.only (p := .hand d) hq nofun), nofun⟩
    · rw [hl]
      exact ⟨fun he => absurd he (h.only (p := .log) hq nofun), nofun⟩
  · refine fate_same ?_ (fun d => by rw [hpc]) (by rw [hl]) (by rw [all_completed_fst]; exact hx)
    rw [hc]
    exact ⟨nofun, fun he => absurd he hx⟩

/-- The command that the worker has in hand is not in the log. -/
theorem Inv.hand_not_logged (h : Inv listeners f) {c : HwCommand} {d : XCommandState}
    (hpc : handOf f.m.pc = some (.hardware c, d)) : c ∉ f.m.cmdLog := by
  have hq : At f (.hardware c) (.hand d) := hpc
  exact fun hc => h.only (p := .log) hq nofun ⟨c, hc, rfl⟩

theorem Inv.fate_opening (h : Inv listeners f) {w : Bool} (hw : w = true → th = .worker)
    (ho : Opening f.m m' w lock cs) (x : XCommand) :
    Fate f (f.begins th lock cs m') th lock cs x := by
  cases ho with
  | quiet _ _ ha hl hpc =>
    exact fate_same (by rw [ha.cmds]) (fun d => by rw [hpc]) (by rw [hl]) not_mem_nil_fst
  | dequeued y rest hn he hc hc' hl hpc hpc' => exact h.fate_dequeued hc hc' hl hpc hpc' x
  | generated y hy hid hn he hc hl hpc hpc' =>
    exact h.fate_generated (hw rfl) hy hid hn hc hl hpc hpc' x
  | started y ha hl hpc hpc' => exact h.fate_started (hw rfl) ha.cmds hl hpc hpc' x
  | left y d ha hl hpc hpc' => exact h.fate_left (hw rfl) ha.cmds hl hpc hpc' x
  | completed y d ha hl hpc hpc' => exact h.fate_completed (hw rfl) ha.cmds hl hpc hpc' x
  | popped _ pre ha hl hpc =>
    have hnd := h.log
    rw [hl] at hnd
    by_cases hx : ∃ c ∈ pre, x = .hardware c
    · obtain ⟨c, hc, rfl⟩ := hx
      refine h.fate_popped hl hc (mem_completions hc) ha.cmds (fun d he => ?_) fun hm => ?_
      · rw [hpc] at he
        exact h.only (p := .hand d) (at_log hl hc) nofun he
      · exact (List.nodup_append.1 hnd).2.2 c hc c hm rfl
    · have hno (c : HwCommand) (hc : c ∈ pre) : x ≠ .hardware c := fun he => hx ⟨c, hc, he⟩
      exact fate_same (by rw [ha.cmds]) (fun d => by rw [hpc]) (mem_log_pop hl hno)
        (not_mem_completions hno)
  | dropped pre c ha hl hpc hpc' => exact h.fate_dropped (hw rfl) ha.cmds hl hpc hpc' rfl x
  | launched pre rest c ha hl hl' hpc hpc' =>
    have hcl := h.hand_not_logged hpc
    rw [hl, List.mem_append, not_or] at hcl
    exact h.fate_launched (hw rfl) ha.cmds hl hl' hpc hpc' rfl hcl.1 x
  | waitAllFresh y hy hid hn he hc hl hpc => exact h.fate_waitAllFresh hy hid hn hc hl hpc x
  | droppedAll hn he hc hl hpc => exact h.fate_droppedAll hc hl hpc rfl x

/-! ### What a region leaves -/

theorem opening_nextId {m : State} {w : Bool} (ho : Opening m m' w lock cs) :
    m.nextId ≤ m'.nextId := by
  cases ho with
  | quiet _ _ ha hl hpc => exact Nat.le_of_eq ha.nextId.symm
  | dequeued y rest hn => exact Nat.le_of_eq hn.symm
  | generated y hy hid hn => omega
  | started y ha => exact Nat.le_of_eq ha.nextId.symm
  | left y d ha => exact Nat.le_of_eq ha.nextId.symm
  | completed y d ha => exact Nat.le_of_eq ha.nextId.symm
  | popped _ pre ha => exact Nat.le_of_eq ha.nextId.symm
  | dropped pre c ha => exact Nat.le_of_eq ha.nextId.symm
  | launched pre rest c ha => exact Nat.le_of_eq ha.nextId.symm
  | waitAllFresh y hy hid hn => omega
  | droppedAll hn => exact Nat.le_of_eq hn.symm

/-- Every command has one call at most. -/
theorem Inv.opening_calls (h : Inv listeners f) {w : Bool} (ho : Opening f.m m' w lock cs) :
    (cs.map Prod.fst).Nodup := by
  have hlog := h.log
  cases ho with
  | quiet | dequeued | left => exact List.nodup_nil
  | generated | started | completed | waitAllFresh => exact List.nodup_singleton _
  | popped _ pre ha hl hpc =>
    rw [hl] at hlog
    rw [completions_fst]
    exact hardware_nodup (List.nodup_append.1 hlog).1
  | dropped pre c ha hl hpc hpc' =>
    have hcl := h.hand_not_logged hpc
    rw [hl, List.mem_append, not_or] at hcl
    rw [hl] at hlog
    exact nodup_ends (List.nodup_append.1 hlog).1 hcl.1
  | launched pre rest c ha hl hl' hpc hpc' =>
    have hcl := h.hand_not_logged hpc
    rw [hl, List.mem_append, not_or] at hcl
    rw [hl] at hlog
    exact nodup_ends (List.nodup_append.1 hlog).1 hcl.1
  | droppedAll hn he hc hl hpc =>
    rw [all_completed_fst]
    exact h.buffer

theorem Inv.opening_buffer (h : Inv listeners f) {w : Bool} (ho : Opening f.m m' w lock cs) :
    m'.cmds.Nodup := by
  have hbuffer := h.buffer
  cases ho with
  | dequeued y rest hn he hc hc' hl hpc hpc' =>
    rw [hc] at hbuffer
    rw [hc']
    exact (List.nodup_cons.1 hbuffer).2
  | generated y hy hid hn he hc hl hpc hpc' => rwa [hc]
  | waitAllFresh y hy hid hn he hc hl hpc =>
    rw [hc, ← List.concat_eq_append]
    exact hbuffer.concat (h.nowhere (fresh_unknown hy hid) .buffer)
  | droppedAll hn he hc hl hpc =>
    rw [hc]
    exact List.nodup_nil
  | quiet _ _ ha | started y ha | left y d ha | completed y d ha | popped _ pre ha
  | dropped pre c ha | launched pre rest c ha => rwa [ha.cmds]

theorem Inv.opening_log (h : Inv listeners f) {w : Bool} (ho : Opening f.m m' w lock cs) :
    m'.cmdLog.Nodup := by
  have hlog := h.log
  cases ho with
  | popped _ pre ha hl | dropped pre c ha hl =>
    rw [hl] at hlog
    exact (List.nodup_append.1 hlog).2.1
  | launched pre rest c ha hl hl' hpc hpc' =>
    have hcl := h.hand_not_logged hpc
    rw [hl, List.mem_append, not_or] at hcl
    rw [hl] at hlog
    rw [hl', ← List.concat_eq_append]
    exact (List.nodup_append.1 hlog).2.1.concat hcl.2
  | quiet _ _ ha hl | dequeued y rest hn he hc hc' hl | generated y hy hid hn he hc hl
  | started y ha hl | left y d ha hl | completed y d ha hl | waitAllFresh y hy hid hn he hc hl
  | droppedAll hn he hc hl => rwa [hl]

/-- Every region of the machine keeps the invariant. -/
theorem Inv.opening (h : Inv listeners f) {w : Bool} (hfree : f.Free th)
    (hlock : ∀ l, lock = some l → f.owner l = none) (hw : w = true → th = .worker)
    (hok : PcOk m'.pc) (ho : Opening f.m m' w lock cs) :
    Inv listeners (f.begins th lock cs m') := by
  have hbuffer : m'.cmds.Nodup := h.opening_buffer ho
  have hlog : m'.cmdLog.Nodup := h.opening_log ho
  refine h.begins hfree hlock rfl (fun l => rfl) (h.opening_calls ho) (h.fate_opening hw ho)
    (fun x hk => ?_) hbuffer hlog hok
  have hs : f.submitted ⊆ (f.begins th lock cs m').submitted := fun _ hc => hc
  have hnext : f.m.nextId ≤ m'.nextId := opening_nextId ho
  exact known_of_next hs hnext hk

end

/-! ## All steps -/

/-- The lock a region takes is free, and so is the thread. -/
theorem Inv.region {cfg : Config} {a : Act} (h : Inv listeners f) (hs : region cfg th a f = some f') :
    Inv listeners f' := by
  unfold LifeCycle.region at hs
  split at hs
  · rename_i hguard
    obtain ⟨hfree, hmay, hlock⟩ := hguard
    obtain ⟨m', hstep, rfl⟩ := Option.map_eq_some_iff.1 hs
    have hnone : enqueues f.m a = none := by
      cases a with
      | submit c => cases th <;> exact hmay.elim
      | enqueueHostFunction => cases th <;> exact hmay.elim
      | enqueueDestroy => cases th <;> exact hmay.elim
      | _ => rfl
    have hworker : Act.isWorker a = true → th = .worker := by
      intro hw
      cases a with
      | worker b =>
        cases th with
        | worker => rfl
        | client u => exact hmay.elim
      | _ => cases hw
    have hok := pcOk_step h.pcOk (step_cases h.pcOk hstep).2
    exact h.opening hfree hlock hworker hok (opens_step h.pcOk hstep hnone).1
  · cases hs

/-- What `Enqueue` does before it takes the lock: thread `t` has the new command
`x`, which nothing knew. -/
structure Entered (f f' : Fine) (t : Nat) (x : XCommand) : Prop where
  free : f.Free (.client t)
  unknown : ¬ Known f x
  known : Known f' x
  next : f.m.nextId ≤ f'.m.nextId
  submitted : f.submitted ⊆ f'.submitted
  place : ∀ y u, f'.enq u = some y ↔ f.enq u = some y ∨ u = t ∧ y = x
  m : f'.m = { numbered x f.m with cmdState := f.m.cmdState }
  notify : f'.notify = f.notify.take (.client t) [(x, .pending)]
  owner : f'.owner = f.owner

/-- An object is made by the call, with the next number. -/
theorem enqueues_id {a : Act} {x : XCommand} (hx : enqueues f.m a = some x) (hn : x.hw? = none) :
    x.id = f.m.nextId := by
  cases a with
  | submit c =>
    cases hx
    cases hn
  | enqueueHostFunction | enqueueDestroy =>
    cases hx
    rfl
  | _ => cases hx

theorem calls_enqueues {cfg : Config} {a : Act} {x : XCommand} (hx : enqueues f.m a = some x) :
    calls cfg f.m a = [(x, .pending)] := by
  cases a with
  | submit c =>
    cases hx
    rfl
  | enqueueHostFunction | enqueueDestroy =>
    cases hx
    rfl
  | _ => cases hx

theorem entered_of {cfg : Config} {t : Nat} {a : Act} (hs : enter cfg t a f = some f') :
    ∃ x, Entered f f' t x := by
  unfold LifeCycle.enter at hs
  split at hs
  · rename_i hguard
    obtain ⟨hfree, -, henq, -⟩ := hguard
    split at hs
    · cases hs
    · rename_i x hx
      split at hs
      · rename_i hnew
        rw [calls_enqueues hx] at hs
        cases hs
        refine ⟨x, hfree, ?_, ?_, ?_, fun c hc => List.mem_append_left _ hc, fun y u => ?_, rfl, rfl,
          rfl⟩
        · cases hn : x.hw? with
          | none => exact fresh_unknown hn (enqueues_id hx hn)
          | some c =>
            cases x with
            | hardware d => exact (hnew d rfl).2
            | _ => cases hn
        · cases x with
          | hardware c => exact List.mem_append_right _ (List.mem_singleton.2 rfl)
          | _ =>
            show XCommand.id _ < f.m.nextId + 1
            rw [enqueues_id hx rfl]
            exact Nat.lt_succ_self _
        · show f.m.nextId ≤ if x.hw? = none then f.m.nextId + 1 else f.m.nextId
          split <;> omega
        · show Function.update f.enq t (some x) u = some y ↔ _
          by_cases hu : u = t
          · subst hu
            rw [Function.update_self, henq, Option.some.injEq]
            simp [eq_comm]
          · rw [Function.update_of_ne hu]
            simp [hu]
      · cases hs
  · cases hs

theorem Inv.fate_entered {t : Nat} {x : XCommand} (h : Inv listeners f) (he : Entered f f' t x)
    (y : XCommand) : Fate f f' (.client t) none [(x, .pending)] y := by
  by_cases hy : y = x
  · subst hy
    refine .made (.caller t) he.unknown he.known (fun p => ?_) rfl (List.mem_singleton.2 rfl)
    have hno := h.nowhere he.unknown p
    cases p with
    | caller u =>
      refine (he.place y u).trans ⟨fun hu => ?_, fun hu => ?_⟩
      · rcases hu with hu | hu
        · exact absurd hu hno
        · rw [hu.1]
      · cases hu
        exact .inr ⟨rfl, rfl⟩
    | buffer | hand d | log =>
      rw [At, he.m]
      exact ⟨fun hp => absurd hp hno, nofun⟩
  · refine .same (at_congr (fun u => ?_) (by rw [he.m]; rfl) (fun d => by rw [he.m]; rfl)
      (by rw [he.m]; rfl)) (not_mem_single hy)
    rw [he.place]
    simp [hy]

theorem Inv.enter {cfg : Config} {t : Nat} {a : Act} (h : Inv listeners f)
    (hs : enter cfg t a f = some f') : Inv listeners f' := by
  obtain ⟨x, he⟩ := entered_of hs
  have hown (l : Lock) :
      f'.owner l = if (none : Option Lock) = some l then some (.client t) else f.owner l := by
    rw [he.owner]
    rfl
  have hlock : ∀ l, (none : Option Lock) = some l → f.owner l = none := nofun
  refine h.begins he.free hlock he.notify hown (List.nodup_singleton _) (h.fate_entered he)
    (fun y hk => known_of_next he.submitted he.next hk) ?_ ?_ ?_
  · rw [he.m]
    exact h.buffer
  · rw [he.m]
    exact h.log
  · rw [he.m]
    exact h.pcOk

theorem Inv.insert {t : Nat} (h : Inv listeners f) (hs : insert t f = some f') :
    Inv listeners f' := by
  unfold LifeCycle.insert at hs
  split at hs
  · cases hs
  · rename_i x hx
    split at hs
    · rename_i hguard
      obtain ⟨hfree, howner, -⟩ := hguard
      simp only [Option.some.injEq] at hs
      have hq : At f x (.caller t) := hx
      have hcmds : f'.m.cmds = f.m.cmds ++ [x] := by subst hs; rfl
      have hlog : f'.m.cmdLog = f.m.cmdLog := by subst hs; rfl
      have hpc : f'.m.pc = f.m.pc := by subst hs; rfl
      have hid : f'.m.nextId = f.m.nextId := by subst hs; rfl
      have hsub : f'.submitted = f.submitted := by subst hs; rfl
      have henq (u : Nat) : f'.enq u = if u = t then none else f.enq u := by
        subst hs; exact Function.update_apply _ _ _ _
      have hn : f'.notify = f.notify.take (.client t) [] := by subst hs; rfl
      have hown (l : Lock) :
          f'.owner l = if some Lock.cmdBuf = some l then some (.client t) else f.owner l := by
        subst hs; rfl
      refine h.begins hfree (fun l hl => by cases hl; exact howner) hn hown List.nodup_nil
        (fun y => ?_)
        (fun y hk => known_of_next (by rw [hsub]; exact List.Subset.refl _) (by rw [hid]) hk)
        ?_ (by rw [hlog]; exact h.log) (by rw [hpc]; exact h.pcOk)
      · by_cases hy : y = x
        · subst hy
          refine .moved (.caller t) (some .buffer) hq rfl (at_iff (fun u => ?_) ?_ (fun d => ?_) ?_)
            not_mem_nil_fst (fun p hp => by cases hp; rfl)
          · rw [henq]
            split
            · exact ⟨nofun, nofun⟩
            · rename_i hu
              refine ⟨fun he => ?_, nofun⟩
              exact absurd he (h.only (p := .caller u) hq fun he => hu (Place.caller.inj he))
          · rw [hcmds]; simp
          · rw [hpc]
            exact ⟨fun he => absurd he (h.only (p := .hand d) hq nofun), nofun⟩
          · rw [hlog]
            exact ⟨fun he => absurd he (h.only (p := .log) hq nofun), nofun⟩
        · refine .same (at_congr (fun u => ?_) ?_ (fun d => by rw [hpc]) (by rw [hlog]))
            not_mem_nil_fst
          · rw [henq]
            split
            · rename_i hu
              rw [hu, hx]
              exact ⟨nofun, fun he => absurd (Option.some.inj he).symm hy⟩
            · exact Iff.rfl
          · rw [hcmds]; simp [hy]
      · rw [hcmds, ← List.concat_eq_append]
        exact h.buffer.concat (h.only (p := .buffer) hq nofun)
    · cases hs

/-- A call begins, or a listener is told. -/
theorem Inv.tick (h : Inv listeners f)
    (hs : (f.notify.tick ladder listeners th).map f.put = some f') : Inv listeners f' := by
  obtain ⟨n, hn, rfl⟩ := Option.map_eq_some_iff.1 hs
  have hnot : (f.put n).notify = n := rfl
  have hat {x : XCommand} {p : Place} (ha : At (f.put n) x p) : At f x p := by
    cases p <;> exact ha
  have hknown {x : XCommand} (hk : ¬ Known (f.put n) x) : ¬ Known f x := by
    cases x <;> exact hk
  refine ⟨?_, fun hp hq => h.one (hat hp) (hat hq), fun hp => ?_, h.buffer, h.log, fun hp => ?_,
    fun {t x p} hb hp => ?_, fun {t x} hb => ?_, fun {x} hx => ?_, h.pcOk⟩
  · rw [hnot]; exact h.notify.tick hn
  · rename_i x p
    have hk := h.known (hat hp)
    cases x <;> exact hk
  · rw [hnot]
    exact h.notify.settles_tick (h.due (hat hp)) hn
  · rw [hnot] at hb
    have hg := h.guard (Notify.busy_tick hn hb) (hat hp)
    cases p <;> exact hg
  · rw [hnot] at hb
    have hk := h.busy (Notify.busy_tick hn hb)
    cases x <;> exact hk
  · have hidle : ¬ f.notify.Busy th x := fun hb => hknown hx (h.busy hb)
    exact (Notify.cur_tick hn hidle).trans (h.fresh (hknown hx))

theorem Inv.unlock {l : Lock} (h : Inv listeners f) (hs : unlock l f = some f') :
    Inv listeners f' := by
  unfold LifeCycle.unlock at hs
  split at hs
  · cases hs
  · rename_i t ho
    split at hs
    · rename_i htask
      simp only [Option.some.injEq] at hs; subst hs
      have hidle (x : XCommand) : ¬ f.notify.Busy t x := by
        have ht : f.notify.task t = .none _ _ := htask
        unfold Notify.State.Busy Notify.State.Tells
        rw [ht]
        rintro (hm | ⟨note, hm, -⟩) <;> cases hm
      -- who is busy holds another lock
      have hkeep {k : Lock} {u : Thread} {x : XCommand} (hb : f.notify.Busy u x)
          (hk : f.owner k = some u) : Function.update f.owner l none k = some u := by
        rw [Function.update_of_ne]
        · exact hk
        · rintro rfl
          rw [ho] at hk
          cases hk
          exact hidle x hb
      refine ⟨h.notify, fun {x p q} hp hq => ?_, fun {x p} hp => ?_, h.buffer, h.log,
        fun {x p} hp => ?_, fun {u x p} hb hp => ?_, fun {u x} hb => ?_, fun {x} hx => ?_, h.pcOk⟩
      · exact h.one (by cases p <;> exact hp) (by cases q <;> exact hq)
      · have hk : Known f x := h.known (p := p) (by cases p <;> exact hp)
        cases x <;> exact hk
      · exact h.due (by cases p <;> exact hp)
      · have hg := h.guard hb (p := p) (by cases p <;> exact hp)
        cases p with
        | caller v => exact hg
        | buffer => exact hkeep hb hg
        | hand d => exact hg
        | log => exact hkeep hb hg
      · have hk : Known f x := h.busy hb
        cases x <;> exact hk
      · exact h.fresh (by cases x <;> exact hx)
    · cases hs

theorem Inv.step {cfg : Config} {a : FineAct} (h : Inv listeners f)
    (hs : fineStep listeners cfg f a = some f') : Inv listeners f' := by
  unfold fineStep at hs
  split at hs
  · cases hs
  · cases a with
    | region th a => exact h.region hs
    | enter t a => exact h.enter hs
    | insert t => exact h.insert hs
    | tick th => exact h.tick hs
    | unlock l => exact h.unlock hs

theorem inv_start (listeners : XCommand → Nat) : Inv listeners (start listeners) := by
  have hidle (th : Thread) (x : XCommand) : ¬ (start listeners).notify.Busy th x := by
    rintro (hm | ⟨note, hm, -⟩) <;> cases hm
  have hplace {x : XCommand} {p : Place} (hp : At (start listeners) x p) :
      p = .buffer ∧ x = .xQueueWaitAll 0 := by
    cases p with
    | caller t => cases hp
    | buffer => exact ⟨rfl, List.mem_singleton.1 hp⟩
    | hand d => cases hp
    | log => obtain ⟨c, hc, -⟩ := hp; cases hc
  have hother {x : XCommand} (hx : x ≠ .xQueueWaitAll 0) : init.cmdState x = .created := by
    show Function.update (fun _ => XCommandState.created) (.xQueueWaitAll 0) .pending x = _
    exact Function.update_of_ne hx _ _
  refine ⟨Notify.Inv.idle (fun _ => rfl) (fun x l hl => ?_) rfl, fun hp hq => ?_, fun hp => ?_,
    List.nodup_singleton _, List.nodup_nil, fun hp => ?_, fun hb => absurd hb (hidle _ _),
    fun hb => absurd hb (hidle _ _), fun hx => ?_, trivial⟩
  · by_cases hx : x = .xQueueWaitAll 0
    · subst hx
      exact Notify.toldBy_notesFor hl _ _
    · show Notify.toldBy _ x l = ladder.passed .created (init.cmdState x)
      rw [hother hx, ladder.passed_self]
      refine Notify.toldBy_other (fun note hm => ?_) l
      rw [Notify.notesFor_obj hm]
      exact Ne.symm hx
  · rw [(hplace hp).1, (hplace hq).1]
  · rw [(hplace hp).2]
    exact Nat.one_pos
  · obtain ⟨rfl, rfl⟩ := hplace hp
    have hno (t : Thread) : XCommand.xQueueWaitAll 0 ∉
        ((start listeners).notify.task t).calls.map Prod.fst := nofun
    exact .inr ⟨hno, rfl⟩
  · refine hother ?_
    rintro rfl
    exact hx Nat.one_pos

theorem inv_reachable {cfg : Config} (hr : (fine listeners cfg).Reachable f) : Inv listeners f := by
  have hind : (fine listeners cfg).Inductive (Inv listeners) :=
    ⟨fun s hs => by rw [hs]; exact inv_start listeners, fun _ _ _ hi hs => hi.step hs⟩
  exact hind.reachable f hr

/-! ## Results -/

/-- Thread `th` is in a `SetState` of `x`, between the change of the state and
the end of the loop over the listeners. -/
def Fine.Telling (f : Fine) (th : Thread) (x : XCommand) : Prop := f.notify.Tells th x

/-- The states listener `l` of `x` has been called with, oldest first. -/
def Fine.heardBy (f : Fine) (x : XCommand) (l : Nat) : List XCommandState :=
  Notify.toldBy f.heard x l

/-- From Pending to `st`, in increasing order. -/
def statesUpTo (st : XCommandState) : List XCommandState :=
  [.pending, .inFlight, .completed].take st.val

theorem passed_created (st : XCommandState) : passed .created st = statesUpTo st := by
  cases st <;> rfl

/-- **The life of an XCommand.** In every state that any run reaches no
`SetState` has gone back, and every listener of every command has been called
with the states from Pending on, in increasing order and once each, up to the
command's state except for those a thread is about to tell it. -/
theorem command_life_cycle (listeners : XCommand → Nat) (cfg : Config) (f : Fine)
    (hr : (fine listeners cfg).Reachable f) :
    f.failed = false ∧ ∀ x l, l < listeners x →
      f.heardBy x l <+: statesUpTo (f.m.cmdState x) ∧
      ((∀ th, ¬ f.Telling th x) → f.heardBy x l = statesUpTo (f.m.cmdState x)) := by
  have h := inv_reachable hr
  refine ⟨h.notify.failed, fun x l hl => ⟨?_, fun hq => ?_⟩⟩
  · rw [← passed_created]
    exact h.notify.prefix hl
  · rw [← passed_created]
    exact h.notify.quiet hl hq

/-- One thread submits a HwCommand with a listener, another drops it. -/
def droppedTrace : List FineAct :=
  [.enter 0 (.submit (halCmd 1)), .tick (.client 0), .tick (.client 0), .insert 0, .unlock .cmdBuf,
   .region (.client 1) .dropAll, .tick (.client 1), .tick (.client 1), .tick (.client 1),
   .tick (.client 1), .tick (.client 1), .tick (.client 1), .unlock .cmdBuf]

theorem command_life_cycle_dropped : ∃ f : Fine,
    f.m.cmdState (.hardware (halCmd 1)) = .completed ∧
    f.heardBy (.hardware (halCmd 1)) 0 = [.pending, .inFlight, .completed] ∧
    f.failed = false ∧ ∀ x l, l < 1 →
      f.heardBy x l <+: statesUpTo (f.m.cmdState x) ∧
      ((∀ th, ¬ f.Telling th x) → f.heardBy x l = statesUpTo (f.m.cmdState x)) := by
  have htrace : ((LTS.exec (fineStep (fun _ => 1) cfgOne) (start fun _ => 1) droppedTrace).map
      fun f => (f.m.cmdState (.hardware (halCmd 1)), f.heardBy (.hardware (halCmd 1)) 0)) =
      some (.completed, [.pending, .inFlight, .completed]) := by decide +kernel
  obtain ⟨f, hf, he⟩ := Option.map_eq_some_iff.1 htrace
  have hr : (fine (fun _ => 1) cfgOne).Reachable f := LTS.reachable_of_exec rfl hf
  exact ⟨f, congrArg Prod.fst he, congrArg Prod.snd he, command_life_cycle _ cfgOne f hr⟩

end Xsched.Preempt.LifeCycle
