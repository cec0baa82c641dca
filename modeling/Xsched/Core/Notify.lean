import Mathlib.Data.List.Nodup
import Mathlib.Logic.Function.Basic

/-!
# State changes that are told to listeners

Objects with a state that only moves up a ladder, threads that move it, and
listeners that are told of every state an object passes. Moving an object is
a *call*: it changes the state in one step, then tells the listeners one by
one, and everything may happen in between. A thread takes on a list of calls
and works it off (`tick`).

The order in which listeners hear of the states is not protected by any lock
of the object, so it depends on who takes on which calls. The rule is that a
thread takes on a call only for an object no thread is busy with (`Inv.take`).
Under it no call moves an object down (`Inv.failed`), and a listener has
heard exactly the states passed so far, in order, except for those a thread
is about to tell (`Inv.prefix`, `Inv.quiet`).
-/
namespace Xsched.Notify

/-- The order of the states, and the states passed on the way from one to
another: the first excluded, the last included. -/
structure Ladder (S : Type) where
  bot : S
  le : S → S → Bool
  passed : S → S → List S
  bot_le : ∀ a, le bot a = true
  passed_self : ∀ a, passed a a = []
  passed_append : ∀ {a b c}, le a b = true → le b c = true → passed a b ++ passed b c = passed a c

/-- One call of a listener. -/
structure Note (X S : Type) where
  obj : X
  listener : Nat
  state : S
  deriving DecidableEq, Repr

/-- What a thread still has to do: the listeners to tell about the call it is
in, then further calls. -/
structure Task (X S : Type) where
  calls : List (X × S)
  notes : List (Note X S)
  deriving DecidableEq, Repr

def Task.none (X S : Type) : Task X S := ⟨[], []⟩

/-- `failed`: some call would have moved its object down. -/
structure State (X T S : Type) where
  cur : X → S
  task : T → Task X S
  heard : List (Note X S)
  failed : Bool

variable {X T S : Type} [DecidableEq X] [DecidableEq T]

/-- Who is told when `x` moves from `old` to `new`, state by state. -/
def notesFor (L : Ladder S) (listeners : X → Nat) (x : X) (old new : S) : List (Note X S) :=
  (L.passed old new).flatMap fun st => (List.range (listeners x)).map fun l => ⟨x, l, st⟩

/-- Thread `th` takes on `calls`. -/
def State.take (th : T) (calls : List (X × S)) (n : State X T S) : State X T S :=
  { n with task := Function.update n.task th ⟨calls, []⟩ }

/-- The next thing thread `th` does: tell one listener, or begin a call. -/
def State.tick (L : Ladder S) (listeners : X → Nat) (th : T) (n : State X T S) :
    Option (State X T S) :=
  match n.task th with
  | ⟨calls, note :: notes⟩ =>
    some { n with task := Function.update n.task th ⟨calls, notes⟩, heard := n.heard ++ [note] }
  | ⟨(x, st) :: calls, []⟩ =>
    some { cur := Function.update n.cur x st,
           task := Function.update n.task th ⟨calls, notesFor L listeners x (n.cur x) st⟩,
           heard := n.heard,
           failed := n.failed || !L.le (n.cur x) st }
  | ⟨[], []⟩ => none

/-- The states listener `l` of `x` is told about in `notes`, in order. -/
def toldBy (notes : List (Note X S)) (x : X) (l : Nat) : List S :=
  (notes.filter fun note => decide (note.obj = x ∧ note.listener = l)).map Note.state

/-- Thread `th` is about to tell the listeners of `x`. -/
def State.Tells (n : State X T S) (th : T) (x : X) : Prop :=
  ∃ note ∈ (n.task th).notes, note.obj = x

/-- Thread `th` has a call for `x` to make or to finish. -/
def State.Busy (n : State X T S) (th : T) (x : X) : Prop :=
  x ∈ (n.task th).calls.map Prod.fst ∨ n.Tells th x

/-! ## Notes -/

@[simp] theorem toldBy_nil (x : X) (l : Nat) : toldBy ([] : List (Note X S)) x l = [] := rfl

theorem toldBy_append (ns ms : List (Note X S)) (x : X) (l : Nat) :
    toldBy (ns ++ ms) x l = toldBy ns x l ++ toldBy ms x l := by
  rw [toldBy, toldBy, toldBy, List.filter_append, List.map_append]

theorem toldBy_cons (note : Note X S) (ns : List (Note X S)) (x : X) (l : Nat) :
    toldBy (note :: ns) x l = toldBy [note] x l ++ toldBy ns x l :=
  toldBy_append [note] ns x l

theorem toldBy_other {ns : List (Note X S)} {x : X} (h : ∀ note ∈ ns, note.obj ≠ x) (l : Nat) :
    toldBy ns x l = [] := by
  rw [toldBy, List.map_eq_nil_iff, List.filter_eq_nil_iff]
  intro note hn hc
  exact h note hn (of_decide_eq_true hc).1

variable {L : Ladder S} {listeners : X → Nat}

omit [DecidableEq X] in
theorem notesFor_obj {x : X} {old new : S} {note : Note X S}
    (h : note ∈ notesFor L listeners x old new) : note.obj = x := by
  obtain ⟨st, -, hm⟩ := List.mem_flatMap.1 h
  obtain ⟨l, -, rfl⟩ := List.mem_map.1 hm
  rfl

theorem filter_range_eq {n l : Nat} (h : l < n) :
    (List.range n).filter (fun k => decide (k = l)) = [l] := by
  have hone : (List.range n).count l = 1 :=
    List.count_eq_one_of_mem List.nodup_range (List.mem_range.2 h)
  rw [List.filter_eq, hone]
  rfl

/-- Each listener is told of each state passed, once and in order. -/
theorem toldBy_notesFor {x : X} {l : Nat} (hl : l < listeners x) (old new : S) :
    toldBy (notesFor L listeners x old new) x l = L.passed old new := by
  unfold notesFor
  induction L.passed old new with
  | nil => rfl
  | cons st sts ih =>
    rw [List.flatMap_cons, toldBy_append, ih]
    have hone : toldBy ((List.range (listeners x)).map fun k => (⟨x, k, st⟩ : Note X S)) x l = [st] := by
      rw [toldBy, List.filter_map]
      have hf : (List.range (listeners x)).filter
          ((fun note : Note X S => decide (note.obj = x ∧ note.listener = l)) ∘
            fun k => ⟨x, k, st⟩) = [l] := by
        rw [← filter_range_eq hl]
        congr 1
        funext k
        simp
      rw [hf]
      rfl
    rw [hone]
    rfl

/-! ## The invariant -/

structure Inv (L : Ladder S) (listeners : X → Nat) (n : State X T S) : Prop where
  once : ∀ {th th' : T} {x : X}, n.Busy th x → n.Busy th' x → th = th'
  distinct : ∀ th, ((n.task th).calls.map Prod.fst).Nodup
  apart : ∀ {th : T} {x : X}, n.Tells th x → x ∉ (n.task th).calls.map Prod.fst
  forward : ∀ {th : T} {x : X} {st : S}, (x, st) ∈ (n.task th).calls → L.le (n.cur x) st = true
  telling : ∀ {th : T} {x : X} {l : Nat}, l < listeners x → n.Tells th x →
    toldBy n.heard x l ++ toldBy (n.task th).notes x l = L.passed L.bot (n.cur x)
  quiet : ∀ {x : X} {l : Nat}, l < listeners x → (∀ th, ¬ n.Tells th x) →
    toldBy n.heard x l = L.passed L.bot (n.cur x)
  failed : n.failed = false

omit [DecidableEq T] in
/-- Nobody has anything to do, and the listeners have heard of every state. -/
theorem Inv.idle {n : State X T S} (ht : ∀ th, n.task th = .none X S)
    (hh : ∀ x l, l < listeners x → toldBy n.heard x l = L.passed L.bot (n.cur x))
    (hf : n.failed = false) : Inv L listeners n := by
  have hbusy (th : T) (x : X) : ¬ n.Busy th x := by
    rintro (h | ⟨note, h, -⟩) <;> rw [ht] at h <;> cases h
  refine ⟨fun h => absurd h (hbusy _ _), fun th => ?_, fun h => absurd (.inr h) (hbusy _ _),
    fun h => ?_, fun _ h => absurd (.inr h) (hbusy _ _), fun hl _ => hh _ _ hl, hf⟩
  · rw [ht]; exact List.nodup_nil
  · rw [ht] at h; cases h

variable {n n' : State X T S} {th : T}

omit [DecidableEq X] in
theorem busy_take {calls : List (X × S)} {t : T} {x : X} (h : (n.take th calls).Busy t x) :
    t = th ∧ x ∈ calls.map Prod.fst ∨ n.Busy t x := by
  unfold State.Busy State.Tells State.take at h
  by_cases ht : t = th
  · subst ht
    simp only [Function.update_self] at h
    rcases h with h | ⟨note, hm, -⟩
    · exact .inl ⟨rfl, h⟩
    · cases hm
  · simp only [Function.update_of_ne ht] at h
    exact .inr h

/-- A thread with nothing to do may take on calls for objects nobody is busy
with, each upwards from where the object is. -/
theorem Inv.take (h : Inv L listeners n) (hidle : n.task th = .none X S)
    {calls : List (X × S)} (hn : (calls.map Prod.fst).Nodup)
    (hc : ∀ c ∈ calls, (∀ t, ¬ n.Busy t c.1) ∧ L.le (n.cur c.1) c.2 = true) :
    Inv L listeners (n.take th calls) := by
  have htask : (n.take th calls).task th = ⟨calls, []⟩ := Function.update_self _ _ _
  have hother {t : T} (ht : t ≠ th) : (n.take th calls).task t = n.task t :=
    Function.update_of_ne ht _ _
  have htells {t : T} {x : X} (ht : (n.take th calls).Tells t x) : t ≠ th ∧ n.Tells t x := by
    have hne : t ≠ th := by
      rintro rfl
      obtain ⟨note, hm, -⟩ := ht
      rw [htask] at hm; cases hm
    obtain ⟨note, hm, he⟩ := ht
    rw [hother hne] at hm
    exact ⟨hne, note, hm, he⟩
  have hkeep {t : T} {x : X} (ht : n.Tells t x) : (n.take th calls).Tells t x := by
    obtain ⟨note, hm, he⟩ := ht
    have hne : t ≠ th := by rintro rfl; rw [hidle] at hm; cases hm
    exact ⟨note, by rw [hother hne]; exact hm, he⟩
  have hfree {x : X} (hx : x ∈ calls.map Prod.fst) (t : T) : ¬ n.Busy t x := by
    obtain ⟨c, hm, rfl⟩ := List.mem_map.1 hx
    exact (hc c hm).1 t
  refine ⟨fun hb hb' => ?_, fun t => ?_, fun {t x} ht => ?_, fun {t x st} hm => ?_,
    fun {t x l} hl ht => ?_, fun {x l} hl hq => ?_, h.failed⟩
  · rcases busy_take hb with ⟨rfl, hx⟩ | hb₁ <;> rcases busy_take hb' with ⟨rfl, hx'⟩ | hb₂
    · rfl
    · exact absurd hb₂ (hfree hx _)
    · exact absurd hb₁ (hfree hx' _)
    · exact h.once hb₁ hb₂
  · by_cases ht : t = th
    · subst ht; rw [htask]; exact hn
    · rw [hother ht]; exact h.distinct t
  · rw [hother (htells ht).1]; exact h.apart (htells ht).2
  · by_cases ht : t = th
    · subst ht; rw [htask] at hm; exact (hc _ hm).2
    · rw [hother ht] at hm; exact h.forward hm
  · rw [hother (htells ht).1]; exact h.telling hl (htells ht).2
  · exact h.quiet hl fun t ht => hq t (hkeep ht)

/-- Telling one listener. -/
theorem Inv.tell (h : Inv L listeners n) {calls : List (X × S)} {note : Note X S}
    {notes : List (Note X S)} (htask : n.task th = ⟨calls, note :: notes⟩) :
    Inv L listeners { n with task := Function.update n.task th ⟨calls, notes⟩,
                             heard := n.heard ++ [note] } := by
  set n' : State X T S := { n with task := Function.update n.task th ⟨calls, notes⟩,
                                   heard := n.heard ++ [note] } with hn'
  have hth : n'.task th = ⟨calls, notes⟩ := Function.update_self _ _ _
  have hother {t : T} (ht : t ≠ th) : n'.task t = n.task t := Function.update_of_ne ht _ _
  have hcalls (t : T) : (n'.task t).calls = (n.task t).calls := by
    by_cases ht : t = th
    · rw [ht, hth, htask]
    · rw [hother ht]
  have htells {t : T} {x : X} (ht : n'.Tells t x) : n.Tells t x := by
    obtain ⟨m, hm, he⟩ := ht
    by_cases hte : t = th
    · subst hte
      rw [hth] at hm
      exact ⟨m, by rw [htask]; exact List.mem_cons_of_mem _ hm, he⟩
    · rw [hother hte] at hm; exact ⟨m, hm, he⟩
  have hbusy {t : T} {x : X} (hb : n'.Busy t x) : n.Busy t x := by
    rcases hb with hb | hb
    · rw [hcalls] at hb; exact .inl hb
    · exact .inr (htells hb)
  have hnow : n.Tells th note.obj := ⟨note, by rw [htask]; exact List.mem_cons_self, rfl⟩
  have hheard (x : X) (l : Nat) :
      toldBy n'.heard x l ++ toldBy notes x l =
        toldBy n.heard x l ++ toldBy (n.task th).notes x l := by
    rw [htask]
    show toldBy (n.heard ++ [note]) x l ++ toldBy notes x l = _
    rw [toldBy_append, List.append_assoc, ← toldBy_cons]
  -- a listener of another object hears nothing
  have hsame {x : X} (hx : x ≠ note.obj) (l : Nat) : toldBy n'.heard x l = toldBy n.heard x l := by
    have hnone : toldBy [note] x l = [] := by
      apply toldBy_other
      intro m hm he
      rw [List.mem_singleton.1 hm] at he
      exact hx he.symm
    show toldBy (n.heard ++ [note]) x l = _
    rw [toldBy_append, hnone, List.append_nil]
  refine ⟨fun hb hb' => h.once (hbusy hb) (hbusy hb'), fun t => ?_, fun {t x} ht => ?_,
    fun {t x st} hm => ?_, fun {t x l} hl ht => ?_, fun {x l} hl hq => ?_, h.failed⟩
  · rw [hcalls]; exact h.distinct t
  · rw [hcalls]; exact h.apart (htells ht)
  · rw [hcalls] at hm; exact h.forward hm
  · by_cases hte : t = th
    · subst hte
      rw [hth, hheard]
      exact h.telling hl (htells ht)
    · have hx : x ≠ note.obj := by
        rintro rfl
        exact hte (h.once (.inr (htells ht)) (.inr hnow))
      rw [hother hte, hsame hx]
      exact h.telling hl (htells ht)
  · by_cases hx : x = note.obj
    · subst hx
      have hnone : toldBy notes note.obj l = [] := by
        apply toldBy_other
        intro m hm he
        exact hq th ⟨m, by rw [hth]; exact hm, he⟩
      have htold := h.telling hl hnow
      rw [← hheard, hnone, List.append_nil] at htold
      exact htold
    · rw [hsame hx]
      refine h.quiet hl fun t ht => ?_
      obtain ⟨m, hm, he⟩ := ht
      by_cases hte : t = th
      · subst hte
        rw [htask] at hm
        rcases List.mem_cons.1 hm with rfl | hm
        · exact hx he.symm
        · exact hq t ⟨m, by rw [hth]; exact hm, he⟩
      · exact hq t ⟨m, by rw [hother hte]; exact hm, he⟩

/-- Beginning a call. -/
theorem Inv.call (h : Inv L listeners n) {x : X} {st : S} {calls : List (X × S)}
    (htask : n.task th = ⟨(x, st) :: calls, []⟩) :
    Inv L listeners
      { cur := Function.update n.cur x st,
        task := Function.update n.task th ⟨calls, notesFor L listeners x (n.cur x) st⟩,
        heard := n.heard, failed := n.failed || !L.le (n.cur x) st } := by
  have hle : L.le (n.cur x) st = true :=
    h.forward (by rw [htask]; exact List.mem_cons_self)
  have hnow : n.Busy th x := .inl (by rw [htask]; exact List.mem_cons_self)
  have hnotells (t : T) : ¬ n.Tells t x := by
    intro ht
    obtain rfl := h.once hnow (.inr ht)
    obtain ⟨note, hm, -⟩ := ht
    rw [htask] at hm; cases hm
  have hcx : x ∉ calls.map Prod.fst := by
    have hd := h.distinct th
    rw [htask] at hd
    exact (List.nodup_cons.1 hd).1
  set n' : State X T S :=
    { cur := Function.update n.cur x st,
      task := Function.update n.task th ⟨calls, notesFor L listeners x (n.cur x) st⟩,
      heard := n.heard, failed := n.failed || !L.le (n.cur x) st } with hn'
  have hth : n'.task th = ⟨calls, notesFor L listeners x (n.cur x) st⟩ :=
    Function.update_self _ _ _
  have hother {t : T} (ht : t ≠ th) : n'.task t = n.task t := Function.update_of_ne ht _ _
  have hcur {y : X} (hy : y ≠ x) : n'.cur y = n.cur y := Function.update_of_ne hy _ _
  have hcurx : n'.cur x = st := Function.update_self _ _ _
  have hcall {t : T} {c : X × S} (hm : c ∈ (n'.task t).calls) : c ∈ (n.task t).calls ∧ c.1 ≠ x := by
    by_cases ht : t = th
    · subst ht
      rw [hth] at hm
      refine ⟨by rw [htask]; exact List.mem_cons_of_mem _ hm, ?_⟩
      rintro rfl
      exact hcx (List.mem_map_of_mem hm)
    · rw [hother ht] at hm
      refine ⟨hm, ?_⟩
      rintro rfl
      exact ht (h.once (.inl (List.mem_map_of_mem hm)) hnow)
  have htells {t : T} {y : X} (ht : n'.Tells t y) : t = th ∧ y = x ∨ y ≠ x ∧ n.Tells t y := by
    obtain ⟨note, hm, he⟩ := ht
    by_cases hte : t = th
    · subst hte
      rw [hth] at hm
      exact .inl ⟨rfl, by rw [← he, notesFor_obj hm]⟩
    · rw [hother hte] at hm
      refine .inr ⟨?_, note, hm, he⟩
      rintro rfl
      exact hnotells t ⟨note, hm, he⟩
  have hbusy {t : T} {y : X} (hb : n'.Busy t y) : n.Busy t y := by
    rcases hb with hb | hb
    · obtain ⟨c, hm, rfl⟩ := List.mem_map.1 hb
      have hc := (hcall hm).1
      exact .inl (List.mem_map_of_mem hc)
    · rcases htells hb with ⟨rfl, rfl⟩ | ⟨-, ht⟩
      · exact hnow
      · exact .inr ht
  have hkeep {t : T} {y : X} (hy : y ≠ x) (ht : n.Tells t y) : n'.Tells t y := by
    obtain ⟨note, hm, he⟩ := ht
    have hne : t ≠ th := by rintro rfl; rw [htask] at hm; cases hm
    exact ⟨note, by rw [hother hne]; exact hm, he⟩
  refine ⟨fun hb hb' => h.once (hbusy hb) (hbusy hb'), fun t => ?_, fun {t y} ht => ?_,
    fun {t y u} hm => ?_, fun {t y l} hl ht => ?_, fun {y l} hl hq => ?_, ?_⟩
  · by_cases ht : t = th
    · subst ht
      have hd := h.distinct t
      rw [htask] at hd
      rw [hth]
      exact (List.nodup_cons.1 hd).2
    · rw [hother ht]; exact h.distinct t
  · rcases htells ht with ⟨rfl, rfl⟩ | ⟨hy, ht₁⟩
    · rw [hth]; exact hcx
    · intro hm
      obtain ⟨c, hc, rfl⟩ := List.mem_map.1 hm
      exact h.apart ht₁ (List.mem_map_of_mem (hcall hc).1)
  · rw [hcur (hcall hm).2]
    exact h.forward (hcall hm).1
  · rcases htells ht with ⟨rfl, rfl⟩ | ⟨hy, ht₁⟩
    · rw [hth, hcurx, toldBy_notesFor hl, h.quiet hl hnotells]
      exact L.passed_append (L.bot_le _) hle
    · have hne : t ≠ th := by
        rintro rfl
        obtain ⟨note, hm, -⟩ := ht₁
        rw [htask] at hm; cases hm
      rw [hcur hy, hother hne]
      exact h.telling hl ht₁
  · by_cases hy : y = x
    · subst hy
      have hnone : L.passed (n.cur y) st = [] := by
        rw [← toldBy_notesFor hl]
        apply toldBy_other
        intro note hm he
        exact hq th ⟨note, by rw [hth]; exact hm, he⟩
      have hpass := L.passed_append (L.bot_le (n.cur y)) hle
      rw [hnone, List.append_nil] at hpass
      rw [hcurx, ← hpass]
      exact h.quiet hl hnotells
    · rw [hcur hy]
      exact h.quiet hl fun t ht => hq t (hkeep hy ht)
  · show (n.failed || !L.le (n.cur x) st) = false
    rw [h.failed, hle]; rfl

theorem Inv.tick (h : Inv L listeners n) (ht : n.tick L listeners th = some n') :
    Inv L listeners n' := by
  unfold State.tick at ht
  split at ht
  · rename_i calls note notes htask
    simp only [Option.some.injEq] at ht; subst ht
    exact h.tell htask
  · rename_i x st calls htask
    simp only [Option.some.injEq] at ht; subst ht
    exact h.call htask
  · cases ht

/-! ## Who is busy, and where an object is going -/

/-- The state `x` has once the call made for it, if there is one, has begun. -/
def State.Settles (n : State X T S) (x : X) (st : S) : Prop :=
  (∃ t, (x, st) ∈ (n.task t).calls) ∨
    (∀ t, x ∉ (n.task t).calls.map Prod.fst) ∧ n.cur x = st

omit [DecidableEq X] [DecidableEq T] in
theorem State.Settles.cur {x : X} {st : S} (h : n.Settles x st) (hb : ∀ t, ¬ n.Busy t x) :
    n.cur x = st := by
  rcases h with ⟨t, hm⟩ | ⟨-, hc⟩
  · exact absurd (.inl (List.mem_map_of_mem hm)) (hb t)
  · exact hc

omit [DecidableEq X] in
theorem settles_take {calls : List (X × S)} {x : X} {st : S} (hm : (x, st) ∈ calls) :
    (n.take th calls).Settles x st := by
  have htask : (n.take th calls).task th = ⟨calls, []⟩ := Function.update_self _ _ _
  exact .inl ⟨th, by rw [htask]; exact hm⟩

omit [DecidableEq X] in
theorem State.Settles.take {calls : List (X × S)} {x : X} {st : S} (h : n.Settles x st)
    (hidle : n.task th = .none X S) (hx : x ∉ calls.map Prod.fst) :
    (n.take th calls).Settles x st := by
  have htask : (n.take th calls).task th = ⟨calls, []⟩ := Function.update_self _ _ _
  have hother {t : T} (ht : t ≠ th) : (n.take th calls).task t = n.task t :=
    Function.update_of_ne ht _ _
  rcases h with ⟨t, hm⟩ | ⟨hno, hc⟩
  · have hne : t ≠ th := by rintro rfl; rw [hidle] at hm; cases hm
    exact .inl ⟨t, by rw [hother hne]; exact hm⟩
  · refine .inr ⟨fun t => ?_, hc⟩
    by_cases ht : t = th
    · subst ht; rw [htask]; exact hx
    · rw [hother ht]; exact hno t

theorem busy_tick {t : T} {x : X} (ht : n.tick L listeners th = some n') (h : n'.Busy t x) :
    n.Busy t x := by
  unfold State.tick at ht
  split at ht
  · rename_i calls note notes htask
    simp only [Option.some.injEq] at ht; subst ht
    unfold State.Busy State.Tells at h ⊢
    by_cases hte : t = th
    · subst hte
      simp only [Function.update_self] at h
      rw [htask]
      exact h.imp_right fun ⟨m, hm, he⟩ => ⟨m, List.mem_cons_of_mem _ hm, he⟩
    · simp only [Function.update_of_ne hte] at h
      exact h
  · rename_i y st calls htask
    simp only [Option.some.injEq] at ht; subst ht
    unfold State.Busy State.Tells at h ⊢
    by_cases hte : t = th
    · subst hte
      simp only [Function.update_self] at h
      rw [htask]
      rcases h with h | ⟨m, hm, he⟩
      · exact .inl (List.mem_cons_of_mem _ h)
      · rw [notesFor_obj hm] at he
        exact .inl (by rw [← he]; exact List.mem_cons_self)
    · simp only [Function.update_of_ne hte] at h
      exact h
  · cases ht

theorem cur_tick {x : X} (ht : n.tick L listeners th = some n') (h : ¬ n.Busy th x) :
    n'.cur x = n.cur x := by
  unfold State.tick at ht
  split at ht
  · simp only [Option.some.injEq] at ht; subst ht; rfl
  · rename_i y st calls htask
    simp only [Option.some.injEq] at ht; subst ht
    refine Function.update_of_ne ?_ _ _
    rintro rfl
    exact h (.inl (by rw [htask]; exact List.mem_cons_self))
  · cases ht

theorem Inv.settles_tick (h : Inv L listeners n) {x : X} {st : S} (hs : n.Settles x st)
    (ht : n.tick L listeners th = some n') : n'.Settles x st := by
  unfold State.tick at ht
  split at ht
  · rename_i calls note notes htask
    simp only [Option.some.injEq] at ht; subst ht
    have hcalls (t : T) : (Function.update n.task th ⟨calls, notes⟩ t).calls = (n.task t).calls := by
      by_cases hte : t = th
      · subst hte; rw [Function.update_self, htask]
      · rw [Function.update_of_ne hte]
    unfold State.Settles
    simp only [hcalls]
    exact hs
  · rename_i y st' calls htask
    simp only [Option.some.injEq] at ht; subst ht
    have hnow : n.Busy th y := .inl (by rw [htask]; exact List.mem_cons_self)
    have hd := h.distinct th
    rw [htask] at hd
    unfold State.Settles
    by_cases hxy : x = y
    · subst hxy
      -- the call that begins is the one made for `x`
      have hst : st = st' := by
        rcases hs with ⟨t, hm⟩ | ⟨hno, -⟩
        · obtain rfl := h.once hnow (.inl (List.mem_map_of_mem hm))
          rw [htask] at hm
          rcases List.mem_cons.1 hm with he | hm
          · exact (Prod.mk.inj he).2
          · exact absurd (List.mem_map_of_mem hm) (List.nodup_cons.1 hd).1
        · exact absurd (by rw [htask]; exact List.mem_cons_self) (hno th)
      subst hst
      refine .inr ⟨fun t hm => ?_, Function.update_self _ _ _⟩
      by_cases hte : t = th
      · subst hte
        simp only [Function.update_self] at hm
        exact (List.nodup_cons.1 hd).1 hm
      · simp only [Function.update_of_ne hte] at hm
        exact hte (h.once (.inl hm) hnow)
    · rcases hs with ⟨t, hm⟩ | ⟨hno, hc⟩
      · refine .inl ⟨t, ?_⟩
        by_cases hte : t = th
        · subst hte
          rw [htask] at hm
          simp only [Function.update_self]
          exact (List.mem_cons.1 hm).resolve_left fun he => hxy (Prod.mk.inj he).1
        · simp only [Function.update_of_ne hte]; exact hm
      · refine .inr ⟨fun t hm => ?_, (Function.update_of_ne hxy _ _).trans hc⟩
        by_cases hte : t = th
        · subst hte
          simp only [Function.update_self] at hm
          exact hno t (by rw [htask]; exact List.mem_cons_of_mem _ hm)
        · simp only [Function.update_of_ne hte] at hm
          exact hno t hm
  · cases ht

/-! ## What listeners have heard -/

omit [DecidableEq T] in
/-- A listener has heard of the states passed, in order, but for those it is
still to be told. -/
theorem Inv.prefix (h : Inv L listeners n) {x : X} {l : Nat} (hl : l < listeners x) :
    toldBy n.heard x l <+: L.passed L.bot (n.cur x) := by
  by_cases hq : ∃ t, n.Tells t x
  · obtain ⟨t, ht⟩ := hq
    exact ⟨_, h.telling hl ht⟩
  · have hquiet := h.quiet hl fun t ht => hq ⟨t, ht⟩
    exact hquiet ▸ List.prefix_refl _

end Xsched.Notify
