import Mathlib.Data.List.Count
import Xsched.Preempt.Ownership

/-!
# A split launch completes once

`SubmitSplitCommands` makes the children of a launch, keeps them in the vector of a
`SplitCommandGroup`, and submits them in a loop over that vector. A listener of each
child counts the completions, and the last one finds that the parent is completed
and clears the vector. It runs on the thread that completes the child: the worker, a
thread that waits for a command, or one that drops.

**The system.** The machine of `Xsched.Preempt.LifeCycle`, whose threads tell one
listener at a time, with the group beside it. A thread that tells the listener of a
child that it is Completed has counted it (`fetch_add`) and compares the number it
got in another step (`branch`); until then it does nothing else. The submitting
thread reads the size of the vector, and then an element, in a step each.

**Results.**
* `split_parent_once`: in every state of every run the parent was completed once, when
  all children were Completed, or not at all, and then all children are in the
  vector; no element was read that is not there. Once the children are Completed and
  all threads have left their listeners it was completed.
* `parent_completes`: when the children are Completed, the threads that are in their
  listeners can always go on until the parent is.
-/
namespace Xsched.HbSplit
namespace SplitGroup

open Preempt Preempt.LifeCycle
open Function (update)

/-! ## The group -/

/-- The children, distinct objects; a launch that is not split in two or more is left
to the caller. -/
structure Split where
  children : List HwCommand
  nodup : children.Nodup
  split : 1 < children.length

namespace Split
variable (split : Split)

def isChild : XCommand → Bool
  | .hardware c => c ∈ split.children
  | _ => false

/-- The children have a second listener, after that of every HwCommand.
mirrors platforms/cuda/hal/src/hb_split/backend.cpp:864-880 -/
def listeners (others : XCommand → Nat) (x : XCommand) : Nat :=
  if split.isChild x then 2 else others x

/-- `split_count` -/
def splitCount : Nat := split.children.length

end Split

/-- Where the submitting thread is in its loop over the vector. -/
inductive Loop where
  | before
  /-- The size is read next. -/
  | check (i : Nat)
  | read (i : Nat)
  /-- `Submit` is called with the child that was read. -/
  | submit (i : Nat) (c : HwCommand)
  | submitting (i : Nat)
  | after
  deriving DecidableEq, Repr

/-- The thread is in the loop. -/
def Loop.inside : Loop → Bool
  | .before => false
  | .after => false
  | _ => true

/-- `done th`: what thread `th` got from the counter, until it has compared it. Ghosts:
`parents`, whether the children were all Completed, for each time that the parent was
found to be; `missed`, whether an element was read that was not in the vector.
mirrors platforms/cuda/hal/src/hb_split/backend.cpp:100-107 -/
structure Group where
  fine : Fine
  children : List HwCommand
  completed : Nat
  done : Thread → Option Nat
  loop : Loop
  parents : List Bool
  missed : Bool

inductive SplitAct where
  | fine (cfg : Config) (a : FineAct)
  | begin
  | check
  | read
  | submit (cfg : Config)
  | next
  | branch (th : Thread)

section
variable (split : Split)

def start (others : XCommand → Nat) : Group where
  fine := LifeCycle.start (split.listeners others)
  children := split.children
  completed := 0
  done := fun _ => none
  loop := .before
  parents := []
  missed := false

/-- Whom a step tells what. -/
def told (f : Fine) : FineAct → Option (Thread × Note)
  | .tick th => (f.task th).notes.head?.map fun note => (th, note)
  | _ => none

/-- The listener of a child, as far as the counter.
mirrors platforms/cuda/hal/src/hb_split/backend.cpp:864-871 -/
def Group.listen (th : Thread) (note : Note) (s : Group) : Group :=
  if split.isChild note.obj ∧ note.listener = 1 then
    if note.state.val < XCommandState.completed.val then s
    else
      { s with
        completed := s.completed + 1
        done := update s.done th (some (s.completed + 1)) }
  else s

def Group.hear (s : Group) : Option (Thread × Note) → Group
  | none => s
  | some (th, note) => s.listen split th note

/-- A thread in a listener does nothing else, the submitting thread `t` in its loop
only what `Submit` makes it do, and nobody else submits the children. -/
def Group.MayStep (t : Nat) (s : Group) : FineAct → Prop
  | .region th _ => s.done th = none ∧ (th = .client t → s.loop.inside = false)
  | .enter u a => s.done (.client u) = none ∧ (u = t → s.loop.inside = false) ∧
      ∀ c ∈ split.children, a ≠ .submit c
  | .insert u => s.done (.client u) = none
  | .tick th => s.done th = none
  | .unlock l => ∀ th ∈ s.fine.owner l, s.done th = none

instance (t : Nat) (s : Group) : (a : FineAct) → Decidable (s.MayStep split t a)
  | .region .. => inferInstanceAs (Decidable (_ ∧ _))
  | .enter .. => inferInstanceAs (Decidable (_ ∧ _ ∧ _))
  | .insert _ | .tick _ => inferInstanceAs (Decidable (_ = _))
  | .unlock l => inferInstanceAs (Decidable (∀ th ∈ s.fine.owner l, _))

/-- Every child is Completed. -/
def Group.allCompleted (s : Group) : Bool :=
  split.children.all fun c => decide (s.fine.m.cmdState (.hardware c) = .completed)

/-- `t` is the submitting thread. -/
def splitStep (others : XCommand → Nat) (t : Nat) (s : Group) : SplitAct → Option Group
  | .fine cfg a =>
    if s.MayStep split t a then
      (fineStep (split.listeners others) cfg s.fine a).map fun f =>
        { s with fine := f }.hear split (told s.fine a)
    else none
  -- mirrors platforms/cuda/hal/src/hb_split/backend.cpp:896-908
  | .begin =>
    if s.loop = .before ∧ s.done (.client t) = none ∧ s.fine.Free (.client t) ∧
        s.fine.m.app t = .idle ∧ s.fine.enq t = none then
      some { s with loop := .check 0 }
    else none
  | .check =>
    match s.loop with
    | .check i =>
      some { s with loop := if i < s.children.length then .read i else .after }
    | _ => none
  | .read =>
    match s.loop with
    | .read i =>
      match s.children[i]? with
      | some c => some { s with loop := .submit i c }
      | none => some { s with loop := .after, missed := true }
    | _ => none
  | .submit cfg =>
    match s.loop with
    | .submit i c =>
      if s.done (.client t) = none then
        (fineStep (split.listeners others) cfg s.fine (.enter t (.submit c))).map fun f =>
          { s with fine := f, loop := .submitting i }
      else none
    | _ => none
  | .next =>
    match s.loop with
    | .submitting i =>
      if s.done (.client t) = none ∧ s.fine.Free (.client t) ∧ s.fine.enq t = none then
        some { s with loop := .check (i + 1) }
      else none
    | _ => none
  -- mirrors platforms/cuda/hal/src/hb_split/backend.cpp:872-879
  | .branch th =>
    match s.done th with
    | none => none
    | some done =>
      if done = split.splitCount then
        some { s with
          done := update s.done th none
          children := []
          parents := s.parents ++ [s.allCompleted split] }
      else some { s with done := update s.done th none }

def system (others : XCommand → Nat) (t : Nat) : LTS Group SplitAct :=
  .ofFn (· = start split others) (splitStep split others t)

end

/-- The step of a thread in a listener, or before the next one. -/
def SplitAct.inListener (cfg : Config) : SplitAct → Prop
  | .fine cfg' (.tick _) => cfg' = cfg
  | .branch _ => True
  | _ => False

/-! ## What the listeners have heard -/

section
variable {split : Split} {others : XCommand → Nat} {t : Nat} {cfg : Config} {f f' : Fine}
  {a : FineAct} {c : HwCommand} {th : Thread} {note : Note}

/-- Only the pieces of `SetState` are heard of, and only a call submits. -/
theorem fineStep_keeps {listeners : XCommand → Nat} (hs : fineStep listeners cfg f a = some f') :
    ((∀ th, a ≠ .tick th) → f'.heard = f.heard) ∧
      ((∀ u x, a ≠ .enter u x) → f'.submitted = f.submitted) := by
  unfold fineStep at hs
  split at hs
  · cases hs
  cases a with
  | region th a =>
    simp only [region] at hs
    split at hs
    · obtain ⟨m', -, rfl⟩ := Option.map_eq_some_iff.1 hs
      exact ⟨fun _ => rfl, fun _ => rfl⟩
    · cases hs
  | enter u a =>
    refine ⟨fun _ => ?_, fun hne => absurd rfl (hne u a)⟩
    simp only [enter] at hs
    split at hs
    · split at hs
      · cases hs
      · split at hs
        · cases hs
          rfl
        · cases hs
    · cases hs
  | insert u =>
    simp only [LifeCycle.insert] at hs
    split at hs
    · cases hs
    · split at hs
      · cases hs
        exact ⟨fun _ => rfl, fun _ => rfl⟩
      · cases hs
  | tick th =>
    obtain ⟨n, -, rfl⟩ := Option.map_eq_some_iff.1 hs
    exact ⟨fun hne => absurd rfl (hne th), fun _ => rfl⟩
  | unlock l =>
    simp only [unlock] at hs
    split at hs
    · cases hs
    · split at hs
      · cases hs
        exact ⟨fun _ => rfl, fun _ => rfl⟩
      · cases hs

theorem submitted_step {listeners : XCommand → Nat} (hs : fineStep listeners cfg f a = some f')
    (hc : c ∈ f'.submitted) : c ∈ f.submitted ∨ ∃ u, a = .enter u (.submit c) := by
  have hkeeps := (fineStep_keeps hs).2
  cases a with
  | enter u a =>
    unfold fineStep at hs
    split at hs
    · cases hs
    simp only [enter] at hs
    split at hs
    · split at hs
      · cases hs
      · next x hx =>
        split at hs
        · cases hs
          rcases List.mem_append.1 hc with hold | hnew
          · exact .inl hold
          clear hc
          cases a with
          | submit d =>
            cases hx
            have hd : c = d := List.mem_singleton.1 hnew
            exact .inr ⟨u, by rw [hd]⟩
          | enqueueHostFunction | enqueueDestroy =>
            cases hx
            cases hnew
          | _ => cases hx
        · cases hs
    · cases hs
  | region | insert | tick | unlock =>
    rw [hkeeps nofun] at hc
    exact .inl hc

theorem heard_step {listeners : XCommand → Nat} (hs : fineStep listeners cfg f a = some f') :
    f'.heard = f.heard ++ (told f a).toList.map Prod.snd := by
  have hkeeps := (fineStep_keeps hs).1
  cases a with
  | tick th =>
    unfold fineStep at hs
    split at hs
    · cases hs
    obtain ⟨n, hn, rfl⟩ := Option.map_eq_some_iff.1 hs
    unfold Notify.State.tick at hn
    split at hn
    · next calls note notes htask =>
      cases hn
      have hnotes : (f.task th).notes = note :: notes := by rw [show f.task th = _ from htask]
      simp only [told, hnotes]
      rfl
    · next x st calls htask =>
      cases hn
      have hnotes : (f.task th).notes = [] := by rw [show f.task th = _ from htask]
      simp only [told, hnotes]
      exact (List.append_nil _).symm
    · cases hn
  | region | enter | insert | unlock =>
    rw [hkeeps nofun]
    exact (List.append_nil _).symm

/-- The listener of the child was told that it is Completed. -/
def counted (f : Fine) (c : HwCommand) : Bool :=
  decide (.completed ∈ f.heardBy (.hardware c) 1)

theorem listeners_child (hc : c ∈ split.children) :
    split.listeners others (.hardware c) = 2 := by
  unfold Split.listeners Split.isChild
  exact if_pos (decide_eq_true hc)

theorem heard_upTo (hi : LifeCycle.Inv (split.listeners others) f) (hc : c ∈ split.children) :
    f.heardBy (.hardware c) 1 <+: statesUpTo (f.m.cmdState (.hardware c)) := by
  rw [← passed_created]
  exact hi.notify.prefix (by rw [listeners_child hc]; exact Nat.one_lt_two)

theorem completed_of_counted (hi : LifeCycle.Inv (split.listeners others) f)
    (hc : c ∈ split.children) (h : counted f c = true) :
    f.m.cmdState (.hardware c) = .completed := by
  have hin := (heard_upTo hi hc).subset (of_decide_eq_true h)
  revert hin
  cases f.m.cmdState (.hardware c) with
  | completed => exact fun _ => rfl
  | created | pending | inFlight => simp [statesUpTo, XCommandState.val]

/-- A child that was not submitted is Created. -/
theorem not_counted (hi : LifeCycle.Inv (split.listeners others) f) (hc : c ∈ split.children)
    (hnew : c ∉ f.submitted) : counted f c = false := by
  refine decide_eq_false fun hin => ?_
  have hin := (heard_upTo hi hc).subset hin
  have hcreated : f.m.cmdState (.hardware c) = .created := hi.fresh (x := .hardware c) hnew
  rw [hcreated] at hin
  cases hin

theorem counted_step {listeners : XCommand → Nat} (hs : fineStep listeners cfg f a = some f')
    (c : HwCommand) :
    counted f' c = true ↔ counted f c = true ∨
      ∃ th, told f a = some (th, ⟨.hardware c, 1, .completed⟩) := by
  have hheard : f'.heardBy (.hardware c) 1 = f.heardBy (.hardware c) 1 ++
      Notify.toldBy ((told f a).toList.map Prod.snd) (.hardware c) 1 := by
    unfold Fine.heardBy
    rw [heard_step hs, Notify.toldBy_append]
  unfold counted
  rw [decide_eq_true_iff, decide_eq_true_iff, hheard, List.mem_append]
  refine or_congr_right ?_
  cases told f a with
  | none => simp
  | some r =>
    obtain ⟨th, note⟩ := r
    obtain ⟨obj, l, st⟩ := note
    unfold Notify.toldBy
    constructor
    · intro hin
      obtain ⟨note, hnote, hst⟩ := List.mem_map.1 hin
      obtain ⟨hnote, hmine⟩ := List.mem_filter.1 hnote
      obtain rfl : note = ⟨obj, l, st⟩ := List.mem_singleton.1 hnote
      obtain ⟨hobj, hl⟩ := of_decide_eq_true hmine
      refine ⟨th, ?_⟩
      dsimp only at hobj hl hst
      rw [hobj, hl, hst]
    · rintro ⟨th', he⟩
      cases he
      simp

/-- A listener is told once that its child is Completed. -/
theorem not_counted_of_told (hi : LifeCycle.Inv (split.listeners others) f')
    (hs : fineStep (split.listeners others) cfg f a = some f') (hc : c ∈ split.children)
    (htold : told f a = some (th, ⟨.hardware c, 1, .completed⟩)) : counted f c = false := by
  have hheard : f'.heardBy (.hardware c) 1 = f.heardBy (.hardware c) 1 ++ [.completed] := by
    unfold Fine.heardBy
    rw [heard_step hs, Notify.toldBy_append, htold]
    simp [Notify.toldBy]
  have hnodup : (f'.heardBy (.hardware c) 1).Nodup := by
    refine (heard_upTo hi hc).sublist.nodup ?_
    cases f'.m.cmdState (.hardware c) <;> decide
  rw [hheard] at hnodup
  refine decide_eq_false fun hin => ?_
  exact (List.nodup_append.1 hnodup).2.2 _ hin _ (List.mem_singleton.2 rfl) rfl

end

/-! ## The invariant -/

/-- One more element of the list. -/
theorem countP_succ {α : Type} {p q : α → Bool} {l : List α} (hn : l.Nodup) {a : α} (ha : a ∈ l)
    (hp : p a = false) (hq : ∀ b ∈ l, q b = true ↔ p b = true ∨ b = a) :
    l.countP q = l.countP p + 1 := by
  induction l with
  | nil => cases ha
  | cons b l ih =>
    obtain ⟨hb, hn⟩ := List.nodup_cons.1 hn
    rw [List.countP_cons, List.countP_cons]
    rcases List.mem_cons.1 ha with rfl | ha
    · have hrest : l.countP q = l.countP p := by
        refine List.countP_congr fun x hx => ?_
        rw [hq x (List.mem_cons_of_mem _ hx)]
        exact or_iff_left fun he => hb (he ▸ hx)
      rw [hrest, hp, (hq a List.mem_cons_self).2 (.inr rfl)]
      rfl
    · have hbq : q b = p b := by
        refine Bool.eq_iff_iff.2 ((hq b List.mem_cons_self).trans (or_iff_left fun he => ?_))
        exact hb (he ▸ ha)
      rw [ih hn ha fun x hx => hq x (List.mem_cons_of_mem _ hx), hbq]
      omega

/-- How many children the loop has submitted. -/
def Loop.sent (n : Nat) : Loop → Nat
  | .before => 0
  | .check i => i
  | .read i => i
  | .submit i _ => i
  | .submitting i => i + 1
  | .after => n

/-- How far the parent is: the last child is to come, was counted by a thread that is
still in the listener, or was found to be the last. -/
inductive Phase (split : Split) (s : Group) : Prop where
  | counting (hlt : s.completed < split.splitCount) (hparents : s.parents = [])
      (hchildren : s.children = split.children)
  | deciding (th : Thread) (hall : s.completed = split.splitCount)
      (hdone : ∀ u, s.done u = some split.splitCount ↔ u = th) (hparents : s.parents = [])
      (hchildren : s.children = split.children)
  | decided (hall : s.completed = split.splitCount) (hdone : ∀ u, s.done u ≠ some split.splitCount)
      (hparents : s.parents = [true]) (hchildren : s.children = [])

structure Inv (split : Split) (others : XCommand → Nat) (s : Group) : Prop where
  fine : LifeCycle.Inv (split.listeners others) s.fine
  count : s.completed = split.children.countP (counted s.fine)
  done : ∀ th d, s.done th = some d → d ≤ s.completed
  phase : Phase split s
  sent : s.loop.sent split.splitCount ≤ split.splitCount
  unsent : ∀ i, s.loop.sent split.splitCount ≤ i → ∀ c ∈ split.children[i]?, c ∉ s.fine.submitted
  reads : ∀ i, s.loop = .read i → i < split.splitCount
  submits : ∀ i c, s.loop = .submit i c → split.children[i]? = some c
  missed : s.missed = false

section
variable {split : Split} {others : XCommand → Nat} {t : Nat} {s s' : Group} {th : Thread}

theorem Inv.all_completed (hi : Inv split others s) (hall : s.completed = split.splitCount) :
    s.allCompleted split = true := by
  have hcount := List.countP_eq_length.1 (hi.count.symm.trans hall)
  refine List.all_eq_true.2 fun c hc => ?_
  exact decide_eq_true (completed_of_counted hi.fine hc (hcount c hc))

/-- A child that was not submitted keeps the count from its end. -/
theorem Inv.counting (hi : Inv split others s) {i : Nat} (hsent : s.loop.sent split.splitCount ≤ i)
    (hlt : i < split.splitCount) : s.completed < split.splitCount := by
  have hget : split.children[i]? = some split.children[i] := List.getElem?_eq_getElem hlt
  have hin : split.children[i] ∈ split.children := List.getElem_mem hlt
  rw [hi.count]
  refine List.countP_lt_length_iff.2 ⟨_, hin, ?_⟩
  exact not_counted hi.fine hin (hi.unsent i hsent _ hget)

theorem Phase.of_lt (hp : Phase split s) (hlt : s.completed < split.splitCount) :
    s.parents = [] ∧ s.children = split.children := by
  cases hp with
  | counting _ hparents hchildren => exact ⟨hparents, hchildren⟩
  | deciding _ hall => omega
  | decided hall => omega

/-- A step of the machine that tells no child's second listener that it is Completed. -/
theorem Inv.quiet (hi : Inv split others s) {f : Fine} {loop : Loop}
    (hfine : LifeCycle.Inv (split.listeners others) f)
    (hcount : ∀ c ∈ split.children, counted f c = counted s.fine c)
    (hsent : loop.sent split.splitCount ≤ split.splitCount)
    (hunsent : ∀ i, loop.sent split.splitCount ≤ i → ∀ c ∈ split.children[i]?, c ∉ f.submitted)
    (hreads : ∀ i, loop = .read i → i < split.splitCount)
    (hsubmits : ∀ i c, loop = .submit i c → split.children[i]? = some c) :
    Inv split others { s with fine := f, loop := loop } := by
  refine ⟨hfine, ?_, hi.done, ?_, hsent, hunsent, hreads, hsubmits, hi.missed⟩
  · refine hi.count.trans (List.countP_congr fun c hc => ?_)
    rw [hcount c hc]
  · cases hi.phase with
    | counting hlt hparents hchildren => exact .counting hlt hparents hchildren
    | deciding th hall hdone hparents hchildren => exact .deciding th hall hdone hparents hchildren
    | decided hall hdone hparents hchildren => exact .decided hall hdone hparents hchildren

/-- The listener counts a child. -/
theorem Inv.listen (hi : Inv split others s) {f : Fine} {c : HwCommand}
    (hfine : LifeCycle.Inv (split.listeners others) f) (hc : c ∈ split.children)
    (hold : counted s.fine c = false)
    (hnew : ∀ d ∈ split.children, counted f d = true ↔ counted s.fine d = true ∨ d = c)
    (hsub : ∀ d ∈ split.children, d ∈ f.submitted → d ∈ s.fine.submitted)
    (hfree : s.done th = none) :
    Inv split others
      { s with
        fine := f
        completed := s.completed + 1
        done := update s.done th (some (s.completed + 1)) } := by
  have hlt : s.completed < split.splitCount := by
    rw [hi.count]
    exact List.countP_lt_length_iff.2 ⟨c, hc, hold⟩
  obtain ⟨hparents, hchildren⟩ := hi.phase.of_lt hlt
  have hother : ∀ u d, update s.done th (some (s.completed + 1)) u = some d →
      u = th ∧ d = s.completed + 1 ∨ d ≤ s.completed := by
    intro u d hd
    rw [Function.update_apply] at hd
    split at hd
    · next he => exact .inl ⟨he, (Option.some.inj hd).symm⟩
    · exact .inr (hi.done u d hd)
  refine ⟨hfine, ?_, ?_, ?_, hi.sent, ?_, hi.reads, hi.submits, hi.missed⟩
  · dsimp only
    rw [hi.count]
    exact (countP_succ split.nodup hc hold hnew).symm
  · intro u d hd
    rcases hother u d hd with ⟨-, he⟩ | hle
    · exact Nat.le_of_eq he
    · exact Nat.le_succ_of_le hle
  · rcases Nat.lt_or_eq_of_le (Nat.succ_le_of_lt hlt) with hmore | hlast
    · exact .counting hmore hparents hchildren
    · refine .deciding th hlast (fun u => ⟨fun hu => ?_, fun hu => ?_⟩) hparents hchildren
      · rcases hother u _ hu with ⟨he, -⟩ | hle
        · exact he
        · omega
      · subst hu
        dsimp only
        rw [Function.update_self, ← hlast]
  · intro i hle d hd hin
    exact hi.unsent i hle d hd (hsub d (List.mem_of_getElem? hd) hin)

theorem Inv.move (hi : Inv split others s) {loop : Loop}
    (hsent : loop.sent split.splitCount ≤ split.splitCount)
    (hmore : s.loop.sent split.splitCount ≤ loop.sent split.splitCount)
    (hreads : ∀ i, loop = .read i → i < split.splitCount)
    (hsubmits : ∀ i c, loop = .submit i c → split.children[i]? = some c) :
    Inv split others { s with loop } :=
  hi.quiet hi.fine (fun _ _ => rfl) hsent
    (fun i hle => hi.unsent i (Nat.le_trans hmore hle)) hreads hsubmits

/-- Whom a step tells is free, if it may be taken. -/
theorem Group.MayStep.free {a : FineAct} {note : Note} (h : s.MayStep split t a)
    (htold : told s.fine a = some (th, note)) : s.done th = none := by
  cases a with
  | tick u =>
    obtain ⟨note', -, he⟩ := Option.map_eq_some_iff.1 htold
    cases he
    exact h
  | _ => cases htold

theorem Inv.stepFine (hi : Inv split others s) {cfg : Config} {a : FineAct} {f : Fine}
    (hmay : s.MayStep split t a) (hs : fineStep (split.listeners others) cfg s.fine a = some f) :
    Inv split others ({ s with fine := f }.hear split (told s.fine a)) := by
  have hfine := hi.fine.step hs
  have hsub : ∀ c ∈ split.children, c ∈ f.submitted → c ∈ s.fine.submitted := by
    intro c hc hin
    rcases submitted_step hs hin with hin | ⟨u, he⟩
    · exact hin
    · subst he
      exact absurd rfl (hmay.2.2 c hc)
  have hquiet : (∀ c ∈ split.children, ∀ th,
      told s.fine a ≠ some (th, ⟨.hardware c, 1, .completed⟩)) →
      Inv split others { s with fine := f } := by
    intro hnone
    refine hi.quiet hfine (fun c hc => ?_) hi.sent (fun i hle c hc hin => ?_) hi.reads hi.submits
    · refine Bool.eq_iff_iff.2 ((counted_step hs c).trans (or_iff_left ?_))
      rintro ⟨th, htold⟩
      exact hnone c hc th htold
    · exact hi.unsent i hle c hc (hsub c (List.mem_of_getElem? hc) hin)
  cases htold : told s.fine a with
  | none => exact hquiet fun c hc th h => by rw [htold] at h; cases h
  | some r =>
    obtain ⟨th, obj, l, st⟩ := r
    unfold Group.hear Group.listen
    dsimp only
    split
    · next hmine =>
      obtain ⟨hchild, rfl⟩ := hmine
      cases obj with
      | hardware c =>
        have hc : c ∈ split.children := of_decide_eq_true hchild
        split
        · next hearly =>
          refine hquiet fun d hd th' h => ?_
          rw [htold] at h
          cases h
          exact absurd hearly (Nat.lt_irrefl _)
        · next hlate =>
          obtain rfl : st = .completed := XCommandState.completed_le.1 (Nat.not_lt.1 hlate)
          refine hi.listen hfine hc (not_counted_of_told hfine hs hc htold) (fun d hd => ?_) hsub
            (hmay.free htold)
          rw [counted_step hs d, htold]
          refine or_congr_right ⟨?_, ?_⟩
          · rintro ⟨th', h⟩
            cases h
            rfl
          · rintro rfl
            exact ⟨th, rfl⟩
      | _ => cases hchild
    · next hother =>
      refine hquiet fun d hd th' h => hother ?_
      rw [htold] at h
      cases h
      exact ⟨decide_eq_true hd, rfl⟩

/-- The comparison; nothing is done with a number that is not the last. -/
theorem Inv.branch (hi : Inv split others s) {d : Nat} (hd : s.done th = some d) :
    Inv split others
      (if d = split.splitCount then
        { s with
          done := update s.done th none
          children := []
          parents := s.parents ++ [s.allCompleted split] }
      else { s with done := update s.done th none }) := by
  have hdone : ∀ u d, update s.done th none u = some d → u ≠ th ∧ s.done u = some d := by
    intro u d hu
    rw [Function.update_apply] at hu
    split at hu
    · cases hu
    · next hne => exact ⟨hne, hu⟩
  have hle : ∀ u d, update s.done th none u = some d → d ≤ s.completed :=
    fun u d hu => hi.done u d (hdone u d hu).2
  split
  · next hlast =>
    subst hlast
    cases hi.phase with
    | counting hlt =>
      have := hi.done th _ hd
      omega
    | deciding th' hall hdone' hparents _ =>
      refine ⟨hi.fine, hi.count, hle, .decided hall (fun u hu => ?_) ?_ rfl, hi.sent, hi.unsent,
        hi.reads, hi.submits, hi.missed⟩
      · obtain ⟨hne, hu⟩ := hdone u _ hu
        exact hne (((hdone' u).1 hu).trans ((hdone' th).1 hd).symm)
      · dsimp only
        rw [hparents, hi.all_completed hall]
        rfl
    | decided _ hdone' => exact absurd hd (hdone' th)
  · next hmore =>
    refine ⟨hi.fine, hi.count, hle, ?_, hi.sent, hi.unsent, hi.reads, hi.submits, hi.missed⟩
    cases hi.phase with
    | counting hlt hparents hchildren => exact .counting hlt hparents hchildren
    | deciding th' hall hdone' hparents hchildren =>
      refine .deciding th' hall (fun u => ⟨fun hu => ?_, ?_⟩) hparents hchildren
      · exact (hdone' u).1 (hdone u _ hu).2
      · rintro rfl
        have hu := (hdone' u).2 rfl
        refine (Function.update_of_ne ?_ ..).trans hu
        rintro rfl
        rw [hd] at hu
        exact hmore (Option.some.inj hu)
    | decided hall hdone' hparents hchildren =>
      exact .decided hall (fun u hu => hdone' u (hdone u _ hu).2) hparents hchildren

/-- `Submit` gets the child that was read. -/
theorem Inv.submit (hi : Inv split others s) {cfg : Config} {i : Nat} {c : HwCommand} {f : Fine}
    (hloop : s.loop = .submit i c)
    (hs : fineStep (split.listeners others) cfg s.fine (.enter t (.submit c)) = some f) :
    Inv split others { s with fine := f, loop := .submitting i } := by
  have hget := hi.submits i c hloop
  obtain ⟨hlt, -⟩ := List.getElem?_eq_some_iff.1 hget
  refine hi.quiet (hi.fine.step hs) (fun d hd => ?_) hlt (fun j hle d hd hin => ?_) nofun nofun
  · refine Bool.eq_iff_iff.2 ((counted_step hs d).trans (or_iff_left ?_))
    rintro ⟨th, htold⟩
    cases htold
  · have hij : i < j := hle
    rcases submitted_step hs hin with hin | ⟨u, he⟩
    · refine hi.unsent j ?_ d hd hin
      rw [hloop]
      exact Nat.le_of_lt hij
    · -- the children are distinct
      cases he
      have hsame : split.children[i]? = split.children[j]? := hget.trans hd.symm
      have he := (List.getElem?_inj hlt split.nodup).1 hsame
      omega

theorem inv_step {a : SplitAct} (hi : Inv split others s)
    (hs : splitStep split others t s a = some s') : Inv split others s' := by
  cases a with
  | fine cfg a =>
    simp only [splitStep] at hs
    split at hs
    · next hmay =>
      obtain ⟨f, hf, rfl⟩ := Option.map_eq_some_iff.1 hs
      exact hi.stepFine hmay hf
    · cases hs
  | begin =>
    simp only [splitStep] at hs
    split at hs
    · next hbefore =>
      cases hs
      refine hi.move (Nat.zero_le _) ?_ nofun nofun
      rw [hbefore.1]
      exact Nat.le_refl 0
    · cases hs
  | check =>
    simp only [splitStep] at hs
    split at hs
    · next i hloop =>
      cases hs
      have hsent := hi.sent
      rw [hloop] at hsent
      split
      · next hlt =>
        have hlen : s.children.length ≤ split.splitCount := by
          cases hi.phase with
          | counting _ _ hchildren | deciding _ _ _ _ hchildren =>
            rw [hchildren]
            exact Nat.le_refl _
          | decided _ _ _ hchildren =>
            rw [hchildren]
            exact Nat.zero_le _
        refine hi.move hsent (by rw [hloop]; exact Nat.le_refl _) (fun j hj => ?_) nofun
        cases hj
        exact Nat.lt_of_lt_of_le hlt hlen
      · refine hi.move (Nat.le_refl _) (by rw [hloop]; exact hsent) nofun nofun
    · cases hs
  | read =>
    simp only [splitStep] at hs
    split at hs
    · next i hloop =>
      have hlt := hi.reads i hloop
      have hall := hi.counting (i := i) (by rw [hloop]; exact Nat.le_refl _) hlt
      obtain ⟨-, hchildren⟩ := hi.phase.of_lt hall
      have hget : s.children[i]? = some split.children[i] := by
        rw [hchildren]
        exact List.getElem?_eq_getElem hlt
      rw [hget] at hs
      simp only [Option.some.injEq] at hs
      subst hs
      refine hi.move ?_ ?_ nofun ?_
      · exact Nat.le_of_lt hlt
      · rw [hloop]
        exact Nat.le_refl _
      · intro j c hj
        cases hj
        exact List.getElem?_eq_getElem hlt
    · cases hs
  | submit cfg =>
    simp only [splitStep] at hs
    split at hs
    · next i c hloop =>
      split at hs
      · obtain ⟨f, hf, rfl⟩ := Option.map_eq_some_iff.1 hs
        exact hi.submit hloop hf
      · cases hs
    · cases hs
  | next =>
    simp only [splitStep] at hs
    split at hs
    · next i hloop =>
      split at hs
      · cases hs
        have hsent := hi.sent
        rw [hloop] at hsent
        exact hi.move hsent (by rw [hloop]; exact Nat.le_refl _) nofun nofun
      · cases hs
    · cases hs
  | branch th =>
    simp only [splitStep] at hs
    split at hs
    · cases hs
    · next d hd =>
      have hb := hi.branch hd
      split at hs
      · next hlast =>
        cases hs
        rwa [if_pos hlast] at hb
      · next hmore =>
        cases hs
        rwa [if_neg hmore] at hb

theorem inv_start : Inv split others (start split others) := by
  have hcount : split.children.countP (counted (start split others).fine) = 0 := by
    refine List.countP_eq_zero.2 fun c hc => ?_
    have hnot : counted (LifeCycle.start (split.listeners others)) c = false :=
      not_counted (LifeCycle.inv_start _) hc nofun
    exact Bool.eq_false_iff.1 hnot
  refine ⟨LifeCycle.inv_start _, hcount.symm, nofun, .counting ?_ rfl rfl, Nat.zero_le _,
    fun _ _ _ _ => nofun, nofun, nofun, rfl⟩
  exact Nat.lt_trans Nat.one_pos split.split

theorem inv_reachable (hr : (system split others t).Reachable s) : Inv split others s := by
  refine LTS.Inductive.reachable (I := Inv split others) ⟨?_, ?_⟩ s hr
  · intro s hs
    rw [show s = start split others from hs]
    exact inv_start
  · intro s a s' hi hs
    exact inv_step hi hs

/-! ## The parent is completed -/

theorem hear_fine {f : Fine} (r : Option (Thread × Note)) :
    ({ s with fine := f }.hear split r).fine = f := by
  cases r with
  | none => rfl
  | some r =>
    unfold Group.hear Group.listen
    dsimp only
    split
    · split
      · rfl
      · rfl
    · rfl

variable (others t) in
theorem branch_step {d : Nat} (hd : s.done th = some d) :
    ∃ s', (system split others t).step s (.branch th) s' ∧ s'.fine = s.fine ∧ s'.done th = none ∧
      (d = split.splitCount → s'.parents = s.parents ++ [s.allCompleted split]) := by
  have hstep : splitStep split others t s (.branch th) =
      if d = split.splitCount then
        some { s with
          done := update s.done th none
          children := []
          parents := s.parents ++ [s.allCompleted split] }
      else some { s with done := update s.done th none } := by
    simp only [splitStep, hd]
  by_cases hlast : d = split.splitCount
  · rw [if_pos hlast] at hstep
    exact ⟨_, hstep, rfl, Function.update_self .., fun _ => rfl⟩
  · rw [if_neg hlast] at hstep
    exact ⟨_, hstep, rfl, Function.update_self .., fun h => absurd h hlast⟩

variable (split others t s th) in
/-- A thread that has counted can compare. -/
theorem leaves (cfg : Config) : ∃ acts s', (system split others t).Run s acts s' ∧
    s'.fine = s.fine ∧ s'.done th = none ∧ ∀ act ∈ acts, act.inListener cfg := by
  cases hd : s.done th with
  | none => exact ⟨[], s, .nil s, rfl, hd, nofun⟩
  | some d =>
    obtain ⟨s', hs', hfine, hdone, -⟩ := branch_step others t hd
    refine ⟨[.branch th], s', .cons hs' (.nil s'), hfine, hdone, fun act hact => ?_⟩
    rw [List.mem_singleton.1 hact]
    trivial

variable (split others t th) in
/-- A thread that tells listeners can do so to the end. -/
theorem tells_out (cfg : Config) (hf : s.fine.failed = false) :
    ∃ acts s', (system split others t).Run s acts s' ∧
      s'.fine.heard = s.fine.heard ++ (s.fine.task th).notes ∧
      s'.fine.m.cmdState = s.fine.m.cmdState ∧ ∀ act ∈ acts, act.inListener cfg := by
  rcases htask : s.fine.task th with ⟨calls, notes⟩
  induction notes generalizing s with
  | nil => exact ⟨[], s, .nil s, (List.append_nil _).symm, rfl, nofun⟩
  | cons note notes ih =>
    obtain ⟨acts₁, s₁, hrun₁, hfine, hdone, hin₁⟩ := leaves split others t s th cfg
    let f : Fine :=
      { s.fine with
        task := update s.fine.task th ⟨calls, notes⟩
        heard := s.fine.heard ++ [note] }
    have htick : fineStep (split.listeners others) cfg s₁.fine (.tick th) = some f := by
      have ht : s.fine.notify.task th = ⟨calls, note :: notes⟩ := htask
      rw [hfine]
      unfold fineStep Notify.State.tick
      rw [if_neg (by rw [hf]; nofun)]
      simp only [ht]
      rfl
    let s₂ : Group := { s₁ with fine := f }.hear split (told s₁.fine (.tick th))
    have hstep : (system split others t).step s₁ (.fine cfg (.tick th)) s₂ := by
      have hmay : s₁.MayStep split t (.tick th) := hdone
      change splitStep split others t s₁ (.fine cfg (.tick th)) = some s₂
      simp only [splitStep, if_pos hmay, htick]
      rfl
    have hf₂ : s₂.fine = f := hear_fine _
    obtain ⟨acts, s', hrun, hheard, hstate, hin⟩ := ih (s := s₂) (by rw [hf₂]; exact hf)
      (by rw [hf₂]; exact Function.update_self ..)
    refine ⟨acts₁ ++ .fine cfg (.tick th) :: acts, s', hrun₁.append (.cons hstep hrun), ?_, ?_, ?_⟩
    · rw [hheard, hf₂]
      exact List.append_assoc ..
    · rw [hstate, hf₂]
    · exact List.forall_mem_append.2 ⟨hin₁, List.forall_mem_cons.2 ⟨rfl, hin⟩⟩

/-- The listeners of a Completed child have heard of it when nobody tells them any
more. -/
theorem counted_of_quiet (hi : Inv split others s) {c : HwCommand} (hc : c ∈ split.children)
    (hstate : s.fine.m.cmdState (.hardware c) = .completed)
    (hquiet : ∀ th, ¬ s.fine.Telling th (.hardware c)) : counted s.fine c = true := by
  have hheard := hi.fine.notify.quiet (l := 1) (by rw [listeners_child hc]; exact Nat.one_lt_two)
    hquiet
  refine decide_eq_true ?_
  unfold Fine.heardBy
  rw [show s.fine.heard = s.fine.notify.heard from rfl, hheard]
  change XCommandState.completed ∈ passed .created (s.fine.m.cmdState (.hardware c))
  rw [hstate]
  decide

/-- What a listener has heard, it has heard. -/
theorem counted_mono {f f' : Fine} {notes : List Note} (hheard : f'.heard = f.heard ++ notes)
    {c : HwCommand} (h : counted f c = true) : counted f' c = true := by
  refine decide_eq_true ?_
  unfold Fine.heardBy
  rw [hheard, Notify.toldBy_append]
  exact List.mem_append_left _ (of_decide_eq_true h)

/-- One of the threads that tell the listeners of the children goes on to the end. -/
theorem Inv.counts_more (hi : Inv split others s) (cfg : Config)
    (hall : ∀ c ∈ split.children, s.fine.m.cmdState (.hardware c) = .completed)
    (hlt : s.completed < split.splitCount) :
    ∃ acts s', (system split others t).Run s acts s' ∧
      s'.fine.m.cmdState = s.fine.m.cmdState ∧
      split.children.countP (counted s.fine) < split.children.countP (counted s'.fine) ∧
      ∀ act ∈ acts, act.inListener cfg := by
  rw [hi.count] at hlt
  obtain ⟨c, hc, hold⟩ := List.countP_lt_length_iff.1 hlt
  obtain ⟨th, htells⟩ : ∃ th, s.fine.Telling th (.hardware c) := by
    by_contra hno
    rw [counted_of_quiet hi hc (hall c hc) (not_exists.1 hno)] at hold
    cases hold
  obtain ⟨acts, s', hrun, hheard, hstate, hin⟩ :=
    tells_out split others t th cfg hi.fine.notify.failed
  refine ⟨acts, s', hrun, hstate, ?_, hin⟩
  have htold := hi.fine.notify.telling (l := 1)
    (by rw [listeners_child hc]; exact Nat.one_lt_two) htells
  have hnew : counted s'.fine c = true := by
    refine decide_eq_true ?_
    unfold Fine.heardBy
    rw [hheard, Notify.toldBy_append]
    have hstate := hall c hc
    change Notify.toldBy s.fine.heard (.hardware c) 1 ++
      Notify.toldBy (s.fine.task th).notes (.hardware c) 1 =
        passed .created (s.fine.m.cmdState (.hardware c)) at htold
    rw [htold, hstate]
    decide
  have hone : split.children.countP (fun d => counted s.fine d || decide (d = c)) =
      split.children.countP (counted s.fine) + 1 :=
    countP_succ split.nodup hc hold fun d _ => by simp
  have hmono : split.children.countP (fun d => counted s.fine d || decide (d = c)) ≤
      split.children.countP (counted s'.fine) := by
    refine List.countP_mono_left fun d _ hd => ?_
    rcases Bool.or_eq_true_iff.1 hd with hd | hd
    · exact counted_mono hheard hd
    · rw [of_decide_eq_true hd]
      exact hnew
  omega

end

/-- When the children are Completed, the threads that tell their listeners can go on
until the parent is completed, whatever the others do or do not do. -/
theorem parent_completes (split : Split) (others : XCommand → Nat) (t : Nat) (cfg : Config)
    (s : Group) (hr : (system split others t).Reachable s)
    (hall : ∀ c ∈ split.children, s.fine.m.cmdState (.hardware c) = .completed) :
    ∃ acts s', (system split others t).Run s acts s' ∧ s'.parents = [true] ∧
      ∀ act ∈ acts, act.inListener cfg := by
  have hi := inv_reachable hr
  cases hi.phase with
  | decided _ _ hparents => exact ⟨[], s, .nil s, hparents, nofun⟩
  | deciding th hcount hdone hparents =>
    obtain ⟨s', hs', -, -, hmore⟩ := branch_step others t ((hdone th).2 rfl)
    refine ⟨[.branch th], s', .cons hs' (.nil s'), ?_, fun act hact => ?_⟩
    · rw [hmore rfl, hparents, hi.all_completed hcount]
      rfl
    · rw [List.mem_singleton.1 hact]
      trivial
  | counting hlt =>
    obtain ⟨acts, s', hrun, hstate, hcount, hin⟩ := hi.counts_more (t := t) cfg hall hlt
    have hr' := hr.run hrun
    have hless : split.splitCount - s'.completed < split.splitCount - s.completed := by
      have hi' := inv_reachable hr'
      rw [← hi.count, ← hi'.count] at hcount
      omega
    obtain ⟨acts', s'', hrun', hparents, hin'⟩ :=
      parent_completes split others t cfg s' hr' (by rw [hstate]; exact hall)
    exact ⟨acts ++ acts', s'', hrun.append hrun', hparents, List.forall_mem_append.2 ⟨hin, hin'⟩⟩
termination_by split.splitCount - s.completed

/-- **A split parent completes once, after all children.** In every state of every run
the branch was not taken, and all children are in the vector, or it was taken once,
when all of them were Completed; and the loop has read no element that was not there.
When all children are Completed, it was taken if no thread is in a listener of theirs,
and else those that are can go on until it is. -/
theorem split_parent_once (split : Split) (others : XCommand → Nat) (t : Nat) (s : Group)
    (hr : (system split others t).Reachable s) :
    (s.parents = [] ∧ s.children = split.children ∨ s.parents = [true]) ∧ s.missed = false ∧
      ((∀ c ∈ split.children, s.fine.m.cmdState (.hardware c) = .completed) →
        ((∀ th, s.done th = none ∧ ∀ c ∈ split.children, ¬ s.fine.Telling th (.hardware c)) →
          s.parents = [true]) ∧
        ∀ cfg : Config, ∃ acts s', (system split others t).Run s acts s' ∧ s'.parents = [true] ∧
          ∀ act ∈ acts, act.inListener cfg) := by
  have hi := inv_reachable hr
  refine ⟨?_, hi.missed, fun hall => ⟨fun hquiet => ?_, fun cfg => ?_⟩⟩
  · cases hi.phase with
    | counting _ hparents hchildren | deciding _ _ _ hparents hchildren =>
      exact .inl ⟨hparents, hchildren⟩
    | decided _ _ hparents => exact .inr hparents
  · have hcount : s.completed = split.splitCount := by
      rw [hi.count]
      refine List.countP_eq_length.2 fun c hc => ?_
      exact counted_of_quiet hi hc (hall c hc) fun th => (hquiet th).2 c hc
    cases hi.phase with
    | counting hlt => omega
    | deciding th _ hdone =>
      have hth := (hdone th).2 rfl
      rw [(hquiet th).1] at hth
      cases hth
    | decided _ _ hparents => exact hparents
  · exact parent_completes split others t cfg s hr hall

/-- Two children. -/
def two : Split := ⟨[halCmd 1, halCmd 2], by decide, by decide⟩

/-- The loop submits a child, whose listeners hear that it is Pending. -/
def submitTrace : List SplitAct :=
  [.check, .read, .submit cfgOne] ++ List.replicate 3 (.fine cfgOne (.tick (.client 0))) ++
    [.fine cfgOne (.insert 0), .fine cfgOne (.unlock .cmdBuf), .next]

/-- Another thread drops the children, which completes one after the other. -/
def dropTrace : List SplitAct :=
  .fine cfgOne (.region (.client 1) .dropAll) ::
    List.replicate 8 (.fine cfgOne (.tick (.client 1))) ++ [.branch (.client 1)] ++
    List.replicate 5 (.fine cfgOne (.tick (.client 1))) ++ [.branch (.client 1)]

theorem split_parent_once_dropped : ∃ s : Group,
    s.parents = [true] ∧ s.children = [] ∧
      (s.parents = [] ∧ s.children = two.children ∨ s.parents = [true]) ∧ s.missed = false := by
  have htrace : ((LTS.exec (splitStep two (fun _ => 1) 0) (start two fun _ => 1)
      (.begin :: submitTrace ++ submitTrace ++ dropTrace)).map
      fun s => (s.parents, s.children)) = some ([true], []) := by decide +kernel
  obtain ⟨s, hs, he⟩ := Option.map_eq_some_iff.1 htrace
  have honce := split_parent_once two (fun _ => 1) 0 s (LTS.reachable_of_exec rfl hs)
  exact ⟨s, congrArg Prod.fst he, congrArg Prod.snd he, honce.1, honce.2.1⟩

end SplitGroup
end Xsched.HbSplit
