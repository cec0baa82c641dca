import Mathlib.Data.List.Nodup
import Mathlib.Data.List.Induction

/-!
# Slicing a Level Zero command list

A regular command list of the application and its slices: command lists of
the shim's own, taken from a pool, each with up to `sliceCmdCnt` launches.
`zeCommandListAppendLaunchKernel` goes through the list manager and appends
to the newest slice. The other appends are exported as redirects: they call
the driver with the application's handle and never reach the manager. An
execute call submits the slices if there are any, else the list itself.

What is submitted is then the launches alone or the redirected appends alone.
It is what was appended exactly if the two were not mixed since the last
reset (`execute_submits_appended_iff`); a copy and a launch on one list lose
the copy (`execute_loses_copy`).

**The driver.** Creating, closing and resetting a list succeeds; whether the
driver takes an append is an answer in the operation. An operation is on the
one list: those on other lists, which share the pool, are not modelled.
-/
namespace Xsched.LevelZero

/-- The driver's command list; a handle of it is a number. -/
structure CmdList (α : Type) where
  contents : List α
  closed : Bool

def CmdList.empty {α : Type} : CmdList α := ⟨[], false⟩

/-- The entry of `slices_` for the list.
mirrors platforms/levelzero/shim/include/xsched/levelzero/shim/cmd_list.h:15-22 -/
structure SlicedCommandList where
  cmdCnt : UInt64
  cmdLists : List Nat

/-- `ok` is the driver's answer to an append. `appendRedirected` stands for
each append that is a redirect.
mirrors platforms/levelzero/shim/src/intercept.cpp:49,56-57,59-67,135 -/
inductive ListOp (α : Type) where
  | appendLaunchKernel (c : α) (ok : Bool)
  | appendRedirected (c : α) (ok : Bool)
  | close
  | execute
  | reset

structure ListShim (α : Type) where
  lists : Nat → CmdList α
  sliced : SlicedCommandList
  /-- `CommandListPool`, the back of the vector first -/
  pool : List Nat
  nextHandle : Nat

/-- The application's list. -/
def userList : Nat := 0

/-- mirrors platforms/levelzero/hal/include/xsched/levelzero/hal/pool.h:45-58 -/
def kPoolSize : Nat := 64

variable {α : Type}

namespace ListShim

/-- After `zeCommandListCreate`. -/
def init : ListShim α where
  lists := fun _ => .empty
  sliced := ⟨0, []⟩
  pool := []
  nextHandle := 1

def setList (h : Nat) (l : CmdList α) (s : ListShim α) : ListShim α :=
  { s with lists := Function.update s.lists h l }

/-- `Driver::CommandListAppend…` on list `h`. -/
def driverAppend (h : Nat) (c : α) (ok : Bool) (s : ListShim α) : ListShim α :=
  setList h { s.lists h with contents := (s.lists h).contents ++ if ok then [c] else [] } s

def driverClose (h : Nat) (s : ListShim α) : ListShim α :=
  setList h { s.lists h with closed := true } s

def driverReset (h : Nat) (s : ListShim α) : ListShim α := setList h .empty s

/-- An empty pool creates `kPoolSize` lists and one more, which it returns.
mirrors utils/include/xsched/utils/pool.h:15-30 and
platforms/levelzero/hal/src/pool.cpp:119-130 -/
def poolPop (s : ListShim α) : Nat × ListShim α :=
  match s.pool with
  | h :: rest => (h, { s with pool := rest })
  | [] => (s.nextHandle + kPoolSize,
      { s with pool := ((List.range kPoolSize).map (s.nextHandle + ·)).reverse
               nextHandle := s.nextHandle + kPoolSize + 1 })

def poolPush (h : Nat) (s : ListShim α) : ListShim α := { s with pool := h :: s.pool }

/-- mirrors platforms/levelzero/shim/src/cmd_list.cpp:85-97 -/
def append (sliceCmdCnt : UInt64) (c : α) (ok : Bool) (s : ListShim α) : ListShim α :=
  if sliceCmdCnt = 0 then driverAppend userList c ok s
  else
    let s' :=
      if s.sliced.cmdCnt % sliceCmdCnt = 0 then
        let (h, s) := poolPop s
        { s with sliced := ⟨s.sliced.cmdCnt + 1, s.sliced.cmdLists ++ [h]⟩ }
      else { s with sliced := ⟨s.sliced.cmdCnt + 1, s.sliced.cmdLists⟩ }
    match s'.sliced.cmdLists.getLast? with
    | some back => driverAppend back c ok s'
    | none => s'

def closeAll : List Nat → ListShim α → ListShim α
  | [], s => s
  | h :: hs, s => closeAll hs (driverClose h s)

/-- mirrors platforms/levelzero/shim/src/cmd_list.cpp:50-64 -/
def close (sliceCmdCnt : UInt64) (s : ListShim α) : ListShim α :=
  if sliceCmdCnt = 0 then driverClose userList s
  else closeAll s.sliced.cmdLists (driverClose userList s)

def resetAll : List Nat → ListShim α → ListShim α
  | [], s => s
  | h :: hs, s => resetAll hs (poolPush h (driverReset h s))

/-- mirrors platforms/levelzero/shim/src/cmd_list.cpp:66-83 and
platforms/levelzero/shim/src/shim.cpp:119-129 -/
def reset (sliceCmdCnt : UInt64) (s : ListShim α) : ListShim α :=
  if sliceCmdCnt = 0 then driverReset userList s
  else
    let s := resetAll s.sliced.cmdLists (driverReset userList s)
    { s with sliced := ⟨0, []⟩ }

/-- The command lists that `XCommandQueueExecuteCommandLists` submits for the
list. mirrors platforms/levelzero/shim/src/shim.cpp:38-74 and
platforms/levelzero/shim/src/cmd_list.cpp:7-14 -/
def executeCommandLists (sliceCmdCnt : UInt64) (s : ListShim α) : List Nat :=
  if sliceCmdCnt = 0 ∨ s.sliced.cmdLists = [] then [userList] else s.sliced.cmdLists

/-- The commands in a sequence of command lists. -/
def commands (s : ListShim α) (hs : List Nat) : List α :=
  hs.flatMap fun h => (s.lists h).contents

def step (sliceCmdCnt : UInt64) (s : ListShim α) : ListOp α → ListShim α
  | .appendLaunchKernel c ok => append sliceCmdCnt c ok s
  | .appendRedirected c ok => driverAppend userList c ok s
  | .close => close sliceCmdCnt s
  | .execute => s
  | .reset => reset sliceCmdCnt s

def run (sliceCmdCnt : UInt64) (ops : List (ListOp α)) : ListShim α :=
  ops.foldl (step sliceCmdCnt) init

end ListShim

/-! ## What was appended -/

def ListOp.isReset : ListOp α → Bool
  | .reset => true
  | _ => false

/-- The operations since the list was created or last reset. -/
def sinceReset (ops : List (ListOp α)) : List (ListOp α) :=
  (ops.reverse.takeWhile fun op => !op.isReset).reverse

/-- The launch the operation appended. -/
def ListOp.kernel : ListOp α → Option α
  | .appendLaunchKernel c true => some c
  | _ => none

def ListOp.redirected : ListOp α → Option α
  | .appendRedirected c true => some c
  | _ => none

def ListOp.command (op : ListOp α) : Option α := op.kernel.or op.redirected

/-- The commands appended since the list was created or last reset. -/
def appended (ops : List (ListOp α)) : List α := (sinceReset ops).filterMap ListOp.command

def ListOp.isLaunch : ListOp α → Bool
  | .appendLaunchKernel _ _ => true
  | _ => false

/-- A launch was tried and a redirected append taken since the last reset. -/
def Mixed (ops : List (ListOp α)) : Prop :=
  (∃ op ∈ sinceReset ops, op.isLaunch) ∧ ∃ op ∈ sinceReset ops, op.redirected.isSome

theorem sinceReset_snoc (ops : List (ListOp α)) (op : ListOp α) :
    sinceReset (ops ++ [op]) = if op.isReset then [] else sinceReset ops ++ [op] := by
  unfold sinceReset
  rw [List.reverse_append, List.reverse_singleton, List.singleton_append, List.takeWhile_cons]
  cases op.isReset <;> simp

theorem sinceReset_keep (ops : List (ListOp α)) (op : ListOp α) (hr : op.isReset = false) :
    sinceReset (ops ++ [op]) = sinceReset ops ++ [op] := by
  rw [sinceReset_snoc, hr]; rfl

theorem filterMap_snoc {β γ : Type} (f : β → Option γ) (l : List β) (x : β) :
    (l ++ [x]).filterMap f = l.filterMap f ++ (f x).toList := by
  rw [List.filterMap_append]
  cases hf : f x with
  | none => rw [List.filterMap_cons_none hf]; rfl
  | some y => rw [List.filterMap_cons_some hf]; rfl

theorem exists_snoc {β : Type} (p : β → Bool) (l : List β) (x : β) :
    (∃ y ∈ l ++ [x], p y) ↔ (∃ y ∈ l, p y) ∨ p x := by
  simp only [List.mem_append, List.mem_singleton, or_and_right, exists_or, exists_eq_left]

theorem appended_keep (ops : List (ListOp α)) (op : ListOp α) (hr : op.isReset = false) :
    appended (ops ++ [op]) = appended ops ++ op.command.toList := by
  rw [appended, sinceReset_keep ops op hr, filterMap_snoc, appended]

namespace ListShim

/-! ## Single operations -/

theorem setList_self (h : Nat) (l : CmdList α) (s : ListShim α) : (setList h l s).lists h = l :=
  Function.update_self _ _ _

theorem setList_other {h x : Nat} (l : CmdList α) (s : ListShim α) (hx : x ≠ h) :
    (setList h l s).lists x = s.lists x := Function.update_of_ne hx _ _

theorem commands_congr {s s' : ListShim α} {hs : List Nat}
    (h : ∀ x ∈ hs, (s'.lists x).contents = (s.lists x).contents) :
    s'.commands hs = s.commands hs := by
  unfold commands
  exact List.flatMap_congr h

/-- An append shows at the end of the list's contents. -/
theorem driverAppend_contents (h : Nat) (c : α) (ok : Bool) (s : ListShim α) :
    ((driverAppend h c ok s).lists h).contents =
      (s.lists h).contents ++ if ok then [c] else [] := by
  rw [driverAppend, setList_self]

/-- On the last list of a sequence it shows at the end of the sequence. -/
theorem driverAppend_commands {hs : List Nat} {back : Nat} (c : α) (ok : Bool)
    (s : ListShim α) (hd : (hs ++ [back]).Nodup) :
    (driverAppend back c ok s).commands (hs ++ [back]) =
      s.commands (hs ++ [back]) ++ if ok then [c] else [] := by
  have hnot : back ∉ hs := by
    intro hm
    exact (List.nodup_append.1 hd).2.2 back hm back List.mem_cons_self rfl
  have hfront : (driverAppend back c ok s).commands hs = s.commands hs := by
    refine commands_congr fun x hx => ?_
    have hne : x ≠ back := by
      rintro rfl
      exact hnot hx
    rw [driverAppend, setList_other _ _ hne]
  have hsplit (s : ListShim α) :
      s.commands (hs ++ [back]) = s.commands hs ++ (s.lists back).contents := by
    unfold commands
    rw [List.flatMap_append, List.flatMap_singleton]
  rw [hsplit, hsplit, hfront, driverAppend_contents, List.append_assoc]

theorem closeAll_contents (hs : List Nat) (s : ListShim α) (x : Nat) :
    ((closeAll hs s).lists x).contents = (s.lists x).contents := by
  induction hs generalizing s with
  | nil => rfl
  | cons h hs ih =>
    rw [closeAll, ih, driverClose]
    by_cases hx : x = h
    · rw [hx, setList_self]
    · rw [setList_other _ _ hx]

theorem closeAll_frame (hs : List Nat) (s : ListShim α) :
    (closeAll hs s).sliced = s.sliced ∧ (closeAll hs s).pool = s.pool ∧
      (closeAll hs s).nextHandle = s.nextHandle := by
  induction hs generalizing s with
  | nil => exact ⟨rfl, rfl, rfl⟩
  | cons h hs ih => exact ih (driverClose h s)

theorem resetAll_lists (hs : List Nat) (s : ListShim α) (x : Nat) :
    (resetAll hs s).lists x = if x ∈ hs then .empty else s.lists x := by
  induction hs generalizing s with
  | nil => rfl
  | cons h hs ih =>
    rw [resetAll, ih, poolPush, driverReset]
    by_cases hx : x = h
    · subst hx
      rw [setList_self, if_pos List.mem_cons_self]
      exact ite_self _
    · rw [setList_other _ _ hx]
      simp only [List.mem_cons, hx, false_or]

theorem resetAll_frame (hs : List Nat) (s : ListShim α) :
    (resetAll hs s).pool = hs.reverse ++ s.pool ∧ (resetAll hs s).nextHandle = s.nextHandle := by
  induction hs generalizing s with
  | nil => exact ⟨rfl, rfl⟩
  | cons h hs ih =>
    obtain ⟨hp, hn⟩ := ih (poolPush h (driverReset h s))
    refine ⟨?_, hn⟩
    rw [resetAll, hp, List.reverse_cons, List.append_assoc]
    rfl

/-! ## The handles -/

/-- The slices `hs` and the pool are distinct lists, none of them the
application's. -/
structure Owned (s : ListShim α) (hs : List Nat) : Prop where
  distinct : (hs ++ s.pool).Nodup
  bound : ∀ x ∈ hs ++ s.pool, userList < x ∧ x < s.nextHandle
  next : userList < s.nextHandle

theorem Owned.user_not_mem {s : ListShim α} {hs : List Nat} (h : s.Owned hs) :
    userList ∉ hs := by
  intro hm
  have hlt := (h.bound userList (List.mem_append_left _ hm)).1
  omega

theorem owned_poolPop {s : ListShim α} {hs : List Nat} (h : s.Owned hs) :
    (poolPop s).2.Owned (hs ++ [(poolPop s).1]) ∧ (poolPop s).1 ∉ hs := by
  have hnext := h.next
  unfold poolPop
  cases hp : s.pool with
  | cons y rest =>
    have hd := h.distinct
    have hb := h.bound
    rw [hp] at hd hb
    have he : hs ++ [y] ++ rest = hs ++ y :: rest := by simp
    refine ⟨⟨by rw [he]; exact hd, by rw [he]; exact hb, hnext⟩, fun hm => ?_⟩
    exact (List.nodup_append.1 hd).2.2 y hm y List.mem_cons_self rfl
  | nil =>
    have hd := h.distinct
    have hb := h.bound
    rw [hp, List.append_nil] at hd hb
    have hnew : ∀ x ∈ ((List.range kPoolSize).map (s.nextHandle + ·)).reverse,
        s.nextHandle ≤ x ∧ x < s.nextHandle + kPoolSize := by
      intro x hx
      obtain ⟨i, hi, rfl⟩ := List.mem_map.1 (List.mem_reverse.1 hx)
      rw [List.mem_range] at hi
      omega
    have hfresh : s.nextHandle + kPoolSize ∉ hs := by
      intro hm
      have hlt := (hb _ hm).2
      omega
    refine ⟨⟨?_, fun x hx => ?_, ?_⟩, hfresh⟩
    · rw [List.nodup_append, List.nodup_append]
      refine ⟨⟨hd, List.nodup_singleton _, fun x hx y hy => ?_⟩, ?_, fun x hx y hy => ?_⟩
      · have he : y = s.nextHandle + kPoolSize := List.mem_singleton.1 hy
        rintro rfl
        exact hfresh (he ▸ hx)
      · rw [List.nodup_reverse]
        exact List.nodup_range.map fun i j hij => by simpa using hij
      · have hy' := hnew y hy
        rcases List.mem_append.1 hx with hx | hx
        · have hlt := (hb x hx).2
          omega
        · have he : x = s.nextHandle + kPoolSize := List.mem_singleton.1 hx
          omega
    · show userList < x ∧ x < s.nextHandle + kPoolSize + 1
      rcases List.mem_append.1 hx with hx | hx
      · rcases List.mem_append.1 hx with hx | hx
        · have hx' := hb x hx
          omega
        · have he : x = s.nextHandle + kPoolSize := List.mem_singleton.1 hx
          omega
      · have hx' := hnew x hx
        omega
    · show userList < s.nextHandle + kPoolSize + 1
      omega

theorem poolPop_frame (s : ListShim α) :
    (poolPop s).2.lists = s.lists ∧ (poolPop s).2.sliced = s.sliced := by
  unfold poolPop
  cases s.pool <;> exact ⟨rfl, rfl⟩

/-! ## The two representations -/

/-- What the operations leave in the application's list and in the slices. -/
structure Inv (ops : List (ListOp α)) (s : ListShim α) : Prop where
  user : (s.lists userList).contents = (sinceReset ops).filterMap ListOp.redirected
  slices : s.commands s.sliced.cmdLists = (sinceReset ops).filterMap ListOp.kernel
  launch : s.sliced.cmdLists ≠ [] ↔ ∃ op ∈ sinceReset ops, op.isLaunch
  cnt : s.sliced.cmdLists = [] → s.sliced.cmdCnt = 0
  owned : s.Owned s.sliced.cmdLists
  free : ∀ x, x ≠ userList → x ∉ s.sliced.cmdLists → (s.lists x).contents = []

variable {n : UInt64} {s : ListShim α} {ops : List (ListOp α)}

/-- A launch goes to the newest slice, which may be new. -/
theorem append_spec (hn : n ≠ 0) (h : Inv ops s) (c : α) (ok : Bool) :
    ∃ hs back s', append n c ok s = driverAppend back c ok s' ∧ s'.lists = s.lists ∧
      s'.sliced.cmdLists = hs ++ [back] ∧ s'.Owned (hs ++ [back]) ∧
      (s.sliced.cmdLists = hs ++ [back] ∨ s.sliced.cmdLists = hs ∧ back ∉ hs) := by
  unfold append
  rw [if_neg hn]
  by_cases hmod : s.sliced.cmdCnt % n = 0
  · obtain ⟨hown, hnot⟩ := owned_poolPop h.owned
    obtain ⟨hlists, hsliced⟩ := poolPop_frame s
    refine ⟨s.sliced.cmdLists, (poolPop s).1, { (poolPop s).2 with
      sliced := ⟨s.sliced.cmdCnt + 1, s.sliced.cmdLists ++ [(poolPop s).1]⟩ }, ?_, hlists, rfl,
      ⟨hown.distinct, hown.bound, hown.next⟩, .inr ⟨rfl, hnot⟩⟩
    simp only [if_pos hmod, hsliced, List.getLast?_concat]
  · have hne : s.sliced.cmdLists ≠ [] := by
      intro hnil
      rw [h.cnt hnil] at hmod
      exact hmod (UInt64.zero_mod)
    obtain ⟨hs, back, he⟩ := (List.eq_nil_or_concat s.sliced.cmdLists).resolve_left hne
    rw [List.concat_eq_append] at he
    have hown := h.owned
    rw [he] at hown
    refine ⟨hs, back, { s with sliced := ⟨s.sliced.cmdCnt + 1, s.sliced.cmdLists⟩ }, ?_, rfl, he,
      ⟨hown.distinct, hown.bound, hown.next⟩, .inl he⟩
    simp only [if_neg hmod, he, List.getLast?_concat]

/-- An operation that appends nothing. -/
theorem Inv.quiet {s' : ListShim α} {op : ListOp α} (h : Inv ops s) (hr : op.isReset = false)
    (hk : op.kernel = none) (hd : op.redirected = none) (hl : op.isLaunch = false)
    (hlists : ∀ x, (s'.lists x).contents = (s.lists x).contents) (hsl : s'.sliced = s.sliced)
    (hp : s'.pool = s.pool) (hnext : s'.nextHandle = s.nextHandle) : Inv (ops ++ [op]) s' := by
  have hsince := sinceReset_keep ops op hr
  have hown := h.owned
  refine ⟨?_, ?_, ?_, by rw [hsl]; exact h.cnt, ?_, fun x hx hm => ?_⟩
  · rw [hsince, filterMap_snoc, hd, hlists, h.user]
    exact (List.append_nil _).symm
  · rw [hsince, filterMap_snoc, hk, hsl, commands_congr fun x _ => hlists x, h.slices]
    exact (List.append_nil _).symm
  · rw [hsince, exists_snoc, hl, hsl, h.launch]
    simp
  · rw [hsl]
    exact ⟨by rw [hp]; exact hown.distinct, by rw [hp, hnext]; exact hown.bound,
      by rw [hnext]; exact hown.next⟩
  · rw [hsl] at hm
    rw [hlists]; exact h.free x hx hm

theorem inv_launch (hn : n ≠ 0) (h : Inv ops s) (c : α) (ok : Bool) :
    Inv (ops ++ [.appendLaunchKernel c ok]) (append n c ok s) := by
  obtain ⟨hs, back, s', he, hlists, hsl, hown, hold⟩ := append_spec hn h c ok
  have hsince := sinceReset_keep ops (.appendLaunchKernel c ok) rfl
  have hback : back ≠ userList := by
    rintro rfl
    exact hown.user_not_mem (List.mem_append_right _ List.mem_cons_self)
  have hcmds : s'.commands (hs ++ [back]) = s.commands s.sliced.cmdLists := by
    have hsame : s'.commands (hs ++ [back]) = s.commands (hs ++ [back]) :=
      commands_congr fun x _ => by rw [hlists]
    rcases hold with hc | ⟨hc, hnot⟩
    · rw [hsame, hc]
    · -- the new slice is empty
      have hempty := h.free back hback (by rw [hc]; exact hnot)
      rw [hsame, hc, commands, List.flatMap_append, List.flatMap_singleton, hempty,
        List.append_nil]
      rfl
  rw [he]
  refine ⟨?_, ?_, ?_, fun hnil => ?_, ?_, fun x hx hm => ?_⟩
  · rw [hsince, filterMap_snoc, driverAppend, setList_other _ _ hback.symm, hlists, h.user]
    exact (List.append_nil _).symm
  · show (driverAppend back c ok s').commands s'.sliced.cmdLists = _
    rw [hsl, driverAppend_commands c ok s' (hown.distinct.sublist (List.sublist_append_left _ _)),
      hcmds, h.slices, hsince, filterMap_snoc]
    cases ok <;> rfl
  · rw [hsince, exists_snoc]
    refine ⟨fun _ => .inr rfl, fun _ => ?_⟩
    show s'.sliced.cmdLists ≠ []
    rw [hsl]; exact List.append_ne_nil_of_right_ne_nil _ (List.cons_ne_nil _ _)
  · have hne : s'.sliced.cmdLists = [] := hnil
    rw [hsl] at hne
    exact absurd hne (List.append_ne_nil_of_right_ne_nil _ (List.cons_ne_nil _ _))
  · show (driverAppend back c ok s').Owned s'.sliced.cmdLists
    rw [hsl]
    exact ⟨hown.distinct, hown.bound, hown.next⟩
  · have hm' : x ∉ hs ++ [back] := by
      rw [← hsl]; exact hm
    have hxb : x ≠ back := by
      rintro rfl
      exact hm' (List.mem_append_right _ List.mem_cons_self)
    rw [driverAppend, setList_other _ _ hxb, hlists]
    refine h.free x hx fun hin => hm' ?_
    rcases hold with hc | ⟨hc, -⟩
    · rw [← hc]; exact hin
    · exact List.mem_append_left _ (by rw [← hc]; exact hin)

theorem inv_redirected (h : Inv ops s) (c : α) (ok : Bool) :
    Inv (ops ++ [.appendRedirected c ok]) (driverAppend userList c ok s) := by
  have hsince := sinceReset_keep ops (.appendRedirected c ok) rfl
  have hother (x : Nat) (hx : x ≠ userList) :
      (driverAppend userList c ok s).lists x = s.lists x := by
    rw [driverAppend, setList_other _ _ hx]
  refine ⟨?_, ?_, ?_, h.cnt, ⟨h.owned.distinct, h.owned.bound, h.owned.next⟩, fun x hx hm => ?_⟩
  · rw [hsince, filterMap_snoc, driverAppend_contents, h.user]
    cases ok <;> rfl
  · show (driverAppend userList c ok s).commands s.sliced.cmdLists = _
    rw [hsince, filterMap_snoc, commands_congr, h.slices]
    · exact (List.append_nil _).symm
    · intro x hx
      rw [hother x]
      rintro rfl
      exact h.owned.user_not_mem hx
  · rw [hsince, exists_snoc]
    show s.sliced.cmdLists ≠ [] ↔ _
    rw [h.launch]
    simp [ListOp.isLaunch]
  · rw [hother x hx]
    exact h.free x hx hm

theorem inv_reset (hn : n ≠ 0) (h : Inv ops s) : Inv (ops ++ [.reset]) (reset n s) := by
  have hsince : sinceReset (ops ++ [.reset]) = [] := by
    rw [sinceReset_snoc]; rfl
  have hlists (x : Nat) : ((reset n s).lists x).contents = [] := by
    unfold reset
    rw [if_neg hn]
    show ((resetAll s.sliced.cmdLists (driverReset userList s)).lists x).contents = []
    rw [resetAll_lists]
    split
    · rfl
    · rename_i hx
      by_cases hu : x = userList
      · rw [hu, driverReset, setList_self]; rfl
      · rw [driverReset, setList_other _ _ hu]
        exact h.free x hu hx
  obtain ⟨hp, hnext⟩ := resetAll_frame s.sliced.cmdLists (driverReset userList s)
  have hown := h.owned
  rw [reset, if_neg hn] at hlists ⊢
  refine ⟨by rw [hsince]; exact hlists userList, by rw [hsince]; rfl, ?_, fun _ => rfl, ⟨?_, ?_, ?_⟩,
    fun x _ _ => hlists x⟩
  · rw [hsince]; simp
  · show ([] ++ (resetAll _ _).pool).Nodup
    rw [hp, List.nil_append]
    refine (List.Perm.nodup_iff ?_).1 hown.distinct
    exact (List.reverse_perm _).symm.append_right _
  · show ∀ x ∈ [] ++ (resetAll _ _).pool, userList < x ∧ x < (resetAll _ _).nextHandle
    rw [hp, hnext, List.nil_append]
    intro x hx
    refine hown.bound x ?_
    rcases List.mem_append.1 hx with hx | hx
    · exact List.mem_append_left _ (List.mem_reverse.1 hx)
    · exact List.mem_append_right _ hx
  · show userList < (resetAll _ _).nextHandle
    rw [hnext]; exact hown.next

theorem inv_step (hn : n ≠ 0) (h : Inv ops s) (op : ListOp α) : Inv (ops ++ [op]) (step n s op) := by
  cases op with
  | appendLaunchKernel c ok => exact inv_launch hn h c ok
  | appendRedirected c ok => exact inv_redirected h c ok
  | close =>
    obtain ⟨hsl, hp, hnext⟩ := closeAll_frame s.sliced.cmdLists (driverClose userList s)
    have he : step n s (.close : ListOp α) = closeAll s.sliced.cmdLists (driverClose userList s) := by
      show close n s = _
      rw [close, if_neg hn]
    rw [he]
    refine h.quiet rfl rfl rfl rfl (fun x => ?_) hsl hp hnext
    rw [closeAll_contents, driverClose]
    by_cases hx : x = userList
    · rw [hx, setList_self]
    · rw [setList_other _ _ hx]
  | execute => exact h.quiet rfl rfl rfl rfl (fun _ => rfl) rfl rfl rfl
  | reset => exact inv_reset hn h

theorem run_snoc (n : UInt64) (ops : List (ListOp α)) (op : ListOp α) :
    run n (ops ++ [op]) = step n (run n ops) op := List.foldl_concat _ _ _ _

theorem inv_run (hn : n ≠ 0) (ops : List (ListOp α)) : Inv ops (run n ops) := by
  induction ops using List.reverseRecOn with
  | nil =>
    exact ⟨rfl, rfl, by simp [run, init, sinceReset], fun _ => rfl,
      ⟨List.nodup_nil, fun _ hx => (by cases hx), Nat.one_pos⟩, fun _ _ _ => rfl⟩
  | append_singleton ops op ih =>
    rw [run_snoc]
    exact inv_step hn ih op

/-- Without slicing everything is in the application's list. -/
theorem unsliced_contents (ops : List (ListOp α)) :
    ((run 0 ops).lists userList).contents = appended ops := by
  induction ops using List.reverseRecOn with
  | nil => rfl
  | append_singleton ops op ih =>
    rw [run_snoc]
    cases op with
    | appendLaunchKernel c ok =>
      rw [appended_keep ops _ rfl, ← ih]
      show ((append 0 c ok (run 0 ops)).lists userList).contents = _
      rw [append, if_pos rfl, driverAppend_contents]
      cases ok <;> rfl
    | appendRedirected c ok =>
      rw [appended_keep ops _ rfl, ← ih]
      show ((driverAppend userList c ok (run 0 ops)).lists userList).contents = _
      rw [driverAppend_contents]
      cases ok <;> rfl
    | close =>
      rw [appended_keep ops _ rfl, ← ih]
      show ((close 0 (run 0 ops)).lists userList).contents = _
      rw [close, if_pos rfl, driverClose, setList_self]
      exact (List.append_nil _).symm
    | execute =>
      rw [appended_keep ops _ rfl]
      exact ih.trans (List.append_nil _).symm
    | reset =>
      rw [appended, sinceReset_snoc]
      show ((reset 0 (run 0 ops)).lists userList).contents = []
      rw [reset, if_pos rfl, driverReset, setList_self]
      rfl

end ListShim

/-! ## What is submitted is what was appended -/

/-- Each command appended is a launch or a redirected append. -/
theorem length_commands (l : List (ListOp α)) :
    (l.filterMap ListOp.command).length =
      (l.filterMap ListOp.kernel).length + (l.filterMap ListOp.redirected).length := by
  induction l with
  | nil => rfl
  | cons op l ih =>
    cases op with
    | appendLaunchKernel c ok =>
      cases ok
      · exact ih
      · simp only [List.filterMap_cons, ListOp.command, ListOp.kernel, ListOp.redirected,
          Option.or, List.length_cons, ih]
        omega
    | appendRedirected c ok =>
      cases ok
      · exact ih
      · simp only [List.filterMap_cons, ListOp.command, ListOp.kernel, ListOp.redirected,
          Option.or, List.length_cons, ih]
        omega
    | _ => exact ih

theorem commands_of_no_launch {l : List (ListOp α)} (h : ¬ ∃ op ∈ l, op.isLaunch) :
    l.filterMap ListOp.command = l.filterMap ListOp.redirected := by
  refine List.filterMap_congr fun op hop => ?_
  cases op with
  | appendLaunchKernel c ok => exact absurd ⟨_, hop, rfl⟩ h
  | _ => rfl

theorem commands_of_no_redirected {l : List (ListOp α)} (h : ¬ ∃ op ∈ l, op.redirected.isSome) :
    l.filterMap ListOp.command = l.filterMap ListOp.kernel := by
  refine List.filterMap_congr fun op hop => ?_
  cases op with
  | appendRedirected c ok =>
    cases ok
    · rfl
    · exact absurd ⟨_, hop, rfl⟩ h
  | appendLaunchKernel c ok => cases ok <;> rfl
  | _ => rfl

/-- **Slicing preserves the program** as long as no list mixes launches and
redirected appends between two resets. -/
theorem execute_submits_appended_iff (n : UInt64) (ops : List (ListOp α)) :
    let s := ListShim.run n ops
    s.commands (s.executeCommandLists n) = appended ops ↔ n = 0 ∨ ¬ Mixed ops := by
  intro s
  by_cases hn : n = 0
  · subst hn
    refine ⟨fun _ => .inl rfl, fun _ => ?_⟩
    have he : s.executeCommandLists 0 = [userList] := if_pos (.inl rfl)
    rw [he, ListShim.commands, List.flatMap_singleton]
    exact ListShim.unsliced_contents ops
  · have hinv : ListShim.Inv ops s := ListShim.inv_run hn ops
    by_cases hl : ∃ op ∈ sinceReset ops, op.isLaunch
    · -- the slices are submitted
      have hne := hinv.launch.2 hl
      have he : s.executeCommandLists n = s.sliced.cmdLists :=
        if_neg fun h => h.elim hn hne
      rw [he, hinv.slices, appended]
      refine ⟨fun heq => .inr ?_, fun h => ?_⟩
      · rintro ⟨-, op, hop, hsome⟩
        have hlen := congrArg List.length heq
        rw [length_commands] at hlen
        obtain ⟨c, hc⟩ := Option.isSome_iff_exists.1 hsome
        have hpos := List.length_pos_of_mem (List.mem_filterMap.2 ⟨op, hop, hc⟩)
        omega
      · have hno := (h.resolve_left hn)
        exact (commands_of_no_redirected fun hr => hno ⟨hl, hr⟩).symm
    · -- the application's list is submitted
      have hnil : s.sliced.cmdLists = [] := by
        by_contra hne
        exact hl (hinv.launch.1 hne)
      have he : s.executeCommandLists n = [userList] := if_pos (.inr hnil)
      rw [he, ListShim.commands, List.flatMap_singleton, hinv.user, appended,
        commands_of_no_launch hl]
      exact ⟨fun _ => .inr fun hm => hl hm.1, fun _ => rfl⟩

/-- Three launches in slices of two, and after a reset a copy alone. -/
example :
    let launches : List (ListOp Nat) :=
      [.appendLaunchKernel 1 true, .appendLaunchKernel 2 true, .close, .execute,
        .appendLaunchKernel 3 true]
    (ListShim.run 2 launches).executeCommandLists 2 = [65, 64] ∧
      (ListShim.run 2 launches).commands [65, 64] = [1, 2, 3] ∧
      (ListShim.run 2 (launches ++ [.reset, .appendRedirected 4 true])).executeCommandLists 2 =
        [userList] := by
  decide

/-- **Counterexample**: a launch and a copy on one list, closed and executed:
the copy is not among what is submitted. -/
theorem execute_loses_copy :
    ¬ ∀ (n : UInt64), n ≠ 0 → ∀ ops : List (ListOp Nat),
      (ListShim.run n ops).commands ((ListShim.run n ops).executeCommandLists n) =
        appended ops := by
  intro h
  have hbad := h 4 (by decide) [.appendLaunchKernel 1 true, .appendRedirected 2 true, .close]
  revert hbad
  decide

end Xsched.LevelZero
