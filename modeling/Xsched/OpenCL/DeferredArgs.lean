import Mathlib.Logic.Function.Basic
import Xsched.Core.Bytes
import Xsched.Core.LTS

/-!
# Kernel arguments that are set at the launch

A kernel object of OpenCL has its arguments, which `clSetKernelArg` changes and an
enqueued launch takes as they are. The shim does not pass `clSetKernelArg` on: it keeps
what was set in `g_args`, the next launch of the kernel takes the list, and sets the
arguments of the kernel object when the XQueue launches it. A launch does not set what
an earlier one has set already.

**The system** is any number of threads of the program and the worker of each XQueue,
one driver call or one access to `g_args` a step. Beside it, `direct` is what the kernel
objects of the program alone have for arguments, and `want` what its launches take.
Of the calls on a kernel object only `clSetKernelArg` with its two relatives and
`clEnqueueNDRangeKernel` are here: the shim hands `clReleaseKernel`, `clCloneKernel` and
`clEnqueueTask` to the driver as they are, and a command does not retain its kernel.
Which command queues have an XQueue, `xq`, does not change in a run.

**The break.** The lists of one kernel object have to be set in the order in which they
were taken. Two XQueues launch in any order.

**Results**
* `in_order_right`: in every run that launches the commands of a kernel object one after
  another, in the order in which they took their lists, each launch has the arguments
  of the program alone, and so has, between launches, the kernel object with what was
  set since the last one.
* `one_queue_right`: so it is when each kernel object is enqueued to one XQueue only,
  and by one thread at a time.
* `two_queues_wrong`: it is not with two XQueues.
-/
namespace Xsched.OpenCL
open Function (update)

/-- `cl_kernel` -/
abbrev Kernel := Nat
/-- `cl_command_queue` -/
abbrev CmdQueue := Nat

/-! ## Arguments -/

/-- mirrors platforms/opencl/hal/include/xsched/opencl/hal/ocl_command.h:56-61 -/
inductive KernelArgumentType where
  | kArgOpenCL
  | kArgSVMPointer
  | kArgMemPointerINTEL
  deriving DecidableEq, Repr

/-- `value_`: the pointer of the caller, or a copy of what it points to. -/
inductive ArgValue where
  | pointer (p : Nat)
  | copied (bytes : List UInt8)
  deriving DecidableEq, Repr

structure KernelArgument where
  type : KernelArgumentType
  index : Nat
  size : Nat
  value : ArgValue
  deriving DecidableEq, Repr

/-- `mem` is the memory of the caller.
mirrors platforms/opencl/hal/src/ocl_command.cpp:64-72 -/
def KernelArgument.new (mem : Mem) (t : KernelArgumentType) (idx sz val : Nat) :
    KernelArgument where
  type := t
  index := idx
  size := sz
  value := if sz = 0 ∨ val = 0 then .pointer val else .copied (mem.read val sz)

/-- What a kernel object has for its parameters. -/
abbrev Args := Nat → Option KernelArgument

/-- The driver's call, which reads the copy.
mirrors platforms/opencl/hal/src/ocl_command.cpp:80-95 -/
def KernelArgument.set (a : KernelArgument) (args : Args) : Args := update args a.index (some a)

/-- mirrors platforms/opencl/hal/src/ocl_command.cpp:142 -/
def setAll (as : List KernelArgument) (args : Args) : Args :=
  as.foldl (fun args a => a.set args) args

/-! ## The system -/

/-- `OclKernelCommand`; a null `args_` has nothing to set, as an empty list. -/
structure Command where
  id : Nat
  kernel : Kernel
  args : List KernelArgument
  deriving DecidableEq, Repr

inductive Thread where
  | app (t : Nat)
  /-- The launch worker of the XQueue of a command queue. -/
  | worker (cmdq : CmdQueue)
  deriving DecidableEq, Repr

/-- What a thread does next. -/
inductive Call where
  /-- `XEnqueueNDRangeKernel` after it has taken the list. -/
  | submit (cmdq : CmdQueue) (cmd : Command)
  /-- `OclKernelCommand::Launch` with the arguments that are left to set. -/
  | launch (cmd : Command) (rest : List KernelArgument)
  deriving DecidableEq, Repr

structure Shim where
  g_args : Kernel → Option (List KernelArgument)
  /-- The commands in the XQueues, the oldest first. -/
  queued : CmdQueue → List Command
  calls : Thread → Option Call
  /-- The kernel objects of the driver. -/
  driver : Kernel → Args
  /-- The launches, with the arguments that they took. -/
  launched : List (Command × Args)
  next : Nat
  /-- The kernel objects of the program alone. -/
  direct : Kernel → Args
  /-- What the launches of the program alone took, by the ids of the commands. -/
  want : Nat → Args
  /-- The commands of a kernel that are not launched yet, in the order of their lists. -/
  sent : Kernel → List Command
  /-- How many launches of a kernel are under way, and how many enqueues. -/
  launching : Kernel → Nat
  submitting : Kernel → Nat

inductive Act where
  /-- `XSetKernelArg`, and with a size of 0 `XSetKernelArgSVMPointer` and
  `XSetKernelArgMemPointerINTEL` -/
  | setKernelArg (kernel : Kernel) (mem : Mem) (type : KernelArgumentType) (idx size val : Nat)
  /-- `XEnqueueNDRangeKernel`, up to the end of its lock -/
  | enqueueNDRangeKernel (t : Nat) (cmdq : CmdQueue) (kernel : Kernel)
  /-- The worker takes a command of its XQueue. -/
  | start (cmdq : CmdQueue)
  | go (th : Thread)

def init : Shim where
  g_args _ := none
  queued _ := []
  calls _ := none
  driver _ _ := none
  launched := []
  next := 0
  direct _ _ := none
  want _ _ := none
  sent _ := []
  launching _ := 0
  submitting _ := 0

/-- mirrors platforms/opencl/shim/src/shim.cpp:21-35 -/
def setKernelArg (kernel : Kernel) (a : KernelArgument) (s : Shim) : Shim :=
  let args := (s.g_args kernel).getD []
  { s with g_args := update s.g_args kernel (some (args ++ [a])),
           direct := update s.direct kernel (a.set (s.direct kernel)) }

/-- mirrors platforms/opencl/shim/src/shim.cpp:60-72 -/
def take (t : Nat) (cmdq : CmdQueue) (kernel : Kernel) (s : Shim) : Shim :=
  let cmd : Command := ⟨s.next, kernel, (s.g_args kernel).getD []⟩
  { s with g_args := update s.g_args kernel none, next := s.next + 1,
           calls := update s.calls (.app t) (some (.submit cmdq cmd)),
           want := update s.want s.next (s.direct kernel),
           sent := update s.sent kernel (s.sent kernel ++ [cmd]),
           submitting := update s.submitting kernel (s.submitting kernel + 1) }

def beginLaunch (th : Thread) (cmd : Command) (s : Shim) : Shim :=
  { s with calls := update s.calls th (some (.launch cmd cmd.args)),
           launching := update s.launching cmd.kernel (s.launching cmd.kernel + 1) }

/-- The end of an enqueue; `xq`: the command queues that have an XQueue.
mirrors platforms/opencl/shim/src/shim.cpp:73-76 -/
def submit (xq : CmdQueue → Bool) (th : Thread) (cmdq : CmdQueue) (cmd : Command) (s : Shim) :
    Shim :=
  let s := { s with submitting := update s.submitting cmd.kernel (s.submitting cmd.kernel - 1) }
  if xq cmdq then
    { s with calls := update s.calls th none,
             queued := update s.queued cmdq (s.queued cmdq ++ [cmd]) }
  else beginLaunch th cmd s

/-- mirrors platforms/opencl/hal/src/ocl_command.cpp:138-148 -/
def launch (th : Thread) (cmd : Command) (s : Shim) : List KernelArgument → Shim
  | a :: rest =>
    { s with driver := update s.driver cmd.kernel (a.set (s.driver cmd.kernel)),
             calls := update s.calls th (some (.launch cmd rest)) }
  | [] =>
    { s with launched := s.launched ++ [(cmd, s.driver cmd.kernel)],
             calls := update s.calls th none,
             sent := update s.sent cmd.kernel ((s.sent cmd.kernel).erase cmd),
             launching := update s.launching cmd.kernel (s.launching cmd.kernel - 1) }

def step (xq : CmdQueue → Bool) (s : Shim) : Act → Option Shim
  | .setKernelArg kernel mem type idx size val =>
    some (setKernelArg kernel (.new mem type idx size val) s)
  | .enqueueNDRangeKernel t cmdq kernel =>
    if (s.calls (.app t)).isSome then none else some (take t cmdq kernel s)
  | .start cmdq =>
    if (s.calls (.worker cmdq)).isSome then none
    else
      match s.queued cmdq with
      | [] => none
      | cmd :: cmds =>
        some (beginLaunch (.worker cmdq) cmd { s with queued := update s.queued cmdq cmds })
  | .go th =>
    match s.calls th with
    | none => none
    | some (.submit cmdq cmd) => some (submit xq th cmdq cmd s)
    | some (.launch cmd rest) => some (launch th cmd s rest)

def lts (xq : CmdQueue → Bool) : LTS Shim Act := .ofFn (fun s => s = init) (step xq)

/-- Every launch took what it takes in the program alone. -/
def Right (s : Shim) : Prop := ∀ p ∈ s.launched, p.2 = s.want p.1.id

/-! ## Launches in order -/

/-- The command whose launch begins with a step. -/
def beginning (xq : CmdQueue → Bool) (s : Shim) : Act → Option Command
  | .start cmdq => (s.queued cmdq).head?
  | .go th =>
    match s.calls th with
    | some (.submit cmdq cmd) => if xq cmdq then none else some cmd
    | _ => none
  | _ => none

/-- A launch begins when all that its kernel was enqueued for before is launched. -/
def InOrder (xq : CmdQueue → Bool) (s : Shim) (act : Act) : Prop :=
  ∀ cmd ∈ beginning xq s act, (s.sent cmd.kernel).head? = some cmd ∧ s.launching cmd.kernel = 0

instance (xq : CmdQueue → Bool) (s : Shim) (act : Act) : Decidable (InOrder xq s act) :=
  inferInstanceAs (Decidable (∀ cmd ∈ beginning xq s act, _))

/-- From `args` on, the commands set what their launches want, and the list that no
command has taken yet leads to the arguments of the program. -/
def Chain (want : Nat → Args) (last : List KernelArgument) (direct : Args) :
    Args → List Command → Prop
  | args, [] => setAll last args = direct
  | args, cmd :: cmds =>
    setAll cmd.args args = want cmd.id ∧ Chain want last direct (want cmd.id) cmds

section
variable {want want' : Nat → Args} {last : List KernelArgument} {direct args : Args}
  {cmds : List Command}

theorem setAll_append (as bs : List KernelArgument) (args : Args) :
    setAll (as ++ bs) args = setAll bs (setAll as args) := List.foldl_append

theorem Chain.congr (h : ∀ cmd ∈ cmds, want cmd.id = want' cmd.id)
    (hc : Chain want last direct args cmds) : Chain want' last direct args cmds := by
  induction cmds generalizing args with
  | nil => exact hc
  | cons cmd cmds ih =>
    have heq := h cmd (List.mem_cons_self ..)
    refine ⟨heq ▸ hc.1, ?_⟩
    rw [← heq]
    exact ih (fun c hmem => h c (List.mem_cons_of_mem _ hmem)) hc.2

/-- `clSetKernelArg` -/
theorem Chain.set (hc : Chain want last direct args cmds) (a : KernelArgument) :
    Chain want (last ++ [a]) (a.set direct) args cmds := by
  induction cmds generalizing args with
  | nil =>
    change setAll (last ++ [a]) args = a.set direct
    rw [setAll_append, show setAll last args = direct from hc]
    rfl
  | cons cmd cmds ih => exact ⟨hc.1, ih hc.2⟩

/-- A command takes the list. -/
theorem Chain.take (hc : Chain want last direct args cmds) {cmd : Command}
    (hargs : cmd.args = last) (hwant : want cmd.id = direct) :
    Chain want [] direct args (cmds ++ [cmd]) := by
  induction cmds generalizing args with
  | nil =>
    refine ⟨?_, hwant⟩
    rw [hargs, hwant]
    exact hc
  | cons c cmds ih => exact ⟨hc.1, ih hc.2⟩

end

/-- The chain of a kernel in a state. -/
def ChainAt (s : Shim) (k : Kernel) (args : Args) (cmds : List Command) : Prop :=
  Chain s.want ((s.g_args k).getD []) (s.direct k) args cmds

/-- The kernel objects of the driver are on their chains; of those that are being launched
one command is under way, which is the oldest. -/
structure Inv (s : Shim) : Prop where
  ids : ∀ k, ∀ cmd ∈ s.sent k, cmd.id < s.next
  done : ∀ p ∈ s.launched, p.1.id < s.next
  right : Right s
  idle : ∀ k, s.launching k = 0 → ChainAt s k (s.driver k) (s.sent k)
  busy : ∀ th cmd rest, s.calls th = some (.launch cmd rest) → s.launching cmd.kernel = 1 ∧
    ∃ cmds, s.sent cmd.kernel = cmd :: cmds ∧
      setAll rest (s.driver cmd.kernel) = s.want cmd.id ∧
      ChainAt s cmd.kernel (s.want cmd.id) cmds
  one : ∀ th th' cmd cmd' rest rest', s.calls th = some (.launch cmd rest) →
    s.calls th' = some (.launch cmd' rest') → cmd.kernel = cmd'.kernel → th = th'
  counted : ∀ k, s.launching k ≠ 0 →
    ∃ th cmd rest, s.calls th = some (.launch cmd rest) ∧ cmd.kernel = k

theorem inv_init : Inv init where
  ids _ _ h := by cases h
  done _ h := by cases h
  right _ h := by cases h
  idle _ _ := rfl
  busy _ _ _ h := by cases h
  one _ _ _ _ _ _ h := by cases h
  counted _ h := absurd rfl h

section
variable {s : Shim}

theorem chainAt_setKernelArg {k : Kernel} {args : Args} {cmds : List Command}
    (hc : ChainAt s k args cmds) (kernel : Kernel) (a : KernelArgument) :
    ChainAt (setKernelArg kernel a s) k args cmds := by
  change Chain s.want ((update s.g_args kernel _ k).getD []) (update s.direct kernel _ k) args cmds
  by_cases hk : k = kernel
  · rw [hk, Function.update_self, Function.update_self]
    rw [hk] at hc
    exact hc.set a
  · rw [Function.update_of_ne hk, Function.update_of_ne hk]
    exact hc

theorem Inv.setKernelArg (hi : Inv s) (kernel : Kernel) (a : KernelArgument) :
    Inv (setKernelArg kernel a s) where
  ids := hi.ids
  done := hi.done
  right := hi.right
  idle k hk := chainAt_setKernelArg (hi.idle k hk) kernel a
  busy th cmd rest h := by
    obtain ⟨hcount, cmds, hsent, hset, hchain⟩ := hi.busy th cmd rest h
    exact ⟨hcount, cmds, hsent, hset, chainAt_setKernelArg hchain kernel a⟩
  one := hi.one
  counted := hi.counted

/-- The commands of a kernel after one of `kernel` was sent. -/
theorem chainAt_take {k kernel : Kernel} {t : Nat} {cmdq : CmdQueue} {args : Args}
    {cmds : List Command} (hids : ∀ cmd ∈ cmds, cmd.id < s.next) (hc : ChainAt s k args cmds) :
    ChainAt (take t cmdq kernel s) k args
      (if k = kernel then cmds ++ [⟨s.next, kernel, (s.g_args kernel).getD []⟩] else cmds) := by
  have hwant : ∀ cmd ∈ cmds, s.want cmd.id = (take t cmdq kernel s).want cmd.id := fun cmd hmem =>
    (Function.update_of_ne (Nat.ne_of_lt (hids cmd hmem)) _ _).symm
  have hc' : Chain (take t cmdq kernel s).want _ _ args cmds := Chain.congr hwant hc
  change Chain (take t cmdq kernel s).want ((update s.g_args kernel none k).getD []) (s.direct k)
    args _
  split
  · next hk =>
    subst hk
    rw [Function.update_self]
    exact hc'.take rfl (Function.update_self ..)
  · next hk =>
    rw [Function.update_of_ne hk]
    exact hc'

theorem sent_take (k kernel : Kernel) (t : Nat) (cmdq : CmdQueue) :
    (take t cmdq kernel s).sent k =
      if k = kernel then s.sent k ++ [⟨s.next, kernel, (s.g_args kernel).getD []⟩]
      else s.sent k := by
  change update s.sent kernel _ k = _
  split
  · next hk =>
    subst hk
    exact Function.update_self ..
  · next hk => exact Function.update_of_ne hk _ _

/-- A thread that does something else than launch was not launching. -/
theorem calls_of_launch {th th' : Thread} {c : Option Call} {cmd : Command}
    {rest : List KernelArgument} (hc : ∀ cmd rest, c ≠ some (.launch cmd rest))
    (h : update s.calls th c th' = some (.launch cmd rest)) :
    th' ≠ th ∧ s.calls th' = some (.launch cmd rest) := by
  by_cases hth : th' = th
  · rw [hth, Function.update_self] at h
    exact absurd h (hc cmd rest)
  · rw [Function.update_of_ne hth] at h
    exact ⟨hth, h⟩

theorem launch_update {th th' : Thread} {cmd c : Command} {rest r : List KernelArgument}
    (h : update s.calls th (some (.launch cmd rest)) th' = some (.launch c r)) :
    th' = th ∧ c = cmd ∧ r = rest ∨ th' ≠ th ∧ s.calls th' = some (.launch c r) := by
  by_cases hh : th' = th
  · rw [hh, Function.update_self] at h
    cases h
    exact .inl ⟨hh, rfl, rfl⟩
  · rw [Function.update_of_ne hh] at h
    exact .inr ⟨hh, h⟩

/-- One launch of a kernel, as long as no other thread is launching it. -/
theorem Inv.one_update (hi : Inv s) {th : Thread} {cmd : Command} {rest : List KernelArgument}
    (hother : ∀ th' c r, th' ≠ th → s.calls th' = some (.launch c r) → c.kernel ≠ cmd.kernel)
    {th₁ th₂ : Thread} {c₁ c₂ : Command} {r₁ r₂ : List KernelArgument}
    (h₁ : update s.calls th (some (.launch cmd rest)) th₁ = some (.launch c₁ r₁))
    (h₂ : update s.calls th (some (.launch cmd rest)) th₂ = some (.launch c₂ r₂))
    (hk : c₁.kernel = c₂.kernel) : th₁ = th₂ := by
  rcases launch_update h₁ with ⟨rfl, rfl, -⟩ | ⟨hne₁, hold₁⟩
  · rcases launch_update h₂ with ⟨rfl, -, -⟩ | ⟨hne₂, hold₂⟩
    · rfl
    · exact absurd hk.symm (hother _ _ _ hne₂ hold₂)
  · rcases launch_update h₂ with ⟨rfl, rfl, -⟩ | ⟨-, hold₂⟩
    · exact absurd hk (hother _ _ _ hne₁ hold₁)
    · exact hi.one _ _ _ _ _ _ hold₁ hold₂ hk

theorem Inv.take (hi : Inv s) {t : Nat} (hfree : s.calls (.app t) = none) (cmdq : CmdQueue)
    (kernel : Kernel) : Inv (take t cmdq kernel s) := by
  have hcalls {th : Thread} {cmd : Command} {rest : List KernelArgument}
      (h : (OpenCL.take t cmdq kernel s).calls th = some (.launch cmd rest)) :
      s.calls th = some (.launch cmd rest) := (calls_of_launch (fun _ _ h => by cases h) h).2
  refine ⟨fun k cmd hmem => ?_, fun p hp => Nat.lt_succ_of_lt (hi.done p hp), fun p hp => ?_,
    fun k hk => ?_, fun th cmd rest h => ?_, fun th th' cmd cmd' rest rest' h h' => ?_,
    fun k hk => ?_⟩
  · rw [sent_take] at hmem
    split at hmem
    · next hk =>
      rcases List.mem_append.1 hmem with hmem | hmem
      · exact Nat.lt_succ_of_lt (hi.ids k cmd hmem)
      · cases List.mem_singleton.1 hmem
        exact Nat.lt_succ_self _
    · exact Nat.lt_succ_of_lt (hi.ids k cmd hmem)
  · exact (hi.right p hp).trans (Function.update_of_ne (Nat.ne_of_lt (hi.done p hp)) _ _).symm
  · rw [sent_take]
    exact chainAt_take (hi.ids k) (hi.idle k hk)
  · obtain ⟨hcount, cmds, hsent, hset, hchain⟩ := hi.busy th cmd rest (hcalls h)
    have hids := hi.ids cmd.kernel
    rw [hsent] at hids
    have hwant : (OpenCL.take t cmdq kernel s).want cmd.id = s.want cmd.id :=
      Function.update_of_ne (Nat.ne_of_lt (hids cmd (List.mem_cons_self ..))) _ _
    have hchain' : ChainAt (OpenCL.take t cmdq kernel s) cmd.kernel (s.want cmd.id) _ :=
      chainAt_take (fun c hmem => hids c (List.mem_cons_of_mem _ hmem)) hchain
    refine ⟨hcount, _, ?_, hset.trans hwant.symm, by rw [hwant]; exact hchain'⟩
    rw [sent_take, hsent]
    exact (apply_ite (cmd :: ·) _ _ _).symm
  · exact hi.one th th' cmd cmd' rest rest' (hcalls h) (hcalls h')
  · obtain ⟨th, cmd, rest, h, hkernel⟩ := hi.counted k hk
    refine ⟨th, cmd, rest, ?_, hkernel⟩
    refine (Function.update_of_ne ?_ _ _).trans h
    rintro rfl
    rw [hfree] at h
    cases h

/-- The XQueues and the enqueues under way are no matter of the kernel objects. -/
theorem Inv.frame (hi : Inv s) (queued : CmdQueue → List Command) (submitting : Kernel → Nat) :
    Inv { s with queued := queued, submitting := submitting } :=
  ⟨hi.ids, hi.done, hi.right, hi.idle, hi.busy, hi.one, hi.counted⟩

/-- A call that is no launch ends. -/
theorem Inv.return (hi : Inv s) {th : Thread}
    (hth : ∀ cmd rest, s.calls th ≠ some (.launch cmd rest)) :
    Inv { s with calls := update s.calls th none } where
  ids := hi.ids
  done := hi.done
  right := hi.right
  idle := hi.idle
  busy th' cmd rest h := hi.busy th' cmd rest (calls_of_launch (fun _ _ h => by cases h) h).2
  one th' th'' cmd cmd' rest rest' h h' :=
    hi.one th' th'' cmd cmd' rest rest' (calls_of_launch (fun _ _ h => by cases h) h).2
      (calls_of_launch (fun _ _ h => by cases h) h').2
  counted k hk := by
    obtain ⟨th', cmd, rest, h, hkernel⟩ := hi.counted k hk
    refine ⟨th', cmd, rest, (Function.update_of_ne ?_ _ _).trans h, hkernel⟩
    rintro rfl
    exact hth cmd rest h

/-- The oldest command of a kernel that is not being launched. -/
theorem Inv.beginLaunch (hi : Inv s) {th : Thread} {cmd : Command}
    (hth : ∀ cmd rest, s.calls th ≠ some (.launch cmd rest))
    (hhead : (s.sent cmd.kernel).head? = some cmd) (hcount : s.launching cmd.kernel = 0) :
    Inv (beginLaunch th cmd s) := by
  have hother : ∀ th' c r, th' ≠ th → s.calls th' = some (.launch c r) →
      c.kernel ≠ cmd.kernel := by
    intro th' c r _ h hk
    have hone := (hi.busy th' c r h).1
    rw [hk, hcount] at hone
    cases hone
  have hcount' : update s.launching cmd.kernel (s.launching cmd.kernel + 1) cmd.kernel = 1 := by
    rw [Function.update_self, hcount]
  refine ⟨hi.ids, hi.done, hi.right, fun k hk => ?_, fun th' c rest h => ?_,
    fun _ _ _ _ _ _ h₁ h₂ hk => hi.one_update hother h₁ h₂ hk, fun k hk => ?_⟩
  · change update s.launching cmd.kernel _ k = 0 at hk
    by_cases hh : k = cmd.kernel
    · rw [hh, hcount'] at hk
      cases hk
    · rw [Function.update_of_ne hh] at hk
      exact hi.idle k hk
  · rcases launch_update h with ⟨-, rfl, rfl⟩ | ⟨hne, h⟩
    · obtain ⟨cmds, hsent⟩ := List.head?_eq_some_iff.1 hhead
      have hchain := hi.idle _ hcount
      rw [hsent] at hchain
      exact ⟨hcount', cmds, hsent, hchain.1, hchain.2⟩
    · obtain ⟨hc, hrest⟩ := hi.busy th' c rest h
      exact ⟨(Function.update_of_ne (hother th' c rest hne h) _ _).trans hc, hrest⟩
  · by_cases hh : k = cmd.kernel
    · exact ⟨th, cmd, cmd.args, Function.update_self .., hh.symm⟩
    · change update s.launching cmd.kernel _ k ≠ 0 at hk
      rw [Function.update_of_ne hh] at hk
      obtain ⟨th', c, rest, h, hkernel⟩ := hi.counted k hk
      refine ⟨th', c, rest, (Function.update_of_ne ?_ _ _).trans h, hkernel⟩
      rintro rfl
      exact hth c rest h

/-- The other launches while one goes on are those of other kernels. -/
theorem Inv.other (hi : Inv s) {th th' : Thread} {cmd cmd' : Command}
    {rest rest' : List KernelArgument} (hcall : s.calls th = some (.launch cmd rest))
    (hth : th' ≠ th) (h : s.calls th' = some (.launch cmd' rest')) : cmd'.kernel ≠ cmd.kernel :=
  fun hk => hth (hi.one _ _ _ _ _ _ h hcall hk)

theorem Inv.launchSet (hi : Inv s) {th : Thread} {cmd : Command} {a : KernelArgument}
    {rest : List KernelArgument} (hcall : s.calls th = some (.launch cmd (a :: rest))) :
    Inv (launch th cmd s (a :: rest)) := by
  obtain ⟨hcount, cmds, hsent, hset, hchain⟩ := hi.busy _ _ _ hcall
  refine ⟨hi.ids, hi.done, hi.right, fun k hk => ?_, fun th' c r h => ?_,
    fun _ _ _ _ _ _ h₁ h₂ hk =>
      hi.one_update (fun _ _ _ hne h => hi.other hcall hne h) h₁ h₂ hk,
    fun k hk => ?_⟩
  · have hne : k ≠ cmd.kernel := by
      rintro rfl
      rw [show s.launching cmd.kernel = 0 from hk] at hcount
      cases hcount
    change ChainAt s k (update s.driver cmd.kernel _ k) (s.sent k)
    rw [Function.update_of_ne hne]
    exact hi.idle k hk
  · rcases launch_update h with ⟨-, rfl, rfl⟩ | ⟨hne, h⟩
    · refine ⟨hcount, cmds, hsent, ?_, hchain⟩
      change setAll _ (update s.driver _ _ _) = _
      rw [Function.update_self]
      exact hset
    · obtain ⟨hc, cmds', hsent', hset', hchain'⟩ := hi.busy th' c r h
      refine ⟨hc, cmds', hsent', ?_, hchain'⟩
      change setAll _ (update s.driver _ _ _) = _
      rw [Function.update_of_ne (hi.other hcall hne h)]
      exact hset'
  · obtain ⟨th', c, r, h, hkernel⟩ := hi.counted k hk
    by_cases hh : th' = th
    · rw [hh, hcall] at h
      cases h
      exact ⟨th, cmd, rest, Function.update_self .., hkernel⟩
    · exact ⟨th', c, r, (Function.update_of_ne hh _ _).trans h, hkernel⟩

theorem Inv.launchEnd (hi : Inv s) {th : Thread} {cmd : Command}
    (hcall : s.calls th = some (.launch cmd [])) : Inv (launch th cmd s []) := by
  obtain ⟨hcount, cmds, hsent, hset, hchain⟩ := hi.busy _ _ _ hcall
  have hcalls {th' : Thread} {c : Command} {r : List KernelArgument}
      (h : (launch th cmd s []).calls th' = some (.launch c r)) :
      c.kernel ≠ cmd.kernel ∧ s.calls th' = some (.launch c r) := by
    obtain ⟨hne, h⟩ := calls_of_launch (fun _ _ h => by cases h) h
    exact ⟨hi.other hcall hne h, h⟩
  have hsent' : (launch th cmd s []).sent cmd.kernel = cmds := by
    change update s.sent cmd.kernel ((s.sent cmd.kernel).erase cmd) cmd.kernel = cmds
    rw [Function.update_self, hsent, List.erase_cons_head]
  have hmem {k : Kernel} {c : Command} (h : c ∈ (launch th cmd s []).sent k) : c ∈ s.sent k := by
    by_cases hk : k = cmd.kernel
    · subst hk
      rw [hsent'] at h
      rw [hsent]
      exact List.mem_cons_of_mem _ h
    · exact (Function.update_of_ne hk _ s.sent) ▸ h
  refine ⟨fun k c h => hi.ids k c (hmem h), fun p hp => ?_, fun p hp => ?_, fun k hk => ?_,
    fun th' c r h => ?_, fun th₁ th₂ c₁ c₂ r₁ r₂ h₁ h₂ hk => ?_, fun k hk => ?_⟩
  · rcases List.mem_append.1 hp with hp | hp
    · exact hi.done p hp
    · cases List.mem_singleton.1 hp
      exact hi.ids _ cmd (hsent ▸ List.mem_cons_self ..)
  · rcases List.mem_append.1 hp with hp | hp
    · exact hi.right p hp
    · cases List.mem_singleton.1 hp
      exact hset
  · by_cases hh : k = cmd.kernel
    · subst hh
      rw [hsent']
      rw [← hset] at hchain
      exact hchain
    · change update s.launching cmd.kernel _ k = 0 at hk
      rw [Function.update_of_ne hh] at hk
      change ChainAt s k (s.driver k) (update s.sent cmd.kernel _ k)
      rw [Function.update_of_ne hh]
      exact hi.idle k hk
  · obtain ⟨hne, h⟩ := hcalls h
    obtain ⟨hc, cmds', hsent'', hrest⟩ := hi.busy th' c r h
    exact ⟨(Function.update_of_ne hne _ _).trans hc, cmds',
      (Function.update_of_ne hne _ _).trans hsent'', hrest⟩
  · exact hi.one th₁ th₂ c₁ c₂ r₁ r₂ (hcalls h₁).2 (hcalls h₂).2 hk
  · change update s.launching cmd.kernel _ k ≠ 0 at hk
    by_cases hh : k = cmd.kernel
    · rw [hh, Function.update_self, hcount] at hk
      exact absurd rfl hk
    · rw [Function.update_of_ne hh] at hk
      obtain ⟨th', c, r, h, hkernel⟩ := hi.counted k hk
      refine ⟨th', c, r, (Function.update_of_ne ?_ _ _).trans h, hkernel⟩
      rintro rfl
      rw [hcall] at h
      cases h
      exact hh hkernel.symm

variable {xq : CmdQueue → Bool}

theorem inv_step {s' : Shim} {act : Act} (hi : Inv s) (hin : InOrder xq s act)
    (hs : step xq s act = some s') : Inv s' := by
  cases act with
  | setKernelArg kernel mem type idx size val =>
    cases hs
    exact hi.setKernelArg kernel _
  | enqueueNDRangeKernel t cmdq kernel =>
    obtain ⟨hfree, hs⟩ := Option.ite_none_left_eq_some.1 hs
    cases hs
    exact hi.take (by simpa using hfree) cmdq kernel
  | start cmdq =>
    obtain ⟨hfree, hs⟩ := Option.ite_none_left_eq_some.1 hs
    have hth : ∀ cmd rest, s.calls (.worker cmdq) ≠ some (.launch cmd rest) := by
      intro cmd rest h
      simp [h] at hfree
    split at hs
    · cases hs
    · next cmd cmds hq =>
      cases hs
      obtain ⟨hhead, hcount⟩ := hin cmd (by simp [beginning, hq])
      exact (hi.frame _ s.submitting).beginLaunch hth hhead hcount
  | go th =>
    simp only [step] at hs
    split at hs
    · cases hs
    · next cmdq cmd hcall =>
      cases hs
      have hth : ∀ c rest, s.calls th ≠ some (.launch c rest) := by
        intro c rest h
        rw [hcall] at h
        cases h
      unfold submit
      split
      · exact (hi.return hth).frame _ _
      · next hxq =>
        obtain ⟨hhead, hcount⟩ := hin cmd (by simp [beginning, hcall, hxq])
        exact (hi.frame s.queued _).beginLaunch hth hhead hcount
    · next cmd rest hcall =>
      cases hs
      cases rest with
      | nil => exact hi.launchEnd hcall
      | cons a rest => exact hi.launchSet hcall

theorem inv_reachable (hr : ((lts xq).restrict (InOrder xq)).Reachable s) : Inv s := by
  refine LTS.reachable_induction (M := (lts xq).restrict (InOrder xq)) (I := Inv) ?_ ?_ hr
  · rintro s rfl
    exact inv_init
  · exact fun s act s' _ hi hs => inv_step hi hs.2 hs.1

/-- When all is launched, a kernel object has the arguments of the program but for those
in the list that waits. -/
theorem Inv.settled (hi : Inv s) {k : Kernel} (hsent : s.sent k = []) :
    setAll ((s.g_args k).getD []) (s.driver k) = s.direct k := by
  have hcount : s.launching k = 0 := by
    by_contra hne
    obtain ⟨th, cmd, rest, h, rfl⟩ := hi.counted k hne
    obtain ⟨-, cmds, hcons, -⟩ := hi.busy th cmd rest h
    rw [hsent] at hcons
    cases hcons
  have hchain := hi.idle k hcount
  rw [hsent] at hchain
  exact hchain

end

/-- Launches of each kernel object in the order in which they were enqueued, one after
another: each takes what it takes in the program alone. Once they are done, the list that
waits makes of the kernel object what it is in the program alone. -/
theorem in_order_right {xq : CmdQueue → Bool} {s : Shim}
    (hr : ((lts xq).restrict (InOrder xq)).Reachable s) :
    Right s ∧ ∀ k, s.sent k = [] → setAll ((s.g_args k).getD []) (s.driver k) = s.direct k :=
  ⟨(inv_reachable hr).right, fun _ => (inv_reachable hr).settled⟩

/-- The program sets an argument, enqueues the kernel, sets the argument anew, enqueues it
again, to another command queue, and sets the argument once more. -/
def inOrderTrace : List Act :=
  [.setKernelArg 1 (fun _ => 5) .kArgOpenCL 0 4 64, .enqueueNDRangeKernel 0 1 1, .go (.app 0),
    .start 1, .setKernelArg 1 (fun _ => 6) .kArgOpenCL 0 4 64, .enqueueNDRangeKernel 0 2 1,
    .go (.worker 1), .go (.worker 1), .go (.app 0), .start 2, .go (.worker 2), .go (.worker 2),
    .setKernelArg 1 (fun _ => 7) .kArgOpenCL 0 4 64]

/-- An argument that was set after the launches is on the list only. -/
theorem in_order_right_twice : ∃ s a, s.launched.length = 2 ∧ Right s ∧
    s.g_args 1 = some [a] ∧ a.set (s.driver 1) = s.direct 1 := by
  have htrace : ((LTS.exec (LTS.guarded (InOrder fun _ => true) (step fun _ => true)) init
      inOrderTrace).map fun s => (s.launched.length, s.sent 1, s.g_args 1)) =
      some (2, [], some [.new (fun _ => 7) .kArgOpenCL 0 4 64]) := by decide
  obtain ⟨s, hs, heq⟩ := Option.map_eq_some_iff.1 htrace
  obtain ⟨hlength, hrest⟩ := Prod.mk.inj heq
  obtain ⟨hsent, hargs⟩ := Prod.mk.inj hrest
  obtain ⟨hright, hsettled⟩ := in_order_right (LTS.reachable_restrict_of_exec rfl hs)
  have hset := hsettled 1 hsent
  rw [hargs] at hset
  exact ⟨s, _, hlength, hright, hargs, hset⟩

/-! ## One XQueue for each kernel object -/

/-- Each kernel object has its command queue, and one thread at a time enqueues it. -/
def OneQueue (home : Kernel → CmdQueue) (s : Shim) : Act → Prop
  | .enqueueNDRangeKernel _ cmdq kernel => cmdq = home kernel ∧ s.submitting kernel = 0
  | _ => True

instance (home : Kernel → CmdQueue) (s : Shim) (act : Act) : Decidable (OneQueue home s act) :=
  match act with
  | .enqueueNDRangeKernel _ cmdq kernel =>
    inferInstanceAs (Decidable (cmdq = home kernel ∧ s.submitting kernel = 0))
  | .setKernelArg .. | .start _ | .go _ => .isTrue trivial

/-- The command of the kernel that the worker is launching. -/
def active (s : Shim) (home : Kernel → CmdQueue) (k : Kernel) : List Command :=
  match s.calls (.worker (home k)) with
  | some (.launch cmd _) => if cmd.kernel = k then [cmd] else []
  | _ => []

/-- The commands of the kernel that the worker and the XQueue have. -/
def line (s : Shim) (home : Kernel → CmdQueue) (k : Kernel) : List Command :=
  active s home k ++ (s.queued (home k)).filter fun cmd => cmd.kernel = k

structure Home (home : Kernel → CmdQueue) (s : Shim) : Prop where
  queued : ∀ cmdq, ∀ cmd ∈ s.queued cmdq, cmdq = home cmd.kernel
  worker : ∀ th cmd rest, s.calls th = some (.launch cmd rest) → th = .worker (home cmd.kernel)
  enqueue : ∀ th cmdq cmd, s.calls th = some (.submit cmdq cmd) →
    cmdq = home cmd.kernel ∧ s.submitting cmd.kernel = 1 ∧
      s.sent cmd.kernel = line s home cmd.kernel ++ [cmd]
  one : ∀ th th' cmdq cmdq' cmd cmd', s.calls th = some (.submit cmdq cmd) →
    s.calls th' = some (.submit cmdq' cmd') → cmd.kernel = cmd'.kernel → th = th'
  counted : ∀ k, s.submitting k ≠ 0 →
    ∃ th cmdq cmd, s.calls th = some (.submit cmdq cmd) ∧ cmd.kernel = k
  order : ∀ k, s.submitting k = 0 → s.sent k = line s home k

section
variable {s : Shim} {home : Kernel → CmdQueue}

theorem home_init : Home home init where
  queued _ _ h := by cases h
  worker _ _ _ h := by cases h
  enqueue _ _ _ h := by cases h
  one _ _ _ _ _ _ h := by cases h
  counted _ h := absurd rfl h
  order _ _ := rfl

theorem active_congr {s' : Shim} {k : Kernel}
    (h : s'.calls (.worker (home k)) = s.calls (.worker (home k))) :
    active s' home k = active s home k := by
  unfold active
  rw [h]

theorem active_launch {k : Kernel} {cmd : Command} {rest : List KernelArgument}
    (h : s.calls (.worker (home k)) = some (.launch cmd rest)) :
    active s home k = if cmd.kernel = k then [cmd] else [] := by
  unfold active
  rw [h]

theorem active_none {k : Kernel}
    (h : ∀ cmd rest, s.calls (.worker (home k)) ≠ some (.launch cmd rest)) :
    active s home k = [] := by
  unfold active
  split
  · next cmd rest hcall => exact absurd hcall (h cmd rest)
  · rfl

/-- A call that is no launch begins or ends. -/
theorem active_update {k : Kernel} {s' : Shim} {th : Thread} {c : Option Call}
    (hcalls : s'.calls = update s.calls th c) (hc : ∀ cmd rest, c ≠ some (.launch cmd rest))
    (hth : ∀ cmd rest, s.calls th ≠ some (.launch cmd rest)) :
    active s' home k = active s home k := by
  by_cases hw : Thread.worker (home k) = th
  · have hnone : active s' home k = [] := by
      refine active_none fun cmd rest => ?_
      rw [hcalls, hw, Function.update_self]
      exact hc cmd rest
    have hnone' : active s home k = [] := active_none (by rw [hw]; exact hth)
    exact hnone.trans hnone'.symm
  · refine active_congr ?_
    rw [hcalls, Function.update_of_ne hw]

/-- The list of a kernel after one command more in an XQueue. -/
theorem filter_queued (cmdq : CmdQueue) (cmd : Command) (hq : cmdq = home cmd.kernel) (k : Kernel) :
    (update s.queued cmdq (s.queued cmdq ++ [cmd]) (home k)).filter (fun c => c.kernel = k) =
      (s.queued (home k)).filter (fun c => c.kernel = k) ++ if cmd.kernel = k then [cmd] else [] := by
  subst hq
  by_cases hk : home k = home cmd.kernel
  · rw [hk, Function.update_self, List.filter_append]
    by_cases hc : cmd.kernel = k <;> simp [hc]
  · rw [Function.update_of_ne hk]
    have hne : cmd.kernel ≠ k := by
      rintro rfl
      exact hk rfl
    rw [if_neg hne, List.append_nil]

theorem Home.setKernelArg (hh : Home home s) (kernel : Kernel) (a : KernelArgument) :
    Home home (setKernelArg kernel a s) :=
  ⟨hh.queued, hh.worker, hh.enqueue, hh.one, hh.counted, hh.order⟩

theorem submit_update {th th' : Thread} {cmdq q : CmdQueue} {cmd c : Command}
    (h : update s.calls th (some (.submit cmdq cmd)) th' = some (.submit q c)) :
    th' = th ∧ q = cmdq ∧ c = cmd ∨ th' ≠ th ∧ s.calls th' = some (.submit q c) := by
  by_cases hh : th' = th
  · rw [hh, Function.update_self] at h
    cases h
    exact .inl ⟨hh, rfl, rfl⟩
  · rw [Function.update_of_ne hh] at h
    exact .inr ⟨hh, h⟩

theorem Home.take (hh : Home home s) {t : Nat} (hfree : s.calls (.app t) = none) {cmdq : CmdQueue}
    {kernel : Kernel} (hq : cmdq = home kernel) (hcount : s.submitting kernel = 0) :
    Home home (take t cmdq kernel s) := by
  have hother {th : Thread} {q : CmdQueue} {c : Command} (h : s.calls th = some (.submit q c)) :
      c.kernel ≠ kernel := by
    intro hk
    have hone := (hh.enqueue th q c h).2.1
    rw [hk, hcount] at hone
    cases hone
  have hline (k : Kernel) : line (OpenCL.take t cmdq kernel s) home k = line s home k := by
    unfold line
    rw [active_update (s := s) rfl (fun _ _ h => by cases h) (fun _ _ h => by
      rw [hfree] at h
      cases h)]
    rfl
  refine ⟨hh.queued, fun th cmd rest h => ?_, fun th q c h => ?_,
    fun th th' q q' c c' h h' hk => ?_, fun k hk => ?_, fun k hk => ?_⟩
  · exact hh.worker th cmd rest (calls_of_launch (fun _ _ h => by cases h) h).2
  · rw [hline, sent_take]
    rcases submit_update h with ⟨-, rfl, rfl⟩ | ⟨-, hold⟩
    · refine ⟨hq, ?_, ?_⟩
      · exact (Function.update_self ..).trans (by rw [hcount])
      · rw [if_pos rfl, hh.order kernel hcount]
    · obtain ⟨hq', hcount', hsent⟩ := hh.enqueue th q c hold
      rw [if_neg (hother hold)]
      exact ⟨hq', (Function.update_of_ne (hother hold) _ _).trans hcount', hsent⟩
  · rcases submit_update h with ⟨rfl, -, rfl⟩ | ⟨-, hold⟩
    · rcases submit_update h' with ⟨rfl, -, -⟩ | ⟨-, hold'⟩
      · rfl
      · exact absurd hk.symm (hother hold')
    · rcases submit_update h' with ⟨-, -, rfl⟩ | ⟨-, hold'⟩
      · exact absurd hk (hother hold)
      · exact hh.one th th' q q' c c' hold hold' hk
  · by_cases hkk : k = kernel
    · exact ⟨.app t, cmdq, _, Function.update_self .., hkk.symm⟩
    · change update s.submitting kernel _ k ≠ 0 at hk
      rw [Function.update_of_ne hkk] at hk
      obtain ⟨th, q, c, h, hkernel⟩ := hh.counted k hk
      refine ⟨th, q, c, (Function.update_of_ne ?_ _ _).trans h, hkernel⟩
      rintro rfl
      rw [hfree] at h
      cases h
  · change update s.submitting kernel (s.submitting kernel + 1) k = 0 at hk
    have hkk : k ≠ kernel := by
      rintro rfl
      rw [Function.update_self] at hk
      cases hk
    rw [Function.update_of_ne hkk] at hk
    rw [hline, sent_take, if_neg hkk]
    exact hh.order k hk

/-- A step that leaves the order and the enqueues as they are. -/
theorem Home.goto {s' : Shim} (hh : Home home s) (hsent : s'.sent = s.sent)
    (hsubmitting : s'.submitting = s.submitting) (hline : ∀ k, line s' home k = line s home k)
    (hqueued : ∀ cmdq, ∀ cmd ∈ s'.queued cmdq, cmdq = home cmd.kernel)
    (hworker : ∀ th cmd rest, s'.calls th = some (.launch cmd rest) →
      th = .worker (home cmd.kernel))
    (hcalls : ∀ th q c, s'.calls th = some (.submit q c) ↔ s.calls th = some (.submit q c)) :
    Home home s' where
  queued := hqueued
  worker := hworker
  enqueue th q c h := by
    rw [hsent, hsubmitting, hline]
    exact hh.enqueue th q c ((hcalls th q c).1 h)
  one th th' q q' c c' h h' :=
    hh.one th th' q q' c c' ((hcalls th q c).1 h) ((hcalls th' q' c').1 h')
  counted k hk := by
    obtain ⟨th, q, c, h, hkernel⟩ := hh.counted k (hsubmitting ▸ hk)
    exact ⟨th, q, c, (hcalls th q c).2 h, hkernel⟩
  order k hk := by
    rw [hsent, hline]
    exact hh.order k (hsubmitting ▸ hk)

/-- No enqueue begins or ends. -/
theorem submit_update_iff {th th' : Thread} {c : Option Call}
    (hc : ∀ q cmd, c ≠ some (.submit q cmd)) (hth : ∀ q cmd, s.calls th ≠ some (.submit q cmd))
    (q : CmdQueue) (cmd : Command) :
    update s.calls th c th' = some (.submit q cmd) ↔ s.calls th' = some (.submit q cmd) := by
  by_cases hh : th' = th
  · rw [hh, Function.update_self]
    exact iff_of_false (hc q cmd) (hth q cmd)
  · rw [Function.update_of_ne hh]

theorem Home.start (hh : Home home s) {cmdq : CmdQueue} {cmd : Command} {cmds : List Command}
    (hfree : s.calls (.worker cmdq) = none) (hq : s.queued cmdq = cmd :: cmds) :
    Home home
      (beginLaunch (.worker cmdq) cmd { s with queued := update s.queued cmdq cmds }) := by
  have hhome : cmdq = home cmd.kernel := hh.queued cmdq cmd (hq ▸ List.mem_cons_self ..)
  refine hh.goto rfl rfl (fun k => ?_) (fun q c hmem => ?_) (fun th c rest h => ?_)
    (fun th => submit_update_iff (fun _ _ h => by cases h) (fun _ _ h => by
      rw [hfree] at h
      cases h))
  · by_cases hk : home k = cmdq
    · have hcall : (beginLaunch (.worker cmdq) cmd
          { s with queued := update s.queued cmdq cmds }).calls (.worker (home k)) =
            some (.launch cmd cmd.args) := by
        rw [hk]
        exact Function.update_self ..
      have hnone : active s home k = [] := by
        refine active_none fun c rest h => ?_
        rw [hk, hfree] at h
        cases h
      unfold line
      rw [active_launch hcall, hnone]
      change _ ++ (update s.queued cmdq cmds (home k)).filter _ = _
      rw [hk, Function.update_self, hq, List.filter_cons]
      by_cases hc : cmd.kernel = k <;> simp [hc]
    · unfold line
      have hne : Thread.worker (home k) ≠ .worker cmdq := fun h => hk (by cases h; rfl)
      rw [active_congr (s := s) (Function.update_of_ne hne _ _)]
      change _ ++ (update s.queued cmdq cmds (home k)).filter _ = _
      rw [Function.update_of_ne hk]
  · change c ∈ update s.queued cmdq cmds q at hmem
    by_cases hqq : q = cmdq
    · rw [hqq, Function.update_self] at hmem
      rw [hqq]
      exact hh.queued cmdq c (hq ▸ List.mem_cons_of_mem _ hmem)
    · rw [Function.update_of_ne hqq] at hmem
      exact hh.queued q c hmem
  · rcases launch_update h with ⟨rfl, rfl, -⟩ | ⟨-, hold⟩
    · rw [hhome]
    · exact hh.worker th c rest hold

theorem Home.launchSet (hh : Home home s) {th : Thread} {cmd : Command} {a : KernelArgument}
    {rest : List KernelArgument} (hcall : s.calls th = some (.launch cmd (a :: rest))) :
    Home home (launch th cmd s (a :: rest)) := by
  have hworker : ∀ th' c r, (launch th cmd s (a :: rest)).calls th' = some (.launch c r) →
      th' = .worker (home c.kernel) := by
    intro th' c r h
    rcases launch_update h with ⟨rfl, rfl, -⟩ | ⟨-, hold⟩
    · exact hh.worker th' c _ hcall
    · exact hh.worker th' c r hold
  refine hh.goto rfl rfl (fun k => ?_) hh.queued hworker
    (fun th => submit_update_iff (fun _ _ h => by cases h) (fun _ _ h => by
      rw [hcall] at h
      cases h))
  unfold line
  refine congrArg (· ++ _) ?_
  by_cases hw : Thread.worker (home k) = th
  · have hnew : (launch th cmd s (a :: rest)).calls (.worker (home k)) =
        some (.launch cmd rest) := by
      rw [hw]
      exact Function.update_self ..
    have hold : s.calls (.worker (home k)) = some (.launch cmd (a :: rest)) := by rw [hw, hcall]
    rw [active_launch hnew, active_launch hold]
  · exact active_congr (Function.update_of_ne hw _ _)

theorem Home.launchEnd (hh : Home home s) {th : Thread} {cmd : Command}
    (hcall : s.calls th = some (.launch cmd [])) : Home home (launch th cmd s []) := by
  have hth := hh.worker th cmd [] hcall
  -- the command leaves the line of its kernel, where it is the first
  have hline (k : Kernel) :
      line s home k = (if cmd.kernel = k then [cmd] else []) ++ line (launch th cmd s []) home k := by
    unfold line
    by_cases hw : Thread.worker (home k) = th
    · have hold : s.calls (.worker (home k)) = some (.launch cmd []) := by rw [hw, hcall]
      have hnone : active (launch th cmd s []) home k = [] := by
        refine active_none fun c rest h => ?_
        exact (calls_of_launch (fun _ _ h => by cases h) h).1 hw
      rw [active_launch hold, hnone]
      rfl
    · have hne : cmd.kernel ≠ k := by
        rintro rfl
        exact hw hth.symm
      rw [if_neg hne, List.nil_append]
      refine congrArg (· ++ _) (active_congr ?_).symm
      exact Function.update_of_ne hw _ _
  have hsent {k : Kernel} {tail : List Command} (h : s.sent k = line s home k ++ tail) :
      (launch th cmd s []).sent k = line (launch th cmd s []) home k ++ tail := by
    change update s.sent cmd.kernel _ k = _
    by_cases hk : k = cmd.kernel
    · rw [hk, Function.update_self, ← hk, h, hline k, if_pos hk.symm]
      exact List.erase_cons_head ..
    · rw [Function.update_of_ne hk, h, hline k, if_neg (Ne.symm hk), List.nil_append]
  have hcalls (th' : Thread) (q : CmdQueue) (c : Command) :
      (launch th cmd s []).calls th' = some (.submit q c) ↔ s.calls th' = some (.submit q c) :=
    submit_update_iff (fun _ _ h => by cases h) (fun _ _ h => by
      rw [hcall] at h
      cases h) q c
  refine ⟨hh.queued, fun th' c r h => ?_, fun th' q c h => ?_,
    fun th₁ th₂ q₁ q₂ c₁ c₂ h₁ h₂ hk => ?_, fun k hk => ?_, fun k hk => ?_⟩
  · exact hh.worker th' c r (calls_of_launch (fun _ _ h => by cases h) h).2
  · obtain ⟨hq, hcount, horder⟩ := hh.enqueue th' q c ((hcalls th' q c).1 h)
    exact ⟨hq, hcount, hsent horder⟩
  · exact hh.one th₁ th₂ q₁ q₂ c₁ c₂ ((hcalls th₁ q₁ c₁).1 h₁) ((hcalls th₂ q₂ c₂).1 h₂) hk
  · obtain ⟨th', q, c, h, hkernel⟩ := hh.counted k hk
    exact ⟨th', q, c, (hcalls th' q c).2 h, hkernel⟩
  · have horder := hh.order k hk
    rw [← List.append_nil (line s home k)] at horder
    exact (hsent horder).trans (List.append_nil _)

theorem Home.submit (hh : Home home s) {xq : CmdQueue → Bool} {th : Thread} {cmdq : CmdQueue}
    {cmd : Command} (hxq : xq cmdq = true) (hcall : s.calls th = some (.submit cmdq cmd)) :
    Home home (submit xq th cmdq cmd s) := by
  obtain ⟨hq, hcount, horder⟩ := hh.enqueue th cmdq cmd hcall
  have hstate : OpenCL.submit xq th cmdq cmd s =
      { s with submitting := update s.submitting cmd.kernel (s.submitting cmd.kernel - 1),
               calls := update s.calls th none,
               queued := update s.queued cmdq (s.queued cmdq ++ [cmd]) } := by
    simp [OpenCL.submit, hxq]
  rw [hstate]
  have hline (k : Kernel) :
      line { s with submitting := update s.submitting cmd.kernel (s.submitting cmd.kernel - 1),
                    calls := update s.calls th none,
                    queued := update s.queued cmdq (s.queued cmdq ++ [cmd]) } home k =
        line s home k ++ if cmd.kernel = k then [cmd] else [] := by
    unfold line
    rw [active_update (show _ = update s.calls th none from rfl) (fun _ _ h => by cases h)
      (fun _ _ h => by
        rw [hcall] at h
        cases h), List.append_assoc]
    exact congrArg (_ ++ ·) (filter_queued cmdq cmd hq k)
  have hold {th' : Thread} {q : CmdQueue} {c : Command}
      (h : update s.calls th none th' = some (.submit q c)) :
      c.kernel ≠ cmd.kernel ∧ s.calls th' = some (.submit q c) := by
    by_cases hth : th' = th
    · rw [hth, Function.update_self] at h
      cases h
    · rw [Function.update_of_ne hth] at h
      exact ⟨fun hk => hth (hh.one _ _ _ _ _ _ h hcall hk), h⟩
  refine ⟨fun q c hmem => ?_, fun th' c r h => ?_, fun th' q c h => ?_,
    fun th₁ th₂ q₁ q₂ c₁ c₂ h₁ h₂ hk => ?_, fun k hk => ?_, fun k hk => ?_⟩
  · change c ∈ update s.queued cmdq _ q at hmem
    by_cases hqq : q = cmdq
    · rw [hqq, Function.update_self] at hmem
      rw [hqq]
      rcases List.mem_append.1 hmem with hmem | hmem
      · exact hh.queued cmdq c hmem
      · rw [List.mem_singleton.1 hmem]
        exact hq
    · rw [Function.update_of_ne hqq] at hmem
      exact hh.queued q c hmem
  · exact hh.worker th' c r (calls_of_launch (fun _ _ h => by cases h) h).2
  · obtain ⟨hne, h⟩ := hold h
    obtain ⟨hq', hcount', horder'⟩ := hh.enqueue th' q c h
    refine ⟨hq', (Function.update_of_ne hne _ _).trans hcount', ?_⟩
    rw [hline, if_neg (Ne.symm hne), List.append_nil]
    exact horder'
  · exact hh.one th₁ th₂ q₁ q₂ c₁ c₂ (hold h₁).2 (hold h₂).2 hk
  · change update s.submitting cmd.kernel _ k ≠ 0 at hk
    have hne : k ≠ cmd.kernel := by
      rintro rfl
      rw [Function.update_self, hcount] at hk
      exact hk rfl
    rw [Function.update_of_ne hne] at hk
    obtain ⟨th', q, c, h, hkernel⟩ := hh.counted k hk
    refine ⟨th', q, c, (Function.update_of_ne ?_ _ _).trans h, hkernel⟩
    rintro rfl
    rw [hcall] at h
    cases h
    exact hne hkernel.symm
  · rw [hline]
    by_cases hk' : cmd.kernel = k
    · subst hk'
      rw [if_pos rfl]
      exact horder
    · change update s.submitting cmd.kernel _ k = 0 at hk
      rw [Function.update_of_ne (Ne.symm hk')] at hk
      rw [if_neg hk', List.append_nil]
      exact hh.order k hk

variable {xq : CmdQueue → Bool}

theorem home_step (hxq : ∀ k, xq (home k) = true) {s' : Shim} {act : Act} (hh : Home home s)
    (hone : OneQueue home s act) (hs : step xq s act = some s') : Home home s' := by
  cases act with
  | setKernelArg kernel mem type idx size val =>
    cases hs
    exact hh.setKernelArg kernel _
  | enqueueNDRangeKernel t cmdq kernel =>
    obtain ⟨hfree, hs⟩ := Option.ite_none_left_eq_some.1 hs
    cases hs
    exact hh.take (by simpa using hfree) hone.1 hone.2
  | start cmdq =>
    obtain ⟨hfree, hs⟩ := Option.ite_none_left_eq_some.1 hs
    split at hs
    · cases hs
    · next cmd cmds hq =>
      cases hs
      exact hh.start (by simpa using hfree) hq
  | go th =>
    simp only [step] at hs
    split at hs
    · cases hs
    · next cmdq cmd hcall =>
      cases hs
      have hq := (hh.enqueue th cmdq cmd hcall).1
      exact hh.submit (hq ▸ hxq cmd.kernel) hcall
    · next cmd rest hcall =>
      cases hs
      cases rest with
      | nil => exact hh.launchEnd hcall
      | cons a rest => exact hh.launchSet hcall

/-- A worker takes the oldest command of a kernel. -/
theorem Home.inOrder (hxq : ∀ k, xq (home k) = true) {s' : Shim} {act : Act} (hi : Inv s)
    (hh : Home home s) (hs : step xq s act = some s') : InOrder xq s act := by
  intro cmd hbegin
  cases act with
  | setKernelArg | enqueueNDRangeKernel => cases hbegin
  | start cmdq =>
    obtain ⟨hfree, -⟩ := Option.ite_none_left_eq_some.1 hs
    obtain ⟨cmds, hq⟩ := List.head?_eq_some_iff.1 hbegin
    have hhome : cmdq = home cmd.kernel := hh.queued cmdq cmd (hq ▸ List.mem_cons_self ..)
    have hidle : s.calls (.worker (home cmd.kernel)) = none := by
      rw [← hhome]
      simpa using hfree
    have hline : line s home cmd.kernel = cmd :: cmds.filter fun c => c.kernel = cmd.kernel := by
      unfold line
      rw [active_none (by simp [hidle]), ← hhome, hq]
      simp
    constructor
    · by_cases hsub : s.submitting cmd.kernel = 0
      · rw [hh.order _ hsub, hline]
        rfl
      · obtain ⟨th, q, c, h, hk⟩ := hh.counted _ hsub
        rw [← hk, (hh.enqueue th q c h).2.2, hk, hline]
        rfl
    · by_contra hne
      obtain ⟨th, c, rest, h, hk⟩ := hi.counted _ hne
      have hth := hh.worker th c rest h
      rw [hth, hk, hidle] at h
      cases h
  | go th =>
    simp only [beginning] at hbegin
    split at hbegin
    · next cmdq c hcall =>
      have hq := (hh.enqueue th cmdq c hcall).1
      rw [hq, hxq, if_pos rfl] at hbegin
      cases hbegin
    · cases hbegin

end

/-- Kernel objects that are enqueued to one XQueue each, and by one thread at a time: every
launch takes what it takes in the program alone. -/
theorem one_queue_right {xq : CmdQueue → Bool} {home : Kernel → CmdQueue}
    (hxq : ∀ k, xq (home k) = true) {s : Shim}
    (hr : ((lts xq).restrict (OneQueue home)).Reachable s) :
    Right s ∧ ∀ k, s.sent k = [] → s.g_args k = none → s.driver k = s.direct k := by
  have hinv : Inv s ∧ Home home s := by
    refine LTS.reachable_induction (M := (lts xq).restrict (OneQueue home))
      (I := fun s => Inv s ∧ Home home s) ?_ ?_ hr
    · rintro s rfl
      exact ⟨inv_init, home_init⟩
    · rintro s act s' - ⟨hi, hh⟩ ⟨hs, hone⟩
      exact ⟨inv_step hi (hh.inOrder hxq hi hs) hs, home_step hxq hh hone hs⟩
  refine ⟨hinv.1.right, fun k hsent hargs => ?_⟩
  have hsettled := hinv.1.settled hsent
  rw [hargs] at hsettled
  exact hsettled

/-- The argument is set once, for two launches. -/
def oneQueueTrace : List Act :=
  [.setKernelArg 1 (fun _ => 5) .kArgOpenCL 0 4 64, .enqueueNDRangeKernel 0 1 1, .go (.app 0),
    .enqueueNDRangeKernel 0 1 1, .start 1, .go (.app 0), .go (.worker 1), .go (.worker 1),
    .start 1, .go (.worker 1)]

theorem one_queue_right_once : ∃ s, s.launched.length = 2 ∧ Right s := by
  have htrace : ((LTS.exec (LTS.guarded (OneQueue fun _ => 1) (step fun _ => true)) init
      oneQueueTrace).map fun s => s.launched.length) = some 2 := by decide
  obtain ⟨s, hs, hlength⟩ := Option.map_eq_some_iff.1 htrace
  have hr : ((lts fun _ => true).restrict (OneQueue fun _ => 1)).Reachable s :=
    LTS.reachable_restrict_of_exec rfl hs
  exact ⟨s, hlength, (one_queue_right (fun _ => rfl) hr).1⟩

/-- The second launch is in another XQueue, and comes first. -/
def twoQueuesTrace : List Act :=
  [.setKernelArg 1 (fun _ => 5) .kArgOpenCL 0 4 64, .enqueueNDRangeKernel 0 1 1, .go (.app 0),
    .enqueueNDRangeKernel 0 2 1, .go (.app 0), .start 2, .go (.worker 2)]

/-- The launch has no argument. -/
theorem two_queues_wrong : ∃ s, (lts fun _ => true).Reachable s ∧ ¬ Right s := by
  have htrace : ((LTS.exec (step fun _ => true) init twoQueuesTrace).map fun s =>
      s.launched.map fun p => (p.2 0, (s.want p.1.id 0).isSome)) = some [(none, true)] := by decide
  obtain ⟨s, hs, heq⟩ := Option.map_eq_some_iff.1 htrace
  refine ⟨s, LTS.reachable_of_exec rfl hs, fun hright => ?_⟩
  obtain ⟨p, hp, hargs⟩ := List.map_eq_singleton_iff.1 heq
  obtain ⟨hnone, hsome⟩ := Prod.mk.inj hargs
  rw [← hright p (hp ▸ List.mem_singleton_self p), hnone] at hsome
  cases hsome

end Xsched.OpenCL
