import Xsched.Core.Bytes

/-!
# Kernel arguments of delayed launches, CUDA and HIP

A launch on a stream with an XQueue becomes a command; the worker makes the
driver call later, when the caller may have reused its memory. Each of the
five command classes chooses, when it is built and again when it launches,
between the caller's pointers and its own copies. The caller's memory is a
parameter of both moments: `m` when the command is built, `m'` when the
driver reads.

`snapshotted_iff` says for which launches the driver gets what the caller
passed, whatever becomes of its memory (`CopiesAll`). Not among them: an
argument array of `hipModuleLaunchKernel` (copied, but the original is
passed on), an extra buffer of `cuLaunchKernel` (never copied), launch
attributes of a kernel without parameters.
-/
namespace Xsched.KernelArgs
open Mem (read word copy)

/-- `size` and `offset` of a parameter in the parameter buffer. -/
structure ParamInfo where
  offset : Nat
  size : Nat
  deriving DecidableEq, Repr

/-- What `cuXtraGetParamInfo` and the `KernelParamManager` say of a kernel:
its parameters, in the order of their offsets. -/
structure Kernel where
  params : List ParamInfo
  sized : ∀ i ∈ params, 0 < i.size
  ordered : params.Pairwise fun i j => i.offset + i.size ≤ j.offset

/-! ## What the driver reads -/

/-- The `kernelParams` of a driver call: the caller's array, or an array of
the command's that points into `param_data_`. -/
inductive ParamsArg where
  | null
  | caller (a : Nat)
  | own (ptrs : List Nat) (data : Mem)

/-- What a HIP command has allocated as `kernel_params_`: nothing, an array
of pointers, or a copy of the extra buffer. -/
inductive Private where
  | null
  | array (ptrs : List Nat) (data : Mem)
  | buffer (bytes : Mem)

/-- The `extra` of a driver call: the caller's list, or one that names
`kernel_params_` as the buffer. -/
inductive ExtraArg where
  | null
  | caller (a : Nat)
  | own (buffer : Private) (size : Nat)

/-- The `attrs` of a CUlaunchConfig. -/
inductive AttrsArg where
  | null
  | caller (a : Nat)
  | own (data : Mem)

/-- The arguments a driver call finds. With both an array and an extra list
it fails. -/
inductive Args where
  | values (vs : List (List UInt8))
  | buffer (bytes : List UInt8)
  | rejected
  deriving DecidableEq, Repr

structure Passed where
  args : Args
  attrs : List UInt8
  deriving DecidableEq, Repr

/-- The values behind the array at `a`, one pointer a parameter. -/
def callerValues (m : Mem) : List ParamInfo → Nat → List (List UInt8)
  | [], _ => []
  | i :: is, a => read m (word m a) i.size :: callerValues m is (a + 8)

/-- The values behind an array of the command's own. -/
def ownValues (data : Mem) : List ParamInfo → List Nat → List (List UInt8)
  | i :: is, p :: ps => read data p i.size :: ownValues data is ps
  | _, _ => []

def paramValues (k : Kernel) (m : Mem) : ParamsArg → List (List UInt8)
  | .null => []
  | .caller a => callerValues m k.params a
  | .own ptrs data => ownValues data k.params ptrs

/-- `extra` is BUFFER_POINTER, buffer, BUFFER_SIZE, &size, END. -/
def extraBuffer (m : Mem) (e : Nat) : Nat := word m (e + 8)
def extraSizePtr (m : Mem) (e : Nat) : Nat := word m (e + 24)

def bufferBytes (m : Mem) : ExtraArg → List UInt8
  | .null => []
  | .caller e => read m (extraBuffer m e) (word m (extraSizePtr m e))
  | .own (.buffer bytes) size => read bytes 0 size
  | .own _ _ => []

/-- The arguments of `cuLaunchKernel` and of `hipModuleLaunchKernel`. -/
def driverArgs (k : Kernel) (m : Mem) : ParamsArg → ExtraArg → Args
  | .null, .null => .values []
  | .null, extra => .buffer (bufferBytes m extra)
  | params, .null => .values (paramValues k m params)
  | _, _ => .rejected

def sizeofCUlaunchAttribute : Nat := 72

def driverAttrs (m : Mem) (numAttrs : Nat) : AttrsArg → List UInt8
  | .null => []
  | .caller a => read m a (numAttrs * sizeofCUlaunchAttribute)
  | .own data => read data 0 (numAttrs * sizeofCUlaunchAttribute)

def paramsArg (a : Nat) : ParamsArg := if a = 0 then .null else .caller a
def extraArg (a : Nat) : ExtraArg := if a = 0 then .null else .caller a
def attrsArg (a : Nat) : AttrsArg := if a = 0 then .null else .caller a

/-! ## Copying -/

/-- `for (i) memcpy(&param_data_[offset], params[i], size)` -/
def copyParams (m : Mem) : List ParamInfo → Nat → Mem → Mem
  | [], _, data => data
  | i :: is, a, data => copyParams m is (a + 8) (copy data i.offset m (word m a) i.size)

/-- Fresh memory. -/
def malloc : Mem := fun _ => 0

/-- `params_[i] = &param_data_[offset]` -/
def Kernel.ptrs (k : Kernel) : List Nat := k.params.map (·.offset)

/-! ## CUDA -/

structure CudaKernelCommand where
  kFunc : Kernel
  params : ParamsArg
  extra : Nat
  deepCopy : Bool

/-- mirrors platforms/cuda/hal/src/common/cuda_command.cpp:50-78 -/
def CudaKernelCommand.new (m : Mem) (func : Kernel) (params extra : Nat) (deepCopy : Bool) :
    CudaKernelCommand :=
  if deepCopy = false then ⟨func, paramsArg params, extra, false⟩
  else if func.params = [] then ⟨func, paramsArg params, extra, false⟩
  else if params = 0 then ⟨func, paramsArg params, extra, false⟩
  else ⟨func, .own func.ptrs (copyParams m func.params params malloc), extra, true⟩

/-- mirrors platforms/cuda/hal/include/xsched/cuda/hal/common/cuda_command.h:80-84 -/
def CudaKernelCommand.launch (m' : Mem) (cmd : CudaKernelCommand) : Passed :=
  ⟨driverArgs cmd.kFunc m' cmd.params (extraArg cmd.extra), []⟩

/-- The caller's configuration, read when the command is built. -/
structure CUlaunchConfig where
  attrs : Nat
  numAttrs : Nat
  deriving DecidableEq, Repr

structure CudaKernelLaunchExCommand where
  base : CudaKernelCommand
  attrs : AttrsArg
  numAttrs : Nat

/-- mirrors platforms/cuda/hal/src/common/cuda_command.cpp:87-100 -/
def CudaKernelLaunchExCommand.new (m : Mem) (cfg : CUlaunchConfig) (func : Kernel)
    (params extra : Nat) (deepCopy : Bool) : CudaKernelLaunchExCommand :=
  let base := CudaKernelCommand.new m func params extra deepCopy
  if cfg.attrs = 0 ∨ base.deepCopy = false then ⟨base, attrsArg cfg.attrs, cfg.numAttrs⟩
  else ⟨base, .own (copy malloc 0 m cfg.attrs (cfg.numAttrs * sizeofCUlaunchAttribute)),
    cfg.numAttrs⟩

/-- mirrors platforms/cuda/hal/src/common/cuda_command.cpp:108-112 -/
def CudaKernelLaunchExCommand.launch (m' : Mem) (cmd : CudaKernelLaunchExCommand) : Passed :=
  ⟨driverArgs cmd.base.kFunc m' cmd.base.params (extraArg cmd.base.extra),
    driverAttrs m' cmd.numAttrs cmd.attrs⟩

/-! ## HIP -/

structure HipKernelCommand where
  kernel : Kernel
  paramBufferSize : Nat
  kernelParams : Private
  originalKernelParams : Nat
  originalExtraParams : Nat

/-- None where the loop reads through a null array.
mirrors platforms/hip/hal/src/hip_command.cpp:53-73 -/
def HipStaticKernelLaunchCommand.new (m : Mem) (hostFunc : Kernel) (params extra : Nat)
    (copyParam : Bool) : Option HipKernelCommand :=
  if copyParam = false then some ⟨hostFunc, 0, .null, params, extra⟩
  else if hostFunc.params = [] then some ⟨hostFunc, 0, .null, params, extra⟩
  else if params = 0 then none
  else some ⟨hostFunc, 0, .array hostFunc.ptrs (copyParams m hostFunc.params params malloc),
    params, extra⟩

/-- `*(int*)extra_params[3]`, none for a negative number, which no allocation
meets. -/
def intSize (m : Mem) (p : Nat) : Option Nat :=
  if word m p % 2 ^ 32 < 2 ^ 31 then some (word m p % 2 ^ 32) else none

/-- None where the code reads through a null array or, for a kernel without
parameters, the entry before the first.
mirrors platforms/hip/hal/src/hip_command.cpp:75-116 and
platforms/hip/hal/src/kernel_param.cpp:377-390 -/
def HipDynamicKernelLaunchCommand.new (m : Mem) (function : Kernel) (kernelParams extraParams : Nat)
    (copyParam : Bool) : Option HipKernelCommand :=
  if copyParam = false then some ⟨function, 0, .null, kernelParams, extraParams⟩
  else if function.params = [] then none
  else if kernelParams = 0 ∧ extraParams ≠ 0 then
    (intSize m (extraSizePtr m extraParams)).map fun bufferSize =>
      ⟨function, bufferSize, .buffer (copy malloc 0 m (extraBuffer m extraParams) bufferSize),
        kernelParams, extraParams⟩
  else if kernelParams = 0 then none
  else some ⟨function, function.params.length * 8,
    .array function.ptrs (copyParams m function.params kernelParams malloc),
    kernelParams, extraParams⟩

/-- `kernel_params_` as an argument array. -/
def Private.paramsArg : Private → ParamsArg
  | .null => .null
  | .array ptrs data => .own ptrs data
  | .buffer _ => .null

/-- mirrors platforms/hip/hal/src/hip_command.cpp:118-122 -/
def HipKernelLaunchCommand.launch (m' : Mem) (cmd : HipKernelCommand) : Passed :=
  ⟨driverArgs cmd.kernel m' cmd.kernelParams.paramsArg .null, []⟩

/-- The arguments of both dynamic launches: the original array, and an extra
list of its own where the caller gave one. -/
def dynamicLaunch (m' : Mem) (cmd : HipKernelCommand) : Passed :=
  ⟨driverArgs cmd.kernel m' (paramsArg cmd.originalKernelParams)
    (if cmd.originalExtraParams = 0 then .null else .own cmd.kernelParams cmd.paramBufferSize), []⟩

/-- mirrors platforms/hip/hal/src/hip_command.cpp:124-137 -/
def HipModuleKernelLaunchCommand.launch : Mem → HipKernelCommand → Passed := dynamicLaunch

/-- mirrors platforms/hip/hal/src/hip_command.cpp:139-153 -/
def HipExtModuleKernelLaunchCommand.launch : Mem → HipKernelCommand → Passed := dynamicLaunch

/-! ## The launch functions -/

/-- A launch on a stream that has an XQueue. -/
inductive Launch where
  | cuLaunchKernel (f : Kernel) (params extra : Nat)
  | cuLaunchKernelEx (config : CUlaunchConfig) (f : Kernel) (params extra : Nat)
  | hipLaunchKernel (f : Kernel) (args : Nat)
  | hipModuleLaunchKernel (function : Kernel) (params extra : Nat)
  | hipExtModuleLaunchKernel (f : Kernel) (params extra : Nat)

inductive Command where
  | cudaKernelLaunch (cmd : CudaKernelCommand)
  | cudaKernelLaunchEx (cmd : CudaKernelLaunchExCommand)
  | hipKernelLaunch (cmd : HipKernelCommand)
  | hipModuleKernelLaunch (cmd : HipKernelCommand)
  | hipExtModuleKernelLaunch (cmd : HipKernelCommand)

/-- The command that the shim submits.
mirrors platforms/cuda/hal/src/runtime/runtime_strategy.cpp:79-94,
platforms/cuda/shim/src/shim.cpp:301-321 and
platforms/hip/shim/src/shim.cpp:34-98 -/
def Launch.submit (m : Mem) : Launch → Option Command
  | .cuLaunchKernel f params extra =>
    some (.cudaKernelLaunch (CudaKernelCommand.new m f params extra true))
  | .cuLaunchKernelEx config f params extra =>
    some (.cudaKernelLaunchEx (CudaKernelLaunchExCommand.new m config f params extra true))
  | .hipLaunchKernel f args =>
    (HipStaticKernelLaunchCommand.new m f args 0 true).map .hipKernelLaunch
  | .hipModuleLaunchKernel function params extra =>
    (HipDynamicKernelLaunchCommand.new m function params extra true).map .hipModuleKernelLaunch
  | .hipExtModuleLaunchKernel f params extra =>
    (HipDynamicKernelLaunchCommand.new m f params extra true).map .hipExtModuleKernelLaunch

/-- What the worker's driver call gets when the memory is `m'`. -/
def Command.launch (m' : Mem) : Command → Passed
  | .cudaKernelLaunch cmd => cmd.launch m'
  | .cudaKernelLaunchEx cmd => cmd.launch m'
  | .hipKernelLaunch cmd => HipKernelLaunchCommand.launch m' cmd
  | .hipModuleKernelLaunch cmd => HipModuleKernelLaunchCommand.launch m' cmd
  | .hipExtModuleKernelLaunch cmd => HipExtModuleKernelLaunchCommand.launch m' cmd

/-- What the same driver call would get from the caller, at once. -/
def Launch.passed (m : Mem) : Launch → Passed
  | .cuLaunchKernel f params extra => ⟨driverArgs f m (paramsArg params) (extraArg extra), []⟩
  | .cuLaunchKernelEx config f params extra =>
    ⟨driverArgs f m (paramsArg params) (extraArg extra),
      driverAttrs m config.numAttrs (attrsArg config.attrs)⟩
  | .hipLaunchKernel f args => ⟨driverArgs f m (paramsArg args) .null, []⟩
  | .hipModuleLaunchKernel function params extra =>
    ⟨driverArgs function m (paramsArg params) (extraArg extra), []⟩
  | .hipExtModuleLaunchKernel f params extra =>
    ⟨driverArgs f m (paramsArg params) (extraArg extra), []⟩

/-- The command passes what the caller passed, whatever the memory holds
later. -/
def Snapshotted (m : Mem) (l : Launch) : Prop :=
  ∃ cmd, l.submit m = some cmd ∧ ∀ m', cmd.launch m' = l.passed m

/-! ## Copies -/

theorem copyParams_before {m : Mem} {is : List ParamInfo} {b n : Nat}
    (h : ∀ j ∈ is, b + n ≤ j.offset) :
    ∀ (a : Nat) (data : Mem), read (copyParams m is a data) b n = read data b n := by
  induction is with
  | nil => intro a data; rfl
  | cons i is ih =>
    intro a data
    have hi := h i List.mem_cons_self
    rw [copyParams, ih (fun j hj => h j (List.mem_cons_of_mem _ hj))]
    exact Mem.read_copy_disjoint (.inl hi)

/-- The command's own array has the caller's values. -/
theorem ownValues_copyParams {m : Mem} {is : List ParamInfo}
    (h : is.Pairwise fun i j => i.offset + i.size ≤ j.offset) :
    ∀ (a : Nat) (data : Mem),
      ownValues (copyParams m is a data) is (is.map (·.offset)) = callerValues m is a := by
  induction is with
  | nil => intro a data; rfl
  | cons i is ih =>
    intro a data
    have hlater : ∀ j ∈ is, i.offset + i.size ≤ j.offset := fun j hj =>
      List.rel_of_pairwise_cons h hj
    rw [List.map_cons, copyParams, ownValues, callerValues, ih h.of_cons]
    congr 1
    rw [copyParams_before hlater]
    exact Mem.read_copy_self _ _ _ _ _

theorem own_values (m m' : Mem) (k : Kernel) (a : Nat) :
    driverArgs k m' (.own k.ptrs (copyParams m k.params a malloc)) .null =
      .values (callerValues m k.params a) :=
  congrArg Args.values (ownValues_copyParams k.ordered a malloc)

theorem args_array {k : Kernel} {m : Mem} {a : Nat} (h : a ≠ 0) :
    driverArgs k m (paramsArg a) (extraArg 0) = .values (callerValues m k.params a) := by
  rw [paramsArg, if_neg h, extraArg, if_pos rfl]
  rfl

theorem args_extra {k : Kernel} {m : Mem} {e : Nat} (h : e ≠ 0) :
    driverArgs k m (paramsArg 0) (extraArg e) = .buffer (bufferBytes m (.caller e)) := by
  rw [paramsArg, if_pos rfl, extraArg, if_neg h]
  rfl

theorem args_both {k : Kernel} {m : Mem} {a e : Nat} (ha : a ≠ 0) (he : e ≠ 0) :
    driverArgs k m (paramsArg a) (extraArg e) = .rejected := by
  rw [paramsArg, if_neg ha, extraArg, if_neg he]
  rfl

/-! ## Memory that changes what is read -/

/-- Some memory has other values behind the array. -/
theorem exists_values_ne {k : Kernel} (hk : k.params ≠ []) (v : List (List UInt8)) (a : Nat) :
    ∃ m', callerValues m' k.params a ≠ v := by
  obtain ⟨i, is, his⟩ := List.exists_cons_of_ne_nil hk
  have hpos : 0 < i.size := k.sized i (by rw [his]; exact List.mem_cons_self)
  obtain ⟨b, hb⟩ := Mem.exists_read_ne (v.headD []) hpos
  refine ⟨fun _ => b, fun he => hb (word (fun _ => b) a) ?_⟩
  rw [← he, his]
  rfl

/-- Some memory has another buffer behind the extra list: one of another
size. -/
theorem exists_buffer_ne (v : List UInt8) (e : Nat) :
    ∃ m', bufferBytes m' (.caller e) ≠ v := by
  obtain ⟨b, hb⟩ := Mem.exists_word_ne v.length
  refine ⟨fun _ => b, fun he => hb (extraSizePtr (fun _ => b) e) ?_⟩
  have hlen := congrArg List.length he
  rwa [bufferBytes, Mem.length_read] at hlen

theorem exists_attrs_ne {n : Nat} (hn : n ≠ 0) (v : List UInt8) (a : Nat) :
    ∃ m', driverAttrs m' n (.caller a) ≠ v := by
  have hpos : 0 < n * sizeofCUlaunchAttribute := by
    unfold sizeofCUlaunchAttribute
    omega
  obtain ⟨b, hb⟩ := Mem.exists_read_ne v hpos
  exact ⟨fun _ => b, hb a⟩

/-! ## CUDA -/

/-- Which CUDA launches pass arguments that no later write changes. -/
def CudaCopies (params extra : Nat) : Prop := params ≠ 0 ∨ extra = 0

theorem cuda_new_copied {m : Mem} {f : Kernel} {params extra : Nat} (hf : f.params ≠ [])
    (hp : params ≠ 0) : CudaKernelCommand.new m f params extra true =
      ⟨f, .own f.ptrs (copyParams m f.params params malloc), extra, true⟩ := by
  unfold CudaKernelCommand.new
  rw [if_neg (by decide), if_neg hf, if_neg hp]

theorem cuda_new_original {m : Mem} {f : Kernel} {params extra : Nat}
    (h : f.params = [] ∨ params = 0) :
    CudaKernelCommand.new m f params extra true = ⟨f, paramsArg params, extra, false⟩ := by
  unfold CudaKernelCommand.new
  rw [if_neg (by decide)]
  split
  · rfl
  · rename_i hf
    rw [if_pos (h.resolve_left hf)]

theorem cuda_new_fixed (m : Mem) (f : Kernel) (params extra : Nat) :
    (CudaKernelCommand.new m f params extra true).kFunc = f ∧
      (CudaKernelCommand.new m f params extra true).extra = extra := by
  by_cases h : f.params = [] ∨ params = 0
  · rw [cuda_new_original h]
    exact ⟨rfl, rfl⟩
  · rw [not_or] at h
    rw [cuda_new_copied h.1 h.2]
    exact ⟨rfl, rfl⟩

/-- The arguments of a CUDA command at launch. -/
def cudaArgs (m m' : Mem) (f : Kernel) (params extra : Nat) : Args :=
  driverArgs f m' (CudaKernelCommand.new m f params extra true).params (extraArg extra)

/-- Without an extra list, or with an array, they are the caller's. -/
theorem cudaArgs_copied {f : Kernel} {params extra : Nat} (h : CudaCopies params extra)
    (m m' : Mem) : cudaArgs m m' f params extra = driverArgs f m (paramsArg params) (extraArg extra) := by
  unfold cudaArgs
  by_cases hp : params = 0
  · obtain rfl : extra = 0 := h.resolve_left (not_not_intro hp)
    rw [cuda_new_original (.inr hp), hp]
    rfl
  · by_cases hf : f.params = []
    · rw [cuda_new_original (.inl hf)]
      by_cases he : extra = 0
      · rw [he, args_array hp, args_array hp, hf]
        rfl
      · rw [args_both hp he, args_both hp he]
    · rw [cuda_new_copied hf hp]
      by_cases he : extra = 0
      · rw [he, args_array hp]
        exact own_values m m' f params
      · rw [args_both hp he, extraArg, if_neg he]
        rfl

/-- An extra list alone is read when the worker launches. -/
theorem cudaArgs_changes {f : Kernel} {params extra : Nat} (h : ¬ CudaCopies params extra)
    (m : Mem) : ∃ m', cudaArgs m m' f params extra ≠
      driverArgs f m (paramsArg params) (extraArg extra) := by
  rw [CudaCopies, not_or, not_not] at h
  obtain ⟨rfl, he⟩ := h
  obtain ⟨m', hm⟩ := exists_buffer_ne (bufferBytes m (.caller extra)) extra
  refine ⟨m', ?_⟩
  rw [cudaArgs, cuda_new_original (.inr rfl), args_extra he, args_extra he]
  exact fun heq => hm (Args.buffer.inj heq)

/-- Which launch attributes no later write changes. -/
def AttrsCopies (config : CUlaunchConfig) (f : Kernel) (params : Nat) : Prop :=
  config.attrs = 0 ∨ config.numAttrs = 0 ∨ params ≠ 0 ∧ f.params ≠ []

theorem cuda_new_deepCopy (m : Mem) (f : Kernel) (params extra : Nat) :
    (CudaKernelCommand.new m f params extra true).deepCopy = true ↔
      params ≠ 0 ∧ f.params ≠ [] := by
  by_cases h : f.params = [] ∨ params = 0
  · rw [cuda_new_original h]
    simp only [Bool.false_eq_true, false_iff]
    rintro ⟨hp, hf⟩
    exact h.elim hf hp
  · rw [not_or] at h
    rw [cuda_new_copied h.1 h.2]
    simp only [true_iff]
    exact ⟨h.2, h.1⟩

theorem launchEx_base (m : Mem) (config : CUlaunchConfig) (f : Kernel) (params extra : Nat) :
    (CudaKernelLaunchExCommand.new m config f params extra true).base =
        CudaKernelCommand.new m f params extra true ∧
      (CudaKernelLaunchExCommand.new m config f params extra true).numAttrs = config.numAttrs := by
  unfold CudaKernelLaunchExCommand.new
  by_cases h : config.attrs = 0 ∨ (CudaKernelCommand.new m f params extra true).deepCopy = false
  · rw [if_pos h]
    exact ⟨rfl, rfl⟩
  · rw [if_neg h]
    exact ⟨rfl, rfl⟩

/-- The attributes of a cuLaunchKernelEx command at launch. -/
def exAttrs (m m' : Mem) (config : CUlaunchConfig) (f : Kernel) (params extra : Nat) : List UInt8 :=
  driverAttrs m' config.numAttrs (CudaKernelLaunchExCommand.new m config f params extra true).attrs

theorem exAttrs_copied {config : CUlaunchConfig} {f : Kernel} {params : Nat}
    (h : AttrsCopies config f params) (extra : Nat) (m m' : Mem) :
    exAttrs m m' config f params extra =
      driverAttrs m config.numAttrs (attrsArg config.attrs) := by
  unfold exAttrs CudaKernelLaunchExCommand.new
  by_cases ha : config.attrs = 0
  · rw [if_pos (.inl ha), attrsArg, if_pos ha]
    rfl
  · by_cases hd : (CudaKernelCommand.new m f params extra true).deepCopy = true
    · rw [if_neg (by simp [ha, hd]), attrsArg, if_neg ha]
      exact Mem.read_copy_self _ _ _ _ _
    · have hn : config.numAttrs = 0 := by
        rcases h with h | h | h
        · exact absurd h ha
        · exact h
        · exact absurd ((cuda_new_deepCopy m f params extra).2 h) hd
      rw [if_pos (.inr (by simpa using hd)), attrsArg, if_neg ha, hn]
      rfl

theorem exAttrs_changes {config : CUlaunchConfig} {f : Kernel} {params : Nat}
    (h : ¬ AttrsCopies config f params) (extra : Nat) (m : Mem) :
    ∃ m', exAttrs m m' config f params extra ≠
      driverAttrs m config.numAttrs (attrsArg config.attrs) := by
  rw [AttrsCopies, not_or, not_or] at h
  obtain ⟨ha, hn, hdeep⟩ := h
  have hd : (CudaKernelCommand.new m f params extra true).deepCopy = false := by
    rw [← Bool.not_eq_true, cuda_new_deepCopy]
    exact hdeep
  obtain ⟨m', hm⟩ := exists_attrs_ne hn (driverAttrs m config.numAttrs (attrsArg config.attrs))
    config.attrs
  refine ⟨m', ?_⟩
  unfold exAttrs CudaKernelLaunchExCommand.new
  rw [if_pos (.inr hd)]
  show driverAttrs m' config.numAttrs (attrsArg config.attrs) ≠ _
  rw [attrsArg, if_neg ha] at hm ⊢
  exact hm

/-! ## HIP -/

/-- Which static HIP launches do: a kernel with parameters needs the array. -/
def StaticCopies (f : Kernel) (args : Nat) : Prop := args ≠ 0 ∨ f.params = []

theorem args_static (k : Kernel) (m : Mem) (a : Nat) :
    driverArgs k m (paramsArg a) .null =
      if a = 0 then .values [] else .values (callerValues m k.params a) := by
  unfold paramsArg
  split <;> rfl

theorem static_copied {f : Kernel} {args : Nat} (h : StaticCopies f args) (m : Mem) :
    ∃ cmd, HipStaticKernelLaunchCommand.new m f args 0 true = some cmd ∧
      ∀ m', HipKernelLaunchCommand.launch m' cmd = ⟨driverArgs f m (paramsArg args) .null, []⟩ := by
  unfold HipStaticKernelLaunchCommand.new
  rw [if_neg (by decide), args_static]
  by_cases hf : f.params = []
  · rw [if_pos hf, hf]
    refine ⟨_, rfl, fun m' => ?_⟩
    split <;> rfl
  · have ha : args ≠ 0 := h.resolve_right hf
    rw [if_neg hf, if_neg ha, if_neg ha]
    refine ⟨_, rfl, fun m' => ?_⟩
    show Passed.mk (driverArgs f m' (.own f.ptrs (copyParams m f.params args malloc)) .null) [] = _
    rw [own_values]

theorem static_none {f : Kernel} {args : Nat} (h : ¬ StaticCopies f args) (m : Mem) :
    HipStaticKernelLaunchCommand.new m f args 0 true = none := by
  rw [StaticCopies, not_or, not_not] at h
  unfold HipStaticKernelLaunchCommand.new
  rw [if_neg (by decide), if_neg h.2, if_pos h.1]

/-- Which dynamic HIP launches do: those with an extra list, of a kernel with
parameters and a buffer below 2 GiB. -/
def DynamicCopies (m : Mem) (f : Kernel) (params extra : Nat) : Prop :=
  extra ≠ 0 ∧ f.params ≠ [] ∧ (params ≠ 0 ∨ word m (extraSizePtr m extra) < 2 ^ 31)

theorem intSize_eq {m : Mem} {p : Nat} (h : word m p < 2 ^ 31) : intSize m p = some (word m p) := by
  have hmod : word m p % 2 ^ 32 = word m p := Nat.mod_eq_of_lt (by omega)
  rw [intSize, hmod, if_pos h]

theorem intSize_lt {m : Mem} {p n : Nat} (h : intSize m p = some n) : n < 2 ^ 31 := by
  unfold intSize at h
  split at h
  · rename_i hlt
    rw [← Option.some.inj h]
    exact hlt
  · cases h

section
variable {m m' : Mem} {f : Kernel} {params extra n : Nat} {p : Private}

theorem dynamicLaunch_extra (he : extra ≠ 0) : dynamicLaunch m' ⟨f, n, p, params, extra⟩ =
    ⟨driverArgs f m' (paramsArg params) (.own p n), []⟩ := by
  unfold dynamicLaunch
  rw [if_neg he]

theorem dynamicLaunch_array : dynamicLaunch m' ⟨f, n, p, params, 0⟩ =
    ⟨driverArgs f m' (paramsArg params) .null, []⟩ := by
  unfold dynamicLaunch
  rw [if_pos rfl]

theorem args_ownBuffer (b : Mem) : driverArgs f m' (paramsArg 0) (.own (.buffer b) n) =
    .buffer (read b 0 n) := rfl

theorem args_ownRejected (hp : params ≠ 0) : driverArgs f m' (paramsArg params) (.own p n) =
    .rejected := by
  rw [paramsArg, if_neg hp]
  rfl

theorem dynamic_copied (h : DynamicCopies m f params extra) :
    ∃ cmd, HipDynamicKernelLaunchCommand.new m f params extra true = some cmd ∧
      ∀ m', dynamicLaunch m' cmd = ⟨driverArgs f m (paramsArg params) (extraArg extra), []⟩ := by
  obtain ⟨he, hf, hsize⟩ := h
  unfold HipDynamicKernelLaunchCommand.new
  rw [if_neg (by decide), if_neg hf]
  by_cases hp : params = 0
  · have hlt := hsize.resolve_left (not_not_intro hp)
    rw [if_pos ⟨hp, he⟩, intSize_eq hlt, Option.map_some]
    refine ⟨_, rfl, fun m' => ?_⟩
    rw [dynamicLaunch_extra he, hp, args_ownBuffer, args_extra he, Mem.read_copy_self]
    rfl
  · rw [if_neg (fun h => hp h.1), if_neg hp]
    refine ⟨_, rfl, fun m' => ?_⟩
    rw [dynamicLaunch_extra he, args_ownRejected hp, args_both hp he]

theorem dynamic_changes {cmd : HipKernelCommand} (h : ¬ DynamicCopies m f params extra)
    (hcmd : HipDynamicKernelLaunchCommand.new m f params extra true = some cmd) :
    ∃ m', dynamicLaunch m' cmd ≠ ⟨driverArgs f m (paramsArg params) (extraArg extra), []⟩ := by
  unfold HipDynamicKernelLaunchCommand.new at hcmd
  rw [if_neg (by decide)] at hcmd
  split at hcmd
  · cases hcmd
  · rename_i hf
    split at hcmd
    · -- an extra buffer of 2 GiB or more: another number of bytes is passed
      rename_i hpe
      obtain ⟨hp, he⟩ := hpe
      obtain ⟨n, hn, rfl⟩ := Option.map_eq_some_iff.1 hcmd
      refine ⟨m, fun heq => h ⟨he, hf, .inr ?_⟩⟩
      rw [dynamicLaunch_extra he, hp, args_ownBuffer, args_extra he] at heq
      have hlen := congrArg List.length (Args.buffer.inj (Passed.mk.inj heq).1)
      rw [bufferBytes, Mem.length_read, Mem.length_read] at hlen
      rw [← hlen]
      exact intSize_lt hn
    · rename_i hpe
      split at hcmd
      · cases hcmd
      · -- an array: the caller's is passed, and read when the worker launches
        rename_i hp
        cases hcmd
        have he : extra = 0 := by
          by_contra he
          exact h ⟨he, hf, .inl hp⟩
        obtain ⟨m', hm⟩ := exists_values_ne hf (callerValues m f.params params) params
        refine ⟨m', fun heq => hm ?_⟩
        rw [he, dynamicLaunch_array, args_array hp, args_static, if_neg hp] at heq
        exact Args.values.inj (Passed.mk.inj heq).1

theorem dynamic_iff :
    (∃ cmd, HipDynamicKernelLaunchCommand.new m f params extra true = some cmd ∧
      ∀ m', dynamicLaunch m' cmd = ⟨driverArgs f m (paramsArg params) (extraArg extra), []⟩) ↔
      DynamicCopies m f params extra := by
  refine ⟨fun ⟨cmd, hcmd, hall⟩ => ?_, dynamic_copied⟩
  by_contra h
  obtain ⟨m', hm⟩ := dynamic_changes h hcmd
  exact hm (hall m')

end

/-! ## The launch functions -/

/-- Which launches pass arguments that no later write changes. -/
def CopiesAll (m : Mem) : Launch → Prop
  | .cuLaunchKernel _ params extra => CudaCopies params extra
  | .cuLaunchKernelEx config f params extra =>
    CudaCopies params extra ∧ AttrsCopies config f params
  | .hipLaunchKernel f args => StaticCopies f args
  | .hipModuleLaunchKernel function params extra => DynamicCopies m function params extra
  | .hipExtModuleLaunchKernel f params extra => DynamicCopies m f params extra

theorem cuLaunchKernel_launch (m m' : Mem) (f : Kernel) (params extra : Nat) :
    (CudaKernelCommand.new m f params extra true).launch m' =
      ⟨cudaArgs m m' f params extra, []⟩ := by
  obtain ⟨hfun, hextra⟩ := cuda_new_fixed m f params extra
  rw [CudaKernelCommand.launch, hfun, hextra]
  rfl

theorem cuLaunchKernelEx_launch (m m' : Mem) (config : CUlaunchConfig) (f : Kernel)
    (params extra : Nat) :
    (CudaKernelLaunchExCommand.new m config f params extra true).launch m' =
      ⟨cudaArgs m m' f params extra, exAttrs m m' config f params extra⟩ := by
  obtain ⟨hbase, hnum⟩ := launchEx_base m config f params extra
  obtain ⟨hfun, hextra⟩ := cuda_new_fixed m f params extra
  rw [CudaKernelLaunchExCommand.launch, hbase, hnum, hfun, hextra]
  rfl

/-- A command that is built decides. -/
theorem snapshotted_some {m : Mem} {l : Launch} {cmd : Command} (h : l.submit m = some cmd) :
    Snapshotted m l ↔ ∀ m', cmd.launch m' = l.passed m := by
  unfold Snapshotted
  rw [h]
  refine ⟨?_, fun hall => ⟨cmd, rfl, hall⟩⟩
  rintro ⟨cmd', he, hall⟩
  cases he
  exact hall

theorem snapshotted_map {α : Type} {m : Mem} {l : Launch} {o : Option α} {g : α → Command}
    (h : l.submit m = o.map g) :
    Snapshotted m l ↔ ∃ a, o = some a ∧ ∀ m', (g a).launch m' = l.passed m := by
  unfold Snapshotted
  rw [h]
  constructor
  · rintro ⟨cmd, he, hall⟩
    obtain ⟨a, ha, rfl⟩ := Option.map_eq_some_iff.1 he
    exact ⟨a, ha, hall⟩
  · rintro ⟨a, rfl, hall⟩
    exact ⟨g a, rfl, hall⟩

/-- **Snapshots.** The driver gets what the caller passed, whatever is written
to the caller's memory in between, exactly for the launches of `CopiesAll`. -/
theorem snapshotted_iff (m : Mem) (l : Launch) : Snapshotted m l ↔ CopiesAll m l := by
  cases l with
  | cuLaunchKernel f params extra =>
    rw [snapshotted_some rfl]
    refine ⟨fun hall => ?_, fun h m' => ?_⟩
    · by_contra h
      obtain ⟨m', hm⟩ := cudaArgs_changes h m
      have hlaunch := hall m'
      rw [Command.launch, cuLaunchKernel_launch] at hlaunch
      exact hm (Passed.mk.inj hlaunch).1
    · rw [Command.launch, cuLaunchKernel_launch, cudaArgs_copied h]
      rfl
  | cuLaunchKernelEx config f params extra =>
    rw [snapshotted_some rfl]
    refine ⟨fun hall => ⟨?_, ?_⟩, fun h m' => ?_⟩
    · by_contra h
      obtain ⟨m', hm⟩ := cudaArgs_changes h m
      have hlaunch := hall m'
      rw [Command.launch, cuLaunchKernelEx_launch] at hlaunch
      exact hm (Passed.mk.inj hlaunch).1
    · by_contra h
      obtain ⟨m', hm⟩ := exAttrs_changes h extra m
      have hlaunch := hall m'
      rw [Command.launch, cuLaunchKernelEx_launch] at hlaunch
      exact hm (Passed.mk.inj hlaunch).2
    · rw [Command.launch, cuLaunchKernelEx_launch, cudaArgs_copied h.1, exAttrs_copied h.2]
      rfl
  | hipLaunchKernel f args =>
    rw [snapshotted_map rfl]
    refine ⟨fun ⟨cmd, hcmd, _⟩ => ?_, fun h => static_copied h m⟩
    by_contra h
    rw [static_none h] at hcmd
    cases hcmd
  | hipModuleLaunchKernel function params extra =>
    rw [snapshotted_map rfl]
    exact dynamic_iff
  | hipExtModuleLaunchKernel f params extra =>
    rw [snapshotted_map rfl]
    exact dynamic_iff

/-- One parameter of four bytes. -/
def kernelInt : Kernel where
  params := [⟨0, 4⟩]
  sized := by decide
  ordered := List.pairwise_singleton _ _

/-- **Counterexample**: an argument array of `hipModuleLaunchKernel` is read
when the worker launches. -/
theorem array_not_snapshotted : ¬ ∀ (m : Mem) (l : Launch), Snapshotted m l := by
  intro h
  obtain ⟨cmd, hcmd, hall⟩ := h (fun _ => 0) (.hipModuleLaunchKernel kernelInt 16 0)
  have hlater : ((Launch.hipModuleLaunchKernel kernelInt 16 0).submit fun _ => 0).map
      (fun cmd => cmd.launch fun _ => 1) = some ⟨.values [[1, 1, 1, 1]], []⟩ := by decide
  have hcall : (Launch.hipModuleLaunchKernel kernelInt 16 0).passed (fun _ => 0) =
      ⟨.values [[0, 0, 0, 0]], []⟩ := by decide
  rw [hcmd, Option.map_some, hall, hcall] at hlater
  cases hlater

end Xsched.KernelArgs
