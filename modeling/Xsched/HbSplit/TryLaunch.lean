import Xsched.HbSplit.Launch
import Xsched.HbSplit.Registry
import Xsched.Sched.Config

/-!
# Launches that may be split

`TryLaunchKernelFixed` launches a kernel split, or leaves it to the caller: if
it returns false the caller launches the kernel itself. What it leaves to the
caller and what it refuses with an error depends on the strict mode at each of
its exits.

**All or nothing.** A call that returns false or with an error has not touched
the XQueue, and one that returns with success has submitted the boxes of the
grid as children, each once and in their order
(`tryLaunchKernelFixed_all_or_nothing`). So each launch of a caller is the split
one, or an error, or one native launch (`submitKernelWithRuntimeStrategy_once`).
-/
namespace Xsched.HbSplit
namespace TryLaunch

open Registry (CUfunction)
open Sched (XQueueConfig)

/-- The results that a launch sets. -/
inductive CUresult where
  | success
  | notSupported
  | invalidValue
  deriving DecidableEq, Repr

/-- What a launch reads of the build and of its environment. -/
structure Env where
  buildEnabled : Bool
  level : Int64
  priority : Int64
  strict : Bool
  splitBlocks : Int64

/-- mirrors platforms/cuda/hal/include/xsched/cuda/hal/runtime/runtime_strategy.h:34-48;
`kernelParams`: what the array holds, `extra`: whether it is given. -/
structure KernelLaunch (α : Type) where
  function : CUfunction
  grid : Grid3D
  block : Grid3D
  sharedMemBytes : UInt32
  kernelParams : Option (Nat → α)
  extra : Bool

inductive Command (α : Type) where
  | kernel (launch : KernelLaunch α)
  | child (function : CUfunction) (child : Child α)

/-- The XQueue of a launch, with the commands submitted to it. -/
structure XQueue (α : Type) where
  handle : Nat
  config : XQueueConfig
  submitted : List (Command α)

/-- `result`: what the pointer points to, `none` for null; `direct`: the launches
that the driver was given without an XQueue. -/
structure State (α : Type) where
  xqueue : Option (XQueue α)
  thresholdAdjusted : List Nat
  result : Option CUresult
  direct : List (KernelLaunch α)

variable {α : Type}

def State.setResult (r : CUresult) (s : State α) : State α :=
  { s with result := s.result.map fun _ => r }

/-- The part of the entry that the split launch looks at. -/
def splitInfo (info : Registry.FunctionInfo) : FunctionInfo where
  supportsOffsetX := info.capability.supportsOffsetX
  supportsOffsetY := info.capability.supportsOffsetY
  supportsOffsetZ := info.capability.supportsOffsetZ
  originalParamCount := info.originalParamCount

/-! ## The split launch -/

/-- mirrors platforms/cuda/hal/src/hb_split/backend.cpp:792-805 -/
def setLpSplitThresholdOnce (s : State α) : State α :=
  match s.xqueue with
  | none => s
  | some xqueue =>
    if xqueue.handle ∈ s.thresholdAdjusted then s
    else
      { s with
        thresholdAdjusted := xqueue.handle :: s.thresholdAdjusted
        xqueue := some { xqueue with
          config := ((xqueue.config.setLaunchConfig 1 1).map Prod.fst).getD xqueue.config } }

def State.submit (cmd : Command α) (s : State α) : State α :=
  { s with xqueue := s.xqueue.map fun xqueue =>
      { xqueue with submitted := xqueue.submitted ++ [cmd] } }

/-- The loop over the children; the vector keeps them until the last is completed.
mirrors platforms/cuda/hal/src/hb_split/backend.cpp:897-909 -/
def submitChildren (children : List (Command α)) (s : State α) : State α :=
  children.foldl (fun s cmd => s.submit cmd) s

/-- The command of a box: the parameters of the original kernel, then the offsets.
mirrors platforms/cuda/hal/src/hb_split/backend.cpp:852-863 -/
def childCommand (info : Registry.FunctionInfo) (transformed : CUfunction)
    (launch : KernelLaunch α) (kernelParams : Nat → α) (split : SplitSpec) : Command α :=
  .child transformed <| childOf split launch.block launch.sharedMemBytes <|
    (List.range info.originalParamCount).map kernelParams

/-- `paramCount` is `cuXtraGetParamCount`.
mirrors platforms/cuda/hal/src/hb_split/backend.cpp:807-912 -/
def submitSplitCommands (env : Env) (paramCount : CUfunction → Nat) (info : Registry.FunctionInfo)
    (transformed : CUfunction) (launch : KernelLaunch α) (kernelParams : Nat → α) (s : State α) :
    Bool × State α :=
  match capabilitySupportsGrid (splitInfo info) launch.grid with
  | .error _ => if env.strict then (true, s.setResult .notSupported) else (false, s)
  | .ok _ =>
    let splits := (decomposeGrid launch.grid (splitBlocks env.splitBlocks)).val
    if splits.isEmpty then (true, s.setResult .invalidValue)
    else if splits.length ≤ 1 then (false, s)
    else if paramCount transformed ≠ info.originalParamCount + 3 then
      -- the result is set whether the caller will look at it or not
      (env.strict, s.setResult .invalidValue)
    else
      let children := splits.map (childCommand info transformed launch kernelParams)
      (true, (submitChildren children (setLpSplitThresholdOnce s)).setResult .success)

/-- A launch that cannot be split: an error in strict mode. -/
def fallback (env : Env) (strictResult : CUresult) (s : State α) : Bool × State α :=
  if env.strict then (true, s.setResult strictResult) else (false, s)

/-- mirrors platforms/cuda/hal/src/hb_split/backend.cpp:1046-1126 -/
def tryLaunchKernelFixed (env : Env) (paramCount : CUfunction → Nat)
    (functions : CUfunction → Option Registry.FunctionInfo) (launch : KernelLaunch α)
    (s : State α) : Bool × State α :=
  let s := s.setResult .success
  if !env.buildEnabled then (false, s)
  else if ¬env.level ≤ 1 then fallback env .notSupported s
  else if ¬env.priority < 0 then (false, s)
  else
    match functions launch.function with
    | none => fallback env .notSupported s
    | some info =>
      if s.xqueue.isNone then fallback env .notSupported s
      else if !info.capability.splittable then fallback env .notSupported s
      else
        match info.transformedFunction with
        | none => fallback env .notSupported s
        | some transformed =>
          if launch.extra then fallback env .notSupported s
          else
            match launch.kernelParams with
            | none => fallback env .invalidValue s
            | some kernelParams =>
              if (volume launch.grid).val ≤ (splitBlocks env.splitBlocks).toInt64.toUInt64 then
                (false, s)
              else submitSplitCommands env paramCount info transformed launch kernelParams s

/-! ## The callers -/

/-- mirrors platforms/cuda/hal/include/xsched/cuda/hal/runtime/runtime_strategy.h:20-26 -/
inductive RuntimeStrategyMode where
  | native
  | hbFixed
  | hbRuntime
  | auto
  deriving DecidableEq

def State.launchDirect (launch : KernelLaunch α) (s : State α) : State α :=
  { s with direct := s.direct ++ [launch] }

/-- mirrors platforms/cuda/hal/src/runtime/runtime_strategy.cpp:79-94
(`NativeRuntimeStrategy::SubmitKernel`) -/
def nativeSubmitKernel (launch : KernelLaunch α) (s : State α) : State α :=
  if s.xqueue.isNone then s.launchDirect launch else s.submit (.kernel launch)

/-- mirrors platforms/cuda/hal/src/runtime/runtime_strategy.cpp:106-134,
157-182 -/
def submitKernelWithRuntimeStrategy (mode : RuntimeStrategyMode) (env : Env)
    (paramCount : CUfunction → Nat) (functions : CUfunction → Option Registry.FunctionInfo)
    (launch : KernelLaunch α) (s : State α) : State α :=
  match mode with
  | .hbFixed =>
    if env.buildEnabled then
      let (submitted, s') :=
        tryLaunchKernelFixed env paramCount functions launch { s with result := some .success }
      if submitted then s' else nativeSubmitKernel launch s'
    else nativeSubmitKernel launch s
  | _ => nativeSubmitKernel launch s

/-- The launch of the runtime library; `resolved` is what `ResolveRuntimeFunction`
gives for the stub.
mirrors platforms/cuda/shim/src/runtime_intercept.cpp:508-581 -/
def cudaLaunchKernel (mode : RuntimeStrategyMode) (resolved : Option CUfunction) (env : Env)
    (paramCount : CUfunction → Nat) (functions : CUfunction → Option Registry.FunctionInfo)
    (launch : KernelLaunch α) (s : State α) : State α :=
  if mode ≠ .hbFixed then s.launchDirect launch
  else
    match resolved with
    | none => s.launchDirect launch
    | some function =>
      if s.xqueue.isNone then s.launchDirect launch
      else
        let (submitted, s') := tryLaunchKernelFixed env paramCount functions
          { launch with function, extra := false } { s with result := some .success }
        if submitted then s' else s'.launchDirect launch

/-! ## The exits -/

/-- Nothing was launched, and the XQueue and its configuration are as they were. -/
structure Untouched (s s' : State α) : Prop where
  xqueue : s'.xqueue = s.xqueue
  thresholdAdjusted : s'.thresholdAdjusted = s.thresholdAdjusted
  direct : s'.direct = s.direct

theorem untouched_setResult (r : CUresult) (s : State α) : Untouched s (s.setResult r) :=
  ⟨rfl, rfl, rfl⟩

theorem Untouched.refl (s : State α) : Untouched s s := ⟨rfl, rfl, rfl⟩

theorem Untouched.trans {s s' s'' : State α} (h : Untouched s s') (h' : Untouched s' s'') :
    Untouched s s'' :=
  ⟨h'.xqueue.trans h.xqueue, h'.thresholdAdjusted.trans h.thresholdAdjusted,
    h'.direct.trans h.direct⟩

/-- The boxes of the grid were submitted behind what the XQueue had, each once
and in their order, and nothing else was. -/
structure Submits (env : Env) (functions : CUfunction → Option Registry.FunctionInfo)
    (launch : KernelLaunch α) (s s' : State α) : Prop where
  direct : s'.direct = s.direct
  children : ∃ xqueue xqueue' info transformed kernelParams,
    s.xqueue = some xqueue ∧ s'.xqueue = some xqueue' ∧
    functions launch.function = some info ∧ info.transformedFunction = some transformed ∧
    launch.kernelParams = some kernelParams ∧
    xqueue'.submitted = xqueue.submitted ++
      (decomposeGrid launch.grid (splitBlocks env.splitBlocks)).val.map
        (childCommand info transformed launch kernelParams)

/-- How `TryLaunchKernelFixed` may end: the kernel is left to the caller, it is
refused, or it is launched as `Split` says. -/
inductive Exit (Split : State α → Prop) (s : State α) : Bool × State α → Prop where
  | native {s' : State α} (untouched : Untouched s s') : Exit Split s (false, s')
  | refused {s' : State α} (untouched : Untouched s s') (error : CUresult)
      (ne : error ≠ .success) (result : s'.result = s.result.map fun _ => error) :
      Exit Split s (true, s')
  | split {s' : State α} (result : s'.result = s.result.map fun _ => .success)
      (submitted : Split s') : Exit Split s (true, s')

theorem fallback_exit {Split : State α → Prop} (env : Env) {strictResult : CUresult}
    (hne : strictResult ≠ .success) (s : State α) : Exit Split s (fallback env strictResult s) := by
  unfold fallback
  split
  · exact .refused (untouched_setResult ..) _ hne rfl
  · exact .native (.refl s)

/-- The result that was set at the start does not show at an exit. -/
theorem Exit.setResult {Split : State α → Prop} {s : State α} {r : CUresult}
    {e : Bool × State α} (h : Exit Split (s.setResult r) e) : Exit Split s e := by
  have hmap : ∀ r' : CUresult,
      (s.setResult r).result.map (fun _ => r') = s.result.map fun _ => r' := by
    intro r'
    rw [State.setResult, Option.map_map]
    rfl
  cases h with
  | native untouched => exact .native ((untouched_setResult r s).trans untouched)
  | refused untouched error ne result =>
    exact .refused ((untouched_setResult r s).trans untouched) error ne (result.trans (hmap _))
  | split result submitted => exact .split (result.trans (hmap _)) submitted

theorem Exit.mono {Split Split' : State α → Prop} {s : State α} {e : Bool × State α}
    (himp : ∀ s', Split s' → Split' s') (h : Exit Split s e) : Exit Split' s e := by
  cases h with
  | native untouched => exact .native untouched
  | refused untouched error ne result => exact .refused untouched error ne result
  | split result submitted => exact .split result (himp _ submitted)

theorem setLpSplitThresholdOnce_submitted {s : State α} {xqueue : XQueue α}
    (h : s.xqueue = some xqueue) :
    ∃ xqueue', (setLpSplitThresholdOnce s).xqueue = some xqueue' ∧
      xqueue'.submitted = xqueue.submitted := by
  unfold setLpSplitThresholdOnce
  simp only [h]
  split
  · exact ⟨xqueue, h, rfl⟩
  · exact ⟨_, rfl, rfl⟩

theorem setLpSplitThresholdOnce_result (s : State α) :
    (setLpSplitThresholdOnce s).result = s.result ∧
      (setLpSplitThresholdOnce s).direct = s.direct := by
  unfold setLpSplitThresholdOnce
  split
  · exact ⟨rfl, rfl⟩
  split
  · exact ⟨rfl, rfl⟩
  · exact ⟨rfl, rfl⟩

/-- The loop submits each child once, in their order. -/
theorem submitChildren_submitted (children : List (Command α)) {s : State α} {xqueue : XQueue α}
    (h : s.xqueue = some xqueue) :
    ∃ xqueue', (submitChildren children s).xqueue = some xqueue' ∧
      xqueue'.submitted = xqueue.submitted ++ children := by
  induction children generalizing s xqueue with
  | nil => exact ⟨xqueue, h, (List.append_nil _).symm⟩
  | cons cmd children ih =>
    have hsubmit : (s.submit cmd).xqueue =
        some { xqueue with submitted := xqueue.submitted ++ [cmd] } := by
      simp only [State.submit, h, Option.map_some]
    obtain ⟨xqueue', hxqueue, hsubmitted⟩ := ih hsubmit
    refine ⟨xqueue', hxqueue, hsubmitted.trans ?_⟩
    rw [List.append_assoc, List.singleton_append]

theorem submitChildren_result (children : List (Command α)) (s : State α) :
    (submitChildren children s).result = s.result ∧
      (submitChildren children s).direct = s.direct := by
  induction children generalizing s with
  | nil => exact ⟨rfl, rfl⟩
  | cons cmd children ih => exact ih (s.submit cmd)

/-- The split launch does what `HbSplit.submitSplitCommands` decides, and its commands
are the children, for the transformed function. -/
theorem submitSplitCommands_submission (env : Env) (paramCount : CUfunction → Nat)
    (info : Registry.FunctionInfo) (transformed : CUfunction) (launch : KernelLaunch α)
    (kernelParams : Nat → α) (s : State α) :
    let r := submitSplitCommands env paramCount info transformed launch kernelParams s
    match HbSplit.submitSplitCommands (splitInfo info) launch.grid launch.block
      launch.sharedMemBytes ((List.range info.originalParamCount).map kernelParams)
      env.splitBlocks env.strict (paramCount transformed) with
    | .native _ => r.1 = false ∧ Untouched s r.2
    | .done _ => r.1 = true ∧ Untouched s r.2 ∧
      ∃ error : CUresult, error ≠ .success ∧ r.2.result = s.result.map fun _ => error
    | .submitted children =>
      children.map (.child transformed) =
          (decomposeGrid launch.grid (splitBlocks env.splitBlocks)).val.map
            (childCommand info transformed launch kernelParams) ∧
        r = (true, (submitChildren (children.map (.child transformed))
          (setLpSplitThresholdOnce s)).setResult .success) := by
  have htake : ((List.range info.originalParamCount).map kernelParams).take
      (splitInfo info).originalParamCount =
        (List.range info.originalParamCount).map kernelParams :=
    List.take_of_length_le (by simp [splitInfo])
  have hset : ∀ error : CUresult, error ≠ .success →
      Untouched s (s.setResult error) ∧ ∃ error' : CUresult, error' ≠ .success ∧
        (s.setResult error).result = s.result.map fun _ => error' :=
    fun error hne => ⟨untouched_setResult .., error, hne, rfl⟩
  unfold submitSplitCommands HbSplit.submitSplitCommands
  cases capabilitySupportsGrid (splitInfo info) launch.grid with
  | error reason =>
    cases env.strict with
    | false => exact ⟨rfl, .refl s⟩
    | true => exact ⟨rfl, hset .notSupported (by decide)⟩
  | ok _ =>
    dsimp only
    rw [htake]
    generalize (decomposeGrid launch.grid (splitBlocks env.splitBlocks)).val = splits
    by_cases hempty : splits.isEmpty
    · simp only [if_pos hempty]
      exact ⟨trivial, hset .invalidValue (by decide)⟩
    by_cases hone : splits.length ≤ 1
    · simp only [if_neg hempty, if_pos hone]
      exact ⟨trivial, .refl s⟩
    by_cases hcount : paramCount transformed ≠ info.originalParamCount + 3
    · have hcount' : paramCount transformed ≠ (splitInfo info).originalParamCount + 3 := hcount
      simp only [if_neg hempty, if_neg hone, if_pos hcount, if_pos hcount']
      cases env.strict with
      | false => exact ⟨rfl, untouched_setResult ..⟩
      | true => exact ⟨rfl, hset .invalidValue (by decide)⟩
    · have hcount' : ¬paramCount transformed ≠ (splitInfo info).originalParamCount + 3 := hcount
      simp only [if_neg hempty, if_neg hone, if_neg hcount, if_neg hcount']
      rw [List.map_map]
      exact ⟨rfl, rfl⟩

theorem submitSplitCommands_exit (env : Env) (paramCount : CUfunction → Nat)
    {functions : CUfunction → Option Registry.FunctionInfo} {info : Registry.FunctionInfo}
    {transformed : CUfunction} {launch : KernelLaunch α} {kernelParams : Nat → α} {s : State α}
    {xqueue : XQueue α} (hxqueue : s.xqueue = some xqueue)
    (hinfo : functions launch.function = some info)
    (htransformed : info.transformedFunction = some transformed)
    (hparams : launch.kernelParams = some kernelParams) :
    Exit (Submits env functions launch s) s
      (submitSplitCommands env paramCount info transformed launch kernelParams s) := by
  have hsubmission :=
    submitSplitCommands_submission env paramCount info transformed launch kernelParams s
  generalize submitSplitCommands env paramCount info transformed launch kernelParams s = r
    at hsubmission ⊢
  obtain ⟨split, s'⟩ := r
  dsimp only at hsubmission
  generalize HbSplit.submitSplitCommands .. = submission at hsubmission
  cases submission with
  | native reason =>
    obtain ⟨rfl, untouched⟩ := hsubmission
    exact .native untouched
  | done code =>
    obtain ⟨rfl, untouched, error, hne, hresult⟩ := hsubmission
    exact .refused untouched error hne hresult
  | submitted children =>
    obtain ⟨hchildren, hr⟩ := hsubmission
    cases hr
    obtain ⟨xqueue₁, hxqueue₁, hsubmitted₁⟩ := setLpSplitThresholdOnce_submitted hxqueue
    obtain ⟨xqueue₂, hxqueue₂, hsubmitted₂⟩ :=
      submitChildren_submitted (children.map (.child transformed)) hxqueue₁
    rw [hchildren, hsubmitted₁] at hsubmitted₂
    refine .split ?_ ⟨?_, xqueue, xqueue₂, info, transformed, kernelParams, hxqueue, hxqueue₂,
      hinfo, htransformed, hparams, hsubmitted₂⟩
    · change Option.map _ (submitChildren _ _).result = _
      rw [(submitChildren_result ..).1, (setLpSplitThresholdOnce_result s).1]
    · exact (submitChildren_result ..).2.trans (setLpSplitThresholdOnce_result s).2

theorem tryLaunchKernelFixed_exit (env : Env) (paramCount : CUfunction → Nat)
    (functions : CUfunction → Option Registry.FunctionInfo) (launch : KernelLaunch α)
    (s : State α) :
    Exit (Submits env functions launch s) s
      (tryLaunchKernelFixed env paramCount functions launch s) := by
  have hnative : Exit (Submits env functions launch s) s (false, s.setResult .success) :=
    .native (untouched_setResult ..)
  have hfallback : ∀ r, r ≠ .success →
      Exit (Submits env functions launch s) s (fallback env r (s.setResult .success)) :=
    fun r hne => (fallback_exit env hne _).setResult
  unfold tryLaunchKernelFixed
  dsimp only
  split
  · exact hnative
  split
  · exact hfallback _ (by decide)
  split
  · exact hnative
  split
  · exact hfallback _ (by decide)
  next info hinfo =>
  split
  · exact hfallback _ (by decide)
  next hxqueue =>
  obtain ⟨xqueue, hxqueue⟩ := Option.ne_none_iff_exists'.1 (Option.isNone_iff_eq_none.not.1 hxqueue)
  split
  · exact hfallback _ (by decide)
  split
  · exact hfallback _ (by decide)
  next transformed htransformed =>
  split
  · exact hfallback _ (by decide)
  split
  · exact hfallback _ (by decide)
  next kernelParams hparams =>
  split
  · exact hnative
  refine Exit.setResult (r := .success) (Exit.mono ?_
    (submitSplitCommands_exit env paramCount hxqueue hinfo htransformed hparams))
  exact fun s' h => ⟨h.direct, h.children⟩

/-! ## All or nothing -/

/-- The kernel was launched natively, once: behind the commands of the XQueue,
or by the driver itself. -/
def NativeOnce (launch : KernelLaunch α) (s s' : State α) : Prop :=
  s'.thresholdAdjusted = s.thresholdAdjusted ∧
  ((∃ xqueue, s.xqueue = some xqueue ∧ s'.direct = s.direct ∧
      s'.xqueue = some { xqueue with submitted := xqueue.submitted ++ [.kernel launch] }) ∨
    (s'.xqueue = s.xqueue ∧ s'.direct = s.direct ++ [launch]))

theorem nativeSubmitKernel_once (launch : KernelLaunch α) {s s' : State α} (h : Untouched s s') :
    NativeOnce launch s (nativeSubmitKernel launch s') := by
  unfold nativeSubmitKernel
  cases hxqueue : s'.xqueue with
  | none => exact ⟨h.thresholdAdjusted, .inr ⟨h.xqueue, congrArg (· ++ [launch]) h.direct⟩⟩
  | some xqueue =>
    refine ⟨h.thresholdAdjusted, .inl ⟨xqueue, h.xqueue ▸ hxqueue, h.direct, ?_⟩⟩
    change s'.xqueue.map _ = _
    rw [hxqueue]
    rfl

theorem launchDirect_once (launch : KernelLaunch α) {s s' : State α} (h : Untouched s s') :
    NativeOnce launch s (s'.launchDirect launch) :=
  ⟨h.thresholdAdjusted, .inr ⟨h.xqueue, congrArg (· ++ [launch]) h.direct⟩⟩

/-- What a launch of a caller comes to: `Split`, an error, or one native launch. -/
inductive Launched (Split : State α → Prop) (launch : KernelLaunch α) (s s' : State α) : Prop where
  | split (submitted : Split s')
  | refused (untouched : Untouched s s') (error : CUresult) (ne : error ≠ .success)
      (result : s'.result = some error)
  | native (once : NativeOnce launch s s')

/-- The caller returns what it got, or launches the kernel itself. -/
theorem Exit.launched {Split : State α → Prop} {launch : KernelLaunch α} {s : State α}
    {e : Bool × State α} {native : State α → State α}
    (h : Exit Split { s with result := some .success } e)
    (hnative : ∀ s', Untouched s s' → NativeOnce launch s (native s')) :
    Launched Split launch s (if e.1 then e.2 else native e.2) := by
  have hs : ∀ {s'}, Untouched { s with result := some .success } s' → Untouched s s' :=
    fun h => ⟨h.xqueue, h.thresholdAdjusted, h.direct⟩
  cases h with
  | native untouched => exact .native (hnative _ (hs untouched))
  | refused untouched error ne result => exact .refused (hs untouched) error ne result
  | split result submitted => exact .split submitted

theorem submitKernelWithRuntimeStrategy_once (mode : RuntimeStrategyMode) (env : Env)
    (paramCount : CUfunction → Nat) (functions : CUfunction → Option Registry.FunctionInfo)
    (launch : KernelLaunch α) (s : State α) :
    Launched (Submits env functions launch s) launch s
      (submitKernelWithRuntimeStrategy mode env paramCount functions launch s) := by
  have hnative := nativeSubmitKernel_once launch (.refl s)
  cases mode with
  | native => exact .native hnative
  | hbRuntime => exact .native hnative
  | auto => exact .native hnative
  | hbFixed =>
    unfold submitKernelWithRuntimeStrategy
    dsimp only
    split
    · refine Exit.launched (Exit.mono (fun s' h => ⟨h.direct, h.children⟩)
        (tryLaunchKernelFixed_exit ..)) fun s' => nativeSubmitKernel_once launch
    · exact .native hnative

theorem cudaLaunchKernel_once (mode : RuntimeStrategyMode) (resolved : Option CUfunction)
    (env : Env) (paramCount : CUfunction → Nat)
    (functions : CUfunction → Option Registry.FunctionInfo) (launch : KernelLaunch α)
    (s : State α) :
    Launched (fun s' => ∃ function, resolved = some function ∧
        Submits env functions { launch with function, extra := false } s s') launch s
      (cudaLaunchKernel mode resolved env paramCount functions launch s) := by
  have hnative := launchDirect_once launch (.refl s)
  unfold cudaLaunchKernel
  split
  · exact .native hnative
  split
  · exact .native hnative
  next function =>
  split
  · exact .native hnative
  · refine Exit.launched (Exit.mono (fun s' h => ⟨function, rfl, h.direct, h.children⟩)
      (tryLaunchKernelFixed_exit ..)) fun s' => launchDirect_once launch

/-- **All or nothing.** A launch left to the caller has not touched the XQueue,
nor has one refused; one that succeeds has submitted the children of the boxes.
What either caller does comes to one launch: the split one or the native one. -/
theorem tryLaunchKernelFixed_all_or_nothing (env : Env) (paramCount : CUfunction → Nat)
    (functions : CUfunction → Option Registry.FunctionInfo) (launch : KernelLaunch α)
    (s : State α) :
    let r := tryLaunchKernelFixed env paramCount functions launch s
    (r.1 = false → Untouched s r.2) ∧
    (r.1 = true → r.2.result = some .success → Submits env functions launch s r.2) ∧
    (∀ error ≠ .success, r.1 = true → r.2.result = some error → Untouched s r.2) ∧
    (∀ mode, Launched (Submits env functions launch s) launch s
      (submitKernelWithRuntimeStrategy mode env paramCount functions launch s)) ∧
    (∀ mode resolved, Launched (fun s' => ∃ function, resolved = some function ∧
        Submits env functions { launch with function, extra := false } s s') launch s
      (cudaLaunchKernel mode resolved env paramCount functions launch s)) := by
  intro r
  have hexit : Exit (Submits env functions launch s) s r := tryLaunchKernelFixed_exit ..
  refine ⟨fun hfalse => ?_, fun htrue hsuccess => ?_, fun error hne htrue herror => ?_,
    fun mode => submitKernelWithRuntimeStrategy_once .., fun mode resolved =>
    cudaLaunchKernel_once ..⟩
  · generalize r = e at hexit hfalse
    cases hexit with
    | native untouched => exact untouched
    | refused => cases hfalse
    | split => cases hfalse
  · generalize r = e at hexit htrue hsuccess
    cases hexit with
    | native => cases htrue
    | refused untouched error ne result =>
      obtain ⟨_, -, heq⟩ := Option.map_eq_some_iff.1 (result ▸ hsuccess)
      exact absurd heq ne
    | split result submitted => exact submitted
  · generalize r = e at hexit htrue herror
    cases hexit with
    | native => cases htrue
    | refused untouched => exact untouched
    | split result =>
      obtain ⟨_, -, heq⟩ := Option.map_eq_some_iff.1 (result ▸ herror)
      exact absurd heq.symm hne

end TryLaunch
end Xsched.HbSplit
