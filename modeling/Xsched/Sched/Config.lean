import Xsched.Core.LTS
import Xsched.Sched.Status

/-!
# Configuration requests

A POST request changes the threshold and the batch size of an XQueue. The
server checks it against the entry of its status and sends the process a
`ConfigOperation` with the fields that change, -1 for the others. The client
fills these in from its own configuration when it applies the operation, and
asserts that the threshold is not smaller than the batch size. The new
configuration comes back to the status in an event.

**The break.** The status lags behind: requests are checked against a
configuration that the operations under way will have changed by the time
they are applied. Two requests that are each right for the configuration
the status has, one for the threshold and one for the batch size, abort the
client. An entry that a Ready event has made has no configuration at all, and
every threshold is right for it.

**Results.**
* `config_safe`: while every request, call and new XQueue goes together with the
  operations under way (`Fits`), no client aborts and every configuration is
  valid; a step against the condition leaves operations that abort the client.
* `accepted_requests_abort`: threshold 10, then batch size 12, from 16 and 8.
-/
namespace Xsched.Sched

def kPreemptLevelMax : XPreemptLevel := 4
def XSCHED_DEFAULT_COMMAND_THRESHOLD : Int := 16
def XSCHED_DEFAULT_COMMAND_BATCH_SZIE : Int := 8

/-- `level`, `threshold` and `batchSize` as requested: unknown and -1 for no change.
mirrors sched/include/xsched/sched/protocol/operation.h:90-122 -/
structure ConfigOperation where
  pid : PID
  handle : XQueueHandle
  level : XPreemptLevel
  threshold : Int
  batchSize : Int
  deriving DecidableEq

/-! ## The client -/

/-- An XQueue of a client; `dynamicLevel`, `maxLevel`: what its HwQueue supports. -/
structure XQueueConfig where
  device : XDevice
  level : XPreemptLevel
  threshold : Int
  batchSize : Int
  dynamicLevel : Bool
  maxLevel : XPreemptLevel
  deriving DecidableEq

namespace XQueueConfig

/-- The configuration of a new XQueue. -/
def new (device : XDevice) (level : XPreemptLevel) (dynamicLevel : Bool)
    (maxLevel : XPreemptLevel) : XQueueConfig :=
  ⟨device, level, XSCHED_DEFAULT_COMMAND_THRESHOLD, XSCHED_DEFAULT_COMMAND_BATCH_SZIE,
    dynamicLevel, maxLevel⟩

def Valid (c : XQueueConfig) : Prop := c.batchSize ≤ c.threshold ∧ 1 ≤ c.batchSize

/-- `none`: an assertion fails. mirrors preempt/src/xqueue/xqueue.cpp:271-284 and
preempt/src/xqueue/async_xqueue.cpp:161-183 -/
def setPreemptLevel (level : XPreemptLevel) (c : XQueueConfig) : Option (XQueueConfig × Bool) :=
  if !c.dynamicLevel then some (c, false)
  else if level ≤ kPreemptLevelUnknown ∨ kPreemptLevelMax ≤ level then none
  else if c.maxLevel < level then some (c, false)
  else some ({ c with level }, true)

/-- `none`: the assertion on threshold and batch size fails.
mirrors preempt/src/xqueue/xqueue.cpp:286-306 and
preempt/src/xqueue/async_xqueue.cpp:185-216 -/
def setLaunchConfig (threshold batchSize : Int) (c : XQueueConfig) :
    Option (XQueueConfig × Bool) :=
  if threshold ≤ 0 ∧ batchSize ≤ 0 then some (c, false)
  else
    let threshold := if threshold ≤ 0 then c.threshold else threshold
    let batchSize := if batchSize ≤ 0 then c.batchSize else batchSize
    if threshold ≥ batchSize then some ({ c with threshold, batchSize }, true) else none

/-- The event that follows a change. -/
def updateEvent (pid : PID) (h : XQueueHandle) (changed : XQueueConfig × Bool) : List Event :=
  if changed.2 then
    [.xQueueConfigUpdate pid h changed.1.device changed.1.level changed.1.threshold
      changed.1.batchSize]
  else []

theorem valid_new (device : XDevice) (level : XPreemptLevel) (dynamicLevel : Bool)
    (maxLevel : XPreemptLevel) : (new device level dynamicLevel maxLevel).Valid := by
  constructor
  · change (8 : Int) ≤ 16; decide
  · change (1 : Int) ≤ 8; decide

theorem Valid.setPreemptLevel {c : XQueueConfig} (hv : c.Valid) {level : XPreemptLevel}
    {r : XQueueConfig × Bool} (h : c.setPreemptLevel level = some r) : r.1.Valid := by
  unfold XQueueConfig.setPreemptLevel at h
  split at h
  · cases h; exact hv
  · split at h
    · cases h
    · split at h <;> cases h <;> exact hv

/-- The assertion is what keeps a configuration valid. -/
theorem Valid.setLaunchConfig {c : XQueueConfig} (hv : c.Valid) {threshold batchSize : Int}
    {r : XQueueConfig × Bool} (h : c.setLaunchConfig threshold batchSize = some r) :
    r.1.Valid := by
  obtain ⟨hle, hone⟩ := hv
  unfold XQueueConfig.setLaunchConfig at h
  split at h
  · cases h; exact ⟨hle, hone⟩
  · obtain ⟨hge, hr⟩ := Option.ite_none_right_eq_some.1 h
    cases hr
    refine ⟨hge, ?_⟩
    simp only
    split
    · exact hone
    · omega

end XQueueConfig

namespace ConfigOperation

/-- mirrors preempt/src/sched/executor.cpp:66-89 -/
def executeConfigOperation (op : ConfigOperation) (c : XQueueConfig) :
    Option (XQueueConfig × List Event) :=
  let afterLevel := if op.level > kPreemptLevelUnknown then c.setPreemptLevel op.level
    else some (c, false)
  match afterLevel with
  | none => none
  | some r₁ =>
    let afterLaunch := if op.threshold > 0 ∨ op.batchSize > 0 then
        r₁.1.setLaunchConfig op.threshold op.batchSize
      else some (r₁.1, false)
    match afterLaunch with
    | none => none
    | some r₂ => some (r₂.1,
        XQueueConfig.updateEvent op.pid op.handle r₁ ++ XQueueConfig.updateEvent op.pid op.handle r₂)

theorem valid_execute {op : ConfigOperation} {c : XQueueConfig} (hv : c.Valid)
    {r : XQueueConfig × List Event} (h : op.executeConfigOperation c = some r) : r.1.Valid := by
  unfold executeConfigOperation at h
  simp only at h
  split at h
  · cases h
  · rename_i r₁ h₁
    have hv₁ : r₁.1.Valid := by
      split at h₁
      · exact hv.setPreemptLevel h₁
      · cases h₁; exact hv
    split at h
    · cases h
    · rename_i r₂ h₂
      cases h
      split at h₂
      · exact hv₁.setLaunchConfig h₂
      · cases h₂; exact hv₁

end ConfigOperation

/-- The client applies the operations one after the other, without an assertion
that fails. -/
def Applies (c : XQueueConfig) : List ConfigOperation → Bool
  | [] => true
  | op :: ops =>
    match op.executeConfigOperation c with
    | none => false
    | some r => Applies r.1 ops

/-! ## The server and its clients -/

/-- `none`: the request is refused, or changes nothing. The parameters are those
of the query string, if it has them. mirrors service/server/src/server.cpp:296-370 -/
def postXQueueConfig (handle : XQueueHandle) (level : Option XPreemptLevel)
    (threshold batchSize : Option Int) (status : Status) : Option ConfigOperation :=
  if handle = 0 then none
  else if level.any fun l => l ≤ kPreemptLevelUnknown || kPreemptLevelMax ≤ l then none
  else if threshold.any (· ≤ 0) then none
  else if batchSize.any (· ≤ 0) then none
  else
    match status.xqueueStatus.lookup handle with
    | none => none
    | some q =>
      if threshold.getD q.threshold ≤ batchSize.getD q.batchSize then none
      else if level = none ∧ threshold = none ∧ batchSize = none then none
      else some ⟨q.pid, handle, level.getD kPreemptLevelUnknown, threshold.getD (-1),
        batchSize.getD (-1)⟩

/-- `up`: the events under way to the scheduler, in order. `objs` are the
XQueues in `XQueueManager`; `aborted`: an assertion has failed. -/
structure ConfigSystem where
  status : Status
  up : List Event
  clientChans : PID → Bool
  objs : PID → XQueueHandle → Option XQueueConfig
  ops : PID → List ConfigOperation
  aborted : PID → Bool

inductive ConfigAct where
  /-- The server opens or closes the channel to the process. -/
  | connect (pid : PID) (b : Bool)
  | create (pid : PID) (h : XQueueHandle) (device : XDevice) (level : XPreemptLevel)
      (dynamicLevel : Bool) (maxLevel : XPreemptLevel)
  | destroy (pid : PID) (h : XQueueHandle)
  | ready (pid : PID) (h : XQueueHandle) (readyTime : TimePoint)
  | idle (pid : PID) (h : XQueueHandle)
  /-- The application calls `XQueueSetLaunchConfig`. -/
  | setLaunchConfig (pid : PID) (h : XQueueHandle) (threshold batchSize : Int)
  | execute (pid : PID)
  | update (now : TimePoint)
  | post (handle : XQueueHandle) (level : Option XPreemptLevel) (threshold batchSize : Option Int)
  deriving DecidableEq

namespace ConfigSystem

def init : ConfigSystem :=
  ⟨.empty, [], fun _ => false, fun _ _ => none, fun _ => [], fun _ => false⟩

def setObj (pid : PID) (h : XQueueHandle) (c : Option XQueueConfig) (s : ConfigSystem) :
    ConfigSystem :=
  { s with objs := Function.update s.objs pid (Function.update (s.objs pid) h c) }

def send (es : List Event) (s : ConfigSystem) : ConfigSystem := { s with up := s.up ++ es }

def abort (pid : PID) (s : ConfigSystem) : ConfigSystem :=
  { s with aborted := Function.update s.aborted pid true }

def setOps (pid : PID) (ops : List ConfigOperation) (s : ConfigSystem) : ConfigSystem :=
  { s with ops := Function.update s.ops pid ops }

/-- The first operation in the channel, for an XQueue that there is or is not. -/
def execute (pid : PID) (s : ConfigSystem) : Option ConfigSystem :=
  match s.ops pid with
  | [] => none
  | op :: ops =>
    match s.objs pid op.handle with
    | none => some (s.setOps pid ops)
    | some c =>
      match op.executeConfigOperation c with
      | none => some (s.abort pid)
      | some r => some (((s.setOps pid ops).setObj pid op.handle (some r.1)).send r.2)

def step (s : ConfigSystem) : ConfigAct → Option ConfigSystem
  | .connect pid b => some { s with clientChans := Function.update s.clientChans pid b }
  | .create pid h device level dynamicLevel maxLevel =>
    if s.aborted pid then none
    else
      match s.objs pid h with
      | some _ => none
      | none =>
        let c := XQueueConfig.new device level dynamicLevel maxLevel
        some ((s.setObj pid h (some c)).send
          [.xQueueCreate pid h device level c.threshold c.batchSize])
  | .destroy pid h =>
    if s.aborted pid then none
    else
      match s.objs pid h with
      | none => none
      | some _ => some ((s.setObj pid h none).send [.xQueueDestroy pid h])
  | .ready pid h readyTime =>
    if s.aborted pid || (s.objs pid h).isNone then none
    else some (s.send [.xQueueReady pid h readyTime])
  | .idle pid h =>
    if s.aborted pid || (s.objs pid h).isNone then none
    else some (s.send [.xQueueIdle pid h])
  | .setLaunchConfig pid h threshold batchSize =>
    if s.aborted pid then none
    else
      match s.objs pid h with
      | none => some s
      | some c =>
        match c.setLaunchConfig threshold batchSize with
        | none => some (s.abort pid)
        | some r => some ((s.setObj pid h (some r.1)).send (XQueueConfig.updateEvent pid h r))
  | .execute pid => if s.aborted pid then none else s.execute pid
  | .update now =>
    match s.up with
    | [] => none
    | e :: up => (s.status.updateStatus now e).map fun status => { s with status, up }
  | .post handle level threshold batchSize =>
    match postXQueueConfig handle level threshold batchSize s.status with
    | none => some s
    | some op =>
      if s.clientChans op.pid then some (s.setOps op.pid (s.ops op.pid ++ [op])) else some s

def lts : LTS ConfigSystem ConfigAct := .ofFn (fun s => s = init) step

/-- No client aborts, and every configuration is valid. -/
def Safe (s : ConfigSystem) : Prop :=
  ∀ pid, s.aborted pid = false ∧ ∀ h c, s.objs pid h = some c → c.Valid

/-- The operations under way for an XQueue. -/
def opsFor (pid : PID) (h : XQueueHandle) (s : ConfigSystem) : List ConfigOperation :=
  (s.ops pid).filter (·.handle = h)

/-- What the step changes goes together with the operations under way. -/
def fits (s : ConfigSystem) : ConfigAct → Bool
  | .create pid h device level dynamicLevel maxLevel =>
    Applies (.new device level dynamicLevel maxLevel) (s.opsFor pid h)
  | .setLaunchConfig pid h threshold batchSize =>
    (s.objs pid h).all fun c => (c.setLaunchConfig threshold batchSize).any fun r =>
      Applies r.1 (s.opsFor pid h)
  | .post handle level threshold batchSize =>
    (postXQueueConfig handle level threshold batchSize s.status).all fun op =>
      !s.clientChans op.pid ||
        (s.objs op.pid op.handle).all fun c => Applies c (s.opsFor op.pid op.handle ++ [op])
  | _ => true

def Fits (s : ConfigSystem) (act : ConfigAct) : Prop := s.fits act = true

instance (s : ConfigSystem) (act : ConfigAct) : Decidable (Fits s act) :=
  inferInstanceAs (Decidable (_ = true))

/-! ## Runs -/

section
variable {s s' : ConfigSystem} {pid pid' : PID} {h h' : XQueueHandle}

theorem setObj_objs (c : Option XQueueConfig) :
    (s.setObj pid h c).objs pid' h' = if pid' = pid ∧ h' = h then c else s.objs pid' h' := by
  by_cases hp : pid' = pid
  · subst hp
    by_cases hh : h' = h
    · subst hh; simp [setObj]
    · simp [setObj, hh]
  · simp [setObj, hp]

theorem setOps_opsFor (ops : List ConfigOperation) :
    (s.setOps pid ops).opsFor pid' h =
      if pid' = pid then ops.filter (·.handle = h) else s.opsFor pid' h := by
  by_cases hp : pid' = pid
  · subst hp; simp [opsFor, setOps]
  · simp [opsFor, setOps, hp]

/-- The operations under way go together with the configuration they will meet. -/
structure Inv (s : ConfigSystem) : Prop where
  running : ∀ pid, s.aborted pid = false
  valid : ∀ pid h c, s.objs pid h = some c → c.Valid
  applies : ∀ pid h c, s.objs pid h = some c → Applies c (s.opsFor pid h) = true

/-- A step that sets one XQueue's configuration. -/
theorem Inv.setObj (hi : s.Inv) {c : Option XQueueConfig} (es : List Event)
    (hc : ∀ c₁, c = some c₁ → c₁.Valid ∧ Applies c₁ (s.opsFor pid h) = true) :
    ((s.setObj pid h c).send es).Inv := by
  refine ⟨hi.running, ?_, ?_⟩
  · intro pid' h' c' hc'
    change (s.setObj pid h c).objs pid' h' = some c' at hc'
    rw [setObj_objs] at hc'
    split at hc'
    · exact (hc c' hc').1
    · exact hi.valid pid' h' c' hc'
  · intro pid' h' c' hc'
    change (s.setObj pid h c).objs pid' h' = some c' at hc'
    change Applies c' (s.opsFor pid' h') = true
    rw [setObj_objs] at hc'
    split at hc'
    · rename_i heq
      rw [heq.1, heq.2]
      exact (hc c' hc').2
    · exact hi.applies pid' h' c' hc'

theorem inv_execute (hi : s.Inv) (hs : s.execute pid = some s') : s'.Inv := by
  unfold execute at hs
  split at hs
  · cases hs
  · rename_i op ops hops
    have hfor : ∀ h, s.opsFor pid h = if op.handle = h then op :: ops.filter (·.handle = h)
        else ops.filter (·.handle = h) := by
      intro h
      simp only [opsFor, hops, List.filter_cons, decide_eq_true_eq]
    -- what is left for another XQueue, or for the same one when it is gone
    have hrest : ∀ pid' h' c', s.objs pid' h' = some c' → (pid' = pid → h' ≠ op.handle) →
        Applies c' ((s.setOps pid ops).opsFor pid' h') = true := by
      intro pid' h' c' hc' hne
      have ha := hi.applies pid' h' c' hc'
      rw [setOps_opsFor]
      split
      · rename_i hp
        subst hp
        rwa [hfor, if_neg (Ne.symm (hne rfl))] at ha
      · exact ha
    split at hs
    · rename_i hnone
      cases hs
      refine ⟨hi.running, hi.valid, ?_⟩
      intro pid' h' c' hc'
      refine hrest pid' h' c' hc' ?_
      intro hp hh
      subst hp
      change s.objs pid' h' = some c' at hc'
      rw [hh, hnone] at hc'
      cases hc'
    · rename_i c hc
      have ha := hi.applies pid op.handle c hc
      rw [hfor, if_pos rfl, Applies] at ha
      split at hs
      · rename_i hfail
        rw [hfail] at ha; cases ha
      · rename_i r hr
        rw [hr] at ha
        cases hs
        refine ⟨hi.running, ?_, ?_⟩
        · intro pid' h' c' hc'
          change ((s.setOps pid ops).setObj pid op.handle (some r.1)).objs pid' h' = some c' at hc'
          rw [setObj_objs] at hc'
          split at hc'
          · cases hc'
            exact ConfigOperation.valid_execute (hi.valid pid op.handle c hc) hr
          · exact hi.valid pid' h' c' hc'
        · intro pid' h' c' hc'
          change ((s.setOps pid ops).setObj pid op.handle (some r.1)).objs pid' h' = some c' at hc'
          change Applies c' ((s.setOps pid ops).opsFor pid' h') = true
          rw [setObj_objs] at hc'
          split at hc'
          · rename_i heq
            cases hc'
            rw [heq.1, heq.2, setOps_opsFor, if_pos rfl]
            exact ha
          · rename_i hne
            exact hrest pid' h' c' hc' fun hp hh => hne ⟨hp, hh⟩

theorem inv_post (hi : s.Inv) {op : ConfigOperation}
    (hok : (s.objs op.pid op.handle).all fun c =>
      Applies c (s.opsFor op.pid op.handle ++ [op])) :
    (s.setOps op.pid (s.ops op.pid ++ [op])).Inv := by
  refine ⟨hi.running, hi.valid, ?_⟩
  intro pid' h' c' hc'
  rw [setOps_opsFor]
  split
  · rename_i hp
    subst hp
    rw [List.filter_append]
    by_cases hh : op.handle = h'
    · subst hh
      change s.objs op.pid op.handle = some c' at hc'
      rw [hc'] at hok
      simpa [opsFor] using hok
    · simpa [hh, opsFor] using hi.applies op.pid h' c' hc'
  · exact hi.applies pid' h' c' hc'

theorem inv_step {act : ConfigAct} (hi : s.Inv) (hs : step s act = some s') (hok : Fits s act) :
    s'.Inv := by
  cases act with
  | connect pid b => cases hs; exact ⟨hi.running, hi.valid, hi.applies⟩
  | create pid h device level dynamicLevel maxLevel =>
    simp only [step, hi.running, Bool.false_eq_true, if_false] at hs
    split at hs
    · cases hs
    · cases hs
      refine hi.setObj _ fun c₁ hc₁ => ?_
      cases hc₁
      exact ⟨XQueueConfig.valid_new .., hok⟩
  | destroy pid h =>
    simp only [step, hi.running, Bool.false_eq_true, if_false] at hs
    split at hs
    · cases hs
    · cases hs
      exact hi.setObj _ nofun
  | ready pid h readyTime | idle pid h =>
    simp only [step] at hs
    split at hs
    · cases hs
    · cases hs; exact ⟨hi.running, hi.valid, hi.applies⟩
  | setLaunchConfig pid h threshold batchSize =>
    simp only [step, hi.running, Bool.false_eq_true, if_false] at hs
    split at hs
    · cases hs; exact hi
    · rename_i c hc
      simp only [Fits, fits, hc, Option.all_some] at hok
      split at hs
      · rename_i hfail
        rw [hfail] at hok; cases hok
      · rename_i r hr
        rw [hr] at hok
        cases hs
        refine hi.setObj _ fun c₁ hc₁ => ?_
        cases hc₁
        exact ⟨(hi.valid pid h c hc).setLaunchConfig hr, hok⟩
  | execute pid =>
    simp only [step, hi.running, Bool.false_eq_true, if_false] at hs
    exact inv_execute hi hs
  | update now =>
    simp only [step] at hs
    split at hs
    · cases hs
    · obtain ⟨status, -, rfl⟩ := Option.map_eq_some_iff.1 hs
      exact ⟨hi.running, hi.valid, hi.applies⟩
  | post handle level threshold batchSize =>
    simp only [step] at hs
    split at hs
    · cases hs; exact hi
    · rename_i op hop
      simp only [Fits, fits, hop, Option.all_some, Bool.or_eq_true, Bool.not_eq_true'] at hok
      split at hs
      · rename_i hchan
        cases hs
        exact inv_post hi (hok.resolve_left (by rw [hchan]; nofun))
      · cases hs; exact hi

theorem inv_reachable (hr : (lts.restrict Fits).Reachable s) : s.Inv := by
  refine LTS.reachable_induction (I := Inv) ?_ ?_ hr
  · intro s hs
    subst hs
    exact ⟨fun _ => rfl, nofun, nofun⟩
  · intro s act s' _ hi hs; exact inv_step hi hs.1 hs.2

/-! ## The step that leads to the abort -/

/-- Operations that do not go together with the configuration abort the client
when it executes them. -/
theorem abort_run {c : XQueueConfig} {ops : List ConfigOperation} (hops : s.ops pid = ops)
    (hrun : s.aborted pid = false) (hc : s.objs pid h = some c)
    (hfail : Applies c (s.opsFor pid h) = false) :
    ∃ n s', lts.Run s (List.replicate n (.execute pid)) s' ∧ s'.aborted pid = true := by
  induction ops generalizing s c with
  | nil =>
    rw [opsFor, hops] at hfail
    cases hfail
  | cons op ops ih =>
    have hstep : step s (.execute pid) = s.execute pid := by
      simp only [step, hrun, Bool.false_eq_true, if_false]
    have hmore : ∀ s₁, s.execute pid = some s₁ →
        (∃ n s', lts.Run s₁ (List.replicate n (.execute pid)) s' ∧ s'.aborted pid = true) →
        ∃ n s', lts.Run s (List.replicate n (.execute pid)) s' ∧ s'.aborted pid = true := by
      intro s₁ hs₁ ⟨n, s', hr, ha⟩
      exact ⟨n + 1, s', .cons (hstep.trans hs₁) hr, ha⟩
    have hfor : s.opsFor pid h = if op.handle = h then op :: ops.filter (·.handle = h)
        else ops.filter (·.handle = h) := by
      simp only [opsFor, hops, List.filter_cons, decide_eq_true_eq]
    have hleft : (s.setOps pid ops).opsFor pid h = ops.filter (·.handle = h) := by
      rw [setOps_opsFor, if_pos rfl]
    cases ho : s.objs pid op.handle with
    | none =>
      have hne : op.handle ≠ h := by
        intro hh
        rw [hh, hc] at ho; cases ho
      rw [hfor, if_neg hne, ← hleft] at hfail
      refine hmore (s.setOps pid ops) ?_ ?_
      · simp only [execute, hops, ho]
      · exact ih (s := s.setOps pid ops) (by simp [setOps]) hrun hc hfail
    | some c₀ =>
      cases hex : op.executeConfigOperation c₀ with
      | none =>
        refine hmore (s.abort pid) ?_ ⟨0, s.abort pid, .nil _, ?_⟩
        · simp only [execute, hops, ho, hex]
        · simp [abort]
      | some r =>
        refine hmore (((s.setOps pid ops).setObj pid op.handle (some r.1)).send r.2) ?_ ?_
        · simp only [execute, hops, ho, hex]
        · have hops' : (((s.setOps pid ops).setObj pid op.handle (some r.1)).send r.2).ops pid =
              ops := by simp [setOps, setObj, send]
          by_cases hh : op.handle = h
          · subst hh
            rw [hc] at ho
            cases ho
            rw [hfor, if_pos rfl, Applies, hex] at hfail
            refine ih hops' hrun ?_ (by rw [← hleft] at hfail; exact hfail)
            change ((s.setOps pid ops).setObj pid op.handle (some r.1)).objs pid op.handle = _
            rw [setObj_objs, if_pos ⟨rfl, rfl⟩]
          · rw [hfor, if_neg hh, ← hleft] at hfail
            refine ih hops' hrun ?_ hfail
            change ((s.setOps pid ops).setObj pid op.handle (some r.1)).objs pid h = _
            rw [setObj_objs, if_neg fun he => hh he.2.symm]
            exact hc

/-- The client whose operations the step has to fit. -/
theorem abort_of_not_fits {act : ConfigAct} (hi : s.Inv) (hs : step s act = some s')
    (hbad : ¬ Fits s act) :
    ∃ pid n s'', lts.Run s' (List.replicate n (.execute pid)) s'' ∧ s''.aborted pid = true := by
  cases act with
  | connect | destroy | ready | idle | execute | update => exact absurd rfl hbad
  | create pid h device level dynamicLevel maxLevel =>
    simp only [step, hi.running, Bool.false_eq_true, if_false] at hs
    split at hs
    · cases hs
    · cases hs
      have hfail : Applies (.new device level dynamicLevel maxLevel) (s.opsFor pid h) = false := by
        simpa [Fits, fits] using hbad
      refine ⟨pid, abort_run (h := h) rfl (hi.running pid) ?_ hfail⟩
      change (s.setObj pid h _).objs pid h = _
      rw [setObj_objs, if_pos ⟨rfl, rfl⟩]
  | setLaunchConfig pid h threshold batchSize =>
    simp only [step, hi.running, Bool.false_eq_true, if_false] at hs
    split at hs
    · rename_i hnone
      simp only [Fits, fits, hnone, Option.all_none, not_true_eq_false] at hbad
    · rename_i c hc
      simp only [Fits, fits, hc, Option.all_some] at hbad
      split at hs
      · cases hs
        exact ⟨pid, 0, s.abort pid, .nil _, by simp [abort]⟩
      · rename_i r hr
        cases hs
        simp only [hr, Option.any_some, Bool.not_eq_true] at hbad
        refine ⟨pid, abort_run (h := h) rfl (hi.running pid) ?_ hbad⟩
        change (s.setObj pid h _).objs pid h = _
        rw [setObj_objs, if_pos ⟨rfl, rfl⟩]
  | post handle level threshold batchSize =>
    simp only [step] at hs
    split at hs
    · rename_i hnone
      simp only [Fits, fits, hnone, Option.all_none, not_true_eq_false] at hbad
    · rename_i op hop
      simp only [Fits, fits, hop, Option.all_some, Bool.or_eq_true, not_or, Bool.not_eq_true,
        Bool.not_eq_false'] at hbad
      obtain ⟨hchan, hall⟩ := hbad
      rw [if_pos hchan] at hs
      cases hs
      cases hc : s.objs op.pid op.handle with
      | none => rw [hc] at hall; cases hall
      | some c =>
        rw [hc, Option.all_some] at hall
        refine ⟨op.pid, abort_run (h := op.handle) (c := c) rfl (hi.running op.pid) hc ?_⟩
        rw [setOps_opsFor, if_pos rfl, List.filter_append]
        simpa [opsFor] using hall

end

/-- **Accepted configurations are safe** while every request, call and new
XQueue goes together with the operations under way; a step against the condition
leaves operations that abort the client. -/
theorem config_safe (s : ConfigSystem) :
    ((lts.restrict Fits).Reachable s → s.Safe) ∧
    ∀ act s', (lts.restrict Fits).Reachable s → lts.step s act s' → ¬ Fits s act →
      ∃ pid n s'', lts.Run s' (List.replicate n (.execute pid)) s'' ∧ s''.aborted pid = true := by
  constructor
  · intro hr pid
    have hi := inv_reachable hr
    exact ⟨hi.running pid, fun h c hc => hi.valid pid h c hc⟩
  · intro act s' hr hs hbad
    exact abort_of_not_fits (inv_reachable hr) hs hbad

/-- An XQueue of process 1, known to the server with threshold 16 and batch size 8. -/
def knownTrace : List ConfigAct :=
  [.connect 1 true, .create 1 10 1 1 false 1, .update 5]

/-- The second request is made when the first has come back to the status. -/
theorem requests_in_turn : ∃ s : ConfigSystem, s.Safe ∧
    (s.objs 1 10).map (fun c => (c.threshold, c.batchSize)) = some (20, 18) := by
  have htrace : ((LTS.exec (LTS.guarded Fits step) init
      (knownTrace ++ [.post 10 none (some 20) none, .execute 1, .update 6,
        .post 10 none none (some 18), .execute 1])).map fun s =>
        (s.objs 1 10).map fun c => (c.threshold, c.batchSize)) = some (some (20, 18)) := by decide
  obtain ⟨s, hs, he⟩ := Option.map_eq_some_iff.1 htrace
  exact ⟨s, (config_safe s).1 (LTS.reachable_restrict_of_exec rfl hs), he⟩

/-- **Counterexample**: both requests are accepted, and the client aborts at the
second. -/
theorem accepted_requests_abort : ¬ ∀ s, lts.Reachable s → s.Safe := by
  intro h
  have htrace : ((LTS.exec step init
      (knownTrace ++ [.post 10 none (some 10) none, .post 10 none none (some 12), .execute 1,
        .execute 1])).map fun s => s.aborted 1) = some true := by decide
  obtain ⟨s, hs, he⟩ := Option.map_eq_some_iff.1 htrace
  rw [(h s (LTS.reachable_of_exec rfl hs) 1).1] at he
  cases he

end ConfigSystem
end Xsched.Sched
