import Xsched.Preempt.Submit

/-!
# The Synchronize calls of a queue

Who is inside a `Synchronize` call, and what one step does to the calls
(`CallStep`): it makes a call, it returns from one, or it does neither, and
then no other thread's call is touched. Only these two kinds of steps talk to
the driver about finished work, so a model of the driver has to look at
nothing else.
-/
namespace Xsched.Preempt

/-- A thread that can call `Synchronize`. -/
inductive Caller where
  | worker
  | app (t : Nat)
  deriving DecidableEq, Repr

def Act.caller : Act → Option Caller
  | .worker _ => some .worker
  | .app t => some (.app t)
  | _ => none

def WorkerPc.call : WorkerPc → Option (SyncCall × SyncPhase)
  | .syncing call ph _ => some (call, ph)
  | _ => none

def AppPc.call : AppPc → Option (SyncCall × SyncPhase)
  | .syncing call ph _ => some (call, ph)
  | _ => none

/-- The call a thread is in. -/
def State.call (s : State) : Caller → Option (SyncCall × SyncPhase)
  | .worker => s.pc.call
  | .app t => (s.app t).call

/-- How many launches a call waits for. -/
def SyncCall.bound (call : SyncCall) : Nat :=
  match call.target with
  | .hwq => call.launchedBefore.length
  | .cmd d => call.launchedBefore.idxOf d + 1

variable {s s' : State}

theorem call_worker {call : SyncCall} {ph : SyncPhase} :
    s.call .worker = some (call, ph) ↔ ∃ r, s.pc = .syncing call ph r := by
  show s.pc.call = _ ↔ _
  cases s.pc <;> simp [WorkerPc.call]

theorem call_app {t : Nat} {call : SyncCall} {ph : SyncPhase} :
    s.call (.app t) = some (call, ph) ↔ ∃ c, s.app t = .syncing call ph c := by
  show (s.app t).call = _ ↔ _
  cases s.app t <;> simp [AppPc.call]

/-- What a step with caller `v` does to the calls. -/
inductive CallStep (s s' : State) (v : Option Caller) : Prop
  | call (w : Caller) (call : SyncCall) (hv : v = some w) (h : s.call w = some (call, .unlocked))
      (h' : s'.call w = some ({ call with launchedBefore := s.launched }, .called))
      (hne : ∀ u, u ≠ w → s'.call u = s.call u) (hr : s'.returned = s.returned)
  | ret (w : Caller) (call : SyncCall) (hv : v = some w) (h : s.call w = some (call, .called))
      (h' : s'.call w = some (call, .returned)) (hne : ∀ u, u ≠ w → s'.call u = s.call u)
      (hr : s'.returned = s.returned ++ [call])
  | other (h : ∀ u call, s'.call u = some (call, .called) →
        v ≠ some u ∧ s.call u = some (call, .called))
      (hr : s'.returned = s.returned)

theorem tail_not_called {n : Nat} {x : XCommand} (ht : Tail n x s s')
    (h : ∀ call r, s.pc ≠ .syncing call .called r) (call : SyncCall) (r : SyncRet) :
    s'.pc ≠ .syncing call .called r := by
  cases ht with
  | abort => exact h call r
  | _ => exact nofun

/-- A step of the worker that leaves it outside a call. -/
theorem callStep_worker (happ : s'.app = s.app) (hr : s'.returned = s.returned)
    (h : ∀ call r, s'.pc ≠ .syncing call .called r) : CallStep s s' (some .worker) := by
  refine .other (fun u call hu => ?_) hr
  cases u with
  | worker =>
    obtain ⟨r, hpc⟩ := call_worker.1 hu
    exact absurd hpc (h call r)
  | app t =>
    obtain ⟨c, hpc⟩ := call_app.1 hu
    exact ⟨nofun, call_app.2 ⟨c, by rw [← happ]; exact hpc⟩⟩

theorem worker_call (ht : WorkerStep s s') : CallStep s s' (some .worker) := by
  have happ := worker_app ht
  have hne (u : Caller) (hu : u ≠ .worker) : s'.call u = s.call u := by
    cases u with
    | worker => exact absurd rfl hu
    | app t => show (s'.app t).call = _; rw [happ]; rfl
  cases ht with
  | calling call r hpc =>
    exact .call .worker call rfl (call_worker.2 ⟨r, hpc⟩) (call_worker.2 ⟨r, rfl⟩) hne rfl
  | returning call r hpc =>
    exact .ret .worker call rfl (call_worker.2 ⟨r, hpc⟩) (call_worker.2 ⟨r, rfl⟩) hne rfl
  | region x s' hpc hn ht =>
    refine callStep_worker happ (tail_returned ht) (tail_not_called ht fun call r he => ?_)
    rw [he] at hpc; cases hpc
  | synced call r s' hpc hp ht =>
    refine callStep_worker happ ?_ (tail_not_called ht fun call' r' he => ?_)
    · rw [tail_returned ht, syncFinish_returned]
    · rw [syncFinish_pc, hpc] at he; cases he
  | complete x hpc hx => exact callStep_worker happ rfl fun call r => by cases x <;> exact nofun
  | _ => exact callStep_worker happ rfl nofun

theorem setApp_call (t : Nat) (p : AppPc) (s₁ : State) (hpc : s₁.pc = s.pc) (happ : s₁.app = s.app)
    (u : Caller) (hu : u ≠ .app t) : (setApp t p s₁).call u = s.call u := by
  cases u with
  | worker =>
    show s₁.pc.call = _
    rw [hpc]; rfl
  | app t' =>
    have ht : t' ≠ t := fun he => hu (by rw [he])
    show (Function.update s₁.app t p t').call = _
    rw [Function.update_of_ne ht, happ]; rfl

theorem setApp_self (t : Nat) (p : AppPc) (s : State) : (setApp t p s).app t = p :=
  Function.update_self _ _ _

/-- A step of thread `t` that leaves it outside a call. -/
theorem callStep_app {t : Nat} {p : AppPc} {s₁ : State} {v : Option Caller}
    (hv : ∀ u, v = some u → u = .app t) (hpc : s₁.pc = s.pc) (happ : s₁.app = s.app)
    (hr : s₁.returned = s.returned) (h : ∀ call c, p ≠ .syncing call .called c) :
    CallStep s (setApp t p s₁) v := by
  refine .other (fun u call hu => ?_) hr
  by_cases he : u = .app t
  · rw [he] at hu
    obtain ⟨c, hp⟩ := call_app.1 hu
    rw [setApp_self] at hp
    exact absurd hp (h call c)
  · rw [setApp_call t p s₁ hpc happ u he] at hu
    exact ⟨fun hvu => he (hv u hvu), hu⟩

theorem app_call {t : Nat} (ht : AppStep s t s') : CallStep s s' (some (.app t)) := by
  have hv : ∀ u, some (Caller.app t) = some u → u = .app t := fun u h => (Option.some.inj h).symm
  cases ht with
  | calling call c hpc =>
    exact .call (.app t) call rfl (call_app.2 ⟨c, hpc⟩) (call_app.2 ⟨c, setApp_self _ _ _⟩)
      (setApp_call t _ s rfl rfl) rfl
  | returning call c hpc =>
    exact .ret (.app t) call rfl (call_app.2 ⟨c, hpc⟩) (call_app.2 ⟨c, setApp_self _ _ _⟩)
      (setApp_call t _ _ rfl rfl) rfl
  | start c hpc =>
    refine callStep_app hv rfl rfl rfl fun call c' => ?_
    split <;> exact nofun
  | _ => exact callStep_app hv rfl rfl rfl nofun

theorem step_call {cfg : Config} {act : Act} (hr : (lts cfg).Reachable s)
    (hs : (lts cfg).step s act s') : CallStep s s' act.caller := by
  have hother (hpc : s'.pc = s.pc) (happ : s'.app = s.app) (hret : s'.returned = s.returned)
      (hv : act.caller = none) : CallStep s s' act.caller := by
    refine .other (fun u call hu => ⟨by rw [hv]; exact nofun, ?_⟩) hret
    cases u with
    | worker =>
      obtain ⟨r, h⟩ := call_worker.1 hu
      exact call_worker.2 ⟨r, by rw [← hpc]; exact h⟩
    | app t =>
      obtain ⟨c, h⟩ := call_app.1 hu
      exact call_app.2 ⟨c, by rw [← happ]; exact h⟩
  cases step_of_reachable hr hs with
  | worker b s' ht => exact worker_call ht
  | app t s' ht => exact app_call ht
  | wait t c s' ht =>
    have h : step cfg s (.wait t c) = some s' := hs
    unfold step at h
    rw [if_neg (by rw [not_aborted hr hs]; exact nofun)] at h
    have h' : waitStart t c s = some s' := h
    unfold waitStart at h'
    split at h'
    · simp only [Option.some.injEq] at h'; subst h'
      refine callStep_app (fun u hu => nomatch hu) rfl rfl rfl fun call c' => ?_
      split <;> exact nofun
    · cases h'
  | enqueueOther act x hx => exact hother rfl rfl rfl (by rcases hx with ⟨rfl, -⟩ | ⟨rfl, -⟩ <;> rfl)
  | _ => exact hother rfl rfl rfl rfl

/-- What a call covers is among the launches it waits for. -/
theorem covers_bound {call : SyncCall} {c : HwCommand} (h : call.Covers c)
    (hnd : call.launchedBefore.Nodup) : c ∈ call.launchedBefore.take call.bound := by
  unfold SyncCall.Covers at h
  unfold SyncCall.bound
  cases htgt : call.target with
  | hwq =>
    rw [htgt] at h
    rw [List.take_length]; exact h
  | cmd d =>
    rw [htgt] at h
    obtain ⟨l₁, l₂, he, hc⟩ := h
    rw [he] at hnd ⊢
    have hd : d ∉ l₁ := fun hm => (List.nodup_append.1 hnd).2.2 d hm d List.mem_cons_self rfl
    show c ∈ (l₁ ++ d :: l₂).take ((l₁ ++ d :: l₂).idxOf d + 1)
    rw [List.idxOf_append_of_notMem hd, List.idxOf_cons_self, Nat.add_zero,
      List.take_append, List.take_of_length_le (by omega)]
    simpa using hc

theorem SyncInv.call_ok (h : SyncInv s) {w : Caller} {call : SyncCall} {ph : SyncPhase}
    (hc : s.call w = some (call, ph)) : CallOk s call ph := by
  cases w with
  | worker =>
    obtain ⟨r, hpc⟩ := call_worker.1 hc
    exact h.worker call ph r hpc
  | app t =>
    obtain ⟨c, hpc⟩ := call_app.1 hc
    exact (h.app t call ph c hpc).2

namespace AsyncXQueue

def XAct.caller : XAct → Option Caller
  | .machine a => a.caller
  | _ => none

variable {cfg : Config} {x x' : AsyncXQueue}

theorem Step.machine_caller {act : XAct} (h : Step cfg x act x') :
    x'.machine = x.machine ∧ act.caller = none ∨
      ∃ a, (Preempt.lts cfg).step x.machine a x'.machine ∧ a.caller = act.caller := by
  cases h with
  | machine a m hd hm => exact .inr ⟨a, hm, rfl⟩
  | enqueue t c m hpc hm => exact .inr ⟨_, hm, rfl⟩
  | pause t flags m hpc hm => exact .inr ⟨_, hm, rfl⟩
  | resume t call m hpc hm => exact .inr ⟨_, hm, rfl⟩
  | dropAll t call m hpc hm => exact .inr ⟨_, hm, rfl⟩
  | resumeAndDrop t call d m hpc hm => exact .inr ⟨_, hm, rfl⟩
  | skip act hact ha =>
    refine .inl ⟨rfl, ?_⟩
    cases act with
    | machine a => exact absurd rfl (ha a)
    | _ => rfl
  | _ => exact .inl ⟨rfl, rfl⟩

end AsyncXQueue
end Xsched.Preempt
