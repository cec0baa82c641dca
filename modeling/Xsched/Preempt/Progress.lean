import Xsched.Preempt.WaitAll

/-!
# The worker gets there

While the queue is not paused and nothing is dropped, every step of the
worker brings a HwCommand in the pipeline closer to the hardware: `mu` counts
17 for each XCommand ahead of it, plus the phase of the worker with the
XCommand in its hand. A wait whose pause count is out of date costs one more
round; after `LaunchHwCommand` waited for the deactivatable commands it can
still wait for an empty slot, never the other way round (`Tail`'s bound).

So after more than `mu` steps of the worker, in any interleaving with the
other threads, the command is launched, or completed by the drop test
(`progress`).
-/
namespace Xsched.Preempt

/-- The worker's distance from completing or launching what it holds; `cnt`
is the current pause count. -/
def WorkerPc.phase (cnt : Nat) : WorkerPc → Nat
  | .dequeue => 16
  | .dequeueWait => 15
  | .got _ => 14
  | .locking _ => 13
  | .launchWait _ => 1
  | .syncWait _ r => 4 * r.rank + 5
  | .syncing call ph r =>
    4 * r.rank + (if call.pauseCnt = cnt then 0 else 4) +
      match ph with
      | .unlocked => 4
      | .called => 3
      | .returned => 2
  | .completing _ => 1
  | .exited => 0

/-- `n` XCommands are ahead of `c` in the pipeline, none of which ends the
worker. -/
def Ahead (s : State) (c : HwCommand) (n : Nat) : Prop :=
  ∃ l₁ l₂, s.pipeline = l₁ ++ .hardware c :: l₂ ∧ l₁.length = n ∧ ∀ x ∈ l₁, x.isDestroy = false

def mu (s : State) (n : Nat) : Nat := 17 * n + s.pc.phase s.pauseCount

/-- Nobody pauses and nothing is dropped. -/
def Calm (_ : State) (act : Act) : Prop := act ≠ .pause ∧ act.drops = false

def Act.isWorker : Act → Bool
  | .worker _ => true
  | _ => false

variable {s s' : State} {c : HwCommand} {n : Nat}

/-- The worker holds no command that ends it. -/
theorem Ahead.hand (h : Ahead s c n) {x : XCommand} (hpc : s.pc.cmd = some x) :
    x.isDestroy = false := by
  obtain ⟨l₁, l₂, hp, -, hd⟩ := h
  rw [pipeline_of_cmd hpc] at hp
  cases l₁ with
  | nil =>
    obtain ⟨hx, -⟩ := List.cons_eq_cons.1 hp
    rw [hx]; rfl
  | cons y l =>
    obtain ⟨hx, -⟩ := List.cons_eq_cons.1 hp
    rw [hx]; exact hd y List.mem_cons_self

/-- Where `c` is after a step that drops nothing: as far back as before, one
place ahead, or out of the pipeline. -/
inductive Moved (s s' : State) (c : HwCommand) (n : Nat) : Prop
  | stay (h : Ahead s' c n) (hlen : s.pipeline.length ≤ s'.pipeline.length)
  | ahead (m : Nat) (hn : n = m + 1) (h : Ahead s' c m)
  | launched (h : c ∈ s'.launched) (hd : s.dropIdx < c.idx)
  | dropped (h : s'.cmdState (.hardware c) = .completed) (hd : c.idx ≤ s.dropIdx)

/-- The front of the pipeline leaves it, and it was not `c`. -/
theorem moved_pop {x : XCommand} (h : Ahead s c n) (hp : s.pipeline = x :: s'.pipeline)
    (hx : x ≠ .hardware c) : Moved s s' c n := by
  obtain ⟨l₁, l₂, hs, hlen, hd⟩ := h
  rw [hs] at hp
  cases l₁ with
  | nil => exact absurd (List.cons_eq_cons.1 hp).1.symm hx
  | cons y l =>
    obtain ⟨-, hrest⟩ := List.cons_eq_cons.1 hp
    refine .ahead l.length hlen.symm ⟨l, l₂, hrest.symm, rfl, fun z hz => hd z ?_⟩
    exact List.mem_cons_of_mem _ hz

theorem moved_of_pipe {act : Act} (h : Ahead s c n) (ht : PipeStep s s' act)
    (hnd : act.drops = false) : Moved s s' c n := by
  cases ht with
  | stay _ hp hl hid hla he =>
    obtain ⟨l₁, l₂, hs, hlen, hd⟩ := h
    exact .stay ⟨l₁, l₂, by rw [hp, hs], hlen, hd⟩ (by rw [hp])
  | push _ x hx hp hl hid hla he hst hb hds =>
    obtain ⟨l₁, l₂, hs, hlen, hd⟩ := h
    exact .stay ⟨l₁, l₂ ++ [x], by rw [hp, hs]; simp, hlen, hd⟩ (by rw [hp]; simp)
  | finish _ x hx hpc hp hl hid hla he =>
    exact moved_pop h hp (by rintro rfl; cases hx)
  | launch _ e hp hl hid hd hla he =>
    by_cases hec : e = c
    · subst hec
      exact .launched (by rw [hla]; simp) hd
    · exact moved_pop h hp fun hx => hec (XCommand.hardware.inj hx)
  | drop _ e hp hl hid hd hla he hst =>
    by_cases hec : e = c
    · subst hec; exact .dropped hst hd
    · exact moved_pop h hp fun hx => hec (XCommand.hardware.inj hx)
  | dropAll => cases hnd

/-! ## One step -/

/-- What the rest of a locked region leaves of the phase, when the worker is
running: the command in hand left the pipeline, or the phase is smaller. -/
theorem tail_phase {k : Nat} {x : XCommand} (hpc : s.pc.cmd = some x) (ht : Tail k x s s')
    (hs : s.state = .running) (ha : s'.aborted = false)
    (hk : 1 < s.pc.phase s.pauseCount ∨ x.hw?.isSome)
    (hle : ∀ r : SyncRet, r.rank < k → 4 * r.rank + 4 < s.pc.phase s.pauseCount) :
    s'.pauseCount = s.pauseCount ∧
      (s'.pipeline.length < s.pipeline.length ∨
        s'.pc.phase s.pauseCount < s.pc.phase s.pauseCount) := by
  have hpop : s.cmds.length < s.pipeline.length := by
    rw [pipeline_of_cmd hpc]; exact Nat.lt_succ_self _
  cases ht with
  | launchWait c a hxc hp => rw [hs] at hp; cases hp
  | syncWait t r a hxr hr hn hp hc => rw [hs] at hp; cases hp
  | syncCall t r a hxr hr hn hp hc hcl =>
    have h := hle r hn
    refine ⟨rfl, .inr ?_⟩
    show 4 * r.rank + (if s.pauseCount = s.pauseCount then 0 else 4) + 4 < _
    rw [if_pos rfl]; exact h
  | abort => simp [xassert] at ha
  | finish a st hxn hst hq hp =>
    refine ⟨rfl, .inr ?_⟩
    rcases hk with hk | hk
    · exact hk
    · rw [hxn] at hk; cases hk
  | drop e a hxe hd => exact ⟨rfl, .inl hpop⟩
  | launch e a f l last hxe hd hp he hl => exact ⟨rfl, .inl hpop⟩

/-- Every step of a running worker lowers the phase or takes something out of
the pipeline. -/
theorem worker_phase (hs : s.state = .running) (ht : WorkerStep s s') (ha : s'.aborted = false) :
    s'.pauseCount = s.pauseCount ∧
      (s'.pipeline.length < s.pipeline.length ∨
        s'.pc.phase s.pauseCount < s.pc.phase s.pauseCount) := by
  have hpop {x : XCommand} (hpc : s.pc.cmd = some x) : s.cmds.length < s.pipeline.length := by
    rw [pipeline_of_cmd hpc]; exact Nat.lt_succ_self _
  cases ht with
  | dequeued x rest hpc hc =>
    refine ⟨rfl, .inr ?_⟩
    rcases hpc with hpc | hpc <;> rw [hpc] <;> simp only [WorkerPc.phase] <;> omega
  | idle hpc hc hl hr => exact ⟨rfl, .inr (by rw [hpc]; exact Nat.lt_succ_self 15)⟩
  | stillIdle hpc hc hl hr => exact ⟨rfl, .inr (by rw [hpc]; exact Nat.lt_succ_self 15)⟩
  | generated x hpc hc hl hx hb =>
    refine ⟨rfl, .inr ?_⟩
    rw [hpc]
    show 14 < 16
    omega
  | gotHardware e hpc => exact ⟨rfl, .inr (by rw [hpc]; exact Nat.lt_succ_self 13)⟩
  | gotOther x hpc hx => exact ⟨rfl, .inr (by rw [hpc]; exact Nat.lt_succ_self 13)⟩
  | noSync i hpc hl => exact ⟨rfl, .inl (hpop (x := .batchSynchronize i) (by rw [hpc]; rfl))⟩
  | region x s' hpc hcnt ht =>
    refine tail_phase (WorkerPc.locks_cmd hpc) ht hs ha ?_ ?_
    · cases hp : s.pc with
      | launchWait e =>
        rw [hp] at hpc; cases hpc
        exact .inr rfl
      | locking y => exact .inl (by simp [WorkerPc.phase])
      | syncWait t r => exact .inl (by simp only [WorkerPc.phase]; omega)
      | syncing call ph r =>
        left
        cases ph <;> simp only [WorkerPc.phase] <;> omega
      | _ => rw [hp] at hpc; cases hpc
    · intro r hr
      cases hp : s.pc with
      | locking y =>
        rw [hp] at hr
        simp only [WorkerPc.waits] at hr
        simp only [WorkerPc.phase]; omega
      | launchWait e =>
        rw [hp] at hr
        simp only [WorkerPc.waits] at hr; omega
      | syncWait t r' =>
        rw [hp] at hr
        simp only [WorkerPc.waits] at hr
        simp only [WorkerPc.phase]; omega
      | syncing call ph r' =>
        rw [hp] at hr hpc
        cases ph with
        | returned =>
          -- an unchanged pause count would not come here
          have hstale : call.pauseCnt ≠ s.pauseCount := fun he => hcnt ⟨call, r', hp, he⟩
          simp only [WorkerPc.waits] at hr
          simp only [WorkerPc.phase, if_neg hstale]; omega
        | _ => cases hpc
      | _ => rw [hp] at hpc; cases hpc
  | calling call r hpc =>
    refine ⟨rfl, .inr ?_⟩
    rw [hpc]; simp only [WorkerPc.phase]; omega
  | returning call r hpc =>
    refine ⟨rfl, .inr ?_⟩
    rw [hpc]; simp only [WorkerPc.phase]; omega
  | synced call r s' hpc hcnt ht =>
    have hph : (syncFinish call.target s).pc.phase (syncFinish call.target s).pauseCount =
        4 * r.rank + 2 := by
      rw [syncFinish_pc, syncFinish_pauseCount, hpc]
      simp [WorkerPc.phase, hcnt]
    have hold : s.pc.phase s.pauseCount = 4 * r.rank + 2 := by
      rw [hpc]; simp [WorkerPc.phase, hcnt]
    have hpipe : (syncFinish call.target s).pipeline = s.pipeline := by
      obtain ⟨f, log, sync, he⟩ := syncFinish_frame call.target s
      rw [he]; rfl
    have htail := tail_phase (by rw [syncFinish_pc, hpc]; rfl) ht
      (by rw [syncFinish_state]; exact hs) ha (.inl (by rw [hph]; omega)) (by rw [hph]; omega)
    rw [hph, hpipe, syncFinish_pauseCount] at htail
    rw [hold]; exact htail
  | complete x hpc hx =>
    have hlt := hpop (x := x) (by rw [hpc]; rfl)
    refine ⟨rfl, .inl ?_⟩
    show ((WorkerPc.after x).cmd.toList ++ s.cmds).length < _
    cases x <;> exact hlt

/-- A step of the worker leaves `state_` alone, except at the end of an
XQueueDestroyCommand, with nothing in flight. -/
theorem worker_state_eq (hs : s.state = .running) (ht : WorkerStep s s') :
    s'.state = .running ∨ (∃ x, s.pc.cmd = some x ∧ x.isDestroy) ∧ s'.cmdLog = [] := by
  have htail {k : Nat} {x : XCommand} {s₀ : State} (hpc : s₀.pc.cmd = some x) (ht : Tail k x s₀ s')
      (hs : s₀.state = .running) : s'.state = .running ∨
        (∃ x, s₀.pc.cmd = some x ∧ x.isDestroy) ∧ s'.cmdLog = [] := by
    cases ht with
    | finish a st hx hst hq hp =>
      cases x with
      | xQueueDestroy i =>
        exact .inr ⟨⟨_, hpc, rfl⟩, (hq rfl).resolve_right (by rw [hs]; nofun)⟩
      | _ => exact .inl (hst.trans hs)
    | _ => exact .inl hs
  cases ht with
  | region x s' hpc hne ht => exact htail (WorkerPc.locks_cmd hpc) ht hs
  | synced call r s' hpc hcnt ht =>
    have h := htail (by rw [syncFinish_pc, hpc]; rfl) ht (by rw [syncFinish_state]; exact hs)
    rw [syncFinish_pc] at h
    exact h
  | _ => exact .inl hs

theorem phase_le (cnt : Nat) (p : WorkerPc) : p.phase cnt ≤ 16 := by
  have hrank (r : SyncRet) : r.rank ≤ 1 := by cases r <;> simp [SyncRet.rank]
  cases p with
  | syncWait t r =>
    have h := hrank r
    simp only [WorkerPc.phase]; omega
  | syncing call ph r =>
    have h := hrank r
    simp only [WorkerPc.phase]
    split <;> cases ph <;> simp only <;> omega
  | _ => simp [WorkerPc.phase]

/-- After a step, `c` is out of the pipeline in one of the two ways, or still
in it at a distance below `k`. -/
inductive Closer (s s' : State) (c : HwCommand) (k : Nat) : Prop
  | launched (h : c ∈ s'.launched) (hd : s.dropIdx < c.idx)
  | dropped (h : s'.cmdState (.hardware c) = .completed) (hd : c.idx ≤ s.dropIdx)
  | closer (m : Nat) (h : Ahead s' c m) (hs : s'.state = .running) (hmu : mu s' m < k)

/-- A step of the worker brings `c` closer. -/
theorem worker_closer {b : Bool} (h : Ahead s c n) (hs : s.state = .running)
    (ht : WorkerStep s s') (ha : s'.aborted = false) : Closer s s' c (mu s n) := by
  obtain ⟨hcnt, hless⟩ := worker_phase hs ht ha
  have hs' : s'.state = .running := by
    rcases worker_state_eq hs ht with hs' | ⟨⟨x, hpc, hx⟩, -⟩
    · exact hs'
    · rw [h.hand hpc] at hx; cases hx
  have hle := phase_le s'.pauseCount s'.pc
  have hpipe : PipeStep s s' (.worker b) := worker_pipe ht
  cases moved_of_pipe h hpipe rfl with
  | launched hl hd => exact .launched hl hd
  | dropped hc hd => exact .dropped hc hd
  | ahead m hn hm =>
    refine .closer m hm hs' ?_
    unfold mu
    omega
  | stay hm hlen =>
    refine .closer n hm hs' ?_
    unfold mu
    rw [hcnt]
    omega

/-- A calm step of anybody else keeps the queue running and the worker where
it is. -/
theorem calm_frame {act : Act} (hs : s.state = .running) (ht : Step s act s') (hcalm : Calm s act)
    (hw : act.isWorker = false) :
    s'.state = .running ∧ s'.pauseCount = s.pauseCount ∧ s'.pc = s.pc := by
  cases ht with
  | worker b s' ht => cases hw
  | app t s' ht => cases ht <;> exact ⟨hs, rfl, rfl⟩
  | wait t d s' ht => cases ht <;> exact ⟨hs, rfl, rfl⟩
  | pause => exact absurd rfl hcalm.1
  | resume => exact ⟨rfl, rfl, rfl⟩
  | resumeAndDrop d => cases hcalm.2
  | _ => exact ⟨hs, rfl, rfl⟩

/-- A calm step of anybody else leaves `c` where it is. -/
theorem other_closer {act : Act} (h : Ahead s c n) (hs : s.state = .running) (ht : Step s act s')
    (hcalm : Calm s act) (hw : act.isWorker = false) : Closer s s' c (mu s n + 1) := by
  obtain ⟨hs', hcnt, hpc⟩ := calm_frame hs ht hcalm hw
  have hmu (m : Nat) : mu s' m = mu s m := by rw [mu, mu, hcnt, hpc]
  cases moved_of_pipe h (step_pipe ht) hcalm.2 with
  | launched hl hd => exact .launched hl hd
  | dropped hc hd => exact .dropped hc hd
  | ahead m hn hm =>
    refine .closer m hm hs' ?_
    rw [hmu, mu, mu]; omega
  | stay hm hlen => exact .closer n hm hs' (by rw [hmu]; exact Nat.lt_succ_self _)

/-! ## Where a HwCommand can come from -/

/-- A step moves HwCommands only forward: into the buffer by a Submit, from
there into the worker's hand, from there, if the drop test lets them pass, to
the hardware and into the log. -/
structure Flow (s s' : State) (act : Act) : Prop where
  cmds : ∀ c, .hardware c ∈ s'.cmds → .hardware c ∈ s.cmds ∨ c ∈ act.submitted
  hand : ∀ c ∈ s'.pc.hand, c ∈ s.pc.hand ∨ .hardware c ∈ s.cmds
  log : ∀ c ∈ s'.cmdLog, c ∈ s.cmdLog ∨ c ∈ s.pc.hand ∧ s.dropIdx < c.idx
  launched : ∀ c ∈ s'.launched, c ∈ s.launched ∨ c ∈ s.pc.hand ∧ s.dropIdx < c.idx

/-- Nothing moves, or out of a list only. -/
theorem flow_of_subset {act : Act} (hc : ∀ c, .hardware c ∈ s'.cmds → .hardware c ∈ s.cmds)
    (hh : s'.pc.hand ⊆ s.pc.hand) (hl : s'.cmdLog ⊆ s.cmdLog) (hla : s'.launched = s.launched) :
    Flow s s' act where
  cmds := fun c h => .inl (hc c h)
  hand := fun _ h => .inl (hh h)
  log := fun _ h => .inl (hl h)
  launched := fun c h => .inl (by rw [hla] at h; exact h)

theorem flow_tail {act : Act} {k : Nat} {x : XCommand} (hpc : s.pc.cmd = some x)
    (ht : Tail k x s s') : Flow s s' act := by
  have hh := WorkerPc.hand_eq hpc
  have hsame {p : WorkerPc} (hp : p.cmd = some x) : p.hand ⊆ s.pc.hand := by
    rw [hh, WorkerPc.hand_eq hp]; exact List.Subset.refl _
  cases ht with
  | launchWait e a hx hs =>
    exact flow_of_subset (fun _ h => h) (hsame (by rw [hx]; rfl)) (List.Subset.refl _) rfl
  | syncWait t r a hx hr hn hs hc =>
    exact flow_of_subset (fun _ h => h) (hsame (by rw [hx]; rfl)) (List.Subset.refl _) rfl
  | syncCall t r a hx hr hn hs hc hcl =>
    exact flow_of_subset (fun _ h => h) (hsame (by rw [hx]; rfl)) (List.Subset.refl _) rfl
  | abort => exact flow_of_subset (fun _ h => h) (List.Subset.refl _) (List.Subset.refl _) rfl
  | finish a st hx hst hq hp =>
    exact flow_of_subset (fun _ h => h) (hsame rfl) (List.Subset.refl _) rfl
  | drop e a hx hd =>
    exact flow_of_subset (fun _ h => h) (List.nil_subset _) (List.Subset.refl _) rfl
  | launch e a f l last hx hd hs he hl =>
    have hin : e ∈ s.pc.hand := by rw [hh, hx]; exact List.mem_cons_self
    have hlast {l : List HwCommand} {c : HwCommand} (h : c ∈ l ++ [e]) :
        c ∈ l ∨ c ∈ s.pc.hand ∧ s.dropIdx < c.idx := by
      rcases List.mem_append.1 h with h | h
      · exact .inl h
      · rw [List.mem_singleton.1 h]; exact .inr ⟨hin, hd⟩
    refine ⟨fun _ h => .inl h, fun c hc => ?_, fun _ h => hlast h, fun _ h => hlast h⟩
    cases hc

theorem flow_worker {b : Bool} (ht : WorkerStep s s') : Flow s s' (.worker b) := by
  have hrefl := List.Subset.refl s.cmdLog
  have hsame {p : WorkerPc} {x : XCommand} (hpc : s.pc.cmd = some x) (hp : p.cmd = some x) :
      p.hand ⊆ s.pc.hand := by
    rw [WorkerPc.hand_eq hpc, WorkerPc.hand_eq hp]; exact List.Subset.refl _
  cases ht with
  | dequeued x rest hpc hc =>
    refine ⟨fun c h => .inl ?_, fun c h => .inr ?_, fun _ h => .inl h, fun _ h => .inl h⟩
    · rw [hc]; exact List.mem_cons_of_mem _ h
    · have hx : c ∈ x.hw?.toList := h
      rw [hc]
      cases x with
      | hardware e => rw [List.mem_singleton.1 hx]; exact List.mem_cons_self
      | _ => cases hx
  | idle hpc hc hl hr => exact flow_of_subset (fun _ h => h) (List.nil_subset _) hrefl rfl
  | stillIdle hpc hc hl hr => exact flow_of_subset (fun _ h => h) (List.nil_subset _) hrefl rfl
  | generated x hpc hc hl hx hb =>
    refine flow_of_subset (fun _ h => h) ?_ hrefl rfl
    have hn : x.hw?.toList = [] := by rcases hx with rfl | rfl <;> rfl
    show x.hw?.toList ⊆ _
    rw [hn]; exact List.nil_subset _
  | gotHardware e hpc =>
    exact flow_of_subset (fun _ h => h) (hsame (x := .hardware e) (by rw [hpc]; rfl) rfl) hrefl rfl
  | gotOther x hpc hx =>
    exact flow_of_subset (fun _ h => h) (hsame (x := x) (by rw [hpc]; rfl) rfl) hrefl rfl
  | noSync i hpc hl => exact flow_of_subset (fun _ h => h) (List.nil_subset _) hrefl rfl
  | region x s' hpc hne ht => exact flow_tail (WorkerPc.locks_cmd hpc) ht
  | calling call r hpc =>
    exact flow_of_subset (fun _ h => h) (hsame (x := r.cmd) (by rw [hpc]; rfl) rfl) hrefl rfl
  | returning call r hpc =>
    exact flow_of_subset (fun _ h => h) (hsame (x := r.cmd) (by rw [hpc]; rfl) rfl) hrefl rfl
  | synced call r s' hpc hcnt ht =>
    have hlog : (syncFinish call.target s).cmdLog ⊆ s.cmdLog := by
      cases call.target
      · rw [syncFinish, clearLogs_eq]; exact List.nil_subset _
      · rw [syncFinish, popLogs_eq]; exact (List.dropWhile_suffix _).subset
    have hpc' : (syncFinish call.target s).pc = s.pc := syncFinish_pc _ _
    have hla := syncFinish_launched call.target s
    have hrest : (syncFinish call.target s).cmds = s.cmds ∧
        (syncFinish call.target s).dropIdx = s.dropIdx := by
      obtain ⟨f, log, sync, he⟩ := syncFinish_frame call.target s
      rw [he]; exact ⟨rfl, rfl⟩
    have hflow : Flow (syncFinish call.target s) s' (.worker b) :=
      flow_tail (by rw [hpc', hpc]; rfl) ht
    refine ⟨fun c h => ?_, fun c h => ?_, fun c h => ?_, fun c h => ?_⟩
    · rw [← hrest.1]; exact hflow.cmds c h
    · rw [← hpc', ← hrest.1]; exact hflow.hand c h
    · rw [← hpc', ← hrest.2]; exact (hflow.log c h).imp_left (hlog ·)
    · rw [← hpc', ← hrest.2, ← hla]; exact hflow.launched c h
  | complete x hpc hx =>
    refine flow_of_subset (fun _ h => h) ?_ hrefl rfl
    cases x <;> exact List.nil_subset _

theorem step_flow {act : Act} (ht : Step s act s') : Flow s s' act := by
  have hrefl := List.Subset.refl s.cmdLog
  have hpop (d : HwCommand) : s.cmdLog.dropWhile (fun e => decide (e.idx ≤ d.idx)) ⊆ s.cmdLog :=
    (List.dropWhile_suffix _).subset
  have hhand := List.Subset.refl s.pc.hand
  cases ht with
  | worker b s' ht => exact flow_worker ht
  | app t s' ht =>
    cases ht with
    | synced call d hpc hp => exact flow_of_subset (fun _ h => h) hhand (hpop d) rfl
    | _ => exact flow_of_subset (fun _ h => h) hhand hrefl rfl
  | wait t d s' ht =>
    cases ht with
    | synced call d hpc hp => exact flow_of_subset (fun _ h => h) hhand (hpop d) rfl
    | _ => exact flow_of_subset (fun _ h => h) hhand hrefl rfl
  | submit e hidx he =>
    refine ⟨fun c h => ?_, fun _ h => .inl h, fun _ h => .inl h, fun _ h => .inl h⟩
    rcases List.mem_append.1 h with h | h
    · exact .inl h
    · rw [XCommand.hardware.inj (List.mem_singleton.1 h)]
      exact .inr List.mem_cons_self
  | enqueueOther act x hx =>
    refine flow_of_subset (fun c h => ?_) hhand hrefl rfl
    rcases List.mem_append.1 h with h | h
    · exact h
    · rw [← List.mem_singleton.1 h] at hx
      rcases hx with ⟨-, hx⟩ | ⟨-, hx⟩ <;> cases hx
  | waitAllFresh hq hl =>
    refine flow_of_subset (fun c h => ?_) hhand hrefl rfl
    rcases List.mem_append.1 h with h | h
    · exact h
    · cases List.mem_singleton.1 h
  | dropAll => exact flow_of_subset (fun c h => by cases h) hhand hrefl rfl
  | resumeAndDrop d => exact flow_of_subset (fun _ h => h) hhand (List.nil_subset _) rfl
  | _ => exact flow_of_subset (fun _ h => h) hhand hrefl rfl

/-- No HwCommand gets lost: an enqueued one is launched, in the pipeline, or
Completed. -/
def Accounted (s : State) : Prop :=
  ∀ c ∈ s.enqueued,
    c ∈ s.launched ∨ .hardware c ∈ s.pipeline ∨ s.cmdState (.hardware c) = .completed

theorem accounted_step {act : Act} (hlog : LogInv s) (h : Accounted s) (ht : Step s act s') :
    Accounted s' := by
  intro c hc
  have hkeep : s.cmdState (.hardware c) = .completed → s'.cmdState (.hardware c) = .completed :=
    completed_stays hlog ht
  have hpopped {x : XCommand} (hp : s.pipeline = x :: s'.pipeline)
      (hm : .hardware c ∈ s.pipeline) : x = .hardware c ∨ .hardware c ∈ s'.pipeline := by
    rw [hp] at hm
    exact (List.mem_cons.1 hm).imp_left Eq.symm
  cases step_pipe ht with
  | stay _ hp hl hid hla he =>
    rw [he] at hc
    rw [hla, hp]
    exact (h c hc).imp_right (Or.imp_right hkeep)
  | push _ x hx hp hl hid hla he hst hb hds =>
    rw [he] at hc
    rw [hla, hp]
    rcases List.mem_append.1 hc with hc | hc
    · exact (h c hc).imp_right (Or.imp (List.mem_append_left _) hkeep)
    · cases x with
      | hardware e =>
        rw [List.mem_singleton.1 hc]
        exact .inr (.inl (List.mem_append_right _ List.mem_cons_self))
      | _ => cases hc
  | finish _ x hx hpc hp hl hid hla he =>
    rw [he] at hc
    rw [hla]
    rcases h c hc with hc | hc | hc
    · exact .inl hc
    · rcases hpopped hp hc with rfl | hm
      · cases hx
      · exact .inr (.inl hm)
    · exact .inr (.inr (hkeep hc))
  | launch _ e hp hl hid hd hla he =>
    rw [he] at hc
    rw [hla]
    rcases h c hc with hc | hc | hc
    · exact .inl (List.mem_append_left _ hc)
    · rcases hpopped hp hc with hec | hm
      · rw [XCommand.hardware.inj hec]
        exact .inl (List.mem_append_right _ List.mem_cons_self)
      · exact .inr (.inl hm)
    · exact .inr (.inr (hkeep hc))
  | drop _ e hp hl hid hd hla he hst =>
    rw [he] at hc
    rw [hla]
    rcases h c hc with hc | hc | hc
    · exact .inl hc
    · rcases hpopped hp hc with hec | hm
      · rw [XCommand.hardware.inj hec] at hst
        exact .inr (.inr hst)
      · exact .inr (.inl hm)
    · exact .inr (.inr (hkeep hc))
  | dropAll hp hl hid hla he hst =>
    rw [he] at hc
    rw [hla, hp]
    rcases h c hc with hc | hc | hc
    · exact .inl hc
    · rcases List.mem_append.1 hc with hc | hc
      · exact .inr (.inl hc)
      · exact .inr (.inr (hst _ hc))
    · exact .inr (.inr (hkeep hc))

/-! ## Runs -/

section
variable {cfg : Config} {ls : List Act}

theorem accounted_reachable (hr : (lts cfg).Reachable s) : Accounted s := by
  refine LTS.reachable_induction (I := Accounted) ?_ ?_ hr
  · rintro s rfl c hc; cases hc
  · exact fun s act s' hr h hs =>
      accounted_step (logInv_reachable hr) h (step_of_reachable hr hs)

/-- An aborted process makes no step. -/
theorem aborted_run (h : (lts cfg).Run s ls s') (ha : s.aborted = true) : s' = s := by
  cases h with
  | nil s => rfl
  | cons hs hrun =>
    have hs' : step cfg s _ = some _ := hs
    unfold step at hs'
    rw [if_pos ha] at hs'; cases hs'

theorem run_launched (h : (lts cfg).Run s ls s') (hr : (lts cfg).Reachable s) (hc : c ∈ s.launched) :
    c ∈ s'.launched := by
  refine h.preserve (I := fun s => c ∈ s.launched) (fun s act s' hr hc hs => ?_) hr hc
  exact (step_launched (step_of_reachable hr hs)).subset hc

theorem run_completed (h : (lts cfg).Run s ls s') (hr : (lts cfg).Reachable s)
    (hc : s.cmdState (.hardware c) = .completed) : s'.cmdState (.hardware c) = .completed := by
  refine h.preserve (I := fun s => s.cmdState (.hardware c) = .completed)
    (fun s act s' hr hc hs => ?_) hr hc
  exact completed_stays (logInv_reachable hr) (step_of_reachable hr hs) hc

/-- **Progress.** A command in the pipeline of a running queue is launched, or
completed by the drop test, in every calm run with more than `mu` steps of
the worker. -/
theorem progress (hrun : ((lts cfg).restrict Calm).Run s ls s') (hr : (lts cfg).Reachable s)
    (h : Ahead s c n) (hs : s.state = .running) (hcount : mu s n < ls.countP Act.isWorker)
    (ha : s'.aborted = false) :
    c ∈ s'.launched ∧ s.dropIdx < c.idx ∨
      s'.cmdState (.hardware c) = .completed ∧ c.idx ≤ s.dropIdx := by
  induction hrun generalizing n with
  | nil s => exact absurd hcount (Nat.not_lt_zero _)
  | @cons s act s₁ ls s₂ hstep hrest ih =>
    have ht := step_of_reachable hr hstep.1
    have hr₁ := hr.step hstep.1
    have ha₁ : s₁.aborted = false := by
      by_contra hab
      rw [aborted_run hrest.of_restrict (by simpa using hab)] at ha
      exact hab ha
    have hdrop : s₁.dropIdx = s.dropIdx := by
      refine step_dropIdx ht fun d hd => ?_
      have hcalm := hstep.2.2
      rw [hd] at hcalm; cases hcalm
    have hcloser : ∃ k, Closer s s₁ c k ∧ k ≤ ls.countP Act.isWorker := by
      rw [List.countP_cons] at hcount
      cases hw : act.isWorker with
      | false =>
        rw [hw] at hcount
        exact ⟨mu s n + 1, other_closer h hs ht hstep.2 hw, hcount⟩
      | true =>
        rw [hw] at hcount
        have hle : mu s n ≤ ls.countP Act.isWorker := Nat.lt_succ_iff.1 hcount
        cases ht with
        | worker b s₁ ht => exact ⟨mu s n, worker_closer (b := b) h hs ht ha₁, hle⟩
        | enqueueOther act x hx => rcases hx with ⟨rfl, -⟩ | ⟨rfl, -⟩ <;> cases hw
        | _ => cases hw
    obtain ⟨k, hk, hkls⟩ := hcloser
    cases hk with
    | launched hl hd => exact .inl ⟨run_launched hrest.of_restrict hr₁ hl, hd⟩
    | dropped hc hd => exact .inr ⟨run_completed hrest.of_restrict hr₁ hc, hd⟩
    | closer m hm hs₁ hmu =>
      rw [← hdrop]
      exact ih hr₁ hm hs₁ (by omega) ha

end

end Xsched.Preempt
