import Xsched.Preempt.Suspend

/-!
# Submission order

`Submit` takes its index and enqueues in two actions, so a thread can enqueue
index 2 before another enqueues index 1 (`submit_out_of_order`). A run in
which nobody enqueues while another thread holds a smaller index keeps the
buffer and both logs in increasing order; one enqueue that does not wait lets
the overtaken thread break the order (`submission_order`).
-/
namespace Xsched.Preempt.AsyncXQueue

variable {cfg : Config} {x x' : AsyncXQueue}

theorem setSubmit_submits (t t' : Nat) (p : SubmitPc) (x : AsyncXQueue) :
    (setSubmit t p x).submits t' = if t' = t then p else x.submits t' :=
  Function.update_apply _ _ _ _

theorem enqueued_eq {m : State} {a : Act} (hr : (lts cfg).Reachable x)
    (hm : (Preempt.lts cfg).step x.machine a m) : m.enqueued = x.machine.enqueued ++ a.submitted :=
  step_enqueued (step_of_reachable (machine_reachable hr) hm)

/-- Direct steps submit nothing. -/
theorem direct_submitted {a : Act} (hd : x.direct a) : a.submitted = [] := by
  cases a <;> first | rfl | cases hd

/-! ## The indices given out -/

/-- The indices of enqueued and pending commands were given out, each once. -/
structure SubmitInv (x : AsyncXQueue) : Prop where
  next : 0 < x.nextHwCmdIdx
  enqueued : ∀ c ∈ x.machine.enqueued, 0 < c.idx ∧ c.idx < x.nextHwCmdIdx
  pending : ∀ t c, (x.submits t).pending = some c → 0 < c.idx ∧ c.idx < x.nextHwCmdIdx
  distinct : ∀ t c, (x.submits t).pending = some c → ∀ d ∈ x.machine.enqueued, d.idx ≠ c.idx
  apart : ∀ t t' c d, t ≠ t' → (x.submits t).pending = some c → (x.submits t').pending = some d →
    c.idx ≠ d.idx

/-- A step that gives out no index and enqueues nothing, with pending commands
among the old ones. -/
theorem SubmitInv.congr (h : SubmitInv x) (hn : x'.nextHwCmdIdx = x.nextHwCmdIdx)
    (he : x'.machine.enqueued = x.machine.enqueued)
    (hp : ∀ t c, (x'.submits t).pending = some c → (x.submits t).pending = some c) :
    SubmitInv x' where
  next := by rw [hn]; exact h.next
  enqueued := by rw [hn, he]; exact h.enqueued
  pending := fun t c hc => by rw [hn]; exact h.pending t c (hp t c hc)
  distinct := fun t c hc => by rw [he]; exact h.distinct t c (hp t c hc)
  apart := fun t t' c d hne hc hd => h.apart t t' c d hne (hp t c hc) (hp t' d hd)

theorem submitInv_allocate (h : SubmitInv x) (t : Nat) (props : XCommandProperties)
    (kind : HwCommandKind) : SubmitInv (allocate t props kind x) := by
  have hpend : ∀ t' c, ((allocate t props kind x).submits t').pending = some c →
      c.idx = x.nextHwCmdIdx ∧ t' = t ∨ (x.submits t').pending = some c := by
    intro t' c hc
    rw [allocate, setSubmit_submits] at hc
    split at hc
    · rename_i ht
      exact .inl ⟨by rw [← Option.some.inj hc], ht⟩
    · exact .inr hc
  have hnext : (allocate t props kind x).nextHwCmdIdx = x.nextHwCmdIdx + 1 := rfl
  have hpos := h.next
  refine ⟨by rw [hnext]; omega, fun c hc => ?_, fun t' c hc => ?_, fun t' c hc d hd => ?_,
    fun t₁ t₂ c d hne hc hd => ?_⟩
  · obtain ⟨h₁, h₂⟩ := h.enqueued c hc
    rw [hnext]
    exact ⟨h₁, by omega⟩
  · rw [hnext]
    rcases hpend t' c hc with ⟨hidx, -⟩ | hold
    · exact ⟨by omega, by omega⟩
    · obtain ⟨h₁, h₂⟩ := h.pending t' c hold
      exact ⟨h₁, by omega⟩
  · have hlt := (h.enqueued d hd).2
    rcases hpend t' c hc with ⟨hidx, -⟩ | hold
    · omega
    · exact h.distinct t' c hold d hd
  · rcases hpend t₁ c hc with ⟨hc', ht₁⟩ | hc' <;> rcases hpend t₂ d hd with ⟨hd', ht₂⟩ | hd'
    · exact absurd (ht₁.trans ht₂.symm) hne
    · have hlt := (h.pending t₂ d hd').2
      omega
    · have hlt := (h.pending t₁ c hc').2
      omega
    · exact h.apart t₁ t₂ c d hne hc' hd'

theorem submitInv_enqueue {t : Nat} {c : HwCommand} {m : State} (hr : (lts cfg).Reachable x)
    (h : SubmitInv x) (hpc : x.submits t = .hooked c)
    (hm : (Preempt.lts cfg).step x.machine (.submit c) m) :
    SubmitInv (setSubmit t (.enqueued c) { x with machine := m }) := by
  have hpend : ∀ t' d, ((setSubmit t (.enqueued c) { x with machine := m }).submits t').pending =
      some d → t' ≠ t ∧ (x.submits t').pending = some d := by
    intro t' d hd
    rw [setSubmit_submits] at hd
    split at hd
    · cases hd
    · rename_i ht; exact ⟨ht, hd⟩
  have hc : (x.submits t).pending = some c := by rw [hpc]; rfl
  have henq : m.enqueued = x.machine.enqueued ++ [c] := enqueued_eq hr hm
  refine ⟨h.next, fun d hd => ?_, fun t' d hd => h.pending t' d (hpend t' d hd).2,
    fun t' d hd e he => ?_, fun t₁ t₂ d e hne hd he =>
      h.apart t₁ t₂ d e hne (hpend t₁ d hd).2 (hpend t₂ e he).2⟩
  · have hd' : d ∈ x.machine.enqueued ++ [c] := henq ▸ hd
    rcases List.mem_append.1 hd' with hd' | hd'
    · exact h.enqueued d hd'
    · rw [List.mem_singleton.1 hd']; exact h.pending t c hc
  · have he' : e ∈ x.machine.enqueued ++ [c] := henq ▸ he
    obtain ⟨ht, hd'⟩ := hpend t' d hd
    rcases List.mem_append.1 he' with he' | he'
    · exact h.distinct t' d hd' e he'
    · rw [List.mem_singleton.1 he']
      exact h.apart t t' c d (Ne.symm ht) hc hd'

theorem submitInv_step {act : XAct} (hr : (lts cfg).Reachable x) (h : SubmitInv x)
    (hs : Step cfg x act x') : SubmitInv x' := by
  have hframe {a : Act} {m : State} (hm : (Preempt.lts cfg).step x.machine a m)
      (ha : a.submitted = []) : m.enqueued = x.machine.enqueued := by
    rw [enqueued_eq hr hm, ha, List.append_nil]
  have hmove (t : Nat) (p : SubmitPc) (hp : ∀ c, p.pending = some c → (x.submits t).pending = some c)
      (y : AsyncXQueue) (hy : y.submits = x.submits) (t' : Nat) (c : HwCommand)
      (hc : ((setSubmit t p y).submits t').pending = some c) : (x.submits t').pending = some c := by
    rw [setSubmit_submits] at hc
    split at hc
    · rename_i ht; rw [ht]; exact hp c hc
    · rw [hy] at hc; exact hc
  cases hs with
  | machine a m hd hm =>
    exact h.congr rfl (hframe hm (direct_submitted hd)) fun _ _ hc => hc
  | allocate t props kind hpc => exact submitInv_allocate h t props kind
  | hook t c hpc =>
    refine h.congr rfl rfl (hmove t _ (fun d hd => ?_) x rfl)
    rw [hpc]; exact hd
  | enqueue t c m hpc hm => exact submitInv_enqueue hr h hpc hm
  | submitReturn t c hpc => exact h.congr rfl rfl (hmove t .idle (fun d hd => nomatch hd) _ rfl)
  | pause t flags m hpc hm => exact h.congr rfl (hframe hm rfl) fun _ _ hc => hc
  | resume t call m hpc hm => exact h.congr rfl (hframe hm rfl) fun _ _ hc => hc
  | dropAll t call m hpc hm => exact h.congr rfl (hframe hm rfl) fun _ _ hc => hc
  | resumeAndDrop t call d m hpc hm => exact h.congr rfl (hframe hm rfl) fun _ _ hc => hc
  | _ => exact h.congr rfl rfl fun _ _ hc => hc

theorem submitInv_reachable (hr : (lts cfg).Reachable x) : SubmitInv x := by
  refine LTS.reachable_induction (I := SubmitInv) ?_ ?_ hr
  · rintro x rfl
    exact ⟨by decide, nofun, fun _ _ => nofun, fun _ _ => nofun, fun _ _ _ _ _ => nofun⟩
  · exact fun x act x' hr h hs => submitInv_step hr h (step_of_lts hs)

/-- The command a thread is about to enqueue is new to the buffer: `Enqueue`
is never refused. -/
theorem enqueue_enabled {t : Nat} {c : HwCommand} (h : SubmitInv x) (hpc : x.submits t = .hooked c)
    (hab : x.machine.aborted = false) :
    (lts cfg).step x (.submitter t)
      (setSubmit t (.enqueued c) { x with machine := enqueue (.hardware c) x.machine }) := by
  have hc : (x.submits t).pending = some c := by rw [hpc]; rfl
  have hnew : 0 < c.idx ∧ c ∉ x.machine.enqueued :=
    ⟨(h.pending t c hc).1, fun hm => h.distinct t c hc c hm rfl⟩
  show step cfg x (.submitter t) = _
  simp [step, hab, stepSubmit, hpc, onMachine, Preempt.step, hnew]

/-! ## Order -/

/-- Nobody enqueues while another thread holds a smaller index that is not in
the buffer yet. -/
def NotOvertaking (x : AsyncXQueue) (act : XAct) : Prop :=
  ∀ t c, act = .submitter t → x.submits t = .hooked c →
    ∀ t' c', (x.submits t').pending = some c' → c.idx ≤ c'.idx

/-- The enqueued indices increase, and the pending ones are larger. -/
structure OrderInv (x : AsyncXQueue) : Prop where
  increasing : Increasing x.machine.enqueued
  above : ∀ t c, (x.submits t).pending = some c → ∀ d ∈ x.machine.enqueued, d.idx < c.idx

theorem OrderInv.congr (h : OrderInv x) (he : x'.machine.enqueued = x.machine.enqueued)
    (hp : ∀ t c, (x'.submits t).pending = some c → (x.submits t).pending = some c) :
    OrderInv x' :=
  ⟨by rw [he]; exact h.increasing, fun t c hc => by rw [he]; exact h.above t c (hp t c hc)⟩

theorem orderInv_step {act : XAct} (hr : (lts cfg).Reachable x) (h : OrderInv x)
    (hs : Step cfg x act x') (hok : NotOvertaking x act) : OrderInv x' := by
  have hsub := submitInv_reachable hr
  have hframe {a : Act} {m : State} (hm : (Preempt.lts cfg).step x.machine a m)
      (ha : a.submitted = []) : m.enqueued = x.machine.enqueued := by
    rw [enqueued_eq hr hm, ha, List.append_nil]
  cases hs with
  | machine a m hd hm => exact h.congr (hframe hm (direct_submitted hd)) fun _ _ hc => hc
  | allocate t props kind hpc =>
    refine ⟨h.increasing, fun t' c hc d hd => ?_⟩
    rw [allocate, setSubmit_submits] at hc
    split at hc
    · rw [← Option.some.inj hc]; exact (hsub.enqueued d hd).2
    · exact h.above t' c hc d hd
  | hook t c hpc =>
    refine h.congr rfl fun t' d hd => ?_
    rw [setSubmit_submits] at hd
    split at hd
    · rename_i ht; rw [ht, hpc]; exact hd
    · exact hd
  | enqueue t c m hpc hm =>
    have hc : (x.submits t).pending = some c := by rw [hpc]; rfl
    have henq : m.enqueued = x.machine.enqueued ++ [c] := enqueued_eq hr hm
    refine ⟨?_, fun t' d hd e he => ?_⟩
    · show Increasing m.enqueued
      rw [henq]
      refine List.pairwise_append.2 ⟨h.increasing, List.pairwise_singleton _ _, fun d hd e he => ?_⟩
      rw [List.mem_singleton.1 he]
      exact h.above t c hc d hd
    · rw [setSubmit_submits] at hd
      split at hd
      · cases hd
      · rename_i ht
        have he' : e ∈ x.machine.enqueued ++ [c] := henq ▸ he
        rcases List.mem_append.1 he' with he' | he'
        · exact h.above t' d hd e he'
        · rw [List.mem_singleton.1 he']
          have hle := hok t c rfl hpc t' d hd
          have hne := hsub.apart t t' c d (Ne.symm ht) hc hd
          omega
  | submitReturn t c hpc =>
    refine h.congr rfl fun t' d hd => ?_
    rw [setSubmit_submits] at hd
    split at hd
    · cases hd
    · exact hd
  | pause t flags m hpc hm => exact h.congr (hframe hm rfl) fun _ _ hc => hc
  | resume t call m hpc hm => exact h.congr (hframe hm rfl) fun _ _ hc => hc
  | dropAll t call m hpc hm => exact h.congr (hframe hm rfl) fun _ _ hc => hc
  | resumeAndDrop t call d m hpc hm => exact h.congr (hframe hm rfl) fun _ _ hc => hc
  | _ => exact h.congr rfl fun _ _ hc => hc

theorem orderInv_reachable (hr : ((lts cfg).restrict NotOvertaking).Reachable x) : OrderInv x := by
  refine LTS.reachable_induction (I := OrderInv) ?_ ?_ hr
  · rintro x rfl; exact ⟨List.Pairwise.nil, fun _ _ => nofun⟩
  · exact fun x act x' hr h hs => orderInv_step hr.of_restrict h (step_of_lts hs.1) hs.2

/-- Such a queue drives its launch machine with increasing indices, so
completion is sound on it. -/
theorem machine_inOrder (hr : ((lts cfg).restrict NotOvertaking).Reachable x) :
    ((Preempt.lts cfg).restrict InOrder).Reachable x.machine := by
  refine LTS.reachable_map machine ?_ ?_ hr
  · rintro x rfl; rfl
  · intro x act x' hr hs
    have hnil {a : Act} (ha : a.submitted = []) : InOrder x.machine a := by
      intro c hc
      rw [ha] at hc; cases hc
    cases step_of_lts hs.1 with
    | machine a m hd hm => exact .inr ⟨a, hm, hnil (direct_submitted hd)⟩
    | enqueue t c m hpc hm =>
      refine .inr ⟨.submit c, hm, fun d hd => ?_⟩
      rw [List.mem_singleton.1 hd]
      exact (orderInv_reachable hr).above t c (by rw [hpc]; rfl)
    | pause t flags m hpc hm => exact .inr ⟨_, hm, hnil rfl⟩
    | resume t call m hpc hm => exact .inr ⟨_, hm, hnil rfl⟩
    | dropAll t call m hpc hm => exact .inr ⟨_, hm, hnil rfl⟩
    | resumeAndDrop t call d m hpc hm => exact .inr ⟨_, hm, hnil rfl⟩
    | _ => exact .inl rfl

/-- Only thread `t₀` submits. -/
def SubmitsFrom (t₀ : Nat) (_ : AsyncXQueue) (act : XAct) : Prop :=
  ∀ t props kind, act = .submit t props kind → t = t₀

theorem submits_idle {t₀ t : Nat} (hr : ((lts cfg).restrict (SubmitsFrom t₀)).Reachable x)
    (ht : t ≠ t₀) : x.submits t = .idle := by
  refine LTS.reachable_induction (I := fun x => x.submits t = .idle) ?_ ?_ hr
  · rintro x rfl; rfl
  · intro x act x' _ hidle hs
    have hmove (t' : Nat) (p : SubmitPc) (y : AsyncXQueue) (hy : y.submits = x.submits)
        (hne : t' ≠ t) : (setSubmit t' p y).submits t = .idle := by
      rw [setSubmit_submits, if_neg (Ne.symm hne), hy]; exact hidle
    have hbusy {t' : Nat} (hpc : x.submits t' ≠ .idle) : t' ≠ t := by
      rintro rfl; exact hpc hidle
    cases step_of_lts hs.1 with
    | allocate t' props kind hpc =>
      exact hmove t' _ _ rfl fun he => ht (he ▸ hs.2 t' props kind rfl)
    | hook t' c hpc => exact hmove t' _ x rfl (hbusy (by rw [hpc]; nofun))
    | enqueue t' c m hpc hm => exact hmove t' _ _ rfl (hbusy (by rw [hpc]; nofun))
    | submitReturn t' c hpc => exact hmove t' _ _ rfl (hbusy (by rw [hpc]; nofun))
    | _ => exact hidle

/-- A queue with one submitting thread never overtakes. -/
theorem notOvertaking_of_single {t₀ : Nat}
    (hr : ((lts cfg).restrict (SubmitsFrom t₀)).Reachable x) (act : XAct) :
    NotOvertaking x act := by
  rintro t c - hpc t' c' hpc'
  have honly {t : Nat} (h : x.submits t ≠ .idle) : t = t₀ := by
    by_contra hne
    exact h (submits_idle hr hne)
  have ht := honly (t := t) (by rw [hpc]; exact nofun)
  have ht' := honly (t := t') (fun h => by rw [h] at hpc'; cases hpc')
  rw [ht', ← ht, hpc] at hpc'
  cases hpc'
  exact Int.le_refl _

/-- The overtaken thread goes on and enqueues behind the larger index. -/
theorem overtaken_enqueues {t t' : Nat} {c c' : HwCommand} (hr : (lts cfg).Reachable x)
    (hab : x.machine.aborted = false) (hpc : x.submits t = .hooked c)
    (hpc' : (x.submits t').pending = some c') (hlt : c'.idx < c.idx) (x₁ : AsyncXQueue)
    (hs : (lts cfg).step x (.submitter t) x₁) :
    ∃ ls x₂, (lts cfg).Run x₁ ls x₂ ∧ (∀ act ∈ ls, act = .submitter t') ∧
      ¬ Increasing (hwCmds x₂.machine.cmds) := by
  have htt : t' ≠ t := by
    rintro rfl
    rw [hpc] at hpc'
    have he : c = c' := Option.some.inj hpc'
    rw [he] at hlt; omega
  have hlog := logInv_reachable (machine_reachable hr)
  have hcreated : x.machine.cmdState (.hardware c) = .created := by
    refine hlog.created c fun hm => ?_
    exact (submitInv_reachable hr).distinct t c (by rw [hpc]; rfl) c hm rfl
  -- the first enqueue
  have hx₁ : x₁ = setSubmit t (.enqueued c) { x with machine := enqueue (.hardware c) x.machine } := by
    have h : (lts cfg).step x (.submitter t) _ := enqueue_enabled (submitInv_reachable hr) hpc hab
    exact Option.some.inj (hs.symm.trans h)
  have hr₁ := hr.step hs
  have hab₁ : x₁.machine.aborted = false := by
    rw [hx₁]
    show (x.machine.aborted || !decide ((x.machine.cmdState (.hardware c)).val ≤ 1)) = false
    rw [hab, hcreated]; rfl
  have hpc₁ : x₁.submits t' = x.submits t' := by
    rw [hx₁, setSubmit_submits, if_neg htt]
  have hcmds₁ : x₁.machine.cmds = x.machine.cmds ++ [.hardware c] := by rw [hx₁]; rfl
  -- what the second one leaves
  have hbad (y : AsyncXQueue) (hy : y.machine.cmds = x₁.machine.cmds) :
      ¬ Increasing (hwCmds (setSubmit t' (.enqueued c')
        { y with machine := enqueue (.hardware c') y.machine }).machine.cmds) := by
    show ¬ Increasing (hwCmds (y.machine.cmds ++ [.hardware c']))
    rw [hy, hcmds₁, hwCmds_append, hwCmds_append]
    intro hinc
    have h := (List.pairwise_append.1 hinc).2.2 c (List.mem_append_right _ List.mem_cons_self) c'
      List.mem_cons_self
    omega
  cases hp' : x.submits t' with
  | idle => rw [hp'] at hpc'; cases hpc'
  | enqueued d => rw [hp'] at hpc'; cases hpc'
  | hooked d =>
    rw [hp'] at hpc'
    cases hpc'
    have h₂ : (lts cfg).step x₁ (.submitter t') _ :=
      enqueue_enabled (submitInv_reachable hr₁) (hpc₁.trans hp') hab₁
    refine ⟨[.submitter t'], _, .cons h₂ (.nil _), fun act hact => ?_, hbad x₁ rfl⟩
    exact List.mem_singleton.1 hact
  | indexed d =>
    rw [hp'] at hpc'
    cases hpc'
    have hhook : (lts cfg).step x₁ (.submitter t') (setSubmit t' (.hooked c') x₁) := by
      show step cfg x₁ (.submitter t') = _
      simp [step, hab₁, stepSubmit, hpc₁.trans hp']
    have hr₂ := hr₁.step hhook
    have hpc₂ : (setSubmit t' (.hooked c') x₁).submits t' = .hooked c' := by
      rw [setSubmit_submits, if_pos rfl]
    have h₃ : (lts cfg).step _ (.submitter t') _ :=
      enqueue_enabled (submitInv_reachable hr₂) hpc₂ hab₁
    refine ⟨[.submitter t', .submitter t'], _, .cons hhook (.cons h₃ (.nil _)), fun act hact => ?_,
      hbad _ rfl⟩
    simpa using hact

/-- **Submission order.** If nobody enqueues while another thread holds a
smaller index, the buffer, `cmd_log_` and `sync_cmd_log_` are in strictly
increasing index order; an enqueue that does not wait is followed, once the
overtaken thread goes on, by a buffer out of order. -/
theorem submission_order (cfg : Config) :
    (∀ x, ((lts cfg).restrict NotOvertaking).Reachable x →
      Increasing x.machine.enqueued ∧ Increasing (hwCmds x.machine.cmds) ∧
      Increasing x.machine.cmdLog ∧ Increasing x.machine.syncCmdLog) ∧
    ∀ x act x', (lts cfg).Reachable x → (lts cfg).step x act x' → ¬ NotOvertaking x act →
      ∃ ls x'', (lts cfg).Run x' ls x'' ∧ (∃ t, ∀ act ∈ ls, act = .submitter t) ∧
        ¬ Increasing (hwCmds x''.machine.cmds) := by
  refine ⟨fun x hr => ?_, fun x act x' hr hs hok => ?_⟩
  · have hinc := (orderInv_reachable hr).increasing
    have hlog := logInv_reachable (machine_reachable hr.of_restrict)
    exact ⟨hinc, hinc.sublist hlog.cmds_sublist, hinc.sublist hlog.cmdLog_sublist,
      hinc.sublist (hlog.syncLog.trans hlog.cmdLog_sublist)⟩
  · unfold NotOvertaking at hok
    push Not at hok
    obtain ⟨t, c, rfl, hpc, t', c', hpc', hlt⟩ := hok
    obtain ⟨ls, x'', hrun, hls, hbad⟩ :=
      overtaken_enqueues hr (step_cases hs).1 hpc hpc' hlt x' hs
    exact ⟨ls, x'', hrun, ⟨t', hls⟩, hbad⟩

/-- Threads 0 and 1 take indices 1 and 2; thread 0 enqueues first. -/
theorem submission_order_two : ∃ x, (lts cfgOne).Reachable x ∧
    x.machine.enqueued = [halCmd 1, halCmd 2] ∧ Increasing x.machine.enqueued := by
  let x₂ := allocate 1 kCommandPropertyNone .hal (allocate 0 kCommandPropertyNone .hal init)
  let x₄ := setSubmit 1 (.hooked (halCmd 2)) (setSubmit 0 (.hooked (halCmd 1)) x₂)
  let x₅ := setSubmit 0 (.enqueued (halCmd 1))
    { x₄ with machine := enqueue (.hardware (halCmd 1)) x₄.machine }
  let x₆ := setSubmit 1 (.enqueued (halCmd 2))
    { x₅ with machine := enqueue (.hardware (halCmd 2)) x₅.machine }
  have hothers : ∀ t, t ≠ 0 → t ≠ 1 → x₄.submits t = .idle := by
    intro t h0 h1
    simp only [x₄, x₂, allocate, setSubmit_submits, if_neg h0, if_neg h1]
    rfl
  have h₁ : ((lts cfgOne).restrict NotOvertaking).step init
      (.submit 0 kCommandPropertyNone .hal) (allocate 0 kCommandPropertyNone .hal init) :=
    ⟨rfl, fun _ _ => nofun⟩
  have h₂ : ((lts cfgOne).restrict NotOvertaking).step
      (allocate 0 kCommandPropertyNone .hal init) (.submit 1 kCommandPropertyNone .hal) x₂ :=
    ⟨rfl, fun _ _ => nofun⟩
  have hhook : ∀ {x x'} t c, x.submits t = .indexed c → step cfgOne x (.submitter t) = some x' →
      ((lts cfgOne).restrict NotOvertaking).step x (.submitter t) x' := by
    refine fun t c hpc h => ⟨h, fun t' d ht hpc' => ?_⟩
    cases ht
    rw [hpc] at hpc'
    cases hpc'
  have hr₄ : ((lts cfgOne).restrict NotOvertaking).Reachable x₄ :=
    ((((LTS.reachable_init rfl).step h₁).step h₂).step (hhook 0 (halCmd 1) rfl rfl)).step
      (hhook 1 (halCmd 2) rfl rfl)
  have h₅ : ((lts cfgOne).restrict NotOvertaking).step x₄ (.submitter 0) x₅ := by
    refine ⟨rfl, fun t c ht hpc t' c' hpc' => ?_⟩
    cases ht
    cases hpc
    by_cases h0 : t' = 0
    · subst h0
      cases hpc'
      decide
    by_cases h1 : t' = 1
    · subst h1
      cases hpc'
      decide
    · rw [hothers t' h0 h1] at hpc'
      cases hpc'
  have h₆ : ((lts cfgOne).restrict NotOvertaking).step x₅ (.submitter 1) x₆ := by
    refine ⟨rfl, fun t c ht hpc t' c' hpc' => ?_⟩
    cases ht
    cases hpc
    by_cases h0 : t' = 0
    · subst h0
      cases hpc'
    by_cases h1 : t' = 1
    · subst h1
      cases hpc'
      exact le_refl _
    · have hidle : x₅.submits t' = .idle := by
        rw [setSubmit_submits, if_neg h0]
        exact hothers t' h0 h1
      rw [hidle] at hpc'
      cases hpc'
  have hr : ((lts cfgOne).restrict NotOvertaking).Reachable x₆ := (hr₄.step h₅).step h₆
  exact ⟨x₆, hr.of_restrict, rfl, ((submission_order cfgOne).1 x₆ hr).1⟩

/-- Threads 0 and 1 take indices 1 and 2; thread 1 enqueues first. -/
def overtakingTrace : List XAct :=
  [.submit 0 kCommandPropertyNone .hal, .submit 1 kCommandPropertyNone .hal,
    .submitter 1, .submitter 1, .submitter 0, .submitter 0]

/-- **Counterexample**: after the trace the buffer holds index 2 before
index 1. -/
theorem submit_out_of_order :
    ¬ ∀ (cfg : Config) (x : AsyncXQueue), (lts cfg).Reachable x →
      Increasing (hwCmds x.machine.cmds) := by
  intro h
  have htrace : ((LTS.exec (step cfgOne) init overtakingTrace).map fun x => x.machine.cmds) =
      some [.xQueueWaitAll 0, .hardware (halCmd 2), .hardware (halCmd 1)] := by decide
  obtain ⟨x, hx, he⟩ := Option.map_eq_some_iff.1 htrace
  have hinc := h cfgOne x (LTS.reachable_of_exec rfl hx)
  rw [he] at hinc
  have hlt := (List.pairwise_cons.1 hinc).1 (halCmd 1) List.mem_cons_self
  exact absurd hlt (by decide)

end Xsched.Preempt.AsyncXQueue
