import Xsched.Cuda.Guardian

/-!
# The stream and the log

What one step of a level-2 queue does (`Step`, with `BlockStep` for the block),
and the shape every step keeps. The kernels still to be processed by the
device are the stream followed by what a `Reactivate` under way will
relaunch; they are the last ones of the log, and only the one at the front
can be a resume. The header names a preempted kernel only while the exit flag
is set, and then no kernel in the queue comes before it.
-/
namespace Xsched.Cuda
namespace CudaQueueLv2

variable {q q' : CudaQueueLv2} {act : Act}

/-! ## What a step can do -/

/-- What one block does, by outcome: it runs its body, finds its restore flag
clear, saves itself for the resume, or makes way for an earlier kernel. -/
inductive BlockStep (type : LaunchType) (idx b : Nat) (buf : PreemptBuffer) :
    PreemptBuffer → Bool → Prop
  | run (buf' : PreemptBuffer) (hg : buf.globalExitFlag = false)
      (ht : type = .resume → buf.restoreFlag b = true) (hp : buf'.preemptIdx = buf.preemptIdx)
      (hg' : buf'.globalExitFlag = buf.globalExitFlag)
      (hb : buf'.restoreFlag b = true → type = .guardian ∧ buf.restoreFlag b = true)
      (hf : ∀ b', b' ≠ b → buf'.restoreFlag b' = buf.restoreFlag b') :
      BlockStep type idx b buf buf' true
  | skip (ht : type = .resume) (hb : buf.restoreFlag b = false) :
      BlockStep type idx b buf buf false
  | save (buf' : PreemptBuffer) (hg : buf.globalExitFlag = true)
      (hp : buf.preemptIdx = 0 ∨ buf.preemptIdx = idx)
      (ht : type = .resume → buf.restoreFlag b = true) (hp' : buf'.preemptIdx = idx)
      (hg' : buf'.globalExitFlag = buf.globalExitFlag) (hb : buf'.restoreFlag b = true)
      (hf : ∀ b', b' ≠ b → buf'.restoreFlag b' = buf.restoreFlag b') :
      BlockStep type idx b buf buf' false
  | pass (buf' : PreemptBuffer) (hg : buf.globalExitFlag = true) (h0 : buf.preemptIdx ≠ 0)
      (hp : buf.preemptIdx ≠ idx) (hp' : buf'.preemptIdx = buf.preemptIdx)
      (hg' : buf'.globalExitFlag = buf.globalExitFlag)
      (hf : type = .guardian → buf'.restoreFlag = buf.restoreFlag) :
      BlockStep type idx b buf buf' false

/-- The guardian, from a buffer that differs from `buf` in the restore flag of
the block at most. -/
theorem checkPreempt_cases {type : LaunchType} {idx b : Nat} {buf buf₀ : PreemptBuffer}
    (hg : buf₀.globalExitFlag = buf.globalExitFlag) (hp : buf₀.preemptIdx = buf.preemptIdx)
    (hf : ∀ b', b' ≠ b → buf₀.restoreFlag b' = buf.restoreFlag b')
    (ht : type = .resume → buf.restoreFlag b = true)
    (hsame : type = .guardian → buf₀.restoreFlag = buf.restoreFlag)
    (hclear : type = .resume → buf₀.restoreFlag b = false) :
    BlockStep type idx b buf (checkPreempt idx b buf₀) (!(checkPreempt idx b buf₀).exitFlag b) := by
  have hsaved (b' : Nat) (hne : b' ≠ b) :
      Function.update buf₀.restoreFlag b true b' = buf.restoreFlag b' := by
    rw [Function.update_of_ne hne]; exact hf b' hne
  unfold checkPreempt
  split
  · rename_i h
    have hrun : (!Function.update buf₀.exitFlag b false b) = true := by simp
    rw [hrun]
    refine .run _ (hg.symm.trans h) ht hp hg (fun hb => ?_) hf
    cases type with
    | guardian => exact ⟨rfl, by rw [← hsame rfl]; exact hb⟩
    | resume => exact nomatch (hclear rfl).symm.trans hb
  · rename_i h
    have hg' : buf.globalExitFlag = true := by
      rw [← hg]; simpa using h
    have hexit : (!Function.update buf₀.exitFlag b true b) = false := by simp
    dsimp only
    split
    · rename_i h0
      rw [hexit]
      exact .save _ hg' (.inl (hp.symm.trans h0)) ht rfl hg (Function.update_self _ _ _) hsaved
    · rename_i h0
      split
      · rename_i hi
        rw [hexit]
        exact .save _ hg' (.inr (hp.symm.trans hi)) ht hi hg (Function.update_self _ _ _) hsaved
      · rename_i hi
        rw [hexit]
        exact .pass _ hg' (by rw [← hp]; exact h0) (by rw [← hp]; exact hi) hp hg hsame

theorem runBlock_cases {type : LaunchType} {idx b : Nat} {buf buf' : PreemptBuffer} {body : Bool}
    (h : runBlock type idx b buf = (buf', body)) : BlockStep type idx b buf buf' body := by
  cases type with
  | guardian =>
    obtain ⟨rfl, rfl⟩ := Prod.mk.inj h
    exact checkPreempt_cases rfl rfl (fun _ _ => rfl) nofun (fun _ => rfl) nofun
  | resume =>
    unfold runBlock restoreExec at h
    by_cases hb : buf.restoreFlag b = false
    · simp only [hb, if_true] at h
      obtain ⟨rfl, rfl⟩ := Prod.mk.inj h
      exact .skip rfl hb
    · simp only [hb] at h
      obtain ⟨rfl, rfl⟩ := Prod.mk.inj h
      have hflag : buf.restoreFlag b = true := by simpa using hb
      exact checkPreempt_cases rfl rfl (fun b' hne => Function.update_of_ne hne _ _)
        (fun _ => hflag) nofun fun _ => Function.update_self _ _ _

/-- One more run of block `b` of kernel `i`. -/
def bump (i b : Nat) (ran : Nat → Nat → Nat) : Nat → Nat → Nat :=
  Function.update ran i (Function.update (ran i) b (ran i b + 1))

theorem bump_self (i b : Nat) (ran : Nat → Nat → Nat) : bump i b ran i b = ran i b + 1 := by
  rw [bump, Function.update_self, Function.update_self]

theorem bump_kernel {i i' : Nat} (b : Nat) (ran : Nat → Nat → Nat) (h : i' ≠ i) :
    bump i b ran i' = ran i' := Function.update_of_ne h _ _

theorem bump_block {b b' : Nat} (i : Nat) (ran : Nat → Nat → Nat) (h : b' ≠ b) :
    bump i b ran i b' = ran i b' := by
  rw [bump, Function.update_self, Function.update_of_ne h]

/-- The queue after block `b` of `l`, the kernel at its front. -/
def afterBlock (l : Launch) (rest : List Launch) (b : Nat) (buf : PreemptBuffer)
    (ran : Nat → Nat → Nat) (q : CudaQueueLv2) : CudaQueueLv2 :=
  { q with
    buf := buf
    stream := { l with todo := l.todo.erase b } :: rest
    ran := ran }

/-- Every step, with its guard. -/
inductive Step (q : CudaQueueLv2) : Act → CudaQueueLv2 → Prop
  | launch (k : Kernel) (hr : q.relaunch = []) (hpos : 0 < k.idx)
      (hnew : ∀ e ∈ q.launched, e.idx < k.idx) : Step q (.launch k) (launch k q)
  | block (b : Nat) (l : Launch) (rest : List Launch) (buf : PreemptBuffer) (body : Bool)
      (hs : q.stream = l :: rest) (hb : b ∈ l.todo)
      (hrun : BlockStep l.type l.kernel.idx b q.buf buf body) :
      Step q (.block b) (afterBlock l rest b buf (if body then bump l.kernel.idx b q.ran else q.ran) q)
  | finish (l : Launch) (rest : List Launch) (hs : q.stream = l :: rest) (hd : l.todo = []) :
      Step q .finish { q with stream := rest }
  | deactivate : Step q .deactivate (deactivate q)
  | reactivate (hs : q.stream = []) (hr : q.relaunch = []) :
      Step q .reactivate (reactivate q.log q)
  | dropReactivate (hs : q.stream = []) (hr : q.relaunch = []) :
      Step q .dropReactivate (dropReactivate q)
  | relaunch (k : Kernel) (ks : List Kernel) (hr : q.relaunch = k :: ks) :
      Step q .relaunch { q with stream := q.stream ++ [q.toLaunch k], relaunch := ks }
  | retire (k : Kernel) (ks : List Kernel) (hl : q.log = k :: ks)
      (hg : q.buf.globalExitFlag = false) (hr : q.relaunch = [])
      (hn : k ∉ q.stream.map Launch.kernel) : Step q .retire { q with log := ks }

theorem step_cases (h : lts.step q act q') : Step q act q' := by
  have h' : step q act = some q' := h
  cases act with
  | launch k =>
    simp only [step] at h'
    split at h'
    · rename_i hg
      simp only [Option.some.injEq] at h'; subst h'
      exact .launch k hg.1 hg.2.1 hg.2.2
    · cases h'
  | block b =>
    simp only [step, runFront] at h'
    split at h'
    · cases h'
    · rename_i l rest hs
      split at h'
      · rename_i hb
        simp only [Option.some.injEq] at h'; subst h'
        exact .block b l rest _ _ hs hb (runBlock_cases rfl)
      · cases h'
  | finish =>
    simp only [step, finish] at h'
    split at h'
    · cases h'
    · rename_i l rest hs
      split at h'
      · rename_i hd
        simp only [Option.some.injEq] at h'; subst h'
        exact .finish l rest hs hd
      · cases h'
  | deactivate =>
    simp only [step, Option.some.injEq] at h'; subst h'
    exact .deactivate
  | reactivate =>
    simp only [step] at h'
    split at h'
    · rename_i hg
      simp only [Option.some.injEq] at h'; subst h'
      exact .reactivate hg.1 hg.2
    · cases h'
  | dropReactivate =>
    simp only [step] at h'
    split at h'
    · rename_i hg
      simp only [Option.some.injEq] at h'; subst h'
      exact .dropReactivate hg.1 hg.2
    · cases h'
  | relaunch =>
    simp only [step, relaunchNext] at h'
    split at h'
    · cases h'
    · rename_i k ks hr
      simp only [Option.some.injEq] at h'; subst h'
      exact .relaunch k ks hr
  | retire =>
    simp only [step, retire] at h'
    split at h'
    · cases h'
    · rename_i k ks hl
      split at h'
      · rename_i hg
        simp only [Option.some.injEq] at h'; subst h'
        exact .retire k ks hl hg.1 hg.2.1 hg.2.2
      · cases h'

/-! ## The shape of the queue -/

/-- What the device has still to process. -/
def queue (q : CudaQueueLv2) : List Launch := q.stream ++ q.relaunch.map q.toLaunch

def ByIdx (ks : List Kernel) : Prop := ks.Pairwise fun a b => a.idx < b.idx

structure Shape (q : CudaQueueLv2) : Prop where
  sorted : ByIdx q.launched
  positive : ∀ k ∈ q.launched, 0 < k.idx
  log : q.log.Sublist q.launched
  /-- the queue holds the last kernels of the log -/
  split : ∃ passed, q.log = passed ++ q.queue.map Launch.kernel
  /-- only the kernel at the front can be a resume or have begun -/
  tail : ∀ l ∈ q.queue.tail, l.type = .guardian ∧ l.todo = List.range l.kernel.blockCnt
  todo : ∀ l ∈ q.queue, l.todo.Sublist (List.range l.kernel.blockCnt)
  host : q.preemptIdx = 0 ∨ ∃ k ∈ q.launched, k.idx = q.preemptIdx
  exit : q.buf.preemptIdx ≠ 0 → q.buf.globalExitFlag = true
  saved : q.buf.preemptIdx ≠ 0 → ∃ k ∈ q.log, k.idx = q.buf.preemptIdx
  ahead : q.buf.preemptIdx ≠ 0 → ∀ l ∈ q.queue, q.buf.preemptIdx ≤ l.kernel.idx ∧
    (l.type = .resume → l.kernel.idx = q.buf.preemptIdx)
  dropped : ∀ k ∈ q.dropped, k ∈ q.launched ∧ k ∉ q.log
  ranNew : ∀ i, (∀ k ∈ q.launched, k.idx ≠ i) → ∀ b, q.ran i b = 0

/-- A list in index order splits at every index. -/
theorem ByIdx.split {ks : List Kernel} (h : ByIdx ks) (p : Nat) :
    ks = ks.filter (fun k => decide (k.idx < p)) ++ ks.filter fun k => decide (p ≤ k.idx) := by
  induction ks with
  | nil => rfl
  | cons k ks ih =>
    obtain ⟨hk, hks⟩ := List.pairwise_cons.1 h
    by_cases hp : k.idx < p
    · rw [List.filter_cons_of_pos (by simpa using hp), List.filter_cons_of_neg (by simpa using hp),
        List.cons_append, ← ih hks]
    · have hnil : ks.filter (fun k => decide (k.idx < p)) = [] := by
        refine List.filter_eq_nil_iff.2 fun e he => ?_
        have hlt := hk e he
        simp only [decide_eq_true_eq]; omega
      have hall : ks.filter (fun k => decide (p ≤ k.idx)) = ks := by
        refine List.filter_eq_self.2 fun e he => ?_
        have hlt := hk e he
        simp only [decide_eq_true_eq]; omega
      rw [List.filter_cons_of_neg (by simpa using hp),
        List.filter_cons_of_pos (by simpa using Nat.not_lt.1 hp), hnil, hall]
      rfl

/-- Kernels in index order are told apart by their indices. -/
theorem ByIdx.inj {ks : List Kernel} (h : ByIdx ks) {k k' : Kernel} (hk : k ∈ ks) (hk' : k' ∈ ks)
    (he : k.idx = k'.idx) : k = k' := by
  induction ks with
  | nil => cases hk
  | cons e ks ih =>
    obtain ⟨hlt, hks⟩ := List.pairwise_cons.1 h
    rcases List.mem_cons.1 hk with rfl | hm <;> rcases List.mem_cons.1 hk' with rfl | hm'
    · rfl
    · have h := hlt k' hm'
      omega
    · have h := hlt k hm
      omega
    · exact ih hks hm hm'

namespace Shape

theorem running (h : Shape q) (hg : q.buf.globalExitFlag = false) : q.buf.preemptIdx = 0 := by
  by_contra h0
  rw [h.exit h0] at hg; cases hg

theorem log_sorted (h : Shape q) : ByIdx q.log := h.sorted.sublist h.log

theorem mem_log (h : Shape q) {l : Launch} (hl : l ∈ q.queue) : l.kernel ∈ q.log := by
  obtain ⟨passed, hsplit⟩ := h.split
  rw [hsplit]
  exact List.mem_append_right _ (List.mem_map_of_mem hl)

theorem mem_launched (h : Shape q) {l : Launch} (hl : l ∈ q.queue) : l.kernel ∈ q.launched :=
  h.log.subset (h.mem_log hl)

theorem queue_sorted (h : Shape q) : ByIdx (q.queue.map Launch.kernel) := by
  obtain ⟨passed, hsplit⟩ := h.split
  have hs := h.log_sorted
  rw [hsplit] at hs
  exact (List.pairwise_append.1 hs).2.1

/-- Behind the front stand only kernels with larger indices, -/
theorem behind (h : Shape q) {l : Launch} {rest : List Launch} (hq : q.queue = l :: rest) :
    ∀ l' ∈ rest, l.kernel.idx < l'.kernel.idx := by
  have hs := h.queue_sorted
  rw [hq] at hs
  exact fun l' hl' => (List.pairwise_cons.1 hs).1 _ (List.mem_map_of_mem hl')

/-- and all kernels of the log with larger indices stand there. -/
theorem later_mem (h : Shape q) {l : Launch} {rest : List Launch} (hq : q.queue = l :: rest)
    {k : Kernel} (hk : k ∈ q.log) (hlt : l.kernel.idx < k.idx) : ∃ l' ∈ rest, l'.kernel = k := by
  obtain ⟨passed, hsplit⟩ := h.split
  have hs := h.log_sorted
  rw [hsplit] at hk hs
  rw [hq] at hk hs
  rcases List.mem_append.1 hk with hk | hk
  · have hlt' := (List.pairwise_append.1 hs).2.2 k hk _ List.mem_cons_self
    omega
  · rcases List.mem_cons.1 hk with rfl | hk
    · exact absurd hlt (Nat.lt_irrefl _)
    · exact List.mem_map.1 hk

end Shape

theorem queue_of_stream {l : Launch} {rest : List Launch} (hs : q.stream = l :: rest) :
    q.queue = l :: (rest ++ q.relaunch.map q.toLaunch) := by
  rw [queue, hs]; rfl

theorem queue_launch (k : Kernel) (hr : q.relaunch = []) :
    (launch k q).queue = q.queue ++ [q.toLaunch k] := by
  show (q.stream ++ [q.toLaunch k]) ++ q.relaunch.map _ = (q.stream ++ q.relaunch.map _) ++ _
  rw [hr]; simp

/-- The worker never launches a kernel in its resume entry. -/
theorem Shape.launchType_new (h : Shape q) {k : Kernel} (hpos : 0 < k.idx)
    (hnew : ∀ e ∈ q.launched, e.idx < k.idx) : q.launchType k = .guardian := by
  unfold launchType
  rw [if_neg]
  intro he
  rcases h.host with h0 | ⟨e, he', hidx⟩
  · omega
  · have hlt := hnew e he'
    omega

theorem shape_launch (h : Shape q) {k : Kernel} (hr : q.relaunch = []) (hpos : 0 < k.idx)
    (hnew : ∀ e ∈ q.launched, e.idx < k.idx) : Shape (launch k q) := by
  have hqueue := queue_launch k hr
  have htype := h.launchType_new hpos hnew
  have hfresh : k ∉ q.launched := fun hk => Nat.lt_irrefl _ (hnew k hk)
  refine ⟨?_, ?_, ?_, ?_, ?_, ?_, ?_, h.exit, ?_, ?_, ?_, ?_⟩
  · refine List.pairwise_append.2 ⟨h.sorted, List.pairwise_singleton _ _, fun e he e' he' => ?_⟩
    rw [List.mem_singleton.1 he']; exact hnew e he
  · intro e he
    rcases List.mem_append.1 he with he | he
    · exact h.positive e he
    · rw [List.mem_singleton.1 he]; exact hpos
  · exact h.log.append (List.Sublist.refl _)
  · obtain ⟨passed, hsplit⟩ := h.split
    refine ⟨passed, ?_⟩
    rw [hqueue, List.map_append, ← List.append_assoc, ← hsplit]; rfl
  · rw [hqueue]
    intro l hl
    have hl' : l ∈ q.queue.tail ∨ l = q.toLaunch k := by
      cases hq : q.queue with
      | nil => rw [hq] at hl; cases hl
      | cons l₀ rest =>
        rw [hq] at hl
        exact (List.mem_append.1 hl).imp_right List.mem_singleton.1
    rcases hl' with hl | rfl
    · exact h.tail l hl
    · exact ⟨htype, rfl⟩
  · rw [hqueue]
    intro l hl
    rcases List.mem_append.1 hl with hl | hl
    · exact h.todo l hl
    · rw [List.mem_singleton.1 hl]; exact List.Sublist.refl _
  · exact h.host.imp_right fun ⟨e, he, hi⟩ => ⟨e, List.mem_append_left _ he, hi⟩
  · intro h0
    obtain ⟨e, he, hi⟩ := h.saved h0
    exact ⟨e, List.mem_append_left _ he, hi⟩
  · rw [hqueue]
    intro h0 l hl
    rcases List.mem_append.1 hl with hl | hl
    · exact h.ahead h0 l hl
    · rw [List.mem_singleton.1 hl]
      obtain ⟨e, he, hi⟩ := h.saved h0
      have hlt := hnew e (h.log.subset he)
      rw [hi] at hlt
      exact ⟨Nat.le_of_lt hlt, fun ht => absurd (htype.symm.trans ht) nofun⟩
  · intro e he
    obtain ⟨hl, hn⟩ := h.dropped e he
    refine ⟨List.mem_append_left _ hl, fun hm => ?_⟩
    rcases List.mem_append.1 hm with hm | hm
    · exact hn hm
    · rw [List.mem_singleton.1 hm] at hl; exact hfresh hl
  · exact fun i hi b => h.ranNew i (fun e he => hi e (List.mem_append_left _ he)) b

theorem shape_block (h : Shape q) {b : Nat} {l : Launch} {rest : List Launch}
    {buf : PreemptBuffer} {body : Bool} (hs : q.stream = l :: rest)
    (hrun : BlockStep l.type l.kernel.idx b q.buf buf body) (ran : Nat → Nat → Nat)
    (hran : ∀ i, i ≠ l.kernel.idx → ran i = q.ran i) :
    Shape (afterBlock l rest b buf ran q) := by
  have hq := queue_of_stream hs
  have hqueue : (afterBlock l rest b buf ran q).queue =
      { l with todo := l.todo.erase b } :: (rest ++ q.relaunch.map q.toLaunch) := rfl
  have hl : l ∈ q.queue := by rw [hq]; exact List.mem_cons_self
  have hbehind := h.behind hq
  have htail := h.tail
  rw [hq] at htail
  -- the header after the block
  have hidx : buf.preemptIdx = q.buf.preemptIdx ∨
      q.buf.globalExitFlag = true ∧ buf.preemptIdx = l.kernel.idx := by
    cases hrun with
    | run buf hg ht hp hg' hclear hf => exact .inl hp
    | skip ht hb => exact .inl rfl
    | save buf hg hp ht hp' hg' hb hf => exact .inr ⟨hg, hp'⟩
    | pass buf hg h0 hp hp' hg' hf => exact .inl hp'
  have hglobal : buf.globalExitFlag = q.buf.globalExitFlag := by
    cases hrun <;> first | assumption | rfl
  refine ⟨h.sorted, h.positive, h.log, ?_, ?_, ?_, h.host, ?_, ?_, ?_, h.dropped, ?_⟩
  · obtain ⟨passed, hsplit⟩ := h.split
    refine ⟨passed, ?_⟩
    rw [hq] at hsplit
    rw [hqueue]; exact hsplit
  · rw [hqueue]; exact htail
  · rw [hqueue]
    intro l' hl'
    rcases List.mem_cons.1 hl' with rfl | hl'
    · exact List.erase_sublist.trans (h.todo l hl)
    · exact h.todo l' (by rw [hq]; exact List.mem_cons_of_mem _ hl')
  · intro h0
    show buf.globalExitFlag = true
    rw [hglobal]
    rcases hidx with he | ⟨hg, -⟩
    · exact h.exit (by rw [← he]; exact h0)
    · exact hg
  · intro h0
    rcases hidx with he | ⟨-, he⟩
    · obtain ⟨k, hk, hi⟩ := h.saved (by rw [← he]; exact h0)
      exact ⟨k, hk, hi.trans he.symm⟩
    · exact ⟨l.kernel, h.mem_log hl, he.symm⟩
  · rw [hqueue]
    intro h0 l' hl'
    rcases hidx with he | ⟨-, he⟩
    · have hold := h.ahead (by rw [← he]; exact h0)
      show buf.preemptIdx ≤ _ ∧ (_ → _ = buf.preemptIdx)
      rw [he]
      rcases List.mem_cons.1 hl' with rfl | hl'
      · exact hold l hl
      · exact hold l' (by rw [hq]; exact List.mem_cons_of_mem _ hl')
    · show buf.preemptIdx ≤ _ ∧ (_ → _ = buf.preemptIdx)
      rw [he]
      rcases List.mem_cons.1 hl' with rfl | hl'
      · exact ⟨Nat.le_refl _, fun _ => rfl⟩
      · refine ⟨Nat.le_of_lt (hbehind l' hl'), fun ht => ?_⟩
        exact absurd ((htail l' hl').1.symm.trans ht) nofun
  · intro i hi b'
    show ran i b' = 0
    rw [hran i fun he => hi l.kernel (h.mem_launched hl) he.symm]
    exact h.ranNew i hi b'

theorem shape_finish (h : Shape q) {l : Launch} {rest : List Launch} (hs : q.stream = l :: rest) :
    Shape { q with stream := rest } := by
  have hq := queue_of_stream hs
  have hsub : ∀ l' ∈ rest ++ q.relaunch.map q.toLaunch, l' ∈ q.queue := fun l' hl' => by
    rw [hq]; exact List.mem_cons_of_mem _ hl'
  have htail := h.tail
  rw [hq] at htail
  refine ⟨h.sorted, h.positive, h.log, ?_, fun l' hl' => htail l' (List.mem_of_mem_tail hl'),
    fun l' hl' => h.todo l' (hsub l' hl'), h.host, h.exit, h.saved,
    fun h0 l' hl' => h.ahead h0 l' (hsub l' hl'), h.dropped, h.ranNew⟩
  obtain ⟨passed, hsplit⟩ := h.split
  refine ⟨passed ++ [l.kernel], ?_⟩
  rw [hsplit, hq, List.append_assoc]; rfl

/-- What `Reactivate` will launch is the end of the log. -/
theorem reactivate_split (h : Shape q) :
    ∃ passed, q.log = passed ++ (reactivate q.log q).relaunch := by
  show ∃ passed, q.log = passed ++ (if q.buf.preemptIdx = 0 then [] else _)
  split
  · exact ⟨q.log, (List.append_nil _).symm⟩
  · exact ⟨_, h.log_sorted.split q.buf.preemptIdx⟩

theorem map_toLaunch (ks : List Kernel) : (ks.map q.toLaunch).map Launch.kernel = ks := by
  rw [List.map_map]
  exact List.map_id ks

theorem mem_relaunch {k : Kernel} : k ∈ (reactivate q.log q).relaunch ↔
    q.buf.preemptIdx ≠ 0 ∧ k ∈ q.log ∧ q.buf.preemptIdx ≤ k.idx := by
  show k ∈ (if q.buf.preemptIdx = 0 then [] else
    q.log.filter fun k => decide (q.buf.preemptIdx ≤ k.idx)) ↔ _
  split
  · rename_i h0
    simp [h0]
  · rename_i h0
    simp [h0, List.mem_filter]

theorem queue_reactivate (hs : q.stream = []) (log : List Kernel) :
    (reactivate log q).queue = (reactivate log q).relaunch.map (reactivate log q).toLaunch := by
  show q.stream ++ _ = _
  rw [hs]; rfl

theorem shape_reactivate (h : Shape q) (hs : q.stream = []) : Shape (reactivate q.log q) := by
  have hqueue := queue_reactivate hs q.log
  refine ⟨h.sorted, h.positive, h.log, ?_, ?_, ?_, ?_, (absurd rfl ·), (absurd rfl ·),
    (absurd rfl ·), h.dropped, h.ranNew⟩
  · rw [hqueue, map_toLaunch]; exact reactivate_split h
  · rw [hqueue]
    intro l hl
    cases hr : (reactivate q.log q).relaunch with
    | nil => rw [hr] at hl; cases hl
    | cons k ks =>
      rw [hr] at hl
      obtain ⟨k', hk', rfl⟩ := List.mem_map.1 hl
      refine ⟨if_neg fun he => ?_, rfl⟩
      -- a kernel behind another one that has at least the preempted index
      have hmem : k ∈ (reactivate q.log q).relaunch := by rw [hr]; exact List.mem_cons_self
      have hle := (mem_relaunch.1 hmem).2.2
      obtain ⟨passed, hsplit⟩ := reactivate_split h
      have hsorted := h.log_sorted
      rw [hsplit, hr] at hsorted
      have hlt := (List.pairwise_cons.1 (List.pairwise_append.1 hsorted).2.1).1 k' hk'
      have he' : q.buf.preemptIdx = k'.idx := he
      omega
  · rw [hqueue]
    intro l hl
    obtain ⟨k, -, rfl⟩ := List.mem_map.1 hl
    exact List.Sublist.refl _
  · show q.buf.preemptIdx = 0 ∨ ∃ k ∈ q.launched, k.idx = q.buf.preemptIdx
    by_cases h0 : q.buf.preemptIdx = 0
    · exact .inl h0
    · obtain ⟨k, hk, hi⟩ := h.saved h0
      exact .inr ⟨k, h.log.subset hk, hi⟩

theorem queue_dropReactivate (hs : q.stream = []) : (dropReactivate q).queue = [] := by
  show q.stream ++ (if q.buf.preemptIdx = 0 then [] else []).map _ = []
  rw [hs, ite_self]; rfl

theorem shape_dropReactivate (h : Shape q) (hs : q.stream = []) : Shape (dropReactivate q) := by
  have hqueue := queue_dropReactivate hs
  refine ⟨h.sorted, h.positive, List.nil_sublist _, ?_, ?_, ?_, ?_, (absurd rfl ·), (absurd rfl ·),
    (absurd rfl ·), fun k hk => ?_, h.ranNew⟩
  · rw [hqueue]; exact ⟨[], rfl⟩
  · rw [hqueue]; exact nofun
  · rw [hqueue]; exact nofun
  · show q.buf.preemptIdx = 0 ∨ ∃ k ∈ q.launched, k.idx = q.buf.preemptIdx
    by_cases h0 : q.buf.preemptIdx = 0
    · exact .inl h0
    · obtain ⟨k, hk, hi⟩ := h.saved h0
      exact .inr ⟨k, h.log.subset hk, hi⟩
  · refine ⟨?_, nofun⟩
    rcases List.mem_append.1 hk with hk | hk
    · exact (h.dropped k hk).1
    · exact h.log.subset (mem_relaunch.1 hk).2.1

/-- A relaunch moves nothing in the queue. -/
theorem queue_relaunch {k : Kernel} {ks : List Kernel} (hr : q.relaunch = k :: ks) :
    ({ q with stream := q.stream ++ [q.toLaunch k], relaunch := ks } : CudaQueueLv2).queue =
      q.queue := by
  show (q.stream ++ [q.toLaunch k]) ++ ks.map q.toLaunch = q.stream ++ q.relaunch.map q.toLaunch
  rw [hr, List.append_assoc]; rfl

theorem shape_relaunch (h : Shape q) {k : Kernel} {ks : List Kernel} (hr : q.relaunch = k :: ks) :
    Shape { q with stream := q.stream ++ [q.toLaunch k], relaunch := ks } := by
  have hqueue := queue_relaunch hr
  exact ⟨h.sorted, h.positive, h.log, by rw [hqueue]; exact h.split, by rw [hqueue]; exact h.tail,
    by rw [hqueue]; exact h.todo, h.host, h.exit, h.saved, by rw [hqueue]; exact h.ahead,
    h.dropped, h.ranNew⟩

theorem shape_retire (h : Shape q) {k : Kernel} {ks : List Kernel} (hl : q.log = k :: ks)
    (hg : q.buf.globalExitFlag = false) (hr : q.relaunch = [])
    (hn : k ∉ q.stream.map Launch.kernel) : Shape { q with log := ks } := by
  have h0 := h.running hg
  have hsub : ∀ e ∈ ks, e ∈ q.log := fun e he => by rw [hl]; exact List.mem_cons_of_mem _ he
  refine ⟨h.sorted, h.positive, ?_, ?_, h.tail, h.todo, h.host, h.exit, (absurd h0 ·),
    (absurd h0 ·), fun e he => ⟨(h.dropped e he).1, fun hk => (h.dropped e he).2 (hsub e hk)⟩,
    h.ranNew⟩
  · refine List.Sublist.trans ?_ h.log
    rw [hl]; exact List.sublist_cons_self _ _
  · obtain ⟨passed, hsplit⟩ := h.split
    have hqueue : q.queue = q.stream := by rw [queue, hr]; exact List.append_nil _
    rw [hl, hqueue] at hsplit
    show ∃ passed, ks = passed ++ q.queue.map Launch.kernel
    rw [hqueue]
    cases passed with
    | nil =>
      rw [List.nil_append] at hsplit
      rw [← hsplit] at hn
      exact absurd List.mem_cons_self hn
    | cons e passed => exact ⟨passed, (List.cons_eq_cons.1 hsplit).2⟩

theorem shape_step (h : Shape q) (hs : Step q act q') : Shape q' := by
  cases hs with
  | launch k hr hpos hnew => exact shape_launch h hr hpos hnew
  | block b l rest buf body hs hb hrun =>
    refine shape_block h hs hrun _ fun i hi => ?_
    split
    · exact bump_kernel b q.ran hi
    · rfl
  | finish l rest hs hd => exact shape_finish h hs
  | deactivate =>
    exact ⟨h.sorted, h.positive, h.log, h.split, h.tail, h.todo, h.host, fun _ => rfl, h.saved,
      h.ahead, h.dropped, h.ranNew⟩
  | reactivate hs hr => exact shape_reactivate h hs
  | dropReactivate hs hr => exact shape_dropReactivate h hs
  | relaunch k ks hr => exact shape_relaunch h hr
  | retire k ks hl hg hr hn => exact shape_retire h hl hg hr hn

theorem shape_reachable (hr : lts.Reachable q) : Shape q := by
  refine LTS.Inductive.reachable (I := Shape) ⟨?_, ?_⟩ q hr
  · rintro q rfl
    exact ⟨List.Pairwise.nil, nofun, List.Sublist.refl _, ⟨[], rfl⟩, nofun, nofun, .inl rfl,
      (absurd rfl ·), (absurd rfl ·), (absurd rfl ·), nofun, fun _ _ _ => rfl⟩
  · exact fun q act q' h hs => shape_step h (step_cases hs)

end CudaQueueLv2
end Xsched.Cuda
