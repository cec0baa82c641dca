import Xsched.Cuda.Shape

/-!
# Every block exactly once

A block of a kernel in the log is *pending* while the queue has still to
process it, and then it ran once or not at all, as its restore flag says when
the launch is a resume; or it is *processed*, and then the header says what
became of it (`Fate`): with no preempted kernel it ran once, with the first
preempted kernel `p` the blocks of earlier kernels ran, those of later ones
did not, and those of `p` ran or are flagged.

What breaks it is a restore flag that a dropped kernel left behind:
`Reactivate` clears only the header, so a later kernel that is preempted
half-way finds flags of blocks that ran already and runs them again
(`block_twice`). Without such a flag on the relaunched kernel every block runs
exactly once (`block_exactly_once`), in particular in every run without
drop-resumes.
-/
namespace Xsched.Cuda
namespace CudaQueueLv2

variable {q q' : CudaQueueLv2} {act : Act}

/-! ## What ran -/

/-- A block the device has still to process. -/
def Pending (q : CudaQueueLv2) (l : Launch) (b : Nat) : Prop :=
  match l.type with
  | .guardian => q.ran l.kernel.idx b = 0
  | .resume => q.ran l.kernel.idx b = 1 ∧ q.buf.restoreFlag b = false ∨
      q.ran l.kernel.idx b = 0 ∧ q.buf.restoreFlag b = true

/-- A block the device is done with, until the next `Reactivate`. -/
structure Fate (q : CudaQueueLv2) (k : Kernel) (b : Nat) : Prop where
  before : q.buf.preemptIdx = 0 ∨ k.idx < q.buf.preemptIdx → q.ran k.idx b = 1
  first : k.idx = q.buf.preemptIdx →
    q.ran k.idx b = 1 ∨ q.ran k.idx b = 0 ∧ q.buf.restoreFlag b = true
  after : q.buf.preemptIdx ≠ 0 → q.buf.preemptIdx < k.idx → q.ran k.idx b = 0

def Processed (q : CudaQueueLv2) (k : Kernel) (b : Nat) : Prop :=
  ∀ l ∈ q.queue, l.kernel = k → b ∉ l.todo

structure RanInv (q : CudaQueueLv2) : Prop where
  pending : ∀ l ∈ q.queue, ∀ b ∈ l.todo, Pending q l b
  processed : ∀ k ∈ q.log, ∀ b, b < k.blockCnt → Processed q k b → Fate q k b
  retired : ∀ k ∈ q.launched, k ∈ q.log ∨ k ∈ q.dropped ∨ ∀ b, b < k.blockCnt → q.ran k.idx b = 1

theorem Pending.congr {l : Launch} {b : Nat} (h : Pending q l b)
    (hr : q'.ran l.kernel.idx b = q.ran l.kernel.idx b)
    (hf : l.type = .resume → q'.buf.restoreFlag b = q.buf.restoreFlag b) : Pending q' l b := by
  unfold Pending at h ⊢
  rw [hr]
  split at h
  · exact h
  · rename_i ht
    rw [hf ht]; exact h

theorem Pending.not_run {l : Launch} {b : Nat} (h : Pending q l b)
    (ht : l.type = .resume → q.buf.restoreFlag b = true) : q.ran l.kernel.idx b = 0 := by
  unfold Pending at h
  split at h
  · exact h
  · rename_i htype
    rcases h with ⟨-, hb⟩ | ⟨hran, -⟩
    · rw [ht htype] at hb; cases hb
    · exact hran

theorem Fate.congr {k : Kernel} {b : Nat} (h : Fate q k b)
    (hp : q'.buf.preemptIdx = q.buf.preemptIdx) (hr : q'.ran k.idx b = q.ran k.idx b)
    (hf : k.idx = q.buf.preemptIdx → q.buf.restoreFlag b = true → q'.buf.restoreFlag b = true) :
    Fate q' k b := by
  refine ⟨?_, ?_, ?_⟩ <;> rw [hp, hr]
  · exact h.before
  · exact fun hi => (h.first hi).imp_right fun ⟨h0, hb⟩ => ⟨h0, hf hi hb⟩
  · exact h.after

/-- What the block of the kernel at the front comes to. -/
theorem fate_block (hsh : Shape q) {b : Nat} {l : Launch} {rest : List Launch}
    {buf : PreemptBuffer} {body : Bool} (hs : q.stream = l :: rest) (hpend : Pending q l b)
    (hrun : BlockStep l.type l.kernel.idx b q.buf buf body) :
    Fate (afterBlock l rest b buf (if body then bump l.kernel.idx b q.ran else q.ran) q)
      l.kernel b := by
  have hl : l ∈ q.queue := by rw [queue_of_stream hs]; exact List.mem_cons_self
  have hpos := hsh.positive _ (hsh.mem_launched hl)
  cases hrun with
  | run buf hg ht hp hg' hclear hf =>
    have h0 := hsh.running hg
    have hran := hpend.not_run ht
    have hone : bump l.kernel.idx b q.ran l.kernel.idx b = 1 := by rw [bump_self, hran]
    exact ⟨fun _ => hone, fun _ => .inl hone, fun hne => absurd (hp.trans h0) hne⟩
  | skip ht hb =>
    unfold Pending at hpend
    rw [ht] at hpend
    have hone : q.ran l.kernel.idx b = 1 := by
      rcases hpend with ⟨hran, -⟩ | ⟨-, hb'⟩
      · exact hran
      · rw [hb] at hb'; cases hb'
    refine ⟨fun _ => hone, fun _ => .inl hone, fun hne hlt => ?_⟩
    have hidx := (hsh.ahead hne l hl).2 ht
    exact absurd hlt (by rw [hidx]; exact Nat.lt_irrefl _)
  | save buf hg hp ht hp' hg' hb hf =>
    have hran := hpend.not_run ht
    refine ⟨fun h => ?_, fun _ => .inr ⟨hran, hb⟩, fun _ hlt => ?_⟩
    · have h' : buf.preemptIdx = 0 ∨ l.kernel.idx < buf.preemptIdx := h
      rw [hp'] at h'
      omega
    · have hlt' : buf.preemptIdx < l.kernel.idx := hlt
      omega
  | pass buf hg h0 hp hp' hg' hf =>
    obtain ⟨hle, hres⟩ := hsh.ahead h0 l hl
    have hran := hpend.not_run fun htype => absurd (hres htype).symm hp
    refine ⟨fun h => ?_, fun h => ?_, fun _ _ => hran⟩
    · have h' : buf.preemptIdx = 0 ∨ l.kernel.idx < buf.preemptIdx := h
      rw [hp'] at h'
      omega
    · have h' : l.kernel.idx = buf.preemptIdx := h
      rw [hp'] at h'
      exact absurd h'.symm hp

/-- The other blocks keep their fate. -/
theorem fate_other (hsh : Shape q) {b b' : Nat} {l : Launch} {rest : List Launch} {k : Kernel}
    {buf : PreemptBuffer} {body : Bool} (hs : q.stream = l :: rest)
    (hrun : BlockStep l.type l.kernel.idx b q.buf buf body) (hk : k ∈ q.log)
    (hb' : b' < k.blockCnt) (hproc : Processed q k b') (hfate : Fate q k b')
    (hne : k.idx = l.kernel.idx → b' ≠ b) :
    Fate (afterBlock l rest b buf (if body then bump l.kernel.idx b q.ran else q.ran) q) k b' := by
  have hq := queue_of_stream hs
  have hl : l ∈ q.queue := by rw [hq]; exact List.mem_cons_self
  cases hrun with
  | run buf hg ht hp hg' hclear hf =>
    have hran : bump l.kernel.idx b q.ran k.idx b' = q.ran k.idx b' := by
      by_cases he : k.idx = l.kernel.idx
      · rw [he]; exact bump_block _ _ (hne he)
      · rw [bump_kernel b q.ran he]
    refine hfate.congr hp hran fun hi _ => ?_
    -- a preempted kernel would have set the exit flag
    have hpos := hsh.positive k (hsh.log.subset hk)
    rw [hi, hsh.running hg] at hpos; cases hpos
  | skip ht hb => exact hfate.congr rfl rfl fun _ h => h
  | save buf hg hp ht hp' hg' hb hf =>
    have hflag : q.buf.restoreFlag b' = true → buf.restoreFlag b' = true := by
      by_cases he : b' = b
      · rw [he]; exact fun _ => hb
      · rw [hf b' he]; exact fun h => h
    rcases hp with h0 | hi
    · -- `l` is the first preempted kernel from now on
      have hone := hfate.before (.inl h0)
      refine ⟨fun _ => hone, fun _ => .inl hone, fun _ hlt => ?_⟩
      have hlt' : buf.preemptIdx < k.idx := hlt
      rw [hp'] at hlt'
      obtain ⟨l', hl', rfl⟩ := hsh.later_mem hq hk hlt'
      have hmem : l' ∈ q.queue := by rw [hq]; exact List.mem_cons_of_mem _ hl'
      have htodo := (hsh.tail l' (by rw [hq]; exact hl')).2
      refine absurd ?_ (hproc l' hmem rfl)
      rw [htodo]; exact List.mem_range.2 hb'
    · exact hfate.congr (hp'.trans hi.symm) rfl fun _ => hflag
  | pass buf hg h0 hp hp' hg' hf =>
    have htype : l.type = .guardian := by
      cases ht : l.type with
      | guardian => rfl
      | resume => exact absurd ((hsh.ahead h0 l hl).2 ht).symm hp
    exact hfate.congr hp' rfl fun _ h => by rw [← hf htype] at h; exact h

theorem ranInv_block (hsh : Shape q) (h : RanInv q) {b : Nat} {l : Launch} {rest : List Launch}
    {buf : PreemptBuffer} {body : Bool} (hs : q.stream = l :: rest) (hb : b ∈ l.todo)
    (hrun : BlockStep l.type l.kernel.idx b q.buf buf body) :
    RanInv (afterBlock l rest b buf (if body then bump l.kernel.idx b q.ran else q.ran) q) := by
  have hq := queue_of_stream hs
  have hl : l ∈ q.queue := by rw [hq]; exact List.mem_cons_self
  have hnodup : l.todo.Nodup := (hsh.todo l hl).nodup List.nodup_range
  have hother {i b' : Nat} (hne : i = l.kernel.idx → b' ≠ b) :
      (if body then bump l.kernel.idx b q.ran else q.ran) i b' = q.ran i b' := by
    split
    · by_cases he : i = l.kernel.idx
      · rw [he]; exact bump_block _ _ (hne he)
      · rw [bump_kernel b q.ran he]
    · rfl
  refine ⟨fun l' hl' b' hb' => ?_, fun k hk b' hb' hproc => ?_, fun k hk => ?_⟩
  · rcases List.mem_cons.1 hl' with rfl | hl'
    · -- another block of the same kernel
      have hne : b' ≠ b := fun he => by
        rw [he] at hb'; exact hnodup.not_mem_erase hb'
      have hflag : buf.restoreFlag b' = q.buf.restoreFlag b' ∨ l.type = .guardian := by
        cases hrun with
        | run buf hg ht hp hg' hclear hf => exact .inl (hf b' hne)
        | skip ht hb => exact .inl rfl
        | save buf hg hp ht hp' hg' hb hf => exact .inl (hf b' hne)
        | pass buf hg h0 hp hp' hg' hf =>
          cases ht : l.type with
          | guardian => exact .inr rfl
          | resume => exact absurd ((hsh.ahead h0 l hl).2 ht).symm hp
      refine Pending.congr (h.pending l hl b' (List.mem_of_mem_erase hb')) (hother fun _ => hne) ?_
      exact fun ht => hflag.resolve_right fun hg => nomatch (hg.symm.trans ht)
    · -- a kernel behind it, which has not begun
      have hmem : l' ∈ q.queue := by rw [hq]; exact List.mem_cons_of_mem _ hl'
      have htype := (hsh.tail l' (by rw [hq]; exact hl')).1
      have hlt := hsh.behind hq l' hl'
      refine Pending.congr (h.pending l' hmem b' hb') (hother fun he => by omega) fun ht => ?_
      exact nomatch (htype.symm.trans ht)
  · by_cases he : k = l.kernel ∧ b' = b
    · rw [he.1, he.2]
      exact fate_block hsh hs (h.pending l hl b hb) hrun
    · have hproc' : Processed q k b' := by
        intro l' hl' hk'
        rw [hq] at hl'
        rcases List.mem_cons.1 hl' with rfl | hl'
        · intro hb''
          refine hproc _ List.mem_cons_self hk' ?_
          exact (List.mem_erase_of_ne fun hbb => he ⟨hk'.symm, hbb⟩).2 hb''
        · exact hproc l' (List.mem_cons_of_mem _ hl') hk'
      refine fate_other hsh hs hrun hk hb' hproc' (h.processed k hk b' hb' hproc') fun hi hbb => ?_
      exact he ⟨hsh.sorted.inj (hsh.log.subset hk) (hsh.mem_launched hl) hi, hbb⟩
  · by_cases hin : k ∈ q.log
    · exact .inl hin
    · refine (h.retired k hk).imp_right (Or.imp_right fun hone b' hb' => ?_)
      refine (hother fun hi => ?_).trans (hone b' hb')
      have hkl := hsh.sorted.inj hk (hsh.mem_launched hl) hi
      exact absurd (hsh.mem_log hl) (by rw [← hkl]; exact hin)

theorem ranInv_launch (hsh : Shape q) (h : RanInv q) {k : Kernel} (hr : q.relaunch = [])
    (hpos : 0 < k.idx) (hnew : ∀ e ∈ q.launched, e.idx < k.idx) : RanInv (launch k q) := by
  have hqueue := queue_launch k hr
  refine ⟨fun l hl b hb => ?_, fun e he b hb hproc => ?_, fun e he => ?_⟩
  · rw [hqueue] at hl
    rcases List.mem_append.1 hl with hl | hl
    · exact (h.pending l hl b hb).congr rfl fun _ => rfl
    · obtain rfl := List.mem_singleton.1 hl
      have htype : (q.toLaunch k).type = .guardian := hsh.launchType_new hpos hnew
      unfold Pending
      rw [htype]
      exact hsh.ranNew k.idx (fun e he => Nat.ne_of_lt (hnew e he)) b
  · rcases List.mem_append.1 he with he | he
    · have hproc' : Processed q e b := fun l hl => hproc l (by
        rw [hqueue]; exact List.mem_append_left _ hl)
      exact (h.processed e he b hb hproc').congr rfl rfl fun _ h => h
    · obtain rfl := List.mem_singleton.1 he
      refine absurd (List.mem_range.2 hb) (hproc (q.toLaunch e) ?_ rfl)
      rw [hqueue]; exact List.mem_append_right _ List.mem_cons_self
  · rcases List.mem_append.1 he with he | he
    · exact (h.retired e he).imp_left (List.mem_append_left _)
    · exact .inl (List.mem_append_right _ he)

theorem ranInv_finish (h : RanInv q) {l : Launch} {rest : List Launch} (hs : q.stream = l :: rest)
    (hd : l.todo = []) : RanInv { q with stream := rest } := by
  have hq := queue_of_stream hs
  refine ⟨fun l' hl' b hb => ?_, fun k hk b hb hproc => ?_, h.retired⟩
  · have hmem : l' ∈ q.queue := by rw [hq]; exact List.mem_cons_of_mem _ hl'
    exact (h.pending l' hmem b hb).congr rfl fun _ => rfl
  · refine (h.processed k hk b hb fun l' hl' hkl => ?_).congr rfl rfl fun _ h => h
    rw [hq] at hl'
    rcases List.mem_cons.1 hl' with rfl | hl'
    · rw [hd]; exact List.not_mem_nil
    · exact hproc l' hl' hkl

theorem ranInv_deactivate (h : RanInv q) : RanInv (deactivate q) := by
  refine ⟨fun l hl b hb => ?_, fun k hk b hb hproc => ?_, h.retired⟩
  · exact (h.pending l hl b hb).congr rfl fun _ => rfl
  · exact (h.processed k hk b hb hproc).congr rfl rfl fun _ h => h

theorem Processed.of_empty (hqueue : q.queue = []) (k : Kernel) (b : Nat) : Processed q k b := by
  intro l hl
  rw [hqueue] at hl; cases hl

/-- With an empty queue, the kernels that a `Reactivate` does not relaunch are done. -/
theorem ran_passed (h : RanInv q) (hqueue : q.queue = []) {k : Kernel} (hk : k ∈ q.log)
    (hn : k ∉ (reactivate q.log q).relaunch) {b : Nat} (hb : b < k.blockCnt) :
    q.ran k.idx b = 1 := by
  refine (h.processed k hk b hb (.of_empty hqueue k b)).before ?_
  by_contra hc
  obtain ⟨h0, hle⟩ := not_or.1 hc
  exact hn (mem_relaunch.2 ⟨h0, hk, Nat.not_lt.1 hle⟩)

theorem queue_eq_nil (hs : q.stream = []) (hr : q.relaunch = []) : q.queue = [] := by
  rw [queue, hs, hr]; rfl

/-- `Reactivate` with the log finds no restore flag on a block of the first
preempted kernel that ran already. -/
def FlagsOk (q : CudaQueueLv2) (act : Act) : Prop :=
  act = .reactivate → q.buf.preemptIdx ≠ 0 → ∀ k ∈ q.log, k.idx = q.buf.preemptIdx →
    ∀ b, b < k.blockCnt → q.buf.restoreFlag b = true → q.ran k.idx b = 0

instance (q : CudaQueueLv2) (act : Act) : Decidable (FlagsOk q act) :=
  inferInstanceAs (Decidable (act = .reactivate → q.buf.preemptIdx ≠ 0 → ∀ k ∈ q.log,
    k.idx = q.buf.preemptIdx → ∀ b, b < k.blockCnt → q.buf.restoreFlag b = true →
      q.ran k.idx b = 0))

theorem ranInv_reactivate (h : RanInv q) (hok : FlagsOk q .reactivate) (hs : q.stream = [])
    (hr : q.relaunch = []) : RanInv (reactivate q.log q) := by
  have hempty := queue_eq_nil hs hr
  have hqueue := queue_reactivate hs q.log
  have hfate (k : Kernel) (hk : k ∈ q.log) (b : Nat) (hb : b < k.blockCnt) : Fate q k b :=
    h.processed k hk b hb (.of_empty hempty k b)
  refine ⟨fun l hl b hb => ?_, fun k hk b hb hproc => ?_, h.retired⟩
  · rw [hqueue] at hl
    obtain ⟨k, hk, rfl⟩ := List.mem_map.1 hl
    obtain ⟨h0, hlog, hle⟩ := mem_relaunch.1 hk
    have hb' : b < k.blockCnt := List.mem_range.1 hb
    by_cases hi : q.buf.preemptIdx = k.idx
    · have htype : ((reactivate q.log q).toLaunch k).type = .resume := if_pos hi
      unfold Pending
      rw [htype]
      show q.ran k.idx b = 1 ∧ q.buf.restoreFlag b = false ∨
        q.ran k.idx b = 0 ∧ q.buf.restoreFlag b = true
      cases hf : q.buf.restoreFlag b with
      | true => exact .inr ⟨hok rfl h0 k hlog hi.symm b hb' hf, rfl⟩
      | false =>
        refine .inl ⟨?_, rfl⟩
        rcases (hfate k hlog b hb').first hi.symm with h1 | ⟨-, hset⟩
        · exact h1
        · rw [hf] at hset; cases hset
    · have htype : ((reactivate q.log q).toLaunch k).type = .guardian := if_neg hi
      unfold Pending
      rw [htype]
      exact (hfate k hlog b hb').after h0 (Nat.lt_of_le_of_ne hle hi)
  · have hone : q.ran k.idx b = 1 := by
      refine ran_passed h hempty hk (fun hre => ?_) hb
      refine absurd (List.mem_range.2 hb) (hproc ((reactivate q.log q).toLaunch k) ?_ rfl)
      rw [hqueue]; exact List.mem_map_of_mem hre
    exact ⟨fun _ => hone, fun _ => .inl hone, (absurd rfl ·)⟩

theorem ranInv_dropReactivate (h : RanInv q) (hs : q.stream = []) (hr : q.relaunch = []) :
    RanInv (dropReactivate q) := by
  have hempty := queue_eq_nil hs hr
  refine ⟨?_, nofun, fun k hk => .inr ?_⟩
  · rw [queue_dropReactivate hs]; exact nofun
  · rcases h.retired k hk with hlog | hdrop | hone
    · by_cases hre : k ∈ (reactivate q.log q).relaunch
      · exact .inl (List.mem_append_right _ hre)
      · exact .inr fun b hb => ran_passed h hempty hlog hre hb
    · exact .inl (List.mem_append_left _ hdrop)
    · exact .inr hone

theorem ranInv_relaunch (h : RanInv q) {k : Kernel} {ks : List Kernel} (hr : q.relaunch = k :: ks) :
    RanInv { q with stream := q.stream ++ [q.toLaunch k], relaunch := ks } := by
  have hqueue := queue_relaunch hr
  refine ⟨fun l hl b hb => ?_, fun e he b hb hproc => ?_, h.retired⟩
  · rw [hqueue] at hl
    exact (h.pending l hl b hb).congr rfl fun _ => rfl
  · unfold Processed at hproc
    rw [hqueue] at hproc
    exact (h.processed e he b hb hproc).congr rfl rfl fun _ h => h

theorem ranInv_retire (hsh : Shape q) (h : RanInv q) {k : Kernel} {ks : List Kernel}
    (hl : q.log = k :: ks) (hg : q.buf.globalExitFlag = false) (hr : q.relaunch = [])
    (hn : k ∉ q.stream.map Launch.kernel) : RanInv { q with log := ks } := by
  refine ⟨fun l hl b hb => ?_, fun e he b hb hproc => ?_, fun e he => ?_⟩
  · exact (h.pending l hl b hb).congr rfl fun _ => rfl
  · have hmem : e ∈ q.log := by rw [hl]; exact List.mem_cons_of_mem _ he
    exact (h.processed e hmem b hb hproc).congr rfl rfl fun _ h => h
  · rcases h.retired e he with hlog | hlater
    · rw [hl] at hlog
      rcases List.mem_cons.1 hlog with rfl | hlog
      · refine .inr (.inr fun b hb => ?_)
        have hproc : Processed q e b := by
          intro l' hl' hk
          rw [queue, hr] at hl'
          refine absurd (List.mem_map.2 ⟨l', ?_, hk⟩) hn
          simpa using hl'
        have hmem : e ∈ q.log := by rw [hl]; exact List.mem_cons_self
        exact (h.processed e hmem b hb hproc).before (.inl (hsh.running hg))
      · exact .inl hlog
    · exact .inr hlater

theorem ranInv_step (hsh : Shape q) (h : RanInv q) (hs : Step q act q') (hok : FlagsOk q act) :
    RanInv q' := by
  cases hs with
  | launch k hr hpos hnew => exact ranInv_launch hsh h hr hpos hnew
  | block b l rest buf body hs hb hrun => exact ranInv_block hsh h hs hb hrun
  | finish l rest hs hd => exact ranInv_finish h hs hd
  | deactivate => exact ranInv_deactivate h
  | reactivate hs hr => exact ranInv_reactivate h hok hs hr
  | dropReactivate hs hr => exact ranInv_dropReactivate h hs hr
  | relaunch k ks hr => exact ranInv_relaunch h hr
  | retire k ks hl hg hr hn => exact ranInv_retire hsh h hl hg hr hn

theorem ranInv_init : RanInv init := ⟨nofun, nofun, nofun⟩

theorem ranInv_reachable (hr : (lts.restrict FlagsOk).Reachable q) : RanInv q := by
  refine LTS.reachable_induction (I := RanInv) ?_ ?_ hr
  · rintro q rfl; exact ranInv_init
  · intro q act q' hr h hs
    exact ranInv_step (shape_reachable hr.of_restrict) h (step_cases hs.1) hs.2

/-! ## Without drop-resumes -/

def NoDrop (_ : CudaQueueLv2) (act : Act) : Prop := act ≠ .dropReactivate

instance (q : CudaQueueLv2) (act : Act) : Decidable (NoDrop q act) :=
  inferInstanceAs (Decidable (act ≠ .dropReactivate))

/-- A set restore flag belongs to a resume that has still to read it, or to a
block of the first preempted kernel that has not run. -/
def FlagInv (q : CudaQueueLv2) : Prop :=
  ∀ b, q.buf.restoreFlag b = true →
    (∃ l ∈ q.queue, l.type = .resume ∧ b ∈ l.todo) ∨
      ∃ k ∈ q.log, k.idx = q.buf.preemptIdx ∧ b < k.blockCnt ∧ q.ran k.idx b = 0

/-- A resume stands at the front. -/
theorem Shape.resume_front (h : Shape q) {l l' : Launch} {rest : List Launch}
    (hq : q.queue = l :: rest) (hl' : l' ∈ q.queue) (ht : l'.type = .resume) : l' = l := by
  rw [hq] at hl'
  rcases List.mem_cons.1 hl' with he | hl'
  · exact he
  · exact nomatch ((h.tail l' (by rw [hq]; exact hl')).1.symm.trans ht)

/-- A block other than `b` keeps its reason for being flagged. -/
theorem flag_other (hsh : Shape q) (h : FlagInv q) {b b' : Nat} {l : Launch} {rest : List Launch}
    {buf : PreemptBuffer} {ran : Nat → Nat → Nat} (hs : q.stream = l :: rest)
    (hp : q.buf.preemptIdx ≠ 0 → buf.preemptIdx = q.buf.preemptIdx)
    (hran : q.buf.preemptIdx ≠ 0 → ran = q.ran) (hne : l.type = .resume → b' ≠ b)
    (hflag : q.buf.restoreFlag b' = true) :
    (∃ l' ∈ (afterBlock l rest b buf ran q).queue, l'.type = .resume ∧ b' ∈ l'.todo) ∨
      ∃ k ∈ q.log, k.idx = buf.preemptIdx ∧ b' < k.blockCnt ∧ ran k.idx b' = 0 := by
  rcases h b' hflag with ⟨l', hl', ht, hmem⟩ | ⟨k, hk, hi, hlt, h0⟩
  · obtain rfl := hsh.resume_front (queue_of_stream hs) hl' ht
    refine .inl ⟨_, List.mem_cons_self, ht, ?_⟩
    exact (List.mem_erase_of_ne (hne ht)).2 hmem
  · have hpos := hsh.positive k (hsh.log.subset hk)
    have hp0 : q.buf.preemptIdx ≠ 0 := by omega
    exact .inr ⟨k, hk, hi.trans (hp hp0).symm, hlt, by rw [hran hp0]; exact h0⟩

theorem flagInv_block (hsh : Shape q) (hran : RanInv q) (h : FlagInv q) {b : Nat} {l : Launch}
    {rest : List Launch} {buf : PreemptBuffer} {body : Bool} (hs : q.stream = l :: rest)
    (hb : b ∈ l.todo) (hrun : BlockStep l.type l.kernel.idx b q.buf buf body) :
    FlagInv (afterBlock l rest b buf (if body then bump l.kernel.idx b q.ran else q.ran) q) := by
  have hl : l ∈ q.queue := by rw [queue_of_stream hs]; exact List.mem_cons_self
  intro b' hflag
  have hflag' : buf.restoreFlag b' = true := hflag
  cases hrun with
  | run buf hg ht hp hg' hclear hf =>
    have h0 := hsh.running hg
    refine flag_other hsh h hs (absurd h0 ·) (absurd h0 ·) (fun htype he => ?_) ?_
    · rw [he] at hflag'
      exact nomatch ((hclear hflag').1.symm.trans htype)
    · by_cases he : b' = b
      · rw [he] at hflag' ⊢; exact (hclear hflag').2
      · rw [← hf b' he]; exact hflag'
  | skip ht hclear =>
    refine flag_other hsh h hs (fun _ => rfl) (fun _ => rfl) (fun _ he => ?_) hflag'
    rw [he, hclear] at hflag'; cases hflag'
  | save buf hg hp ht hp' hg' hset hf =>
    by_cases he : b' = b
    · -- the block just saved
      have hlt := List.mem_range.1 ((hsh.todo l hl).subset hb)
      rw [he]
      exact .inr ⟨l.kernel, hsh.mem_log hl, hp'.symm, hlt, (hran.pending l hl b hb).not_run ht⟩
    · refine flag_other hsh h hs (fun h0 => ?_) (fun _ => rfl) (fun _ => he) ?_
      · rw [hp', hp.resolve_left h0]
      · rw [← hf b' he]; exact hflag'
  | pass buf hg h0 hp hp' hg' hf =>
    have htype : l.type ≠ .resume := fun ht => hp ((hsh.ahead h0 l hl).2 ht).symm
    refine flag_other hsh h hs (fun _ => hp') (fun _ => rfl) (absurd · htype) ?_
    have hguard : l.type = .guardian := by
      cases hty : l.type with
      | guardian => rfl
      | resume => exact absurd hty htype
    rw [← hf hguard]; exact hflag'

theorem flagInv_reactivate (h : FlagInv q) (hs : q.stream = []) (hr : q.relaunch = [])
    (hsh : Shape q) : FlagInv (reactivate q.log q) := by
  intro b hflag
  rcases h b hflag with ⟨l, hl, -⟩ | ⟨k, hk, hi, hlt, -⟩
  · rw [queue_eq_nil hs hr] at hl; cases hl
  · -- the flagged kernel is relaunched in its resume entry
    have hpos := hsh.positive k (hsh.log.subset hk)
    have hre := mem_relaunch.2 ⟨by omega, hk, Nat.le_of_eq hi.symm⟩
    refine .inl ⟨(reactivate q.log q).toLaunch k, ?_, if_pos hi.symm, List.mem_range.2 hlt⟩
    rw [queue_reactivate hs]; exact List.mem_map_of_mem hre

theorem flagInv_step (hsh : Shape q) (hran : RanInv q) (h : FlagInv q) (hs : Step q act q')
    (hok : NoDrop q act) : FlagInv q' := by
  cases hs with
  | launch k hr hpos hnew =>
    intro b hflag
    refine (h b hflag).imp (fun ⟨l, hl, hrest⟩ => ⟨l, ?_, hrest⟩) fun ⟨e, he, hrest⟩ => ?_
    · rw [queue_launch k hr]; exact List.mem_append_left _ hl
    · exact ⟨e, List.mem_append_left _ he, hrest⟩
  | block b l rest buf body hs hb hrun => exact flagInv_block hsh hran h hs hb hrun
  | finish l rest hs hd =>
    intro b hflag
    refine (h b hflag).imp_left fun ⟨l', hl', ht, hb⟩ => ?_
    obtain rfl := hsh.resume_front (queue_of_stream hs) hl' ht
    rw [hd] at hb; cases hb
  | deactivate => exact h
  | reactivate hs hr => exact flagInv_reactivate h hs hr hsh
  | dropReactivate hs hr => exact absurd rfl hok
  | relaunch k ks hr =>
    intro b hflag
    refine (h b hflag).imp_left fun hl => ?_
    rw [queue_relaunch hr]; exact hl
  | retire k ks hl hg hr hn =>
    intro b hflag
    refine (h b hflag).imp_right fun ⟨e, he, hi, _⟩ => ?_
    have hpos := hsh.positive e (hsh.log.subset he)
    rw [hi, hsh.running hg] at hpos; cases hpos

/-- Flags are never stale unless a drop-resume left them. -/
theorem flagsOk_of_flagInv (h : FlagInv q) (hs : Step q act q') :
    FlagsOk q act := by
  rintro rfl - k hk hi b - hflag
  cases hs with
  | reactivate hs hr =>
    rcases h b hflag with ⟨l, hl, -⟩ | ⟨k', hk', hi', -, h0⟩
    · rw [queue_eq_nil hs hr] at hl; cases hl
    · rw [hi, ← hi']; exact h0

theorem noDrop_invariant (hr : (lts.restrict NoDrop).Reachable q) : RanInv q ∧ FlagInv q := by
  refine LTS.reachable_induction (I := fun q => RanInv q ∧ FlagInv q) ?_ ?_ hr
  · rintro q rfl; exact ⟨ranInv_init, (fun _ hb => nomatch hb)⟩
  · rintro q act q' hr ⟨hran, hflag⟩ hs
    have hsh := shape_reachable hr.of_restrict
    have hstep := step_cases hs.1
    exact ⟨ranInv_step hsh hran hstep (flagsOk_of_flagInv hflag hstep),
      flagInv_step hsh hran hflag hstep hs.2⟩

/-! ## Exactly once -/

/-- The device is done with `k`. -/
def Done (q : CudaQueueLv2) (k : Kernel) : Prop :=
  k ∉ q.log ∨ q.buf.globalExitFlag = false ∧ k ∉ q.queue.map Launch.kernel

/-- No block of a kernel that was not dropped runs twice, and all of them ran
when the device is done with it. -/
structure Once (q : CudaQueueLv2) : Prop where
  atMost : ∀ k ∈ q.launched, k ∉ q.dropped → ∀ b, b < k.blockCnt → q.ran k.idx b ≤ 1
  exactly : ∀ k ∈ q.launched, k ∉ q.dropped → Done q k → ∀ b, b < k.blockCnt → q.ran k.idx b = 1

theorem Pending.atMost {l : Launch} {b : Nat} (h : Pending q l b) : q.ran l.kernel.idx b ≤ 1 := by
  unfold Pending at h
  split at h
  · omega
  · rcases h with ⟨h1, -⟩ | ⟨h0, -⟩ <;> omega

theorem Fate.atMost {k : Kernel} {b : Nat} (h : Fate q k b) : q.ran k.idx b ≤ 1 := by
  by_cases hbefore : q.buf.preemptIdx = 0 ∨ k.idx < q.buf.preemptIdx
  · exact Nat.le_of_eq (h.before hbefore)
  · by_cases hfirst : k.idx = q.buf.preemptIdx
    · rcases h.first hfirst with h1 | ⟨h0, -⟩ <;> omega
    · have h0 := h.after (by omega) (by omega)
      omega

theorem once_of_ranInv (hsh : Shape q) (h : RanInv q) : Once q := by
  refine ⟨fun k hk hd b hb => ?_, fun k hk hd hdone b hb => ?_⟩
  · rcases h.retired k hk with hlog | hdrop | hone
    · by_cases hproc : Processed q k b
      · exact (h.processed k hlog b hb hproc).atMost
      · unfold Processed at hproc
        push Not at hproc
        obtain ⟨l, hl, rfl, hmem⟩ := hproc
        exact (h.pending l hl b hmem).atMost
    · exact absurd hdrop hd
    · exact Nat.le_of_eq (hone b hb)
  · rcases h.retired k hk with hlog | hdrop | hone
    · obtain ⟨hg, hn⟩ := hdone.resolve_left (absurd hlog)
      refine (h.processed k hlog b hb fun l hl hk => ?_).before (.inl (hsh.running hg))
      exact absurd (List.mem_map.2 ⟨l, hl, hk⟩) hn
    · exact absurd hdrop hd
    · exact hone b hb

theorem runFront_eq {b : Nat} {l : Launch} {rest : List Launch} (hs : q.stream = l :: rest)
    (hb : b ∈ l.todo) :
    runFront b q = some (afterBlock l rest b (runBlock l.type l.kernel.idx b q.buf).1
      (if (runBlock l.type l.kernel.idx b q.buf).2 then bump l.kernel.idx b q.ran else q.ran) q) := by
  unfold runFront
  rw [hs]
  exact if_pos hb

/-- A flagged block of a resume runs, whatever it did before. -/
theorem runBlock_flagged {idx b : Nat} {buf : PreemptBuffer} (hg : buf.globalExitFlag = false)
    (hb : buf.restoreFlag b = true) : (runBlock .resume idx b buf).2 = true := by
  simp [runBlock, restoreExec, checkPreempt, hg, hb]

/-- The first kernel that `Reactivate` relaunches is the first preempted one. -/
theorem relaunch_head (hsh : Shape q) {k : Kernel} (hk : k ∈ q.log)
    (hi : k.idx = q.buf.preemptIdx) (h0 : q.buf.preemptIdx ≠ 0) :
    ∃ ks, (reactivate q.log q).relaunch = k :: ks := by
  have hmem := mem_relaunch.2 ⟨h0, hk, Nat.le_of_eq hi.symm⟩
  cases hr : (reactivate q.log q).relaunch with
  | nil => rw [hr] at hmem; cases hmem
  | cons e ks =>
    refine ⟨ks, ?_⟩
    have hhead : e ∈ (reactivate q.log q).relaunch := by rw [hr]; exact List.mem_cons_self
    have hle := (mem_relaunch.1 hhead).2.2
    obtain ⟨passed, hsplit⟩ := reactivate_split hsh
    have hsorted := hsh.log_sorted
    rw [hsplit, hr] at hsorted
    rw [hr] at hmem
    rcases List.mem_cons.1 hmem with rfl | hmem
    · rfl
    · have hlt := (List.pairwise_cons.1 (List.pairwise_append.1 hsorted).2.1).1 k hmem
      omega

/-- After a `Reactivate` that finds a stale flag the block runs again. -/
theorem stale_flag_runs (hr : lts.Reachable q) (hs : Step q act q') (hok : ¬ FlagsOk q act) :
    ∃ b q'', lts.Run q' [.relaunch, .block b] q'' ∧ ¬ Once q'' := by
  unfold FlagsOk at hok
  push Not at hok
  obtain ⟨rfl, h0, k, hk, hi, b, hb, hflag, hran⟩ := hok
  have hsh := shape_reachable hr
  cases hs with
  | reactivate hst hre =>
    obtain ⟨ks, hks⟩ := relaunch_head hsh hk hi h0
    let l := (reactivate q.log q).toLaunch k
    let q₁ : CudaQueueLv2 := { reactivate q.log q with stream := q.stream ++ [l], relaunch := ks }
    have htype : l.type = .resume := if_pos hi.symm
    have hfirst : lts.step (reactivate q.log q) .relaunch q₁ := by
      show relaunchNext _ = some q₁
      unfold relaunchNext
      rw [hks]; rfl
    have hstream : q₁.stream = [l] := by
      show q.stream ++ [l] = [l]
      rw [hst]; rfl
    have hbody : (runBlock l.type l.kernel.idx b q₁.buf).2 = true := by
      rw [htype]; exact runBlock_flagged rfl hflag
    have hfront := runFront_eq hstream (List.mem_range.2 hb)
    rw [hbody] at hfront
    refine ⟨b, _, .cons hfirst (.cons hfront (.nil _)), fun honce => ?_⟩
    have hmost := honce.atMost k (hsh.log.subset hk) (fun hd => (hsh.dropped k hd).2 hk) b hb
    have hmost' : bump k.idx b q.ran k.idx b ≤ 1 := hmost
    rw [bump_self] at hmost'
    omega

/-- **Every block runs exactly once** as long as no `Reactivate` finds a stale
flag, so in every run without drop-resumes; and a `Reactivate` that finds one
makes a block run twice. -/
theorem block_exactly_once (q : CudaQueueLv2) :
    ((lts.restrict FlagsOk).Reachable q → Once q) ∧
    ((lts.restrict NoDrop).Reachable q → Once q) ∧
    ∀ act q', lts.Reachable q → lts.step q act q' → ¬ FlagsOk q act →
      ∃ b q'', lts.Run q' [.relaunch, .block b] q'' ∧ ¬ Once q'' := by
  refine ⟨fun hr => ?_, fun hr => ?_, fun act q' hr hs hok => ?_⟩
  · exact once_of_ranInv (shape_reachable hr.of_restrict) (ranInv_reachable hr)
  · exact once_of_ranInv (shape_reachable hr.of_restrict) (noDrop_invariant hr).1
  · exact stale_flag_runs hr (step_cases hs) hok

/-- The kernel with this index and two blocks. -/
def twoBlocks (idx : Nat) : Kernel := ⟨idx, ⟨2, 1, 1, by decide⟩⟩

/-- A kernel is preempted between its blocks, and so is its resume. -/
def resumeTrace : List Act :=
  [.launch (twoBlocks 1), .block 0, .deactivate, .block 1, .finish, .reactivate, .relaunch,
   .block 0, .deactivate, .block 1, .finish, .reactivate, .relaunch, .block 1, .block 0, .finish]

/-- A kernel is preempted and dropped; the next one is preempted between its
blocks. -/
def staleTrace : List Act :=
  [.launch (twoBlocks 1), .deactivate, .block 0, .block 1, .finish, .dropReactivate,
   .launch (twoBlocks 2), .block 0, .deactivate, .block 1, .finish]

/-- Preempted twice, each block ran once; with the stale flag, block 0 will run twice. -/
theorem block_exactly_once_resume :
    (∃ q, (lts.restrict NoDrop).Reachable q ∧ q.launched = [twoBlocks 1] ∧ q.ran 1 0 = 1 ∧
      q.ran 1 1 = 1) ∧
    ∃ q q' b q'', lts.Run init staleTrace q ∧ lts.step q .reactivate q' ∧
      lts.Run q' [.relaunch, .block b] q'' ∧ ¬ Once q'' := by
  constructor
  · have htrace : ((LTS.exec (LTS.guarded (fun q act => FlagsOk q act ∧ NoDrop q act) step) init
        resumeTrace).map fun q => decide (q.launched = [twoBlocks 1] ∧ q.dropped = [] ∧
          q.buf.globalExitFlag = false ∧ q.stream = [] ∧ q.relaunch = [])) = some true := by decide
    obtain ⟨q, hq, he⟩ := Option.map_eq_some_iff.1 htrace
    obtain ⟨hla, hd, hg, hst, hre⟩ := of_decide_eq_true he
    have hr : (lts.restrict fun q act => FlagsOk q act ∧ NoDrop q act).Reachable q :=
      LTS.reachable_restrict_of_exec rfl hq
    have honce := (block_exactly_once q).1 (hr.restrict_mono fun _ _ h => h.1)
    have hone := honce.exactly (twoBlocks 1) (by rw [hla]; exact List.mem_cons_self)
      (by rw [hd]; exact List.not_mem_nil)
      (.inr ⟨hg, by rw [queue_eq_nil hst hre]; exact List.not_mem_nil⟩)
    exact ⟨q, hr.restrict_mono fun _ _ h => h.2, hla, hone 0 (by decide), hone 1 (by decide)⟩
  · have htrace : ((LTS.exec step init staleTrace).map fun q =>
        (decide (FlagsOk q .reactivate), (step q .reactivate).isSome)) = some (false, true) := by
      decide
    obtain ⟨q, hq, he⟩ := Option.map_eq_some_iff.1 htrace
    obtain ⟨hok, hsome⟩ := Prod.mk.inj he
    obtain ⟨q', hs⟩ := Option.isSome_iff_exists.1 hsome
    have hrun : lts.Run init staleTrace q := LTS.run_of_exec hq
    obtain ⟨b, q'', hrun', honce⟩ := (block_exactly_once q).2.2 .reactivate q'
      (LTS.reachable_of_exec rfl hq) hs (of_decide_eq_false hok)
    exact ⟨q, q', b, q'', hrun, hs, hrun', honce⟩

/-- **Counterexample**: block 0 of kernel 2, which is not dropped, runs twice. -/
theorem block_twice : ∃ q, lts.Run init (staleTrace ++ [Act.reactivate, Act.relaunch, Act.block 0]) q ∧
    twoBlocks 2 ∈ q.launched ∧ twoBlocks 2 ∉ q.dropped ∧ q.ran 2 0 = 2 := by
  have htrace : ((LTS.exec step init (staleTrace ++ [Act.reactivate, Act.relaunch, Act.block 0])).map
      fun q => (q.launched, q.dropped, q.ran 2 0)) =
        some ([twoBlocks 1, twoBlocks 2], [twoBlocks 1], 2) := by decide
  obtain ⟨q, hq, he⟩ := Option.map_eq_some_iff.1 htrace
  simp only [Prod.mk.injEq] at he
  obtain ⟨hla, hd, hran⟩ := he
  refine ⟨q, LTS.run_of_exec hq, ?_, ?_, hran⟩
  · rw [hla]; decide
  · rw [hd]; decide

end CudaQueueLv2
end Xsched.Cuda
