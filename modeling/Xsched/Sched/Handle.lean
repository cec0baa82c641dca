import Xsched.Sched.Representation

/-!
# The handles of XQueues across processes

An XQueue's handle is the address of the object with the pid shifted into the
top 16 bits of the word. The server keeps the XQueues of all processes in one
map by handle, and `XQueueDestroyEvent` asserts that the entry it finds
belongs to the process that sent it.

A pid has more than 16 bits. `kHandle_eq_iff` says what the shift leaves of
it: two handles are the same exactly when the addresses are and the pids agree
modulo 65536.

**Results.**
* `handles_unique_iff`: the XQueues of a set of processes have different
  handles, are never merged in the status and never trip the assertion,
  exactly when no two processes whose pids agree modulo 65536 have an XQueue
  at one address.
* `handles_collide`: pids 1 and 65537.
-/
namespace Xsched.Sched

/-- mirrors preempt/include/xsched/preempt/xqueue/xqueue.h:23-25 -/
def kHandle (this : BitVec 64) (pid : PID) : BitVec 64 := this ^^^ (BitVec.ofNat 64 pid <<< 48)

section
variable {a a' : BitVec 64} {p p' : PID}

theorem addr_bit (ha : a.toNat < 2 ^ 48) {i : Nat} (hi : 48 ≤ i) : a.getLsbD i = false :=
  Nat.testBit_lt_two_pow (Nat.lt_of_lt_of_le ha (Nat.pow_le_pow_right (by decide) hi))

/-- The lower 48 bits of a handle are those of the address. -/
theorem kHandle_low {i : Nat} (hi : i < 48) : (kHandle a p).getLsbD i = a.getLsbD i := by
  have h64 : i < 64 := by omega
  simp [kHandle, hi]

/-- The upper 16 bits are the lower 16 of the pid. -/
theorem kHandle_high (ha : a.toNat < 2 ^ 48) {i : Nat} (hi : i < 16) :
    (kHandle a p).getLsbD (48 + i) = p.testBit i := by
  have h64 : 48 + i < 64 := by omega
  have hi64 : i < 64 := by omega
  rw [kHandle, BitVec.getLsbD_xor, addr_bit ha (Nat.le_add_right 48 i), BitVec.getLsbD_shiftLeft,
    BitVec.getLsbD_ofNat]
  simp [h64, hi64]

theorem kHandle_eq_iff (ha : a.toNat < 2 ^ 48) (ha' : a'.toNat < 2 ^ 48) :
    kHandle a p = kHandle a' p' ↔ a = a' ∧ p % 65536 = p' % 65536 := by
  constructor
  · intro h
    constructor
    · apply BitVec.eq_of_getLsbD_eq
      intro i _
      by_cases hi : i < 48
      · rw [← kHandle_low (a := a) (p := p) hi, h, kHandle_low hi]
      · rw [addr_bit ha (by omega), addr_bit ha' (by omega)]
    · apply Nat.eq_of_testBit_eq
      intro i
      rw [show 65536 = 2 ^ 16 from rfl, Nat.testBit_mod_two_pow, Nat.testBit_mod_two_pow]
      by_cases hi : i < 16
      · rw [← kHandle_high ha hi, h, kHandle_high ha' hi]
      · simp [hi]
  · rintro ⟨rfl, hp⟩
    apply BitVec.eq_of_getLsbD_eq
    intro i hi
    by_cases hlow : i < 48
    · rw [kHandle_low hlow, kHandle_low hlow]
    · obtain ⟨j, rfl⟩ := Nat.exists_eq_add_of_le (Nat.le_of_not_lt hlow)
      have hj : j < 16 := by omega
      have hbit : ∀ n : Nat, n.testBit j = (n % 65536).testBit j := by
        intro n
        rw [show 65536 = 2 ^ 16 from rfl, Nat.testBit_mod_two_pow]
        simp [hj]
      rw [kHandle_high ha hj, kHandle_high ha hj, hbit p, hbit p', hp]

end

/-! ## The XQueues of a set of processes -/

section
variable (Used : PID → BitVec 64 → Prop)

/-- No two XQueues have one handle. -/
def UniqueHandles : Prop :=
  ∀ p a p' a', Used p a → Used p' a' → kHandle a p = kHandle a' p' → p = p' ∧ a = a'

/-- What a process sends about an XQueue is about one of its own. -/
def FromXQueues (s : LocalScheduler) (act : SchedAct) : Prop :=
  ∀ e, act = .recvEvent e → ∀ h, e.xqueue = some h → ∃ a, Used e.pid a ∧ h = (kHandle a e.pid).toNat

/-- In every run an entry belongs to the process whose XQueue has the handle,
and the assertion on `XQueueDestroyEvent` holds. -/
def NeverMerged : Prop :=
  ∀ s, (LocalScheduler.lts.restrict (FromXQueues Used)).Reachable s →
    (∀ h q p a, s.status.xqueueStatus.lookup h = some q → Used p a →
      h = (kHandle a p).toNat → q.pid = p) ∧
    ∀ now e tmp b, s.worker = .processing (e :: tmp) b → (s.update now e tmp b).isSome = true

end

section
variable {Used : PID → BitVec 64 → Prop} {s s' : LocalScheduler}

/-- Every entry, and every event under way, is about an XQueue of its process. -/
structure OwnXQueues (Used : PID → BitVec 64 → Prop) (s : LocalScheduler) : Prop where
  entry : ∀ h q, s.status.xqueueStatus.lookup h = some q →
    ∃ a, Used q.pid a ∧ h = (kHandle a q.pid).toNat
  event : ∀ e ∈ s.pending, ∀ h, e.xqueue = some h →
    ∃ a, Used e.pid a ∧ h = (kHandle a e.pid).toNat

theorem ownXQueues_step {act : SchedAct} (hi : OwnXQueues Used s)
    (hc : LocalScheduler.StepCases s act s') (hok : FromXQueues Used s act) :
    OwnXQueues Used s' := by
  refine ⟨?_, ?_⟩
  · intro h q' hq'
    rcases LocalScheduler.entry_step hc hq' with ⟨q, hq, hp, -⟩ | ⟨e, he, hx, hp, -⟩
    · rw [hp]; exact hi.entry h q hq
    · rw [hp]; exact hi.event e he h hx
  · intro e he h hx
    rcases LocalScheduler.pending_step hc he with he | rfl | hnone
    · exact hi.event e he h hx
    · exact hok e rfl h hx
    · rw [hnone] at hx; cases hx

theorem ownXQueues_reachable
    (hr : (LocalScheduler.lts.restrict (FromXQueues Used)).Reachable s) : OwnXQueues Used s := by
  refine LTS.reachable_induction (I := OwnXQueues Used) ?_ ?_ hr
  · rintro s ⟨type, rfl⟩
    refine ⟨?_, ?_⟩
    · intro h q hq; cases hq
    · intro e he; cases he
  · intro s act s' _ hi hs
    exact ownXQueues_step hi (LocalScheduler.step_cases hs.1) hs.2

/-- Only the assertion of `XQueueDestroyEvent` can fail. -/
theorem updateStatus_isSome {st : Status} {now : TimePoint} {e : Event}
    (h : ∀ epid handle q, e = .xQueueDestroy epid handle →
      st.xqueueStatus.lookup handle = some q → epid = q.pid) :
    (st.updateStatus now e).isSome = true := by
  cases e with
  | xQueueDestroy epid handle =>
    cases hq : st.xqueueStatus.lookup handle with
    | none => simp [Status.updateStatus, hq]
    | some q =>
      have hpid := h epid handle q rfl hq
      simp only [Status.updateStatus, hq, hpid, ne_eq, not_true_eq_false, if_false]
      split <;> rfl
  | processCreate | processDestroy | xQueueReady | xQueueIdle =>
    simp only [Status.updateStatus]
    split <;> rfl
  | _ => rfl

theorem update_isSome {now : TimePoint} {e : Event} {tmp : List Event} {b : Bool}
    (h : (s.status.updateStatus now e).isSome = true) :
    (s.update now e tmp b).isSome = true := by
  unfold LocalScheduler.update
  split
  · rfl
  · rw [Option.isSome_map]; exact h
  · rw [Option.isSome_map]; exact h

theorem unique_of_modulus (hlt : ∀ p a, Used p a → a.toNat < 2 ^ 48)
    (hmod : ∀ p p' a, Used p a → Used p' a → p ≠ p' → p % 65536 ≠ p' % 65536) :
    UniqueHandles Used := by
  intro p a p' a' hu hu' heq
  obtain ⟨rfl, hp⟩ := (kHandle_eq_iff (hlt p a hu) (hlt p' a' hu')).1 heq
  refine ⟨?_, rfl⟩
  by_contra hne
  exact hmod p p' a hu hu' hne hp

theorem neverMerged_of_unique (hu : UniqueHandles Used) : NeverMerged Used := by
  intro s hr
  have hown := ownXQueues_reachable hr
  have hentry : ∀ h q p a, s.status.xqueueStatus.lookup h = some q → Used p a →
      h = (kHandle a p).toNat → q.pid = p := by
    intro h q p a hq hpa hh
    obtain ⟨a', hpa', hh'⟩ := hown.entry h q hq
    exact (hu _ a' p a hpa' hpa (BitVec.eq_of_toNat_eq (hh'.symm.trans hh))).1
  refine ⟨hentry, ?_⟩
  intro now e tmp b hw
  apply update_isSome
  apply updateStatus_isSome
  rintro epid handle q rfl hq
  obtain ⟨a, hpa, hh⟩ := hown.event _ (LocalScheduler.head_pending hw) handle rfl
  exact (hentry handle q epid a hq hpa hh).symm

end

/-- **Handles are unique**, and so entries never merge, exactly when no two
processes whose pids agree modulo 65536 have an XQueue at one address. -/
theorem handles_unique_iff (Used : PID → BitVec 64 → Prop)
    (hlt : ∀ p a, Used p a → a.toNat < 2 ^ 48) :
    UniqueHandles Used ∧ NeverMerged Used ↔
      ∀ p p' a, Used p a → Used p' a → p ≠ p' → p % 65536 ≠ p' % 65536 := by
  constructor
  · rintro ⟨hu, -⟩ p p' a hpa hpa' hne hp
    exact hne (hu p a p' a hpa hpa' ((kHandle_eq_iff (hlt p a hpa) (hlt p' a hpa')).2 ⟨rfl, hp⟩)).1
  · intro hmod
    have hu := unique_of_modulus hlt hmod
    exact ⟨hu, neverMerged_of_unique hu⟩

/-- An address on the heap. -/
def heapAddr : BitVec 64 := 0x7f3a40001c20#64

/-- Two processes with small pids and an XQueue each at one address. -/
theorem handles_unique_small :
    UniqueHandles (fun p a => (p = 1200 ∨ p = 1201) ∧ a = heapAddr) ∧
      NeverMerged (fun p a => (p = 1200 ∨ p = 1201) ∧ a = heapAddr) := by
  refine (handles_unique_iff _ ?_).2 ?_
  · rintro p a ⟨-, rfl⟩; decide
  · rintro p p' a ⟨hp, -⟩ ⟨hp', -⟩ hne
    rcases hp with rfl | rfl <;> rcases hp' with rfl | rfl <;> first | decide | exact absurd rfl hne

/-- The XQueue of process 1 is known, the one of process 65537 is destroyed. -/
def collideTrace : List SchedAct :=
  [.run, .recvEvent (.xQueueReady 1 (kHandle heapAddr 1).toNat 5),
   .recvEvent (.xQueueDestroy 65537 (kHandle heapAddr 65537).toNat), .wake 7, .update 7,
   .sched []]

/-- The XQueues of these two processes. -/
def CollidingXQueues (p : PID) (a : BitVec 64) : Prop := (p = 1 ∨ p = 65537) ∧ a = heapAddr

theorem collideTrace_own (s : LocalScheduler) (act : SchedAct) (h : act ∈ collideTrace) :
    FromXQueues CollidingXQueues s act := by
  rintro e rfl handle hx
  simp only [collideTrace, List.mem_cons, SchedAct.recvEvent.injEq, reduceCtorEq, List.not_mem_nil,
    or_false, false_or] at h
  rcases h with rfl | rfl
  · cases hx; exact ⟨heapAddr, ⟨Or.inl rfl, rfl⟩, rfl⟩
  · cases hx; exact ⟨heapAddr, ⟨Or.inr rfl, rfl⟩, rfl⟩

/-- Whether the worker can process the event that is next. -/
def updates (s : LocalScheduler) : Bool :=
  match s.worker with
  | .processing (e :: tmp) b => (s.update 7 e tmp b).isSome
  | _ => true

/-- **Counterexample**: pids 1 and 65537 give an XQueue at one address one
handle, and the assertion on `XQueueDestroyEvent` fails. -/
theorem handles_collide :
    (¬ ∀ Used : PID → BitVec 64 → Prop, (∀ p a, Used p a → a.toNat < 2 ^ 48) →
      UniqueHandles Used) ∧
    ¬ ∀ Used : PID → BitVec 64 → Prop, (∀ p a, Used p a → a.toNat < 2 ^ 48) →
      NeverMerged Used := by
  have hlt : ∀ p a, CollidingXQueues p a → a.toNat < 2 ^ 48 := by
    rintro p a ⟨-, rfl⟩; decide
  constructor
  · intro h
    have hp := (h CollidingXQueues hlt 1 heapAddr 65537 heapAddr ⟨Or.inl rfl, rfl⟩
      ⟨Or.inr rfl, rfl⟩ (by decide)).1
    exact absurd hp (by decide)
  · intro h
    have htrace : ((LTS.exec (LTS.guarded (fun _ act => act ∈ collideTrace) LocalScheduler.step)
        (.init .kPolicyHighestPriorityFirst) collideTrace).map updates) = some false := by decide
    obtain ⟨s, hs, he⟩ := Option.map_eq_some_iff.1 htrace
    have hr : (LocalScheduler.lts.restrict fun _ act => act ∈ collideTrace).Reachable s :=
      LTS.reachable_restrict_of_exec ⟨_, rfl⟩ hs
    obtain ⟨-, hup⟩ := h CollidingXQueues hlt s (hr.restrict_mono collideTrace_own)
    unfold updates at he
    split at he
    · rename_i e tmp b hw
      rw [hup 7 e tmp b hw] at he
      cases he
    · cases he

end Xsched.Sched
