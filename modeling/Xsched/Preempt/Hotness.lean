import Xsched.Core.Stamps
import Xsched.Preempt.Prefetch

/-!
# Hot and cold regions

`last_touch` is to tell which of a queue's regions was touched last: suspensions
evict the coldest first, and resumes prefetch the hottest first. But both stamp
the regions they move as if these had been touched.

**The order.** The stamps keep to the order of the touches exactly as long as
a suspension evicts, with a region, all hotter ones of its queue, and a resume
prefetches none but the hottest of its queue (`Meets`).

**Results**
* `hotness_kept`: in every run whose calls meet this, the stamps of a queue's
  regions are in the order of its touches, the next call keeps them so if and
  only if it meets it too, and what is moved are the coldest, or the hottest.
* `hotness_reversed`: a region that was evicted for being the coldest is the
  hottest from then on.
-/
namespace Xsched.Preempt
namespace Admission
namespace Hotness

open Sched (XQueueHandle)
open Stamps (stampAt)

variable {B : Type} [DecidableEq B]

/-! ## Touches -/

/-- The manager, with a ghost: when the region at an address was touched last,
where `count` touches have been made. -/
structure State (B : Type) where
  registry : Registry B
  touched : Nat → Nat
  count : Nat

/-- The regions of nobody that a queue adopts, in the order of the iteration. -/
def adopts (backend : B) (context : Nat) (device : Int) (queue : XQueueHandle) (s : Registry B) :
    List Nat :=
  if queue = 0 then []
  else (s.regions.filter fun r => r.within backend context device && r.owner = 0).map (·.ptr)

/-- The addresses of the regions that a call touches, in the order in which it
does: those registered, touched and adopted. -/
def touches (s : Registry B) : Call B → List Nat
  | .registerRegion env api backend ptr size context _ _ =>
    if !usableBackend env (api backend).toXpuMemoryBackend ∨ ptr = 0 ∨ size = 0 ∨ context = 0 then []
    else [ptr]
  | .touchRegion env api backend context device ptr owner =>
    if !usableBackend env (api backend).toXpuMemoryBackend ∨ ptr = 0 ∨ owner = 0 then []
    else
      ((s.regions.find? fun r => r.within backend context device && r.covers ptr).map
        (·.ptr)).toList
  | .onQueueSuspend _ env api backend context device queue =>
    if admits env (api backend).toXpuMemoryBackend context then
      adopts backend context device queue s
    else []
  | .beforeQueueResume _ env api backend context device queue _ =>
    if admitsResume env (api backend) context queue then adopts backend context device queue s
    else []
  | _ => []

def State.call (s : State B) (c : Call B) : State B where
  registry := c.run s.registry
  touched := stampAt (touches s.registry c) s.count s.touched
  count := s.count + (touches s.registry c).length

def system (B : Type) [DecidableEq B] : LTS (State B) (Call B) where
  init s := s = ⟨.empty, fun _ => 0, 0⟩
  step s c s' := c.Iterates s.registry ∧ s' = s.call c

/-! ## What is to hold -/

/-- The regions are of one queue, backend, context and device. -/
def SameQueue (a b : MemoryRegion B) : Prop :=
  a.owner = b.owner ∧ a.owner ≠ 0 ∧ a.backend = b.backend ∧ a.context = b.context ∧
    a.device = b.device

/-- The stamps of a queue's regions are in the order of its touches. -/
def Ordered (s : State B) : Prop :=
  ∀ a ∈ s.registry.regions, ∀ b ∈ s.registry.regions, SameQueue a b →
    s.touched b.ptr < s.touched a.ptr → b.lastTouch < a.lastTouch

/-- The clock has room for all the stamps of a call. -/
def Room (s : State B) : Prop :=
  s.registry.clock.toNat + 2 * s.registry.regions.length + 1 < 2 ^ 64

/-- With a region that a suspension evicts go all hotter ones of its queue, and
a resume brings none but the hottest of its queue. -/
def Meets (s : State B) : Call B → Prop
  | .onQueueSuspend sort env api backend context device queue =>
    admits env (api backend).toXpuMemoryBackend context = true →
      let t := s.registry.adopted backend context device queue
      let gone := t.evicts sort env (fun b => (api b).toXpuMemoryBackend) backend context device
      ∀ b ∈ gone, ∀ a ∈ t.regions, SameQueue a b → b.lastTouch < a.lastTouch →
        a.ptr ∈ gone.map (·.ptr)
  | .beforeQueueResume sort env api backend context device queue handles =>
    admitsResume env (api backend) context queue = true →
      let t := s.registry.joined backend context device queue
      let back := t.prefetches sort env api backend context device queue handles
      ∀ b ∈ back, ∀ a ∈ t.regions, SameQueue a b → ¬ b.lastTouch < a.lastTouch
  | _ => True

/-- What holds of the stamps along a run; `now` is the reading of the clock. -/
structure Hot (regions : List (MemoryRegion B)) (now : Nat) (touched : Nat → Nat) (count : Nat) :
    Prop where
  stamp : ∀ r ∈ regions, r.lastTouch.toNat ≤ now
  touch : ∀ r ∈ regions, touched r.ptr ≤ count
  apart : ∀ a ∈ regions, ∀ b ∈ regions, touched a.ptr = touched b.ptr → a.ptr = b.ptr
  ordered : ∀ a ∈ regions, ∀ b ∈ regions, SameQueue a b → touched b.ptr < touched a.ptr →
    b.lastTouch.toNat < a.lastTouch.toNat

/-! ## Stamping -/

/-- The regions at `l` are stamped, one after the other, and any other keeps its
stamp and its queue, or has none. -/
structure Stamped (l : List Nat) (regions regions' : List (MemoryRegion B)) (now : Nat) : Prop where
  stamped : ∀ r' ∈ regions', r'.ptr ∈ l → r'.lastTouch.toNat = now + l.idxOf r'.ptr + 1
  kept : ∀ r' ∈ regions', r'.ptr ∉ l → ∃ r ∈ regions, r.ptr = r'.ptr ∧ r.lastTouch = r'.lastTouch ∧
    ∀ a', SameQueue r' a' → SameQueue r a'

variable {regions regions' : List (MemoryRegion B)} {l : List Nat} {now count : Nat}
  {touched : Nat → Nat}

omit [DecidableEq B] in
theorem SameQueue.symm {a b : MemoryRegion B} (h : SameQueue a b) : SameQueue b a :=
  ⟨h.1.symm, fun h0 => h.2.1 (h.1.trans h0), h.2.2.1.symm, h.2.2.2.1.symm, h.2.2.2.2.symm⟩

omit [DecidableEq B] in
/-- Regions that are touched get later stamps, in the order of the touches. -/
theorem Hot.after_touches (h : Hot regions now touched count) (hs : Stamped l regions regions' now) :
    Hot regions' (now + l.length) (stampAt l count touched) (count + l.length) := by
  have htouch : ∀ r' ∈ regions', r'.ptr ∉ l → touched r'.ptr ≤ count := by
    intro r' hr' hout
    obtain ⟨r, hr, hptr, -⟩ := hs.kept r' hr' hout
    exact hptr ▸ h.touch r hr
  have hstamp : ∀ r' ∈ regions', r'.ptr ∉ l → r'.lastTouch.toNat ≤ now := by
    intro r' hr' hout
    obtain ⟨r, hr, -, hlast, -⟩ := hs.kept r' hr' hout
    exact hlast ▸ h.stamp r hr
  refine ⟨fun r' hr' => ?_, fun r' hr' => Stamps.stampAt_le (htouch r' hr'),
    fun a ha b hb => ?_, fun a ha b hb hsame => ?_⟩
  · by_cases hin : r'.ptr ∈ l
    · have := hs.stamped r' hr' hin
      have := List.idxOf_lt_length_of_mem hin
      omega
    · have := hstamp r' hr' hin
      omega
  · refine Stamps.stampAt_inj (htouch a ha) (htouch b hb) fun hal hbl heq => ?_
    obtain ⟨a₀, ha₀, hptra, -⟩ := hs.kept a ha hal
    obtain ⟨b₀, hb₀, hptrb, -⟩ := hs.kept b hb hbl
    rw [← hptra, ← hptrb] at heq ⊢
    exact h.apart a₀ ha₀ b₀ hb₀ heq
  · refine Stamps.stampAt_lt (htouch a ha) (hstamp b hb) (hs.stamped a ha) (hs.stamped b hb)
      fun hal hbl hlt => ?_
    obtain ⟨a₀, ha₀, hptra, hlasta, hsamea⟩ := hs.kept a ha hal
    obtain ⟨b₀, hb₀, hptrb, hlastb, hsameb⟩ := hs.kept b hb hbl
    rw [← hptra, ← hptrb] at hlt
    rw [← hlasta, ← hlastb]
    exact h.ordered a₀ ha₀ b₀ hb₀ (hsameb a₀ (hsamea b hsame).symm).symm hlt

/-- The regions at `l` are moved: stamped as if touched, and no region changes
its queue. -/
structure Restamped (l : List Nat) (regions regions' : List (MemoryRegion B)) (now : Nat) : Prop
    extends Stamped l regions regions' now where
  moved : ∀ r' ∈ regions', ∃ r ∈ regions, Moved r r'
  still : ∀ r ∈ regions, ∃ r' ∈ regions', Moved r r'

omit [DecidableEq B] in
theorem sameQueue_moved {a b a' b' : MemoryRegion B} (ha : Moved a a') (hb : Moved b b') :
    SameQueue a' b' ↔ SameQueue a b := by
  rw [ha, hb]
  rfl

/-- With a region of `l`, all hotter ones of its queue are in `l`, behind it. -/
def Upward (l : List Nat) (regions : List (MemoryRegion B)) : Prop :=
  ∀ a ∈ regions, ∀ b ∈ regions, SameQueue a b → b.lastTouch.toNat < a.lastTouch.toNat →
    b.ptr ∈ l → a.ptr ∈ l ∧ l.idxOf b.ptr < l.idxOf a.ptr

omit [DecidableEq B] in
/-- Where the order of the stamps and that of the touches agree, they decide
each other. -/
theorem Hot.lt_iff (h : Hot regions now touched count) (hkeys : (regions.map (·.ptr)).Nodup)
    {a b : MemoryRegion B} (ha : a ∈ regions) (hb : b ∈ regions) (hsame : SameQueue a b) :
    touched b.ptr < touched a.ptr ↔ b.lastTouch.toNat < a.lastTouch.toNat := by
  refine ⟨h.ordered a ha b hb hsame, fun hlt => ?_⟩
  rcases Nat.lt_trichotomy (touched b.ptr) (touched a.ptr) with hlt' | heq | hgt
  · exact hlt'
  · have := List.inj_on_of_nodup_map hkeys hb ha (h.apart b hb a ha heq)
    subst this
    omega
  · have := h.ordered b hb a ha hsame.symm hgt
    omega

/-- The stamp of the region at an address. -/
def stampOf (regions : List (MemoryRegion B)) (ptr : Nat) : Nat :=
  ((regions.find? (·.ptr = ptr)).map (·.lastTouch.toNat)).getD 0

omit [DecidableEq B] in
theorem stampOf_ptr (hkeys : (regions.map (·.ptr)).Nodup) {r : MemoryRegion B} (hr : r ∈ regions) :
    stampOf regions r.ptr = r.lastTouch.toNat := by
  unfold stampOf
  cases hfind : regions.find? (·.ptr = r.ptr) with
  | none => exact absurd (List.find?_eq_none.1 hfind r hr) (by simp)
  | some v =>
    have hptr : v.ptr = r.ptr := by simpa using List.find?_some hfind
    rw [List.inj_on_of_nodup_map hkeys (List.mem_of_find?_eq_some hfind) hr hptr]
    rfl

omit [DecidableEq B] in
theorem Restamped.stampAt (hkeys : (regions.map (·.ptr)).Nodup)
    (hs : Restamped l regions regions' now) {r r' : MemoryRegion B} (hr : r ∈ regions)
    (hr' : r' ∈ regions') (hm : Moved r r') :
    r'.lastTouch.toNat = stampAt l now (stampOf regions) r.ptr := by
  by_cases hin : r.ptr ∈ l
  · rw [Stamps.stampAt_of_mem hin, hs.stamped r' hr' (hm.ptr ▸ hin), hm.ptr]
  · obtain ⟨r₀, hr₀, hptr, hlast, -⟩ := hs.kept r' hr' (hm.ptr ▸ hin)
    rw [List.inj_on_of_nodup_map hkeys hr₀ hr (hptr.trans hm.ptr)] at hlast
    rw [Stamps.stampAt_of_not_mem hin, stampOf_ptr hkeys hr, hlast]

omit [DecidableEq B] in
/-- Moving regions keeps the order if and only if all hotter ones are moved
behind them. -/
theorem Hot.moved_iff (h : Hot regions now touched count) (hkeys : (regions.map (·.ptr)).Nodup)
    (hs : Restamped l regions regions' now) :
    (∀ a ∈ regions', ∀ b ∈ regions', SameQueue a b → touched b.ptr < touched a.ptr →
      b.lastTouch.toNat < a.lastTouch.toNat) ↔ Upward l regions := by
  have hle : ∀ r ∈ regions, stampOf regions r.ptr ≤ now := fun r hr =>
    (stampOf_ptr hkeys hr).trans_le (h.stamp r hr)
  constructor
  · intro hord a ha b hb hsame hlt
    obtain ⟨a', ha', hma⟩ := hs.still a ha
    obtain ⟨b', hb', hmb⟩ := hs.still b hb
    have hlt' := hord a' ha' b' hb' ((sameQueue_moved hma hmb).2 hsame)
      (by rw [hma.ptr, hmb.ptr]; exact (h.lt_iff hkeys ha hb hsame).2 hlt)
    rw [hs.stampAt hkeys ha ha' hma, hs.stampAt hkeys hb hb' hmb] at hlt'
    rw [← stampOf_ptr hkeys ha, ← stampOf_ptr hkeys hb] at hlt
    exact (Stamps.stampAt_lt_iff_up (hle a ha) hlt).1 hlt'
  · intro hup a' ha' b' hb' hsame hlt
    obtain ⟨a, ha, hma⟩ := hs.moved a' ha'
    obtain ⟨b, hb, hmb⟩ := hs.moved b' hb'
    have hsame := (sameQueue_moved hma hmb).1 hsame
    rw [hma.ptr, hmb.ptr] at hlt
    have hlt := (h.lt_iff hkeys ha hb hsame).1 hlt
    have hup := hup a ha b hb hsame hlt
    rw [← stampOf_ptr hkeys ha, ← stampOf_ptr hkeys hb] at hlt
    rw [hs.stampAt hkeys ha ha' hma, hs.stampAt hkeys hb hb' hmb]
    exact (Stamps.stampAt_lt_iff_up (hle a ha) hlt).2 hup

omit [DecidableEq B] in
theorem Hot.after_moves (h : Hot regions now touched count) (hkeys : (regions.map (·.ptr)).Nodup)
    (hs : Restamped l regions regions' now) (hup : Upward l regions) :
    Hot regions' (now + l.length) touched count := by
  refine ⟨fun r' hr' => ?_, fun r' hr' => ?_, fun a' ha' b' hb' => ?_, (h.moved_iff hkeys hs).2 hup⟩
  · obtain ⟨r, hr, hm⟩ := hs.moved r' hr'
    rw [hs.stampAt hkeys hr hr' hm]
    exact Stamps.stampAt_le fun _ => (stampOf_ptr hkeys hr).trans_le (h.stamp r hr)
  · obtain ⟨r, hr, hm⟩ := hs.moved r' hr'
    rw [hm.ptr]
    exact h.touch r hr
  · obtain ⟨a, ha, hma⟩ := hs.moved a' ha'
    obtain ⟨b, hb, hmb⟩ := hs.moved b' hb'
    rw [hma.ptr, hmb.ptr]
    exact h.apart a ha b hb

/-! ## What the calls stamp -/

omit [DecidableEq B] in
theorem Hot.mono (h : Hot regions now touched count) {now' : Nat} (hle : now ≤ now') :
    Hot regions now' touched count :=
  ⟨fun r hr => (h.stamp r hr).trans hle, h.touch, h.apart, h.ordered⟩

omit [DecidableEq B] in
/-- Nothing is touched, and there are no new regions. -/
theorem stamped_nil (hkept : ∀ r' ∈ regions', ∃ r ∈ regions, r.ptr = r'.ptr ∧
    r.lastTouch = r'.lastTouch ∧ ∀ a', SameQueue r' a' → SameQueue r a') :
    Stamped [] regions regions' now :=
  ⟨fun _ _ hin => absurd hin List.not_mem_nil, fun r' hr' _ => hkept r' hr'⟩

omit [DecidableEq B] in
theorem stamped_of_subset (h : regions' ⊆ regions) : Stamped [] regions regions' now :=
  stamped_nil fun r' hr' => ⟨r', h hr', rfl, rfl, fun _ hsame => hsame⟩

omit [DecidableEq B] in
theorem adoptRegions_stamped (p : MemoryRegion B → Bool) (queue : XQueueHandle)
    {rs : List (MemoryRegion B)} (hkeys : (rs.map (·.ptr)).Nodup) {clock : UInt64}
    (hroom : clock.toNat + rs.length < 2 ^ 64) :
    let l := (rs.filter fun r => p r && r.owner = 0).map (·.ptr)
    (adoptRegions p queue rs clock).2.toNat = clock.toNat + l.length ∧
    ∀ r' ∈ (adoptRegions p queue rs clock).1,
      (r'.ptr ∈ l → r'.lastTouch.toNat = clock.toNat + l.idxOf r'.ptr + 1) ∧
      (r'.ptr ∉ l → r' ∈ rs) := by
  induction rs generalizing clock with
  | nil => exact ⟨rfl, fun r' hr' => absurd hr' List.not_mem_nil⟩
  | cons r rs ih =>
    rw [List.map_cons, List.nodup_cons] at hkeys
    rw [List.length_cons] at hroom
    rw [adoptRegions, List.filter_cons]
    split
    · have hclock : (clock + 1).toNat = clock.toNat + 1 := by
        rw [UInt64.toNat_add, UInt64.toNat_one]
        omega
      have hroom' : (clock + 1).toNat + rs.length < 2 ^ 64 := by omega
      obtain ⟨hend, hall⟩ := ih hkeys.2 hroom'
      refine ⟨?_, fun r' hr' => ?_⟩
      · rw [List.map_cons, List.length_cons, hend, hclock]
        omega
      rw [List.map_cons]
      rcases List.mem_cons.1 hr' with rfl | hr'
      · refine ⟨fun _ => ?_, fun hout => absurd List.mem_cons_self hout⟩
        rw [List.idxOf_cons_self]
        exact hclock
      · have hne : r.ptr ≠ r'.ptr := by
          intro he
          have hptrs := adoptRegions_ptr p queue rs (clock + 1)
          exact hkeys.1 (he ▸ hptrs ▸ List.mem_map_of_mem hr')
        refine ⟨fun hin => ?_, fun hout => ?_⟩
        · have hin := (List.mem_cons.1 hin).resolve_left (Ne.symm hne)
          rw [List.idxOf_cons_ne _ hne, (hall r' hr').1 hin, hclock]
          omega
        · exact List.mem_cons_of_mem _ ((hall r' hr').2 fun h => hout (List.mem_cons_of_mem _ h))
    · have hroom' : clock.toNat + rs.length < 2 ^ 64 := by omega
      obtain ⟨hend, hall⟩ := ih hkeys.2 hroom'
      refine ⟨hend, fun r' hr' => ?_⟩
      rcases List.mem_cons.1 hr' with rfl | hr'
      · refine ⟨fun hin => ?_, fun _ => List.mem_cons_self⟩
        obtain ⟨v, hv, hptr⟩ := List.mem_map.1 hin
        exact absurd (hptr ▸ List.mem_map_of_mem (List.mem_filter.1 hv).1) hkeys.1
      · exact ⟨(hall r' hr').1, fun hout => List.mem_cons_of_mem _ ((hall r' hr').2 hout)⟩

/-- An adoption touches the regions of nobody. -/
theorem adopt_stamped (backend : B) (context : Nat) (device : Int) (queue : XQueueHandle)
    {s : Registry B} (hroom : s.clock.toNat + s.regions.length < 2 ^ 64) :
    Stamped (adopts backend context device queue s) s.regions
      (s.adoptContextRegions backend context device queue).regions s.clock.toNat ∧
    (s.adoptContextRegions backend context device queue).clock.toNat =
      s.clock.toNat + (adopts backend context device queue s).length := by
  unfold adopts Registry.adoptContextRegions
  split
  · exact ⟨stamped_of_subset fun _ hr => hr, rfl⟩
  · obtain ⟨hend, hall⟩ := adoptRegions_stamped (·.within backend context device) queue s.keys hroom
    exact ⟨⟨fun r' hr' => (hall r' hr').1, fun r' hr' hout =>
      ⟨r', (hall r' hr').2 hout, rfl, rfl, fun _ h => h⟩⟩, hend⟩

/-- One region is moved. -/
structure Moves (op : Nat → Registry B → Registry B) (resident : Bool) : Prop where
  regions : ∀ ptr s, (op ptr s).regions = s.regions.map fun r =>
    if r.ptr = ptr then { r with resident, lastTouch := s.clock + 1 } else r
  clock : ∀ ptr s, (op ptr s).clock = s.clock + 1

omit [DecidableEq B] in
theorem moves_evict : Moves (B := B) Registry.evict false := ⟨fun _ _ => rfl, fun _ _ => rfl⟩

omit [DecidableEq B] in
theorem moves_prefetch : Moves (B := B) Registry.prefetch true := ⟨fun _ _ => rfl, fun _ _ => rfl⟩

omit [DecidableEq B] in
/-- A loop that moves regions stamps them in its order. -/
theorem Moves.restamped {op : Nat → Registry B → Registry B} {resident : Bool}
    (hop : Moves op resident) {moved : List (MemoryRegion B)} {t : Registry B}
    (hkeys : (moved.map (·.ptr)).Nodup) (hroom : t.clock.toNat + moved.length < 2 ^ 64) :
    Restamped (moved.map (·.ptr)) t.regions (moved.foldl (fun s r => op r.ptr s) t).regions
      t.clock.toNat ∧
    (moved.foldl (fun s r => op r.ptr s) t).clock.toNat = t.clock.toNat + moved.length := by
  induction moved generalizing t with
  | nil =>
    exact ⟨⟨stamped_of_subset fun _ hr => hr, fun r hr => ⟨r, hr, rfl⟩, fun r hr => ⟨r, hr, rfl⟩⟩,
      rfl⟩
  | cons v moved ih =>
    rw [List.map_cons, List.nodup_cons] at hkeys
    rw [List.length_cons] at hroom
    have hclock : (op v.ptr t).clock.toNat = t.clock.toNat + 1 := by
      rw [hop.clock, UInt64.toNat_add, UInt64.toNat_one]
      omega
    have hmem : ∀ r₁ ∈ (op v.ptr t).regions, ∃ r ∈ t.regions, Moved r r₁ ∧
        (r₁.ptr = v.ptr → r₁.lastTouch = t.clock + 1) ∧ (r₁.ptr ≠ v.ptr → r₁ = r) := by
      intro r₁ hr₁
      rw [hop.regions] at hr₁
      obtain ⟨r, hr, rfl⟩ := List.mem_map.1 hr₁
      refine ⟨r, hr, ?_⟩
      split
      · next he => exact ⟨rfl, fun _ => rfl, fun hne => absurd he hne⟩
      · next hne => exact ⟨rfl, fun he => absurd he hne, fun _ => rfl⟩
    obtain ⟨hs, hend⟩ := ih (t := op v.ptr t) hkeys.2 (by omega)
    rw [hclock] at hs hend
    refine ⟨⟨⟨fun r' hr' hin => ?_, fun r' hr' hout => ?_⟩, fun r' hr' => ?_, fun r hr => ?_⟩, ?_⟩
    · rw [List.map_cons] at hin ⊢
      by_cases he : v.ptr = r'.ptr
      · have hout : r'.ptr ∉ moved.map (·.ptr) := he ▸ hkeys.1
        obtain ⟨r₁, hr₁, hptr, hlast, -⟩ := hs.kept r' hr' hout
        obtain ⟨r, -, -, hstamp, -⟩ := hmem r₁ hr₁
        rw [← he, List.idxOf_cons_self, ← hlast, hstamp (hptr.trans he.symm), ← hop.clock v.ptr]
        exact hclock
      · rw [List.idxOf_cons_ne _ he, hs.stamped r' hr' ((List.mem_cons.1 hin).resolve_left (Ne.symm he))]
        omega
    · rw [List.map_cons, List.mem_cons, not_or] at hout
      obtain ⟨r₁, hr₁, hptr, hlast, hsame⟩ := hs.kept r' hr' hout.2
      obtain ⟨r, hr, -, -, hkept⟩ := hmem r₁ hr₁
      have heq : r₁ = r := hkept fun he => hout.1 (hptr.symm.trans he)
      exact ⟨r₁, heq ▸ hr, hptr, hlast, hsame⟩
    · obtain ⟨r₁, hr₁, hm₁⟩ := hs.moved r' hr'
      obtain ⟨r, hr, hm, -⟩ := hmem r₁ hr₁
      exact ⟨r, hr, by rw [Moved, hm₁, hm]⟩
    · have hr₁ : (if r.ptr = v.ptr then { r with resident, lastTouch := t.clock + 1 } else r) ∈
          (op v.ptr t).regions := by
        rw [hop.regions]
        exact List.mem_map_of_mem hr
      obtain ⟨r', hr', hm⟩ := hs.still _ hr₁
      refine ⟨r', hr', ?_⟩
      rw [Moved, hm]
      split
      · rfl
      · rfl
    · rw [List.foldl_cons, hend, List.length_cons]
      omega

/-! ## The order of what is moved -/

/-- The hottest candidate comes first. -/
def candidateKey (r : MemoryRegion B) : ℕᵒᵈ ×ₗ ℕᵒᵈ :=
  toLex (OrderDual.toDual r.lastTouch.toNat, OrderDual.toDual r.size.toNat)

omit [DecidableEq B] in
theorem candidateBefore_iff (a b : MemoryRegion B) :
    candidateBefore a b = true ↔ candidateKey a < candidateKey b := by
  unfold candidateBefore candidateKey
  simp only [Prod.Lex.toLex_lt_toLex, OrderDual.toDual_lt_toDual]
  split
  · next htouch =>
    have htouch : ¬ a.lastTouch.toNat = b.lastTouch.toNat := fun h => htouch (UInt64.toNat_inj.1 h)
    simp [htouch, UInt64.lt_iff_toNat_lt]
  · next htouch =>
    have htouch : a.lastTouch = b.lastTouch := Decidable.not_not.1 htouch
    simp [htouch, UInt64.lt_iff_toNat_lt]

omit [DecidableEq B] in
/-- The comparison is one that `std::sort` may be called with. -/
theorem candidateBefore_strictWeak :
    IsStrictWeakOrder (MemoryRegion B) fun a b => candidateBefore a b = true := by
  have hstrict : IsStrictOrder (MemoryRegion B) fun a b => candidateBefore a b = true := by
    refine { irrefl := fun a h => ?_, trans := fun a b c h₁ h₂ => ?_ }
    · exact lt_irrefl _ ((candidateBefore_iff a a).1 h)
    · rw [candidateBefore_iff] at h₁ h₂ ⊢
      exact h₁.trans h₂
  refine { hstrict with incomp_trans := fun a b c h₁ h₂ => ?_ }
  simp only [candidateBefore_iff, not_lt] at h₁ h₂ ⊢
  exact ⟨h₂.1.trans h₁.1, h₁.2.trans h₂.2⟩

omit [DecidableEq B] in
/-- Candidates come in the order of falling stamps. -/
theorem sort_candidates (sort : StdSort (MemoryRegion B)) (rs : List (MemoryRegion B)) :
    (sort.sort candidateBefore rs).Pairwise fun a b => b.lastTouch.toNat ≤ a.lastTouch.toNat := by
  refine (sort.sorted candidateBefore rs candidateBefore_strictWeak).imp fun {a b} h => ?_
  by_contra hlt
  rw [Nat.not_le] at hlt
  have hbefore := (candidateBefore_iff b a).2 (Prod.Lex.toLex_lt_toLex.2 (.inl hlt))
  rw [h] at hbefore
  cases hbefore

omit [DecidableEq B] in
/-- Victims of one queue come in the order of rising stamps. -/
theorem sort_victims (sort : StdSort (MemoryRegion B)) (t : Registry B)
    (rs : List (MemoryRegion B)) :
    (sort.sort t.victimBefore rs).Pairwise fun a b =>
      SameQueue a b → a.lastTouch.toNat ≤ b.lastTouch.toNat := by
  refine (sort_coldness sort t rs).imp fun {a b} hle hsame => ?_
  unfold Registry.coldness Registry.ownerActive Registry.ownerPriority at hle
  rw [hsame.1] at hle
  simp only [Prod.Lex.toLex_le_toLex, lt_self_iff_false, false_or, true_and] at hle
  rcases hle with hlt | ⟨heq, -⟩
  · exact hlt.le
  · exact heq.le

variable {t : Registry B} {sort : StdSort (MemoryRegion B)} {env : Env} {backend : B}
  {context : Nat} {device : Int} {queue : XQueueHandle} {handles : List XQueueHandle}

omit [DecidableEq B] in
/-- One of two moved regions is moved behind the other. -/
theorem split_of_mem {moved : List (MemoryRegion B)} {R : MemoryRegion B → MemoryRegion B → Prop}
    (hsorted : moved.Pairwise R) {a b : MemoryRegion B} (ha : a ∈ moved) (hb : b ∈ moved)
    (hne : a ≠ b) (hnot : ¬ R a b) :
    ∃ pre post, moved = pre ++ b :: post ∧ a ∈ post := by
  obtain ⟨pre, post, rfl⟩ := List.append_of_mem hb
  refine ⟨pre, post, rfl, ?_⟩
  rcases List.mem_append.1 ha with hpre | hpost
  · exact absurd ((List.pairwise_append.1 hsorted).2.2 a hpre b List.mem_cons_self) hnot
  · exact (List.mem_cons.1 hpost).resolve_left hne

/-- Victims are moved from the coldest on, so it is enough that the hotter ones
are moved. -/
theorem upward_evicts_iff {api : B → XpuMemoryBackend} :
    let gone := t.evicts sort env api backend context device
    Upward (gone.map (·.ptr)) t.regions ↔
      ∀ b ∈ gone, ∀ a ∈ t.regions, SameQueue a b → b.lastTouch < a.lastTouch →
        a.ptr ∈ gone.map (·.ptr) := by
  intro gone
  have hsub := evicts_sublist sort env api backend context device t
  obtain ⟨hmem, hkeys⟩ := moved_of_sublist sort hsub
  have hsorted := (sort_victims sort t _).sublist hsub
  constructor
  · intro hup b hb a ha hsame hlt
    exact (hup a ha b (hmem b hb).1 hsame (UInt64.lt_iff_toNat_lt.1 hlt) (List.mem_map_of_mem hb)).1
  · intro hmeets a ha b hb hsame hlt hin
    have hregion : ∀ r ∈ t.regions, r.ptr ∈ gone.map (·.ptr) → r ∈ gone := by
      intro r hr hin
      obtain ⟨v, hv, hptr⟩ := List.mem_map.1 hin
      rwa [← List.inj_on_of_nodup_map t.keys (hmem v hv).1 hr hptr]
    have hb := hregion b hb hin
    have hain := hmeets b hb a ha hsame (UInt64.lt_iff_toNat_lt.2 hlt)
    refine ⟨hain, ?_⟩
    have hne : a ≠ b := by
      rintro rfl
      omega
    obtain ⟨pre, post, hsplit, hpost⟩ := split_of_mem hsorted (hregion a ha hain) hb hne
      fun h => by have := h hsame; omega
    change gone = _ at hsplit
    change (gone.map (·.ptr)).Nodup at hkeys
    rw [hsplit, List.map_append, List.map_cons] at hkeys ⊢
    exact Stamps.idxOf_lt_of_split hkeys (List.mem_map_of_mem hpost)

/-- Candidates are moved from the hottest on, so there may be no hotter one. -/
theorem upward_prefetches_iff {api : B → PrefetchBackend} :
    let back := t.prefetches sort env api backend context device queue handles
    Upward (back.map (·.ptr)) t.regions ↔
      ∀ b ∈ back, ∀ a ∈ t.regions, SameQueue a b → ¬ b.lastTouch < a.lastTouch := by
  intro back
  have hsub := prefetches_sublist sort env api backend context device queue handles t
  obtain ⟨hmem, hkeys⟩ := moved_of_sublist sort hsub
  have hsorted := (sort_candidates sort _).sublist hsub
  constructor
  · intro hup b hb a ha hsame hlt
    rw [UInt64.lt_iff_toNat_lt] at hlt
    obtain ⟨hain, hidx⟩ := hup a ha b (hmem b hb).1 hsame hlt (List.mem_map_of_mem hb)
    obtain ⟨v, hv, hptr⟩ := List.mem_map.1 hain
    have hva : v = a := List.inj_on_of_nodup_map t.keys (hmem v hv).1 ha hptr
    have hne : b ≠ a := by
      rintro rfl
      omega
    obtain ⟨pre, post, hsplit, hpost⟩ := split_of_mem hsorted hb (hva ▸ hv) hne
      fun h => by omega
    change back = _ at hsplit
    change (back.map (·.ptr)).Nodup at hkeys
    rw [hsplit, List.map_append, List.map_cons] at hkeys hidx
    have := Stamps.idxOf_lt_of_split hkeys (List.mem_map_of_mem hpost)
    omega
  · intro hmeets a ha b hb hsame hlt hin
    obtain ⟨v, hv, hptr⟩ := List.mem_map.1 hin
    have hvb : v = b := List.inj_on_of_nodup_map t.keys (hmem v hv).1 hb hptr
    exact absurd (UInt64.lt_iff_toNat_lt.2 hlt) (hmeets b (hvb ▸ hv) a ha hsame)

/-! ## The calls -/

/-- The stamps and the touches agree. -/
def State.Hot (s : State B) : Prop :=
  Hotness.Hot s.registry.regions s.registry.clock.toNat s.touched s.count

omit [DecidableEq B] in
theorem State.Hot.isOrdered {s : State B} (h : s.Hot) : Ordered s := fun a ha b hb hsame hlt =>
  UInt64.lt_iff_toNat_lt.2 (h.ordered a ha b hb hsame hlt)

omit [DecidableEq B] in
theorem moved_length {lt : MemoryRegion B → MemoryRegion B → Bool} {p : MemoryRegion B → Bool}
    {moved : List (MemoryRegion B)} (h : moved.Sublist (sort.sort lt (t.regions.filter p))) :
    moved.length ≤ t.regions.length :=
  h.length_le.trans ((sort.perm _ _).length_eq.trans_le (List.length_filter_le _ _))

/-- What a suspension or a resume does: some regions are touched, and then some
are moved. -/
structure Moving (s : State B) (c : Call B) (t : Registry B) (l : List Nat) : Prop where
  hot : Hotness.Hot t.regions t.clock.toNat (s.call c).touched (s.call c).count
  moved : Restamped l t.regions (c.run s.registry).regions t.clock.toNat
  clock : (c.run s.registry).clock.toNat = t.clock.toNat + l.length

/-- The order is kept if and only if all hotter regions are moved behind. -/
theorem Moving.ordered_iff {s : State B} {c : Call B} {l : List Nat} (h : Moving s c t l) :
    Ordered (s.call c) ↔ Upward l t.regions := by
  rw [← h.hot.moved_iff t.keys h.moved]
  unfold Ordered
  simp only [UInt64.lt_iff_toNat_lt]
  rfl

theorem Moving.after {s : State B} {c : Call B} {l : List Nat} (h : Moving s c t l)
    (hup : Upward l t.regions) : (s.call c).Hot := by
  have h' := h.hot.after_moves t.keys h.moved hup
  unfold State.Hot
  change Hotness.Hot (c.run s.registry).regions (c.run s.registry).clock.toNat _ _
  rw [h.clock]
  exact h'

variable {s : State B}

variable (backend context device queue) in
/-- An adoption after the queue's entry was written, which may count as a tick. -/
theorem hot_adopted (h : s.Hot) {r : Registry B} (hregions : r.regions = s.registry.regions)
    (hclock : s.registry.clock.toNat ≤ r.clock.toNat)
    (hroom : r.clock.toNat + s.registry.regions.length < 2 ^ 64) :
    Hotness.Hot (r.adoptContextRegions backend context device queue).regions
      (r.adoptContextRegions backend context device queue).clock.toNat
      (stampAt (adopts backend context device queue s.registry) s.count s.touched)
      (s.count + (adopts backend context device queue s.registry).length) := by
  obtain ⟨hs, hend⟩ := adopt_stamped backend context device queue (s := r) (hregions ▸ hroom)
  have hadopts : adopts backend context device queue r =
      adopts backend context device queue s.registry := by
    unfold adopts
    rw [hregions]
  rw [hadopts, hregions] at hs
  rw [hend, hadopts]
  exact (Hot.mono h hclock).after_touches hs

theorem adopted_length (r : Registry B) :
    (r.adoptContextRegions backend context device queue).regions.length = r.regions.length := by
  unfold Registry.adoptContextRegions
  split
  · rfl
  · have hptrs := congrArg List.length
      (adoptRegions_ptr (·.within backend context device) queue r.regions r.clock)
    simpa only [List.length_map] using hptrs

/-- The clock after an adoption leaves room for the moves. -/
theorem adopted_room {r : Registry B}
    (hroom : r.clock.toNat + 2 * r.regions.length < 2 ^ 64) :
    (r.adoptContextRegions backend context device queue).clock.toNat +
      (r.adoptContextRegions backend context device queue).regions.length < 2 ^ 64 := by
  have hend := (adopt_stamped backend context device queue (s := r) (by omega)).2
  have hle : (adopts backend context device queue r).length ≤ r.regions.length := by
    unfold adopts
    split
    · exact Nat.zero_le _
    · rw [List.length_map]
      exact List.length_filter_le _ _
  rw [hend, adopted_length]
  omega

variable (sort device queue) in
theorem moving_suspend (h : s.Hot) (hroom : Room s) {api : B → PrefetchBackend}
    (hadmits : admits env (api backend).toXpuMemoryBackend context = true) :
    let t := s.registry.adopted backend context device queue
    Moving s (.onQueueSuspend sort env api backend context device queue) t
      ((t.evicts sort env (fun b => (api b).toXpuMemoryBackend) backend context device).map
        (·.ptr)) := by
  intro t
  have hhot := hot_adopted backend context device queue h
    (r := s.registry.suspend backend context device queue) rfl le_rfl
    (by change s.registry.clock.toNat + _ < _; unfold Room at hroom; omega)
  have htroom : t.clock.toNat + t.regions.length < 2 ^ 64 :=
    adopted_room (by change s.registry.clock.toNat + 2 * s.registry.regions.length < _
                     unfold Room at hroom; omega)
  have hsub := evicts_sublist sort env (fun b => (api b).toXpuMemoryBackend) backend context device t
  obtain ⟨hs, hend⟩ := moves_evict.restamped (moved_of_sublist sort hsub).2
    (Nat.lt_of_le_of_lt (Nat.add_le_add_left (moved_length hsub) _) htroom)
  have hrun : Call.run (.onQueueSuspend sort env api backend context device queue) s.registry =
      t.evictAll (t.evicts sort env (fun b => (api b).toXpuMemoryBackend) backend context device) :=
    @onQueueSuspend_evicts B _ sort env (fun b => (api b).toXpuMemoryBackend) backend context device
      queue s.registry hadmits
  refine ⟨?_, ?_, ?_⟩
  · unfold State.call touches
    dsimp only
    rw [if_pos hadmits]
    exact hhot
  · rw [hrun]
    exact hs
  · rw [hrun, List.length_map]
    exact hend

variable (sort device handles) in
theorem moving_resume (h : s.Hot) (hroom : Room s) {api : B → PrefetchBackend}
    (hadmits : admitsResume env (api backend) context queue = true) :
    let t := s.registry.joined backend context device queue
    Moving s (.beforeQueueResume sort env api backend context device queue handles) t
      ((t.prefetches sort env api backend context device queue handles).map (·.ptr)) := by
  intro t
  have hclock : (s.registry.activate backend context device queue).clock.toNat =
      s.registry.clock.toNat + 1 := by
    change (s.registry.clock + 1).toNat = _
    unfold Room at hroom
    rw [UInt64.toNat_add, UInt64.toNat_one]
    omega
  have hhot := hot_adopted backend context device queue h
    (r := s.registry.activate backend context device queue) rfl
    (hclock ▸ Nat.le_succ _) (by rw [hclock]; unfold Room at hroom; omega)
  have htroom : t.clock.toNat + t.regions.length < 2 ^ 64 :=
    adopted_room (by rw [hclock]; change _ + 2 * s.registry.regions.length < _
                     unfold Room at hroom; omega)
  have hsub := prefetches_sublist sort env api backend context device queue handles t
  obtain ⟨hs, hend⟩ := moves_prefetch.restamped (moved_of_sublist sort hsub).2
    (Nat.lt_of_le_of_lt (Nat.add_le_add_left (moved_length hsub) _) htroom)
  have hrun : Call.run (.beforeQueueResume sort env api backend context device queue handles)
      s.registry = t.prefetchAll
        (t.prefetches sort env api backend context device queue handles) :=
    beforeQueueResume_prefetches sort device handles s.registry hadmits
  refine ⟨?_, ?_, ?_⟩
  · unfold State.call touches
    dsimp only
    rw [if_pos hadmits]
    exact hhot
  · rw [hrun]
    exact hs
  · rw [hrun, List.length_map]
    exact hend

/-! ## The other calls -/

theorem State.Hot.stamped (h : s.Hot) {c : Call B}
    (hs : Stamped (touches s.registry c) s.registry.regions (c.run s.registry).regions
      s.registry.clock.toNat)
    (hclock : (c.run s.registry).clock.toNat =
      s.registry.clock.toNat + (touches s.registry c).length) : (s.call c).Hot := by
  have h' := Hot.after_touches h hs
  rw [← hclock] at h'
  exact h'

theorem registerRegion_stamped (env : Env) (api : B → PrefetchBackend) (backend : B) (ptr : Nat)
    (size : UInt64) (context : Nat) (device : Int) (owner : XQueueHandle) {r : Registry B}
    (hroom : r.clock.toNat + 1 < 2 ^ 64) :
    let c := Call.registerRegion env api backend ptr size context device owner
    Stamped (touches r c) r.regions (c.run r).regions r.clock.toNat ∧
      (c.run r).clock.toNat = r.clock.toNat + (touches r c).length := by
  intro c
  have hclock : (r.clock + 1).toNat = r.clock.toNat + 1 := by
    rw [UInt64.toNat_add, UInt64.toNat_one]
    omega
  change Stamped (touches r c) r.regions
      (r.registerRegion env api backend ptr size context device owner).regions r.clock.toNat ∧
    (r.registerRegion env api backend ptr size context device owner).clock.toNat = _
  unfold Registry.registerRegion touches
  dsimp only [c]
  split
  · exact ⟨stamped_of_subset fun _ hr => hr, rfl⟩
  refine ⟨⟨fun r' hr' hin => ?_, fun r' hr' hout => ?_⟩, hclock⟩
  · rw [List.mem_singleton] at hin
    rcases List.mem_cons.1 hr' with rfl | hr'
    · rw [List.idxOf_cons_self]
      exact hclock
    · exact absurd hin (by simpa using (List.mem_filter.1 hr').2)
  · rcases List.mem_cons.1 hr' with rfl | hr'
    · exact absurd List.mem_cons_self hout
    · exact ⟨r', (List.mem_filter.1 hr').1, rfl, rfl, fun _ hsame => hsame⟩

theorem touchRegion_stamped (env : Env) (api : B → PrefetchBackend) (backend : B) (context : Nat)
    (device : Int) (ptr : Nat) (owner : XQueueHandle) {r : Registry B}
    (hroom : r.clock.toNat + 1 < 2 ^ 64) :
    let c := Call.touchRegion env api backend context device ptr owner
    Stamped (touches r c) r.regions (c.run r).regions r.clock.toNat ∧
      (c.run r).clock.toNat = r.clock.toNat + (touches r c).length := by
  intro c
  have hclock : (r.clock + 1).toNat = r.clock.toNat + 1 := by
    rw [UInt64.toNat_add, UInt64.toNat_one]
    omega
  change Stamped (touches r c) r.regions
      (r.touchRegion env api backend context device ptr owner).regions r.clock.toNat ∧
    (r.touchRegion env api backend context device ptr owner).clock.toNat = _
  unfold Registry.touchRegion touches
  dsimp only [c]
  split
  · exact ⟨stamped_of_subset fun _ hr => hr, rfl⟩
  cases hfind : r.regions.find? fun r => r.within backend context device && r.covers ptr with
  | none => exact ⟨stamped_of_subset fun _ hr => hr, rfl⟩
  | some touched =>
    refine ⟨⟨fun r' hr' hin => ?_, fun r' hr' hout => ?_⟩, hclock⟩
    · have hin : r'.ptr = touched.ptr := List.mem_singleton.1 hin
      obtain ⟨r₀, hr₀, rfl⟩ := List.mem_map.1 hr'
      split at hin
      · next he =>
        rw [if_pos he]
        simpa [he] using hclock
      · next hne => exact absurd hin hne
    · have hout : r'.ptr ≠ touched.ptr := fun he => hout (List.mem_singleton.2 he)
      obtain ⟨r₀, hr₀, rfl⟩ := List.mem_map.1 hr'
      split at hout
      · next he => exact absurd he hout
      · next hne => rw [if_neg hne]; exact ⟨r₀, hr₀, rfl, rfl, fun _ hsame => hsame⟩

omit [DecidableEq B] in
/-- A removed queue leaves its regions to nobody. -/
theorem removeQueue_stamped (queue : XQueueHandle) (r : Registry B) :
    Stamped [] r.regions (r.removeQueue queue).regions r.clock.toNat ∧
      (r.removeQueue queue).clock = r.clock := by
  unfold Registry.removeQueue
  split
  · exact ⟨stamped_of_subset fun _ hr => hr, rfl⟩
  refine ⟨stamped_nil fun r' hr' => ?_, rfl⟩
  obtain ⟨r₀, hr₀, rfl⟩ := List.mem_map.1 hr'
  refine ⟨r₀, hr₀, ?_⟩
  split
  · exact ⟨rfl, rfl, fun _ hsame => absurd rfl hsame.2.1⟩
  · exact ⟨rfl, rfl, fun _ hsame => hsame⟩

/-- One call: the order is kept exactly where the call meets the condition. -/
theorem State.Hot.call_iff (h : s.Hot) (hroom : Room s) (c : Call B) :
    (Ordered (s.call c) ↔ Meets s c) ∧ (Meets s c → (s.call c).Hot) := by
  have hplain : Meets s c → (s.call c).Hot →
      (Ordered (s.call c) ↔ Meets s c) ∧ (Meets s c → (s.call c).Hot) := fun hmeets hhot =>
    ⟨⟨fun _ => hmeets, fun _ => hhot.isOrdered⟩, fun _ => hhot⟩
  have hstill : touches s.registry c = [] → c.run s.registry = s.registry → (s.call c).Hot :=
    fun htouches hrun => h.stamped
      (by rw [htouches, hrun]; exact stamped_of_subset fun _ hr => hr) (by rw [htouches, hrun]; rfl)
  have hone : s.registry.clock.toNat + 1 < 2 ^ 64 := by
    unfold Room at hroom
    omega
  cases c with
  | registerRegion env api backend ptr size context device owner =>
    obtain ⟨hs, hclock⟩ := registerRegion_stamped env api backend ptr size context device owner hone
    exact hplain trivial (h.stamped hs hclock)
  | unregisterRegion env api backend ptr =>
    refine hplain trivial (h.stamped (stamped_of_subset ?_) ?_)
    · change (s.registry.unregisterRegion env api backend ptr).regions ⊆ _
      unfold Registry.unregisterRegion
      split
      · exact fun _ hr => hr
      · exact fun _ hr => (List.mem_filter.1 hr).1
    · change (s.registry.unregisterRegion env api backend ptr).clock.toNat = _
      unfold Registry.unregisterRegion
      split
      · rfl
      · rfl
  | touchRegion env api backend context device ptr owner =>
    obtain ⟨hs, hclock⟩ := touchRegion_stamped env api backend context device ptr owner hone
    exact hplain trivial (h.stamped hs hclock)
  | setQueuePriority queue priority =>
    refine hplain trivial (h.stamped (stamped_of_subset ?_) ?_)
    · change (s.registry.setQueuePriority queue priority).regions ⊆ _
      unfold Registry.setQueuePriority
      split
      · exact fun _ hr => hr
      · exact fun _ hr => hr
    · change (s.registry.setQueuePriority queue priority).clock.toNat = _
      unfold Registry.setQueuePriority
      split
      · rfl
      · rfl
  | removeQueue queue =>
    obtain ⟨hs, hclock⟩ := removeQueue_stamped queue s.registry
    exact hplain trivial (h.stamped hs (congrArg UInt64.toNat hclock))
  | onQueueSuspend sort env api backend context device queue =>
    by_cases hadmits : admits env (api backend).toXpuMemoryBackend context = true
    · have hmoving := moving_suspend sort device queue h hroom hadmits
      refine ⟨hmoving.ordered_iff.trans ⟨fun hup _ => upward_evicts_iff.1 hup, fun hmeets => ?_⟩,
        fun hmeets => hmoving.after ?_⟩
      · exact upward_evicts_iff.2 (hmeets hadmits)
      · exact upward_evicts_iff.2 (hmeets hadmits)
    · refine hplain (fun hon => absurd hon hadmits) (hstill (if_neg hadmits) ?_)
      exact if_neg hadmits
  | beforeQueueResume sort env api backend context device queue handles =>
    by_cases hadmits : admitsResume env (api backend) context queue = true
    · have hmoving := moving_resume sort device handles h hroom hadmits
      refine ⟨hmoving.ordered_iff.trans ⟨fun hup _ => upward_prefetches_iff.1 hup, fun hmeets => ?_⟩,
        fun hmeets => hmoving.after ?_⟩
      · exact upward_prefetches_iff.2 (hmeets hadmits)
      · exact upward_prefetches_iff.2 (hmeets hadmits)
    · refine hplain (fun hon => absurd hon hadmits) (hstill (if_neg hadmits) ?_)
      exact if_neg hadmits
  | rehash regions =>
    refine hplain trivial (h.stamped (stamped_of_subset ?_) ?_)
    · change (s.registry.rehash regions).regions ⊆ _
      unfold Registry.rehash
      split
      · next hperm => exact hperm.subset
      · exact fun _ hr => hr
    · change (s.registry.rehash regions).clock.toNat = _
      unfold Registry.rehash
      split
      · rfl
      · rfl

/-! ## Runs -/

/-- The runs whose calls keep the order, while the clock has room. -/
def keeping (B : Type) [DecidableEq B] : LTS (State B) (Call B) :=
  (system B).restrict fun s c => Room s ∧ Meets s c

theorem hot_reachable (hr : (keeping B).Reachable s) : s.Hot := by
  refine (keeping B).reachable_induction (fun s h0 => ?_) (fun s c s' _ hot hs => ?_) hr
  · cases h0
    exact ⟨fun r h => absurd h List.not_mem_nil, fun r h => absurd h List.not_mem_nil,
      fun r h => absurd h List.not_mem_nil, fun r h => absurd h List.not_mem_nil⟩
  · obtain ⟨⟨-, rfl⟩, hroom, hmeets⟩ := hs
    exact (hot.call_iff hroom c).2 hmeets

/-- Of a queue's regions a suspension leaves those that were touched last. -/
def ColdestGo (s : State B) (sort : StdSort (MemoryRegion B)) (env : Env)
    (api : B → PrefetchBackend) (backend : B) (context : Nat) (device : Int)
    (queue : XQueueHandle) : Prop :=
  let t := s.registry.adopted backend context device queue
  let gone := t.evicts sort env (fun b => (api b).toXpuMemoryBackend) backend context device
  let touched := (s.call (.onQueueSuspend sort env api backend context device queue)).touched
  ∀ v ∈ gone, ∀ r ∈ t.residents backend context device, SameQueue v r → r.ptr ∉ gone.map (·.ptr) →
    touched v.ptr < touched r.ptr

/-- Of a queue's regions a resume brings those that were touched last. -/
def HottestCome (s : State B) (sort : StdSort (MemoryRegion B)) (env : Env)
    (api : B → PrefetchBackend) (backend : B) (context : Nat) (device : Int)
    (queue : XQueueHandle) (handles : List XQueueHandle) : Prop :=
  let t := s.registry.joined backend context device queue
  let back := t.prefetches sort env api backend context device queue handles
  let touched :=
    (s.call (.beforeQueueResume sort env api backend context device queue handles)).touched
  ∀ v ∈ back, ∀ r ∈ t.absent backend context device queue, r.ptr ∉ back.map (·.ptr) →
    touched r.ptr < touched v.ptr

omit [DecidableEq B] in
/-- Of two regions the one with no later stamp was touched before the other. -/
theorem Hot.touched_lt (h : Hot regions now touched count) {a b : MemoryRegion B} (ha : a ∈ regions)
    (hb : b ∈ regions) (hsame : SameQueue a b) (hne : b.ptr ≠ a.ptr)
    (hle : b.lastTouch.toNat ≤ a.lastTouch.toNat) : touched b.ptr < touched a.ptr := by
  rcases Nat.lt_trichotomy (touched b.ptr) (touched a.ptr) with hlt | heq | hgt
  · exact hlt
  · exact absurd (h.apart b hb a ha heq) hne
  · have := h.ordered b hb a ha hsame.symm hgt
    omega

theorem coldestGo_of_hot (h : s.Hot) (hroom : Room s) {api : B → PrefetchBackend}
    (hadmits : admits env (api backend).toXpuMemoryBackend context = true)
    (hevict : ∀ ptr size, (api backend).evictToHost context device ptr size = true) :
    ColdestGo s sort env api backend context device queue := by
  have hhot := (moving_suspend sort device queue h hroom hadmits).hot
  unfold ColdestGo
  intro t gone touched v hv r hr hsame hout
  have hprefix : gone <+: sort.sort t.victimBefore (t.residents backend context device) :=
    evicts_front sort env t hevict
  have hle := prefix_before hprefix (sort_victims sort t _) hv ((sort.perm _ _).mem_iff.2 hr)
    (fun hin => hout (List.mem_map_of_mem hin)) hsame
  have hvt := (moved_of_sublist sort hprefix.sublist).1 v hv
  exact hhot.touched_lt (List.mem_filter.1 hr).1 hvt.1 hsame.symm
    (fun he => hout (he ▸ List.mem_map_of_mem hv)) hle

theorem hottestCome_of_hot (h : s.Hot) (hroom : Room s) {api : B → PrefetchBackend}
    (hadmits : admitsResume env (api backend) context queue = true)
    (hprefetch : ∀ ptr size, (api backend).prefetchToDevice context device ptr size = true) :
    HottestCome s sort env api backend context device queue handles := by
  have hhot := (moving_resume sort device handles h hroom hadmits).hot
  unfold HottestCome
  intro t back touched v hv r hr hout
  have hprefix : back <+: sort.sort candidateBefore (t.absent backend context device queue) :=
    prefetches_front sort env queue handles t hprefetch
  have hle := prefix_before hprefix (sort_candidates sort _) hv ((sort.perm _ _).mem_iff.2 hr)
    fun hin => hout (List.mem_map_of_mem hin)
  obtain ⟨hvt, hvq⟩ := (moved_of_sublist sort hprefix.sublist).1 v hv
  have hqueue := ne_zero_of_admitsResume hadmits
  have hsame : SameQueue v r := by
    obtain ⟨-, hrq⟩ := List.mem_filter.1 hr
    unfold MemoryRegion.within at hvq hrq
    simp only [Bool.and_eq_true, decide_eq_true_eq] at hvq hrq
    obtain ⟨⟨⟨⟨hvb, hvc⟩, hvd⟩, hvo⟩, -⟩ := hvq
    obtain ⟨⟨⟨⟨hrb, hrc⟩, hrd⟩, hro⟩, -⟩ := hrq
    exact ⟨hvo.trans hro.symm, hvo ▸ hqueue, hvb.trans hrb.symm, hvc.trans hrc.symm,
      hvd.trans hrd.symm⟩
  exact hhot.touched_lt hvt (List.mem_filter.1 hr).1 hsame
    (fun he => hout (he ▸ List.mem_map_of_mem hv)) hle

/-- **Hotness is kept.** In every run whose suspensions and resumes meet the
condition, the stamps of a queue's regions are in the order of its touches, and
after the next call exactly if it meets the condition too. Where the backend
can move all it is asked to, a suspension then evicts the coldest regions of a
queue, and a resume prefetches the hottest. -/
theorem hotness_kept (hr : (keeping B).Reachable s) :
    Ordered s ∧ (Room s →
      (∀ c, Ordered (s.call c) ↔ Meets s c) ∧
      (∀ sort env api backend context device queue,
        admits env (api backend).toXpuMemoryBackend context = true →
        (∀ ptr size, (api backend).evictToHost context device ptr size = true) →
        ColdestGo s sort env api backend context device queue) ∧
      (∀ sort env api backend context device queue handles,
        admitsResume env (api backend) context queue = true →
        (∀ ptr size, (api backend).prefetchToDevice context device ptr size = true) →
        HottestCome s sort env api backend context device queue handles)) := by
  have hhot := hot_reachable hr
  refine ⟨hhot.isOrdered, fun hroom => ⟨fun c => (hhot.call_iff hroom c).1, ?_, ?_⟩⟩
  · intro sort env api backend context device queue
    exact coldestGo_of_hot hhot hroom
  · intro sort env api backend context device queue handles
    exact hottestCome_of_hot hhot hroom

/-! ## The coldest becomes the hottest -/

/-- The manager is on, and all else is as by default. -/
def envOn : Env := fun name => if name = kEnableEnv then some ['1'] else none

/-- A backend that can do everything, on a device of 200 bytes. -/
def apiOn (_ : Unit) : PrefetchBackend where
  enabled := true
  caps := ⟨true, true⟩
  queryMemory := fun _ _ => some (200, 200)
  evictToHost := fun _ _ _ _ => true
  asyncPrefetch := true
  prefetchToDevice := fun _ _ _ _ => true

/-- Queue 1 registers 60 bytes. -/
def register (ptr : Nat) : Call Unit := .registerRegion envOn apiOn () ptr 60 1 0 1

def suspendOne : Call Unit := .onQueueSuspend (stableSort _) envOn apiOn () 1 0 1

def resumeOne : Call Unit := .beforeQueueResume (stableSort _) envOn apiOn () 1 0 1 [1]

/-- The state after these calls. -/
def after (cs : List (Call Unit)) : State Unit :=
  cs.foldl State.call ⟨.empty, fun _ => 0, 0⟩

theorem reachable_snoc {cs : List (Call Unit)} {c : Call Unit}
    (h : (system Unit).Reachable (after cs)) (hiter : c.Iterates (after cs).registry) :
    (system Unit).Reachable (after (cs ++ [c])) :=
  h.step (l := c) ⟨hiter, List.foldl_concat State.call _ c cs⟩

theorem keeping_snoc {cs : List (Call Unit)} {c : Call Unit}
    (h : (keeping Unit).Reachable (after cs)) (hiter : c.Iterates (after cs).registry)
    (hroom : Room (after cs)) (hmeets : Meets (after cs) c) :
    (keeping Unit).Reachable (after (cs ++ [c])) :=
  h.step (l := c) ⟨⟨hiter, List.foldl_concat State.call _ c cs⟩, hroom, hmeets⟩

/-- Three registrations keep the order. -/
theorem keeping_three : (keeping Unit).Reachable (after [register 1, register 2, register 3]) := by
  have h₀ : (keeping Unit).Reachable (after []) := (keeping Unit).reachable_init rfl
  have h₁ := keeping_snoc (c := register 1) h₀ trivial (by unfold Room; decide) trivial
  have h₂ := keeping_snoc (c := register 2) h₁ trivial (by unfold Room; decide) trivial
  exact keeping_snoc (c := register 3) h₂ trivial (by unfold Room; decide) trivial

/-- The regions 1 and 2 after the first suspension. -/
theorem not_ordered_suspended :
    ¬ Ordered (after [register 1, register 2, register 3, suspendOne]) := fun hordered =>
  absurd (hordered ⟨some (), 2, 60, 1, 0, 1, true, 2⟩ (by decide)
    ⟨some (), 1, 60, 1, 0, 1, false, 4⟩ (by decide) ⟨rfl, by decide, rfl, rfl, rfl⟩ (by decide))
    (by decide)

theorem hotness_kept_three :
    let s := after [register 1, register 2, register 3]
    Ordered s ∧ ColdestGo s (stableSort _) envOn apiOn () 1 0 1 ∧ ¬ Meets s suspendOne := by
  obtain ⟨hordered, hnext⟩ := hotness_kept keeping_three
  obtain ⟨hiff, hcoldest, -⟩ := hnext (by unfold Room; decide)
  exact ⟨hordered, hcoldest _ _ _ _ _ _ _ (by decide) fun _ _ => rfl,
    fun hmeets => not_ordered_suspended ((hiff suspendOne).2 hmeets)⟩

/-- There is no entry but that of queue 1. -/
theorem resumeOne_iterates :
    resumeOne.Iterates (after [register 1, register 2, register 3, suspendOne]).registry := by
  refine ⟨by decide, fun h => ?_⟩
  by_cases he : h = 1
  · subst he
    exact iff_of_true List.mem_cons_self (by decide)
  · refine iff_of_false (fun hin => he (List.mem_singleton.1 hin)) ?_
    change ¬ (Function.update (Registry.onQueueSuspend (stableSort _) envOn
      (fun b => (apiOn b).toXpuMemoryBackend) () 1 0 1
      (after [register 1, register 2, register 3]).registry).queues 1 _ h).isSome = true
    rw [Function.update_of_ne he, onQueueSuspend_queues, if_pos (by decide)]
    change ¬ Option.isSome (Function.update (fun _ => none) 1 _ h) = true
    rw [Function.update_of_ne he]
    exact Bool.false_ne_true

/-- Region 1, the coldest, is evicted and comes back, and so it is region 2 that
the next suspension evicts. -/
theorem hotness_reversed :
    let s := after [register 1, register 2, register 3, suspendOne]
    let s' := after [register 1, register 2, register 3, suspendOne, resumeOne]
    (system Unit).Reachable s ∧ ¬ Ordered s ∧
    (system Unit).Reachable s' ∧ ¬ ColdestGo s' (stableSort _) envOn apiOn () 1 0 1 := by
  have hr := reachable_snoc (c := suspendOne) keeping_three.of_restrict trivial
  have hr' := reachable_snoc (c := resumeOne) hr resumeOne_iterates
  exact ⟨hr, not_ordered_suspended, hr', fun hcoldest => absurd
    (hcoldest ⟨some (), 2, 60, 1, 0, 1, true, 2⟩ (by decide) ⟨some (), 1, 60, 1, 0, 1, true, 6⟩
      (by decide) ⟨rfl, by decide, rfl, rfl, rfl⟩ (by decide)) (by decide)⟩

end Hotness
end Admission
end Xsched.Preempt
