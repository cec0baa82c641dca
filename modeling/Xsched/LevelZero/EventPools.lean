import Mathlib.Logic.Function.Basic
import Xsched.Core.LTS
import Xsched.Utils.ObjectPool

/-!
# Pooled events

Each context has an `EventPool` that lends events to the kernels in flight. An
event is one of the `POOL_SIZE` places of the driver's pool; its place is the
index in the descriptor it is created with.

**The break.** The descriptor is a static variable of `Create`. What it is
initialised with, `event_count++`, is evaluated when the first event of the
process is created, and never again: every event of every pool has index 0.

**Results**
* `eventPools_iff`: the events of the pools have indices of their own if and only
  if no `Pop` has found its pool empty, so that there are no events at all.
* `handed_once`, `never_refuses`: what does hold. Where each event is given back
  to the pool it came from, none is handed out twice without a `Push` in
  between; and the limit on the number of events is never met.
* `events_share`, `kernels_hold`: the kernels in flight hold different events, and
  those of one context wait for the same place of its pool.
-/
namespace Xsched.LevelZero
namespace EventPools

open Function (update)
open Utils (pop refill refill_keeps length_refill pop_nil)

/-- mirrors platforms/levelzero/hal/src/pool.cpp:5 -/
def POOL_SIZE : Nat := 16384

/-- mirrors utils/include/xsched/utils/pool.h:12 -/
def kPoolSize : Nat := 512

/-- An event that the driver created: its context's pool, and its place there. -/
structure Event (C : Type) where
  ctx : C
  handle : Nat
  index : Nat
  deriving DecidableEq

/-- The static variables of `Create`, and the driver. The descriptor is there once
the first call has initialised it. -/
structure Statics (C : Type) where
  eventCount : Nat
  eventDesc : Option Nat
  nextHandle : Nat
  /-- ghost: the events created so far -/
  created : List (Event C)

inductive Abort where
  | limit
  | driver
  deriving DecidableEq

/-- What the pools hand out and are given back. -/
inductive Call where
  | popped (event : Nat)
  | pushed (event : Nat)
  deriving DecidableEq

structure State (C : Type) where
  statics : Statics C
  /-- the back of the vector first -/
  pools : C → List Nat
  /-- ghost: the pool that an event in use came from -/
  out : Nat → Option C
  /-- ghost: the calls, the oldest first -/
  log : List Call

inductive Act (C : Type) where
  | pop (ctx : C)
  | push (ctx : C) (event : Nat)

def init {C : Type} : State C where
  statics := ⟨0, none, 0, []⟩
  pools := fun _ => []
  out := fun _ => none
  log := []

/-- `grants` answers `EventCreate`.
mirrors platforms/levelzero/hal/src/pool.cpp:37-51 -/
def create {C : Type} (grants : Nat → Bool) (ctx : C) (st : Statics C) :
    Except Abort (Nat × Statics C) :=
  if POOL_SIZE ≤ st.eventCount then .error .limit
  else
    let index := st.eventDesc.getD st.eventCount
    let count := if st.eventDesc = none then st.eventCount + 1 else st.eventCount
    if grants st.nextHandle then
      .ok (st.nextHandle,
        { eventCount := count
          eventDesc := some index
          nextHandle := st.nextHandle + 1
          created := st.created ++ [⟨ctx, st.nextHandle, index⟩] })
    else .error .driver

/-- No two events of a pool have the same index, and each index is a place. -/
structure DistinctIndices {C : Type} (st : Statics C) : Prop where
  distinct : st.created.Pairwise fun e e' => e.ctx = e'.ctx → e.index ≠ e'.index
  below : ∀ e ∈ st.created, e.index < POOL_SIZE

/-! ## One event -/

variable {C : Type} {grants : Nat → Bool} {ctx : C} {st st' : Statics C} {event : Nat}

/-- The descriptor is initialised once, with index 0. -/
structure StaticsInv (st : Statics C) : Prop where
  fresh : st.eventDesc = none → st.eventCount = 0
  set : ∀ index, st.eventDesc = some index → index = 0 ∧ st.eventCount = 1
  zero : ∀ e ∈ st.created, e.index = 0

theorem StaticsInv.count_le (hi : StaticsInv st) : st.eventCount ≤ 1 := by
  cases hdesc : st.eventDesc with
  | none =>
    rw [hi.fresh hdesc]
    exact Nat.zero_le 1
  | some index => exact Nat.le_of_eq (hi.set index hdesc).2

/-- What a call of `Create` that returns has done. -/
theorem create_ok (h : create grants ctx st = .ok (event, st')) :
    event = st.nextHandle ∧ st'.nextHandle = st.nextHandle + 1 ∧
      st'.eventDesc = some (st.eventDesc.getD st.eventCount) ∧
      st'.eventCount = (if st.eventDesc = none then st.eventCount + 1 else st.eventCount) ∧
      st'.created = st.created ++ [⟨ctx, st.nextHandle, st.eventDesc.getD st.eventCount⟩] := by
  unfold create at h
  split at h
  · cases h
  dsimp only at h
  split at h
  · cases h
    exact ⟨rfl, rfl, rfl, rfl, rfl⟩
  · cases h

theorem StaticsInv.create (hi : StaticsInv st) (h : EventPools.create grants ctx st = .ok (event, st')) :
    StaticsInv st' := by
  obtain ⟨-, -, hdesc, hcount, hcreated⟩ := create_ok h
  have hindex : st.eventDesc.getD st.eventCount = 0 := by
    cases hd : st.eventDesc with
    | none => exact hi.fresh hd
    | some index => exact (hi.set index hd).1
  refine ⟨fun hnone => absurd (hdesc.symm.trans hnone) (Option.some_ne_none _), ?_, ?_⟩
  · intro index hsome
    rw [hdesc, Option.some_inj] at hsome
    refine ⟨hsome.symm.trans hindex, ?_⟩
    rw [hcount]
    split
    · next hnone => rw [hi.fresh hnone]
    · next hnone =>
      obtain ⟨index, hsome⟩ := Option.ne_none_iff_exists'.1 hnone
      exact (hi.set index hsome).2
  · intro e he
    rw [hcreated, List.mem_append, List.mem_singleton] at he
    rcases he with he | rfl
    · exact hi.zero e he
    · exact hindex

theorem StaticsInv.not_limit (hi : StaticsInv st) : EventPools.create grants ctx st ≠ .error .limit := by
  have hcount := hi.count_le
  have hroom : ¬ POOL_SIZE ≤ st.eventCount := by
    unfold POOL_SIZE
    omega
  unfold EventPools.create
  rw [if_neg hroom]
  dsimp only
  split
  · exact nofun
  · exact nofun

theorem staticsInv_init : StaticsInv (init : State C).statics where
  fresh _ := rfl
  set _ h := nomatch h
  zero _ he := absurd he List.not_mem_nil

/-- Two events of one pool have the same index. -/
theorem StaticsInv.not_distinct (hi : StaticsInv st) {before new : List (Event C)}
    (hcreated : before ++ new <+: st.created) (hlength : 2 ≤ new.length)
    (hctx : ∀ e ∈ new, e.ctx = ctx) : ¬ DistinctIndices st := by
  intro hdistinct
  obtain ⟨e, e', new', rfl⟩ : ∃ e e' new', new = e :: e' :: new' := by
    match new, hlength with
    | e :: e' :: new', _ => exact ⟨e, e', new', rfl⟩
  have hpairwise := (hdistinct.distinct.sublist hcreated.sublist).sublist
    (List.sublist_append_right _ _)
  have he' : e' ∈ e :: e' :: new' := List.mem_cons_of_mem e List.mem_cons_self
  have hmem : ∀ e₀ ∈ e :: e' :: new', e₀.index = 0 := fun e₀ h =>
    hi.zero e₀ (hcreated.subset (List.mem_append_right before h))
  have hsame : e.ctx = e'.ctx := (hctx e List.mem_cons_self).trans (hctx e' he').symm
  refine List.rel_of_pairwise_cons hpairwise List.mem_cons_self hsame ?_
  rw [hmem e List.mem_cons_self, hmem e' he']

/-- What a `Pop` has created, from `st` on, and put into the pool. -/
structure Filled (ctx : C) (st : Statics C) (st' : Statics C) (pool : List Nat) : Prop where
  inv : StaticsInv st → StaticsInv st'
  created : ∃ new : List (Event C), st'.created = st.created ++ new ∧ new.length = pool.length ∧
    ∀ e ∈ new, e.ctx = ctx
  next : st.nextHandle ≤ st'.nextHandle
  handles : ∀ event ∈ pool, st.nextHandle ≤ event ∧ event < st'.nextHandle
  nodup : pool.Nodup

theorem filled_nil (ctx : C) (st : Statics C) : Filled ctx st st [] where
  inv := id
  created := ⟨[], (List.append_nil _).symm, rfl, fun _ he => absurd he List.not_mem_nil⟩
  next := Nat.le_refl _
  handles _ he := absurd he List.not_mem_nil
  nodup := List.nodup_nil

theorem Filled.create {st₁ : Statics C} {pool : List Nat} (hf : Filled ctx st st₁ pool)
    (h : EventPools.create grants ctx st₁ = .ok (event, st')) : Filled ctx st st' (event :: pool) := by
  obtain ⟨rfl, hnext, -, -, hcreated⟩ := create_ok h
  obtain ⟨new, hnew, hlength, hctx⟩ := hf.created
  have hle := hf.next
  refine ⟨fun hi => (hf.inv hi).create h, ?_, ?_, ?_, ?_⟩
  · refine ⟨new ++ [⟨ctx, st₁.nextHandle, st₁.eventDesc.getD st₁.eventCount⟩], ?_, ?_, ?_⟩
    · rw [hcreated, hnew, List.append_assoc]
    · rw [List.length_append, List.length_cons, hlength]
      rfl
    · intro e he
      rw [List.mem_append, List.mem_singleton] at he
      rcases he with he | rfl
      · exact hctx e he
      · rfl
  · omega
  · intro event he
    rcases List.mem_cons.1 he with rfl | he
    · omega
    · have := hf.handles event he
      omega
  · rw [List.nodup_cons]
    refine ⟨fun hmem => ?_, hf.nodup⟩
    have := (hf.handles _ hmem).2
    omega

/-! ## The calls -/

variable [DecidableEq C] (grants : Nat → Bool)

/-- Where it aborts there is no event. -/
def popEvent (s : State C) (ctx : C) : Option (Nat × State C) :=
  match pop (create grants ctx) kPoolSize (s.pools ctx) s.statics with
  | .error _ => none
  | .ok (event, rest, st) =>
    some (event,
      { statics := st
        pools := update s.pools ctx rest
        out := update s.out event (some ctx)
        log := s.log ++ [.popped event] })

/-- mirrors utils/include/xsched/utils/pool.h:32-36 -/
def pushEvent (s : State C) (ctx : C) (event : Nat) : State C :=
  { s with
    pools := update s.pools ctx (event :: s.pools ctx)
    out := update s.out event none
    log := s.log ++ [.pushed event] }

def step (s : State C) : Act C → Option (State C)
  | .pop ctx => (popEvent grants s ctx).map Prod.snd
  | .push ctx event => some (pushEvent s ctx event)

/-! ## The properties -/

/-- Between two times that an event is handed out it is given back. -/
def HandedOnce (log : List Call) : Prop :=
  ∀ l₁ l₂ l₃ event, log = l₁ ++ Call.popped event :: (l₂ ++ .popped event :: l₃) →
    Call.pushed event ∈ l₂

/-- A pool with room is not refused an event for the number of events. -/
def NeverRefuses (s : State C) : Prop :=
  ∀ ctx, s.statics.created.countP (·.ctx = ctx) < POOL_SIZE →
    create grants ctx s.statics ≠ .error .limit

/-- What is pushed is in use, and goes to the pool it came from. -/
def Returned (s : State C) (a : Act C) : Prop :=
  ∀ ctx event, a = .push ctx event → s.out event = some ctx

/-- The call finds its pool empty. -/
def Creates (s : State C) (a : Act C) : Prop := ∃ ctx, a = .pop ctx ∧ s.pools ctx = []

/-! ## One call -/

variable {grants} {s s' : State C}

/-- What a call does: an event from the pool, or one of those it has created. -/
inductive Does (s : State C) : Act C → State C → Prop
  | take (ctx : C) (event : Nat) (rest : List Nat) (hpool : s.pools ctx = event :: rest) :
      Does s (.pop ctx) ⟨s.statics, update s.pools ctx rest, update s.out event (some ctx),
        s.log ++ [.popped event]⟩
  | fill (ctx : C) (event : Nat) (rest : List Nat) (st : Statics C) (hpool : s.pools ctx = [])
      (hrest : rest.length = kPoolSize) (hfilled : Filled ctx s.statics st (event :: rest)) :
      Does s (.pop ctx) ⟨st, update s.pools ctx rest, update s.out event (some ctx),
        s.log ++ [.popped event]⟩
  | push (ctx : C) (event : Nat) :
      Does s (.push ctx event) ⟨s.statics, update s.pools ctx (event :: s.pools ctx),
        update s.out event none, s.log ++ [.pushed event]⟩

/-- An event from the pool, or one of those that were created. -/
theorem popEvent_cases (h : popEvent grants s ctx = some (event, s')) :
    (∃ rest, s.pools ctx = event :: rest ∧
      s' = ⟨s.statics, update s.pools ctx rest, update s.out event (some ctx),
        s.log ++ [.popped event]⟩) ∨
    (∃ rest st, s.pools ctx = [] ∧ rest.length = kPoolSize ∧
      Filled ctx s.statics st (event :: rest) ∧
      s' = ⟨st, update s.pools ctx rest, update s.out event (some ctx), s.log ++ [.popped event]⟩) := by
  unfold popEvent at h
  split at h
  · cases h
  next rest st hpop =>
  cases h
  cases hpool : s.pools ctx with
  | cons obj pool =>
    rw [hpool] at hpop
    cases hpop
    exact .inl ⟨rest, rfl, rfl⟩
  | nil =>
    rw [hpool] at hpop
    obtain ⟨st₁, hrefill, hcreate⟩ := pop_nil hpop
    have hfilled : Filled ctx s.statics st₁ rest :=
      refill_keeps (P := Filled ctx s.statics) (fun _ _ _ _ hf hc => hf.create hc)
        (filled_nil ctx s.statics) hrefill
    have hrest := length_refill hrefill
    rw [List.length_nil, Nat.zero_add] at hrest
    exact .inr ⟨rest, st, rfl, hrest, hfilled.create hcreate, rfl⟩

theorem step_does {a : Act C} (h : step grants s a = some s') : Does s a s' := by
  cases a with
  | push ctx event =>
    cases h
    exact .push ctx event
  | pop ctx =>
    obtain ⟨⟨event, s₁⟩, hpop, rfl⟩ := Option.map_eq_some_iff.1 h
    rcases popEvent_cases hpop with ⟨rest, hpool, rfl⟩ | ⟨rest, st, hpool, hrest, hfilled, rfl⟩
    · exact .take ctx event rest hpool
    · exact .fill ctx event rest st hpool hrest hfilled

/-! ## What a run has created -/

theorem Does.staticsInv {a : Act C} (hd : Does s a s') (hi : StaticsInv s.statics) :
    StaticsInv s'.statics := by
  cases hd with
  | take ctx event rest hpool => exact hi
  | fill ctx event rest st hpool hrest hfilled => exact hfilled.inv hi
  | push ctx event => exact hi

theorem Does.created {a : Act C} (hd : Does s a s') :
    (¬ Creates s a → s'.statics.created = s.statics.created) ∧
      (Creates s a → ∃ ctx, ∃ new : List (Event C), s'.statics.created = s.statics.created ++ new ∧
        2 ≤ new.length ∧ ∀ e ∈ new, e.ctx = ctx) := by
  cases hd with
  | take ctx event rest hpool =>
    refine ⟨fun _ => rfl, ?_⟩
    rintro ⟨_, he, hempty⟩
    cases he
    rw [hpool] at hempty
    cases hempty
  | fill ctx event rest st hpool hrest hfilled =>
    refine ⟨fun hnot => absurd ⟨ctx, rfl, hpool⟩ hnot, fun _ => ⟨ctx, ?_⟩⟩
    obtain ⟨new, hnew, hlength, hctx⟩ := hfilled.created
    refine ⟨new, hnew, ?_, hctx⟩
    rw [hlength, List.length_cons, hrest]
    decide
  | push ctx event =>
    refine ⟨fun _ => rfl, ?_⟩
    rintro ⟨_, he, -⟩
    cases he

theorem created_grows {acts : List (Act C)} (h : LTS.exec (step grants) s acts = some s') :
    s.statics.created <+: s'.statics.created := by
  refine LTS.exec_preserve (I := fun s' => s.statics.created <+: s'.statics.created) ?_ h
    (List.prefix_refl _)
  intro s₁ a s₂ hgrows hs₂
  obtain ⟨hkept, hnew⟩ := (step_does hs₂).created
  by_cases hc : Creates s₁ a
  · obtain ⟨ctx, new, hnew, -⟩ := hnew hc
    rw [hnew]
    exact hgrows.trans (List.prefix_append _ _)
  · exact (hkept hc).symm ▸ hgrows

theorem staticsInv_exec {acts : List (Act C)} (h : LTS.exec (step grants) s acts = some s')
    (hi : StaticsInv s.statics) : StaticsInv s'.statics :=
  LTS.exec_preserve (I := fun s => StaticsInv s.statics)
    (fun _ _ _ hi hs => (step_does hs).staticsInv hi) h hi

theorem distinct_iff {acts : List (Act C)} (h : LTS.exec (step grants) s acts = some s')
    (hi : StaticsInv s.statics) (hnone : s.statics.created = []) :
    DistinctIndices s'.statics ↔ LTS.EachStep (step grants) (fun s a => ¬ Creates s a) s acts := by
  induction acts generalizing s with
  | nil =>
    cases h
    refine iff_of_true ⟨?_, ?_⟩ trivial
    · rw [hnone]
      exact List.Pairwise.nil
    · rw [hnone]
      exact fun _ he => absurd he List.not_mem_nil
  | cons a acts ih =>
    obtain ⟨s₁, hs₁, hrest⟩ := Option.bind_eq_some_iff.1 h
    have hi₁ := (step_does hs₁).staticsInv hi
    obtain ⟨hkept, hnew⟩ := (step_does hs₁).created
    by_cases hc : Creates s a
    · obtain ⟨ctx, new, hnew, hlength, hctx⟩ := hnew hc
      refine iff_of_false ?_ fun heach => (heach s₁ hs₁).1 hc
      exact (staticsInv_exec hrest hi₁).not_distinct (hnew ▸ created_grows hrest) hlength hctx
    · rw [ih hrest hi₁ ((hkept hc).trans hnone)]
      constructor
      · intro heach s₂ hs₂
        cases hs₁.symm.trans hs₂
        exact ⟨hc, heach⟩
      · exact fun heach => (heach s₁ hs₁).2

/-! ## What is handed out -/

theorem snoc_eq_append_cons {α : Type} {l l₁ l₂ : List α} {x y : α} (h : l ++ [x] = l₁ ++ y :: l₂) :
    (l₂ = [] ∧ x = y ∧ l = l₁) ∨ ∃ l₃, l₂ = l₃ ++ [x] ∧ l = l₁ ++ y :: l₃ := by
  rcases List.eq_nil_or_concat l₂ with rfl | ⟨l₃, z, rfl⟩
  · obtain ⟨rfl, hxy⟩ := List.append_inj' h rfl
    exact .inl ⟨rfl, List.head_eq_of_cons_eq hxy, rfl⟩
  · rw [List.concat_eq_append, ← List.cons_append, ← List.append_assoc] at h
    obtain ⟨rfl, hxz⟩ := List.append_inj' h rfl
    obtain rfl := List.head_eq_of_cons_eq hxz
    exact .inr ⟨l₃, List.concat_eq_append, rfl⟩

section
variable {pools : C → List Nat} {pool : List Nat}

/-- The events of the pools, when those of one of them are `pool`. -/
theorem mem_update_pools {ctx' : C} (h : event ∈ update pools ctx pool ctx') :
    (ctx' = ctx ∧ event ∈ pool) ∨ event ∈ pools ctx' := by
  by_cases hc : ctx' = ctx
  · subst hc
    rw [Function.update_self] at h
    exact .inl ⟨rfl, h⟩
  · rw [Function.update_of_ne hc] at h
    exact .inr h

theorem nodup_update_pools (hpools : ∀ ctx, (pools ctx).Nodup) (hpool : pool.Nodup) (ctx ctx' : C) :
    (update pools ctx pool ctx').Nodup := by
  by_cases hc : ctx' = ctx
  · subst hc
    rw [Function.update_self]
    exact hpool
  · rw [Function.update_of_ne hc]
    exact hpools ctx'

end

omit [DecidableEq C] in
theorem of_update_out {out : Nat → Option C} {o : Option C} {event' : Nat}
    (h : update out event o event' ≠ none) : event' = event ∨ out event' ≠ none := by
  by_cases he : event' = event
  · exact .inl he
  · rw [Function.update_of_ne he] at h
    exact .inr h

/-- An event is in one pool, or in use. -/
structure Inv (s : State C) : Prop where
  nodup : ∀ ctx, (s.pools ctx).Nodup
  home : ∀ ctx ctx' event, event ∈ s.pools ctx → event ∈ s.pools ctx' → ctx = ctx'
  pooled : ∀ ctx, ∀ event ∈ s.pools ctx, s.out event = none ∧ event < s.statics.nextHandle
  used : ∀ event, s.out event ≠ none → event < s.statics.nextHandle
  /-- one that is not in use has been given back since it was handed out -/
  last : ∀ event, s.out event = none → ∀ l₁ l₂, s.log = l₁ ++ Call.popped event :: l₂ →
    Call.pushed event ∈ l₂
  once : HandedOnce s.log

omit [DecidableEq C] in
theorem inv_init : Inv (init : State C) where
  nodup _ := List.nodup_nil
  home _ _ _ h := absurd h List.not_mem_nil
  pooled _ _ h := absurd h List.not_mem_nil
  used _ h := absurd rfl h
  last _ _ l₁ l₂ h := absurd h (by cases l₁ <;> exact nofun)
  once l₁ _ _ _ h := absurd h (by cases l₁ <;> exact nofun)

omit [DecidableEq C] in
/-- An event that is not in use is handed out. -/
theorem Inv.popped (hi : Inv s) {event : Nat} (hout : s.out event = none) (ctx : C) :
    (∀ event', update s.out event (some ctx) event' = none → ∀ l₁ l₂,
      s.log ++ [.popped event] = l₁ ++ Call.popped event' :: l₂ → Call.pushed event' ∈ l₂) ∧
    HandedOnce (s.log ++ [.popped event]) := by
  constructor
  · intro event' hnone l₁ l₂ h
    have hne : event' ≠ event := by
      rintro rfl
      rw [Function.update_self] at hnone
      cases hnone
    rw [Function.update_of_ne hne] at hnone
    rcases snoc_eq_append_cons h with ⟨-, he, -⟩ | ⟨l₃, rfl, hlog⟩
    · cases he
      exact absurd rfl hne
    · exact List.mem_append_left _ (hi.last event' hnone l₁ l₃ hlog)
  · intro l₁ l₂ l₃ event' h
    rw [← List.cons_append, ← List.append_assoc] at h
    rcases snoc_eq_append_cons h with ⟨-, he, hlog⟩ | ⟨l₄, -, hlog⟩
    · cases he
      exact hi.last event hout l₁ l₂ hlog
    · rw [List.append_assoc, List.cons_append] at hlog
      exact hi.once l₁ l₂ l₄ event' hlog

theorem Inv.take (hi : Inv s) {ctx : C} {event : Nat} {rest : List Nat}
    (hpool : s.pools ctx = event :: rest) :
    Inv ⟨s.statics, update s.pools ctx rest, update s.out event (some ctx),
      s.log ++ [.popped event]⟩ := by
  have hnodup := hi.nodup ctx
  rw [hpool, List.nodup_cons] at hnodup
  have hmem : event ∈ s.pools ctx := hpool ▸ List.mem_cons_self
  have hsub : ∀ ctx', ∀ event' ∈ update s.pools ctx rest ctx', event' ∈ s.pools ctx' := by
    intro ctx' event' he
    rcases mem_update_pools he with ⟨rfl, hrest⟩ | hold
    · rw [hpool]
      exact List.mem_cons_of_mem event hrest
    · exact hold
  obtain ⟨hout, hlt⟩ := hi.pooled ctx event hmem
  obtain ⟨hlast, honce⟩ := hi.popped hout ctx
  refine ⟨nodup_update_pools hi.nodup hnodup.2 ctx,
    fun c c' e he he' => hi.home c c' e (hsub c e he) (hsub c' e he'), ?_, ?_, hlast, honce⟩
  · intro ctx' event' he
    have hne : event' ≠ event := by
      rintro rfl
      have hc := hi.home ctx' ctx event' (hsub ctx' event' he) hmem
      subst hc
      dsimp only at he
      rw [Function.update_self] at he
      exact hnodup.1 he
    dsimp only
    rw [Function.update_of_ne hne]
    exact hi.pooled ctx' event' (hsub ctx' event' he)
  · intro event' hused
    rcases of_update_out hused with rfl | hold
    · exact hlt
    · exact hi.used event' hold

omit [DecidableEq C] in
theorem Inv.created_free (hi : Inv s) {ctx : C} {pool : List Nat} {st : Statics C}
    (hfilled : Filled ctx s.statics st pool) {event : Nat} (he : event ∈ pool) :
    s.out event = none := by
  by_contra hused
  have hlt := hi.used event hused
  have hle := (hfilled.handles event he).1
  omega

theorem Inv.fill (hi : Inv s) {ctx : C} {event : Nat} {rest : List Nat} {st : Statics C}
    (hfilled : Filled ctx s.statics st (event :: rest)) :
    Inv ⟨st, update s.pools ctx rest, update s.out event (some ctx), s.log ++ [.popped event]⟩ := by
  have hnodup := List.nodup_cons.1 hfilled.nodup
  have hnext := hfilled.next
  have hnew : ∀ event' ∈ event :: rest, s.out event' = none ∧ (∀ ctx', event' ∉ s.pools ctx') ∧
      event' < st.nextHandle := by
    intro event' he
    obtain ⟨hle, hlt⟩ := hfilled.handles event' he
    refine ⟨hi.created_free hfilled he, fun ctx' hmem => ?_, hlt⟩
    have := (hi.pooled ctx' event' hmem).2
    omega
  obtain ⟨hlast, honce⟩ := hi.popped (hnew event List.mem_cons_self).1 ctx
  refine ⟨nodup_update_pools hi.nodup hnodup.2 ctx, ?_, ?_, ?_, hlast, honce⟩
  · intro c c' event' he he'
    rcases mem_update_pools he with ⟨rfl, hrest⟩ | hold
    · rcases mem_update_pools he' with ⟨rfl, -⟩ | hold'
      · rfl
      · exact absurd hold' ((hnew event' (List.mem_cons_of_mem _ hrest)).2.1 c')
    · rcases mem_update_pools he' with ⟨rfl, hrest⟩ | hold'
      · exact absurd hold ((hnew event' (List.mem_cons_of_mem _ hrest)).2.1 c)
      · exact hi.home c c' event' hold hold'
  · intro ctx' event' he
    dsimp only
    rcases mem_update_pools he with ⟨-, hrest⟩ | hold
    · have hne : event' ≠ event := by
        rintro rfl
        exact hnodup.1 hrest
      obtain ⟨hout, -, hlt⟩ := hnew event' (List.mem_cons_of_mem _ hrest)
      rw [Function.update_of_ne hne]
      exact ⟨hout, hlt⟩
    · have hne : event' ≠ event := by
        rintro rfl
        exact (hnew event' List.mem_cons_self).2.1 ctx' hold
      obtain ⟨hout, hlt⟩ := hi.pooled ctx' event' hold
      rw [Function.update_of_ne hne]
      exact ⟨hout, by omega⟩
  · intro event' hused
    rcases of_update_out hused with rfl | hold
    · exact (hnew event' List.mem_cons_self).2.2
    · exact Nat.lt_of_lt_of_le (hi.used event' hold) hnext

theorem Inv.push (hi : Inv s) {ctx : C} {event : Nat} (hout : s.out event = some ctx) :
    Inv ⟨s.statics, update s.pools ctx (event :: s.pools ctx), update s.out event none,
      s.log ++ [.pushed event]⟩ := by
  have hnot : ∀ ctx', event ∉ s.pools ctx' := by
    intro ctx' hmem
    have hnone := (hi.pooled ctx' event hmem).1
    rw [hout] at hnone
    cases hnone
  have hlt : event < s.statics.nextHandle := hi.used event (by rw [hout]; exact Option.some_ne_none _)
  have hcases : ∀ ctx', ∀ event' ∈ update s.pools ctx (event :: s.pools ctx) ctx',
      (ctx' = ctx ∧ event' = event) ∨ event' ∈ s.pools ctx' := by
    intro ctx' event' he
    rcases mem_update_pools he with ⟨rfl, hmem⟩ | hold
    · exact (List.mem_cons.1 hmem).imp (fun h => ⟨rfl, h⟩) id
    · exact .inr hold
  refine ⟨nodup_update_pools hi.nodup (List.nodup_cons.2 ⟨hnot ctx, hi.nodup ctx⟩) ctx, ?_, ?_, ?_,
    ?_, ?_⟩
  · intro c c' event' he he'
    rcases hcases c event' he with ⟨rfl, rfl⟩ | hold
    · rcases hcases c' event' he' with ⟨rfl, -⟩ | hold'
      · rfl
      · exact absurd hold' (hnot c')
    · rcases hcases c' event' he' with ⟨rfl, rfl⟩ | hold'
      · exact absurd hold (hnot c)
      · exact hi.home c c' event' hold hold'
  · intro ctx' event' he
    dsimp only
    rcases hcases ctx' event' he with ⟨-, rfl⟩ | hold
    · rw [Function.update_self]
      exact ⟨rfl, hlt⟩
    · have hne : event' ≠ event := by
        rintro rfl
        exact hnot ctx' hold
      rw [Function.update_of_ne hne]
      exact hi.pooled ctx' event' hold
  · intro event' hused
    rcases of_update_out hused with rfl | hold
    · exact hlt
    · exact hi.used event' hold
  · intro event' hnone l₁ l₂ h
    rcases snoc_eq_append_cons h with ⟨-, he, -⟩ | ⟨l₃, rfl, hlog⟩
    · cases he
    · by_cases he : event' = event
      · subst he
        exact List.mem_append_right _ List.mem_cons_self
      · dsimp only at hnone
        rw [Function.update_of_ne he] at hnone
        exact List.mem_append_left _ (hi.last event' hnone l₁ l₃ hlog)
  · intro l₁ l₂ l₃ event' h
    rw [← List.cons_append, ← List.append_assoc] at h
    rcases snoc_eq_append_cons h with ⟨-, he, -⟩ | ⟨l₄, -, hlog⟩
    · cases he
    · rw [List.append_assoc, List.cons_append] at hlog
      exact hi.once l₁ l₂ l₄ event' hlog

/-- An event that is handed out was not in use. -/
theorem Inv.popEvent (hi : Inv s) {ctx : C} {event : Nat}
    (h : popEvent grants s ctx = some (event, s')) :
    Inv s' ∧ s.out event = none ∧ s'.out = update s.out event (some ctx) := by
  rcases popEvent_cases h with ⟨rest, hpool, rfl⟩ | ⟨rest, st, hpool, -, hfilled, rfl⟩
  · exact ⟨hi.take hpool, (hi.pooled ctx event (hpool ▸ List.mem_cons_self)).1, rfl⟩
  · exact ⟨hi.fill hfilled, hi.created_free hfilled List.mem_cons_self, rfl⟩

theorem Inv.step {a : Act C} (hi : Inv s) (hret : Returned s a) (h : step grants s a = some s') :
    Inv s' := by
  cases step_does h with
  | take ctx event rest hpool => exact hi.take hpool
  | fill ctx event rest st hpool hrest hfilled => exact hi.fill hfilled
  | push ctx event => exact hi.push (hret ctx event rfl)

/-- **Handed out once.** Where each event is given back to the pool it came from. -/
theorem handed_once {acts : List (Act C)} (h : LTS.exec (step grants) init acts = some s)
    (hret : LTS.EachStep (step grants) Returned init acts) : HandedOnce s.log :=
  (hret.preserve (fun _ _ _ hi hback hs => Inv.step hi hback hs) h inv_init).once

theorem never_refuses {acts : List (Act C)} (h : LTS.exec (step grants) init acts = some s) :
    NeverRefuses grants s := fun _ _ =>
  (staticsInv_exec h staticsInv_init).not_limit

/-- The events of a pool are one place of it. -/
theorem events_share {acts : List (Act C)} (h : LTS.exec (step grants) init acts = some s)
    {e e' : Event C} (he : e ∈ s.statics.created) (he' : e' ∈ s.statics.created) :
    e.index = e'.index := by
  have hi := staticsInv_exec h staticsInv_init
  rw [hi.zero e he, hi.zero e' he']

/-- **Indices of their own.** For every sequence of calls on the pools of any
contexts that does not abort: the events of each pool have indices of their own
below `POOL_SIZE`, none is handed out twice without a `Push` in between where
each `Push` gives back what its pool has handed out, and no pool with room is
refused an event, if and only if no `Pop` has found its pool empty. -/
theorem eventPools_iff (grants : Nat → Bool) (acts : List (Act C)) (s : State C)
    (h : LTS.exec (step grants) init acts = some s) :
    (DistinctIndices s.statics ∧
      (LTS.EachStep (step grants) Returned init acts → HandedOnce s.log) ∧ NeverRefuses grants s) ↔
    LTS.EachStep (step grants) (fun s a => ¬ Creates s a) init acts := by
  rw [← distinct_iff h staticsInv_init rfl]
  exact and_iff_left ⟨handed_once h, never_refuses h⟩

/-- A foreign event is put into a pool and handed out. -/
theorem eventPools_foreign :
    DistinctIndices (C := Unit) ⟨0, none, 0, []⟩ ∧
      (LTS.EachStep (step fun _ => true) Returned init [.push () 7, .pop ()] →
        HandedOnce [.pushed 7, .popped 7]) ∧
      NeverRefuses (fun _ => true)
        ((LTS.exec (step fun _ => true) init [.push () 7, .pop ()]).getD init) := by
  refine (eventPools_iff (C := Unit) (fun _ => true) [.push () 7, .pop ()] _ rfl).2 ?_
  intro s₁ hs₁
  cases hs₁
  refine ⟨?_, fun s₂ _ => ⟨?_, trivial⟩⟩
  · rintro ⟨_, he, -⟩
    cases he
  · rintro ⟨_, -, hempty⟩
    cases hempty

/-- The first `Pop` of a process fills its pool with events of index 0. -/
theorem eventPools_zero :
    ∃ s, LTS.exec (step fun _ => true) init [.pop ()] = some s ∧
      s.statics.created.take 2 = [⟨(), 0, 0⟩, ⟨(), 1, 0⟩] ∧ ¬ DistinctIndices s.statics := by
  have hrun : (LTS.exec (step fun _ => true) (init (C := Unit)) [.pop ()]).map
      (·.statics.created.take 2) = some [⟨(), 0, 0⟩, ⟨(), 1, 0⟩] := by decide +kernel
  obtain ⟨s, hs, htake⟩ := Option.map_eq_some_iff.1 hrun
  refine ⟨s, hs, htake, fun h => ?_⟩
  have hpairwise := h.distinct.sublist (List.take_sublist 2 s.statics.created)
  rw [htake] at hpairwise
  exact List.rel_of_pairwise_cons hpairwise List.mem_cons_self rfl rfl

/-! ## The kernels in flight -/

section Kernels

/-- The `ZeKernelCommand`s and the pools. -/
structure Kernels (K C : Type) where
  pools : State C
  shadowEvent : K → Option Nat

inductive KernelAct (K : Type) where
  | enableSynchronization (k : K)
  | destroy (k : K)

variable {K : Type} [DecidableEq K] (ctx : K → C) (grants)

/-- `ctx` is the context of a kernel's command list.
mirrors platforms/levelzero/hal/src/ze_command.cpp:59-67,88-93 -/
def kernelStep (s : Kernels K C) : KernelAct K → Option (Kernels K C)
  | .enableSynchronization k =>
    if s.shadowEvent k = none then
      (popEvent grants s.pools (ctx k)).map fun (event, pools) =>
        ⟨pools, update s.shadowEvent k (some event)⟩
    else some s
  | .destroy k =>
    match s.shadowEvent k with
    | none => some s
    | some event => some ⟨pushEvent s.pools (ctx k) event, update s.shadowEvent k none⟩

/-- What a kernel holds is lent to it alone, by the pool of its context. -/
structure KernelsInv (s : Kernels K C) : Prop where
  pools : Inv s.pools
  held : ∀ k event, s.shadowEvent k = some event → s.pools.out event = some (ctx k)
  own : ∀ k k' event, s.shadowEvent k = some event → s.shadowEvent k' = some event → k = k'

variable {ctx grants} {s s' : Kernels K C}

omit [DecidableEq C] [DecidableEq K] in
theorem kernelsInv_init : KernelsInv ctx (⟨init, fun _ => none⟩ : Kernels K C) where
  pools := inv_init
  held _ _ h := nomatch h
  own _ _ _ h := nomatch h

theorem KernelsInv.step {a : KernelAct K} (hi : KernelsInv ctx s)
    (h : kernelStep grants ctx s a = some s') : KernelsInv ctx s' := by
  cases a with
  | enableSynchronization k =>
    unfold kernelStep at h
    dsimp only at h
    split at h
    · next hnone =>
      obtain ⟨⟨event, pools⟩, hpop, rfl⟩ := Option.map_eq_some_iff.1 h
      obtain ⟨hinv, hfree, hout⟩ := Inv.popEvent hi.pools hpop
      have hother : ∀ k', s.shadowEvent k' ≠ some event := by
        intro k' hheld
        have hused := hi.held k' event hheld
        rw [hfree] at hused
        cases hused
      refine ⟨hinv, fun k' event' hheld => ?_, fun k' k'' event' hheld hheld' => ?_⟩
      · dsimp only at hheld ⊢
        rw [hout]
        by_cases hk : k' = k
        · subst hk
          rw [Function.update_self, Option.some_inj] at hheld
          rw [← hheld, Function.update_self]
        · rw [Function.update_of_ne hk] at hheld
          have hne : event' ≠ event := by
            rintro rfl
            exact hother k' hheld
          rw [Function.update_of_ne hne]
          exact hi.held k' event' hheld
      · dsimp only at hheld hheld'
        by_cases hk : k' = k
        · subst hk
          by_cases hk' : k'' = k'
          · exact hk'.symm
          · rw [Function.update_self, Option.some_inj] at hheld
            rw [Function.update_of_ne hk', ← hheld] at hheld'
            exact absurd hheld' (hother k'')
        · rw [Function.update_of_ne hk] at hheld
          by_cases hk' : k'' = k
          · subst hk'
            rw [Function.update_self, Option.some_inj] at hheld'
            rw [← hheld'] at hheld
            exact absurd hheld (hother k')
          · rw [Function.update_of_ne hk'] at hheld'
            exact hi.own k' k'' event' hheld hheld'
    · cases h
      exact hi
  | destroy k =>
    unfold kernelStep at h
    dsimp only at h
    split at h
    · cases h
      exact hi
    · next event hheld =>
      cases h
      have hold : ∀ k' event', update s.shadowEvent k none k' = some event' →
          k' ≠ k ∧ s.shadowEvent k' = some event' := by
        intro k' event' h
        by_cases hk : k' = k
        · subst hk
          rw [Function.update_self] at h
          cases h
        · rw [Function.update_of_ne hk] at h
          exact ⟨hk, h⟩
      refine ⟨hi.pools.push (hi.held k event hheld), fun k' event' h => ?_,
        fun k' k'' event' h h' => hi.own k' k'' event' (hold k' event' h).2 (hold k'' event' h').2⟩
      obtain ⟨hk, hold⟩ := hold k' event' h
      have hne : event' ≠ event := by
        rintro rfl
        exact hk (hi.own k' k event' hold hheld)
      change update s.pools.out event none event' = some (ctx k')
      rw [Function.update_of_ne hne]
      exact hi.held k' event' hold

/-- Two kernels in flight hold different events. -/
theorem kernels_hold {acts : List (KernelAct K)}
    (h : LTS.exec (kernelStep grants ctx) ⟨init, fun _ => none⟩ acts = some s) {k k' : K}
    (hne : k ≠ k') {event : Nat} (hk : s.shadowEvent k = some event) :
    s.shadowEvent k' ≠ some event := by
  have hi := LTS.exec_preserve (fun _ _ _ hi hs => KernelsInv.step hi hs) h kernelsInv_init
  exact fun hk' => hne (hi.own k k' event hk hk')

end Kernels

end EventPools
end Xsched.LevelZero
