import Mathlib.Algebra.Group.Nat.Defs
import Mathlib.Data.List.Basic

/-!
# Labelled transition systems

A system is a set of initial states and a labelled step relation. A run is a
finite chain of steps, a state is reachable when a run from an initial state
ends in it, and a property holds of every reachable state when it is
inductive (`Inductive.reachable`), possibly relative to facts already known
of reachable states (`reachable_induction`).

`restrict ok` keeps the steps that meet a condition on the state before the
step and the label: "every run whose steps all meet `ok`" is a run of the
restricted system. `reachable_map` carries reachability along a function
that maps every step to a step or to no step at all (a refinement map with
stuttering), and `exec` runs a step function on a list of labels, so that a
concrete run can be evaluated.

`recording` adds a history variable that no step reads: every run of the
system is one of the system with the record, and back.

`Throughout` and `EachStep` are about one run: what holds in all of its states,
and what all of its steps meet. One may come back after it was lost, so the
first is not a matter of the last state (`throughout_iff`).
-/
namespace Xsched

structure LTS (S L : Type) where
  init : S → Prop
  step : S → L → S → Prop

namespace LTS

/-- The system of a partial step function. -/
def ofFn {S L : Type} (init : S → Prop) (f : S → L → Option S) : LTS S L where
  init := init
  step s l s' := f s l = some s'

/-- The steps of `M` that meet `ok` in the state before the step. -/
def restrict {S L : Type} (M : LTS S L) (ok : S → L → Prop) : LTS S L where
  init := M.init
  step s l s' := M.step s l s' ∧ ok s l

section Runs
variable {S L : Type} (M : LTS S L)

inductive Run : S → List L → S → Prop
  | nil (s : S) : Run s [] s
  | cons {s l s' ls s''} : M.step s l s' → Run s' ls s'' → Run s (l :: ls) s''

def Reachable (s : S) : Prop := ∃ s₀ ls, M.init s₀ ∧ M.Run s₀ ls s

/-- `I` holds initially and every step preserves it. -/
structure Inductive (I : S → Prop) : Prop where
  init : ∀ s, M.init s → I s
  step : ∀ s l s', I s → M.step s l s' → I s'

variable {M}

theorem Run.snoc {s s' s'' : S} {ls : List L} {l : L} (hr : M.Run s ls s')
    (hs : M.step s' l s'') : M.Run s (ls ++ [l]) s'' := by
  induction hr with
  | nil s => exact .cons hs (.nil _)
  | cons h _ ih => exact .cons h (ih hs)

theorem Run.append {s s' s'' : S} {ls ls' : List L} (h₁ : M.Run s ls s') (h₂ : M.Run s' ls' s'') :
    M.Run s (ls ++ ls') s'' := by
  induction h₁ with
  | nil s => exact h₂
  | cons h _ ih => exact .cons h (ih h₂)

theorem reachable_init {s : S} (h : M.init s) : M.Reachable s := ⟨s, [], h, .nil s⟩

theorem Reachable.step {s s' : S} {l : L} (hr : M.Reachable s) (hs : M.step s l s') :
    M.Reachable s' := by
  obtain ⟨s₀, ls, h₀, hrun⟩ := hr
  exact ⟨s₀, ls ++ [l], h₀, hrun.snoc hs⟩

theorem Reachable.run {s s' : S} {ls : List L} (hr : M.Reachable s) (h : M.Run s ls s') :
    M.Reachable s' := by
  obtain ⟨s₀, ls₀, h₀, hrun⟩ := hr
  exact ⟨s₀, ls₀ ++ ls, h₀, hrun.append h⟩

/-- What every step preserves from reachable states, a run preserves. -/
theorem Run.preserve {I : S → Prop}
    (hstep : ∀ s l s', M.Reachable s → I s → M.step s l s' → I s') {s s' : S} {ls : List L}
    (h : M.Run s ls s') (hr : M.Reachable s) (hi : I s) : I s' := by
  induction h with
  | nil s => exact hi
  | cons hs _ ih => exact ih (hr.step hs) (hstep _ _ _ hr hi hs)

/-- Induction over reachable states; the step may use that the state before
it is reachable, so invariants proved earlier are at hand. -/
theorem reachable_induction {I : S → Prop} (h0 : ∀ s, M.init s → I s)
    (hstep : ∀ s l s', M.Reachable s → I s → M.step s l s' → I s') {s : S}
    (hr : M.Reachable s) : I s := by
  obtain ⟨s₀, ls, h₀, hrun⟩ := hr
  exact hrun.preserve hstep (reachable_init h₀) (h0 s₀ h₀)

theorem Inductive.reachable {I : S → Prop} (h : M.Inductive I) (s : S) (hr : M.Reachable s) : I s :=
  reachable_induction h.init (fun s l s' _ hi hs => h.step s l s' hi hs) hr

/-- Induction on the last step of a run, with its labels. -/
theorem Run.snoc_induction {P : List L → S → Prop} {s₀ : S} (h0 : P [] s₀)
    (hstep : ∀ ls s l s', M.Run s₀ ls s → P ls s → M.step s l s' → P (ls ++ [l]) s') {s : S}
    {ls : List L} (h : M.Run s₀ ls s) : P ls s := by
  have hgen : ∀ {s s' ls'}, M.Run s ls' s' → ∀ ls, M.Run s₀ ls s → P ls s → P (ls ++ ls') s' := by
    intro s s' ls' hr
    induction hr with
    | nil s => intro ls _ hp; rwa [List.append_nil]
    | cons hs _ ih =>
      intro ls hrun hp
      rw [List.append_cons]
      exact ih _ (hrun.snoc hs) (hstep _ _ _ _ hrun hp hs)
  exact hgen h [] (.nil s₀) h0

/-! ## Restriction -/

theorem Run.of_restrict {ok : S → L → Prop} {s s' : S} {ls : List L}
    (h : (M.restrict ok).Run s ls s') : M.Run s ls s' := by
  induction h with
  | nil s => exact .nil s
  | cons hs _ ih => exact .cons hs.1 ih

theorem Reachable.of_restrict {ok : S → L → Prop} {s : S} (h : (M.restrict ok).Reachable s) :
    M.Reachable s := by
  obtain ⟨s₀, ls, h₀, hrun⟩ := h
  exact ⟨s₀, ls, h₀, hrun.of_restrict⟩

theorem Run.restrict_mono {ok ok' : S → L → Prop} (hok : ∀ s l, ok s l → ok' s l) {s s' : S}
    {ls : List L} (h : (M.restrict ok).Run s ls s') : (M.restrict ok').Run s ls s' := by
  induction h with
  | nil s => exact .nil s
  | cons hs _ ih => exact .cons ⟨hs.1, hok _ _ hs.2⟩ ih

/-- A condition that every step from a reachable state meets. -/
theorem Run.to_restrict {ok : S → L → Prop} {s s' : S} {ls : List L} (h : M.Run s ls s')
    (hr : M.Reachable s) (hok : ∀ s l s', M.Reachable s → M.step s l s' → ok s l) :
    (M.restrict ok).Run s ls s' := by
  induction h with
  | nil s => exact .nil s
  | cons hs _ ih => exact .cons ⟨hs, hok _ _ _ hr hs⟩ (ih (hr.step hs))

/-- A condition may be exchanged for one that agrees with it on the steps from
reachable states. -/
theorem Run.restrict_congr {ok ok' : S → L → Prop} {s s' : S} {ls : List L}
    (h : (M.restrict ok).Run s ls s') (hr : M.Reachable s)
    (hok : ∀ s l s', M.Reachable s → M.step s l s' → ok s l → ok' s l) :
    (M.restrict ok').Run s ls s' := by
  induction h with
  | nil s => exact .nil s
  | cons hs _ ih => exact .cons ⟨hs.1, hok _ _ _ hr hs.1 hs.2⟩ (ih (hr.step hs.1))

/-- Where each step keeps `P` exactly if `P` held and the step meets `ok`, `P`
holds after a run exactly if all of its steps meet `ok`. -/
theorem Run.restrict_iff {P : S → Prop} {ok : S → L → Prop}
    (hstep : ∀ s l s', M.Reachable s → M.step s l s' → (P s' ↔ P s ∧ ok s l)) {s s' : S}
    {ls : List L} (h : M.Run s ls s') (hr : M.Reachable s) (hp : P s) :
    P s' ↔ (M.restrict ok).Run s ls s' := by
  constructor
  · intro hp'
    have hback : P s ∧ (M.restrict ok).Run s ls s' := by
      clear hp
      induction h with
      | nil s => exact ⟨hp', .nil s⟩
      | cons hs _ ih =>
        obtain ⟨hp₁, hrun⟩ := ih (hr.step hs) hp'
        obtain ⟨hp, hok⟩ := (hstep _ _ _ hr hs).1 hp₁
        exact ⟨hp, .cons ⟨hs, hok⟩ hrun⟩
    exact hback.2
  · intro hrun
    clear h
    induction hrun with
    | nil s => exact hp
    | cons hs _ ih => exact ih (hr.step hs.1) ((hstep _ _ _ hr hs.1).2 ⟨hp, hs.2⟩)

theorem Reachable.restrict_mono {ok ok' : S → L → Prop} (hok : ∀ s l, ok s l → ok' s l) {s : S}
    (h : (M.restrict ok).Reachable s) : (M.restrict ok').Reachable s := by
  obtain ⟨s₀, ls, h₀, hrun⟩ := h
  exact ⟨s₀, ls, h₀, hrun.restrict_mono hok⟩

end Runs

/-! ## Refinement maps -/

/-- Every step of `M` is a step of `N` on the images, or leaves the image
alone; then images of reachable states are reachable. -/
theorem reachable_map {S L T K : Type} {M : LTS S L} {N : LTS T K} (f : S → T)
    (h0 : ∀ s, M.init s → N.init (f s))
    (hstep : ∀ s l s', M.Reachable s → M.step s l s' → f s' = f s ∨ ∃ k, N.step (f s) k (f s'))
    {s : S} (hr : M.Reachable s) : N.Reachable (f s) := by
  refine reachable_induction (I := fun s => N.Reachable (f s)) ?_ ?_ hr
  · exact fun s h => reachable_init (h0 s h)
  · intro s l s' hr hi hs
    rcases hstep s l s' hr hs with he | ⟨k, hk⟩
    · rw [he]; exact hi
    · exact hi.step hk

/-- A run is mapped to a run; `w` and `w'` pick the labels to count, and a
counted label goes to a counted one. -/
theorem Run.map {S L T K : Type} {M : LTS S L} {N : LTS T K} (f : S → T) {w : L → Bool}
    {w' : K → Bool}
    (hstep : ∀ s l s', M.step s l s' →
      f s' = f s ∧ w l = false ∨ ∃ k, N.step (f s) k (f s') ∧ w' k = w l)
    {s s' : S} {ls : List L} (h : M.Run s ls s') :
    ∃ ks, N.Run (f s) ks (f s') ∧ ks.countP w' = ls.countP w := by
  induction h with
  | nil s => exact ⟨[], .nil _, rfl⟩
  | cons hs _ ih =>
    obtain ⟨ks, hrun, hcount⟩ := ih
    rcases hstep _ _ _ hs with ⟨he, hw⟩ | ⟨k, hk, hw⟩
    · refine ⟨ks, by rw [← he]; exact hrun, ?_⟩
      rw [List.countP_cons, hw, hcount]; rfl
    · refine ⟨k :: ks, .cons hk hrun, ?_⟩
      rw [List.countP_cons, List.countP_cons, hw, hcount]

/-! ## History variables -/

section Recording
variable {S L G : Type} {init : S → Prop} {f : S → L → Option S} {g₀ : S → G}
  {upd : S → L → S → G → G}

/-- A step function that keeps a record of its steps. -/
def recording (f : S → L → Option S) (upd : S → L → S → G → G) (s : S × G) (l : L) :
    Option (S × G) :=
  (f s.1 l).map fun s' => (s', upd s.1 l s' s.2)

/-- The system of a step function with a record, which begins with `g₀`. -/
def recorded (init : S → Prop) (f : S → L → Option S) (g₀ : S → G) (upd : S → L → S → G → G) :
    LTS (S × G) L :=
  .ofFn (fun s => init s.1 ∧ s.2 = g₀ s.1) (recording f upd)

theorem recording_eq_some {s s' : S × G} {l : L} :
    recording f upd s l = some s' ↔ f s.1 l = some s'.1 ∧ s'.2 = upd s.1 l s'.1 s.2 := by
  unfold recording
  rw [Option.map_eq_some_iff]
  constructor
  · rintro ⟨t, ht, rfl⟩; exact ⟨ht, rfl⟩
  · intro h; exact ⟨s'.1, h.1, Prod.ext rfl h.2.symm⟩

/-- The record changes nothing. -/
theorem reachable_of_recorded {s : S × G} (hr : (recorded init f g₀ upd).Reachable s) :
    (ofFn init f).Reachable s.1 := by
  refine reachable_map (M := recorded init f g₀ upd) (N := ofFn init f) Prod.fst ?_ ?_ hr
  · exact fun s h => h.1
  · intro s l s' _ hs
    exact Or.inr ⟨l, (recording_eq_some.1 hs).1⟩

/-- Induction over what is reached together with its record. -/
theorem recorded_induction {I : S → G → Prop} (h0 : ∀ s, init s → I s (g₀ s))
    (hstep : ∀ s l s' g, (ofFn init f).Reachable s → I s g → f s l = some s' →
      I s' (upd s l s' g)) {x : S × G} (hr : (recorded init f g₀ upd).Reachable x) :
    I x.1 x.2 := by
  refine reachable_induction (I := fun x => I x.1 x.2) ?_ ?_ hr
  · intro x h
    rw [h.2]
    exact h0 x.1 h.1
  · intro x l x' hr hi hs
    obtain ⟨hf, hg⟩ := recording_eq_some.1 hs
    rw [hg]
    exact hstep x.1 l x'.1 x.2 (reachable_of_recorded hr) hi hf

theorem recorded_restrict_induction {ok : S × G → L → Prop} {I : S → G → Prop}
    (h0 : ∀ s, init s → I s (g₀ s))
    (hstep : ∀ s l s' g, (ofFn init f).Reachable s → I s g → ok (s, g) l → f s l = some s' →
      I s' (upd s l s' g)) {x : S × G} (hr : ((recorded init f g₀ upd).restrict ok).Reachable x) :
    I x.1 x.2 := by
  refine reachable_induction (I := fun x => I x.1 x.2) ?_ ?_ hr
  · intro x h
    rw [h.2]
    exact h0 x.1 h.1
  · intro x l x' hr hi hs
    obtain ⟨hf, hg⟩ := recording_eq_some.1 hs.1
    rw [hg]
    exact hstep x.1 l x'.1 x.2 (reachable_of_recorded hr.of_restrict) hi hs.2 hf

variable (g₀ upd) in
/-- What is reached is reached with some record. -/
theorem exists_recorded {s : S} (hr : (ofFn init f).Reachable s) :
    ∃ g, (recorded init f g₀ upd).Reachable (s, g) := by
  refine reachable_induction (M := ofFn init f)
    (I := fun s => ∃ g, (recorded init f g₀ upd).Reachable (s, g)) ?_ ?_ hr
  · exact fun s h0 => ⟨g₀ s, reachable_init ⟨h0, rfl⟩⟩
  · rintro s l s' - ⟨g, hg⟩ hs
    exact ⟨upd s l s' g, hg.step (recording_eq_some.2 ⟨hs, rfl⟩)⟩

end Recording

/-! ## Concrete runs -/

/-- Run a step function on a list of labels. -/
def exec {S L : Type} (f : S → L → Option S) : S → List L → Option S
  | s, [] => some s
  | s, l :: ls => (f s l).bind fun s' => exec f s' ls

theorem exec_append {S L : Type} {f : S → L → Option S} {s s' : S} {ls : List L}
    (h : exec f s ls = some s') (ls' : List L) : exec f s (ls ++ ls') = exec f s' ls' := by
  induction ls generalizing s with
  | nil => cases h; rfl
  | cons l ls ih =>
    simp only [exec, Option.bind_eq_some_iff] at h
    obtain ⟨s₁, h₁, h₂⟩ := h
    simp only [List.cons_append, exec, h₁, Option.bind_some]
    exact ih h₂

theorem exec_map {S L K : Type} (f : S → L → Option S) (g : K → L) (s : S) (ks : List K) :
    exec f s (ks.map g) = exec (fun s k => f s (g k)) s ks := by
  induction ks generalizing s with
  | nil => rfl
  | cons k ks ih => exact Option.bind_congr fun s' _ => ih s'

/-- What every step keeps, a run keeps. -/
theorem exec_preserve {S L : Type} {f : S → L → Option S} {I : S → Prop}
    (hstep : ∀ s l s', I s → f s l = some s' → I s') {s s' : S} {ls : List L}
    (h : exec f s ls = some s') (hi : I s) : I s' := by
  induction ls generalizing s with
  | nil =>
    cases h
    exact hi
  | cons l ls ih =>
    obtain ⟨s₁, h₁, h₂⟩ := Option.bind_eq_some_iff.1 h
    exact ih h₂ (hstep s l s₁ hi h₁)

/-- What a step makes of a part of the state from that part and the label, a run
makes of it label by label. -/
theorem exec_foldl {S L T : Type} {f : S → L → Option S} {g : S → T} {upd : T → L → T}
    (hstep : ∀ s l s', f s l = some s' → g s' = upd (g s) l) {s s' : S} {ls : List L}
    (h : exec f s ls = some s') : g s' = ls.foldl upd (g s) := by
  induction ls generalizing s with
  | nil =>
    cases h
    rfl
  | cons l ls ih =>
    obtain ⟨s₁, h₁, h₂⟩ := Option.bind_eq_some_iff.1 h
    rw [List.foldl_cons, ← hstep s l s₁ h₁]
    exact ih h₂

theorem run_of_exec {S L : Type} {init : S → Prop} {f : S → L → Option S} :
    ∀ {s s' : S} {ls : List L}, exec f s ls = some s' → (ofFn init f).Run s ls s'
  | s, s', [], h => by
    simp only [exec, Option.some.injEq] at h; subst h; exact .nil _
  | s, s', l :: ls, h => by
    simp only [exec, Option.bind_eq_some_iff] at h
    obtain ⟨s₁, h₁, h₂⟩ := h
    exact .cons h₁ (run_of_exec h₂)

/-- A step function that refuses the steps that do not meet `ok`. -/
def guarded {S L : Type} (ok : S → L → Prop) [∀ s l, Decidable (ok s l)] (f : S → L → Option S)
    (s : S) (l : L) : Option S :=
  if ok s l then f s l else none

theorem run_restrict_of_exec {S L : Type} {init : S → Prop} {f : S → L → Option S}
    {ok : S → L → Prop} [∀ s l, Decidable (ok s l)] :
    ∀ {s s' : S} {ls : List L}, exec (guarded ok f) s ls = some s' →
      ((ofFn init f).restrict ok).Run s ls s'
  | s, s', [], h => by
    simp only [exec, Option.some.injEq] at h; subst h; exact .nil _
  | s, s', l :: ls, h => by
    simp only [exec, Option.bind_eq_some_iff] at h
    obtain ⟨s₁, h₁, h₂⟩ := h
    unfold guarded at h₁
    split at h₁
    · rename_i hok; exact .cons ⟨h₁, hok⟩ (run_restrict_of_exec h₂)
    · cases h₁

theorem reachable_restrict_of_exec {S L : Type} {init : S → Prop} {f : S → L → Option S}
    {ok : S → L → Prop} [∀ s l, Decidable (ok s l)] {s s' : S} {ls : List L} (h0 : init s)
    (h : exec (guarded ok f) s ls = some s') : ((ofFn init f).restrict ok).Reachable s' :=
  ⟨s, ls, h0, run_restrict_of_exec h⟩

theorem reachable_of_exec {S L : Type} {init : S → Prop} {f : S → L → Option S} {s s' : S}
    {ls : List L} (h0 : init s) (h : exec f s ls = some s') : (ofFn init f).Reachable s' :=
  ⟨s, ls, h0, run_of_exec h⟩

/-! ## Along a run -/

section Along
variable {S L : Type} {init : S → Prop} {f : S → L → Option S}

/-- `P` holds in every state of the run of these labels. -/
def Throughout (f : S → L → Option S) (P : S → Prop) : S → List L → Prop
  | s, [] => P s
  | s, l :: ls => P s ∧ ∀ s', f s l = some s' → Throughout f P s' ls

/-- Every step of the run of these labels meets `ok`. -/
def EachStep (f : S → L → Option S) (ok : S → L → Prop) : S → List L → Prop
  | _, [] => True
  | s, l :: ls => ∀ s', f s l = some s' → ok s l ∧ EachStep f ok s' ls

theorem Throughout.first {P : S → Prop} {s : S} {ls : List L} (h : Throughout f P s ls) : P s := by
  cases ls with
  | nil => exact h
  | cons l ls => exact h.1

theorem Throughout.last {P : S → Prop} {s s' : S} {ls : List L} (h : Throughout f P s ls)
    (he : exec f s ls = some s') : P s' := by
  induction ls generalizing s with
  | nil =>
    cases he
    exact h
  | cons l ls ih =>
    obtain ⟨s₁, hs₁, he⟩ := Option.bind_eq_some_iff.1 he
    exact ih (h.2 s₁ hs₁) he

/-- Where a step from a state with `P` leads to one with `P` exactly if it meets
`ok`, a run from such a state keeps `P` exactly if each of its steps meets `ok`. -/
theorem throughout_iff {P : S → Prop} {ok : S → L → Prop}
    (hstep : ∀ s l s', (ofFn init f).Reachable s → P s → f s l = some s' → (P s' ↔ ok s l)) {s : S}
    (hr : (ofFn init f).Reachable s) (hp : P s) (ls : List L) :
    Throughout f P s ls ↔ EachStep f ok s ls := by
  induction ls generalizing s with
  | nil => exact iff_of_true hp trivial
  | cons l ls ih =>
    constructor
    · rintro ⟨-, hrest⟩ s' hs'
      have hp' : P s' := (hrest s' hs').first
      exact ⟨(hstep s l s' hr hp hs').1 hp', (ih (hr.step hs') hp').1 (hrest s' hs')⟩
    · intro h
      refine ⟨hp, fun s' hs' => ?_⟩
      obtain ⟨hok, hrest⟩ := h s' hs'
      exact (ih (hr.step hs') ((hstep s l s' hr hp hs').2 hok)).2 hrest

/-- A run whose steps all meet `ok` is one of the restricted system. -/
theorem EachStep.run {ok : S → L → Prop} {s s' : S} {ls : List L} (h : EachStep f ok s ls)
    (he : exec f s ls = some s') : ((ofFn init f).restrict ok).Run s ls s' := by
  induction ls generalizing s with
  | nil =>
    cases he
    exact .nil _
  | cons l ls ih =>
    obtain ⟨s₁, hs₁, he⟩ := Option.bind_eq_some_iff.1 he
    exact .cons ⟨hs₁, (h s₁ hs₁).1⟩ (ih (h s₁ hs₁).2 he)

/-- What every step that meets `ok` keeps, a run of such steps keeps. -/
theorem EachStep.preserve {ok : S → L → Prop} {I : S → Prop}
    (hstep : ∀ s l s', I s → ok s l → f s l = some s' → I s') {s s' : S} {ls : List L}
    (h : EachStep f ok s ls) (he : exec f s ls = some s') (hi : I s) : I s' := by
  induction ls generalizing s with
  | nil =>
    cases he
    exact hi
  | cons l ls ih =>
    obtain ⟨s₁, hs₁, he⟩ := Option.bind_eq_some_iff.1 he
    obtain ⟨hok, hrest⟩ := h s₁ hs₁
    exact ih hrest he (hstep s l s₁ hi hok hs₁)

theorem eachStep_of_exec {ok : S → L → Prop} [∀ s l, Decidable (ok s l)] {s s' : S} {ls : List L}
    (h : exec (guarded ok f) s ls = some s') : EachStep f ok s ls ∧ exec f s ls = some s' := by
  induction ls generalizing s with
  | nil => exact ⟨trivial, h⟩
  | cons l ls ih =>
    obtain ⟨s₁, hs₁, he⟩ := Option.bind_eq_some_iff.1 h
    unfold guarded at hs₁
    split at hs₁
    · next hok =>
      obtain ⟨hrest, hlast⟩ := ih he
      refine ⟨fun s₂ hs₂ => ?_, ?_⟩
      · cases hs₁.symm.trans hs₂
        exact ⟨hok, hrest⟩
      · rw [exec, hs₁]
        exact hlast
    · cases hs₁

theorem EachStep.exec_guarded {ok : S → L → Prop} [∀ s l, Decidable (ok s l)] {s : S}
    {ls : List L} (h : EachStep f ok s ls) : exec (guarded ok f) s ls = exec f s ls := by
  induction ls generalizing s with
  | nil => rfl
  | cons l ls ih =>
    unfold exec guarded
    cases hs : f s l with
    | none => simp
    | some s₁ =>
      obtain ⟨hok, hrest⟩ := h s₁ hs
      rw [if_pos hok]
      exact ih hrest

/-- Two conditions that agree on the steps from reachable states. -/
theorem eachStep_congr {ok ok' : S → L → Prop}
    (hok : ∀ s l s', (ofFn init f).Reachable s → f s l = some s' → (ok s l ↔ ok' s l)) {s : S}
    (hr : (ofFn init f).Reachable s) (ls : List L) :
    EachStep f ok s ls ↔ EachStep f ok' s ls := by
  induction ls generalizing s with
  | nil => exact Iff.rfl
  | cons l ls ih =>
    refine forall_congr' fun s' => forall_congr' fun hs' => ?_
    exact and_congr (hok s l s' hr hs') (ih (hr.step hs'))

end Along

end LTS
end Xsched
