import Mathlib.Logic.Relation
import Xsched.Core.Bytes

/-!
# Trampolines

Code in memory is patched by putting a jump over one instruction. The jump leads
to a body that is run first, then to the instruction that was replaced, then to
a jump back behind the site. Instructions have one length; what an instruction
does is a relation, so a load may return whatever another thread stored.

* `Installed.reaches_iff`: outside of the injected code, the patched program
  arrives where the original one does that runs the body before the instruction
  at the site, and nowhere else.
-/
namespace Xsched

/-- What an instruction (its bytes) does to a program counter and the rest of a
thread's state. An instruction that ends the thread relates nothing. -/
abbrev Isa (σ : Type) := List UInt8 → Nat × σ → Nat × σ → Prop

namespace Isa
variable {σ : Type} (isa : Isa σ)

/-- One instruction of the code in `m`. -/
def Step (len : Nat) (m : Mem) (p q : Nat × σ) : Prop := isa (m.read p.1 len) p q

def Jumps (instr : List UInt8) (a : Nat) : Prop := ∀ p q, isa instr p q ↔ q = (a, p.2)

/-- The instruction does the same at every address and goes on to the next one. -/
def Movable (len : Nat) (instr : List UInt8) : Prop :=
  ∃ effect : σ → σ → Prop, ∀ p q, isa instr p q ↔ q.1 = p.1 + len ∧ effect p.2 q.2

/-- The code in `m` with `hook` run before the instruction at `site`. -/
def HookedStep (len : Nat) (m : Mem) (site : Nat) (hook : σ → σ → Prop) (p q : Nat × σ) : Prop :=
  p.1 ≠ site ∧ isa.Step len m p q ∨ p.1 = site ∧ ∃ s, hook p.2 s ∧ isa.Step len m (site, s) q

end Isa

/-- The patched instruction, and the injected code with the size of its body. -/
structure Trampoline where
  site : Nat
  inject : Nat
  body : Nat

namespace Trampoline
variable {σ : Type} (t : Trampoline) (isa : Isa σ) (len : Nat)

/-- The addresses of the body, the moved instruction and the jump back. -/
def Within (a : Nat) : Prop := t.inject ≤ a ∧ a < t.inject + t.body + 2 * len

/-- An aligned address that the original program may be at. -/
def Visible (a : Nat) : Prop := len ∣ a ∧ ¬ t.Within len a

def BodyStep (m : Mem) (p q : Nat × σ) : Prop :=
  t.inject ≤ p.1 ∧ p.1 < t.inject + t.body ∧ isa.Step len m p q

/-- A pass through the body. -/
def Hook (m : Mem) (s s' : σ) : Prop :=
  Relation.ReflTransGen (t.BodyStep isa len m) (t.inject, s) (t.inject + t.body, s')

/-- `m'` is `m` with the trampoline. -/
structure Installed (m m' : Mem) : Prop where
  len_pos : 0 < len
  site : t.Visible len t.site
  inject : len ∣ t.inject
  body : len ∣ t.body
  jump : isa.Jumps (m'.read t.site len) t.inject
  moved : m'.read (t.inject + t.body) len = m.read t.site len
  movable : isa.Movable len (m.read t.site len)
  back : isa.Jumps (m'.read (t.inject + t.body + len) len) (t.site + len)
  same : ∀ a, t.Visible len a → a ≠ t.site → m'.read a len = m.read a len
  /-- The body leaves itself at its end only. -/
  closed : ∀ p q, len ∣ p.1 → t.BodyStep isa len m' p q →
    len ∣ q.1 ∧ t.inject ≤ q.1 ∧ q.1 ≤ t.inject + t.body
  /-- The original program knows nothing of the injected code. -/
  unaware : ∀ p q, t.Visible len p.1 → isa.Step len m p q → t.Visible len q.1

namespace Installed
variable {t} {isa} {len} {m m' : Mem}

/-- Where the patched program is, in terms of the hooked one. -/
inductive Tracks (p₀ : Nat × σ) (t : Trampoline) (isa : Isa σ) (len : Nat) (m m' : Mem) :
    Nat × σ → Prop
  | visible {q} (hv : t.Visible len q.1)
      (hr : Relation.ReflTransGen (isa.HookedStep len m t.site (t.Hook isa len m')) p₀ q) :
      Tracks p₀ t isa len m m' q
  | body {s q} (hd : len ∣ q.1) (hin : t.inject ≤ q.1 ∧ q.1 ≤ t.inject + t.body)
      (hr : Relation.ReflTransGen (isa.HookedStep len m t.site (t.Hook isa len m')) p₀ (t.site, s))
      (hb : Relation.ReflTransGen (t.BodyStep isa len m') (t.inject, s) q) :
      Tracks p₀ t isa len m m' q
  | back {q s} (hpc : q.1 = t.inject + t.body + len)
      (hr : Relation.ReflTransGen (isa.HookedStep len m t.site (t.Hook isa len m')) p₀
        (t.site + len, s)) (hv : t.Visible len (t.site + len)) (hs : q.2 = s) :
      Tracks p₀ t isa len m m' q

theorem visible_eq (hi : t.Installed isa len m m') {p : Nat × σ} (hv : t.Visible len p.1)
    (hne : p.1 ≠ t.site) (q : Nat × σ) : isa.Step len m' p q ↔ isa.Step len m p q := by
  unfold Isa.Step
  rw [hi.same p.1 hv hne]

/-- The moved instruction does at the end of the body what it did at the site. -/
theorem step_moved (hi : t.Installed isa len m m') {s s' : σ} {a : Nat} :
    isa.Step len m' (t.inject + t.body, s) (a, s') ↔
      a = t.inject + t.body + len ∧ isa.Step len m (t.site, s) (t.site + len, s') := by
  obtain ⟨effect, heffect⟩ := hi.movable
  unfold Isa.Step
  simp only [hi.moved, heffect, true_and]

theorem step_site (hi : t.Installed isa len m m') {s : σ} {q : Nat × σ}
    (h : isa.Step len m (t.site, s) q) : q.1 = t.site + len := by
  obtain ⟨effect, heffect⟩ := hi.movable
  exact ((heffect _ _).1 h).1

/-- Each instruction of the patched program keeps track. -/
theorem tracks_step (hi : t.Installed isa len m m') {p₀ p q : Nat × σ}
    (ht : Tracks p₀ t isa len m m' p) (hs : isa.Step len m' p q) : Tracks p₀ t isa len m m' q := by
  cases ht with
  | visible hv hr =>
    by_cases hsite : p.1 = t.site
    · obtain ⟨pc, s⟩ := p
      cases hsite
      have hq : q = (t.inject, s) := (hi.jump _ _).1 hs
      subst hq
      exact .body hi.inject ⟨Nat.le_refl _, Nat.le_add_right _ _⟩ hr .refl
    · have hstep := (hi.visible_eq hv hsite q).1 hs
      exact .visible (hi.unaware _ _ hv hstep) (hr.tail (Or.inl ⟨hsite, hstep⟩))
  | @body s _ hd hin hr hb =>
    by_cases hend : p.1 = t.inject + t.body
    · -- the moved instruction: with it the hooked step at the site is complete
      obtain ⟨pc, s₁⟩ := p
      obtain ⟨pc', s₂⟩ := q
      cases hend
      obtain ⟨hpc, horig⟩ := hi.step_moved.1 hs
      refine .back hpc (hr.tail (Or.inr ⟨rfl, s₁, hb, horig⟩)) (hi.unaware _ _ hi.site horig) rfl
    · have hbody : t.BodyStep isa len m' p q := ⟨hin.1, by omega, hs⟩
      obtain ⟨hd', hin'⟩ := hi.closed p q hd hbody
      exact .body hd' hin' hr (hb.tail hbody)
  | @back _ s hpc hr hv hs' =>
    obtain ⟨pc, s₁⟩ := p
    cases hpc
    cases hs'
    have hq : q = (t.site + len, s₁) := (hi.back _ _).1 hs
    subst hq
    exact .visible hv hr

theorem Tracks.of_reaches (hi : t.Installed isa len m m') {p q : Nat × σ}
    (hp : t.Visible len p.1) (h : Relation.ReflTransGen (isa.Step len m') p q) :
    Tracks p t isa len m m' q := by
  induction h with
  | refl => exact .visible hp .refl
  | tail _ hs ih => exact hi.tracks_step ih hs

/-- One step of the hooked program is a run of the patched one. -/
theorem reaches_of_hooked (hi : t.Installed isa len m m') {p q : Nat × σ}
    (hp : t.Visible len p.1) (h : isa.HookedStep len m t.site (t.Hook isa len m') p q) :
    t.Visible len q.1 ∧ Relation.ReflTransGen (isa.Step len m') p q := by
  rcases h with ⟨hne, hs⟩ | ⟨hsite, s, hhook, hs⟩
  · exact ⟨hi.unaware _ _ hp hs, .single ((hi.visible_eq hp hne q).2 hs)⟩
  · obtain ⟨pc, s₀⟩ := p
    obtain ⟨pc', s'⟩ := q
    cases hsite
    have hpc : pc' = t.site + len := hi.step_site hs
    subst hpc
    have hin : isa.Step len m' (t.site, s₀) (t.inject, s₀) := (hi.jump _ _).2 rfl
    have hbody : Relation.ReflTransGen (isa.Step len m') (t.inject, s₀) (t.inject + t.body, s) :=
      Relation.ReflTransGen.mono (fun _ _ hb => hb.2.2) _ _ hhook
    have hmoved : isa.Step len m' (t.inject + t.body, s) (t.inject + t.body + len, s') :=
      hi.step_moved.2 ⟨rfl, hs⟩
    have hout : isa.Step len m' (t.inject + t.body + len, s') (t.site + len, s') :=
      (hi.back _ _).2 rfl
    exact ⟨hi.unaware _ _ hi.site hs, ((hbody.head hin).tail hmoved).tail hout⟩

theorem reaches_iff (hi : t.Installed isa len m m') {p q : Nat × σ} (hp : t.Visible len p.1)
    (hq : t.Visible len q.1) :
    Relation.ReflTransGen (isa.Step len m') p q ↔
      Relation.ReflTransGen (isa.HookedStep len m t.site (t.Hook isa len m')) p q := by
  constructor
  · intro h
    cases Tracks.of_reaches hi hp h with
    | visible _ hr => exact hr
    | body _ hin _ _ =>
      have := hi.len_pos
      exact absurd ⟨hin.1, by omega⟩ hq.2
    | back hpc _ _ _ =>
      have := hi.len_pos
      exact absurd ⟨by omega, by omega⟩ hq.2
  · intro h
    have hrun : t.Visible len q.1 ∧ Relation.ReflTransGen (isa.Step len m') p q := by
      clear hq
      induction h with
      | refl => exact ⟨hp, .refl⟩
      | tail _ hs ih =>
        obtain ⟨hv, hr⟩ := hi.reaches_of_hooked ih.1 hs
        exact ⟨hv, ih.2.trans hr⟩
    exact hrun.2

end Installed
end Trampoline
end Xsched
