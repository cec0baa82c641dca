import Xsched.Core.LTS

/-!
# Two runs of one machine

A machine takes an input in a state and answers it with an output and a next
state, or is stuck. `outputs` is what it answers to a list of inputs.

Two states are told apart by some list of inputs, or by none. The second is
shown by unwinding: a relation between states that every input preserves, and
whose states give every input the same answer (`Unwinding`). Then the
relation hides whatever it leaves open about a state from every later output
(`Unwinding.outputs_eq`).

A machine that handles an input by a loop over a list, each turn of which
changes the state and makes some calls, is a `forEach`; a relation that every
turn preserves, with the same calls, is preserved by the loop
(`forEach_rel`).
-/
namespace Xsched

section Machine
variable {S L O : Type}

/-- The outputs for a list of inputs; `none`: one of them cannot be taken. -/
def outputs (step : S → L → Option (O × S)) : S → List L → Option (List O)
  | _, [] => some []
  | s, l :: ls =>
    match step s l with
    | none => none
    | some (o, s') => (outputs step s' ls).map (o :: ·)

/-- Both are stuck, or they give the same output and the states after it are related. -/
def SameAnswer (R : S → S → Prop) : Option (O × S) → Option (O × S) → Prop
  | none, none => True
  | some (o, s), some (o', t) => o = o' ∧ R s t
  | _, _ => False

/-- `R` is preserved by every input, and no input tells related states apart. -/
def Unwinding (step : S → L → Option (O × S)) (R : S → S → Prop) : Prop :=
  ∀ s t l, R s t → SameAnswer R (step s l) (step t l)

variable {step : S → L → Option (O × S)} {R : S → S → Prop}

/-- Related states answer every list of inputs alike. -/
theorem Unwinding.outputs_eq (hu : Unwinding step R) {s t : S} (hr : R s t) (ls : List L) :
    outputs step s ls = outputs step t ls := by
  induction ls generalizing s t with
  | nil => rfl
  | cons l ls ih =>
    have hone := hu s t l hr
    unfold outputs
    cases hs : step s l with
    | none =>
      cases ht : step t l with
      | none => rfl
      | some b => rw [hs, ht] at hone; exact hone.elim
    | some a =>
      cases ht : step t l with
      | none => rw [hs, ht] at hone; exact hone.elim
      | some b =>
        rw [hs, ht] at hone
        obtain ⟨ho, hr'⟩ := hone
        simp only [ho, ih hr']

/-- What two states answer to a list of inputs, the states they are brought to
by its first part answer to the rest. -/
theorem outputs_suffix {s s' t t' : S} {ls ls' : List L}
    (hs : LTS.exec (fun s l => (step s l).map Prod.snd) s ls = some s')
    (ht : LTS.exec (fun s l => (step s l).map Prod.snd) t ls = some t')
    (h : outputs step s (ls ++ ls') = outputs step t (ls ++ ls')) :
    outputs step s' ls' = outputs step t' ls' := by
  induction ls generalizing s t with
  | nil => cases hs; cases ht; exact h
  | cons l ls ih =>
    simp only [LTS.exec, Option.bind_eq_some_iff, Option.map_eq_some_iff] at hs ht
    obtain ⟨s₁, ⟨⟨o, s₁'⟩, hstep, rfl⟩, hs⟩ := hs
    obtain ⟨t₁, ⟨⟨o', t₁'⟩, hstep', rfl⟩, ht⟩ := ht
    refine ih hs ht ?_
    simp only [List.cons_append, outputs, hstep, hstep'] at h
    cases hl : outputs step s₁' (ls ++ ls') with
    | none =>
      cases hr : outputs step t₁' (ls ++ ls') with
      | none => rfl
      | some os' => rw [hl, hr] at h; cases h
    | some os =>
      cases hr : outputs step t₁' (ls ++ ls') with
      | none => rw [hl, hr] at h; cases h
      | some os' =>
        rw [hl, hr] at h
        rw [(List.cons.inj (Option.some.inj h)).2]

end Machine

section Loop
variable {S α C : Type}

/-- A loop over a list; a turn changes the state and makes calls. -/
def forEach (turn : S → α → List C × S) : S → List α → List C × S
  | s, [] => ([], s)
  | s, a :: as =>
    let (calls, s') := turn s a
    let (rest, s'') := forEach turn s' as
    (calls ++ rest, s'')

/-- What every turn preserves, with the same calls, the loop preserves. -/
theorem forEach_rel {turn turn' : S → α → List C × S} {R : S → S → Prop}
    (hturn : ∀ s t a, R s t → (turn s a).1 = (turn' t a).1 ∧ R (turn s a).2 (turn' t a).2)
    {s t : S} (hr : R s t) (as : List α) :
    (forEach turn s as).1 = (forEach turn' t as).1 ∧
      R (forEach turn s as).2 (forEach turn' t as).2 := by
  induction as generalizing s t with
  | nil => exact ⟨rfl, hr⟩
  | cons a as ih =>
    obtain ⟨hcalls, hr'⟩ := hturn s t a hr
    obtain ⟨hrest, hr''⟩ := ih hr'
    refine ⟨?_, hr''⟩
    simp only [forEach, hcalls, hrest]

theorem forEach_map {β : Type} (turn : S → α → List C × S) (g : β → α) (s : S) (bs : List β) :
    forEach turn s (bs.map g) = forEach (fun s b => turn s (g b)) s bs := by
  induction bs generalizing s with
  | nil => rfl
  | cons b bs ih => simp only [List.map_cons, forEach, ih]

end Loop
end Xsched
