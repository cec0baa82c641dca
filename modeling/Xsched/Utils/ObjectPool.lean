import Mathlib.Data.List.Basic

/-!
# Object pools

`ObjectPool` keeps objects that are not in use. `Pop` takes the one that was
pushed last; where there is none it creates `kPoolSize` objects for the pool and
one more, which it returns. What `Create` does is up to the pool: it may change
a state of its own, and it may abort.
-/
namespace Xsched.Utils

variable {σ ε α : Type} (create : σ → Except ε (α × σ))

/-- The loop of `Pop`: `n` objects more, the back of the vector first.
mirrors utils/include/xsched/utils/pool.h:20-23 -/
def refill : Nat → List α → σ → Except ε (List α × σ)
  | 0, pool, s => .ok (pool, s)
  | n + 1, pool, s =>
    match create s with
    | .error e => .error e
    | .ok (obj, s) => refill n (obj :: pool) s

/-- The object, and what is left in the pool.
mirrors utils/include/xsched/utils/pool.h:15-30 -/
def pop (kPoolSize : Nat) (pool : List α) (s : σ) : Except ε (α × List α × σ) :=
  match pool with
  | obj :: rest => .ok (obj, rest, s)
  | [] =>
    match refill create kPoolSize [] s with
    | .error e => .error e
    | .ok (pool, s) =>
      match create s with
      | .error e => .error e
      | .ok (obj, s) => .ok (obj, pool, s)

variable {create} {P : σ → List α → Prop} {n : Nat} {pool pool' : List α} {s s' : σ} {obj : α}

/-- What every creation keeps, of the state and the objects created so far. -/
theorem refill_keeps
    (hcreate : ∀ s pool obj s', P s pool → create s = .ok (obj, s') → P s' (obj :: pool))
    (hp : P s pool) (h : refill create n pool s = .ok (pool', s')) : P s' pool' := by
  induction n generalizing s pool with
  | zero =>
    cases h
    exact hp
  | succ n ih =>
    rw [refill] at h
    split at h
    · cases h
    · next obj s₁ hc => exact ih (hcreate s pool obj s₁ hp hc) h

theorem length_refill (h : refill create n pool s = .ok (pool', s')) :
    pool'.length = pool.length + n := by
  induction n generalizing s pool with
  | zero =>
    cases h
    rfl
  | succ n ih =>
    rw [refill] at h
    split at h
    · cases h
    · rw [ih h, List.length_cons]
      omega

/-- A `Pop` that creates has created the object behind the others. -/
theorem pop_nil {kPoolSize : Nat} (h : pop create kPoolSize [] s = .ok (obj, pool', s')) :
    ∃ s₁, refill create kPoolSize [] s = .ok (pool', s₁) ∧ create s₁ = .ok (obj, s') := by
  unfold pop at h
  dsimp only at h
  split at h
  · cases h
  · next pool₁ s₁ hrefill =>
    split at h
    · cases h
    · next obj₁ s₂ hcreate =>
      cases h
      exact ⟨s₁, hrefill, hcreate⟩

end Xsched.Utils
