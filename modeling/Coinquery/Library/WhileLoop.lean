import Mathlib.Order.Basic
import Mathlib.Logic.Relation

/-!
# Fuel-bounded `WHILE` loops

A `WHILE cond LOOP body END LOOP` statement over a state `σ`, run with room for a given number of
iterations. Running out of room is `none`: it stands for an execution that has not finished yet,
not for an error of the program. The lemmas are the unfolding equations, monotonicity in the
fuel, the invariant rule, and termination from a measure that every iteration lowers.
-/

namespace WhileLoop

variable {σ : Type*}

/-- Run `body` while `cond` holds, with room for `fuel` iterations. -/
def run (cond : σ → Bool) (body : σ → σ) : Nat → σ → Option σ
  | 0, state => if cond state then none else some state
  | fuel + 1, state => if cond state then run cond body fuel (body state) else some state

section Unfolding

variable {cond : σ → Bool} {body : σ → σ} {state : σ}

theorem run_of_cond_false (fuel : Nat) (stop : cond state = false) :
    run cond body fuel state = some state := by
  cases fuel <;> simp [run, stop]

theorem run_succ_of_cond (fuel : Nat) (go : cond state = true) :
    run cond body (fuel + 1) state = run cond body fuel (body state) := by
  simp [run, go]

theorem run_zero_of_cond (go : cond state = true) : run cond body 0 state = none := by
  simp [run, go]

end Unfolding

section Rules

variable {cond : σ → Bool} {body : σ → σ}

/-- More fuel never changes a finished run. -/
theorem run_mono {fuel more : Nat} {state final : σ}
    (finished : run cond body fuel state = some final) (le : fuel ≤ more) :
    run cond body more state = some final := by
  induction fuel generalizing state more with
  | zero =>
      cases hcond : cond state
      · simp [run, hcond] at finished
        rw [← finished]
        exact run_of_cond_false more hcond
      · simp [run, hcond] at finished
  | succ fuel ih =>
      obtain ⟨more, rfl⟩ : ∃ rest, more = rest + 1 := ⟨more - 1, by omega⟩
      cases hcond : cond state
      · rw [run_of_cond_false _ hcond] at finished ⊢
        exact finished
      · rw [run_succ_of_cond _ hcond] at finished ⊢
        exact ih finished (by omega)

/-- The invariant rule: what the body preserves under the loop condition holds at exit, where the
condition is false. -/
theorem run_invariant (inv : σ → Prop)
    (preserve : ∀ state, inv state → cond state = true → inv (body state))
    {fuel : Nat} {state final : σ} (initial : inv state)
    (finished : run cond body fuel state = some final) :
    inv final ∧ cond final = false := by
  induction fuel generalizing state with
  | zero =>
      cases hcond : cond state
      · simp [run, hcond] at finished
        exact finished ▸ ⟨initial, hcond⟩
      · simp [run, hcond] at finished
  | succ fuel ih =>
      cases hcond : cond state
      · rw [run_of_cond_false _ hcond] at finished
        exact Option.some.inj finished ▸ ⟨initial, hcond⟩
      · rw [run_succ_of_cond _ hcond] at finished
        exact ih (preserve state initial hcond) finished

/-- A measure that every iteration lowers bounds the number of iterations. -/
theorem run_isSome_of_measure (inv : σ → Prop) (measure : σ → Nat)
    (preserve : ∀ state, inv state → cond state = true → inv (body state))
    (decrease : ∀ state, inv state → cond state = true → measure (body state) < measure state)
    {fuel : Nat} {state : σ} (initial : inv state) (room : measure state ≤ fuel) :
    (run cond body fuel state).isSome := by
  induction fuel generalizing state with
  | zero =>
      cases hcond : cond state
      · simp [run_of_cond_false 0 hcond]
      · have lower := decrease state initial hcond
        omega
  | succ fuel ih =>
      cases hcond : cond state
      · simp [run_of_cond_false _ hcond]
      · rw [run_succ_of_cond _ hcond]
        have lower := decrease state initial hcond
        exact ih (preserve state initial hcond) (by omega)

/-- One iteration: the condition holds and the body runs. -/
def Iterates (cond : σ → Bool) (body : σ → σ) (state next : σ) : Prop :=
  cond state = true ∧ next = body state

/-- The iterations are deterministic: a state that they reach, and where the condition fails, is
where every finished run ends. -/
theorem run_eq_of_iterates {fuel : Nat} {state stop final : σ}
    (reaches : Relation.ReflTransGen (Iterates cond body) state stop)
    (stops : cond stop = false) (finished : run cond body fuel state = some final) :
    final = stop := by
  induction reaches using Relation.ReflTransGen.head_induction_on generalizing fuel with
  | refl =>
      rw [run_of_cond_false fuel stops] at finished
      exact (Option.some.inj finished).symm
  | head iterates _ ih =>
      obtain ⟨go, rfl⟩ := iterates
      cases fuel with
      | zero => simp [run_zero_of_cond go] at finished
      | succ fuel =>
          rw [run_succ_of_cond fuel go] at finished
          exact ih finished

end Rules

end WhileLoop
