import Souxmar.Lib.ConjugateGradient
import Souxmar.Lib.Csr

/-!
# The solver

`solve_pcg` in exact arithmetic over an ordered field. A vector of `n` doubles is a function on `Fin n`. A division by
zero ends the computation without a result.
-/

namespace Souxmar.Fem

open Souxmar.Lib

section

variable {K : Type*} [Field K] [LinearOrder K] {n : ℕ}

def div? (a b : K) : Option K := if b = 0 then none else some (a / b)

/-- The vector as an array; there is nothing behind its end. -/
def toArray (x : Fin n → K) (i : ℕ) : K := if h : i < n then x ⟨i, h⟩ else 0

/-- `Csr::multiply`. -/
def multiply (A : Csr K) (x : Fin n → K) : Fin n → K := fun r => A.multiply (toArray x) r

/-- The preconditioner at a row; 1 where there is no diagonal. The column type is 32 bits wide. -/
def minvAt (A : Csr K) (r : ℕ) : Option K :=
  let diag := A.entry r (r % 2 ^ 32)
  if diag ≠ 0 then div? 1 diag else some 1

/-- `x`, `r`, `p` and `rz`. -/
abbrev PcgState (K : Type*) (n : ℕ) := ConjugateGradient.State K (Fin n)

/-- How one round of the loop ends: with `break` and a value of `it`, or in the next round. -/
inductive Round (K : Type*) (n : ℕ)
  | stop (it : ℕ) (s : PcgState K n)
  | next (s : PcgState K n)

/-- The body of the loop. -/
def pcgRound (A : Csr K) (minv : Fin n → K) (tol2 : K) (it : ℕ) (s : PcgState K n) : Option (Round K n) := do
  let Ap := multiply A s.p
  let pAp := s.p ⬝ᵥ Ap
  if ¬pAp > 0 then return .stop it s
  let alpha ← div? s.rz pAp
  let x := s.x + alpha • s.p
  let r := s.r - alpha • Ap
  if r ⬝ᵥ r ≤ tol2 then return .stop (it + 1) ⟨x, r, s.p, s.rz⟩
  let z := minv * r
  let rzNext := r ⬝ᵥ z
  if s.rz = 0 then return .stop it ⟨x, r, s.p, s.rz⟩
  let beta ← div? rzNext s.rz
  return .next ⟨x, r, z + beta • s.p, rzNext⟩

/-- The loop, with what is left of `max_iterations`. -/
def pcgLoop (A : Csr K) (minv : Fin n → K) (tol2 : K) : ℕ → ℕ → PcgState K n → Option (ℕ × PcgState K n)
  | 0, it, s => some (it, s)
  | left + 1, it, s =>
    match pcgRound A minv tol2 it s with
    | none => none
    | some (.stop it s) => some (it, s)
    | some (.next s) => pcgLoop A minv tol2 left (it + 1) s

/-- The states at the end of each round. -/
def pcgStates (A : Csr K) (minv : Fin n → K) (tol2 : K) : ℕ → ℕ → PcgState K n → List (PcgState K n)
  | 0, _, _ => []
  | left + 1, it, s =>
    match pcgRound A minv tol2 it s with
    | none => []
    | some (.stop _ s) => [s]
    | some (.next s) => s :: pcgStates A minv tol2 left (it + 1) s

def minvAll (A : Csr K) (n : ℕ) : Option (Fin n → K) :=
  ((List.range n).mapM (minvAt A)).map fun minv i => minv.getD i 1

/-- The state in front of the loop. -/
def pcgStart (minv b : Fin n → K) : PcgState K n :=
  let z := minv * b
  ⟨0, b, z, b ⬝ᵥ z⟩

/-- The number of rounds and the solution. -/
def solvePcg (A : Csr K) (b : Fin n → K) (relTol : K) (maxIterations : ℕ) : Option (ℕ × (Fin n → K)) := do
  let minv ← minvAll A n
  let bb := b ⬝ᵥ b
  if bb = 0 then return (0, 0)
  let tol2 := relTol * relTol * bb
  let (it, s) ← pcgLoop A minv tol2 maxIterations 0 (pcgStart minv b)
  return (it, s.x)

/-- The states at the end of the rounds of a run. -/
def solvePcgStates (A : Csr K) (b : Fin n → K) (relTol : K) (maxIterations : ℕ) : Option (List (PcgState K n)) := do
  let minv ← minvAll A n
  let bb := b ⬝ᵥ b
  if bb = 0 then return []
  return pcgStates A minv (relTol * relTol * bb) maxIterations 0 (pcgStart minv b)

end

end Souxmar.Fem
