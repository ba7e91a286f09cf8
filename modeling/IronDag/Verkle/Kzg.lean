import Mathlib.Algebra.Field.ZMod
import Mathlib.LinearAlgebra.BilinearMap
import Mathlib.Tactic.LinearCombination
import Mathlib.Tactic.Module

/-! KZG commitments: the reference string, openings and their verification. The groups and the
pairing are those of the curve library, as modules over its scalar field. -/

namespace IronDag

universe u v w x

variable {F : Type u} [Field F] {G₁ : Type v} [AddCommGroup G₁] [Module F G₁] {coeffs : List F}
variable {G₂ : Type w} [AddCommGroup G₂] [Module F G₂] {Gₜ : Type x} [AddCommGroup Gₜ] [Module F Gₜ]
  [DecidableEq Gₜ]

structure KzgSrs (G₁ : Type v) (G₂ : Type w) where
  g1Powers : List G₁
  g2Gen : G₂
  g2Tau : G₂

namespace KzgSrs

/-- `count` multiples of the generator, by `tauPower` and on by each further power of `tau`. -/
def powersFrom (g1Gen : G₁) (tau : F) : ℕ → F → List G₁
  | 0, _ => []
  | count + 1, tauPower => tauPower • g1Gen :: powersFrom g1Gen tau count (tauPower * tau)

/-- `generate_deterministic`, given the secret that it draws. -/
def generate (g1Gen : G₁) (g2Gen : G₂) (maxDegree : ℕ) (tau : F) : KzgSrs G₁ G₂ where
  g1Powers := powersFrom g1Gen tau (maxDegree + 1) 1
  g2Gen := g2Gen
  g2Tau := tau • g2Gen

/-- The value of a polynomial, given by its coefficients from the constant one up. -/
def evaluate (coeffs : List F) (z : F) : F :=
  coeffs.foldr (fun coeff value => coeff + z * value) 0

/-- The inner loop of the quotient, with its running sum and power. -/
def sumPowers (z : F) (coeffs : List F) : F :=
  (coeffs.foldl (fun (sum, zPower) coeff => (sum + coeff * zPower, zPower * z)) (0, 1)).1

/-- The coefficients of `(p(x) - p(z)) / (x - z)`. -/
def quotient (z : F) (coeffs : List F) : List F :=
  (List.range (coeffs.length - 1)).map fun i => sumPowers z (coeffs.drop (i + 1))

@[simp] theorem length_powersFrom {g1Gen : G₁} {tau : F} (power : F) :
    (powersFrom g1Gen tau count power).length = count := by
  induction count generalizing power with
  | zero => rfl
  | succ count ih => simp [powersFrom, ih]

theorem evaluate_cons (coeff : F) (coeffs : List F) (z : F) :
    evaluate (coeff :: coeffs) z = coeff + z * evaluate coeffs z := rfl

theorem sumPowers_eq (z : F) (coeffs : List F) : sumPowers z coeffs = evaluate coeffs z := by
  have running
      (sum power : F) : (coeffs.foldl (fun (sum, power) coeff => (sum + coeff * power, power * z))
      (sum, power)).1 = sum + power * evaluate coeffs z := by
    induction coeffs generalizing sum power with
    | nil => simp [evaluate]
    | cons coeff rest ih =>
      rw [List.foldl_cons, ih, evaluate_cons]
      ring
  simpa [sumPowers] using running 0 1

theorem quotient_cons (z coeff next : F) (rest : List F) :
    quotient z (coeff :: next :: rest) =
      evaluate (next :: rest) z :: quotient z (next :: rest) := by
  simp [quotient, List.range_succ_eq_map, sumPowers_eq]

/-- The quotient times `x - z` is the polynomial less its value at `z`. -/
theorem evaluate_quotient (z tau : F) (coeffs : List F) :
    evaluate (quotient z coeffs) tau * (tau - z) = evaluate coeffs tau - evaluate coeffs z := by
  induction coeffs with
  | nil => simp [quotient, evaluate]
  | cons coeff rest ih =>
    cases rest with
    | nil => simp [quotient, evaluate]
    | cons next rest =>
      rw [quotient_cons, evaluate_cons, evaluate_cons coeff, evaluate_cons coeff]
      linear_combination tau * ih

variable [DecidableEq F]

/-- The sum of the powers weighted by the coefficients, zeros skipped. -/
def combine : List F → List G₁ → G₁
  | coeff :: coeffs, power :: powers =>
    if coeff ≠ 0 then coeff • power + combine coeffs powers else combine coeffs powers
  | _, _ => 0

def commit (srs : KzgSrs G₁ G₂) (coeffs : List F) : Option G₁ :=
  if coeffs = [] ∨ srs.g1Powers.length < coeffs.length then none else some
    (combine coeffs srs.g1Powers)

/-- `open`: the value at `z` and the commitment to the quotient. -/
def openAt (srs : KzgSrs G₁ G₂) (coeffs : List F) (z : F) : Option (F × G₁) :=
  if coeffs = [] ∨ srs.g1Powers.length < coeffs.length then
    none
  else
    some (evaluate coeffs z, combine (quotient z coeffs) srs.g1Powers)

/-- The pairing check `e(C - v·G₁, G₂) = e(proof, tau·G₂ - z·G₂)`. -/
def verify (pairing : G₁ →ₗ[F] G₂ →ₗ[F] Gₜ) (srs : KzgSrs G₁ G₂) (commitment proof : G₁) (z v : F) :
    Bool :=
  decide (pairing (commitment - v • srs.g1Powers.headD 0) srs.g2Gen =
    pairing proof (srs.g2Tau - z • srs.g2Gen))

/-- Coefficients that fit combine to the value of their polynomial at the secret. -/
theorem combine_powersFrom {g1Gen : G₁} {tau : F} (power : F) (fits : coeffs.length ≤ count) :
    combine coeffs (powersFrom g1Gen tau count power) = (power * evaluate coeffs tau) • g1Gen := by
  induction coeffs generalizing count power with
  | nil => simp [combine, evaluate]
  | cons coeff rest ih =>
    cases count with
    | zero => simp at fits
    | succ count =>
      rw [powersFrom, combine, ih (power * tau) (Nat.le_of_succ_le_succ fits), evaluate_cons]
      split
      · module
      · next zero =>
        rw [not_not.mp zero]
        module

/-- An opening carries the value of the polynomial, and its proof verifies for that value alone. -/
theorem verify_openAt (pairing : G₁ →ₗ[F] G₂ →ₗ[F] Gₜ) (g1Gen : G₁) (g2Gen : G₂)
    (maxDegree : ℕ) (tau z : F)
    (nondegenerate : pairing g1Gen g2Gen ≠ 0) (nonempty : coeffs ≠ [])
    (fits : coeffs.length ≤ maxDegree + 1) :
    ∃ commitment proof, (generate g1Gen g2Gen maxDegree tau).commit coeffs = some commitment ∧
      (generate g1Gen g2Gen maxDegree tau).openAt coeffs z = some (evaluate coeffs z, proof) ∧
      ∀ v, (generate g1Gen g2Gen maxDegree tau).verify pairing commitment proof z v = true ↔
        v = evaluate coeffs z := by
  have shorter : (quotient z coeffs).length ≤ maxDegree + 1 := by
    simp only [quotient, List.length_map, List.length_range]
    omega
  have within :
      ¬(coeffs = [] ∨ (generate g1Gen g2Gen maxDegree tau).g1Powers.length < coeffs.length) := by
    simp [nonempty, generate, fits]
  refine ⟨_, _, if_neg within, if_neg within, fun v => ?_⟩
  have head : (powersFrom g1Gen tau (maxDegree + 1) (1 : F)).headD 0 = g1Gen := by simp [powersFrom]
  simp only [verify, generate, combine_powersFrom 1 fits, combine_powersFrom 1 shorter, one_mul,
    head, ← sub_smul, map_smul, LinearMap.smul_apply, smul_smul, decide_eq_true_eq]
  rw [mul_comm, evaluate_quotient, (smul_left_injective F nondegenerate).eq_iff, sub_right_inj]

/-- The polynomial `1 + 2x` over the field of three elements, opened at 2: the value 2 is accepted,
and no other one. -/
theorem linear_openAt : ∃ commitment proof : ZMod 3,
    (generate (1 : ZMod 3) (1 : ZMod 3) 1 (1 : ZMod 3)).commit [(1 : ZMod 3), 2] = some commitment ∧
      (generate (1 : ZMod 3) (1 : ZMod 3) 1 (1 : ZMod 3)).openAt [(1 : ZMod 3), 2] 2 =
        some (2, proof) ∧
      ∀ v, (generate (1 : ZMod 3) (1 : ZMod 3) 1 (1 : ZMod 3)).verify
        (LinearMap.lsmul (ZMod 3) (ZMod 3)) commitment proof 2 v = true ↔ v = 2 :=
  verify_openAt (LinearMap.lsmul (ZMod 3) (ZMod 3)) 1 1 1 1 2 (by simp)
    (List.cons_ne_nil (1 : ZMod 3) [2]) le_rfl

end KzgSrs

end IronDag
