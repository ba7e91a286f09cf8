import Mathlib.Data.ZMod.Basic
import Mathlib.Tactic.LinearCombination
import Mathlib.Tactic.Ring

/-! The path gadget of the state transition circuit: its rank-one constraints, and the values that
the prover assigns beside them. -/

namespace IronDag

open List

inductive Variable where
  | one
  | witness (index : ℕ)

abbrev LinearCombination (F : Type) := List (F × Variable)

/-- The constraint `a * b = c`. -/
structure Constraint (F : Type) where
  a : LinearCombination F
  b : LinearCombination F
  c : LinearCombination F

structure ConstraintSystem (F : Type) where
  /-- The values that the prover has assigned so far. -/
  witnesses : List F
  constraints : List (Constraint F)

abbrev Synthesis (F : Type) := StateM (ConstraintSystem F)

namespace ConstraintSystem

variable {F : Type}

def newWitnessVariable (value : F) : Synthesis F Variable := fun system =>
  (.witness system.witnesses.length, { system with witnesses := system.witnesses ++ [value] })

def enforceConstraint (a b c : LinearCombination F) : Synthesis F Unit := fun system =>
  ((), { system with constraints := system.constraints ++ [⟨a, b, c⟩] })

theorem bind_run {before : ConstraintSystem F} (action : Synthesis F α) (next : α → Synthesis F β) :
    (action >>= next) before = next (action before).1 (action before).2 := rfl

theorem pure_run {before : ConstraintSystem F} (result : α) :
    (pure result : Synthesis F α) before = (result, before) := rfl

/-- The wires carry what the prover has assigned. -/
def Assigned (wires : ℕ → F) (system : ConstraintSystem F) : Prop :=
  ∀ index value, system.witnesses[index]? = some value → wires index = value

theorem assigned_enforce : Assigned wires (enforceConstraint a b c before).2 ↔
    Assigned wires before := Iff.rfl

variable [CommRing F]

/-- `x ^ 5 + c` -/
def mimcHashGadget (input : Variable) (inputValue roundConstant : F) : Synthesis F Variable := do
  let x2Value := inputValue * inputValue
  let x2 ← newWitnessVariable x2Value
  enforceConstraint [(1, input)] [(1, input)] [(1, x2)]
  let x4Value := x2Value * x2Value
  let x4 ← newWitnessVariable x4Value
  enforceConstraint [(1, x2)] [(1, x2)] [(1, x4)]
  let x5Value := x4Value * inputValue
  let x5 ← newWitnessVariable x5Value
  enforceConstraint [(1, x4)] [(1, input)] [(1, x5)]
  let output ← newWitnessVariable (x5Value + roundConstant)
  enforceConstraint [(1, output), (-1, x5), (-roundConstant, .one)] [(1, .one)] []
  return output

def mimcHashPair (a : Variable) (aValue : F) (b : Variable) (bValue constant : F) :
    Synthesis F Variable := do
  let sumValue := aValue + bValue
  let sum ← newWitnessVariable sumValue
  enforceConstraint [(1, a), (1, b)] [(1, .one)] [(1, sum)]
  mimcHashGadget sum sumValue constant

def verklePathDepth : ℕ := 4

def mimcConstants (F : Type) [CommRing F] : List F := [1, 2, 3, 4]

def mimcConstant (level : ℕ) : F := (mimcConstants F).getD (level % 4) 0

/-- A sibling that is missing is zero. -/
def siblingAt (siblings : List (Option F)) (level : ℕ) : F := siblings[level]?.join.getD 0

/-- One level of the path: the variable and the value beside it. The child index plays no part. -/
def climb (siblings : List (Option F)) (current : Variable × F) (level : ℕ) :
    Synthesis F (Variable × F) := do
  let siblingValue := siblingAt siblings level
  let sibling ← newWitnessVariable siblingValue
  let sum := current.2 + siblingValue
  let x2 := sum * sum
  let x4 := x2 * x2
  let nextHashValue := x4 * sum + mimcConstant level
  let next ← mimcHashPair current.1 current.2 sibling siblingValue (mimcConstant level)
  return (next, nextHashValue)

def verifyVerklePathGadget (leafValue : F) (siblings : List (Option F)) : Synthesis F Variable := do
  let leaf ← newWitnessVariable leafValue
  let x2 := leafValue * leafValue
  let x4 := x2 * x2
  let leafHashValue := x4 * leafValue + mimcConstant 0
  let hashed ← mimcHashGadget leaf leafValue (mimcConstant 0)
  let root ← (range verklePathDepth).foldlM (climb siblings) (hashed, leafHashValue)
  return root.1

/-- The hash chain over the levels, each with its sibling. -/
def ascend (hash : F) (path : List (F × ℕ)) : F :=
  path.foldl (fun hash step => (hash + step.1) ^ 5 + mimcConstant step.2) hash

def pathHash (leaf : F) (siblings : List F) : F :=
  ascend (leaf ^ 5 + mimcConstant 0) (siblings.zip (range verklePathDepth))

variable (wires : ℕ → F)

def value : Variable → F
  | .one => 1
  | .witness index => wires index

def eval (combination : LinearCombination F) : F :=
  (combination.map fun term => term.1 * value wires term.2).sum

def Satisfied (system : ConstraintSystem F) : Prop :=
  ∀ constraint ∈ system.constraints,
    eval wires constraint.a * eval wires constraint.b = eval wires constraint.c

variable {wires} {before : ConstraintSystem F}

theorem value_one : value wires .one = 1 := rfl

theorem eval_nil : eval wires [] = 0 := rfl

theorem eval_cons :
    eval wires ((factor, term) :: rest) = factor * value wires term + eval wires rest := by
  simp [eval]

theorem satisfied_new : Satisfied wires (newWitnessVariable assigned before).2 ↔
    Satisfied wires before := Iff.rfl

theorem satisfied_enforce : Satisfied wires (enforceConstraint a b c before).2 ↔
    Satisfied wires before ∧ eval wires a * eval wires b = eval wires c := by
  simp [Satisfied, enforceConstraint, or_imp, forall_and]

theorem assigned_new : Assigned wires (newWitnessVariable assigned before).2 ↔
    Assigned wires before ∧ value wires (newWitnessVariable assigned before).1 = assigned := by
  constructor
  · intro all
    refine ⟨fun index earlier found => all index earlier ?_,
      all _ assigned (by simp [newWitnessVariable])⟩
    exact (getElem?_append_left (List.getElem?_eq_some_iff.mp found).1).trans found
  · rintro ⟨all, last⟩ index found inside
    rcases Nat.lt_trichotomy index before.witnesses.length with earlier | rfl | later
    · exact all index found ((getElem?_append_left earlier).symm.trans inside)
    · simp only [newWitnessVariable, getElem?_concat_length, Option.some.injEq] at inside
      exact last.trans inside
    · simp [newWitnessVariable, getElem?_append_right later.le,
        Nat.sub_ne_zero_of_lt later] at inside

/-- Whatever meets the constraints hashes the input, and what the prover assigns meets them. -/
theorem mimcHashGadget_spec (wires : ℕ → F) (input : Variable) (known constant : F) :
    let hashed := mimcHashGadget input known constant before
    (Satisfied wires hashed.2 →
      Satisfied wires before ∧ value wires hashed.1 = value wires input ^ 5 + constant) ∧
    (Assigned wires hashed.2 → Assigned wires before ∧
      (value wires input = known → Satisfied wires before → Satisfied wires hashed.2)) := by
  simp only [mimcHashGadget, bind_run, satisfied_enforce, satisfied_new, assigned_enforce,
    assigned_new, pure_run, eval_cons, eval_nil, add_zero, one_mul, mul_one, value_one]
  constructor
  · rintro ⟨⟨⟨⟨earlier, second⟩, fourth⟩, fifth⟩, output⟩
    refine ⟨earlier, ?_⟩
    rw [← second] at fourth
    rw [← fourth] at fifth
    linear_combination output - fifth
  · rintro ⟨⟨⟨⟨earlier, second⟩, fourth⟩, fifth⟩, output⟩
    refine ⟨earlier, fun read satisfied => ⟨⟨⟨⟨satisfied, ?_⟩, ?_⟩, ?_⟩, ?_⟩⟩
    · rw [read, second]
    · rw [second, fourth]
    · rw [fourth, read, fifth]
    · linear_combination output - fifth

section Levels

variable (siblings : List (Option F)) (current : Variable × F)

/-- One level of the variables, the sibling having one of its own. -/
theorem climb_sound (satisfied : Satisfied wires (climb siblings current level before).2) :
    Satisfied wires before ∧ value wires (climb siblings current level before).1.1 =
      (value wires current.1 + value wires (.witness before.witnesses.length)) ^ 5 +
        mimcConstant level := by
  simp only [climb, mimcHashPair, bind_run, pure_run] at satisfied ⊢
  obtain ⟨summed, hashed⟩ := (mimcHashGadget_spec _ _ _ _).1 satisfied
  obtain ⟨earlier, sum⟩ := satisfied_enforce.mp summed
  simp only [eval_cons, eval_nil, add_zero, one_mul, mul_one, value_one] at sum
  rw [hashed, ← sum]
  exact ⟨earlier, rfl⟩

/-- The values beside the variables. -/
theorem climb_complete (assigned : Assigned wires (climb siblings current level before).2) :
    Assigned wires before ∧
      value wires (.witness before.witnesses.length) = siblingAt siblings level ∧
      (value wires current.1 = current.2 → Satisfied wires before →
        Satisfied wires (climb siblings current level before).2 ∧
          value wires (climb siblings current level before).1.1 =
            (climb siblings current level before).1.2) := by
  have sound := @climb_sound F _ wires before siblings current level
  simp only [climb, mimcHashPair, bind_run, pure_run] at assigned sound ⊢
  obtain ⟨hashed, meets⟩ := (mimcHashGadget_spec _ _ _ _).2 assigned
  obtain ⟨⟨earlier, here⟩, sum⟩ :=
    (assigned_new.trans (and_congr_left' assigned_new)).mp (assigned_enforce.mp hashed)
  refine ⟨earlier, here, fun read satisfied => ?_⟩
  have added := congrArg₂ (· + ·) read here
  have met := meets sum (satisfied_enforce.mpr ⟨satisfied, by
    simp only [eval_cons, eval_nil, add_zero, one_mul, mul_one, value_one]
    exact added.trans sum.symm⟩)
  refine ⟨met, (sound met).2.trans ?_⟩
  rw [show value wires current.1 + value wires (.witness _) = _ from added]
  ring

/-- All levels. -/
theorem foldlM_climb_spec (levels : List ℕ) :
    ∃ path : List Variable, ∀ wires,
      let last := levels.foldlM (climb siblings) current before
      (Satisfied wires last.2 → Satisfied wires before ∧
        value wires last.1.1 =
          ascend (value wires current.1) ((path.map (value wires)).zip levels)) ∧
      (Assigned wires last.2 → Assigned wires before ∧
        path.map (value wires) = levels.map (siblingAt siblings) ∧
        (value wires current.1 = current.2 → Satisfied wires before → Satisfied wires last.2)) := by
  induction levels generalizing current before with
  | nil => exact ⟨[],
      fun _ => ⟨fun satisfied => ⟨satisfied, rfl⟩, fun assigned => ⟨assigned, rfl, fun _ => id⟩⟩⟩
  | cons level rest ih =>
    obtain ⟨path, later⟩ := ih (climb siblings current level before).1
    refine ⟨.witness before.witnesses.length :: path, fun wires => ?_⟩
    rw [foldlM_cons, bind_run]
    constructor
    · intro satisfied
      obtain ⟨here, root⟩ := (later wires).1 satisfied
      obtain ⟨earlier, hashed⟩ := climb_sound siblings current here
      exact ⟨earlier, by rw [root, hashed]; rfl⟩
    · intro assigned
      obtain ⟨here, values, meets⟩ := (later wires).2 assigned
      obtain ⟨earlier, sibling, met⟩ := climb_complete siblings current here
      refine ⟨earlier, by rw [map_cons, sibling, values]; rfl, fun read satisfied => ?_⟩
      exact meets (met read satisfied).2 (met read satisfied).1

end Levels

/-- What the prover assigns meets the constraints, with the leaf and the siblings in variables of
their own. Whatever meets them gives the root the hash of the path that these variables spell. -/
theorem verifyVerklePathGadget_spec (leaf : F) (siblings : List (Option F)) (earlier : List F) :
    ∃ (start : Variable) (steps : List Variable), ∀ wires,
      (Assigned wires (verifyVerklePathGadget leaf siblings ⟨earlier, []⟩).2 →
        Satisfied wires (verifyVerklePathGadget leaf siblings ⟨earlier, []⟩).2 ∧
          value wires start = leaf ∧
          steps.map (value wires) = (range verklePathDepth).map (siblingAt siblings)) ∧
      (Satisfied wires (verifyVerklePathGadget leaf siblings ⟨earlier, []⟩).2 →
        value wires (verifyVerklePathGadget leaf siblings ⟨earlier, []⟩).1 =
          pathHash (value wires start) (steps.map (value wires))) := by
  simp only [verifyVerklePathGadget, bind_run, pure_run]
  generalize started : newWitnessVariable leaf ⟨earlier, []⟩ = start
  generalize hashing : mimcHashGadget start.1 leaf (mimcConstant 0) start.2 = hashed
  obtain ⟨steps, spec⟩ := @foldlM_climb_spec F _ hashed.2 siblings
    (hashed.1, leaf * leaf * (leaf * leaf) * leaf + mimcConstant 0) (range verklePathDepth)
  refine ⟨start.1, steps, fun wires => ?_⟩
  obtain ⟨sound, complete⟩ := @mimcHashGadget_spec F _ start.2 wires start.1 leaf (mimcConstant 0)
  rw [hashing] at sound complete
  constructor
  · intro assigned
    obtain ⟨climbed, values, meets⟩ := (spec wires).2 assigned
    obtain ⟨allocated, met⟩ := complete climbed
    have read : value wires start.1 = leaf := by
      rw [← started] at allocated ⊢
      exact (assigned_new.mp allocated).2
    have hash := met read (started ▸ fun _ none => absurd none not_mem_nil)
    refine ⟨meets ?_ hash, read, values⟩
    rw [(sound hash).2, read]
    ring
  · intro satisfied
    obtain ⟨climbed, root⟩ := (spec wires).1 satisfied
    rw [root, (sound climbed).2, pathHash]

/-- The scalars of the curve. -/
abbrev Fr := ZMod 21888242871839275222246405745257275088548364400416034343698204186575808495617

/-- The constraints hold the prover to no leaf: those for zero are met by what is assigned for
one. -/
theorem otherLeaf_satisfies : ¬∀ wires,
    Satisfied wires (verifyVerklePathGadget (0 : Fr) [] ⟨[], []⟩).2 →
    value wires (verifyVerklePathGadget (0 : Fr) [] ⟨[], []⟩).1 =
      pathHash 0 ((range verklePathDepth).map (siblingAt [])) := by
  intro always
  have met : Satisfied ((verifyVerklePathGadget (1 : Fr) [] ⟨[], []⟩).2.witnesses.getD · 0)
      (verifyVerklePathGadget (0 : Fr) [] ⟨[], []⟩).2 := by
    unfold Satisfied
    decide +kernel
  exact absurd (always _ met) (by decide +kernel)

end ConstraintSystem

end IronDag
