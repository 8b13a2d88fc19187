import TaskCab.Proofs.Reference.DataEquality
import TaskCab.Proofs.Reference.LooseEquality
import TaskCab.Proofs.Value.Reordered

/-!
# Matching from either side

Loose equality is an equivalence on the values without NaN, and does not see the order of maps. Matching
holds of all values that are loosely equal, and between values other than texts it holds in both
directions or in none.
-/

namespace TaskCab

namespace Binary64

theorem numeric_eq_iff {left right : Binary64} :
    left.numericEq right = true ↔
      left.isNaN = false ∧ right.isNaN = false ∧
        (left = right ∨ left.magnitude = 0 ∧ right.magnitude = 0) := by
  simp [numericEq, and_assoc]

theorem numeric_eq_symm {left right : Binary64} (same : left.numericEq right = true) :
    right.numericEq left = true := by
  obtain ⟨isLeft, isRight, equal⟩ := numeric_eq_iff.mp same
  exact numeric_eq_iff.mpr ⟨isRight, isLeft, equal.imp Eq.symm And.symm⟩

theorem numeric_eq_trans {left middle right : Binary64} (before : left.numericEq middle = true)
    (after : middle.numericEq right = true) : left.numericEq right = true := by
  obtain ⟨isLeft, -, equal⟩ := numeric_eq_iff.mp before
  obtain ⟨-, isRight, further⟩ := numeric_eq_iff.mp after
  refine numeric_eq_iff.mpr ⟨isLeft, isRight, ?_⟩
  rcases equal with rfl | ⟨zeroLeft, zeroMiddle⟩
  · exact further
  rcases further with rfl | ⟨-, zeroRight⟩
  · exact .inr ⟨zeroLeft, zeroMiddle⟩
  · exact .inr ⟨zeroLeft, zeroRight⟩

end Binary64

namespace Matching

open Value Source.Literal

variable {left middle right : Value}

theorem same_number_symm (same : SameNumber left right) : SameNumber right left := by
  obtain ⟨first, second, isFirst, isSecond, equal⟩ := same
  exact ⟨second, first, isSecond, isFirst, Binary64.numeric_eq_symm equal⟩

theorem same_number_trans (before : SameNumber left middle) (after : SameNumber middle right) :
    SameNumber left right := by
  obtain ⟨first, second, isFirst, isSecond, equal⟩ := before
  obtain ⟨_, third, isSame, isThird, further⟩ := after
  obtain rfl := Option.some.inj (isSecond.symm.trans isSame)
  exact ⟨first, third, isFirst, isThird, Binary64.numeric_eq_trans equal further⟩

theorem loose_eq_comm (distinctLeft : Distinct left) (distinctRight : Distinct right) :
    looseEq left right = looseEq right left := by
  rw [Bool.eq_iff_iff, loose_eq_iff_alike distinctLeft distinctRight,
    loose_eq_iff_alike distinctRight distinctLeft]
  constructor
  · intro alike
    exact alike.symm.imp fun _ _ _ _ => same_number_symm
  · intro alike
    exact alike.symm.imp fun _ _ _ _ => same_number_symm

theorem loose_eq_trans (distinctLeft : Distinct left) (distinctMiddle : Distinct middle)
    (distinctRight : Distinct right) (before : looseEq left middle = true)
    (after : looseEq middle right = true) : looseEq left right = true := by
  rw [loose_eq_iff_alike distinctLeft distinctMiddle] at before
  rw [loose_eq_iff_alike distinctMiddle distinctRight] at after
  rw [loose_eq_iff_alike distinctLeft distinctRight]
  exact before.trans after fun _ _ _ => same_number_trans

/-- Loose equality does not depend on the order of any map in the value on its left. -/
theorem loose_eq_reordered_left {other : Value} (distinct : Distinct left) (distinctRight : Distinct right)
    (reordered : Reordered left other) : looseEq other right = looseEq left right := by
  obtain ⟨distinctOther, same⟩ := alike_of_reordered reordered distinct
  rw [Bool.eq_iff_iff, loose_eq_iff_alike distinctOther distinctRight,
    loose_eq_iff_alike distinct distinctRight]
  constructor
  · intro alike
    refine same.trans alike ?_
    rintro first _ third rfl agree
    exact agree
  · intro alike
    refine same.symm.trans alike ?_
    rintro first _ third rfl agree
    exact agree

theorem loose_eq_reordered {leftOther rightOther : Value} (distinctLeft : Distinct left)
    (distinctRight : Distinct right) (reorderedLeft : Reordered left leftOther)
    (reorderedRight : Reordered right rightOther) :
    looseEq leftOther rightOther = looseEq left right := by
  have distinctOther := (alike_of_reordered reorderedRight distinctRight).1
  calc looseEq leftOther rightOther
      = looseEq left rightOther := loose_eq_reordered_left distinctLeft distinctOther reorderedLeft
    _ = looseEq rightOther left := loose_eq_comm distinctLeft distinctOther
    _ = looseEq right left := loose_eq_reordered_left distinctRight distinctLeft reorderedRight
    _ = looseEq left right := loose_eq_comm distinctRight distinctLeft

/-! ## Matching in both directions -/

theorem same_part_comm (distinctLeft : Distinct left) (distinctRight : Distinct right) :
    samePart left right = samePart right left := by
  have data : looseEq left right = looseEq right left := loose_eq_comm distinctLeft distinctRight
  cases left with
  | str text =>
      cases right with
      | str other => exact BEq.comm
      | null | bool | int | float | list | map => exact data
  | null | bool | int | float | list | map =>
      cases right with
      | null | bool | int | float | str | list | map => exact data

theorem same_quantity_iff {entries quantity : List (String × Value)} (distinct : Entries.Distinct entries)
    (distinctQuantity : Entries.Distinct quantity) :
    sameQuantity entries quantity = true ↔
      (∀ name, name ∈ Entries.keys quantity ↔ name ∈ Entries.keys entries) ∧
        ∀ name expected actual, Entries.get? name quantity = some expected →
          Entries.get? name entries = some actual → samePart actual expected = true := by
  rw [← Entries.agree_iff (fun expected actual => samePart actual expected = true) distinctQuantity distinct]
  simp only [sameQuantity, Bool.and_eq_true, beq_iff_eq, List.all_eq_true, Option.any_eq_true]
  exact and_congr_left' eq_comm

theorem same_quantity_comm {entries others : List (String × Value)} (distinct : Distinct (.map entries))
    (distinctOthers : Distinct (.map others)) :
    sameQuantity entries others = sameQuantity others entries := by
  have swapped {first second : List (String × Value)} (distinctFirst : Distinct (.map first))
      (distinctSecond : Distinct (.map second)) (same : sameQuantity first second = true) :
      sameQuantity second first = true := by
    obtain ⟨names, parts⟩ := (same_quantity_iff distinctFirst.1 distinctSecond.1).mp same
    refine (same_quantity_iff distinctSecond.1 distinctFirst.1).mpr ⟨fun name => (names name).symm, ?_⟩
    intro name item held isItem isHeld
    have distinctItem := entries_distinct_iff.mp distinctFirst.2 _ (Entries.mem_of_get isItem)
    have distinctHeld := entries_distinct_iff.mp distinctSecond.2 _ (Entries.mem_of_get isHeld)
    rw [same_part_comm distinctHeld distinctItem]
    exact parts name held item isHeld isItem
  rw [Bool.eq_iff_iff]
  exact ⟨swapped distinct distinctOthers, swapped distinctOthers distinct⟩

theorem empty_among_bools_comm (lefts rights : List Value) :
    isEmptyAmongBools lefts rights = isEmptyAmongBools rights lefts := by
  rw [isEmptyAmongBools, isEmptyAmongBools, Bool.and_comm (lefts.all _), Bool.or_comm]

def IsText (value : Value) : Prop := ∃ text, value = .str text

theorem matches_default_comm (distinctLeft : Distinct left) (distinctRight : Distinct right)
    (noTextLeft : ¬IsText left) (noTextRight : ¬IsText right) :
    matchesDefault left right = matchesDefault right left := by
  unfold matchesDefault
  rw [loose_eq_comm distinctLeft distinctRight]
  cases left with
  | str text => exact absurd ⟨text, rfl⟩ noTextLeft
  | list lefts =>
      cases right with
      | str text => exact absurd ⟨text, rfl⟩ noTextRight
      | list rights => exact congrArg _ (empty_among_bools_comm lefts rights)
      | null | bool | int | float | map => rfl
  | map lefts =>
      cases right with
      | str text => exact absurd ⟨text, rfl⟩ noTextRight
      | map rights => exact congrArg _ (same_quantity_comm distinctLeft distinctRight)
      | null | bool | int | float | list => rfl
  | null | bool | int | float =>
      cases right with
      | str text => exact absurd ⟨text, rfl⟩ noTextRight
      | null | bool | int | float | list | map => rfl

/-! ## Values without NaN -/

def HoldsNoNaN (value : Value) : Prop := ∀ number, .float number ∈ scalars value → number.isNaN = false

theorem matches_of_loose_eq (same : looseEq left right = true) : matchesDefault left right = true := by
  unfold matchesDefault
  rw [same, Bool.true_or]

/-- Loose equality is symmetric and transitive, holds of a value and itself exactly if the value has no NaN
in it, and does not see the order of any map. Matching holds wherever loose equality does, also holds of a
value and itself exactly if there is no NaN in it, and is symmetric between values that are no texts. -/
theorem loose_equivalence_within_matching (distinctLeft : Distinct left) (distinctMiddle : Distinct middle)
    (distinctRight : Distinct right) :
    looseEq left middle = looseEq middle left ∧
      (looseEq left middle = true → looseEq middle right = true → looseEq left right = true) ∧
      (looseEq left left = true ↔ HoldsNoNaN left) ∧
      (∀ leftOther middleOther, Reordered left leftOther → Reordered middle middleOther →
        looseEq leftOther middleOther = looseEq left middle) ∧
      (looseEq left middle = true → matchesDefault left middle = true) ∧
      (matchesDefault left left = true ↔ HoldsNoNaN left) ∧
      (¬IsText left → ¬IsText middle → matchesDefault left middle = matchesDefault middle left) := by
  refine ⟨loose_eq_comm distinctLeft distinctMiddle,
    loose_eq_trans distinctLeft distinctMiddle distinctRight, ?_, ?_, matches_of_loose_eq, ?_,
    matches_default_comm distinctLeft distinctMiddle⟩
  · rw [loose_eq_self distinctLeft, all_not_nan_iff, HoldsNoNaN]
  · intro leftOther middleOther
    exact loose_eq_reordered distinctLeft distinctMiddle
  · rw [matches_default_self distinctLeft, all_not_nan_iff, HoldsNoNaN]

def quantityMap (unit : String) (number : Value) (unitFirst : Bool) : Value :=
  if unitFirst then .map [("unit", .str unit), ("value", .list [number])]
  else .map [("value", .list [number]), ("unit", .str unit)]

theorem loose_equivalence_of_quantities :
    looseEq (quantityMap "mJy" (.bool true) true) (quantityMap "mJy" (.int 1) false) = true ∧
      looseEq (quantityMap "mJy" (.int 1) false) (quantityMap "mJy" (.float (.ofInt 1)) true) = true ∧
      looseEq (quantityMap "mJy" (.int 1) true) (quantityMap "mJy" (.bool true) false) = true ∧
      matchesDefault (quantityMap "mJy" (.int 1) false) (quantityMap "mJy" (.int 1) false) = true ∧
      matchesDefault (quantityMap "MJY" (.bool true) true) (quantityMap "mJy" (.int 1) false) = true ∧
      looseEq (quantityMap "MJY" (.bool true) true) (quantityMap "mJy" (.int 1) false) = false := by
  have distinct (unit : String) (number : Value) (isScalar : Distinct number) (unitFirst : Bool) :
      Distinct (quantityMap unit number unitFirst) := by
    cases unitFirst <;>
      simp [quantityMap, Distinct, EntriesDistinct, AllDistinct, Entries.Distinct, Entries.keys, isScalar]
  have noText (unit : String) (number : Value) (unitFirst : Bool) :
      ¬IsText (quantityMap unit number unitFirst) := by
    rintro ⟨text, isText⟩
    cases unitFirst <;> cases isText
  have turned (number : Value) :
      Reordered (quantityMap "mJy" number true) (quantityMap "mJy" number false) ∧
        Reordered (quantityMap "mJy" number false) (quantityMap "mJy" number true) :=
    ⟨.single (.map (.swap _ _ _)), .single (.map (.swap _ _ _))⟩
  have noNaN : HoldsNoNaN (quantityMap "mJy" (.int 1) false) := (all_not_nan_iff _).mp rfl
  have facts (unit : String) := @loose_equivalence_within_matching (quantityMap "mJy" (.int 1) false)
    (quantityMap unit (.bool true) true) (quantityMap "mJy" (.float (.ofInt 1)) true)
    (distinct "mJy" (.int 1) trivial false) (distinct unit (.bool true) trivial true)
    (distinct "mJy" (.float (.ofInt 1)) trivial true)
  obtain ⟨symm, trans, -, reordered, -, itself, -⟩ := facts "mJy"
  obtain ⟨-, -, -, -, -, -, either⟩ := facts "MJY"
  have same : looseEq (quantityMap "mJy" (.int 1) false) (quantityMap "mJy" (.bool true) true) = true := by
    decide +kernel
  have further : looseEq (quantityMap "mJy" (.bool true) true)
      (quantityMap "mJy" (.float (.ofInt 1)) true) = true := by
    decide +kernel
  have cased : matchesDefault (quantityMap "mJy" (.int 1) false) (quantityMap "MJY" (.bool true) true) =
      true := by
    decide +kernel
  refine ⟨symm ▸ same, trans same further, ?_, itself.mpr noNaN, ?_, by decide +kernel⟩
  · exact (reordered _ _ (turned _).2 (turned _).1).trans same
  · exact (either (noText _ _ _) (noText _ _ _)).symm.trans cased

end Matching

end TaskCab
