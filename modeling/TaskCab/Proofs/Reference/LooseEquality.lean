import TaskCab.Proofs.Value.Scalars
import TaskCab.Reference.Matching

/-!
# Loose equality of a value with itself

Loose equality is reflexive on the values that hold no NaN, and on no others.
-/

namespace TaskCab

namespace Binary64

theorem is_nan_of_int (integer : Int) : (ofInt integer).isNaN = false := by
  have bound := nearest_magnitude_le integer.natAbs 1
  have below : nearestMagnitude integer.natAbs 1 < 2 ^ 63 :=
    Nat.lt_of_le_of_lt bound (by decide)
  rw [ofInt, isNaN, magnitude_of_magnitude _ below]
  simpa using bound

theorem not_nan_of_finite {number : Binary64} (finite : number.isFinite = true) : number.isNaN = false := by
  simp only [isFinite, isNaN, decide_eq_true_eq, decide_eq_false_iff_not] at *
  omega

theorem numeric_eq_self (number : Binary64) : number.numericEq number = !number.isNaN := by
  simp [numericEq]

end Binary64

namespace Matching

open Value

def isNotNaN : Value → Bool
  | .float number => !number.isNaN
  | _ => true

theorem all_not_nan_iff (value : Value) :
    (scalars value).all isNotNaN = true ↔
      ∀ number, .float number ∈ scalars value → number.isNaN = false := by
  rw [List.all_eq_true]
  constructor
  · intro all number member
    simpa [isNotNaN] using all _ member
  · intro sound scalar member
    cases scalar with
    | float number => simpa [isNotNaN] using sound number member
    | null | bool | int | str | list | map => rfl

mutual

theorem loose_eq_self {value : Value} (distinct : Distinct value) :
    looseEq value value = (scalars value).all isNotNaN := by
  match value with
  | .null => rfl
  | .str text => simp [looseEq, scalars, isNotNaN]
  | .bool truth =>
      simp [looseEq, number?, scalars, isNotNaN, Binary64.numeric_eq_self, Binary64.is_nan_of_int]
  | .int word =>
      simp [looseEq, number?, scalars, isNotNaN, Binary64.numeric_eq_self, Binary64.is_nan_of_int]
  | .float number => simp [looseEq, number?, scalars, isNotNaN, Binary64.numeric_eq_self]
  | .list items =>
      rw [looseEq, scalars]
      exact loose_eq_items_self distinct
  | .map entries =>
      have found : ∀ entry ∈ entries, Entries.get? entry.1 entries = some entry.2 := by
        intro entry member
        exact Entries.get_of_mem distinct.1 member
      rw [looseEq, scalars, loose_eq_entries_self distinct.2 found]
      simp

theorem loose_eq_items_self {items : List Value} (distinct : AllDistinct items) :
    looseEqItems items items = (itemScalars items).all isNotNaN := by
  match items with
  | [] => rfl
  | item :: rest =>
      rw [looseEqItems, loose_eq_self distinct.1, loose_eq_items_self distinct.2, itemScalars,
        List.all_append]

theorem loose_eq_entries_self {rest entries : List (String × Value)}
    (distinct : EntriesDistinct rest)
    (found : ∀ entry ∈ rest, Entries.get? entry.1 entries = some entry.2) :
    looseEqEntries rest entries = (entryScalars rest).all isNotNaN := by
  match rest with
  | [] => rfl
  | (key, value) :: more =>
      have later : ∀ entry ∈ more, Entries.get? entry.1 entries = some entry.2 := by
        intro entry member
        exact found entry (.tail _ member)
      have here : Entries.get? key entries = some value := found (key, value) (.head _)
      rw [looseEqEntries, here, entryScalars, List.all_append, loose_eq_entries_self distinct.2 later]
      dsimp only
      rw [loose_eq_self distinct.1]

end

theorem same_part_self {value : Value} (distinct : Distinct value) :
    samePart value value = (scalars value).all isNotNaN := by
  cases value with
  | str text => simp [samePart, Text.sameIgnoringCase, scalars, isNotNaN]
  | null | bool | int | float | list | map =>
      rw [samePart, loose_eq_self distinct]
      simp

theorem same_quantity_self {entries : List (String × Value)} (distinct : Distinct (.map entries)) :
    sameQuantity entries entries = true → (entryScalars entries).all isNotNaN = true := by
  intro same
  have parts := List.all_eq_true.mp (Bool.and_eq_true_iff.mp same).2
  have others := distinct.2
  have found : ∀ entry ∈ entries, Entries.get? entry.1 entries = some entry.2 := by
    intro entry member
    exact Entries.get_of_mem distinct.1 member
  have sound : ∀ entry ∈ entries, samePart entry.2 entry.2 = true := by
    intro entry member
    simpa [found entry member] using parts entry member
  clear same parts found distinct
  induction entries with
  | nil => rfl
  | cons entry rest ih =>
      have first := sound entry (.head _)
      rw [same_part_self others.1] at first
      rw [entryScalars, List.all_append, first, ih others.2 fun other member =>
        sound other (.tail _ member)]
      rfl

/-- A value matches itself exactly if it holds no NaN. -/
theorem matches_default_self {value : Value} (distinct : Distinct value) :
    matchesDefault value value = (scalars value).all isNotNaN := by
  unfold matchesDefault
  rw [loose_eq_self distinct]
  cases sound : (scalars value).all isNotNaN with
  | true => rfl
  | false =>
      rw [Bool.false_or]
      cases value with
      | null | bool | int | float => rfl
      | str text => simp [scalars, isNotNaN] at sound
      | list items =>
          cases items with
          | nil => simp [scalars, itemScalars] at sound
          | cons item rest => simp [isEmptyAmongBools]
      | map entries =>
          refine Bool.eq_false_iff.mpr ?_
          intro same
          have clean := same_quantity_self distinct same
          rw [scalars] at sound
          rw [sound] at clean
          exact Bool.false_ne_true clean

end Matching

end TaskCab
