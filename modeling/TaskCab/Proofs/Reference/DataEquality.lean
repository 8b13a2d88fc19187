import TaskCab.Proofs.Number.WholeNumbers
import TaskCab.Proofs.Source.ReadValues
import TaskCab.Proofs.Value.Alike

/-!
# Loose equality of data

Loose equality is equality of data: of texts by their characters, of lists item by item, of maps by their
names and what stands under them. Numbers are compared as double-precision numbers, so that integers count
as equal if they have the same nearest integer of fifty-three significant bits.
-/

namespace TaskCab.Matching

open Value Source.Literal

variable {left right : Value}

/-! ## All values -/

/-- Whether two values are numbers that are equal as double-precision numbers. -/
def SameNumber (left right : Value) : Prop :=
  ∃ first second, number? left = some first ∧ number? right = some second ∧ first.numericEq second = true

theorem loose_eq_items_iff {lefts rights : List Value} :
    looseEqItems lefts rights = true ↔
      List.Forall₂ (fun left right => looseEq left right = true) lefts rights := by
  induction lefts generalizing rights with
  | nil => cases rights <;> simp [looseEqItems]
  | cons item rest ih => cases rights <;> simp [looseEqItems, ih]

theorem loose_eq_entries_iff {lefts rights : List (String × Value)} :
    looseEqEntries lefts rights = true ↔
      ∀ entry ∈ lefts, ∃ item, Entries.get? entry.1 rights = some item ∧ looseEq entry.2 item = true := by
  induction lefts with
  | nil => simp [looseEqEntries]
  | cons entry rest ih =>
      obtain ⟨name, item⟩ := entry
      rw [looseEqEntries, Bool.and_eq_true, ih, List.forall_mem_cons]
      cases Entries.get? name rights <;> simp

theorem loose_eq_list {lefts : List Value} :
    looseEq (.list lefts) right = true ↔
      ∃ rights, right = .list rights ∧
        List.Forall₂ (fun left right => looseEq left right = true) lefts rights := by
  rw [← exists_congr fun rights => and_congr_right fun _ => loose_eq_items_iff]
  cases right <;> simp [looseEq, number?]

theorem loose_eq_map {lefts : List (String × Value)} :
    looseEq (.map lefts) right = true ↔
      ∃ rights, right = .map rights ∧ lefts.length = rights.length ∧
        ∀ entry ∈ lefts, ∃ item, Entries.get? entry.1 rights = some item ∧ looseEq entry.2 item = true := by
  rw [← exists_congr fun rights => and_congr_right fun _ => and_congr_right fun _ => loose_eq_entries_iff]
  cases right <;> simp [looseEq, number?]

theorem loose_eq_number (isLeft : left.isNumber) :
    looseEq left right = true ↔ right.isNumber = true ∧ SameNumber left right := by
  cases left <;> try cases isLeft
  all_goals cases right <;> simp [looseEq, number?, isNumber, SameNumber]

/-- Loose equality is equality of data with numbers compared as double-precision numbers. -/
theorem loose_eq_iff_alike (distinctLeft : Distinct left) (distinctRight : Distinct right) :
    looseEq left right = true ↔ Alike SameNumber left right := by
  induction left using parts_induction generalizing right with
  | null =>
      rw [alike_null]
      cases right <;> simp [looseEq, number?]
  | str text =>
      rw [alike_str]
      cases right with
      | str other => simpa [looseEq] using eq_comm
      | null | bool | int | float | list | map => simp [looseEq, number?]
  | bool truth => exact (loose_eq_number rfl).trans (alike_number rfl).symm
  | int word => exact (loose_eq_number rfl).trans (alike_number rfl).symm
  | float number => exact (loose_eq_number rfl).trans (alike_number rfl).symm
  | list lefts ih =>
      rw [loose_eq_list, alike_list]
      refine exists_congr fun rights => and_congr_right ?_
      rintro rfl
      have each {item held : Value} (member : item ∈ lefts) (inside : held ∈ rights) :=
        ih item member (all_distinct_iff.mp distinctLeft item member)
          (all_distinct_iff.mp distinctRight held inside)
      constructor
      · exact forall_pairs_imp fun item member held inside => (each member inside).mp
      · exact forall_pairs_imp fun item member held inside => (each member inside).mpr
  | map lefts ih =>
      rw [loose_eq_map, alike_map]
      refine exists_congr fun rights => and_congr_right ?_
      rintro rfl
      have partsLeft := entries_distinct_iff.mp distinctLeft.2
      have partsRight := entries_distinct_iff.mp distinctRight.2
      refine (Entries.agree_iff (fun item held => looseEq item held = true) distinctLeft.1
        distinctRight.1).trans (and_congr_right fun _ => ?_)
      apply forall_congr'; intro name
      apply forall_congr'; intro item
      apply forall_congr'; intro held
      apply imp_congr_right; intro isItem
      apply imp_congr_right; intro isHeld
      have member := Entries.mem_of_get isItem
      exact ih _ member (partsLeft _ member) (partsRight _ (Entries.mem_of_get isHeld))

/-! ## Values without floats -/

def integer? : Value → Option Int
  | .bool truth => some truth.toInt
  | .int word => some word.toInt
  | _ => none

def SameInteger (related : Int → Int → Prop) (left right : Value) : Prop :=
  ∃ first second, integer? left = some first ∧ integer? right = some second ∧ related first second

/-- The integers that the truth values and integers of a value stand for. -/
def integers (value : Value) : List Int := (scalars value).filterMap integer?

def HoldsNoFloat (value : Value) : Prop := ∀ number, .float number ∉ scalars value

/-- Equality of data that compares integers exactly. -/
def Equal : Value → Value → Prop := Alike (SameInteger fun first second => first = second)

/-- Equality of data that rounds integers to fifty-three significant bits before it compares them. -/
def NearlyEqual : Value → Value → Prop :=
  Alike (SameInteger fun first second => Binary64.nearestInteger first = Binary64.nearestInteger second)

theorem number_of_integer {integer : Int} (isInteger : integer? left = some integer) :
    number? left = some (.ofInt integer) ∧ integer.natAbs < 2 ^ 64 := by
  cases left with
  | bool truth =>
      obtain rfl := Option.some.inj isInteger
      cases truth <;> exact ⟨rfl, by decide⟩
  | int word =>
      obtain rfl := Option.some.inj isInteger
      have lower := word.le_toInt
      have upper := word.toInt_lt
      exact ⟨rfl, by omega⟩
  | null | float | str | list | map => cases isInteger

theorem integer_of_number {number : Binary64} (isNumber : number? left = some number)
    (noFloat : ∀ number, left ≠ .float number) : ∃ integer, integer? left = some integer := by
  cases left with
  | bool truth => exact ⟨_, rfl⟩
  | int word => exact ⟨_, rfl⟩
  | float number => exact absurd rfl (noFloat number)
  | null | str | list | map => cases isNumber

theorem same_number_iff (noFloatLeft : ∀ number, left ≠ .float number)
    (noFloatRight : ∀ number, right ≠ .float number) :
    SameNumber left right ↔
      SameInteger (fun first second => Binary64.nearestInteger first = Binary64.nearestInteger second)
        left right := by
  constructor
  · rintro ⟨first, second, isFirst, isSecond, same⟩
    obtain ⟨left, isLeft⟩ := integer_of_number isFirst noFloatLeft
    obtain ⟨right, isRight⟩ := integer_of_number isSecond noFloatRight
    have numberLeft := number_of_integer isLeft
    have numberRight := number_of_integer isRight
    obtain rfl := Option.some.inj (numberLeft.1.symm.trans isFirst)
    obtain rfl := Option.some.inj (numberRight.1.symm.trans isSecond)
    exact ⟨left, right, isLeft, isRight, (Binary64.numeric_eq_of_int numberLeft.2 numberRight.2).mp same⟩
  · rintro ⟨first, second, isFirst, isSecond, same⟩
    have numberLeft := number_of_integer isFirst
    have numberRight := number_of_integer isSecond
    exact ⟨_, _, numberLeft.1, numberRight.1,
      (Binary64.numeric_eq_of_int numberLeft.2 numberRight.2).mpr same⟩

theorem nearly_equal_of_equal (equal : Equal left right) : NearlyEqual left right := by
  refine equal.imp ?_
  rintro first _ second _ ⟨integer, _, isFirst, isSecond, rfl⟩
  exact ⟨integer, integer, isFirst, isSecond, rfl⟩

theorem equal_of_nearly_equal (nearly : NearlyEqual left right)
    (apart : ∀ first ∈ integers left, ∀ second ∈ integers right,
      Binary64.nearestInteger first = Binary64.nearestInteger second → first = second) :
    Equal left right := by
  refine nearly.imp ?_
  rintro first atFirst second atSecond ⟨integer, other, isFirst, isSecond, same⟩
  have inLeft : integer ∈ integers left := List.mem_filterMap.mpr ⟨first, atFirst, isFirst⟩
  have inRight : other ∈ integers right := List.mem_filterMap.mpr ⟨second, atSecond, isSecond⟩
  exact ⟨integer, other, isFirst, isSecond, apart integer inLeft other inRight same⟩

theorem loose_eq_iff_nearly_equal (distinctLeft : Distinct left) (distinctRight : Distinct right)
    (noFloatLeft : HoldsNoFloat left) (noFloatRight : HoldsNoFloat right) :
    looseEq left right = true ↔ NearlyEqual left right := by
  rw [loose_eq_iff_alike distinctLeft distinctRight]
  have scalar {value part : Value} (noFloat : HoldsNoFloat value) (member : part ∈ scalars value) :
      ∀ number, part ≠ .float number := by
    rintro number rfl
    exact noFloat number member
  constructor
  · intro alike
    refine alike.imp fun first atFirst second atSecond => ?_
    exact (same_number_iff (scalar noFloatLeft atFirst) (scalar noFloatRight atSecond)).mp
  · intro nearly
    refine nearly.imp fun first atFirst second atSecond => ?_
    exact (same_number_iff (scalar noFloatLeft atFirst) (scalar noFloatRight atSecond)).mpr

/-- Among values without floats, loose equality is equality of data with integers rounded to fifty-three
significant bits. Equal data is loosely equal; loosely equal data is equal unless it holds two different
integers with the same nearest one, and so if the integers on one side are all below `2 ^ 53`. -/
theorem loose_eq_of_integers (distinctLeft : Distinct left) (distinctRight : Distinct right)
    (noFloatLeft : HoldsNoFloat left) (noFloatRight : HoldsNoFloat right) :
    (looseEq left right = true ↔ NearlyEqual left right) ∧
      (Equal left right → looseEq left right = true) ∧
      ((∀ first ∈ integers left, ∀ second ∈ integers right,
          Binary64.nearestInteger first = Binary64.nearestInteger second → first = second) →
        (looseEq left right = true ↔ Equal left right)) ∧
      ((∀ integer ∈ integers left, integer.natAbs < 2 ^ 53) ∨
          (∀ integer ∈ integers right, integer.natAbs < 2 ^ 53) →
        (looseEq left right = true ↔ Equal left right)) := by
  have nearly := loose_eq_iff_nearly_equal distinctLeft distinctRight noFloatLeft noFloatRight
  have complete : Equal left right → looseEq left right = true := fun equal =>
    nearly.mpr (nearly_equal_of_equal equal)
  have sharp (apart : ∀ first ∈ integers left, ∀ second ∈ integers right,
      Binary64.nearestInteger first = Binary64.nearestInteger second → first = second) :
      looseEq left right = true ↔ Equal left right :=
    ⟨fun same => equal_of_nearly_equal (nearly.mp same) apart, complete⟩
  refine ⟨nearly, complete, sharp, ?_⟩
  rintro (small | small)
  · exact sharp fun first member _ _ same => Binary64.nearest_integer_cancel (small first member) same
  · refine sharp fun first _ second member same => ?_
    exact (Binary64.nearest_integer_cancel (small second member) same.symm).symm

def sizeMap (size : Int64) : Value := .map [("size", .list [.int size]), ("flag", .bool true)]

def flagMap (size : Int64) : Value := .map [("flag", .int 1), ("size", .list [.int size])]

theorem loose_eq_of_neighbours :
    looseEq (sizeMap 9007199254740993) (flagMap 9007199254740992) = true ∧
      NearlyEqual (sizeMap 9007199254740993) (flagMap 9007199254740992) ∧
      ¬Equal (sizeMap 9007199254740993) (flagMap 9007199254740992) ∧ Equal (sizeMap 7) (flagMap 7) := by
  have distinctSize (size : Int64) : Distinct (sizeMap size) := by
    simp [sizeMap, Distinct, EntriesDistinct, AllDistinct, Entries.Distinct, Entries.keys]
  have distinctFlag (size : Int64) : Distinct (flagMap size) := by
    simp [flagMap, Distinct, EntriesDistinct, AllDistinct, Entries.Distinct, Entries.keys]
  have noFloatSize (size : Int64) : HoldsNoFloat (sizeMap size) := by
    simp [HoldsNoFloat, sizeMap, scalars, entryScalars, itemScalars]
  have noFloatFlag (size : Int64) : HoldsNoFloat (flagMap size) := by
    simp [HoldsNoFloat, flagMap, scalars, entryScalars, itemScalars]
  have facts (size other : Int64) := loose_eq_of_integers (distinctSize size) (distinctFlag other)
    (noFloatSize size) (noFloatFlag other)
  have same : looseEq (sizeMap 9007199254740993) (flagMap 9007199254740992) = true := by decide +kernel
  have small : ∀ integer ∈ integers (sizeMap 7), integer.natAbs < 2 ^ 53 := by decide
  refine ⟨same, (facts _ _).1.mp same, ?_, ((facts 7 7).2.2.2 (.inl small)).mp (by decide +kernel)⟩
  intro equal
  obtain ⟨_, isMap, -, items⟩ := alike_map.mp equal
  cases isMap
  obtain ⟨_, isList, pairs⟩ := alike_list.mp (items "size" _ _ rfl rfl)
  cases isList
  obtain ⟨-, first, _, isFirst, isSecond, rfl⟩ := (alike_number rfl).mp (List.forall₂_cons.mp pairs).1
  have integers := Option.some.inj (isFirst.trans isSecond.symm)
  exact absurd integers (by decide)

end TaskCab.Matching
