import TaskCab.Package
import TaskCab.Proofs.Json.FloatText
import TaskCab.Proofs.Value.Content

/-!
# Values in JSON

A value that is written as JSON is read back with its floats as their own texts are read: a finite one as a
finite one, and one that is not finite as `null`. Where each float has a text that is read exactly, nothing
else changes. The reader takes values that are nested up to its limit.
-/

namespace TaskCab

namespace Json

mutual

def depth : Json → Nat
  | array items => itemDepth items + 1
  | object members => memberDepth members + 1
  | _ => 0

def itemDepth : List Json → Nat
  | [] => 0
  | item :: rest => max (depth item) (itemDepth rest)

def memberDepth : List (String × Json) → Nat
  | [] => 0
  | (_, value) :: rest => max (depth value) (memberDepth rest)

end

theorem depth_le_member_depth {members : List (String × Json)} {member : String × Json}
    (inside : member ∈ members) : member.2.depth ≤ memberDepth members := by
  induction members with
  | nil => simp at inside
  | cons first rest ih =>
      rw [memberDepth]
      rcases List.mem_cons.mp inside with rfl | later
      · exact Nat.le_max_left _ _
      · exact Nat.le_trans (ih later) (Nat.le_max_right _ _)

theorem tree_float_of_not_finite {number : Binary64} (notFinite : ¬number.isFinite = true) :
    tree (.float number) = .null := by
  rw [tree, floatText, if_neg notFinite]
  rfl

theorem float_to_value (number : Binary64) (depth : Nat) :
    (tree (.float number)).toValue? depth = (tree (.float number)).toValue? 0 := by
  rw [tree]
  split <;> rfl

theorem integer_numeral_value (integer : Int) : (integerNumeral integer).integer? = some integer := by
  have digits : Nat.ofDigitChars 10 (Integer.digits integer.natAbs) 0 = integer.natAbs :=
    Nat.ofDigitChars_ten_toDigits
  simp only [Numeral.integer?, integerNumeral, Option.isSome_none, Bool.or_self, Bool.false_eq_true,
    if_false, digits, decide_eq_true_eq]
  split
  next negative =>
    rw [if_neg (by omega)]
    exact congrArg some (by omega)
  next => exact congrArg some (by omega)

theorem integer_to_value (word : Int64) (depth : Nat) :
    (tree (.int word.toInt)).toValue? depth = some (.int word) := by
  rw [tree, Tree.toValue?, Numeral.value?, integer_numeral_value, Option.bind_some,
    Integer.word_of_to_int rfl]

end Json

namespace Value

open Json (depthLimit)

mutual

/-- What is left of a value in JSON: floats that are not finite become `null`. -/
def stored : Value → Value
  | float number => if number.isFinite then float number else null
  | list items => list (storedItems items)
  | map entries => map (storedEntries entries)
  | value => value

def storedItems : List Value → List Value
  | [] => []
  | item :: rest => stored item :: storedItems rest

def storedEntries : List (String × Value) → List (String × Value)
  | [] => []
  | (key, value) :: rest => (key, stored value) :: storedEntries rest

end

/-- What is read from the JSON of a float. -/
def rereadFloat (number : Binary64) : Value :=
  (Json.readValue? (String.ofList (Json.floatText number))).getD .null

mutual

def reread : Value → Value
  | float number => rereadFloat number
  | list items => list (rereadItems items)
  | map entries => map (rereadEntries entries)
  | value => value

def rereadItems : List Value → List Value
  | [] => []
  | item :: rest => reread item :: rereadItems rest

def rereadEntries : List (String × Value) → List (String × Value)
  | [] => []
  | (key, value) :: rest => (key, reread value) :: rereadEntries rest

end

theorem reread_float_of_not_finite {number : Binary64} (notFinite : ¬number.isFinite = true) :
    rereadFloat number = .null := by
  rw [rereadFloat, Json.read_float_text, Json.tree_float_of_not_finite notFinite]
  rfl

theorem reread_float_of_finite {number : Binary64} (finite : number.isFinite = true) :
    ∃ other : Binary64, other.isFinite = true ∧ rereadFloat number = .float other := by
  obtain ⟨other, otherFinite, read⟩ := Json.finite_of_float_text finite
  exact ⟨other, otherFinite, by rw [rereadFloat, read, Option.getD_some]⟩

theorem to_value_float (number : Binary64) (depth : Nat) :
    (Json.tree (.float number)).toValue? depth = some (rereadFloat number) := by
  rw [Json.float_to_value, rereadFloat, Json.read_float_text]
  by_cases finite : number.isFinite = true
  · obtain ⟨other, -, read⟩ := Json.finite_of_float_text finite
    rw [← Json.read_float_text, read, Option.getD_some]
  · rw [Json.tree_float_of_not_finite finite]
    rfl

theorem keys_reread_entries (entries : List (String × Value)) :
    Entries.keys (rereadEntries entries) = Entries.keys entries := by
  induction entries with
  | nil => rfl
  | cons entry rest ih =>
      rw [rereadEntries, Entries.keys, List.map_cons]
      exact congrArg (entry.1 :: ·) ih

mutual

/-- The tree of a value that is written is read as the floats in it are. -/
theorem to_value_reread (value : Value) (distinct : value.Distinct) (depth : Nat)
    (shallow : depth + value.toJson.depth ≤ depthLimit) :
    value.toJson.tree.toValue? depth = some value.reread := by
  cases value with
  | null | bool | str => rfl
  | int word => exact Json.integer_to_value word depth
  | float number => exact to_value_float number depth
  | list items =>
      rw [toJson, Json.depth] at shallow
      have read := item_values_reread items distinct (depth + 1) (by omega)
      rw [toJson, Json.tree, Json.Tree.toValue?, if_pos (by omega), read]
      rfl
  | map entries =>
      rw [toJson, Json.depth] at shallow
      have read := member_values_reread entries distinct.2 (depth + 1) (by omega)
      have table : Entries.Distinct (rereadEntries entries) := by
        rw [Entries.Distinct, keys_reread_entries]
        exact distinct.1
      rw [toJson, Json.tree, Json.Tree.toValue?, if_pos (by omega), read, Option.map_some,
        Entries.of_list_of_distinct table]
      rfl

theorem item_values_reread (items : List Value) (distinct : AllDistinct items) (depth : Nat)
    (shallow : depth + Json.itemDepth (itemsToJson items) ≤ depthLimit) :
    Json.Tree.itemValues? depth (Json.itemTrees (itemsToJson items)) = some (rereadItems items) := by
  cases items with
  | nil => rfl
  | cons item rest =>
      rw [itemsToJson, Json.itemDepth] at shallow
      have one := to_value_reread item distinct.1 depth (by omega)
      have others := item_values_reread rest distinct.2 depth (by omega)
      rw [itemsToJson, Json.itemTrees, Json.Tree.itemValues?, one, others]
      rfl

theorem member_values_reread (entries : List (String × Value)) (distinct : EntriesDistinct entries)
    (depth : Nat) (shallow : depth + Json.memberDepth (entriesToJson entries) ≤ depthLimit) :
    Json.Tree.memberValues? depth (Json.memberTrees (entriesToJson entries)) =
      some (rereadEntries entries) := by
  cases entries with
  | nil => rfl
  | cons entry rest =>
      obtain ⟨key, value⟩ := entry
      rw [entriesToJson, Json.memberDepth] at shallow
      have one := to_value_reread value distinct.1 depth (by omega)
      have others := member_values_reread rest distinct.2 depth (by omega)
      rw [entriesToJson, Json.memberTrees, Json.Tree.memberValues?, one, others]
      rfl

end

/-! ### Floats that are read exactly -/

/-- Whether each finite float in a value is read back from its own text. -/
def FloatsReread (scalars : List Value) : Prop :=
  ∀ number, .float number ∈ scalars → number.isFinite = true → Json.Rereads number

instance (scalars : List Value) : Decidable (FloatsReread scalars) :=
  decidable_of_iff (∀ value ∈ scalars, ∀ number ∈ Json.float? value,
      number.isFinite = true → Json.Rereads number) <| by
    constructor
    · intro each number member
      exact each (.float number) member number rfl
    · intro reread value member number isFloat
      cases value with
      | float other =>
          obtain rfl := Option.some.inj isFloat
          exact reread other member
      | _ => simp [Json.float?] at isFloat

theorem floats_reread_append {left right : List Value} :
    FloatsReread (left ++ right) ↔ FloatsReread left ∧ FloatsReread right := by
  constructor
  · intro reread
    exact ⟨fun number member => reread number (List.mem_append_left _ member),
      fun number member => reread number (List.mem_append_right _ member)⟩
  · rintro ⟨leftReread, rightReread⟩ number member
    rcases List.mem_append.mp member with inLeft | inRight
    · exact leftReread number inLeft
    · exact rightReread number inRight

mutual

/-- Where each finite float is read exactly, what is read is what is left of a value. -/
theorem reread_eq_stored (value : Value) (reads : FloatsReread value.scalars) :
    value.reread = value.stored := by
  cases value with
  | null | bool | int | str => rfl
  | float number =>
      rw [reread, stored]
      split
      next finite =>
        have same := reads number (by simp [scalars]) finite
        rw [rereadFloat, same, Option.getD_some]
      next notFinite => exact reread_float_of_not_finite notFinite
  | list items => exact congrArg list (reread_items_eq_stored items reads)
  | map entries => exact congrArg map (reread_entries_eq_stored entries reads)

theorem reread_items_eq_stored (items : List Value) (reads : FloatsReread (itemScalars items)) :
    rereadItems items = storedItems items := by
  cases items with
  | nil => rfl
  | cons item rest =>
      obtain ⟨first, later⟩ := floats_reread_append.mp reads
      rw [rereadItems, storedItems, reread_eq_stored item first, reread_items_eq_stored rest later]

theorem reread_entries_eq_stored (entries : List (String × Value))
    (reads : FloatsReread (entryScalars entries)) : rereadEntries entries = storedEntries entries := by
  cases entries with
  | nil => rfl
  | cons entry rest =>
      obtain ⟨key, value⟩ := entry
      obtain ⟨first, later⟩ := floats_reread_append.mp reads
      rw [rereadEntries, storedEntries, reread_eq_stored value first,
        reread_entries_eq_stored rest later]

end

mutual

/-- What is left of a value has the text of the value. -/
theorem render_stored (layout : Json.Layout) (level : Nat) (value : Value) :
    value.stored.toJson.render layout level = value.toJson.render layout level := by
  cases value with
  | null | bool | int | str => rfl
  | float number =>
      rw [stored]
      split
      next => rfl
      next notFinite =>
        rw [toJson, toJson, Json.render, Json.render, Json.floatText, if_neg notFinite]
  | list items =>
      rw [stored, toJson, toJson, Json.render, Json.render, render_stored_items]
  | map entries =>
      rw [stored, toJson, toJson, Json.render, Json.render, render_stored_entries]

theorem render_stored_items (layout : Json.Layout) (level : Nat) (items : List Value) :
    Json.renderItems layout level (itemsToJson (storedItems items)) =
      Json.renderItems layout level (itemsToJson items) := by
  cases items with
  | nil => rfl
  | cons item rest =>
      simp only [storedItems, itemsToJson, Json.renderItems, render_stored layout level item,
        render_stored_items layout level rest]

theorem render_stored_entries (layout : Json.Layout) (level : Nat)
    (entries : List (String × Value)) :
    Json.renderMembers layout level (entriesToJson (storedEntries entries)) =
      Json.renderMembers layout level (entriesToJson entries) := by
  cases entries with
  | nil => rfl
  | cons entry rest =>
      simp only [storedEntries, entriesToJson, Json.renderMembers,
        render_stored layout level entry.2, render_stored_entries layout level rest]

end

end Value

end TaskCab
