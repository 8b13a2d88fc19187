import Mathlib.Data.List.Forall2
import TaskCab.Proofs.Value.Reading

/-!
# Alike values

Two values are alike if they have the same shape, the same texts and the same names, and if their numbers
are the same in some sense that is left open. The order of a map does not count.
-/

namespace TaskCab.Value

/-- A statement about values holds of all of them if it holds of each whose parts it holds of. -/
@[elab_as_elim]
theorem parts_induction {motive : Value → Prop} (value : Value)
    (null : motive .null) (bool : ∀ truth, motive (.bool truth)) (int : ∀ word, motive (.int word))
    (float : ∀ number, motive (.float number)) (str : ∀ text, motive (.str text))
    (list : ∀ items, (∀ item ∈ items, motive item) → motive (.list items))
    (map : ∀ entries, (∀ entry ∈ entries, motive entry.2) → motive (.map entries)) : motive value :=
  @Value.rec motive (fun items => ∀ item ∈ items, motive item)
    (fun entries => ∀ entry ∈ entries, motive entry.2) (fun entry => motive entry.2)
    null bool int float str list map (by simp)
    (fun _ _ first rest => List.forall_mem_cons.mpr ⟨first, rest⟩) (by simp)
    (fun _ _ first rest => List.forall_mem_cons.mpr ⟨first, rest⟩) (fun _ _ item => item) value

def isNumber : Value → Bool
  | bool _ | int _ | float _ => true
  | _ => false

/-- Equality of data, up to what counts as the same number. -/
inductive Alike (same : Value → Value → Prop) : Value → Value → Prop
  | null : Alike same .null .null
  | number {left right : Value} (isLeft : left.isNumber) (isRight : right.isNumber)
      (agree : same left right) : Alike same left right
  | str (text : String) : Alike same (.str text) (.str text)
  | list {lefts rights : List Value} (items : List.Forall₂ (Alike same) lefts rights) :
      Alike same (.list lefts) (.list rights)
  | map {lefts rights : List (String × Value)}
      (names : ∀ name, name ∈ Entries.keys lefts ↔ name ∈ Entries.keys rights)
      (items : ∀ name left right, Entries.get? name lefts = some left →
        Entries.get? name rights = some right → Alike same left right) :
      Alike same (.map lefts) (.map rights)

variable {same other both : Value → Value → Prop} {left middle right : Value}

theorem alike_null : Alike same .null right ↔ right = .null := by
  constructor
  · rintro (_ | ⟨isLeft, _, _⟩)
    · rfl
    · cases isLeft
  · rintro rfl
    exact .null

theorem alike_str {text : String} : Alike same (.str text) right ↔ right = .str text := by
  constructor
  · rintro (_ | ⟨isLeft, _, _⟩ | _)
    · cases isLeft
    · rfl
  · rintro rfl
    exact .str text

theorem alike_number (isLeft : left.isNumber) :
    Alike same left right ↔ right.isNumber = true ∧ same left right := by
  constructor
  · rintro (_ | ⟨_, isRight, agree⟩ | _ | _ | _)
    case number => exact ⟨isRight, agree⟩
    all_goals cases isLeft
  · rintro ⟨isRight, agree⟩
    exact .number isLeft isRight agree

theorem alike_list {lefts : List Value} :
    Alike same (.list lefts) right ↔
      ∃ rights, right = .list rights ∧ List.Forall₂ (Alike same) lefts rights := by
  constructor
  · rintro (_ | ⟨isLeft, _, _⟩ | _ | items)
    · cases isLeft
    · exact ⟨_, rfl, items⟩
  · rintro ⟨rights, rfl, items⟩
    exact .list items

theorem alike_map {lefts : List (String × Value)} :
    Alike same (.map lefts) right ↔
      ∃ rights, right = .map rights ∧
        (∀ name, name ∈ Entries.keys lefts ↔ name ∈ Entries.keys rights) ∧
          ∀ name left right, Entries.get? name lefts = some left →
            Entries.get? name rights = some right → Alike same left right := by
  constructor
  · rintro (_ | ⟨isLeft, _, _⟩ | _ | _ | ⟨names, items⟩)
    · cases isLeft
    · exact ⟨_, rfl, names, items⟩
  · rintro ⟨rights, rfl, names, items⟩
    exact .map names items

/-! ## Changing what counts as the same number -/

theorem forall_pairs_imp {Item Held : Type} {relation implied : Item → Held → Prop} {items : List Item}
    {others : List Held} (step : ∀ item ∈ items, ∀ held ∈ others, relation item held → implied item held)
    (pairs : List.Forall₂ relation items others) : List.Forall₂ implied items others := by
  induction pairs with
  | nil => exact .nil
  | cons first _ ih =>
      refine .cons (step _ (.head _) _ (.head _) first) (ih fun item member held inside => ?_)
      exact step item (.tail _ member) held (.tail _ inside)

theorem scalars_of_number (isNumber : left.isNumber) : scalars left = [left] := by
  cases left <;> first | rfl | cases isNumber

theorem scalars_of_item {items : List Value} {item : Value} (member : item ∈ items) :
    scalars item ⊆ scalars (.list items) := by
  intro scalar inside
  rw [scalars, item_scalars_eq]
  exact List.mem_flatMap.mpr ⟨item, member, inside⟩

theorem scalars_of_entry {entries : List (String × Value)} {name : String} {item : Value}
    (found : Entries.get? name entries = some item) : scalars item ⊆ scalars (.map entries) := by
  intro scalar inside
  rw [scalars, entry_scalars_eq]
  exact List.mem_flatMap.mpr ⟨_, Entries.mem_of_get found, inside⟩

theorem alike_number_imp (isLeft : left.isNumber) (alike : Alike same left right)
    (step : ∀ first ∈ scalars left, ∀ second ∈ scalars right, same first second → other first second) :
    Alike other left right := by
  obtain ⟨isRight, agree⟩ := (alike_number isLeft).mp alike
  refine .number isLeft isRight (step _ ?_ _ ?_ agree)
  · simp [scalars_of_number isLeft]
  · simp [scalars_of_number isRight]

/-- Alike values stay alike if the numbers that they hold are the same in another sense too. -/
theorem Alike.imp (alike : Alike same left right)
    (step : ∀ first ∈ scalars left, ∀ second ∈ scalars right, same first second → other first second) :
    Alike other left right := by
  induction left using parts_induction generalizing right with
  | null => exact alike_null.mpr (alike_null.mp alike)
  | str text => exact alike_str.mpr (alike_str.mp alike)
  | bool truth => exact alike_number_imp rfl alike step
  | int word => exact alike_number_imp rfl alike step
  | float number => exact alike_number_imp rfl alike step
  | list lefts ih =>
      obtain ⟨rights, rfl, items⟩ := alike_list.mp alike
      refine .list (forall_pairs_imp (fun item member held inside pair => ?_) items)
      refine ih item member pair fun first isFirst second isSecond => ?_
      exact step first (scalars_of_item member isFirst) second (scalars_of_item inside isSecond)
  | map lefts ih =>
      obtain ⟨rights, rfl, names, items⟩ := alike_map.mp alike
      refine .map names fun name item held isItem isHeld => ?_
      refine ih _ (Entries.mem_of_get isItem) (items name item held isItem isHeld) ?_
      intro first isFirst second isSecond
      exact step first (scalars_of_entry isItem isFirst) second (scalars_of_entry isHeld isSecond)

/-! ## Relating values through a third one -/

theorem Alike.refl (reflexive : ∀ value, same value value) (value : Value) : Alike same value value := by
  induction value using parts_induction with
  | null => exact .null
  | str text => exact .str text
  | bool | int | float => exact .number rfl rfl (reflexive _)
  | list items ih => exact .list (List.forall₂_same.mpr ih)
  | map entries ih =>
      refine .map (fun _ => Iff.rfl) fun name item held isItem isHeld => ?_
      obtain rfl := Option.some.inj (isItem.symm.trans isHeld)
      exact ih _ (Entries.mem_of_get isItem)

theorem Alike.symm (alike : Alike same left right) :
    Alike (fun left right => same right left) right left := by
  induction left using parts_induction generalizing right with
  | null =>
      obtain rfl := alike_null.mp alike
      exact .null
  | str text =>
      obtain rfl := alike_str.mp alike
      exact .str text
  | bool | int | float =>
      obtain ⟨isRight, agree⟩ := (alike_number rfl).mp alike
      exact .number isRight rfl agree
  | list lefts ih =>
      obtain ⟨rights, rfl, items⟩ := alike_list.mp alike
      refine .list (List.Forall₂.flip ?_)
      exact forall_pairs_imp (fun item member held _ pair => ih item member pair) items
  | map lefts ih =>
      obtain ⟨rights, rfl, names, items⟩ := alike_map.mp alike
      refine .map (fun name => (names name).symm) fun name held item isHeld isItem => ?_
      exact ih _ (Entries.mem_of_get isItem) (items name item held isItem isHeld)

theorem forall_pairs_trans {Item : Type} {first second both : Item → Item → Prop}
    {lefts middles rights : List Item} (before : List.Forall₂ first lefts middles)
    (after : List.Forall₂ second middles rights)
    (step : ∀ left ∈ lefts, ∀ middle right, first left middle → second middle right → both left right) :
    List.Forall₂ both lefts rights := by
  induction before generalizing rights with
  | nil =>
      cases after
      exact .nil
  | cons pair _ ih =>
      obtain _ | ⟨next, later⟩ := after
      refine .cons (step _ (.head _) _ _ pair next) (ih later fun left member => ?_)
      exact step left (.tail _ member)

/-- What is alike in one sense and then in another is alike in the sense of both, one after the other. -/
theorem Alike.trans (before : Alike same left middle) (after : Alike other middle right)
    (step : ∀ first second third, same first second → other second third → both first third) :
    Alike both left right := by
  induction left using parts_induction generalizing middle right with
  | null =>
      obtain rfl := alike_null.mp before
      exact alike_null.mpr (alike_null.mp after)
  | str text =>
      obtain rfl := alike_str.mp before
      exact alike_str.mpr (alike_str.mp after)
  | bool | int | float =>
      obtain ⟨isMiddle, agree⟩ := (alike_number rfl).mp before
      obtain ⟨isRight, further⟩ := (alike_number isMiddle).mp after
      exact .number rfl isRight (step _ _ _ agree further)
  | list lefts ih =>
      obtain ⟨middles, rfl, items⟩ := alike_list.mp before
      obtain ⟨rights, rfl, others⟩ := alike_list.mp after
      exact .list (forall_pairs_trans items others fun item member _ _ => ih item member)
  | map lefts ih =>
      obtain ⟨middles, rfl, names, items⟩ := alike_map.mp before
      obtain ⟨rights, rfl, namesOther, others⟩ := alike_map.mp after
      refine .map (fun name => (names name).trans (namesOther name)) fun name item held isItem isHeld => ?_
      have inMiddle := (names name).mp (Entries.exists_get_iff.mp ⟨item, isItem⟩)
      obtain ⟨passed, isPassed⟩ := Entries.exists_get_iff.mpr inMiddle
      exact ih _ (Entries.mem_of_get isItem) (items name item passed isItem isPassed)
        (others name passed held isPassed isHeld)

end TaskCab.Value
