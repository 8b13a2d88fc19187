import TaskCab.Proofs.Json.NumeralText
import TaskCab.Proofs.Json.StringText
import TaskCab.Proofs.Text.Joined

/-!
# Reading printed JSON

A printed value is read back as one tree, on one line or over several, in front of anything that no
numeral goes on with. What the reader is given as fuel, the length of the text, is enough for it.
-/

namespace TaskCab.Json

open TaskCab.Text

mutual

/-- The tree that the text of a value is read as. A float that has no text of its own is missing. -/
def tree : Json → Tree
  | null => .null
  | bool truth => .bool truth
  | int integer => .number (integerNumeral integer)
  | float number =>
      match Tree.numeral? (floatText number) with
      | some (numeral, _) => .number numeral
      | none => .null
  | str text => .str (some text)
  | array items => .array (itemTrees items)
  | object members => .object (memberTrees members)

def itemTrees : List Json → List Tree
  | [] => []
  | item :: rest => tree item :: itemTrees rest

def memberTrees : List (String × Json) → List (Option String × Tree)
  | [] => []
  | (name, value) :: rest => (some name, tree value) :: memberTrees rest

end

/-! ### Space between tokens -/

theorem skip_space_append {space : List Char} (blank : ∀ c ∈ space, Tree.isSpace c = true)
    (text : List Char) : Tree.skipSpace (space ++ text) = Tree.skipSpace text := by
  rw [Tree.skipSpace, List.dropWhile_append_of_pos blank]
  rfl

theorem skip_space_cons {character : Char} (visible : Tree.isSpace character = false)
    (text : List Char) : Tree.skipSpace (character :: text) = character :: text := by
  simp [Tree.skipSpace, visible]

theorem line_break_space (layout : Layout) (level : Nat) :
    ∀ c ∈ lineBreak layout level, Tree.isSpace c = true := by
  intro character member
  cases layout with
  | compact => simp [lineBreak] at member
  | indented =>
      rcases List.mem_cons.mp member with rfl | later
      · rfl
      · rw [List.eq_of_mem_replicate later]
        rfl

theorem value_space {space : List Char} (blank : ∀ c ∈ space, Tree.isSpace c = true) (fuel : Nat)
    (text : List Char) : Tree.value? fuel (space ++ text) = Tree.value? fuel text := by
  cases fuel with
  | zero => simp [Tree.value?]
  | succ fuel => simp only [Tree.value?, skip_space_append blank]

theorem members_space {space : List Char} (blank : ∀ c ∈ space, Tree.isSpace c = true) (fuel : Nat)
    (text : List Char) : Tree.members? fuel (space ++ text) = Tree.members? fuel text := by
  cases fuel with
  | zero => simp [Tree.members?]
  | succ fuel => simp only [Tree.members?, skip_space_append blank]

theorem colon_eq (layout : Layout) :
    ∃ space, colon layout = ':' :: space ∧ ∀ c ∈ space, Tree.isSpace c = true := by
  cases layout with
  | compact => exact ⟨[], rfl, by simp⟩
  | indented => exact ⟨[' '], rfl, by simp [Tree.isSpace]⟩

/-! ### What brackets enclose -/

def inside (layout : Layout) (level : Nat) (closing : Char) : List (List Char) → List Char
  | [] => [closing]
  | [part] => lineBreak layout (level + 1) ++ part ++ lineBreak layout level ++ [closing]
  | part :: next :: rest =>
      lineBreak layout (level + 1) ++ part ++ ',' :: inside layout level closing (next :: rest)

theorem enclose_eq (layout : Layout) (level : Nat) (opening closing : Char)
    (parts : List (List Char)) :
    enclose layout level opening closing parts = opening :: inside layout level closing parts := by
  have joined (part : List Char) (parts : List (List Char)) :
      joinWith [','] ((part :: parts).map (lineBreak layout (level + 1) ++ ·)) ++
        lineBreak layout level ++ [closing] = inside layout level closing (part :: parts) := by
    induction parts generalizing part with
    | nil => simp [joinWith, List.intercalate, inside]
    | cons next rest ih => rw [List.map_cons, List.map_cons, join_with_cons_cons, inside, ← ih]; simp
  unfold enclose
  cases parts with
  | nil => rfl
  | cons part parts =>
      rw [← joined]
      simp

theorem stops_after_part (layout : Layout) (level : Nat) {closing : Char}
    (closes : isNumeralPart closing = false) (rest : List Char) :
    Stops isNumeralPart (lineBreak layout level ++ closing :: rest) := by
  cases layout with
  | compact => exact stops_cons.mpr closes
  | indented => exact stops_cons.mpr (by decide)

/-! ### Reading -/

namespace Tree

theorem value_null (fuel : Nat) (rest : List Char) :
    value? (fuel + 1) ("null".toList ++ rest) = some (.null, rest) := rfl

theorem value_bool (truth : Bool) (fuel : Nat) (rest : List Char) :
    value? (fuel + 1) ((if truth then "true" else "false").toList ++ rest) =
      some (.bool truth, rest) := by
  cases truth <;> rfl

theorem value_str (text : String) (fuel : Nat) (rest : List Char) :
    value? (fuel + 1) (quoted text ++ rest) = some (.str (some text), rest) := by
  have shape : quoted text ++ rest = '"' :: (text.toList.flatMap escapeChar ++ '"' :: rest) := by
    simp [quoted]
  rw [shape, value?, skip_space_cons (by decide)]
  simp [string_quoted]

theorem value_closed {fuel : Nat} {text after : List Char} (closed : skipSpace text = ']' :: after) :
    value? fuel text = none := by
  cases fuel with
  | zero => rw [value?]
  | succ fuel => simp [value?, closed, numeral?, whole?, digits?]

theorem value_array {fuel : Nat} {text after : List Char} {items : List Tree}
    (read : items? fuel text = some (items, after)) :
    value? (fuel + 1) ('[' :: text) = some (.array items, after) := by
  have opens (after : List Char) : skipSpace text ≠ ']' :: after := by
    intro closed
    cases fuel with
    | zero => simp [items?] at read
    | succ fuel => simp [items?, value_closed closed] at read
  rw [value?, skip_space_cons (by decide)]
  simp only [if_neg (show ¬ '[' = '"' by decide), if_true]
  rw [read]
  rfl

theorem value_object {fuel : Nat} {text after : List Char} {members : List (Option String × Tree)}
    (read : members? fuel text = some (members, after)) :
    value? (fuel + 1) ('\x7b' :: text) = some (.object members, after) := by
  have opens (after : List Char) : skipSpace text ≠ '\x7d' :: after := by
    intro closed
    cases fuel with
    | zero => simp [members?] at read
    | succ fuel => simp [members?, closed] at read
  rw [value?, skip_space_cons (by decide)]
  simp only [if_neg (show ¬ '\x7b' = '"' by decide), if_neg (show ¬ '\x7b' = '[' by decide), if_true]
  rw [read]
  rfl

theorem member_read {name : String} {fuel : Nat} {space text rest : List Char} {value : Tree}
    (blank : ∀ c ∈ space, isSpace c = true) (read : value? fuel text = some (value, rest)) :
    members? (fuel + 1) (quoted name ++ ':' :: (space ++ text)) =
      match skipSpace rest with
      | '\x7d' :: after => some ([(some name, value)], after)
      | ',' :: rest => do
          let (members, after) ← members? fuel rest
          some ((some name, value) :: members, after)
      | _ => none := by
  have shape : quoted name ++ ':' :: (space ++ text) =
      '"' :: (name.toList.flatMap escapeChar ++ '"' :: ':' :: (space ++ text)) := by
    simp [quoted]
  rw [shape, members?, skip_space_cons (by decide)]
  simp only [string_quoted, Option.bind_eq_bind, Option.bind_some]
  rw [skip_space_cons (by decide)]
  simp only [value_space blank, read]
  rfl

end Tree

theorem length_render_pos (layout : Layout) (level : Nat) (json : Json) :
    0 < (render layout level json).length := by
  cases json with
  | null => exact Nat.zero_lt_succ _
  | bool truth => cases truth <;> exact Nat.zero_lt_succ _
  | int integer =>
      have digits := List.length_pos_iff.mpr (Integer.digits_ne_nil integer.natAbs)
      simp only [render, Integer.render]
      split
      · exact Nat.zero_lt_succ _
      · exact digits
  | float number =>
      rw [render, floatText]
      split
      next finite =>
        obtain ⟨numeral, -, -, -, -, read⟩ := float_read finite
        obtain ⟨first, others, text, -⟩ := Tree.numeral_head (read [] stops_nil)
        rw [List.append_nil, float_text_of_finite finite] at text
        rw [text]
        exact Nat.zero_lt_succ _
      next => exact Nat.zero_lt_succ _
  | str text => exact Nat.zero_lt_succ _
  | array items => rw [render, enclose_eq]; exact Nat.zero_lt_succ _
  | object members => rw [render, enclose_eq]; exact Nat.zero_lt_succ _

theorem float_value (number : Binary64) (fuel : Nat) {rest : List Char}
    (ends : Stops isNumeralPart rest) :
    Tree.value? (fuel + 1) (floatText number ++ rest) = some (tree (.float number), rest) := by
  by_cases finite : number.isFinite = true
  · obtain ⟨numeral, -, -, -, -, read⟩ := float_read finite
    have alone := read [] stops_nil
    rw [List.append_nil] at alone
    rw [Tree.value_numeral (read rest ends), tree, alone]
  · have text : floatText number = "null".toList := if_neg finite
    rw [tree, text]
    exact Tree.value_null fuel rest

mutual

/-- A printed value is read back, with as much fuel as its text is long. -/
theorem value_printed (layout : Layout) (json : Json) (level fuel : Nat) (rest : List Char)
    (ends : Stops isNumeralPart rest) (enough : (render layout level json).length ≤ fuel) :
    Tree.value? fuel (render layout level json ++ rest) = some (tree json, rest) := by
  have positive := length_render_pos layout level json
  obtain ⟨fuel, rfl⟩ : ∃ less, fuel = less + 1 := ⟨fuel - 1, by omega⟩
  cases json with
  | null => exact Tree.value_null fuel rest
  | bool truth => exact Tree.value_bool truth fuel rest
  | int integer => exact Tree.value_numeral (integer_read integer ends) fuel
  | float number => exact float_value number fuel ends
  | str text => exact Tree.value_str text fuel rest
  | array items =>
      rw [render, enclose_eq] at enough ⊢
      cases items with
      | nil => rfl
      | cons item items =>
          have read := items_printed layout (item :: items) (by simp) level fuel rest
            (by simpa using enough)
          rw [List.cons_append, Tree.value_array read]
          rfl
  | object members =>
      rw [render, enclose_eq] at enough ⊢
      cases members with
      | nil => rfl
      | cons member members =>
          have read := members_printed layout (member :: members) (by simp) level fuel rest
            (by simpa using enough)
          rw [List.cons_append, Tree.value_object read]
          rfl

theorem items_printed (layout : Layout) (items : List Json) (nonempty : items ≠ []) (level fuel : Nat)
    (rest : List Char)
    (enough : (inside layout level ']' (renderItems layout (level + 1) items)).length ≤ fuel) :
    Tree.items? fuel (inside layout level ']' (renderItems layout (level + 1) items) ++ rest) =
      some (itemTrees items, rest) := by
  cases items with
  | nil => exact absurd rfl nonempty
  | cons item items =>
      cases items with
      | nil =>
          simp only [renderItems, inside, List.length_append, List.length_singleton] at enough
          obtain ⟨fuel, rfl⟩ : ∃ less, fuel = less + 1 := ⟨fuel - 1, by omega⟩
          have read := value_printed layout item (level + 1) fuel (lineBreak layout level ++ ']' :: rest)
            (stops_after_part layout level (by decide) rest) (by omega)
          simp only [renderItems, inside, List.append_assoc, List.singleton_append]
          rw [Tree.items?, value_space (line_break_space layout (level + 1)), read]
          simp only [Option.bind_eq_bind, Option.bind_some,
            skip_space_append (line_break_space layout level)]
          rfl
      | cons next items =>
          simp only [renderItems, inside, List.length_append, List.length_cons] at enough
          obtain ⟨fuel, rfl⟩ : ∃ less, fuel = less + 1 := ⟨fuel - 1, by omega⟩
          have later := items_printed layout (next :: items) (by simp) level fuel rest
            (by simp only [renderItems]; omega)
          have read := value_printed layout item (level + 1) fuel
            (',' :: (inside layout level ']' (renderItems layout (level + 1) (next :: items)) ++ rest))
            (stops_cons.mpr (by decide)) (by omega)
          simp only [renderItems, inside, List.append_assoc, List.cons_append] at read later ⊢
          rw [Tree.items?, value_space (line_break_space layout (level + 1)), read]
          simp only [Option.bind_eq_bind, Option.bind_some, skip_space_cons (show
            Tree.isSpace ',' = false by decide), later]
          rfl

theorem members_printed (layout : Layout) (members : List (String × Json)) (nonempty : members ≠ [])
    (level fuel : Nat) (rest : List Char)
    (enough : (inside layout level '\x7d' (renderMembers layout (level + 1) members)).length ≤ fuel) :
    Tree.members? fuel (inside layout level '\x7d' (renderMembers layout (level + 1) members) ++ rest) =
      some (memberTrees members, rest) := by
  obtain ⟨space, isColon, blank⟩ := colon_eq layout
  cases members with
  | nil => exact absurd rfl nonempty
  | cons member members =>
      obtain ⟨name, value⟩ := member
      cases members with
      | nil =>
          simp only [renderMembers, inside, List.length_append, List.length_singleton] at enough
          obtain ⟨fuel, rfl⟩ : ∃ less, fuel = less + 1 := ⟨fuel - 1, by omega⟩
          have read := value_printed layout value (level + 1) fuel
            (lineBreak layout level ++ '\x7d' :: rest)
            (stops_after_part layout level (by decide) rest) (by omega)
          simp only [renderMembers, inside, isColon, List.append_assoc, List.cons_append,
            List.nil_append]
          rw [members_space (line_break_space layout (level + 1)), Tree.member_read blank read,
            skip_space_append (line_break_space layout level)]
          rfl
      | cons next members =>
          obtain ⟨nextName, nextValue⟩ := next
          simp only [renderMembers, inside, List.length_append, List.length_cons] at enough
          obtain ⟨fuel, rfl⟩ : ∃ less, fuel = less + 1 := ⟨fuel - 1, by omega⟩
          have later := members_printed layout ((nextName, nextValue) :: members) (by simp) level fuel
            rest (by simp only [renderMembers]; omega)
          have read := value_printed layout value (level + 1) fuel
            (',' :: (inside layout level '\x7d'
              (renderMembers layout (level + 1) ((nextName, nextValue) :: members)) ++ rest))
            (stops_cons.mpr (by decide)) (by omega)
          simp only [renderMembers, inside, isColon, List.append_assoc, List.cons_append]
            at read later ⊢
          rw [members_space (line_break_space layout (level + 1)), Tree.member_read blank read,
            skip_space_cons (by decide)]
          simp only [later]
          rfl

end

/-- The text of a value with nothing but space behind it is read back. -/
theorem of_text_printed (layout : Layout) (json : Json) {space : List Char}
    (blank : ∀ c ∈ space, Tree.isSpace c = true) :
    Tree.ofText? (render layout 0 json ++ space) = some (tree json) := by
  have ends : Stops isNumeralPart space := by
    intro character member
    have isBlank := blank character (List.mem_of_mem_head? member)
    simp only [Tree.isSpace, Bool.or_eq_true, decide_eq_true_eq] at isBlank
    rcases isBlank with ((rfl | rfl) | rfl) | rfl <;> rfl
  have skipped : Tree.skipSpace space = [] := by
    simpa [skip_space_append blank, Tree.skipSpace] using skip_space_append blank []
  have enough : (render layout 0 json).length ≤ (render layout 0 json ++ space).length + 1 := by
    simp only [List.length_append]
    omega
  rw [Tree.ofText?, value_printed layout json 0 _ space ends enough]
  simp [skipped]

end TaskCab.Json
