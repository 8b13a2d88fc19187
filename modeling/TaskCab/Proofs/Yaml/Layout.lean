import TaskCab.Proofs.Yaml.ScalarForm

/-!
# What the layout of a value keeps

The lines of a value keep its shape: the tree of its non-empty lists and maps, with the texts that keys and
scalars are written as. Only the indentation and a few marks carry that tree, so each statement says where
the lines may end: at a smaller indentation, or at a line of another kind.
-/

namespace TaskCab.Yaml

/-- The tree of the collections of a value, and the texts of its keys and scalars. -/
inductive Shape where
  | leaf (text : List Char)
  | list (items : List Shape)
  | map (entries : List (List Char × Shape))

mutual

def shape : Value → Shape
  | .list (item :: items) => .list (itemShapes (item :: items))
  | .map (entry :: entries) => .map (entryShapes (entry :: entries))
  | value => .leaf (scalarText value)

def itemShapes : List Value → List Shape
  | [] => []
  | item :: rest => shape item :: itemShapes rest

def entryShapes : List (String × Value) → List (List Char × Shape)
  | [] => []
  | (name, value) :: rest => (scalar name.toList, shape value) :: entryShapes rest

end

structure IsShort (value : Value) : Prop where
  entry : ∀ indent name,
    entryLines indent name value = [line indent (key name ++ ' ' :: scalarText value)]
  item : ∀ indent, oneItemLines indent value = [line indent ('-' :: ' ' :: scalarText value)]
  shape : shape value = .leaf (scalarText value)

theorem value_cases (value : Value) :
    (∃ item items, value = .list (item :: items)) ∨
      (∃ entry entries, value = .map (entry :: entries)) ∨ IsShort value := by
  match value with
  | .list (item :: items) => exact .inl ⟨item, items, rfl⟩
  | .map (entry :: entries) => exact .inr (.inl ⟨entry, entries, rfl⟩)
  | .list [] => exact .inr (.inr ⟨fun _ _ => rfl, fun _ => rfl, rfl⟩)
  | .map [] => exact .inr (.inr ⟨fun _ _ => rfl, fun _ => rfl, rfl⟩)
  | .null => exact .inr (.inr ⟨fun _ _ => rfl, fun _ => rfl, rfl⟩)
  | .bool _ => exact .inr (.inr ⟨fun _ _ => rfl, fun _ => rfl, rfl⟩)
  | .int _ => exact .inr (.inr ⟨fun _ _ => rfl, fun _ => rfl, rfl⟩)
  | .float _ => exact .inr (.inr ⟨fun _ _ => rfl, fun _ => rfl, rfl⟩)
  | .str _ => exact .inr (.inr ⟨fun _ _ => rfl, fun _ => rfl, rfl⟩)

def IsSolid (text : List Char) : Prop := ∃ first rest, text = first :: rest ∧ first ≠ ' '

theorem line_injective {indent other : Nat} {text words : List Char} (solid : IsSolid text)
    (isSolid : IsSolid words) (same : line indent text = line other words) :
    indent = other ∧ text = words := by
  obtain ⟨first, rest, rfl, notSpace⟩ := solid
  obtain ⟨second, more, rfl, notOther⟩ := isSolid
  induction indent generalizing other with
  | zero =>
      cases other with
      | zero => exact ⟨rfl, same⟩
      | succ other => exact absurd (List.cons.inj same).1 notSpace
  | succ indent ih =>
      cases other with
      | zero => exact absurd (List.cons.inj same).1.symm notOther
      | succ other =>
          obtain ⟨rfl, texts⟩ := ih (List.cons.inj same).2
          exact ⟨rfl, texts⟩

def Begins (isKind : Nat → List Char → Prop) (lines : List (List Char)) : Prop :=
  lines = [] ∨ ∃ indent text rest,
    lines = line indent text :: rest ∧ IsSolid text ∧ isKind indent text

def IsItemText (text : List Char) : Prop := text = ['-'] ∨ ∃ rest, text = '-' :: ' ' :: rest

def EntriesEnd (indent : Nat) : List (List Char) → Prop := Begins fun other _ => other < indent

def ItemsEnd (indent : Nat) : List (List Char) → Prop :=
  Begins fun other text => other < indent ∨ (other = indent ∧ ¬IsItemText text)

def ItemEnd (indent : Nat) : List (List Char) → Prop := Begins fun other _ => other ≤ indent

theorem begins_mono {isKind isOther : Nat → List Char → Prop} {lines : List (List Char)}
    (begins : Begins isKind lines) (implies : ∀ indent text, isKind indent text → isOther indent text) :
    Begins isOther lines := by
  rcases begins with rfl | ⟨indent, text, rest, rfl, solid, kind⟩
  · exact .inl rfl
  · exact .inr ⟨indent, text, rest, rfl, solid, implies indent text kind⟩

theorem kind_of_begins {isKind : Nat → List Char → Prop} {indent : Nat} {text : List Char}
    {rest : List (List Char)} (begins : Begins isKind (line indent text :: rest))
    (solid : IsSolid text) : isKind indent text := by
  rcases begins with empty | ⟨other, words, more, same, isSolid, kind⟩
  · simp at empty
  · obtain ⟨rfl, rfl⟩ := line_injective solid isSolid (List.cons.inj same).1
    exact kind

theorem solid_key (name : String) (tail : List Char) : IsSolid (key name ++ tail) := by
  obtain ⟨⟨first, rest, text, notSpace⟩, -⟩ := key_start (scalar_form name.toList) tail
  exact ⟨first, rest, by simpa [key] using text, notSpace⟩

theorem key_not_item (name : String) (tail : List Char) : ¬IsItemText (key name ++ tail) := by
  obtain ⟨-, notDash, notItem⟩ := key_start (scalar_form name.toList) tail
  rintro (dash | ⟨rest, item⟩)
  · exact notDash (by simpa [key] using dash)
  · exact notItem rest (by simpa [key] using item)

theorem solid_item {text : List Char} (isItem : IsItemText text) : IsSolid text := by
  rcases isItem with rfl | ⟨rest, rfl⟩
  · exact ⟨'-', _, rfl, by decide⟩
  · exact ⟨'-', _, rfl, by decide⟩

theorem keys_end {name other : String} {tail rest : List Char} (isTail : IsTail tail)
    (isOther : IsTail rest) (same : key name ++ tail = key other ++ rest) :
    scalar name.toList = scalar other.toList ∧ tail = rest := by
  apply key_ends (scalar_form name.toList) (scalar_form other.toList) isTail isOther
  simpa [key] using same

theorem entry_lines_first (indent : Nat) (name : String) (value : Value) :
    ∃ tail rest, entryLines indent name value = line indent (key name ++ tail) :: rest ∧ IsTail tail := by
  rcases value_cases value with ⟨item, items, rfl⟩ | ⟨entry, entries, rfl⟩ | short
  · exact ⟨[], itemLines indent (item :: items), by simp [entryLines], .inl rfl⟩
  · exact ⟨[], entriesLines (indent + 2) (entry :: entries), by simp [entryLines], .inl rfl⟩
  · exact ⟨' ' :: scalarText value, [], short.entry indent name, .inr ⟨_, rfl⟩⟩

theorem item_lines_first (indent : Nat) (value : Value) :
    ∃ text rest, oneItemLines indent value = line indent text :: rest ∧ IsItemText text := by
  rcases value_cases value with ⟨item, items, rfl⟩ | ⟨entry, entries, rfl⟩ | short
  · exact ⟨['-'], itemLines (indent + 2) (item :: items), by simp [oneItemLines], .inl rfl⟩
  · exact ⟨['-'], entriesLines (indent + 2) (entry :: entries), by simp [oneItemLines], .inl rfl⟩
  · exact ⟨_, [], short.item indent, .inr ⟨_, rfl⟩⟩

theorem entries_begin (indent : Nat) (entry : String × Value) (entries : List (String × Value)) :
    ∃ text rest, entriesLines indent (entry :: entries) = line indent text :: rest ∧
      IsSolid text ∧ ¬IsItemText text := by
  obtain ⟨tail, rest, first, -⟩ := entry_lines_first indent entry.1 entry.2
  refine ⟨key entry.1 ++ tail, rest ++ entriesLines indent entries, ?_, solid_key _ _,
    key_not_item _ _⟩
  rw [entriesLines, first, List.cons_append]

theorem items_begin (indent : Nat) (item : Value) (items : List Value) :
    ∃ text rest, itemLines indent (item :: items) = line indent text :: rest ∧ IsItemText text := by
  obtain ⟨text, rest, first, isItem⟩ := item_lines_first indent item
  refine ⟨text, rest ++ itemLines indent items, ?_, isItem⟩
  rw [itemLines, first, List.cons_append]

theorem items_end_of_entries {indent : Nat} {entries : List (String × Value)}
    {after : List (List Char)} (ends : EntriesEnd indent after) :
    ItemsEnd indent (entriesLines indent entries ++ after) := by
  cases entries with
  | nil => exact begins_mono ends fun _ _ smaller => .inl smaller
  | cons entry rest =>
      obtain ⟨text, more, first, solid, notItem⟩ := entries_begin indent entry rest
      rw [first, List.cons_append]
      exact .inr ⟨indent, text, _, rfl, solid, .inr ⟨rfl, notItem⟩⟩

theorem item_end_of_items {indent : Nat} {items : List Value} {after : List (List Char)}
    (ends : ItemsEnd indent after) : ItemEnd indent (itemLines indent items ++ after) := by
  cases items with
  | nil => exact begins_mono ends fun _ _ kind => by omega
  | cons item rest =>
      obtain ⟨text, more, first, isItem⟩ := items_begin indent item rest
      rw [first, List.cons_append]
      exact .inr ⟨indent, text, _, rfl, solid_item isItem, Nat.le_refl _⟩

theorem entries_end_of_items {indent : Nat} {after : List (List Char)}
    (ends : ItemsEnd indent after) : EntriesEnd (indent + 2) after :=
  begins_mono ends fun _ _ kind => by omega

theorem items_end_of_item {indent : Nat} {after : List (List Char)}
    (ends : ItemEnd indent after) : ItemsEnd (indent + 2) after :=
  begins_mono ends fun _ _ kind => .inl (by omega)

theorem entries_end_of_item {indent : Nat} {after : List (List Char)}
    (ends : ItemEnd indent after) : EntriesEnd (indent + 2) after :=
  begins_mono ends fun _ _ kind => by omega

/-- The lines of items are not those of entries, wherever they stand. -/
theorem items_ne_entries {indent other : Nat} {item : Value} {items : List Value}
    {entry : String × Value} {entries : List (String × Value)} {after before : List (List Char)} :
    itemLines indent (item :: items) ++ after ≠ entriesLines other (entry :: entries) ++ before := by
  intro same
  obtain ⟨text, rest, first, isItem⟩ := items_begin indent item items
  obtain ⟨words, more, second, solid, notItem⟩ := entries_begin other entry entries
  rw [first, second] at same
  obtain ⟨-, rfl⟩ := line_injective (solid_item isItem) solid (List.cons.inj same).1
  exact notItem isItem

mutual

theorem entry_layout {indent : Nat} {name other : String} {value read : Value}
    {after before : List (List Char)} (ends : ItemsEnd indent after) (isEnd : ItemsEnd indent before)
    (same : entryLines indent name value ++ after = entryLines indent other read ++ before) :
    scalar name.toList = scalar other.toList ∧ shape value = shape read ∧ after = before := by
  have keys {tail rest : List Char} (isTail : IsTail tail) (isOther : IsTail rest)
      (lines : line indent (key name ++ tail) = line indent (key other ++ rest)) :=
    keys_end isTail isOther (line_injective (solid_key _ _) (solid_key _ _) lines).2
  have bare : IsTail [] := .inl rfl
  have spaced (text : List Char) : IsTail (' ' :: text) := .inr ⟨text, rfl⟩
  rcases value_cases value with ⟨item, items, rfl⟩ | ⟨entry, entries, rfl⟩ | short <;>
    rcases value_cases read with ⟨item', items', rfl⟩ | ⟨entry', entries', rfl⟩ | short'
  · obtain ⟨first, rest⟩ := List.cons.inj same
    obtain ⟨names, -⟩ := keys bare bare (by simpa using first)
    obtain ⟨shapes, afters⟩ := items_layout ends isEnd rest
    exact ⟨names, congrArg Shape.list shapes, afters⟩
  · exact absurd (List.cons.inj same).2 items_ne_entries
  · rw [short'.entry] at same
    obtain ⟨-, tails⟩ := keys bare (spaced _) (by simpa using (List.cons.inj same).1)
    simp at tails
  · exact absurd (List.cons.inj same).2.symm items_ne_entries
  · obtain ⟨first, rest⟩ := List.cons.inj same
    obtain ⟨names, -⟩ := keys bare bare (by simpa using first)
    obtain ⟨shapes, afters⟩ := entries_layout (entries_end_of_items ends)
      (entries_end_of_items isEnd) rest
    exact ⟨names, congrArg Shape.map shapes, afters⟩
  · rw [short'.entry] at same
    obtain ⟨-, tails⟩ := keys bare (spaced _) (by simpa using (List.cons.inj same).1)
    simp at tails
  · rw [short.entry] at same
    obtain ⟨-, tails⟩ := keys (spaced _) bare (by simpa using (List.cons.inj same).1)
    simp at tails
  · rw [short.entry] at same
    obtain ⟨-, tails⟩ := keys (spaced _) bare (by simpa using (List.cons.inj same).1)
    simp at tails
  · rw [short.entry, short'.entry] at same
    obtain ⟨first, rest⟩ := List.cons.inj same
    obtain ⟨names, tails⟩ := keys (spaced _) (spaced _) first
    rw [short.shape, short'.shape, (List.cons.inj tails).2]
    exact ⟨names, rfl, rest⟩
termination_by sizeOf value

theorem entries_layout {indent : Nat} {entries read : List (String × Value)}
    {after before : List (List Char)} (ends : EntriesEnd indent after)
    (isEnd : EntriesEnd indent before)
    (same : entriesLines indent entries ++ after = entriesLines indent read ++ before) :
    entryShapes entries = entryShapes read ∧ after = before := by
  match entries, read with
  | [], [] => exact ⟨rfl, same⟩
  | [], entry :: rest =>
      obtain ⟨text, more, first, solid, -⟩ := entries_begin indent entry rest
      rw [entriesLines, List.nil_append, first, List.cons_append] at same
      rw [same] at ends
      exact absurd (kind_of_begins ends solid) (Nat.lt_irrefl indent)
  | entry :: rest, [] =>
      obtain ⟨text, more, first, solid, -⟩ := entries_begin indent entry rest
      rw [first] at same
      rw [← show _ = before from same] at isEnd
      exact absurd (kind_of_begins isEnd solid) (Nat.lt_irrefl indent)
  | (name, value) :: rest, (other, found) :: more =>
      rw [entriesLines, entriesLines, List.append_assoc, List.append_assoc] at same
      obtain ⟨names, shapes, later⟩ := entry_layout (items_end_of_entries ends)
        (items_end_of_entries isEnd) same
      obtain ⟨others, afters⟩ := entries_layout ends isEnd later
      exact ⟨by rw [entryShapes, entryShapes, names, shapes, others], afters⟩
termination_by sizeOf entries

theorem items_layout {indent : Nat} {items read : List Value} {after before : List (List Char)}
    (ends : ItemsEnd indent after) (isEnd : ItemsEnd indent before)
    (same : itemLines indent items ++ after = itemLines indent read ++ before) :
    itemShapes items = itemShapes read ∧ after = before := by
  match items, read with
  | [], [] => exact ⟨rfl, same⟩
  | [], item :: rest =>
      obtain ⟨text, more, first, isItem⟩ := items_begin indent item rest
      rw [itemLines, List.nil_append, first, List.cons_append] at same
      rw [same] at ends
      rcases kind_of_begins ends (solid_item isItem) with smaller | other
      · exact absurd smaller (Nat.lt_irrefl indent)
      · exact absurd isItem other.2
  | item :: rest, [] =>
      obtain ⟨text, more, first, isItem⟩ := items_begin indent item rest
      rw [first] at same
      rw [← show _ = before from same] at isEnd
      rcases kind_of_begins isEnd (solid_item isItem) with smaller | other
      · exact absurd smaller (Nat.lt_irrefl indent)
      · exact absurd isItem other.2
  | item :: rest, found :: more =>
      rw [itemLines, itemLines, List.append_assoc, List.append_assoc] at same
      obtain ⟨shapes, later⟩ := item_layout (item_end_of_items ends) (item_end_of_items isEnd) same
      obtain ⟨others, afters⟩ := items_layout ends isEnd later
      exact ⟨by rw [itemShapes, itemShapes, shapes, others], afters⟩
termination_by sizeOf items

theorem item_layout {indent : Nat} {value read : Value} {after before : List (List Char)}
    (ends : ItemEnd indent after) (isEnd : ItemEnd indent before)
    (same : oneItemLines indent value ++ after = oneItemLines indent read ++ before) :
    shape value = shape read ∧ after = before := by
  have texts {text words : List Char} (isItem : IsItemText text) (isOther : IsItemText words)
      (lines : line indent text = line indent words) : text = words :=
    (line_injective (solid_item isItem) (solid_item isOther) lines).2
  have bare : IsItemText ['-'] := .inl rfl
  have spaced (text : List Char) : IsItemText ('-' :: ' ' :: text) := .inr ⟨text, rfl⟩
  rcases value_cases value with ⟨item, items, rfl⟩ | ⟨entry, entries, rfl⟩ | short <;>
    rcases value_cases read with ⟨item', items', rfl⟩ | ⟨entry', entries', rfl⟩ | short'
  · obtain ⟨shapes, afters⟩ := items_layout (items_end_of_item ends) (items_end_of_item isEnd)
      (List.cons.inj same).2
    exact ⟨congrArg Shape.list shapes, afters⟩
  · exact absurd (List.cons.inj same).2 items_ne_entries
  · rw [short'.item] at same
    simpa using texts bare (spaced _) (List.cons.inj same).1
  · exact absurd (List.cons.inj same).2.symm items_ne_entries
  · obtain ⟨shapes, afters⟩ := entries_layout (entries_end_of_item ends) (entries_end_of_item isEnd)
      (List.cons.inj same).2
    exact ⟨congrArg Shape.map shapes, afters⟩
  · rw [short'.item] at same
    simpa using texts bare (spaced _) (List.cons.inj same).1
  · rw [short.item] at same
    simpa using texts (spaced _) bare (List.cons.inj same).1
  · rw [short.item] at same
    simpa using texts (spaced _) bare (List.cons.inj same).1
  · rw [short.item, short'.item] at same
    obtain ⟨first, rest⟩ := List.cons.inj same
    have words := texts (spaced _) (spaced _) first
    simp only [List.cons.injEq, true_and] at words
    rw [short.shape, short'.shape, words]
    exact ⟨rfl, rest⟩
termination_by sizeOf value

end

end TaskCab.Yaml
