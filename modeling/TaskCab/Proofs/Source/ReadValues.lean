import TaskCab.Proofs.Value.Content
import TaskCab.Source.Literal

/-!
# The form of values that are read

No map that is read from a source has a key twice, at any depth.
-/

namespace TaskCab.Source.Literal

open Value

def PartDistinct : Part → Prop
  | .token _ => True
  | .value _ value => ∀ read ∈ value, Distinct read
  | .round _ items _ => ∀ read ∈ items, AllDistinct read

def PartsDistinct (parts : List Part) : Prop := ∀ part ∈ parts, PartDistinct part

theorem all_distinct_iff {items : List Value} :
    AllDistinct items ↔ ∀ item ∈ items, Distinct item := by
  induction items with
  | nil => simp [AllDistinct]
  | cons item rest ih => simp [AllDistinct, ih]

theorem entries_distinct_iff {entries : List (String × Value)} :
    EntriesDistinct entries ↔ ∀ entry ∈ entries, Distinct entry.2 := by
  induction entries with
  | nil => simp [EntriesDistinct]
  | cons entry rest ih => simp [EntriesDistinct, ih]

theorem mem_of_mem_cut {symbol : String} {parts piece : List Part}
    (cut : piece ∈ Part.cut symbol parts) : ∀ part ∈ piece, part ∈ parts := by
  induction parts generalizing piece with
  | nil => simp_all [Part.cut]
  | cons first rest ih =>
      intro part member
      rw [Part.cut] at cut
      split at cut
      · rcases List.mem_cons.mp cut with rfl | later
        · simp at member
        · exact .tail _ (ih later part member)
      · split at cut
        next => simp_all
        next head pieces found =>
          rcases List.mem_cons.mp cut with rfl | later
          · rcases List.mem_cons.mp member with rfl | within
            · exact .head _
            · exact .tail _ (ih (found ▸ .head _) part within)
          · exact .tail _ (ih (found ▸ .tail _ later) part member)

theorem mem_of_mem_pieces {parts piece : List Part} (member : piece ∈ Part.pieces parts) :
    ∀ part ∈ piece, part ∈ parts := by
  unfold Part.pieces at member
  dsimp only at member
  split at member
  · exact mem_of_mem_cut (List.dropLast_subset _ member)
  · exact mem_of_mem_cut member

theorem mem_of_cut_once {symbol : String} {parts before after : List Part}
    (cut : Part.cutOnce? symbol parts = some (before, after)) :
    (∀ part ∈ before, part ∈ parts) ∧ ∀ part ∈ after, part ∈ parts := by
  induction parts generalizing before after with
  | nil => simp [Part.cutOnce?] at cut
  | cons first rest ih =>
      rw [Part.cutOnce?] at cut
      split at cut
      · obtain ⟨rfl, rfl⟩ := Prod.mk.inj (Option.some.inj cut)
        exact ⟨by simp, fun part member => .tail _ member⟩
      · obtain ⟨⟨left, right⟩, found, same⟩ := Option.map_eq_some_iff.mp cut
        obtain ⟨rfl, rfl⟩ := Prod.mk.inj same
        have inside := ih found
        refine ⟨fun part member => ?_, fun part member => .tail _ (inside.2 part member)⟩
        rcases List.mem_cons.mp member with rfl | within
        · exact .head _
        · exact .tail _ (inside.1 part within)

theorem distinct_negate {value read : Value} (negated : negate? value = some read) :
    Distinct read := by
  unfold negate? at negated
  split at negated
  · obtain ⟨word, -, rfl⟩ := Option.map_eq_some_iff.mp negated
    trivial
  · obtain rfl := Option.some.inj negated
    trivial
  · simp at negated

theorem distinct_affirm {value read : Value} (affirmed : affirm? value = some read) :
    Distinct read := by
  unfold affirm? at affirmed
  split at affirmed <;> simp at affirmed <;> subst affirmed <;> trivial

theorem distinct_construct {name : List Char} {value read : Value}
    (constructed : construct? name value = some read) : Distinct read := by
  unfold construct? at constructed
  split at constructed
  · unfold toBool? at constructed
    split at constructed <;> simp at constructed <;> subst constructed <;> trivial
  split at constructed
  · unfold toInt? at constructed
    split at constructed
    · simp at constructed; subst constructed; trivial
    · simp at constructed; subst constructed; trivial
    · split at constructed <;> simp at constructed; subst constructed; trivial
    · obtain ⟨word, -, rfl⟩ := Option.map_eq_some_iff.mp constructed
      trivial
    · simp at constructed
  split at constructed
  · unfold toFloat? at constructed
    split at constructed
    · simp at constructed; subst constructed; trivial
    · simp at constructed; subst constructed; trivial
    · simp at constructed; subst constructed; trivial
    · obtain ⟨number, -, rfl⟩ := Option.map_eq_some_iff.mp constructed
      trivial
    · simp at constructed
  split at constructed
  · unfold toStr? at constructed
    split at constructed <;> simp at constructed; subst constructed; trivial
  · simp at constructed

theorem distinct_of_round {items : List Value} {isTuple : Bool} {read : Value}
    (distinct : AllDistinct items) (found : ofRound items isTuple = some read) : Distinct read := by
  unfold ofRound at found
  split at found
  · obtain rfl := Option.some.inj found
    exact distinct.1
  · obtain rfl := Option.some.inj found
    exact distinct

theorem distinct_token {token : Token} {read : Value} (found : token? token = some read) :
    Distinct read := by
  unfold token? at found
  split at found
  · obtain ⟨word, -, rfl⟩ := Option.map_eq_some_iff.mp found
    trivial
  · obtain ⟨number, -, rfl⟩ := Option.map_eq_some_iff.mp found
    trivial
  · split at found
    · obtain rfl := Option.some.inj found
      trivial
    split at found
    · obtain rfl := Option.some.inj found
      trivial
    split at found
    · obtain rfl := Option.some.inj found
      trivial
    · simp at found
  · simp at found

theorem distinct_text {text : Option (List Char)} {read : Value}
    (found : (text.map fun text => Value.str (String.ofList text)) = some read) : Distinct read := by
  obtain ⟨written, -, rfl⟩ := Option.map_eq_some_iff.mp found
  trivial

theorem distinct_item {parts : List Part} (distinct : PartsDistinct parts) {read : Value}
    (found : item? parts = some read) : Distinct read := by
  fun_induction item? parts generalizing read with
  | case1 => simp at found
  | case2 token isString => exact distinct_text found
  | case3 token notString => exact distinct_token found
  | case4 joined value => exact distinct _ (.head _) read found
  | case5 joined items isTuple =>
      obtain ⟨values, same, round⟩ := Option.bind_eq_some_iff.mp found
      exact distinct_of_round (distinct _ (.head _) values same) round
  | case6 name joined argument isTuple minus =>
      obtain ⟨value, -, negated⟩ := Option.bind_eq_some_iff.mp found
      exact distinct_negate negated
  | case7 name joined argument isTuple _ plus =>
      obtain ⟨value, -, affirmed⟩ := Option.bind_eq_some_iff.mp found
      exact distinct_affirm affirmed
  | case8 name joined argument isTuple _ _ word => exact distinct_construct found
  | case9 => simp at found
  | case10 =>
      obtain ⟨value, -, negated⟩ := Option.bind_eq_some_iff.mp found
      exact distinct_negate negated
  | case11 =>
      obtain ⟨value, -, affirmed⟩ := Option.bind_eq_some_iff.mp found
      exact distinct_affirm affirmed
  | case12 => exact distinct_text found
  | case13 => simp at found

theorem distinct_map_m {Item Held : Type} {reader : Item → Option Held} {holds : Held → Prop}
    {items : List Item} {values : List Held} (found : items.mapM reader = some values)
    (each : ∀ item ∈ items, ∀ value, reader item = some value → holds value) :
    ∀ value ∈ values, holds value := by
  induction items generalizing values with
  | nil =>
      obtain rfl : [] = values := by simpa using found
      simp
  | cons item rest ih =>
      rw [List.mapM_cons] at found
      obtain ⟨value, first, found⟩ := Option.bind_eq_some_iff.mp found
      obtain ⟨others, later, same⟩ := Option.bind_eq_some_iff.mp found
      obtain rfl := Option.some.inj same
      exact List.forall_mem_cons.mpr ⟨each item (.head _) value first,
        ih later fun other member => each other (.tail _ member)⟩

theorem distinct_items {parts : List Part} (distinct : PartsDistinct parts) {read : List Value}
    (found : items? parts = some read) : AllDistinct read := by
  unfold items? at found
  split at found
  · refine all_distinct_iff.mpr (distinct_map_m found ?_)
    intro piece member value item
    exact distinct_item (fun part within => distinct part (mem_of_mem_pieces member part within)) item
  · simp at found

theorem distinct_entry {parts : List Part} (distinct : PartsDistinct parts)
    {entry : String × Value} (found : entry? parts = some entry) : Distinct entry.2 := by
  unfold entry? at found
  obtain ⟨⟨before, after⟩, cut, found⟩ := Option.bind_eq_some_iff.mp found
  obtain ⟨key, -, found⟩ := Option.bind_eq_some_iff.mp found
  have inside := (mem_of_cut_once cut).2
  split at found
  · obtain ⟨value, item, same⟩ := Option.bind_eq_some_iff.mp found
    obtain rfl := Option.some.inj same
    exact distinct_item (fun part within => distinct part (inside part within)) item
  · simp at found

theorem distinct_of_pairs {pairs : List (String × Value)}
    (each : ∀ pair ∈ pairs, Distinct pair.2) : Distinct (.map (Entries.ofList pairs)) := by
  refine ⟨Entries.distinct_of_list pairs, entries_distinct_iff.mpr ?_⟩
  intro entry member
  rcases Entries.mem_put_all member with inside | inside
  · exact each entry inside
  · simp at inside

theorem distinct_of_curly {parts : List Part} (distinct : PartsDistinct parts) {read : Value}
    (found : ofCurly parts = some read) : Distinct read := by
  have empty : Distinct (.map []) := ⟨List.nodup_nil, trivial⟩
  unfold ofCurly at found
  split at found
  · obtain rfl := Option.some.inj found
    exact empty
  · split at found
    · obtain rfl := Option.some.inj found
      exact empty
    · simp at found
  next piece pieces _ same =>
    split at found
    · split at found
      · obtain ⟨entries, read, rfl⟩ := Option.map_eq_some_iff.mp found
        refine distinct_of_pairs (distinct_map_m read ?_)
        intro item member entry isEntry
        exact distinct_entry (fun part within =>
          distinct part (mem_of_mem_pieces (same ▸ member) part within)) isEntry
      · simp at found
    · obtain ⟨items, read, rfl⟩ := Option.map_eq_some_iff.mp found
      exact distinct_items distinct read

theorem closed_some {Held : Type} {closing : Token} {held : Option Held} {value : Held}
    (found : closed closing held = some value) : held = some value := by
  unfold closed at found
  split at found
  · simp at found
  · exact found

mutual

theorem part_distinct (tree : Tree) : PartDistinct (part tree) := by
  match tree with
  | .leaf token => trivial
  | .group .square opening inner closing =>
      intro read found
      obtain ⟨items, values, rfl⟩ := Option.map_eq_some_iff.mp (closed_some found)
      exact distinct_items (parts_distinct inner) values
  | .group .curly opening inner closing =>
      intro read found
      exact distinct_of_curly (parts_distinct inner) (closed_some found)
  | .group .round opening inner closing =>
      intro read found
      exact distinct_items (parts_distinct inner) (closed_some found)

theorem parts_distinct (trees : List Tree) : PartsDistinct (parts trees) := by
  match trees with
  | [] => exact fun _ member => by simp [parts] at member
  | tree :: rest => exact List.forall_mem_cons.mpr ⟨part_distinct tree, parts_distinct rest⟩

end

/-- A value that is read from a text has distinct keys in every map. -/
theorem distinct_read {text : List Char} {value : Value} (found : read? text = some value) :
    Distinct value := by
  unfold read? at found
  split at found
  next line same =>
    obtain ⟨trees, -, found⟩ := Option.bind_eq_some_iff.mp found
    have within : PartsDistinct (dropSemicolon (parts trees)) := by
      unfold dropSemicolon
      split
      · split
        · exact fun part member => parts_distinct trees part (List.dropLast_subset _ member)
        · exact parts_distinct trees
      · exact parts_distinct trees
    unfold lineValue? at found
    dsimp only at found
    split at found
    · obtain ⟨items, read, rfl⟩ := Option.map_eq_some_iff.mp found
      exact distinct_items within read
    · split at found
      · simp at found
      · exact distinct_item within found
  next => simp at found

end TaskCab.Source.Literal
