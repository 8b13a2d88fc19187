import TaskCab.Docstring.Section
import TaskCab.Proofs.Entries
import TaskCab.Proofs.Text.Runs
import TaskCab.Proofs.Text.Trim

/-!
# The blocks of a parameter section

The lines of a parameter section are a preamble without a header and segments, each of which is a header
with the lines behind it up to the next one. The blocks of a docstring are the segments that come last
under their names, in the order in which the names come first.
-/

namespace TaskCab.Docstring

open TaskCab.Text

/-! ## Headers -/

structure IsName (text : List Char) : Prop where
  start : text.head?.any isNameStart = true
  parts : ∀ character ∈ text, isNamePart character = true

/-- Whether a line opens the block of a name: the name stands at its start, and at least two blanks
separate it from the rest, of which `text` is the trimmed form. -/
def Opens (line : List Char) (name : String) (text : List Char) : Prop :=
  ∃ blanks rest, line = name.toList ++ (blanks ++ rest) ∧ IsName name.toList ∧ 2 ≤ blanks.length ∧
    (∀ character ∈ blanks, isBlank character = true) ∧ text = trim rest

def IsHeader (line : List Char) : Prop := ∃ name text, Opens line name text

theorem graphic_of_name_part {character : Char} (part : isNamePart character = true) :
    IsGraphic character := by
  unfold isNamePart Char.isAlphanum Char.isAlpha Char.isUpper Char.isLower Char.isDigit at part
  simp only [Bool.or_eq_true, Bool.and_eq_true, decide_eq_true_eq, UInt32.le_iff_toNat_le, ge_iff_le] at part
  rcases part with ((⟨first, last⟩ | ⟨first, last⟩) | ⟨first, last⟩) | rfl
  · exact ⟨Nat.le_trans (by decide) first, Nat.le_trans last (by decide)⟩
  · exact ⟨Nat.le_trans (by decide) first, Nat.le_trans last (by decide)⟩
  · exact ⟨Nat.le_trans (by decide) first, Nat.le_trans last (by decide)⟩
  · decide

theorem stops_name {blanks : List Char} (blank : ∀ character ∈ blanks, isBlank character = true)
    (nonempty : blanks ≠ []) (rest : List Char) : Stops isNamePart (blanks ++ rest) := by
  cases blanks with
  | nil => exact absurd rfl nonempty
  | cons first blanks =>
      cases part : isNamePart first with
      | false => exact stops_cons.mpr part
      | true =>
          have notBlank := not_blank_of_is_graphic (graphic_of_name_part part)
          simp [blank first (.head _)] at notBlank

theorem trim_behind_blanks {blanks : List Char}
    (blank : ∀ character ∈ blanks, isBlank character = true) (rest : List Char) :
    trim ((blanks ++ rest).dropWhile isBlank) = trim rest := by
  rw [List.dropWhile_append_of_pos blank, trim, trim, trimStart, trimStart,
    drop_while_stops (stops_drop_while isBlank rest)]

/-- What a header is, and what its name and text are. -/
theorem header_iff (line name text : List Char) :
    header? line = some (name, text) ↔ Opens line (String.ofList name) text := by
  unfold header? Opens
  dsimp only
  rw [drop_take_while, drop_take_while, String.toList_ofList]
  constructor
  · intro found
    split at found
    next both =>
      obtain ⟨rfl, rfl⟩ := Prod.mk.inj (Option.some.inj found)
      rw [Bool.and_eq_true, decide_eq_true_eq] at both
      refine ⟨(line.dropWhile isNamePart).takeWhile isBlank, (line.dropWhile isNamePart).dropWhile isBlank,
        ?_, ⟨both.1, fun c member => List.mem_takeWhile_imp member⟩, both.2,
        fun c member => List.mem_takeWhile_imp member, rfl⟩
      rw [List.takeWhile_append_dropWhile, List.takeWhile_append_dropWhile]
    next => simp at found
  · rintro ⟨blanks, rest, rfl, isName, two, blank, rfl⟩
    have nonempty : blanks ≠ [] := by
      rintro rfl
      simp at two
    have stops := stops_name blank nonempty rest
    have enough : 2 ≤ ((blanks ++ rest).takeWhile isBlank).length := by
      rw [List.takeWhile_append_of_pos blank, List.length_append]
      omega
    rw [take_while_run isName.parts stops, drop_while_run isName.parts stops, isName.start,
      trim_behind_blanks blank]
    simp [enough]

theorem header_none_iff (line : List Char) : header? line = none ↔ ¬IsHeader line := by
  constructor
  · rintro none ⟨name, text, opens⟩
    have found := (header_iff line name.toList text).mpr (by rwa [String.ofList_toList])
    simp [none] at found
  · intro noHeader
    cases found : header? line with
    | none => rfl
    | some pair => exact absurd ⟨_, _, (header_iff line pair.1 pair.2).mp found⟩ noHeader

/-! ## Segments -/

/-- A header with the lines behind it that belong to its block. -/
structure Segment where
  header : List Char
  name : String
  text : List Char
  own : List (List Char)
  opens : Opens header name text
  noHeader : ∀ line ∈ own, ¬IsHeader line

namespace Segment

def lines (segment : Segment) : List (List Char) := segment.header :: segment.own

/-- The lines of the block of a segment: the text of the header, unless it is empty, and the other lines
without blanks at their ends. -/
def blockLines (segment : Segment) : List (List Char) :=
  (if segment.text.isEmpty then [] else [segment.text]) ++ segment.own.map trim

def entry (segment : Segment) : String × List (List Char) := (segment.name, segment.blockLines)

end Segment

/-- The lines up to the next header are those in front of the segments. -/
theorem own_lines_of_segments {preamble : List (List Char)}
    (noHeader : ∀ line ∈ preamble, ¬IsHeader line) (segments : List Segment) :
    ownLines (preamble ++ segments.flatMap Segment.lines) = preamble.map trim := by
  have front : ∀ line ∈ preamble, (header? line).isNone = true := fun line member => by
    rw [(header_none_iff line).mpr (noHeader line member)]
    rfl
  have behind : (segments.flatMap Segment.lines).takeWhile (fun line => (header? line).isNone) = [] := by
    cases segments with
    | nil => rfl
    | cons segment rest =>
        have found := (header_iff segment.header segment.name.toList segment.text).mpr
          (by rw [String.ofList_toList]; exact segment.opens)
        simp [Segment.lines, found]
  rw [ownLines, List.takeWhile_append_of_pos front, behind, List.append_nil]

/-- The lines of a section are a preamble and segments, and the blocks that are opened in it are those of
the segments. -/
theorem segments_of_lines (lines : List (List Char)) :
    ∃ (preamble : List (List Char)) (segments : List Segment),
      lines = preamble ++ segments.flatMap Segment.lines ∧ (∀ line ∈ preamble, ¬IsHeader line) ∧
        openedBlocks lines = segments.map Segment.entry := by
  induction lines with
  | nil => exact ⟨[], [], rfl, by simp, rfl⟩
  | cons line rest ih =>
      obtain ⟨preamble, segments, same, noHeader, opened⟩ := ih
      cases found : header? line with
      | none =>
          refine ⟨line :: preamble, segments, by rw [same, List.cons_append], ?_, ?_⟩
          · intro other member
            rcases List.mem_cons.mp member with rfl | later
            · exact (header_none_iff other).mp found
            · exact noHeader other later
          · rw [openedBlocks, found]
            exact opened
      | some pair =>
          obtain ⟨name, text⟩ := pair
          let segment : Segment :=
            ⟨line, String.ofList name, text, preamble, (header_iff line name text).mp found, noHeader⟩
          refine ⟨[], segment :: segments, ?_, by simp, ?_⟩
          · rw [List.flatMap_cons, List.nil_append]
            exact congrArg (line :: ·) same
          · have own : ownLines rest = preamble.map trim := by
              rw [same]
              exact own_lines_of_segments noHeader segments
            rw [openedBlocks, found, List.map_cons, ← opened]
            exact congrArg (fun lines => (_, _ ++ lines) :: openedBlocks rest) own

theorem section_lines_of_first {before after : List (List Char)} {heading : List Char}
    (none : ∀ line ∈ before, isSectionHeading line = false) (isHeading : isSectionHeading heading = true) :
    sectionLines (before ++ heading :: after) = after.filter fun line => !isSectionHeading line := by
  have skipped : ∀ line ∈ before, (!isSectionHeading line) = true := fun line member => by
    simp [none line member]
  rw [sectionLines, List.dropWhile_append_of_pos skipped, List.dropWhile_cons_of_neg (by simp [isHeading]),
    List.filter_cons_of_neg (by simp [isHeading])]

theorem section_lines_of_none {lines : List (List Char)}
    (none : ∀ line ∈ lines, isSectionHeading line = false) : sectionLines lines = [] := by
  have skipped : ∀ line ∈ lines, (!isSectionHeading line) = true := fun line member => by
    simp [none line member]
  rw [sectionLines, List.dropWhile_eq_nil_iff.mpr skipped, List.filter_nil]

/-! ## Blocks -/

/-- The block of each name is that of its last segment. -/
theorem block_of_segments {segments : List Segment} {entry : String × List (List Char)}
    (member : entry ∈ Entries.ofList (segments.map Segment.entry)) :
    ∃ earlier segment later, segments = earlier ++ segment :: later ∧ segment.entry = entry ∧
      ∀ other ∈ later, other.name ≠ entry.1 := by
  obtain ⟨before, behind, cut, others⟩ := Entries.last_of_list member
  obtain ⟨earlier, rest, rfl, -, cut⟩ := List.map_eq_append_iff.mp cut
  obtain ⟨segment, later, rfl, isEntry, rfl⟩ := List.map_eq_cons_iff.mp cut
  exact ⟨earlier, segment, later, rfl, isEntry,
    fun other inLater => others _ (List.mem_map_of_mem inLater)⟩

/-- The blocks of a docstring come of the lines behind its first heading, without further headings. These
are a preamble and segments; there is one block for each name, in the order in which the names come first,
and it holds the lines of the last segment of its name. Without a heading there are no blocks. -/
theorem blocks_of_section (docstring : List Char) :
    ((∀ line ∈ (lines docstring).map expandTabs, isSectionHeading line = false) →
      blocks docstring = []) ∧
    ∀ before heading after, (lines docstring).map expandTabs = before ++ heading :: after →
      (∀ line ∈ before, isSectionHeading line = false) → isSectionHeading heading = true →
      ∃ (preamble : List (List Char)) (segments : List Segment),
        (after.filter fun line => !isSectionHeading line) =
            preamble ++ segments.flatMap Segment.lines ∧
        (∀ line ∈ preamble, ¬IsHeader line) ∧
        ((blocks docstring).map Block.name).Nodup ∧
        (blocks docstring).map Block.name = (segments.map Segment.name).eraseDups ∧
        ∀ block ∈ blocks docstring, ∃ earlier segment later,
          segments = earlier ++ segment :: later ∧ segment.name = block.name ∧
            (∀ other ∈ later, other.name ≠ block.name) ∧ block.lines = segment.blockLines := by
  constructor
  · intro none
    rw [blocks, section_lines_of_none none]
    rfl
  · intro before heading after cut none isHeading
    obtain ⟨preamble, segments, same, noHeader, opened⟩ :=
      segments_of_lines (after.filter fun line => !isSectionHeading line)
    have table : blocks docstring =
        (Entries.ofList (segments.map Segment.entry)).map fun entry => ⟨entry.1, entry.2⟩ := by
      rw [blocks, cut, section_lines_of_first none isHeading, opened]
    have names : (blocks docstring).map Block.name =
        Entries.keys (Entries.ofList (segments.map Segment.entry)) := by
      rw [table, List.map_map]
      rfl
    refine ⟨preamble, segments, same, noHeader, ?_, ?_, ?_⟩
    · rw [names]
      exact Entries.distinct_of_list _
    · rw [names, Entries.keys_of_list, Entries.keys, List.map_map]
      rfl
    · intro block member
      rw [table] at member
      obtain ⟨entry, inTable, rfl⟩ := List.mem_map.mp member
      obtain ⟨earlier, segment, later, cut, isEntry, others⟩ := block_of_segments inTable
      exact ⟨earlier, segment, later, cut, congrArg Prod.fst isEntry, others,
        (congrArg Prod.snd isEntry).symm⟩

def repeatedDocstring : List Char :=
  "vis  early\nParameter Descriptions\n(all)\nvis  first\n more \nspw\twindow\n\n".toList ++
    "parameter descriptions\nvis   \n  last".toList

def repeatedSection : List (List Char) :=
  ["(all)", "vis  first", " more ", "spw     window", "", "parameter descriptions", "vis   ",
    "  last"].map String.toList

theorem blocks_of_repeated_section :
    (lines repeatedDocstring).map expandTabs =
        ["vis  early".toList] ++ "Parameter Descriptions".toList :: repeatedSection ∧
      (∀ line ∈ ["vis  early".toList], isSectionHeading line = false) ∧
      isSectionHeading "Parameter Descriptions".toList = true ∧
      blocks repeatedDocstring =
        [⟨"vis", ["last".toList]⟩, ⟨"spw", ["window".toList, []]⟩] ∧
      ∃ (preamble : List (List Char)) (segments : List Segment),
        (repeatedSection.filter fun line => !isSectionHeading line) =
            preamble ++ segments.flatMap Segment.lines ∧
        (∀ line ∈ preamble, ¬IsHeader line) ∧
        ((blocks repeatedDocstring).map Block.name).Nodup ∧
        (blocks repeatedDocstring).map Block.name = (segments.map Segment.name).eraseDups ∧
        ∀ block ∈ blocks repeatedDocstring, ∃ earlier segment later,
          segments = earlier ++ segment :: later ∧ segment.name = block.name ∧
            (∀ other ∈ later, other.name ≠ block.name) ∧ block.lines = segment.blockLines :=
  ⟨rfl, by decide, by decide, rfl,
    (blocks_of_section repeatedDocstring).2 ["vis  early".toList] "Parameter Descriptions".toList
      repeatedSection rfl (by decide) (by decide)⟩

end TaskCab.Docstring
