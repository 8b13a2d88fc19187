import TaskCab.Proofs.Source.TreeCuts
import TaskCab.Source.Statement

/-!
# Headers of definitions

The header of each function definition in the tree of a source stands within the trees of one of its
lines.
-/

namespace TaskCab.Source

namespace Outline

mutual

def AllLines (holds : List Tree → Prop) : Outline → Prop
  | line trees below => holds trees ∧ EachLine holds below

def EachLine (holds : List Tree → Prop) : List Outline → Prop
  | [] => True
  | outline :: rest => AllLines holds outline ∧ EachLine holds rest

end

variable {holds : List Tree → Prop}

/-- Reading a block gives outlines of its lines, and leaves some of them. -/
theorem lines_of_block (fuel indent : Nat) {lines : List (Nat × List Tree)}
    (each : ∀ entry ∈ lines, holds entry.2) :
    EachLine holds (block fuel indent lines).1 ∧
      ∀ entry ∈ (block fuel indent lines).2, holds entry.2 := by
  induction fuel generalizing indent lines with
  | zero => exact ⟨trivial, each⟩
  | succ fuel ih =>
      cases lines with
      | nil => exact ⟨trivial, by simp [block]⟩
      | cons entry rest =>
          obtain ⟨column, trees⟩ := entry
          obtain ⟨first, later⟩ := List.forall_mem_cons.mp each
          rw [block.eq_def]
          dsimp only
          split
          · exact ⟨trivial, each⟩
          split
          next next below others =>
            have inner : EachLine holds (if opensBlock trees && indent < next then
                block fuel next ((next, below) :: others) else ([], (next, below) :: others)).1 ∧
                ∀ entry ∈ (if opensBlock trees && indent < next then
                  block fuel next ((next, below) :: others) else ([], (next, below) :: others)).2,
                  holds entry.2 := by
              split
              · exact ih next later
              · exact ⟨trivial, later⟩
            have outer := ih indent inner.2
            exact ⟨⟨⟨first, inner.1⟩, outer.1⟩, outer.2⟩
          next => exact ⟨⟨⟨first, trivial⟩, trivial⟩, by simp⟩

theorem lines_of_lines {lines : List Line}
    (each : ∀ line ∈ lines, ∀ trees, Tree.ofTokens? line.tokens = some trees → holds trees) :
    EachLine holds (ofLines lines) := by
  refine (lines_of_block _ 0 fun entry member => ?_).1
  obtain ⟨line, inLines, grouped⟩ := List.mem_filterMap.mp member
  obtain ⟨trees, found, rfl⟩ := Option.map_eq_some_iff.mp grouped
  exact each line inLines trees found

end Outline

namespace Node

mutual

/-- Whether the header of each function definition at a node or below it satisfies a condition. -/
def AllHeaders (holds : List Tree → Prop) : Node → Prop
  | node kind children =>
      (∀ header, kind = .functionDef header → holds header) ∧ EachHeader holds children

def EachHeader (holds : List Tree → Prop) : List Node → Prop
  | [] => True
  | child :: rest => AllHeaders holds child ∧ EachHeader holds rest

end

variable {holds : List Tree → Prop}

theorem each_header_iff {nodes : List Node} :
    EachHeader holds nodes ↔ ∀ child ∈ nodes, AllHeaders holds child := by
  induction nodes with
  | nil => simp [EachHeader]
  | cons child rest ih => simp [EachHeader, ih]

theorem headers_of_children {parent : Node} (all : AllHeaders holds parent) :
    ∀ child ∈ parent.children, AllHeaders holds child := by
  obtain ⟨kind, children⟩ := parent
  exact each_header_iff.mp all.2

theorem simple_nodes_headers (trees : List Tree) : EachHeader holds (simpleNodes trees) := by
  refine each_header_iff.mpr fun child member => ?_
  obtain ⟨piece, -, rfl⟩ := List.mem_map.mp member
  exact ⟨by simp, trivial⟩

theorem each_header_append {left right : List Node} :
    EachHeader holds (left ++ right) ↔ EachHeader holds left ∧ EachHeader holds right := by
  simp only [each_header_iff, List.forall_mem_append]

theorem each_header_reverse {nodes : List Node} :
    EachHeader holds nodes.reverse ↔ EachHeader holds nodes := by
  simp only [each_header_iff, List.mem_reverse]

theorem block_headers (inline : List Tree) {below : List Node} (each : EachHeader holds below) :
    AllHeaders holds (blockOf inline below) :=
  ⟨by simp, each_header_append.mpr ⟨simple_nodes_headers inline, each⟩⟩

def Reading.Headers (holds : List Tree → Prop) : Reading → Prop
  | statements nodes => EachHeader holds nodes
  | definition added => AllHeaders holds added
  | decorator => True
  | clause block => AllHeaders holds block

/-- The header of a line without `async` stands within its trees. -/
theorem header_within (trees : List Tree) : dropAsync (splitHeader trees).1 <:+: trees := by
  have dropped (trees : List Tree) : dropAsync trees <:+: trees := by
    unfold dropAsync
    split
    · exact (List.drop_suffix 1 trees).isInfix
    · exact List.infix_rfl
  have front : (splitHeader trees).1 <:+: trees := by
    unfold splitHeader
    cases found : Tree.cutOnce? ":" 0 trees with
    | none => exact List.infix_rfl
    | some sides =>
        obtain ⟨tree, -, rfl⟩ := Tree.cut_once_within found
        exact (List.prefix_append _ _).isInfix
  exact (dropped _).trans front

theorem read_line_headers (inMatch : Bool) {trees : List Tree}
    (inner : ∀ header, header <:+: trees → holds header) {below : List Node}
    (each : EachHeader holds below) : (readLine inMatch trees below).Headers holds := by
  have blocks := block_headers (splitHeader trees).2 each
  have headed (kind : NodeKind)
      (within : ∀ header, kind = .functionDef header → holds header) :
      AllHeaders holds (node kind [blockOf (splitHeader trees).2 below]) :=
    ⟨within, blocks, trivial⟩
  unfold readLine
  dsimp only
  split
  · trivial
  split
  · exact headed _ (by simp)
  split
  · exact headed _ fun header same => by
      obtain rfl := NodeKind.functionDef.inj same
      exact inner _ (header_within trees)
  split
  · exact blocks
  split
  · exact ⟨headed _ (by simp), trivial⟩
  split
  · exact ⟨headed _ (by simp), trivial⟩
  · exact each_header_append.mpr ⟨simple_nodes_headers trees, each⟩

theorem add_headers {state : Bool × List Node} {reading : Reading} (each : EachHeader holds state.2)
    (read : reading.Headers holds) : EachHeader holds (add state reading).2 := by
  obtain ⟨decorating, nodes⟩ := state
  cases reading with
  | statements added => exact each_header_append.mpr ⟨each_header_reverse.mpr read, each⟩
  | definition added =>
      refine ⟨?_, each⟩
      cases decorating with
      | true => exact ⟨by simp, read, trivial⟩
      | false => exact read
  | decorator => exact each
  | clause inner =>
      cases nodes with
      | nil => exact ⟨read, trivial⟩
      | cons last rest =>
          obtain ⟨kind, children⟩ := last
          obtain ⟨⟨own, below⟩, others⟩ := each
          exact ⟨⟨own, each_header_append.mpr ⟨below, ⟨by simp, read, trivial⟩, trivial⟩⟩, others⟩

theorem join_headers {readings : List Reading} (each : ∀ reading ∈ readings, reading.Headers holds) :
    EachHeader holds (join readings) := by
  have added (state : Bool × List Node) (before : EachHeader holds state.2) :
      EachHeader holds (readings.foldl add state).2 := by
    induction readings generalizing state with
    | nil => exact before
    | cons reading rest ih =>
        obtain ⟨first, later⟩ := List.forall_mem_cons.mp each
        exact ih later (add state reading) (add_headers before first)
  exact each_header_reverse.mpr (added (false, []) trivial)

mutual

theorem outline_headers (inMatch : Bool) {outline : Outline}
    (all : outline.AllLines fun trees => ∀ header, header <:+: trees → holds header) :
    (ofOutline inMatch outline).Headers holds := by
  match outline with
  | .line trees below =>
      exact read_line_headers inMatch all.1 (join_headers (outlines_headers (isMatch trees) all.2))

theorem outlines_headers (inMatch : Bool) {outlines : List Outline}
    (each : Outline.EachLine (fun trees => ∀ header, header <:+: trees → holds header) outlines) :
    ∀ reading ∈ ofOutlines inMatch outlines, reading.Headers holds := by
  match outlines with
  | [] => simp [ofOutlines]
  | outline :: rest =>
      exact List.forall_mem_cons.mpr ⟨outline_headers inMatch each.1, outlines_headers inMatch each.2⟩

end

/-- Whether a header stands within the trees of a line of a source. -/
def IsWithinLine (source : List Char) (header : List Tree) : Prop :=
  ∃ line ∈ Line.ofText source, ∃ trees, Tree.ofTokens? line.tokens = some trees ∧ header <:+: trees

/-- Each header of a source stands within one of its lines. -/
theorem headers_of_text (source : List Char) : AllHeaders (IsWithinLine source) (ofText source) := by
  refine ⟨by simp, join_headers (outlines_headers false (Outline.lines_of_lines ?_))⟩
  intro line member trees grouped header within
  exact ⟨line, member, trees, grouped, within⟩

theorem classes_headers {levels : Nat} {nodes : List Node} (each : EachHeader holds nodes) :
    EachHeader holds (classesFrom levels nodes) := by
  induction levels generalizing nodes with
  | zero => trivial
  | succ levels ih =>
      have all := each_header_iff.mp each
      refine each_header_append.mpr ⟨each_header_iff.mpr fun child member =>
        all child (List.mem_filter.mp member).1, ih (each_header_iff.mpr fun child member => ?_)⟩
      obtain ⟨parent, inNodes, isChild⟩ := List.mem_flatMap.mp member
      exact headers_of_children (all parent inNodes) child isChild

end Node

end TaskCab.Source
