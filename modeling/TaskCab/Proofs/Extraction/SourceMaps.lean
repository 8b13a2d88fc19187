import TaskCab.Proofs.Value.PieceCuts
import TaskCab.Task

/-!
# Maps in a source

The trees of a map with text keys are taken for a map where a schema is read, and read entry by entry.
-/

namespace TaskCab

open TaskCab.Source TaskCab.Value

theorem key_of_literal (text : String) (gap : List Char) :
    Task.key? [.leaf (token .string (textLiteral text.toList) gap)] = some text := by
  have read : Literal.value? [.leaf (token .string (textLiteral text.toList) gap)] =
      some (.str text) := (str_means text gap).2
  rw [Task.key?, read]

theorem cut_entry (key : String) (value : Piece) (gap : List Char) :
    Tree.cutOnce? ":" 0 (entryPiece key value gap) =
      some ([.leaf (token .string (textLiteral key.toList) gap)], value [' ']) :=
  Tree.cut_once_plain_append (Tree.plain_cons.mpr ⟨⟨rfl, rfl⟩, Tree.plain_nil⟩) rfl (value [' '])

theorem entry_pieces_plain (entries : List (String × Value)) :
    ∀ other ∈ entryPieces entries, other.IsPlain := by
  induction entries with
  | nil => simp [entryPieces]
  | cons entry rest ih =>
      exact List.forall_mem_cons.mpr ⟨entry_plain entry.1 (piece_plain entry.2), ih⟩

theorem read_entries {Held : Type} (reader : List Tree → Option Held) (empty : reader [] = none)
    (entries : List (String × Value)) {readings : List Held}
    (each : List.Forall₂ (fun entry reading =>
      ∀ gap, reader (entryPiece entry.1 (piece entry.2) gap) = some reading) entries readings) :
    (Tree.cut "," (joinPieces (entryPieces entries))).filterMap reader = readings := by
  cases each with
  | nil =>
      have nothing : [([] : List Tree)].filterMap reader = [] := by simp [empty]
      exact nothing
  | @cons entry reading entries readings first later =>
      have others : ((entryPieces entries).map fun other => other [' ']).filterMap reader =
          readings := by
        induction later with
        | nil => rfl
        | cons next rest ih => rw [entryPieces, List.map_cons, List.filterMap_cons, next [' '], ih]
      rw [entryPieces, cut_join_pieces (entry_pieces_plain (entry :: entries)), List.filterMap_cons,
        first [], others]

section

variable (holds : Tree → Prop)

theorem forall_mem_join (atComma : holds comma) {pieces : List Piece}
    (each : ∀ other ∈ pieces, ∀ gap, ∀ tree ∈ other gap, holds tree) :
    ∀ tree ∈ joinPieces pieces, holds tree := by
  cases pieces with
  | nil => simp [joinPieces]
  | cons first rest =>
      obtain ⟨head, tail⟩ := List.forall_mem_cons.mp each
      refine List.forall_mem_append.mpr ⟨head [], fun tree member => ?_⟩
      obtain ⟨other, inRest, found⟩ := List.mem_flatMap.mp member
      rcases List.mem_cons.mp found with rfl | within
      · exact atComma
      · exact tail other inRest [' '] tree within

theorem entry_pieces_all {entries : List (String × Value)}
    (atKey : ∀ text gap, holds (.leaf (token .string text gap)))
    (atColon : holds (.leaf (token .symbol [':'] [])))
    (each : ∀ entry ∈ entries, ∀ tree ∈ piece entry.2 [' '], holds tree) :
    ∀ other ∈ entryPieces entries, ∀ gap, ∀ tree ∈ other gap, holds tree := by
  induction entries with
  | nil => simp [entryPieces]
  | cons entry rest ih =>
      obtain ⟨first, later⟩ := List.forall_mem_cons.mp each
      refine List.forall_mem_cons.mpr ⟨fun gap => ?_, ih later⟩
      exact List.forall_mem_cons.mpr ⟨atKey _ gap, List.forall_mem_cons.mpr ⟨atColon, first⟩⟩

end

theorem map_pieces_of_entries (entries : List (String × Value))
    (noLoop : ∀ entry ∈ entries, ∀ tree ∈ piece entry.2 [' '], Tree.isWord "for" tree = false)
    (gap : List Char) :
    Task.mapPieces? (piece (.map entries) gap) =
      some (Tree.cut "," (joinPieces (entryPieces entries))) := by
  have noWord : (joinPieces (entryPieces entries)).any (Tree.isWord "for") = false := by
    have each : ∀ tree ∈ joinPieces (entryPieces entries), Tree.isWord "for" tree = false :=
      forall_mem_join (fun tree => Tree.isWord "for" tree = false) rfl
        (entry_pieces_all _ (fun _ _ => rfl) rfl noLoop)
    simpa using each
  have group : piece (.map entries) gap = [.group .curly (token .symbol ['\x7b'] gap)
      (joinPieces (entryPieces entries)) (token .symbol ['\x7d'] [])] := rfl
  rw [group, Task.mapPieces?, noWord]
  cases entries with
  | nil => rfl
  | cons entry rest =>
      have cut := cut_join_pieces (entry_pieces_plain (entry :: rest))
      have isMap := cut_entry entry.1 (piece entry.2) []
      obtain ⟨tree, more, shape⟩ :
          ∃ tree more, entryPiece entry.1 (piece entry.2) [] = tree :: more := ⟨_, _, rfl⟩
      rw [shape] at cut isMap
      rw [entryPieces, cut]
      simp [isMap]

end TaskCab
