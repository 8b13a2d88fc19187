import TaskCab.Proofs.Extraction.SourceMaps
import TaskCab.Proofs.Extraction.Wrapper

/-!
# Extracting generated wrappers

The parameters of a generated wrapper are collected from its signature and typed by its schema, and become
the inputs of its document.
-/

namespace TaskCab

open TaskCab.Source TaskCab.Value

namespace Wrapper

theorem classes_of_source {wrapper : Wrapper} (valid : wrapper.IsValid) :
    (Node.ofText wrapper.source.toList).classes = [wrapper.classNode] := by
  rw [tree_of_source valid]
  rfl

theorem owner_of_source (wrapper : Wrapper) :
    Task.owner? [wrapper.classNode] =
      some (wrapper.classNode, wrapper.methodHeader, wrapper.methodNode) := rfl

theorem documentation_of_source (wrapper : Wrapper) : Task.documentation [wrapper.classNode] = "" :=
  rfl

theorem name_of_source (wrapper : Wrapper) :
    Task.classHeaderName? wrapper.classNode = some wrapper.className := by
  have named : Task.classHeaderName? wrapper.classNode =
      some (String.ofList wrapper.className.toList) := rfl
  rw [named, String.ofList_toList]

end Wrapper

namespace TypedParameter

def collected (parameter : TypedParameter) : Parameter :=
  ⟨parameter.name, parameter.default.map literalText⟩

theorem parameter_of_piece {parameter : TypedParameter} (valid : parameter.IsValid) (gap : List Char) :
    Task.parameterPiece (parameter.piece gap) = .parameter parameter.collected := by
  have noLambda := name_not_lambda valid.name gap
  have plain (symbol : String) : Tree.Plain symbol [parameter.nameTree gap] :=
    Tree.plain_cons.mpr ⟨⟨rfl, noLambda⟩, Tree.plain_nil⟩
  have name : String.ofList parameter.name.toList = parameter.name := String.ofList_toList
  unfold piece collected
  cases given : parameter.default with
  | none =>
      have bare : Task.bareParameter [parameter.nameTree gap] =
          .parameter ⟨String.ofList parameter.name.toList, none⟩ := rfl
      rw [Task.parameterPiece, Tree.cut_once_plain (plain "="), bare, name]
      rfl
  | some value =>
      have portable := valid.default value given
      have writes := Value.piece_writes portable.noNull [] (by simp)
      have text : Tree.text (Value.piece value []) = literal value :=
        text_of_writes writes (framed_literal value)
      have cut : Tree.cutOnce? "=" 0 (parameter.nameTree gap ::
          .leaf (token .symbol ['='] []) :: Value.piece value []) =
            some ([parameter.nameTree gap], Value.piece value []) :=
        Tree.cut_once_plain_append (plain "=") rfl (Value.piece value [])
      have target : Task.nameText [parameter.nameTree gap] = parameter.name :=
        (congrArg String.ofList (List.append_nil parameter.name.toList)).trans name
      rw [Task.parameterPiece, cut]
      simp only [Tree.cut_once_plain (plain ":"), Option.map_none, Option.getD_none, target, text,
        compact_literal, Option.map_some, literalText]

theorem positional_of_pieces {parameters : List TypedParameter}
    (valid : ∀ parameter ∈ parameters, parameter.IsValid) :
    Task.positional ((parameters.map piece).map fun piece => piece [' ']) =
      parameters.map collected := by
  induction parameters with
  | nil => rfl
  | cons parameter rest ih =>
      obtain ⟨first, later⟩ := List.forall_mem_cons.mp valid
      rw [List.map_cons, List.map_cons, Task.positional, parameter_of_piece first, ih later]
      rfl

def declared (parameter : TypedParameter) : String × SchemaEntry :=
  (parameter.name, ⟨parameter.type, [("type", .decoded (.str parameter.type))]⟩)

theorem fields_of_declaration (parameter : TypedParameter) (gap : List Char) :
    Task.schemaFields (Value.piece parameter.declaration.2 gap) =
      [("type", .decoded (.str parameter.type))] := by
  have field (gap : List Char) :
      Task.field? (entryPiece "type" (Value.piece (.str parameter.type)) gap) =
        some ("type", .decoded (.str parameter.type)) := by
    have read : Literal.value? (Value.piece (.str parameter.type) [' ']) =
        some (.str parameter.type) := (str_means parameter.type [' ']).2
    have key := key_of_literal "type" gap
    simp only [Task.field?, cut_entry, Option.bind_eq_bind, Option.bind_some, key, Literal.ofTrees,
      read]
  have noLoop : ∀ entry ∈ [("type", Value.str parameter.type)], ∀ tree ∈ Value.piece entry.2 [' '],
      Tree.isWord "for" tree = false :=
    List.forall_mem_singleton.mpr (List.forall_mem_singleton.mpr rfl)
  have pieces := map_pieces_of_entries [("type", .str parameter.type)] noLoop gap
  have read := read_entries Task.field? rfl [("type", .str parameter.type)] (.cons field .nil)
  rw [Task.schemaFields, declaration, pieces, Option.getD_some, read]
  rfl

theorem declaration_of_piece {parameter : TypedParameter} (named : parameter.name ≠ "")
    (gap : List Char) :
    Task.declaration? (entryPiece parameter.declaration.1 (Value.piece parameter.declaration.2) gap) =
      some parameter.declared := by
  have fields := fields_of_declaration parameter [' ']
  have key := key_of_literal parameter.declaration.1 gap
  have nonempty : parameter.declaration.1.isEmpty = false := by
    simpa [declaration] using named
  simp only [Task.declaration?, cut_entry, Option.bind_eq_bind, Option.bind_some, key, fields,
    nonempty, Bool.false_eq_true, if_false]
  rfl

end TypedParameter

namespace Wrapper

theorem signature_of_source {wrapper : Wrapper} (valid : wrapper.IsValid) :
    Task.signature wrapper.methodHeader = wrapper.parameters.map TypedParameter.collected := by
  have plain : ∀ piece ∈ selfPiece :: wrapper.parameters.map TypedParameter.piece, piece.IsPlain := by
    refine List.forall_mem_cons.mpr ⟨leaf_plain (by simp) (by decide), fun piece member => ?_⟩
    obtain ⟨parameter, inParameters, rfl⟩ := List.mem_map.mp member
    exact TypedParameter.piece_plain (valid.parameters parameter inParameters).name
  have inner : wrapper.methodHeader.findSome? Task.roundInner? =
      some (joinPieces wrapper.signaturePieces) := rfl
  have first : Task.parameterPiece (selfPiece []) = .parameter ⟨"self", none⟩ := rfl
  rw [Task.signature, inner]
  dsimp only
  rw [signaturePieces, cut_join_pieces plain, Task.positional, first]
  exact TypedParameter.positional_of_pieces valid.parameters

theorem declared_distinct {wrapper : Wrapper} (valid : wrapper.IsValid) :
    Entries.Distinct (wrapper.parameters.map TypedParameter.declared) := by
  unfold Entries.Distinct Entries.keys
  rw [List.map_map]
  exact valid.distinct

theorem sides_of_statement (wrapper : Wrapper) :
    Tree.cut "=" wrapper.statement =
      [[wrapper.schemaTarget],
        piece (.map (wrapper.parameters.map TypedParameter.declaration)) [' ']] := by
  have target : Tree.Plain "=" [wrapper.schemaTarget] :=
    Tree.plain_cons.mpr ⟨⟨rfl, rfl⟩, Tree.plain_nil⟩
  have schema : Tree.Plain "="
      (piece (.map (wrapper.parameters.map TypedParameter.declaration)) [' ']) :=
    Tree.plain_cons.mpr ⟨⟨rfl, rfl⟩, Tree.plain_nil⟩
  have cut : Tree.cut "=" wrapper.statement =
      [wrapper.schemaTarget] ::
        Tree.cut "=" (piece (.map (wrapper.parameters.map TypedParameter.declaration)) [' ']) :=
    Tree.cut_plain_append target rfl _
  rw [cut, Tree.cut_plain schema]

theorem assigned_of_statement (wrapper : Wrapper) :
    Task.assignedSchema? wrapper.statement =
      some (Tree.cut "," (joinPieces wrapper.schemaPieces)) := by
  have noLoop : ∀ entry ∈ wrapper.parameters.map TypedParameter.declaration,
      ∀ tree ∈ piece entry.2 [' '], Tree.isWord "for" tree = false := by
    intro entry member
    obtain ⟨parameter, -, rfl⟩ := List.mem_map.mp member
    exact List.forall_mem_singleton.mpr rfl
  rw [Task.assignedSchema?, sides_of_statement]
  exact map_pieces_of_entries _ noLoop [' ']

theorem schema_of_source {wrapper : Wrapper} (valid : wrapper.IsValid) :
    Task.schemaOf [.node (.simple wrapper.statement) []] =
      wrapper.parameters.map TypedParameter.declared := by
  have read : (Tree.cut "," (joinPieces wrapper.schemaPieces)).filterMap Task.declaration? =
      wrapper.parameters.map TypedParameter.declared := by
    refine read_entries Task.declaration? rfl _ ?_
    rw [List.forall₂_map_left_iff, List.forall₂_map_right_iff]
    refine List.forall₂_same.mpr fun parameter member gap =>
      TypedParameter.declaration_of_piece (name_ne_empty (valid.parameters parameter member).name) gap
  have found : [Node.node (.simple wrapper.statement) []].filterMap Task.statementSchema? =
      [Tree.cut "," (joinPieces wrapper.schemaPieces)] := by
    simp [Task.statementSchema?, assigned_of_statement]
  rw [Task.schemaOf, found]
  dsimp only [List.getLast?_singleton]
  rw [read, Entries.of_list_of_distinct (declared_distinct valid)]

/-- The task that is read from a generated wrapper. -/
theorem task_of_source {wrapper : Wrapper} (valid : wrapper.IsValid) :
    Task.ofSource wrapper.source.toList =
      ⟨some wrapper.className, "", wrapper.parameters.map TypedParameter.collected,
        wrapper.parameters.map TypedParameter.declared, false⟩ := by
  have body : Task.body wrapper.methodNode = [.node (.simple wrapper.statement) []] := rfl
  have noReturn : Node.anyReturnsValue [.node (.simple wrapper.statement) []] = false := rfl
  unfold Task.ofSource
  rw [classes_of_source valid]
  dsimp only
  rw [owner_of_source, documentation_of_source]
  dsimp only
  rw [name_of_source, signature_of_source valid, body, schema_of_source valid, noReturn]

end Wrapper

namespace Extraction

theorem default_of_collected {parameter : TypedParameter} (valid : parameter.IsValid) :
    resolveDefault none parameter.collected.default =
      parameter.default.bind SignatureDefault.given? := by
  rw [TypedParameter.collected]
  cases given : parameter.default with
  | none => rfl
  | some value =>
      have portable := valid.default value given
      have readable := (readable_iff value).mpr ⟨portable.noLeast, portable.finite⟩
      have read := SignatureDefault.read_literal_default portable.distinct portable.noNull
        portable.noBool readable
      simpa [resolveDefault, literalText] using read

theorem record_of_collected {wrapper : Wrapper} (valid : wrapper.IsValid) {task : Task}
    (declares : task.schema = wrapper.parameters.map TypedParameter.declared)
    {parameter : TypedParameter} (member : parameter ∈ wrapper.parameters) :
    inputRecord task [] parameter.collected = parameter.record := by
  have entry : Entries.get? parameter.name task.schema = some parameter.declared.2 := by
    rw [declares]
    exact Entries.get_of_mem (Wrapper.declared_distinct valid) (List.mem_map_of_mem member)
  have type : task.declaredType parameter.collected.name = parameter.type := by
    rw [Task.declaredType, TypedParameter.collected, entry]
    rfl
  have default := default_of_collected (valid.parameters parameter member)
  have undocumented : inputRecord task [] parameter.collected =
      .make (Dtype.infer (task.declaredType parameter.collected.name) parameter.name "").name
        (resolveDefault none parameter.collected.default) "" := rfl
  rw [undocumented, type, default]
  rfl

theorem inputs_of_wrapper {wrapper : Wrapper} (valid : wrapper.IsValid) {task : Task}
    (collects : task.parameters = wrapper.parameters.map TypedParameter.collected)
    (declares : task.schema = wrapper.parameters.map TypedParameter.declared) :
    inputs task [] =
      wrapper.parameters.map fun parameter => (parameter.name, parameter.record) := by
  have records : wrapper.parameters.map ((fun parameter : Parameter =>
      (parameter.name, inputRecord task [] parameter)) ∘ TypedParameter.collected) =
      wrapper.parameters.map fun parameter => (parameter.name, parameter.record) :=
    List.map_congr_left fun parameter member =>
      congrArg (parameter.name, ·) (record_of_collected valid declares member)
  have distinct : Entries.Distinct
      (wrapper.parameters.map fun parameter => (parameter.name, parameter.record)) := by
    unfold Entries.Distinct Entries.keys
    rw [List.map_map]
    exact valid.distinct
  rw [inputs, collects, List.map_map, records, Entries.of_list_of_distinct distinct]

/-- The document of a generated wrapper has the parameters as its inputs, in their order, each with its
default, its type and no description; it has no outputs. -/
theorem document_of_wrapper (cabName : String) {wrapper : Wrapper} (valid : wrapper.IsValid) :
    document cabName wrapper.source =
      ⟨cabName, wrapper.parameters.map fun parameter => (parameter.name, parameter.record), none⟩ := by
  have noDocs : Docstring.parameters "".toList = [] := by decide
  rw [document, Wrapper.task_of_source valid]
  dsimp only
  rw [noDocs, inputs_of_wrapper valid rfl rfl]
  rfl

def sampleWrapper : Wrapper where
  className := "A1"
  parameters := [⟨"vis", none, "cReqPath"⟩, ⟨"_t", some .null, "cInt"⟩,
    ⟨"spw", some (.list [.str "it's", .map [("b\"(", .int (-1))]]), "don't"⟩]
  methodIndent := 1
  bodyIndent := 2
  endsLine := true

theorem sample_wrapper_valid : sampleWrapper.IsValid where
  className := by decide
  parameters := by
    have null : Value.IsPortable .null := ⟨trivial, nofun, nofun, nofun, nofun⟩
    have nested : Value.IsPortable (.list [.str "it's", .map [("b\"(", .int (-1))]]) :=
      ⟨⟨trivial, ⟨by decide, trivial, trivial⟩, trivial⟩, by decide, by decide,
        by simp [scalars, itemScalars, entryScalars], by simp [scalars, itemScalars, entryScalars]⟩
    refine List.forall_mem_cons.mpr ⟨⟨by decide, nofun, by decide⟩, List.forall_mem_cons.mpr
      ⟨⟨by decide, fun value given => ?_, by decide⟩, List.forall_mem_singleton.mpr
        ⟨by decide, fun value given => ?_, by decide⟩⟩⟩
    · exact Option.some.inj given ▸ null
    · exact Option.some.inj given ▸ nested
  distinct := by decide
  indented := by decide
  nested := by decide

theorem document_of_wrapper_of_sample :
    document "listobs" (
      "class A1:\n def __call__(self, vis, _t=None, spw=[\"it's\", \x7b'b\"(': -1\x7d]):\n" ++
      "  schema = \x7b'vis': \x7b'type': 'cReqPath'\x7d, '_t': \x7b'type': 'cInt'\x7d, " ++
        "'spw': \x7b'type': \"don't\"\x7d\x7d\n") =
      ⟨"listobs", [("vis", ⟨"MS", none, true, ""⟩), ("_t", ⟨"int", none, true, ""⟩),
        ("spw", ⟨"don't", some (.decoded (.list [.str "it's", .map [("b\"(", .int (-1))]])), false,
          ""⟩)], none⟩ := by
  have read := document_of_wrapper "listobs" sample_wrapper_valid
  have text : sampleWrapper.source =
      "class A1:\n def __call__(self, vis, _t=None, spw=[\"it's\", \x7b'b\"(': -1\x7d]):\n" ++
      "  schema = \x7b'vis': \x7b'type': 'cReqPath'\x7d, '_t': \x7b'type': 'cInt'\x7d, " ++
        "'spw': \x7b'type': \"don't\"\x7d\x7d\n" := by decide +kernel
  have vis : (Dtype.infer "cReqPath" "vis" "").name = "MS" := by decide
  have count : (Dtype.infer "cInt" "_t" "").name = "int" := by decide
  have spw : (Dtype.infer "don't" "spw" "").name = "don't" := by decide
  rw [text] at read
  rw [read, sampleWrapper]
  simp only [List.map_cons, List.map_nil, TypedParameter.record, vis, count, spw]
  rfl

end Extraction

end TaskCab
