import TaskCab.Proofs.Entries
import TaskCab.Proofs.Source.Bracketing
import TaskCab.Proofs.Source.ReturnedValues
import TaskCab.Task

/-!
# Tasks with other line ends

A source whose lines end in a carriage return and a line feed has the parameters of the source before, with
the returns put into their names and defaults. The declared types and the docstring are the same, unless
they go on over a line end in a way that the value depends on.
-/

namespace TaskCab

open TaskCab.Text TaskCab.Source

theorem returned_text_to_list (text : String) : (returnedText text).toList = withReturns text.toList :=
  String.toList_ofList

theorem returned_text_same_iff (text : String) : returnedText text = text ↔ '\n' ∉ text.toList := by
  rw [← with_returns_same_iff, ← String.toList_inj, returned_text_to_list]

namespace SourceValue

def OneLine : SourceValue → Prop
  | decoded _ => True
  | verbatim text => '\n' ∉ text.toList

instance (value : SourceValue) : Decidable value.OneLine :=
  match value with
  | decoded _ => inferInstanceAs (Decidable True)
  | verbatim text => inferInstanceAs (Decidable ('\n' ∉ text.toList))

theorem returned_of_one_line {value : SourceValue} (oneLine : value.OneLine) : value.returned = value := by
  cases value with
  | decoded => rfl
  | verbatim text => exact congrArg verbatim ((returned_text_same_iff text).mpr oneLine)

end SourceValue

/-! ## Parameters -/

/-- A parameter with the returns put into its name and its default. -/
def Parameter.returned (parameter : Parameter) : Parameter :=
  ⟨returnedText parameter.name, parameter.default.map returnedText⟩

namespace Task

/-! ## Methods -/

theorem header_name_returned (header : List Tree) :
    headerName? (header.map Tree.returned) = (headerName? header).map withReturns := by
  match header with
  | [] | [_] => rfl
  | _ :: name :: _ => exact Tree.word_returned name

theorem body_returned (definition : Node) :
    body definition.returned = (body definition).map Node.returned := by
  unfold body
  rw [Node.children_returned]
  cases definition.children with
  | nil => rfl
  | cons block _ => exact Node.children_returned block

def methodReturned (method : List Tree × Node) : List Tree × Node :=
  (method.1.map Tree.returned, method.2.returned)

theorem is_method_returned (header : List Tree) :
    headerName? (header.map Tree.returned) = some methodName ↔ headerName? header = some methodName := by
  rw [header_name_returned]
  cases headerName? header with
  | none => rfl
  | some name =>
      rw [Option.map_some, Option.some_inj, Option.some_inj]
      exact with_returns_eq_iff (by decide)

theorem defined_method_returned (header : List Tree) (children : List Node) :
    callMethod? (Node.node (.functionDef header) children).returned =
      (callMethod? (.node (.functionDef header) children)).map methodReturned := by
  rw [Node.returned, NodeKind.returned, callMethod?, callMethod?, if_congr (is_method_returned header) rfl rfl]
  split <;> rfl

theorem call_method_returned (statement : Node) :
    callMethod? statement.returned = (callMethod? statement).map methodReturned := by
  match statement with
  | .node (.functionDef header) children => exact defined_method_returned header children
  | .node .decorated [.node (.functionDef header) children] =>
      exact defined_method_returned header children
  | .node .decorated [] => rfl
  | .node .decorated (first :: second :: rest) =>
      obtain ⟨kind, children⟩ := first
      cases kind <;> rfl
  | .node .decorated [.node .module _] => rfl
  | .node .decorated [.node .block _] => rfl
  | .node .decorated [.node .clause _] => rfl
  | .node .decorated [.node .decorated _] => rfl
  | .node .decorated [.node (.simple _) _] => rfl
  | .node .decorated [.node (.classDef _) _] => rfl
  | .node .decorated [.node (.compound _) _] => rfl
  | .node .module _ | .node .block _ | .node .clause _ | .node (.simple _) _ | .node (.classDef _) _
  | .node (.compound _) _ => rfl

theorem find_call_method_returned (class_ : Node) :
    findCallMethod? class_.returned = (findCallMethod? class_).map methodReturned := by
  rw [findCallMethod?, findCallMethod?, body_returned, List.findSome?_map, List.map_findSome?]
  exact congrArg (List.findSome? · _) (funext call_method_returned)

def ownerReturned (owner : Node × List Tree × Node) : Node × List Tree × Node :=
  (owner.1.returned, methodReturned owner.2)

theorem owner_returned (classes : List Node) :
    owner? (classes.map Node.returned) = (owner? classes).map ownerReturned := by
  rw [owner?, owner?, List.findSome?_map, List.map_findSome?]
  apply congrArg (List.findSome? · classes)
  funext class_
  rw [Function.comp_apply, Function.comp_apply, find_call_method_returned, Option.map_map, Option.map_map]
  rfl

/-! ## Signatures -/

def Piece.returned : Piece → Piece
  | .parameter named => .parameter named.returned
  | .skipped => .skipped
  | .star => .star

theorem name_text_returned (trees : List Tree) :
    nameText (trees.map Tree.returned) = returnedText (nameText trees) := by
  rw [nameText, nameText, Tree.text_returned, returnedText, String.toList_ofList]

def namedPiece (tree : Tree) : Piece :=
  match tree.word? with
  | some name => .parameter ⟨String.ofList name, none⟩
  | none => .skipped

theorem named_piece_returned (tree : Tree) : namedPiece tree.returned = (namedPiece tree).returned := by
  rw [namedPiece, namedPiece, Tree.word_returned]
  cases tree.word? with
  | none => rfl
  | some name => simp [Piece.returned, Parameter.returned, returnedText]

theorem bare_parameter_cons (first : Tree) (rest : List Tree) :
    bareParameter (first :: rest) =
      if rest.any (Tree.isSymbol ":") then namedPiece first
      else if Tree.isSymbol "*" first || Tree.isSymbol "**" first then .star
      else if rest.isEmpty then namedPiece first
      else .skipped := rfl

theorem bare_parameter_returned (trees : List Tree) :
    bareParameter (trees.map Tree.returned) = (bareParameter trees).returned := by
  cases trees with
  | nil => rfl
  | cons first rest =>
      rw [List.map_cons, bare_parameter_cons, bare_parameter_cons, named_piece_returned,
        Tree.any_symbol_returned (by decide),
        Tree.is_symbol_returned (by decide), Tree.is_symbol_returned (by decide), List.isEmpty_map]
      split
      · rfl
      split
      · rfl
      split <;> rfl

theorem parameter_piece_returned (trees : List Tree) :
    parameterPiece (trees.map Tree.returned) = (parameterPiece trees).returned := by
  rw [parameterPiece, parameterPiece, Tree.cut_once_returned (by decide)]
  cases Tree.cutOnce? "=" 0 trees with
  | none => exact bare_parameter_returned trees
  | some sides =>
      obtain ⟨target, value⟩ := sides
      rw [Option.map_some]
      dsimp only
      rw [Tree.cut_once_returned (by decide), Tree.text_returned, Compact.text_returned, Option.map_map]
      have name : ((Tree.cutOnce? ":" 0 target).map (Prod.fst ∘ fun sides =>
          (sides.1.map Tree.returned, sides.2.map Tree.returned))).getD (target.map Tree.returned) =
            (((Tree.cutOnce? ":" 0 target).map Prod.fst).getD target).map Tree.returned := by
        cases Tree.cutOnce? ":" 0 target <;> rfl
      rw [name, name_text_returned]
      simp [Piece.returned, Parameter.returned, returnedText]

theorem positional_returned (pieces : List (List Tree)) :
    positional (pieces.map (List.map Tree.returned)) = (positional pieces).map Parameter.returned := by
  induction pieces with
  | nil => rfl
  | cons trees rest ih =>
      rw [List.map_cons, positional, positional, parameter_piece_returned, ih]
      cases parameterPiece trees <;> rfl

theorem round_inner_returned (tree : Tree) :
    roundInner? tree.returned = (roundInner? tree).map (List.map Tree.returned) := by
  cases tree with
  | leaf => rfl
  | group bracket opening inner closing =>
      rw [Tree.returned, Tree.all_returned_eq]
      cases bracket <;> rfl

theorem signature_returned (header : List Tree) :
    signature (header.map Tree.returned) = (signature header).map Parameter.returned := by
  have inner : (header.map Tree.returned).findSome? roundInner? =
      (header.findSome? roundInner?).map (List.map Tree.returned) := by
    rw [List.findSome?_map, List.map_findSome?]
    exact congrArg (List.findSome? · _) (funext round_inner_returned)
  rw [signature, signature, inner]
  cases header.findSome? roundInner? with
  | none => rfl
  | some inner =>
      rw [Option.map_some]
      dsimp only
      rw [Tree.cut_returned (by decide), positional_returned, List.map_drop]

/-! ## Schemas -/

def areEntries (pieces : List (List Tree)) : Bool :=
  match pieces with
  | [] | [[]] | [[], []] => true
  | piece :: _ => piece.head?.any (Tree.isSymbol "**") || (Tree.cutOnce? ":" 0 piece).isSome

theorem map_pieces_of_curly (opening closing : Token) (inner : List Tree) :
    mapPieces? [.group .curly opening inner closing] =
      if areEntries (Tree.cut "," inner) && !inner.any (Tree.isWord "for") then some (Tree.cut "," inner)
      else none := rfl

theorem first_entry_returned (piece : List Tree) :
    ((piece.map Tree.returned).head?.any (Tree.isSymbol "**") ||
        (Tree.cutOnce? ":" 0 (piece.map Tree.returned)).isSome) =
      (piece.head?.any (Tree.isSymbol "**") || (Tree.cutOnce? ":" 0 piece).isSome) := by
  rw [Tree.head_symbol_returned (by decide), Tree.cut_once_returned (by decide), Option.isSome_map]

theorem are_entries_returned (pieces : List (List Tree)) :
    areEntries (pieces.map (List.map Tree.returned)) = areEntries pieces := by
  match pieces with
  | [] | [[]] | [[], []] => rfl
  | [] :: [] :: _ :: _ => rfl
  | [] :: (_ :: _) :: _ => rfl
  | (tree :: rest) :: _ => exact first_entry_returned (tree :: rest)

theorem map_pieces_returned (trees : List Tree) :
    mapPieces? (trees.map Tree.returned) = (mapPieces? trees).map (List.map (List.map Tree.returned)) := by
  match trees with
  | [] => rfl
  | [.leaf _] => rfl
  | [.group .round _ _ _] | [.group .square _ _ _] => rfl
  | first :: second :: rest =>
      cases first with
      | leaf => rfl
      | group bracket => cases bracket <;> rfl
  | [.group .curly opening inner closing] =>
      have comprehension : (inner.map Tree.returned).any (Tree.isWord "for") =
          inner.any (Tree.isWord "for") := by
        rw [List.any_map]
        exact congrArg (List.any inner) (funext (Tree.is_word_returned (by decide)))
      rw [List.map_singleton, Tree.returned, Tree.all_returned_eq, map_pieces_of_curly,
        map_pieces_of_curly, Tree.cut_returned (by decide), are_entries_returned, comprehension]
      split <;> rfl

def isSchema (target : List Tree) : Bool :=
  match target with
  | [tree] => Tree.isWord schemaName tree
  | _ => false

theorem is_schema_returned (target : List Tree) : isSchema (target.map Tree.returned) = isSchema target := by
  match target with
  | [] | _ :: _ :: _ => rfl
  | [tree] => exact Tree.is_word_returned (by decide) tree

theorem assigned_schema_eq (trees : List Tree) :
    assignedSchema? trees =
      if (Tree.cut "=" trees).dropLast.any isSchema &&
          !(Tree.cut "=" trees).dropLast.any (fun target => target.any (Tree.isSymbol ":")) then
        (Tree.cut "=" trees).getLast?.bind mapPieces?
      else none := rfl

theorem assigned_schema_returned (trees : List Tree) :
    assignedSchema? (trees.map Tree.returned) =
      (assignedSchema? trees).map (List.map (List.map Tree.returned)) := by
  have targets : isSchema ∘ List.map Tree.returned = isSchema := funext is_schema_returned
  have annotations : (fun target : List Tree => target.any (Tree.isSymbol ":")) ∘ List.map Tree.returned =
      fun target => target.any (Tree.isSymbol ":") :=
      funext (Tree.any_symbol_returned (by decide))
  rw [assigned_schema_eq, assigned_schema_eq, Tree.cut_returned (by decide), ← List.map_dropLast,
    List.any_map, List.any_map, targets, annotations, List.getLast?_map]
  split
  · cases (Tree.cut "=" trees).getLast? with
    | none => rfl
    | some value => exact map_pieces_returned value
  · rfl

theorem statement_schema_returned (statement : Node) :
    statementSchema? statement.returned =
      (statementSchema? statement).map (List.map (List.map Tree.returned)) := by
  obtain ⟨kind, children⟩ := statement
  cases kind with
  | simple trees => exact assigned_schema_returned trees
  | module | block | clause | decorated | classDef | functionDef | compound => rfl

/-- The pieces of the map that statements assign to the schema last. -/
def schemaPieces (statements : List Node) : List (List Tree) :=
  (statements.filterMap statementSchema?).getLast?.getD []

theorem schema_of_eq (statements : List Node) :
    schemaOf statements = Entries.ofList ((schemaPieces statements).filterMap declaration?) := by
  unfold schemaOf schemaPieces
  cases (statements.filterMap statementSchema?).getLast? <;> rfl

theorem schema_pieces_returned (statements : List Node) :
    schemaPieces (statements.map Node.returned) =
      (schemaPieces statements).map (List.map Tree.returned) := by
  have assigned : statementSchema? ∘ Node.returned =
      fun statement => (statementSchema? statement).map (List.map (List.map Tree.returned)) :=
    funext statement_schema_returned
  rw [schemaPieces, schemaPieces, List.filterMap_map, assigned, ← List.map_filterMap, List.getLast?_map]
  cases (statements.filterMap statementSchema?).getLast? <;> rfl

/-! ## Declared types -/

/-- Whether no literal of the key of a field, nor of the type if it is the field of that, goes on over a
line end. -/
def FieldOneLine (trees : List Tree) : Prop :=
  ∀ sides ∈ Tree.cutOnce? ":" 0 trees, Literal.OneLine sides.1 ∧
    (key? sides.1 = some "type" →
      Literal.OneLine sides.2 ∧ (Literal.ofTrees sides.2).OneLine)

instance (trees : List Tree) : Decidable (FieldOneLine trees) :=
  inferInstanceAs (Decidable (∀ sides ∈ Tree.cutOnce? ":" 0 trees, _ ∧ (_ → _)))

def DeclarationOneLine (trees : List Tree) : Prop :=
  ∀ sides ∈ Tree.cutOnce? ":" 0 trees, Literal.OneLine sides.1 ∧
    ∀ piece ∈ (mapPieces? sides.2).getD [], FieldOneLine piece

instance (trees : List Tree) : Decidable (DeclarationOneLine trees) :=
  inferInstanceAs (Decidable (∀ sides ∈ Tree.cutOnce? ":" 0 trees, _ ∧ ∀ piece ∈ _, _))

theorem key_returned {trees : List Tree} (oneLine : Literal.OneLine trees) :
    key? (trees.map Tree.returned) = key? trees := by
  rw [key?, key?, Literal.value_returned oneLine]

/-- Fields of one name that are the same if they are types. -/
def SameField (field other : String × SourceValue) : Prop :=
  field.1 = other.1 ∧ (field.1 = "type" → field.2 = other.2)

theorem field_returned {trees : List Tree} (oneLine : FieldOneLine trees) :
    Option.Rel SameField (field? trees) (field? (trees.map Tree.returned)) := by
  unfold field?
  rw [Tree.cut_once_returned (by decide)]
  cases found : Tree.cutOnce? ":" 0 trees with
  | none => exact .none
  | some sides =>
      obtain ⟨before, after⟩ := sides
      obtain ⟨name, type⟩ := oneLine _ found
      rw [Option.map_some]
      simp only [Option.bind_eq_bind, Option.bind_some, key_returned name]
      cases isKey : key? before with
      | none => exact .none
      | some key =>
          refine .some ⟨rfl, fun isType => ?_⟩
          obtain ⟨literals, kept⟩ := type (isKey.trans (congrArg some isType))
          rw [Literal.of_trees_returned literals, SourceValue.returned_of_one_line kept]

theorem fields_returned {pieces : List (List Tree)} (oneLine : ∀ piece ∈ pieces, FieldOneLine piece) :
    List.Forall₂ SameField (pieces.filterMap field?)
      ((pieces.map (List.map Tree.returned)).filterMap field?) := by
  induction pieces with
  | nil => exact .nil
  | cons piece rest ih =>
      have later := ih fun other member => oneLine other (.tail _ member)
      have same := field_returned (oneLine piece (.head _))
      rw [List.map_cons, List.filterMap_cons, List.filterMap_cons]
      generalize field? piece = field at same
      generalize field? (piece.map Tree.returned) = other at same
      cases same with
      | none => exact later
      | some agree => exact .cons agree later

theorem declared_returned {trees : List Tree} (oneLine : DeclarationOneLine trees) :
    (declaration? (trees.map Tree.returned)).map (fun entry => (entry.1, entry.2.type)) =
      (declaration? trees).map fun entry => (entry.1, entry.2.type) := by
  unfold declaration?
  rw [Tree.cut_once_returned (by decide)]
  cases found : Tree.cutOnce? ":" 0 trees with
  | none => rfl
  | some sides =>
      obtain ⟨before, after⟩ := sides
      obtain ⟨name, fields⟩ := oneLine _ found
      have pieces : (mapPieces? (after.map Tree.returned)).getD [] =
          ((mapPieces? after).getD []).map (List.map Tree.returned) := by
        rw [map_pieces_returned]
        cases mapPieces? after <;> rfl
      have type := Entries.get_of_list_congr (fields_returned fields)
      rw [← pieces] at type
      rw [Option.map_some]
      simp only [Option.bind_eq_bind, Option.bind_some, key_returned name]
      cases key? before with
      | none => rfl
      | some key =>
          rw [Option.bind_some, Option.bind_some]
          split
          · rfl
          · rw [Option.map_some, Option.map_some, SchemaEntry.ofFields, SchemaEntry.ofFields,
              schemaFields, schemaFields, type]

theorem declared_type_returned {statements : List Node}
    (oneLine : ∀ piece ∈ schemaPieces statements, DeclarationOneLine piece) (name : String) :
    (Entries.get? name (schemaOf (statements.map Node.returned))).map SchemaEntry.type =
      (Entries.get? name (schemaOf statements)).map SchemaEntry.type := by
  rw [schema_of_eq, schema_of_eq, ← Entries.get_of_list_map, ← Entries.get_of_list_map,
    schema_pieces_returned, List.filterMap_map, List.map_filterMap, List.map_filterMap]
  apply congrArg fun entries => Entries.get? name (Entries.ofList entries)
  exact List.filterMap_congr fun piece member => declared_returned (oneLine piece member)

/-! ## Docstrings -/

def dropComma (trees : List Tree) : List Tree :=
  match trees.getLast? with
  | some last =>
      if Tree.isSymbol "," last && !(Literal.part last).joined then trees.dropLast else trees
  | none => trees

def dropCommaPart (parts : List Literal.Part) : List Literal.Part :=
  match parts.getLast? with
  | some last => if Literal.Part.isSymbol "," last && !last.joined then parts.dropLast else parts
  | none => parts

theorem drop_comma_parts (trees : List Tree) :
    dropCommaPart (Literal.parts trees) = Literal.parts (dropComma trees) := by
  unfold dropCommaPart dropComma
  rw [Literal.parts_eq_map, List.getLast?_map, ← List.map_dropLast]
  cases trees.getLast? with
  | none => exact (Literal.parts_eq_map trees).symm
  | some last =>
      rw [Option.map_some]
      dsimp only
      rw [Literal.is_symbol_part]
      split <;> exact (Literal.parts_eq_map _).symm

theorem string_statement_eq (trees : List Tree) :
    stringStatement? trees =
      if (dropComma trees).isEmpty then none else Literal.strings? (Literal.parts (dropComma trees)) := by
  have parts : stringStatement? trees =
      if (dropCommaPart (Literal.parts trees)).isEmpty then none
      else Literal.strings? (dropCommaPart (Literal.parts trees)) := rfl
  have empty : (Literal.parts (dropComma trees)).isEmpty = (dropComma trees).isEmpty := by
    rw [Literal.parts_eq_map, List.isEmpty_map]
  rw [parts, drop_comma_parts, empty]

theorem drop_comma_returned (trees : List Tree) :
    dropComma (trees.map Tree.returned) = (dropComma trees).map Tree.returned := by
  rw [dropComma, dropComma, List.getLast?_map]
  cases trees.getLast? with
  | none => rfl
  | some last =>
      rw [Option.map_some]
      dsimp only
      rw [Tree.is_symbol_returned (by decide), Literal.joined_returned, ← List.map_dropLast]
      split <;> rfl

theorem apart_of_start {trees others : List Tree} (apart : Literal.Apart trees)
    (within : others <+: trees) : Literal.Apart others := by
  obtain ⟨more, rfl⟩ := within
  intro token member
  exact apart token (by rw [Tree.all_tokens_append]; exact List.mem_append_left _ member)

theorem string_statement_returned {trees : List Tree} (apart : Literal.Apart trees) :
    Option.Rel Returned (stringStatement? trees) (stringStatement? (trees.map Tree.returned)) := by
  have within : Literal.Apart (dropComma trees) := by
    unfold dropComma
    split
    next =>
      split
      · exact apart_of_start apart (List.dropLast_prefix trees)
      · exact apart
    next => exact apart
  rw [string_statement_eq, string_statement_eq, drop_comma_returned, List.isEmpty_map]
  split
  · exact .none
  · exact Literal.strings_returned within

def classStatement (class_ : Node) : List Tree :=
  match body class_ with
  | .node (.simple trees) _ :: _ => trees
  | _ => []

def firstStatement (classes : List Node) : List Tree :=
  match classes with
  | first :: _ => classStatement first
  | [] => []

theorem class_docstring_eq (class_ : Node) :
    classDocstring? class_ = stringStatement? (classStatement class_) := by
  unfold classDocstring? classStatement
  cases body class_ with
  | nil => rfl
  | cons statement others =>
      obtain ⟨kind, children⟩ := statement
      cases kind <;> rfl

theorem class_statement_returned (class_ : Node) :
    classStatement class_.returned = (classStatement class_).map Tree.returned := by
  rw [classStatement, classStatement, body_returned]
  cases body class_ with
  | nil => rfl
  | cons statement others =>
      obtain ⟨kind, children⟩ := statement
      cases kind <;> rfl

/-- Whether no backslash of the docstring joins lines, and no line of its text ends in a return. -/
def DocstringApart (classes : List Node) : Prop :=
  Literal.Apart (firstStatement classes) ∧ ∀ text ∈ stringStatement? (firstStatement classes), NoReturnedLine text

instance (classes : List Node) : Decidable (DocstringApart classes) :=
  inferInstanceAs (Decidable (_ ∧ ∀ text ∈ _, _))

theorem documentation_eq (classes : List Node) :
    documentation classes =
      String.ofList (((stringStatement? (firstStatement classes)).map Docstring.clean).getD []) := by
  cases classes with
  | nil => rfl
  | cons first rest =>
      rw [documentation, class_docstring_eq]
      rfl

theorem first_statement_returned (classes : List Node) :
    firstStatement (classes.map Node.returned) = (firstStatement classes).map Tree.returned := by
  cases classes with
  | nil => rfl
  | cons first rest => exact class_statement_returned first

theorem documentation_returned {classes : List Node} (apart : DocstringApart classes) :
    documentation (classes.map Node.returned) = documentation classes := by
  obtain ⟨literals, noReturned⟩ := apart
  have same := string_statement_returned literals
  rw [documentation_eq, documentation_eq, first_statement_returned]
  generalize stringStatement? (firstStatement classes) = text at same noReturned
  generalize stringStatement? ((firstStatement classes).map Tree.returned) = other at same
  cases same with
  | none => rfl
  | some returned =>
      rw [Option.map_some, Option.map_some, Docstring.clean, Docstring.clean,
        lines_of_returned returned (noReturned _ rfl)]

/-! ## Tasks -/

def methodBody (source : List Char) : List Node :=
  match owner? (Node.ofText source).classes with
  | some (_, _, method) => body method
  | none => []

def methodHeader (source : List Char) : List Tree :=
  match owner? (Node.ofText source).classes with
  | some (_, header, _) => header
  | none => []

/-- A task comes from the documentation, the header and the statements alone, but for its class. -/
theorem of_source_eq (source : List Char) :
    ∃ className, ofSource source =
      ⟨className, documentation (Node.ofText source).classes, signature (methodHeader source),
        schemaOf (methodBody source), Node.anyReturnsValue (methodBody source)⟩ := by
  unfold ofSource methodHeader methodBody
  dsimp only
  cases owner? (Node.ofText source).classes with
  | none => exact ⟨none, rfl⟩
  | some owner => exact ⟨classHeaderName? owner.1, rfl⟩

theorem parameters_eq (source : List Char) :
    (ofSource source).parameters = signature (methodHeader source) := by
  obtain ⟨_, same⟩ := of_source_eq source
  rw [same]

theorem schema_eq (source : List Char) : (ofSource source).schema = schemaOf (methodBody source) := by
  obtain ⟨_, same⟩ := of_source_eq source
  rw [same]

theorem has_outputs_eq (source : List Char) :
    (ofSource source).hasOutputs = Node.anyReturnsValue (methodBody source) := by
  obtain ⟨_, same⟩ := of_source_eq source
  rw [same]

theorem docstring_eq (source : List Char) :
    (ofSource source).docstring = documentation (Node.ofText source).classes := by
  obtain ⟨_, same⟩ := of_source_eq source
  rw [same]

/-- Whether, apart from its defaults, a source says the same with other line ends: no name and no declared
type goes on over a line end, and no backslash of the docstring joins lines. -/
structure Steady (source : List Char) : Prop where
  names : ∀ parameter ∈ (ofSource source).parameters, '\n' ∉ parameter.name.toList
  types : ∀ piece ∈ schemaPieces (methodBody source), DeclarationOneLine piece
  docstring : DocstringApart (Node.ofText source).classes

section

variable {source : List Char} (noReturn : '\r' ∉ source) (parses : Line.Parses (withReturns source))

include noReturn parses

theorem classes_of_source :
    (Node.ofText (withReturns source)).classes = (Node.ofText source).classes.map Node.returned := by
  rw [Node.of_text_returned noReturn parses, Node.classes_returned]

theorem method_body_returned : methodBody (withReturns source) = (methodBody source).map Node.returned := by
  unfold methodBody
  rw [classes_of_source noReturn parses, owner_returned]
  cases owner? (Node.ofText source).classes with
  | none => rfl
  | some owner => exact body_returned owner.2.2

theorem method_header_returned :
    methodHeader (withReturns source) = (methodHeader source).map Tree.returned := by
  unfold methodHeader
  rw [classes_of_source noReturn parses, owner_returned]
  cases owner? (Node.ofText source).classes <;> rfl

theorem parameters_returned :
    (ofSource (withReturns source)).parameters = (ofSource source).parameters.map Parameter.returned := by
  rw [parameters_eq, parameters_eq, method_header_returned noReturn parses, signature_returned]

theorem has_outputs_returned : (ofSource (withReturns source)).hasOutputs = (ofSource source).hasOutputs := by
  rw [has_outputs_eq, has_outputs_eq, method_body_returned noReturn parses, ← Node.all_returned_eq,
    Node.any_returns_returned]

theorem docstring_returned (steady : Steady source) :
    (ofSource (withReturns source)).docstring = (ofSource source).docstring := by
  rw [docstring_eq, docstring_eq, classes_of_source noReturn parses, documentation_returned steady.docstring]

theorem declared_returned_type (steady : Steady source) (name : String) :
    (ofSource (withReturns source)).declaredType name = (ofSource source).declaredType name := by
  have same := declared_type_returned steady.types name
  rw [← method_body_returned noReturn parses, ← schema_eq, ← schema_eq] at same
  have type (task : Task) : task.declaredType name =
      ((Entries.get? name task.schema).map SchemaEntry.type).getD SchemaEntry.unknownType := by
    rw [declaredType]
    cases Entries.get? name task.schema <;> rfl
  rw [type, type, same]

end

end Task

end TaskCab
