import TaskCab.Proofs.Extraction.LiteralDefault
import TaskCab.Proofs.Source.WrittenLines
import TaskCab.Proofs.Value.PieceCuts

/-!
# Generated wrappers

A wrapper that is generated from typed parameters gives the default of each as a literal in its signature
and declares the types in a schema that is a literal as well. Extraction brings the parameters back.
-/

namespace TaskCab

open TaskCab.Source TaskCab.Text TaskCab.Value

/-- The words of task sources that are no names, everywhere or in some places. -/
def keywords : List String :=
  ["False", "None", "True", "_", "and", "as", "assert", "async", "await", "break", "case", "class",
    "continue", "def", "del", "elif", "else", "except", "exec", "finally", "for", "from", "global", "if",
    "import", "in", "is", "lambda", "match", "nonlocal", "not", "or", "pass", "print", "raise", "return",
    "try", "type", "while", "with", "yield"]

/-- Whether a text can name a class or a parameter. -/
def IsName (name : String) : Prop := Lexeme.IsIdentifier name.toList ∧ name ∉ keywords

instance : DecidablePred IsName := fun _ => inferInstanceAs (Decidable (_ ∧ _))

/-- Whether a value is read back from its literal in a signature. -/
structure Value.IsPortable (value : Value) : Prop where
  distinct : value.Distinct
  noNull : ∀ text ∈ value.texts, '\x00' ∉ text.toList
  noBool : ∀ text ∈ value.texts, SignatureDefault.mentionsBool text.toList = false
  noLeast : .int Int64.minValue ∉ value.scalars
  finite : ∀ number, .float number ∈ value.scalars → number.isFinite = true

structure TypedParameter where
  name : String
  default : Option Value
  type : String

namespace TypedParameter

structure IsValid (parameter : TypedParameter) : Prop where
  name : IsName parameter.name
  default : ∀ value ∈ parameter.default, value.IsPortable
  noNull : '\x00' ∉ parameter.type.toList

def written (parameter : TypedParameter) : List Char :=
  parameter.name.toList ++
    match parameter.default with
    | none => []
    | some value => '=' :: literal value

def declaration (parameter : TypedParameter) : String × Value :=
  (parameter.name, .map [("type", .str parameter.type)])

def record (parameter : TypedParameter) : InputRecord :=
  let default := parameter.default.bind SignatureDefault.given?
  ⟨(Dtype.infer parameter.type parameter.name "").name, default, default.isNone, ""⟩

end TypedParameter

/-- A class with nothing but a call method, which does nothing but declare its schema. -/
structure Wrapper where
  className : String
  parameters : List TypedParameter
  methodIndent : Nat
  bodyIndent : Nat
  /-- Whether a line feed ends the last line. -/
  endsLine : Bool

namespace Wrapper

structure IsValid (wrapper : Wrapper) : Prop where
  className : IsName wrapper.className
  parameters : ∀ parameter ∈ wrapper.parameters, parameter.IsValid
  distinct : (wrapper.parameters.map TypedParameter.name).Nodup
  indented : 0 < wrapper.methodIndent
  nested : wrapper.methodIndent < wrapper.bodyIndent

def classLine (wrapper : Wrapper) : List Char :=
  "class ".toList ++ wrapper.className.toList ++ [':']

def methodLine (wrapper : Wrapper) : List Char :=
  List.replicate wrapper.methodIndent ' ' ++ "def __call__".toList ++
    enclose '(' ')' ("self".toList :: wrapper.parameters.map TypedParameter.written) ++ [':']

def bodyLine (wrapper : Wrapper) : List Char :=
  List.replicate wrapper.bodyIndent ' ' ++ "schema = ".toList ++
    literal (.map (wrapper.parameters.map TypedParameter.declaration))

def source (wrapper : Wrapper) : String :=
  String.ofList (joinWith ['\n'] [wrapper.classLine, wrapper.methodLine, wrapper.bodyLine] ++
    if wrapper.endsLine then ['\n'] else [])

end Wrapper

/-! ## Words in front of other tokens -/

/-- Whether a text goes on no word and makes no string of it. -/
def EndsWord (text : List Char) : Prop :=
  Stops Lexeme.isWordPart text ∧ Stops Quoted.isMark text

theorem ends_word_cons {character : Char} (ends : Lexeme.isWordPart character = false ∧
    Quoted.isMark character = false) (rest : List Char) : EndsWord (character :: rest) :=
  ⟨stops_cons.mpr ends.1, stops_cons.mpr ends.2⟩

theorem ends_word_of_end {after : List Char} (isEnd : IsEnd after) : EndsWord after :=
  ⟨stops_of_is_end isEnd (by decide), stops_of_is_end isEnd (by decide)⟩

theorem word_cons_writes (word gap : List Char) {rest : List Char} {trees : List Tree}
    (identifier : Lexeme.IsIdentifier word) (blank : ∀ c ∈ gap, Lexeme.isBlank c = true)
    (writes : Writes trees rest) (ends : ∀ after, IsEnd after → EndsWord (rest ++ after)) :
    Writes (.leaf (token .word word gap) :: trees) (gap ++ word ++ rest) :=
  writes_cons .word word gap rfl blank (balanced_leaf (by simp) word gap) writes
    fun after isEnd => Lexeme.starts_identifier identifier (ends after isEnd).1 (ends after isEnd).2

theorem name_writes {word : List Char} (identifier : Lexeme.IsIdentifier word) :
    (leafPiece .word word).Writes word :=
  leaf_writes .word rfl (by simp) fun _ isEnd =>
    Lexeme.starts_identifier identifier (ends_word_of_end isEnd).1 (ends_word_of_end isEnd).2

theorem colon_writes : Writes [.leaf (token .symbol [':'] [])] [':'] :=
  writes_cons .symbol [':'] [] rfl (by simp) ⟨rfl, rfl⟩ writes_nil fun _ isEnd =>
    Lexeme.starts_sign (.inl rfl) (stops_of_is_end isEnd (by decide))

theorem literal_no_equals (value : Value) (after : List Char) :
    Stops (· == '=') (literal value ++ after) := by
  have numeral {text : List Char} (isNumberText : IsNumberText text) :
      Stops (· == '=') (text ++ after) := by
    obtain ⟨first, rest, rfl⟩ := List.exists_cons_of_ne_nil isNumberText.1
    have isNumber := isNumberText.2 first (.head _)
    refine stops_cons.mpr (beq_eq_false_iff_ne.mpr ?_)
    rintro rfl
    exact absurd isNumber (by decide)
  cases value with
  | null => simp [literal]
  | bool truth => cases truth <;> simp [literal]
  | int word => exact numeral (int_is_number_text word.toInt)
  | float number => exact numeral (float_is_number_text number)
  | str text =>
      rw [literal, Quoted.text_literal_eq]
      rcases Quoted.is_quote_quote_for text.toList with same | same <;> simp [same]
  | list items => simp [literal, enclose]
  | map entries => simp [literal, enclose]

/-! ## The lines of a wrapper -/

theorem name_not_lambda {name : String} (isName : IsName name) (gap : List Char) :
    Tree.isWord "lambda" (.leaf (token .word name.toList gap)) = false := by
  apply decide_eq_false
  intro same
  obtain rfl := String.toList_inj.mp same
  exact isName.2 (by decide)

theorem name_ne_empty {name : String} (isName : IsName name) : name ≠ "" := by
  rintro rfl
  exact absurd isName (by decide)

theorem no_null_of_identifier {text : List Char} (identifier : Lexeme.IsIdentifier text) :
    '\x00' ∉ text :=
  fun member => absurd (identifier.2 '\x00' member) (by decide)

theorem blank_indent (indent : Nat) : ∀ c ∈ List.replicate indent ' ', Lexeme.isBlank c = true := by
  intro character member
  rw [List.eq_of_mem_replicate member]
  rfl

namespace TypedParameter

def nameTree (parameter : TypedParameter) (gap : List Char) : Tree :=
  .leaf (token .word parameter.name.toList gap)

def piece (parameter : TypedParameter) : Piece := fun gap =>
  parameter.nameTree gap ::
    match parameter.default with
    | none => []
    | some value => .leaf (token .symbol ['='] []) :: Value.piece value []

theorem piece_writes {parameter : TypedParameter} (valid : parameter.IsValid) :
    parameter.piece.Writes parameter.written := by
  have identifier := valid.name.1
  intro gap blank
  unfold piece nameTree written
  cases given : parameter.default with
  | none =>
      rw [List.append_nil]
      exact name_writes identifier gap blank
  | some value =>
      have portable := valid.default value given
      have default := Value.piece_writes portable.noNull [] (by simp)
      have equals := writes_cons .symbol ['='] [] rfl (by simp) ⟨rfl, rfl⟩ default
        fun after _ => Lexeme.starts_sign (.inr (.inl rfl)) (literal_no_equals value after)
      simpa using word_cons_writes parameter.name.toList gap identifier blank equals
        fun after _ => ends_word_cons ⟨rfl, rfl⟩ (literal value ++ after)

theorem piece_plain {parameter : TypedParameter} (isName : IsName parameter.name) :
    parameter.piece.IsPlain := by
  intro gap
  refine Tree.plain_cons.mpr ⟨⟨rfl, name_not_lambda isName gap⟩, ?_⟩
  cases parameter.default with
  | none => exact Tree.plain_nil
  | some value => exact Tree.plain_cons.mpr ⟨⟨rfl, rfl⟩, Value.piece_plain value []⟩

end TypedParameter

namespace Wrapper

def selfPiece : Piece := leafPiece .word "self".toList

def signaturePieces (wrapper : Wrapper) : List Piece :=
  selfPiece :: wrapper.parameters.map TypedParameter.piece

def schemaPieces (wrapper : Wrapper) : List Piece :=
  entryPieces (wrapper.parameters.map TypedParameter.declaration)

def classHeader (wrapper : Wrapper) : List Tree :=
  [.leaf (token .word "class".toList []), .leaf (token .word wrapper.className.toList [' '])]

def methodHeader (wrapper : Wrapper) : List Tree :=
  .leaf (token .word "def".toList (List.replicate wrapper.methodIndent ' ')) ::
    .leaf (token .word Task.methodName [' ']) ::
      groupPiece .round '(' ')' wrapper.signaturePieces []

def schemaTarget (wrapper : Wrapper) : Tree :=
  .leaf (token .word "schema".toList (List.replicate wrapper.bodyIndent ' '))

def statement (wrapper : Wrapper) : List Tree :=
  wrapper.schemaTarget :: .leaf (token .symbol ['='] [' ']) ::
    groupPiece .curly '\x7b' '\x7d' wrapper.schemaPieces [' ']

def colon : Tree := .leaf (token .symbol [':'] [])

theorem class_writes {wrapper : Wrapper} (valid : wrapper.IsValid) :
    Writes (wrapper.classHeader ++ [colon]) wrapper.classLine := by
  have name := word_cons_writes wrapper.className.toList [' '] valid.className.1
    (by simp [Lexeme.isBlank]) colon_writes fun after _ => ends_word_cons ⟨rfl, rfl⟩ after
  have whole := word_cons_writes "class".toList [] (by decide) (by simp) name
    fun after _ => ends_word_cons ⟨rfl, rfl⟩ _
  have words : "class ".toList = [] ++ "class".toList ++ [' '] := by decide
  unfold classLine
  rw [words]
  simp only [List.append_assoc] at whole ⊢
  exact whole

theorem signature_writes {wrapper : Wrapper} (valid : wrapper.IsValid) :
    (groupPiece .round '(' ')' wrapper.signaturePieces).Writes
      (enclose '(' ')' ("self".toList :: wrapper.parameters.map TypedParameter.written)) := by
  refine group_writes (.cons (name_writes (by decide)) ?_) (.inr (.inr rfl))
  rw [List.forall₂_map_left_iff, List.forall₂_map_right_iff]
  exact List.forall₂_same.mpr fun parameter member =>
    TypedParameter.piece_writes (valid.parameters parameter member)

theorem method_writes {wrapper : Wrapper} (valid : wrapper.IsValid) :
    Writes (wrapper.methodHeader ++ [colon]) wrapper.methodLine := by
  have signature := writes_append (signature_writes valid [] (by simp)) colon_writes
    fun after _ => is_end_cons.mpr (by decide)
  have name := word_cons_writes Task.methodName [' '] (by decide)
    (by simp [Lexeme.isBlank]) signature fun after _ => ends_word_cons ⟨rfl, rfl⟩ _
  have whole := word_cons_writes "def".toList _ (by decide)
    (blank_indent wrapper.methodIndent) name fun after _ => ends_word_cons ⟨rfl, rfl⟩ _
  have words : "def __call__".toList = "def".toList ++ ([' '] ++ Task.methodName) := by decide
  unfold methodLine
  rw [words]
  simp only [List.append_assoc, List.nil_append] at whole ⊢
  exact whole

theorem schema_no_null {parameters : List TypedParameter}
    (valid : ∀ parameter ∈ parameters, parameter.IsValid) :
    ∀ text ∈ texts (.map (parameters.map TypedParameter.declaration)), '\x00' ∉ text.toList := by
  induction parameters with
  | nil => exact fun _ member => absurd member List.not_mem_nil
  | cons parameter rest ih =>
      obtain ⟨first, later⟩ := List.forall_mem_cons.mp valid
      have own : ∀ text ∈ [parameter.name, "type", parameter.type], '\x00' ∉ text.toList := by
        simp [no_null_of_identifier first.name.1, first.noNull]
      exact List.forall_mem_append.mpr ⟨own, ih later⟩

theorem statement_writes {wrapper : Wrapper} (valid : wrapper.IsValid) :
    Writes wrapper.statement wrapper.bodyLine := by
  have schema : Writes (groupPiece .curly '\x7b' '\x7d' wrapper.schemaPieces [' '])
      (' ' :: literal (.map (wrapper.parameters.map TypedParameter.declaration))) :=
    Value.piece_writes (schema_no_null valid.parameters) [' '] (by simp [Lexeme.isBlank])
  have equals := writes_cons .symbol ['='] [' '] rfl (by simp [Lexeme.isBlank]) ⟨rfl, rfl⟩ schema
    fun after _ => Lexeme.starts_sign (.inr (.inl rfl)) (by simp)
  have whole := word_cons_writes "schema".toList _ (by decide)
    (blank_indent wrapper.bodyIndent) equals fun after _ => ends_word_cons ⟨rfl, rfl⟩ _
  have words : "schema = ".toList = "schema".toList ++ ([' '] ++ ['='] ++ [' ']) := by decide
  unfold bodyLine
  rw [words]
  simp only [List.append_assoc] at whole ⊢
  exact whole

/-! ## The statements of a wrapper -/

theorem lines_of_source {wrapper : Wrapper} (valid : wrapper.IsValid) :
    Line.ofText wrapper.source.toList =
      [.ofTrees (wrapper.classHeader ++ [colon]), .ofTrees (wrapper.methodHeader ++ [colon]),
        .ofTrees wrapper.statement] := by
  have writes : List.Forall₂ Writes
      [wrapper.classHeader ++ [colon], wrapper.methodHeader ++ [colon], wrapper.statement]
      [wrapper.classLine, wrapper.methodLine, wrapper.bodyLine] :=
    .cons (class_writes valid) (.cons (method_writes valid) (.cons (statement_writes valid) .nil))
  have first : "class ".toList = 'c' :: "lass ".toList := by decide
  rw [source, String.toList_ofList]
  refine Line.of_text_lines writes (by simp [statement]) ?_ ?_
  · cases wrapper.endsLine with
    | true => exact .inr rfl
    | false => exact .inl rfl
  · unfold classLine
    rw [join_with_cons, first]
    exact fun same => absurd (Option.some.inj same) (by decide)

theorem indent_of_spaces (indent : Nat) : Line.indentOf (List.replicate indent ' ') = indent := by
  have count (start : Nat) : (List.replicate indent ' ').foldl Line.marginStep (.blanks, start) =
      (.blanks, start + indent) := by
    induction indent generalizing start with
    | zero => rfl
    | succ indent ih =>
        rw [List.replicate_succ, List.foldl_cons, Line.marginStep, if_pos rfl, ih, Nat.add_right_comm,
          Nat.add_assoc]
  rw [Line.indentOf, count, Nat.zero_add]

theorem outline_of_source {wrapper : Wrapper} (valid : wrapper.IsValid) :
    Outline.ofLines (Line.ofText wrapper.source.toList) =
      [.line (wrapper.classHeader ++ [colon])
        [.line (wrapper.methodHeader ++ [colon]) [.line wrapper.statement []]]] := by
  have grouped {trees : List Tree} {text : List Char} (writes : Writes trees text) :
      Tree.ofTokens? (Line.ofTrees trees).tokens = some trees :=
    Tree.of_tokens_all_tokens writes.balanced
  have method : (Line.ofTrees (wrapper.methodHeader ++ [colon])).indent = wrapper.methodIndent :=
    indent_of_spaces wrapper.methodIndent
  have body : (Line.ofTrees wrapper.statement).indent = wrapper.bodyIndent :=
    indent_of_spaces wrapper.bodyIndent
  have class_ : (Line.ofTrees (wrapper.classHeader ++ [colon])).indent = 0 := rfl
  have opens (trees : List Tree) : Outline.opensBlock (trees ++ [colon]) = true := by
    simp [Outline.opensBlock, colon, Tree.isSymbol, Token.isSymbol, token]
  rw [lines_of_source valid, Outline.ofLines]
  simp only [List.filterMap_cons, List.filterMap_nil, grouped (class_writes valid),
    grouped (method_writes valid), grouped (statement_writes valid), Option.map_some, class_, method,
    body, List.length_cons, List.length_nil]
  have indented := valid.indented
  have nested := valid.nested
  simp [Outline.block, opens, indented, nested]

def methodNode (wrapper : Wrapper) : Node :=
  .node (.functionDef wrapper.methodHeader) [.node .block [.node (.simple wrapper.statement) []]]

def classNode (wrapper : Wrapper) : Node :=
  .node (.classDef wrapper.classHeader) [.node .block [wrapper.methodNode]]

theorem split_header {header : List Tree} (plain : Tree.Plain ":" header) :
    Node.splitHeader (header ++ [colon]) = (header, []) := by
  rw [Node.splitHeader, Tree.cut_once_plain_append plain rfl]
  rfl

theorem class_header_plain {wrapper : Wrapper} (valid : wrapper.IsValid) :
    Tree.Plain ":" wrapper.classHeader := by
  have noLambda := name_not_lambda valid.className [' ']
  exact Tree.plain_cons.mpr ⟨⟨rfl, rfl⟩, Tree.plain_cons.mpr ⟨⟨rfl, noLambda⟩, Tree.plain_nil⟩⟩

theorem method_header_plain (wrapper : Wrapper) : Tree.Plain ":" wrapper.methodHeader :=
  Tree.plain_cons.mpr ⟨⟨rfl, rfl⟩, Tree.plain_cons.mpr ⟨⟨rfl, rfl⟩,
    Tree.plain_cons.mpr ⟨⟨rfl, rfl⟩, Tree.plain_nil⟩⟩⟩

theorem statement_plain (wrapper : Wrapper) : Tree.Plain ";" wrapper.statement :=
  Tree.plain_cons.mpr ⟨⟨rfl, rfl⟩, Tree.plain_cons.mpr ⟨⟨rfl, rfl⟩,
    Tree.plain_cons.mpr ⟨⟨rfl, rfl⟩, Tree.plain_nil⟩⟩⟩

theorem read_class_line {wrapper : Wrapper} (valid : wrapper.IsValid) (below : List Node) :
    Node.readLine false (wrapper.classHeader ++ [colon]) below =
      .definition (.node (.classDef wrapper.classHeader) [.node .block below]) := by
  unfold Node.readLine
  rw [split_header (class_header_plain valid)]
  rfl

theorem read_method_line (wrapper : Wrapper) (below : List Node) :
    Node.readLine false (wrapper.methodHeader ++ [colon]) below =
      .definition (.node (.functionDef wrapper.methodHeader) [.node .block below]) := by
  unfold Node.readLine
  rw [split_header (method_header_plain wrapper)]
  rfl

theorem read_statement (wrapper : Wrapper) :
    Node.readLine false wrapper.statement [] =
      .statements [.node (.simple wrapper.statement) []] := by
  have simple : Node.simpleNodes wrapper.statement = [.node (.simple wrapper.statement) []] := by
    rw [Node.simpleNodes, Tree.cut_plain (statement_plain wrapper)]
    rfl
  have read : Node.readLine false wrapper.statement [] =
      .statements (Node.simpleNodes wrapper.statement ++ []) := rfl
  rw [read, simple]
  rfl

theorem tree_of_source {wrapper : Wrapper} (valid : wrapper.IsValid) :
    Node.ofText wrapper.source.toList = .node .module [wrapper.classNode] := by
  have noClassMatch : Node.isMatch (wrapper.classHeader ++ [colon]) = false := rfl
  have noMethodMatch : Node.isMatch (wrapper.methodHeader ++ [colon]) = false := rfl
  rw [Node.ofText, outline_of_source valid]
  simp only [Node.ofOutlines, Node.ofOutline, noClassMatch, noMethodMatch, Node.join, List.foldl_nil,
    List.reverse_nil, read_statement, List.foldl_cons, Node.add, List.append_nil,
    List.reverse_singleton, read_method_line, read_class_line valid, Bool.false_eq_true, if_false]
  rfl

end Wrapper

end TaskCab
