import Mathlib.Data.List.Basic
import TaskCab.Extraction

/-!
# Outputs and returned values

A document has outputs exactly if a return with a value stands anywhere in the body of the call method.
Those of functions and classes inside the body count as well, so that a method that returns nothing itself
can have outputs.
-/

namespace TaskCab

open TaskCab.Source

namespace Source.Node

/-- Whether a node is among some nodes or below them, on a way through nodes of one kind only. -/
inductive Reaches (through : Node → Prop) : List Node → Node → Prop
  | here {nodes : List Node} {found : Node} (member : found ∈ nodes) : Reaches through nodes found
  | deeper {nodes : List Node} {parent found : Node} (member : parent ∈ nodes) (passed : through parent)
      (reached : Reaches through parent.children found) : Reaches through nodes found

/-- A function or a class. What stands in it is not part of the body around it. -/
def isDefinition : Node → Bool
  | node (.functionDef _) _ | node (.classDef _) _ => true
  | _ => false

/-- Whether a node is a return with something behind the word. -/
def IsValueReturn (statement : Node) : Prop :=
  ∃ word value children, statement = node (.simple (word :: value)) children ∧
    Tree.isWord "return" word = true ∧ value ≠ []

def Returns (through : Node → Prop) (statements : List Node) : Prop :=
  ∃ statement, Reaches through statements statement ∧ IsValueReturn statement

/-- Whether some statements have a return with a value, in functions and classes inside them as well. -/
def ReturnsAnywhere (statements : List Node) : Prop := Returns (fun _ => True) statements

def ReturnsItself (statements : List Node) : Prop :=
  Returns (fun parent => isDefinition parent = false) statements

def ReturnsInside (statements : List Node) : Prop :=
  ∃ definition, Reaches (fun parent => isDefinition parent = false) statements definition ∧
    isDefinition definition = true ∧ ReturnsAnywhere definition.children

variable {through : Node → Prop} {first found : Node} {rest statements : List Node}

theorem not_reaches_nil : ¬Reaches through [] found := by
  rintro (member | ⟨member, -, -⟩)
  · exact List.not_mem_nil member
  · exact List.not_mem_nil member

theorem reaches_cons : Reaches through (first :: rest) found ↔
    found = first ∨ (through first ∧ Reaches through first.children found) ∨ Reaches through rest found := by
  constructor
  · rintro (member | ⟨member, passed, reached⟩)
    · rcases List.mem_cons.mp member with same | later
      · exact .inl same
      · exact .inr (.inr (.here later))
    · rcases List.mem_cons.mp member with rfl | later
      · exact .inr (.inl ⟨passed, reached⟩)
      · exact .inr (.inr (.deeper later passed reached))
  · rintro (rfl | ⟨passed, reached⟩ | later)
    · exact .here (.head _)
    · exact .deeper (.head _) passed reached
    · cases later with
      | here member => exact .here (.tail _ member)
      | deeper member passed reached => exact .deeper (.tail _ member) passed reached

/-- A value is returned by a first statement, by what is below it or by the statements after it. -/
theorem returns_cons : Returns through (first :: rest) ↔
    (IsValueReturn first ∨ through first ∧ Returns through first.children) ∨ Returns through rest := by
  simp only [Returns, reaches_cons, or_and_right, exists_or, exists_eq_left, and_assoc, exists_and_left]
  exact or_assoc.symm

theorem not_returns_nil : ¬Returns through [] := fun ⟨_, reached, _⟩ => not_reaches_nil reached

theorem is_return_iff {trees : List Tree} (below : List Node) :
    isReturn trees = true ↔ IsValueReturn (node (.simple trees) below) := by
  cases trees with
  | nil => simp [isReturn, IsValueReturn]
  | cons word value => simp [isReturn, startsWith, IsValueReturn, List.length_pos_iff]

mutual

theorem returns_value_iff (statement : Node) : returnsValue statement = true ↔
    IsValueReturn statement ∨ ReturnsAnywhere statement.children := by
  match statement with
  | node kind below =>
      have inner := any_returns_iff below
      cases kind with
      | simple trees =>
          rw [returnsValue, Bool.or_eq_true, is_return_iff, inner]
          rfl
      | module | block | clause | decorated | classDef | functionDef | compound =>
          simp [returnsValue, IsValueReturn, inner, children]

theorem any_returns_iff (statements : List Node) :
    anyReturnsValue statements = true ↔ ReturnsAnywhere statements := by
  match statements with
  | [] => simp [anyReturnsValue, ReturnsAnywhere, not_returns_nil]
  | first :: rest =>
      rw [anyReturnsValue, Bool.or_eq_true, returns_value_iff first, any_returns_iff rest,
        ReturnsAnywhere, ReturnsAnywhere, ReturnsAnywhere, returns_cons, true_and]

end

/-! ## Functions and classes inside a body -/

/-- A way to a node leads through no definition, or through a first one. -/
theorem reaches_iff_split : Reaches (fun _ => True) statements found ↔
    Reaches (fun parent => isDefinition parent = false) statements found ∨
      ∃ definition, Reaches (fun parent => isDefinition parent = false) statements definition ∧
        isDefinition definition = true ∧ Reaches (fun _ => True) definition.children found := by
  constructor
  · intro reached
    induction reached with
    | here member => exact .inl (.here member)
    | @deeper nodes parent found member _ further ih =>
        cases kind : isDefinition parent with
        | true => exact .inr ⟨parent, .here member, kind, further⟩
        | false =>
            rcases ih with own | ⟨definition, own, defines, inside⟩
            · exact .inl (.deeper member kind own)
            · exact .inr ⟨definition, .deeper member kind own, defines, inside⟩
  · rintro (own | ⟨definition, own, -, further⟩)
    · induction own with
      | here member => exact .here member
      | deeper member _ _ ih => exact .deeper member trivial ih
    · induction own with
      | here member => exact .deeper member trivial further
      | deeper member _ _ ih => exact .deeper member trivial (ih further)

theorem returns_anywhere_iff :
    ReturnsAnywhere statements ↔ ReturnsItself statements ∨ ReturnsInside statements := by
  constructor
  · rintro ⟨found, reached, isReturn⟩
    rcases reaches_iff_split.mp reached with own | ⟨definition, own, defines, inside⟩
    · exact .inl ⟨found, own, isReturn⟩
    · exact .inr ⟨definition, own, defines, found, inside, isReturn⟩
  · rintro (⟨found, own, isReturn⟩ | ⟨definition, own, defines, found, inside, isReturn⟩)
    · exact ⟨found, reaches_iff_split.mpr (.inl own), isReturn⟩
    · exact ⟨found, reaches_iff_split.mpr (.inr ⟨definition, own, defines, inside⟩), isReturn⟩

mutual

def returnsOwn : Node → Bool
  | node (.simple trees) children => isReturn trees || anyReturnsOwn children
  | node (.functionDef _) _ => false
  | node (.classDef _) _ => false
  | node _ children => anyReturnsOwn children

def anyReturnsOwn : List Node → Bool
  | [] => false
  | child :: rest => returnsOwn child || anyReturnsOwn rest

end

mutual

theorem returns_own_iff (statement : Node) : returnsOwn statement = true ↔
    IsValueReturn statement ∨ isDefinition statement = false ∧ ReturnsItself statement.children := by
  match statement with
  | node kind below =>
      have inner := any_returns_own_iff below
      cases kind with
      | simple trees =>
          rw [returnsOwn, Bool.or_eq_true, is_return_iff below, inner]
          simp [isDefinition, children]
      | classDef | functionDef => simp [returnsOwn, IsValueReturn, isDefinition]
      | module | block | clause | decorated | compound =>
          simp [returnsOwn, IsValueReturn, isDefinition, inner, children]

theorem any_returns_own_iff (statements : List Node) :
    anyReturnsOwn statements = true ↔ ReturnsItself statements := by
  match statements with
  | [] => simp [anyReturnsOwn, ReturnsItself, not_returns_nil]
  | first :: rest =>
      rw [anyReturnsOwn, Bool.or_eq_true, returns_own_iff first, any_returns_own_iff rest,
        ReturnsItself, ReturnsItself, ReturnsItself, returns_cons]

end

instance (statements : List Node) : Decidable (ReturnsItself statements) :=
  decidable_of_iff _ (any_returns_own_iff statements)

end Source.Node

namespace Extraction

open TaskCab.Task

/-- The document of a source has outputs exactly if its call method returns a value itself or has a function
or a class inside it with such a return. So they tell whether the method returns a value itself exactly if
no such function or class is inside one that does not. -/
theorem outputs_of_method {source : String} {class_ method : Node} {header : List Tree}
    (owner : owner? (Node.ofText source.toList).classes = some (class_, header, method))
    (cabName : String) :
    ((document cabName source).outputs.isSome = true ↔
        Node.ReturnsItself (body method) ∨ Node.ReturnsInside (body method)) ∧
      (((document cabName source).outputs.isSome = true ↔ Node.ReturnsItself (body method)) ↔
        (Node.ReturnsInside (body method) → Node.ReturnsItself (body method))) := by
  have outputs : (document cabName source).outputs.isSome = true ↔
      Node.ReturnsItself (body method) ∨ Node.ReturnsInside (body method) := by
    have given : (ofSource source.toList).hasOutputs = Node.anyReturnsValue (body method) := by
      simp [ofSource, owner]
    rw [← Node.returns_anywhere_iff, ← Node.any_returns_iff, document, given]
    cases Node.anyReturnsValue (body method) <;> simp
  refine ⟨outputs, ?_⟩
  rw [outputs]
  exact ⟨fun same inside => same.mp (.inr inside),
    fun covered => ⟨fun returns => returns.elim id covered, .inl⟩⟩

def helperSource : String := "class T:\n def __call__(s,x):\n  def f():\n   return x\n  f()\n"

/-- The outputs of the document are those of the function inside the method. -/
theorem outputs_of_helper :
    ∃ class_ header method, owner? (Node.ofText helperSource.toList).classes = some (class_, header, method) ∧
      (document "t" helperSource).outputs.isSome = true ∧
      Node.ReturnsInside (body method) ∧ ¬Node.ReturnsItself (body method) := by
  have owned : (owner? (Node.ofText helperSource.toList).classes).isSome = true := by decide +kernel
  have nothing : ∀ owner ∈ owner? (Node.ofText helperSource.toList).classes,
      ¬Node.ReturnsItself (body owner.2.2) := by decide +kernel
  obtain ⟨⟨class_, header, method⟩, owner⟩ := Option.isSome_iff_exists.mp owned
  have silent := nothing _ owner
  have outputs : (document "t" helperSource).outputs.isSome = true := by decide +kernel
  have returns := (outputs_of_method owner "t").1.mp outputs
  exact ⟨class_, header, method, owner, outputs, returns.resolve_left silent, silent⟩

end Extraction

end TaskCab
