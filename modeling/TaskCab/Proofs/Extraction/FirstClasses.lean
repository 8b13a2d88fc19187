import TaskCab.Proofs.Source.LevelOrder
import TaskCab.Task

/-!
# The classes that make a task

The first class of a source documents the task, and the first class with a call method of its own gives
everything else. First means the least depth in the tree of the source and, at that depth, the leftmost
place; what surrounds a class, or stands in one, does not matter.
-/

namespace TaskCab

open TaskCab.Source

namespace Source.Node

/-- Whether some nodes are the classes of a tree, each of them once and in the order of their addresses. -/
def AreClasses (root : Node) (classes : List Node) : Prop :=
  ∃ addresses : List (List Nat), addresses.map (at? root) = classes.map some ∧
    addresses.Pairwise Precedes ∧
    ∀ address, address ∈ addresses ↔ ∃ class_, at? root address = some class_ ∧ isClass class_ = true

theorem are_classes (root : Node) : AreClasses root root.classes :=
  ⟨classAddresses root, classes_at_addresses root, class_addresses_ordered root,
    fun _ => mem_class_addresses⟩

/-- Whether a node is the first of the classes of a tree that satisfy a condition. -/
def IsFirstClass (root : Node) (holds : Node → Prop) (first : Node) : Prop :=
  ∃ address, at? root address = some first ∧ isClass first = true ∧ holds first ∧
    ∀ other class_, at? root other = some class_ → isClass class_ = true → holds class_ →
      other = address ∨ Precedes address other

def HasClass (root : Node) (holds : Node → Prop) : Prop :=
  ∃ address class_, at? root address = some class_ ∧ isClass class_ = true ∧ holds class_

variable {root class_ : Node} {holds : Node → Prop}

theorem first_class_of_split {before after : List Node} (split : root.classes = before ++ class_ :: after)
    (own : holds class_) (earlier : ∀ other ∈ before, ¬holds other) : IsFirstClass root holds class_ := by
  obtain ⟨addresses, nodes, ordered, complete⟩ := are_classes root
  rw [split, List.map_append, List.map_cons] at nodes
  obtain ⟨front, rest, rfl, frontNodes, restNodes⟩ := List.map_eq_append_iff.mp nodes
  obtain ⟨address, back, rfl, here, -⟩ := List.map_eq_cons_iff.mp restNodes
  obtain ⟨found, reached, kind⟩ := (complete address).mp (by simp)
  obtain rfl : class_ = found := Option.some.inj (here.symm.trans reached)
  refine ⟨address, here, kind, own, fun other node atOther isOther holdsOther => ?_⟩
  have listed := (complete other).mpr ⟨node, atOther, isOther⟩
  rcases List.mem_append.mp listed with inFront | inRest
  · have inBefore : some node ∈ before.map some := by
      rw [← frontNodes, ← atOther]
      exact List.mem_map_of_mem inFront
    exact absurd holdsOther (earlier node (by simpa using inBefore))
  · rcases List.mem_cons.mp inRest with same | behind
    · exact .inl same
    · exact .inr (List.rel_of_pairwise_cons (List.pairwise_append.mp ordered).2.1 behind)

theorem has_class_iff : HasClass root holds ↔ ∃ class_ ∈ root.classes, holds class_ := by
  obtain ⟨addresses, nodes, -, complete⟩ := are_classes root
  constructor
  · rintro ⟨address, class_, reached, kind, own⟩
    have listed := List.mem_map_of_mem (f := at? root) ((complete address).mpr ⟨class_, reached, kind⟩)
    rw [nodes, reached] at listed
    exact ⟨class_, by simpa using listed, own⟩
  · rintro ⟨class_, member, own⟩
    have listed : some class_ ∈ addresses.map (at? root) := by
      rw [nodes]
      exact List.mem_map_of_mem member
    obtain ⟨address, inAddresses, reached⟩ := List.mem_map.mp listed
    obtain ⟨found, same, kind⟩ := (complete address).mp inAddresses
    obtain rfl : class_ = found := Option.some.inj (reached.symm.trans same)
    exact ⟨address, class_, reached, kind, own⟩

end Source.Node

namespace Task

/-! ## Call methods -/

inductive DefinesCall : Node → List Tree → Node → Prop
  | plain {header : List Tree} {children : List Node} (named : headerName? header = some methodName) :
      DefinesCall (.node (.functionDef header) children) header (.node (.functionDef header) children)
  | decorated {header : List Tree} {children : List Node}
      (named : headerName? header = some methodName) :
      DefinesCall (.node .decorated [.node (.functionDef header) children]) header
        (.node (.functionDef header) children)

/-- Whether the first call method that a class defines in its own body is this one. -/
def IsCallMethod (class_ : Node) (header : List Tree) (method : Node) : Prop :=
  ∃ before statement after, body class_ = before ++ statement :: after ∧
    DefinesCall statement header method ∧
    ∀ earlier ∈ before, ∀ otherHeader other, ¬DefinesCall earlier otherHeader other

def DefinesOwnCall (class_ : Node) : Prop := ∃ header method, IsCallMethod class_ header method

variable {class_ statement method : Node} {header : List Tree}

theorem call_method_iff : callMethod? statement = some (header, method) ↔
    DefinesCall statement header method := by
  constructor
  · intro found
    unfold callMethod? at found
    split at found
    · split at found
      next named =>
        obtain ⟨rfl, rfl⟩ := Prod.mk.inj (Option.some.inj found)
        exact .plain named
      next => simp at found
    · split at found
      next named =>
        obtain ⟨rfl, rfl⟩ := Prod.mk.inj (Option.some.inj found)
        exact .decorated named
      next => simp at found
    · simp at found
  · rintro (named | named)
    · rw [callMethod?, if_pos named]
    · rw [callMethod?, if_pos named]

theorem call_method_none_iff : callMethod? statement = none ↔
    ∀ header method, ¬DefinesCall statement header method := by
  rw [Option.eq_none_iff_forall_ne_some, Prod.forall]
  exact forall₂_congr fun header method => not_congr call_method_iff

theorem find_call_method_iff : findCallMethod? class_ = some (header, method) ↔
    IsCallMethod class_ header method := by
  unfold findCallMethod? IsCallMethod
  simp only [List.findSome?_eq_some_iff, call_method_iff, call_method_none_iff]

/-! ## The parts of a task -/

/-- The text of the docstring of a class; empty where there is none. -/
def classDocumentation (class_ : Node) : String :=
  String.ofList (((classDocstring? class_).map Docstring.clean).getD [])

/-- Whether everything but the docstring of a task is that of a class with its call method. -/
structure IsFrom (task : Task) (class_ : Node) (header : List Tree) (method : Node) : Prop where
  className : task.className = classHeaderName? class_
  parameters : task.parameters = signature header
  schema : task.schema = schemaOf (body method)
  hasOutputs : task.hasOutputs = Node.anyReturnsValue (body method)

def IsBare (task : Task) : Prop := task = { empty with docstring := task.docstring }

theorem docstring_of_first_class (source : List Char) :
    (∃ class_, (Node.ofText source).IsFirstClass (fun _ => True) class_ ∧
        (ofSource source).docstring = classDocumentation class_) ∨
      ¬(Node.ofText source).HasClass (fun _ => True) ∧ (ofSource source).docstring = "" := by
  have docstring : (ofSource source).docstring = documentation (Node.ofText source).classes := by
    unfold ofSource
    dsimp only
    split <;> rfl
  rw [docstring]
  cases classes : (Node.ofText source).classes with
  | nil =>
      refine .inr ⟨fun has => ?_, rfl⟩
      obtain ⟨class_, member, -⟩ := Node.has_class_iff.mp has
      simp [classes] at member
  | cons first rest =>
      have split : (Node.ofText source).classes = [] ++ first :: rest := classes
      exact .inl ⟨first, Node.first_class_of_split split trivial (by simp), rfl⟩

theorem rest_of_first_call (source : List Char) :
    (∃ class_ header method, (Node.ofText source).IsFirstClass DefinesOwnCall class_ ∧
        IsCallMethod class_ header method ∧ (ofSource source).IsFrom class_ header method) ∨
      ¬(Node.ofText source).HasClass DefinesOwnCall ∧ (ofSource source).IsBare := by
  cases found : owner? (Node.ofText source).classes with
  | none =>
      refine .inr ⟨fun has => ?_, by simp [IsBare, ofSource, found]⟩
      obtain ⟨class_, member, header, method, isCall⟩ := Node.has_class_iff.mp has
      have absent := List.findSome?_eq_none_iff.mp found class_ member
      rw [find_call_method_iff.mpr isCall] at absent
      simp at absent
  | some owner =>
      obtain ⟨class_, header, method⟩ := owner
      obtain ⟨before, owning, after, split, isOwner, earlier⟩ := List.findSome?_eq_some_iff.mp found
      obtain ⟨call, isCall, same⟩ := Option.map_eq_some_iff.mp isOwner
      obtain ⟨rfl, rfl⟩ := Prod.mk.inj same
      have isCall := find_call_method_iff.mp isCall
      have noCall : ∀ other ∈ before, ¬DefinesOwnCall other := by
        rintro other member ⟨otherHeader, otherMethod, isOther⟩
        have absent := earlier other member
        rw [find_call_method_iff.mpr isOther] at absent
        simp at absent
      have first := Node.first_class_of_split split ⟨_, _, isCall⟩ noCall
      refine .inl ⟨owning, header, method, first, isCall, ?_⟩
      constructor <;> simp [ofSource, found]

/-- The search for classes lists the classes of every tree in level order, as a search with a queue does.
The docstring of a task is that of the first class of its source, and everything else comes from the first
class that defines a call method of its own. -/
theorem task_of_first_classes :
    (∀ root : Node, Node.searchQueue root.size [root] = root.classes ∧ root.AreClasses root.classes) ∧
      ∀ source : List Char,
        ((∃ class_, (Node.ofText source).IsFirstClass (fun _ => True) class_ ∧
            (ofSource source).docstring = classDocumentation class_) ∨
          ¬(Node.ofText source).HasClass (fun _ => True) ∧ (ofSource source).docstring = "") ∧
        ((∃ class_ header method, (Node.ofText source).IsFirstClass DefinesOwnCall class_ ∧
            IsCallMethod class_ header method ∧ (ofSource source).IsFrom class_ header method) ∨
          ¬(Node.ofText source).HasClass DefinesOwnCall ∧ (ofSource source).IsBare) :=
  ⟨fun root => ⟨Node.search_classes root, Node.are_classes root⟩,
    fun source => ⟨docstring_of_first_class source, rest_of_first_call source⟩⟩

/-- A decorated class stands one level below its decorators, and so below the class next to it; it has the
first call method, in front of that of the inner class. -/
def layeredSource : String :=
  "@d\nclass A:\n 'a'\n def __call__(s,x):\n  return x\nclass B:\n 'b'\n class C:\n  def __call__(s,y):\n   pass\n"

example : (ofSource layeredSource.toList).docstring = "b" ∧
    (ofSource layeredSource.toList).className = some "A" := by decide +kernel

end Task

end TaskCab
