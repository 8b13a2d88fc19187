import Mathlib.Data.List.Basic
import TaskCab.Source.Statement

/-!
# Level order

The address of a node says which child to take at each step from the root. The classes of a tree come in
the order of their addresses, shorter ones first, and each of them once. A search that takes nodes from the
front of a queue and puts their children at its end meets them in the same order.
-/

namespace TaskCab.Source.Node

/-! ## Addresses -/

def at? : Node → List Nat → Option Node
  | root, [] => some root
  | root, place :: rest => root.children[place]?.bind fun child => at? child rest

/-- The order of addresses: by depth, and from left to right at the same depth. -/
def Precedes (address other : List Nat) : Prop :=
  address.length < other.length ∨ address.length = other.length ∧ address < other

def addressesAt : Nat → Node → List (List Nat)
  | 0, _ => [[]]
  | level + 1, root =>
      root.children.zipIdx.flatMap fun (child, place) => (addressesAt level child).map (place :: ·)

variable {root child found : Node} {address : List Nat} {level : Nat}

theorem at_cons {place : Nat} (isChild : root.children[place]? = some child) (rest : List Nat) :
    at? root (place :: rest) = at? child rest := by
  rw [at?, isChild, Option.bind_some]

theorem mem_addresses_at :
    address ∈ addressesAt level root ↔ address.length = level ∧ ∃ found, at? root address = some found := by
  induction level generalizing root address with
  | zero =>
      rw [addressesAt, List.mem_singleton, List.length_eq_zero_iff]
      constructor
      · rintro rfl
        exact ⟨rfl, root, rfl⟩
      · exact And.left
  | succ level ih =>
      simp only [addressesAt, List.mem_flatMap, List.mem_map]
      constructor
      · rintro ⟨⟨child, place⟩, inChildren, rest, inChild, rfl⟩
        have isChild := List.mem_zipIdx_iff_getElem?.mp inChildren
        obtain ⟨length, found⟩ := ih.mp inChild
        rw [at_cons isChild]
        exact ⟨by simp [length], found⟩
      · rintro ⟨length, found, reached⟩
        obtain ⟨place, rest, rfl⟩ := List.exists_cons_of_length_eq_add_one length
        obtain ⟨child, isChild, inChild⟩ := Option.bind_eq_some_iff.mp reached
        exact ⟨(child, place), List.mem_zipIdx_iff_getElem?.mpr isChild, rest,
          ih.mpr ⟨by simpa using length, found, inChild⟩, rfl⟩

/-- The addresses at a depth come from left to right. -/
theorem addresses_at_ordered (level : Nat) (root : Node) :
    (addressesAt level root).Pairwise (· < ·) := by
  induction level generalizing root with
  | zero => exact List.pairwise_singleton _ _
  | succ level ih =>
      have places : root.children.zipIdx.Pairwise fun left right => left.2 < right.2 := by
        rw [← List.pairwise_map, List.zipIdx_map_snd]
        exact List.pairwise_lt_range' 1
      refine List.pairwise_flatMap.mpr ⟨fun (child, place) _ => ?_, places.imp ?_⟩
      · refine List.pairwise_map.mpr ((ih child).imp fun before => ?_)
        exact List.cons_lt_cons_iff.mpr (.inr ⟨rfl, before⟩)
      · intro left right before address inLeft other inRight
        obtain ⟨rest, -, rfl⟩ := List.mem_map.mp inLeft
        obtain ⟨others, -, rfl⟩ := List.mem_map.mp inRight
        exact List.cons_lt_cons_iff.mpr (.inl before)

theorem depths_le_iff {nodes : List Node} {bound : Nat} :
    depths nodes ≤ bound ↔ ∀ child ∈ nodes, depth child ≤ bound := by
  induction nodes with
  | nil => simp [depths]
  | cons first rest ih => rw [depths, Nat.max_le, ih, List.forall_mem_cons]

/-- The depth of a tree bounds its addresses. -/
theorem length_lt_depth (reached : at? root address = some found) : address.length < depth root := by
  induction address generalizing root with
  | nil =>
      cases root
      simp [depth]
  | cons place rest ih =>
      obtain ⟨child, isChild, inChild⟩ := Option.bind_eq_some_iff.mp reached
      obtain ⟨kind, nodes⟩ := root
      have below := ih inChild
      have least : depth child ≤ depths nodes :=
        depths_le_iff.mp (Nat.le_refl _) child (List.mem_of_getElem? isChild)
      rw [List.length_cons, depth]
      omega

/-! ## Levels -/

def nodesAt : Nat → List Node → List Node
  | 0, nodes => nodes
  | level + 1, nodes => nodesAt level (nodes.flatMap children)

theorem nodes_at_append (level : Nat) (left right : List Node) :
    nodesAt level (left ++ right) = nodesAt level left ++ nodesAt level right := by
  induction level generalizing left right with
  | zero => rfl
  | succ level ih => rw [nodesAt, nodesAt, nodesAt, List.flatMap_append, ih]

theorem nodes_at_flat_map (level : Nat) (nodes : List Node) :
    nodesAt level nodes = nodes.flatMap fun child => nodesAt level [child] := by
  induction nodes with
  | nil =>
      rw [List.flatMap_nil]
      induction level with
      | zero => rfl
      | succ level ih => exact ih
  | cons first rest ih => rw [← List.singleton_append, nodes_at_append, ih, List.flatMap_append,
      List.flatMap_singleton]

/-- The nodes at a depth are those at its addresses. -/
theorem nodes_at_addresses (level : Nat) (root : Node) :
    (addressesAt level root).map (at? root) = (nodesAt level [root]).map some := by
  induction level generalizing root with
  | zero => rfl
  | succ level ih =>
      have below : ∀ entry ∈ root.children.zipIdx,
          ((addressesAt level entry.1).map (entry.2 :: ·)).map (at? root) =
            (nodesAt level [entry.1]).map some := by
        intro entry member
        have isChild := List.mem_zipIdx_iff_getElem?.mp member
        rw [List.map_map, ← ih]
        exact List.map_congr_left fun rest _ => at_cons isChild rest
      calc (addressesAt (level + 1) root).map (at? root)
          = root.children.zipIdx.flatMap fun entry =>
              ((addressesAt level entry.1).map (entry.2 :: ·)).map (at? root) := by
            rw [addressesAt, List.map_flatMap]
        _ = root.children.zipIdx.flatMap fun entry => (nodesAt level [entry.1]).map some :=
            List.flatMap_congr below
        _ = root.children.flatMap fun child => (nodesAt level [child]).map some := by
            conv_rhs => rw [← List.zipIdx_map_fst 0 root.children, List.flatMap_map]
        _ = (nodesAt (level + 1) [root]).map some := by
            rw [nodesAt, List.flatMap_singleton, nodes_at_flat_map level root.children,
              List.map_flatMap]

theorem classes_from_levels (levels : Nat) (nodes : List Node) :
    classesFrom levels nodes =
      (List.range levels).flatMap fun level => (nodesAt level nodes).filter isClass := by
  induction levels generalizing nodes with
  | zero => rfl
  | succ levels ih =>
      rw [classesFrom, ih, List.range_succ_eq_map, List.flatMap_cons, List.flatMap_map]
      rfl

/-! ## The addresses of the classes -/

def isClassAt (root : Node) (address : List Nat) : Bool := (at? root address).any isClass

/-- The addresses of the classes of a tree, level by level. -/
def classAddresses (root : Node) : List (List Nat) :=
  (List.range root.depth).flatMap fun level => (addressesAt level root).filter (isClassAt root)

theorem classes_at_addresses (root : Node) :
    (classAddresses root).map (at? root) = root.classes.map some := by
  have level (level : Nat) : ((addressesAt level root).filter (isClassAt root)).map (at? root) =
      ((nodesAt level [root]).filter isClass).map some := by
    have onSome : (Option.any isClass) ∘ some = isClass := rfl
    have onAddress : (Option.any isClass) ∘ at? root = isClassAt root := rfl
    rw [← onAddress, ← List.filter_map, nodes_at_addresses, List.filter_map, onSome]
  rw [classes, classes_from_levels, classAddresses, List.map_flatMap, List.map_flatMap]
  exact List.flatMap_congr fun depth _ => level depth

theorem mem_class_addresses : address ∈ classAddresses root ↔
    ∃ class_, at? root address = some class_ ∧ isClass class_ = true := by
  simp only [classAddresses, List.mem_flatMap, List.mem_filter, mem_addresses_at, isClassAt,
    Option.any_eq_true, List.mem_range]
  constructor
  · rintro ⟨-, -, -, found⟩
    exact found
  · rintro ⟨class_, reached, kind⟩
    exact ⟨_, length_lt_depth reached, ⟨rfl, class_, reached⟩, class_, reached, kind⟩

theorem class_addresses_ordered (root : Node) : (classAddresses root).Pairwise Precedes := by
  refine List.pairwise_flatMap.mpr ⟨fun level _ => ?_, List.pairwise_lt_range.imp ?_⟩
  · refine List.Pairwise.filter _ ((addresses_at_ordered level root).imp_of_mem ?_)
    intro address other inLevel otherInLevel before
    rw [(mem_addresses_at.mp inLevel).1.symm] at otherInLevel
    exact .inr ⟨(mem_addresses_at.mp otherInLevel).1.symm, before⟩
  · intro level deeper above address inLevel other inDeeper
    have length := (mem_addresses_at.mp (List.mem_filter.mp inLevel).1).1
    have otherLength := (mem_addresses_at.mp (List.mem_filter.mp inDeeper).1).1
    exact .inl (by omega)

/-! ## The search with a queue -/

mutual

def size : Node → Nat
  | node _ children => totalSize children + 1

def totalSize : List Node → Nat
  | [] => 0
  | child :: rest => size child + totalSize rest

end

/-- The classes that a search meets: it takes the node at the front of the queue and puts the children of
that node at the end. Each node costs one unit of fuel. -/
def searchQueue : Nat → List Node → List Node
  | 0, _ => []
  | _ + 1, [] => []
  | fuel + 1, next :: queue =>
      let later := searchQueue fuel (queue ++ next.children)
      if isClass next then next :: later else later

theorem search_nil (fuel : Nat) : searchQueue fuel [] = [] := by
  cases fuel <;> rfl

/-- The queue holds the rest of a level and, behind it, the children of the part that was taken. When the
rest has been taken as well, it holds the next level. -/
theorem search_level (fuel : Nat) (rest next : List Node) :
    searchQueue (rest.length + fuel) (rest ++ next) =
      rest.filter isClass ++ searchQueue fuel (next ++ rest.flatMap children) := by
  induction rest generalizing next with
  | nil => simp
  | cons first rest ih =>
      have step : (first :: rest).length + fuel = rest.length + fuel + 1 := by
        rw [List.length_cons]
        omega
      rw [step, List.cons_append, searchQueue, List.append_assoc, ih (next ++ first.children),
        List.flatMap_cons, List.append_assoc, List.filter_cons]
      split <;> rfl

theorem total_size_append (left right : List Node) :
    totalSize (left ++ right) = totalSize left + totalSize right := by
  induction left with
  | nil => simp [totalSize]
  | cons first rest ih =>
      rw [List.cons_append, totalSize, totalSize, ih]
      omega

/-- A level and what is below it. -/
theorem total_size_level (nodes : List Node) :
    totalSize nodes = nodes.length + totalSize (nodes.flatMap children) := by
  induction nodes with
  | nil => simp [totalSize]
  | cons first rest ih =>
      obtain ⟨kind, below⟩ := first
      rw [totalSize, size, ih, List.flatMap_cons, total_size_append, List.length_cons, children]
      omega

theorem depths_level {levels : Nat} {nodes : List Node} (bound : depths nodes ≤ levels + 1) :
    depths (nodes.flatMap children) ≤ levels := by
  refine depths_le_iff.mpr fun child inLevel => ?_
  obtain ⟨⟨kind, below⟩, member, isChild⟩ := List.mem_flatMap.mp inLevel
  have parent := depths_le_iff.mp bound _ member
  rw [depth] at parent
  exact depths_le_iff.mp (Nat.le_of_succ_le_succ parent) child isChild

/-- With fuel for every node the search meets the classes level by level. -/
theorem search_levels {levels fuel : Nat} {nodes : List Node} (deep : depths nodes ≤ levels)
    (enough : totalSize nodes ≤ fuel) : searchQueue fuel nodes = classesFrom levels nodes := by
  induction levels generalizing fuel nodes with
  | zero =>
      have none : nodes = [] := by
        cases nodes with
        | nil => rfl
        | cons first rest =>
            obtain ⟨kind, below⟩ := first
            simp [depths, depth] at deep
      rw [none, search_nil, classesFrom]
  | succ levels ih =>
      have sizes := total_size_level nodes
      obtain ⟨spare, rfl⟩ : ∃ spare, fuel = nodes.length + spare :=
        ⟨fuel - nodes.length, by omega⟩
      have level := search_level spare nodes []
      rw [List.append_nil, List.nil_append] at level
      rw [level, classesFrom, ih (depths_level deep) (by omega)]

theorem search_classes (root : Node) : searchQueue root.size [root] = root.classes :=
  search_levels (by simp [depths]) (by simp [totalSize])

end TaskCab.Source.Node
