import TaskCab.Files.Tree

/-!
# Files that are written one after the other

A file that is written changes its own place and no directory, so that paths lead where they led before.
After several writes a place holds the text of the last path that leads to it, and every other place
holds what it held. Making directories fills empty places and nothing else.
-/

namespace TaskCab.FileTree

theorem lookup_filter_ne {place other : Place} (different : other ≠ place)
    (nodes : List (Place × FileNode)) :
    (nodes.filter fun entry => entry.1 ≠ place).lookup other = nodes.lookup other := by
  induction nodes with
  | nil => rfl
  | cons entry rest ih =>
      obtain ⟨found, node⟩ := entry
      by_cases same : found = place
      · have notFound : (other == found) = false := by
          rw [same]
          exact beq_false_of_ne different
        simpa [same, List.lookup_cons, same ▸ notFound] using ih
      · rw [List.filter_cons_of_pos (by simpa using same), List.lookup_cons, List.lookup_cons, ih]

theorem node_put {place : Place} (nonempty : place ≠ []) (tree : FileTree) (node : FileNode)
    (other : Place) :
    (tree.put place node).node? other = if other = place then some node else tree.node? other := by
  by_cases same : other = place
  · simp [same, node?, put, nonempty]
  · have notFound : (other == place) = false := beq_false_of_ne same
    have later := lookup_filter_ne same tree.nodes
    simp only [node?, put, List.lookup_cons, notFound, later, if_neg same]

theorem ne_nil_of_not_directory {tree : FileTree} {place : Place}
    (notDirectory : tree.node? place ≠ some .directory) : place ≠ [] := by
  intro same
  rw [same] at notDirectory
  exact notDirectory rfl

/-! ## Where paths lead -/

/-- Whether two trees have the same directories, so that paths lead to the same places in both. -/
structure SameDirectories (left right : FileTree) : Prop where
  workingDirectory : left.workingDirectory = right.workingDirectory
  directory : ∀ place, left.node? place = some .directory ↔ right.node? place = some .directory

structure KeepsDirectories (left right : FileTree) : Prop where
  workingDirectory : left.workingDirectory = right.workingDirectory
  directory : ∀ place, left.node? place = some .directory → right.node? place = some .directory

theorem follow_of_keeps {left right : FileTree} (keeps : KeepsDirectories left right) (place : Place)
    {parts : List String} {target : Place} (leads : left.follow place parts = .ok target) :
    right.follow place parts = .ok target := by
  induction parts generalizing place with
  | nil => exact leads
  | cons part rest ih =>
      rw [follow] at leads
      split at leads
      next => simp at leads
      next => simp at leads
      next isDirectory =>
        rw [follow, keeps.directory place isDirectory]
        exact ih (move place part) leads

theorem place_of_keeps {left right : FileTree} (keeps : KeepsDirectories left right) {path : String}
    {target : Place} (leads : left.place path = .ok target) : right.place path = .ok target := by
  rw [place] at leads ⊢
  split at leads
  next => simp at leads
  next notEmpty =>
    rw [if_neg notEmpty]
    have start : right.start path = left.start path := by
      rw [start, start, keeps.workingDirectory]
    rw [start]
    exact follow_of_keeps keeps (left.start path) leads

theorem SameDirectories.keeps {left right : FileTree} (same : SameDirectories left right) :
    KeepsDirectories left right := ⟨same.workingDirectory, fun place => (same.directory place).mp⟩

theorem SameDirectories.symm {left right : FileTree} (same : SameDirectories left right) :
    SameDirectories right left := ⟨same.workingDirectory.symm, fun place => (same.directory place).symm⟩

theorem SameDirectories.trans {left middle right : FileTree} (first : SameDirectories left middle)
    (second : SameDirectories middle right) : SameDirectories left right :=
  ⟨first.workingDirectory.trans second.workingDirectory,
    fun place => (first.directory place).trans (second.directory place)⟩

theorem place_iff {left right : FileTree} (same : SameDirectories left right) (path : String)
    (target : Place) : left.place path = .ok target ↔ right.place path = .ok target :=
  ⟨place_of_keeps same.keeps, place_of_keeps same.symm.keeps⟩

def leads (tree : FileTree) (path : String) (target : Place) : Bool :=
  match tree.place path with
  | .ok found => found = target
  | .error _ => false

theorem leads_iff (tree : FileTree) (path : String) (target : Place) :
    tree.leads path target = true ↔ tree.place path = .ok target := by
  unfold leads
  split
  next found same => simp [same]
  next cause same => simp [same]

theorem leads_of_same {left right : FileTree} (same : SameDirectories left right) (path : String)
    (target : Place) : left.leads path target = right.leads path target := by
  rw [Bool.eq_iff_iff, leads_iff, leads_iff]
  exact place_iff same path target

/-! ## Reading -/

/-- Whether a path is that of a file with some content. -/
structure Holds (tree : FileTree) (path : String) (target : Place) (content : ByteArray) : Prop where
  leads : tree.place path = .ok target
  node : tree.node? target = some (.file content)
  noSlash : Path.endsInSlash path = false

theorem read_of_holds {tree : FileTree} {path : String} {target : Place} {content : ByteArray}
    (holds : tree.Holds path target content) : tree.read path = .ok content := by
  have found : tree.find path = .ok (.file content) := by
    simp [find, holds.leads, bind, Except.bind, holds.node, holds.noSlash]
  simp [read, found, bind, Except.bind]

theorem holds_of_read {tree : FileTree} {path : String} {content : ByteArray}
    (reads : tree.read path = .ok content) : ∃ target, tree.Holds path target content := by
  simp only [read, find, bind, Except.bind] at reads
  cases leads : tree.place path with
  | error cause => simp [leads] at reads
  | ok target =>
      rw [leads] at reads
      dsimp only at reads
      cases node : tree.node? target with
      | none => simp [node] at reads
      | some found =>
          cases found with
          | directory => simp [node] at reads
          | file bytes =>
              cases slash : Path.endsInSlash path with
              | true => simp [node, slash] at reads
              | false =>
                  simp only [node, slash, Bool.false_eq_true, if_false, Except.ok.injEq] at reads
                  exact ⟨target, leads, reads ▸ node, slash⟩

theorem read_of_is_file {tree : FileTree} {path : String} (isFile : tree.isFile path = true) :
    ∃ content, tree.read path = .ok content := by
  unfold FileTree.isFile at isFile
  split at isFile
  next content found => exact ⟨content, by simp [read, found, bind, Except.bind]⟩
  next => simp at isFile

/-! ## Writing -/

theorem write_cases {tree after : FileTree} {path : String} {content : ByteArray}
    (written : tree.write path content = .ok after) :
    ∃ target, tree.place path = .ok target ∧ tree.node? target ≠ some .directory ∧
      Path.endsInSlash path = false ∧ after = tree.put target (.file content) := by
  simp only [write, bind, Except.bind] at written
  cases leads : tree.place path with
  | error cause => simp [leads] at written
  | ok target =>
      rw [leads] at written
      dsimp only at written
      split at written
      next => simp at written
      next notDirectory =>
        cases slash : Path.endsInSlash path with
        | true => simp [slash] at written
        | false =>
            simp only [slash, Bool.false_eq_true, if_false, Except.ok.injEq] at written
            exact ⟨target, rfl, notDirectory, rfl, written.symm⟩

theorem node_write {tree after : FileTree} {path : String} {content : ByteArray}
    (written : tree.write path content = .ok after) (place : Place) :
    after.node? place =
      if tree.leads path place then some (.file content) else tree.node? place := by
  obtain ⟨target, leads, notDirectory, -, rfl⟩ := write_cases written
  rw [node_put (ne_nil_of_not_directory notDirectory)]
  by_cases same : place = target
  · rw [if_pos same, if_pos ((leads_iff tree path place).mpr (same ▸ leads))]
  · have elsewhere : tree.leads path place ≠ true := by
      rw [ne_eq, leads_iff, leads]
      intro found
      exact same (Except.ok.inj found).symm
    rw [if_neg same, if_neg elsewhere]

theorem same_directories_write {tree after : FileTree} {path : String} {content : ByteArray}
    (written : tree.write path content = .ok after) : SameDirectories tree after := by
  obtain ⟨target, leads, notDirectory, -, rfl⟩ := write_cases written
  refine ⟨rfl, ?_⟩
  intro place
  rw [node_put (ne_nil_of_not_directory notDirectory)]
  by_cases same : place = target
  · simp [same, notDirectory]
  · rw [if_neg same]

def writeAll (tree : FileTree) : List (String × String) → Except FileError FileTree
  | [] => .ok tree
  | (path, text) :: rest =>
      match tree.write path text.toUTF8 with
      | .ok after => after.writeAll rest
      | .error cause => .error cause

/-- The text of the last of some writes whose path leads to a place. -/
def lastText? (tree : FileTree) (place : Place) : List (String × String) → Option String
  | [] => none
  | (path, text) :: rest =>
      match tree.lastText? place rest with
      | some later => some later
      | none => if tree.leads path place then some text else none

theorem last_text_of_same {left right : FileTree} (same : SameDirectories left right) (place : Place)
    (writes : List (String × String)) : left.lastText? place writes = right.lastText? place writes := by
  induction writes with
  | nil => rfl
  | cons write rest ih => rw [lastText?, lastText?, ih, leads_of_same same]

theorem last_text_none_iff (tree : FileTree) (place : Place) (writes : List (String × String)) :
    tree.lastText? place writes = none ↔ ∀ write ∈ writes, tree.leads write.1 place = false := by
  induction writes with
  | nil => simp [lastText?]
  | cons write rest ih =>
      rw [List.forall_mem_cons, ← ih, lastText?]
      cases tree.lastText? place rest <;> cases tree.leads write.1 place <;> simp

theorem mem_of_last_text {tree : FileTree} {place : Place} {writes : List (String × String)}
    {text : String} (last : tree.lastText? place writes = some text) :
    ∃ write ∈ writes, write.2 = text ∧ tree.leads write.1 place = true := by
  induction writes with
  | nil => simp [lastText?] at last
  | cons write rest ih =>
      rw [lastText?] at last
      split at last
      next later found =>
        obtain ⟨other, inRest, same⟩ := ih (found.trans last)
        exact ⟨other, .tail _ inRest, same⟩
      next =>
        split at last
        next leads => exact ⟨write, .head _, Option.some.inj last, leads⟩
        next => simp at last

/-- What several writes do together: no directory changes, every path leads to a file, and each place
holds the last text that was written there, or what it held before. -/
structure WritesAll (before after : FileTree) (writes : List (String × String)) : Prop where
  directories : SameDirectories before after
  leads : ∀ write ∈ writes, ∃ target, before.place write.1 = .ok target ∧
    Path.endsInSlash write.1 = false
  node : ∀ place, after.node? place =
    match before.lastText? place writes with
    | some text => some (.file text.toUTF8)
    | none => before.node? place

theorem write_all_cases {before after : FileTree} {writes : List (String × String)}
    (written : before.writeAll writes = .ok after) : WritesAll before after writes := by
  induction writes generalizing before with
  | nil =>
      obtain rfl := Except.ok.inj written
      exact ⟨⟨rfl, fun _ => Iff.rfl⟩, by simp, fun _ => rfl⟩
  | cons write rest ih =>
      obtain ⟨path, text⟩ := write
      rw [writeAll] at written
      split at written
      next between first =>
        have later := ih written
        have same := same_directories_write first
        refine ⟨same.trans later.directories, ?_, ?_⟩
        · intro other member
          rcases List.mem_cons.mp member with rfl | inRest
          · obtain ⟨target, leads, -, noSlash, -⟩ := write_cases first
            exact ⟨target, leads, noSlash⟩
          · obtain ⟨target, leads, noSlash⟩ := later.leads other inRest
            exact ⟨target, (place_iff same other.1 target).mpr leads, noSlash⟩
        · intro place
          rw [later.node place, ← last_text_of_same same place rest, lastText?]
          cases before.lastText? place rest with
          | some last => rfl
          | none =>
              dsimp only
              rw [node_write first place]
              split <;> rfl
      next => simp at written

theorem read_written {before after : FileTree} {writes : List (String × String)}
    (written : WritesAll before after writes) {path : String} {target : Place}
    (leads : before.place path = .ok target) (noSlash : Path.endsInSlash path = false)
    {text : String} (last : before.lastText? target writes = some text) :
    after.read path = .ok text.toUTF8 := by
  apply read_of_holds
  refine ⟨(place_iff written.directories path target).mp leads, ?_, noSlash⟩
  rw [written.node target, last]

theorem read_unwritten {before after : FileTree} {writes : List (String × String)}
    (written : WritesAll before after writes) {path : String} {target : Place} {content : ByteArray}
    (holds : before.Holds path target content) (untouched : before.lastText? target writes = none) :
    after.read path = .ok content := by
  apply read_of_holds
  refine ⟨(place_iff written.directories path target).mp holds.leads, ?_, holds.noSlash⟩
  rw [written.node target, untouched]
  exact holds.node

/-- Where writes lead to different places, each place holds its own text. -/
theorem last_text_of_apart {tree : FileTree} {writes : List (String × String)}
    (apart : writes.Pairwise fun first second => tree.place first.1 ≠ tree.place second.1)
    {write : String × String} (member : write ∈ writes) {target : Place}
    (leads : tree.place write.1 = .ok target) : tree.lastText? target writes = some write.2 := by
  induction writes with
  | nil => simp at member
  | cons first rest ih =>
      obtain ⟨firstApart, restApart⟩ := List.pairwise_cons.mp apart
      rw [lastText?]
      rcases List.mem_cons.mp member with rfl | inRest
      · have later : tree.lastText? target rest = none := by
          rw [last_text_none_iff]
          intro other inRest
          rw [Bool.eq_false_iff, ne_eq, leads_iff, ← leads]
          exact (firstApart other inRest).symm
        rw [later]
        exact if_pos ((leads_iff tree write.1 target).mpr leads)
      · rw [ih restApart inRest]

/-! ## Making directories -/

/-- Whether a tree has directories where another has nothing, and is the same elsewhere. -/
structure AddsDirectories (before after : FileTree) : Prop where
  workingDirectory : before.workingDirectory = after.workingDirectory
  node : ∀ place, after.node? place = before.node? place ∨
    (before.node? place = none ∧ after.node? place = some .directory)

theorem AddsDirectories.refl (tree : FileTree) : AddsDirectories tree tree :=
  ⟨rfl, fun _ => .inl rfl⟩

theorem AddsDirectories.trans {before middle after : FileTree} (first : AddsDirectories before middle)
    (second : AddsDirectories middle after) : AddsDirectories before after := by
  refine ⟨first.workingDirectory.trans second.workingDirectory, ?_⟩
  intro place
  rcases second.node place with same | ⟨absent, made⟩
  · rw [same]
    exact first.node place
  · rcases first.node place with same | ⟨-, filled⟩
    · exact .inr ⟨same ▸ absent, made⟩
    · simp [filled] at absent

theorem AddsDirectories.keeps {before after : FileTree} (adds : AddsDirectories before after) :
    KeepsDirectories before after := by
  refine ⟨adds.workingDirectory, ?_⟩
  intro place isDirectory
  rcases adds.node place with same | ⟨absent, -⟩
  · exact same.trans isDirectory
  · simp [isDirectory] at absent

theorem holds_of_adds {before after : FileTree} (adds : AddsDirectories before after) {path : String}
    {target : Place} {content : ByteArray} (holds : before.Holds path target content) :
    after.Holds path target content := by
  refine ⟨place_of_keeps adds.keeps holds.leads, ?_, holds.noSlash⟩
  rcases adds.node target with same | ⟨absent, -⟩
  · exact same.trans holds.node
  · simp [holds.node] at absent

theorem adds_make_at {tree after : FileTree} {place : Place} (made : tree.makeAt place = .ok after) :
    AddsDirectories tree after := by
  unfold makeAt at made
  split at made
  next => simp at made
  next absent =>
    obtain rfl := Except.ok.inj made
    have notDirectory : tree.node? place ≠ some .directory := by simp [absent]
    have nonempty := ne_nil_of_not_directory notDirectory
    refine ⟨rfl, ?_⟩
    intro other
    rw [node_put nonempty]
    by_cases same : other = place
    · rw [if_pos same, same]
      exact .inr ⟨absent, rfl⟩
    · rw [if_neg same]
      exact .inl rfl

theorem adds_ensure {tree after : FileTree} {start : Place} {parts : List String}
    (ensured : tree.ensure start parts = .ok after) : AddsDirectories tree after := by
  simp only [ensure, bind, Except.bind] at ensured
  split at ensured
  next => simp at ensured
  next place _ =>
    unfold orPresent at ensured
    split at ensured
    next =>
      obtain rfl := Except.ok.inj ensured
      exact .refl tree
    next => exact adds_make_at ensured

theorem adds_ensure_all {ancestors : List (List String)} {tree after : FileTree} {start : Place}
    (ensured : ancestors.foldlM (fun made parts => made.ensure start parts) tree = .ok after) :
    AddsDirectories tree after := by
  induction ancestors generalizing tree with
  | nil =>
      obtain rfl := Except.ok.inj ensured
      exact .refl tree
  | cons parts rest ih =>
      simp only [List.foldlM_cons, bind, Except.bind] at ensured
      split at ensured
      next => simp at ensured
      next between first => exact (adds_ensure first).trans (ih ensured)

/-- Making a directory and those around it changes no place where something stood. -/
theorem adds_create_directories {tree after : FileTree} {path : String}
    (created : tree.createDirectories path = .ok after) : AddsDirectories tree after := by
  unfold createDirectories at created
  split at created
  next =>
    obtain rfl := Except.ok.inj created
    exact .refl tree
  next =>
    dsimp only at created
    split at created
    next =>
      simp only [bind, Except.bind] at created
      split at created
      next => simp at created
      next between ancestors => exact (adds_ensure_all ancestors).trans (adds_ensure created)
    next => exact adds_ensure created

end TaskCab.FileTree
