import TaskCab.Extraction
import TaskCab.Proofs.Entries

/-!
# The signals of an input

The record of an input is made of three signals: the default of the last parameter of its name, what the
docstring says about the name, and the type that the schema declares for it. Nothing that is said of
other names reaches it, and the order of the documentation and of the schema does not matter.
-/

namespace TaskCab.Extraction

open TaskCab.Docstring

variable {name : String} {task other : Task} {docs others : List (String × ParameterDoc)}

def lastParameter? (name : String) (parameters : List Parameter) : Option Parameter :=
  (parameters.filter fun parameter => parameter.name = name).getLast?

/-- The record of an input with its three signals. -/
def record (name : String) (default : Option String) (doc : Option ParameterDoc) (type : String) :
    InputRecord :=
  let doc := doc.getD .empty
  .make (Dtype.infer type name doc.info).name (resolveDefault doc.default default) doc.info

theorem input_record_eq (task : Task) (docs : List (String × ParameterDoc)) (parameter : Parameter) :
    inputRecord task docs parameter =
      record parameter.name parameter.default (Entries.get? parameter.name docs)
        (task.declaredType parameter.name) := rfl

theorem name_of_last {parameters : List Parameter} {parameter : Parameter}
    (last : lastParameter? name parameters = some parameter) : parameter.name = name := by
  have member := List.mem_filter.mp (List.mem_of_getLast? last)
  simpa using member.2

theorem keys_inputs (task : Task) (docs : List (String × ParameterDoc)) :
    Entries.keys (inputs task docs) = (task.parameters.map Parameter.name).eraseDups := by
  rw [inputs, Entries.keys_of_list, Entries.keys, List.map_map]
  rfl

theorem get_inputs (name : String) (task : Task) (docs : List (String × ParameterDoc)) :
    Entries.get? name (inputs task docs) =
      (lastParameter? name task.parameters).map fun parameter =>
        record name parameter.default (Entries.get? name docs) (task.declaredType name) := by
  rw [inputs, Entries.get_of_list, List.filter_map, List.getLast?_map, Option.map_map]
  change (lastParameter? name task.parameters).map _ = _
  cases last : lastParameter? name task.parameters with
  | none => rfl
  | some parameter =>
      rw [Option.map_some, Option.map_some, Function.comp_apply, input_record_eq, name_of_last last]

/-! ## Runs that agree on a name -/

/-- Whether two runs are given the same signals of a name, whatever they are given besides. -/
structure Agree (name : String) (task other : Task) (docs others : List (String × ParameterDoc)) :
    Prop where
  default : (lastParameter? name task.parameters).map Parameter.default =
    (lastParameter? name other.parameters).map Parameter.default
  doc : Entries.get? name docs = Entries.get? name others
  type : task.declaredType name = other.declaredType name

theorem get_inputs_of_agree (agree : Agree name task other docs others) :
    Entries.get? name (inputs task docs) = Entries.get? name (inputs other others) := by
  have made (task : Task) (docs : List (String × ParameterDoc)) :
      Entries.get? name (inputs task docs) =
        ((lastParameter? name task.parameters).map Parameter.default).map fun default =>
          record name default (Entries.get? name docs) (task.declaredType name) := by
    rw [get_inputs, Option.map_map]
    rfl
  rw [made, made, agree.default, agree.doc, agree.type]

theorem last_parameter_of_other {parameter changed : Parameter} (different : parameter.name ≠ name)
    (stillDifferent : changed.name ≠ name) (before after : List Parameter) :
    lastParameter? name (before ++ changed :: after) =
      lastParameter? name (before ++ parameter :: after) := by
  rw [lastParameter?, List.filter_append, List.filter_cons_of_neg (by simpa using stillDifferent),
    lastParameter?, List.filter_append, List.filter_cons_of_neg (by simpa using different)]

theorem agree_of_signature {parameter changed : Parameter} (different : parameter.name ≠ name)
    (stillDifferent : changed.name ≠ name) {before after : List Parameter}
    (signature : task.parameters = before ++ parameter :: after) :
    Agree name { task with parameters := before ++ changed :: after } task docs docs where
  default := by rw [signature, last_parameter_of_other different stillDifferent]
  doc := rfl
  type := rfl

theorem agree_of_docs (same : Entries.get? name others = Entries.get? name docs) :
    Agree name task task others docs where
  default := rfl
  doc := same
  type := rfl

theorem agree_of_schema {schema : List (String × SchemaEntry)}
    (same : Entries.get? name schema = Entries.get? name task.schema) :
    Agree name { task with schema := schema } task docs docs where
  default := rfl
  doc := rfl
  type := by rw [Task.declaredType, same, Task.declaredType]

theorem get_put_other {Item : Type} {key : String} (different : key ≠ name) (item : Item)
    (entries : List (String × Item)) :
    Entries.get? name (Entries.put key item entries) = Entries.get? name entries := by
  rw [Entries.get_put, if_neg different]

/-! ## Runs in another order -/

theorem inputs_of_perm_docs (distinct : Entries.Distinct docs) (perm : docs.Perm others) :
    inputs task others = inputs task docs := by
  have same (parameter : Parameter) :
      inputRecord task others parameter = inputRecord task docs parameter := by
    rw [input_record_eq, input_record_eq, Entries.get_of_perm perm distinct]
  simp only [inputs, same]

theorem inputs_of_perm_schema (distinct : Entries.Distinct task.schema)
    {schema : List (String × SchemaEntry)} (perm : task.schema.Perm schema) :
    inputs { task with schema := schema } docs = inputs task docs := by
  have same (parameter : Parameter) :
      inputRecord { task with schema := schema } docs parameter = inputRecord task docs parameter := by
    rw [input_record_eq, input_record_eq, Task.declaredType, Entries.get_of_perm perm distinct]
    rfl
  simp only [inputs, same]

theorem inputs_of_distinct (distinct : (task.parameters.map Parameter.name).Nodup) :
    inputs task docs =
      task.parameters.map fun parameter => (parameter.name, inputRecord task docs parameter) := by
  apply Entries.of_list_of_distinct
  rw [Entries.Distinct, Entries.keys, List.map_map]
  exact distinct

theorem inputs_perm (distinct : (task.parameters.map Parameter.name).Nodup)
    {parameters : List Parameter} (perm : task.parameters.Perm parameters) :
    (inputs { task with parameters := parameters } docs).Perm (inputs task docs) := by
  have stillDistinct : (parameters.map Parameter.name).Nodup :=
    (perm.map Parameter.name).nodup distinct
  rw [inputs_of_distinct distinct, @inputs_of_distinct { task with parameters := parameters } docs
    stillDistinct]
  exact (perm.map _).symm

theorem documented_default {doc : ParameterDoc} {value : Value}
    (documented : Entries.get? name docs = some doc) (given : doc.default = some value)
    {found : InputRecord} (isInput : Entries.get? name (inputs task docs) = some found) :
    found.default = some (.decoded value) := by
  rw [get_inputs, documented] at isInput
  obtain ⟨parameter, -, rfl⟩ := Option.map_eq_some_iff.mp isInput
  rw [record, Option.getD_some, given]
  rfl

/-- The inputs are the names of the signature, in the order in which they first come, and the record of each is
made of its three signals. So two runs that agree on a name have the same record of it: neither
another parameter, nor the documentation or the declared type of another name, nor the order of the
documentation or the schema changes it. A documented default is the default of the input. Where the parameters
have distinct names, their order is that of the records, and nothing else depends on it. -/
theorem inputs_by_signals (task : Task) (docs : List (String × ParameterDoc)) :
    Entries.keys (inputs task docs) = (task.parameters.map Parameter.name).eraseDups ∧
      (∀ name, Entries.get? name (inputs task docs) =
        (lastParameter? name task.parameters).map fun parameter =>
          record name parameter.default (Entries.get? name docs) (task.declaredType name)) ∧
      (∀ name other others, Agree name task other docs others →
        Entries.get? name (inputs task docs) = Entries.get? name (inputs other others)) ∧
      (∀ name before (parameter changed : Parameter) after,
        task.parameters = before ++ parameter :: after → parameter.name ≠ name → changed.name ≠ name →
        Entries.get? name (inputs { task with parameters := before ++ changed :: after } docs) =
          Entries.get? name (inputs task docs)) ∧
      (∀ name key, key ≠ name →
        (∀ doc, Entries.get? name (inputs task (Entries.put key doc docs)) =
          Entries.get? name (inputs task docs)) ∧
        ∀ entry, Entries.get? name (inputs { task with schema := Entries.put key entry task.schema } docs) =
          Entries.get? name (inputs task docs)) ∧
      (Entries.Distinct docs → ∀ others, docs.Perm others → inputs task others = inputs task docs) ∧
      (Entries.Distinct task.schema → ∀ schema, task.schema.Perm schema →
        inputs { task with schema := schema } docs = inputs task docs) ∧
      (∀ name doc value found, Entries.get? name docs = some doc → doc.default = some value →
        Entries.get? name (inputs task docs) = some found → found.default = some (.decoded value)) ∧
      ((task.parameters.map Parameter.name).Nodup → ∀ parameters, task.parameters.Perm parameters →
        (inputs { task with parameters := parameters } docs).Perm (inputs task docs) ∧
          Entries.keys (inputs { task with parameters := parameters } docs) =
            parameters.map Parameter.name) := by
  refine ⟨keys_inputs task docs, fun name => get_inputs name task docs, ?agree, ?signature, ?entries,
    ?docs, ?schema, ?documented, ?order⟩
  case agree =>
    intro name other others agree
    exact get_inputs_of_agree agree
  case signature =>
    intro name before parameter changed after signature different stillDifferent
    exact get_inputs_of_agree (agree_of_signature different stillDifferent signature)
  case entries =>
    intro name key different
    constructor
    · intro doc
      exact get_inputs_of_agree (agree_of_docs (get_put_other different doc docs))
    · intro entry
      exact get_inputs_of_agree (agree_of_schema (get_put_other different entry task.schema))
  case docs =>
    intro distinct others perm
    exact inputs_of_perm_docs distinct perm
  case schema =>
    intro distinct schema perm
    exact inputs_of_perm_schema distinct perm
  case documented =>
    intro name doc value found documented given isInput
    exact documented_default documented given isInput
  case order =>
    intro distinct parameters perm
    have stillDistinct : (parameters.map Parameter.name).Nodup :=
      (perm.map Parameter.name).nodup distinct
    have keys : Entries.keys (inputs { task with parameters := parameters } docs) =
        parameters.map Parameter.name := by
      rw [@inputs_of_distinct { task with parameters := parameters } docs stillDistinct, Entries.keys,
        List.map_map]
      rfl
    exact ⟨inputs_perm distinct perm, keys⟩

def repeatedTask : Task :=
  ⟨some "T", "", [⟨"vis", some "1"⟩, ⟨"spw", some "'a'"⟩, ⟨"vis", none⟩],
    [("spw", ⟨"cStr", []⟩), ("vis", ⟨"cInt", []⟩)], false⟩

def distinctTask : Task := { repeatedTask with parameters := [⟨"spw", some "'a'"⟩, ⟨"vis", none⟩] }

def windowDoc : ParameterDoc := ⟨"Comma-separated windows", some (.int 3)⟩

def repeatedDocs : List (String × ParameterDoc) := [("spw", windowDoc), ("field", ⟨"", none⟩)]

theorem inputs_by_signals_of_repeated_parameter :
    Entries.keys (inputs repeatedTask repeatedDocs) = ["vis", "spw"] ∧
      Entries.get? "vis" (inputs repeatedTask repeatedDocs) = some (record "vis" none none "cInt") ∧
      (repeatedTask.parameters = [] ++ ⟨"vis", some "1"⟩ :: [⟨"spw", some "'a'"⟩, ⟨"vis", none⟩] ∧
        Entries.get? "spw" (inputs { repeatedTask with
            parameters := [⟨"ms", some "2"⟩, ⟨"spw", some "'a'"⟩, ⟨"vis", none⟩] } repeatedDocs) =
          Entries.get? "spw" (inputs repeatedTask repeatedDocs)) ∧
      (Entries.Distinct repeatedDocs ∧
        inputs repeatedTask repeatedDocs.reverse = inputs repeatedTask repeatedDocs) ∧
      (Entries.Distinct repeatedTask.schema ∧
        inputs { repeatedTask with schema := repeatedTask.schema.reverse } repeatedDocs =
          inputs repeatedTask repeatedDocs) ∧
      Entries.get? "spw" repeatedDocs = some windowDoc ∧
      (record "spw" (some "'a'") (some windowDoc) "cStr").default = some (.decoded (.int 3)) ∧
      (distinctTask.parameters.map Parameter.name).Nodup ∧
      (inputs { distinctTask with parameters := [⟨"vis", none⟩, ⟨"spw", some "'a'"⟩] } repeatedDocs).Perm
        (inputs distinctTask repeatedDocs) :=
  have laws := inputs_by_signals repeatedTask repeatedDocs
  ⟨laws.1, laws.2.1 "vis",
    ⟨rfl, laws.2.2.2.1 "spw" [] ⟨"vis", some "1"⟩ ⟨"ms", some "2"⟩
      [⟨"spw", some "'a'"⟩, ⟨"vis", none⟩] rfl (by decide) (by decide)⟩,
    ⟨by decide, laws.2.2.2.2.2.1 (by decide) _ repeatedDocs.reverse_perm.symm⟩,
    ⟨by decide, laws.2.2.2.2.2.2.1 (by decide) _ repeatedTask.schema.reverse_perm.symm⟩, rfl,
    laws.2.2.2.2.2.2.2.1 "spw" windowDoc (.int 3) _ rfl rfl (laws.2.1 "spw"),
    by decide, ((inputs_by_signals distinctTask repeatedDocs).2.2.2.2.2.2.2.2 (by decide) _
      (List.Perm.swap _ _ _)).1⟩

end TaskCab.Extraction
