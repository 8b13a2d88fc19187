import TaskCab.Format
import TaskCab.Proofs.Json.StoredValue

/-!
# Documents in JSON

A document that is written as JSON is read back, as the one cab of its package. Text that was not decoded
is a decoded text then, floats are what their own texts are read as, and a default that is `null` is none.
-/

namespace TaskCab

def SourceValue.reread : SourceValue → Option SourceValue
  | .verbatim text => some (.decoded (.str text))
  | .decoded value =>
      match value.reread with
      | .null => none
      | value => some (.decoded value)

def InputRecord.reread (record : InputRecord) : InputRecord :=
  { record with default := record.default.bind SourceValue.reread }

def Records.reread (records : Records) : Records :=
  records.map fun (name, record) => (name, record.reread)

def SourceValue.stored : SourceValue → Option SourceValue
  | .verbatim text => some (.decoded (.str text))
  | .decoded value =>
      match value.stored with
      | .null => none
      | value => some (.decoded value)

def InputRecord.stored (record : InputRecord) : InputRecord :=
  { record with default := record.default.bind SourceValue.stored }

def Records.stored (records : Records) : Records :=
  records.map fun (name, record) => (name, record.stored)

namespace CabDocument

/-- What is read from the JSON of a document. -/
def reread (document : CabDocument) : CabDocument :=
  ⟨document.name, Records.reread document.inputs, document.outputs.map Records.reread⟩

theorem inputs_reread (document : CabDocument) :
    document.reread.inputs = Records.reread document.inputs := rfl

/-- What is left of a document in JSON where floats are read exactly. -/
def stored (document : CabDocument) : CabDocument :=
  ⟨document.name, Records.stored document.inputs, document.outputs.map Records.stored⟩

def records (document : CabDocument) : Records := document.inputs ++ document.outputs.getD []

/-- What holds of every document whose tables were written: no name or key stands in one twice. -/
structure IsTabular (document : CabDocument) : Prop where
  inputs : Entries.Distinct document.inputs
  outputs : ∀ outputs, document.outputs = some outputs → Entries.Distinct outputs
  defaults : ∀ entry ∈ document.records, ∀ value, entry.2.default = some (.decoded value) →
    value.Distinct

/-- Whether each finite float in a default is read back from its own text. -/
def FloatsReread (document : CabDocument) : Prop :=
  ∀ entry ∈ document.records, ∀ value, entry.2.default = some (.decoded value) →
    Value.FloatsReread value.scalars

instance (document : CabDocument) : Decidable document.FloatsReread :=
  decidable_of_iff (∀ entry ∈ document.records, ∀ default ∈ entry.2.default,
      ∀ value ∈ default.value?, Value.FloatsReread value.scalars) <| by
    constructor
    · intro each entry member value isDefault
      exact each entry member _ isDefault value rfl
    · intro reread entry member default isDefault value isValue
      cases default with
      | decoded other =>
          obtain rfl := Option.some.inj isValue
          exact reread entry member other isDefault
      | verbatim text => simp [SourceValue.value?] at isValue

end CabDocument

namespace Package

open Json (Tree depthLimit)

/-! ### Defaults and records -/

theorem default_eq (depth : Nat) (item : Tree) :
    default? depth item = (item.toValue? depth).map fun value =>
      match value with
      | .null => none
      | value => some (.decoded value) := by
  have found {value : Option Value} (notNull : value ≠ some .null) :
      (value.map fun value => some (SourceValue.decoded value)) = value.map fun value =>
        match value with
        | .null => none
        | value => some (.decoded value) := by
    cases value with
    | none => rfl
    | some value =>
        cases value with
        | null => exact absurd rfl notNull
        | _ => rfl
  cases item with
  | null => rfl
  | bool => rfl
  | number numeral =>
      refine found ?_
      rw [Tree.toValue?, Json.Numeral.value?]
      split
      · simp
      · cases numeral.float? <;> simp
  | str text =>
      refine found ?_
      cases text <;> simp [Tree.toValue?]
  | array items =>
      refine found ?_
      rw [Tree.toValue?]
      split
      · cases Tree.itemValues? (depth + 1) items <;> simp
      · simp
  | object members =>
      refine found ?_
      rw [Tree.toValue?]
      split
      · cases Tree.memberValues? (depth + 1) members <;> simp
      · simp

def defaultToJson (default : Option SourceValue) : Json :=
  (default.map SourceValue.toJson).getD .null

theorem default_reread (default : Option SourceValue)
    (distinct : ∀ value, default = some (.decoded value) → value.Distinct)
    {depth : Nat} (shallow : depth + (defaultToJson default).depth ≤ depthLimit) :
    default? depth (defaultToJson default).tree = some (default.bind SourceValue.reread) := by
  rw [default_eq]
  cases default with
  | none => rfl
  | some default =>
      cases default with
      | verbatim text => rfl
      | decoded value =>
          have read := Value.to_value_reread value (distinct value rfl) depth shallow
          change Option.map _ (value.toJson.tree.toValue? depth) = _
          rw [read]
          rfl

theorem record_reread (record : InputRecord)
    (distinct : ∀ value, record.default = some (.decoded value) → value.Distinct)
    {depth : Nat} (shallow : depth + (recordToJson record).depth ≤ depthLimit) :
    record? depth (recordToJson record).tree = some record.reread := by
  have below : depth + 1 + (defaultToJson record.default).depth ≤ depthLimit := by
    have inside := @Json.depth_le_member_depth [("dtype", .str record.dtype),
      ("default", defaultToJson record.default), ("required", .bool record.required),
      ("info", .str record.info)] ("default", defaultToJson record.default) (by simp)
    dsimp only at inside
    have whole : (recordToJson record).depth = Json.memberDepth [("dtype", .str record.dtype),
      ("default", defaultToJson record.default), ("required", .bool record.required),
      ("info", .str record.info)] + 1 := rfl
    omega
  have default := default_reread record.default distinct below
  have members : members? recordMembers (recordToJson record).tree =
      some [("dtype", .str (some record.dtype)), ("default", (defaultToJson record.default).tree),
        ("required", .bool record.required), ("info", .str (some record.info))] := rfl
  rw [record?, members]
  simp only [Option.bind_eq_bind, Option.bind_some, Entries.get?]
  simp [text?, truth?, default, InputRecord.reread]

/-! ### Tables -/

theorem member_trees_map {Item : Type} (items : List (String × Item)) (toJson : Item → Json) :
    Json.memberTrees (items.map fun (name, item) => (name, toJson item)) =
      items.map fun (name, item) => (some name, (toJson item).tree) := by
  induction items with
  | nil => rfl
  | cons item rest ih => rw [List.map_cons, Json.memberTrees, ih, List.map_cons]

theorem map_m_of_each {Item Read Held : Type} {read? : Read → Option Held} {toRead : Item → Read}
    {items : List Item} {held : Item → Held}
    (each : ∀ item ∈ items, read? (toRead item) = some (held item)) :
    (items.map toRead).mapM read? = some (items.map held) := by
  induction items with
  | nil => rfl
  | cons item rest ih =>
      rw [List.map_cons, List.mapM_cons, each item (.head _),
        ih fun other member => each other (.tail _ member)]
      rfl

/-- A table is read back if each of its items is. -/
theorem table_reread {Item Held : Type} (items : List (String × Item)) (toJson : Item → Json)
    (item? : Nat → Tree → Option Held) (held : Item → Held) (distinct : Entries.Distinct items)
    {depth : Nat} (shallow : depth < depthLimit)
    (each : ∀ entry ∈ items, item? (depth + 1) (toJson entry.2).tree = some (held entry.2)) :
    table? depth item? (Json.object (items.map fun (name, item) => (name, toJson item))).tree =
      some (items.map fun (name, item) => (name, held item)) := by
  have table : Entries.Distinct (items.map fun (name, item) => (name, held item)) := by
    have same : Entries.keys (items.map fun (name, item) => (name, held item)) =
        Entries.keys items := by
      simp [Entries.keys]
    rw [Entries.Distinct, same]
    exact distinct
  rw [Json.tree, member_trees_map, table?, if_pos shallow,
    @map_m_of_each _ _ _ _ _ items (fun (name, item) => (name, held item)) ?_]
  · simp [Entries.of_list_of_distinct table]
  · intro entry member
    simp [each entry member]

theorem records_reread (records : Records) (distinct : Entries.Distinct records)
    (tabular : ∀ entry ∈ records, ∀ value, entry.2.default = some (.decoded value) → value.Distinct)
    {depth : Nat} (shallow : depth + (recordsToJson records).depth ≤ depthLimit) :
    table? depth record? (recordsToJson records).tree = some (Records.reread records) := by
  have whole : (recordsToJson records).depth =
      Json.memberDepth (records.map fun (name, record) => (name, recordToJson record)) + 1 := rfl
  refine table_reread records recordToJson record? InputRecord.reread distinct (by omega) ?_
  intro entry member
  refine record_reread entry.2 (tabular entry member) ?_
  have written : (entry.1, recordToJson entry.2) ∈
      records.map fun (name, record) => (name, recordToJson record) :=
    List.mem_map.mpr ⟨entry, member, rfl⟩
  have inside : (recordToJson entry.2).depth ≤
      Json.memberDepth (records.map fun (name, record) => (name, recordToJson record)) :=
    Json.depth_le_member_depth written
  omega

/-! ### Cabs and packages -/

/-- A cab without outputs has no member for them. -/
theorem members_cab (cab : CabDefinition) :
    members? ["inputs", "outputs"] (cabToJson cab).tree =
      some (("inputs", (recordsToJson cab.inputs).tree) ::
        (cab.outputs.map fun outputs => ("outputs", (recordsToJson outputs).tree)).toList) := by
  obtain ⟨inputs, outputs⟩ := cab
  cases outputs <;> rfl

theorem document_of_document (document : CabDocument) :
    document? (ofDocument document) document.name = some document := by
  simp [document?, ofDocument, Entries.get?]

end Package

open Json (depthLimit)

namespace CabDocument

variable {document : CabDocument}

theorem cab_reread (tabular : document.IsTabular) {depth : Nat}
    (shallow : depth + (Package.cabToJson ⟨document.inputs, document.outputs⟩).depth ≤ depthLimit) :
    Package.cab? depth (Package.cabToJson ⟨document.inputs, document.outputs⟩).tree =
      some ⟨Records.reread document.inputs, document.outputs.map Records.reread⟩ := by
  have inputs {below : Nat}
      (within : below + (Package.recordsToJson document.inputs).depth ≤ depthLimit) :=
    Package.records_reread document.inputs tabular.inputs
      (fun entry member => tabular.defaults entry (List.mem_append_left _ member)) within
  rw [Package.cab?, Package.members_cab]
  obtain ⟨name, inputRecords, outputs⟩ := document
  cases outputs with
  | none =>
      have within : depth + 1 + (Package.recordsToJson inputRecords).depth ≤ depthLimit := by
        simp only [Package.cabToJson, Json.depth, Json.memberDepth] at shallow
        omega
      simp [Entries.get?, inputs within, Package.optionalTable?]
  | some outputs =>
      have within : depth + 1 + (Package.recordsToJson inputRecords).depth ≤ depthLimit ∧
          depth + 1 + (Package.recordsToJson outputs).depth ≤ depthLimit := by
        simp only [Package.cabToJson, Json.depth, Json.memberDepth] at shallow
        omega
      have outputsRead := Package.records_reread outputs (tabular.outputs outputs rfl)
        (fun entry member => tabular.defaults entry (List.mem_append_right _ member)) within.2
      have table : (Package.recordsToJson outputs).tree =
          .object (Json.memberTrees (outputs.map fun (name, record) =>
            (name, Package.recordToJson record))) := rfl
      rw [table] at outputsRead
      simp [Entries.get?, inputs within.1, table, Package.optionalTable?, outputsRead]

/-- The package of a document is read back as that of a document with the same names. -/
theorem read_json (tabular : document.IsTabular)
    (shallow : (Package.toJson (Package.ofDocument document)).depth ≤ depthLimit) :
    Package.read? document.toJson = some (Package.ofDocument document.reread) := by
  have below : 2 + (Package.cabToJson ⟨document.inputs, document.outputs⟩).depth ≤ depthLimit := by
    simp only [Package.toJson, Package.ofDocument, List.map_cons, List.map_nil, Json.depth,
      Json.memberDepth] at shallow
    omega
  have cabs := Package.table_reread [(document.name, ⟨document.inputs, document.outputs⟩)]
    Package.cabToJson Package.cab?
    (fun _ => ⟨Records.reread document.inputs, document.outputs.map Records.reread⟩)
    (List.nodup_singleton _) (show 1 < depthLimit by decide)
    (by
      intro entry member
      obtain rfl := List.mem_singleton.mp member
      exact cab_reread tabular below)
  have text : document.toJson.toList =
      (Package.toJson (Package.ofDocument document)).render .indented 0 ++ ['\n'] := by
    simp [CabDocument.toJson, Json.indented]
  have whole : Package.members? ["cabs"] (Package.toJson (Package.ofDocument document)).tree =
      some [("cabs", (Json.object [(document.name,
        Package.cabToJson ⟨document.inputs, document.outputs⟩)]).tree)] := rfl
  rw [Package.read?, text, Json.of_text_printed .indented _ (by simp [Json.Tree.isSpace]),
    Option.bind_some, Package.ofTree?, whole]
  exact cabs

/-! ### Floats that are read exactly -/

theorem default_reread_eq_stored {default : Option SourceValue}
    (reads : ∀ value, default = some (.decoded value) → Value.FloatsReread value.scalars) :
    default.bind SourceValue.reread = default.bind SourceValue.stored := by
  cases default with
  | none => rfl
  | some source =>
      cases source with
      | verbatim text => rfl
      | decoded value =>
          rw [Option.bind_some, Option.bind_some, SourceValue.reread, SourceValue.stored,
            Value.reread_eq_stored value (reads value rfl)]

theorem records_reread_eq_stored {records : Records}
    (reads : ∀ entry ∈ records, ∀ value, entry.2.default = some (.decoded value) →
      Value.FloatsReread value.scalars) : Records.reread records = Records.stored records := by
  refine List.map_congr_left fun entry member => ?_
  have same : entry.2.reread = entry.2.stored := by
    rw [InputRecord.reread, InputRecord.stored, default_reread_eq_stored (reads entry member)]
  exact congrArg (Prod.mk entry.1) same

theorem reread_eq_stored (reads : document.FloatsReread) : document.reread = document.stored := by
  have inputs : Records.reread document.inputs = Records.stored document.inputs :=
    records_reread_eq_stored fun entry member => reads entry (List.mem_append_left _ member)
  have outputs : document.outputs.map Records.reread = document.outputs.map Records.stored := by
    cases found : document.outputs with
    | none => rfl
    | some outputs =>
        refine congrArg some (records_reread_eq_stored fun entry member => reads entry ?_)
        exact List.mem_append_right _ (by rwa [found])
  rw [reread, stored, inputs, outputs]

/-! ### The text of what is left -/

theorem render_default_stored (layout : Json.Layout) (level : Nat) (default : Option SourceValue) :
    (Package.defaultToJson (default.bind SourceValue.stored)).render layout level =
      (Package.defaultToJson default).render layout level := by
  cases default with
  | none => rfl
  | some default =>
      cases default with
      | verbatim text => rfl
      | decoded value =>
          have same := Value.render_stored layout level value
          rw [Option.bind_some, SourceValue.stored]
          split
          next isNull =>
            rw [isNull] at same
            exact same
          next => exact same

theorem render_records_stored (layout : Json.Layout) (level : Nat) (records : Records) :
    (Package.recordsToJson (Records.stored records)).render layout level =
      (Package.recordsToJson records).render layout level := by
  have members : Json.renderMembers layout (level + 1)
      ((Records.stored records).map fun (name, record) => (name, Package.recordToJson record)) =
      Json.renderMembers layout (level + 1)
        (records.map fun (name, record) => (name, Package.recordToJson record)) := by
    induction records with
    | nil => rfl
    | cons entry rest ih =>
        have one : (Package.recordToJson entry.2.stored).render layout (level + 1) =
            (Package.recordToJson entry.2).render layout (level + 1) := by
          have default := render_default_stored layout (level + 1 + 1) entry.2.default
          change Json.render layout (level + 1) (.object [("dtype", .str entry.2.dtype),
            ("default", Package.defaultToJson (entry.2.default.bind SourceValue.stored)),
            ("required", .bool entry.2.required), ("info", .str entry.2.info)]) =
            Json.render layout (level + 1) (.object [("dtype", .str entry.2.dtype),
              ("default", Package.defaultToJson entry.2.default),
              ("required", .bool entry.2.required), ("info", .str entry.2.info)])
          simp only [Json.render, Json.renderMembers, default]
        rw [Records.stored, List.map_cons, List.map_cons, List.map_cons, Json.renderMembers,
          Json.renderMembers, one]
        exact congrArg _ ih
  rw [Package.recordsToJson, Package.recordsToJson, Json.render, Json.render, members]

/-- What is left of a document has the text of the document. -/
theorem to_json_stored (document : CabDocument) : document.stored.toJson = document.toJson := by
  have inputs := render_records_stored .indented 3 document.inputs
  have outputs (records : Records) := render_records_stored .indented 3 records
  obtain ⟨name, inputRecords, outputRecords⟩ := document
  have text : (Package.toJson (Package.ofDocument (stored ⟨name, inputRecords, outputRecords⟩))).render
      .indented 0 =
      (Package.toJson (Package.ofDocument ⟨name, inputRecords, outputRecords⟩)).render .indented 0 := by
    cases outputRecords with
    | none =>
        simp only [Package.toJson, Package.ofDocument, stored, List.map_cons, List.map_nil,
          Package.cabToJson, Option.map_none, Json.render, Json.renderMembers, inputs]
    | some records =>
        simp only [Package.toJson, Package.ofDocument, stored, List.map_cons, List.map_nil,
          Package.cabToJson, Option.map_some, Json.render, Json.renderMembers, inputs,
          outputs records]
  rw [toJson, toJson, Json.indented, Json.indented, text]

/-! ### Reading back -/

/-- A document whose JSON is nested up to the reader's limit is read back as the one cab of its package,
up to what is not kept: opaque text is decoded text, a float that is not finite is `null`, and a default
that is `null` is none. A second time nothing changes: neither the text nor what is read. -/
theorem json_reads_back (document : CabDocument) (tabular : document.IsTabular)
    (reread : document.FloatsReread)
    (shallow : (Package.toJson (Package.ofDocument document)).depth ≤ depthLimit) :
    ∃ package, Package.read? (DocumentFormat.json.render document) = some package ∧
      package.length = 1 ∧ Package.document? package document.name = some document.stored ∧
      DocumentFormat.json.render document.stored = DocumentFormat.json.render document ∧
      Package.read? (DocumentFormat.json.render document.stored) = some package := by
  have read := read_json tabular shallow
  rw [reread_eq_stored reread] at read
  have text := to_json_stored document
  refine ⟨Package.ofDocument document.stored, read, rfl, ?_, text, ?_⟩
  · exact Package.document_of_document document.stored
  · rw [DocumentFormat.render, text]
    exact read

def mixedDocument : CabDocument :=
  ⟨"mixed",
    [("a", .make "Any" (some (.decoded (.map [("k\n", .list [.float ⟨0x3FB999999999999A⟩, .int (-3)]),
        ("é", .null)]))) "an \"input\""),
      ("b", .make "List[int]" (some (.verbatim "numpy.array(x)")) ""),
      ("c", .make "float" (some (.decoded (.float (Binary64.infinity true)))) "")],
    some []⟩

theorem json_reads_back_of_mixed :
    mixedDocument.IsTabular ∧ mixedDocument.FloatsReread ∧
      (Package.toJson (Package.ofDocument mixedDocument)).depth ≤ depthLimit ∧
      ∃ package, Package.read? (DocumentFormat.json.render mixedDocument) = some package ∧
        package.length = 1 ∧ Package.document? package "mixed" = some mixedDocument.stored ∧
        DocumentFormat.json.render mixedDocument.stored = DocumentFormat.json.render mixedDocument ∧
        Package.read? (DocumentFormat.json.render mixedDocument.stored) = some package := by
  have tabular : mixedDocument.IsTabular := by
    refine ⟨by decide, ?_, ?_⟩
    · rintro outputs ⟨⟩
      exact List.nodup_nil
    · intro entry member value isDefault
      simp only [records, mixedDocument, Option.getD_some, List.append_nil, List.mem_cons,
        List.not_mem_nil, or_false] at member
      rcases member with rfl | rfl | rfl
      · obtain rfl : value = _ := by simpa [InputRecord.make] using isDefault.symm
        exact ⟨by decide, ⟨trivial, trivial, trivial⟩, trivial, trivial⟩
      · simp [InputRecord.make] at isDefault
      · obtain rfl : value = _ := by simpa [InputRecord.make] using isDefault.symm
        trivial
  have reread : mixedDocument.FloatsReread := by decide +kernel
  have shallow : (Package.toJson (Package.ofDocument mixedDocument)).depth ≤ depthLimit := by decide
  exact ⟨tabular, reread, shallow, json_reads_back mixedDocument tabular reread shallow⟩

end CabDocument

end TaskCab
