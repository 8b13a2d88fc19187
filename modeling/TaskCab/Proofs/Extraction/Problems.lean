import TaskCab.Extraction
import TaskCab.Proofs.Entries
import TaskCab.Proofs.Extraction.Signature

/-!
# Problems of extracted documents

A type is blank only if a blank type was declared and neither the name nor the description settles it. A
document that is extracted from a source that parses has no other problem, apart from its own name.
-/

namespace TaskCab

open TaskCab.Text

namespace Dtype

def isSettled (name info : String) : Bool :=
  denotesMeasurementSet (lower name.toList) (lower info.toList) ||
    denotesFile (lower name.toList) (lower info.toList)

theorem tags_visible : ∀ entry ∈ tags,
    isBlankText entry.1.toList = false ∧ isBlankText entry.2.toList = false := by
  decide

theorem unions_visible : ∀ entry ∈ unions,
    isBlankText entry.1.toList = false ∧ isBlankText entry.2.2.toList = false := by
  decide

/-- A blank tag is its own type, and no other tag has a blank type. -/
theorem of_tag_cases (tag : String) :
    ofTag tag = tag ∨
      isBlankText tag.toList = false ∧ isBlankText (ofTag tag).toList = false := by
  unfold ofTag
  cases found : tags.lookup tag with
  | none => exact .inl rfl
  | some dtype =>
      obtain ⟨before, after, place, -⟩ := List.lookup_eq_some_iff.mp found
      have member : (tag, dtype) ∈ tags := by simp [place]
      exact .inr (tags_visible (tag, dtype) member)

theorem union_visible {mapped : String} {info : List Char} {union : String}
    (found : union? mapped info = some union) :
    isBlankText mapped.toList = false ∧ isBlankText union.toList = false := by
  obtain ⟨⟨scalar, phrases, other⟩, first, rfl⟩ := Option.map_eq_some_iff.mp found
  have member := List.mem_of_find?_eq_some first
  have holds := List.find?_some first
  simp only [Bool.and_eq_true, beq_iff_eq] at holds
  exact holds.1 ▸ unions_visible _ member

theorem blank_infer (tag name info : String) :
    isBlankText (infer tag name info).name.toList =
      (isBlankText tag.toList && !isSettled name info) := by
  unfold infer isSettled
  dsimp only
  cases denotesMeasurementSet (lower name.toList) (lower info.toList) with
  | true => simp [isBlankText, isBlank]
  | false =>
      cases denotesFile (lower name.toList) (lower info.toList) with
      | true => simp [isBlankText, isBlank]
      | false =>
          simp only [Bool.false_eq_true, if_false, Bool.or_self, Bool.not_false, Bool.and_true]
          cases found : union? (ofTag tag) (lower info.toList) with
          | none =>
              rcases of_tag_cases tag with same | ⟨visible, typeVisible⟩
              · rw [same]
              · rw [visible, typeVisible]
          | some union =>
              obtain ⟨typeVisible, unionVisible⟩ := union_visible found
              rcases of_tag_cases tag with same | ⟨visible, -⟩
              · rw [unionVisible, ← typeVisible, same]
              · rw [unionVisible, visible]

end Dtype

namespace Extraction

open TaskCab.Docstring

theorem mem_inputs {task : Task} {docs : List (String × ParameterDoc)} {entry : String × InputRecord}
    (member : entry ∈ inputs task docs) :
    ∃ parameter ∈ task.parameters, entry = (parameter.name, inputRecord task docs parameter) := by
  rcases Entries.mem_put_all member with inPairs | inNone
  · obtain ⟨parameter, inParameters, rfl⟩ := List.mem_map.mp inPairs
    exact ⟨parameter, inParameters, rfl⟩
  · simp at inNone

def documented (task : Task) : List (String × ParameterDoc) := parameters task.docstring.toList

theorem document_inputs (cabName source : String) :
    (document cabName source).inputs =
      inputs (Task.ofSource source.toList) (documented (Task.ofSource source.toList)) := by
  rw [document, documented]

/-- Whether a blank type is declared for an input and neither its name nor its description settles it. -/
def lacksType (task : Task) (name info : String) : Bool :=
  isBlankText (task.declaredType name).toList && !Dtype.isSettled name info

theorem problems_of_parameter (task : Task) (docs : List (String × ParameterDoc))
    {parameter : Parameter} (visible : Task.IsVisible parameter.name) :
    Problem.ofInput parameter.name (inputRecord task docs parameter) =
      if lacksType task parameter.name (inputRecord task docs parameter).info then
        [.missingDtype parameter.name]
      else [] := by
  have blank := Dtype.blank_infer (task.declaredType parameter.name) parameter.name
    ((Entries.get? parameter.name docs).getD .empty).info
  have named : isBlankText parameter.name.toList = false := visible
  simp only [Problem.ofInput, named, Bool.false_eq_true, if_false, inputRecord, InputRecord.make,
    blank, lacksType, ne_eq, not_true_eq_false, List.append_nil]
  rfl

theorem flat_map_filter {Item Found : Type} (items : List Item) (found : Item → List Found)
    (holds : Item → Bool) (report : Item → Found)
    (each : ∀ item ∈ items, found item = if holds item then [report item] else []) :
    items.flatMap found = (items.filter holds).map report := by
  induction items with
  | nil => rfl
  | cons item rest ih =>
      have later := ih fun other member => each other (.tail _ member)
      rw [List.flatMap_cons, each item (.head _), later, List.filter_cons]
      split <;> rfl

/-- The problems of a document that is extracted from a source that parses: its own name if that is blank,
and then, in order, the inputs that lack a type. No input is without a name, and each is required exactly
if it has no default. -/
theorem extracted_problems (cabName source : String)
    (parses : Task.signatureParses source.toList = true) :
    (document cabName source).problems =
        (if isBlankText cabName.toList then [Problem.emptyCabName] else []) ++
          ((document cabName source).inputs.filter fun (name, record) =>
            lacksType (Task.ofSource source.toList) name record.info).map
              (fun (name, _) => Problem.missingDtype name) ∧
      ∀ problem ∈ (document cabName source).problems,
        problem ≠ .emptyInputName ∧ ∀ name, problem ≠ .requiredMismatch name := by
  have named := Task.parameters_visible parses
  have problems : (document cabName source).problems =
      (if isBlankText cabName.toList then [Problem.emptyCabName] else []) ++
        ((document cabName source).inputs.filter fun (name, record) =>
          lacksType (Task.ofSource source.toList) name record.info).map
            (fun (name, _) => Problem.missingDtype name) := by
    rw [CabDocument.problems]
    refine congrArg _ (flat_map_filter _ _ _ _ ?_)
    intro entry member
    rw [document_inputs] at member
    obtain ⟨parameter, inParameters, rfl⟩ := mem_inputs member
    exact problems_of_parameter _ _ (named parameter inParameters)
  refine ⟨problems, ?_⟩
  rw [problems]
  intro problem member
  rcases List.mem_append.mp member with own | ofInput
  · split at own
    · obtain rfl := List.mem_singleton.mp own
      exact ⟨nofun, nofun⟩
    · simp at own
  · obtain ⟨entry, -, rfl⟩ := List.mem_map.mp ofInput
    exact ⟨nofun, nofun⟩

def mixedSignature : String :=
  "class T:\n def __call__(self,(a,b),m:c='x',*,d):\n  schema=\x7b'm':\x7b'type':' '\x7d\x7d\n"

theorem extracted_problems_of_mixed_signature :
    Task.signatureParses mixedSignature.toList = true ∧
      (document " " mixedSignature).problems = [.emptyCabName, .missingDtype "m"] ∧
      (document " " mixedSignature).problems =
        (if isBlankText " ".toList then [Problem.emptyCabName] else []) ++
          ((document " " mixedSignature).inputs.filter fun (name, record) =>
            lacksType (Task.ofSource mixedSignature.toList) name record.info).map
              (fun (name, _) => Problem.missingDtype name) ∧
      ∀ problem ∈ (document " " mixedSignature).problems,
        problem ≠ .emptyInputName ∧ ∀ name, problem ≠ .requiredMismatch name := by
  have parses : Task.signatureParses mixedSignature.toList = true := by decide +kernel
  exact ⟨parses, by decide +kernel, extracted_problems " " mixedSignature parses⟩

end Extraction

end TaskCab
