import TaskCab.Dtype
import TaskCab.Proofs.Text.Caseless

/-!
# The order of the rules for types

A description settles the type of an input by the strongest rule that applies. More text can only make a
stronger rule apply, and a rule that applies already gives the same type.
-/

namespace TaskCab

/-- Rules that override others come later. -/
def DtypeRule.rank : DtypeRule → Nat
  | declared => 0
  | unionUpgrade => 1
  | file => 2
  | measurementSet => 3

namespace Dtype

open Text

section

variable {info longer : List Char}

theorem mentions_of_within {phrases : List String} (noSigma : ∀ phrase ∈ phrases, HasNoSigma phrase.toList)
    (within : info <:+: longer) (mentioned : mentions phrases (lower info) = true) :
    mentions phrases (lower longer) = true := by
  rw [mentions, List.any_eq_true] at mentioned ⊢
  obtain ⟨phrase, member, occurring⟩ := mentioned
  exact ⟨phrase, member, occurs_lower_of_within (noSigma phrase member) within occurring⟩

theorem denotes_measurement_set_of_within (within : info <:+: longer) {name : List Char}
    (denotes : denotesMeasurementSet name (lower info) = true) :
    denotesMeasurementSet name (lower longer) = true := by
  rw [denotesMeasurementSet, Bool.or_eq_true] at denotes ⊢
  exact denotes.imp_right (mentions_of_within (by decide) within)

theorem denotes_file_of_within (within : info <:+: longer) {name : List Char}
    (denotes : denotesFile name (lower info) = true) : denotesFile name (lower longer) = true := by
  rw [denotesFile, Bool.or_eq_true] at denotes ⊢
  exact denotes.imp_right (mentions_of_within (by decide) within)

/-- A scalar type has one union, whichever of its phrases a description holds. -/
theorem union_eq_some_iff {mapped union : String} {text : List Char} :
    union? mapped text = some union ↔
      ∃ phrases, (mapped, phrases, union) ∈ unions ∧ mentions phrases text = true := by
  have distinct : ∀ left ∈ unions, ∀ right ∈ unions, left.1 = right.1 → left = right := by decide
  have reads : union? mapped text =
      (unions.find? fun entry => entry.1 == mapped && mentions entry.2.1 text).map fun entry => entry.2.2 := rfl
  have found {entry : String × List String × String}
      (isFirst : unions.find? (fun entry => entry.1 == mapped && mentions entry.2.1 text) = some entry) :
      entry ∈ unions ∧ entry.1 = mapped ∧ mentions entry.2.1 text = true := by
    have holds := List.find?_some isFirst
    simp only [Bool.and_eq_true, beq_iff_eq] at holds
    exact ⟨List.mem_of_find?_eq_some isFirst, holds⟩
  rw [reads]
  constructor
  · intro isUnion
    obtain ⟨⟨scalar, phrases, upgraded⟩, isFirst, rfl⟩ := Option.map_eq_some_iff.mp isUnion
    obtain ⟨member, rfl, mentioned⟩ := found isFirst
    exact ⟨phrases, member, mentioned⟩
  · rintro ⟨phrases, member, mentioned⟩
    have isSome :
        (unions.find? fun entry => entry.1 == mapped && mentions entry.2.1 text).isSome = true := by
      rw [List.find?_isSome]
      exact ⟨_, member, by simp [mentioned]⟩
    obtain ⟨entry, isFirst⟩ := Option.isSome_iff_exists.mp isSome
    obtain ⟨inUnions, sameScalar, -⟩ := found isFirst
    obtain rfl := distinct entry inUnions _ member sameScalar
    rw [isFirst, Option.map_some]

theorem union_of_within (within : info <:+: longer) {mapped union : String}
    (found : union? mapped (lower info) = some union) : union? mapped (lower longer) = some union := by
  have noSigma : ∀ entry ∈ unions, ∀ phrase ∈ entry.2.1, HasNoSigma phrase.toList := by decide
  rw [union_eq_some_iff] at found ⊢
  obtain ⟨phrases, member, mentioned⟩ := found
  exact ⟨phrases, member, mentions_of_within (noSigma _ member) within mentioned⟩

end

/-! ## Rules that override others -/

/-- How a type is settled from what its tag stands for and from a name and a description in lower case. -/
inductive Settles (mapped : String) (name info : List Char) : Dtype → Prop where
  | measurementSet (denotes : denotesMeasurementSet name info = true) :
      Settles mapped name info ⟨"MS", .measurementSet⟩
  | file (noSet : denotesMeasurementSet name info = false) (denotes : denotesFile name info = true) :
      Settles mapped name info ⟨"File", .file⟩
  | unionUpgrade (noSet : denotesMeasurementSet name info = false) (noFile : denotesFile name info = false)
      {union : String} (found : union? mapped info = some union) :
      Settles mapped name info ⟨union, .unionUpgrade⟩
  | declared (noSet : denotesMeasurementSet name info = false) (noFile : denotesFile name info = false)
      (noUnion : union? mapped info = none) : Settles mapped name info ⟨mapped, .declared⟩

theorem infer_settles (tag name info : String) :
    Settles (ofTag tag) (lower name.toList) (lower info.toList) (infer tag name info) := by
  unfold infer
  dsimp only
  split
  next set => exact .measurementSet set
  next noSet =>
    rw [Bool.not_eq_true] at noSet
    split
    next file => exact .file noSet file
    next noFile =>
      rw [Bool.not_eq_true] at noFile
      split
      next found => exact .unionUpgrade noSet noFile found
      next noUnion => exact .declared noSet noFile noUnion

/-- Whether a type is the same as another, settled by the same rule, or is settled by a stronger rule. -/
def Supersedes (later earlier : Dtype) : Prop :=
  later = earlier ∨ earlier.rule.rank < later.rule.rank

/-- What a longer description settles supersedes what the shorter one does. -/
theorem supersedes_of_within {mapped : String} {name info longer : List Char} (within : info <:+: longer)
    {earlier later : Dtype} (settlesEarlier : Settles mapped name (lower info) earlier)
    (settlesLater : Settles mapped name (lower longer) later) : Supersedes later earlier := by
  -- What applied to the shorter description still applies, which leaves only rules at least as strong.
  cases settlesEarlier with
  | measurementSet denotes =>
      have still := denotes_measurement_set_of_within within denotes
      cases settlesLater with
      | measurementSet => exact .inl rfl
      | file noSet => simp [still] at noSet
      | unionUpgrade noSet => simp [still] at noSet
      | declared noSet => simp [still] at noSet
  | file _ denotes =>
      have still := denotes_file_of_within within denotes
      cases settlesLater with
      | measurementSet => exact .inr (by simp [DtypeRule.rank])
      | file => exact .inl rfl
      | unionUpgrade _ noFile => simp [still] at noFile
      | declared _ noFile => simp [still] at noFile
  | unionUpgrade _ _ found =>
      have still := union_of_within within found
      cases settlesLater with
      | measurementSet => exact .inr (by simp [DtypeRule.rank])
      | file => exact .inr (by simp [DtypeRule.rank])
      | unionUpgrade _ _ foundLater =>
          obtain rfl := Option.some.inj (still.symm.trans foundLater)
          exact .inl rfl
      | declared _ _ noUnion => simp [still] at noUnion
  | declared =>
      cases settlesLater with
      | measurementSet => exact .inr (by simp [DtypeRule.rank])
      | file => exact .inr (by simp [DtypeRule.rank])
      | unionUpgrade => exact .inr (by simp [DtypeRule.rank])
      | declared => exact .inl rfl

/-- A type is settled by the strongest rule that applies. More text before or behind a description never
leads to a weaker rule, and under the same rule to the same type. The case of ASCII letters in a name or a
description does not count. -/
theorem infer_monotone_caseless (tag name info extra : String) :
    Settles (ofTag tag) (lower name.toList) (lower info.toList) (infer tag name info) ∧
    (∀ longer ∈ [info ++ extra, extra ++ info],
      (infer tag name info).rule.rank ≤ (infer tag name longer).rule.rank ∧
        ((infer tag name longer).rule = (infer tag name info).rule →
          (infer tag name longer).name = (infer tag name info).name)) ∧
    ∀ otherName otherInfo : String, sameIgnoringCase name.toList otherName.toList = true →
      sameIgnoringCase info.toList otherInfo.toList = true →
        infer tag otherName otherInfo = infer tag name info := by
  refine ⟨infer_settles tag name info, ?_, ?_⟩
  · intro longer isLonger
    have within : info.toList <:+: longer.toList := by
      rcases List.mem_cons.mp isLonger with rfl | isBefore
      · rw [String.toList_append]
        exact (List.prefix_append _ _).isInfix
      · obtain rfl := List.mem_singleton.mp isBefore
        rw [String.toList_append]
        exact (List.suffix_append _ _).isInfix
    have supersedes := supersedes_of_within within (infer_settles tag name info)
      (infer_settles tag name longer)
    rcases supersedes with same | stronger
    · rw [same]
      exact ⟨Nat.le_refl _, fun _ => rfl⟩
    · refine ⟨Nat.le_of_lt stronger, fun sameRule => ?_⟩
      rw [sameRule] at stronger
      exact absurd stronger (Nat.lt_irrefl _)
  · intro otherName otherInfo sameName sameInfo
    unfold infer
    rw [lower_of_same sameName, lower_of_same sameInfo]

/-- A window list stays a union of texts under one more phrase of a list, and in capitals. -/
theorem infer_window_list :
    (infer "cStr" "spw" "Comma-separated windows, a list of strings").name = "Union[str, List[str]]" ∧
      infer "cStr" "SPW" "COMMA-separated windows" = ⟨"Union[str, List[str]]", .unionUpgrade⟩ := by
  have shorter : infer "cStr" "spw" "Comma-separated windows" = ⟨"Union[str, List[str]]", .unionUpgrade⟩ := by
    decide +kernel
  have sameRule : (infer "cStr" "spw" ("Comma-separated windows" ++ ", a list of strings")).rule =
      (infer "cStr" "spw" "Comma-separated windows").rule := by decide +kernel
  obtain ⟨-, longer, caseless⟩ :=
    infer_monotone_caseless "cStr" "spw" "Comma-separated windows" ", a list of strings"
  have sameName := (longer _ (.head _)).2 sameRule
  have same := caseless "SPW" "COMMA-separated windows" (by decide) (by decide)
  rw [shorter] at sameName same
  exact ⟨sameName, same⟩

end Dtype

end TaskCab
