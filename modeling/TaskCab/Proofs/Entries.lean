import Mathlib.Data.List.Induction
import Mathlib.Data.List.Nodup
import Mathlib.Data.List.Perm.Subperm
import TaskCab.Entries

/-!
# Tables of names

Writing into a table keeps its names distinct, and a list of pairs whose names are distinct is a table as
it stands. What stands under a name depends only on the pairs of that name.
-/

namespace TaskCab.Entries

variable {Item : Type}

/-- What holds of every table that was written: no name stands in it twice. -/
def Distinct (entries : List (String × Item)) : Prop := (keys entries).Nodup

instance (entries : List (String × Item)) : Decidable (Distinct entries) :=
  inferInstanceAs (Decidable (keys entries).Nodup)

theorem keys_put (key : String) (item : Item) (entries : List (String × Item)) :
    keys (put key item entries) =
      if key ∈ keys entries then keys entries else keys entries ++ [key] := by
  induction entries with
  | nil => rfl
  | cons entry rest ih =>
      obtain ⟨name, old⟩ := entry
      by_cases same : name = key
      · simp [put, keys, same]
      · have different : key ≠ name := fun equal => same equal.symm
        have ih : List.map Prod.fst (put key item rest) =
            if key ∈ List.map Prod.fst rest then List.map Prod.fst rest
            else List.map Prod.fst rest ++ [key] := ih
        simp only [put, if_neg same, keys, List.map_cons, ih, List.mem_cons, different, false_or]
        split <;> rfl

theorem distinct_put {entries : List (String × Item)} (distinct : Distinct entries) (key : String)
    (item : Item) : Distinct (put key item entries) := by
  unfold Distinct at distinct ⊢
  rw [keys_put]
  split
  next => exact distinct
  next absent => exact List.nodup_append.mpr ⟨distinct, by simp, by
    rintro name member _ (_ | ⟨_, ⟨⟩⟩) rfl
    exact absent member⟩

theorem distinct_put_all (pairs : List (String × Item)) {entries : List (String × Item)}
    (distinct : Distinct entries) : Distinct (putAll pairs entries) := by
  induction pairs generalizing entries with
  | nil => exact distinct
  | cons pair rest ih => exact ih (distinct_put distinct pair.1 pair.2)

theorem distinct_of_list (pairs : List (String × Item)) : Distinct (ofList pairs) :=
  distinct_put_all pairs List.nodup_nil

theorem put_of_absent {key : String} {entries : List (String × Item)} (absent : key ∉ keys entries)
    (item : Item) : put key item entries = entries ++ [(key, item)] := by
  induction entries with
  | nil => rfl
  | cons entry rest ih =>
      have different : entry.1 ≠ key := fun same => absent (by simp [keys, same])
      have later : key ∉ keys rest := fun member => absent (.tail _ member)
      simp [put, different, ih later]

theorem put_all_of_distinct {pairs entries : List (String × Item)}
    (distinct : Distinct (entries ++ pairs)) : putAll pairs entries = entries ++ pairs := by
  induction pairs generalizing entries with
  | nil => simp [putAll]
  | cons pair rest ih =>
      have absent : pair.1 ∉ keys entries := by
        intro member
        have apart := (List.nodup_append.mp (by simpa [Distinct, keys] using distinct)).2.2
        exact apart _ member _ (.head _) rfl
      have moved : entries ++ pair :: rest = (entries ++ [pair]) ++ rest := by simp
      have step : putAll (pair :: rest) entries = putAll rest (put pair.1 pair.2 entries) := rfl
      rw [step, put_of_absent absent, moved]
      exact ih (moved ▸ distinct)

theorem of_list_of_distinct {pairs : List (String × Item)} (distinct : Distinct pairs) :
    ofList pairs = pairs := put_all_of_distinct distinct

theorem get_of_mem {entries : List (String × Item)} (distinct : Distinct entries) {key : String}
    {item : Item} (member : (key, item) ∈ entries) : get? key entries = some item := by
  induction entries with
  | nil => simp at member
  | cons entry rest ih =>
      obtain ⟨absent, others⟩ := List.nodup_cons.mp distinct
      rcases List.mem_cons.mp member with rfl | later
      · simp [get?]
      · have different : entry.1 ≠ key := by
          rintro rfl
          exact absent (List.mem_map.mpr ⟨_, later, rfl⟩)
        rw [get?, if_neg different, ih others later]

theorem mem_of_get {entries : List (String × Item)} {key : String} {item : Item}
    (found : get? key entries = some item) : (key, item) ∈ entries := by
  induction entries with
  | nil => simp [get?] at found
  | cons entry rest ih =>
      rw [get?] at found
      split at found
      next same =>
        obtain rfl := Option.some.inj found
        exact same ▸ .head _
      next => exact .tail _ (ih found)

theorem mem_put {key : String} {item : Item} {entries : List (String × Item)}
    {entry : String × Item} (member : entry ∈ put key item entries) :
    entry = (key, item) ∨ entry ∈ entries := by
  induction entries with
  | nil => simpa [put] using member
  | cons first rest ih =>
      rw [put] at member
      split at member
      next same =>
        rcases List.mem_cons.mp member with rfl | later
        · exact .inl (by simp [same])
        · exact .inr (.tail _ later)
      next =>
        rcases List.mem_cons.mp member with rfl | later
        · exact .inr (.head _)
        · exact (ih later).imp_right (.tail _)

theorem mem_put_all {pairs entries : List (String × Item)} {entry : String × Item}
    (member : entry ∈ putAll pairs entries) : entry ∈ pairs ∨ entry ∈ entries := by
  induction pairs generalizing entries with
  | nil => exact .inr member
  | cons pair rest ih =>
      rcases ih member with later | table
      · exact .inl (.tail _ later)
      · rcases mem_put table with rfl | old
        · exact .inl (.head _)
        · exact .inr old

theorem get_put (key other : String) (item : Item) (entries : List (String × Item)) :
    get? key (put other item entries) = if other = key then some item else get? key entries := by
  induction entries with
  | nil => rfl
  | cons entry rest ih =>
      obtain ⟨name, old⟩ := entry
      rw [put]
      split
      next same =>
        rw [same, get?, get?]
        split <;> rfl
      next different =>
        rw [get?, get?, ih]
        split
        next isKey => rw [if_neg (isKey ▸ Ne.symm different)]
        next => rfl

/-- Tables of the same names agree on a name whose items agree. -/
theorem get_put_all_congr {key : String} {pairs others : List (String × Item)}
    (same : List.Forall₂ (fun pair other => pair.1 = other.1 ∧ (pair.1 = key → pair.2 = other.2))
      pairs others) {left right : List (String × Item)} (before : get? key left = get? key right) :
    get? key (putAll pairs left) = get? key (putAll others right) := by
  induction same generalizing left right with
  | nil => exact before
  | @cons pair other pairs others agree _ ih =>
      apply ih
      rw [get_put, get_put, ← agree.1, before]
      split
      next isKey => rw [agree.2 isKey]
      next => rfl

theorem get_of_list_congr {key : String} {pairs others : List (String × Item)}
    (same : List.Forall₂ (fun pair other => pair.1 = other.1 ∧ (pair.1 = key → pair.2 = other.2))
      pairs others) : get? key (ofList pairs) = get? key (ofList others) :=
  get_put_all_congr same rfl

/-- What stands under a name, when items are read in some way that may depend on their names. -/
theorem get_map_named {Held : Type} (reader : String → Item → Held) (key : String)
    (entries : List (String × Item)) :
    get? key (entries.map fun entry => (entry.1, reader entry.1 entry.2)) =
      (get? key entries).map (reader key) := by
  induction entries with
  | nil => rfl
  | cons entry rest ih =>
      obtain ⟨name, item⟩ := entry
      rw [List.map_cons, get?, get?, ih]
      split
      next same => rw [same, Option.map_some]
      next => rfl

theorem get_map {Held : Type} (reader : Item → Held) (key : String) (entries : List (String × Item)) :
    get? key (entries.map fun entry => (entry.1, reader entry.2)) = (get? key entries).map reader :=
  get_map_named (fun _ => reader) key entries

theorem put_map {Held : Type} (reader : Item → Held) (key : String) (item : Item)
    (entries : List (String × Item)) :
    put key (reader item) (entries.map fun entry => (entry.1, reader entry.2)) =
      (put key item entries).map fun entry => (entry.1, reader entry.2) := by
  induction entries with
  | nil => rfl
  | cons entry rest ih =>
      obtain ⟨name, old⟩ := entry
      rw [List.map_cons, put, put, ih]
      split <;> rfl

theorem put_all_map {Held : Type} (reader : Item → Held) (pairs entries : List (String × Item)) :
    putAll (pairs.map fun pair => (pair.1, reader pair.2))
        (entries.map fun entry => (entry.1, reader entry.2)) =
      (putAll pairs entries).map fun entry => (entry.1, reader entry.2) := by
  induction pairs generalizing entries with
  | nil => rfl
  | cons pair rest ih =>
      have later := ih (put pair.1 pair.2 entries)
      rwa [← put_map] at later

theorem get_of_list_map {Held : Type} (reader : Item → Held) (key : String)
    (pairs : List (String × Item)) :
    get? key (ofList (pairs.map fun pair => (pair.1, reader pair.2))) =
      (get? key (ofList pairs)).map reader := by
  rw [← get_map]
  exact congrArg (get? key) (put_all_map reader pairs [])

/-! ## Names that come again -/

theorem of_list_concat (pairs : List (String × Item)) (pair : String × Item) :
    ofList (pairs ++ [pair]) = put pair.1 pair.2 (ofList pairs) := by
  simp [ofList, putAll]

/-- Writing pairs one after the other keeps the first place of each name. -/
theorem keys_of_list (pairs : List (String × Item)) :
    keys (ofList pairs) = (keys pairs).eraseDups := by
  induction pairs using List.reverseRecOn with
  | nil => rfl
  | append_singleton pairs pair ih =>
      have names : keys (pairs ++ [pair]) = keys pairs ++ [pair.1] := List.map_append
      rw [of_list_concat, keys_put, ih, names, List.eraseDups_append]
      by_cases member : pair.1 ∈ keys pairs
      · simp [member, List.removeAll]
      · simp [member, List.removeAll, List.eraseDups_cons]

/-- What stands in a table of pairs is the last pair of its name. -/
theorem last_of_list {pairs : List (String × Item)} {entry : String × Item}
    (member : entry ∈ ofList pairs) :
    ∃ earlier later, pairs = earlier ++ entry :: later ∧ ∀ other ∈ later, other.1 ≠ entry.1 := by
  induction pairs using List.reverseRecOn with
  | nil => simp [ofList, putAll] at member
  | append_singleton pairs pair ih =>
      rw [of_list_concat] at member
      by_cases same : pair.1 = entry.1
      · have found := get_of_mem (distinct_put (distinct_of_list pairs) pair.1 pair.2) member
        rw [get_put, if_pos same] at found
        have last : pair = entry := Prod.ext same (Option.some.inj found)
        exact ⟨pairs, [], by rw [last], by simp⟩
      · have before : entry ∈ ofList pairs := by
          rcases mem_put member with rfl | before
          · exact absurd rfl same
          · exact before
        obtain ⟨earlier, later, rfl, others⟩ := ih before
        refine ⟨earlier, later ++ [pair], by simp, ?_⟩
        intro other inLater
        rcases List.mem_append.mp inLater with inside | last
        · exact others other inside
        · obtain rfl : other = pair := by simpa using last
          exact same

theorem get_of_list (key : String) (pairs : List (String × Item)) :
    get? key (ofList pairs) = ((pairs.filter fun pair => pair.1 = key).getLast?).map Prod.snd := by
  induction pairs using List.reverseRecOn with
  | nil => rfl
  | append_singleton pairs pair ih =>
      rw [of_list_concat, get_put, ih, List.filter_append, List.filter_singleton]
      by_cases same : pair.1 = key
      · simp [same]
      · simp [same]

/-! ## Tables in another order -/

theorem distinct_of_perm {entries others : List (String × Item)} (perm : entries.Perm others)
    (distinct : Distinct entries) : Distinct others := (perm.map Prod.fst).nodup distinct

/-- A table of distinct names says the same in every order. -/
theorem get_of_perm {entries others : List (String × Item)} (perm : entries.Perm others)
    (distinct : Distinct entries) (key : String) : get? key others = get? key entries := by
  apply Option.ext
  intro item
  constructor
  · intro found
    exact get_of_mem distinct (perm.mem_iff.mpr (mem_of_get found))
  · intro found
    exact get_of_mem (distinct_of_perm perm distinct) (perm.mem_iff.mp (mem_of_get found))

/-! ## Tables of the same names -/

theorem mem_keys_iff {key : String} {entries : List (String × Item)} :
    key ∈ keys entries ↔ ∃ item, (key, item) ∈ entries := by
  simp [keys]

theorem exists_get_iff {key : String} {entries : List (String × Item)} :
    (∃ item, get? key entries = some item) ↔ key ∈ keys entries := by
  induction entries with
  | nil => simp [get?, keys]
  | cons entry rest ih =>
      rw [get?, keys, List.map_cons, List.mem_cons]
      by_cases same : entry.1 = key
      · simp [same]
      · rw [if_neg same, ih]
        simp [keys, Ne.symm same]

/-- Names of one table that all stand in a table of the same size are the names of that one. -/
theorem keys_perm {entries others : List (String × Item)} (distinct : Distinct entries)
    (size : entries.length = others.length) (included : keys entries ⊆ keys others) :
    (keys entries).Perm (keys others) := by
  refine (List.subperm_of_subset distinct included).perm_of_length_le ?_
  simp [keys, size]

/-- Looking up every entry of one table in another one of the same size compares the tables under all names
of both. -/
theorem agree_iff (Same : Item → Item → Prop) {entries others : List (String × Item)}
    (distinct : Distinct entries) (othersDistinct : Distinct others) :
    (entries.length = others.length ∧
        ∀ entry ∈ entries, ∃ other, get? entry.1 others = some other ∧ Same entry.2 other) ↔
      (∀ key, key ∈ keys entries ↔ key ∈ keys others) ∧
        ∀ key item other, get? key entries = some item → get? key others = some other → Same item other := by
  constructor
  · rintro ⟨size, found⟩
    have included : keys entries ⊆ keys others := by
      intro key member
      obtain ⟨item, inside⟩ := mem_keys_iff.mp member
      obtain ⟨other, isOther, -⟩ := found _ inside
      exact mem_keys_iff.mpr ⟨other, mem_of_get isOther⟩
    refine ⟨fun key => (keys_perm distinct size included).mem_iff, ?_⟩
    intro key item other isItem isOther
    obtain ⟨actual, isActual, same⟩ := found _ (mem_of_get isItem)
    obtain rfl := Option.some.inj (isOther.symm.trans isActual)
    exact same
  · rintro ⟨names, same⟩
    have perm : (keys entries).Perm (keys others) :=
      (List.perm_ext_iff_of_nodup distinct othersDistinct).mpr names
    refine ⟨by simpa [keys] using perm.length_eq, ?_⟩
    rintro ⟨key, item⟩ member
    obtain ⟨other, inside⟩ := mem_keys_iff.mp ((names key).mp (mem_keys_iff.mpr ⟨item, member⟩))
    have isOther := get_of_mem othersDistinct inside
    exact ⟨other, isOther, same key item other (get_of_mem distinct member) isOther⟩

/-- Tables of the same names in the same order, with items that are related in pairs. -/
theorem related_of_pairs {Related : Item → Item → Prop} {entries others : List (String × Item)}
    (pairs : List.Forall₂ (fun entry other => entry.1 = other.1 ∧ Related entry.2 other.2) entries others)
    {key : String} {item other : Item} (isItem : get? key entries = some item)
    (isOther : get? key others = some other) : Related item other := by
  induction pairs with
  | nil => simp [get?] at isItem
  | @cons entry held entries others pair _ ih =>
      rw [get?] at isItem isOther
      rw [← pair.1] at isOther
      by_cases same : entry.1 = key
      · rw [if_pos same] at isItem isOther
        obtain rfl := Option.some.inj isItem
        obtain rfl := Option.some.inj isOther
        exact pair.2
      · rw [if_neg same] at isItem isOther
        exact ih isItem isOther

end TaskCab.Entries
