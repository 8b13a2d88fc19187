import Mathlib.Logic.Relation
import TaskCab.Proofs.Source.ReadValues
import TaskCab.Proofs.Value.Alike

/-!
# Values in another order

A value is put in another order by one map after the other, each anywhere in the value. That keeps the
names of each map distinct, and all data.
-/

namespace TaskCab.Value

open Source.Literal

/-- One map somewhere in a value has its entries put in another order. -/
inductive Reorders : Value → Value → Prop
  | map {entries others : List (String × Value)} (order : entries.Perm others) :
      Reorders (.map entries) (.map others)
  | item (before after : List Value) {item other : Value} (within : Reorders item other) :
      Reorders (.list (before ++ item :: after)) (.list (before ++ other :: after))
  | entry (before after : List (String × Value)) (name : String) {item other : Value}
      (within : Reorders item other) :
      Reorders (.map (before ++ (name, item) :: after)) (.map (before ++ (name, other) :: after))

/-- The same value up to the order of the entries of any maps, at any depth. -/
def Reordered : Value → Value → Prop := Relation.ReflTransGen Reorders

theorem distinct_of_reorders {value other : Value} (reorders : Reorders value other)
    (distinct : Distinct value) : Distinct other := by
  induction reorders with
  | map order =>
      refine ⟨Entries.distinct_of_perm order distinct.1, entries_distinct_iff.mpr fun entry member => ?_⟩
      exact entries_distinct_iff.mp distinct.2 entry (order.mem_iff.mpr member)
  | item before after _ ih =>
      have all := all_distinct_iff.mp distinct
      refine all_distinct_iff.mpr fun item member => ?_
      rcases List.mem_append.mp member with earlier | here
      · exact all item (List.mem_append_left _ earlier)
      rcases List.mem_cons.mp here with rfl | later
      · exact ih (all _ (List.mem_append_right _ (.head _)))
      · exact all item (List.mem_append_right _ (.tail _ later))
  | @entry before after name item other _ ih =>
      have all := entries_distinct_iff.mp distinct.2
      refine ⟨by simpa [Entries.Distinct, Entries.keys] using distinct.1, ?_⟩
      refine entries_distinct_iff.mpr fun entry member => ?_
      rcases List.mem_append.mp member with earlier | here
      · exact all entry (List.mem_append_left _ earlier)
      rcases List.mem_cons.mp here with rfl | later
      · exact ih (all (name, item) (List.mem_append_right _ (.head _)))
      · exact all entry (List.mem_append_right _ (.tail _ later))

theorem pairs_of_one {Item : Type} {Related : Item → Item → Prop} (reflexive : ∀ item, Related item item)
    (before after : List Item) {item other : Item} (related : Related item other) :
    List.Forall₂ Related (before ++ item :: after) (before ++ other :: after) := by
  have unchanged (items : List Item) : List.Forall₂ Related items items :=
    List.forall₂_same.mpr fun item _ => reflexive item
  exact List.rel_append (unchanged before) (.cons related (unchanged after))

theorem alike_of_reorders {value other : Value} (reorders : Reorders value other)
    (distinct : Distinct value) : Alike Eq value other := by
  induction reorders with
  | map order =>
      refine .map (fun name => (order.map Prod.fst).mem_iff) fun name item held isItem isHeld => ?_
      rw [Entries.get_of_perm order distinct.1, isItem] at isHeld
      obtain rfl := Option.some.inj isHeld
      exact Alike.refl (fun _ => rfl) item
  | item before after _ ih =>
      have all := all_distinct_iff.mp distinct
      have inside := ih (all _ (List.mem_append_right _ (.head _)))
      exact .list (pairs_of_one (Alike.refl fun _ => rfl) before after inside)
  | @entry before after name item other _ ih =>
      have all := entries_distinct_iff.mp distinct.2
      have inside := ih (all (name, item) (List.mem_append_right _ (.head _)))
      refine .map (fun key => by simp [Entries.keys]) fun key held passed isHeld isPassed => ?_
      have pairs := @pairs_of_one _
        (fun entry other : String × Value => entry.1 = other.1 ∧ Alike Eq entry.2 other.2)
        (fun entry => ⟨rfl, Alike.refl (fun _ => rfl) _⟩) before after (name, item) (name, other)
        ⟨rfl, inside⟩
      exact Entries.related_of_pairs pairs isHeld isPassed

/-- Values in another order have distinct names too, and the same data. -/
theorem alike_of_reordered {value other : Value} (reordered : Reordered value other)
    (distinct : Distinct value) : Distinct other ∧ Alike Eq value other := by
  induction reordered with
  | refl => exact ⟨distinct, Alike.refl (fun _ => rfl) value⟩
  | tail _ step ih =>
      have further := alike_of_reorders step ih.1
      exact ⟨distinct_of_reorders step ih.1, ih.2.trans further fun _ _ _ => Eq.trans⟩

end TaskCab.Value
