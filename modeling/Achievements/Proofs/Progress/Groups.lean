import Achievements.Proofs.Progress.Chains

/-!
# Groups under a change of their members

Replacing every member of a list replaces those of its groups, and changing one member of a group
changes that of the list. A list of groups that look like those of some list are the groups of their
own members, so what a visit leaves behind can be taken apart again.
-/

set_option autoImplicit false

namespace Achievements

/-- Changing a member and changing its image comes to the same. -/
theorem map_modify_of_commutes {α β : Type} (image : α → β) (change : α → α) (other : β → β)
    (commutes : ∀ member, image (change member) = other (image member)) (index : Nat)
    (list : List α) :
    (list.modify index change).map image = (list.map image).modify index other := by
  induction list generalizing index with
  | nil => cases index <;> rfl
  | cons member rest ih =>
      cases index with
      | zero => exact congrArg (· :: rest.map image) (commutes member)
      | succ index => exact congrArg (image member :: ·) (ih index)

namespace Group

variable {α β γ : Type}

/-- The group with every member replaced. -/
def map (change : α → β) (group : Group α) : Group β :=
  ⟨group.links.map change, change group.last⟩

/-- The group with the member at a place changed; beyond the links it is the last. -/
def modify (index : Nat) (change : α → α) (group : Group α) : Group α :=
  if index < group.links.length then { group with links := group.links.modify index change }
  else { group with last := change group.last }

/-- The member that counts for the whole group. -/
def counting (asks : α → Bool) (group : Group α) : α :=
  group.memberAt (group.countingIndex asks)

theorem members_map (change : α → β) (group : Group α) :
    (group.map change).members = group.members.map change := by
  rw [members, members, List.map_append]
  rfl

theorem map_map (first : α → β) (second : β → γ) (group : Group α) :
    (group.map first).map second = group.map fun member => second (first member) := by
  rw [map, map, List.map_map]
  rfl

theorem counting_index_map (asks : β → Bool) (change : α → β) (group : Group α) :
    (group.map change).countingIndex asks =
      group.countingIndex fun member => asks (change member) := by
  rw [countingIndex, countingIndex, members_map, List.findIdx?_map, map, List.length_map]
  rfl

theorem member_at_map (change : α → β) (group : Group α) (index : Nat) :
    (group.map change).memberAt index = change (group.memberAt index) := by
  rw [memberAt, memberAt, map, List.getD_eq_getElem?_getD, List.getD_eq_getElem?_getD,
    List.getElem?_map, Option.getD_map]

theorem counting_map (asks : β → Bool) (change : α → β) (group : Group α) :
    (group.map change).counting asks =
      change (group.counting fun member => asks (change member)) := by
  rw [counting, counting, counting_index_map, member_at_map]

theorem members_modify (change : α → α) {group : Group α} {index : Nat}
    (below : index < group.members.length) :
    (group.modify index change).members = group.members.modify index change := by
  rw [members, List.length_append, List.length_singleton] at below
  unfold modify
  split
  · rename_i link
    simp only [members, List.modify_eq_set_getElem?, List.getElem?_append_left link,
      List.getElem?_eq_getElem link]
    exact (List.set_append_left _ _ link).symm
  · rename_i beyond
    have last : index = group.links.length := by omega
    subst last
    simp [members, List.modify_eq_set_getElem?]

theorem member_at_modify (change : α → α) (group : Group α) (index : Nat) :
    (group.modify index change).memberAt index = change (group.memberAt index) := by
  unfold modify memberAt
  split
  · rename_i link
    simp [List.getD_eq_getElem?_getD, link]
  · rename_i beyond
    simp [List.getD_eq_getElem?_getD, Nat.le_of_not_lt beyond]

/-- What no change of a member can be seen by is kept. -/
theorem map_modify (seen : α → β) (change : α → α)
    (keeps : ∀ member, seen (change member) = seen member) (index : Nat) (group : Group α) :
    (group.modify index change).map seen = group.map seen := by
  unfold modify map
  split
  · have same : (group.links.modify index change).map seen =
        (group.links.map seen).modify index id :=
      map_modify_of_commutes seen change id keeps index group.links
    rw [same, List.modify_id]
  · rw [keeps]

theorem counting_index_modify (asks : α → Bool) (change : α → α)
    (keeps : ∀ member, asks (change member) = asks member) (index : Nat) (group : Group α) :
    (group.modify index change).countingIndex asks = group.countingIndex asks := by
  have seen := congrArg (countingIndex id) (map_modify asks change keeps index group)
  rwa [counting_index_map, counting_index_map] at seen

/-- Where everything but the changed member is known to be so, only that one is left to ask. -/
theorem forall_modify_iff {holds : α → Prop} (change : α → α) {group : Group α} {index : Nat}
    (below : index < group.members.length) (others : ∀ member ∈ group.members, holds member) :
    (∀ member ∈ (group.modify index change).members, holds member) ↔
      holds (change (group.memberAt index)) := by
  have here := group.getElem?_members_of_lt below
  rw [members_modify change below]
  constructor
  · intro all
    apply all
    apply List.mem_of_getElem? (i := index)
    rw [List.getElem?_modify_eq, here]
    rfl
  · intro changed member inside
    obtain ⟨place, found⟩ := List.mem_iff_getElem?.mp inside
    by_cases same : index = place
    · subst same
      rw [List.getElem?_modify_eq, here] at found
      cases found
      exact changed
    · rw [List.getElem?_modify_ne _ _ same] at found
      exact others member (List.mem_of_getElem? found)

theorem split_map (isLink : β → Bool) (change : α → β) (list : List α) :
    split isLink (list.map change) =
      (split (fun member => isLink (change member)) list).map (map change) := by
  induction list with
  | nil => rfl
  | cons member rest ih =>
      rw [List.map_cons, split, split, ih]
      cases isLink (change member) with
      | false => rfl
      | true => cases split (fun member => isLink (change member)) rest <;> rfl

/-- Groups are determined by their sizes and the list of all their members. -/
theorem eq_of_members {groups others : List (Group α)}
    (sizes : groups.map (·.links.length) = others.map (·.links.length))
    (same : groups.flatMap members = others.flatMap members) : groups = others := by
  induction groups generalizing others with
  | nil => exact (List.map_eq_nil_iff.mp sizes.symm).symm
  | cons group groups ih =>
      cases others with
      | nil => cases sizes
      | cons other others =>
          simp only [List.map_cons, List.cons.injEq] at sizes
          have length : group.members.length = other.members.length := by
            simp only [members, List.length_append, List.length_singleton, sizes.1]
          obtain ⟨head, tail⟩ := List.append_inj same length
          obtain ⟨links, last⟩ := List.append_inj head sizes.1
          rw [ih sizes.2 tail]
          obtain ⟨_, _⟩ := group
          obtain ⟨_, _⟩ := other
          simp only [List.cons.injEq, and_true] at links last
          rw [links, last]

/-- Groups that look like those of a list are the groups of their own members. -/
theorem split_of_same (isLink : γ → Bool) (first : α → γ) (second : β → γ) {list : List α}
    {groups : List (Group β)}
    (same : groups.map (map second) =
      (split (fun member => isLink (first member)) list).map (map first)) :
    split (fun member => isLink (second member)) (groups.flatMap members) = groups := by
  rw [← split_map] at same
  have listed : (groups.flatMap members).map second = list.map first := by
    have members := congrArg (List.flatMap members) same
    rw [flatMap_members_split, List.flatMap_map] at members
    rw [← members, List.map_flatMap]
    simp only [members_map]
  have looks := split_map isLink second (groups.flatMap members)
  rw [listed, ← same] at looks
  apply eq_of_members
  · have sizes := congrArg (List.map fun group => group.links.length) looks
    simpa only [List.map_map, Function.comp_def, map, List.length_map] using sizes.symm
  · exact flatMap_members_split _ _

end Group

namespace Visited

/-- A condition for which nothing is put off. -/
def unmarked (condition : Condition) : Visited :=
  { condition }

/-- The condition with a group put off that it counts for. -/
def putOff (postponed : Postponed) (visited : Visited) : Visited :=
  { visited with postponed := some postponed }

end Visited

namespace Visit

theorem behind_leave (visit : Visit) (conditions : List Condition) :
    (visit.leave conditions).behind =
      (conditions.map Visited.unmarked).reverse ++ visit.behind :=
  rfl

theorem behind_postpone (visit : Visit) (conditions : List Condition) (index : Nat) :
    (visit.postpone conditions index).behind =
      ((conditions.map Visited.unmarked).modify index
        (Visited.putOff ⟨conditions.map (·.clause), visit.accumulated⟩)).reverse ++ visit.behind :=
  rfl

theorem behind_count (visit : Visit) (history : History) (group : Group Condition) :
    (visit.count history group).behind =
      ((group.members.modify (group.countingIndex Condition.hasTarget) (Condition.accrue
        ((visit.sight history).allHold (group.members.map (·.clause)) visit.accumulated))).map
          Visited.unmarked).reverse ++ visit.behind := by
  rw [← group.set_member_at]
  rfl

end Visit

end Achievements
