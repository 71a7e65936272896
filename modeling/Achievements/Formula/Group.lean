/-!
# Groups of clauses

Clauses that are joined to their successors form one group with the clause that closes the chain; a
clause outside any chain is a group by itself. Both the evaluation of a formula and the planning of
memory writes go by groups, so the partition is defined once, for lists of anything that can tell
whether it is joined to its successor.
-/

set_option autoImplicit false

namespace Achievements

/-- The members of a chain up to its last, and the last. -/
structure Group (α : Type) where
  links : List α
  last : α
  deriving Repr

namespace Group

variable {α : Type}

/-- All members in order. -/
def members (group : Group α) : List α :=
  group.links ++ [group.last]

/-- Is the group a single clause outside any chain? A chain that nothing closes still is one. -/
def isSingle (isLink : α → Bool) (group : Group α) : Bool :=
  group.links.isEmpty && !isLink group.last

/-- The place of the member that counts for the whole group: the first one that asks to, else the
last one. -/
def countingIndex (asks : α → Bool) (group : Group α) : Nat :=
  (group.members.findIdx? asks).getD group.links.length

/-- The member at a place; beyond the links it is the last. -/
def memberAt (group : Group α) (index : Nat) : α :=
  group.links.getD index group.last

/-- The partition of a list: a maximal run of joined members with the member that closes it. -/
def split (isLink : α → Bool) : List α → List (Group α)
  | [] => []
  | member :: rest =>
      match isLink member, split isLink rest with
      | true, group :: groups => ⟨member :: group.links, group.last⟩ :: groups
      | _, groups => ⟨[], member⟩ :: groups

theorem flatMap_members_split (isLink : α → Bool) (list : List α) :
    (split isLink list).flatMap members = list := by
  induction list with
  | nil => rfl
  | cons member rest ih =>
      rw [split]
      split
      · rename_i group groups _ split_rest
        rw [split_rest] at ih
        simp only [List.flatMap_cons, members] at ih ⊢
        rw [← ih]
        simp
      · simp [members, ih]

end Group

end Achievements
