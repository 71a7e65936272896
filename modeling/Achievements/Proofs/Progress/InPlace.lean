import Achievements.Proofs.Progress.Recorded

/-!
# Frames in place

`Achievement.evaluate` carries a frame out on the achievement itself. While its groups are visited, a
counter changes at once, a neighbour gets its hit or starts over at once, and a value is remembered at
once; a reset throws away the progress of what the achievement has become by then.
`Achievement.evaluate_eq_step` says that this is the frame of `Achievement.step`, which changes nothing
before it knows how the visit ends. What `Pass.Changes` leaves alone is all that a reset keeps, so
`Achievement.interrupted_frames` gives the achievement after a frame that was cut short in terms of the
one before it.
-/

set_option autoImplicit false

namespace Achievements

/-! ## Carrying a frame out -/

/-- A group that was put off, and the place of the condition that counts for it. -/
structure Deferred where
  place : Nat
  group : Postponed

/-- A frame under way. -/
structure Pass where
  /-- The achievement as it has been changed so far. -/
  achievement : Achievement
  /-- The place of the next condition. -/
  place : Nat := 0
  accumulated : Accumulated := {}
  allMet : Bool := true
  deferred : List Deferred := []
  tally : Tally := {}

namespace Pass

variable (history : History) (pass : Pass)

/-- What operands refer to at this point of the frame. -/
def sight : Sight :=
  ⟨history, pass.achievement.remembered⟩

/-- The pass behind a group. Nothing accumulated is left. -/
def leave (group : Group Clause) : Pass :=
  { pass with place := pass.place + group.members.length, accumulated := {} }

/-- Changes the condition at a place, if there is one. -/
def change (place : Nat) (move : Condition → Condition) : Pass :=
  { pass with
    achievement :=
      { pass.achievement with
        conditions := pass.achievement.conditions.modify place move } }

def remember (value : Number) : Pass :=
  { pass with achievement := { pass.achievement with remembered := some value } }

/-- The place of the condition that counts for the next group. -/
def countingPlace (group : Group Clause) : Nat :=
  pass.place + group.countingIndex fun clause => decide (0 < clause.target)

def postpone (group : Group Clause) : Pass :=
  { pass.leave group with
    deferred :=
      pass.deferred ++ [⟨pass.countingPlace group, ⟨group.members, pass.accumulated⟩⟩] }

def count (group : Group Clause) : Pass :=
  let sight := pass.sight history
  let place := pass.countingPlace group
  let counted := pass.change place (.accrue (sight.allHold group.members pass.accumulated))
  { counted.leave group with
    allMet := pass.allMet && counted.achievement.conditions[place]?.any (·.counter.met)
    tally :=
      if group.last.flag.isMeasured then
        pass.tally.record group.last (sight.left group.last pass.accumulated).toReal
      else pass.tally }

def accumulate (group : Group Clause) : Pass :=
  let value := (pass.sight history).value group.last.left 0
  let accumulated := pass.accumulated
  { pass.leave group with
    accumulated :=
      match group.last.flag with
      | .addSource => { accumulated with source := accumulated.source + value }
      | .subSource => { accumulated with source := accumulated.source - value }
      | .addAddress => { accumulated with bias := accumulated.bias + value.toInt }
      | _ => accumulated }

/-- The pass behind the next group, or the achievement if its progress is thrown away. -/
def next (group : Group Clause) : Except Achievement Pass :=
  let sight := pass.sight history
  let truth := sight.allHold group.members pass.accumulated
  let behind := pass.leave group
  match group.last.flag, group.isSingle fun clause => clause.flag.isLink with
  | .pauseIf, _ | .measuredIf, _ => .ok behind
  | .resetIf, _ => if truth then .error pass.achievement.resetProgress else .ok behind
  | .resetNextIf, _ => .ok (if truth then behind.change behind.place .reset else behind)
  | .trigger, _ => .ok (pass.postpone group)
  | .addSource, true | .subSource, true | .addAddress, true => .ok (pass.accumulate history group)
  | .addHits, true | .subHits, true =>
      let increment := group.last.flag == .addHits
      .ok (if truth && decide (0 < pass.place) then
        behind.change (pass.place - 1) (.adjust increment) else behind)
  | .remember, true => .ok (behind.remember (sight.left group.last pass.accumulated))
  | _, _ => .ok (pass.count history group)

/-- Counts a group that was put off; tells whether all that were counted so far are met. -/
def settle (sight : Sight) : List Condition × Bool → Deferred → List Condition × Bool
  | (conditions, met), ⟨place, group⟩ =>
      let conditions :=
        conditions.modify place (.accrue (sight.allHold group.clauses group.accumulated))
      (conditions, met && conditions[place]?.any (·.counter.met))

/-- The achievement behind all groups, and whether it unlocked. -/
def conclude (gateOpen : Bool) : Achievement × Bool :=
  let conditions := pass.achievement.conditions
  let (conditions, unlocks) :=
    if pass.allMet then pass.deferred.foldl (settle (pass.sight history)) (conditions, true)
    else (conditions, false)
  let achievement := { pass.achievement with conditions, primed := pass.allMet }
  if unlocks then ({ achievement with unlocked := true }, true)
  else ({ achievement with measure := pass.tally.publish gateOpen }, false)

end Pass

namespace Achievement

variable (history : History) (achievement : Achievement)

/-- The pass behind the first groups, or the achievement if its progress was thrown away. -/
def passUpTo (count : Nat) : Except Achievement Pass :=
  (achievement.groups.take count).foldlM (Pass.next history) { achievement }

/-- One frame passes; the result tells whether the achievement unlocked on it. -/
def evaluate : Achievement × Bool :=
  if achievement.unlocked then (achievement, false)
  else if achievement.isPaused history then ({ achievement with primed := false }, false)
  else
    let gateOpen := achievement.gateOpen history
    match achievement.groups.foldlM (Pass.next history) { achievement } with
    | .error reset => (reset, false)
    | .ok pass => pass.conclude history gateOpen

end Achievement

/-! ## What a frame changes -/

/-- What may have become of an achievement during a frame: other counters, and another value that is
remembered. -/
structure Achievement.Changes (achievement changed : Achievement) : Prop where
  clauses : changed.clauses = achievement.clauses
  others : changed =
    { achievement with conditions := changed.conditions, remembered := changed.remembered }

namespace Achievement.Changes

variable {achievement changed : Achievement}

theorem refl (achievement : Achievement) : achievement.Changes achievement :=
  ⟨rfl, rfl⟩

/-- Nothing that changes outlives a reset. -/
theorem reset_progress_eq (changes : achievement.Changes changed) :
    changed.resetProgress = achievement.resetProgress := by
  have fresh : changed.conditions.map Condition.reset = achievement.conditions.map .reset := by
    have clauses := congrArg (List.map Condition.fresh) changes.clauses
    rwa [Achievement.clauses, Achievement.clauses, List.map_map, List.map_map] at clauses
  rw [resetProgress, fresh, changes.others]
  rfl

theorem modify (changes : achievement.Changes changed) (place : Nat)
    {move : Condition → Condition} (keeps : ∀ condition, (move condition).clause = condition.clause) :
    achievement.Changes { changed with conditions := changed.conditions.modify place move } where
  clauses := by
    have same := map_modify_of_commutes Condition.clause move (fun clause => clause) keeps place
      changed.conditions
    rw [← changes.clauses]
    exact same.trans (List.modify_id _ _)
  others := by rw [changes.others]

theorem remember (changes : achievement.Changes changed) (value : Option Number) :
    achievement.Changes { changed with remembered := value } where
  clauses := changes.clauses
  others := by rw [changes.others]

end Achievement.Changes

namespace Pass

variable {history : History} {pass after : Pass} {achievement reset : Achievement}
  {group : Group Clause}

/-- A group changes counters and what is remembered, or else the progress is thrown away of what the
achievement has become by then. -/
theorem changes_of_next (changes : achievement.Changes pass.achievement)
    (visited : pass.next history group = .ok after) :
    achievement.Changes after.achievement := by
  unfold next at visited
  simp only at visited
  split at visited
  case h_3 =>
    split at visited <;> cases visited
    exact changes
  case h_4 =>
    cases visited
    split
    · exact changes.modify _ fun _ => rfl
    · exact changes
  case h_9 | h_10 =>
    cases visited
    split
    · exact changes.modify _ fun _ => rfl
    · exact changes
  case h_11 =>
    cases visited
    exact changes.remember _
  case h_12 =>
    cases visited
    exact changes.modify _ fun _ => rfl
  all_goals
    cases visited
    exact changes

theorem reset_of_next (thrown : pass.next history group = .error reset) :
    reset = pass.achievement.resetProgress := by
  unfold next at thrown
  simp only at thrown
  split at thrown
  case h_3 =>
    split at thrown <;> cases thrown
    rfl
  all_goals cases thrown

/-- By induction on the groups, no pass does more than that. -/
theorem changes_of_fold (groups : List (Group Clause))
    (changes : achievement.Changes pass.achievement)
    (visited : groups.foldlM (next history) pass = .ok after) :
    achievement.Changes after.achievement := by
  induction groups generalizing pass with
  | nil =>
      cases visited
      exact changes
  | cons group groups ih =>
      rw [List.foldlM_cons] at visited
      cases first : pass.next history group with
      | error reset =>
          rw [first] at visited
          cases visited
      | ok between =>
          rw [first] at visited
          exact ih (changes_of_next changes first) visited

/-- Whatever was changed before, the progress that is thrown away is that of the achievement as it was
before the frame. -/
theorem reset_of_fold (groups : List (Group Clause))
    (changes : achievement.Changes pass.achievement)
    (thrown : groups.foldlM (next history) pass = .error reset) :
    reset = achievement.resetProgress := by
  induction groups generalizing pass with
  | nil => cases thrown
  | cons group groups ih =>
      rw [List.foldlM_cons] at thrown
      cases first : pass.next history group with
      | error thrownFirst =>
          rw [first] at thrown
          cases thrown
          exact (reset_of_next first).trans changes.reset_progress_eq
      | ok between =>
          rw [first] at thrown
          exact ih (changes_of_next changes first) thrown

theorem next_of_reset (resets : group.last.flag = .resetIf)
    (holds : (pass.sight history).allHold group.members pass.accumulated = true) :
    pass.next history group = .error pass.achievement.resetProgress := by
  simp only [next, resets, holds, if_true]

end Pass

/-! ## The same frame -/

theorem modify_append_add {α : Type} (front back : List α) (index : Nat) (move : α → α) :
    (front ++ back).modify (front.length + index) move = front ++ back.modify index move := by
  induction front with
  | nil => rw [List.nil_append, List.length_nil, Nat.zero_add, List.nil_append]
  | cons first front ih =>
      rw [List.length_cons, Nat.add_right_comm]
      exact congrArg (first :: ·) ih

theorem modify_append_of_lt {α : Type} {front : List α} (back : List α) {index : Nat}
    (below : index < front.length) (move : α → α) :
    (front ++ back).modify index move = front.modify index move ++ back := by
  induction front generalizing index with
  | nil => cases below
  | cons first front ih =>
      cases index with
      | zero => rfl
      | succ index => exact congrArg (first :: ·) (ih (Nat.lt_of_succ_lt_succ below))

theorem Visited.conditions_unmarked (conditions : List Condition) :
    (conditions.map unmarked).map (·.condition) = conditions := by
  rw [List.map_map]
  exact List.map_id conditions

namespace Deferred

/-- What was put off by conditions from a place on. -/
def ofMarks : Nat → List (Option Postponed) → List Deferred
  | _, [] => []
  | place, none :: marks => ofMarks (place + 1) marks
  | place, some group :: marks => ⟨place, group⟩ :: ofMarks (place + 1) marks

theorem of_marks_append (place : Nat) (marks others : List (Option Postponed)) :
    ofMarks place (marks ++ others) =
      ofMarks place marks ++ ofMarks (place + marks.length) others := by
  induction marks generalizing place with
  | nil => rfl
  | cons mark marks ih =>
      have shifted : place + 1 + marks.length = place + (marks.length + 1) := by omega
      cases mark with
      | none => exact (ih (place + 1)).trans (by rw [shifted]; rfl)
      | some group => exact congrArg (_ :: ·) ((ih (place + 1)).trans (by rw [shifted]; rfl))

theorem of_marks_unmarked (place : Nat) (conditions : List Condition) :
    ofMarks place ((conditions.map Visited.unmarked).map (·.postponed)) = [] := by
  induction conditions generalizing place with
  | nil => rfl
  | cons _ conditions ih => exact ih (place + 1)

theorem of_marks_put_off (place : Nat) (group : Postponed) {conditions : List Condition}
    {index : Nat} (below : index < conditions.length) :
    ofMarks place (((conditions.map Visited.unmarked).modify index (Visited.putOff group)).map
      (·.postponed)) = [⟨place + index, group⟩] := by
  induction conditions generalizing place index with
  | nil => cases below
  | cons condition conditions ih =>
      cases index with
      | zero => exact congrArg (_ :: ·) (of_marks_unmarked (place + 1) conditions)
      | succ index =>
          have later := ih (place + 1) (Nat.lt_of_succ_lt_succ below)
          have shifted : place + 1 + index = place + (index + 1) := by omega
          rw [shifted] at later
          exact later

end Deferred

/-- Flags of conditions that do something for their neighbours, provided that they stand alone. -/
def Flag.servesNeighbours : Flag → Bool
  | .addSource | .subSource | .addAddress | .addHits | .subHits | .remember => true
  | _ => false

namespace Visit

/-- A condition that stands alone is visited like a chain of one, unless it serves its neighbours. -/
theorem single_eq_chain (visit : Visit) (history : History) {condition : Condition}
    (serves : condition.clause.flag.servesNeighbours = false) :
    visit.single history condition = visit.chain history ⟨[], condition⟩ := by
  have truth : (visit.sight history).allHold ([condition].map (·.clause)) visit.accumulated =
      (visit.sight history).holds condition.clause visit.accumulated := Sight.all_hold_single _ _ _
  have first : Group.countingIndex Condition.hasTarget ⟨[], condition⟩ = 0 :=
    Nat.lt_one_iff.mp (Group.counting_index_lt ⟨[], condition⟩ Condition.hasTarget)
  unfold single chain
  cases flag : condition.clause.flag <;> rw [flag] at serves <;>
    try exact Bool.noConfusion serves
  all_goals simp only [flag, first, Group.members, List.nil_append, truth]

section

variable (achievement : Achievement) {history : History} {visit : Visit}

/-- What a visit stands for: the achievement as it is changed by then, with the conditions that are
still to come. -/
def pass (pending : List Condition) (visit : Visit) : Pass where
  achievement :=
    { achievement with
      conditions := visit.behind.reverse.map (·.condition) ++
        (if visit.resetNext then pending.modifyHead .reset else pending)
      remembered := visit.remembered }
  place := visit.behind.length
  accumulated := visit.accumulated
  allMet := visit.allMet
  deferred := Deferred.ofMarks 0 (visit.behind.reverse.map (·.postponed))
  tally := visit.tally

/-- A reset that is due concerns the first condition of the next group. -/
theorem pass_of_reset_first (group : Group Condition) (rest : List Condition) :
    visit.pass achievement (group.members ++ rest) =
      pass achievement
        ((if visit.resetNext then resetFirst group else group).members ++ rest)
        { visit with resetNext := false } := by
  have first : (group.members ++ rest).modifyHead Condition.reset =
      (resetFirst group).members ++ rest := by
    obtain ⟨links, last⟩ := group
    cases links <;> rfl
  cases due : visit.resetNext with
  | true => simp only [pass, due, first, if_true, Bool.false_eq_true, if_false]
  | false => simp only [pass, due, Bool.false_eq_true, if_false]

variable (group : Group Condition) (rest : List Condition)

/-- The pass behind a group, whatever has become of its conditions. -/
theorem pass_of_entries {after : Visit} {entries : List Visited}
    (behind : after.behind = entries.reverse ++ visit.behind)
    (lengths : entries.length = group.members.length) (due : after.resetNext = false) :
    after.pass achievement rest =
      { achievement :=
          { achievement with
            conditions := visit.behind.reverse.map (·.condition) ++
              (entries.map (·.condition) ++ rest)
            remembered := after.remembered }
        place := visit.behind.length + group.clauses.members.length
        accumulated := after.accumulated
        allMet := after.allMet
        deferred := Deferred.ofMarks 0 (visit.behind.reverse.map (·.postponed)) ++
          Deferred.ofMarks visit.behind.length (entries.map (·.postponed))
        tally := after.tally } := by
  have sizes : group.clauses.members.length = group.members.length := by
    rw [Group.members_of_clauses, List.length_map]
  simp only [pass, behind, due, Bool.false_eq_true, if_false, List.reverse_append,
    List.reverse_reverse, List.map_append, List.append_assoc, Deferred.of_marks_append,
    List.length_append, List.length_reverse, List.length_map, lengths, sizes, Nat.zero_add,
    Nat.add_comm group.members.length]

theorem counting_place_of_pass :
    (visit.pass achievement (group.members ++ rest)).countingPlace group.clauses =
      (visit.behind.reverse.map (·.condition)).length + group.countingIndex Condition.hasTarget := by
  rw [Pass.countingPlace, Group.counting_index_of_clauses, List.length_map, List.length_reverse]
  rfl

variable (quiet : visit.resetNext = false)

include quiet

theorem pass_of_leave : (visit.leave group.members).pass achievement rest =
    (visit.pass achievement (group.members ++ rest)).leave group.clauses := by
  rw [pass_of_entries achievement group rest (behind_leave visit group.members)
    (List.length_map _) quiet, Deferred.of_marks_unmarked, List.append_nil,
    Visited.conditions_unmarked]
  simp only [pass, quiet, Pass.leave, Bool.false_eq_true, if_false]
  rfl

/-- The condition that counts for a group is changed where it stands. -/
theorem pass_of_count : (visit.count history group).pass achievement rest =
    (visit.pass achievement (group.members ++ rest)).count history group.clauses := by
  have below := group.counting_index_lt Condition.hasTarget
  have counted (move : Condition → Condition) (front : List Condition) :
      (front ++ (group.members.modify (group.countingIndex Condition.hasTarget) move ++ rest))[
        front.length + group.countingIndex Condition.hasTarget]? =
        some (move (group.memberAt (group.countingIndex Condition.hasTarget))) := by
    rw [List.getElem?_append_right (Nat.le_add_right _ _), Nat.add_sub_cancel_left,
      List.getElem?_append_left (by rwa [List.length_modify]), List.getElem?_modify_eq,
      group.getElem?_members_of_lt below]
    rfl
  rw [pass_of_entries achievement group rest (behind_count visit history group)
    (by rw [List.length_map, List.length_modify]) quiet, Deferred.of_marks_unmarked,
    List.append_nil, Visited.conditions_unmarked, Pass.count, counting_place_of_pass]
  simp only [Pass.leave, Pass.change, pass, quiet, Bool.false_eq_true, if_false, modify_append_add,
    modify_append_of_lt rest below, Group.members_of_clauses, counted, Option.any_some]
  rfl

theorem pass_of_postpone :
    (visit.postpone group.members (group.countingIndex Condition.hasTarget)).pass achievement rest =
      (visit.pass achievement (group.members ++ rest)).postpone group.clauses := by
  have below := group.counting_index_lt Condition.hasTarget
  have conditions (postponed : Postponed) (index : ℕ) : ((group.members.map Visited.unmarked).modify
      index (Visited.putOff postponed)).map (·.condition) = group.members := by
    rw [map_modify_of_commutes Visited.condition (Visited.putOff postponed) (fun condition => condition)
      (fun _ => rfl), Visited.conditions_unmarked]
    exact List.modify_id _ _
  rw [pass_of_entries achievement group rest (behind_postpone visit group.members _)
    (by rw [List.length_modify, List.length_map]) quiet, Deferred.of_marks_put_off _ _ below,
    conditions, Pass.postpone, counting_place_of_pass]
  simp only [Pass.leave, pass, quiet, Bool.false_eq_true, if_false, Group.members_of_clauses,
    List.length_map, List.length_reverse]
  rfl

theorem pass_of_accumulate (condition : Condition) :
    (visit.accumulate history condition).pass achievement rest =
      (visit.pass achievement (condition :: rest)).accumulate history ⟨[], condition.clause⟩ := by
  have left := pass_of_leave achievement ⟨[], condition⟩ rest quiet
  exact congrArg (fun pass : Pass =>
    { pass with accumulated := (visit.accumulate history condition).accumulated }) left

/-- The neighbour before a condition gets its hit where it stands. -/
theorem pass_of_adjust_behind (pending : List Condition) (increment : Bool) :
    (visit.adjustBehind increment).pass achievement pending =
      if 0 < visit.behind.length then
        (visit.pass achievement pending).change (visit.behind.length - 1) (.adjust increment)
      else visit.pass achievement pending := by
  cases behind : visit.behind with
  | nil =>
      rw [List.length_nil, if_neg (Nat.lt_irrefl 0)]
      simp only [pass, adjustBehind, behind, List.modifyHead_nil]
  | cons entry before =>
      have last := modify_append_add (before.reverse.map (·.condition)) (entry.condition :: pending) 0
        (Condition.adjust increment)
      rw [Nat.add_zero, List.length_map, List.length_reverse] at last
      rw [List.length_cons, if_pos (Nat.succ_pos _), Nat.add_sub_cancel]
      simp only [pass, Pass.change, adjustBehind, behind, quiet, Bool.false_eq_true, if_false,
        List.modifyHead_cons, List.reverse_cons, List.map_append, List.map_cons, List.map_nil,
        List.append_assoc, List.singleton_append, last, List.modify_zero_cons, List.length_cons]

theorem pass_of_reset_next (pending : List Condition) (truth : Bool) :
    pass achievement pending { visit with resetNext := truth } =
      if truth then
        (visit.pass achievement pending).change (visit.pass achievement pending).place .reset
      else visit.pass achievement pending := by
  have next := modify_append_add (visit.behind.reverse.map (·.condition)) pending 0 Condition.reset
  rw [Nat.add_zero, List.length_map, List.length_reverse] at next
  cases truth with
  | false => simp only [pass, quiet, Bool.false_eq_true, if_false]
  | true =>
      simp only [pass, quiet, Bool.false_eq_true, if_false, if_true, Pass.change, next]
      rw [List.modifyHead_eq_modify_zero]

/-- A group is visited in place as it is as a chain, unless it stands alone and serves its neighbours. -/
theorem next_of_closing (closing : group.isSingle Condition.isLink = false ∨
      group.last.clause.flag.servesNeighbours = false) :
    (visit.pass achievement (group.members ++ rest)).next history group.clauses =
      match visit.chain history group with
      | some after => .ok (after.pass achievement rest)
      | none => .error (visit.pass achievement (group.members ++ rest)).achievement.resetProgress := by
  rw [← Group.is_single_of_clauses] at closing
  have left := pass_of_leave achievement group rest quiet
  have truth : ((visit.pass achievement (group.members ++ rest)).sight history).allHold
      group.clauses.members (visit.pass achievement (group.members ++ rest)).accumulated =
      (visit.sight history).allHold (group.members.map (·.clause)) visit.accumulated := by
    rw [Group.members_of_clauses]
    rfl
  have stays : (visit.leave group.members).resetNext = false := quiet
  have due := pass_of_reset_next achievement stays rest
  rw [left] at due
  have last : group.clauses.last = group.last.clause := rfl
  unfold Pass.next Visit.chain
  cases flag : group.last.clause.flag <;> simp only [last, flag, truth]
  case resetIf =>
    split
    · rfl
    · exact congrArg Except.ok left.symm
  case resetNextIf => exact congrArg Except.ok (due _).symm
  case trigger => exact congrArg Except.ok (pass_of_postpone achievement group rest quiet).symm
  case pauseIf | measuredIf => exact congrArg Except.ok left.symm
  case plain | measured | measuredPercent | andNext | orNext =>
    exact congrArg Except.ok (pass_of_count achievement group rest quiet).symm
  -- Closing a chain, the others count like any member.
  all_goals
    rw [flag] at closing
    rw [closing.resolve_right Bool.noConfusion]
    exact congrArg Except.ok (pass_of_count achievement group rest quiet).symm

theorem next_of_single {condition : Condition} (unlinked : condition.isLink = false) :
    (visit.pass achievement (condition :: rest)).next history ⟨[], condition.clause⟩ =
      match visit.single history condition with
      | some after => .ok (after.pass achievement rest)
      | none => .error (visit.pass achievement (condition :: rest)).achievement.resetProgress := by
  cases serves : condition.clause.flag.servesNeighbours with
  | false =>
      rw [single_eq_chain visit history serves]
      exact next_of_closing achievement ⟨[], condition⟩ rest quiet (.inr serves)
  | true =>
      have alone : Group.isSingle (fun clause : Clause => clause.flag.isLink)
          ⟨[], condition.clause⟩ = true := by
        rw [Group.isSingle]
        exact congrArg (!·) unlinked
      have truth : ((visit.pass achievement (condition :: rest)).sight history).allHold
          (Group.members ⟨[], condition.clause⟩)
          (visit.pass achievement (condition :: rest)).accumulated =
          (visit.sight history).holds condition.clause visit.accumulated :=
        Sight.all_hold_single _ _ _
      have left : (visit.leave [condition]).pass achievement rest =
          (visit.pass achievement (condition :: rest)).leave ⟨[], condition.clause⟩ :=
        pass_of_leave achievement ⟨[], condition⟩ rest quiet
      unfold Pass.next Visit.single
      cases flag : condition.clause.flag <;> rw [flag] at serves <;>
        try exact Bool.noConfusion serves
      all_goals simp only [flag, alone, truth]
      case addSource | subSource | addAddress =>
        exact congrArg Except.ok (pass_of_accumulate achievement rest quiet condition).symm
      case addHits | subHits =>
        cases holds : (visit.sight history).holds condition.clause visit.accumulated with
        | false => exact congrArg Except.ok left.symm
        | true =>
            have adjusted (increment : Bool) :
                ((visit.adjustBehind increment).leave [condition]).pass achievement rest =
                  ((visit.adjustBehind increment).pass achievement (condition :: rest)).leave
                    ⟨[], condition.clause⟩ :=
              pass_of_leave achievement ⟨[], condition⟩ rest quiet
            simp only [Bool.true_and, decide_eq_true_eq, if_true, adjusted,
              pass_of_adjust_behind achievement quiet]
            refine congrArg Except.ok ?_
            change (if 0 < visit.behind.length then _ else _) = _
            split <;> rfl
      case remember =>
        exact congrArg (fun pass : Pass => Except.ok (pass.remember _)) left.symm

end

section

variable (achievement : Achievement) (history : History)

/-- One group is visited in place as it is by a visit. -/
theorem next_of_visit (visit : Visit) (group : Group Condition) (rest : List Condition) :
    (visit.pass achievement (group.members ++ rest)).next history group.clauses =
      match Visit.next history visit group with
      | some after => .ok (after.pass achievement rest)
      | none => .error (visit.pass achievement (group.members ++ rest)).achievement.resetProgress := by
  have same : (if visit.resetNext then resetFirst group else group).clauses = group.clauses := by
    split
    · exact clauses_of_reset_first group
    · rfl
  rw [pass_of_reset_first, ← same, next]
  generalize (if visit.resetNext then resetFirst group else group) = moved
  cases alone : moved.isSingle Condition.isLink with
  | true =>
      obtain ⟨links, last⟩ := moved
      rw [Group.isSingle, Bool.and_eq_true, List.isEmpty_iff, Bool.not_eq_true'] at alone
      obtain ⟨rfl, unlinked⟩ := alone
      exact next_of_single achievement rest rfl unlinked
  | false => exact next_of_closing achievement moved rest rfl (.inl alone)

/-- By induction on the groups, a whole formula is visited in place as it is by a visit. -/
theorem fold_of_visit (visit : Visit) (groups : List (Group Condition)) :
    match groups.foldlM (next history) visit with
    | some after =>
        (groups.map Group.clauses).foldlM (Pass.next history)
          (visit.pass achievement (groups.flatMap Group.members)) = .ok (after.pass achievement [])
    | none => ∃ reset,
        (groups.map Group.clauses).foldlM (Pass.next history)
          (visit.pass achievement (groups.flatMap Group.members)) = .error reset := by
  induction groups generalizing visit with
  | nil => rfl
  | cons group groups ih =>
      have first := next_of_visit achievement history visit group (groups.flatMap Group.members)
      rw [List.map_cons, List.flatMap_cons, List.foldlM_cons, List.foldlM_cons, first]
      cases Visit.next history visit group with
      | none => exact ⟨_, rfl⟩
      | some between => exact ih between

end

end Visit

/-- What was put off is counted where it stands. -/
theorem Pass.settle_of_marks (sight : Sight) (visited : List Visited) (front : List Condition)
    (met : Bool) :
    (Deferred.ofMarks front.length (visited.map (·.postponed))).foldl (settle sight)
        (front ++ visited.map (·.condition), met) =
      (front ++ visited.map (Visited.settle sight), met && !visited.any (Visited.blocks sight)) := by
  induction visited generalizing front met with
  | nil => simp [Deferred.ofMarks]
  | cons entry visited ih =>
      have later := ih (front ++ [entry.settle sight])
      rw [List.length_append, List.length_singleton] at later
      simp only [List.append_assoc, List.singleton_append] at later
      rw [List.map_cons, List.map_cons, List.map_cons, List.any_cons]
      cases postponed : entry.postponed with
      | none =>
          rw [Visited.settle_of_none postponed] at later
          rw [Visited.unblocked_of_none postponed, Visited.settle_of_none postponed, Bool.false_or]
          exact later met
      | some group =>
          have counted := modify_append_add front (entry.condition :: visited.map (·.condition)) 0
            (Condition.accrue (sight.allHold group.clauses group.accumulated))
          have settled : entry.condition.accrue (sight.allHold group.clauses group.accumulated) =
              entry.settle sight := by rw [Visited.settle, postponed]
          have blocks : entry.blocks sight = !(entry.settle sight).counter.met := by
            rw [Visited.blocks, postponed]
            rfl
          rw [Nat.add_zero, List.modify_zero_cons, settled] at counted
          simp only [Deferred.ofMarks, List.foldl_cons, settle, counted]
          rw [List.getElem?_append_right (Nat.le_refl _), Nat.sub_self, List.getElem?_cons_zero,
            Option.any_some, later, blocks, Bool.not_or, Bool.not_not, Bool.and_assoc]

theorem Pass.conclude_of_visit (achievement : Achievement) (history : History) (visit : Visit) :
    (visit.pass achievement []).conclude history (achievement.gateOpen history) =
      achievement.conclude history visit := by
  have settled := settle_of_marks (visit.sight history) visit.behind.reverse [] true
  rw [List.length_nil, List.nil_append, List.nil_append, Bool.true_and] at settled
  have pending : (if visit.resetNext = true then [].modifyHead Condition.reset else []) = [] := by
    split <;> rfl
  have sight : (visit.pass achievement []).sight history = visit.sight history := rfl
  rw [conclude, sight]
  cases met : visit.allMet with
  | false =>
      simp only [Visit.pass, pending, List.append_nil, Achievement.conclude, met,
        Bool.false_eq_true, if_false, Bool.false_and]
  | true =>
      simp only [Visit.pass, pending, List.append_nil, settled, Achievement.conclude, met, if_true,
        Bool.true_and]

namespace Achievement

variable {history : History} {achievement : Achievement}

theorem evaluate_eq_step (history : History) (achievement : Achievement) :
    achievement.evaluate history = achievement.step history := by
  have run := Visit.fold_of_visit achievement history { remembered := achievement.remembered }
    (Group.split Condition.isLink achievement.conditions)
  have groups : (Group.split Condition.isLink achievement.conditions).map Group.clauses =
      achievement.groups := Group.split_clauses _
  rw [Group.flatMap_members_split, groups] at run
  have start : Visit.pass achievement achievement.conditions
      { remembered := achievement.remembered } = { achievement } := rfl
  rw [start] at run
  rw [evaluate, step]
  split
  · rfl
  split
  · rfl
  · cases visited : Visit.all history achievement with
    | none =>
        rw [Visit.all] at visited
        rw [visited] at run
        obtain ⟨reset, thrown⟩ := run
        have same := Pass.reset_of_fold _ (Changes.refl achievement) thrown
        simp only [thrown, same]
    | some visit =>
        rw [Visit.all] at visited
        rw [visited] at run
        simp only [run, Pass.conclude_of_visit]

/-- Does the pass come to a reset that holds then? It may be single, or close a chain. -/
def ReachesReset (history : History) (achievement : Achievement) : Prop :=
  ∃ index group pass, achievement.groups[index]? = some group ∧
    achievement.passUpTo history index = .ok pass ∧ group.last.flag = .resetIf ∧
    (pass.sight history).allHold group.members pass.accumulated = true

/-- A reset ends the frame with what the achievement has become by then, but for its progress. -/
theorem thrown_of_reset {index : ℕ} {group : Group Clause} {pass : Pass}
    (place : achievement.groups[index]? = some group)
    (led : achievement.passUpTo history index = .ok pass) (resets : group.last.flag = .resetIf)
    (holds : (pass.sight history).allHold group.members pass.accumulated = true) :
    achievement.groups.foldlM (Pass.next history) { achievement } =
      .error pass.achievement.resetProgress := by
  obtain ⟨below, here⟩ := List.getElem?_eq_some_iff.mp place
  have split : achievement.groups =
      achievement.groups.take index ++ group :: achievement.groups.drop (index + 1) := by
    rw [← here, List.getElem_cons_drop, List.take_append_drop]
  rw [passUpTo] at led
  rw [split, List.foldlM_append, led]
  change (group :: _).foldlM (Pass.next history) pass = _
  rw [List.foldlM_cons, Pass.next_of_reset resets holds]
  rfl

/-- A frame is carried out in place. If a pause holds, nothing happens but that the achievement is not
primed any more. If none does and the pass comes to a reset that holds, nothing of the work is left
that was done by then: all hits of the achievement are gone, with what it remembered, and everything
else is as before the frame. On neither does it unlock. -/
theorem interrupted_frames (history : History) (achievement : Achievement)
    (locked : achievement.unlocked = false) :
    achievement.step history = achievement.evaluate history ∧
    ((∃ condition ∈ achievement.conditions, condition.clause.flag = .pauseIf ∧
        Sight.holdsAlone ⟨history, achievement.remembered⟩ condition.clause = true) →
      achievement.evaluate history = ({ achievement with primed := false }, false)) ∧
    ((∀ condition ∈ achievement.conditions, condition.clause.flag = .pauseIf →
        Sight.holdsAlone ⟨history, achievement.remembered⟩ condition.clause = false) →
      achievement.ReachesReset history →
      achievement.evaluate history =
        ({ achievement with
            conditions := achievement.conditions.map fun condition =>
              { condition with counter := { hits := 0, met := false } }
            remembered := none
            primed := false }, false)) := by
  refine ⟨(evaluate_eq_step history achievement).symm, ?_, ?_⟩
  · rintro ⟨condition, member, pause, holds⟩
    have paused : achievement.isPaused history = true := by
      rw [isPaused, List.any_eq_true]
      refine ⟨condition, member, ?_⟩
      rw [pause]
      exact holds
    rw [evaluate, if_neg (Bool.eq_false_iff.mp locked), if_pos paused]
  · intro quiet reaches
    have unpaused : achievement.isPaused history = false := by
      rw [isPaused, List.any_eq_false]
      intro condition member paused
      rw [Bool.and_eq_true, beq_iff_eq] at paused
      obtain ⟨pause, holds⟩ := paused
      exact Bool.false_ne_true ((quiet condition member pause).symm.trans holds)
    obtain ⟨index, group, pass, place, led, resets, holds⟩ := reaches
    have changes := Pass.changes_of_fold _ (Changes.refl achievement) led
    rw [evaluate, if_neg (Bool.eq_false_iff.mp locked), if_neg (Bool.eq_false_iff.mp unpaused),
      thrown_of_reset place led resets holds, changes.reset_progress_eq]
    rfl

/-- A measured count that gets a hit from its neighbour, a trigger, a value that is remembered, and
a chain closed by a reset. The chain holds because of what is remembered and accumulated for it. -/
def busy : Achievement :=
  { id := "a", formula := "f", primed := true, remembered := some (.int 3)
    conditions := [⟨{ byteEquals .measured 1 0 with target := 5 }, ⟨2, false⟩⟩,
      ⟨byteEquals .addHits 2 0, {}⟩, ⟨byteEquals .trigger 3 0, ⟨1, true⟩⟩,
      ⟨{ byteEquals .remember 4 0 with left := .constant (.int 7) }, {}⟩,
      ⟨{ byteEquals .addSource 5 0 with left := .constant (.int 1) }, {}⟩,
      ⟨{ byteEquals .andNext 6 8 with left := .recall }, {}⟩,
      ⟨byteEquals .resetIf 7 1, {}⟩] }

/-- The same, and a pause. -/
def busyPaused : Achievement :=
  { busy with conditions := ⟨byteEquals .pauseIf 0 0, {}⟩ :: busy.conditions }

/-- When the chain is reached, there are two more hits and another value is remembered. -/
theorem busy_frame_is_undone :
    (busyPaused.unlocked = false ∧
      (∃ condition ∈ busyPaused.conditions, condition.clause.flag = .pauseIf ∧
        Sight.holdsAlone ⟨zeros, busyPaused.remembered⟩ condition.clause = true) ∧
      busyPaused.evaluate zeros = ({ busyPaused with primed := false }, false)) ∧
    busy.unlocked = false ∧ busy.ReachesReset zeros ∧
      (∃ pass, busy.passUpTo zeros 5 = .ok pass ∧
        pass.achievement.conditions.map (·.counter.hits) = [4, 0, 1, 0, 0, 0, 0] ∧
        pass.achievement.remembered.map Number.toInt = some 7) ∧
      busy.evaluate zeros =
        ({ busy with
            conditions := busy.conditions.map fun condition =>
              { condition with counter := { hits := 0, met := false } }
            remembered := none
            primed := false }, false) := by
  have locked : busy.unlocked = false := rfl
  have lockedToo : busyPaused.unlocked = false := rfl
  have paused : ∃ condition ∈ busyPaused.conditions, condition.clause.flag = .pauseIf ∧
      Sight.holdsAlone ⟨zeros, busyPaused.remembered⟩ condition.clause = true :=
    ⟨⟨byteEquals .pauseIf 0 0, {}⟩, List.mem_cons_self, rfl, by decide⟩
  have halfway : ∀ pass ∈ (busy.passUpTo zeros 5).toOption,
      pass.achievement.conditions.map (·.counter.hits) = [4, 0, 1, 0, 0, 0, 0] ∧
        pass.achievement.remembered.map Number.toInt = some 7 ∧
        (pass.sight zeros).allHold [{ byteEquals .andNext 6 8 with left := .recall },
          byteEquals .resetIf 7 1] pass.accumulated = true := by decide
  cases led : busy.passUpTo zeros 5 with
  | error _ =>
      have kept : (busy.passUpTo zeros 5).toOption.isSome = true := by decide
      rw [led] at kept
      cases kept
  | ok pass =>
      rw [led] at halfway
      obtain ⟨hits, remembered, holds⟩ := halfway pass rfl
      have reaches : busy.ReachesReset zeros := ⟨5, _, pass, rfl, led, rfl, holds⟩
      exact ⟨⟨lockedToo, paused, (interrupted_frames zeros busyPaused lockedToo).2.1 paused⟩, locked,
        reaches, ⟨pass, rfl, hits, remembered⟩,
        (interrupted_frames zeros busy locked).2.2 (by decide) reaches⟩

end Achievement

end Achievements
