import Achievements.Proofs.Progress.Retargeting

/-!
# Accumulators in any order

What accumulators add to the next comparison is a sum of integers and a sum of addresses, both of
which wrap around, so the order of neighbouring accumulators that read integers makes no difference:
`Achievement.accumulators_commute`. Behind them the two visits differ only in the accumulators
themselves, of which a later clause can change the last one but nothing depends on it.
-/

set_option autoImplicit false

namespace Achievements

theorem Flag.accumulator_cases {flag : Flag} (accumulates : flag.isAccumulator = true) :
    flag = .addSource ∨ flag = .subSource ∨ flag = .addAddress := by
  cases flag
  case addSource => exact Or.inl rfl
  case subSource => exact Or.inr (Or.inl rfl)
  case addAddress => exact Or.inr (Or.inr rfl)
  all_goals cases accumulates

theorem Flag.unlinked_of_accumulator {flag : Flag} (accumulates : flag.isAccumulator = true) :
    flag.isLink = false := by
  rcases accumulator_cases accumulates with rfl | rfl | rfl <;> rfl

/-- Does an operand read as an integer while a value is remembered? -/
def Operand.readsInteger (remembered : Option Number) : Operand → Bool
  | .memory access => !access.encoding.isReal
  | .constant value => !value.isReal
  | .recall => !(remembered.getD .zero).isReal

theorem Number.exists_int_of_not_real {value : Number} (notReal : (!value.isReal) = true) :
    ∃ number, value = .int number := by
  cases value with
  | int number => exact ⟨number, rfl⟩
  | real => cases notReal

theorem Sight.exists_int_of_reads_integer {sight : Sight} {operand : Operand}
    (reads : operand.readsInteger sight.remembered = true) (bias : Int64) :
    ∃ number, sight.value operand bias = .int number := by
  cases operand with
  | memory access =>
      rw [Operand.readsInteger, Bool.not_eq_true'] at reads
      rw [value, History.read]
      simp only [reads, Bool.false_eq_true, if_false]
      exact ⟨_, rfl⟩
  | constant value => exact Number.exists_int_of_not_real reads
  | «recall» => exact Number.exists_int_of_not_real reads

namespace Accumulated

/-- What is accumulated with one more clause. -/
def gather (sight : Sight) (accumulated : Accumulated) (clause : Clause) : Accumulated :=
  let value := sight.value clause.left 0
  match clause.flag with
  | .addSource => { accumulated with source := accumulated.source + value }
  | .subSource => { accumulated with source := accumulated.source - value }
  | .addAddress => { accumulated with bias := accumulated.bias + value.toInt }
  | _ => accumulated

/-- What an accumulator adds to an integer source. -/
def sourceShare (sight : Sight) (clause : Clause) : Int64 :=
  let value := (sight.value clause.left 0).toInt
  match clause.flag with
  | .addSource => value
  | .subSource => -value
  | _ => 0

/-- What an accumulator adds to the addresses. -/
def biasShare (sight : Sight) (clause : Clause) : Int64 :=
  match clause.flag with
  | .addAddress => (sight.value clause.left 0).toInt
  | _ => 0

variable {sight : Sight}

theorem gather_of_integer {clause : Clause}
    (reads : clause.left.readsInteger sight.remembered = true) (source bias : Int64) :
    gather sight ⟨.int source, bias⟩ clause =
      ⟨.int (source + sourceShare sight clause), bias + biasShare sight clause⟩ := by
  obtain ⟨number, value⟩ := sight.exists_int_of_reads_integer reads 0
  unfold gather sourceShare biasShare
  rw [value]
  cases clause.flag
  case addSource => rw [Int64.add_zero]; rfl
  case subSource => rw [Int64.add_zero, ← Int64.sub_eq_add_neg]; rfl
  all_goals simp only [Int64.add_zero]

/-- By induction on the clauses, both sums are gathered apart from each other. -/
theorem fold_gather {clauses : List Clause}
    (reads : ∀ clause ∈ clauses, clause.left.readsInteger sight.remembered = true)
    (source bias : Int64) :
    clauses.foldl (gather sight) ⟨.int source, bias⟩ =
      ⟨.int (clauses.foldl (fun sum clause => sum + sourceShare sight clause) source),
        clauses.foldl (fun sum clause => sum + biasShare sight clause) bias⟩ := by
  induction clauses generalizing source bias with
  | nil => rfl
  | cons clause clauses ih =>
      rw [List.forall_mem_cons] at reads
      rw [List.foldl_cons, gather_of_integer reads.1, ih reads.2]
      rfl

theorem fold_add_perm {α : Type} (share : α → Int64) {items others : List α}
    (permuted : items.Perm others) (start : Int64) :
    items.foldl (fun sum item => sum + share item) start =
      others.foldl (fun sum item => sum + share item) start := by
  apply permuted.foldl_eq'
  intro first _ second _ sum
  rw [Int64.add_assoc, Int64.add_comm (share first), ← Int64.add_assoc]

theorem gather_perm {clauses others : List Clause} (permuted : clauses.Perm others)
    (reads : ∀ clause ∈ clauses, clause.left.readsInteger sight.remembered = true) :
    clauses.foldl (gather sight) {} = others.foldl (gather sight) {} := by
  have readsToo : ∀ clause ∈ others, clause.left.readsInteger sight.remembered = true :=
    fun clause member => reads clause (permuted.mem_iff.mpr member)
  have gathered := fold_gather reads 0 0
  rw [fold_add_perm _ permuted, fold_add_perm _ permuted, ← fold_gather readsToo] at gathered
  exact gathered

end Accumulated

namespace Visit

variable {history : History} {visit after : Visit}

/-- An accumulator is passed, and what is left behind of it is not put off. -/
theorem next_of_accumulator (history : History) (visit : Visit) {condition : Condition}
    (accumulates : condition.clause.flag.isAccumulator = true) :
    ∃ entry : Visited, entry.postponed = none ∧ next history visit ⟨[], condition⟩ =
      some { visit with
        behind := entry :: visit.behind
        accumulated := .gather (visit.sight history) visit.accumulated condition.clause
        resetNext := false } := by
  let moved := if visit.resetNext then condition.reset else condition
  have clause : moved.clause = condition.clause := by
    unfold moved
    split <;> rfl
  refine ⟨Visited.unmarked moved, rfl, ?_⟩
  rw [next_of_unlinked history visit (Flag.unlinked_of_accumulator accumulates)]
  change single _ history moved = _
  rcases Flag.accumulator_cases accumulates with flag | flag | flag <;>
    simp only [single, accumulate, Accumulated.gather, clause, flag] <;> rfl

/-- By induction on them, accumulators are gathered, and none of them is put off. Whether the first
one was to start over is settled with it. -/
theorem fold_of_accumulators (history : History) (visit : Visit) {block : List Condition}
    (accumulates : ∀ condition ∈ block, condition.clause.flag.isAccumulator = true) :
    ∃ entries : List Visited, entries.length = block.length ∧
      (∀ entry ∈ entries, entry.postponed = none) ∧
      (Group.split Condition.isLink block).foldlM (next history) visit =
        some { visit with
          behind := entries ++ visit.behind
          accumulated :=
            (block.map (·.clause)).foldl (.gather (visit.sight history)) visit.accumulated
          resetNext := visit.resetNext && block.isEmpty } := by
  induction block generalizing visit with
  | nil =>
      refine ⟨[], rfl, by simp, ?_⟩
      rw [List.isEmpty_nil, Bool.and_true]
      rfl
  | cons condition block ih =>
      rw [List.forall_mem_cons] at accumulates
      have unlinked : condition.isLink = false := Flag.unlinked_of_accumulator accumulates.1
      obtain ⟨entry, idle, first⟩ := next_of_accumulator history visit accumulates.1
      obtain ⟨entries, length, idles, rest⟩ := ih _ accumulates.2
      refine ⟨entries ++ [entry], ?_, ?_, ?_⟩
      · rw [List.length_append, length]
        rfl
      · rw [List.forall_mem_append, List.forall_mem_singleton]
        exact ⟨idles, idle⟩
      · rw [Group.split_cons_of_unlinked unlinked, List.foldlM_cons, first, Option.bind_eq_bind,
          Option.bind_some, rest, List.append_assoc, List.isEmpty_cons, Bool.and_false]
        rfl

/-- What two visits have left behind at the same places, none of it put off. -/
structure Beside (first second : List Visited) : Prop where
  length : first.length = second.length
  idle : ∀ entry ∈ first, entry.postponed = none
  idleToo : ∀ entry ∈ second, entry.postponed = none

section Permuted

variable {block other : List Condition} (permuted : block.Perm other) (filled : block ≠ [])
  (accumulates : ∀ condition ∈ block, condition.clause.flag.isAccumulator = true)
include permuted filled accumulates

/-- From where nothing is accumulated, a visit goes past two orders of the same accumulators and on in
the same way. -/
theorem fold_past_permuted (history : History) (cleared : visit.accumulated = {})
    (integers : ∀ condition ∈ block,
      condition.clause.left.readsInteger visit.remembered = true)
    (groups : List (Group Condition)) :
    let visitOf := fun conditions : List Condition =>
      (Group.split Condition.isLink conditions ++ groups).foldlM (next history) visit
    (visitOf block = none ∧ visitOf other = none) ∨
      ∃ (rest : Visit) (entries others : List Visited),
        visitOf block = some (rest.atop (entries ++ visit.behind)) ∧
        visitOf other = some (rest.atop (others ++ visit.behind)) ∧
        entries.length = block.length ∧ Beside entries others := by
  intro visitOf
  have accumulatesToo : ∀ condition ∈ other, condition.clause.flag.isAccumulator = true :=
    fun condition member => accumulates condition (permuted.mem_iff.mpr member)
  let sight := visit.sight history
  have gathered : (block.map (·.clause)).foldl (Accumulated.gather sight) {} =
      (other.map (·.clause)).foldl (Accumulated.gather sight) {} :=
    Accumulated.gather_perm (permuted.map _) (List.forall_mem_map.mpr integers)
  -- Behind either order the visit is this one, atop of the accumulators.
  let middle : Visit := { visit with
    behind := []
    accumulated := (block.map (·.clause)).foldl (Accumulated.gather sight) {}
    resetNext := false }
  have goes : ∀ list : List Condition, list ≠ [] →
      (∀ condition ∈ list, condition.clause.flag.isAccumulator = true) →
      (list.map (·.clause)).foldl (Accumulated.gather sight) {} = middle.accumulated →
      ∃ entry entries, (entry :: entries).length = list.length ∧
        (∀ visited ∈ entry :: entries, visited.postponed = none) ∧
        visitOf list =
          groups.foldlM (next history) (middle.atop (entry :: (entries ++ visit.behind))) := by
    intro list filled accumulates sum
    obtain ⟨entries, length, idle, folded⟩ := fold_of_accumulators history visit accumulates
    obtain ⟨entry, entries, rfl⟩ := List.exists_cons_of_length_pos
      (length ▸ List.length_pos_iff.mpr filled)
    refine ⟨entry, entries, length, idle, ?_⟩
    rw [cleared, sum, List.isEmpty_eq_false_iff.mpr filled, Bool.and_false] at folded
    simp only [visitOf, List.foldlM_append, folded]
    rfl
  have filledToo : other ≠ [] := fun empty => filled (List.perm_nil.mp (empty ▸ permuted))
  obtain ⟨entry, entries, length, idle, one⟩ := goes block filled accumulates rfl
  obtain ⟨entryToo, others, lengthToo, idleToo, two⟩ :=
    goes other filledToo accumulatesToo gathered.symm
  rw [one, two]
  have nothing : middle.behind = [] := rfl
  rcases fold_onto history groups nothing with thrown | ⟨rest, change, keeps, ended⟩
  · exact Or.inl ⟨thrown _ _, thrown _ _⟩
  · refine Or.inr ⟨rest, change entry :: entries, change entryToo :: others, ended _ _, ended _ _,
      length, ?_, ?_, ?_⟩
    · exact (length.trans permuted.length_eq).trans lengthToo.symm
    · rw [List.forall_mem_cons] at idle ⊢
      exact ⟨(keeps entry).trans idle.1, idle.2⟩
    · rw [List.forall_mem_cons] at idleToo ⊢
      exact ⟨(keeps entryToo).trans idleToo.1, idleToo.2⟩

/-- Visits of two orders of the same accumulators. A reset ends both, or they end with the same but
for the accumulators. -/
theorem visits_of_permuted (history : History) {before : List Condition}
    (apart : ∀ last ∈ before.getLast?,
      last.clause.flag.isLink = false ∧ last.clause.flag.isAccumulator = false)
    (start : Visit) (cleared : start.accumulated = {}) (nothing : start.behind = [])
    (integers : ∀ visit,
      (Group.split Condition.isLink before).foldlM (next history) start = some visit →
        ∀ condition ∈ block, condition.clause.left.readsInteger visit.remembered = true)
    (after : List Condition) :
    let visitOf := fun conditions : List Condition =>
      (Group.split Condition.isLink conditions).foldlM (next history) start
    let first := visitOf (before ++ block ++ after)
    let second := visitOf (before ++ other ++ after)
    (first = none ∧ second = none) ∨
      ∃ (rest : Visit) (earlier entries others : List Visited),
        first = some (rest.atop (entries ++ earlier)) ∧
        second = some (rest.atop (others ++ earlier)) ∧
        earlier.length = before.length ∧ entries.length = block.length ∧ Beside entries others := by
  intro visitOf first second
  have parts : ∀ list : List Condition,
      (∀ condition ∈ list, condition.clause.flag.isAccumulator = true) →
      visitOf (before ++ list ++ after) =
        ((Group.split Condition.isLink before).foldlM (next history) start).bind fun visit =>
          (Group.split Condition.isLink list ++ Group.split Condition.isLink after).foldlM
            (next history) visit := by
    intro list accumulates
    have closed : ∀ last ∈ before.getLast?, last.isLink = false :=
      fun last member => (apart last member).1
    have closedToo : ∀ last ∈ list.getLast?, last.isLink = false := fun last member =>
      Flag.unlinked_of_accumulator (accumulates last (List.mem_of_mem_getLast? member))
    simp only [visitOf]
    rw [List.append_assoc, Group.split_append closed, Group.split_append closedToo,
      List.foldlM_append]
    rfl
  have accumulatesToo : ∀ condition ∈ other, condition.clause.flag.isAccumulator = true :=
    fun condition member => accumulates condition (permuted.mem_iff.mpr member)
  simp only [first, second]
  rw [parts block accumulates, parts other accumulatesToo]
  cases led : (Group.split Condition.isLink before).foldlM (next history) start with
  | none => exact Or.inl ⟨rfl, rfl⟩
  | some visit =>
      have length : visit.behind.length = before.length := by
        have clauses := congrArg List.length (clauses_of_fold nothing led)
        rwa [Group.flatMap_members_split, List.length_map, List.length_map, List.length_reverse]
          at clauses
      have clearedToo := accumulated_of_fold cleared (fun last member => (apart last member).2) led
      rcases fold_past_permuted permuted filled accumulates history clearedToo
        (integers visit led) (Group.split Condition.isLink after) with
        thrown | ⟨rest, entries, others, one, two, lengths, beside⟩
      · exact Or.inl thrown
      · exact Or.inr ⟨rest, visit.behind, entries, others, one, two, length, lengths, beside⟩

end Permuted

end Visit

namespace Achievement

/-- The visit of some first conditions, on a frame on which it gets past them: the achievement is
locked, no pause holds, and none of them throws progress away. -/
def Arrives (history : History) (achievement : Achievement) (first : List Condition)
    (visit : Visit) : Prop :=
  achievement.unlocked = false ∧ achievement.isPaused history = false ∧
    (Group.split Condition.isLink first).foldlM (Visit.next history)
      { remembered := achievement.remembered } = some visit

/-- Two achievements after a frame, and whether they unlocked on it. Nothing tells them apart but
conditions from one place up to another. -/
structure AgreeAround (first last : Nat) (one two : Achievement × Bool) : Prop where
  reports : one.2 = two.2
  primed : one.1.primed = two.1.primed
  unlocked : one.1.unlocked = two.1.unlocked
  remembered : one.1.remembered = two.1.remembered
  measure : one.1.measure = two.1.measure
  before : one.1.conditions.take first = two.1.conditions.take first
  after : one.1.conditions.drop last = two.1.conditions.drop last

theorem AgreeAround.of_lists {one two : Achievement × Bool} {first last : Nat}
    {before entries others after : List Condition}
    (conditions : one.1.conditions = before ++ entries ++ after)
    (conditionsToo : two.1.conditions = before ++ others ++ after) (length : before.length = first)
    (ends : first + entries.length = last) (same : entries.length = others.length)
    (reports : one.2 = two.2) (primed : one.1.primed = two.1.primed)
    (unlocked : one.1.unlocked = two.1.unlocked) (remembered : one.1.remembered = two.1.remembered)
    (measure : one.1.measure = two.1.measure) : AgreeAround first last one two := by
  subst length ends
  refine ⟨reports, primed, unlocked, remembered, measure, ?_, ?_⟩
  · rw [conditions, conditionsToo, List.append_assoc, List.append_assoc, List.take_left,
      List.take_left]
  · rw [conditions, conditionsToo, ← List.length_append, List.drop_left, List.length_append, same,
      ← List.length_append, List.drop_left]

variable {history : History} {first second : Achievement}

/-- Two visits that leave other conditions behind at the same places, but nothing else, end alike. -/
theorem conclude_of_beside {rest : Visit} {earlier entries others : List Visited}
    (beside : Visit.Beside entries others) (unlocked : first.unlocked = second.unlocked)
    (measure : first.measure = second.measure)
    (gate : first.gateOpen history = second.gateOpen history) :
    AgreeAround earlier.length (earlier.length + entries.length)
      (first.conclude history (rest.atop (entries ++ earlier)))
      (second.conclude history (rest.atop (others ++ earlier))) := by
  have unblocked : ∀ list : List Visited, (∀ entry ∈ list, entry.postponed = none) →
      ∀ entry ∈ list.reverse, entry.blocks (rest.sight history) = false := fun list idle entry member =>
    Visited.unblocked_of_none (idle entry (List.mem_reverse.mp member)) _
  have reports : (first.conclude history (rest.atop (entries ++ earlier))).2 =
      (second.conclude history (rest.atop (others ++ earlier))).2 := by
    rw [Bool.eq_iff_iff, unlocks_of_conclude_atop, unlocks_of_conclude_atop]
    exact and_congr_right fun _ => and_congr_right fun _ => and_congr_left fun _ =>
      iff_of_true (unblocked entries beside.idle) (unblocked others beside.idleToo)
  apply AgreeAround.of_lists (conditions_of_conclude_atop _ _ _ _ _)
    (conditions_of_conclude_atop _ _ _ _ _)
  · rw [List.length_map, List.length_reverse]
  · rw [List.length_map, List.length_reverse]
  · rw [List.length_map, List.length_reverse, List.length_map, List.length_reverse, beside.length]
  · exact reports
  · rw [primed_of_conclude, primed_of_conclude]
    rfl
  · rw [unlocked_after_conclude, unlocked_after_conclude, unlocked, reports]
  · rw [remembered_of_conclude, remembered_of_conclude]
    rfl
  · rw [measure_of_conclude, measure_of_conclude, measure, gate, reports]
    rfl

/-- The order of neighbouring accumulators makes no difference to a frame, if their left operands
read as integers when the visit comes to them, and if the condition before them neither accumulates
nor is joined to the first of them. The achievement unlocks or not, is primed, remembers and
publishes the same, and all other conditions are the same after the frame. Sums may wrap around. -/
theorem accumulators_commute (history : History) (achievement : Achievement)
    {before block other after : List Condition}
    (listed : achievement.conditions = before ++ block ++ after) (permuted : block.Perm other)
    (accumulates : ∀ condition ∈ block, condition.clause.flag.isAccumulator = true)
    (apart : ∀ last ∈ before.getLast?,
      last.clause.flag.isLink = false ∧ last.clause.flag.isAccumulator = false)
    (integers : ∀ visit, achievement.Arrives history before visit →
      ∀ condition ∈ block, condition.clause.left.readsInteger visit.remembered = true) :
    AgreeAround before.length (before.length + block.length) (achievement.step history)
      ({ achievement with conditions := before ++ other ++ after }.step history) := by
  rcases eq_or_ne block [] with rfl | filled
  · rw [List.nil_perm.mp permuted, ← listed]
    exact ⟨rfl, rfl, rfl, rfl, rfl, rfl, rfl⟩
  generalize moved : { achievement with conditions := before ++ other ++ after } = reordered
  have listedToo : reordered.conditions = before ++ other ++ after := by rw [← moved]
  have unlocked : achievement.unlocked = reordered.unlocked := by rw [← moved]
  have primed : achievement.primed = reordered.primed := by rw [← moved]
  have remembered : achievement.remembered = reordered.remembered := by rw [← moved]
  have measure : achievement.measure = reordered.measure := by rw [← moved]
  have conditions : achievement.conditions.Perm reordered.conditions := by
    rw [listed, listedToo]
    exact (permuted.append_left before).append_right after
  have pauses : achievement.isPaused history = reordered.isPaused history := by
    rw [isPaused, isPaused, remembered, conditions.any_eq]
  have gate : achievement.gateOpen history = reordered.gateOpen history := by
    rw [gateOpen, gateOpen, remembered, (conditions.filter _).all_eq]
  apply step_related unlocked pauses
  · exact fun _ => .of_lists listed listedToo rfl rfl permuted.length_eq rfl primed unlocked
      remembered measure
  · exact fun _ => .of_lists listed listedToo rfl rfl permuted.length_eq rfl rfl unlocked
      remembered measure
  · intro locked unpaused
    have visits := Visit.visits_of_permuted permuted filled accumulates history apart
      { remembered := achievement.remembered } rfl rfl
      (fun visit led => integers visit ⟨locked, unpaused, led⟩) after
    simp only [← listed, ← listedToo] at visits
    rcases visits with ⟨thrown, thrownToo⟩ |
      ⟨rest, earlier, entries, others, all, allToo, length, lengths, beside⟩
    · rw [remembered] at thrownToo
      refine Or.inl ⟨thrown, thrownToo, ?_⟩
      have reset : ∀ list : List Condition, (before ++ list ++ after).map Condition.reset =
          before.map Condition.reset ++ list.map Condition.reset ++ after.map Condition.reset := by
        intro list
        rw [List.map_append, List.map_append]
      apply AgreeAround.of_lists ((congrArg _ listed).trans (reset block))
        ((congrArg _ listedToo).trans (reset other)) (List.length_map _)
      · rw [List.length_map]
      · rw [List.length_map, List.length_map, permuted.length_eq]
      · rfl
      · rfl
      · exact unlocked
      · rfl
      · exact measure
    · rw [remembered] at allToo
      rw [← length, ← lengths]
      exact Or.inr ⟨_, _, all, allToo, conclude_of_beside beside unlocked measure gate⟩

/-- A sum that wraps around, of a remembered value and the largest integer, less a byte, and an
address. -/
def terms : List Condition :=
  [⟨{ byteEquals .addSource 0 0 with left := .recall }, {}⟩,
    ⟨{ byteEquals .addSource 0 0 with left := .constant (.int Int64.maxValue), target := 2 },
      ⟨1, true⟩⟩,
    ⟨byteEquals .addAddress 1 0, {}⟩, ⟨byteEquals .subSource 2 0, ⟨3, false⟩⟩]

/-- The terms behind a value that is remembered and a reset of the first of them, before a count of
hits for the last of them and the comparison that they are for. -/
def summing : Achievement :=
  { id := "a", formula := "f"
    conditions := [⟨{ byteEquals .remember 0 0 with left := .constant (.int 7) }, {}⟩,
      ⟨byteEquals .resetNextIf 3 0, {}⟩] ++ terms ++
        [⟨byteEquals .measured 4 (-9223372036854775802), {}⟩, ⟨byteEquals .addHits 5 0, {}⟩] }

theorem terms_commute :
    let before := summing.conditions.take 2
    let after := summing.conditions.drop 6
    summing.conditions = before ++ terms ++ after ∧ terms.Perm terms.reverse ∧
      (∀ condition ∈ terms, condition.clause.flag.isAccumulator = true) ∧
      (∀ last ∈ before.getLast?,
        last.clause.flag.isLink = false ∧ last.clause.flag.isAccumulator = false) ∧
      (∀ visit, summing.Arrives zeros before visit →
        ∀ condition ∈ terms, condition.clause.left.readsInteger visit.remembered = true) ∧
      (summing.step zeros).2 = true ∧
      ({ summing with conditions := before ++ terms.reverse ++ after }.step zeros).2 = true := by
  intro before after
  have listed : summing.conditions = before ++ terms ++ after := rfl
  have accumulates : ∀ condition ∈ terms, condition.clause.flag.isAccumulator = true := by decide
  have apart : ∀ last ∈ before.getLast?,
      last.clause.flag.isLink = false ∧ last.clause.flag.isAccumulator = false := by decide
  have integers : ∀ visit, summing.Arrives zeros before visit →
      ∀ condition ∈ terms, condition.clause.left.readsInteger visit.remembered = true := by
    rintro visit ⟨-, -, led⟩
    have remembers : some (some (.int 7)) = some visit.remembered :=
      congrArg (Option.map Visit.remembered) led
    rw [← Option.some.inj remembers]
    decide
  have unlocks : (summing.step zeros).2 = true := by decide
  have agree := accumulators_commute zeros summing listed (List.reverse_perm terms).symm accumulates
    apart integers
  exact ⟨listed, (List.reverse_perm terms).symm, accumulates, apart, integers, unlocks,
    agree.reports.symm.trans unlocks⟩

end Achievement

end Achievements
