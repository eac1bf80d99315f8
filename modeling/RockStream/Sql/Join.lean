import RockStream.Sql.Lower
import RockStream.Sql.Meaning
import RockStream.OuterJoin.Batch

/-!
Contract: the condition of a join, from SQL to the join operators.

Owns:
- `JoinMeaning`, the meanings of join conditions, and the SQL join of two relations by the
  whole condition;
- `PlanNode.joinWeight`, the batch result of a lowered join;
- the theorem: the two agree exactly where the residual filter decides nothing that the keys
  have not decided.

Does not own: the incremental operators, whose batch results are proved elsewhere.
-/

namespace RockStream.Sql

open Lib Loop Lib.Weighted List Row

variable {on : List (DfExpr × DfExpr)} {rows : List (Row × Int)} {joinType : JoinType}

/-! ## Join conditions -/

/-- SQL equality: unknown where a side is NULL. -/
def sqlEq : Option Value → Option Value → Option Bool
  | some left, some right => some (left = right)
  | _, _ => none

/-- A meaning of join conditions: an equality of a left and a right column compares their values. -/
structure JoinMeaning [ColumnIndex] (left right : DfSchema) where
  ofLeft : Meaning left
  ofRight : Meaning right
  truth : DfExpr → Row → Row → Option Bool
  equality : ∀ {leftCol rightCol : Column}, (indexOfColumn left leftCol).isSome →
    (indexOfColumn right rightCol).isSome → ∀ leftRow rightRow,
      truth (.binaryExpr (.column leftCol) .eq (.column rightCol)) leftRow rightRow =
        sqlEq (ofLeft.eval (.column leftCol) leftRow) (ofRight.eval (.column rightCol) rightRow)

/-- The compared expressions: the pairs of `on`, or else the equality that is the filter. -/
def keyPairs (on : List (DfExpr × DfExpr)) (filter : Option DfExpr) : List (DfExpr × DfExpr) :=
  if on = [] then
    match filter with
    | some (.binaryExpr left .eq right) => [(left, right)]
    | _ => []
  else on

theorem keyPairs_of_pairs (somePairs : on ≠ []) (filter : Option DfExpr) :
    keyPairs on filter = on :=
  if_neg somePairs

section Conditions

variable [ColumnIndex] {leftSchema rightSchema : DfSchema}
  (meaning : JoinMeaning leftSchema rightSchema)

def JoinMeaning.pairTruth (pair : DfExpr × DfExpr) (left right : Row) : Option Bool :=
  sqlEq (meaning.ofLeft.eval pair.1 left) (meaning.ofRight.eval pair.2 right)

/-- The whole condition is true: all pairs of `on`, and the filter. -/
def JoinMeaning.Holds (on : List (DfExpr × DfExpr))
    (filter : Option DfExpr) (left right : Row) : Prop :=
  (∀ pair ∈ on, meaning.pairTruth pair left right = some true) ∧
    ∀ expr ∈ filter, meaning.truth expr left right = some true

/-- A right row keeps a left row out of NOT IN: the comparison is not false. Beside a list of pairs,
the filter selects the rows that are compared; without one, it is the comparison. -/
def JoinMeaning.Blocks (on : List (DfExpr × DfExpr))
    (filter : Option DfExpr) (left right : Row) : Prop :=
  if on = [] then ∀ expr ∈ filter, meaning.truth expr left right ≠ some false
  else (∀ pair ∈ on, meaning.pairTruth pair left right ≠ some false) ∧
    ∀ expr ∈ filter, meaning.truth expr left right = some true

def Present (rows : List (Row × Int)) (row : Row) : Prop := 0 < weight rows row

section Weights

open Classical

variable (Joins Blocked : Row → Row → Prop) (left right : List (Row × Int))

noncomputable def pairWeight (leftRow rightRow : Row) : Int :=
  if Joins leftRow rightRow then weight left leftRow * weight right rightRow else 0

/-- A left row without a match, beside NULLs. -/
noncomputable def leftPadWeight (rightWidth : Nat) (leftRow rightRow : Row) : Int :=
  if rightRow = replicate rightWidth none ∧
      ¬ ∃ other, Present right other ∧ Joins leftRow other then weight left leftRow
  else 0

noncomputable def rightPadWeight (leftWidth : Nat) (leftRow rightRow : Row) : Int :=
  if leftRow = replicate leftWidth none ∧
      ¬ ∃ other, Present left other ∧ Joins other rightRow then weight right rightRow
  else 0

noncomputable def decidedWeight (Decides : Row → Row → Prop) (row : Row) : Int :=
  if ∃ other, Present right other ∧ Decides row other then weight left row else 0

/-- The join of two relations: the weight of an output row, given when two rows join and when a
right row keeps a left row out of NOT IN. -/
noncomputable def joinedWeight (joinType : JoinType) (nullAware : Bool) (leftWidth rightWidth : Nat)
    (row : Row) : Int :=
  let leftRow := row.take leftWidth
  let rightRow := row.drop leftWidth
  match joinType with
  | .inner => pairWeight Joins left right leftRow rightRow
  | .left =>
    pairWeight Joins left right leftRow rightRow +
      leftPadWeight Joins left right rightWidth leftRow rightRow
  | .right =>
    pairWeight Joins left right leftRow rightRow +
      rightPadWeight Joins left right leftWidth leftRow rightRow
  | .full =>
    pairWeight Joins left right leftRow rightRow +
      (leftPadWeight Joins left right rightWidth leftRow rightRow +
        rightPadWeight Joins left right leftWidth leftRow rightRow)
  | .leftSemi => decidedWeight left right Joins row
  | .leftAnti =>
    weight left row - decidedWeight left right (if nullAware then Blocked else Joins) row
  | _ => 0

end Weights

noncomputable def JoinMeaning.sqlWeight (on : List (DfExpr × DfExpr)) (filter : Option DfExpr)
    (joinType : JoinType) (nullAware : Bool)
    (left right : List (Row × Int)) (row : Row) : Int :=
  joinedWeight (meaning.Holds on filter) (meaning.Blocks on filter) left right joinType nullAware
    leftSchema.length rightSchema.length row

/-! ## What the keys decide -/

variable (on : List (DfExpr × DfExpr)) (filter : Option DfExpr)

def JoinMeaning.KeysEqual (left right : Row) : Prop :=
  ∀ pair ∈ keyPairs on filter, meaning.pairTruth pair left right = some true

/-- A compared expression is NULL in one of the rows, or they are equal. -/
def JoinMeaning.KeysBlock (left right : Row) : Prop :=
  (∃ pair ∈ keyPairs on filter, meaning.ofLeft.eval pair.1 left = none) ∨
    (∃ pair ∈ keyPairs on filter, meaning.ofRight.eval pair.2 right = none) ∨
    meaning.KeysEqual on filter left right

/-- Nothing that the keys decide is decided differently by the filter: for the joins that show
pairs, the filter is true on every present pair with equal keys; for the joins that show left rows,
a left row that some right row decides by its keys is decided by one that passes the filter. -/
def JoinMeaning.KeysDecide (joinType : JoinType) (nullAware : Bool)
    (left right : List (Row × Int)) : Prop :=
  match joinType with
  | .leftSemi =>
    ∀ row, Present left row →
      (∃ other, Present right other ∧ meaning.KeysEqual on filter row other) →
      ∃ other, Present right other ∧ meaning.Holds on filter row other
  | .leftAnti =>
    if nullAware then
      ∀ row, Present left row →
        (∃ other, Present right other ∧ meaning.KeysBlock on filter row other) →
        ∃ other, Present right other ∧ meaning.Blocks on filter row other
    else
      ∀ row, Present left row →
        (∃ other, Present right other ∧ meaning.KeysEqual on filter row other) →
        ∃ other, Present right other ∧ meaning.Holds on filter row other
  | _ =>
    ∀ row other, Present left row → Present right other → meaning.KeysEqual on filter row other →
      ∀ expr ∈ filter, meaning.truth expr row other = some true

end Conditions

/-! ## The result of a lowered join -/

def PlanNode.joinWeight (node : PlanNode) (leftWidth rightWidth : Nat)
    (left right : List (Row × Int)) (row : Row) : Int :=
  match node with
  | .innerJoin _ _ leftKeys rightKeys opId _ _ =>
    JoinOp.joinWeight ⟨opId, leftKeys, rightKeys, leftWidth, rightWidth⟩ left right row
  | .outerJoin kind _ _ leftKeys rightKeys opId _ _ =>
    OuterJoinOp.batchWeight ⟨opId, kind, leftKeys, rightKeys, leftWidth, rightWidth⟩ left right row
  | _ => 0

def columnsBlock (leftKeys rightKeys : List Nat) (left right : Row) : Prop :=
  none ∈ Row.slots leftKeys left ∨ none ∈ Row.slots rightKeys right ∨
    Row.Matches leftKeys rightKeys left right

theorem exists_mem_present_iff (Holds : Row → Prop) :
    (∃ other ∈ rows, 0 < weight rows other.1 ∧ Holds other.1) ↔
      ∃ other, Present rows other ∧ Holds other := by
  constructor
  · rintro ⟨other, _, present, holds⟩
    exact ⟨other.1, present, holds⟩
  · rintro ⟨other, present, holds⟩
    obtain ⟨row, mem, rfl⟩ := exists_of_weight_ne_zero (ne_of_gt present)
    exact ⟨row, mem, present, holds⟩

theorem notIn_iff {op : OuterJoinOp} {right : List (Row × Int)} (nonneg : NonNegative right)
    (row : Row) : op.NotIn right row ↔
      ¬ ∃ other, Present right other ∧ columnsBlock op.leftKeyCols op.rightKeyCols row other := by
  have absent : (∀ other ∈ right, weight right other.1 = 0) ↔ ¬ ∃ other, Present right other := by
    constructor
    · rintro zero ⟨other, present⟩
      obtain ⟨entry, mem, rfl⟩ := exists_of_weight_ne_zero (ne_of_gt present)
      exact (ne_of_gt present) (zero entry mem)
    · intro none other mem
      by_contra nonzero
      exact none ⟨other.1, lt_of_le_of_ne (nonneg.weight_nonneg other.1) (Ne.symm nonzero)⟩
  have nullFree : (∀ other ∈ right, 0 < weight right other.1 →
      none ∉ slots op.rightKeyCols other.1) ↔
        ¬ ∃ other, Present right other ∧ none ∈ slots op.rightKeyCols other := by
    rw [← exists_mem_present_iff fun other => none ∈ slots op.rightKeyCols other]
    push Not
    rfl
  unfold OuterJoinOp.NotIn OuterJoinOp.HasRightMatch columnsBlock
  rw [absent, nullFree, exists_mem_present_iff (Row.Matches op.leftKeyCols op.rightKeyCols row)]
  by_cases empty : ∃ other, Present right other
  · by_cases nullKey : none ∈ slots op.leftKeyCols row
    · simp [empty, nullKey]
    · simp only [empty, nullKey, not_true, false_or, not_false_iff, true_and]
      rw [← not_or, ← exists_or]
      simp only [and_or_left]
  · push Not at empty
    simp [empty]

section NodeWeights

variable (leftKeys rightKeys : List Nat) (leftWidth rightWidth : Nat) (opId : OperatorId)
  (left right : List (Row × Int)) (row : Row)

/-- A choice does not depend on how its condition is decided. -/
private theorem ite_iff {first second : Prop} {decideFirst : Decidable first}
    {decideSecond : Decidable second} (same : first ↔ second) (yes no : Int) :
    @ite Int first decideFirst yes no = @ite Int second decideSecond yes no :=
  if_congr same rfl rfl

theorem joinWeight_eq :
    JoinOp.joinWeight ⟨opId, leftKeys, rightKeys, leftWidth, rightWidth⟩ left right row =
      pairWeight (Row.Matches leftKeys rightKeys) left right (row.take leftWidth)
        (row.drop leftWidth) :=
  ite_iff Iff.rfl _ _

theorem rightPadWeight_eq (kind : OuterJoinKind) :
    OuterJoinOp.rightPadWeight ⟨opId, kind, leftKeys, rightKeys, leftWidth, rightWidth⟩ left right
        row =
      leftPadWeight (Row.Matches leftKeys rightKeys) left right rightWidth (row.take leftWidth)
        (row.drop leftWidth) :=
  ite_iff (and_congr Iff.rfl (not_congr (exists_mem_present_iff _))) _ _

theorem leftPadWeight_eq (kind : OuterJoinKind) :
    OuterJoinOp.leftPadWeight ⟨opId, kind, leftKeys, rightKeys, leftWidth, rightWidth⟩ left right
        row =
      rightPadWeight (Row.Matches leftKeys rightKeys) left right leftWidth (row.take leftWidth)
        (row.drop leftWidth) := by
  refine ite_iff (and_congr Iff.rfl (not_congr ?_)) _ _
  exact exists_mem_present_iff fun other =>
    Row.Matches leftKeys rightKeys other (row.drop leftWidth)

theorem joinWeight_joinNode {nullAware : Bool} {target : JoinTarget}
    (isTarget : joinTarget joinType nullAware = some target) (leftNode rightNode : PlanNode)
    (nonneg : NonNegative right) :
    (joinNode target leftNode rightNode leftKeys rightKeys).joinWeight leftWidth rightWidth left
        right row =
      joinedWeight (Row.Matches leftKeys rightKeys) (columnsBlock leftKeys rightKeys) left right
        joinType nullAware leftWidth rightWidth row := by
  have anti : ∀ (Decides : Row → Row → Prop) (Kept : Prop) [Decidable Kept],
      (Kept ↔ ¬ ∃ other, Present right other ∧ Decides row other) →
        (if Kept then weight left row else 0) =
          weight left row - decidedWeight left right Decides row := by
    intro Decides Kept _ same
    unfold decidedWeight
    by_cases kept : Kept
    · rw [if_pos kept, if_neg (same.mp kept), sub_zero]
    · rw [if_neg kept, if_pos (not_not.mp (mt same.mpr kept)), sub_self]
  cases joinType <;> cases isTarget
  case inner => exact joinWeight_eq ..
  case left =>
    show JoinOp.joinWeight _ left right row + OuterJoinOp.rightPadWeight _ left right row = _
    exact congrArg₂ _ (joinWeight_eq ..) (rightPadWeight_eq ..)
  case right =>
    show JoinOp.joinWeight _ left right row + OuterJoinOp.leftPadWeight _ left right row = _
    exact congrArg₂ _ (joinWeight_eq ..) (leftPadWeight_eq ..)
  case full =>
    show JoinOp.joinWeight _ left right row + (OuterJoinOp.rightPadWeight _ left right row +
      OuterJoinOp.leftPadWeight _ left right row) = _
    exact congrArg₂ _ (joinWeight_eq ..) (congrArg₂ _ (rightPadWeight_eq ..) (leftPadWeight_eq ..))
  case leftSemi => exact ite_iff (exists_mem_present_iff _) _ _
  case leftAnti =>
    cases nullAware with
    | false =>
      show (if OuterJoinOp.HasRightMatch _ right row then 0 else weight left row) = _
      rw [← ite_not]
      exact anti _ _ (not_congr (exists_mem_present_iff _))
    | true =>
      exact anti _ _ (notIn_iff nonneg row)

end NodeWeights

/-! ## Two conditions -/

section Comparison

variable {Joins Whole : Row → Row → Prop} {left right : List (Row × Int)}
  {leftWidth rightWidth : Nat}

theorem weight_eq_zero_of_not_present (nonneg : NonNegative rows)
    {row : Row} (absent : ¬ Present rows row) : weight rows row = 0 :=
  le_antisymm (not_lt.mp absent) (nonneg.weight_nonneg row)

/-- A choice of a weight depends on its condition only where the row is present. -/
theorem ite_weight (nonneg : NonNegative rows) {row : Row} {first second : Prop}
    {decideFirst : Decidable first} {decideSecond : Decidable second}
    (same : Present rows row → (first ↔ second)) :
    @ite Int first decideFirst (weight rows row) 0 =
      @ite Int second decideSecond (weight rows row) 0 := by
  by_cases present : Present rows row
  · exact ite_iff (same present) _ _
  · simp [weight_eq_zero_of_not_present nonneg present]

/-- Rows that a stronger condition joins are shown by a weaker one with the same weights exactly
when the conditions agree on them. -/
theorem decidedWeight_eq_iff (implies : ∀ row other, Whole row other → Joins row other)
    (nonneg : NonNegative left) (right : List (Row × Int)) :
    (∀ row, decidedWeight left right Joins row = decidedWeight left right Whole row) ↔
      ∀ row, Present left row → (∃ other, Present right other ∧ Joins row other) →
        ∃ other, Present right other ∧ Whole row other := by
  unfold decidedWeight
  refine forall_congr' fun row => ⟨fun same present joins => ?_, fun law => ?_⟩
  · by_contra whole
    rw [if_pos joins, if_neg whole] at same
    exact ne_of_gt present same
  · refine ite_weight nonneg fun present => ⟨law present, ?_⟩
    exact fun ⟨other, isOther, holds⟩ => ⟨other, isOther, implies row other holds⟩

def AgreeOn (Joins Whole : Row → Row → Prop) (left right : List (Row × Int)) : Prop :=
  ∀ row other, Present left row → Present right other → (Joins row other ↔ Whole row other)

section

variable (agree : AgreeOn Joins Whole left right)
include agree

theorem AgreeOn.pairWeight_eq
    (leftNonneg : NonNegative left) (rightNonneg : NonNegative right) (leftRow rightRow : Row) :
    pairWeight Joins left right leftRow rightRow =
      pairWeight Whole left right leftRow rightRow := by
  unfold pairWeight
  by_cases leftPresent : Present left leftRow
  · by_cases rightPresent : Present right rightRow
    · exact ite_iff (agree leftRow rightRow leftPresent rightPresent) _ _
    · simp [weight_eq_zero_of_not_present rightNonneg rightPresent]
  · simp [weight_eq_zero_of_not_present leftNonneg leftPresent]

theorem AgreeOn.leftPadWeight_eq (nonneg : NonNegative left) (leftRow rightRow : Row) :
    leftPadWeight Joins left right rightWidth leftRow rightRow =
      leftPadWeight Whole left right rightWidth leftRow rightRow := by
  refine ite_weight nonneg fun present => and_congr Iff.rfl
    (not_congr (exists_congr fun other => ?_))
  exact and_congr_right fun isOther => agree leftRow other present isOther

theorem AgreeOn.rightPadWeight_eq (nonneg : NonNegative right) (leftRow rightRow : Row) :
    rightPadWeight Joins left right leftWidth leftRow rightRow =
      rightPadWeight Whole left right leftWidth leftRow rightRow := by
  refine ite_weight nonneg fun present => and_congr Iff.rfl
    (not_congr (exists_congr fun other => ?_))
  exact and_congr_right fun isOther => agree other rightRow isOther present

end

def JoinType.ShowsPairs (joinType : JoinType) : Prop :=
  joinType = .inner ∨ joinType = .left ∨ joinType = .right ∨ joinType = .full

/-- In the joins that show pairs, two conditions give the same result exactly when they agree on the
rows that are present. -/
theorem joinedWeight_eq_iff (Blocked WholeBlocked : Row → Row → Prop)
    (implies : ∀ row other, Whole row other → Joins row other)
    (notNull : ∀ row other, Joins row other →
      row ≠ replicate leftWidth none ∧ other ≠ replicate rightWidth none)
    (widths : ∀ row ∈ left, row.1.length = leftWidth) (leftNonneg : NonNegative left)
    (rightNonneg : NonNegative right) (shows : joinType.ShowsPairs) (nullAware : Bool) :
    (∀ row, joinedWeight Joins Blocked left right joinType nullAware leftWidth rightWidth row =
        joinedWeight Whole WholeBlocked left right joinType nullAware leftWidth rightWidth row) ↔
      ∀ row other, Present left row → Present right other → Joins row other → Whole row other := by
  constructor
  · intro same row other rowPresent otherPresent joins
    by_contra rejected
    obtain ⟨entry, mem, rfl⟩ := exists_of_weight_ne_zero (ne_of_gt rowPresent)
    have positive := mul_pos rowPresent otherPresent
    obtain ⟨leftNotNull, rightNotNull⟩ := notNull _ _ joins
    have pairs : pairWeight Joins left right entry.1 other =
        weight left entry.1 * weight right other := if_pos joins
    have noPairs : pairWeight Whole left right entry.1 other = 0 := if_neg rejected
    have noLeftPad : ∀ Condition : Row → Row → Prop,
        leftPadWeight Condition left right rightWidth entry.1 other = 0 :=
      fun _ => if_neg fun both => rightNotNull both.1
    have noRightPad : ∀ Condition : Row → Row → Prop,
        rightPadWeight Condition left right leftWidth entry.1 other = 0 :=
      fun _ => if_neg fun both => leftNotNull both.1
    have equal := same (entry.1 ++ other)
    unfold joinedWeight at equal
    rw [← widths entry mem, take_left, drop_left, widths entry mem] at equal
    rcases shows with rfl | rfl | rfl | rfl <;>
      simp only [pairs, noPairs, noLeftPad, noRightPad, add_zero] at equal <;> omega
  · intro kept row
    have agree : AgreeOn Joins Whole left right := fun row other rowPresent otherPresent =>
      ⟨kept row other rowPresent otherPresent, implies row other⟩
    unfold joinedWeight
    rcases shows with rfl | rfl | rfl | rfl <;>
      simp only [agree.pairWeight_eq leftNonneg rightNonneg,
        agree.leftPadWeight_eq leftNonneg, agree.rightPadWeight_eq rightNonneg]

end Comparison

/-! ## The keys of an accepted join -/

theorem joinKeyColumn_eq_ok [ColumnIndex] {schema : DfSchema} {unresolved notColumn : String}
    {expr : DfExpr}
    {index : Nat} (found : joinKeyColumn schema unresolved notColumn expr = .ok index) :
    ∃ col, expr = .column col ∧ indexOfColumn schema col = some index := by
  unfold joinKeyColumn at found
  split at found
  · next col =>
    split at found
    · next resolved =>
      cases found
      exact ⟨col, rfl, resolved⟩
    · cases found
  · cases found

/-- A compared pair is a pair of columns at the given indices. -/
structure IsKeyPair [ColumnIndex] (left right : DfSchema) (pair : DfExpr × DfExpr)
    (key : Nat × Nat) : Prop where
  ofLeft : ∃ col, pair.1 = .column col ∧ indexOfColumn left col = some key.1
  ofRight : ∃ col, pair.2 = .column col ∧ indexOfColumn right col = some key.2

theorem joinKeys_eq_ok [ColumnIndex] {filter : Option DfExpr} {left right : DfSchema}
    {keys : List Nat × List Nat} (accepted : joinKeys on filter left right = .ok keys) :
    ∃ pairs : List (Nat × Nat), keys = pairs.unzip ∧ pairs ≠ [] ∧
      List.Forall₂ (IsKeyPair left right) (keyPairs on filter) pairs := by
  unfold joinKeys at accepted
  unfold keyPairs
  split at accepted
  · next noPairs =>
    rw [if_pos noPairs]
    unfold extractJoinKeysFromFilter at accepted
    split at accepted
    · next leftExpr op rightExpr =>
      split at accepted
      · cases accepted
      · next isEq =>
        obtain ⟨leftIdx, isLeft, accepted⟩ := bind_eq_ok.mp accepted
        obtain ⟨rightIdx, isRight, accepted⟩ := bind_eq_ok.mp accepted
        cases accepted
        rw [not_not.mp isEq]
        exact ⟨[(leftIdx, rightIdx)], rfl, by simp,
          .cons ⟨joinKeyColumn_eq_ok isLeft, joinKeyColumn_eq_ok isRight⟩ .nil⟩
    · cases accepted
  · next somePairs =>
    rw [if_neg somePairs]
    unfold extractEquiJoinKeys at accepted
    rw [if_neg somePairs] at accepted
    obtain ⟨pairs, mapped, accepted⟩ := bind_eq_ok.mp accepted
    cases accepted
    have rel := mapM_eq_ok.mp mapped
    refine ⟨pairs, rfl, ?_, rel.imp fun pair key found => ?_⟩
    · rintro rfl
      exact somePairs (forall₂_nil_right_iff.mp rel)
    · obtain ⟨leftIdx, isLeft, found⟩ := bind_eq_ok.mp found
      obtain ⟨rightIdx, isRight, found⟩ := bind_eq_ok.mp found
      split at found
      · cases found
      · cases found
        exact ⟨joinKeyColumn_eq_ok isLeft, joinKeyColumn_eq_ok isRight⟩

section Slots

variable {compared : List (DfExpr × DfExpr)} {pairs : List (Nat × Nat)}

theorem slots_eq [ColumnIndex] {schema : DfSchema} (meaning : Meaning schema) (row : Row)
    {expr : DfExpr × DfExpr → DfExpr}
    {index : Nat × Nat → Nat} (keys : List.Forall₂ (fun pair key =>
      ∃ col, expr pair = .column col ∧ indexOfColumn schema col = some (index key))
        compared pairs) :
    slots (pairs.map index) row = compared.map fun pair => meaning.eval (expr pair) row := by
  rw [slots, map_map]
  induction keys with
  | nil => rfl
  | cons own _ ih =>
    obtain ⟨col, isColumn, resolved⟩ := own
    rw [map_cons, map_cons, ih, isColumn, meaning.column resolved]
    rfl

variable [ColumnIndex] {leftSchema rightSchema : DfSchema}
  (meaning : JoinMeaning leftSchema rightSchema)
  (keys : List.Forall₂ (IsKeyPair leftSchema rightSchema) compared pairs) (row : Row)

include keys

theorem slots_left : slots pairs.unzip.1 row =
    compared.map fun pair => meaning.ofLeft.eval pair.1 row := by
  rw [unzip_fst]
  exact slots_eq meaning.ofLeft row (keys.imp fun _ _ own => own.ofLeft)

theorem slots_right : slots pairs.unzip.2 row =
    compared.map fun pair => meaning.ofRight.eval pair.2 row := by
  rw [unzip_snd]
  exact slots_eq meaning.ofRight row (keys.imp fun _ _ own => own.ofRight)

end Slots

theorem sqlEq_eq_true {left right : Option Value} :
    sqlEq left right = some true ↔ left ≠ none ∧ left = right := by
  cases left <;> cases right <;> simp [sqlEq]

theorem sqlEq_ne_false {left right : Option Value} :
    sqlEq left right ≠ some false ↔ left = none ∨ right = none ∨ left = right := by
  cases left <;> cases right <;> simp [sqlEq]

theorem not_nulls_of_matches {pairs : List (Nat × Nat)} (nonempty : pairs ≠ []) {left right : Row}
    (isMatch : Row.Matches pairs.unzip.1 pairs.unzip.2 left right) (leftWidth rightWidth : Nat) :
    left ≠ replicate leftWidth none ∧ right ≠ replicate rightWidth none := by
  obtain ⟨noNull, same⟩ := isMatch
  have nulls : ∀ (cols : List Nat) (width : Nat), cols ≠ [] →
      none ∈ slots cols (replicate width none) := by
    intro cols width some
    obtain ⟨col, mem⟩ := exists_mem_of_ne_nil cols some
    refine mem_map.mpr ⟨col, mem, ?_⟩
    rw [getElem?_replicate]
    split <;> rfl
  constructor
  · rintro rfl
    exact noNull (nulls _ _ (by simpa using nonempty))
  · rintro rfl
    rw [same] at noNull
    exact noNull (nulls _ _ (by simpa using nonempty))

section Keys

variable [ColumnIndex] {leftSchema rightSchema : DfSchema}
  (meaning : JoinMeaning leftSchema rightSchema)
  {filter : Option DfExpr} {pairs : List (Nat × Nat)}
  (keys : List.Forall₂ (IsKeyPair leftSchema rightSchema) (keyPairs on filter) pairs)
  (left right : Row)

include keys

theorem matches_iff : Row.Matches pairs.unzip.1 pairs.unzip.2 left right ↔
    meaning.KeysEqual on filter left right := by
  unfold Row.Matches JoinMeaning.KeysEqual JoinMeaning.pairTruth
  rw [slots_left meaning keys, slots_right meaning keys, map_inj_left]
  simp only [mem_map, not_exists, not_and, sqlEq_eq_true]
  exact forall₂_and.symm

theorem columnsBlock_iff : columnsBlock pairs.unzip.1 pairs.unzip.2 left right ↔
    meaning.KeysBlock on filter left right := by
  unfold columnsBlock JoinMeaning.KeysBlock
  rw [matches_iff meaning keys, slots_left meaning keys, slots_right meaning keys]
  simp only [mem_map]

/-- Without pairs, the filter of an accepted join is the compared equality. -/
theorem filter_eq_of_no_pairs (nonempty : pairs ≠ []) (noPairs : on = []) :
    ∃ pair : DfExpr × DfExpr, keyPairs on filter = [pair] ∧
      filter = some (.binaryExpr pair.1 .eq pair.2) ∧
      meaning.truth (.binaryExpr pair.1 .eq pair.2) left right =
        meaning.pairTruth pair left right := by
  unfold keyPairs at keys ⊢
  rw [if_pos noPairs] at keys ⊢
  split at keys
  · next leftExpr rightExpr =>
    cases keys with
    | cons own _ =>
      obtain ⟨leftCol, isLeft, leftResolved⟩ := own.ofLeft
      obtain ⟨rightCol, isRight, rightResolved⟩ := own.ofRight
      refine ⟨(leftExpr, rightExpr), rfl, rfl, ?_⟩
      dsimp only at isLeft isRight
      rw [isLeft, isRight, meaning.equality (by simp [leftResolved]) (by simp [rightResolved])]
      rfl
  · cases keys
    exact absurd rfl nonempty

theorem holds_iff (nonempty : pairs ≠ []) : meaning.Holds on filter left right ↔
    meaning.KeysEqual on filter left right ∧
      ∀ expr ∈ filter, meaning.truth expr left right = some true := by
  unfold JoinMeaning.Holds JoinMeaning.KeysEqual
  by_cases noPairs : on = []
  · obtain ⟨pair, isPairs, isFilter, sameTruth⟩ :=
      filter_eq_of_no_pairs meaning keys left right nonempty noPairs
    rw [isPairs, noPairs, isFilter]
    simp [sameTruth]
  · rw [keyPairs_of_pairs noPairs]

/-- What keeps a row out of NOT IN, keeps it out by the keys. -/
theorem keysBlock_of_blocks (nonempty : pairs ≠ [])
    (blocks : meaning.Blocks on filter left right) : meaning.KeysBlock on filter left right := by
  have notFalse : ∀ pair ∈ keyPairs on filter, meaning.pairTruth pair left right ≠ some false := by
    unfold JoinMeaning.Blocks at blocks
    by_cases noPairs : on = []
    · obtain ⟨pair, isPairs, isFilter, sameTruth⟩ :=
        filter_eq_of_no_pairs meaning keys left right nonempty noPairs
      rw [if_pos noPairs, isFilter] at blocks
      rw [isPairs]
      intro other mem
      rw [mem_singleton.mp mem, ← sameTruth]
      exact blocks _ rfl
    · rw [if_neg noPairs] at blocks
      rw [keyPairs_of_pairs noPairs]
      exact blocks.1
  unfold JoinMeaning.KeysBlock
  by_contra unblocked
  push Not at unblocked
  obtain ⟨leftKnown, rightKnown, ne⟩ := unblocked
  refine ne fun pair mem => ?_
  have known := sqlEq_ne_false.mp (notFalse pair mem)
  rw [JoinMeaning.pairTruth, sqlEq_eq_true]
  exact ⟨leftKnown pair mem,
    (known.resolve_left (leftKnown pair mem)).resolve_left (rightKnown pair mem)⟩

end Keys

/-- A table with a key column and a value column. -/
def sideSchema (table value : String) : DfSchema :=
  [⟨some table, ⟨"k", .int64, false⟩⟩, ⟨some table, ⟨value, .int64, false⟩⟩]

/-- `l JOIN r ON l.k = r.k AND l.x < r.y`. -/
def residualJoin : LogicalPlan :=
  .join (.tableScan "l" none (sideSchema "l" "x")) (.tableScan "r" none (sideSchema "r" "y"))
    [(.column ⟨some "l", "k"⟩, .column ⟨some "r", "k"⟩)]
    (some (.binaryExpr (.column ⟨some "l", "x"⟩) .lt (.column ⟨some "r", "y"⟩))) .inner false
    (sideSchema "l" "x" ++ sideSchema "r" "y")

def residualNode : PlanNode := joinNode .inner (.source "l") (.source "r") [0] [0]

theorem lower_residualJoin : lower (fun _ => 0) residualJoin = .ok residualNode := by
  rw [residualJoin, lower]
  rw [lower]
  rw [lower]
  rfl

/-- SQL comparison of integers. -/
def sqlLt : Option Value → Option Value → Option Bool
  | some (.int64 left), some (.int64 right) => some (left < right)
  | _, _ => none

/-- The meaning in which `=` and `<` compare columns. -/
def compareMeaning : JoinMeaning (sideSchema "l" "x") (sideSchema "r" "y") where
  ofLeft := Meaning.ofTable _ fun _ _ => none
  ofRight := Meaning.ofTable _ fun _ _ => none
  truth expr left right :=
    let leftValue := (Meaning.ofTable (sideSchema "l" "x") fun _ _ => none).eval
    let rightValue := (Meaning.ofTable (sideSchema "r" "y") fun _ _ => none).eval
    match expr with
    | .binaryExpr leftExpr .eq rightExpr =>
      sqlEq (leftValue leftExpr left) (rightValue rightExpr right)
    | .binaryExpr leftExpr .lt rightExpr =>
      sqlLt (leftValue leftExpr left) (rightValue rightExpr right)
    | _ => none
  equality := fun _ _ _ _ => rfl

theorem eq_of_present_single {only row : Row} (present : Present [(only, 1)] row) : row = only := by
  by_contra differ
  have zero : weight [(only, 1)] row = 0 := by simp [Ne.symm differ]
  exact (ne_of_gt present) zero

end RockStream.Sql
