import RockStream.OuterJoin.Run

/-!
Contract: batch equivalence of the outer, semi and anti joins.

Owns:
- `batchWeight`, the batch result of each kind on accumulated multisets of rows;
- the reading of the entry-level law over rows;
- the theorem: after any run from the empty operator, the emitted weight of every row is
  that of the batch result.

Does not own: the incremental steps.
-/

namespace RockStream

open Lib Lib.Weighted List Cell Int64Row

variable {rows : List (List Cell × Int)} {own : List Cell}

namespace OuterJoinOp

/-! ## The batch result -/

section

variable (op : OuterJoinOp)

def inner : JoinOp :=
  ⟨op.opId, op.leftKeyCols, op.rightKeyCols, op.leftNCols, op.rightNCols⟩

def HasRightMatch (right : List (Row × Int)) (row : Row) : Prop :=
  ∃ other ∈ right, 0 < weight right other.1 ∧
    Row.Matches op.leftKeyCols op.rightKeyCols row other.1

def HasLeftMatch (left : List (Row × Int)) (row : Row) : Prop :=
  ∃ other ∈ left, 0 < weight left other.1 ∧
    Row.Matches op.leftKeyCols op.rightKeyCols other.1 row

/-- `NOT IN`: a left row is kept when the right side is empty, or when neither its key nor any right
key contains NULL and it has no match. -/
def NotIn (right : List (Row × Int)) (row : Row) : Prop :=
  (∀ other ∈ right, weight right other.1 = 0) ∨
    (none ∉ Row.slots op.leftKeyCols row ∧
      (∀ other ∈ right, 0 < weight right other.1 → none ∉ Row.slots op.rightKeyCols other.1) ∧
      ¬ op.HasRightMatch right row)

instance (op : OuterJoinOp) (right : List (Row × Int)) (row : Row) :
    Decidable (op.HasRightMatch right row) :=
  inferInstanceAs (Decidable (∃ other ∈ right, _))

instance (op : OuterJoinOp) (left : List (Row × Int)) (row : Row) :
    Decidable (op.HasLeftMatch left row) :=
  inferInstanceAs (Decidable (∃ other ∈ left, _))

instance (op : OuterJoinOp) (right : List (Row × Int)) (row : Row) :
    Decidable (op.NotIn right row) :=
  inferInstanceAs (Decidable (_ ∨ _))

/-- Left rows without a match, padded with NULLs. -/
def rightPadWeight (left right : List (Row × Int)) (row : Row) : Int :=
  if row.drop op.leftNCols = replicate op.rightNCols none ∧
      ¬ op.HasRightMatch right (row.take op.leftNCols) then
    weight left (row.take op.leftNCols)
  else 0

def leftPadWeight (left right : List (Row × Int)) (row : Row) : Int :=
  if row.take op.leftNCols = replicate op.leftNCols none ∧
      ¬ op.HasLeftMatch left (row.drop op.leftNCols) then
    weight right (row.drop op.leftNCols)
  else 0

/-- The batch result of each kind: the weight of a row, given the two accumulated sides. -/
def batchWeight (left right : List (Row × Int)) (row : Row) : Int :=
  match op.kind with
  | .left => op.inner.joinWeight left right row + op.rightPadWeight left right row
  | .right => op.inner.joinWeight left right row + op.leftPadWeight left right row
  | .full =>
    op.inner.joinWeight left right row +
      (op.rightPadWeight left right row + op.leftPadWeight left right row)
  | .semi => if op.HasRightMatch right row then weight left row else 0
  | .anti => if op.HasRightMatch right row then 0 else weight left row
  | .nullAwareAnti => if op.NotIn right row then weight left row else 0

end

/-! ## Entries read as rows -/

/-- The indicator of one output row. -/
def rowTest (row : Row) (values : Int64Row) : Int := if Int64Row.toRow values = row then 1 else 0

private theorem onHalves_rowTest (row : Row) {first : Int64Row} {width : Nat}
    (length : first.length = width) (second : Int64Row) : onHalves (rowTest row) (first, second) =
      (if toRow first = row.take width then 1 else 0) *
        if toRow second = row.drop width then 1 else 0 := by
  have firstLength : (toRow first).length = width := by simpa [toRow] using length
  unfold onHalves rowTest
  simp only [toRow_append, Row.append_eq_iff firstLength]
  split <;> split <;> simp_all

section Reading

variable {op : OuterJoinOp} {leftFields rightFields : List Field}
  {left right : List (List Cell × Int)}
  (sides : op.Int64Sides leftFields rightFields)
  (leftFits : ∀ input ∈ left, Conforms leftFields input.1)
  (rightFits : ∀ input ∈ right, Conforms rightFields input.1)

/-- A sum over the entries of rows is a sum over the rows. -/
theorem integrate_entries {keyCols : List Nat} {mark : UInt8} {test : Entry → Int}
    (asRow : Row → Int)
    (agree : ∀ own ∈ rows, test (op.entry keyCols mark own.1) = asRow (own.1.map get)) :
    integrate test (op.entries keyCols mark rows) = integrate asRow (denote rows) := by
  unfold entries denote
  rw [integrate_map (op.entry keyCols mark), integrate_map (List.map get)]
  exact integrate_congr fun own mem => by rw [agree own mem]

private theorem integrate_scaled_weight {keyCols : List Nat} {mark : UInt8} {test : Entry → Int}
    {scale : Int} {value : Row} (agree : ∀ own ∈ rows, test (op.entry keyCols mark own.1) =
      scale * if own.1.map get = value then 1 else 0) :
    integrate test (op.entries keyCols mark rows) = scale * weight (denote rows) value := by
  rw [integrate_entries (fun row => scale * if row = value then 1 else 0) agree, integrate_mul_left]
  rfl

include sides

theorem joinKey_entry_iff {other : List Cell} (ownConforms : Conforms leftFields own)
    (otherConforms : Conforms rightFields other) :
    (op.entry op.rightKeyCols 1 other).joinKey = (op.entry op.leftKeyCols 0 own).joinKey ↔
      Row.Matches op.leftKeyCols op.rightKeyCols (own.map get) (other.map get) := by
  obtain ⟨ownCapsule, ownBuilt, ownEntry, _⟩ := entry_of_conforms op sides.left ownConforms 0
  obtain ⟨otherCapsule, otherBuilt, otherEntry, _⟩ :=
    entry_of_conforms op sides.right otherConforms 1
  rw [ownEntry, otherEntry]
  exact joinKey_entryOf_iff ownBuilt otherBuilt

omit sides in
/-- The weight under a key vanishes exactly when no row of positive weight is related to it. -/
private theorem keyWeight_eq_zero_iff {keyCols : List Nat} {mark : UInt8}
    {joinKey : Bytes} (Related : Row → Prop) [DecidablePred Related] (rel : ∀ input ∈ rows,
      (op.entry keyCols mark input.1).joinKey = joinKey ↔ Related (input.1.map get))
    (nonneg : NonNegative (denote rows)) :
    weight (byKey (op.entries keyCols mark rows)) joinKey = 0 ↔
      ¬ ∃ other ∈ denote rows, 0 < weight (denote rows) other.1 ∧ Related other.1 := by
  have asRows : weight (byKey (op.entries keyCols mark rows)) joinKey =
      integrate (fun row => if Related row then 1 else 0) (denote rows) :=
    (integrate_map Entry.joinKey _ _).trans
      (integrate_entries _ fun input mem => by simp only [rel input mem])
  rw [asRows]
  exact nonneg.indicator_eq_zero_iff _

include rightFits in
theorem rightKeyWeight_eq_zero_iff (ownConforms : Conforms leftFields own)
    (nonneg : NonNegative (denote right)) :
    weight (byKey (op.entries op.rightKeyCols 1 right))
      (op.entry op.leftKeyCols 0 own).joinKey = 0 ↔
      ¬ op.HasRightMatch (denote right) (own.map get) :=
  keyWeight_eq_zero_iff (Row.Matches op.leftKeyCols op.rightKeyCols (own.map get))
    (fun input mem => joinKey_entry_iff sides ownConforms (rightFits input mem)) nonneg

include leftFits in
theorem leftKeyWeight_eq_zero_iff (ownConforms : Conforms rightFields own)
    (nonneg : NonNegative (denote left)) :
    weight (byKey (op.entries op.leftKeyCols 0 left)) (op.entry op.rightKeyCols 1 own).joinKey = 0 ↔
      ¬ op.HasLeftMatch (denote left) (own.map get) := by
  refine keyWeight_eq_zero_iff (fun row => Row.Matches op.leftKeyCols op.rightKeyCols row
    (own.map get)) (fun input mem => ?_) nonneg
  rw [← joinKey_entry_iff sides (leftFits input mem) ownConforms, eq_comm]

include leftFits rightFits

theorem innerSum_rowTest (row : Row) : op.innerSum (rowTest row) (op.entries op.leftKeyCols 0 left)
        (op.entries op.rightKeyCols 1 right) =
      op.inner.joinWeight (denote left) (denote right) row := by
  refine Eq.trans (b := pairing (fun own other =>
      (if Row.Matches op.leftKeyCols op.rightKeyCols (row.take op.leftNCols)
        (row.drop op.leftNCols) then 1 else 0) *
      ((if own.map get = row.take op.leftNCols then 1 else 0) *
        (if other.map get = row.drop op.leftNCols then 1 else 0))) left right) ?_ ?_
  · unfold innerSum pairing entries
    simp only [integrate_map (op.entry _ _)]
    apply pairing_congr
    intro own ownMember other otherMember
    have ownConforms := leftFits own ownMember
    have otherConforms := rightFits other otherMember
    have ownRow := toRow_decode_entry op sides.left ownConforms 0
    have otherRow := toRow_decode_entry op sides.right otherConforms 1
    have separated := onHalves_rowTest row (length_decode_entry op sides.left ownConforms 0)
      (decode op.rightNCols (op.entry op.rightKeyCols 1 other.1).rowBytes)
    simp only [Entry.matching, joinKey_entry_iff sides ownConforms otherConforms,
      halves, separated, ownRow, otherRow]
    by_cases ownSame : own.1.map get = row.take op.leftNCols
    · by_cases otherSame : other.1.map get = row.drop op.leftNCols
      · simp [ownSame, otherSame]
      · simp [otherSame]
    · simp [ownSame]
  · rw [pairing_product, ← weight_denote, ← weight_denote, JoinOp.joinWeight]
    simp only [ite_mul, one_mul, zero_mul]
    rfl

theorem rightPaddedSum_rowTest (nonneg : NonNegative (denote right)) (row : Row) :
    op.rightPaddedSum (rowTest row) (op.entries op.leftKeyCols 0 left)
        (op.entries op.rightKeyCols 1 right) =
      op.rightPadWeight (denote left) (denote right) row := by
  unfold rightPaddedSum keptSum rightPadWeight
  rw [← boole_mul]
  apply integrate_scaled_weight
  intro own mem
  have conforms := leftFits own mem
  simp only [decide_eq_true_eq,
    rightKeyWeight_eq_zero_iff sides rightFits conforms nonneg, rightPadded,
    onHalves_rowTest row (length_decode_entry op sides.left conforms 0),
    toRow_decode_entry op sides.left conforms 0, toRow_nulls]
  by_cases same : own.1.map get = row.take op.leftNCols
  · simp only [same, if_true, one_mul, mul_one, eq_comm, ← ite_and, and_comm]
  · simp [same]

theorem leftPaddedSum_rowTest (nonneg : NonNegative (denote left)) (row : Row) :
    op.leftPaddedSum (rowTest row) (op.entries op.leftKeyCols 0 left)
        (op.entries op.rightKeyCols 1 right) =
      op.leftPadWeight (denote left) (denote right) row := by
  unfold leftPaddedSum keptSum leftPadWeight
  rw [← boole_mul]
  apply integrate_scaled_weight
  intro own mem
  have conforms := rightFits own mem
  simp only [decide_eq_true_eq,
    leftKeyWeight_eq_zero_iff sides leftFits conforms nonneg, leftPadded,
    onHalves_rowTest row (length_replicate (n := op.leftNCols) (a := none)),
    toRow_decode_entry op sides.right conforms 1, toRow_nulls]
  by_cases same : own.1.map get = row.drop op.leftNCols
  · simp only [same, if_true, mul_one, eq_comm, ← ite_and, and_comm]
  · simp [same]

omit rightFits in
theorem integrate_kept_rowTest {keep : Entry → Bool} (Kept : Row → Prop) [DecidablePred Kept]
    (agree : ∀ own ∈ left, keep (op.entry op.leftKeyCols 0 own.1) = true ↔ Kept (own.1.map get))
    (row : Row) :
    integrate (fun entry => if keep entry then rowTest row (decode op.leftNCols entry.rowBytes)
        else 0) (op.entries op.leftKeyCols 0 left) =
      if Kept row then weight (denote left) row else 0 := by
  rw [← boole_mul]
  apply integrate_scaled_weight
  intro own mem
  simp only [agree own mem, rowTest, toRow_decode_entry op sides.left (leftFits own mem) 0]
  by_cases same : own.1.map get = row <;> simp [same]

omit sides leftFits rightFits in
private theorem totalSum_eq_zero_iff (op : OuterJoinOp) (nonneg : NonNegative (denote right)) :
    totalSum (op.entries op.rightKeyCols 1 right) = 0 ↔
      ∀ other ∈ denote right, weight (denote right) other.1 = 0 := by
  have asRows : totalSum (op.entries op.rightKeyCols 1 right) =
      integrate (fun _ => 1) (denote right) := integrate_entries _ fun _ _ => rfl
  rw [asRows, nonneg.integrate_eq_zero_iff fun _ => by simp]
  simp

omit leftFits in
theorem nullSum_pos_iff (nonneg : NonNegative (denote right)) :
    0 < op.nullSum (op.entries op.rightKeyCols 1 right) ↔
      ∃ other ∈ denote right, 0 < weight (denote right) other.1 ∧
        none ∈ Row.slots op.rightKeyCols other.1 := by
  have asRows : op.nullSum (op.entries op.rightKeyCols 1 right) =
      integrate (fun row => if none ∈ Row.slots op.rightKeyCols row then 1 else 0)
        (denote right) :=
    integrate_entries _ fun other mem => by
      simp only [nullKey_entry op sides.right (rightFits other mem) 1]
  have vanishes := nonneg.indicator_eq_zero_iff fun row => none ∈ Row.slots op.rightKeyCols row
  have nonneg : 0 ≤ integrate (fun row => if none ∈ Row.slots op.rightKeyCols row then 1 else 0)
      (denote right) := nonneg.integrate_nonneg fun row => by split <;> simp
  rw [asRows, ← not_iff_not, ← vanishes]
  omega

omit leftFits in
theorem totalSum_ne_zero_of_null (nonneg : NonNegative (denote right))
    (hasNull : 0 < op.nullSum (op.entries op.rightKeyCols 1 right)) :
    totalSum (op.entries op.rightKeyCols 1 right) ≠ 0 := by
  obtain ⟨other, mem, positive, _⟩ := (nullSum_pos_iff sides rightFits nonneg).mp hasNull
  rw [ne_eq, totalSum_eq_zero_iff op nonneg]
  intro vanish
  exact positive.ne' (vanish other mem)

omit leftFits in
theorem visible_iff_notIn (nonneg : NonNegative (denote right))
    (ownConforms : Conforms leftFields own) :
    op.visible (decide (0 < op.nullSum (op.entries op.rightKeyCols 1 right)))
        (decide (totalSum (op.entries op.rightKeyCols 1 right) = 0))
        (weight (byKey (op.entries op.rightKeyCols 1 right))
          (op.entry op.leftKeyCols 0 own).joinKey)
        (op.entry op.leftKeyCols 0 own).rowBytes = true ↔
      op.NotIn (denote right) (own.map get) := by
  have isNull := nullKey_entry op sides.left ownConforms 0
  have hasNull := nullSum_pos_iff sides rightFits nonneg
  have isEmpty := totalSum_eq_zero_iff op nonneg
  have unmatched := rightKeyWeight_eq_zero_iff sides rightFits ownConforms nonneg
  -- On an empty right side there is neither a NULL key nor a match.
  have absent (vanish : ∀ other ∈ denote right, weight (denote right) other.1 = 0)
      (Test : Row × Int → Prop) :
      ¬ ∃ other ∈ denote right, 0 < weight (denote right) other.1 ∧ Test other := by
    rintro ⟨other, mem, positive, _⟩
    exact positive.ne' (vanish other mem)
  unfold visible NotIn
  by_cases nullProbe : none ∈ Row.slots op.leftKeyCols (own.map get)
  · rw [if_pos (isNull.mpr nullProbe), decide_eq_true_eq, isEmpty]
    simp [nullProbe]
  · rw [if_neg (mt isNull.mp nullProbe), Bool.and_eq_true, Bool.not_eq_true',
      decide_eq_false_iff_not, decide_eq_true_eq, hasNull, unmatched]
    constructor
    · rintro ⟨noNull, noMatch⟩
      refine .inr ⟨nullProbe, fun other mem positive inSlots => ?_, noMatch⟩
      exact noNull ⟨other, mem, positive, inSlots⟩
    · rintro (vanish | ⟨_, noNull, noMatch⟩)
      · exact ⟨absent vanish _, absent vanish _⟩
      · refine ⟨?_, noMatch⟩
        rintro ⟨other, mem, positive, inSlots⟩
        exact noNull other mem positive inSlots

theorem entrySum_rowTest (leftNonneg : NonNegative (denote left))
    (rightNonneg : NonNegative (denote right)) (row : Row) :
    op.entrySum (rowTest row) (op.entries op.leftKeyCols 0 left)
        (op.entries op.rightKeyCols 1 right) = op.batchWeight (denote left) (denote right) row := by
  have unmatched := fun own (mem : own ∈ left) => rightKeyWeight_eq_zero_iff sides
    rightFits (leftFits own mem) rightNonneg
  unfold entrySum batchWeight
  cases op.kind with
  | left =>
    rw [innerSum_rowTest sides leftFits rightFits,
      rightPaddedSum_rowTest sides leftFits rightFits rightNonneg]
  | right =>
    rw [innerSum_rowTest sides leftFits rightFits,
      leftPaddedSum_rowTest sides leftFits rightFits leftNonneg]
  | full =>
    rw [innerSum_rowTest sides leftFits rightFits,
      rightPaddedSum_rowTest sides leftFits rightFits rightNonneg,
      leftPaddedSum_rowTest sides leftFits rightFits leftNonneg]
  | semi =>
    refine integrate_kept_rowTest sides leftFits (op.HasRightMatch (denote right))
      (fun own mem => ?_) row
    rw [decide_eq_true_eq, ne_eq, unmatched own mem, not_not]
  | anti =>
    show _ = if op.HasRightMatch (denote right) row then 0 else weight (denote left) row
    rw [← ite_not]
    refine integrate_kept_rowTest sides leftFits
      (fun row => ¬ op.HasRightMatch (denote right) row) (fun own mem => ?_) row
    rw [decide_eq_true_eq, unmatched own mem]
  | nullAwareAnti =>
    exact integrate_kept_rowTest sides leftFits (op.NotIn (denote right))
      (fun own mem => visible_iff_notIn sides rightFits rightNonneg
        (leftFits own mem)) row

end Reading

/-! ## Runs -/

open JoinOp (leftInput rightInput)

structure RunInvariant (op : OuterJoinOp) (leftFields rightFields : List Field)
    (epochs : List (ArrowZSet × ArrowZSet)) (outputs : List ArrowZSet) (state : OuterJoinState) :
    Prop where
  settled : op.Settled (op.entries op.leftKeyCols 0 (leftInput epochs))
    (op.entries op.rightKeyCols 1 (rightInput epochs)) state
  law : ∃ rows, Emits (op.outputSchema leftFields rightFields) outputs rows ∧
    ∀ test, op.entrySum test (op.entries op.leftKeyCols 0 (leftInput epochs))
      (op.entries op.rightKeyCols 1 (rightInput epochs)) = integrate test rows

theorem entrySum_nil (op : OuterJoinOp) (test : Int64Row → Int) : op.entrySum test [] [] = 0 := by
  unfold entrySum
  cases op.kind <;> rfl

theorem runInvariant_new (op : OuterJoinOp) (leftFields rightFields : List Field) :
    op.RunInvariant leftFields rightFields [] [] .new :=
  ⟨⟨Arrangement.represents_empty, Arrangement.represents_empty,
    ⟨fun _ => Counts.empty, fun _ => Counts.empty, fun _ => rfl, fun _ => rfl⟩, rfl, rfl, rfl⟩,
    [], Emits.nil, fun test => op.entrySum_nil test⟩

/-- The rows of one side get different ids unless they are equal. -/
def RowIdsDistinct (op : OuterJoinOp) (keyCols : List Nat) (mark : UInt8)
    (rows : List (List Cell × Int)) : Prop :=
  EntriesDistinct (op.entries keyCols mark rows)

instance (op : OuterJoinOp) (keyCols : List Nat) (mark : UInt8) (rows : List (List Cell × Int)) :
    Decidable (op.RowIdsDistinct keyCols mark rows) :=
  inferInstanceAs (Decidable (EntriesDistinct _))

section Runs

variable {op : OuterJoinOp} {leftFields rightFields : List Field}
  {epochs : List (ArrowZSet × ArrowZSet)}
  (sides : op.Int64Sides leftFields rightFields)

theorem input_conforms {side : ArrowZSet × ArrowZSet → ArrowZSet} {fields : List Field}
    (schema : ∀ epoch ∈ epochs, (side epoch).fields = fields) :
    ∀ input ∈ epochs.flatMap (fun epoch => (side epoch).rows), Conforms fields input.1 := by
  intro input mem
  obtain ⟨epoch, inEpochs, inEpoch⟩ := mem_flatMap.mp mem
  rw [← schema epoch inEpochs]
  exact (side epoch).conforms input inEpoch

include sides

theorem runInvariant_step {outputs : List ArrowZSet} {state : OuterJoinState}
    {epoch : ArrowZSet × ArrowZSet}
    (leftSchema : ∀ other ∈ epochs ++ [epoch], other.1.fields = leftFields)
    (rightSchema : ∀ other ∈ epochs ++ [epoch], other.2.fields = rightFields)
    (rightNonneg : NonNegative (denote (rightInput (epochs ++ [epoch]))))
    (leftDistinct : op.RowIdsDistinct op.leftKeyCols 0 (leftInput (epochs ++ [epoch])))
    (rightDistinct : op.RowIdsDistinct op.rightKeyCols 1 (rightInput (epochs ++ [epoch])))
    (inv : op.RunInvariant leftFields rightFields epochs outputs state) :
    StepYields (op.processEpoch state epoch) fun result =>
      op.RunInvariant leftFields rightFields (epochs ++ [epoch]) (outputs ++ [result.1])
        result.2 := by
  have leftGrows : op.entries op.leftKeyCols 0 (leftInput (epochs ++ [epoch])) =
      op.entries op.leftKeyCols 0 (leftInput epochs) ++
        op.entries op.leftKeyCols 0 epoch.1.rows := by
    simp [entries_append, leftInput]
  have rightGrows : op.entries op.rightKeyCols 1 (rightInput (epochs ++ [epoch])) =
      op.entries op.rightKeyCols 1 (rightInput epochs) ++
        op.entries op.rightKeyCols 1 epoch.2.rows := by
    simp [entries_append, rightInput]
  have notEmpty := totalSum_ne_zero_of_null sides (by exact input_conforms rightSchema)
    rightNonneg
  unfold RowIdsDistinct at leftDistinct rightDistinct
  rw [leftGrows] at leftDistinct
  rw [rightGrows] at rightDistinct notEmpty
  refine (processEpoch_yields sides (leftSchema epoch (by simp))
    (rightSchema epoch (by simp)) inv.settled
    (entries_stored op sides.left 0 (input_conforms fun other mem =>
      leftSchema other (by simp [mem])))
    (entries_stored op sides.right 1 (input_conforms fun other mem =>
      rightSchema other (by simp [mem]))) leftDistinct rightDistinct notEmpty).weaken ?_
  rintro ⟨output, next⟩ ⟨settled, rows, emits, change⟩
  obtain ⟨oldRows, oldEmits, oldLaw⟩ := inv.law
  refine ⟨by rw [leftGrows, rightGrows]; exact settled, oldRows ++ rows, oldEmits.append emits, ?_⟩
  intro test
  rw [leftGrows, rightGrows, change, oldLaw, integrate_append]

theorem runInvariant_run (leftSchema : ∀ epoch ∈ epochs, epoch.1.fields = leftFields)
    (rightSchema : ∀ epoch ∈ epochs, epoch.2.fields = rightFields)
    (rightNonneg : ∀ done ∈ epochs.inits, NonNegative (denote (rightInput done)))
    (leftDistinct : op.RowIdsDistinct op.leftKeyCols 0 (leftInput epochs))
    (rightDistinct : op.RowIdsDistinct op.rightKeyCols 1 (rightInput epochs)) :
    StepYields (Loop.run op.processEpoch .new epochs) fun result =>
      op.RunInvariant leftFields rightFields epochs result.1 result.2 := by
  refine Meets.run (op.RunInvariant leftFields rightFields)
    (op.runInvariant_new leftFields rightFields) ?_
  intro done epoch rest emitted state split inv
  have splitAgain : epochs = (done ++ [epoch]) ++ rest := by simp [split]
  rw [splitAgain] at leftSchema rightSchema rightNonneg leftDistinct rightDistinct
  refine runInvariant_step sides (fun other mem => leftSchema other ?_)
    (fun other mem => rightSchema other ?_) (rightNonneg _ ?_)
    (EntriesDistinct.of_subset leftDistinct ?_) (EntriesDistinct.of_subset rightDistinct ?_) inv
  · exact mem_append_left _ mem
  · exact mem_append_left _ mem
  · exact (mem_inits _ _).mpr ⟨rest, rfl⟩
  · rw [JoinOp.leftInput_append (done ++ [epoch]), entries_append]
    exact subset_append_left _ _
  · rw [JoinOp.rightInput_append (done ++ [epoch]), entries_append]
    exact subset_append_left _ _

end Runs

/-- Batch equivalence of the six kinds: on inputs of one Int64 schema per side whose accumulated
weights stay non-negative, a run from the empty operator in which no weight overflows succeeds, and
the emitted weight of every row is that of the batch result on the accumulated inputs. -/
theorem processEpoch_batch (op : OuterJoinOp) (leftFields rightFields : List Field)
    (epochs : List (ArrowZSet × ArrowZSet))
    (leftSide : Int64Side leftFields op.leftKeyCols op.leftNCols)
    (rightSide : Int64Side rightFields op.rightKeyCols op.rightNCols)
    (leftSchema : ∀ epoch ∈ epochs, epoch.1.fields = leftFields)
    (rightSchema : ∀ epoch ∈ epochs, epoch.2.fields = rightFields)
    (leftNonNegative : ∀ done ∈ epochs.inits, NonNegative (denote (leftInput done)))
    (rightNonNegative : ∀ done ∈ epochs.inits, NonNegative (denote (rightInput done)))
    (leftDistinct : op.RowIdsDistinct op.leftKeyCols 0 (leftInput epochs))
    (rightDistinct : op.RowIdsDistinct op.rightKeyCols 1 (rightInput epochs))
    (noOverflow : ∀ failure, Loop.run op.processEpoch .new epochs = .error failure →
      failure.1 ≠ .overflow) :
    ∃ outputs final, Loop.run op.processEpoch .new epochs = .ok (outputs, final) ∧
      ∀ row, weight (outputs.flatMap ArrowZSet.valued) row =
        op.batchWeight (denote (leftInput epochs)) (denote (rightInput epochs)) row := by
  have sides : op.Int64Sides leftFields rightFields := ⟨leftSide, rightSide⟩
  obtain ⟨⟨outputs, final⟩, ran, invariant⟩ := (runInvariant_run sides leftSchema
    rightSchema rightNonNegative leftDistinct rightDistinct).elim noOverflow
  refine ⟨outputs, final, ran, fun row => ?_⟩
  obtain ⟨rows, emits, law⟩ := invariant.law
  have whole : epochs ∈ epochs.inits := (mem_inits _ _).mpr ⟨[], append_nil _⟩
  rw [ArrowZSet.flatMap_valued, weight_denote, emits.2,
    integrate_map (fun values : Int64Row => cells values),
    ← entrySum_rowTest sides (by exact input_conforms leftSchema)
      (by exact input_conforms rightSchema) (leftNonNegative epochs whole)
      (rightNonNegative epochs whole) row, law]
  simp only [get_cells]
  rfl

/-! ## A run -/

/-- A full outer join of two-column inputs with a nullable key. -/
def sampleOp : OuterJoinOp := ⟨7, .full, [0], [0], 2, 2⟩

/-- A key that gains and loses its match, a row with a NULL key on each side, and a retraction. -/
def sampleEpochs : List (ArrowZSet × ArrowZSet) :=
  [(JoinOp.sampleBatch [((some 1, 10), 2), ((none, 5), 1)], JoinOp.sampleBatch [((none, 6), 1)]),
    (JoinOp.sampleBatch [((some 2, 11), 1)],
      JoinOp.sampleBatch [((some 1, 20), 1), ((some 3, 21), 1)]),
    (JoinOp.sampleBatch [((some 1, 10), -1)], JoinOp.sampleBatch [((some 1, 20), -1)])]

theorem processEpoch_batch_sample : ∃ outputs final,
    Loop.run sampleOp.processEpoch .new sampleEpochs = .ok (outputs, final) ∧
      ∀ row, weight (outputs.flatMap ArrowZSet.valued) row =
        sampleOp.batchWeight (denote (leftInput sampleEpochs)) (denote (rightInput sampleEpochs))
          row := by
  have side : Int64Side [⟨"k", .int64, true⟩, ⟨"v", .int64, false⟩] [0] 2 :=
    ⟨rfl, by decide, by decide⟩
  refine processEpoch_batch sampleOp _ _ sampleEpochs side side (by decide) (by decide)
    (by decide +kernel) (by decide +kernel) (by decide +kernel) (by decide +kernel) ?_
  obtain ⟨result, ran, _⟩ := Loop.exists_ok_of_any
    (Loop.run sampleOp.processEpoch .new sampleEpochs) (fun _ => true) (by decide +kernel)
  intro failure failed
  rw [ran] at failed
  cases failed

end OuterJoinOp

end RockStream
