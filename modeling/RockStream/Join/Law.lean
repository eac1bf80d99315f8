import RockStream.Join.Op

/-!
Contract: the bilinear law of the inner equi-join.

Owns:
- what each part of an epoch emits, as a list over the staged entries;
- the law over entries: after any run, the emitted rows are the pairing of the
  accumulated left entries with the accumulated right entries;
- the law over rows, and what the arrangements hold.

Does not own: the encoding of keys, which `KeyCapsule` shows injective.
-/

namespace RockStream

open Lib Loop Lib.Weighted List Bytes ArrowZSet

variable {left right : List Cell} {row : List Cell × Int} {next : JoinState}
  {epoch : ArrowZSet × ArrowZSet} {output : ArrowZSet} {epochs : List (ArrowZSet × ArrowZSet)}
  {outputs : List ArrowZSet} {input : List (List Cell × Int)}

namespace JoinOp

variable {op : JoinOp} {keyCols : List Nat} {cells : List Cell} {state : JoinState}
  {entry : Entry}

/-! ## What an epoch emits -/

def staged (op : JoinOp) (keyCols : List Nat) (rows : List (List Cell × Int)) :
    List (Entry × Int) :=
  rows.filterMap fun row =>
    match op.stagedEntry keyCols row.1 with
    | .ok (some entry) => some (entry, row.2)
    | _ => none

def Accepts (op : JoinOp) (keyCols : List Nat) (rows : List (List Cell × Int)) : Prop :=
  ∀ row ∈ rows, ∃ entry, op.stagedEntry keyCols row.1 = .ok entry

def joined (op : JoinOp) (left right : Bytes) : List Cell :=
  (deserializeRow left op.leftNCols ++ deserializeRow right op.rightNCols).map Cell.ofInt64

theorem joinRows_eq_ok {left right : List Int64 × Int} (made : joinRows left right = .ok row) :
    row = ((left.1 ++ right.1).map Cell.ofInt64, left.2 * right.2) := by
  obtain ⟨weight, multiplied, done⟩ := bind_eq_ok.mp made
  obtain ⟨_, rfl⟩ := mulI64_eq_ok.mp multiplied
  cases done
  rfl

theorem joinBytes_eq_ok {left right : Bytes × Int} (made : op.joinBytes left right = .ok row) :
    row = (op.joined left.1 right.1, left.2 * right.2) :=
  joinRows_eq_ok made

private theorem staged_append (op : JoinOp) (keyCols : List Nat)
    (first second : List (List Cell × Int)) :
    op.staged keyCols (first ++ second) = op.staged keyCols first ++ op.staged keyCols second :=
  filterMap_append

private theorem accepts_append {first second : List (List Cell × Int)}
    (firstAccepts : op.Accepts keyCols first) (secondAccepts : op.Accepts keyCols second) :
    op.Accepts keyCols (first ++ second) := by
  exact forall_mem_append.mpr ⟨firstAccepts, secondAccepts⟩

/-- What a delta function leaves: the staged rows, and one output row for every staged row and
every row its probe finds. -/
theorem processDelta_eq_ok {probe : Bytes → List (Bytes × Int)}
    {join : Bytes × Int → Bytes × Int → Exec (List Cell × Int)}
    {stage : JoinState → Entry → Int → JoinState}
    {emit : Bytes × Int → Bytes × Int → List Cell × Int}
    (emits : ∀ own other row, join own other = .ok row → row = emit own other)
    {delta batch : ArrowZSet}
    (done : op.processDelta keyCols probe join stage state delta = .ok (batch, next)) :
    next = (op.staged keyCols delta.rows).foldl (fun state row => stage state row.1 row.2) state ∧
      batch.rows = ((op.staged keyCols delta.rows).flatMap fun row =>
        (probe row.1.joinKey).map (emit (row.1.rowBytes, row.2))) ∧
      op.Accepts keyCols delta.rows := by
  obtain ⟨⟨final, out⟩, looped, done⟩ := bind_eq_ok.mp done
  obtain ⟨made, built, done⟩ := bind_eq_ok.mp done
  cases done
  rw [Exec.within_eq_ok] at built
  rw [(tryNew_eq_ok built).2]
  let Holds (consumed : List (List Cell × Int))
      (current : JoinState × List (List Cell × Int)) : Prop :=
    current.1 = (op.staged keyCols consumed).foldl
      (fun state row => stage state row.1 row.2) state ∧
      current.2 = ((op.staged keyCols consumed).flatMap fun row =>
        (probe row.1.joinKey).map (emit (row.1.rowBytes, row.2))) ∧
      op.Accepts keyCols consumed
  have held : Holds delta.rows (next, out) := by
    refine foldlM_invariant Holds ?_ ⟨rfl, rfl, by simp [Accepts]⟩ looped
    rintro consumed current row after ⟨sameState, sameOut, accepts⟩ stepped
    obtain ⟨entry, extracted, stepped⟩ := bind_eq_ok.mp stepped
    rw [Exec.within_eq_ok] at extracted
    have acceptsRow : op.Accepts keyCols (consumed ++ [row]) :=
      accepts_append accepts (by simp [Accepts, extracted])
    show after.1 = _ ∧ after.2 = _ ∧ _
    rw [staged_append]
    cases entry with
    | none =>
      cases stepped
      have skipped : op.staged keyCols [row] = [] := by simp [staged, extracted]
      rw [skipped, append_nil]
      exact ⟨sameState, sameOut, acceptsRow⟩
    | some entry =>
      obtain ⟨joinedRows, mapped, stepped⟩ := bind_eq_ok.mp stepped
      cases stepped
      rw [Exec.within_eq_ok] at mapped
      have kept : op.staged keyCols [row] = [(entry, row.2)] := by simp [staged, extracted]
      rw [kept, foldl_append, flatMap_append, ← sameState, ← sameOut,
        eq_map_of_mapM_eq_ok (fun other => emits (entry.rowBytes, row.2) other) mapped]
      exact ⟨rfl, by simp, acceptsRow⟩
  exact held

theorem correction_eq_ok {out : List (List Cell × Int)} (done : op.correction state = .ok out) :
    out = state.leftStaged.rows.flatMap fun row =>
      (state.rightStaged.rows.filter fun other => other.1.joinKey = row.1.joinKey).map fun other =>
        (op.joined row.1.rowBytes other.1.rowBytes, row.2 * other.2) := by
  obtain ⟨parts, mapped, done⟩ := bind_eq_ok.mp done
  cases done
  congr 1
  refine eq_map_of_mapM_eq_ok ?_ mapped
  intro row part made
  rw [eq_map_of_mapM_eq_ok (fun _ _ => joinRows_eq_ok) made, rightByKey,
    HashMap.lookup_groupBy, map_map]
  rfl

/-- Staging rows on one side of a state. -/
private theorem foldl_staged {rows : List (Entry × Int)} {delta : StagedDelta}
    {stage : JoinState → Entry × Int → JoinState} (set : StagedDelta → JoinState)
    (folded : next = rows.foldl stage (set delta))
    (stages : ∀ delta row, stage (set delta) row = set (delta.push row.1 row.2)) :
    ∃ stagedBytes, next = set ⟨delta.rows ++ rows, stagedBytes⟩ := by
  subst folded
  induction rows generalizing delta with
  | nil => exact ⟨delta.stagedBytes, by simp⟩
  | cons row rows ih =>
    rw [foldl_cons, stages, append_cons]
    exact ih

def leftDelta (op : JoinOp) (epoch : ArrowZSet × ArrowZSet) : List (Entry × Int) :=
  op.staged op.leftKeyCols epoch.1.rows

def rightDelta (op : JoinOp) (epoch : ArrowZSet × ArrowZSet) : List (Entry × Int) :=
  op.staged op.rightKeyCols epoch.2.rows

/-- What a successful epoch does, from a state with nothing staged. -/
structure EpochSpec (op : JoinOp) (state next : JoinState) (epoch : ArrowZSet × ArrowZSet)
    (output : ArrowZSet) : Prop where
  rows : output.rows =
    joinDeltas op.joined state.leftArr state.rightArr (op.leftDelta epoch) (op.rightDelta epoch)
  leftDrained : ∃ stateBytes final,
    Arranged.drain ⟨state.leftArr, stateBytes, state.dirtyLeft⟩ (op.leftDelta epoch) = .ok final ∧
      next.leftArr = final.arr ∧ next.dirtyLeft = final.dirty
  rightDrained : ∃ stateBytes final,
    Arranged.drain ⟨state.rightArr, stateBytes, state.dirtyRight⟩ (op.rightDelta epoch) =
        .ok final ∧
      next.rightArr = final.arr ∧ next.dirtyRight = final.dirty
  leftEmpty : next.leftStaged.rows = []
  rightEmpty : next.rightStaged.rows = []
  leftAccepts : op.Accepts op.leftKeyCols epoch.1.rows
  rightAccepts : op.Accepts op.rightKeyCols epoch.2.rows

theorem processEpoch_eq_ok
    (leftEmpty : state.leftStaged.rows = []) (rightEmpty : state.rightStaged.rows = [])
    (done : op.processEpoch state epoch = .ok (output, next)) :
    op.EpochSpec state next epoch output := by
  obtain ⟨⟨leftOut, afterLeft⟩, leftDone, done⟩ := bind_eq_ok.mp done
  obtain ⟨⟨rightOut, afterRight⟩, rightDone, done⟩ := bind_eq_ok.mp done
  obtain ⟨⟨both, committed⟩, commitDone, done⟩ := bind_eq_ok.mp done
  obtain ⟨combined, concatenated, done⟩ := bind_eq_ok.mp done
  cases done
  rw [Exec.within_eq_ok] at concatenated
  obtain ⟨leftState, leftRows, leftAccepts⟩ :=
    processDelta_eq_ok (fun _ _ _ => joinBytes_eq_ok) leftDone
  have swapped : ∀ own other row, op.joinBytes other own = .ok row →
      row = (op.joined other.1 own.1, own.2 * other.2) := by
    intro own other row made
    rw [joinBytes_eq_ok made, Int.mul_comm]
  obtain ⟨rightState, rightRows, rightAccepts⟩ := processDelta_eq_ok swapped rightDone
  obtain ⟨leftBytes, rfl⟩ :=
    foldl_staged (fun delta => { state with leftStaged := delta }) leftState fun _ _ => rfl
  obtain ⟨rightBytes, rfl⟩ :=
    foldl_staged (fun delta => { state with leftStaged := _, rightStaged := delta }) rightState
      fun _ _ => rfl
  rw [leftEmpty, rightEmpty] at commitDone
  obtain ⟨out, corrected, commitDone⟩ := bind_eq_ok.mp commitDone
  obtain ⟨after, applied, commitDone⟩ := bind_eq_ok.mp commitDone
  obtain ⟨batch, built, commitDone⟩ := bind_eq_ok.mp commitDone
  cases commitDone
  rw [Exec.within_eq_ok] at corrected applied built
  obtain ⟨leftSide, leftDrained, applied⟩ := bind_eq_ok.mp applied
  obtain ⟨rightSide, rightDrained, applied⟩ := bind_eq_ok.mp applied
  cases applied
  refine ⟨?_, ⟨_, _, leftDrained, rfl, rfl⟩, ⟨_, _, rightDrained, rfl, rfl⟩, rfl, rfl, leftAccepts,
    rightAccepts⟩
  rw [concatZsets_rows concatenated]
  simp only [flatMap_cons, flatMap_nil, append_nil]
  rw [leftRows, rightRows, (tryNew_eq_ok built).2, correction_eq_ok corrected,
    ← append_assoc]
  rfl

/-! ## The law over entries -/

def outputTest (op : JoinOp) (test : List Cell → Int) : Entry → Entry → Int :=
  Entry.matching fun left right => test (op.joined left right)

def leftInput (epochs : List (ArrowZSet × ArrowZSet)) : List (List Cell × Int) :=
  epochs.flatMap fun epoch => epoch.1.rows

def rightInput (epochs : List (ArrowZSet × ArrowZSet)) : List (List Cell × Int) :=
  epochs.flatMap fun epoch => epoch.2.rows

@[simp] theorem leftInput_append (first second : List (ArrowZSet × ArrowZSet)) :
    leftInput (first ++ second) = leftInput first ++ leftInput second :=
  flatMap_append

@[simp] theorem rightInput_append (first second : List (ArrowZSet × ArrowZSet)) :
    rightInput (first ++ second) = rightInput first ++ rightInput second :=
  flatMap_append

/-- The rows of one side get different ids unless they are equal: `stable_row_id` is injective on
the rows involved. -/
def RowIdsDistinct (op : JoinOp) (keyCols : List Nat) (rows : List (List Cell × Int)) : Prop :=
  EntriesDistinct (op.staged keyCols rows)

instance (op : JoinOp) (keyCols : List Nat) (rows : List (List Cell × Int)) :
    Decidable (op.RowIdsDistinct keyCols rows) :=
  inferInstanceAs (Decidable (EntriesDistinct _))

theorem RowIdsDistinct.of_subset {rows more : List (List Cell × Int)}
    (distinct : op.RowIdsDistinct keyCols more) (subset : rows ⊆ more) :
    op.RowIdsDistinct keyCols rows :=
  EntriesDistinct.of_subset distinct (filterMap_subset _ subset)

structure RunInvariant (op : JoinOp) (epochs : List (ArrowZSet × ArrowZSet))
    (outputs : List ArrowZSet) (state : JoinState) : Prop where
  left : state.leftArr.Represents (op.staged op.leftKeyCols (leftInput epochs))
  right : state.rightArr.Represents (op.staged op.rightKeyCols (rightInput epochs))
  leftEmpty : state.leftStaged.rows = []
  rightEmpty : state.rightStaged.rows = []
  leftAccepts : op.Accepts op.leftKeyCols (leftInput epochs)
  rightAccepts : op.Accepts op.rightKeyCols (rightInput epochs)
  law : ∀ test, integrate test (outputs.flatMap ArrowZSet.rows) =
    pairing (op.outputTest test) (op.staged op.leftKeyCols (leftInput epochs))
      (op.staged op.rightKeyCols (rightInput epochs))

theorem runInvariant_new (op : JoinOp) : op.RunInvariant [] [] .new :=
  ⟨Arrangement.represents_empty, Arrangement.represents_empty, rfl,
    rfl, by simp [Accepts, leftInput],
    by simp [Accepts, rightInput], fun _ => rfl⟩

theorem runInvariant_step
    (leftDistinct : op.RowIdsDistinct op.leftKeyCols (leftInput (epochs ++ [epoch])))
    (rightDistinct : op.RowIdsDistinct op.rightKeyCols (rightInput (epochs ++ [epoch])))
    (inv : op.RunInvariant epochs outputs state)
    (done : op.processEpoch state epoch = .ok (output, next)) :
    op.RunInvariant (epochs ++ [epoch]) (outputs ++ [output]) next := by
  have spec := processEpoch_eq_ok inv.leftEmpty inv.rightEmpty done
  have leftGrows : op.staged op.leftKeyCols (leftInput (epochs ++ [epoch])) =
      op.staged op.leftKeyCols (leftInput epochs) ++ op.leftDelta epoch := by
    simp [staged_append, leftDelta, leftInput]
  have rightGrows : op.staged op.rightKeyCols (rightInput (epochs ++ [epoch])) =
      op.staged op.rightKeyCols (rightInput epochs) ++ op.rightDelta epoch := by
    simp [staged_append, rightDelta, rightInput]
  obtain ⟨_, leftFinal, leftDrained, leftSame, _⟩ := spec.leftDrained
  obtain ⟨_, rightFinal, rightDrained, rightSame, _⟩ := spec.rightDrained
  unfold RowIdsDistinct at leftDistinct rightDistinct
  rw [leftGrows] at leftDistinct
  rw [rightGrows] at rightDistinct
  refine ⟨?_, ?_, spec.leftEmpty, spec.rightEmpty, ?_, ?_, ?_⟩
  · rw [leftSame, leftGrows]
    exact Arranged.represents_drain leftDistinct inv.left
      (fun row mem => ⟨row, by simp [mem], rfl⟩)
      (fun row mem => ⟨row, by simp [mem], rfl⟩) leftDrained
  · rw [rightSame, rightGrows]
    exact Arranged.represents_drain rightDistinct inv.right
      (fun row mem => ⟨row, by simp [mem], rfl⟩)
      (fun row mem => ⟨row, by simp [mem], rfl⟩) rightDrained
  · rw [leftInput_append]
    exact accepts_append inv.leftAccepts (by simpa [leftInput] using spec.leftAccepts)
  · rw [rightInput_append]
    exact accepts_append inv.rightAccepts (by simpa [rightInput] using spec.rightAccepts)
  · intro test
    rw [leftGrows, rightGrows, outputTest, integrate_joinDeltas op.joined test inv.left
      inv.right, flatMap_append, integrate_append, inv.law]
    simp [spec.rows, outputTest]

private theorem flatMap_subset_of_subset {α β : Type} {expand : α → List β} {items more : List α}
    (subset : items ⊆ more) : items.flatMap expand ⊆ more.flatMap expand := by
  intro value mem
  obtain ⟨item, inside, produced⟩ := mem_flatMap.mp mem
  exact mem_flatMap.mpr ⟨item, subset inside, produced⟩

theorem runInvariant_run
    {final : JoinState} (leftDistinct : op.RowIdsDistinct op.leftKeyCols (leftInput epochs))
    (rightDistinct : op.RowIdsDistinct op.rightKeyCols (rightInput epochs))
    (ran : Loop.run op.processEpoch .new epochs = .ok (outputs, final)) :
    op.RunInvariant epochs outputs final := by
  refine run_invariant
    (fun done emitted state => done ⊆ epochs → op.RunInvariant done emitted state)
    ?_ (fun _ => op.runInvariant_new) ran (List.Subset.refl epochs)
  intro done emitted state epoch output next inv stepped subset
  refine runInvariant_step (leftDistinct.of_subset ?_) (rightDistinct.of_subset ?_)
    (inv fun other mem => subset (by simp [mem])) stepped
  · exact flatMap_subset_of_subset subset
  · exact flatMap_subset_of_subset subset

/-! ## The law over rows -/

/-- The columns outside the key hold no NULL. -/
def PayloadValid (keyCols : List Nat) (cells : List Cell) : Prop :=
  ∀ slot ∈ cells.zipIdx, slot.2 ∉ keyCols → slot.1.valid = true

instance (keyCols : List Nat) (cells : List Cell) : Decidable (PayloadValid keyCols cells) :=
  inferInstanceAs (Decidable (∀ slot ∈ cells.zipIdx, slot.2 ∉ keyCols → slot.1.valid = true))

theorem serializeRow_eq_ok {bytes : Bytes} (done : serializeRow cells = .ok bytes) :
    ∃ values : List Int64, cells.map Cell.raw = values.map .int64 ∧
      bytes = values.flatMap ofInt64 := by
  obtain ⟨words, mapped, ended⟩ := bind_eq_ok.mp done
  cases ended
  have rel := mapM_eq_ok.mp mapped
  clear mapped done
  induction rel with
  | nil => exact ⟨[], rfl, rfl⟩
  | @cons cell word cells words called _ ih =>
    obtain ⟨values, sameRaw, sameBytes⟩ := ih
    unfold Cell.int64? at called
    cases raw : cell.raw with
    | int64 value =>
      rw [raw] at called
      cases called
      exact ⟨value :: values, by simp [raw, sameRaw], by simp [sameBytes]⟩
    | _ =>
      rw [raw] at called
      cases called

theorem stagedEntry_eq_some (found : op.stagedEntry keyCols cells = .ok (some entry)) :
    ∃ (capsule : KeyCapsule) (values : List Int64), keyCapsule cells keyCols = .ok capsule ∧
      none ∉ Row.slots keyCols (cells.map Cell.get) ∧ cells.map Cell.raw = values.map .int64 ∧
      entry.joinKey = capsule.typedBytes ∧
      entry.rowBytes = values.flatMap ofInt64 ∧
      entry.rowId = stableRowId op.opId entry.joinKey entry.rowBytes := by
  obtain ⟨key, extracted, found⟩ := bind_eq_ok.mp found
  obtain ⟨capsule, built, extracted⟩ := bind_eq_ok.mp extracted
  cases key with
  | none => cases found
  | some joinKey =>
    obtain ⟨bytes, serialized, found⟩ := bind_eq_ok.mp found
    cases found
    obtain ⟨values, sameRaw, rfl⟩ := serializeRow_eq_ok serialized
    cases contains : capsule.containsNull with
    | true =>
      rw [contains] at extracted
      cases extracted
    | false =>
      rw [contains] at extracted
      cases extracted
      refine ⟨capsule, values, built, ?_, sameRaw, by simp only [and_self]⟩
      rw [← keyCapsule_containsNull built, contains]
      exact Bool.false_ne_true

theorem stagedEntry_eq_none (found : op.stagedEntry keyCols cells = .ok none) :
    none ∈ Row.slots keyCols (cells.map Cell.get) := by
  obtain ⟨key, extracted, found⟩ := bind_eq_ok.mp found
  obtain ⟨capsule, built, extracted⟩ := bind_eq_ok.mp extracted
  cases key with
  | some joinKey =>
    obtain ⟨bytes, _, impossible⟩ := bind_eq_ok.mp found
    cases impossible
  | none =>
    cases contains : capsule.containsNull with
    | true => exact (keyCapsule_containsNull built).mp contains
    | false =>
      rw [contains] at extracted
      cases extracted

/-- A staged row denotes its raw values exactly when no column outside the key is NULL. -/
theorem get_eq_raw_iff (found : op.stagedEntry keyCols cells = .ok (some entry)) :
    cells.map Cell.get = (cells.map Cell.raw).map some ↔ PayloadValid keyCols cells := by
  obtain ⟨_, _, _, keyValid, _⟩ := stagedEntry_eq_some found
  have isValid : ∀ cell : Cell, cell.get = some cell.raw ↔ cell.valid = true := by
    intro cell
    unfold Cell.get
    cases cell.valid <;> simp
  rw [map_map, map_inj_left]
  constructor
  · intro shown slot mem _
    exact (isValid _).mp (shown slot.1 (mem_of_getElem? (mem_zipIdx_iff_getElem?.mp mem)))
  · intro payload cell mem
    obtain ⟨column, present⟩ := mem_iff_getElem?.mp mem
    refine (isValid cell).mpr ?_
    by_cases inKey : column ∈ keyCols
    · by_contra invalid
      apply keyValid
      refine mem_map.mpr ⟨column, inKey, ?_⟩
      simp [present, Cell.get, invalid]
    · exact payload (cell, column) (mem_zipIdx_iff_getElem?.mpr present) inKey

theorem joinKey_eq_iff {leftCols rightCols : List Nat}
    {leftEntry rightEntry : Entry} (leftFound : op.stagedEntry leftCols left = .ok (some leftEntry))
    (rightFound : op.stagedEntry rightCols right = .ok (some rightEntry)) :
    rightEntry.joinKey = leftEntry.joinKey ↔
      Row.Matches leftCols rightCols (left.map Cell.get) (right.map Cell.get) := by
  obtain ⟨_, _, leftBuilt, keyValid, _, leftKey, _⟩ := stagedEntry_eq_some leftFound
  obtain ⟨_, _, rightBuilt, _, _, rightKey, _⟩ := stagedEntry_eq_some rightFound
  rw [leftKey, rightKey, eq_comm, keyCapsule_typedBytes_inj leftBuilt rightBuilt, Row.Matches]
  simp [keyValid]

/-- A test on entries, read on the rows that stage them. -/
def onStaged (op : JoinOp) (keyCols : List Nat) (test : Entry → Int) (cells : List Cell) : Int :=
  match op.stagedEntry keyCols cells with
  | .ok (some entry) => test entry
  | _ => 0

theorem integrate_staged (op : JoinOp) (keyCols : List Nat) (test : Entry → Int)
    (rows : List (List Cell × Int)) :
    integrate test (op.staged keyCols rows) = integrate (op.onStaged keyCols test) rows := by
  induction rows with
  | nil => rfl
  | cons row rows ih =>
    have split : op.staged keyCols (row :: rows) =
        op.staged keyCols [row] ++ op.staged keyCols rows := staged_append op keyCols [row] rows
    rw [split, integrate_append, ih, integrate_cons]
    unfold staged onStaged
    cases found : op.stagedEntry keyCols row.1 with
    | error fault => simp [found]
    | ok slot => cases slot <;> simp [found]

theorem pairing_staged (op : JoinOp) (leftCols rightCols : List Nat) (test : Entry → Entry → Int)
    (left right : List (List Cell × Int)) :
    pairing test (op.staged leftCols left) (op.staged rightCols right) =
      pairing (fun leftCells rightCells => op.onStaged leftCols
        (fun entry => op.onStaged rightCols (test entry) rightCells) leftCells) left right := by
  unfold pairing
  simp only [integrate_staged]
  apply integrate_congr
  intro row _
  congr 1
  unfold onStaged
  cases op.stagedEntry leftCols row.1 with
  | error fault => exact (integrate_eq_zero fun _ _ => by simp).symm
  | ok slot =>
    cases slot with
    | none => exact (integrate_eq_zero fun _ _ => by simp).symm
    | some entry => rfl

/-- The batch inner join: the product of the weights where the two halves of the row join. -/
def joinWeight (op : JoinOp) (left right : List (Row × Int)) (row : Row) : Int :=
  if Row.Matches op.leftKeyCols op.rightKeyCols (row.take op.leftNCols) (row.drop op.leftNCols) then
    weight left (row.take op.leftNCols) * weight right (row.drop op.leftNCols)
  else 0

/-- An input row as the operator expects it: the declared width, and no NULL outside the key. -/
def Fits (keyCols : List Nat) (nCols : Nat) (cells : List Cell) : Prop :=
  cells.length = nCols ∧ PayloadValid keyCols cells

instance (keyCols : List Nat) (nCols : Nat) (cells : List Cell) :
    Decidable (Fits keyCols nCols cells) :=
  inferInstanceAs (Decidable (_ ∧ _))

/-- An output row shows the raw values of both rows. -/
theorem get_joined {leftEntry rightEntry : Entry} (leftWidth : left.length = op.leftNCols)
    (rightWidth : right.length = op.rightNCols)
    (leftFound : op.stagedEntry op.leftKeyCols left = .ok (some leftEntry))
    (rightFound : op.stagedEntry op.rightKeyCols right = .ok (some rightEntry)) :
    (op.joined leftEntry.rowBytes rightEntry.rowBytes).map Cell.get =
      (left.map Cell.raw).map some ++ (right.map Cell.raw).map some := by
  obtain ⟨_, leftValues, _, _, leftRaw, _, leftBytes, _⟩ := stagedEntry_eq_some leftFound
  obtain ⟨_, rightValues, _, _, rightRaw, _, rightBytes, _⟩ := stagedEntry_eq_some rightFound
  have leftLength : leftValues.length = op.leftNCols := by
    simpa [leftWidth] using (congrArg length leftRaw).symm
  have rightLength : rightValues.length = op.rightNCols := by
    simpa [rightWidth] using (congrArg length rightRaw).symm
  rw [joined, leftBytes, rightBytes, deserializeRow, deserializeRow, words_flatMap_ofInt64,
    words_flatMap_ofInt64, take_of_length_le leftLength.le,
      take_of_length_le rightLength.le, leftRaw,
    rightRaw, map_map, map_map, map_map, map_append]
  rfl

/-- No row with a NULL outside the key has a partner. -/
def PartnersValid (op : JoinOp) (left right : List (List Cell × Int)) : Prop :=
  ∀ row ∈ left, ∀ other ∈ right, Row.Matches op.leftKeyCols op.rightKeyCols (row.1.map Cell.get)
      (other.1.map Cell.get) →
    PayloadValid op.leftKeyCols row.1 ∧ PayloadValid op.rightKeyCols other.1

/-- On rows the operator accepts, the test of one output row separates into its two halves. -/
theorem onStaged_outputTest (row : Row) (leftWidth : left.length = op.leftNCols)
    (rightWidth : right.length = op.rightNCols)
    (valid : Row.Matches op.leftKeyCols op.rightKeyCols (left.map Cell.get) (right.map Cell.get) →
      PayloadValid op.leftKeyCols left ∧ PayloadValid op.rightKeyCols right)
    (leftAccepts : ∃ slot, op.stagedEntry op.leftKeyCols left = .ok slot)
    (rightAccepts : ∃ slot, op.stagedEntry op.rightKeyCols right = .ok slot) :
    op.onStaged op.leftKeyCols (fun entry => op.onStaged op.rightKeyCols
        (op.outputTest (fun cells => if cells.map Cell.get = row then 1 else 0) entry) right) left =
      (if Row.Matches op.leftKeyCols op.rightKeyCols (row.take op.leftNCols)
          (row.drop op.leftNCols) then 1 else 0) *
        ((if left.map Cell.get = row.take op.leftNCols then 1 else 0) *
          (if right.map Cell.get = row.drop op.leftNCols then 1 else 0)) := by
  obtain ⟨leftSlot, leftFound⟩ := leftAccepts
  obtain ⟨rightSlot, rightFound⟩ := rightAccepts
  have leftLength : (left.map Cell.get).length = op.leftNCols := by simpa using leftWidth
  unfold onStaged
  rw [leftFound, rightFound]
  -- A row with a NULL key is not staged, and its key slots cannot match either.
  cases leftSlot with
  | none =>
    have nullKey := stagedEntry_eq_none leftFound
    by_cases leftSame : left.map Cell.get = row.take op.leftNCols
    · rw [leftSame] at nullKey
      simp [Row.Matches, nullKey]
    · simp [leftSame]
  | some leftEntry =>
    cases rightSlot with
    | none =>
      have nullKey := stagedEntry_eq_none rightFound
      by_cases rightSame : right.map Cell.get = row.drop op.leftNCols
      · have apart : ¬ Row.Matches op.leftKeyCols op.rightKeyCols (row.take op.leftNCols)
            (row.drop op.leftNCols) := by
          rintro ⟨keyValid, sameKey⟩
          rw [sameKey, ← rightSame] at keyValid
          exact keyValid nullKey
        simp [apart]
      · simp [rightSame]
    | some rightEntry =>
      have sameKey := joinKey_eq_iff leftFound rightFound
      by_cases joins : Row.Matches op.leftKeyCols op.rightKeyCols (left.map Cell.get)
        (right.map Cell.get)
      · obtain ⟨leftValid, rightValid⟩ := valid joins
        have sameRow := get_joined leftWidth rightWidth leftFound rightFound
        rw [← (get_eq_raw_iff leftFound).mpr leftValid,
          ← (get_eq_raw_iff rightFound).mpr rightValid] at sameRow
        simp only [outputTest, Entry.matching, sameKey, sameRow, Row.append_eq_iff leftLength]
        by_cases leftSame : left.map Cell.get = row.take op.leftNCols
        · by_cases rightSame : right.map Cell.get = row.drop op.leftNCols
          · simp [leftSame, rightSame]
          · simp [rightSame]
        · simp [leftSame]
      · simp only [outputTest, Entry.matching, sameKey, joins, if_false]
        by_cases leftSame : left.map Cell.get = row.take op.leftNCols
        · by_cases rightSame : right.map Cell.get = row.drop op.leftNCols
          · rw [← leftSame, ← rightSame, if_neg joins, zero_mul]
          · simp [rightSame]
        · simp [leftSame]

theorem pairing_outputTest {left right : List (List Cell × Int)} (row : Row)
    (leftWidth : ∀ input ∈ left, input.1.length = op.leftNCols)
    (rightWidth : ∀ input ∈ right, input.1.length = op.rightNCols)
    (valid : op.PartnersValid left right) (leftAccepts : op.Accepts op.leftKeyCols left)
    (rightAccepts : op.Accepts op.rightKeyCols right) :
    pairing (op.outputTest fun cells => if cells.map Cell.get = row then 1 else 0)
        (op.staged op.leftKeyCols left) (op.staged op.rightKeyCols right) =
      op.joinWeight (denote left) (denote right) row := by
  rw [pairing_staged]
  refine Eq.trans (b := pairing (fun leftCells rightCells =>
      (if Row.Matches op.leftKeyCols op.rightKeyCols (row.take op.leftNCols)
        (row.drop op.leftNCols) then 1 else 0) *
      ((if leftCells.map Cell.get = row.take op.leftNCols then 1 else 0) *
        (if rightCells.map Cell.get = row.drop op.leftNCols then 1 else 0))) left right) ?_ ?_
  · apply pairing_congr
    intro leftRow leftMember rightRow rightMember
    exact onStaged_outputTest row (leftWidth leftRow leftMember) (rightWidth rightRow rightMember)
      (valid leftRow leftMember rightRow rightMember) (leftAccepts leftRow leftMember)
        (rightAccepts rightRow rightMember)
  · rw [pairing_product, ← weight_denote, ← weight_denote, joinWeight]
    simp only [ite_mul, one_mul, zero_mul]

/-! ## What the arrangements hold -/

/-- The arrangement holds exactly the accumulated non-zero weights of the rows of its side whose
key contains no NULL: those that `stagedEntry` gives an entry. -/
def Arranges (op : JoinOp) (keyCols : List Nat) (arr : Arrangement)
    (input : List (List Cell × Int)) : Prop :=
  ∀ joinKey rowId row, arr.find joinKey rowId = some row ↔
    row.weight ≠ 0 ∧ ∃ cells, (∃ delta, (cells, delta) ∈ input) ∧
      op.stagedEntry keyCols cells = .ok (some ⟨joinKey, rowId, row.rowBytes⟩) ∧
      weight (denote input) (cells.map Cell.get) = row.weight

/-- The entry of a row is made of its raw values and its key. -/
theorem entry_unique {other : Entry} (found : op.stagedEntry keyCols left = .ok (some entry))
    (otherFound : op.stagedEntry keyCols right = .ok (some other))
    (sameRaw : left.map Cell.raw = right.map Cell.raw)
    (sameKey : Row.Matches keyCols keyCols (left.map Cell.get) (right.map Cell.get)) :
    entry = other := by
  obtain ⟨_, values, _, _, isRaw, _, isBytes, isId⟩ := stagedEntry_eq_some found
  obtain ⟨_, otherValues, _, _, otherRaw, _, otherBytes, otherId⟩ := stagedEntry_eq_some otherFound
  have sameValues : values = otherValues := by
    refine map_injective_iff.mpr (fun _ _ => Value.int64.inj) ?_
    rw [← isRaw, sameRaw, otherRaw]
  have sameJoinKey := (joinKey_eq_iff found otherFound).mpr sameKey
  have sameBytes : other.rowBytes = entry.rowBytes := by
    rw [isBytes, otherBytes, sameValues]
  refine Entry.ext sameJoinKey.symm ?_ sameBytes.symm
  rw [isId, otherId, sameJoinKey, sameBytes]

/-- Two rows of one side have one entry exactly when they are equal. -/
theorem stagedEntry_eq_iff (leftPayload : PayloadValid keyCols left)
    (rightPayload : PayloadValid keyCols right)
    (rightAccepts : ∃ slot, op.stagedEntry keyCols right = .ok slot)
    (found : op.stagedEntry keyCols left = .ok (some entry)) :
    op.stagedEntry keyCols right = .ok (some entry) ↔ right.map Cell.get = left.map Cell.get := by
  obtain ⟨_, values, _, keyValid, leftRaw, _, leftBytes, _⟩ := stagedEntry_eq_some found
  have leftGet := (get_eq_raw_iff found).mpr leftPayload
  obtain ⟨slot, rightFound⟩ := rightAccepts
  constructor
  · intro sameEntry
    obtain ⟨_, otherValues, _, _, rightRaw, _, rightBytes, _⟩ := stagedEntry_eq_some sameEntry
    rw [leftBytes] at rightBytes
    rw [leftGet, (get_eq_raw_iff sameEntry).mpr rightPayload, leftRaw, rightRaw,
      flatMap_ofInt64_injective rightBytes]
  · intro sameGet
    cases slot with
    | none =>
      have nullKey := stagedEntry_eq_none rightFound
      rw [sameGet] at nullKey
      exact absurd nullKey keyValid
    | some other =>
      have sameRaw : left.map Cell.raw = right.map Cell.raw := by
        refine map_injective_iff.mpr (Option.some_injective _) ?_
        rw [← leftGet, ← (get_eq_raw_iff rightFound).mpr rightPayload, sameGet]
      rw [rightFound, entry_unique found rightFound sameRaw ⟨keyValid, by rw [sameGet]⟩]

/-- Two rows have one entry exactly when they show the same values. -/
def EntriesFaithful (op : JoinOp) (keyCols : List Nat) (input : List (List Cell × Int)) : Prop :=
  ∀ first ∈ input, ∀ second ∈ input, ∀ entry, op.stagedEntry keyCols first.1 = .ok (some entry) →
    (op.stagedEntry keyCols second.1 = .ok (some entry) ↔
      second.1.map Cell.get = first.1.map Cell.get)

theorem weight_staged (accepts : op.Accepts keyCols input)
    (faithful : ∀ row ∈ input, op.stagedEntry keyCols row.1 = .ok (some entry) ↔
      row.1.map Cell.get = cells.map Cell.get) :
    weight (op.staged keyCols input) entry = weight (denote input) (cells.map Cell.get) := by
  rw [weight_denote, weight, integrate_staged]
  apply integrate_congr
  intro row mem
  have same := faithful row mem
  obtain ⟨slot, rowFound⟩ := accepts row mem
  unfold onStaged
  rw [rowFound] at same ⊢
  by_cases sameGet : row.1.map Cell.get = cells.map Cell.get
  · have isEntry := same.mpr sameGet
    cases isEntry
    simp [sameGet]
  · cases slot with
    | none => simp [sameGet]
    | some other =>
      have ne : other ≠ entry := by
        rintro rfl
        exact sameGet (same.mp rfl)
      simp [sameGet, ne]

theorem arranges_of_represents {arr : Arrangement}
    (accepts : op.Accepts keyCols input) (faithful : op.EntriesFaithful keyCols input)
    (models : arr.Represents (op.staged keyCols input)) : op.Arranges keyCols arr input := by
  intro joinKey rowId row
  rw [show arr.find joinKey rowId = some row ↔ _ from
    models.find_iff ⟨joinKey, rowId, row.rowBytes⟩ row.weight]
  constructor
  · rintro ⟨nonzero, accumulated⟩
    obtain ⟨⟨entry, delta⟩, mem, rfl⟩ :=
      exists_of_weight_ne_zero (accumulated.trans_ne nonzero)
    obtain ⟨⟨cells, delta⟩, inside, produced⟩ := mem_filterMap.mp mem
    have found : op.stagedEntry keyCols cells = .ok (some ⟨joinKey, rowId, row.rowBytes⟩) := by
      split at produced
      · next isEntry =>
        cases produced
        exact isEntry
      · cases produced
    refine ⟨nonzero, cells, ⟨delta, inside⟩, found, ?_⟩
    rw [← weight_staged accepts fun row mem => faithful (cells, delta) inside row mem _ found]
    exact accumulated
  · rintro ⟨nonzero, cells, ⟨delta, inside⟩, found, accumulated⟩
    refine ⟨nonzero, ?_⟩
    rw [weight_staged accepts fun row mem => faithful (cells, delta) inside row mem _ found]
    exact accumulated

/-- The law of a run over inputs whose rows meet only where they have no NULL outside the key, and
share an entry only where they are equal. -/
theorem RunInvariant.joins {final : JoinState}
    (leftWidth : ∀ row ∈ leftInput epochs, row.1.length = op.leftNCols)
    (rightWidth : ∀ row ∈ rightInput epochs, row.1.length = op.rightNCols)
    (valid : op.PartnersValid (leftInput epochs) (rightInput epochs))
    (leftFaithful : op.EntriesFaithful op.leftKeyCols (leftInput epochs))
    (rightFaithful : op.EntriesFaithful op.rightKeyCols (rightInput epochs))
    (invariant : op.RunInvariant epochs outputs final) :
    (∀ row, weight (outputs.flatMap ArrowZSet.valued) row =
      op.joinWeight (denote (leftInput epochs)) (denote (rightInput epochs)) row) ∧
      op.Arranges op.leftKeyCols final.leftArr (leftInput epochs) ∧
      op.Arranges op.rightKeyCols final.rightArr (rightInput epochs) := by
  refine ⟨fun row => ?_, arranges_of_represents invariant.leftAccepts leftFaithful invariant.left,
    arranges_of_represents invariant.rightAccepts rightFaithful invariant.right⟩
  rw [flatMap_valued, weight_denote, invariant.law]
  exact pairing_outputTest row leftWidth rightWidth valid invariant.leftAccepts
    invariant.rightAccepts

/-- The inner join is bilinear: after any successful run from the empty operator, the emitted
weight of every row is that of the batch join of the accumulated inputs, and each arrangement
holds the accumulated weights of its side's rows with a key. -/
theorem processEpoch_bilinear (op : JoinOp) (epochs : List (ArrowZSet × ArrowZSet))
    (outputs : List ArrowZSet) (final : JoinState)
    (leftFits : ∀ row ∈ leftInput epochs, Fits op.leftKeyCols op.leftNCols row.1)
    (rightFits : ∀ row ∈ rightInput epochs, Fits op.rightKeyCols op.rightNCols row.1)
    (leftDistinct : op.RowIdsDistinct op.leftKeyCols (leftInput epochs))
    (rightDistinct : op.RowIdsDistinct op.rightKeyCols (rightInput epochs))
    (ran : Loop.run op.processEpoch .new epochs = .ok (outputs, final)) :
    (∀ row, weight (outputs.flatMap ArrowZSet.valued) row =
      op.joinWeight (denote (leftInput epochs)) (denote (rightInput epochs)) row) ∧
      op.Arranges op.leftKeyCols final.leftArr (leftInput epochs) ∧
      op.Arranges op.rightKeyCols final.rightArr (rightInput epochs) := by
  have invariant := runInvariant_run leftDistinct rightDistinct ran
  have faithful : ∀ {keyCols nCols} {input : List (List Cell × Int)}, op.Accepts keyCols input →
      (∀ row ∈ input, Fits keyCols nCols row.1) → op.EntriesFaithful keyCols input :=
    fun accepts fits first isFirst second isSecond _ found => stagedEntry_eq_iff
      (fits first isFirst).2 (fits second isSecond).2 (accepts second isSecond) found
  exact invariant.joins (fun row mem => (leftFits row mem).1) (fun row mem => (rightFits row mem).1)
    (fun row mem other isOther _ => ⟨(leftFits row mem).2, (rightFits other isOther).2⟩)
    (faithful invariant.leftAccepts leftFits) (faithful invariant.rightAccepts rightFits)

/-! ## A run -/

/-- Two-column inputs with a nullable key. -/
def sampleOp : JoinOp := ⟨7, [0], [0], 2, 2⟩

def sampleBatch (rows : List ((Option Int64 × Int64) × Int)) : ArrowZSet :=
  { fields := [⟨"k", .int64, true⟩, ⟨"v", .int64, false⟩]
    rows := rows.map fun row => ([Cell.ofInt64? row.1.1, Cell.ofInt64 row.1.2], row.2)
    conforms := by
      intro row mem
      obtain ⟨⟨⟨key, value⟩, weight⟩, _, rfl⟩ := mem_map.mp mem
      cases key <;> simp [Conforms, Field.Admits, Cell.ofInt64, Cell.ofInt64?, Value.dataType] }

/-- A match that grows on both sides, a retraction, and a row with a NULL key. -/
def sampleEpochs : List (ArrowZSet × ArrowZSet) :=
  [(sampleBatch [((some 1, 10), 2), ((none, 5), 1)], sampleBatch [((some 1, 20), 1)]),
    (sampleBatch [((some 1, 10), -1)], sampleBatch [((some 1, 21), 3), ((some 2, 22), 1)])]

theorem processEpoch_bilinear_sample : ∃ outputs final,
    Loop.run sampleOp.processEpoch .new sampleEpochs = .ok (outputs, final) ∧
    (∀ row, weight (outputs.flatMap ArrowZSet.valued) row =
      sampleOp.joinWeight (denote (leftInput sampleEpochs)) (denote (rightInput sampleEpochs))
        row) ∧ sampleOp.Arranges sampleOp.leftKeyCols final.leftArr (leftInput sampleEpochs) ∧
      sampleOp.Arranges sampleOp.rightKeyCols final.rightArr (rightInput sampleEpochs) := by
  exact exists_ok_of_isSome (by decide +kernel) fun outputs final =>
    processEpoch_bilinear sampleOp sampleEpochs outputs final
      (by decide +kernel) (by decide +kernel) (by decide +kernel) (by decide +kernel)

/-- A left row with a NULL key has accumulated weight one, and the arrangement stores nothing. -/
theorem nullKey_row_not_arranged : ∃ outputs final,
    Loop.run sampleOp.processEpoch .new [(sampleBatch [((none, 5), 1)], sampleBatch [])] =
        .ok (outputs, final) ∧
      weight (denote (leftInput [(sampleBatch [((none, 5), 1)], sampleBatch [])]))
        [none, some (.int64 5)] = 1 ∧ final.leftArr.entryCount = 0 := by
  exact exists_ok (by decide +kernel)

end JoinOp

end RockStream
