import RockStream.TimeWindow.TumbleRows

/-!
Contract: the loops of one epoch of tumbling windows.

An epoch decides about its rows as a set: which rows are late depends on the watermark at
its start, on the closed windows and on the retractions anywhere in the epoch.

Owns:
- `Late` and `Admitted`, what an epoch decides about a row;
- `Applied`, the state after the row loop: the admitted rows are added to their windows;
- `EmittedWindows`, the state after the emission loop, and the emitted rows.

Does not own: runs of epochs.
-/

namespace RockStream

open Lib Loop Lib.Weighted RowMap List

variable {time windowId watermark : Int} {vals : Int64Row} {rows : List (Int64Row × Int)}
  {output : ArrowZSet} {inputSchema : List Field}

variable {corrected : HashSet Int} {state next : TumbleWindowState} {windows : List Int}

/-! ## Late rows -/

def rowValues (row : List Cell × Int) : Int64Row × Int := (row.1.map Cell.int64Value, row.2)

def ArrowZSet.int64Values (delta : ArrowZSet) : List (Int64Row × Int) := delta.rows.map rowValues

namespace TumbleWindowOp

variable (op : TumbleWindowOp)

/-- The event time of a row; a NULL time is read as zero. -/
def timeOf (vals : Int64Row) : Int :=
  if op.timeCol < op.nInputCols then ((vals[op.timeCol]?).join.getD 0).toInt else 0

def startOf (vals : Int64Row) : Int := windowStart op.windowSizeMs (op.timeOf vals)

/-- An insertion is late when its window is closed and the epoch retracts nothing from it. -/
def Late (watermark : Int) (closed : Int → Prop) (rows : List (Int64Row × Int))
    (row : Int64Row × Int) : Prop :=
  0 < row.2 ∧
    (op.startOf row.1 + op.windowSizeMs < watermark ∨ closed (op.startOf row.1)) ∧
    ∀ other ∈ rows, other.2 < 0 → op.startOf other.1 ≠ op.startOf row.1

def Admitted (watermark : Int) (closed : Int → Prop) (rows : List (Int64Row × Int))
    (row : Int64Row × Int) : Prop :=
  row.2 ≠ 0 ∧ ¬ (op.lateDataPolicy = .drop ∧ op.Late watermark closed rows row)

open Classical in
noncomputable def admittedOf (watermark : Int) (closed : Int → Prop)
    (rows done : List (Int64Row × Int)) : List (Int64Row × Int) :=
  done.filter fun row => op.Admitted watermark closed rows row

def latest (clock : Int) (rows : List (Int64Row × Int)) : Int :=
  rows.foldl (fun clock row => max clock (op.timeOf row.1)) clock

/-! ## One row -/

variable {op : TumbleWindowOp}

theorem windowOf_eq_ok (positive : 0 < op.windowSizeMs)
    (returned : op.windowOf time = .ok windowId) : windowId = windowStart op.windowSizeMs time := by
  obtain ⟨index, divided, multiplied⟩ := bind_eq_ok.mp returned
  obtain ⟨_, rfl⟩ := mulI64_eq_ok.mp multiplied
  rw [floorDiv_eq_ok positive divided]
  rfl

theorem eventTime_eq_ok (returned : op.eventTime vals = .ok time) : time = op.timeOf vals := by
  unfold eventTime at returned
  unfold timeOf
  split at returned
  · next inside =>
    rw [if_pos inside]
    split at returned
    · next value found =>
      rw [found]
      exact (Except.ok.inj returned).symm
    · cases returned
  · next outside =>
    rw [if_neg outside]
    exact (Except.ok.inj returned).symm

/-- The copies of a row in the side channel. -/
def routedCopies (op : TumbleWindowOp) (late : Bool) (vals : Int64Row) : List (List Int64) :=
  match late, op.lateDataPolicy with
  | true, .routeToSink _ => [vals.map fun value => value.getD 0]
  | _, _ => []

theorem route_eq_ok {late : Bool} (returned : op.route late state vals = .ok next) :
    next = { state with lateRouteRows := state.lateRouteRows ++ op.routedCopies late vals } := by
  unfold route at returned
  unfold routedCopies
  cases late with
  | false =>
    cases returned
    simp
  | true =>
    cases policy : op.lateDataPolicy with
    | routeToSink sink =>
      simp only [policy] at returned
      split at returned
      · cases returned
      · exact (Except.ok.inj returned).symm
    | drop | update =>
      simp only [policy] at returned
      cases returned
      simp

/-- Whether the row loop takes a row to be late. -/
def lateAt (op : TumbleWindowOp) (watermark : Int) (finalized corrected : HashSet Int)
    (row : Int64Row × Int) : Bool :=
  (decide (op.startOf row.1 + op.windowSizeMs < watermark) ||
      (finalized.lookup (op.startOf row.1)).isSome) &&
    (corrected.lookup (op.startOf row.1)).isNone && decide (0 < row.2)

theorem processRow_eq_ok (positive : 0 < op.windowSizeMs)
    {current next : TumbleWindowState × HashSet Int} {row : List Cell × Int}
    (returned : op.processRow watermark corrected current row = .ok next) :
    row.2 = 0 ∧ next = current ∨
    row.2 ≠ 0 ∧ ∃ late state, late = op.lateAt watermark current.1.finalized corrected
      (rowValues row) ∧
      state = { current.1 with
        lateRouteRows := current.1.lateRouteRows ++ op.routedCopies late (rowValues row).1 } ∧
      ((late = true ∧ op.lateDataPolicy = .drop) ∧ next = (state, current.2) ∨
        ¬ (late = true ∧ op.lateDataPolicy = .drop) ∧
          state.addRow (op.startOf (rowValues row).1) (op.timeOf (rowValues row).1)
            (rowValues row).1
            row.2 = .ok next.1 ∧
          next.2 = current.2.insert (op.startOf (rowValues row).1) ()) := by
  unfold processRow at returned
  split at returned
  · next zero => exact .inl ⟨zero, (Except.ok.inj returned).symm⟩
  · next nonzero =>
    refine .inr ⟨nonzero, ?_⟩
    obtain ⟨vals, extracted, returned⟩ := bind_eq_ok.mp returned
    obtain ⟨time, timed, returned⟩ := bind_eq_ok.mp returned
    obtain ⟨windowId, placed, returned⟩ := bind_eq_ok.mp returned
    obtain ⟨windowEnd, added, returned⟩ := bind_eq_ok.mp returned
    have isValues := extractTumbleRow_eq_ok (Exec.within_eq_ok.mp extracted)
    have isTime := eventTime_eq_ok (Exec.within_eq_ok.mp timed)
    have isWindow := windowOf_eq_ok positive (Exec.within_eq_ok.mp placed)
    obtain ⟨_, isEnd⟩ := addI64_eq_ok.mp (Exec.within_eq_ok.mp added)
    rw [isTime] at isWindow
    have isStart : windowId = op.startOf vals := isWindow
    subst isTime isStart isEnd
    have values : (rowValues row).1 = vals := isValues.symm
    have isLate : op.lateAt watermark current.1.finalized corrected (rowValues row) =
        ((decide (op.startOf vals + op.windowSizeMs < watermark) ||
          (current.1.finalized.lookup (op.startOf vals)).isSome) &&
            (corrected.lookup (op.startOf vals)).isNone && decide (0 < row.2)) := by
      unfold lateAt
      rw [values]
      rfl
    dsimp only at returned
    rw [← isLate] at returned
    generalize op.lateAt watermark current.1.finalized corrected (rowValues row) = late
      at returned ⊢
    rw [values]
    obtain ⟨state, routed, returned⟩ := bind_eq_ok.mp returned
    refine ⟨late, state, rfl, route_eq_ok routed, ?_⟩
    split at returned
    · next dropped => exact .inl ⟨by simpa using dropped, (Except.ok.inj returned).symm⟩
    · next kept =>
      obtain ⟨added, grown, ended⟩ := bind_eq_ok.mp returned
      cases ended
      exact .inr ⟨by simpa using kept, Exec.within_eq_ok.mp grown, rfl⟩

theorem mem_correctedWindows (positive : 0 < op.windowSizeMs) {rows : List (List Cell × Int)}
    (wide : ∀ row ∈ rows, row.1.length = op.nInputCols)
    (returned : op.correctedWindows rows = .ok corrected) (windowId : Int) :
    (corrected.lookup windowId).isSome ↔
      ∃ row ∈ rows.map rowValues, row.2 < 0 ∧ op.startOf row.1 = windowId := by
  have kept : ∀ row ∈ rows.filter fun row => row.2 < 0, row.1.length = op.nInputCols :=
    fun row mem => wide row (mem_of_mem_filter mem)
  have spelled : (∃ row ∈ rows.map rowValues, row.2 < 0 ∧ op.startOf row.1 = windowId) ↔
      ∃ row ∈ rows.filter fun row => row.2 < 0, op.startOf (rowValues row).1 = windowId := by
    simp only [mem_map, mem_filter, decide_eq_true_eq]
    constructor
    · rintro ⟨_, ⟨row, mem, rfl⟩, negative, isStart⟩
      exact ⟨row, ⟨mem, negative⟩, isStart⟩
    · rintro ⟨row, ⟨mem, negative⟩, isStart⟩
      exact ⟨rowValues row, ⟨row, mem, rfl⟩, negative, isStart⟩
  rw [spelled]
  -- After some rows, the set holds the windows of those rows.
  refine foldlM_invariant_of_mem (fun done (found : HashSet Int) =>
      (found.lookup windowId).isSome ↔ ∃ row ∈ done, op.startOf (rowValues row).1 = windowId)
    ?_ (by simp) returned
  intro done found row next mem _ earlier stepped
  obtain ⟨vals, extracted, stepped⟩ := bind_eq_ok.mp stepped
  obtain ⟨start, placed, ended⟩ := bind_eq_ok.mp stepped
  cases ended
  have isValues : vals = (rowValues row).1 := extractTumbleRow_eq_ok extracted
  have isStart := windowOf_eq_ok positive placed
  have sameTime : ((vals[op.timeCol]?).join.getD 0).toInt = op.timeOf vals := by
    unfold timeOf
    split
    · rfl
    · next outside =>
      have short : vals.length ≤ op.timeCol := by
        rw [isValues, rowValues, length_map, kept row mem]
        exact not_lt.mp outside
      rw [getElem?_eq_none short]
      rfl
  rw [sameTime, isValues] at isStart
  rw [HashMap.isSome_insert, earlier, isStart]
  exact listed_concat fun row : List Cell × Int => op.startOf (rowValues row).1

theorem lateAt_iff {finalized : HashSet Int} {row : Int64Row × Int}
    (isCorrected : ∀ windowId, (corrected.lookup windowId).isSome ↔ ∃ other ∈ rows, other.2 < 0 ∧
      op.startOf other.1 = windowId) :
    op.lateAt watermark finalized corrected row = true ↔
      op.Late watermark (fun windowId => (finalized.lookup windowId).isSome) rows row := by
  unfold lateAt Late
  have untouched : (corrected.lookup (op.startOf row.1)).isNone = true ↔
      ∀ other ∈ rows, other.2 < 0 → op.startOf other.1 ≠ op.startOf row.1 := by
    rw [← Option.not_isSome, Bool.not_eq_true', ← Bool.not_eq_true, isCorrected]
    push Not
    rfl
  simp only [Bool.and_eq_true, Bool.or_eq_true, decide_eq_true_eq]
  tauto

/-! ## The row loop -/

def InWindow (op : TumbleWindowOp) (windowId : Int) (vals : Int64Row) : Prop :=
  vals.length = op.nInputCols ∧ op.startOf vals = windowId

/-- Every window holds rows of its own, each under its key. -/
def Placed (op : TumbleWindowOp) (windows : WindowTable Int64Row) : Prop :=
  windows.KeyedBy encodeTumbleRow op.InWindow

theorem distinguishes_inWindow {op : TumbleWindowOp} (bound : op.nInputCols ≤ 2 ^ 64)
    (windowId : Int) : RowMap.Distinguishes encodeTumbleRow (op.InWindow windowId) :=
  fun left right leftInside rightInside same =>
    distinguishes_encodeTumbleRow bound left right leftInside.1 rightInside.1 same

open Classical in
/-- The copies that late rows leave in the side channel. -/
noncomputable def routedOf (op : TumbleWindowOp) (watermark : Int) (closed : Int → Prop)
    (rows done : List (Int64Row × Int)) : List (List Int64) :=
  done.flatMap fun row => op.routedCopies (op.Late watermark closed rows row) row.1

/-- The state after some rows: the admitted ones are in their windows, and the copies in the side
channel. -/
structure Applied (op : TumbleWindowOp) (start : TumbleWindowState)
    (admitted : List (Int64Row × Int))
    (copies : List (List Int64)) (current : TumbleWindowState × HashSet Int) : Prop where
  filled : Filled encodeTumbleRow op.InWindow (fun vals => (op.startOf vals, vals))
    start.windows.window
    admitted current.1.windows.window current.2
  present : ∀ windowId, (current.1.windows.lookup windowId).isSome ↔
    (start.windows.lookup windowId).isSome ∨ ∃ row ∈ admitted, op.startOf row.1 = windowId
  clock : current.1.watermark = op.latest start.watermark admitted
  rest : current.1.prevOutput = start.prevOutput ∧ current.1.finalized = start.finalized ∧
    current.1.inputFrontier = start.inputFrontier
  routed : current.1.lateRouteRows = start.lateRouteRows ++ copies

variable {op : TumbleWindowOp} {closed : Int → Prop} {done admitted : List (Int64Row × Int)}
  {row : Int64Row × Int} {start : TumbleWindowState} {copies more : List (List Int64)}
  {current : TumbleWindowState × HashSet Int}

theorem mem_admittedOf : row ∈ op.admittedOf watermark closed rows done ↔
    row ∈ done ∧ op.Admitted watermark closed rows row := by
  simp [admittedOf]

open Classical in
theorem routedOf_append : op.routedOf watermark closed rows (done ++ [row]) =
    op.routedOf watermark closed rows done ++
      op.routedCopies (op.Late watermark closed rows row) row.1 := by
  simp [routedOf]

theorem Applied.nil (placed : op.Placed start.windows) : op.Applied start [] [] (start, ∅) where
  filled := .nil placed
  present := by simp
  clock := rfl
  rest := ⟨rfl, rfl, rfl⟩
  routed := by simp

/-- Copies in the side channel change nothing else. -/
theorem Applied.route (applied : op.Applied start admitted copies current)
    (more : List (List Int64)) :
    op.Applied start admitted (copies ++ more)
      ({ current.1 with lateRouteRows := current.1.lateRouteRows ++ more }, current.2) :=
  { applied with routed := by rw [← append_assoc, ← applied.routed] }

theorem Applied.accept (applied : op.Applied start admitted copies current)
    (bound : op.nInputCols ≤ 2 ^ 64) (length : row.1.length = op.nInputCols)
    (added : current.1.addRow (op.startOf row.1) (op.timeOf row.1) row.1 row.2 = .ok next) :
    op.Applied start (admitted ++ [row]) copies (next, current.2.insert (op.startOf row.1) ()) := by
  obtain ⟨windows, addedRow, ended⟩ := bind_eq_ok.mp added
  cases ended
  obtain ⟨rows, addedHere, ended⟩ := bind_eq_ok.mp addedRow
  cases ended
  have distinguishes := distinguishes_inWindow bound (op.startOf row.1)
  have inside : op.InWindow (op.startOf row.1) row.1 := ⟨length, rfl⟩
  obtain ⟨keyed, weights⟩ := addRow_spec distinguishes (applied.filled.keyed _) inside addedHere
  refine ⟨applied.filled.add (fun _ _ same => (Prod.ext_iff.mp same).2)
    distinguishes inside keyed weights
    fun _ => WindowTable.window_insert .., fun windowId => ?_, ?_, applied.rest, applied.routed⟩
  · rw [HashMap.isSome_insert, applied.present, or_left_comm]
    exact or_congr_right (listed_concat fun row : Int64Row × Int => op.startOf row.1)
  · rw [latest, foldl_append, applied.clock]
    rfl

open Classical in
theorem Applied.step (positive : 0 < op.windowSizeMs) (bound : op.nInputCols ≤ 2 ^ 64)
    (lateIff : ∀ row, op.lateAt watermark start.finalized corrected row = true ↔
      op.Late watermark closed rows row)
    {next : TumbleWindowState × HashSet Int} {cells : List Cell × Int}
    (length : cells.1.length = op.nInputCols)
    (applied : op.Applied start (op.admittedOf watermark closed rows done)
      (op.routedOf watermark closed rows done) current)
    (stepped : op.processRow watermark corrected current cells = .ok next) :
    op.Applied start (op.admittedOf watermark closed rows (done ++ [rowValues cells]))
      (op.routedOf watermark closed rows (done ++ [rowValues cells])) next := by
  have valuesLength : (rowValues cells).1.length = op.nInputCols := by
    rw [rowValues, length_map, length]
  rw [routedOf_append, admittedOf, filter_append, ← admittedOf]
  rcases processRow_eq_ok positive stepped
    with ⟨zero, rfl⟩ | ⟨nonzero, late, state, isLate, isState, how⟩
  · have refused : ¬ op.Admitted watermark closed rows (rowValues cells) :=
      fun admitted => admitted.1 zero
    have notLate : ¬ op.Late watermark closed rows (rowValues cells) := by
      rintro ⟨inserted, _⟩
      exact absurd zero inserted.ne'
    rw [decide_eq_false notLate, filter_cons_of_neg (by simpa using refused),
      filter_nil, append_nil]
    exact (append_nil _).symm ▸ applied
  · rw [applied.rest.2.1] at isLate
    have decided : late = decide (op.Late watermark closed rows (rowValues cells)) := by
      rw [isLate, Bool.eq_iff_iff, lateIff, decide_eq_true_eq]
    have routed := applied.route (op.routedCopies late (rowValues cells).1)
    rw [← isState] at routed
    rw [← decided]
    rcases how with ⟨⟨isLateRow, isDrop⟩, rfl⟩ | ⟨kept, added, isDirty⟩
    · rw [decided, decide_eq_true_eq] at isLateRow
      have refused : ¬ op.Admitted watermark closed rows (rowValues cells) :=
        fun admitted => admitted.2 ⟨isDrop, isLateRow⟩
      rwa [filter_cons_of_neg (by simpa using refused), filter_nil, append_nil]
    · have admitted : op.Admitted watermark closed rows (rowValues cells) := by
        refine ⟨nonzero, fun refused => kept ⟨?_, refused.1⟩⟩
        rw [decided, decide_eq_true_eq]
        exact refused.2
      have stepDone := routed.accept bound valuesLength added
      rw [← isDirty] at stepDone
      rwa [filter_cons_of_pos (by simpa using admitted), filter_nil]

theorem applied_rows (positive : 0 < op.windowSizeMs) (bound : op.nInputCols ≤ 2 ^ 64)
    {cells : List (List Cell × Int)} (wide : ∀ row ∈ cells, row.1.length = op.nInputCols)
    (isCorrected : op.correctedWindows cells = .ok corrected)
    {final : TumbleWindowState × HashSet Int} (placed : op.Placed start.windows)
    (ended : cells.foldlM (op.processRow watermark corrected) (start, ∅) = .ok final) :
    let closed : Int → Prop := fun windowId => (start.finalized.lookup windowId).isSome
    let rows := cells.map rowValues
    op.Applied start (op.admittedOf watermark closed rows rows)
      (op.routedOf watermark closed rows rows) final := by
  intro closed rows
  refine foldlM_invariant_of_mem (fun done current =>
    op.Applied start (op.admittedOf watermark closed rows (done.map rowValues))
      (op.routedOf watermark closed rows (done.map rowValues)) current) ?_
        (Applied.nil placed) ended
  intro done current row next mem _ held stepped
  rw [map_append]
  exact held.step positive bound
    (fun _ => lateAt_iff (mem_correctedWindows positive wide isCorrected)) (wide row mem) stepped

/-! ## Emission -/

/-- A row behind the start of its window. -/
def tag (op : TumbleWindowOp) (vals : Int64Row) : Int64Row :=
  some (Int64.ofInt (op.startOf vals)) :: vals

/-- The state after some windows are emitted, and the emitted rows without their tags. -/
structure EmittedWindows (op : TumbleWindowOp) (start : TumbleWindowState) (done : List Int)
    (current : List (Int64Row × Int) × TumbleWindowState) (plain : List (Int64Row × Int)) :
    Prop where
  rows : current.1 = plain.map fun row => (op.tag row.1, row.2)
  lengths : ∀ row ∈ plain, row.1.length = op.nInputCols
  weights : ∀ vals, vals.length = op.nInputCols → weight plain vals =
    if op.startOf vals ∈ done then
      weightAt (positiveRows (start.windows.window (op.startOf vals))) (encodeTumbleRow vals) -
        weightAt (start.prevOutput.window (op.startOf vals)) (encodeTumbleRow vals)
    else 0
  emitted : ∀ windowId, current.2.prevOutput.window windowId =
    if windowId ∈ done then positiveRows (start.windows.window windowId)
      else start.prevOutput.window windowId
  finalized : ∀ windowId, (current.2.finalized.lookup windowId).isSome ↔
    (start.finalized.lookup windowId).isSome ∨
      windowId ∈ done ∧ windowId + op.windowSizeMs < start.watermarkMs
  rest : current.2.windows = start.windows ∧ current.2.watermark = start.watermark ∧
    current.2.inputFrontier = start.inputFrontier ∧ current.2.lateRouteRows = start.lateRouteRows

theorem EmittedWindows.step (bound : op.nInputCols ≤ 2 ^ 64) (placed : op.Placed start.windows)
    (placedEmitted : op.Placed start.prevOutput) (fresh : windowId ∉ windows)
    {output next : List (Int64Row × Int) × TumbleWindowState} {plain : List (Int64Row × Int)}
    (emitted : op.EmittedWindows start windows output plain)
    (stepped : op.emitWindow output windowId = .ok next) :
    ∃ plainNext, op.EmittedWindows start (windows ++ [windowId]) next plainNext := by
  obtain ⟨changes, changed, stepped⟩ := bind_eq_ok.mp stepped
  obtain ⟨windowEnd, added, ended⟩ := bind_eq_ok.mp stepped
  obtain ⟨_, rfl⟩ := addI64_eq_ok.mp added
  cases ended
  obtain ⟨sameWindows, sameClock, sameFrontier, sameRouted⟩ := emitted.rest
  have sameWindow : output.2.windows.window windowId = start.windows.window windowId := by
    rw [sameWindows]
  have sameWatermark : output.2.watermarkMs = start.watermarkMs := by
    unfold TumbleWindowState.watermarkMs
    rw [sameFrontier, sameClock]
  have oldEmitted : output.2.prevOutput.window windowId = start.prevOutput.window windowId := by
    rw [emitted.emitted, if_neg fresh]
  rw [oldEmitted, sameWindow] at changed
  have keyedNew := (placed windowId).positiveRows
  -- Every changed row is a row of this window.
  have ofWindow : ∀ row ∈ changes, op.InWindow windowId row.1 := by
    intro row mem
    obtain ⟨key, stored, isRow, found | found⟩ := mem_tumbleChanges changed mem
    · rw [isRow]
      exact (placedEmitted windowId key stored found).2
    · rw [isRow]
      exact (keyedNew key stored found).2
  refine ⟨plain ++ changes, ?_, ?_, ?_, ?_, ?_, sameWindows, sameClock, sameFrontier, sameRouted⟩
  · rw [map_append, ← emitted.rows]
    refine congrArg (output.1 ++ ·) (map_congr_left fun row mem => ?_)
    rw [tag, (ofWindow row mem).2]
  · intro row mem
    rcases mem_append.mp mem with old | new
    · exact emitted.lengths row old
    · exact (ofWindow row new).1
  · intro vals length
    rw [weight_append, emitted.weights vals length]
    by_cases isWindow : op.startOf vals = windowId
    · rw [isWindow, if_neg fresh, if_pos (by simp),
        weight_tumbleChanges (distinguishes_inWindow bound windowId)
          (placedEmitted windowId) keyedNew
          changed ⟨length, isWindow⟩, zero_add]
    · have absent : weight changes vals = 0 := by
        refine weight_eq_zero_of_absent fun row mem same => isWindow ?_
        rw [← same]
        exact (ofWindow row mem).2
      rw [absent, add_zero]
      simp [isWindow]
  · intro query
    rw [WindowTable.window_insert]
    split
    · next same => rw [same, if_pos (by simp), sameWindow]
    · next ne =>
      rw [emitted.emitted]
      simp [ne]
  · intro query
    rw [← sameWatermark]
    exact isSome_collect (fun windowId => windowId + op.windowSizeMs < output.2.watermarkMs)
      (sameWatermark ▸ emitted.finalized query)

theorem emittedWindows (bound : op.nInputCols ≤ 2 ^ 64) (placed : op.Placed start.windows)
    (placedEmitted : op.Placed start.prevOutput) (distinct : windows.Nodup)
    {final : List (Int64Row × Int) × TumbleWindowState}
    (ended : windows.foldlM op.emitWindow ([], start) = .ok final) :
    ∃ plain, op.EmittedWindows start windows final plain := by
  refine foldlM_invariant_of_mem
    (fun done current => ∃ plain, op.EmittedWindows start done current plain) ?_
    ⟨[], rfl, by simp, by simp, by simp, by simp, rfl, rfl, rfl, rfl⟩ ended
  rintro done current windowId next _ fresh ⟨plain, emitted⟩ stepped
  exact emitted.step bound placed placedEmitted (fresh distinct) stepped

/-! ## One epoch -/

theorem buildTumbleOutput_eq_ok {schema : List Field}
    (wide : ∀ row ∈ rows, row.1.length = schema.length)
    (built : buildTumbleOutput schema rows = .ok output) :
    output.valued = rows.map fun row => (Int64Row.toRow row.1, row.2) := by
  unfold buildTumbleOutput at built
  split at built
  · cases built
  · unfold ArrowZSet.valued denote
    rw [(ArrowZSet.tryNew_eq_ok built).2, map_map]
    refine map_congr_left fun row mem => ?_
    show ((Int64Row.cells (row.1.take schema.length)).map Cell.get, row.2) = _
    rw [take_of_length_le (wide row mem).le, Int64Row.get_cells]

/-- An operator for batches of the input schema, with windows of positive length. -/
structure Serves (op : TumbleWindowOp) (inputSchema : List Field) : Prop where
  positive : 0 < op.windowSizeMs
  bound : op.nInputCols ≤ 2 ^ 64
  columns : op.nInputCols = inputSchema.length
  schema : op.schema.length = op.nInputCols + 1

theorem serves_new {windowSizeMs : Int} (positive : 0 < windowSizeMs)
    (bound : inputSchema.length ≤ 2 ^ 64) (timeCol : Nat) (policy : Sql.LateDataPolicy) :
    (new inputSchema timeCol windowSizeMs policy).Serves inputSchema :=
  ⟨positive, bound, rfl, rfl⟩

/-- What an epoch with rows or a frontier does: the row loop, then the emission loop. -/
structure EpochSteps (op : TumbleWindowOp) (state : TumbleWindowState) (delta : ArrowZSet)
    (frontier : Option FreshnessToken) (output : List (Row × Int))
    (next applied : TumbleWindowState)
    (dirty : HashSet Int) (windows : List Int) (plain : List (Int64Row × Int)) : Prop where
  loop : let watermark := currentWatermark (frontier.or state.inputFrontier) state.watermark
    let closed : Int → Prop := fun windowId => (state.finalized.lookup windowId).isSome
    op.Applied { state with inputFrontier := frontier.or state.inputFrontier }
      (op.admittedOf watermark closed delta.int64Values delta.int64Values)
      (op.routedOf watermark closed delta.int64Values delta.int64Values) (applied, dirty)
  listed : ∀ windowId, windowId ∈ windows ↔ (dirty.lookup windowId).isSome ∨
    (applied.windows.lookup windowId).isSome ∧ (applied.finalized.lookup windowId).isNone ∧
      windowId + op.windowSizeMs < applied.watermarkMs
  emitted : ∃ rows, op.EmittedWindows applied windows (rows, next) plain
  shown : output = plain.map fun row => (Int64Row.toRow (op.tag row.1), row.2)

theorem processEpoch_eq_ok (serves : op.Serves inputSchema) {delta : ArrowZSet}
    (fields : delta.fields = inputSchema) {frontier : Option FreshnessToken}
    (placed : op.Placed state.windows) (placedEmitted : op.Placed state.prevOutput)
    (returned : op.processEpoch state delta frontier = .ok (output, next)) :
    (delta.int64Values = [] ∧ frontier = none) ∧ next = state ∧ output.valued = [] ∨
    ¬ (delta.int64Values = [] ∧ frontier = none) ∧ ∃ applied dirty windows plain,
      op.EpochSteps state delta frontier output.valued next applied dirty windows plain := by
  unfold processEpoch at returned
  have sameGuard : (delta.rows.isEmpty && frontier.isNone) = true ↔
      delta.int64Values = [] ∧ frontier = none := by
    simp [ArrowZSet.int64Values]
  split at returned
  · next nothing =>
    obtain ⟨empty, built, ended⟩ := bind_eq_ok.mp returned
    cases ended
    exact .inl ⟨sameGuard.mp nothing, rfl, ArrowZSet.valued_empty (Exec.within_eq_ok.mp built)⟩
  · next something =>
    refine .inr ⟨fun nothing => something (sameGuard.mpr nothing), ?_⟩
    obtain ⟨corrected, isCorrected, returned⟩ := bind_eq_ok.mp returned
    obtain ⟨⟨applied, dirty⟩, looped, returned⟩ := bind_eq_ok.mp returned
    obtain ⟨windows, listed, returned⟩ := bind_eq_ok.mp returned
    obtain ⟨⟨rows, final⟩, emittedAll, returned⟩ := bind_eq_ok.mp returned
    obtain ⟨built, isBuilt, ended⟩ := bind_eq_ok.mp returned
    cases ended
    have wide : ∀ row ∈ delta.rows, row.1.length = op.nInputCols := by
      intro row mem
      rw [(delta.conforms row mem).length_eq, fields, serves.columns]
    have loop := applied_rows serves.positive serves.bound wide
      (Exec.within_eq_ok.mp isCorrected) (by exact placed) looped
    have stillPlaced : op.Placed applied.prevOutput := by
      rw [loop.rest.1]
      exact placedEmitted
    obtain ⟨distinct, isListed⟩ := WindowTable.mem_windowsToEmit (Exec.within_eq_ok.mp listed)
    obtain ⟨plain, emitted⟩ := emittedWindows serves.bound loop.filled.keyed stillPlaced distinct
      (Exec.within_eq_ok.mp emittedAll)
    refine ⟨applied, dirty, windows, plain, loop, isListed, ⟨rows, emitted⟩, ?_⟩
    have isRows : rows = plain.map fun row => (op.tag row.1, row.2) := emitted.rows
    have rowLengths : ∀ row ∈ rows, row.1.length = op.schema.length := by
      intro row mem
      rw [isRows] at mem
      obtain ⟨source, isSource, rfl⟩ := mem_map.mp mem
      rw [serves.schema, tag, length_cons, emitted.lengths source isSource]
    rw [buildTumbleOutput_eq_ok rowLengths (Exec.within_eq_ok.mp isBuilt), isRows, map_map]
    rfl

end TumbleWindowOp

end RockStream
