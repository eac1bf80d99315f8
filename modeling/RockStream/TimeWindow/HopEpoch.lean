import RockStream.TimeWindow.Hop

/-!
Contract: the loops of one epoch of hopping windows.

A row is placed in each of its windows. Whether a placement is refused depends on the
placements before it: a window that is closed at the start of the epoch refuses insertions
until the first retraction reaches it.

Owns:
- `windowsOf`, the windows of a row, and `admittedAfter`, the placements an epoch admits;
- `Applied`, the state after some placements;
- `EmittedWindows`, the state after the emission loop, and the emitted rows.

Does not own: runs of epochs.
-/

namespace RockStream

open Lib Loop Lib.Weighted RowMap List EmittedMap HashMap

variable {windows : List Int} {next : HopEpoch} {rows : RowMap (List Int64)}
  {Domain : List Int64 → Prop}

/-! ## The windows of a row -/

/-- The starts of the windows of a size and a slide that hold a time. -/
def hopStarts (windowSizeMs slideMs time : Int) : List Int :=
  ((range (windowSizeMs / slideMs).toNat).map fun offset : Nat =>
    windowStart slideMs time - offset * slideMs).insertionSort (· ≤ ·)

section Starts

variable {windowSizeMs slideMs : Int}

variable (positive : 0 < slideMs)
include positive

/-- A time lies in the first window of a slide that starts no later. -/
theorem windowStart_bounds (time : Int) :
    windowStart slideMs time ≤ time ∧ time < windowStart slideMs time + slideMs := by
  have inside := (windowStart_unique positive time (time / slideMs)).mpr rfl
  have expanded : (time / slideMs + 1) * slideMs = windowStart slideMs time + slideMs := by
    unfold windowStart
    ring
  rw [expanded] at inside
  exact inside

/-- The windows that hold a time are those of the grid that start at most a size before it. -/
theorem mem_hopStarts (divides : slideMs ∣ windowSizeMs)
    (time windowId : Int) : windowId ∈ hopStarts windowSizeMs slideMs time ↔
      slideMs ∣ windowId ∧ windowId ≤ time ∧ time < windowId + windowSizeMs := by
  obtain ⟨count, rfl⟩ := divides
  obtain ⟨lower, upper⟩ := windowStart_bounds positive time
  rw [hopStarts, mem_insertionSort, Int.mul_ediv_cancel_left _ positive.ne']
  simp only [mem_map, mem_range]
  constructor
  · rintro ⟨offset, small, rfl⟩
    have nonnegative : 0 ≤ offset * slideMs := by positivity
    have fits : (offset + 1 : Int) ≤ count := by omega
    have scaled : (offset + 1 : Int) * slideMs ≤ count * slideMs :=
      mul_le_mul_of_nonneg_right fits positive.le
    refine ⟨Dvd.dvd.sub (Dvd.intro_left _ rfl) (Dvd.intro_left _ rfl), by linarith, ?_⟩
    linarith
  · rintro ⟨⟨index, rfl⟩, starts, ends⟩
    -- The window is some number of slides before the latest one.
    have below : index ≤ time / slideMs :=
      (Int.le_ediv_iff_mul_le positive).mpr (by linarith)
    have above : time / slideMs < index + count := by
      refine (Int.ediv_lt_iff_lt_mul positive).mpr ?_
      linarith
    refine ⟨(time / slideMs - index).toNat, by omega, ?_⟩
    rw [Int.toNat_of_nonneg (by omega)]
    unfold windowStart
    ring

theorem nodup_hopStarts (time : Int) :
    (hopStarts windowSizeMs slideMs time).Nodup := by
  refine (perm_insertionSort _ _).nodup_iff.mpr (List.Nodup.map ?_ nodup_range)
  intro left right same
  have sameProduct : (left : Int) * slideMs = right * slideMs := by linarith
  exact Int.natCast_inj.mp (mul_right_cancel₀ positive.ne' sameProduct)

/-- The windows that the source lists, all of them in range. -/
theorem hopWindowIds_eq_ok (divides : slideMs ∣ windowSizeMs)
    (nonnegative : 0 ≤ windowSizeMs) {time : Int} {windowIds : List Int}
    (returned : hopWindowIds time windowSizeMs slideMs = .ok windowIds) :
    windowIds = hopStarts windowSizeMs slideMs time ∧ ∀ windowId ∈ windowIds, InI64 windowId := by
  unfold hopWindowIds at returned
  rw [if_neg positive.ne'] at returned
  obtain ⟨overlap, divided, returned⟩ := bind_eq_ok.mp returned
  obtain ⟨index, floored, returned⟩ := bind_eq_ok.mp returned
  obtain ⟨latest, multiplied, returned⟩ := bind_eq_ok.mp returned
  obtain ⟨listed, looped, ended⟩ := bind_eq_ok.mp returned
  obtain ⟨_, rfl⟩ := checkI64_eq_ok.mp divided
  obtain ⟨_, rfl⟩ := mulI64_eq_ok.mp multiplied
  rw [floorDiv_eq_ok positive floored] at looped
  rw [Int.tdiv_eq_ediv_of_nonneg nonnegative] at looped
  cases ended
  have loop := foldlM_invariant_of_mem (fun (done : List Nat) (found : List Int) =>
      found = done.map (fun offset : Nat => windowStart slideMs time - offset * slideMs) ∧
        ∀ windowId ∈ found, InI64 windowId)
    ?_ ⟨rfl, by simp⟩ looped
  · obtain ⟨isListed, fits⟩ := loop
    refine ⟨by rw [hopStarts, ← isListed], fun windowId mem => ?_⟩
    exact fits windowId ((mem_insertionSort _).mp mem)
  · rintro done found offset next small _ ⟨isFound, fits⟩ stepped
    obtain ⟨shift, shifted, stepped⟩ := bind_eq_ok.mp stepped
    obtain ⟨windowId, subtracted, stepped⟩ := bind_eq_ok.mp stepped
    obtain ⟨_, rfl⟩ := mulI64_eq_ok.mp shifted
    obtain ⟨inRange, rfl⟩ := subI64_eq_ok.mp subtracted
    -- The test of the source always passes.
    have mem : windowStart slideMs time - offset * slideMs ∈
        hopStarts windowSizeMs slideMs time := by
      rw [hopStarts, mem_insertionSort]
      exact mem_map.mpr ⟨offset, small, rfl⟩
    obtain ⟨_, starts, ends⟩ := (mem_hopStarts positive divides time _).mp mem
    unfold windowStart at starts ends mem isFound ⊢
    rw [if_pos starts] at stepped
    obtain ⟨windowEnd, added, ended⟩ := bind_eq_ok.mp stepped
    obtain ⟨_, rfl⟩ := addI64_eq_ok.mp added
    rw [if_pos ends] at ended
    cases ended
    refine ⟨by rw [isFound, map_append]; rfl, ?_⟩
    exact forall_mem_append.mpr ⟨fits, forall_mem_singleton.mpr inRange⟩

end Starts

/-- A row in a window, with a weight. -/
abbrev Placement := (Int × List Int64) × Int

namespace HopWindowOp

variable (op : HopWindowOp)

def windowsOf (vals : List Int64) : List Int :=
  hopStarts op.windowSizeMs op.slideMs (op.timeOf vals)

def placements (row : List Int64 × Int) : List Placement :=
  (op.windowsOf row.1).map fun windowId => ((windowId, row.1), row.2)

def placementsOf (rows : List (List Int64 × Int)) : List Placement :=
  (rows.filter fun row => row.2 ≠ 0).flatMap op.placements

/-- The clock after some rows: also a row that is refused everywhere advances it. -/
def latest (clock : Int) (rows : List (List Int64 × Int)) : Int :=
  (rows.filter fun row => row.2 ≠ 0).foldl (fun clock row => max clock (op.timeOf row.1)) clock

/-- The window is closed at the start of an epoch. -/
def ClosedAt (watermark : Int) (closed : Int → Prop) (windowId : Int) : Prop :=
  windowId + op.windowSizeMs < watermark ∨ closed windowId

def Retracted (placements : List Placement) (windowId : Int) : Prop :=
  ∃ place ∈ placements, place.1.1 = windowId ∧ place.2 < 0

/-- Under the `Drop` policy, an insertion into a closed window is refused unless a retraction has
reached the window before. -/
def Refused (watermark : Int) (closed : Int → Prop) (earlier : List Placement)
    (place : Placement) : Prop :=
  op.lateDataPolicy = .drop ∧ 0 < place.2 ∧ op.ClosedAt watermark closed place.1.1 ∧
    ¬ Retracted earlier place.1.1

open Classical in
/-- The admitted placements, where some placements of the epoch come before. -/
noncomputable def admittedAfter (watermark : Int) (closed : Int → Prop) :
    List Placement → List Placement → List Placement
  | _, [] => []
  | earlier, place :: rest =>
    (if op.Refused watermark closed earlier place then [] else [place]) ++
      admittedAfter watermark closed (earlier ++ [place]) rest

noncomputable def admittedOf (watermark : Int) (closed : Int → Prop) (done : List Placement) :
    List Placement :=
  op.admittedAfter watermark closed [] done

/-- Rows of the input in windows of the range. -/
def InWindow (windowId : Int) (vals : List Int64) : Prop :=
  InI64 windowId ∧ vals.length = op.nInputCols

structure Applied (watermark : Int) (closed : Int → Prop) (start : HopWindowState) (clock : Int)
    (done : List Placement) (current : HopEpoch) : Prop where
  inside : ∀ place ∈ done, op.InWindow place.1.1 place.1.2
  filled : Filled rowKey op.InWindow id start.windows.window (op.admittedOf watermark closed done)
    current.next.windows.window current.dirty
  present : ∀ windowId, (current.next.windows.lookup windowId).isSome ↔
    (start.windows.lookup windowId).isSome ∨
      ∃ place ∈ op.admittedOf watermark closed done, place.1.1 = windowId
  reopened : ∀ windowId, (current.reopened.lookup windowId).isSome ↔
    op.ClosedAt watermark closed windowId ∧ Retracted done windowId
  finalized : ∀ windowId, (current.next.finalized.lookup windowId).isSome ↔
    closed windowId ∧ ¬ Retracted done windowId
  clock : current.next.watermark = clock
  rest : current.next.prevOutput = start.prevOutput ∧
    current.next.inputFrontier = start.inputFrontier

variable {op} {watermark clock : Int} {closed : Int → Prop} {start : HopWindowState}
  {done earlier : List Placement} {place : Placement} {current : HopEpoch}

theorem admittedAfter_append (first second : List Placement) :
    op.admittedAfter watermark closed earlier (first ++ second) =
      op.admittedAfter watermark closed earlier first ++
        op.admittedAfter watermark closed (earlier ++ first) second := by
  induction first generalizing earlier with
  | nil => simp [admittedAfter]
  | cons place rest ih =>
    rw [cons_append, admittedAfter, admittedAfter, ih]
    simp

theorem admittedOf_append_refused (refused : op.Refused watermark closed done place) :
    op.admittedOf watermark closed (done ++ [place]) = op.admittedOf watermark closed done := by
  rw [admittedOf, admittedAfter_append, nil_append, admittedAfter, if_pos refused]
  simp [admittedOf, admittedAfter]

theorem admittedOf_append_admitted (admitted : ¬ op.Refused watermark closed done place) :
    op.admittedOf watermark closed (done ++ [place]) =
      op.admittedOf watermark closed done ++ [place] := by
  rw [admittedOf, admittedAfter_append, nil_append, admittedAfter, if_neg admitted]
  simp [admittedOf, admittedAfter]

theorem retracted_append (windowId : Int) : Retracted (done ++ [place]) windowId ↔
    Retracted done windowId ∨ place.1.1 = windowId ∧ place.2 < 0 := by
  simp [Retracted, or_and_right, exists_or]

/-! ## The row loop -/

theorem Applied.nil (keyed : start.windows.KeyedBy rowKey op.InWindow)
    (isClosed : ∀ windowId, (start.finalized.lookup windowId).isSome ↔ closed windowId)
    (liveRows : Nat) : op.Applied watermark closed start start.watermark []
      { next := start, dirty := ∅, reopened := ∅, liveRows } where
  inside := by simp
  filled := .nil keyed
  present := by simp [admittedOf, admittedAfter]
  reopened := by simp [Retracted]
  finalized := by simp [Retracted, isClosed]
  clock := rfl
  rest := ⟨rfl, rfl⟩

section

variable (applied : op.Applied watermark closed start clock done current)
include applied

theorem Applied.emitted (windowId : Int) :
    current.next.emitted windowId = start.emitted windowId := by
  unfold HopWindowState.emitted
  rw [applied.rest.1]

variable (inside : op.InWindow place.1.1 place.1.2)
include inside

theorem Applied.inside_append : ∀ other ∈ done ++ [place], op.InWindow other.1.1 other.1.2 := by
  exact forall_mem_append.mpr ⟨applied.inside, forall_mem_singleton.mpr inside⟩

theorem Applied.refuse (refused : op.Refused watermark closed done place) :
    op.Applied watermark closed start clock (done ++ [place]) current := by
  have same := admittedOf_append_refused refused
  have sameRetracted : ∀ windowId, Retracted (done ++ [place]) windowId ↔
      Retracted done windowId := by
    intro windowId
    rw [retracted_append]
    exact or_iff_left fun reached => absurd reached.2 (not_lt.mpr refused.2.1.le)
  refine ⟨applied.inside_append inside, same ▸ applied.filled, same ▸ applied.present, ?_, ?_,
    applied.clock, applied.rest⟩
  · intro windowId
    rw [applied.reopened, sameRetracted]
  · intro windowId
    rw [applied.finalized, sameRetracted]

theorem Applied.accept (admitted : ¬ op.Refused watermark closed done place)
    {windows : WindowTable (List Int64)}
    (added : current.next.windows.addRow place.1.1 (rowKey place.1.2) place.1.2 place.2 =
      .ok windows)
    {reopens : Bool}
    (isReopens : reopens = true ↔
      (op.ClosedAt watermark closed place.1.1 ∧ ¬ Retracted done place.1.1) ∧ place.2 < 0)
    (liveRows : Nat) :
    op.Applied watermark closed start clock (done ++ [place])
      { next := { current.next with
          windows
          finalized := if reopens then current.next.finalized.erase place.1.1
            else current.next.finalized }
        dirty := current.dirty.insert place.1.1 ()
        reopened := if reopens then current.reopened.insert place.1.1 () else current.reopened
        liveRows } := by
  have grown := admittedOf_append_admitted admitted
  obtain ⟨rows, addedHere, ended⟩ := bind_eq_ok.mp added
  cases ended
  have distinguishes : RowMap.Distinguishes rowKey (op.InWindow place.1.1) :=
    fun _ _ _ _ same => rowKey_injective same
  obtain ⟨keyed, weights⟩ := addRow_spec distinguishes (applied.filled.keyed _) inside addedHere
  refine ⟨applied.inside_append inside,
    grown ▸ applied.filled.add (fun _ _ => id) distinguishes inside keyed
    weights fun _ => WindowTable.window_insert .., fun windowId => ?_, ?_, ?_,
    applied.clock, applied.rest⟩
  · rw [isSome_insert, applied.present, grown, or_left_comm]
    exact or_congr_right (listed_concat fun place : Placement => place.1.1)
  · intro windowId
    rw [retracted_append]
    split
    · next reopening =>
      obtain ⟨⟨isClosed, _⟩, negative⟩ := isReopens.mp reopening
      rw [lookup_insert_eq]
      split
      · next same =>
        subst same
        simp [isClosed, negative]
      · next ne =>
        rw [applied.reopened]
        simp [Ne.symm ne]
    · next notReopening =>
      rw [applied.reopened]
      refine ⟨fun ⟨isClosed, reached⟩ => ⟨isClosed, .inl reached⟩, ?_⟩
      rintro ⟨isClosed, reached | ⟨rfl, negative⟩⟩
      · exact ⟨isClosed, reached⟩
      · refine ⟨isClosed, not_not.mp fun fresh => notReopening ?_⟩
        exact isReopens.mpr ⟨⟨isClosed, fresh⟩, negative⟩
  · intro windowId
    rw [retracted_append]
    split
    · next reopening =>
      obtain ⟨_, negative⟩ := isReopens.mp reopening
      rw [lookup_erase_eq]
      split
      · next same =>
        subst same
        simp [negative]
      · next ne =>
        rw [applied.finalized]
        simp [Ne.symm ne]
    · next notReopening =>
      rw [applied.finalized]
      refine and_congr_right fun isClosed => not_congr ⟨.inl, ?_⟩
      rintro (reached | ⟨rfl, negative⟩)
      · exact reached
      · refine not_not.mp fun fresh => notReopening ?_
        exact isReopens.mpr ⟨⟨.inr isClosed, fresh⟩, negative⟩

end

theorem Applied.processWindow (applied : op.Applied watermark closed start clock done current)
    {vals : List Int64} {rowWeight windowId : Int} (nonzero : rowWeight ≠ 0)
    (inside : op.InWindow windowId vals)
    (stepped : op.processWindow watermark vals rowWeight current windowId = .ok next) :
    op.Applied watermark closed start clock (done ++ [((windowId, vals), rowWeight)]) next := by
  obtain ⟨windowEnd, ended, stepped⟩ := bind_eq_ok.mp stepped
  obtain ⟨_, rfl⟩ := addI64_eq_ok.mp ended
  -- The test of the source: closed at the start, and not reached by a retraction since.
  have isClosed : ((decide (windowId + op.windowSizeMs < watermark) ||
      (current.next.finalized.lookup windowId).isSome) &&
        (current.reopened.lookup windowId).isNone) = true ↔
      op.ClosedAt watermark closed windowId ∧ ¬ Retracted done windowId := by
    rw [← Option.not_isSome, Bool.and_eq_true, Bool.or_eq_true, Bool.not_eq_true',
      decide_eq_true_eq, ← Bool.not_eq_true, applied.finalized, applied.reopened]
    unfold ClosedAt
    tauto
  dsimp only at stepped
  generalize ((decide (windowId + op.windowSizeMs < watermark) ||
    (current.next.finalized.lookup windowId).isSome) &&
      (current.reopened.lookup windowId).isNone) = windowClosed at stepped isClosed
  split at stepped
  · next refusing =>
    cases stepped
    simp only [Bool.and_eq_true, decide_eq_true_eq] at refusing
    obtain ⟨⟨isLate, positive⟩, isDrop⟩ := refusing
    obtain ⟨closedAt, fresh⟩ := isClosed.mp isLate
    exact applied.refuse inside ⟨isDrop, positive, closedAt, fresh⟩
  · next accepting =>
    obtain ⟨windows, added, stepped⟩ := bind_eq_ok.mp stepped
    have admitted : ¬ op.Refused watermark closed done ((windowId, vals), rowWeight) := by
      rintro ⟨isDrop, positive, closedAt, fresh⟩
      refine accepting ?_
      simp only [Bool.and_eq_true, decide_eq_true_eq]
      exact ⟨⟨isClosed.mpr ⟨closedAt, fresh⟩, positive⟩, isDrop⟩
    split at stepped
    · cases stepped
    · cases stepped
      refine applied.accept inside admitted added ?_ _
      rw [Bool.and_eq_true, isClosed, decide_eq_true_eq]
      have sign : ¬ 0 < rowWeight ↔ rowWeight < 0 := by omega
      rw [sign]

/-- The width of the input, and windows on a grid. -/
structure Serves (op : HopWindowOp) (inputSchema : List Field) : Prop where
  slidePositive : 0 < op.slideMs
  divides : op.slideMs ∣ op.windowSizeMs
  sizePositive : 0 < op.windowSizeMs
  columns : op.nInputCols = inputSchema.length
  schema : op.schema = outputSchema inputSchema

variable {inputSchema : List Field}

theorem Applied.processRow (serves : op.Serves inputSchema) {rows : List (List Int64 × Int)}
    (applied : op.Applied watermark closed start (op.latest start.watermark rows)
      (op.placementsOf rows) current) {cells : List Cell × Int}
    (length : cells.1.length = op.nInputCols)
    (stepped : op.processRow watermark current cells = .ok next) : op.Applied watermark closed start
      (op.latest start.watermark (rows ++ [(extractRowVals cells.1, cells.2)]))
      (op.placementsOf (rows ++ [(extractRowVals cells.1, cells.2)])) next := by
  unfold HopWindowOp.processRow at stepped
  split at stepped
  · next zero =>
    cases stepped
    have sameRows : (rows ++ [(extractRowVals cells.1, cells.2)]).filter
        (fun row => row.2 ≠ 0) = rows.filter fun row => row.2 ≠ 0 := by
      simp [zero]
    unfold latest placementsOf at applied ⊢
    rw [sameRows]
    exact applied
  · next nonzero =>
    have grownRows : (rows ++ [(extractRowVals cells.1, cells.2)]).filter (fun row => row.2 ≠ 0) =
          (rows.filter fun row => row.2 ≠ 0) ++ [(extractRowVals cells.1, cells.2)] := by
      simp [nonzero]
    rw [take_of_length_le length.le] at stepped
    generalize isVals : extractRowVals cells.1 = vals at stepped grownRows ⊢
    have valsLength : vals.length = op.nInputCols := by
      rw [← isVals, extractRowVals, length_map, length]
    obtain ⟨windowIds, listed, looped⟩ := bind_eq_ok.mp stepped
    obtain ⟨isListed, inRange⟩ :=
      hopWindowIds_eq_ok serves.slidePositive serves.divides serves.sizePositive.le listed
    have grown : op.placementsOf (rows ++ [(vals, cells.2)]) =
        op.placementsOf rows ++ windowIds.map fun windowId => ((windowId, vals), cells.2) := by
      rw [placementsOf, grownRows, flatMap_append, isListed]
      simp [placements, windowsOf, placementsOf]
    have advanced : op.latest start.watermark (rows ++ [(vals, cells.2)]) =
        max (op.latest start.watermark rows) (op.timeOf vals) := by
      rw [latest, grownRows, foldl_append]
      rfl
    rw [grown, advanced]
    refine foldlM_invariant_of_mem (fun done next =>
      op.Applied watermark closed start (max (op.latest start.watermark rows) (op.timeOf vals))
        (op.placementsOf rows ++ done.map fun windowId => ((windowId, vals), cells.2)) next)
      ?_ ?_ looped
    · intro done before windowId after mem _ held stepped
      rw [map_append, ← append_assoc]
      exact held.processWindow nonzero ⟨inRange windowId mem, valsLength⟩ stepped
    · rw [map_nil, append_nil]
      exact { applied with clock := congrArg (max · (op.timeOf vals)) applied.clock }

theorem applied_rows (closed : Int → Prop) (serves : op.Serves inputSchema)
    {cells : List (List Cell × Int)}
    (wide : ∀ row ∈ cells, row.1.length = op.nInputCols)
    (keyed : start.windows.KeyedBy rowKey op.InWindow)
    (isClosed : ∀ windowId, (start.finalized.lookup windowId).isSome ↔ closed windowId)
    {liveRows : Nat} {final : HopEpoch} (ended : cells.foldlM (op.processRow watermark)
      { next := start, dirty := ∅, reopened := ∅, liveRows } = .ok final) :
    op.Applied watermark closed start
      (op.latest start.watermark (cells.map fun row => (extractRowVals row.1, row.2)))
      (op.placementsOf (cells.map fun row => (extractRowVals row.1, row.2))) final := by
  refine foldlM_invariant_of_mem (fun done current => op.Applied watermark closed start
      (op.latest start.watermark (done.map fun row => (extractRowVals row.1, row.2)))
      (op.placementsOf (done.map fun row => (extractRowVals row.1, row.2))) current)
    ?_ (Applied.nil keyed isClosed liveRows) ended
  intro done current row next mem _ held stepped
  rw [map_append]
  exact held.processRow serves (wide row mem) stepped

/-! ## Emission -/

/-- Whether a row of a window is live, as a number. -/
def live (rows : RowMap (List Int64)) (vals : List Int64) : Int :=
  if 0 < rows.weightAt (rowKey vals) then 1 else 0

theorem lookup_liveValues (rows : RowMap (List Int64)) (key : Bytes) :
    (liveValues rows).lookup key =
      (rows.lookup key).bind fun row => if 0 < row.2 then some row.1 else none :=
  lookup_filterMap _ rows key

theorem keyed_liveValues (keyed : RowMap.KeyedBy rowKey Domain rows) :
    ∀ key vals, (liveValues rows).lookup key = some vals → rowKey vals = key ∧ Domain vals := by
  intro key vals found
  rw [lookup_liveValues] at found
  obtain ⟨row, isRow, kept⟩ := Option.bind_eq_some_iff.mp found
  split at kept
  · cases kept
    exact keyed key row isRow
  · cases kept

theorem shows_liveValues (keyed : RowMap.KeyedBy rowKey Domain rows) (vals : List Int64) :
    shows rowKey (liveValues rows) vals = live rows vals := by
  unfold shows live weightAt
  rw [lookup_liveValues]
  cases found : rows.lookup (rowKey vals) with
  | none => rfl
  | some row =>
    have isVals : row.1 = vals := rowKey_injective (keyed _ _ found).1
    by_cases positive : 0 < row.2
    · simp [positive, isVals]
    · simp [positive]

theorem isSome_lookup_iff (map : EmittedMap) (keyed : EmittedMap.Keyed rowKey map)
    (vals : List Int64) :
    (map.lookup (rowKey vals)).isSome = true ↔ map.lookup (rowKey vals) = some vals := by
  constructor
  · intro present
    obtain ⟨stored, found⟩ := Option.isSome_iff_exists.mp present
    rw [found, rowKey_injective (keyed _ _ found)]
  · intro found
    rw [found]
    rfl

/-- A placement behind the start of its window. -/
def tag (place : Int × List Int64) : List Int64 := Int64.ofInt place.1 :: place.2

def KeyedEmitted (op : HopWindowOp) (state : HopWindowState) : Prop :=
  ∀ windowId key vals, (state.emitted windowId).lookup key = some vals →
    rowKey vals = key ∧ vals.length = op.nInputCols

structure EmittedWindows (op : HopWindowOp) (start : HopWindowState) (done : List Int)
    (current : List (List Int64 × Int) × HopWindowState) (plain : List Placement) : Prop where
  rows : current.1 = plain.map fun place => (tag place.1, place.2)
  inside : ∀ place ∈ plain, op.InWindow place.1.1 place.1.2
  weights : ∀ windowId vals, weight plain (windowId, vals) =
    if windowId ∈ done then
      live (start.windows.window windowId) vals -
        EmittedMap.shows rowKey (start.emitted windowId) vals
    else 0
  emitted : ∀ windowId, current.2.emitted windowId =
    if windowId ∈ done then liveValues (start.windows.window windowId) else start.emitted windowId
  finalized : ∀ windowId, (current.2.finalized.lookup windowId).isSome ↔
    (start.finalized.lookup windowId).isSome ∨
      windowId ∈ done ∧ windowId + op.windowSizeMs < start.watermarkMs
  rest : current.2.windows = start.windows ∧ current.2.watermark = start.watermark ∧
    current.2.inputFrontier = start.inputFrontier

theorem EmittedWindows.step (keyed : start.windows.KeyedBy rowKey op.InWindow)
    (keyedEmitted : op.KeyedEmitted start) {windowId : Int} (inRange : InI64 windowId)
    (fresh : windowId ∉ windows) {output next : List (List Int64 × Int) × HopWindowState}
    {plain : List Placement} (emitted : op.EmittedWindows start windows output plain)
    (stepped : op.emitWindow output windowId = .ok next) :
    ∃ plainNext, op.EmittedWindows start (windows ++ [windowId]) next plainNext := by
  obtain ⟨windowEnd, added, ended⟩ := bind_eq_ok.mp stepped
  obtain ⟨_, rfl⟩ := addI64_eq_ok.mp added
  cases ended
  obtain ⟨sameWindows, sameClock, sameFrontier⟩ := emitted.rest
  have sameWindow : output.2.windows.window windowId = start.windows.window windowId := by
    rw [sameWindows]
  have sameWatermark : output.2.watermarkMs = start.watermarkMs := by
    unfold HopWindowState.watermarkMs
    rw [sameFrontier, sameClock]
  have oldEmitted : output.2.emitted windowId = start.emitted windowId := by
    rw [emitted.emitted, if_neg fresh]
  rw [sameWindow, oldEmitted, sameWatermark]
  have keyedLive := keyed_liveValues (keyed windowId)
  have keyedNew : EmittedMap.Keyed rowKey (liveValues (start.windows.window windowId)) :=
    fun key vals found => (keyedLive key vals found).1
  have keyedOld : EmittedMap.Keyed rowKey (start.emitted windowId) :=
    fun key vals found => (keyedEmitted windowId key vals found).1
  generalize isChanges : hopChanges (start.emitted windowId)
    (liveValues (start.windows.window windowId)) = changes
  have changedWeights : ∀ vals, weight changes vals = live (start.windows.window windowId) vals -
        shows rowKey (start.emitted windowId) vals := by
    intro vals
    rw [← isChanges, hopChanges, weight_changes keyedOld keyedNew isSome_lookup_iff,
      shows_liveValues (keyed windowId)]
  refine ⟨plain ++ changes.map fun row => ((windowId, row.1), row.2), ?_, ?_, ?_, ?_, ?_,
    sameWindows, sameClock, sameFrontier⟩
  · rw [map_append, ← emitted.rows, map_map]
    rfl
  · intro place mem
    rcases mem_append.mp mem with old | new
    · exact emitted.inside place old
    · obtain ⟨row, isRow, rfl⟩ := mem_map.mp new
      rw [← isChanges] at isRow
      obtain ⟨key, found | found⟩ := mem_changes isRow
      · exact ⟨inRange, (keyedEmitted windowId key row.1 found).2⟩
      · exact (keyedLive key row.1 found).2
  · intro query vals
    rw [weight_append, emitted.weights query vals]
    rcases eq_or_ne query windowId with rfl | ne
    · rw [if_neg fresh, if_pos (by simp), zero_add, ← changedWeights]
      exact weight_map (Prod.mk_right_injective query) changes vals
    · have absent : weight (changes.map fun row => ((windowId, row.1), row.2)) (query, vals) = 0 :=
        weight_map_eq_zero (fun _ same => ne (Prod.ext_iff.mp same).1.symm) changes
      rw [absent, add_zero]
      simp [ne]
  · intro query
    show ((output.2.prevOutput.insert windowId _).lookup query).getD ∅ = _
    rw [lookup_insert_eq]
    split
    · next same => rw [same, if_pos (by simp)]; rfl
    · next ne =>
      have unchanged := emitted.emitted query
      unfold HopWindowState.emitted at unchanged
      rw [unchanged]
      simp [ne, HopWindowState.emitted]
  · intro query
    exact isSome_collect (fun windowId => windowId + op.windowSizeMs < start.watermarkMs)
      (emitted.finalized query)

theorem emittedWindows (keyed : start.windows.KeyedBy rowKey op.InWindow)
    (keyedEmitted : op.KeyedEmitted start) (distinct : windows.Nodup)
    (inRange : ∀ windowId ∈ windows, InI64 windowId)
    {final : List (List Int64 × Int) × HopWindowState}
    (ended : windows.foldlM op.emitWindow ([], start) = .ok final) :
    ∃ plain, op.EmittedWindows start windows final plain := by
  refine foldlM_invariant_of_mem
    (fun done current => ∃ plain, op.EmittedWindows start done current plain)
    ?_ ⟨[], rfl, by simp, by simp, by simp, by simp, rfl, rfl, rfl⟩ ended
  rintro done current windowId next mem fresh ⟨plain, emitted⟩ stepped
  exact emitted.step keyed keyedEmitted (inRange windowId mem) (fresh distinct) stepped

end HopWindowOp

end RockStream
