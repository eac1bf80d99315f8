import RockStream.TimeWindow.HopEpoch
import RockStream.TimeWindow.TumbleLaw

/-!
Contract: what hopping windows show of the admitted placements.

The operator emits a row of a window once while its admitted weight is positive, so the
emitted rows add up to the admitted weights exactly when none of these exceeds one. Which
placements an epoch admits depends on the order of its rows only where a closed window gets
both a retraction and an insertion.

Owns:
- `HopLog`, the abstract account of a run, and `Refines`, which the operator keeps with it;
- the law of the emitted rows over runs, and when it does not depend on the order of rows.

Does not own: rows with NULL, whose raw values the operator reads.
-/

namespace RockStream

open Lib Loop Lib.Weighted RowMap List EmittedMap

variable {windowId watermark : Int} {place : Placement} {closed : Int → Prop}
  {batch : ArrowZSet} {inputSchema : List Field}

variable {vals : List Int64} {rows others : List (List Int64 × Int)} {events : List WindowEvent}

/-! ## The log of a run -/

/-- What a hopping window operator has admitted, and the windows that are closed. -/
structure HopLog where
  admitted : List Placement
  clock : Int
  frontier : Option FreshnessToken
  closed : Int → Prop

namespace HopLog

def new : HopLog :=
  { admitted := [], clock := -2 ^ 63, frontier := none, closed := fun _ => False }

variable (op : HopWindowOp) (log : HopLog)

def startWatermark (frontier : Option FreshnessToken) : Int :=
  currentWatermark (frontier.or log.frontier) log.clock

noncomputable def admits (rows : List (List Int64 × Int)) (frontier : Option FreshnessToken) :
    List Placement :=
  op.admittedOf (log.startWatermark frontier) log.closed (op.placementsOf rows)

open Classical in
/-- One epoch. A retraction reopens a window for the epoch; a window with admitted rows closes once
the watermark is past its end. -/
noncomputable def processEpoch (rows : List (List Int64 × Int)) (frontier : Option FreshnessToken) :
    HopLog :=
  if rows = [] ∧ frontier = none then log
  else
    let admitted := log.admitted ++ log.admits op rows frontier
    let clock := op.latest log.clock rows
    { admitted
      clock
      frontier := frontier.or log.frontier
      closed := fun windowId =>
        (log.closed windowId ∧ ¬ HopWindowOp.Retracted (op.placementsOf rows) windowId) ∨
          (∃ place ∈ admitted, place.1.1 = windowId) ∧
            windowId + op.windowSizeMs < currentWatermark (frontier.or log.frontier) clock }

noncomputable def handle (event : WindowEvent) : HopLog :=
  match event with
  | .processEpoch delta frontier => log.processEpoch op (int64Rows delta.valued) frontier
  | .pushInputFrontier frontier => { log with frontier := some frontier }

noncomputable def after (events : List WindowEvent) : HopLog :=
  events.foldl (handle op) new

def tagged : List (Row × Int) :=
  log.admitted.map fun place => (valuesRow (HopWindowOp.tag place.1), place.2)

/-- Whether a placement is live, as a number. -/
def live (place : Int × List Int64) : Int :=
  if 0 < weight log.admitted place then 1 else 0

/-- How often a row behind a window start is shown. -/
def view : List Int64 → Int
  | [] => 0
  | start :: vals => log.live (start.toInt, vals)

/-- No closed window gets both a retraction and an insertion that `Drop` could refuse. -/
def Unmixed : WindowEvent → Prop
  | .processEpoch delta frontier => op.lateDataPolicy = .drop →
      ∀ place ∈ op.placementsOf (int64Rows delta.valued), 0 < place.2 →
        op.ClosedAt (log.startWatermark frontier) log.closed place.1.1 →
          ¬ HopWindowOp.Retracted (op.placementsOf (int64Rows delta.valued)) place.1.1
  | .pushInputFrontier _ => True

def UnmixedRun (op : HopWindowOp) : HopLog → List WindowEvent → Prop
  | _, [] => True
  | log, event :: events => log.Unmixed op event ∧ UnmixedRun op (log.handle op event) events

end HopLog

/-! ## The operator keeps the log -/

namespace HopWindowOp

/-- The state holds the admitted placements, and has emitted the live ones. -/
structure Refines (op : HopWindowOp) (state : HopWindowState) (log : HopLog) : Prop where
  clock : state.watermark = log.clock
  frontier : state.inputFrontier = log.frontier
  closed : ∀ windowId, (state.finalized.lookup windowId).isSome ↔ log.closed windowId
  keyed : state.windows.KeyedBy rowKey op.InWindow
  present : ∀ windowId, (state.windows.lookup windowId).isSome ↔
    ∃ place ∈ log.admitted, place.1.1 = windowId
  inside : ∀ place ∈ log.admitted, op.InWindow place.1.1 place.1.2
  weights : ∀ windowId vals, op.InWindow windowId vals →
    weightAt (state.windows.window windowId) (rowKey vals) = weight log.admitted (windowId, vals)
  synced : ∀ windowId key, (state.emitted windowId).lookup key =
    (liveValues (state.windows.window windowId)).lookup key

variable {op : HopWindowOp} {state next : HopWindowState} {log : HopLog}

theorem Refines.new (op : HopWindowOp) : op.Refines .new .new where
  clock := rfl
  frontier := rfl
  closed := fun _ => by simp [HopWindowState.new, HopLog.new]
  keyed := fun _ => KeyedBy.empty _ _
  present := fun _ => by simp [HopWindowState.new, HopLog.new]
  inside := nofun
  weights := fun _ _ _ => rfl
  synced := fun _ _ => rfl

section

variable (refines : op.Refines state log)
include refines

theorem Refines.keyedEmitted : op.KeyedEmitted state := by
  intro windowId key vals found
  rw [refines.synced] at found
  obtain ⟨isKey, inside⟩ := keyed_liveValues (refines.keyed windowId) key vals found
  exact ⟨isKey, inside.2⟩

theorem Refines.shows_emitted (inside : op.InWindow windowId vals) :
    shows rowKey (state.emitted windowId) vals = log.live (windowId, vals) := by
  have sameShown : shows rowKey (state.emitted windowId) vals =
      shows rowKey (liveValues (state.windows.window windowId)) vals := by
    unfold shows
    rw [refines.synced]
  rw [sameShown, shows_liveValues (refines.keyed windowId), HopWindowOp.live,
    refines.weights windowId vals inside, HopLog.live]

/-- A row of another width is not live. -/
theorem Refines.live_eq_zero
    (outside : ¬ op.InWindow windowId vals) : log.live (windowId, vals) = 0 := by
  have absent : weight log.admitted (windowId, vals) = 0 := by
    refine weight_eq_zero_of_absent fun place mem same => outside ?_
    have inside := refines.inside place mem
    rw [same] at inside
    exact inside
  rw [HopLog.live, absent]
  rfl

end

/-! ## Tags -/

/-- Behind a window start stands the placement of that window. -/
theorem tag_eq_cons {place : Int × List Int64} (inRange : InI64 place.1) {start : Int64} :
    tag place = start :: vals ↔ place = (start.toInt, vals) := by
  have roundTrip : (Int64.ofInt place.1).toInt = place.1 :=
    Int64.toInt_ofInt_of_le inRange.1 inRange.2
  rw [tag, cons.injEq, Prod.ext_iff]
  refine and_congr_left fun _ => ⟨fun same => by rw [← same, roundTrip], fun same => ?_⟩
  rw [same, Int64.ofInt_toInt]

theorem weight_tags {plain : List Placement} (inRange : ∀ place ∈ plain, InI64 place.1.1)
    (start : Int64) (vals : List Int64) :
    weight (plain.map fun place => (tag place.1, place.2)) (start :: vals) =
      weight plain (start.toInt, vals) := by
  unfold weight
  rw [integrate_map tag]
  refine integrate_congr fun place mem => ?_
  rw [if_congr (tag_eq_cons (inRange place mem)) rfl rfl]

theorem weight_tags_nil (plain : List Placement) :
    weight (plain.map fun place => (tag place.1, place.2)) [] = 0 := by
  apply weight_map_eq_zero
  exact fun _ => cons_ne_nil _ _

/-! ## One epoch -/

section Epoch

variable {width : Nat} {delta : ArrowZSet} {frontier : Option FreshnessToken}
  {output : List (Row × Int)} {applied : HopEpoch} {windows : List Int} {plain : List Placement}
  {deltaRows : List (List Int64 × Int)}

/-- What an epoch with rows or a frontier does: the row loop, then the emission loop. -/
structure EpochSteps (op : HopWindowOp) (log : HopLog) (state : HopWindowState)
    (deltaRows : List (List Int64 × Int)) (frontier : Option FreshnessToken)
    (output : List (Row × Int)) (next : HopWindowState) (applied : HopEpoch) (windows : List Int)
    (plain : List Placement) : Prop where
  rowLoop : op.Applied (log.startWatermark frontier) log.closed
    { state with inputFrontier := frontier.or state.inputFrontier }
    (op.latest state.watermark deltaRows) (op.placementsOf deltaRows) applied
  listed : ∀ windowId, windowId ∈ windows ↔ (applied.dirty.lookup windowId).isSome ∨
    (applied.next.windows.lookup windowId).isSome ∧
      (applied.next.finalized.lookup windowId).isNone ∧
        windowId + op.windowSizeMs < applied.next.watermarkMs
  emitted : ∃ rows, op.EmittedWindows applied.next windows (rows, next) plain
  shown : ShowsValues output (plain.map fun place => (tag place.1, place.2))

theorem Serves.outputShape (serves : op.Serves inputSchema) (shape : Int64Shape inputSchema width) :
    Int64Shape op.schema (op.nInputCols + 1) := by
  rw [serves.schema, serves.columns]
  refine ⟨rfl, ?_⟩
  intro field mem
  rcases mem_cons.mp mem with rfl | old
  · rfl
  · exact shape.typed field old

theorem mem_admittedAfter {earlier done : List Placement}
    (mem : place ∈ op.admittedAfter watermark closed earlier done) : place ∈ done := by
  induction done generalizing earlier with
  | nil => cases mem
  | cons head rest ih =>
    rcases mem_append.mp mem with first | later
    · split at first
      · cases first
      · rw [mem_singleton.mp first]
        exact mem_cons_self
    · exact mem_cons_of_mem _ (ih later)

/-- The admitted placements are placements of the input in windows of the range. -/
theorem EpochSteps.inside (steps : op.EpochSteps log state deltaRows frontier output next applied
    windows plain) (mem : place ∈ log.admits op deltaRows frontier) :
    op.InWindow place.1.1 place.1.2 :=
  steps.rowLoop.inside place (mem_admittedAfter mem)

theorem processEpoch_eq_ok (serves : op.Serves inputSchema) (fields : delta.fields = inputSchema)
    (epoch : Int64Epoch width delta) (refines : op.Refines state log)
    (returned : op.processEpoch state delta frontier = .ok (batch, next)) :
    (int64Rows delta.valued = [] ∧ frontier = none) ∧ next = state ∧ batch.valued = [] ∨
    ¬ (int64Rows delta.valued = [] ∧ frontier = none) ∧ ∃ applied windows plain,
      op.EpochSteps log state (int64Rows delta.valued) frontier batch.valued next applied windows
        plain := by
  have isRows := epoch.int64Rows_eq
  have sameGuard : (delta.rows.isEmpty && frontier.isNone) = true ↔
      int64Rows delta.valued = [] ∧ frontier = none := by
    simp [isRows]
  unfold processEpoch at returned
  split at returned
  · next nothing =>
    obtain ⟨empty, built, ended⟩ := bind_eq_ok.mp returned
    cases ended
    exact .inl ⟨sameGuard.mp nothing, rfl, ArrowZSet.valued_empty (Exec.within_eq_ok.mp built)⟩
  · next something =>
    refine .inr ⟨fun nothing => something (sameGuard.mpr nothing), ?_⟩
    obtain ⟨⟨rows, final⟩, computed, returned⟩ := bind_eq_ok.mp returned
    obtain ⟨built, isBuilt, ended⟩ := bind_eq_ok.mp returned
    cases ended
    obtain ⟨applied, looped, computed⟩ := bind_eq_ok.mp (Exec.within_eq_ok.mp computed)
    obtain ⟨windows, listed, emittedAll⟩ := bind_eq_ok.mp computed
    have wide : ∀ row ∈ delta.rows, row.1.length = op.nInputCols := by
      intro row mem
      rw [(delta.conforms row mem).length_eq, fields, serves.columns]
    have rowLoop := applied_rows log.closed serves wide (by exact refines.keyed)
      (by exact refines.closed) looped
    have sameWatermark : HopWindowState.watermarkMs
        { state with inputFrontier := frontier.or state.inputFrontier } =
          log.startWatermark frontier := by
      unfold HopWindowState.watermarkMs HopLog.startWatermark
      rw [refines.clock, refines.frontier]
    rw [sameWatermark, ← isRows] at rowLoop
    have keyedEmitted : op.KeyedEmitted applied.next :=
      fun windowId => rowLoop.emitted windowId ▸ refines.keyedEmitted windowId
    obtain ⟨distinct, isListed⟩ := WindowTable.mem_windowsToEmit listed
    -- Every compared window holds a placement of the log or of this epoch.
    have inRange : ∀ windowId ∈ windows, InI64 windowId := by
      intro windowId mem
      have found : (∃ place ∈ log.admitted, place.1.1 = windowId) ∨
          ∃ place ∈ log.admits op (int64Rows delta.valued) frontier, place.1.1 = windowId := by
        rw [← refines.present]
        rcases (isListed windowId).mp mem with isDirty | ⟨isPresent, _⟩
        · exact .inr ((rowLoop.filled.dirty windowId).mp isDirty)
        · exact (rowLoop.present windowId).mp isPresent
      rcases found with ⟨place, isOld, rfl⟩ | ⟨place, isNew, rfl⟩
      · exact (refines.inside place isOld).1
      · exact (rowLoop.inside place (mem_admittedAfter isNew)).1
    obtain ⟨plain, emitted⟩ :=
      emittedWindows rowLoop.filled.keyed keyedEmitted distinct inRange emittedAll
    refine ⟨applied, windows, plain, rowLoop, isListed, ⟨rows, emitted⟩, ?_⟩
    have isPlain : rows = plain.map fun place => (tag place.1, place.2) := emitted.rows
    rw [← isPlain]
    have haveWidth : HaveWidth (op.nInputCols + 1) rows := by
      intro row mem
      rw [isPlain] at mem
      obtain ⟨place, isPlacement, rfl⟩ := mem_map.mp mem
      rw [tag, length_cons, (emitted.inside place isPlacement).2]
    have shape : Int64Shape inputSchema width := fields ▸ epoch.shape
    exact (buildValues_spec (serves.outputShape shape) (Nat.succ_pos _)
      (KeysDistinguish.of_injective (fun _ _ => rowKey_injective) rows) haveWidth).post
        (Exec.within_eq_ok.mp isBuilt)

variable (steps : op.EpochSteps log state deltaRows frontier output next applied windows plain)
  (refines : op.Refines state log)

include steps refines

theorem Refines.watermark_applied : applied.next.watermarkMs =
      currentWatermark (frontier.or log.frontier) (op.latest log.clock deltaRows) := by
  unfold HopWindowState.watermarkMs
  rw [steps.rowLoop.rest.2, steps.rowLoop.clock, refines.frontier, refines.clock]

theorem Refines.present_applied (windowId : Int) :
    (applied.next.windows.lookup windowId).isSome ↔
      ∃ place ∈ log.admitted ++ log.admits op deltaRows frontier, place.1.1 = windowId := by
  rw [steps.rowLoop.present, refines.present]
  exact listed_append fun place : Placement => place.1.1

theorem Refines.weights_applied (inside : op.InWindow windowId vals) :
    weightAt (applied.next.windows.window windowId) (rowKey vals) =
      weight (log.admitted ++ log.admits op deltaRows frontier) (windowId, vals) := by
  rw [weight_append, ← refines.weights windowId vals inside]
  exact steps.rowLoop.filled.weights (windowId, vals) inside

theorem Refines.emitted_next (windowId : Int) (key : Bytes) :
    (next.emitted windowId).lookup key =
      (liveValues (applied.next.windows.window windowId)).lookup key := by
  obtain ⟨_, emitted⟩ := steps.emitted
  rw [emitted.emitted]
  split
  · rfl
  · next notListed =>
    -- A window that is not compared got no row.
    have untouched : ∀ place ∈ op.admittedOf (log.startWatermark frontier) log.closed
        (op.placementsOf deltaRows), place.1.1 ≠ windowId := by
      intro place mem isWindow
      refine notListed ((steps.listed windowId).mpr (.inl ?_))
      exact (steps.rowLoop.filled.dirty windowId).mpr ⟨place, mem, isWindow⟩
    rw [steps.rowLoop.filled.untouched windowId untouched, steps.rowLoop.emitted]
    exact refines.synced windowId key

/-- A window is closed after the epoch if it was and was not reached by a retraction, or if it has
rows and the watermark is past its end. -/
theorem Refines.finalized_next (windowId : Int) :
    (next.finalized.lookup windowId).isSome ↔
      (log.closed windowId ∧ ¬ Retracted (op.placementsOf deltaRows) windowId) ∨
        (∃ place ∈ log.admitted ++ log.admits op deltaRows frontier, place.1.1 = windowId) ∧
          windowId + op.windowSizeMs <
            currentWatermark (frontier.or log.frontier) (op.latest log.clock deltaRows) := by
  obtain ⟨_, emitted⟩ := steps.emitted
  have stillClosed := steps.rowLoop.finalized windowId
  rw [emitted.finalized, stillClosed, steps.listed, Refines.present_applied steps refines,
    Refines.watermark_applied steps refines, steps.rowLoop.filled.dirty]
  refine closes_iff (fun place : Placement => place.1.1) fun isOpen => ?_
  rw [← stillClosed] at isOpen
  simpa using isOpen

theorem Refines.keeps (something : ¬ (deltaRows = [] ∧ frontier = none)) :
    op.Refines next (log.processEpoch op deltaRows frontier) := by
  unfold HopLog.processEpoch
  rw [if_neg something]
  obtain ⟨_, emitted⟩ := steps.emitted
  obtain ⟨sameWindows, sameClock, sameFrontier⟩ := emitted.rest
  refine ⟨?_, ?_, Refines.finalized_next steps refines, ?_, ?_, ?_, ?_, ?_⟩
  · rw [sameClock, steps.rowLoop.clock, refines.clock]
  · rw [sameFrontier, steps.rowLoop.rest.2, refines.frontier]
  · rw [sameWindows]
    exact steps.rowLoop.filled.keyed
  · intro windowId
    rw [sameWindows]
    exact Refines.present_applied steps refines windowId
  · intro place mem
    rcases mem_append.mp mem with old | new
    · exact refines.inside place old
    · exact steps.inside new
  · intro windowId vals inside
    rw [sameWindows]
    exact Refines.weights_applied steps refines inside
  · intro windowId key
    rw [sameWindows]
    exact Refines.emitted_next steps refines windowId key

omit steps refines

/-- One epoch keeps the log, and emits the change of what is live. -/
theorem Refines.processEpoch (serves : op.Serves inputSchema) (fields : delta.fields = inputSchema)
    (epoch : Int64Epoch width delta) (refines : op.Refines state log)
    (returned : op.processEpoch state delta frontier = .ok (batch, next)) :
    op.Refines next (log.processEpoch op (int64Rows delta.valued) frontier) ∧
      Shows batch.valued log.view (log.processEpoch op (int64Rows delta.valued) frontier).view := by
  rcases processEpoch_eq_ok serves fields epoch refines returned with
    ⟨nothing, rfl, noRows⟩ | ⟨something, applied, windows, plain, steps⟩
  · unfold HopLog.processEpoch
    rw [if_pos nothing, noRows]
    exact ⟨refines, .refl _⟩
  · have kept := Refines.keeps steps refines something
    obtain ⟨rows, emitted⟩ := steps.emitted
    refine ⟨kept, steps.shown.shows fun vals => ?_⟩
    cases vals with
    | nil =>
      rw [weight_tags_nil]
      rfl
    | cons start vals =>
      rw [weight_tags fun place mem => (emitted.inside place mem).1]
      show _ = HopLog.live _ (start.toInt, vals) - HopLog.live _ (start.toInt, vals)
      by_cases inside : op.InWindow start.toInt vals
      · rw [← kept.shows_emitted inside, ← refines.shows_emitted inside, emitted.weights,
          emitted.emitted, steps.rowLoop.emitted, ← shows_liveValues (steps.rowLoop.filled.keyed _)]
        split
        · rfl
        · exact (sub_self _).symm
      · rw [kept.live_eq_zero inside, refines.live_eq_zero inside, sub_self]
        refine weight_eq_zero_of_absent fun place mem same => inside ?_
        have isInside := emitted.inside place mem
        rw [same] at isInside
        exact isInside

end Epoch

/-! ## Runs -/

/-- The batches of an event are rows of the input schema without NULL. -/
def Accepts (inputSchema : List Field) (event : WindowEvent) : Prop :=
  ∀ delta ∈ event.deltas, delta.fields = inputSchema ∧ Int64Epoch inputSchema.length delta

theorem refines_run (serves : op.Serves inputSchema)
    (accepts : ∀ event ∈ events, Accepts inputSchema event) {outputs : List (Option ArrowZSet)}
    {final : HopWindowState} (ran : Loop.run op.handle .new events = .ok (outputs, final)) :
    op.Refines final (HopLog.after op events) ∧
      Shows (emittedRows outputs) HopLog.new.view (HopLog.after op events).view :=
  run_emits (HopLog.handle op) op.Refines
    (fun output before after => Shows output before.view after.view)
    (fun log => .refl log.view) Shows.append (fun _ _ _ => rfl)
    (fun accepted refines => refines.processEpoch serves accepted.1 accepted.2)
    (fun {state _} frontier refines => ⟨{ state with inputFrontier := frontier }, rfl,
      { refines with frontier := rfl }, .refl _⟩) (Refines.new op) accepts ran

theorem view_new (vals : List Int64) : HopLog.new.view vals = 0 := by
  cases vals <;> rfl

theorem Refines.weight_tagged (refines : op.Refines state log) (start : Int64) (vals : List Int64) :
    weight log.tagged (valuesRow (start :: vals)) = weight log.admitted (start.toInt, vals) := by
  rw [← weight_tags fun place mem => (refines.inside place mem).1, ← (ShowsValues.map _).values,
    map_map]
  rfl

theorem weight_tagged_others (row : Row) (ne : ∀ start vals, row ≠ valuesRow (start :: vals)) :
    weight log.tagged row = 0 := by
  refine weight_eq_zero_of_absent fun entry mem same => ?_
  obtain ⟨place, _, rfl⟩ := mem_map.mp mem
  exact ne _ _ same.symm

/-- The emitted rows add up to the admitted weights exactly when none of these exceeds one. -/
theorem Refines.emits_iff (refines : op.Refines state log) {output : List (Row × Int)}
    (shows : Shows output HopLog.new.view log.view) :
    (∀ row, weight output row = max 0 (weight log.tagged row)) ↔
      ∀ place, weight log.admitted place ≤ 1 := by
  have shown : ∀ start vals, weight output (valuesRow (start :: vals)) =
      log.live (start.toInt, vals) := by
    intro start vals
    rw [shows.1, view_new, sub_zero]
    rfl
  constructor
  · intro law place
    by_contra! large
    have admitted : ∃ entry ∈ log.admitted, entry.1 = place := by
      by_contra! absent
      rw [weight_eq_zero_of_absent absent] at large
      exact absurd large (by decide)
    obtain ⟨entry, mem, rfl⟩ := admitted
    have inRange := (refines.inside entry mem).1
    have atEntry := law (valuesRow (Int64.ofInt entry.1.1 :: entry.1.2))
    rw [shown, refines.weight_tagged, Int64.toInt_ofInt_of_le inRange.1 inRange.2] at atEntry
    have isLarge : 1 < weight log.admitted (entry.1.1, entry.1.2) := large
    have isLive : log.live (entry.1.1, entry.1.2) = 1 := if_pos (by omega)
    omega
  · intro small row
    by_cases isValues : ∃ vals, row = valuesRow vals
    · obtain ⟨vals, rfl⟩ := isValues
      cases vals with
      | nil =>
        rw [shows.1, view_new, weight_tagged_others _ fun _ _ => by simp [valuesRow]]
        rfl
      | cons start vals =>
        rw [shown, refines.weight_tagged, HopLog.live]
        have atMost := small (start.toInt, vals)
        split <;> omega
    · push Not at isValues
      rw [shows.2 row isValues, weight_tagged_others row fun _ _ => isValues _]
      rfl

end HopWindowOp

/-! ## The order of the rows inside an epoch -/

namespace HopLog

/-- The same log up to the order of the admitted placements. -/
structure Alike (first second : HopLog) : Prop where
  admitted : first.admitted.Perm second.admitted
  clock : first.clock = second.clock
  frontier : first.frontier = second.frontier
  closed : first.closed = second.closed

variable {op : HopWindowOp} {first second : HopLog}

theorem latest_perm (clock : Int) (perm : rows.Perm others) :
    op.latest clock rows = op.latest clock others := by
  refine (perm.filter _).foldl_eq' (fun left _ right _ clock => ?_) clock
  exact max_right_comm _ _ _

theorem placementsOf_perm (perm : rows.Perm others) :
    (op.placementsOf rows).Perm (op.placementsOf others) :=
  (perm.filter _).flatMap_right _

theorem retracted_congr {placements others : List Placement} (perm : placements.Perm others) :
    HopWindowOp.Retracted placements = HopWindowOp.Retracted others := by
  unfold HopWindowOp.Retracted
  simp only [perm.mem_iff]

/-- An insertion into a closed window, under the `Drop` policy. -/
def Barred (op : HopWindowOp) (watermark : Int) (closed : Int → Prop) (place : Placement) :
    Prop :=
  op.lateDataPolicy = .drop ∧ 0 < place.2 ∧ op.ClosedAt watermark closed place.1.1

/-- No window of a barred placement gets a retraction. -/
def Separate (op : HopWindowOp) (watermark : Int) (closed : Int → Prop) (all : List Placement) :
    Prop :=
  ∀ place ∈ all, Barred op watermark closed place → ¬ HopWindowOp.Retracted all place.1.1

open Classical in
/-- Where no closed window gets both a retraction and an insertion, an epoch refuses the barred
placements, whatever stands before them. -/
theorem admittedAfter_eq_filter {all earlier placements : List Placement}
    (separate : Separate op watermark closed all)
    (isEarlier : earlier ⊆ all) (isPart : placements ⊆ all) :
    op.admittedAfter watermark closed earlier placements =
      placements.filter fun place => ¬ Barred op watermark closed place := by
  induction placements generalizing earlier with
  | nil => rfl
  | cons place rest ih =>
    obtain ⟨isHere, restPart⟩ := cons_subset.mp isPart
    have grown : earlier ++ [place] ⊆ all :=
      append_subset.mpr ⟨isEarlier, by simpa using isHere⟩
    rw [HopWindowOp.admittedAfter, ih grown restPart]
    by_cases barred : Barred op watermark closed place
    · have fresh : ¬ HopWindowOp.Retracted earlier place.1.1 := by
        rintro ⟨other, mem, reaches⟩
        exact separate place isHere barred ⟨other, isEarlier mem, reaches⟩
      rw [if_pos ⟨barred.1, barred.2.1, barred.2.2, fresh⟩]
      simp [barred]
    · rw [if_neg fun refused => barred ⟨refused.1, refused.2.1, refused.2.2.1⟩]
      simp [barred]

theorem admittedOf_perm (perm : rows.Perm others)
    (separate : Separate op watermark closed (op.placementsOf rows)) :
    (op.admittedOf watermark closed (op.placementsOf rows)).Perm
      (op.admittedOf watermark closed (op.placementsOf others)) := by
  have placed : (op.placementsOf rows).Perm (op.placementsOf others) := placementsOf_perm perm
  have separateOthers : Separate op watermark closed (op.placementsOf others) := by
    intro place mem
    rw [← retracted_congr placed]
    exact separate place (placed.mem_iff.mpr mem)
  unfold HopWindowOp.admittedOf
  rw [admittedAfter_eq_filter separate (nil_subset _) (List.Subset.refl _),
    admittedAfter_eq_filter separateOthers (nil_subset _) (List.Subset.refl _)]
  exact placed.filter _

theorem Alike.processEpoch {frontier : Option FreshnessToken} (perm : rows.Perm others)
    (separate : Separate op (first.startWatermark frontier) first.closed (op.placementsOf rows))
    (alike : Alike first second) :
    Alike (first.processEpoch op rows frontier) (second.processEpoch op others frontier) := by
  have sameWatermark : first.startWatermark frontier = second.startWatermark frontier := by
    unfold startWatermark
    rw [alike.clock, alike.frontier]
  have admitsPerm : (first.admits op rows frontier).Perm (second.admits op others frontier) := by
    unfold admits
    rw [← sameWatermark, ← alike.closed]
    exact admittedOf_perm perm separate
  unfold HopLog.processEpoch
  have sameGuard : rows = [] ∧ frontier = none ↔ others = [] ∧ frontier = none := by
    rw [← length_eq_zero_iff, perm.length_eq, length_eq_zero_iff]
  simp only [sameGuard]
  split
  · exact alike
  · have allPerm := alike.admitted.append admitsPerm
    refine ⟨allPerm, ?_, ?_, ?_⟩
    · rw [alike.clock]
      exact latest_perm _ perm
    · rw [alike.frontier]
    · rw [retracted_congr (placementsOf_perm perm)]
      simp only [alike.closed, alike.clock, alike.frontier, latest_perm _ perm, allPerm.mem_iff]

/-- Reordering the rows of an unmixed event reorders its admitted placements, and changes nothing
else. -/
theorem Alike.handle {event other : WindowEvent} (reordered : event.Reordered other)
    (unmixed : first.Unmixed op event) (alike : Alike first second) :
    Alike (first.handle op event) (second.handle op other) := by
  rcases reordered.shape with ⟨frontier, rfl, rfl⟩ | ⟨delta, others, frontier, rfl, rfl, _, perm⟩
  · exact { alike with frontier := rfl }
  · have rowsPerm : (int64Rows delta.valued).Perm (int64Rows others.valued) :=
      (perm.map _).filterMap _
    refine alike.processEpoch rowsPerm fun place mem barred => ?_
    exact unmixed barred.1 place mem barred.2.1 barred.2.2

theorem Alike.run {others : List WindowEvent}
    (reordered : List.Forall₂ WindowEvent.Reordered events others)
    (unmixed : UnmixedRun op first events) (alike : Alike first second) :
    Alike (events.foldl (HopLog.handle op) first) (others.foldl (HopLog.handle op) second) := by
  induction reordered generalizing first second with
  | nil => exact alike
  | cons head _ ih =>
    exact ih unmixed.2 (alike.handle head unmixed.1)

end HopLog

namespace HopWindowOp

theorem serves_new {windowSizeMs slideMs : Int}
    (positive : 0 < slideMs) (divides : slideMs ∣ windowSizeMs) (longer : slideMs < windowSizeMs)
    (timeCol : Nat) (policy : Sql.LateDataPolicy) :
    (new inputSchema timeCol windowSizeMs slideMs policy).Serves inputSchema :=
  ⟨positive, divides, positive.trans longer, rfl, rfl⟩

theorem accepts_reordered {others : List WindowEvent}
    (reordered : List.Forall₂ WindowEvent.Reordered events others)
    (accepts : ∀ event ∈ events, Accepts inputSchema event) :
    ∀ event ∈ others, Accepts inputSchema event := by
  refine WindowEvent.deltas_reordered ?_ reordered accepts
  rintro delta others ⟨sameFields, perm⟩ ⟨fields, shape, valid, fits⟩
  refine ⟨sameFields ▸ fields, sameFields ▸ shape, ?_, ?_⟩
  · exact fun row inside => valid row (perm.mem_iff.mpr inside)
  · exact fun row inside => fits row (perm.mem_iff.mpr inside)

end HopWindowOp

/-- Over every run of rows without NULL, the emitted rows add up to the admitted placements exactly
when no placement has an admitted weight above one; a row is placed in the windows that hold its
event time; and reordering the rows inside the epochs does not change the sum if no closed window
gets both a retraction and an insertion in one epoch. -/
theorem HopWindowOp.emits_placements_iff {inputSchema : List Field} {timeCol : Nat}
    {windowSizeMs slideMs : Int} {policy : Sql.LateDataPolicy} (positive : 0 < slideMs)
    (divides : slideMs ∣ windowSizeMs) (longer : slideMs < windowSizeMs) {op : HopWindowOp}
    (isOp : op = new inputSchema timeCol windowSizeMs slideMs policy) {events : List WindowEvent}
    (accepts : ∀ event ∈ events, Accepts inputSchema event) {outputs : List (Option ArrowZSet)}
    {final : HopWindowState} (ran : Loop.run op.handle .new events = .ok (outputs, final))
    {log : HopLog} (isLog : log = HopLog.after op events) :
    ((∀ row, weight (emittedRows outputs) row = max 0 (weight log.tagged row)) ↔
      ∀ placement, weight log.admitted placement ≤ 1) ∧ (∀ vals, (op.windowsOf vals).Nodup ∧
      (op.windowsOf vals).length = (windowSizeMs / slideMs).toNat ∧
      ∀ windowId, windowId ∈ op.windowsOf vals ↔ slideMs ∣ windowId ∧
        windowId ≤ op.timeOf vals ∧ op.timeOf vals < windowId + windowSizeMs) ∧
    (HopLog.UnmixedRun op .new events → ∀ others outputs' final',
      List.Forall₂ WindowEvent.Reordered events others →
        Loop.run op.handle .new others = .ok (outputs', final') →
        ∀ row, weight (emittedRows outputs') row = weight (emittedRows outputs) row) := by
  have serves : op.Serves inputSchema := isOp ▸ serves_new positive divides longer timeCol policy
  have sameSize : windowSizeMs = op.windowSizeMs := by rw [isOp, new]
  have sameSlide : slideMs = op.slideMs := by rw [isOp, new]
  obtain ⟨refines, shows⟩ := refines_run serves accepts ran
  rw [← isLog] at refines shows
  refine ⟨refines.emits_iff shows, fun vals => ?_, ?_⟩
  · rw [sameSize, sameSlide]
    refine ⟨nodup_hopStarts serves.slidePositive _, ?_,
      mem_hopStarts serves.slidePositive serves.divides _⟩
    rw [windowsOf, hopStarts, (perm_insertionSort _ _).length_eq, length_map, length_range]
  · intro unmixed others outputs' final' reordered ranOthers row
    obtain ⟨_, showsOthers⟩ := refines_run serves (accepts_reordered reordered accepts) ranOthers
    have alike : HopLog.Alike log (HopLog.after op others) :=
      isLog ▸ HopLog.Alike.run reordered unmixed ⟨.refl _, rfl, rfl, rfl⟩
    have sameView : (HopLog.after op others).view = log.view := by
      funext vals
      cases vals with
      | nil => rfl
      | cons start vals =>
        show HopLog.live _ _ = HopLog.live _ _
        unfold HopLog.live
        rw [weight_perm alike.admitted]
    rw [sameView] at showsOthers
    by_cases isValues : ∃ vals, row = valuesRow vals
    · obtain ⟨vals, rfl⟩ := isValues
      rw [showsOthers.1, shows.1]
    · push Not at isValues
      rw [showsOthers.2 row isValues, shows.2 row isValues]

/-- A row in two windows, its retraction after a frontier has closed them, and a later row. -/
def hopSample : List WindowEvent :=
  [.processEpoch (.ofPairs [((some 7, some 1), 1)]) none,
    .pushInputFrontier (.at 20),
    .processEpoch (.ofPairs [((some 7, some 1), -1), ((some 31, some 1), 1)]) none]

theorem accepts_hopSample : ∀ event ∈ hopSample, HopWindowOp.Accepts pairFields event := by
  unfold HopWindowOp.Accepts
  decide

theorem HopWindowOp.emits_placements_iff_sample : ∃ outputs final,
    Loop.run (new pairFields 0 10 5 .drop).handle .new hopSample = .ok (outputs, final) ∧
      weight (emittedRows outputs) [some (.int64 25), some (.int64 31), some (.int64 1)] = 1 ∧
      ((∀ row, weight (emittedRows outputs) row =
          max 0 (weight (HopLog.after (new pairFields 0 10 5 .drop) hopSample).tagged row)) ↔
        ∀ placement,
          weight (HopLog.after (new pairFields 0 10 5 .drop) hopSample).admitted
            placement ≤ 1) := by
  exact exists_ok_and (by decide +kernel) fun _ _ ran =>
    (emits_placements_iff (by decide) (by decide) (by decide) rfl accepts_hopSample ran rfl).1

/-- A row of weight two is emitted once in each of its windows; and under `Drop` an insertion into a
closed window is admitted after a retraction from it, and refused before. -/
theorem HopWindowOp.row_of_weight_two_emitted_once :
    (∃ outputs final, Loop.run (new pairFields 0 10 5 .update).handle .new
        [.processEpoch (.ofPairs [((some 7, some 1), 2)]) none] = .ok (outputs, final) ∧
      weight (emittedRows outputs) [some (.int64 0), some (.int64 7), some (.int64 1)] = 1 ∧
      weight (emittedRows outputs) [some (.int64 5), some (.int64 7), some (.int64 1)] = 1) ∧
    (∃ outputs final, Loop.run (new pairFields 0 10 5 .drop).handle .new
        [.processEpoch (.ofPairs [((some 7, some 1), 1)]) none, .pushInputFrontier (.at 20),
          .processEpoch (.ofPairs [((some 7, some 1), -1), ((some 8, some 1), 1)]) none] =
          .ok (outputs, final) ∧
      weight (emittedRows outputs) [some (.int64 5), some (.int64 8), some (.int64 1)] = 1) ∧
    ∃ outputs final, Loop.run (new pairFields 0 10 5 .drop).handle .new
        [.processEpoch (.ofPairs [((some 7, some 1), 1)]) none, .pushInputFrontier (.at 20),
          .processEpoch (.ofPairs [((some 8, some 1), 1), ((some 7, some 1), -1)]) none] =
          .ok (outputs, final) ∧
      weight (emittedRows outputs) [some (.int64 5), some (.int64 8), some (.int64 1)] = 0 := by
  exact ⟨exists_ok (by decide +kernel), exists_ok (by decide +kernel),
    exists_ok (by decide +kernel)⟩

end RockStream
