import RockStream.TimeWindow.TumbleLaw

/-!
Contract: late rows under `RouteToSink`.

A late row is copied to the side channel once, and is then added to its closed window as
under `Update`. So the side channel is exact, and a closed window stays as it was only
where no row is late.

Owns:
- `RoutesOnly`, an epoch whose late rows reach the side channel and nothing else, and the
  equivalence of that with the absence of late rows;
- the side channel of a run, and that windows and output are those of `Update`.

Does not own: delivery from the side channel.
-/

namespace RockStream

open Lib Loop Lib.Weighted RowMap

namespace TumbleWindowOp

open Classical in
/-- The copies of the late rows of an epoch, in order. -/
noncomputable def lateCopies (op : TumbleWindowOp) (log : TumbleLog)
    (rows : List (Int64Row × Int)) (frontier : Option FreshnessToken) : List (List Int64) :=
  (rows.filter fun row => op.Late (log.startWatermark frontier) log.closed rows row).map
    fun row => row.1.map fun value => value.getD 0

/-- The late rows of an epoch reach the side channel, each once; the closed windows they belong to
keep their rows, and nothing is emitted for them. -/
structure RoutesOnly (op : TumbleWindowOp) (log : TumbleLog) (state : TumbleWindowState)
    (rows : List (Int64Row × Int)) (frontier : Option FreshnessToken) (output : List (Row × Int))
    (next : TumbleWindowState) : Prop where
  routed : next.lateRouteRows = state.lateRouteRows ++ op.lateCopies log rows frontier
  untouched : ∀ row ∈ rows, op.Late (log.startWatermark frontier) log.closed rows row →
    next.windows.window (op.startOf row.1) = state.windows.window (op.startOf row.1)
  silent : ∀ row ∈ rows, op.Late (log.startWatermark frontier) log.closed rows row →
    ∀ vals, op.startOf vals = op.startOf row.1 → weight output (Int64Row.toRow (op.tag vals)) = 0

/-- Every epoch of the run routes its late rows and does nothing else with them. -/
def RoutesLateRows (op : TumbleWindowOp) (events : List WindowEvent) : Prop :=
  ∀ done delta frontier rest outputs state output next,
    events = done ++ .processEpoch delta frontier :: rest →
    Loop.run op.handle .new done = .ok (outputs, state) →
    op.processEpoch state delta frontier = .ok (output, next) →
    op.RoutesOnly (TumbleLog.after op done) state delta.int64Values frontier output.valued next

def NoLateRows (op : TumbleWindowOp) (events : List WindowEvent) : Prop :=
  ∀ done delta frontier rest, events = done ++ .processEpoch delta frontier :: rest →
    ∀ row ∈ delta.int64Values, ¬ op.Late ((TumbleLog.after op done).startWatermark frontier)
      (TumbleLog.after op done).closed delta.int64Values row

variable {op : TumbleWindowOp} {inputSchema : List Field} {log : TumbleLog}
  {state next : TumbleWindowState} {delta : ArrowZSet} {frontier : Option FreshnessToken}
  {output : ArrowZSet}

open Classical in
/-- Under `RouteToSink` every late row is copied once. -/
theorem routedOf_eq {sink : String} (policy : op.lateDataPolicy = .routeToSink sink)
    (rows : List (Int64Row × Int)) :
    op.routedOf (log.startWatermark frontier) log.closed rows rows =
      op.lateCopies log rows frontier := by
  unfold routedOf lateCopies
  generalize op.Late (log.startWatermark frontier) log.closed rows = late
  induction rows with
  | nil => rfl
  | cons row rows ih =>
    rw [List.flatMap_cons, List.filter_cons, ih]
    by_cases isLate : late row
    · simp [isLate, routedCopies, policy]
    · simp [isLate, routedCopies]

theorem lateRouteRows_processEpoch (serves : op.Serves inputSchema) {sink : String}
    (policy : op.lateDataPolicy = .routeToSink sink) (fields : delta.fields = inputSchema)
    (refines : op.Refines state log)
    (returned : op.processEpoch state delta frontier = .ok (output, next)) :
    next.lateRouteRows = state.lateRouteRows ++ op.lateCopies log delta.int64Values frontier := by
  rcases processEpoch_eq_ok serves fields refines.placed refines.placedEmitted returned with
    ⟨nothing, rfl, _⟩ | ⟨_, applied, dirty, windows, plain, steps⟩
  · rw [nothing.1]
    simp [lateCopies]
  · obtain ⟨_, emitted⟩ := steps.emitted
    rw [emitted.rest.2.2.2, (refines.rowLoop steps).routed, routedOf_eq policy]

/-- What the late rows of events leave in the side channel. -/
noncomputable def routedRows (op : TumbleWindowOp) :
    TumbleLog → List WindowEvent → List (List Int64)
  | _, [] => []
  | log, .processEpoch delta frontier :: rest => op.lateCopies log delta.int64Values frontier ++
      op.routedRows (log.processEpoch op delta.int64Values frontier) rest
  | log, .pushInputFrontier frontier :: rest =>
      op.routedRows { log with frontier := some frontier } rest

theorem lateRouteRows_run (serves : op.Serves inputSchema) {sink : String}
    (policy : op.lateDataPolicy = .routeToSink sink) {events : List WindowEvent}
    (accepts : ∀ event ∈ events, Accepts inputSchema event) (refines : op.Refines state log)
    {outputs : List (Option ArrowZSet)}
    (ran : Loop.run op.handle state events = .ok (outputs, next)) :
    next.lateRouteRows = state.lateRouteRows ++ op.routedRows log events := by
  induction events generalizing state log outputs with
  | nil =>
    cases ran
    simp [routedRows]
  | cons event events ih =>
    obtain ⟨acceptsHead, acceptsRest⟩ := List.forall_mem_cons.mp accepts
    obtain ⟨⟨output, after⟩, handled, rest⟩ := bind_eq_ok.mp ran
    obtain ⟨⟨outputs, last⟩, ranRest, ended⟩ := bind_eq_ok.mp rest
    cases ended
    cases event with
    | processEpoch delta frontier =>
      obtain ⟨⟨batch, next⟩, processed, ended⟩ := bind_eq_ok.mp handled
      cases ended
      have fields := acceptsHead delta (List.mem_singleton.mpr rfl)
      rw [ih acceptsRest (refines.processEpoch serves fields processed).1 ranRest,
        lateRouteRows_processEpoch serves policy fields refines processed, routedRows,
        List.append_assoc]
    | pushInputFrontier frontier =>
      cases handled
      have pushed : op.Refines { state with inputFrontier := some frontier }
          { log with frontier := some frontier } := { refines with frontier := rfl }
      have rest := ih acceptsRest pushed ranRest
      exact rest

/-- The log does not depend on the side channel. -/
theorem handle_update {timeCol : Nat} {windowSizeMs : Int} {sink : String} :
    TumbleLog.handle (new inputSchema timeCol windowSizeMs (.routeToSink sink)) =
      TumbleLog.handle (new inputSchema timeCol windowSizeMs .update) := by
  have admits : ∀ watermark closed rows done,
      (new inputSchema timeCol windowSizeMs (.routeToSink sink)).admittedOf watermark closed rows
        done = (new inputSchema timeCol windowSizeMs .update).admittedOf watermark closed rows
        done := by
    intro watermark closed rows done
    refine List.filter_congr fun row _ => ?_
    simp [Admitted, new]
  funext log event
  cases event with
  | processEpoch delta frontier =>
    simp only [TumbleLog.handle, TumbleLog.processEpoch, TumbleLog.admits, admits]
    rfl
  | pushInputFrontier frontier => rfl

/-- A late row is admitted unless the policy is `Drop`, and nothing is retracted from its window:
its weight grows. -/
theorem weight_admits_pos (notDrop : op.lateDataPolicy ≠ .drop) {rows : List (Int64Row × Int)}
    {row : Int64Row × Int} (mem : row ∈ rows)
    (late : op.Late (log.startWatermark frontier) log.closed rows row) :
    0 < weight (log.admits op rows frontier) row.1 := by
  have nonnegative : ∀ term ∈ (log.admits op rows frontier).map fun other =>
      (if other.1 = row.1 then 1 else 0) * other.2, 0 ≤ term := by
    intro term listed
    obtain ⟨other, isAdmitted, rfl⟩ := List.mem_map.mp listed
    split
    · next same =>
      by_contra! negative
      rw [one_mul] at negative
      exact late.2.2 other (mem_admittedOf.mp isAdmitted).1 negative (by rw [same])
    · rw [zero_mul]
  have admitted : row ∈ log.admits op rows frontier :=
    mem_admittedOf.mpr ⟨mem, late.1.ne', fun dropped => notDrop dropped.1⟩
  refine late.1.trans_le (List.single_le_sum nonnegative row.2 ?_)
  exact List.mem_map.mpr ⟨row, admitted, by rw [if_pos rfl, one_mul]⟩

theorem window_ne_of_late (serves : op.Serves inputSchema) (notDrop : op.lateDataPolicy ≠ .drop)
    (fields : delta.fields = inputSchema) (refines : op.Refines state log)
    (returned : op.processEpoch state delta frontier = .ok (output, next)) {row : Int64Row × Int}
    (mem : row ∈ delta.int64Values)
    (late : op.Late (log.startWatermark frontier) log.closed delta.int64Values row) :
    next.windows.window (op.startOf row.1) ≠ state.windows.window (op.startOf row.1) := by
  intro same
  obtain ⟨cells, isCells, isRow⟩ := List.mem_map.mp mem
  have length : row.1.length = op.nInputCols := by
    rw [← isRow, rowValues, List.length_map, (delta.conforms cells isCells).length_eq, fields,
      serves.columns]
  have before := refines.weights row.1 length
  have after := (refines.processEpoch serves fields returned).1.weights row.1 length
  have something : ¬ (delta.int64Values = [] ∧ frontier = none) := by
    rintro ⟨noRows, _⟩
    rw [noRows] at mem
    cases mem
  unfold TumbleLog.processEpoch at after
  rw [if_neg something, same, before, weight_append] at after
  have grown := weight_admits_pos notDrop mem late
  omega

/-- Under `RouteToSink`, over every run, late rows leave the closed windows and their output alone
exactly when there are none. -/
theorem routes_late_rows_iff {timeCol : Nat} {windowSizeMs : Int} {sink : String}
    (positive : 0 < windowSizeMs) (bound : inputSchema.length ≤ 2 ^ 64)
    {events : List WindowEvent} (accepts : ∀ event ∈ events, Accepts inputSchema event)
    {outputs : List (Option ArrowZSet)} {final : TumbleWindowState}
    (ran : Loop.run (new inputSchema timeCol windowSizeMs (.routeToSink sink)).handle .new events =
      .ok (outputs, final)) :
    (new inputSchema timeCol windowSizeMs (.routeToSink sink)).RoutesLateRows events ↔
      (new inputSchema timeCol windowSizeMs (.routeToSink sink)).NoLateRows events := by
  have serves := serves_new positive bound timeCol (.routeToSink sink)
  have acceptsDone : ∀ done delta frontier rest,
      events = done ++ .processEpoch delta frontier :: rest →
        (∀ event ∈ done, Accepts inputSchema event) ∧ delta.fields = inputSchema := by
    rintro done delta frontier rest rfl
    refine ⟨fun event member => accepts event (by simp [member]), ?_⟩
    exact accepts (.processEpoch delta frontier) (by simp) delta (List.mem_singleton.mpr rfl)
  constructor
  · intro routes done delta frontier rest isEvents row member late
    obtain ⟨acceptsEarly, fields⟩ := acceptsDone done delta frontier rest isEvents
    rw [isEvents] at ran
    obtain ⟨early, state, _, ranEarly, ranLate, _⟩ := run_append_eq_ok ran
    obtain ⟨⟨batch, next⟩, stepped, _⟩ := bind_eq_ok.mp ranLate
    obtain ⟨⟨output, after⟩, processed, finished⟩ := bind_eq_ok.mp stepped
    cases finished
    have refines := (refines_run serves acceptsEarly ranEarly).1
    have only := routes done delta frontier rest early state output next isEvents ranEarly processed
    refine window_ne_of_late serves ?_ fields refines processed member late
      (only.untouched row member late)
    intro isDrop
    cases isDrop
  · intro noneLate done delta frontier rest early state output next isEvents ranEarly processed
    obtain ⟨acceptsEarly, fields⟩ := acceptsDone done delta frontier rest isEvents
    have refines := (refines_run serves acceptsEarly ranEarly).1
    have none := noneLate done delta frontier rest isEvents
    exact ⟨lateRouteRows_processEpoch serves rfl fields refines processed,
      fun row member late => absurd late (none row member),
      fun row member late => absurd late (none row member)⟩

/-- Windows of ten, late rows to the sink `late`. -/
def routeSampleOp : TumbleWindowOp := new pairFields 0 10 (.routeToSink "late")

/-- A row in the first window, then a frontier past its end. -/
def closedWindow : List WindowEvent :=
  [.processEpoch (.ofPairs [((some 5, some 1), 1)]) none, .pushInputFrontier (.at 20)]

end TumbleWindowOp

end RockStream
