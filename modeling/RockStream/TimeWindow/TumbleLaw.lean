import RockStream.TimeWindow.TumbleEpoch

/-!
Contract: tumbling windows show the admitted rows, each in the window of its event time.

The abstract side is a log: the rows admitted so far, the clock, and the windows that the
watermark has passed. The log of a run does not depend on the order of the rows inside an
epoch.

Owns:
- `TumbleLog`, the abstract account of a run, and `Refines`, which the operator keeps with it;
- the effect of one epoch and the law of the emitted rows over runs.

Does not own: the side channel of late rows.
-/

namespace RockStream

open Lib Lib.Weighted RowMap List Int64Row

variable {vals : Int64Row} {plain others rows : List (Int64Row × Int)} {inputSchema : List Field}
  {events : List WindowEvent} {watermark : Int} {closed : Int → Prop}

/-! ## The log of a run -/

/-- What a tumbling window operator has admitted, and the windows that are closed. -/
structure TumbleLog where
  admitted : List (Int64Row × Int)
  clock : Int
  frontier : Option FreshnessToken
  closed : Int → Prop

namespace TumbleLog

def new : TumbleLog :=
  { admitted := [], clock := -2 ^ 63, frontier := none, closed := fun _ => False }

variable (op : TumbleWindowOp) (log : TumbleLog)

def startWatermark (frontier : Option FreshnessToken) : Int :=
  currentWatermark (frontier.or log.frontier) log.clock

noncomputable def admits (rows : List (Int64Row × Int)) (frontier : Option FreshnessToken) :
    List (Int64Row × Int) :=
  op.admittedOf (log.startWatermark frontier) log.closed rows rows

open Classical in
/-- One epoch. A window with admitted rows closes once the watermark is past its end. -/
noncomputable def processEpoch (rows : List (Int64Row × Int)) (frontier : Option FreshnessToken) :
    TumbleLog :=
  if rows = [] ∧ frontier = none then log
  else
    let admitted := log.admitted ++ log.admits op rows frontier
    let clock := op.latest log.clock (log.admits op rows frontier)
    { admitted
      clock
      frontier := frontier.or log.frontier
      closed := fun windowId => log.closed windowId ∨
        (∃ row ∈ admitted, op.startOf row.1 = windowId) ∧
          windowId + op.windowSizeMs < currentWatermark (frontier.or log.frontier) clock }

noncomputable def handle (event : WindowEvent) : TumbleLog :=
  match event with
  | .processEpoch delta frontier => log.processEpoch op delta.int64Values frontier
  | .pushInputFrontier frontier => { log with frontier := some frontier }

noncomputable def after (events : List WindowEvent) : TumbleLog :=
  events.foldl (handle op) new

def tagged : List (Row × Int) :=
  log.admitted.map fun row =>
    (Int64Row.toRow (some (Int64.ofInt (op.startOf row.1)) :: row.1), row.2)

end TumbleLog

/-! ## The operator keeps the log -/

namespace TumbleWindowOp

/-- The state holds the admitted rows in their windows, and has emitted the positive ones. -/
structure Refines (op : TumbleWindowOp) (state : TumbleWindowState) (log : TumbleLog) : Prop where
  clock : state.watermark = log.clock
  frontier : state.inputFrontier = log.frontier
  closed : ∀ windowId, (state.finalized.lookup windowId).isSome ↔ log.closed windowId
  placed : op.Placed state.windows
  present : ∀ windowId, (state.windows.lookup windowId).isSome ↔
    ∃ row ∈ log.admitted, op.startOf row.1 = windowId
  lengths : ∀ row ∈ log.admitted, row.1.length = op.nInputCols
  weights : ∀ vals, vals.length = op.nInputCols →
    weightAt (state.windows.window (op.startOf vals)) (encodeTumbleRow vals) =
      weight log.admitted vals
  synced : ∀ windowId key,
    (state.prevOutput.window windowId).lookup key =
      (positiveRows (state.windows.window windowId)).lookup key

variable {op : TumbleWindowOp} {state next : TumbleWindowState} {log : TumbleLog}

theorem Refines.new (op : TumbleWindowOp) : op.Refines .new .new where
  clock := rfl
  frontier := rfl
  closed := fun _ => by simp [TumbleWindowState.new, TumbleLog.new]
  placed := fun _ => KeyedBy.empty _ _
  present := fun _ => by simp [TumbleWindowState.new, TumbleLog.new]
  lengths := nofun
  weights := fun _ _ => rfl
  synced := fun _ _ => rfl

/-- What was emitted is placed as the windows are. -/
theorem Refines.placedEmitted (refines : op.Refines state log) : op.Placed state.prevOutput := by
  intro windowId key row found
  rw [refines.synced] at found
  exact refines.placed windowId key row (lookup_of_positiveRows found).1

theorem Refines.weightAt_emitted (refines : op.Refines state log)
    (length : vals.length = op.nInputCols) :
    weightAt (state.prevOutput.window (op.startOf vals)) (encodeTumbleRow vals) =
      max 0 (weight log.admitted vals) := by
  rw [← refines.weights vals length, ← weightAt_positiveRows]
  unfold weightAt
  rw [refines.synced]

/-- The rows an epoch emits, without their tags: the change of the positive admitted weights. -/
structure EmitsChange (op : TumbleWindowOp) (output : List (Row × Int)) (before after : TumbleLog)
    (plain : List (Int64Row × Int)) : Prop where
  rows : output = plain.map fun row => (Int64Row.toRow (op.tag row.1), row.2)
  lengths : ∀ row ∈ plain, row.1.length = op.nInputCols
  weights : ∀ vals, vals.length = op.nInputCols → weight plain vals =
    max 0 (weight after.admitted vals) - max 0 (weight before.admitted vals)

theorem EmitsChange.refl (op : TumbleWindowOp) (log : TumbleLog) : op.EmitsChange [] log log [] :=
  ⟨rfl, by simp, by simp⟩

theorem EmitsChange.append {first second : List (Row × Int)} {before between after : TumbleLog}
    {more : List (Int64Row × Int)} (emits : op.EmitsChange first before between plain)
    (emitsMore : op.EmitsChange second between after more) :
    op.EmitsChange (first ++ second) before after (plain ++ more) := by
  refine ⟨?_, ?_, ?_⟩
  · rw [emits.rows, emitsMore.rows, map_append]
  · exact forall_mem_append.mpr ⟨emits.lengths, emitsMore.lengths⟩
  · intro vals length
    rw [weight_append, emits.weights vals length, emitsMore.weights vals length]
    ring

section Epoch

variable {delta : ArrowZSet} {frontier : Option FreshnessToken} {output : List (Row × Int)}
  {applied : TumbleWindowState} {dirty : HashSet Int} {windows : List Int}

section

variable (refines : op.Refines state log)
  (steps : op.EpochSteps state delta frontier output next applied dirty windows plain)
include refines steps

theorem Refines.rowLoop : op.Applied { state with inputFrontier := frontier.or state.inputFrontier }
    (log.admits op delta.int64Values frontier)
    (op.routedOf (log.startWatermark frontier) log.closed delta.int64Values delta.int64Values)
    (applied, dirty) := by
  have sameClosed : (fun windowId => (state.finalized.lookup windowId).isSome = true) =
      log.closed := funext fun windowId => propext (refines.closed windowId)
  unfold TumbleLog.admits TumbleLog.startWatermark
  rw [← sameClosed, ← refines.clock, ← refines.frontier]
  exact steps.loop

theorem Refines.weights_applied (length : vals.length = op.nInputCols) :
    weightAt (applied.windows.window (op.startOf vals)) (encodeTumbleRow vals) =
      weight (log.admitted ++ log.admits op delta.int64Values frontier) vals := by
  rw [weight_append, ← refines.weights vals length]
  exact (refines.rowLoop steps).filled.weights vals ⟨length, rfl⟩

theorem Refines.watermark_applied :
    applied.watermarkMs = currentWatermark (frontier.or log.frontier)
      (op.latest log.clock (log.admits op delta.int64Values frontier)) := by
  have loop := refines.rowLoop steps
  unfold TumbleWindowState.watermarkMs
  rw [loop.rest.2.2, loop.clock, refines.frontier, refines.clock]

theorem Refines.present_applied (windowId : Int) : (applied.windows.lookup windowId).isSome ↔
      ∃ row ∈ log.admitted ++ log.admits op delta.int64Values frontier,
        op.startOf row.1 = windowId := by
  rw [(refines.rowLoop steps).present, refines.present]
  exact listed_append fun row : Int64Row × Int => op.startOf row.1

theorem Refines.emitted_next (windowId : Int) (key : Bytes) :
    (next.prevOutput.window windowId).lookup key =
      (positiveRows (applied.windows.window windowId)).lookup key := by
  obtain ⟨_, emitted⟩ := steps.emitted
  rw [emitted.emitted]
  split
  · rfl
  · next notListed =>
    -- A window that is not compared got no row.
    have untouched : ∀ row ∈ log.admits op delta.int64Values frontier,
      op.startOf row.1 ≠ windowId := by
      intro row mem isWindow
      refine notListed ((steps.listed windowId).mpr (.inl ?_))
      exact ((refines.rowLoop steps).filled.dirty windowId).mpr ⟨row, mem, isWindow⟩
    rw [(refines.rowLoop steps).filled.untouched windowId untouched]
    rw [(refines.rowLoop steps).rest.1]
    exact refines.synced windowId key

/-- A window is closed after the epoch if it was, or if it has rows and the watermark is past its
end. -/
theorem Refines.finalized_next (windowId : Int) :
    (next.finalized.lookup windowId).isSome ↔ log.closed windowId ∨
      (∃ row ∈ log.admitted ++ log.admits op delta.int64Values frontier,
          op.startOf row.1 = windowId) ∧
        windowId + op.windowSizeMs < currentWatermark (frontier.or log.frontier)
          (op.latest log.clock (log.admits op delta.int64Values frontier)) := by
  obtain ⟨_, emitted⟩ := steps.emitted
  have sameFinalized : applied.finalized = state.finalized := (refines.rowLoop steps).rest.2.1
  rw [emitted.finalized, sameFinalized, refines.closed, steps.listed, refines.present_applied steps,
    refines.watermark_applied steps, (refines.rowLoop steps).filled.dirty]
  refine closes_iff (fun row : Int64Row × Int => op.startOf row.1) fun isOpen => ?_
  rw [← refines.closed] at isOpen
  rw [sameFinalized]
  simpa using isOpen

end

theorem Refines.lengths_next (serves : op.Serves inputSchema)
    (fields : delta.fields = inputSchema) (refines : op.Refines state log) :
    ∀ row ∈ log.admitted ++ log.admits op delta.int64Values frontier,
      row.1.length = op.nInputCols := by
  intro row mem
  rcases mem_append.mp mem with old | new
  · exact refines.lengths row old
  · obtain ⟨cells, isCells, rfl⟩ := mem_map.mp (mem_of_mem_filter new)
    rw [rowValues, length_map, (delta.conforms cells isCells).length_eq, fields, serves.columns]

theorem Refines.processEpoch (serves : op.Serves inputSchema)
    (fields : delta.fields = inputSchema) {batch : ArrowZSet} (refines : op.Refines state log)
    (returned : op.processEpoch state delta frontier = .ok (batch, next)) :
    op.Refines next (log.processEpoch op delta.int64Values frontier) ∧
      ∃ plain, op.EmitsChange batch.valued log
        (log.processEpoch op delta.int64Values frontier) plain := by
  unfold TumbleLog.processEpoch
  rcases processEpoch_eq_ok serves fields refines.placed refines.placedEmitted returned with
    ⟨nothing, rfl, noRows⟩ | ⟨something, applied, dirty, windows, plain, steps⟩
  · rw [if_pos nothing, noRows]
    exact ⟨refines, [], EmitsChange.refl op log⟩
  · rw [if_neg something]
    have loop := refines.rowLoop steps
    obtain ⟨rows, emitted⟩ := steps.emitted
    obtain ⟨sameWindows, sameClock, sameFrontier, _⟩ := emitted.rest
    refine ⟨⟨?_, ?_, refines.finalized_next steps, ?_, ?_, refines.lengths_next serves fields,
      ?_, ?_⟩, plain, steps.shown, emitted.lengths, ?_⟩
    · rw [sameClock, loop.clock, refines.clock]
    · rw [sameFrontier, loop.rest.2.2, refines.frontier]
    · rw [sameWindows]
      exact loop.filled.keyed
    · intro windowId
      rw [sameWindows]
      exact refines.present_applied steps windowId
    · intro vals length
      rw [sameWindows]
      exact refines.weights_applied steps length
    · intro windowId key
      rw [sameWindows]
      exact refines.emitted_next steps windowId key
    · intro vals length
      have sameEmitted : applied.prevOutput.window (op.startOf vals) =
          state.prevOutput.window (op.startOf vals) := by
        rw [loop.rest.1]
      rw [← refines.weights_applied steps length, ← refines.weightAt_emitted length,
        emitted.weights vals length, ← weightAt_positiveRows, sameEmitted]
      split
      · rfl
      · next notListed =>
        have unchanged : weightAt (positiveRows (applied.windows.window (op.startOf vals)))
            (encodeTumbleRow vals) =
              weightAt (state.prevOutput.window (op.startOf vals)) (encodeTumbleRow vals) := by
          unfold weightAt
          rw [← refines.emitted_next steps, emitted.emitted, if_neg notListed, sameEmitted]
        rw [unchanged, sub_self]

end Epoch

/-! ## Runs -/

/-- The batches of an event have the columns of the input schema. -/
def Accepts (inputSchema : List Field) (event : WindowEvent) : Prop :=
  ∀ delta ∈ event.deltas, delta.fields = inputSchema

theorem accepts_reordered {others : List WindowEvent}
    (reordered : List.Forall₂ WindowEvent.Reordered events others)
    (accepts : ∀ event ∈ events, Accepts inputSchema event) :
    ∀ event ∈ others, Accepts inputSchema event :=
  WindowEvent.deltas_reordered (fun alike fields => alike.1.symm.trans fields) reordered accepts

/-- Over a run, the positive admitted weights are emitted. -/
theorem refines_run (serves : op.Serves inputSchema)
    (accepts : ∀ event ∈ events, Accepts inputSchema event) {outputs : List (Option ArrowZSet)}
    {final : TumbleWindowState} (ran : Loop.run op.handle .new events = .ok (outputs, final)) :
    op.Refines final (TumbleLog.after op events) ∧
      ∃ plain, op.EmitsChange (emittedRows outputs) .new (TumbleLog.after op events) plain := by
  refine run_emits (TumbleLog.handle op) op.Refines
    (fun output before after => ∃ plain, op.EmitsChange output before after plain)
    (fun log => ⟨[], EmitsChange.refl op log⟩) ?_ (fun _ _ _ => rfl)
    (fun fields refines => refines.processEpoch serves fields)
    (fun {state _} frontier refines => ⟨{ state with inputFrontier := frontier }, rfl,
      { refines with frontier := rfl }, [], rfl, by simp, fun _ _ => (sub_self _).symm⟩)
    (Refines.new op) accepts ran
  rintro first second before between after ⟨plain, emits⟩ ⟨more, emitsMore⟩
  exact ⟨plain ++ more, emits.append emitsMore⟩

theorem tagged_injective (op : TumbleWindowOp) :
    Function.Injective fun vals => toRow (op.tag vals) := by
  intro left right same
  exact (cons.inj (toRow_injective same)).2

theorem EmitsChange.weight_eq {output : List (Row × Int)}
    (refines : op.Refines state log) (emits : op.EmitsChange output .new log plain) (row : Row) :
    weight output row = max 0 (weight (log.tagged op) row) := by
  have atTagged := weight_map (tagged_injective op)
  have isTagged : log.tagged op = log.admitted.map fun row => (toRow (op.tag row.1), row.2) := rfl
  rw [emits.rows, isTagged]
  by_cases shown : ∃ vals, toRow (op.tag vals) = row
  · obtain ⟨vals, rfl⟩ := shown
    rw [atTagged, atTagged]
    by_cases length : vals.length = op.nInputCols
    · rw [emits.weights vals length]
      simp [TumbleLog.new]
    · have notEmitted : ∀ entry ∈ plain, entry.1 ≠ vals :=
        fun entry mem same => length (same ▸ emits.lengths entry mem)
      have notAdmitted : ∀ entry ∈ log.admitted, entry.1 ≠ vals :=
        fun entry mem same => length (same ▸ refines.lengths entry mem)
      rw [weight_eq_zero_of_absent notEmitted, weight_eq_zero_of_absent notAdmitted]
      rfl
  · push Not at shown
    rw [weight_map_eq_zero shown, weight_map_eq_zero shown]
    rfl

end TumbleWindowOp

/-! ## The order of the rows inside an epoch -/

namespace TumbleLog

/-- The same log up to the order of the admitted rows. -/
structure Alike (first second : TumbleLog) : Prop where
  admitted : first.admitted.Perm second.admitted
  clock : first.clock = second.clock
  frontier : first.frontier = second.frontier
  closed : first.closed = second.closed

variable {op : TumbleWindowOp} {first second : TumbleLog}

theorem latest_perm (clock : Int) (perm : rows.Perm others) :
    op.latest clock rows = op.latest clock others := by
  refine perm.foldl_eq' (fun left _ right _ clock => ?_) clock
  exact max_right_comm _ _ _

theorem late_congr (perm : rows.Perm others) (row : Int64Row × Int) :
    op.Late watermark closed rows row ↔ op.Late watermark closed others row := by
  unfold TumbleWindowOp.Late
  simp only [perm.mem_iff]

open Classical in
theorem admittedOf_perm (perm : rows.Perm others) : (op.admittedOf watermark closed rows rows).Perm
      (op.admittedOf watermark closed others others) := by
  unfold TumbleWindowOp.admittedOf
  have same : (fun row => decide (op.Admitted watermark closed rows row)) =
      fun row => decide (op.Admitted watermark closed others row) := by
    funext row
    unfold TumbleWindowOp.Admitted
    rw [late_congr perm]
  rw [same]
  exact perm.filter _

/-- Reordering the rows of an epoch reorders its admitted rows, and changes nothing else. -/
theorem Alike.handle {event other : WindowEvent} (reordered : event.Reordered other)
    (alike : Alike first second) : Alike (first.handle op event) (second.handle op other) := by
  rcases reordered.shape with ⟨frontier, rfl, rfl⟩ | ⟨delta, others, frontier, rfl, rfl, _, perm⟩
  · exact { alike with frontier := rfl }
  · have valuesPerm : delta.int64Values.Perm others.int64Values := perm.map _
    have sameWatermark : first.startWatermark frontier = second.startWatermark frontier := by
      unfold startWatermark
      rw [alike.clock, alike.frontier]
    have admitsPerm : (first.admits op delta.int64Values frontier).Perm
        (second.admits op others.int64Values frontier) := by
      unfold admits
      rw [sameWatermark, alike.closed]
      exact admittedOf_perm valuesPerm
    show Alike (first.processEpoch op delta.int64Values frontier)
      (second.processEpoch op others.int64Values frontier)
    unfold processEpoch
    have sameGuard : delta.int64Values = [] ∧ frontier = none ↔
        others.int64Values = [] ∧ frontier = none := by
      rw [← length_eq_zero_iff, valuesPerm.length_eq, length_eq_zero_iff]
    simp only [sameGuard]
    split
    · exact alike
    · have allPerm := alike.admitted.append admitsPerm
      refine ⟨allPerm, ?_, ?_, ?_⟩
      · rw [alike.clock]
        exact latest_perm _ admitsPerm
      · rw [alike.frontier]
      · simp only [alike.closed, alike.clock, alike.frontier, latest_perm _ admitsPerm,
          allPerm.mem_iff]

theorem alike_after {others : List WindowEvent}
    (reordered : List.Forall₂ WindowEvent.Reordered events others) :
    Alike (after op events) (after op others) :=
  rel_foldl (fun _ _ alike _ _ head => alike.handle head) ⟨.refl _, rfl, rfl, rfl⟩ reordered

end TumbleLog

/-- Over every run of epochs and frontiers, the emitted rows add up to the admitted rows, each
tagged with the one window that holds its event time; and reordering the rows inside the epochs
does not change the sum. -/
theorem TumbleWindowOp.emits_admitted_rows {inputSchema : List Field} {timeCol : Nat}
    {windowSizeMs : Int} {policy : Sql.LateDataPolicy} (positive : 0 < windowSizeMs)
    (bound : inputSchema.length ≤ 2 ^ 64) {events : List WindowEvent}
    (accepts : ∀ event ∈ events, Accepts inputSchema event)
    {outputs : List (Option ArrowZSet)} {final : TumbleWindowState}
    (ran : Loop.run (new inputSchema timeCol windowSizeMs policy).handle .new events =
      .ok (outputs, final)) : (∀ row, weight (emittedRows outputs) row =
      max 0 (weight ((TumbleLog.after (new inputSchema timeCol windowSizeMs policy) events).tagged
        (new inputSchema timeCol windowSizeMs policy)) row)) ∧
    (∀ time index, index * windowSizeMs ≤ time ∧ time < (index + 1) * windowSizeMs ↔
      index * windowSizeMs = windowStart windowSizeMs time) ∧
    ∀ others outputs' final', List.Forall₂ WindowEvent.Reordered events others →
      Loop.run (new inputSchema timeCol windowSizeMs policy).handle .new others =
        .ok (outputs', final') →
      ∀ row, weight (emittedRows outputs') row = weight (emittedRows outputs) row := by
  have serves := serves_new positive bound timeCol policy
  obtain ⟨refines, plain, emits⟩ := refines_run serves accepts ran
  refine ⟨emits.weight_eq refines, windowStart_unique positive, ?_⟩
  intro others outputs' final' reordered ranOthers row
  obtain ⟨refinesOthers, plainOthers, emitsOthers⟩ :=
    refines_run serves (accepts_reordered reordered accepts) ranOthers
  rw [emitsOthers.weight_eq refinesOthers, emits.weight_eq refines]
  have alike : TumbleLog.Alike
      (TumbleLog.after (new inputSchema timeCol windowSizeMs policy) events)
      (TumbleLog.after (new inputSchema timeCol windowSizeMs policy) others) :=
    TumbleLog.alike_after reordered
  unfold TumbleLog.tagged
  rw [weight_perm (alike.admitted.map _)]

/-- Two rows before and after zero, a frontier past both windows, then a retraction from the first
window and a late insertion into the second. -/
def tumbleSample : List WindowEvent :=
  [.processEpoch (.ofPairs [((some (-1), some 7), 2), ((some 5, none), 1)]) none,
    .pushInputFrontier (.at 20),
    .processEpoch (.ofPairs [((some (-1), some 7), -1), ((some 5, some 1), 1)]) none]

def pairFields : List Field := [⟨"k", .int64, true⟩, ⟨"v", .int64, true⟩]

theorem accepts_tumbleSample : ∀ event ∈ tumbleSample, TumbleWindowOp.Accepts pairFields event := by
  unfold TumbleWindowOp.Accepts
  decide

theorem TumbleWindowOp.emits_admitted_rows_sample : ∃ outputs final,
    Loop.run (new pairFields 0 10 .drop).handle .new tumbleSample = .ok (outputs, final) ∧
      weight (emittedRows outputs) [some (.int64 (-10)), some (.int64 (-1)), some (.int64 7)] = 1 ∧
      ∀ row, weight (emittedRows outputs) row =
        max 0 (weight ((TumbleLog.after (new pairFields 0 10 .drop) tumbleSample).tagged
          (new pairFields 0 10 .drop)) row) := by
  exact Loop.exists_ok_and (by decide +kernel) fun _ _ ran =>
    (emits_admitted_rows (by decide) (by decide) accepts_tumbleSample ran).1

end RockStream
