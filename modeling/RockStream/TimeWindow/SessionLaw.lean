import RockStream.TimeWindow.HopLaw
import RockStream.TimeWindow.SessionEpoch

/-!
Contract: what session windows show of the admitted rows.

The operator shows a row once, behind the session of its event time, while the admitted
weight of the row is positive; the sessions are the groups of the event times of the live
rows of its partition. So the emitted rows add up to the admitted weights exactly when none
of these exceeds one.

Owns:
- `SessionLog`, the abstract account of a run, and `Refines`, which the operator keeps with it;
- the law of the emitted rows over runs.

Does not own: rows with NULL, whose raw values the operator reads.
-/

namespace RockStream

open Lib Loop Lib.Weighted RowMap EmittedMap

/-! ## The log of a run -/

/-- What a session window operator has admitted, and the last frontier. -/
structure SessionLog where
  admitted : List (List Int64 × Int)
  frontier : Option FreshnessToken

namespace SessionLog

def new : SessionLog := { admitted := [], frontier := none }

variable (op : SessionWindowOp) (log : SessionLog)

/-- The watermark of an epoch: that of the frontier alone. -/
def watermark (frontier : Option FreshnessToken) : Int :=
  currentWatermark (frontier.or log.frontier) (-2 ^ 63)

def processEpoch (rows : List (List Int64 × Int)) (frontier : Option FreshnessToken) : SessionLog :=
  { admitted := log.admitted ++ rows.filter fun row => op.Admits (log.watermark frontier) row
    frontier := frontier.or log.frontier }

def handle (event : WindowEvent) : SessionLog :=
  match event with
  | .processEpoch delta frontier => log.processEpoch op (int64Rows delta.valued) frontier
  | .pushInputFrontier frontier => { log with frontier := some frontier }

def after (events : List WindowEvent) : SessionLog := events.foldl (handle op) new

/-- The row has a positive admitted weight. -/
def Live (vals : List Int64) : Prop := 0 < weight log.admitted vals

/-- The event times of the live rows that agree with a row in all other columns. -/
def times (vals : List Int64) : Set Int :=
  {time | ∃ other, log.Live other ∧ other.eraseIdx op.timeCol = vals.eraseIdx op.timeCol ∧
    sessionTime op.timeCol other = time}

/-- The session of the event time of a row. -/
def InSession (start stop : Int) (vals : List Int64) : Prop :=
  GapGroup op.gapMs (log.times op vals) start stop ∧
    start ≤ sessionTime op.timeCol vals ∧ sessionTime op.timeCol vals ≤ stop

open Classical in
/-- How often the operator shows a row behind the start and the end of a session. -/
noncomputable def view : List Int64 → Int
  | start :: stop :: vals =>
    if log.Live vals ∧ log.InSession op start.toInt stop.toInt vals then 1 else 0
  | _ => 0

open Classical in
/-- The multiplicity of a row: its admitted weight, behind the session of its event time. -/
noncomputable def multiplicity (row : Row) : Int :=
  match int64Values row with
  | some (start :: stop :: vals) =>
    if log.InSession op start.toInt stop.toInt vals then max 0 (weight log.admitted vals) else 0
  | _ => 0

end SessionLog

/-! ## The operator keeps the log -/

namespace SessionWindowOp

variable {op : SessionWindowOp}

/-- The state holds the admitted rows in their partitions, and has emitted their sessions. -/
structure Refines (op : SessionWindowOp) (state : SessionWindowState) (log : SessionLog) :
    Prop where
  frontier : state.inputFrontier = log.frontier
  keyed : ∀ partitionKey, RowMap.KeyedBy rowKey (op.InPartition partitionKey)
    (state.partition partitionKey).rows
  lengths : ∀ row ∈ log.admitted, row.1.length = op.nInputCols
  weights : ∀ vals, vals.length = op.nInputCols →
    weightAt (state.partition (op.partitionOf vals)).rows (rowKey vals) = weight log.admitted vals
  synced : ∀ partitionKey key, (state.partition partitionKey).prevOutput.lookup key =
    (newOutput (op.sessionsOf (state.partition partitionKey).rows)).lookup key

theorem Refines.new (op : SessionWindowOp) : op.Refines .new .new where
  frontier := rfl
  keyed := fun _ => KeyedBy.empty _ _
  lengths := nofun
  weights := fun _ _ => rfl
  synced := fun _ _ => rfl

variable {state final : SessionWindowState} {log : SessionLog}

section

variable (refines : op.Refines state log)
include refines

theorem Refines.keyedEmitted : op.KeyedEmitted state := by
  intro partitionKey key tagged found
  rw [refines.synced] at found
  exact tagged_of_lookup_newOutput (refines.keyed partitionKey) found

theorem Refines.live_iff (partitionKey : Bytes) (vals : List Int64) :
    op.InPartition partitionKey vals ∧
      0 < weightAt (state.partition partitionKey).rows (rowKey vals) ↔
        op.partitionOf vals = partitionKey ∧ log.Live vals := by
  unfold SessionLog.Live
  constructor
  · rintro ⟨⟨length, rfl⟩, positive⟩
    exact ⟨rfl, refines.weights vals length ▸ positive⟩
  · rintro ⟨rfl, positive⟩
    obtain ⟨row, mem, isVals⟩ := exists_of_weight_ne_zero positive.ne'
    have length : vals.length = op.nInputCols := isVals ▸ refines.lengths row mem
    exact ⟨⟨length, rfl⟩, (refines.weights vals length).symm ▸ positive⟩

theorem Refines.sessionTimes_eq (vals : List Int64) :
    sessionTimes op.timeCol (((state.partition (op.partitionOf vals)).rows.values.filter
      fun row => 0 < row.2).map Prod.fst) = log.times op vals := by
  ext time
  refine exists_congr fun other => ?_
  rw [mem_positiveValues (op.distinguishes_inPartition _) (refines.keyed _), refines.live_iff]
  have samePartition : op.partitionOf other = op.partitionOf vals ↔
      other.eraseIdx op.timeCol = vals.eraseIdx op.timeCol :=
    ⟨rowKey_injective, congrArg rowKey⟩
  rw [samePartition, and_comm (b := log.Live other), and_assoc]

theorem Refines.mem_sessionsOf_iff (start stop : Int) (vals : List Int64) :
    (start, stop, vals) ∈ op.sessionsOf (state.partition (op.partitionOf vals)).rows ↔
      log.Live vals ∧ log.InSession op start stop vals := by
  rw [mem_sessionsOf (refines.keyed _), refines.live_iff, refines.sessionTimes_eq]
  unfold SessionLog.InSession
  simp

theorem Refines.shows_view (tagged : List Int64) : shows taggedKey (newOutput
      (op.sessionsOf (state.partition (op.partitionOf (tagged.drop 2))).rows)) tagged =
        log.view op tagged := by
  unfold shows
  have short : tagged.length < 2 → ¬ (newOutput
      (op.sessionsOf (state.partition (op.partitionOf (tagged.drop 2))).rows)).lookup
        (taggedKey tagged) = some tagged := by
    intro isShort found
    have length := (tagged_of_lookup_newOutput (refines.keyed _) found).2.1
    omega
  match tagged with
  | [] => rw [if_neg (short (by simp))]; rfl
  | [bound] => rw [if_neg (short (by simp))]; rfl
  | start :: stop :: vals =>
    have shown := (lookup_newOutput_tagged (refines.keyed _) start stop vals).trans
      (refines.mem_sessionsOf_iff start.toInt stop.toInt vals)
    rw [SessionLog.view]
    by_cases isShown : log.Live vals ∧ log.InSession op start.toInt stop.toInt vals
    · rw [if_pos isShown]
      exact if_pos (shown.mpr isShown)
    · rw [if_neg isShown]
      exact if_neg fun found => isShown (shown.mp found)

theorem Refines.shows_emitted (tagged : List Int64) :
    shows taggedKey (state.partition (op.partitionOf (tagged.drop 2))).prevOutput
      tagged = log.view op tagged := by
  rw [← refines.shows_view]
  unfold shows
  rw [refines.synced]

end

/-! ## One epoch -/

/-- An operator for batches of the input schema. -/
structure Serves (op : SessionWindowOp) (inputSchema : List Field) : Prop where
  columns : op.nInputCols = inputSchema.length
  schema : op.schema = outputSchema inputSchema

section Epoch

variable {inputSchema : List Field} {width : Nat} {delta : ArrowZSet}
  {frontier : Option FreshnessToken}

variable (serves : op.Serves inputSchema)
include serves

theorem Serves.outputShape (shape : Int64Shape inputSchema width) :
    Int64Shape op.schema (op.nInputCols + 2) := by
  rw [serves.schema, serves.columns]
  refine ⟨rfl, ?_⟩
  intro field mem
  rcases List.mem_cons.mp mem with rfl | more
  · rfl
  · rcases List.mem_cons.mp more with rfl | old
    · rfl
    · exact shape.typed field old

theorem Refines.computeEpoch (fields : delta.fields = inputSchema)
    (epoch : Int64Epoch width delta) (refines : op.Refines state log)
    {rows : List (List Int64 × Int)}
    (computed : op.computeEpoch state delta frontier = .ok (rows, final)) :
    op.Refines final (log.processEpoch op (int64Rows delta.valued) frontier) ∧
      HaveWidth (op.nInputCols + 2) rows ∧ ∀ tagged, weight rows tagged =
        (log.processEpoch op (int64Rows delta.valued) frontier).view op tagged -
          log.view op tagged := by
  obtain ⟨⟨applied, dirty⟩, looped, computed⟩ := bind_eq_ok.mp computed
  obtain ⟨⟨⟨out, total⟩, emittedState⟩, emittedAll, ended⟩ := bind_eq_ok.mp computed
  cases ended
  have wide : ∀ row ∈ delta.rows, row.1.length = op.nInputCols := by
    intro row mem
    rw [(delta.conforms row mem).length_eq, fields, serves.columns]
  have isWatermark : currentWatermark (frontier.or state.inputFrontier) (-2 ^ 63) =
      log.watermark frontier := by
    rw [SessionLog.watermark, refines.frontier]
  have rowLoop := applied_rows isWatermark wide (by exact refines.keyed) looped
  rw [← epoch.int64Rows_eq] at rowLoop
  have sameEmitted : ∀ partitionKey, (applied.partition partitionKey).prevOutput =
      (state.partition partitionKey).prevOutput := rowLoop.emitted
  have keyedEmitted : op.KeyedEmitted applied := by
    intro partitionKey
    rw [sameEmitted]
    exact refines.keyedEmitted partitionKey
  have emitted := emittedPartitions rowLoop.filled.keyed keyedEmitted dirty.keys_nodup emittedAll
  have isDirty : ∀ partitionKey, partitionKey ∈ dirty.keys ↔
      (dirty.lookup partitionKey).isSome := by
    intro partitionKey
    rw [AList.lookup_isSome, AList.mem_keys]
  -- A partition that is not recomputed got no row.
  have synced : ∀ partitionKey key, (emittedState.partition partitionKey).prevOutput.lookup key =
      (newOutput (op.sessionsOf (applied.partition partitionKey).rows)).lookup key := by
    intro partitionKey key
    rw [emitted.emitted]
    split
    · rfl
    · next notDirty =>
      have untouched := rowLoop.filled.untouched partitionKey fun row mem isHere =>
        notDirty ((isDirty _).mpr ((rowLoop.filled.dirty _).mpr ⟨row, mem, isHere⟩))
      rw [sameEmitted, refines.synced]
      exact congrArg (fun rows => (newOutput (op.sessionsOf rows)).lookup key) untouched.symm
  have kept : op.Refines emittedState (log.processEpoch op (int64Rows delta.valued) frontier) := by
    refine ⟨?_, ?_, ?_, ?_, ?_⟩
    · rw [emitted.frontier, rowLoop.frontier, SessionLog.processEpoch, refines.frontier]
    · intro partitionKey
      rw [emitted.rows]
      exact rowLoop.filled.keyed partitionKey
    · intro row mem
      rcases List.mem_append.mp mem with old | new
      · exact refines.lengths row old
      · have inEpoch := List.mem_of_mem_filter new
        rw [epoch.int64Rows_eq] at inEpoch
        obtain ⟨cells, isCells, rfl⟩ := List.mem_map.mp inEpoch
        rw [extractRowVals, List.length_map, wide cells isCells]
    · intro vals length
      rw [emitted.rows, SessionLog.processEpoch, weight_append, ← refines.weights vals length]
      exact rowLoop.filled.weights vals ⟨length, rfl⟩
    · intro partitionKey key
      rw [synced, emitted.rows]
  refine ⟨kept, emitted.widths, fun tagged => ?_⟩
  rw [← kept.shows_view, ← refines.shows_emitted, emitted.rows]
  have shownWeights := emitted.weights tagged
  rw [sameEmitted] at shownWeights
  rw [shownWeights]
  split
  · rfl
  · next notDirty =>
    have shownBefore : shows taggedKey
        (newOutput (op.sessionsOf (applied.partition (op.partitionOf (tagged.drop 2))).rows))
          tagged = shows taggedKey
            (state.partition (op.partitionOf (tagged.drop 2))).prevOutput tagged := by
      unfold shows
      rw [← synced, emitted.emitted, if_neg notDirty, sameEmitted]
    rw [shownBefore, sub_self]

theorem Refines.processEpoch (fields : delta.fields = inputSchema)
    (epoch : Int64Epoch width delta) {batch : ArrowZSet} (refines : op.Refines state log)
    (returned : op.processEpoch state delta frontier = .ok (batch, final)) :
    op.Refines final (log.processEpoch op (int64Rows delta.valued) frontier) ∧
      Shows batch.valued (log.view op)
        ((log.processEpoch op (int64Rows delta.valued) frontier).view op) := by
  unfold SessionWindowOp.processEpoch at returned
  split at returned
  · next nothing =>
    obtain ⟨empty, built, ended⟩ := bind_eq_ok.mp returned
    cases ended
    rw [Bool.and_eq_true, List.isEmpty_iff, Option.isNone_iff_eq_none] at nothing
    have noRows : batch.valued = [] := ArrowZSet.valued_empty (Exec.within_eq_ok.mp built)
    have sameLog : log.processEpoch op (int64Rows delta.valued) frontier = log := by
      rw [epoch.int64Rows_eq, nothing.1, nothing.2]
      simp [SessionLog.processEpoch]
    rw [sameLog, noRows]
    exact ⟨refines, .refl _⟩
  · obtain ⟨⟨rows, next⟩, computed, returned⟩ := bind_eq_ok.mp returned
    obtain ⟨built, isBuilt, ended⟩ := bind_eq_ok.mp returned
    cases ended
    obtain ⟨kept, haveWidth, weights⟩ :=
      refines.computeEpoch serves fields epoch (Exec.within_eq_ok.mp computed)
    have shape : Int64Shape inputSchema width := fields ▸ epoch.shape
    have shown := (buildValues_spec (serves.outputShape shape) (Nat.succ_pos _)
      (KeysDistinguish.of_injective (fun _ _ => rowKey_injective) rows) haveWidth).post
        (Exec.within_eq_ok.mp isBuilt)
    exact ⟨kept, shown.shows weights⟩

end Epoch

/-! ## Runs -/

variable {inputSchema : List Field}

theorem refines_run (serves : op.Serves inputSchema) {events : List WindowEvent}
    (accepts : ∀ event ∈ events, HopWindowOp.Accepts inputSchema event)
    {outputs : List (Option ArrowZSet)}
    (ran : Loop.run op.handle .new events = .ok (outputs, final)) :
    op.Refines final (SessionLog.after op events) ∧
      Shows (emittedRows outputs) (SessionLog.new.view op) ((SessionLog.after op events).view op) :=
  run_emits (SessionLog.handle op) op.Refines
    (fun output before after => Shows output (before.view op) (after.view op))
    (fun log => .refl (log.view op)) Shows.append (fun _ _ _ => rfl)
    (fun accepted refines => refines.processEpoch serves accepted.1 accepted.2)
    (fun {state _} frontier refines => ⟨{ state with inputFrontier := frontier }, rfl,
      { refines with frontier := rfl }, .refl _⟩) (Refines.new op) accepts ran

theorem view_new (op : SessionWindowOp) (tagged : List Int64) :
    SessionLog.new.view op tagged = 0 := by
  unfold SessionLog.view
  split
  · exact if_neg fun shown => absurd shown.1 (lt_irrefl 0)
  · rfl

theorem Refines.exists_unique_session (refines : op.Refines state log) {vals : List Int64}
    (live : log.Live vals) : ∃ start stop, log.InSession op start stop vals ∧ ∀ start' stop',
      log.InSession op start' stop' vals → start' = start ∧ stop' = stop := by
  have mem := (mem_positiveValues (op.distinguishes_inPartition _)
    (refines.keyed (op.partitionOf vals))).mpr ((refines.live_iff _ vals).mpr ⟨rfl, live⟩)
  obtain ⟨start, stop, isSession⟩ := exists_session op.timeCol op.gapMs mem
  have inSession := ((refines.mem_sessionsOf_iff start stop vals).mp isSession).2
  refine ⟨start, stop, inSession, fun start' stop' other => ?_⟩
  exact other.1.unique inSession.1 other.2.1 other.2.2 inSession.2.1 inSession.2.2

theorem inI64_of_inSession {start stop : Int} {vals : List Int64}
    (inSession : log.InSession op start stop vals) : InI64 start ∧ InI64 stop := by
  obtain ⟨first, _, _, isFirst⟩ := inSession.1.firstMember
  obtain ⟨last, _, _, isLast⟩ := inSession.1.lastMember
  exact ⟨isFirst ▸ sessionTime_inI64 _ first, isLast ▸ sessionTime_inI64 _ last⟩

/-- The emitted rows add up to the admitted weights exactly when none of these exceeds one. -/
theorem Refines.emits_iff (refines : op.Refines state log) {output : List (Row × Int)}
    (shows : Shows output (SessionLog.new.view op) (log.view op)) :
    (∀ row, weight output row = log.multiplicity op row) ↔
      ∀ vals, weight log.admitted vals ≤ 1 := by
  have shown : ∀ vals, weight output (valuesRow vals) = log.view op vals := by
    intro vals
    rw [shows.1, view_new, sub_zero]
  constructor
  · intro law vals
    by_contra! large
    have live : log.Live vals := by
      unfold SessionLog.Live
      omega
    obtain ⟨start, stop, inSession, _⟩ := refines.exists_unique_session live
    obtain ⟨startRange, stopRange⟩ := inI64_of_inSession inSession
    have atRow := law (valuesRow (Int64.ofInt start :: Int64.ofInt stop :: vals))
    rw [shown, SessionLog.multiplicity, int64Values_valuesRow] at atRow
    dsimp only [SessionLog.view] at atRow
    rw [Int64.toInt_ofInt_of_le startRange.1 startRange.2,
      Int64.toInt_ofInt_of_le stopRange.1 stopRange.2, if_pos ⟨live, inSession⟩,
      if_pos inSession] at atRow
    omega
  · intro small row
    cases isValues : int64Values row with
    | none =>
      have notValues : ∀ vals, row ≠ valuesRow vals := by
        rintro vals rfl
        rw [int64Values_valuesRow] at isValues
        cases isValues
      rw [shows.2 row notValues, SessionLog.multiplicity, isValues]
    | some vals =>
      rw [eq_valuesRow_of_int64Values isValues, shown, SessionLog.multiplicity,
        int64Values_valuesRow]
      rcases vals with _ | ⟨start, _ | ⟨stop, vals⟩⟩
      · rfl
      · rfl
      · dsimp only [SessionLog.view]
        have atMost := small vals
        by_cases inSession : log.InSession op start.toInt stop.toInt vals
        · simp only [SessionLog.Live, inSession, and_true, if_true]
          split <;> omega
        · rw [if_neg inSession, if_neg fun both => inSession both.2]

theorem serves_new (inputSchema : List Field) (timeCol : Nat) (gapMs : Int)
    (policy : Sql.LateDataPolicy) : (new inputSchema timeCol gapMs policy).Serves inputSchema :=
  ⟨rfl, rfl⟩

end SessionWindowOp

/-- Over every run of rows without NULL: the emitted rows add up to the admitted rows, each behind
the session of its event time, exactly when no row has an admitted weight above one; every live row
has exactly one session; a live time between two sessions of the others, within the gap of both,
merges them; and without a live time whose neighbours are apart its session falls into two. -/
theorem SessionWindowOp.emits_sessions_iff {inputSchema : List Field} {timeCol : Nat} {gapMs : Int}
    {policy : Sql.LateDataPolicy} {op : SessionWindowOp}
    (isOp : op = new inputSchema timeCol gapMs policy) {events : List WindowEvent}
    (accepts : ∀ event ∈ events, HopWindowOp.Accepts inputSchema event)
    {outputs : List (Option ArrowZSet)} {final : SessionWindowState}
    (ran : Loop.run op.handle .new events = .ok (outputs, final)) {log : SessionLog}
    (isLog : log = SessionLog.after op events) :
    ((∀ row, weight (emittedRows outputs) row = log.multiplicity op row) ↔
      ∀ vals, weight log.admitted vals ≤ 1) ∧
    (∀ vals, log.Live vals → ∃ start stop, log.InSession op start stop vals ∧
      ∀ start' stop', log.InSession op start' stop' vals → start' = start ∧ stop' = stop) ∧
    (∀ vals, ∀ bridge ∈ log.times op vals, ∀ start stop start' stop',
      GapGroup op.gapMs (log.times op vals \ {bridge}) start stop →
      GapGroup op.gapMs (log.times op vals \ {bridge}) start' stop' →
      stop < bridge → bridge < start' → bridge ≤ stop + op.gapMs → start' ≤ bridge + op.gapMs →
      GapGroup op.gapMs (log.times op vals) start stop') ∧
    ∀ vals start stop, GapGroup op.gapMs (log.times op vals) start stop →
      ∀ before ∈ log.times op vals, ∀ after ∈ log.times op vals, ∀ bridge,
      start < bridge → bridge < stop → before < bridge → bridge < after →
      (∀ time ∈ log.times op vals, before < time → time < after → time = bridge) →
      before + op.gapMs < after → GapGroup op.gapMs (log.times op vals \ {bridge}) start before ∧
        GapGroup op.gapMs (log.times op vals \ {bridge}) after stop := by
  have serves : op.Serves inputSchema := isOp ▸ serves_new inputSchema timeCol gapMs policy
  obtain ⟨refines, shows⟩ := refines_run serves accepts ran
  rw [← isLog] at refines shows
  refine ⟨refines.emits_iff shows, fun vals => refines.exists_unique_session, ?_, ?_⟩
  · intro vals bridge isLive start stop start' stop' early late afterEarly beforeLate nearEarly
      nearLate
    have merged := early.merge late afterEarly beforeLate nearEarly nearLate
    rw [Set.insert_sdiff_singleton, Set.insert_eq_of_mem isLive] at merged
    exact merged
  · intro vals start stop group before isBefore after isAfter bridge starts ends beforeBridge
      bridgeAfter alone apart
    exact group.split isBefore isAfter starts ends beforeBridge bridgeAfter alone apart

/-- Two rows of one key that a third one bridges, and then not. -/
def sessionSample : List WindowEvent :=
  [.processEpoch (.ofPairs [((some 7, some 1), 1), ((some 27, some 1), 1)]) none,
    .processEpoch (.ofPairs [((some 17, some 1), 1)]) none,
    .pushInputFrontier (.at 40),
    .processEpoch (.ofPairs [((some 17, some 1), -1), ((some 30, some 1), 1)]) none]

theorem accepts_sessionSample : ∀ event ∈ sessionSample, HopWindowOp.Accepts pairFields event := by
  unfold HopWindowOp.Accepts
  decide

theorem SessionWindowOp.emits_sessions_iff_sample : ∃ outputs final,
    Loop.run (new pairFields 0 10 .drop).handle .new sessionSample = .ok (outputs, final) ∧
      weight (emittedRows outputs)
        [some (.int64 27), some (.int64 27), some (.int64 27), some (.int64 1)] = 1 ∧
      ((∀ row, weight (emittedRows outputs) row =
          (SessionLog.after (new pairFields 0 10 .drop) sessionSample).multiplicity
            (new pairFields 0 10 .drop) row) ↔
        ∀ vals, weight (SessionLog.after (new pairFields 0 10 .drop) sessionSample).admitted vals ≤
          1) := by
  exact exists_ok_and (by decide +kernel) fun _ _ ran =>
    (emits_sessions_iff rfl accepts_sessionSample ran rfl).1

/-- A row of weight two is emitted once behind its session. -/
theorem SessionWindowOp.row_of_weight_two_shown_once : ∃ outputs final,
    Loop.run (new pairFields 0 10 .update).handle .new
        [.processEpoch (.ofPairs [((some 7, some 1), 2)]) none] = .ok (outputs, final) ∧
      weight (emittedRows outputs)
        [some (.int64 7), some (.int64 7), some (.int64 7), some (.int64 1)] = 1 ∧
      weight (SessionLog.after (new pairFields 0 10 .update)
        [.processEpoch (.ofPairs [((some 7, some 1), 2)]) none]).admitted [7, 1] = 2 := by
  exact exists_ok_and (by decide +kernel) fun _ _ _ => by decide +kernel

end RockStream
