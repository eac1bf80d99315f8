import RockStream.Sql.Plan

/-!
Contract: GROUP BY over time windows (`rockstream-sql/src/lower.rs`).

Owns: the recognition of tumbling (`date_bin`), hopping and session windows among the
group expressions of an aggregate, and the plan nodes they are lowered to.

Does not own: the lowering of the input, which `lower` supplies.
-/

namespace RockStream.Sql

open Lib

variable {groupExpr exprs : List DfExpr}

/-! ## Recognising expressions -/

def findCall (isFunction : String → Bool) : DfExpr → Option (List DfExpr)
  | .scalarFunction name args => if isFunction name then some args else none
  | .alias expr _ => findCall isFunction expr
  | .cast expr _ => findCall isFunction expr
  | .tryCast expr _ => findCall isFunction expr
  | _ => none

def findDateBin : DfExpr → Option (List DfExpr) := findCall (· = "date_bin")

def findSession : DfExpr → Option (List DfExpr) := findCall (·.toLower = "session")

def firstCall (find : DfExpr → Option (List DfExpr)) : List DfExpr → Option (Nat × List DfExpr)
  | [] => none
  | expr :: exprs =>
    match find expr with
    | some args => some (0, args)
    | none => (firstCall find exprs).map fun found => (found.1 + 1, found.2)

theorem firstCall_eq_none {find : DfExpr → Option (List DfExpr)} :
    firstCall find exprs = none ↔ ∀ expr ∈ exprs, find expr = none := by
  induction exprs with
  | nil => exact iff_of_true rfl nofun
  | cons expr exprs ih =>
    rw [firstCall, List.forall_mem_cons, ← ih]
    cases find expr <;> simp

/-- `extract_interval_ms`. A literal's parts are narrow: the sum does not overflow. -/
def extractIntervalMs : DfExpr → Option Int64
  | .literal (.intervalMonthDayNano _ days nanoseconds) =>
    some (days.toInt64 * 86400000 + nanoseconds / 1000000)
  | .literal (.intervalDayTime days milliseconds) =>
    some (days.toInt64 * 86400000 + milliseconds.toInt64)
  | .cast expr _ => extractIntervalMs expr
  | .tryCast expr _ => extractIntervalMs expr
  | _ => none

def extractInt64Literal : DfExpr → Option Int64
  | .literal (.int64 value) => some value
  | .literal (.int32 value) => some value.toInt64
  | .literal (.uint64 value) => if value.toNat < 2 ^ 63 then some value.toInt64 else none
  | .literal (.uint32 value) => some value.toUInt64.toInt64
  | .alias expr _ => extractInt64Literal expr
  | .cast expr _ => extractInt64Literal expr
  | .tryCast expr _ => extractInt64Literal expr
  | _ => none

def timestampUnit (dataType : DataType) : Option Int64 :=
  match dataType with
  | .other name =>
    if name.startsWith "Timestamp(Second" then some 1
    else if name.startsWith "Timestamp(Millisecond" then some 1000
    else if name.startsWith "Timestamp(Microsecond" then some 1000000
    else if name.startsWith "Timestamp(Nanosecond" then some 1000000000
    else none
  | _ => none

def timestampDisplayScale : DfExpr → Int64
  | .cast expr dataType =>
    match timestampUnit dataType with
    | some scale => scale
    | none => timestampDisplayScale expr
  | .tryCast expr _ => timestampDisplayScale expr
  | _ => 1000000000

def intervalMsToBucketUnits (intervalMs : Int64) : Int64 := intervalMs / 1000

def isCountAggregate : DfExpr → Bool
  | .alias expr _ => isCountAggregate expr
  | .aggregateFunction name _ _ => name.toLower = "count"
  | _ => false

variable [ColumnIndex]

def isNamedAggregateOnColumn (name : String) (schema : DfSchema) (colIdx : Nat) : DfExpr → Bool
  | .alias expr _ => isNamedAggregateOnColumn name schema colIdx expr
  | .aggregateFunction func [arg] _ =>
    func.toLower = name ∧ extractColumnIndex schema arg = some colIdx
  | _ => false

/-! ## Sessions -/

structure SessionSpec where
  timeCol : Nat
  gapMs : Int64
  partitionCols : List Nat

def sessionPartitionCols (schema : DfSchema) (exprs : List DfExpr) : Lowering (List Nat) :=
  exprs.mapM fun expr =>
    match extractColumnIndex schema expr with
    | some index => .ok index
    | none => unsupported "session_partition_requires_column_group_by"

/-- The part of `try_lower_session_window_aggregate` before the input is lowered. -/
def matchSession (schema : DfSchema) (groupExpr aggrExpr : List DfExpr) :
    Lowering (Option SessionSpec) :=
  match firstCall findSession groupExpr with
  | none => .ok none
  | some (sessionIdx, time :: gap :: _) =>
    match extractColumnIndex schema time, extractIntervalMs gap with
    | some timeCol, some gapMs => do
      match aggrExpr with
      | [count, least, greatest] =>
        if isCountAggregate count ∧ isNamedAggregateOnColumn "min" schema timeCol least ∧
            isNamedAggregateOnColumn "max" schema timeCol greatest then
          let partitionCols ← sessionPartitionCols schema (groupExpr.eraseIdx sessionIdx)
          pure (some ⟨timeCol, gapMs, partitionCols⟩)
        else unsupported "session_window_requires_count_min_max_shape"
      | _ => unsupported "session_window_requires_count_min_max_shape"
    | _, _ => unsupported "session_invalid_args"
  | some _ => unsupported "session_missing_args"

/-- The plan over a lowered input. A session's bounds are its least and greatest times. -/
def SessionSpec.plan (spec : SessionSpec) (input : PlanNode) : PlanNode :=
  let width := spec.partitionCols.length
  let sessions := PlanNode.sessionWindow
    (.project input (spec.partitionCols.map Expr.column ++ [.column spec.timeCol]))
    width spec.gapMs .drop
  let counted := PlanNode.aggregate sessions
    ((List.range width).map (fun index => Expr.column (index + 2)) ++ [.column 0, .column 1])
    [⟨.count, literalOne, false⟩]
  .project counted ((List.range width).map Expr.column ++
    [.column (width + 2), .column width, .column (width + 1)])

/-! ## Hopping windows -/

structure HopTimeSpec where
  timeCol : Nat
  slideIdxCol : Nat
  slideMs : Int64

/-- `extract_generate_series_hop_input`: the input of the implicit series join, and the position of
the series. -/
def extractGenerateSeriesHopInput : LogicalPlan → Option (LogicalPlan × Nat)
  | .join left right [] none .inner _ _ =>
    match (match right with | .subqueryAlias input _ => input | other => other) with
    | .projection (.tableScan "generate_series()" _ _) [.alias (.column col) _] _ =>
      if col.name = "value" then some (left, left.schema.length) else none
    | _ => none
  | _ => none

def extractSlideComponent (schema : DfSchema) : DfExpr → Option (Nat × Int64)
  | .alias expr _ => extractSlideComponent schema expr
  | .cast expr _ => extractSlideComponent schema expr
  | .tryCast expr _ => extractSlideComponent schema expr
  | .binaryExpr left .multiply right =>
    match extractColumnIndex schema left, extractInt64Literal right with
    | some col, some ms => some (col, ms)
    | _, _ =>
      match extractInt64Literal left, extractColumnIndex schema right with
      | some ms, some col => some (col, ms)
      | _, _ => none
  | _ => none

def extractHopTimeSpec (source joined : DfSchema) : DfExpr → Option HopTimeSpec
  | .alias expr _ => extractHopTimeSpec source joined expr
  | .cast expr _ => extractHopTimeSpec source joined expr
  | .tryCast expr _ => extractHopTimeSpec source joined expr
  | .scalarFunction "to_timestamp_millis" [arg] => extractHopTimeSpec source joined arg
  | .binaryExpr left .minus right => do
    let timeCol ← extractColumnIndex source left
    let (slideIdxCol, slideMs) ← extractSlideComponent joined right
    pure ⟨timeCol, slideIdxCol, slideMs⟩
  | _ => none

/-- The first group expression that is a hop over the series, at its position. -/
def findHop (source joined : DfSchema) (slideIdxCol : Nat) :
    List DfExpr → Lowering (Option (Nat × Int64 × HopTimeSpec))
  | [] => .ok none
  | expr :: exprs => do
    let found ← match findDateBin expr with
      | none => pure none
      | some (size :: time :: _) =>
        match extractIntervalMs size with
        | none => unsupported "date_bin_invalid_interval"
        | some windowSizeMs =>
          match extractHopTimeSpec source joined time with
          | some spec =>
            pure (if spec.slideIdxCol = slideIdxCol then some (windowSizeMs, spec) else none)
          | none => pure none
      | some _ => unsupported "date_bin_missing_args"
    match found with
    | some hop => pure (some (0, hop))
    | none => do
      let later ← findHop source joined slideIdxCol exprs
      pure (later.map fun hop => (hop.1 + 1, hop.2))

/-- A hopping window over the input of the series join. -/
structure HopSpec where
  input : LogicalPlan
  hopIdx : Nat
  windowSizeMs : Int64
  time : HopTimeSpec

/-- The part of `try_lower_hop_window_aggregate` before the input is lowered. -/
def matchHop (input : LogicalPlan) (groupExpr : List DfExpr) : Lowering (Option HopSpec) :=
  match extractGenerateSeriesHopInput input with
  | none => .ok none
  | some (sourceInput, slideIdxCol) => do
    match ← findHop sourceInput.schema input.schema slideIdxCol groupExpr with
    | none => pure none
    | some (hopIdx, windowSizeMs, time) =>
      let bounds := s!"window_size_ms={windowSizeMs},slide_ms={time.slideMs}"
      if time.slideMs ≤ 0 ∨ windowSizeMs ≤ time.slideMs then
        unsupported ("hop_window_invalid_slide:" ++ bounds)
      else if windowSizeMs % time.slideMs ≠ 0 then
        unsupported ("hop_window_non_integral_overlap:" ++ bounds)
      else pure (some ⟨sourceInput, hopIdx, windowSizeMs, time⟩)

theorem sizeOf_lt_of_matchHop {input : LogicalPlan} {spec : HopSpec}
    (found : matchHop input groupExpr = .ok (some spec)) : sizeOf spec.input < sizeOf input := by
  unfold matchHop at found
  split at found
  · cases found
  · next sourceInput slideIdxCol isHop =>
    obtain ⟨hop, _, found⟩ := Loop.bind_eq_ok.mp found
    have same : spec.input = sourceInput := by
      split at found
      · cases found
      · split_ifs at found
        · cases found
        · cases found
        · cases found
          rfl
    rw [same]
    unfold extractGenerateSeriesHopInput at isHop
    split at isHop
    · simp only [LogicalPlan.join.sizeOf_spec]
      split at isHop
      · split_ifs at isHop
        cases isHop
        omega
      · cases isHop
    · cases isHop

/-- The group and aggregate expressions over a window: columns move behind the window column, which
stands for the group expression at `windowIdx`. -/
def lowerOverWindow (schema : DfSchema) (groupExpr aggrExpr : List DfExpr) (windowIdx : Nat)
    (windowKey : Expr) : Lowering (List Expr × List AggregateExpr) := do
  let groupBy ← groupExpr.zipIdx.mapM fun entry => do
    if entry.2 = windowIdx then pure windowKey
    else
      let lowered ← lowerExpr schema entry.1
      pure (shiftExprCols lowered)
  let aggregates ← aggrExpr.mapM fun expr => do
    let lowered ← lowerAggExpr schema expr
    pure lowered.shift
  pure (groupBy, aggregates)

def HopSpec.plan (spec : HopSpec) (groupExpr aggrExpr : List DfExpr) (input : PlanNode) :
    Lowering PlanNode := do
  let hops := PlanNode.hopWindow input spec.time.timeCol spec.windowSizeMs spec.time.slideMs .drop
  let (groupBy, aggregates) ←
    lowerOverWindow spec.input.schema groupExpr aggrExpr spec.hopIdx (.column 0)
  pure (.aggregate hops groupBy aggregates)

/-! ## Tumbling windows -/

/-- A tumbling aggregate: the group expression at `tumbleIdx` is a `date_bin`. -/
def tumblePlan (schema : DfSchema) (groupExpr aggrExpr : List DfExpr) (input : PlanNode)
    (tumbleIdx : Nat) (args : List DfExpr) : Lowering PlanNode :=
  match args with
  | size :: time :: _ =>
    match extractIntervalMs size with
    | none => unsupported "date_bin_invalid_interval"
    | some windowSizeMs =>
      match extractColumnIndex schema time with
      | none => unsupported "date_bin_invalid_time_col"
      | some timeCol => do
        let windows := PlanNode.tumbleWindow input timeCol
          (intervalMsToBucketUnits windowSizeMs) .drop
        let windowKey := Expr.binaryOp .mul (.column 0)
          (.literal (Bytes.ofInt64 (timestampDisplayScale time)))
        let (groupBy, aggregates) ←
          lowerOverWindow schema groupExpr aggrExpr tumbleIdx windowKey
        pure (.aggregate windows groupBy aggregates)
  | _ => unsupported "date_bin_missing_args"

theorem lowerOverWindow_nil {schema : DfSchema} {windowIdx : Nat} {windowKey : Expr}
    {lowered : List Expr × List AggregateExpr}
    (built : lowerOverWindow schema groupExpr [] windowIdx windowKey = .ok lowered) :
    lowered.2 = [] := by
  obtain ⟨groupBy, _, ended⟩ := Loop.bind_eq_ok.mp built
  cases ended
  rfl

/-- No group expression is a time window. -/
def PlainGroups (groupExpr : List DfExpr) : Prop :=
  ∀ expr ∈ groupExpr, findDateBin expr = none ∧ findSession expr = none

theorem findHop_eq_none {source joined : DfSchema} {slideIdxCol : Nat}
    (absent : ∀ expr ∈ exprs, findDateBin expr = none) :
    findHop source joined slideIdxCol exprs = .ok none := by
  induction exprs with
  | nil => rfl
  | cons expr exprs ih =>
    have rest := ih fun other mem => absent other (by simp [mem])
    rw [findHop, absent expr (by simp), rest]
    rfl

theorem PlainGroups.matchSession_eq (plain : PlainGroups groupExpr) (schema : DfSchema)
    (aggrExpr : List DfExpr) : matchSession schema groupExpr aggrExpr = .ok none := by
  unfold matchSession
  rw [firstCall_eq_none.mpr fun expr mem => (plain expr mem).2]

theorem PlainGroups.matchHop_eq (plain : PlainGroups groupExpr)
    (input : LogicalPlan) : matchHop input groupExpr = .ok none := by
  unfold matchHop
  split
  · rfl
  · rw [findHop_eq_none fun expr mem => (plain expr mem).1]
    rfl

end RockStream.Sql
