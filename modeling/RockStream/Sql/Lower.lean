import RockStream.Sql.TimeWindow

/-!
Contract: `lower`, from logical plans to plan nodes (`rockstream-sql/src/lower.rs`).

Owns:
- the keys of a join and the ids of its arrangements;
- the recognition of the Top-K pattern;
- `lower` itself.

Does not own: the names of views, which are resolved after lowering. The hash of a plan
text is a parameter.
-/

namespace RockStream.Sql

open Lib Loop

variable [ColumnIndex]

variable {schema : DfSchema} {found : TopkMatch}

/-! ## Joins -/

def joinKeyColumn (schema : DfSchema) (unresolved notColumn : String) : DfExpr → Lowering Nat
  | .column col =>
    match indexOfColumn schema col with
    | some index => .ok index
    | none => unsupported unresolved
  | _ => unsupported notColumn

/-- The data types that `extract_equi_join_keys` rejects. -/
def isFloat (dataType : DataType) : Bool :=
  dataType = .other "Float16" ∨ dataType = .other "Float32" ∨ dataType = .other "Float64"

def columnType (schema : DfSchema) (index : Nat) : Option DataType :=
  schema[index]?.map fun entry => entry.field.dataType

/-- One pair of `extract_equi_join_keys`. -/
def equiJoinKey (left right : DfSchema) (pair : DfExpr × DfExpr) : Lowering (Nat × Nat) := do
  let leftIdx ← joinKeyColumn left "join_column_resolution" "join_non_column_key" pair.1
  let rightIdx ← joinKeyColumn right "join_column_resolution" "join_non_column_key" pair.2
  if (columnType left leftIdx).any isFloat ∨ (columnType right rightIdx).any isFloat then
    .error (.err .floatJoinRejected)
  else pure (leftIdx, rightIdx)

def extractEquiJoinKeys (on : List (DfExpr × DfExpr)) (left right : DfSchema) :
    Lowering (List Nat × List Nat) :=
  if on = [] then unsupported "join_no_equi_condition"
  else do
    let keys ← on.mapM (equiJoinKey left right)
    pure keys.unzip

def extractJoinKeysFromFilter (filter : Option DfExpr) (left right : DfSchema) :
    Lowering (List Nat × List Nat) :=
  match filter with
  | some (.binaryExpr leftExpr op rightExpr) =>
    if op ≠ .eq then unsupported "join_filter_non_eq"
    else do
      let leftIdx ← joinKeyColumn left "join_filter_column_resolution"
        "join_filter_non_column_key" leftExpr
      let rightIdx ← joinKeyColumn right "join_filter_column_resolution"
        "join_filter_non_column_key" rightExpr
      pure ([leftIdx], [rightIdx])
  | _ => unsupported "join_no_equi_condition"

/-- The keys of a join. The filter is read only where there is no pair. -/
def joinKeys (on : List (DfExpr × DfExpr)) (filter : Option DfExpr) (left right : DfSchema) :
    Lowering (List Nat × List Nat) :=
  if on = [] then extractJoinKeysFromFilter filter left right
  else extractEquiJoinKeys on left right

def hashKeys (keys : List Nat) : UInt64 :=
  keys.foldl (fun hash key => hash * 31 + UInt64.ofNat key) 0 + 1

def leftArrId (leftKeys rightKeys : List Nat) : OperatorId :=
  hashKeys leftKeys * 31 + hashKeys rightKeys

def rightArrId (leftKeys rightKeys : List Nat) : OperatorId :=
  hashKeys rightKeys * 37 + hashKeys leftKeys

def unmatchedArrId (leftKeys rightKeys : List Nat) : OperatorId :=
  hashKeys leftKeys * 41 + hashKeys rightKeys + 0x4F5544

/-- The operator of a join. -/
inductive JoinTarget where
  | inner
  | outer (kind : OuterJoinKind)

def joinTarget (joinType : JoinType) (nullAware : Bool) : Option JoinTarget :=
  match joinType with
  | .inner => some .inner
  | .left => some (.outer .left)
  | .right => some (.outer .right)
  | .full => some (.outer .full)
  | .leftSemi => some (.outer .semi)
  | .leftAnti => some (.outer (if nullAware then .nullAwareAnti else .anti))
  | .rightSemi | .rightAnti | .leftMark | .rightMark => none

/-- The node of a join; `lower_outer_join` for the outer kinds. -/
def joinNode (target : JoinTarget) (left right : PlanNode) (leftKeys rightKeys : List Nat) :
    PlanNode :=
  match target with
  | .inner =>
    .innerJoin left right leftKeys rightKeys (leftArrId leftKeys rightKeys)
      (rightArrId leftKeys rightKeys) {}
  | .outer kind =>
    .outerJoin kind left right leftKeys rightKeys (leftArrId leftKeys rightKeys)
      (rightArrId leftKeys rightKeys) (unmatchedArrId leftKeys rightKeys)

/-! ## The Top-K pattern -/

/-- A comparison of a column with a literal, whichever stands on the left. -/
def columnAndLiteral (left right : DfExpr) : Option (Column × Int64) :=
  match left, extractInt64Literal right with
  | .column col, some value => some (col, value)
  | _, _ =>
    match right, extractInt64Literal left with
    | .column col, some value => some (col, value)
    | _, _ => none

/-- `k_val - 1`. -/
def predI64 (value : Int64) : Lowering Int64 :=
  if value = Int64.minValue then .error .overflow else .ok (value - 1)

/-- The ranked column and the bound of the filter. -/
def topkBound : DfExpr → Lowering (Option (Column × Int64))
  | .binaryExpr left .ltEq right => .ok (columnAndLiteral left right)
  | .binaryExpr left .lt right =>
    match columnAndLiteral left right with
    | some (col, value) => do
      let k ← predI64 value
      pure (some (col, k))
    | none => .ok none
  | _ => .ok none

/-- The window below the filter, the position of the ranked column in its output, and the
projection between the two. -/
structure RankedWindow where
  input : LogicalPlan
  windowExpr : List DfExpr
  outputIdx : Nat
  inner : Option (List DfExpr)

def stripAlias : DfExpr → DfExpr
  | .alias expr _ => expr
  | other => other

def rankedWindow (filterInput : LogicalPlan) (rnColIdx : Nat) : Lowering (Option RankedWindow) :=
  match filterInput.stripAliases with
  | .projection input exprs _ =>
    match exprs[rnColIdx]? with
    | none => .error .outOfBounds
    | some expr =>
      match stripAlias expr with
      | .column col => do
        let outputIdx ← resolveColumn input.schema col "column_resolution_window"
        match input.stripAliases with
        | .window windowInput windowExpr _ =>
          pure (some ⟨windowInput, windowExpr, outputIdx, some exprs⟩)
        | _ => pure none
      | _ => .ok none
  | .window input windowExpr _ => .ok (some ⟨input, windowExpr, rnColIdx, none⟩)
  | _ => .ok none

def RankedWindow.call? (window : RankedWindow) : Option (WindowFunction DfExpr) :=
  if window.outputIdx < window.input.schema.length then none
  else
    match window.windowExpr[window.outputIdx - window.input.schema.length]? with
    | some (.windowFunction call) =>
      if call.definition = .windowUdf "row_number" ∨ call.definition = .windowUdf "rank" then
        some call
      else none
    | _ => none

/-- PARTITION BY columns; another expression ends the pattern. -/
def topkPartition (schema : DfSchema) : List DfExpr → Lowering (Option (List Nat))
  | [] => .ok (some [])
  | .column col :: exprs => do
    let index ← resolveColumn schema col "column_resolution_partition_by"
    let rest ← topkPartition schema exprs
    pure (rest.map (index :: ·))
  | _ :: _ => .ok none

/-- The rank column, which is the first ORDER BY column and must be descending, and the partition
columns. -/
def topkOrder (schema : DfSchema) (call : WindowFunction DfExpr) :
    Lowering (Option (Nat × List Nat)) :=
  match call.orderBy with
  | [] => .ok none
  | sort :: _ =>
    if sort.asc then .ok none
    else
      match sort.expr with
      | .column col => do
        let rankCol ← resolveColumn schema col "column_resolution_order_by"
        let partitionBy ← topkPartition schema call.partitionBy
        pure (partitionBy.map (rankCol, ·))
      | _ => .ok none

/-- A recognised Top-K query. -/
structure TopkMatch where
  window : RankedWindow
  filterSchema : DfSchema
  k : Int64
  rankCol : Nat
  partitionBy : List Nat

/-- The part of `try_lower_topk_pattern` before the input is lowered. -/
def matchTopk (input : LogicalPlan) : Lowering (Option TopkMatch) :=
  match input.stripAliases with
  | .filter filterInput predicate => do
    match ← topkBound predicate with
    | none => pure none
    | some (rnCol, k) => do
      let rnColIdx ← resolveColumn filterInput.schema rnCol "column_resolution_rn"
      match ← rankedWindow filterInput rnColIdx with
      | none => pure none
      | some window =>
        match window.call? with
        | none => pure none
        | some call => do
          let order ← topkOrder window.input.schema call
          pure (order.map fun order =>
            ⟨window, filterInput.schema, k, order.1, order.2⟩)
  | _ => .ok none

/-- A selected column: through the inner projection, or of the window's input. -/
def TopkMatch.column (found : TopkMatch) (index : Nat) : Lowering (Option Expr) :=
  match found.window.inner with
  | some exprs =>
    match exprs[index]? with
    | none => .error .outOfBounds
    | some expr => do
      let lowered ← lowerExpr found.window.input.schema expr
      pure (some lowered)
  | none => .ok (if index < found.window.input.schema.length then some (.column index) else none)

/-- A selected expression must be a column, possibly renamed. -/
def outerColumn : DfExpr → Option Column
  | .column col => some col
  | .alias (.column col) _ => some col
  | _ => none

def TopkMatch.columns (found : TopkMatch) : List DfExpr → Lowering (Option (List Expr))
  | [] => .ok (some [])
  | outerExpr :: exprs =>
    match outerColumn outerExpr with
    | none => .ok none
    | some col => do
      let index ← resolveColumn found.filterSchema col "column_resolution_outer_proj"
      match ← found.column index with
      | none => pure none
      | some lowered => do
        let rest ← found.columns exprs
        pure (rest.map (lowered :: ·))

/-- The Top-K node over a lowered input; the bound is cast with `k as usize`. -/
def TopkMatch.node (found : TopkMatch) (input : PlanNode) : PlanNode :=
  .topK input (asUsize found.k) found.rankCol found.partitionBy

theorem sizeOf_lt_of_rankedWindow {filterInput : LogicalPlan} {rnColIdx : Nat}
    {window : RankedWindow} (found : rankedWindow filterInput rnColIdx = .ok (some window)) :
    sizeOf window.input < sizeOf filterInput := by
  have outer := filterInput.sizeOf_stripAliases_le
  unfold rankedWindow at found
  split at found
  · next input exprs schema isProjection =>
    rw [isProjection, LogicalPlan.projection.sizeOf_spec] at outer
    have inner := input.sizeOf_stripAliases_le
    split at found
    · cases found
    · split at found
      · obtain ⟨outputIdx, _, found⟩ := bind_eq_ok.mp found
        split at found
        · next isWindow =>
          cases found
          rw [isWindow, LogicalPlan.window.sizeOf_spec] at inner
          dsimp only
          omega
        · cases found
      · cases found
  · next isWindow =>
    cases found
    rw [isWindow, LogicalPlan.window.sizeOf_spec] at outer
    dsimp only
    omega
  · cases found

/-- What a recognised pattern consists of. -/
theorem matchTopk_eq_some {input : LogicalPlan} (isMatch : matchTopk input = .ok (some found)) :
    ∃ filterInput predicate rnCol rnColIdx call,
      input.stripAliases = .filter filterInput predicate ∧
        topkBound predicate = .ok (some (rnCol, found.k)) ∧
        indexOfColumn filterInput.schema rnCol = some rnColIdx ∧
        rankedWindow filterInput rnColIdx = .ok (some found.window) ∧
        found.window.call? = some call ∧
        topkOrder found.window.input.schema call = .ok (some (found.rankCol, found.partitionBy)) ∧
        found.filterSchema = filterInput.schema := by
  unfold matchTopk at isMatch
  split at isMatch
  · next filterInput predicate isFilter =>
    obtain ⟨bound, isBound, isMatch⟩ := bind_eq_ok.mp isMatch
    split at isMatch
    · cases isMatch
    · next rnCol k =>
      obtain ⟨rnColIdx, resolved, isMatch⟩ := bind_eq_ok.mp isMatch
      obtain ⟨window, isWindow, isMatch⟩ := bind_eq_ok.mp isMatch
      split at isMatch
      · cases isMatch
      · next window =>
        split at isMatch
        · cases isMatch
        · next call isCall =>
          obtain ⟨order, isOrder, isMatch⟩ := bind_eq_ok.mp isMatch
          cases order with
          | none => cases isMatch
          | some order =>
            cases isMatch
            refine ⟨filterInput, predicate, rnCol, rnColIdx, call, isFilter, isBound, ?_,
              isWindow, isCall, isOrder, rfl⟩
            unfold resolveColumn at resolved
            split at resolved
            · cases resolved
              assumption
            · cases resolved
  · cases isMatch

theorem sizeOf_lt_of_matchTopk {input : LogicalPlan}
    (isMatch : matchTopk input = .ok (some found)) : sizeOf found.window.input < sizeOf input := by
  obtain ⟨filterInput, predicate, _, _, _, isFilter, _, _, isWindow, _⟩ := matchTopk_eq_some isMatch
  have outer := input.sizeOf_stripAliases_le
  have inner := sizeOf_lt_of_rankedWindow isWindow
  rw [isFilter, LogicalPlan.filter.sizeOf_spec] at outer
  omega

/-! ## Recursive queries -/

structure RecursiveClassification where
  selfReferences : Nat
  nonMonotone : Bool
deriving DecidableEq, Repr

/-- The classification of a plan and of its inputs together. -/
def RecursiveClassification.plus (first second : RecursiveClassification) :
    RecursiveClassification :=
  ⟨first.selfReferences + second.selfReferences, first.nonMonotone || second.nonMonotone⟩

mutual

def classifyRecursiveTerm (recursiveName : String) : LogicalPlan → RecursiveClassification
  | .tableScan tableName _ _ => ⟨if tableName = recursiveName then 1 else 0, false⟩
  | .filter input _ => classifyRecursiveTerm recursiveName input
  | .projection input _ _ => classifyRecursiveTerm recursiveName input
  | .aggregate input _ _ _ => (classifyRecursiveTerm recursiveName input).plus ⟨0, true⟩
  | .subqueryAlias input _ => classifyRecursiveTerm recursiveName input
  | .extension _ inputs _ => classifyInputs recursiveName inputs
  | .join left right _ _ joinType _ _ =>
    ((classifyRecursiveTerm recursiveName left).plus
      (classifyRecursiveTerm recursiveName right)).plus
      ⟨0, joinType = .leftSemi ∨ joinType = .leftAnti ∨ joinType = .rightSemi ∨
        joinType = .rightAnti⟩
  | .distinctAll input => (classifyRecursiveTerm recursiveName input).plus ⟨0, true⟩
  | .distinctOn input _ => (classifyRecursiveTerm recursiveName input).plus ⟨0, true⟩
  | .union inputs _ => classifyInputs recursiveName inputs
  | .window input _ _ => (classifyRecursiveTerm recursiveName input).plus ⟨0, true⟩
  | .unnest input _ _ _ => classifyRecursiveTerm recursiveName input
  | .recursiveQuery _ staticTerm recursiveTerm _ _ =>
    (classifyRecursiveTerm recursiveName staticTerm).plus
      (classifyRecursiveTerm recursiveName recursiveTerm)
  | .other _ inputs _ => classifyInputs recursiveName inputs

def classifyInputs (recursiveName : String) : List LogicalPlan → RecursiveClassification
  | [] => ⟨0, false⟩
  | input :: inputs =>
    (classifyRecursiveTerm recursiveName input).plus (classifyInputs recursiveName inputs)

end

def recursionMaxIterations : Nat := 1024

/-- A recursive query whose terms have the columns of the result and which refers to itself at most
once is accepted; the result is whether it is monotone. -/
def checkRecursiveQuery (name : String) (staticTerm recursiveTerm : LogicalPlan) (isDistinct : Bool)
    (schema : DfSchema) : Lowering Bool :=
  let baseCols := staticTerm.schema.length
  let stepCols := recursiveTerm.schema.length
  let outputCols := schema.length
  let classification := classifyRecursiveTerm name recursiveTerm
  if baseCols ≠ stepCols ∨ baseCols ≠ outputCols then
    unsupported ("recursive_query_column_count_mismatch:" ++
      s!"base={baseCols},step={stepCols},output={outputCols}")
  else if 1 < classification.selfReferences then
    unsupported ("recursive_query_multiple_self_references:name=" ++ name)
  else .ok (!isDistinct && !classification.nonMonotone)

/-! ## Plans -/

/-- An aggregate without a session or hopping window, over its lowered input. -/
def aggregatePlan (planHash : PlanNode → UInt64) (schema : DfSchema)
    (groupExpr aggrExpr : List DfExpr) (input : PlanNode) : Lowering PlanNode :=
  match firstCall findDateBin groupExpr with
  | some (tumbleIdx, args) => tumblePlan schema groupExpr aggrExpr input tumbleIdx args
  | none =>
    -- No aggregate function: the group expressions are not looked at.
    if aggrExpr = [] then .ok (.distinct input (planHash input))
    else do
      let groupBy ← groupExpr.mapM (lowerExpr schema)
      let aggregates ← aggrExpr.mapM (lowerAggExpr schema)
      pure (.aggregate input groupBy aggregates)

/-- `lower`. The hash of a plan text is a parameter. -/
def lower (planHash : PlanNode → UInt64) (plan : LogicalPlan) : Lowering PlanNode :=
  match plan with
  | .tableScan tableName projection _ =>
    .ok (match projection with
      | some columns => .project (.source tableName) (columns.map Expr.column)
      | none => .source tableName)
  | .filter input predicate => do
    let node ← lower planHash input
    let predicate ← lowerExpr input.schema predicate
    pure (.filter node predicate)
  | .projection input exprs _ =>
    let general : Lowering PlanNode := do
      let session ← match input with
        | .aggregate aggInput groupExpr aggrExpr _ => do
          match ← matchSession aggInput.schema groupExpr aggrExpr with
          | some spec => do
            let node ← lower planHash aggInput
            pure (some (spec.plan node))
          | none => pure none
        | _ => pure none
      match session with
      | some node => pure node
      | none => do
        let node ← lower planHash input
        let columns ← exprs.mapM (lowerProjExpr input.schema)
        pure (.project node columns)
    match isMatch : matchTopk input with
    | .error fault => .error fault
    | .ok none => general
    | .ok (some found) => do
      have := sizeOf_lt_of_matchTopk isMatch
      let node ← lower planHash found.window.input
      match ← found.columns exprs with
      | some columns => pure (.project (found.node node) columns)
      | none => general
  | .aggregate input groupExpr aggrExpr _ => do
    match ← matchSession input.schema groupExpr aggrExpr with
    | some spec => do
      let node ← lower planHash input
      pure (spec.plan node)
    | none =>
      match isMatch : matchHop input groupExpr with
      | .error fault => .error fault
      | .ok (some spec) => do
        have := sizeOf_lt_of_matchHop isMatch
        let node ← lower planHash spec.input
        spec.plan groupExpr aggrExpr node
      | .ok none => do
        let node ← lower planHash input
        aggregatePlan planHash input.schema groupExpr aggrExpr node
  | .subqueryAlias input _ => lower planHash input
  | .extension name inputs _ =>
    match inputs with
    | [input] => lower planHash input
    | _ => unsupported ("Extension::" ++ name)
  | .join left right on filter joinType nullAware _ =>
    match joinTarget joinType nullAware with
    | none => unsupported ("Join:" ++ joinType.debug)
    | some target => do
      let keys ← joinKeys on filter left.schema right.schema
      let left ← lower planHash left
      let right ← lower planHash right
      pure (joinNode target left right keys.1 keys.2)
  | .distinctAll input => do
    let node ← lower planHash input
    pure (.distinct node (planHash node))
  | .distinctOn _ _ =>
    unsupported "Distinct::On (DISTINCT ON — not supported, use DISTINCT)"
  | .union inputs _ => do
    let nodes ← inputs.attach.mapM fun input => lower planHash input.1
    match nodes with
    | [] => unsupported "Union::empty"
    | node :: nodes => pure (nodes.foldl PlanNode.union node)
  | .window input windowExpr _ => do
    let node ← lower planHash input
    let windowExprs ← windowExpr.mapM fun expr => lowerWindowExpr expr input.schema
    pure (.window node windowExprs)
  | .unnest input listTypeColumns structTypeColumns _ => do
    let node ← lower planHash input
    match listTypeColumns, structTypeColumns with
    | [col], [] => pure (.lateral node (.unnest col))
    | _, _ => unsupported (s!"Unnest:list_cols={listTypeColumns.length}," ++
        s!"struct_cols={structTypeColumns.length}")
  | .recursiveQuery name staticTerm recursiveTerm isDistinct schema => do
    let monotone ← checkRecursiveQuery name staticTerm recursiveTerm isDistinct schema
    let base ← lower planHash staticTerm
    let step ← lower planHash recursiveTerm
    pure (.recursion base step recursionMaxIterations monotone)
  | .other name _ _ => unsupported name
termination_by sizeOf plan
decreasing_by
  all_goals simp only [LogicalPlan.filter.sizeOf_spec, LogicalPlan.projection.sizeOf_spec,
    LogicalPlan.aggregate.sizeOf_spec, LogicalPlan.subqueryAlias.sizeOf_spec,
    LogicalPlan.extension.sizeOf_spec, LogicalPlan.join.sizeOf_spec,
    LogicalPlan.distinctAll.sizeOf_spec, LogicalPlan.union.sizeOf_spec,
    LogicalPlan.window.sizeOf_spec, LogicalPlan.unnest.sizeOf_spec,
    LogicalPlan.recursiveQuery.sizeOf_spec, List.cons.sizeOf_spec]
  all_goals try have inside := List.sizeOf_lt_of_mem input.2
  all_goals omega

section Inversion

variable {planHash : PlanNode → UInt64} {left right input : LogicalPlan} {node : PlanNode}

theorem lower_join_eq_ok {on : List (DfExpr × DfExpr)} {filter : Option DfExpr}
    {joinType : JoinType} {nullAware : Bool}
    (accepted : lower planHash (.join left right on filter joinType nullAware schema) = .ok node) :
    ∃ target keys leftNode rightNode, joinTarget joinType nullAware = some target ∧
      joinKeys on filter left.schema right.schema = .ok keys ∧
      lower planHash left = .ok leftNode ∧ lower planHash right = .ok rightNode ∧
      node = joinNode target leftNode rightNode keys.1 keys.2 := by
  rw [lower] at accepted
  split at accepted
  · cases accepted
  · next target isTarget =>
    obtain ⟨keys, isKeys, accepted⟩ := bind_eq_ok.mp accepted
    obtain ⟨leftNode, isLeft, accepted⟩ := bind_eq_ok.mp accepted
    obtain ⟨rightNode, isRight, accepted⟩ := bind_eq_ok.mp accepted
    cases accepted
    exact ⟨target, keys, leftNode, rightNode, isTarget, isKeys, isLeft, isRight, rfl⟩

/-- GROUP BY without aggregates and without time windows is DISTINCT over the input. -/
theorem lower_group {groupExpr : List DfExpr} (plain : PlainGroups groupExpr) :
    lower planHash (.aggregate input groupExpr [] schema) =
      lower planHash input >>= fun inputNode =>
        pure (.distinct inputNode (planHash inputNode)) := by
  have noSession : matchSession input.schema groupExpr [] = pure none := plain.matchSession_eq _ _
  rw [lower, noSession, pure_bind]
  dsimp only
  split
  · next isMatch =>
    rw [plain.matchHop_eq] at isMatch
    cases isMatch
  · next isMatch =>
    rw [plain.matchHop_eq] at isMatch
    cases isMatch
  · unfold aggregatePlan
    rw [firstCall_eq_none.mpr fun expr mem => (plain expr mem).1]
    rfl

theorem lower_group_eq_ok {groupExpr : List DfExpr} (plain : PlainGroups groupExpr)
    (accepted : lower planHash (.aggregate input groupExpr [] schema) = .ok node) :
    ∃ inputNode, lower planHash input = .ok inputNode ∧
      node = .distinct inputNode (planHash inputNode) := by
  rw [lower_group plain] at accepted
  obtain ⟨inputNode, isInput, built⟩ := bind_eq_ok.mp accepted
  cases built
  exact ⟨inputNode, isInput, rfl⟩

/-- With a time window it is an aggregate over the window, without aggregate expressions. A session
window is refused. -/
theorem lower_group_windowed {groupExpr : List DfExpr} (windowed : ¬ PlainGroups groupExpr)
    (accepted : lower planHash (.aggregate input groupExpr [] schema) = .ok node) :
    ∃ windows groupBy, node = .aggregate windows groupBy [] := by
  rw [lower] at accepted
  obtain ⟨session, matched, accepted⟩ := bind_eq_ok.mp accepted
  have noSession : session = none ∧ firstCall findSession groupExpr = none := by
    unfold matchSession at matched
    split at matched
    · next absent => exact ⟨(Except.ok.inj matched).symm, absent⟩
    · split at matched <;> cases matched
    · cases matched
  obtain ⟨rfl, noSession⟩ := noSession
  dsimp only at accepted
  split at accepted
  · cases accepted
  · next spec _ =>
    obtain ⟨inputNode, _, accepted⟩ := bind_eq_ok.mp accepted
    obtain ⟨lowered, built, accepted⟩ := bind_eq_ok.mp accepted
    cases accepted
    exact ⟨_, lowered.1, by rw [lowerOverWindow_nil built]⟩
  · obtain ⟨inputNode, _, accepted⟩ := bind_eq_ok.mp accepted
    unfold aggregatePlan at accepted
    split at accepted
    · unfold tumblePlan at accepted
      split at accepted
      · split at accepted
        · cases accepted
        · split at accepted
          · cases accepted
          · obtain ⟨lowered, built, accepted⟩ := bind_eq_ok.mp accepted
            cases accepted
            exact ⟨_, lowered.1, by rw [lowerOverWindow_nil built]⟩
      · cases accepted
    · next noDateBin =>
      refine absurd (fun expr mem => ⟨?_, ?_⟩) windowed
      · exact firstCall_eq_none.mp noDateBin expr mem
      · exact firstCall_eq_none.mp noSession expr mem

end Inversion

end RockStream.Sql
