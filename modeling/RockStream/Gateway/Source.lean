import RockStream.Gateway.Dml

/-!
Contract: tables that are fed by sources (`rockstream-gateway/src/server.rs`).

A connector delivers weighted record batches, and logical replication delivers envelopes of
row changes. Both are turned into table operations, whose delta is handed to the views and
whose mutations are written. Neither looks at the rows that are stored: a commit of a source
does not pass through `committed_dml_ops`.

Owns:
- `splitWeightColumn`, `buildRowKey`, `sourceBatchToDmlOps` and `pgoutputChangeToDml`;
- the routes of replicated relations and the commit of an envelope;
- `SourceState.run`, the commits of a sequence of events.

Does not own: how a value is displayed, how a cell is read from its text, offsets, leases and
lifecycles of a source, and the pipelines of the views, whose answer is part of an event.
-/

namespace RockStream

open Lib

/-! ## Connector batches -/

/-- A record batch of a connector. -/
structure SourceBatch where
  fields : List Field
  rows : List (List Cell)
  conforms : ∀ row ∈ rows, Conforms fields row

/-- The weight of a slot; NULL is zero. -/
def Cell.sourceWeight (cell : Cell) : Int :=
  match cell.get with
  | some (.int64 value) => value.toInt
  | _ => 0

/-- `split_weight_column`: the width of the data, and its rows with their weights. There is none
where the batch has no Int64 column `_weight`, or no other column. -/
def splitWeightColumn (batch : SourceBatch) : Option (Nat × List (List Cell × Int)) :=
  let index := batch.fields.findIdx fun field => field.name = "_weight"
  match batch.fields[index]? with
  | some ⟨_, .int64, _⟩ =>
    if batch.fields.eraseIdx index = [] then none
    else some ((batch.fields.eraseIdx index).length, batch.rows.map fun row =>
      (row.eraseIdx index, ((row[index]?).map Cell.sourceWeight).getD 0))
  | _ => none

def joinTexts (separator : UInt8) (texts : List Bytes) : Bytes :=
  List.intercalate [separator] texts

def decimalText (number : Nat) : Bytes :=
  (Nat.toDigits 10 number).map fun digit => UInt8.ofNat digit.toNat

/-- `build_row_key`: `{column}={value}`, separated by bars. -/
def buildRowKey (cols vals : List Bytes) : Bytes :=
  joinTexts 0x7C <|
    if cols.isEmpty then
      vals.zipIdx.map fun val => [0x63, 0x6F, 0x6C] ++ decimalText val.2 ++ [0x3D] ++ val.1
    else
      List.zipWith (fun col val => col ++ [0x3D] ++ val) cols vals

section Display

variable (display : Value → Except String Bytes)

def cellText (cell : Cell) : Except String Bytes :=
  match cell.get with
  | none => .ok nullMarker
  | some value => display value

/-- The operation of one weighted row. The size of the weight does not matter. -/
def sourceRowOps (table : Bytes) (names : List Bytes) (row : List Cell × Int) :
    Except GatewayDetail (List DmlOp) := do
  let values ← (row.1.mapM (cellText display)).mapError .sourceValue
  let valuesTsv := joinTexts 0x09 values
  let rowKey := buildRowKey names values
  if row.2 > 0 then pure [.insert table names valuesTsv rowKey]
  else if row.2 < 0 then pure [.delete table rowKey (some valuesTsv)]
  else pure []

def sourceBatchToDmlOps (table : Bytes) (names : List Bytes) (batch : SourceBatch) :
    Except GatewayDetail (List DmlOp) :=
  let (width, rows) := (splitWeightColumn batch).getD
    (batch.fields.length, batch.rows.map fun row => (row, 1))
  if width ≠ names.length then .error (.sourceColumns table width names.length)
  else do
    let ops ← rows.mapM (sourceRowOps display table names)
    pure ops.flatten

end Display

/-! ## Replicated changes -/

inductive CdcOperation where
  | insert
  | update
  | delete
deriving DecidableEq, Repr

structure EncodedChange where
  relationId : Nat
  operation : CdcOperation
  oldValues : Option (List (Option Bytes))
  newValues : Option (List (Option Bytes))
  schemaVersion : Nat

/-- The part of a `RelationRoute` that a commit reads: the imported table, the imported names of
its columns, and the version of the schema. -/
structure RelationRoute where
  relationId : Nat
  importedTableName : Bytes
  columns : List Bytes
  schemaVersion : Nat

/-- The row closure of `pgoutput_change_to_dml`: the text and the key of a row image. -/
def RelationRoute.row (route : RelationRoute) (values : Option (List (Option Bytes)))
    (kind : String) : Except GatewayFault (Bytes × Bytes) :=
  match values with
  | none => .error (.queryTimeExecutionFailed (.missingRowImage kind))
  | some values =>
    if values.length ≠ route.columns.length then
      .error (.queryTimeExecutionFailed
        (.tupleColumns kind values.length route.columns.length))
    else
      let texts := values.map fun value => value.getD nullMarker
      .ok (joinTexts 0x09 texts, buildRowKey route.columns texts)

def pgoutputChangeToDml (route : RelationRoute) (change : EncodedChange) :
    Except GatewayFault DmlOp :=
  match change.operation with
  | .insert => do
    let (valuesTsv, rowKey) ← route.row change.newValues "INSERT"
    pure (.insert route.importedTableName route.columns valuesTsv rowKey)
  | .update => do
    let (oldTsv, oldRowKey) ← route.row change.oldValues "UPDATE old"
    let (newTsv, newRowKey) ← route.row change.newValues "UPDATE new"
    pure (.update route.importedTableName oldRowKey oldTsv newRowKey newTsv)
  | .delete => do
    let (returningTsv, rowKey) ← route.row change.oldValues "DELETE"
    pure (.delete route.importedTableName rowKey (some returningTsv))

def extendRoutes (routes : HashMap Nat RelationRoute) (updates : List RelationRoute) :
    HashMap Nat RelationRoute :=
  updates.foldl (fun routes route => routes.insert route.relationId route) routes

/-- The operation of a change: the routes that the envelope stages come first. -/
def changeOp (routes staged : HashMap Nat RelationRoute) (change : EncodedChange) :
    Except GatewayFault DmlOp :=
  match (staged.lookup change.relationId).or (routes.lookup change.relationId) with
  | none => .error (.queryTimeExecutionFailed (.noRoute change.relationId))
  | some route =>
    if route.schemaVersion ≠ change.schemaVersion then
      .error (.queryTimeExecutionFailed
        (.schemaVersion change.relationId change.schemaVersion route.schemaVersion))
    else pgoutputChangeToDml route change

/-! ## Commits of sources -/

inductive SourceFeed where
  /-- The batches of a connector for a table with named columns. -/
  | batches (table : Bytes) (columns : List Bytes) (batches : List SourceBatch)
  /-- The changes of an upstream transaction, and the routes it stages. -/
  | envelope (changes : List EncodedChange) (routeUpdates : List RelationRoute)

/-- An event of a source: what is delivered, the schemas of the tables at that time, and how the
pipelines of the views and the write of the epoch end. -/
structure SourceEvent where
  feed : SourceFeed
  schemaOf : Bytes → List Field
  rest : Except GatewayFault Unit

/-- The shard and the routes of replicated relations. -/
structure SourceState where
  store : Store
  routes : HashMap Nat RelationRoute

section Commit

variable (display : Value → Except String Bytes)
  (parseCell : DataType → Option Bytes → Except String Cell)

def SourceFeed.ops (routes : HashMap Nat RelationRoute) :
    SourceFeed → Except GatewayFault (List DmlOp)
  | .batches table columns delivered => do
    let ops ← delivered.mapM fun batch =>
      (sourceBatchToDmlOps display table columns batch).mapError .queryTimeExecutionFailed
    pure ops.flatten
  | .envelope changes routeUpdates => changes.mapM (changeOp routes (extendRoutes ∅ routeUpdates))

/-- The tables whose deltas are built: the table of the connector, or every table that an
envelope changes. -/
def SourceFeed.changedRelations (ops : List DmlOp) : SourceFeed → List Bytes
  | .batches table _ _ => [table]
  | .envelope _ _ => (ops.map DmlOp.table).dedup

def SourceFeed.routesAfter (routes : HashMap Nat RelationRoute) :
    SourceFeed → HashMap Nat RelationRoute
  | .batches _ _ _ => routes
  | .envelope _ routeUpdates => extendRoutes routes routeUpdates

/-- `commit_bound_source_ops` and `commit_pgoutput_envelope`: the deltas for the views, and the
state after the write. -/
def SourceState.commit (state : SourceState) (event : SourceEvent) :
    Except GatewayFault (List (Bytes × ArrowZSet) × SourceState) := do
  let ops ← event.feed.ops display state.routes
  let deltas ← (event.feed.changedRelations ops).mapM fun table => do
    let delta ← buildDeltaZsetForTable parseCell table ops (event.schemaOf table)
    pure (table, delta)
  event.rest
  pure (deltas, ⟨state.store.writeBatch (appendDmlOps ops), event.feed.routesAfter state.routes⟩)

/-- An event that fails hands nothing to the views and writes nothing. -/
def SourceState.handle (state : SourceState) (event : SourceEvent) :
    List (Bytes × ArrowZSet) × SourceState :=
  match state.commit display parseCell event with
  | .ok committed => committed
  | .error _ => ([], state)

def SourceState.run (state : SourceState) :
    List SourceEvent → List (Bytes × ArrowZSet) × SourceState
  | [] => ([], state)
  | event :: events =>
    let (deltas, next) := state.handle display parseCell event
    let (later, last) := next.run events
    (deltas ++ later, last)

end Commit

end RockStream
