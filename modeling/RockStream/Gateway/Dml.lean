import RockStream.Arrow
import RockStream.Storage

/-!
Contract: buffered table writes and their delta (`rockstream-gateway/src/server.rs`).

A commit filters the buffered operations against the images of the rows they name, appends
the survivors to a write batch, and builds from the same survivors the signed delta for the
views over a table. A table is stored as tab-separated rows under
`view_output/{table}/{row_key}`.

Texts are their UTF-8 bytes. How a cell of a type is read from its text is a parameter.

Owns: `DmlOp`, `committedDmlOps`, `appendDmlOps`, `buildDeltaZsetForTable`, and the rows of a
stored table.

Does not own: the write buffer and its limit, and the commit that writes the batch.
-/

namespace RockStream

open Lib

/-- A buffered table operation. -/
inductive DmlOp where
  | insert (table : Bytes) (cols : List Bytes) (valuesTsv rowKey : Bytes)
  | update (table oldRowKey oldTsv newRowKey newTsv : Bytes)
  | delete (table rowKey : Bytes) (returningTsv : Option Bytes)
deriving DecidableEq

def DmlOp.table : DmlOp → Bytes
  | insert table _ _ _ => table
  | update table _ _ _ _ => table
  | delete table _ _ => table

/-- What an execution failure reports. -/
inductive GatewayDetail where
  /-- `build_delta_zset_for_table({table}): {error}` -/
  | buildDelta (table : Bytes) (error : String)
  /-- `build_delta_zset_for_table({table}): ` and the message of `RecordBatch::try_new` -/
  | buildDeltaBatch (table : Bytes)
  /-- `pgoutput {kind} is missing its row image` -/
  | missingRowImage (kind : String)
  /-- `RS-1002: pgoutput {kind} tuple has {found} columns, route has {expected}` -/
  | tupleColumns (kind : String) (found expected : Nat)
  /-- `RS-4013: pgoutput relation {relation} has no durable route` -/
  | noRoute (relation : Nat)
  /-- `RS-1002: pgoutput relation {relation} change used schema version {found}, expected
  {expected}` -/
  | schemaVersion (relation found expected : Nat)
  /-- `[RS-4008] source batch has {found} column(s), but table '{table}' has {expected}` -/
  | sourceColumns (table : Bytes) (found expected : Nat)
  /-- The display of a source value failed. -/
  | sourceValue (error : String)
  /-- `distributed view refresh {view}: {error}` -/
  | distributedRefresh (view : Bytes) (error : String)

/-- How a gateway function fails: a `GatewayError`, or a panic below it. -/
inductive GatewayFault where
  | storage (message : String)
  | queryTimeExecutionFailed (detail : GatewayDetail)
  | resultSetTooLarge
  | shardBackpressure (currentBytes limitBytes : Nat)
  | savepointLimitExceeded (limit : Nat)
  | savepointNotFound (name : Bytes)
  | commitEpochExhausted
  | panicked (fault : Fault)

/-! ## Keys -/

/-- `view_output/{table}/`. -/
def viewOutputPrefix (table : Bytes) : Bytes :=
  [0x76, 0x69, 0x65, 0x77, 0x5F, 0x6F, 0x75, 0x74, 0x70, 0x75, 0x74, 0x2F] ++ table ++ [0x2F]

def viewOutputKey (table rowKey : Bytes) : Bytes := viewOutputPrefix table ++ rowKey

def toAsciiLowercase (text : Bytes) : Bytes :=
  text.map fun byte => if 0x41 ≤ byte ∧ byte ≤ 0x5A then byte + 0x20 else byte

/-! ## The operations that a commit keeps -/

/-- The images of rows by lower-case table and row key; `none` is an absent row. -/
abbrev RowImages := HashMap (Bytes × Bytes) (Option Bytes)

/-- `dml_image_tables`: the rows whose images are read first, with the first spelling of the
table. -/
def dmlImageTables (ops : List DmlOp) : HashMap (Bytes × Bytes) Bytes :=
  ops.foldl (fun tables op =>
    let (table, rowKey) := match op with
      | .insert table _ _ rowKey => (table, rowKey)
      | .delete table rowKey _ => (table, rowKey)
      | .update table oldRowKey _ _ _ => (table, oldRowKey)
    if (tables.lookup (toAsciiLowercase table, rowKey)).isSome then tables
    else tables.insert (toAsciiLowercase table, rowKey) table) ∅

variable (reader : ShardReader)

def readImage (table rowKey : Bytes) : Except GatewayFault (Option Bytes) :=
  (reader (viewOutputKey table rowKey)).mapError .storage

/-- The images that are read before the operations are looked at. -/
def prefetchImages (tables : HashMap (Bytes × Bytes) Bytes) : Except GatewayFault RowImages :=
  tables.toPairs.foldlM (fun (images : RowImages) entry => do
    let image ← readImage reader entry.2 entry.1.2
    pure (images.insert entry.1 image)) ∅

def cachedRowImage (images : RowImages) (table rowKey : Bytes) :
    Except GatewayFault (Option Bytes × RowImages) :=
  match images.lookup (toAsciiLowercase table, rowKey) with
  | some image => pure (image, images)
  | none => do
    let image ← readImage reader table rowKey
    pure (image, images.insert (toAsciiLowercase table, rowKey) image)

/-- The body of the loop of `committed_dml_ops`. The image under the new key of an update is not
looked at. -/
def commitOp (current : RowImages × List DmlOp) (op : DmlOp) :
    Except GatewayFault (RowImages × List DmlOp) :=
  match op with
  | .insert table _ valuesTsv rowKey => do
    let (image, images) ← cachedRowImage reader current.1 table rowKey
    if image.isNone then
      pure (images.insert (toAsciiLowercase table, rowKey) (some valuesTsv), current.2 ++ [op])
    else pure (images, current.2)
  | .update table oldRowKey oldTsv newRowKey newTsv => do
    let (image, images) ← cachedRowImage reader current.1 table oldRowKey
    if image = some oldTsv then
      pure ((images.insert (toAsciiLowercase table, oldRowKey) none).insert
        (toAsciiLowercase table, newRowKey) (some newTsv), current.2 ++ [op])
    else pure (images, current.2)
  | .delete table rowKey returningTsv => do
    let (image, images) ← cachedRowImage reader current.1 table rowKey
    if returningTsv = image then
      pure (images.insert (toAsciiLowercase table, rowKey) none, current.2 ++ [op])
    else pure (images, current.2)

def committedDmlOps (ops : List DmlOp) : Except GatewayFault (List DmlOp) := do
  let images ← prefetchImages reader (dmlImageTables ops)
  let (_, committed) ← ops.foldlM (commitOp reader) (images, [])
  pure committed

/-! ## The write batch -/

def DmlOp.mutations : DmlOp → List StateMutation
  | insert table _ valuesTsv rowKey => [.put (viewOutputKey table rowKey) valuesTsv]
  | update table oldRowKey _ newRowKey newTsv =>
    [.delete (viewOutputKey table oldRowKey), .put (viewOutputKey table newRowKey) newTsv]
  | delete table rowKey _ => [.delete (viewOutputKey table rowKey)]

/-- `append_dml_ops`: what is appended to the batch. -/
def appendDmlOps (ops : List DmlOp) : List StateMutation := ops.flatMap DmlOp.mutations

/-! ## The delta of a table -/

/-- The signed rows that an operation contributes to the delta of a table. -/
def DmlOp.deltaRows (table : Bytes) (op : DmlOp) : List (Bytes × Int) :=
  if toAsciiLowercase op.table = toAsciiLowercase table then
    match op with
    | insert _ _ valuesTsv _ => [(valuesTsv, 1)]
    | update _ _ oldTsv _ newTsv => [(oldTsv, -1), (newTsv, 1)]
    | delete _ _ (some returningTsv) => [(returningTsv, -1)]
    | delete _ _ none => []
  else []

def nullMarker : Bytes := [0x5C, 0x4E]

/-- The text of a column; a missing column is read as NULL. -/
def tsvField (tsv : Bytes) (column : Nat) : Option Bytes :=
  ((tsv.splitOn 0x09)[column]?).filter (· ≠ nullMarker)

section Parse

variable (parseCell : DataType → Option Bytes → Except String Cell)

def tsvRow (schema : List Field) (tsv : Bytes) : Except String (List Cell) :=
  schema.zipIdx.mapM fun column => parseCell column.1.dataType (tsvField tsv column.2)

/-- `tsv_to_record_batch`, with the weights of the rows. The arrays are built one after another, so
a failure is that of the first failing column. -/
def tsvToRecordBatch (schema : List Field) (rows : List (Bytes × Int)) :
    Except String (List (List Cell × Int)) := do
  let _ ← schema.zipIdx.mapM fun column => rows.mapM fun row =>
    parseCell column.1.dataType (tsvField row.1 column.2)
  rows.mapM fun row => do
    let cells ← tsvRow parseCell schema row.1
    pure (cells, row.2)

def buildDeltaZsetForTable (table : Bytes) (ops : List DmlOp) (schema : List Field) :
    Except GatewayFault ArrowZSet :=
  let rows := ops.flatMap (DmlOp.deltaRows table)
  if rows.isEmpty then (ArrowZSet.empty schema).mapError .panicked
  else do
    let batch ← (tsvToRecordBatch parseCell schema rows).mapError fun error =>
      .queryTimeExecutionFailed (.buildDelta table error)
    (ArrowZSet.tryNew schema batch).mapError fun _ =>
      .queryTimeExecutionFailed (.buildDeltaBatch table)

/-- The row that a stored text denotes; a text that cannot be read denotes the empty row. -/
def rowOfTsv (schema : List Field) (tsv : Bytes) : Row :=
  match tsvRow parseCell schema tsv with
  | .ok cells => cells.map Cell.get
  | .error _ => []

def storedRows (schema : List Field) (store : Store) (table : Bytes) : List (Row × Int) :=
  (store.under (viewOutputPrefix table)).map fun record => (rowOfTsv parseCell schema record.2, 1)

end Parse

end RockStream
