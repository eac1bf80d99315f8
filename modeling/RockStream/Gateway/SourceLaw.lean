import RockStream.Gateway.DmlLaw
import RockStream.Gateway.Source

/-!
Contract: the stored table of a source and the deltas its views were handed.

A source writes one record per row key and never looks at what is stored, so the two agree
as long as every insert finds its key free, every delete and update finds the row it names,
and no update moves onto another row. A table with two equal rows has one record for both.

Owns:
- `KeepsRows`, what a source must keep to, and `CleanRun`, the same over a whole run;
- the agreement of the stored rows with the accumulated deltas over every clean run.

Does not own: sources that feed one table from several connectors with their own offsets.
-/

namespace RockStream

open Lib Loop Lib.Weighted List

/-! ## What a source keeps to -/

instance (store : Store) (op : DmlOp) : Decidable (op.ValidIn store) :=
  match op with
  | .insert _ _ _ _ => inferInstanceAs (Decidable (_ = _))
  | .update _ _ _ _ _ => inferInstanceAs (Decidable (_ = _))
  | .delete _ _ _ => inferInstanceAs (Decidable (_ = _))

instance AllValid.decidable (table : Bytes) : ∀ store ops, Decidable (AllValid table store ops)
  | _, [] => .isTrue trivial
  | store, op :: rest =>
    haveI := AllValid.decidable table (store.writeBatch op.mutations) rest
    inferInstanceAs (Decidable ((op.table = table → op.ValidIn store) ∧ _))

/-- The operations spell the table in one way, each is valid where it is written, and no update
moves onto another row. -/
def KeepsRows (table : Bytes) (store : Store) (ops : List DmlOp) : Prop :=
  (∀ op ∈ ops, op.Apart table) ∧ AllValid table store ops ∧ lostRows table store ops = []

instance (table : Bytes) (store : Store) (ops : List DmlOp) :
    Decidable (KeepsRows table store ops) :=
  inferInstanceAs (Decidable (_ ∧ _))

section Law

variable (display : Value → Except String Bytes)
  (parseCell : DataType → Option Bytes → Except String Cell) (schema : List Field) (table : Bytes)

/-- An event whose operations keep the rows of the table, under the schema of the table. -/
def SourceState.Clean (state : SourceState) (event : SourceEvent) : Prop :=
  match event.feed.ops display state.routes with
  | .ok ops => event.schemaOf table = schema ∧ KeepsRows table state.store ops
  | .error _ => True

instance (state : SourceState) (event : SourceEvent) :
    Decidable (state.Clean display schema table event) := by
  unfold SourceState.Clean
  cases event.feed.ops display state.routes with
  | ok ops => exact inferInstanceAs (Decidable (_ ∧ _))
  | error _ => exact .isTrue trivial

def SourceState.CleanRun (state : SourceState) : List SourceEvent → Prop
  | [] => True
  | event :: events => state.Clean display schema table event ∧
      (state.handle display parseCell event).2.CleanRun events

instance SourceState.CleanRun.decidable : ∀ (state : SourceState) (events : List SourceEvent),
    Decidable (state.CleanRun display parseCell schema table events)
  | _, [] => .isTrue trivial
  | state, event :: events =>
    haveI := SourceState.CleanRun.decidable (state.handle display parseCell event).2 events
    inferInstanceAs (Decidable (_ ∧ _))

def deltasOf (deltas : List (Bytes × ArrowZSet)) : List (Row × Int) :=
  (deltas.filter fun delta => delta.1 = table).flatMap fun delta => delta.2.valued

variable {display parseCell schema table}

/-! ## The deltas of one event -/

theorem table_of_sourceBatchToDmlOps {name : Bytes} {columns : List Bytes} {batch : SourceBatch}
    {ops : List DmlOp} (converted : sourceBatchToDmlOps display name columns batch = .ok ops) :
    ∀ op ∈ ops, op.table = name := by
  intro op mem
  unfold sourceBatchToDmlOps at converted
  dsimp only at converted
  split at converted
  · cases converted
  · obtain ⟨parts, mapped, ended⟩ := bind_eq_ok.mp converted
    cases ended
    obtain ⟨part, isPart, inPart⟩ := mem_flatten.mp mem
    obtain ⟨row, _, rowOps⟩ := exists_of_mem_mapM mapped isPart
    obtain ⟨values, _, chosen⟩ := bind_eq_ok.mp rowOps
    split at chosen
    · cases chosen
      rw [mem_singleton.mp inPart]
      rfl
    · split at chosen
      · cases chosen
        rw [mem_singleton.mp inPart]
        rfl
      · cases chosen
        cases inPart

theorem SourceFeed.table_mem_changedRelations {routes : HashMap Nat RelationRoute}
    {feed : SourceFeed} {ops : List DmlOp} (delivered : feed.ops display routes = .ok ops) :
    ∀ op ∈ ops, op.table ∈ feed.changedRelations ops := by
  intro op mem
  cases feed with
  | batches name columns batches =>
    obtain ⟨parts, mapped, ended⟩ := bind_eq_ok.mp delivered
    cases ended
    obtain ⟨part, isPart, inPart⟩ := mem_flatten.mp mem
    obtain ⟨batch, _, converted⟩ := exists_of_mem_mapM mapped isPart
    rw [table_of_sourceBatchToDmlOps (mapError_eq_ok.mp converted) op inPart]
    exact mem_singleton_self name
  | envelope changes routeUpdates =>
    exact mem_dedup.mpr (mem_map_of_mem mem)

theorem SourceFeed.nodup_changedRelations (feed : SourceFeed) (ops : List DmlOp) :
    (feed.changedRelations ops).Nodup := by
  cases feed with
  | batches name columns batches => exact nodup_singleton name
  | envelope changes routeUpdates => exact nodup_dedup _

theorem deltasOf_of_mapM {ops : List DmlOp} {schemaOf : Bytes → List Field} {relations : List Bytes}
    (distinct : relations.Nodup) (sameSchema : schemaOf table = schema)
    {deltas : List (Bytes × ArrowZSet)}
    (built : (relations.mapM fun name => do
      let delta ← buildDeltaZsetForTable parseCell name ops (schemaOf name)
      pure (name, delta)) = .ok deltas) :
    deltasOf table deltas = if table ∈ relations then
      denoteTsv parseCell schema (ops.flatMap (DmlOp.deltaRows table)) else [] := by
  have rel := mapM_eq_ok.mp built
  clear built
  induction rel with
  | nil => rfl
  | @cons name delta names deltas called _ ih =>
    obtain ⟨fresh, distinct⟩ := nodup_cons.mp distinct
    obtain ⟨made, isMade, ended⟩ := bind_eq_ok.mp called
    cases ended
    have later := ih distinct
    by_cases here : name = table
    · subst here
      rw [if_neg fresh] at later
      rw [if_pos mem_cons_self, ← sameSchema, ← valued_buildDeltaZsetForTable isMade]
      unfold deltasOf at later ⊢
      rw [filter_cons, if_pos (by simp), flatMap_cons, later, append_nil]
    · have sameTables : table ∈ name :: names ↔ table ∈ names := by simp [Ne.symm here]
      rw [if_congr sameTables rfl rfl, ← later]
      unfold deltasOf
      rw [filter_cons, if_neg (by simpa using here)]

theorem SourceState.weight_storedRows_handle (state : SourceState)
    {event : SourceEvent} (clean : state.Clean display schema table event) (row : Row) :
    weight (storedRows parseCell schema (state.handle display parseCell event).2.store table) row =
      weight (storedRows parseCell schema state.store table) row +
        weight (deltasOf table (state.handle display parseCell event).1) row := by
  unfold handle
  cases committed : state.commit display parseCell event with
  | error failure => exact (add_zero _).symm
  | ok result =>
    obtain ⟨ops, delivered, rest⟩ := bind_eq_ok.mp committed
    obtain ⟨deltas, built, rest⟩ := bind_eq_ok.mp rest
    obtain ⟨_, _, ended⟩ := bind_eq_ok.mp rest
    cases ended
    unfold Clean at clean
    rw [delivered] at clean
    obtain ⟨sameSchema, apart, valid, nothingLost⟩ := clean
    have handed := deltasOf_of_mapM (event.feed.nodup_changedRelations ops) sameSchema built
    -- no operation names the table where no delta of it is built
    have isDelta : deltasOf table deltas =
        denoteTsv parseCell schema (ops.flatMap (DmlOp.deltaRows table)) := by
      rw [handed]
      split
      · rfl
      · next unnamed =>
        have noRows : ops.flatMap (DmlOp.deltaRows table) = [] := by
          refine flatMap_eq_nil_iff.mpr fun op mem => ?_
          have elsewhere : op.table ≠ table := by
            rintro rfl
            exact unnamed (SourceFeed.table_mem_changedRelations delivered op mem)
          exact if_neg ((apart op mem).resolve_left elsewhere).1
        rw [noRows]
        rfl
    rw [weight_storedRows_commit apart valid, nothingLost, isDelta]
    exact sub_zero _

/-! ## The law -/

/-- After every clean run the stored table holds what it held before and the deltas that were
handed to the views. -/
theorem SourceState.stored_eq_accumulated {state : SourceState}
    {events : List SourceEvent} (clean : state.CleanRun display parseCell schema table events)
    (row : Row) :
    weight (storedRows parseCell schema (state.run display parseCell events).2.store table) row =
      weight (storedRows parseCell schema state.store table) row +
        weight (deltasOf table (state.run display parseCell events).1) row := by
  induction events generalizing state with
  | nil => exact (add_zero _).symm
  | cons event events ih =>
    have later := ih clean.2
    unfold run
    rw [later, state.weight_storedRows_handle clean.1 row]
    unfold deltasOf
    rw [filter_append, flatMap_append, weight_append, add_assoc]

end Law

/-! ## Sample sources -/

def displayDecimal : Value → Except String Bytes
  | .int64 value => .ok (decimalText value.toNatClampNeg)
  | _ => .error "not a number"

def accountColumns : List Bytes := [[0x69, 0x64], [0x61, 0x6D, 0x6F, 0x75, 0x6E, 0x74]]

def accountBatch (rows : List (Int64 × Int64 × Int64)) : SourceBatch where
  fields := accountFields ++ [⟨"_weight", .int64, false⟩]
  rows := rows.map fun row => [.ofInt64 row.1, .ofInt64 row.2.1, .ofInt64 row.2.2]
  conforms := by
    intro row mem
    obtain ⟨values, _, rfl⟩ := mem_map.mp mem
    exact .cons ⟨rfl, by simp [Cell.ofInt64]⟩ (.cons ⟨rfl, by simp [Cell.ofInt64]⟩
      (.cons ⟨rfl, by simp [Cell.ofInt64]⟩ .nil))

/-- A feed of the sample table that is written. -/
def accountEvent (feed : SourceFeed) : SourceEvent := ⟨feed, fun _ => accountFields, .ok ()⟩

def accountRoute : RelationRoute := ⟨7, accountTable, accountColumns, 1⟩

/-- A row of weight two and a row of weight one, an update and a delete of theirs by an envelope
that brings its route, and a change of a relation without route. -/
def accountFeeds : List SourceEvent :=
  [accountEvent (.batches accountTable accountColumns [accountBatch [(1, 5, 2), (2, 6, 1)]]),
    accountEvent (.envelope
      [⟨7, .update, some [some [0x31], some [0x35]], some [some [0x31], none], 1⟩,
        ⟨7, .delete, some [some [0x32], some [0x36]], none, 1⟩] [accountRoute]),
    accountEvent (.envelope [⟨8, .insert, none, none, 1⟩] [])]

theorem SourceState.stored_eq_accumulated_sample : weight (storedRows decimalCell accountFields
      (SourceState.run displayDecimal decimalCell ⟨∅, ∅⟩ accountFeeds).2.store accountTable)
        [some (.int64 1), none] = 1 ∧ ∀ row, weight (storedRows decimalCell accountFields
        (SourceState.run displayDecimal decimalCell ⟨∅, ∅⟩ accountFeeds).2.store accountTable) row =
        weight (storedRows decimalCell accountFields ∅ accountTable) row +
          weight (deltasOf accountTable
            (SourceState.run displayDecimal decimalCell ⟨∅, ∅⟩ accountFeeds).1) row :=
  ⟨by decide +kernel, stored_eq_accumulated (by decide +kernel)⟩

/-- Two equal rows are stored once, and the views are handed both. -/
theorem SourceState.equal_rows_stored_once : weight (storedRows decimalCell accountFields
      (SourceState.run displayDecimal decimalCell ⟨∅, ∅⟩ [accountEvent (.batches accountTable
        accountColumns [accountBatch [(1, 5, 1), (1, 5, 1)]])]).2.store accountTable)
        [some (.int64 1), some (.int64 5)] = 1 ∧
      weight (deltasOf accountTable (SourceState.run displayDecimal decimalCell ⟨∅, ∅⟩
        [accountEvent (.batches accountTable accountColumns
          [accountBatch [(1, 5, 1), (1, 5, 1)]])]).1) [some (.int64 1), some (.int64 5)] = 2 := by
  constructor <;> decide +kernel

end RockStream
