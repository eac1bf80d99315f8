import RockStream.Join.Persist
import RockStream.Sql.Lower

/-!
Contract: the records of the join views of one shard (`rockstream-ops/src/compile.rs`,
`rockstream-ops/src/outer_join.rs`).

All views of a shard write into one key space, where the records of a join are told apart
by its operator id alone. The id is computed from the key columns of the join, not from the
view or its relations.

Owns:
- `OuterJoinOp.appendState`, and the keys that a restore of a join reads;
- `JoinKind`, the join that a plan is compiled to;
- when two join views stay out of each other's records.

Does not own: the stages around a join, and what a restored outer join computes.
-/

namespace RockStream

open Lib ShardKeyEncoder Sql OuterJoinOp Arrangement

variable {side : JoinSide} {mutation : StateMutation}

variable {key : Bytes} {join : JoinKind}

/-! ## Records of an outer join -/

/-- The discriminator of the key weights of a side: `OL` and `OR`. -/
def JoinSide.weightBytes : JoinSide → Bytes
  | .left => [0x4F, 0x4C]
  | .right => [0x4F, 0x52]

namespace OuterJoinOp

/-- `rw_prefix` and `lw_prefix`, with the operator id. -/
def keyWeightPrefix (side : JoinSide) (opId : UInt64) : Bytes := opHeader side.weightBytes opId

def nullWeightKey (opId : UInt64) : Bytes := opHeader [0x4F, 0x4E] opId

/-- What `append_state` writes for a dirty key. -/
def keyWeightMutation (side : JoinSide) (opId : UInt64) (weights : HashMap Bytes Int)
    (keyBytes : Bytes) : StateMutation :=
  let storageKey := keyWeightPrefix side opId ++ keyBytes
  match weights.lookup keyBytes with
  | some weight =>
    if weight ≠ 0 then .put storageKey (Bytes.ofInt64 (Int64.ofInt weight))
    else .delete storageKey
  | none => .delete storageKey

/-- What `append_state` writes for the two counters. -/
def nullWeightMutation (opId : UInt64) (state : OuterJoinState) : StateMutation :=
  if 0 < state.rightTotalWeight then
    .put (nullWeightKey opId) (Bytes.ofInt64 (Int64.ofInt state.rightTotalWeight) ++
      Bytes.ofInt64 (Int64.ofInt state.rightNullWeight))
  else .delete (nullWeightKey opId)

/-- `append_state`: the mutations of what is dirty, which becomes clean. -/
def appendState (op : OuterJoinOp) (state : OuterJoinState) : List StateMutation × OuterJoinState :=
  (Arrangement.rowMutations .left op.opId state.leftArr state.dirtyLeft ++
    Arrangement.rowMutations .right op.opId state.rightArr state.dirtyRight ++
    state.dirtyRw.keys.map (keyWeightMutation .right op.opId state.rightKeyWeight) ++
    state.dirtyLw.keys.map (keyWeightMutation .left op.opId state.leftKeyWeight) ++
    (if state.dirtyNullWeight then [nullWeightMutation op.opId state] else []),
    { state with dirtyLeft := ∅, dirtyRight := ∅, dirtyRw := ∅, dirtyLw := ∅,
                 dirtyNullWeight := false })

end OuterJoinOp

/-! ## Join views -/

inductive JoinKind where
  | inner (op : JoinOp)
  | outer (op : OuterJoinOp)

/-- The join of `try_compile_join_shape` for sides of the given widths; the nodes above a join keep
it. -/
def compileJoin (leftNCols rightNCols : Nat) : PlanNode → Option JoinKind
  | .innerJoin _ _ leftKeys rightKeys leftArrId _ _ =>
    some (.inner ⟨leftArrId, leftKeys, rightKeys, leftNCols, rightNCols⟩)
  | .outerJoin kind _ _ leftKeys rightKeys leftArrId _ _ =>
    some (.outer ⟨leftArrId, kind, leftKeys, rightKeys, leftNCols, rightNCols⟩)
  | .filter input _ => compileJoin leftNCols rightNCols input
  | .project input _ => compileJoin leftNCols rightNCols input
  | .aggregate input _ _ => compileJoin leftNCols rightNCols input
  | _ => none

namespace JoinKind

def opId : JoinKind → UInt64
  | inner op => op.opId
  | outer op => op.opId

def Writes : JoinKind → List StateMutation → Prop
  | inner op, mutations => ∃ state, mutations = (op.appendState state).1
  | outer op, mutations => ∃ state, mutations = (op.appendState state).1

/-- What a join writes after an epoch that leaves a left row to persist. -/
def WritesLeft : JoinKind → List StateMutation → Prop
  | inner op, mutations => ∃ before epoch output state, op.processEpoch before epoch =
      .ok (output, state) ∧ state.dirtyLeft.keys ≠ [] ∧ mutations = (op.appendState state).1
  | outer op, mutations => ∃ before epoch output state, op.processEpoch before epoch =
      .ok (output, state) ∧ state.dirtyLeft.keys ≠ [] ∧ mutations = (op.appendState state).1

/-- The keys that a restore reads: those under the scanned prefixes, and the one of the two
counters. -/
def Reads : JoinKind → Bytes → Prop
  | inner op, key => ∃ side, joinArrOpPrefix side op.opId <+: key
  | outer op, key => (∃ side, joinArrOpPrefix side op.opId <+: key) ∨
      (∃ side, OuterJoinOp.keyWeightPrefix side op.opId <+: key) ∨
      op.kind = .nullAwareAnti ∧ key = OuterJoinOp.nullWeightKey op.opId

def Headed (opId : UInt64) (key : Bytes) : Prop :=
  ∃ discriminator : Bytes, discriminator.length = 2 ∧ opHeader discriminator opId <+: key

theorem Headed.unique {firstId secondId : UInt64} (first : Headed firstId key)
    (second : Headed secondId key) : firstId = secondId := by
  obtain ⟨discriminator, length, heads⟩ := first
  obtain ⟨discriminator', length', heads'⟩ := second
  exact (opHeader_inj (length.trans length'.symm) heads heads').2

theorem headed_arr {opId : UInt64} (heads : joinArrOpPrefix side opId <+: key) : Headed opId key :=
  ⟨side.discBytes, by cases side <;> rfl, heads⟩

theorem headed_keyWeight {opId : UInt64}
    (heads : keyWeightPrefix side opId <+: key) : Headed opId key :=
  ⟨side.weightBytes, by cases side <;> rfl, heads⟩

theorem headed_nullWeight (opId : UInt64) : Headed opId (nullWeightKey opId) :=
  ⟨[0x4F, 0x4E], rfl, List.prefix_refl _⟩

theorem Reads.headed (reads : join.Reads key) : Headed join.opId key := by
  cases join with
  | inner op =>
    obtain ⟨side, heads⟩ := reads
    exact headed_arr heads
  | outer op =>
    rcases reads with ⟨side, heads⟩ | ⟨side, heads⟩ | ⟨_, rfl⟩
    · exact headed_arr heads
    · exact headed_keyWeight heads
    · exact headed_nullWeight op.opId

theorem headed_keyWeightMutations {opId : UInt64} {weights : HashMap Bytes Int} {keys : List Bytes}
    (mem : mutation ∈ keys.map (keyWeightMutation side opId weights)) :
    Headed opId mutation.key := by
  obtain ⟨keyBytes, _, rfl⟩ := List.mem_map.mp mem
  have isKey : (keyWeightMutation side opId weights keyBytes).key =
      keyWeightPrefix side opId ++ keyBytes := by
    unfold keyWeightMutation
    split
    · split <;> rfl
    · rfl
  rw [isKey]
  exact headed_keyWeight (List.prefix_append _ _)

theorem Writes.headed {mutations : List StateMutation} (writes : join.Writes mutations)
    (mem : mutation ∈ mutations) : Headed join.opId mutation.key := by
  cases join with
  | inner op =>
    obtain ⟨state, rfl⟩ := writes
    rcases List.mem_append.mp mem with left | right
    · exact headed_arr (isPrefix_of_mem_rowMutations left)
    · exact headed_arr (isPrefix_of_mem_rowMutations right)
  | outer op =>
    obtain ⟨state, rfl⟩ := writes
    simp only [appendState, List.mem_append] at mem
    rcases mem with (((left | right) | rightWeight) | leftWeight) | counters
    · exact headed_arr (isPrefix_of_mem_rowMutations left)
    · exact headed_arr (isPrefix_of_mem_rowMutations right)
    · exact headed_keyWeightMutations rightWeight
    · exact headed_keyWeightMutations leftWeight
    · split at counters
      · have isKey : mutation.key = nullWeightKey op.opId := by
          rw [List.mem_singleton.mp counters, nullWeightMutation]
          split <;> rfl
        rw [isKey]
        exact headed_nullWeight op.opId
      · cases counters

theorem exists_write (join : JoinKind) : ∃ mutation, join.Writes [mutation] ∧
    joinArrOpPrefix .left join.opId <+: mutation.key := by
  have heads : ∀ opId, joinArrOpPrefix .left opId <+:
      (rowMutation .left opId ∅ ([], 0)).key := fun opId => by
    exact joinArrOpPrefix_isPrefix .left opId [] 0
  cases join with
  | inner op =>
    exact ⟨_, ⟨{ JoinState.new with dirtyLeft := AList.insert ([], 0) () ∅ }, rfl⟩, heads op.opId⟩
  | outer op =>
    exact ⟨_, ⟨{ OuterJoinState.new with dirtyLeft := AList.insert ([], 0) () ∅ }, rfl⟩,
      heads op.opId⟩

theorem WritesLeft.exists_headed {mutations : List StateMutation}
    (writes : join.WritesLeft mutations) :
    ∃ mutation ∈ mutations, joinArrOpPrefix .left join.opId <+: mutation.key := by
  have headed : ∀ opId arr (dirty : HashSet (Bytes × BitVec 128)), dirty.keys ≠ [] →
      ∃ mutation ∈ rowMutations .left opId arr dirty,
        joinArrOpPrefix .left opId <+: mutation.key := by
    intro opId arr dirty some
    obtain ⟨row, mem⟩ := List.exists_mem_of_ne_nil _ some
    have written : rowMutation .left opId arr row ∈ rowMutations .left opId arr dirty :=
      List.mem_map_of_mem mem
    exact ⟨_, written, isPrefix_of_mem_rowMutations written⟩
  cases join with
  | inner op =>
    obtain ⟨_, _, _, state, _, some, rfl⟩ := writes
    obtain ⟨mutation, mem, heads⟩ := headed op.opId state.leftArr state.dirtyLeft some
    exact ⟨mutation, List.mem_append_left _ mem, heads⟩
  | outer op =>
    obtain ⟨_, _, _, state, _, some, rfl⟩ := writes
    obtain ⟨mutation, mem, heads⟩ := headed op.opId state.leftArr state.dirtyLeft some
    exact ⟨mutation, by simp [appendState, mem], heads⟩

theorem reads_leftArr (heads : joinArrOpPrefix .left join.opId <+: key) : join.Reads key := by
  cases join with
  | inner op => exact ⟨.left, heads⟩
  | outer op => exact .inl ⟨.left, heads⟩

/-- Two joins stay out of each other's records: no key is written by both, and what one writes
changes nothing that a restore of the other reads. -/
def Apart (first second : JoinKind) : Prop :=
  ∀ mutations, first.Writes mutations →
    (∀ others, second.Writes others → ∀ mutation ∈ mutations, ∀ other ∈ others,
      mutation.key ≠ other.key) ∧
    (∀ mutation ∈ mutations, ¬ second.Reads mutation.key) ∧
    ∀ (store : Store) key, second.Reads key →
      (store.writeBatch mutations).lookup key = store.lookup key

theorem apart_iff (first second : JoinKind) : first.Apart second ↔ first.opId ≠ second.opId := by
  constructor
  · intro apart sameId
    obtain ⟨mutation, writes, heads⟩ := first.exists_write
    rw [sameId] at heads
    exact (apart _ writes).2.1 mutation (List.mem_singleton.mpr rfl) (reads_leftArr heads)
  · intro ne mutations writes
    have unread : ∀ mutation ∈ mutations, ¬ second.Reads mutation.key := fun mutation mem reads =>
      ne ((writes.headed mem).unique reads.headed)
    refine ⟨?_, unread, ?_⟩
    · intro others writesOthers mutation mem other inOthers sameKey
      have otherHeaded := writesOthers.headed inOthers
      rw [← sameKey] at otherHeaded
      exact ne ((writes.headed mem).unique otherHeaded)
    · intro store key reads
      refine store.lookup_writeBatch_of_ne fun mutation mem isKey => ?_
      exact unread mutation mem (isKey ▸ reads)

end JoinKind

theorem compileJoin_joinNode_opId {leftNCols rightNCols : Nat} {target : JoinTarget}
    {left right : PlanNode} {leftKeys rightKeys : List Nat}
    (compiled : compileJoin leftNCols rightNCols (joinNode target left right leftKeys rightKeys) =
      some join) :
    join.opId = leftArrId leftKeys rightKeys := by
  cases target <;> cases compiled <;> rfl

/-- Two join views, of any kinds and over any relations, stay out of each other's records exactly
when their key columns give different operator ids. With one id, what the first persists after an
epoch with a left row is among what a restore of the second reads. -/
theorem join_views_apart_iff {leftNCols rightNCols leftNCols' rightNCols' : Nat}
    {target target' : JoinTarget} {left right left' right' : PlanNode}
    {leftKeys rightKeys leftKeys' rightKeys' : List Nat} {first second : JoinKind}
    (compiled : compileJoin leftNCols rightNCols (joinNode target left right leftKeys rightKeys) =
      some first) (compiled' : compileJoin leftNCols' rightNCols'
      (joinNode target' left' right' leftKeys' rightKeys') = some second) :
    (first.Apart second ↔ leftArrId leftKeys rightKeys ≠ leftArrId leftKeys' rightKeys') ∧
    (leftArrId leftKeys rightKeys = leftArrId leftKeys' rightKeys' → ∀ mutations,
      first.WritesLeft mutations → ∃ mutation ∈ mutations, second.Reads mutation.key) := by
  rw [first.apart_iff, ← compileJoin_joinNode_opId compiled, ← compileJoin_joinNode_opId compiled']
  refine ⟨.rfl, fun sameId mutations writes => ?_⟩
  obtain ⟨mutation, mem, heads⟩ := writes.exists_headed
  exact ⟨mutation, mem, JoinKind.reads_leftArr (sameId ▸ heads)⟩

/-- The views `a JOIN b` and `c LEFT JOIN d` on different columns. -/
theorem join_views_apart_iff_sample : ∃ first second,
    compileJoin 2 2 (joinNode .inner (.source "a") (.source "b") [0] [0]) = some first ∧
    compileJoin 2 2 (joinNode (.outer .left) (.source "c") (.source "d") [1] [0]) = some second ∧
      first.Apart second := by
  have compiled : compileJoin 2 2 (joinNode .inner (.source "a") (.source "b") [0] [0]) =
      some (.inner ⟨leftArrId [0] [0], [0], [0], 2, 2⟩) := rfl
  have compiled' : compileJoin 2 2 (joinNode (.outer .left) (.source "c") (.source "d") [1] [0]) =
      some (.outer ⟨leftArrId [1] [0], .left, [1], [0], 2, 2⟩) := rfl
  exact ⟨_, _, compiled, compiled', (join_views_apart_iff compiled compiled').1.mpr (by decide)⟩

/-- The views `a JOIN b` and `c JOIN d`, both on their first columns, are compiled to one operator
id. A row of `a` that the first view persists is loaded by a restore of the second, whose next row
of `d` joins it, although `c` is empty. -/
theorem row_loaded_by_other_view : ∃ first second,
    compileJoin 2 2 (joinNode .inner (.source "a") (.source "b") [0] [0]) = some (.inner first) ∧
    compileJoin 2 2 (joinNode .inner (.source "c") (.source "d") [0] [0]) = some (.inner second) ∧
    ∃ outputs state stored, Loop.run first.handle (.new, ∅)
        [.epoch (JoinOp.sampleBatch [((some 1, 10), 1)], JoinOp.sampleBatch []), .persist] =
          .ok (outputs, (state, stored)) ∧ second.emittedWeights .new
        (JoinOp.sampleBatch [], JoinOp.sampleBatch [((some 1, 20), 1)]) = some [] ∧
      second.emittedWeights (JoinOp.readBack stored second.opId)
        (JoinOp.sampleBatch [], JoinOp.sampleBatch [((some 1, 20), 1)]) = some [1] := by
  refine ⟨_, _, rfl, rfl, ?_⟩
  obtain ⟨⟨outputs, state, stored⟩, ran, tested⟩ := Loop.exists_ok_of_any
    (Loop.run (JoinOp.handle ⟨leftArrId [0] [0], [0], [0], 2, 2⟩) (.new, ∅)
      [.epoch (JoinOp.sampleBatch [((some 1, 10), 1)], JoinOp.sampleBatch []), .persist])
    (fun result => decide (
      JoinOp.emittedWeights ⟨leftArrId [0] [0], [0], [0], 2, 2⟩ .new
        (JoinOp.sampleBatch [], JoinOp.sampleBatch [((some 1, 20), 1)]) = some [] ∧
      JoinOp.emittedWeights ⟨leftArrId [0] [0], [0], [0], 2, 2⟩
        (JoinOp.readBack result.2.2 (leftArrId [0] [0]))
        (JoinOp.sampleBatch [], JoinOp.sampleBatch [((some 1, 20), 1)]) = some [1]))
    (by decide +kernel)
  exact ⟨outputs, state, stored, ran, of_decide_eq_true tested⟩

end RockStream
