import RockStream.Gateway.Dml

/-!
Contract: the write buffer of a connection and its savepoints
(`rockstream-gateway/src/write_buffer.rs`).

A savepoint is a name with the number of operations that were buffered when it was made. A
name that is used again overwrites its entry in place, so that the list of savepoints is no
longer ordered by their age.

Owns:
- `WriteBuffer` with `push`, `drain`, `clear` and the three savepoint calls;
- `PgTransaction`, savepoints as a stack of the operation lists that they restore;
- that the buffer follows the stack while no name in use is used again.

Does not own: the row images that a query reads through the buffer.
-/

namespace RockStream

open Lib List

variable {name : Bytes} {buffer : WriteBuffer} {transaction : PgTransaction}

variable {next : WriteBuffer}

def DmlOp.byteSize : DmlOp → Nat
  | insert table cols valuesTsv rowKey =>
    table.length + (cols.map length).sum + valuesTsv.length + rowKey.length + 64
  | update table oldRowKey oldTsv newRowKey newTsv =>
    table.length + oldRowKey.length + oldTsv.length + newRowKey.length + newTsv.length + 64
  | delete table rowKey returningTsv =>
    table.length + rowKey.length + ((returningTsv.map length).getD 0) + 32

def WRITE_BUFFER_LIMIT_BYTES : Nat := 64 * 1024 * 1024

def MAX_SAVEPOINTS_PER_BUFFER : Nat := 128

/-- `rposition`: the index of the last item that passes. -/
def rposition {α : Type} (test : α → Bool) (items : List α) : Option Nat :=
  (items.reverse.findIdx? test).map fun index => items.length - 1 - index

structure WriteBuffer where
  ops : List DmlOp
  byteCount : Nat
  limitBytes : Nat
  savepoints : List (Bytes × Nat)

namespace WriteBuffer

variable (buffer : WriteBuffer)

def withLimitBytes (limitBytes : Nat) : WriteBuffer := ⟨[], 0, limitBytes, []⟩

def new : WriteBuffer := withLimitBytes WRITE_BUFFER_LIMIT_BYTES

def push (op : DmlOp) : Except GatewayFault WriteBuffer :=
  if buffer.limitBytes < buffer.byteCount + op.byteSize then
    .error (.shardBackpressure buffer.byteCount buffer.limitBytes)
  else
    .ok { buffer with byteCount := buffer.byteCount + op.byteSize, ops := buffer.ops ++ [op] }

def drain : List DmlOp × WriteBuffer :=
  (buffer.ops, { buffer with byteCount := 0, ops := [] })

def clear : WriteBuffer :=
  { buffer with ops := [], byteCount := 0, savepoints := [] }

def clearSavepoints : WriteBuffer := { buffer with savepoints := [] }

def position (name : Bytes) : Option Nat :=
  rposition (fun entry => entry.1 = name) buffer.savepoints

def createSavepoint (name : Bytes) : Except GatewayFault WriteBuffer :=
  match buffer.position name with
  | some index =>
    .ok { buffer with savepoints := buffer.savepoints.set index (name, buffer.ops.length) }
  | none =>
    if buffer.savepoints.length = MAX_SAVEPOINTS_PER_BUFFER then
      .error (.savepointLimitExceeded MAX_SAVEPOINTS_PER_BUFFER)
    else
      .ok { buffer with savepoints := buffer.savepoints ++ [(name, buffer.ops.length)] }

def releaseSavepoint (name : Bytes) : Except GatewayFault WriteBuffer :=
  match buffer.position name with
  | some index => .ok { buffer with savepoints := buffer.savepoints.take index }
  | none => .error (.savepointNotFound name)

def rollbackToSavepoint (name : Bytes) : Except GatewayFault WriteBuffer :=
  match buffer.position name with
  | some index =>
    let opsLen := ((buffer.savepoints[index]?).map Prod.snd).getD 0
    let ops := buffer.ops.take opsLen
    .ok { buffer with
      ops, byteCount := (ops.map DmlOp.byteSize).sum
      savepoints := buffer.savepoints.take (index + 1) }
  | none => .error (.savepointNotFound name)

end WriteBuffer

/-- The calls of an open transaction. -/
inductive BufferCall where
  | push (op : DmlOp)
  | createSavepoint (name : Bytes)
  | releaseSavepoint (name : Bytes)
  | rollbackToSavepoint (name : Bytes)

def WriteBuffer.call (buffer : WriteBuffer) : BufferCall → Except GatewayFault WriteBuffer
  | .push op => buffer.push op
  | .createSavepoint name => buffer.createSavepoint name
  | .releaseSavepoint name => buffer.releaseSavepoint name
  | .rollbackToSavepoint name => buffer.rollbackToSavepoint name

def WriteBuffer.run (limitBytes : Nat) (calls : List BufferCall) :
    Except GatewayFault WriteBuffer :=
  calls.foldlM WriteBuffer.call (withLimitBytes limitBytes)

/-! ## The PostgreSQL model -/

/-- An open transaction: its operations, and the savepoints with the operations they restore, the
latest first. -/
structure PgTransaction where
  ops : List DmlOp
  savepoints : List (Bytes × List DmlOp)

namespace PgTransaction

def begin : PgTransaction := ⟨[], []⟩

def visible (transaction : PgTransaction) (name : Bytes) : List (Bytes × List DmlOp) :=
  transaction.savepoints.dropWhile fun entry => entry.1 ≠ name

def call (transaction : PgTransaction) : BufferCall → Option PgTransaction
  | .push op => some { transaction with ops := transaction.ops ++ [op] }
  | .createSavepoint name =>
    some { transaction with savepoints := (name, transaction.ops) :: transaction.savepoints }
  | .releaseSavepoint name =>
    match transaction.visible name with
    | _ :: older => some { transaction with savepoints := older }
    | [] => none
  | .rollbackToSavepoint name =>
    match transaction.visible name with
    | savepoint :: older => some ⟨savepoint.2, savepoint :: older⟩
    | [] => none

def run (calls : List BufferCall) : Option PgTransaction := calls.foldlM call begin

end PgTransaction

/-! ## The buffer against the stack -/

/-- An entry of the buffer for a savepoint of the stack. -/
def PgTransaction.entry (savepoint : Bytes × List DmlOp) : Bytes × Nat :=
  (savepoint.1, savepoint.2.length)

open PgTransaction (entry)

/-- The buffer holds the operations and, oldest first, the savepoints; every savepoint restores a
beginning of what a later one restores. -/
structure WriteBuffer.Follows (buffer : WriteBuffer) (transaction : PgTransaction) : Prop where
  ops : buffer.ops = transaction.ops
  savepoints : buffer.savepoints = (transaction.savepoints.map entry).reverse
  nested : (transaction.ops :: transaction.savepoints.map Prod.snd).Pairwise
    fun later earlier => earlier <+: later

theorem rposition_eq_none {α : Type} (test : α → Bool) {items : List α}
    (fails : ∀ item ∈ items, test item = false) : rposition test items = none := by
  have absent : items.reverse.findIdx? test = none :=
    findIdx?_eq_none_iff.mpr fun item mem => fails item (mem_reverse.mp mem)
  rw [rposition, absent]
  rfl

theorem rposition_of_last {α : Type} (test : α → Bool) {earlier later : List α} {item : α}
    (passes : test item = true) (fails : ∀ other ∈ later, test other = false) :
    rposition test (earlier ++ item :: later) = some earlier.length := by
  have absent : later.reverse.findIdx? test = none :=
    findIdx?_eq_none_iff.mpr fun other mem => fails other (mem_reverse.mp mem)
  have reversed : (earlier ++ item :: later).reverse =
    later.reverse ++ item :: earlier.reverse := by
    simp
  rw [rposition, reversed, findIdx?_append, absent, findIdx?_cons, passes]
  simp

namespace WriteBuffer.Follows

/-- A savepoint restores what is there. -/
private theorem nested_again {ops : List DmlOp} {earlier : List (List DmlOp)}
    (nested : (ops :: earlier).Pairwise fun later earlier => earlier <+: later) :
    (ops :: ops :: earlier).Pairwise fun later earlier => earlier <+: later := by
  refine pairwise_cons.mpr ⟨fun other mem => ?_, nested⟩
  rcases mem_cons.mp mem with rfl | older
  · exact prefix_refl _
  · exact (pairwise_cons.mp nested).1 other older

variable (follows : buffer.Follows transaction)
include follows

theorem position_eq (name : Bytes) : (buffer.position name = none ∧ transaction.visible name = []) ∨
    ∃ savepoint older later, transaction.visible name = savepoint :: older ∧
      transaction.savepoints = later ++ savepoint :: older ∧
      buffer.savepoints = (older.map entry).reverse ++
        entry savepoint :: (later.map entry).reverse ∧
      buffer.position name = some older.length := by
  have parts : transaction.savepoints.takeWhile (fun entry => entry.1 ≠ name) ++
      transaction.visible name = transaction.savepoints := takeWhile_append_dropWhile
  have others : ∀ entry ∈ transaction.savepoints.takeWhile (fun entry => entry.1 ≠ name),
      entry.1 ≠ name := fun entry mem => by
    simpa using all_eq_true.mp all_takeWhile entry mem
  cases shown : transaction.visible name with
  | nil =>
    refine .inl ⟨rposition_eq_none _ fun entry mem => ?_, rfl⟩
    rw [follows.savepoints, mem_reverse] at mem
    obtain ⟨savepoint, inStack, rfl⟩ := mem_map.mp mem
    rw [shown, append_nil] at parts
    rw [← parts] at inStack
    exact decide_eq_false (others savepoint inStack)
  | cons savepoint older =>
    rw [shown] at parts
    have isNamed : savepoint.1 = name := by
      have first := head?_dropWhile_not (fun entry => decide (entry.1 ≠ name))
        transaction.savepoints
      rw [show transaction.savepoints.dropWhile _ = savepoint :: older from shown] at first
      simpa using first
    have entries : buffer.savepoints = (older.map entry).reverse ++
        entry savepoint :: ((transaction.savepoints.takeWhile
          fun entry => entry.1 ≠ name).map entry).reverse := by
      rw [follows.savepoints]
      conv_lhs => rw [← parts]
      simp
    refine .inr ⟨savepoint, older, _, rfl, parts.symm, entries, ?_⟩
    rw [position, entries, rposition_of_last (fun entry : Bytes × Nat => decide (entry.1 = name))
      (decide_eq_true isNamed) fun entry mem => ?_]
    · simp
    · obtain ⟨other, isLater, rfl⟩ := mem_map.mp (mem_reverse.mp mem)
      exact decide_eq_false (others other isLater)

theorem push {op : DmlOp} (pushed : buffer.push op = .ok next) :
    next.Follows { transaction with ops := transaction.ops ++ [op] } := by
  unfold WriteBuffer.push at pushed
  split at pushed
  · cases pushed
  · cases pushed
    obtain ⟨beginnings, nested⟩ := pairwise_cons.mp follows.nested
    refine ⟨by rw [follows.ops], follows.savepoints, pairwise_cons.mpr ⟨?_, nested⟩⟩
    exact fun earlier mem => (beginnings earlier mem).trans (prefix_append _ _)

theorem createSavepoint (unused : name ∉ buffer.savepoints.map Prod.fst)
    (created : buffer.createSavepoint name = .ok next) : next.Follows
      { transaction with savepoints := (name, transaction.ops) :: transaction.savepoints } := by
  have absent : buffer.position name = none := rposition_eq_none _ fun entry mem =>
    decide_eq_false fun same => unused (same ▸ mem_map_of_mem mem)
  unfold WriteBuffer.createSavepoint at created
  rw [absent] at created
  dsimp only at created
  split at created
  · cases created
  · cases created
    refine ⟨follows.ops, ?_, nested_again follows.nested⟩
    simp [follows.savepoints, entry, follows.ops]

theorem releaseSavepoint (released : buffer.releaseSavepoint name = .ok next) :
    ∃ after, transaction.call (.releaseSavepoint name) = some after ∧ next.Follows after := by
  unfold WriteBuffer.releaseSavepoint at released
  rcases follows.position_eq name with ⟨absent, _⟩ | ⟨savepoint, older, later, shown,
    parts, entries,
    found⟩
  · rw [absent] at released
    cases released
  · rw [found] at released
    cases released
    refine ⟨{ transaction with savepoints := older }, by rw [PgTransaction.call, shown],
      follows.ops, ?_, ?_⟩
    · rw [entries, take_left' (by simp)]
    · have inside : older.Sublist transaction.savepoints := by
        rw [parts]
        exact (sublist_cons_self savepoint older).trans (sublist_append_right later _)
      exact follows.nested.sublist ((inside.map Prod.snd).cons_cons _)

theorem rollbackToSavepoint (rolledBack : buffer.rollbackToSavepoint name = .ok next) :
    ∃ after, transaction.call (.rollbackToSavepoint name) = some after ∧ next.Follows after := by
  unfold WriteBuffer.rollbackToSavepoint at rolledBack
  rcases follows.position_eq name with ⟨absent, _⟩ | ⟨savepoint, older, later, shown,
    parts, entries,
    found⟩
  · rw [absent] at rolledBack
    cases rolledBack
  · rw [found] at rolledBack
    cases rolledBack
    refine ⟨⟨savepoint.2, savepoint :: older⟩, by rw [PgTransaction.call, shown], ?_, ?_, ?_⟩
    · -- the savepoint restores a beginning of the buffered operations, of the recorded length
      have isBeginning : savepoint.2 <+: transaction.ops := by
        refine (pairwise_cons.mp follows.nested).1 savepoint.2 (mem_map_of_mem ?_)
        rw [parts]
        exact mem_append_right _ (mem_cons_self ..)
      rw [entries, getElem?_append_right (by simp), follows.ops]
      simpa [entry] using (prefix_iff_eq_take.mp isBeginning).symm
    · rw [entries, show (older.map entry).reverse ++
          entry savepoint :: (later.map entry).reverse =
            ((older.map entry).reverse ++ [entry savepoint]) ++
              (later.map entry).reverse by simp, take_left' (by simp)]
      simp
    · have inside : (savepoint :: older).Sublist transaction.savepoints := by
        rw [parts]
        exact sublist_append_right later _
      exact nested_again (follows.nested.sublist ((inside.map Prod.snd).cons _))

end WriteBuffer.Follows

/-- The call does not make a savepoint with a name that is in use. -/
def WriteBuffer.fresh (buffer : WriteBuffer) : BufferCall → Bool
  | .createSavepoint name => name ∉ buffer.savepoints.map Prod.fst
  | _ => true

/-- No call makes a savepoint with a name that is in use. -/
def WriteBuffer.freshNames : WriteBuffer → List BufferCall → Bool
  | _, [] => true
  | buffer, call :: rest =>
    buffer.fresh call && match buffer.call call with
    | .ok next => next.freshNames rest
    | .error _ => true

theorem WriteBuffer.follows_begin (limitBytes : Nat) : (withLimitBytes limitBytes).Follows .begin :=
  ⟨rfl, rfl, pairwise_singleton _ _⟩

theorem WriteBuffer.byteCount_call {call : BufferCall}
    (counted : buffer.byteCount = (buffer.ops.map DmlOp.byteSize).sum)
    (called : buffer.call call = .ok next) :
    next.byteCount = (next.ops.map DmlOp.byteSize).sum := by
  cases call with
  | push op =>
    change buffer.push op = .ok next at called
    unfold WriteBuffer.push at called
    split at called
    · cases called
    · cases called
      simp [counted]
  | createSavepoint name =>
    change buffer.createSavepoint name = .ok next at called
    unfold WriteBuffer.createSavepoint at called
    split at called
    · cases called
      exact counted
    · split at called
      · cases called
      · cases called
        exact counted
  | releaseSavepoint name =>
    change buffer.releaseSavepoint name = .ok next at called
    unfold WriteBuffer.releaseSavepoint at called
    split at called
    · cases called
      exact counted
    · cases called
  | rollbackToSavepoint name =>
    change buffer.rollbackToSavepoint name = .ok next at called
    unfold WriteBuffer.rollbackToSavepoint at called
    split at called
    · cases called
      rfl
    · cases called

theorem WriteBuffer.Follows.call (follows : buffer.Follows transaction) {call : BufferCall}
    (fresh : buffer.fresh call = true) (called : buffer.call call = .ok next) :
    ∃ after, transaction.call call = some after ∧ next.Follows after := by
  cases call with
  | push op => exact ⟨_, rfl, follows.push called⟩
  | createSavepoint name => exact ⟨_, rfl, follows.createSavepoint (of_decide_eq_true fresh) called⟩
  | releaseSavepoint name => exact follows.releaseSavepoint called
  | rollbackToSavepoint name => exact follows.rollbackToSavepoint called

theorem WriteBuffer.Follows.run {calls : List BufferCall} {final : WriteBuffer}
    (follows : buffer.Follows transaction) (fresh : buffer.freshNames calls = true)
    (ran : calls.foldlM WriteBuffer.call buffer = .ok final) :
    ∃ after, calls.foldlM PgTransaction.call transaction = some after ∧ final.Follows after := by
  induction calls generalizing buffer transaction with
  | nil =>
    cases ran
    exact ⟨transaction, rfl, follows⟩
  | cons call rest ih =>
    obtain ⟨next, called, ran⟩ := Loop.bind_eq_ok.mp ran
    rw [freshNames, called, Bool.and_eq_true] at fresh
    obtain ⟨after, stepped, nextFollows⟩ := follows.call fresh.1 called
    obtain ⟨last, ended, lastFollows⟩ := ih nextFollows fresh.2 ran
    refine ⟨last, ?_, lastFollows⟩
    rw [foldlM_cons, stepped]
    exact ended

/-- After calls that all return `Ok` the byte count is that of the operations; and where no name in
use is used again, the operations are those of the stack. -/
theorem WriteBuffer.savepoints_refine {limitBytes : Nat} {calls : List BufferCall}
    {final : WriteBuffer} (ran : run limitBytes calls = .ok final) :
    final.byteCount = (final.ops.map DmlOp.byteSize).sum ∧
      ((withLimitBytes limitBytes).freshNames calls = true →
        ∃ transaction, PgTransaction.run calls = some transaction ∧
          final.ops = transaction.ops) := by
  constructor
  · exact Loop.foldlM_invariant
      (fun _ buffer => buffer.byteCount = (buffer.ops.map DmlOp.byteSize).sum)
      (fun _ _ _ _ counted called => byteCount_call counted called) rfl ran
  · intro fresh
    obtain ⟨transaction, stacked, follows⟩ := (follows_begin limitBytes).run fresh ran
    exact ⟨transaction, stacked, follows.ops⟩

/-! ## Names -/

def sampleDelete (rowKey : UInt8) : DmlOp := .delete [0x74] [rowKey] none

/-- Two savepoints, a rollback to the first, and its name again after its release. -/
def sampleCalls : List BufferCall :=
  [.createSavepoint [0x61], .push (sampleDelete 1), .createSavepoint [0x62],
    .push (sampleDelete 2), .rollbackToSavepoint [0x62], .releaseSavepoint [0x61],
    .createSavepoint [0x61], .push (sampleDelete 3), .rollbackToSavepoint [0x61]]

theorem WriteBuffer.savepoints_refine_sample : ∃ final transaction,
    run 1000 sampleCalls = .ok final ∧ final.byteCount = (final.ops.map DmlOp.byteSize).sum ∧
      PgTransaction.run sampleCalls = some transaction ∧ final.ops = transaction.ops := by
  obtain ⟨final, ran, _⟩ := Loop.exists_ok_of_any (run 1000 sampleCalls) (fun _ => true) (by decide)
  obtain ⟨counted, refines⟩ := savepoints_refine ran
  obtain ⟨transaction, stacked, same⟩ := refines (by decide)
  exact ⟨final, transaction, ran, counted, stacked, same⟩

/-- The name `a` is used again while `b` is in use: its entry moves to the new position, and a
rollback to `b` and then to `a` keeps the operation that the first `a` takes back. -/
theorem WriteBuffer.reused_savepoint_name :
    (run 1000 [.createSavepoint [0x61], .push (sampleDelete 1), .createSavepoint [0x62],
        .createSavepoint [0x61], .rollbackToSavepoint [0x62],
        .rollbackToSavepoint [0x61]]).toOption.map WriteBuffer.ops = some [sampleDelete 1] ∧
      (PgTransaction.run [.createSavepoint [0x61], .push (sampleDelete 1), .createSavepoint [0x62],
        .createSavepoint [0x61], .rollbackToSavepoint [0x62],
        .rollbackToSavepoint [0x61]]).map PgTransaction.ops = some [] := by
  decide

end RockStream
