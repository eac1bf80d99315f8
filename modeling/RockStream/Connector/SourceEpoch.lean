import RockStream.Storage

/-!
Contract: durable source checkpoints (`rockstream-connectors/src/source_epoch.rs`).

A checkpoint is prepared before its input is committed, and is committed in the batch of the input.
Both kinds of records lie in slots that are used again after 128 epochs.

Owns: the slots, both writes, and what recovery finds after any run.

Does not own: the text of a record, of which one injective form is given, and the tests on an
input batch.
-/

namespace RockStream

open Lib Bytes List

inductive SourceCheckpointState where
  | prepared
  | committed
deriving DecidableEq

structure SourceCheckpoint where
  version : Nat
  connectorId : UInt64
  sourceEpoch : Nat
  token : Bytes
  state : SourceCheckpointState
  deliveryId : Option Bytes
  payloadDigest : Option Bytes

def SourceCheckpoint.committed (checkpoint : SourceCheckpoint) : SourceCheckpoint :=
  { checkpoint with state := .committed }

structure SourceCheckpointStore where
  namespaceId : BitVec 128
  connectorId : UInt64

namespace SourceCheckpointStore

variable (store : SourceCheckpointStore) (encode : SourceCheckpoint → Bytes)
  (decode : Bytes → Except String SourceCheckpoint)

/-- `prefix`, which ends in `source_checkpoint/prepared/` or `source_checkpoint/committed/`. -/
def start (state : SourceCheckpointState) : Bytes :=
  let text : Bytes := match state with
    | .prepared => [0x70, 0x72, 0x65, 0x70, 0x61, 0x72, 0x65, 0x64, 0x2f]
    | .committed => [0x63, 0x6f, 0x6d, 0x6d, 0x69, 0x74, 0x74, 0x65, 0x64, 0x2f]
  [0x15] ++ beBytes 16 store.namespaceId.toNat ++ beBytes 16 store.connectorId.toNat ++
    [0x73, 0x6f, 0x75, 0x72, 0x63, 0x65, 0x5f, 0x63, 0x68, 0x65, 0x63, 0x6b, 0x70, 0x6f, 0x69, 0x6e,
      0x74, 0x2f] ++ text

def key (state : SourceCheckpointState) (epoch : Nat) : Bytes :=
  store.start state ++ beBytes 8 (epoch % 128)

def prepare (checkpoint : SourceCheckpoint) : Except String (List StateMutation) :=
  if checkpoint.connectorId ≠ store.connectorId ∨ checkpoint.state ≠ .prepared then
    .error ("RS-4010: source checkpoint prepare has wrong identity or state; " ++
      "next steps: rebuild the checkpoint from this source's current epoch")
  else .ok [.put (store.key .prepared checkpoint.sourceEpoch) (encode checkpoint)]

/-- The extended batch, and the checkpoint it commits. -/
def appendCommitted (batch : List StateMutation) (checkpoint : SourceCheckpoint) :
    Except String (List StateMutation × SourceCheckpoint) :=
  if checkpoint.connectorId ≠ store.connectorId ∨ checkpoint.state ≠ .prepared then
    .error ("RS-4011: source checkpoint commit requires a prepared checkpoint for this source; " ++
      "next steps: prepare the source input before committing M3")
  else
    let committed := checkpoint.committed
    .ok (batch ++ [.put (store.key .committed committed.sourceEpoch) (encode committed)] ++
      [.delete (store.key .prepared committed.sourceEpoch)], committed)

/-- The test of `replay_decision`. -/
def applies (checkpoint : SourceCheckpoint) : Bool :=
  checkpoint.state = .committed ∧ checkpoint.version = 1 ∧
    checkpoint.connectorId = store.connectorId

/-- A second record of the highest epoch is a duplicate, and is skipped like a lower one. -/
def replay (highest : Option SourceCheckpoint) (record : Bytes × Bytes) :
    Except String (Option SourceCheckpoint) := do
  let checkpoint ← decode record.2
  return if store.applies checkpoint ∧ highest.all (·.sourceEpoch < checkpoint.sourceEpoch) then
    some checkpoint else highest

def highestCommitted (db : Store) : Except String (Option SourceCheckpoint) :=
  (db.under (store.start .committed)).foldlM (store.replay decode) none

/-- The durable writes of a source, with the checkpoints it has committed, in order of their epochs.
A crash or a failed call leaves the store as it is. -/
inductive Run (db : Store) : List SourceCheckpoint → Store → Prop
  | fresh : Run db [] db
  | prepare {past current batch} (checkpoint) (run : Run db past current)
      (returned : store.prepare encode checkpoint = .ok batch) :
      Run db past (current.writeBatch batch)
  /-- The input of the batch writes no checkpoints; version 1 is what `prepared` makes. -/
  | commit {past current batch committed} (input checkpoint) (run : Run db past current)
      (separate : ∀ mutation ∈ input, ¬ store.start .committed <+: mutation.key)
      (version : checkpoint.version = 1)
      (newer : ∀ old ∈ past, old.sourceEpoch < checkpoint.sourceEpoch)
      (returned : store.appendCommitted encode input checkpoint = .ok (batch, committed)) :
      Run db (past ++ [committed]) (current.writeBatch batch)

structure Recorded (past : List SourceCheckpoint) (db : Store) : Prop where
  valid : ∀ checkpoint ∈ past, store.applies checkpoint
  known : ∀ key value, store.start .committed <+: key → db.lookup key = some value →
    ∃ checkpoint ∈ past, value = encode checkpoint
  last : ∀ last ∈ past.getLast?,
    (∀ checkpoint ∈ past, checkpoint = last ∨ checkpoint.sourceEpoch < last.sourceEpoch) ∧
      ∃ key, store.start .committed <+: key ∧ db.lookup key = some (encode last)

variable {store encode decode} {db current : Store} {past : List SourceCheckpoint}

theorem not_isPrefix_prepared (epoch : Nat) :
    ¬ store.start .committed <+: store.key .prepared epoch := by
  unfold key start
  simp

theorem Recorded.write (recorded : store.Recorded encode past db) {batch : List StateMutation}
    (separate : ∀ mutation ∈ batch, ¬ store.start .committed <+: mutation.key) :
    store.Recorded encode past (db.writeBatch batch) := by
  have same : ∀ key, store.start .committed <+: key →
      (db.writeBatch batch).lookup key = db.lookup key := by
    intro key inside
    refine db.lookup_writeBatch_of_ne fun mutation mem isKey => separate mutation mem ?_
    exact isKey ▸ inside
  refine ⟨recorded.valid, fun key value inside found => ?_, fun last isLast => ?_⟩
  · exact recorded.known key value inside ((same key inside).symm.trans found)
  · obtain ⟨top, key, inside, found⟩ := recorded.last last isLast
    exact ⟨top, key, inside, (same key inside).trans found⟩

theorem Recorded.commit (recorded : store.Recorded encode past db) {committed : SourceCheckpoint}
    (valid : store.applies committed)
    (newer : ∀ old ∈ past, old.sourceEpoch < committed.sourceEpoch) :
    store.Recorded encode (past ++ [committed]) (db.writeBatch
      [.put (store.key .committed committed.sourceEpoch) (encode committed)]) := by
  refine ⟨?_, fun key value inside found => ?_, fun last isLast => ?_⟩
  · simpa [or_imp, forall_and, valid] using recorded.valid
  · simp only [Store.writeBatch, Store.apply, foldl_cons, foldl_nil] at found
    by_cases own : key = store.key .committed committed.sourceEpoch
    · rw [own, AList.lookup_insert] at found
      exact ⟨committed, by simp, (Option.some.inj found).symm⟩
    · rw [AList.lookup_insert_ne own] at found
      obtain ⟨old, mem, isOld⟩ := recorded.known key value inside found
      exact ⟨old, by simp [mem], isOld⟩
  · rw [getLast?_concat, Option.mem_some_iff] at isLast
    subst isLast
    refine ⟨fun checkpoint mem => ?_, _, prefix_append _ _, AList.lookup_insert _⟩
    exact (mem_append.mp mem).symm.imp mem_singleton.mp (newer checkpoint)

theorem Run.recorded (run : store.Run encode db past current)
    (blank : db.under (store.start .committed) = []) : store.Recorded encode past current := by
  induction run with
  | fresh =>
    refine ⟨nofun, fun key value inside found => ?_, nofun⟩
    exact absurd (Store.mem_under.mpr ⟨found, inside⟩) (by simp [blank])
  | prepare checkpoint run returned ih =>
    unfold SourceCheckpointStore.prepare at returned
    split at returned <;> cases returned
    refine ih.write ?_
    simpa [StateMutation.key] using not_isPrefix_prepared _
  | commit input checkpoint run separate version newer returned ih =>
    unfold appendCommitted at returned
    split at returned
    · cases returned
    next accepted =>
    cases returned
    rw [Store.writeBatch_append, Store.writeBatch_append]
    refine ((ih.write separate).commit ?_ ?_).write ?_
    · simp_all [applies, SourceCheckpoint.committed]
    · exact newer
    · simpa [StateMutation.key] using not_isPrefix_prepared _

theorem foldlM_replay {last : SourceCheckpoint} (lastMem : last ∈ past)
    (valid : ∀ checkpoint ∈ past, store.applies checkpoint)
    (faithful : ∀ checkpoint ∈ past, decode (encode checkpoint) = .ok checkpoint)
    (top : ∀ checkpoint ∈ past, checkpoint = last ∨ checkpoint.sourceEpoch < last.sourceEpoch)
    {records : List (Bytes × Bytes)}
    (known : ∀ record ∈ records, ∃ checkpoint ∈ past, record.2 = encode checkpoint)
    {highest : Option SourceCheckpoint} (seen : ∀ checkpoint ∈ highest, checkpoint ∈ past)
    (found : highest = some last ∨ ∃ record ∈ records, record.2 = encode last) :
    records.foldlM (store.replay decode) highest = .ok (some last) := by
  induction records generalizing highest with
  | nil =>
    obtain rfl : highest = some last := by simpa using found
    rfl
  | cons record records ih =>
    obtain ⟨checkpoint, mem, isRecord⟩ := known record (by simp)
    rw [foldlM_cons, replay, isRecord, faithful _ mem]
    refine ih (fun other inside => known other (by simp [inside])) ?_ ?_
    · grind
    · cases highest <;> grind

/-- In any run in which the committed epochs grow, recovery finds the last committed checkpoint. -/
theorem highestCommitted_run (run : store.Run encode db past current)
    (blank : db.under (store.start .committed) = [])
    (faithful : ∀ checkpoint ∈ past, decode (encode checkpoint) = .ok checkpoint) :
    store.highestCommitted decode current = .ok past.getLast? := by
  have recorded := run.recorded blank
  have known : ∀ record ∈ current.under (store.start .committed),
      ∃ checkpoint ∈ past, record.2 = encode checkpoint := by
    intro record mem
    obtain ⟨found, inside⟩ := Store.mem_under.mp mem
    exact recorded.known _ _ inside found
  cases isLast : past.getLast? with
  | none =>
    obtain rfl := getLast?_eq_none_iff.mp isLast
    have nothing : current.under (store.start .committed) = [] :=
      eq_nil_iff_forall_not_mem.mpr fun record mem => by simpa using known record mem
    rw [highestCommitted, nothing]
    rfl
  | some last =>
    obtain ⟨top, key, inside, found⟩ := recorded.last last isLast
    exact foldlM_replay (mem_of_getLast? isLast) recorded.valid faithful top known nofun
      (.inr ⟨_, Store.mem_under.mpr ⟨found, inside⟩, rfl⟩)

/-! ## A text of records -/

/-- A number in tally marks, ended by a zero byte. -/
def tally (number : Nat) : Bytes := replicate number 1 ++ [0]

def readTally : Bytes → Nat × Bytes
  | [] => (0, [])
  | 0 :: rest => (0, rest)
  | _ :: rest =>
    let (number, rest) := readTally rest
    (number + 1, rest)

/-- An optional string, behind the successor of its length. -/
def optionText : Option Bytes → Bytes
  | none => tally 0
  | some bytes => tally (bytes.length + 1) ++ bytes

def readOption (text : Bytes) : Option Bytes × Bytes :=
  match readTally text with
  | (0, rest) => (none, rest)
  | (length + 1, rest) => (some (rest.take length), rest.drop length)

def recordText (checkpoint : SourceCheckpoint) : Bytes :=
  tally checkpoint.version ++ (tally checkpoint.connectorId.toNat ++
    (tally checkpoint.sourceEpoch ++ (tally (if checkpoint.state = .prepared then 0 else 1) ++
      (optionText checkpoint.deliveryId ++ (optionText checkpoint.payloadDigest ++
        checkpoint.token)))))

def recordOf (text : Bytes) : Except String SourceCheckpoint :=
  let (version, text) := readTally text
  let (connectorId, text) := readTally text
  let (sourceEpoch, text) := readTally text
  let (state, text) := readTally text
  let (deliveryId, text) := readOption text
  let (payloadDigest, token) := readOption text
  .ok ⟨version, .ofNat connectorId, sourceEpoch, token,
    if state = 0 then .prepared else .committed, deliveryId, payloadDigest⟩

@[simp] theorem readTally_tally (number : Nat) (rest : Bytes) :
    readTally (tally number ++ rest) = (number, rest) := by
  unfold tally
  induction number with
  | zero => rfl
  | succ number ih =>
    rw [replicate_succ, cons_append, cons_append, readTally, ih]
    simp

@[simp] theorem readOption_optionText (bytes : Option Bytes) (rest : Bytes) :
    readOption (optionText bytes ++ rest) = (bytes, rest) := by
  cases bytes with
  | none => rfl
  | some bytes => simp [optionText, readOption]

theorem recordOf_recordText (checkpoint : SourceCheckpoint) :
    recordOf (recordText checkpoint) = .ok checkpoint := by
  obtain ⟨version, connectorId, sourceEpoch, token, state, deliveryId, payloadDigest⟩ := checkpoint
  cases state <;> simp [recordOf, recordText]

/-- Epochs 2 and 130 share a slot; epoch 258, prepared after them, does so too. -/
theorem highestCommitted_run_sample :
    let store : SourceCheckpointStore := ⟨0, 7⟩
    let prepared (epoch : Nat) : SourceCheckpoint := ⟨1, 7, epoch, [9], .prepared, some [1], none⟩
    ∃ current, store.Run recordText ∅ [(prepared 2).committed, (prepared 130).committed] current ∧
      current.lookup (store.key .prepared 258) = some (recordText (prepared 258)) ∧
      store.highestCommitted recordOf current = .ok (some (prepared 130).committed) := by
  intro store prepared
  have first : store.Run recordText ∅ [(prepared 2).committed] _ :=
    .commit [] (prepared 2) (.prepare (prepared 2) .fresh rfl) (by simp) rfl nofun rfl
  have second : store.Run recordText ∅ [(prepared 2).committed, (prepared 130).committed] _ :=
    .commit [] (prepared 130) (.prepare (prepared 130) first rfl) (by simp) rfl
      (by simp [prepared, SourceCheckpoint.committed]) rfl
  have run := second.prepare (prepared 258) rfl
  refine ⟨_, run, AList.lookup_insert _, ?_⟩
  exact highestCommitted_run run rfl fun checkpoint _ => recordOf_recordText checkpoint

end SourceCheckpointStore

end RockStream
