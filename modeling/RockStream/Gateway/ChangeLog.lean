import RockStream.Lib.Bytes
import RockStream.Lib.Ordered

/-!
Contract: the bounded change log of a table (`rockstream-gateway/src/change_log.rs`).

The log keeps the latest complete epochs that fit. What it drops, and an epoch that is too
large to be kept at all, raises the replay floor: the first epoch from which the log is
complete. The floor saturates at the largest epoch.

Owns: `ViewChangeLog` with `discardOldestEpoch` and `pushEpoch`; what the log keeps of
everything that was published; its bounds.

Does not own: the insertion of single rows, which no commit uses, and the fill metric.
-/

namespace RockStream

open Lib List

def CHANGE_LOG_MAX_ENTRIES : Nat := 10000

def CHANGE_LOG_MAX_BUFFER_BYTES : Nat := 16 * 1024 * 1024

def CHANGE_LOG_MAX_EPOCH_BYTES : Nat := 8 * 1024 * 1024

inductive ChangeLogError where
  | epochTooLarge (epoch : UInt64) (rows bytes : Nat)
  | nonMonotoneEpoch (latest requested : UInt64)
  | mixedEpochs
deriving DecidableEq

structure ChangeEntry where
  epoch : UInt64
  rowKey : Bytes
  mzDiff : Int
  encodedRow : Bytes
deriving DecidableEq

/-- The number that orders the entries of a log. -/
def ChangeEntry.time (entry : ChangeEntry) : Nat := entry.epoch.toNat

def ChangeEntry.bytes (entry : ChangeEntry) : Nat := entry.rowKey.length + entry.encodedRow.length

def saturatingSucc (epoch : UInt64) : UInt64 :=
  if epoch.toNat + 1 < 2 ^ 64 then epoch + 1 else epoch

theorem toNat_saturatingSucc (epoch : UInt64) :
    (saturatingSucc epoch).toNat = min (epoch.toNat + 1) (2 ^ 64 - 1) := by
  have bound := epoch.toNat_lt
  unfold saturatingSucc
  split
  · simp
    omega
  · omega

structure ViewChangeLog where
  entries : List ChangeEntry
  maxEntries : Nat
  bytes : Nat
  replayFloor : Option UInt64
  latestEpochSeen : Option UInt64

namespace ViewChangeLog

def new (maxEntries : Nat) : ViewChangeLog := ⟨[], maxEntries, 0, none, none⟩

def withDefaultCapacity : ViewChangeLog := new CHANGE_LOG_MAX_ENTRIES

def discardOldestEpoch (log : ViewChangeLog) : ViewChangeLog :=
  match log.entries with
  | [] => log
  | oldest :: _ =>
    let dropped := log.entries.takeWhile (·.epoch = oldest.epoch)
    { log with
      entries := log.entries.dropWhile (·.epoch = oldest.epoch)
      bytes := log.bytes - (dropped.map ChangeEntry.bytes).sum
      replayFloor := some (max (log.replayFloor.getD 0) (saturatingSucc oldest.epoch)) }

/-- Rows and bytes that do not fit behind the kept entries. -/
def Overfull (log : ViewChangeLog) (rows bytes : Nat) : Prop :=
  log.entries ≠ [] ∧ (log.maxEntries < log.entries.length + rows ∨
    CHANGE_LOG_MAX_BUFFER_BYTES < log.bytes + bytes)

instance (log : ViewChangeLog) (rows bytes : Nat) : Decidable (log.Overfull rows bytes) :=
  inferInstanceAs (Decidable (_ ∧ _))

/-- The loop of `push_epoch`; every round drops an entry. -/
def makeRoom (rows bytes : Nat) : Nat → ViewChangeLog → ViewChangeLog
  | 0, log => log
  | fuel + 1, log =>
    if log.Overfull rows bytes then makeRoom rows bytes fuel log.discardOldestEpoch else log

def pushEpoch (log : ViewChangeLog) (batch : List ChangeEntry) :
    Except ChangeLogError Unit × ViewChangeLog :=
  match batch with
  | [] => (.ok (), log)
  | first :: _ =>
    if batch.any (·.epoch ≠ first.epoch) then (.error .mixedEpochs, log)
    else match log.latestEpochSeen.filter (first.epoch ≤ ·) with
      | some latest => (.error (.nonMonotoneEpoch latest first.epoch), log)
      | none =>
        let bytes := (batch.map ChangeEntry.bytes).sum
        if log.maxEntries < batch.length ∨ CHANGE_LOG_MAX_EPOCH_BYTES < bytes ∨
            CHANGE_LOG_MAX_BUFFER_BYTES < bytes then
          (.error (.epochTooLarge first.epoch batch.length bytes),
            { log with
              entries := [], bytes := 0
              replayFloor := some (saturatingSucc first.epoch)
              latestEpochSeen := some first.epoch })
        else
          let room := log.makeRoom batch.length bytes log.entries.length
          (.ok (), { room with
            entries := room.entries ++ batch
            bytes := room.bytes + bytes
            latestEpochSeen := some first.epoch })

def sinceEpoch (log : ViewChangeLog) (since : UInt64) : List ChangeEntry :=
  log.entries.filter fun entry => since ≤ entry.epoch

def earliestEpoch (log : ViewChangeLog) : Option UInt64 :=
  match log.entries with
  | oldest :: _ => some (max oldest.epoch (log.replayFloor.getD 0))
  | [] => log.replayFloor

/-! ## What a log keeps -/

/-- The entries that a call has published: also those of an epoch that is too large to be kept. -/
def published (batch : List ChangeEntry) : Except ChangeLogError Unit → List ChangeEntry
  | .ok () => batch
  | .error (.epochTooLarge _ _ _) => batch
  | .error _ => []

/-- A log of published entries that is complete from some time on. -/
structure Keeps (log : ViewChangeLog) (published : List ChangeEntry) (lost : Nat) : Prop where
  ordered : Ordered ChangeEntry.time published
  entries : log.entries = published.filter (lost ≤ ·.time)
  floor : (log.replayFloor.getD 0).toNat = min lost (2 ^ 64 - 1)
  latest : ∀ entry ∈ published, ∃ latest, log.latestEpochSeen = some latest ∧
    entry.time ≤ latest.toNat
  reached : lost = 0 ∨ ∃ latest, log.latestEpochSeen = some latest ∧ lost ≤ latest.toNat + 1

structure Bounded (log : ViewChangeLog) : Prop where
  counted : log.bytes = (log.entries.map ChangeEntry.bytes).sum
  rows : log.entries.length ≤ log.maxEntries
  bytes : log.bytes ≤ CHANGE_LOG_MAX_BUFFER_BYTES

variable {log : ViewChangeLog} {entries : List ChangeEntry} {lost : Nat}

theorem Keeps.discardOldestEpoch (keeps : log.Keeps entries lost) :
    ∃ later, log.discardOldestEpoch.Keeps entries later := by
  unfold ViewChangeLog.discardOldestEpoch
  split
  · exact ⟨lost, keeps⟩
  · rename_i oldest rest isOldest
    have isKept : oldest ∈ entries.filter (lost ≤ ·.time) := by
      rw [← keeps.entries, isOldest]
      exact mem_cons_self
    obtain ⟨isPublished, isRecent⟩ := mem_filter.mp isKept
    have recent : lost ≤ oldest.time := of_decide_eq_true isRecent
    refine ⟨oldest.time + 1, keeps.ordered, ?_, ?_, keeps.latest, ?_⟩
    · have sameEpoch : (fun entry : ChangeEntry => decide (entry.epoch = oldest.epoch)) =
          fun entry => decide (entry.time = oldest.time) := by
        simp [ChangeEntry.time, UInt64.toNat_inj]
      have ordered : Ordered ChangeEntry.time (oldest :: rest) := by
        rw [← isOldest, keeps.entries]
        exact keeps.ordered.filter _
      have least : ∀ entry ∈ oldest :: rest, oldest.time ≤ entry.time := by
        intro entry mem
        rcases mem_cons.mp mem with rfl | later
        · exact le_rfl
        · exact ordered.head_le entry later
      rw [sameEpoch, isOldest, ordered.dropWhile_eq_filter least, ← isOldest, keeps.entries,
        filter_filter]
      refine filter_congr fun entry _ => ?_
      rw [← Bool.decide_and, decide_eq_decide]
      omega
    · simp only [Option.getD_some, UInt64.toNat_max, keeps.floor, toNat_saturatingSucc]
      unfold ChangeEntry.time at recent ⊢
      omega
    · obtain ⟨latest, isLatest, atMost⟩ := keeps.latest oldest isPublished
      exact .inr ⟨latest, isLatest, by omega⟩

theorem Bounded.discardOldestEpoch (bounded : log.Bounded) : log.discardOldestEpoch.Bounded := by
  unfold ViewChangeLog.discardOldestEpoch
  split
  · exact bounded
  · rename_i oldest rest isOldest
    have parts := log.entries.takeWhile_append_dropWhile (p := (·.epoch = oldest.epoch))
    have counts := congrArg (fun part => (part.map ChangeEntry.bytes).sum) parts
    have lengths := congrArg length parts
    simp only [map_append, sum_append, length_append] at counts lengths
    have counted := bounded.counted
    have rows := bounded.rows
    have bytes := bounded.bytes
    constructor <;> dsimp only <;> omega

theorem latestEpochSeen_discardOldestEpoch (log : ViewChangeLog) :
    log.discardOldestEpoch.latestEpochSeen = log.latestEpochSeen := by
  unfold ViewChangeLog.discardOldestEpoch
  split <;> rfl

theorem Keeps.makeRoom (rows bytes fuel : Nat) (keeps : log.Keeps entries lost) :
    (∃ later, (log.makeRoom rows bytes fuel).Keeps entries later) ∧
      (log.makeRoom rows bytes fuel).latestEpochSeen = log.latestEpochSeen := by
  induction fuel generalizing log lost with
  | zero => exact ⟨⟨lost, keeps⟩, rfl⟩
  | succ fuel ih =>
    unfold ViewChangeLog.makeRoom
    split
    · obtain ⟨later, keepsLater⟩ := keeps.discardOldestEpoch
      exact log.latestEpochSeen_discardOldestEpoch ▸ ih keepsLater
    · exact ⟨⟨lost, keeps⟩, rfl⟩

theorem length_discardOldestEpoch (nonempty : log.entries ≠ []) :
    log.discardOldestEpoch.entries.length < log.entries.length := by
  unfold ViewChangeLog.discardOldestEpoch
  split
  · rename_i isEmpty
    exact absurd isEmpty nonempty
  · rename_i oldest rest isOldest
    rw [isOldest, dropWhile_cons_of_pos (by simp)]
    exact Nat.lt_succ_of_le (dropWhile_suffix _).length_le

/-- The loop ends with room for the batch, within the bounds. -/
theorem Bounded.makeRoom (rows bytes fuel : Nat) (bounded : log.Bounded)
    (enough : log.entries.length ≤ fuel) :
    (log.makeRoom rows bytes fuel).Bounded ∧ ¬ (log.makeRoom rows bytes fuel).Overfull rows bytes ∧
      (log.makeRoom rows bytes fuel).maxEntries = log.maxEntries := by
  induction fuel generalizing log with
  | zero =>
    have isEmpty := eq_nil_of_length_eq_zero (Nat.le_zero.mp enough)
    exact ⟨bounded, fun overfull => overfull.1 isEmpty, rfl⟩
  | succ fuel ih =>
    unfold ViewChangeLog.makeRoom
    split
    · rename_i overfull
      have shorter := length_discardOldestEpoch overfull.1
      obtain ⟨isBounded, fits, same⟩ := ih bounded.discardOldestEpoch (by omega)
      refine ⟨isBounded, fits, same.trans ?_⟩
      unfold ViewChangeLog.discardOldestEpoch
      split <;> rfl
    · exact ⟨bounded, ‹_›, rfl⟩

theorem time_of_uniform {batch : List ChangeEntry} {epoch : UInt64}
    (uniform : batch.any (·.epoch ≠ epoch) = false) :
    ∀ entry ∈ batch, entry.time = epoch.toNat := by
  intro entry mem
  have same : entry.epoch = epoch := by simpa using any_eq_false.mp uniform entry mem
  rw [ChangeEntry.time, same]

section

variable (keeps : log.Keeps entries lost)
include keeps

theorem Keeps.time_lt {epoch : UInt64} (advances : log.latestEpochSeen.filter (epoch ≤ ·) = none) :
    lost ≤ epoch.toNat ∧ ∀ entry ∈ entries, entry.time < epoch.toNat := by
  have newer : ∀ latest, log.latestEpochSeen = some latest → latest.toNat < epoch.toNat := by
    intro latest isLatest
    rw [isLatest, Option.filter_some] at advances
    have notLe : ¬ epoch ≤ latest := by simpa using advances
    rw [UInt64.le_iff_toNat_le] at notLe
    omega
  constructor
  · rcases keeps.reached with rfl | ⟨latest, isLatest, atMost⟩
    · exact Nat.zero_le _
    · have := newer latest isLatest
      omega
  · intro entry mem
    obtain ⟨latest, isLatest, atMost⟩ := keeps.latest entry mem
    have := newer latest isLatest
    omega

/-- A call keeps the log complete from some time on, with what it has published behind the earlier
entries. -/
theorem Keeps.pushEpoch (batch : List ChangeEntry) :
    ∃ later, (log.pushEpoch batch).2.Keeps
      (entries ++ published batch (log.pushEpoch batch).1) later := by
  unfold ViewChangeLog.pushEpoch
  split
  · exact ⟨lost, by simpa [published] using keeps⟩
  rename_i first rest
  split
  · exact ⟨lost, by simpa [published] using keeps⟩
  rename_i mixed
  split
  · exact ⟨lost, by simpa [published] using keeps⟩
  rename_i advances
  have times := time_of_uniform (Bool.eq_false_iff.mpr mixed)
  generalize first :: rest = batch at times
  obtain ⟨recent, older⟩ := keeps.time_lt advances
  have ordered : Ordered ChangeEntry.time (entries ++ batch) := by
    refine keeps.ordered.append (pairwise_of_forall_mem_list fun entry isEntry other isOther => ?_)
      fun entry isEntry other isOther => ?_
    · rw [times entry isEntry, times other isOther]
    · rw [times other isOther]
      exact (older entry isEntry).le
  have latest : ∀ entry ∈ entries ++ batch, entry.time ≤ first.epoch.toNat := by
    intro entry mem
    rcases mem_append.mp mem with old | new
    · exact (older entry old).le
    · exact (times entry new).le
  dsimp only
  split
  · refine ⟨first.epoch.toNat + 1, ordered, ?_, ?_, ?_, .inr ⟨first.epoch, rfl, le_rfl⟩⟩
    · refine (filter_eq_nil_iff.mpr fun entry mem => ?_).symm
      have := latest entry mem
      simpa using by omega
    · exact toNat_saturatingSucc first.epoch
    · exact fun entry mem => ⟨first.epoch, rfl, latest entry mem⟩
  · obtain ⟨⟨later, room⟩, sameLatest⟩ := keeps.makeRoom batch.length
      (batch.map ChangeEntry.bytes).sum log.entries.length
    have fits := (room.time_lt (by rwa [sameLatest])).1
    refine ⟨later, ordered, ?_, room.floor, ?_, .inr ⟨first.epoch, rfl, by omega⟩⟩
    · rw [room.entries, filter_append]
      refine congrArg _ (filter_eq_self.mpr fun entry mem => decide_eq_true ?_).symm
      rw [times entry mem]
      exact fits
    · exact fun entry mem => ⟨first.epoch, rfl, latest entry mem⟩

theorem Keeps.newer (batch : List ChangeEntry) :
    ∀ entry ∈ entries, ∀ other ∈ published batch (log.pushEpoch batch).1,
      entry.time < other.time := by
  intro entry isEntry other isOther
  unfold ViewChangeLog.pushEpoch at isOther
  split at isOther
  · exact absurd isOther not_mem_nil
  split at isOther
  · exact absurd isOther not_mem_nil
  rename_i mixed
  split at isOther
  · exact absurd isOther not_mem_nil
  rename_i advances
  have times := time_of_uniform (Bool.eq_false_iff.mpr mixed)
  dsimp only at isOther
  split at isOther
  all_goals
    rw [times other isOther]
    exact (keeps.time_lt advances).2 entry isEntry

end

theorem Bounded.pushEpoch (bounded : log.Bounded) (batch : List ChangeEntry) :
    (log.pushEpoch batch).2.Bounded := by
  unfold ViewChangeLog.pushEpoch
  split
  · exact bounded
  split
  · exact bounded
  split
  · exact bounded
  dsimp only
  split
  · exact ⟨rfl, Nat.zero_le _, Nat.zero_le _⟩
  rename_i first rest _ _ _ small
  obtain ⟨room, fits, same⟩ := bounded.makeRoom (first :: rest).length
    ((first :: rest).map ChangeEntry.bytes).sum log.entries.length le_rfl
  have counted := room.counted
  have free : (log.makeRoom (first :: rest).length ((first :: rest).map ChangeEntry.bytes).sum
      log.entries.length).entries = [] ∨ _ := or_iff_not_imp_left.mpr fun nonempty =>
    not_or.mp fun overfull => fits ⟨nonempty, overfull⟩
  constructor
  · simp only [map_append, sum_append]
    omega
  · simp only [length_append]
    rcases free with isEmpty | ⟨enough, -⟩
    · rw [isEmpty, length_nil]
      omega
    · omega
  · rcases free with isEmpty | ⟨-, enough⟩
    · rw [isEmpty] at counted
      simp only [map_nil, sum_nil] at counted
      dsimp only
      omega
    · dsimp only
      omega

end ViewChangeLog

end RockStream
