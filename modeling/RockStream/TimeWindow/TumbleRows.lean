import RockStream.TimeWindow.Tumble

/-!
Contract: the rows of a tumbling window and the changes emitted for it.

Owns:
- the row key, which is injective on rows of one width, NULLs included;
- the changes of a window: the new positive weight of each row less the emitted one.

Does not own: which rows a window receives.
-/

namespace RockStream

open Lib Loop Lib.Weighted List

variable {vals : Int64Row} {entry : Bytes × Int64Row × Int}

variable {oldEmitted newState : RowMap Int64Row} {changes : List (Int64Row × Int)}
  {row : Int64Row × Int}

/-! ## Row keys -/

def nullPositions (vals : Int64Row) : List Nat :=
  (vals.zipIdx.filter fun entry => entry.1.isNone).map Prod.snd

theorem mem_nullPositions {index : Nat} :
    index ∈ nullPositions vals ↔ vals[index]? = some none := by
  simp [nullPositions, mem_zipIdx_iff_getElem?]

private theorem encodeTumbleRow_eq (vals : Int64Row) :
    encodeTumbleRow vals = rowKey (vals.map fun value => value.getD 0) ++
      (nullPositions vals).flatMap (Bytes.beBytes 8) := by
  unfold encodeTumbleRow nullPositions
  congr 1
  generalize vals.zipIdx = entries
  induction entries with
  | nil => rfl
  | cons entry entries ih =>
    rw [flatMap_cons, ih]
    by_cases null : entry.1.isNone <;> simp [null]

private theorem selfDelimiting_position :
    Bytes.SelfDelimiting (Bytes.beBytes 8) fun position => position < 2 ^ 64 where
  nonempty := fun position hollow => by
    have length := Bytes.beBytes_length 8 position
    rw [hollow] at length
    cases length
  split := fun leftBound rightBound same => by
    have parts := append_inj same (by simp)
    exact ⟨Bytes.beBytes_injective leftBound rightBound parts.1, parts.2⟩

private theorem rowKey_length (vals : List Int64) : (rowKey vals).length = vals.length * 8 := by
  simp [rowKey, length_flatMap, Bytes.ofInt64_length]

theorem encodeTumbleRow_injective {left right : Int64Row} (sameLength : left.length = right.length)
    (bound : left.length ≤ 2 ^ 64) (same : encodeTumbleRow left = encodeTumbleRow right) :
    left = right := by
  rw [encodeTumbleRow_eq, encodeTumbleRow_eq] at same
  have parts := append_inj same (by rw [rowKey_length, rowKey_length]; simp [sameLength])
  have values := rowKey_injective parts.1
  have small : ∀ (vals : Int64Row), vals.length ≤ 2 ^ 64 → ∀ position ∈ nullPositions vals,
      position < 2 ^ 64 := by
    intro vals short position mem
    obtain ⟨inside, _⟩ := List.getElem?_eq_some_iff.mp (mem_nullPositions.mp mem)
    omega
  have positions : nullPositions left = nullPositions right :=
    selfDelimiting_position.flatMap_injective (small left bound)
      (small right (sameLength ▸ bound)) parts.2
  apply ext_getElem? fun index => ?_
  -- Where one row has a NULL so has the other; elsewhere the stored values decide.
  have sameValue := congrArg (·[index]?) values
  have sameNull : left[index]? = some none ↔ right[index]? = some none := by
    rw [← mem_nullPositions, ← mem_nullPositions, positions]
  simp only [getElem?_map] at sameValue
  rcases leftCase : left[index]? with _ | (_ | leftValue) <;>
    rcases rightCase : right[index]? with _ | (_ | rightValue) <;>
    simp_all

theorem extractTumbleRow_eq_ok {cells : List Cell}
    (returned : extractTumbleRow cells = .ok vals) : vals = cells.map Cell.int64Value := by
  refine eq_map_of_mapM_eq_ok ?_ returned
  intro cell value extracted
  unfold Cell.int64Value
  cases found : cell.int64? with
  | none =>
    rw [found] at extracted
    cases extracted
  | some stored =>
    rw [found] at extracted
    exact (Except.ok.inj extracted).symm

theorem distinguishes_encodeTumbleRow {width : Nat} (bound : width ≤ 2 ^ 64) :
    RowMap.Distinguishes encodeTumbleRow fun vals => vals.length = width :=
  fun _ _ leftLength rightLength same =>
    encodeTumbleRow_injective (leftLength.trans rightLength.symm) (leftLength ▸ bound) same

open RowMap

/-! ## The changes of a window -/

def emittedChange (newState : RowMap Int64Row) (entry : Bytes × Int64Row × Int) :
    List (Int64Row × Int) :=
  if weightAt newState entry.1 - entry.2.2 ≠ 0 then
    [(entry.2.1, weightAt newState entry.1 - entry.2.2)]
  else []

/-- What a present row contributes to the changes. -/
def insertedRow (oldEmitted : RowMap Int64Row) (entry : Bytes × Int64Row × Int) :
    List (Int64Row × Int) :=
  if (oldEmitted.lookup entry.1).isNone then [entry.2] else []

theorem tumbleChanges_eq_ok (returned : tumbleChanges oldEmitted newState = .ok changes) :
    changes = oldEmitted.toPairs.flatMap (emittedChange newState) ++
      newState.toPairs.flatMap (insertedRow oldEmitted) := by
  obtain ⟨changed, mapped, ended⟩ := bind_eq_ok.mp returned
  cases ended
  have isChanged : changed = oldEmitted.toPairs.map (emittedChange newState) := by
    refine eq_map_of_mapM_eq_ok ?_ mapped
    intro entry result called
    obtain ⟨diff, subtracted, done⟩ := bind_eq_ok.mp called
    obtain ⟨_, rfl⟩ := subI64_eq_ok.mp subtracted
    exact (Except.ok.inj done).symm
  rw [isChanged, flatMap]
  rfl

private theorem row_emittedChange
    (mem : row ∈ emittedChange newState entry) : row.1 = entry.2.1 := by
  unfold emittedChange at mem
  split at mem
  · rw [mem_singleton.mp mem]
  · cases mem

private theorem row_insertedRow (mem : row ∈ insertedRow oldEmitted entry) : row.1 = entry.2.1 := by
  unfold insertedRow at mem
  split at mem
  · rw [mem_singleton.mp mem]
  · cases mem

private theorem weight_emittedChange (newState : RowMap Int64Row) (key : Bytes)
    (row : Int64Row × Int) :
    weight (emittedChange newState (key, row)) row.1 = weightAt newState key - row.2 := by
  unfold emittedChange
  split
  · simp
  · next same => simp [not_ne_iff.mp same]

theorem weight_tumbleChanges {Domain : Int64Row → Prop}
    (distinguishes : Distinguishes encodeTumbleRow Domain)
    (keyedOld : KeyedBy encodeTumbleRow Domain oldEmitted)
    (keyedNew : KeyedBy encodeTumbleRow Domain newState)
    (returned : tumbleChanges oldEmitted newState = .ok changes)
    (inside : Domain vals) : weight changes vals =
      weightAt newState (encodeTumbleRow vals) - weightAt oldEmitted (encodeTumbleRow vals) := by
  have ofOld : ∀ key row, oldEmitted.lookup key = some row →
      ∀ change ∈ emittedChange newState (key, row), encodeTumbleRow change.1 = key := by
    intro key row found change mem
    rw [row_emittedChange mem]
    exact (keyedOld key row found).1
  have ofNew : ∀ key row, newState.lookup key = some row →
      ∀ change ∈ insertedRow oldEmitted (key, row), encodeTumbleRow change.1 = key := by
    intro key row found change mem
    rw [row_insertedRow mem]
    exact (keyedNew key row found).1
  rw [tumbleChanges_eq_ok returned, weight_append,
    HashMap.weight_flatMap_toPairs _ encodeTumbleRow oldEmitted ofOld,
    HashMap.weight_flatMap_toPairs _ encodeTumbleRow newState ofNew]
  rcases old : oldEmitted.lookup (encodeTumbleRow vals) with _ | oldRow
  · rcases new : newState.lookup (encodeTumbleRow vals) with _ | newRow
    · simp [weightAt, old, new]
    · have isNew := keyedNew.entry distinguishes inside new
      simp [weightAt, insertedRow, old, new, isNew]
  · have isOld := keyedOld.entry distinguishes inside old
    have change := weight_emittedChange newState (encodeTumbleRow vals) oldRow
    rw [isOld] at change
    rcases new : newState.lookup (encodeTumbleRow vals) with _ | newRow
    · simp [weightAt, old, change]
    · simp [weightAt, insertedRow, old, change]

theorem mem_tumbleChanges (returned : tumbleChanges oldEmitted newState = .ok changes)
    (mem : row ∈ changes) : ∃ key stored, row.1 = stored.1 ∧
      (oldEmitted.lookup key = some stored ∨ newState.lookup key = some stored) := by
  rw [tumbleChanges_eq_ok returned] at mem
  rcases mem_append.mp mem with inChanged | inInserted
  · obtain ⟨⟨key, stored⟩, isEntry, inEntry⟩ := mem_flatMap.mp inChanged
    exact ⟨key, stored, row_emittedChange inEntry, .inl (HashMap.mem_toPairs.mp isEntry)⟩
  · obtain ⟨⟨key, stored⟩, isEntry, inEntry⟩ := mem_flatMap.mp inInserted
    exact ⟨key, stored, row_insertedRow inEntry, .inr (HashMap.mem_toPairs.mp isEntry)⟩

end RockStream
