import RockStream.Join.Law

/-!
Contract: what the inner join does to NULL outside the key.

A row is staged as its raw values, so an output row denotes no NULL, and two rows that differ
only in a validity bit are one row of the arrangement.

Owns: `SlotsAgree` and `KeptApart`, and that over runs whose rows meet the condition NULL survives
in the output and in both arrangements.

Does not own: the law over rows without NULL, which needs no condition on slots.
-/

namespace RockStream

open Lib Loop Lib.Weighted List

namespace JoinOp

variable {op : JoinOp} {keyCols : List Nat} {rows : List (List Cell × Int)}

/-- Rows with a key hold the same slots exactly when they show the same values. A NULL slot holds a
value too, which is zero unless the writer of the array left another one: so no row holds NULL where
another one holds that value, and equal rows have equal slots under NULL. -/
def SlotsAgree (keyCols : List Nat) (rows : List (List Cell × Int)) : Prop :=
  ∀ first ∈ rows, ∀ second ∈ rows, none ∉ Row.slots keyCols (first.1.map Cell.get) →
    none ∉ Row.slots keyCols (second.1.map Cell.get) →
    (first.1.map Cell.raw = second.1.map Cell.raw ↔ first.1.map Cell.get = second.1.map Cell.get)

instance (keyCols : List Nat) (rows : List (List Cell × Int)) :
    Decidable (SlotsAgree keyCols rows) :=
  inferInstanceAs (Decidable (∀ first ∈ rows, ∀ second ∈ rows, _ → _ → _))

instance (op : JoinOp) (left right : List (List Cell × Int)) :
    Decidable (op.PartnersValid left right) :=
  inferInstanceAs (Decidable (∀ row ∈ left, ∀ other ∈ right, _ → _))

/-- Rows that show different values have different places in the arrangement. -/
def KeptApart (op : JoinOp) (keyCols : List Nat) (rows : List (List Cell × Int)) : Prop :=
  ∀ first ∈ rows, ∀ second ∈ rows, first.1.map Cell.get ≠ second.1.map Cell.get →
    ∀ entry other, op.stagedEntry keyCols first.1 = .ok (some entry) →
      op.stagedEntry keyCols second.1 = .ok (some other) →
        (entry.joinKey, entry.rowId) ≠ (other.joinKey, other.rowId)

theorem raw_eq_of_stagedEntry {entry : Entry} {first second : List Cell}
    (found : op.stagedEntry keyCols first = .ok (some entry))
    (same : op.stagedEntry keyCols second = .ok (some entry)) :
    first.map Cell.raw = second.map Cell.raw := by
  obtain ⟨_, values, _, _, isRaw, _, isBytes, _⟩ := stagedEntry_eq_some found
  obtain ⟨_, others, _, _, otherRaw, _, otherBytes, _⟩ := stagedEntry_eq_some same
  rw [isRaw, otherRaw, Bytes.flatMap_ofInt64_injective (isBytes.symm.trans otherBytes)]

theorem entriesFaithful_of_slotsAgree (agree : SlotsAgree keyCols rows)
    (accepts : op.Accepts keyCols rows) : op.EntriesFaithful keyCols rows := by
  intro first isFirst second isSecond entry found
  obtain ⟨_, _, _, keyValid, _⟩ := stagedEntry_eq_some found
  constructor
  · intro same
    obtain ⟨_, _, _, otherValid, _⟩ := stagedEntry_eq_some same
    exact (agree second isSecond first isFirst otherValid keyValid).mp
      (raw_eq_of_stagedEntry same found)
  · intro sameGet
    have otherValid : none ∉ Row.slots keyCols (second.1.map Cell.get) := sameGet ▸ keyValid
    have sameRaw := (agree first isFirst second isSecond keyValid otherValid).mpr sameGet.symm
    obtain ⟨slot, otherFound⟩ := accepts second isSecond
    cases slot with
    | none => exact absurd (stagedEntry_eq_none otherFound) otherValid
    | some other =>
      rw [otherFound, entry_unique found otherFound sameRaw ⟨keyValid, by rw [sameGet]⟩]

theorem keptApart_of_faithful (faithful : op.EntriesFaithful keyCols rows)
    (distinct : op.RowIdsDistinct keyCols rows) : op.KeptApart keyCols rows := by
  intro first isFirst second isSecond differ entry other found otherFound same
  have staged : ∀ {row : List Cell × Int} {entry}, row ∈ rows →
      op.stagedEntry keyCols row.1 = .ok (some entry) →
      ∃ staged ∈ op.staged keyCols rows, staged.1 = entry := by
    intro row entry isRow found
    exact ⟨(entry, row.2), mem_filterMap.mpr ⟨row, isRow, by rw [found]⟩, rfl⟩
  obtain ⟨sameKey, sameId⟩ := Prod.mk.inj same
  have sameEntry : other = entry := Entry.ext sameKey.symm sameId.symm
    (distinct _ _ (staged isFirst found) (staged isSecond otherFound) sameKey sameId).symm
  rw [sameEntry] at otherFound
  exact differ ((faithful first isFirst second isSecond entry found).mp otherFound).symm

/-- Over every run in which no row with a NULL outside the key has a partner, and the rows of each
side hold the same slots exactly when they show the same values, the output shows NULL as the joined
inputs do, each arrangement holds the weight of every row with its NULLs, and rows that differ in
NULL are kept apart. -/
theorem nulls_survive_run (op : JoinOp) (epochs : List (ArrowZSet × ArrowZSet))
    (outputs : List ArrowZSet) (final : JoinState)
    (leftWidth : ∀ row ∈ leftInput epochs, row.1.length = op.leftNCols)
    (rightWidth : ∀ row ∈ rightInput epochs, row.1.length = op.rightNCols)
    (valid : op.PartnersValid (leftInput epochs) (rightInput epochs))
    (leftAgree : SlotsAgree op.leftKeyCols (leftInput epochs))
    (rightAgree : SlotsAgree op.rightKeyCols (rightInput epochs))
    (leftDistinct : op.RowIdsDistinct op.leftKeyCols (leftInput epochs))
    (rightDistinct : op.RowIdsDistinct op.rightKeyCols (rightInput epochs))
    (ran : Loop.run op.processEpoch .new epochs = .ok (outputs, final)) :
    (∀ row, weight (outputs.flatMap ArrowZSet.valued) row =
      op.joinWeight (denote (leftInput epochs)) (denote (rightInput epochs)) row) ∧
      op.Arranges op.leftKeyCols final.leftArr (leftInput epochs) ∧
      op.Arranges op.rightKeyCols final.rightArr (rightInput epochs) ∧
      op.KeptApart op.leftKeyCols (leftInput epochs) ∧
      op.KeptApart op.rightKeyCols (rightInput epochs) := by
  have invariant := runInvariant_run leftDistinct rightDistinct ran
  have leftFaithful := entriesFaithful_of_slotsAgree leftAgree invariant.leftAccepts
  have rightFaithful := entriesFaithful_of_slotsAgree rightAgree invariant.rightAccepts
  obtain ⟨shown, left, right⟩ := invariant.joins leftWidth rightWidth valid leftFaithful
    rightFaithful
  exact ⟨shown, left, right, keptApart_of_faithful leftFaithful leftDistinct,
    keptApart_of_faithful rightFaithful rightDistinct⟩

/-- A NULL and a nonzero value under one key that has no partner, beside rows that meet in different
epochs. -/
def nullEpochs : List (ArrowZSet × ArrowZSet) :=
  [(.ofPairs [((some 1, some 0), 1), ((some 2, none), 1), ((some 2, some 3), 1)], .ofPairs []),
    (.ofPairs [((some 2, none), 1)], .ofPairs [((some 1, some 5), 2)])]

theorem nulls_survive_run_sample : ∃ outputs final,
    Loop.run sampleOp.processEpoch .new nullEpochs = .ok (outputs, final) ∧
      outputs.flatMap ArrowZSet.valued =
        [([some (.int64 1), some (.int64 0), some (.int64 1), some (.int64 5)], 2)] ∧
      final.leftArr.entryCount = 3 ∧
      sampleOp.Arranges [0] final.leftArr (leftInput nullEpochs) ∧
      sampleOp.KeptApart [0] (leftInput nullEpochs) := by
  have ends : (Loop.run sampleOp.processEpoch .new nullEpochs).toOption.any
      (fun result => decide (result.1.flatMap ArrowZSet.valued =
        [([some (.int64 1), some (.int64 0), some (.int64 1), some (.int64 5)], 2)] ∧
        result.2.leftArr.entryCount = 3)) = true := by decide +kernel
  obtain ⟨⟨outputs, final⟩, ran, tested⟩ := exists_ok_of_any _ _ ends
  obtain ⟨_, left, _, apart, _⟩ := nulls_survive_run sampleOp nullEpochs outputs final (by decide)
    (by decide) (by decide +kernel) (by decide +kernel) (by decide +kernel) (by decide +kernel)
    (by decide +kernel) ran
  obtain ⟨shown, entries⟩ := of_decide_eq_true tested
  exact ⟨outputs, final, ran, shown, entries, left, apart⟩

/-- A NULL comes out as zero, and its row is merged with the one that holds zero. -/
theorem null_payload_becomes_zero : ∃ output next,
    sampleOp.processEpoch .new (.ofPairs [((some 1, none), 1), ((some 1, some 0), 1)],
        .ofPairs [((some 1, some 5), 1)]) = .ok (output, next) ∧
      output.valued =
        [([some (.int64 1), some (.int64 0), some (.int64 1), some (.int64 5)], 1),
          ([some (.int64 1), some (.int64 0), some (.int64 1), some (.int64 5)], 1)] ∧
      next.leftArr.entryCount = 1 :=
  Loop.exists_ok (by decide +kernel)

end JoinOp

end RockStream
