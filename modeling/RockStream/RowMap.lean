import RockStream.Exec
import RockStream.Lib.Bytes
import RockStream.Lib.Emission

/-!
Contract: maps that hold rows under keys, with accumulated weights.

The time-window operators keep the rows of a window or of a partition in a map from an
encoded row to the row and its accumulated weight.

Owns:
- `addRow`, the entry update of the source, and `positiveRows`;
- `weightAt`, the weight stored under a key;
- `KeyedBy`, maps that store every row under its own key, where `Distinguishes` says that
  the encoding tells the rows of a domain apart.

Does not own: any encoding of rows.
-/

namespace RockStream

open Lib HashMap

abbrev RowMap (ρ : Type) := HashMap Bytes (ρ × Int)

namespace RowMap

variable {ρ : Type}

/-- `entry(key).or_insert((vals, 0)).1 += weight`. -/
def addRow (rows : RowMap ρ) (key : Bytes) (vals : ρ) (weight : Int) : Exec (RowMap ρ) := do
  let entry := (rows.lookup key).getD (vals, 0)
  let total ← addI64 entry.2 weight
  pure (rows.insert key (entry.1, total))

def positiveRows (rows : RowMap ρ) : RowMap ρ :=
  rows.filterMap fun row => if 0 < row.2 then some row else none

def weightAt (rows : RowMap ρ) (key : Bytes) : Int :=
  ((rows.lookup key).map Prod.snd).getD 0

/-- The encoding tells the rows of a domain apart. -/
def Distinguishes (encode : ρ → Bytes) (Domain : ρ → Prop) : Prop :=
  ∀ left right, Domain left → Domain right → encode left = encode right → left = right

/-- Every row lies in the domain and is stored under its own key. -/
def KeyedBy (encode : ρ → Bytes) (Domain : ρ → Prop) (rows : RowMap ρ) : Prop :=
  ∀ key row, rows.lookup key = some row → encode row.1 = key ∧ Domain row.1

variable {encode : ρ → Bytes} {Domain : ρ → Prop} {rows next : RowMap ρ}

theorem KeyedBy.empty (encode : ρ → Bytes) (Domain : ρ → Prop) : KeyedBy encode Domain ∅ := by
  intro key row found
  cases found

theorem KeyedBy.entry (distinguishes : Distinguishes encode Domain)
    (keyed : KeyedBy encode Domain rows) {vals : ρ} (inside : Domain vals) {row : ρ × Int}
    (found : rows.lookup (encode vals) = some row) : row.1 = vals := by
  obtain ⟨sameKey, isRow⟩ := keyed _ _ found
  exact distinguishes _ _ isRow inside sameKey

/-! ## Positive rows -/

theorem lookup_positiveRows (rows : RowMap ρ) (key : Bytes) : (positiveRows rows).lookup key =
      (rows.lookup key).bind fun row => if 0 < row.2 then some row else none :=
  lookup_filterMap _ rows key

theorem lookup_of_positiveRows {key : Bytes} {row : ρ × Int}
    (found : (positiveRows rows).lookup key = some row) :
    rows.lookup key = some row ∧ 0 < row.2 := by
  rw [lookup_positiveRows] at found
  obtain ⟨stored, isStored, kept⟩ := Option.bind_eq_some_iff.mp found
  split at kept
  · next positive =>
    cases kept
    exact ⟨isStored, positive⟩
  · cases kept

theorem KeyedBy.positiveRows (keyed : KeyedBy encode Domain rows) :
    KeyedBy encode Domain (positiveRows rows) :=
  fun key row found => keyed key row (lookup_of_positiveRows found).1

theorem weightAt_positiveRows (rows : RowMap ρ) (key : Bytes) :
    weightAt (positiveRows rows) key = max 0 (weightAt rows key) := by
  unfold weightAt
  rw [lookup_positiveRows]
  cases rows.lookup key with
  | none => rfl
  | some row =>
    by_cases positive : 0 < row.2
    · simp [positive, positive.le]
    · simp [positive, not_lt.mp positive]

/-! ## Adding a row -/

theorem addRow_spec (distinguishes : Distinguishes encode Domain)
    (keyed : KeyedBy encode Domain rows) {vals : ρ} (inside : Domain vals) {weight : Int}
    (returned : rows.addRow (encode vals) vals weight = .ok next) : KeyedBy encode Domain next ∧
      ∀ key, weightAt next key = weightAt rows key + if key = encode vals then weight else 0 := by
  obtain ⟨total, added, ended⟩ := Loop.bind_eq_ok.mp returned
  obtain ⟨_, isTotal⟩ := addI64_eq_ok.mp added
  cases ended
  have isRow : ((rows.lookup (encode vals)).getD (vals, 0)).1 = vals := by
    cases found : rows.lookup (encode vals) with
    | none => rfl
    | some row => exact keyed.entry distinguishes inside found
  refine ⟨fun key row found => ?_, fun key => ?_⟩
  · rw [lookup_insert_eq] at found
    split at found
    · next same =>
      cases found
      rw [isRow]
      exact ⟨same.symm, inside⟩
    · exact keyed key row found
  · unfold weightAt
    rw [lookup_insert_eq]
    split
    · next same =>
      subst same
      rw [isTotal]
      cases rows.lookup (encode vals) <;> rfl
    · rw [add_zero]

/-! ## Removing rows of weight zero -/

theorem weightAt_erase_of_zero {key : Bytes} (zero : rows.weightAt key = 0) (query : Bytes) :
    weightAt (rows.erase key) query = rows.weightAt query := by
  rcases eq_or_ne query key with rfl | ne
  · rw [zero]
    unfold weightAt
    rw [lookup_erase_eq, if_pos rfl]
    rfl
  · unfold weightAt
    rw [lookup_erase_eq, if_neg ne]

theorem KeyedBy.erase (keyed : KeyedBy encode Domain rows) (key : Bytes) :
    KeyedBy encode Domain (rows.erase key) := by
  intro query row found
  rw [lookup_erase_eq] at found
  split at found
  · cases found
  · exact keyed query row found

theorem mem_positiveValues (distinguishes : Distinguishes encode Domain)
    (keyed : KeyedBy encode Domain rows) {vals : ρ} :
    vals ∈ (rows.values.filter fun row => 0 < row.2).map Prod.fst ↔
      Domain vals ∧ 0 < rows.weightAt (encode vals) := by
  simp only [List.mem_map, List.mem_filter, mem_values, decide_eq_true_eq]
  constructor
  · rintro ⟨row, ⟨⟨key, found⟩, positive⟩, rfl⟩
    obtain ⟨isKey, inside⟩ := keyed key row found
    refine ⟨inside, ?_⟩
    unfold weightAt
    rw [isKey, found]
    exact positive
  · rintro ⟨inside, positive⟩
    unfold weightAt at positive
    cases found : rows.lookup (encode vals) with
    | none =>
      rw [found] at positive
      exact absurd positive (lt_irrefl 0)
    | some row =>
      rw [found] at positive
      exact ⟨row, ⟨⟨_, found⟩, positive⟩, keyed.entry distinguishes inside found⟩

end RowMap

end RockStream
