import RockStream.Int64Rows
import RockStream.Lib.HashMap
import RockStream.Lib.Running

/-!
Contract: rows read as raw integers, and the output builder over them.

Several operators copy a row into a vector of `i64` without its validity bits, work on
such vectors, and end in the same output builder: sum the weights per row key, drop the
rows of weight zero, build a batch.

Owns:
- `extractRowVals`, `rowKey` and `fnvPair`, and the rows without NULL that a vector denotes;
- `consolidate`, the aggregation by key, which keeps every weight and succeeds exactly
  while the running weights fit an `i64`;
- `buildRows`, the output builder.

Does not own: which rows an operator emits.
-/

namespace RockStream

open Lib Lib.Weighted List HashMap

variable {left right vals : List Int64} {width : Nat} {schema : List Field}
  {out : List (List Int64 × Int)}

/-! ## Raw values -/

/-- `Int64Array::value` where the column is an Int64 array, else `0`; NULL is not seen. -/
def Cell.rawInt64 (cell : Cell) : Int64 := cell.int64?.getD 0

def extractRowVals (cells : List Cell) : List Int64 := cells.map Cell.rawInt64

def rowKey (vals : List Int64) : Bytes := vals.flatMap Bytes.ofInt64

theorem rowKey_injective (same : rowKey left = rowKey right) : left = right :=
  Bytes.flatMap_ofInt64_injective same

abbrev RowId := BitVec 128

/-- Two FNV-1a hashes of 64 bits with different offsets, wrapping. -/
def fnvPair (bytes : Bytes) : RowId :=
  let step (hashes : UInt64 × UInt64) (byte : UInt8) : UInt64 × UInt64 :=
    ((hashes.1 ^^^ byte.toUInt64) * 0x100000001B3,
      (hashes.2 ^^^ (byte ^^^ 0x5A).toUInt64) * 0x100000001B3)
  let hashes := bytes.foldl step (0xcbf29ce484222325, 0x6c62272e07bb0142)
  (BitVec.ofNat 128 hashes.1.toNat <<< 64) ||| BitVec.ofNat 128 hashes.2.toNat

def valuesRow (vals : List Int64) : Row := vals.map fun value => some (.int64 value)

theorem valuesRow_injective (same : valuesRow left = valuesRow right) : left = right := by
  refine map_injective_iff.mpr ?_ same
  intro first second equal
  simpa using equal

@[simp] theorem valuesRow_inj : valuesRow left = valuesRow right ↔ left = right :=
  ⟨valuesRow_injective, congrArg valuesRow⟩

def int64Values : Row → Option (List Int64)
  | [] => some []
  | some (.int64 value) :: row => (int64Values row).map (value :: ·)
  | _ :: _ => none

theorem int64Values_valuesRow (vals : List Int64) : int64Values (valuesRow vals) = some vals := by
  unfold valuesRow
  induction vals with
  | nil => rfl
  | cons value vals ih =>
    rw [map_cons, int64Values, ih]
    rfl

theorem eq_valuesRow_of_int64Values {row : Row}
    (found : int64Values row = some vals) : row = valuesRow vals := by
  fun_induction int64Values row generalizing vals with
  | case1 =>
    cases found
    rfl
  | case2 value row ih =>
    obtain ⟨rest, isRest, rfl⟩ := Option.map_eq_some_iff.mp found
    rw [ih isRest]
    rfl
  | case3 => cases found

/-- The weighted values of the rows without NULL. -/
def int64Rows (rows : List (Row × Int)) : List (List Int64 × Int) :=
  rows.filterMap fun row => (int64Values row.1).map fun vals => (vals, row.2)

@[simp] theorem int64Rows_append (left right : List (Row × Int)) :
    int64Rows (left ++ right) = int64Rows left ++ int64Rows right :=
  filterMap_append

def Valid (cells : List Cell) : Prop := ∀ cell ∈ cells, cell.valid = true

instance (cells : List Cell) : Decidable (Valid cells) :=
  inferInstanceAs (Decidable (∀ cell ∈ cells, _))

theorem get_of_valid {cells : List Cell} (typed : Int64Typed cells) (valid : Valid cells) :
    cells.map Cell.get = valuesRow (extractRowVals cells) := by
  unfold valuesRow extractRowVals
  rw [map_map]
  apply map_congr_left
  intro cell mem
  obtain ⟨value, raw, found⟩ := Cell.int64?_of_typed (typed cell mem)
  simp [Cell.get, Cell.rawInt64, valid cell mem, raw, found]

/-- The values of typed rows without NULL are their raw values. -/
theorem int64Rows_denote {rows : List (List Cell × Int)}
    (typed : ∀ row ∈ rows, Int64Typed row.1) (valid : ∀ row ∈ rows, Valid row.1) :
    int64Rows (denote rows) = rows.map fun row => (extractRowVals row.1, row.2) := by
  have values : ∀ row ∈ rows, ((int64Values (row.1.map Cell.get)).map fun vals => (vals, row.2)) =
      some (extractRowVals row.1, row.2) := by
    intro row mem
    rw [get_of_valid (typed row mem) (valid row mem), int64Values_valuesRow]
    rfl
  unfold int64Rows denote
  rw [filterMap_map]
  exact (filterMap_congr values).trans (congrFun filterMap_eq_map' rows)

theorem get_ofInt64 (vals : List Int64) :
    (vals.map Cell.ofInt64).map Cell.get = valuesRow vals := by
  simp [valuesRow, Function.comp_def]

theorem conforms_ofInt64 {fields : List Field} (shape : Int64Shape fields width)
    (length : vals.length = width) : Conforms fields (vals.map Cell.ofInt64) := by
  obtain ⟨fieldsLength, typed⟩ := shape
  rw [← fieldsLength] at length
  clear fieldsLength
  induction fields generalizing vals with
  | nil =>
    rw [eq_nil_of_length_eq_zero length]
    exact .nil
  | cons field fields ih =>
    cases vals with
    | nil => cases length
    | cons value vals =>
      refine .cons ⟨?_, fun invalid => ?_⟩ (ih (by simpa using length)
        fun other mem => typed other (by simp [mem]))
      · exact (typed field (by simp)).symm
      · cases invalid

/-! ## Aggregation by key -/

section Consolidate

variable {α κ : Type}

def KeysDistinguish (key : α → κ) (rows : List (α × Int)) : Prop :=
  ∀ first ∈ rows, ∀ second ∈ rows, key first.1 = key second.1 → first.1 = second.1

theorem KeysDistinguish.of_injective {key : α → κ}
    (injective : ∀ first second, key first = key second → first = second) (rows : List (α × Int)) :
    KeysDistinguish key rows :=
  fun first _ second _ same => injective first.1 second.1 same

theorem KeysDistinguish.of_subset {key : α → κ} {rows all : List (α × Int)}
    (apart : KeysDistinguish key all)
    (subset : ∀ row ∈ rows, ∃ source ∈ all, source.1 = row.1) : KeysDistinguish key rows := by
  intro first firstMember second secondMember same
  obtain ⟨source, isSource, isFirst⟩ := subset first firstMember
  obtain ⟨other, isOther, isSecond⟩ := subset second secondMember
  rw [← isFirst, ← isSecond] at same ⊢
  exact apart source isSource other isOther same

instance [DecidableEq α] [DecidableEq κ] (key : α → κ) (rows : List (α × Int)) :
    Decidable (KeysDistinguish key rows) :=
  inferInstanceAs (Decidable (∀ first ∈ rows, ∀ second ∈ rows, _))

variable [DecidableEq κ]

/-- `agg.entry(key).or_insert((0, vals)).0 += w`. -/
def accumulate (key : α → κ) (agg : HashMap κ (Int × α)) (row : α × Int) :
    Exec (HashMap κ (Int × α)) := do
  let entry := (agg.lookup (key row.1)).getD (0, row.1)
  let total ← addI64 entry.1 row.2
  pure (agg.insert (key row.1) (total, entry.2))

/-- The net rows: weights summed per key, weight zero dropped. -/
def consolidate (key : α → κ) (rows : List (α × Int)) : Exec (List (α × Int)) := do
  let agg ← rows.foldlM (accumulate key) ∅
  pure ((agg.values.filter fun entry => entry.1 ≠ 0).map fun entry => (entry.2, entry.1))

/-- The output builder: an empty batch when no row is left, else the rows under the schema. -/
def buildRows (schema : List Field) (key : α → κ) (cells : α → List Cell) (rows : List (α × Int)) :
    Exec ArrowZSet :=
  if rows.isEmpty then ArrowZSet.empty schema
  else do
    let kept ← consolidate key rows
    if kept.isEmpty then ArrowZSet.empty schema
    else ArrowZSet.tryNew schema (kept.map fun row => (cells row.1, row.2))

variable [DecidableEq α]

/-- The map of an aggregated prefix: one entry per row, with its weight. -/
structure Aggregates (key : α → κ) (agg : HashMap κ (Int × α)) (done : List (α × Int)) : Prop where
  found : ∀ row ∈ done, agg.lookup (key row.1) = some (weight done row.1, row.1)
  only : ∀ candidate entry, agg.lookup candidate = some entry → ∃ row ∈ done, key row.1 = candidate

variable {key : α → κ} {rows done : List (α × Int)} {agg : HashMap κ (Int × α)}

theorem Aggregates.entry (aggregates : Aggregates key agg done) {row : α × Int}
    (apart : ∀ other ∈ done, key other.1 = key row.1 → other.1 = row.1) :
    (agg.lookup (key row.1)).getD (0, row.1) = (weight done row.1, row.1) := by
  cases found : agg.lookup (key row.1) with
  | some entry =>
    obtain ⟨other, mem, sameKey⟩ := aggregates.only _ _ found
    have same := apart other mem sameKey
    have isEntry := aggregates.found other mem
    rw [same, found] at isEntry
    rw [Option.some.inj isEntry]
    rfl
  | none =>
    have absent : ∀ other ∈ done, other.1 ≠ row.1 := by
      intro other mem same
      have isEntry := aggregates.found other mem
      rw [same, found] at isEntry
      cases isEntry
    rw [weight_eq_zero_of_absent absent]
    rfl

theorem accumulate_spec (aggregates : Aggregates key agg done) {row : α × Int}
    (apart : ∀ other ∈ done, key other.1 = key row.1 → other.1 = row.1) :
    Meets (fun fault => fault = .overflow ∧ ¬ InI64 (weight (done ++ [row]) row.1))
      (accumulate key agg row) fun next => Aggregates key next (done ++ [row]) := by
  have total : weight done row.1 + row.2 = weight (done ++ [row]) row.1 := by simp
  unfold accumulate
  rw [aggregates.entry apart]
  dsimp only
  by_cases fits : InI64 (weight (done ++ [row]) row.1)
  · rw [addI64_of_inI64 (total ▸ fits), total]
    refine Meets.ok ⟨fun other mem => ?_, fun candidate entry isEntry => ?_⟩
    · rw [lookup_insert_eq]
      rcases mem_append.mp mem with earlier | last
      · by_cases sameKey : key other.1 = key row.1
        · rw [if_pos sameKey, apart other earlier sameKey]
        · have ne : ¬ row.1 = other.1 := fun same => sameKey (by rw [same])
          rw [if_neg sameKey, aggregates.found other earlier]
          simp [ne]
      · rw [mem_singleton.mp last, if_pos rfl]
    · rw [lookup_insert_eq] at isEntry
      split at isEntry
      · next same => exact ⟨row, by simp, same.symm⟩
      · obtain ⟨other, mem, isKey⟩ := aggregates.only _ _ isEntry
        exact ⟨other, by simp [mem], isKey⟩
  · unfold addI64 checkI64
    rw [total, if_neg fits]
    exact ⟨rfl, fits⟩

theorem Aggregates.weight_values (aggregates : Aggregates key agg rows)
    (apart : KeysDistinguish key rows) (value : α) :
    weight ((agg.values.filter fun entry => entry.1 ≠ 0).map
      fun entry => (entry.2, entry.1)) value =
      weight rows value := by
  have unfiltered : ∀ entries : List (Int × α),
      weight ((entries.filter fun entry => entry.1 ≠ 0).map fun entry => (entry.2, entry.1)) value =
        (entries.map fun entry => if entry.2 = value then entry.1 else 0).sum := by
    intro entries
    induction entries with
    | nil => rfl
    | cons entry entries ih =>
      by_cases zero : entry.1 = 0 <;> simp [zero, ← ih]
  rw [unfiltered, sum_values fun entry : Int × α => if entry.2 = value then entry.1 else 0]
  -- Every entry is the entry of a row; the sum is supported at the key of the value.
  have entryOf : ∀ candidate entry, agg.lookup candidate = some entry →
      ∃ row ∈ rows, key row.1 = candidate ∧ entry.2 = row.1 := by
    intro candidate entry isEntry
    obtain ⟨row, mem, isKey⟩ := aggregates.only _ _ isEntry
    have found := aggregates.found row mem
    rw [isKey, isEntry] at found
    exact ⟨row, mem, isKey, by rw [Option.some.inj found]⟩
  by_cases occurs : ∃ row ∈ rows, row.1 = value
  · obtain ⟨row, mem, rfl⟩ := occurs
    have supported : sumOver (fun _ entry => if entry.2 = row.1 then entry.1 else 0) agg =
        sumOver (fun candidate entry => if candidate = key row.1 then entry.1 else 0) agg := by
      refine sumOver_congr fun candidate entry isEntry => if_congr ?_ rfl rfl
      obtain ⟨other, otherMember, isKey, isValue⟩ := entryOf candidate entry isEntry
      rw [isValue, ← isKey]
      exact ⟨congrArg key, apart other otherMember row mem⟩
    rw [supported, sumOver_single, aggregates.found row mem]
    rfl
  · push Not at occurs
    rw [weight_eq_zero_of_absent occurs]
    refine sumOver_eq_zero fun candidate entry isEntry => ?_
    obtain ⟨other, otherMember, _, isValue⟩ := entryOf candidate entry isEntry
    rw [isValue, if_neg (occurs other otherMember)]

/-- Aggregation keeps every weight, and overflows only when a running weight leaves the range. -/
theorem consolidate_spec (apart : KeysDistinguish key rows) :
    Meets (fun fault => fault = .overflow ∧ ¬ Running InI64 rows) (consolidate key rows)
      fun kept => (∀ value, weight kept value = weight rows value) ∧
        ∀ row ∈ kept, ∃ source ∈ rows, source.1 = row.1 := by
  have loop : Meets (fun fault => fault = .overflow ∧ ¬ Running InI64 rows)
      (rows.foldlM (accumulate key) ∅) fun agg => Aggregates key agg rows := by
    refine Meets.foldlM (fun done agg => Aggregates key agg done) ⟨?_, ?_⟩ ?_
    · intro row mem
      cases mem
    · intro candidate entry isEntry
      cases isEntry
    · intro done row rest agg split aggregates
      have inRows : ∀ other ∈ done, other ∈ rows := by
        intro other mem
        rw [split]
        simp [mem]
      refine (accumulate_spec aggregates fun other mem =>
        apart other (inRows other mem) row (by simp [split])).permit ?_
      rintro fault ⟨isOverflow, outside⟩
      refine ⟨isOverflow, fun running => outside ?_⟩
      rw [split, append_cons] at running
      exact (running.of_append rest).last
  refine loop.bind fun agg aggregates => Meets.pure ⟨aggregates.weight_values apart, ?_⟩
  intro row mem
  obtain ⟨entry, isEntry, rfl⟩ := mem_map.mp mem
  obtain ⟨candidate, found⟩ := mem_values.mp (mem_of_mem_filter isEntry)
  obtain ⟨source, sourceMember, isKey⟩ := aggregates.only _ _ found
  have isSource := aggregates.found source sourceMember
  rw [isKey, found] at isSource
  exact ⟨source, sourceMember, by rw [Option.some.inj isSource]⟩

/-- The output builder keeps every weight, and overflows only when a running weight leaves the
range. -/
theorem buildRows_spec {cells : α → List Cell} (columns : schema ≠ [])
    (apart : KeysDistinguish key rows) (conforms : ∀ row ∈ rows, Conforms schema (cells row.1)) :
    Meets (fun fault => fault = .overflow ∧ ¬ Running InI64 rows) (buildRows schema key cells rows)
      fun output => ∀ row, weight output.valued row =
        weight (denote (rows.map fun emitted => (cells emitted.1, emitted.2))) row := by
  have integral : ∀ (list : List (α × Int)) row,
      weight (denote (list.map fun emitted => (cells emitted.1, emitted.2))) row =
        integrate (fun value => if (cells value).map Cell.get = row then 1 else 0) list := by
    intro list row
    rw [weight_denote, integrate_map]
  unfold buildRows
  split
  · next noRows =>
    rw [ArrowZSet.empty, if_neg columns, isEmpty_iff.mp noRows]
    exact Meets.ok fun row => rfl
  · refine (consolidate_spec apart).bind ?_
    rintro kept ⟨sameWeights, sources⟩
    have kept_weight : ∀ row,
        weight (denote (kept.map fun emitted => (cells emitted.1, emitted.2))) row =
          weight (denote (rows.map fun emitted => (cells emitted.1, emitted.2))) row := by
      intro row
      rw [integral, integral]
      exact integrate_eq_of_weight_eq _ sameWeights
    split
    · next noneKept =>
      rw [ArrowZSet.empty, if_neg columns]
      refine Meets.ok fun row => ?_
      rw [← kept_weight, isEmpty_iff.mp noneKept]
      rfl
    · have keptConform : ∀ row ∈ kept.map fun emitted => (cells emitted.1, emitted.2),
          Conforms schema row.1 := by
        intro row mem
        obtain ⟨emitted, isKept, rfl⟩ := mem_map.mp mem
        obtain ⟨source, sourceMember, same⟩ := sources emitted isKept
        rw [← same]
        exact conforms source sourceMember
      rw [ArrowZSet.tryNew_of_conforms columns keptConform]
      exact Meets.ok kept_weight

end Consolidate

/-! ## Batches of raw rows -/

section Values

variable {κ : Type} [DecidableEq κ]

/-- The output builder over vectors of values; columns beyond the schema are dropped. -/
def buildValues (schema : List Field) (key : List Int64 → κ) (rows : List (List Int64 × Int)) :
    Exec ArrowZSet :=
  buildRows schema key (fun vals => (vals.take schema.length).map Cell.ofInt64) rows

def HaveWidth (width : Nat) (out : List (List Int64 × Int)) : Prop :=
  ∀ row ∈ out, row.1.length = width

/-- The output holds the weighted vectors and nothing else. -/
structure ShowsValues (output : List (Row × Int)) (out : List (List Int64 × Int)) : Prop where
  values : ∀ vals, weight output (valuesRow vals) = weight out vals
  others : ∀ row, (∀ vals, row ≠ valuesRow vals) → weight output row = 0

theorem ShowsValues.map (out : List (List Int64 × Int)) :
    ShowsValues (out.map fun row => (valuesRow row.1, row.2)) out :=
  ⟨weight_map (fun _ _ => valuesRow_injective) out,
    fun _ notValues => weight_map_eq_zero (fun vals => (notValues vals).symm) out⟩

theorem buildValues_spec (shape : Int64Shape schema width) (columns : 0 < width)
    {key : List Int64 → κ} (apart : KeysDistinguish key out) (wide : HaveWidth width out) :
    Meets (fun fault => fault = .overflow ∧ ¬ Running InI64 out) (buildValues schema key out)
      fun output => ShowsValues output.valued out := by
  have cells : ∀ row ∈ out,
      (row.1.take schema.length).map Cell.ofInt64 = row.1.map Cell.ofInt64 := by
    intro row mem
    rw [take_of_length_le (by rw [wide row mem, shape.length])]
  have nonempty : schema ≠ [] := by
    rintro rfl
    rw [← shape.length] at columns
    exact lt_irrefl 0 columns
  have conforms : ∀ row ∈ out, Conforms schema ((row.1.take schema.length).map Cell.ofInt64) := by
    intro row mem
    rw [cells row mem]
    exact conforms_ofInt64 shape (wide row mem)
  have rendered : denote (out.map fun emitted =>
      ((emitted.1.take schema.length).map Cell.ofInt64, emitted.2)) =
        out.map fun emitted => (valuesRow emitted.1, emitted.2) := by
    unfold denote
    rw [map_map]
    refine map_congr_left fun emitted mem => ?_
    show (((emitted.1.take schema.length).map Cell.ofInt64).map Cell.get, emitted.2) = _
    rw [cells emitted mem, get_ofInt64]
  refine (buildRows_spec nonempty apart conforms).weaken fun output weights => ?_
  have shown := ShowsValues.map out
  rw [← rendered] at shown
  exact ⟨fun vals => (weights _).trans (shown.values vals),
    fun row notValues => (weights row).trans (shown.others row notValues)⟩

/-- The output shows the change from one view to another. -/
def Shows (output : List (Row × Int)) (before after : List Int64 → Int) : Prop :=
  (∀ vals, weight output (valuesRow vals) = after vals - before vals) ∧
    ∀ row, (∀ vals, row ≠ valuesRow vals) → weight output row = 0

theorem ShowsValues.shows {output : List (Row × Int)}
    (showsValues : ShowsValues output out) {before after : List Int64 → Int}
    (law : ∀ vals, weight out vals = after vals - before vals) : Shows output before after :=
  ⟨fun vals => (showsValues.values vals).trans (law vals), showsValues.others⟩

theorem Shows.refl (view : List Int64 → Int) : Shows [] view view :=
  ⟨fun _ => (sub_self _).symm, fun _ _ => rfl⟩

/-- Outputs of consecutive changes show the whole change. -/
theorem Shows.append {first second : List (Row × Int)} {before between after : List Int64 → Int}
    (shows : Shows first before between) (next : Shows second between after) :
    Shows (first ++ second) before after := by
  refine ⟨fun vals => ?_, fun row notValues => ?_⟩
  · rw [weight_append, shows.1, next.1]
    ring
  · rw [weight_append, shows.2 row notValues, next.2 row notValues, add_zero]

end Values

/-! ## Epochs of rows without NULL -/

structure Int64Epoch (width : Nat) (delta : ArrowZSet) : Prop where
  shape : Int64Shape delta.fields width
  valid : ∀ row ∈ delta.rows, Valid row.1
  weights : ∀ row ∈ delta.rows, InI64 row.2

instance (width : Nat) (delta : ArrowZSet) : Decidable (Int64Epoch width delta) :=
  decidable_of_iff (_ ∧ _ ∧ _)
    ⟨fun all => ⟨all.1, all.2.1, all.2.2⟩, fun epoch => ⟨epoch.1, epoch.2, epoch.3⟩⟩

section EpochRows

variable {delta : ArrowZSet} {ε : Type}

theorem Int64Epoch.int64Rows_eq (shape : Int64Epoch width delta) :
    int64Rows delta.valued = delta.rows.map fun row => (extractRowVals row.1, row.2) :=
  int64Rows_denote
    (fun row mem => int64Typed_of_conforms shape.shape.typed (delta.conforms row mem))
    shape.valid

theorem Int64Epoch.length_eq (shape : Int64Epoch width delta) {row : List Cell × Int}
    (mem : row ∈ delta.rows) : row.1.length = width :=
  (delta.conforms row mem).length_eq.trans shape.shape.length

/-- The rows of the epochs; an epoch may carry more than its batch. -/
def inputRows (epochs : List (ArrowZSet × ε)) : List (List Int64 × Int) :=
  int64Rows (epochs.flatMap fun epoch => epoch.1.valued)

theorem inputRows_append (done rest : List (ArrowZSet × ε)) :
    inputRows (done ++ rest) = inputRows done ++ inputRows rest := by
  unfold inputRows
  rw [flatMap_append, int64Rows_append]

theorem inputRows_append_single (epochs : List (ArrowZSet × ε)) (epoch : ArrowZSet × ε) :
    inputRows (epochs ++ [epoch]) = inputRows epochs ++ int64Rows epoch.1.valued := by
  simp [inputRows]

theorem haveWidth_inputRows {epochs : List (ArrowZSet × ε)}
    (inputs : ∀ epoch ∈ epochs, Int64Epoch width epoch.1) : HaveWidth width (inputRows epochs) := by
  intro row mem
  unfold inputRows int64Rows at mem
  rw [filterMap_flatMap] at mem
  obtain ⟨epoch, isEpoch, inEpoch⟩ := mem_flatMap.mp mem
  have inRows : row ∈ int64Rows epoch.1.valued := inEpoch
  rw [(inputs epoch isEpoch).int64Rows_eq] at inRows
  obtain ⟨source, isSource, rfl⟩ := mem_map.mp inRows
  rw [extractRowVals, length_map]
  exact (inputs epoch isEpoch).length_eq isSource

/-- The rows of an initial part of the epochs have different keys when all rows have. -/
theorem KeysDistinguish.inputRows_prefix {κ : Type} {key : List Int64 → κ}
    {done rest : List (ArrowZSet × ε)} (apart : KeysDistinguish key (inputRows (done ++ rest))) :
    KeysDistinguish key (inputRows done) := by
  refine apart.of_subset fun row inside => ⟨row, ?_, rfl⟩
  rw [inputRows_append]
  exact mem_append_left _ inside

end EpochRows

end RockStream
