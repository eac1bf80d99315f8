import RockStream.Exec
import RockStream.Lib.Bytes
import RockStream.Lib.HashMap
import RockStream.Lib.Weighted

/-!
Contract: epoch compaction of signed rows (`EpochCompactor` of
`rockstream-runtime/src/epoch_compaction.rs`).

Rows with one key are merged into the entry that was seen first: the weights are added, the
values are those of the last row. Entries of weight zero are dropped.

Owns: `KeyExtractionStrategy`, `EpochCompactor`, what an epoch drains to (one row for each key, with
the last values and the total weight), and when that keeps the weight of every row: exactly where
the rows that others replace under their key cancel.

Does not own: window durations, metrics, and extractors other than the built-in ones.
-/

namespace RockStream

open Lib Loop Lib.Weighted List

variable {row : RuntimeRow} {strategy : KeyExtractionStrategy} {rows : List RuntimeRow}

/-- `RuntimeRow`: `values_tsv` and the weight. -/
abbrev RuntimeRow := Bytes × Int

inductive KeyExtractionStrategy where
  | valuesTsv
  | columnIndex (column : Nat)
  | columnIndices (columns : List Nat)

open KeyExtractionStrategy

def KeyExtractionStrategy.extractKey (row : RuntimeRow) : KeyExtractionStrategy → Bytes
  | .valuesTsv => row.1
  | .columnIndex column => ((row.1.splitOn 0x09)[column]?).getD []
  | .columnIndices columns => [0x09].intercalate
      (columns.map fun column => ((row.1.splitOn 0x09)[column]?).getD [])

/-- The entries of an epoch under their keys, in the order of their first rows. -/
abbrev InFlightRows := List (Bytes × RuntimeRow)

def pushRow (key : Bytes) (row : RuntimeRow) : InFlightRows → Exec InFlightRows
  | [] => .ok [(key, row)]
  | entry :: rest =>
    if entry.1 = key then do
      let weight ← addI64 entry.2.2 row.2
      pure ((key, (row.1, weight)) :: rest)
    else do
      let rest ← pushRow key row rest
      pure (entry :: rest)

/-- `drain_epoch` of the entries. -/
def drainRows (entries : InFlightRows) : List RuntimeRow :=
  (entries.map Prod.snd).filter fun row => row.2 ≠ 0

structure EpochCompactor where
  strategy : KeyExtractionStrategy
  activeEpochs : HashMap Nat InFlightRows

/-- `push_row_at` of an epoch, which is opened by its first row. -/
def EpochCompactor.pushRowAt (compactor : EpochCompactor) (epoch : Nat) (row : RuntimeRow) :
    Exec EpochCompactor := do
  let entries ← pushRow (compactor.strategy.extractKey row) row
    ((compactor.activeEpochs.lookup epoch).getD [])
  pure { compactor with activeEpochs := compactor.activeEpochs.insert epoch entries }

def EpochCompactor.drainEpoch (compactor : EpochCompactor) (epoch : Nat) :
    Option (List RuntimeRow) × EpochCompactor :=
  ((compactor.activeEpochs.lookup epoch).map drainRows,
    { compactor with activeEpochs := compactor.activeEpochs.erase epoch })

/-! ## Weights of compacted rows -/

def KeyExtractionStrategy.lastUnder (strategy : KeyExtractionStrategy) (rows : List RuntimeRow)
    (key : Bytes) : Option Bytes :=
  ((rows.filter fun row => strategy.extractKey row = key).getLast?).map Prod.fst

/-- The indicator of a key. -/
def KeyExtractionStrategy.under (strategy : KeyExtractionStrategy) (key value : Bytes) : Int :=
  if strategy.extractKey (value, 0) = key then 1 else 0

/-- The total weight of the rows with a key. -/
def KeyExtractionStrategy.totalUnder (strategy : KeyExtractionStrategy) (rows : List RuntimeRow)
    (key : Bytes) : Int :=
  integrate (strategy.under key) rows

/-- The entries after some rows: one entry for each key, with the values of the last row and the
total weight. -/
structure InFlightRows.Compacts (strategy : KeyExtractionStrategy) (rows : List RuntimeRow)
    (entries : InFlightRows) : Prop where
  keys : (entries.map Prod.fst).Nodup
  last : ∀ entry ∈ entries, strategy.lastUnder rows entry.1 = some entry.2.1
  totals : ∀ key, strategy.totalUnder (entries.map Prod.snd) key = strategy.totalUnder rows key

theorem pushRow_eq_ok {key : Bytes} {entries next : InFlightRows}
    (pushed : pushRow key row entries = .ok next) :
    (key ∉ entries.map Prod.fst ∧ next = entries ++ [(key, row)]) ∨
      ∃ before old after, entries = before ++ (key, old) :: after ∧
        next = before ++ (key, (row.1, old.2 + row.2)) :: after := by
  induction entries generalizing next with
  | nil => exact .inl ⟨not_mem_nil, (Except.ok.inj pushed).symm⟩
  | cons entry rest ih =>
    unfold pushRow at pushed
    split at pushed
    · next same =>
      obtain ⟨sum, added, ended⟩ := bind_eq_ok.mp pushed
      obtain ⟨_, rfl⟩ := addI64_eq_ok.mp added
      refine .inr ⟨[], entry.2, rest, ?_, (Except.ok.inj ended).symm⟩
      rw [← same]
      rfl
    · next ne =>
      obtain ⟨tail, pushedTail, ended⟩ := bind_eq_ok.mp pushed
      obtain rfl := Except.ok.inj ended
      rcases ih pushedTail with ⟨fresh, rfl⟩ | ⟨before, old, after, rfl, rfl⟩
      · exact .inl ⟨by simp [Ne.symm ne, fresh], rfl⟩
      · exact .inr ⟨entry :: before, old, after, rfl, rfl⟩

theorem KeyExtractionStrategy.extractKey_values (strategy : KeyExtractionStrategy)
    (row : RuntimeRow) : strategy.extractKey (row.1, 0) = strategy.extractKey row := by
  cases strategy <;> rfl

theorem KeyExtractionStrategy.lastUnder_concat (strategy : KeyExtractionStrategy)
    (rows : List RuntimeRow) (row : RuntimeRow) (key : Bytes) :
    strategy.lastUnder (rows ++ [row]) key =
      if strategy.extractKey row = key then some row.1 else strategy.lastUnder rows key := by
  unfold lastUnder
  by_cases same : strategy.extractKey row = key <;> simp [same]

theorem KeyExtractionStrategy.extractKey_of_lastUnder {key value : Bytes}
    (last : strategy.lastUnder rows key = some value) : strategy.extractKey (value, 0) = key := by
  obtain ⟨row, isLast, rfl⟩ := Option.map_eq_some_iff.mp last
  exact of_decide_eq_true (mem_filter.mp (mem_of_getLast? isLast)).2

namespace InFlightRows.Compacts

variable {entries next : InFlightRows}

theorem nil : Compacts strategy [] [] := ⟨nodup_nil, by simp, fun _ => rfl⟩

theorem pushRow (compacts : Compacts strategy rows entries)
    (pushed : RockStream.pushRow (strategy.extractKey row) row entries = .ok next) :
    Compacts strategy (rows ++ [row]) next := by
  have other : ∀ entry ∈ entries, entry.1 ≠ strategy.extractKey row →
      strategy.lastUnder (rows ++ [row]) entry.1 = some entry.2.1 := by
    intro entry mem ne
    rw [strategy.lastUnder_concat, if_neg (Ne.symm ne)]
    exact compacts.last entry mem
  have own : strategy.lastUnder (rows ++ [row]) (strategy.extractKey row) = some row.1 := by
    rw [strategy.lastUnder_concat, if_pos rfl]
  rcases pushRow_eq_ok pushed with ⟨fresh, rfl⟩ | ⟨before, old, after, rfl, rfl⟩
  · refine ⟨?_, ?_, fun key => ?_⟩
    · rw [map_append]
      exact List.Nodup.append compacts.keys (nodup_singleton _) (by simpa using fresh)
    · intro entry mem
      rcases mem_append.mp mem with earlier | isNew
      · exact other entry earlier fun same => fresh (same ▸ mem_map_of_mem earlier)
      · rw [mem_singleton.mp isNew]
        exact own
    · have totals := compacts.totals key
      unfold totalUnder at totals ⊢
      simp [totals]
  · have keys := compacts.keys
    have oldKey := extractKey_of_lastUnder
      (compacts.last (strategy.extractKey row, old) (by simp))
    refine ⟨by simpa using keys, ?_, fun key => ?_⟩
    · simp only [map_append, map_cons, nodup_append, nodup_cons] at keys
      intro entry mem
      rcases mem_append.mp mem with earlier | later
      · exact other entry (by simp [earlier])
          (keys.2.2 _ (mem_map_of_mem earlier) _ mem_cons_self)
      · rcases mem_cons.mp later with rfl | later
        · exact own
        · exact other entry (by simp [later])
            fun same => keys.2.1.1 (same ▸ mem_map_of_mem later)
    · have totals := compacts.totals key
      have sameTest : strategy.under key old.1 = strategy.under key row.1 := by
        unfold under
        rw [oldKey, strategy.extractKey_values]
      simp only [totalUnder, map_append, map_cons, integrate_append, integrate_cons, sameTest,
        integrate_nil] at totals ⊢
      linarith

/-- The entries keep every weight exactly where each row of non-zero weight is the last one under
its key. -/
theorem weights_iff (compacts : Compacts strategy rows entries) :
    (∀ value, weight (drainRows entries) value = weight rows value) ↔
      ∀ value, weight rows value ≠ 0 →
        strategy.lastUnder rows (strategy.extractKey (value, 0)) = some value := by
  have present : ∀ value, weight (entries.map Prod.snd) value ≠ 0 →
      strategy.lastUnder rows (strategy.extractKey (value, 0)) = some value := by
    intro value counted
    obtain ⟨row, mem, rfl⟩ := exists_of_weight_ne_zero counted
    obtain ⟨entry, isEntry, rfl⟩ := mem_map.mp mem
    have last := compacts.last entry isEntry
    rw [extractKey_of_lastUnder last]
    exact last
  unfold drainRows
  simp only [weight_filter_ne_zero]
  constructor
  · intro same value counted
    exact present value (same value ▸ counted)
  · intro alone value
    -- the last value under a key has the total of the key, every other one has nothing
    have determined : ∀ {list : List RuntimeRow}, (∀ other, weight list other ≠ 0 →
          strategy.lastUnder rows (strategy.extractKey (other, 0)) = some other) →
        weight list value = if strategy.lastUnder rows (strategy.extractKey (value, 0)) = some value
          then integrate (strategy.under (strategy.extractKey (value, 0))) list else 0 := by
      intro list only
      split
      · next last =>
        refine ((integrate_eq_mul_weight value fun other ne => ?_).trans (by simp [under])).symm
        by_contra counted
        push Not at counted
        have sameKey : strategy.extractKey (other, 0) = strategy.extractKey (value, 0) := by
          by_contra unequal
          exact counted.1 (if_neg unequal)
        have isLast := only other counted.2
        rw [sameKey, last] at isLast
        exact ne (Option.some.inj isLast).symm
      · next notLast => exact by_contra fun counted => notLast (only value counted)
    rw [determined present, determined alone]
    exact if_congr Iff.rfl (compacts.totals _) rfl

theorem extractKey_entry (compacts : Compacts strategy rows entries) {entry : Bytes × RuntimeRow}
    (mem : entry ∈ entries) : strategy.extractKey entry.2 = entry.1 := by
  rw [← strategy.extractKey_values, extractKey_of_lastUnder (compacts.last entry mem)]

theorem totalUnder_eq (compacts : Compacts strategy rows entries) {entry : Bytes × RuntimeRow}
    (mem : entry ∈ entries) : strategy.totalUnder rows entry.1 = entry.2.2 := by
  obtain ⟨before, after, rfl⟩ := append_of_mem mem
  have keys := compacts.keys
  simp only [map_append, map_cons, nodup_append, nodup_cons] at keys
  -- no other entry has this key
  have others : ∀ {part : InFlightRows}, part ⊆ before ++ entry :: after →
      entry.1 ∉ part.map Prod.fst → integrate (strategy.under entry.1) (part.map Prod.snd) = 0 := by
    intro part within absent
    refine integrate_eq_zero fun row isRow => ?_
    obtain ⟨other, isOther, rfl⟩ := mem_map.mp isRow
    refine mul_eq_zero_of_left (if_neg fun same => absent ?_) _
    rw [← same, strategy.extractKey_values, compacts.extractKey_entry (within isOther)]
    exact mem_map_of_mem isOther
  rw [← compacts.totals, totalUnder, map_append, map_cons, integrate_append, integrate_cons,
    others (by simp) fun mem => keys.2.2 _ mem _ mem_cons_self rfl,
    others (fun _ mem => by simp [mem]) keys.2.1.1, under, strategy.extractKey_values,
    compacts.extractKey_entry (by simp), if_pos rfl]
  ring

/-- What is drained: the last row under each key, with the total of the key unless that is zero. -/
theorem mem_drainRows (compacts : Compacts strategy rows entries) :
    row ∈ drainRows entries ↔ row.2 ≠ 0 ∧
      strategy.lastUnder rows (strategy.extractKey row) = some row.1 ∧
      strategy.totalUnder rows (strategy.extractKey row) = row.2 := by
  simp only [drainRows, mem_filter, mem_map, decide_eq_true_eq]
  constructor
  · rintro ⟨⟨entry, mem, rfl⟩, nonzero⟩
    rw [compacts.extractKey_entry mem]
    exact ⟨nonzero, compacts.last entry mem, compacts.totalUnder_eq mem⟩
  · rintro ⟨nonzero, last, total⟩
    -- the total is not zero: some entry counts under the key
    have counted : ∃ entry ∈ entries, entry.1 = strategy.extractKey row := by
      by_contra absent
      push Not at absent
      refine nonzero ?_
      rw [← total, ← compacts.totals]
      refine integrate_eq_zero fun other isOther => mul_eq_zero_of_left (if_neg ?_) _
      obtain ⟨entry, mem, rfl⟩ := mem_map.mp isOther
      rw [strategy.extractKey_values, compacts.extractKey_entry mem]
      exact absent entry mem
    obtain ⟨entry, mem, same⟩ := counted
    rw [← same] at last total
    have value := Option.some.inj ((compacts.last entry mem).symm.trans last)
    have weight := (compacts.totalUnder_eq mem).symm.trans total
    exact ⟨⟨entry, mem, Prod.ext value weight⟩, nonzero⟩

theorem nodup_drainRows (compacts : Compacts strategy rows entries) :
    ((drainRows entries).map fun row => strategy.extractKey row).Nodup := by
  have keys : (entries.map Prod.snd).map (fun row => strategy.extractKey row) =
      entries.map Prod.fst := by
    rw [map_map]
    exact map_congr_left fun entry mem => compacts.extractKey_entry mem
  exact (keys ▸ compacts.keys).sublist (filter_sublist.map _)

end InFlightRows.Compacts

/-- A row is its own key under `ValuesTsv`. -/
theorem lastUnder_valuesTsv {value : Bytes} (counted : weight rows value ≠ 0) :
    valuesTsv.lastUnder rows (valuesTsv.extractKey (value, 0)) = some value := by
  obtain ⟨row, mem, rfl⟩ := exists_of_weight_ne_zero counted
  have filtered : row ∈ rows.filter fun other => valuesTsv.extractKey other =
      valuesTsv.extractKey (row.1, 0) :=
    mem_filter.mpr ⟨mem, by simp [extractKey]⟩
  obtain ⟨last, isLast⟩ :=
    getLast?_isSome.mpr (ne_nil_of_mem filtered) |> Option.isSome_iff_exists.mp
  unfold lastUnder
  rw [isLast]
  have sameKey := (mem_filter.mp (mem_of_getLast? isLast)).2
  exact congrArg some (of_decide_eq_true sameKey)

/-! ## Runs of a compactor -/

inductive CompactorCall where
  | push (epoch : Nat) (row : RuntimeRow)
  | drain (epoch : Nat)

/-- A compactor, and the rows pushed for each epoch since it was last drained. -/
structure CompactorRun where
  compactor : EpochCompactor
  pushed : Nat → List RuntimeRow

/-- One call. A push whose weight overflows panics before it changes an entry. -/
def CompactorRun.handle (run : CompactorRun) : CompactorCall → CompactorRun
  | .push epoch row =>
    match run.compactor.pushRowAt epoch row with
    | .ok compactor =>
      ⟨compactor, Function.update run.pushed epoch (run.pushed epoch ++ [row])⟩
    | .error _ => run
  | .drain epoch =>
    ⟨(run.compactor.drainEpoch epoch).2, Function.update run.pushed epoch []⟩

def CompactorRun.after (strategy : KeyExtractionStrategy) (calls : List CompactorCall) :
    CompactorRun :=
  calls.foldl handle ⟨⟨strategy, ∅⟩, fun _ => []⟩

def CompactorRun.Holds (strategy : KeyExtractionStrategy) (run : CompactorRun) : Prop :=
  run.compactor.strategy = strategy ∧ ∀ epoch, InFlightRows.Compacts strategy (run.pushed epoch)
    ((run.compactor.activeEpochs.lookup epoch).getD [])

theorem CompactorRun.Holds.handle {run : CompactorRun}
    (holds : run.Holds strategy) (call : CompactorCall) : (run.handle call).Holds strategy := by
  obtain ⟨isStrategy, compacts⟩ := holds
  cases call with
  | push epoch row =>
    rw [CompactorRun.handle]
    cases pushed : run.compactor.pushRowAt epoch row with
    | error fault => exact ⟨isStrategy, compacts⟩
    | ok compactor =>
      obtain ⟨entries, isPushed, ended⟩ := bind_eq_ok.mp pushed
      obtain rfl := Except.ok.inj ended
      refine ⟨isStrategy, fun other => ?_⟩
      rw [isStrategy] at isPushed
      by_cases same : other = epoch
      · subst same
        simpa [HashMap.lookup_insert_eq] using (compacts other).pushRow isPushed
      · simpa [HashMap.lookup_insert_eq, same, Ne.symm same] using compacts other
  | drain epoch =>
    refine ⟨isStrategy, fun other => ?_⟩
    by_cases same : other = epoch
    · subst same
      simpa [CompactorRun.handle, EpochCompactor.drainEpoch, HashMap.lookup_erase_eq] using
        InFlightRows.Compacts.nil
    · simpa [CompactorRun.handle, EpochCompactor.drainEpoch, HashMap.lookup_erase_eq, same,
        Ne.symm same] using compacts other

theorem CompactorRun.holds_after (strategy : KeyExtractionStrategy) (calls : List CompactorCall) :
    (CompactorRun.after strategy calls).Holds strategy := by
  have start : CompactorRun.Holds strategy ⟨⟨strategy, ∅⟩, fun _ => []⟩ :=
    ⟨rfl, fun epoch => .nil⟩
  exact foldlRecOn calls CompactorRun.handle start fun run holds call _ => holds.handle call

/-- Draining an epoch keeps the weight of every row exactly where each row of non-zero weight is the
last one that was pushed with its key. -/
theorem drained_weights_iff (strategy : KeyExtractionStrategy) (calls : List CompactorCall)
    (epoch : Nat) (drained : List RuntimeRow)
    (drains : ((CompactorRun.after strategy calls).compactor.drainEpoch epoch).1 = some drained) :
    (∀ value, weight drained value =
        weight ((CompactorRun.after strategy calls).pushed epoch) value) ↔
      ∀ value, weight ((CompactorRun.after strategy calls).pushed epoch) value ≠ 0 →
        strategy.lastUnder ((CompactorRun.after strategy calls).pushed epoch)
          (strategy.extractKey (value, 0)) = some value := by
  obtain ⟨entries, active, rfl⟩ := Option.map_eq_some_iff.mp drains
  have compacts := (CompactorRun.holds_after strategy calls).2 epoch
  rw [active] at compacts
  exact compacts.weights_iff

/-- Rows `key` tab `value`. -/
def keyedText (key value : UInt8) : Bytes := [key, 0x09, value]

/-- An epoch drains to one row for each key of non-zero total weight, the last one that was pushed,
with that total. The weight of every row is kept exactly where each row of non-zero weight is the
last one under its key, and so always when the key is the row. -/
theorem drained_by_key (strategy : KeyExtractionStrategy) (calls : List CompactorCall)
    (epoch : Nat) (drained : List RuntimeRow)
    (drains : ((CompactorRun.after strategy calls).compactor.drainEpoch epoch).1 = some drained) :
    let pushed := (CompactorRun.after strategy calls).pushed epoch
    (∀ row, row ∈ drained ↔ row.2 ≠ 0 ∧
        strategy.lastUnder pushed (strategy.extractKey row) = some row.1 ∧
        strategy.totalUnder pushed (strategy.extractKey row) = row.2) ∧
      (drained.map fun row => strategy.extractKey row).Nodup ∧
      ((∀ value, weight drained value = weight pushed value) ↔
        ∀ value, weight pushed value ≠ 0 →
          strategy.lastUnder pushed (strategy.extractKey (value, 0)) = some value) ∧
      (strategy = .valuesTsv → ∀ value, weight drained value = weight pushed value) := by
  intro pushed
  have kept := drained_weights_iff strategy calls epoch drained drains
  obtain ⟨entries, active, rfl⟩ := Option.map_eq_some_iff.mp drains
  have compacts := (CompactorRun.holds_after strategy calls).2 epoch
  rw [active] at compacts
  refine ⟨fun row => compacts.mem_drainRows, compacts.nodup_drainRows, kept, ?_⟩
  rintro rfl
  exact kept.mpr fun value counted => lastUnder_valuesTsv counted

/-- A row that is replaced with more weight, beside a row of another key and another epoch. -/
def replacingCalls : List CompactorCall :=
  [.push 1 (keyedText 1 1, -1), .push 2 (keyedText 1 1, 1), .push 1 (keyedText 1 2, 2),
    .push 1 (keyedText 2 1, 1)]

theorem drained_by_key_sample :
    ((CompactorRun.after (.columnIndex 0) replacingCalls).compactor.drainEpoch 1).1 =
        some [(keyedText 1 2, 1), (keyedText 2 1, 1)] ∧
      ∀ row, row ∈ [(keyedText 1 2, 1), (keyedText 2 1, 1)] ↔ row.2 ≠ 0 ∧
        (columnIndex 0).lastUnder [(keyedText 1 1, -1), (keyedText 1 2, 2), (keyedText 2 1, 1)]
          ((columnIndex 0).extractKey row) = some row.1 ∧
        (columnIndex 0).totalUnder [(keyedText 1 1, -1), (keyedText 1 2, 2), (keyedText 2 1, 1)]
          ((columnIndex 0).extractKey row) = row.2 := by
  have drains : ((CompactorRun.after (.columnIndex 0) replacingCalls).compactor.drainEpoch 1).1 =
      some [(keyedText 1 2, 1), (keyedText 2 1, 1)] := by decide
  exact ⟨drains, (drained_by_key _ _ _ _ drains).1⟩

/-- An update of a row under its primary key drains to nothing. -/
theorem update_under_primary_key_lost :
    ((CompactorRun.after (.columnIndex 0) [.push 1 (keyedText 1 1, -1),
        .push 1 (keyedText 1 2, 1)]).compactor.drainEpoch 1).1 = some [] ∧
      (CompactorRun.after (.columnIndex 0) [.push 1 (keyedText 1 1, -1),
        .push 1 (keyedText 1 2, 1)]).pushed 1 = [(keyedText 1 1, -1), (keyedText 1 2, 1)] ∧
      weight [(keyedText 1 1, -1), (keyedText 1 2, 1)] (keyedText 1 2) = 1 := by
  decide

end RockStream
