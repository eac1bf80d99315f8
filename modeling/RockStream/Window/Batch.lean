import RockStream.Window.Law

/-!
Contract: what a run of the window operator shows, as a relation.

Owns:
- `Batch`, a relation split into ordered partitions with given multiplicities, and
  `evalBatch`, the window functions over it;
- the law of a run: the emitted rows sum to the evaluation of the *set* of present
  rows, and therefore to that of the accumulated multiset exactly when no row is
  present more than once.

Does not own: the window functions.
-/

namespace RockStream

open Lib Loop Lib.Weighted List HashMap

variable {partKey : Bytes} {sorted : List (Bytes × List Int64)} {state : WindowState}
  {vals : List Int64} {outs : List WindowRow} {parts : List (Bytes × List (List Int64))}
  {op : WindowOp} {epochs : List (ArrowZSet × IterationOrder)} {rows : List (List Int64 × Int)}

namespace WindowOp

/-! ## Batches -/

/-- A relation split into partitions, each in the order of its ORDER BY key, with the given
multiplicities. Rows that tie stand in any order. -/
structure Batch (op : WindowOp) (multiplicity : List Int64 → Int)
    (parts : List (Bytes × List (List Int64))) : Prop where
  keys : (parts.map Prod.fst).Nodup
  partition : ∀ part ∈ parts, ∀ vals ∈ part.2, op.partOf vals = part.1
  ordered : ∀ part ∈ parts,
    part.2.Pairwise fun left right => op.orderKeyOf left ≤ op.orderKeyOf right
  counts : ∀ vals, ((parts.flatMap Prod.snd).count vals : Int) = multiplicity vals

def evalBatch (op : WindowOp) (parts : List (Bytes × List (List Int64))) :
    Exec (List WindowRow) := do
  let shown ← parts.mapM fun part =>
    op.evalPartition (part.2.map fun vals => (op.orderKeyOf vals, vals))
  pure shown.flatten

/-- The emitted rows are the window functions over a batch with the given multiplicities. -/
def ShowsBatch (op : WindowOp) (multiplicity : List Int64 → Int) (emitted : List (Row × Int)) :
    Prop :=
  ∃ parts outs, op.Batch multiplicity parts ∧ op.evalBatch parts = .ok outs ∧
    ∀ row, weight emitted row = ((outs.map op.shownAs).count row : Nat)

section Batches

theorem Listing.ordered_values (listing : op.Listing rows partKey sorted) :
    (sorted.map Prod.snd).Pairwise fun left right => op.orderKeyOf left ≤ op.orderKeyOf right := by
  rw [pairwise_map]
  refine listing.ordered.imp_of_mem fun isLeft isRight le => ?_
  rw [← listing.keyed _ isLeft, ← listing.keyed _ isRight]
  exact le

theorem Listing.keyed_values (listing : op.Listing rows partKey sorted) :
    ((sorted.map Prod.snd).map fun vals => (op.orderKeyOf vals, vals)) = sorted := by
  rw [map_map]
  refine (map_congr_left fun row mem => ?_).trans (map_id sorted)
  show (op.orderKeyOf row.2, row.2) = row
  rw [← listing.keyed row mem]

end Batches

/-- A shown partition: its key, its listing, its output rows. -/
structure Page where
  partKey : Bytes
  sorted : List (Bytes × List Int64)
  outs : List WindowRow

/-- The emitted rows as pages, one for each partition with present rows. -/
structure Pages (op : WindowOp) (rows : List (List Int64 × Int)) (emitted : List (Row × Int))
    (pages : List Page) : Prop where
  keys : (pages.map Page.partKey).Nodup
  listing : ∀ page ∈ pages, op.Listing rows page.partKey page.sorted
  evals : ∀ page ∈ pages, op.evalPartition page.sorted = .ok page.outs
  complete : ∀ vals, 0 < weight rows vals → ∃ page ∈ pages, page.partKey = op.partOf vals
  shown : ∀ row, weight emitted row = (((pages.flatMap Page.outs).map op.shownAs).count row : Nat)

section Paging

variable {emitted : List (Row × Int)} {pages : List Page}

theorem Accepted.exists_pages (accepted : op.Accepted rows emitted state) :
    ∃ pages, op.Pages rows emitted pages := by
  have chosen : ∀ pair ∈ toPairs state.prevOutput, ∃ sorted outs,
      op.Listing rows pair.1 sorted ∧ op.evalPartition sorted = .ok outs ∧
        (values pair.2).Perm outs := by
    intro pair mem
    have cached := accepted.cached pair.1
    rw [mem_toPairs.mp mem] at cached
    exact cached
  choose! sorted outs listing evals shown using chosen
  refine ⟨(toPairs state.prevOutput).map fun pair => ⟨pair.1, sorted pair, outs pair⟩,
    ?_, ?_, ?_, fun vals positive => ?_, fun row => ?_⟩
  · rw [map_map]
    exact nodup_keys state.prevOutput
  · intro page mem
    obtain ⟨pair, isPair, rfl⟩ := mem_map.mp mem
    exact listing pair isPair
  · intro page mem
    obtain ⟨pair, isPair, rfl⟩ := mem_map.mp mem
    exact evals pair isPair
  · have cached := accepted.cached (op.partOf vals)
    cases found : state.prevOutput.lookup (op.partOf vals) with
    | none =>
      rw [found] at cached
      exact absurd (cached vals rfl) (not_le.mpr positive)
    | some cache => exact ⟨_, mem_map_of_mem (mem_toPairs.mpr found), rfl⟩
  · rw [accepted.shown, shownCount, ← sum_toPairs (fun pair : Bytes × OutputCache =>
      ((((values pair.2).map op.shownAs).count row : Nat) : Int)), flatMap_map,
      map_flatMap, count_flatMap, Nat.cast_list_sum, map_map]
    refine congrArg sum (map_congr_left fun pair mem => ?_)
    show _ = ((((outs pair).map op.shownAs).count row : Nat) : Int)
    rw [((shown pair mem).map op.shownAs).count_eq]

section

variable (paged : op.Pages rows emitted pages)
include paged

theorem Pages.partOf_eq {page : Page} (isPage : page ∈ pages)
    (listed : vals ∈ page.sorted.map Prod.snd) :
    op.partOf vals = page.partKey :=
  (((paged.listing page isPage).present vals).mp listed).1

theorem Pages.mem_iff (vals : List Int64) :
    (vals ∈ pages.flatMap fun page => page.sorted.map Prod.snd) ↔ 0 < weight rows vals := by
  rw [mem_flatMap]
  constructor
  · rintro ⟨page, isPage, listed⟩
    exact (((paged.listing page isPage).present vals).mp listed).2
  · intro positive
    obtain ⟨page, isPage, isPart⟩ := paged.complete vals positive
    exact ⟨page, isPage, ((paged.listing page isPage).present vals).mpr ⟨isPart.symm, positive⟩⟩

theorem Pages.nodup : (pages.flatMap fun page => page.sorted.map Prod.snd).Nodup := by
  refine nodup_flatMap.mpr ⟨fun page isPage => (paged.listing page isPage).nodup, ?_⟩
  have keys := paged.keys
  rw [List.Nodup, pairwise_map] at keys
  refine keys.imp_of_mem fun isLeft isRight ne vals inLeft inRight => ne ?_
  rw [← paged.partOf_eq isLeft inLeft, paged.partOf_eq isRight inRight]

theorem Pages.evalBatch_eq :
    op.evalBatch (pages.map fun page => (page.partKey, page.sorted.map Prod.snd)) =
      .ok (pages.flatMap Page.outs) := by
  have each : ((pages.map fun page => (page.partKey, page.sorted.map Prod.snd)).mapM fun part =>
      op.evalPartition (part.2.map fun vals => (op.orderKeyOf vals, vals))) =
        .ok (pages.map Page.outs) := by
    rw [mapM_map]
    refine mapM_of_ok fun page isPage => ?_
    show op.evalPartition ((page.sorted.map Prod.snd).map _) = _
    rw [(paged.listing page isPage).keyed_values, paged.evals page isPage]
  unfold evalBatch
  rw [each, flatMap_def]
  rfl

end

theorem Accepted.showsBatch (accepted : op.Accepted rows emitted state) :
    op.ShowsBatch (fun vals => if 0 < weight rows vals then 1 else 0) emitted := by
  obtain ⟨pages, paged⟩ := accepted.exists_pages
  refine ⟨pages.map fun page => (page.partKey, page.sorted.map Prod.snd), pages.flatMap Page.outs,
    ⟨?_, ?_, ?_, fun vals => ?_⟩, paged.evalBatch_eq, paged.shown⟩
  · rw [map_map]
    exact paged.keys
  · intro part mem
    obtain ⟨page, isPage, rfl⟩ := mem_map.mp mem
    exact fun vals listed => paged.partOf_eq isPage listed
  · intro part mem
    obtain ⟨page, isPage, rfl⟩ := mem_map.mp mem
    exact (paged.listing page isPage).ordered_values
  · rw [flatMap_map]
    split
    · next positive =>
      rw [count_eq_one_of_mem paged.nodup ((paged.mem_iff vals).mpr positive)]
      rfl
    · next absent =>
      rw [count_eq_zero_of_not_mem fun inside => absent ((paged.mem_iff vals).mp inside)]
      rfl

end Paging

/-! ## Multiplicities -/

section Multiplicities

/-- Valid values of Int64 columns denote themselves. -/
theorem outputCells_values {fields : List Field} (typed : ∀ field ∈ fields, field.dataType = .int64)
    (length : vals.length = fields.length) :
    (outputCells fields (vals, replicate fields.length false)).map Cell.get = valuesRow vals := by
  induction fields generalizing vals with
  | nil =>
    rw [eq_nil_of_length_eq_zero length]
    rfl
  | cons field fields ih =>
    cases vals with
    | nil => cases length
    | cons value vals =>
      have rest := ih (fun other mem => typed other (by simp [mem]))
        (by simpa using length)
      have cell : (outputCell field value false).get = some (.int64 value) := by
        simp [outputCell, typed field (by simp)]
      show (outputCell field value false).get ::
        (outputCells fields (vals, replicate fields.length false)).map Cell.get = _
      rw [cell, rest]
      rfl

section

variable (typed : ∀ field ∈ op.schema.take op.nInputCols, field.dataType = .int64)
include typed

theorem shownAs_outputRow (length : vals.length = op.nInputCols) (results : List (Option Int64)) :
    (op.shownAs (op.outputRow vals results)).take op.nInputCols = valuesRow vals := by
  have width : (op.schema.take op.nInputCols).length = op.nInputCols := by
    rw [length_take]
    exact min_eq_left (Nat.sub_le _ _)
  have inputs := outputCells_values typed (length.trans width.symm)
  rw [width] at inputs
  rw [← inputs]
  unfold shownAs outputCells outputRow
  rw [← map_take, ← map_take]
  simp only [zip, take_zipWith, take_left' length,
    take_left' (length_replicate ..)]

theorem evalPartition_shown (evals : op.evalPartition sorted = .ok outs)
    (wide : ∀ row ∈ sorted, row.2.length = op.nInputCols) :
    (outs.map op.shownAs).map (take op.nInputCols) = (sorted.map Prod.snd).map valuesRow := by
  rw [map_map, map_map]
  refine map_eq_map_of_forall₂ (evalPartition_rows evals) fun row mem out made => ?_
  obtain ⟨results, rfl⟩ := made
  exact shownAs_outputRow typed (wide row mem) results

theorem evalBatch_shown (evals : op.evalBatch parts = .ok outs)
    (wide : ∀ part ∈ parts, ∀ vals ∈ part.2, vals.length = op.nInputCols) :
    (outs.map op.shownAs).map (take op.nInputCols) = (parts.flatMap Prod.snd).map valuesRow := by
  obtain ⟨shown, mapped, ended⟩ := bind_eq_ok.mp evals
  cases ended
  have rel := mapM_eq_ok.mp mapped
  clear mapped evals
  induction rel with
  | nil => rfl
  | @cons part partOuts parts shown made _ ih =>
    have own := evalPartition_shown typed made (by
      intro row mem
      obtain ⟨vals, isVals, rfl⟩ := mem_map.mp mem
      exact wide part (by simp) vals isVals)
    have values : (part.2.map fun vals => (op.orderKeyOf vals, vals)).map Prod.snd = part.2 := by
      rw [map_map]
      exact map_id part.2
    rw [values] at own
    rw [flatten_cons, map_append, map_append, own, flatMap_cons,
      map_append, ih fun other mem => wide other (by simp [mem])]

end

theorem Batch.wide {multiplicity : List Int64 → Int}
    (batch : op.Batch multiplicity parts) (wide : HaveWidth op.nInputCols rows)
    (occurs : ∀ vals, 0 < multiplicity vals → 0 < weight rows vals) :
    ∀ part ∈ parts, ∀ vals ∈ part.2, vals.length = op.nInputCols := by
  intro part isPart vals mem
  have listed : vals ∈ parts.flatMap Prod.snd := mem_flatMap.mpr ⟨part, isPart, mem⟩
  have positive : 0 < multiplicity vals := by
    rw [← batch.counts]
    exact_mod_cast count_pos_iff.mpr listed
  obtain ⟨source, isSource, same⟩ := exists_of_weight_ne_zero (occurs vals positive).ne'
  rw [← same]
  exact wide source isSource

theorem ShowsBatch.multiplicity_eq
    (typed : ∀ field ∈ op.schema.take op.nInputCols, field.dataType = .int64)
    (wide : HaveWidth op.nInputCols rows) {first second : List Int64 → Int}
    {emitted : List (Row × Int)} (showsFirst : op.ShowsBatch first emitted)
    (showsSecond : op.ShowsBatch second emitted)
    (firstOccurs : ∀ vals, 0 < first vals → 0 < weight rows vals)
    (secondOccurs : ∀ vals, 0 < second vals → 0 < weight rows vals) (vals : List Int64) :
    first vals = second vals := by
  obtain ⟨firstParts, firstOuts, firstBatch, firstEvaluated, firstShown⟩ := showsFirst
  obtain ⟨secondParts, secondOuts, secondBatch, secondEvaluated, secondShown⟩ := showsSecond
  have same : (firstOuts.map op.shownAs).Perm (secondOuts.map op.shownAs) := by
    refine perm_iff_count.mpr fun row => ?_
    exact_mod_cast (firstShown row).symm.trans (secondShown row)
  have inputs := same.map (take op.nInputCols)
  rw [evalBatch_shown typed firstEvaluated (firstBatch.wide wide firstOccurs),
    evalBatch_shown typed secondEvaluated (secondBatch.wide wide secondOccurs)] at inputs
  have counts := inputs.count_eq (valuesRow vals)
  rw [count_map_of_injective _ _ fun _ _ => valuesRow_injective,
    count_map_of_injective _ _ fun _ _ => valuesRow_injective] at counts
  rw [← firstBatch.counts, ← secondBatch.counts, counts]

end Multiplicities

/-- The input columns of the operator are Int64 columns, and so are those of the epochs; the epochs
hold no NULL. -/
structure RunShape (op : WindowOp) (epochs : List (ArrowZSet × IterationOrder)) : Prop where
  columns : ∀ field ∈ op.schema.take op.nInputCols, field.dataType = .int64
  inputs : ∀ epoch ∈ epochs, Int64Epoch op.nInputCols epoch.1

theorem weight_le_one_of_showsBatch
    (shape : op.RunShape epochs) (collisionFree : op.CollisionFree epochs)
    {outputs : List ArrowZSet}
    {final : WindowState} (ran : Loop.run op.processEpoch .new epochs = .ok (outputs, final))
    (shows : op.ShowsBatch (weight (inputRows epochs)) (outputs.flatMap ArrowZSet.valued))
    (vals : List Int64) : weight (inputRows epochs) vals ≤ 1 := by
  have present := (accepted_final shape.inputs collisionFree ran).showsBatch
  rw [ShowsBatch.multiplicity_eq shape.columns (haveWidth_inputRows shape.inputs) shows present
    (fun _ positive => positive) (fun other positive => by
      by_contra absent
      rw [if_neg absent] at positive
      exact lt_irrefl 0 positive) vals]
  split <;> decide

/-- Window batch equivalence: over a run of non-negative weights, the emitted rows sum to the
window functions over the accumulated multiset exactly when no row is present more than once. A
present row is evaluated once, whatever its weight. -/
theorem processEpoch_showsMultiset_iff (op : WindowOp) (epochs : List (ArrowZSet × IterationOrder))
    (shape : op.RunShape epochs) (collisionFree : op.CollisionFree epochs)
    (nonNegative : ∀ vals, 0 ≤ weight (inputRows epochs) vals) (outputs : List ArrowZSet)
    (final : WindowState) (ran : Loop.run op.processEpoch .new epochs = .ok (outputs, final)) :
    op.ShowsBatch (weight (inputRows epochs)) (outputs.flatMap ArrowZSet.valued) ↔
      ∀ vals, weight (inputRows epochs) vals ≤ 1 := by
  constructor
  · exact weight_le_one_of_showsBatch shape collisionFree ran
  · intro small
    have once : weight (inputRows epochs) =
        fun vals => if 0 < weight (inputRows epochs) vals then 1 else 0 := by
      funext vals
      have lower := nonNegative vals
      have upper := small vals
      split <;> omega
    rw [once]
    exact (accepted_final shape.inputs collisionFree ran).showsBatch

/-! ## Samples -/

/-- `ROW_NUMBER() OVER (PARTITION BY k ORDER BY v)` over two Int64 columns. -/
def sampleOp : WindowOp :=
  ⟨(ArrowZSet.ofPairs []).fields ++ [⟨"rn", .other "UInt64", false⟩], [⟨.rowNumber, [0], [1]⟩]⟩

/-- A row is inserted, a second one is inserted before it, the first one is retracted. -/
def sampleEpochs : List (ArrowZSet × IterationOrder) :=
  [(.ofPairs [((some 1, some 5), 1)], .stored), (.ofPairs [((some 1, some 4), 1)], .stored),
    (.ofPairs [((some 1, some 5), -1)], .stored)]

/-- A row inserted with weight two. -/
def doubledEpochs : List (ArrowZSet × IterationOrder) :=
  [(.ofPairs [((some 1, some 5), 2)], .stored)]

theorem collisionFree_of_decide (inputs : KeysDistinguish rowHash (inputRows epochs))
    (outputs : (Loop.run op.computeEpoch .new epochs).toOption.any
      (fun result => decide (KeysDistinguish outputRowHash result.1.flatten)) = true) :
    op.CollisionFree epochs := by
  refine ⟨inputs, fun computed final ran => ?_⟩
  rw [ran] at outputs
  exact of_decide_eq_true outputs

theorem sampleShape : sampleOp.RunShape sampleEpochs := ⟨by decide, by decide⟩

theorem processEpoch_showsMultiset_iff_sample : ∃ outputs final,
    Loop.run sampleOp.processEpoch .new sampleEpochs = .ok (outputs, final) ∧
      (sampleOp.ShowsBatch (weight (inputRows sampleEpochs)) (outputs.flatMap ArrowZSet.valued) ↔
        ∀ vals, weight (inputRows sampleEpochs) vals ≤ 1) := by
  have nonNegative : ∀ vals, 0 ≤ weight (inputRows sampleEpochs) vals := by
    have rows : NonNegative (inputRows sampleEpochs) := by decide +kernel
    exact rows.weight_nonneg
  exact exists_ok_of_isSome (by decide +kernel) (processEpoch_showsMultiset_iff sampleOp
    sampleEpochs sampleShape (collisionFree_of_decide (by decide +kernel) (by decide +kernel))
    nonNegative)

/-- A row of weight two is shown once, so that the multiset is not shown. -/
theorem doubled_row_shown_once : ∃ outputs final,
    Loop.run sampleOp.processEpoch .new doubledEpochs = .ok (outputs, final) ∧
      weight (inputRows doubledEpochs) [1, 5] = 2 ∧
      (∀ vals, 0 ≤ weight (inputRows doubledEpochs) vals) ∧
      ¬ sampleOp.ShowsBatch (weight (inputRows doubledEpochs))
        (outputs.flatMap ArrowZSet.valued) := by
  have nonNegative : NonNegative (inputRows doubledEpochs) := by decide +kernel
  have twice : weight (inputRows doubledEpochs) [1, 5] = 2 := by decide +kernel
  have shape : sampleOp.RunShape doubledEpochs := ⟨by decide, by decide⟩
  refine exists_ok_of_isSome (by decide +kernel) fun _ _ ran =>
    ⟨twice, nonNegative.weight_nonneg, fun shows => ?_⟩
  have small := weight_le_one_of_showsBatch shape
    (collisionFree_of_decide (by decide +kernel) (by decide +kernel)) ran shows [1, 5]
  exact absurd small (by decide)

end WindowOp

end RockStream
