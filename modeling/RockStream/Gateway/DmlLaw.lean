import RockStream.Gateway.Dml

/-!
Contract: the delta of a commit and the change of the stored table.

Every committed operation was valid in the store that the operations before it leave, and
its delta is its change of the table, with one exception: an update whose new row key is
held by another row removes that row, and no delta says so.

Owns:
- `ValidIn` and `Overwrites`, what a commit knows of an operation and what it does not;
- the change of the stored rows by one operation and by a whole commit;
- when the delta of a commit is the change of the table.

Does not own: how a cell is read from its text.
-/

namespace RockStream

open Lib Loop Lib.Weighted List HashMap DmlOp

variable {first second name : Bytes} {op : DmlOp} {images : RowImages}

variable {ops : List DmlOp} {table rowKey : Bytes} {mutation : StateMutation}
  {current : RowImages × List DmlOp}

/-! ## Keys of tables -/

theorem viewOutputPrefix_isPrefix (table rowKey : Bytes) :
    viewOutputPrefix table <+: viewOutputKey table rowKey :=
  prefix_append _ _

theorem viewOutputKey_injective
    (same : viewOutputKey table first = viewOutputKey table second) : first = second :=
  append_cancel_left same

/-! ## The stored rows -/

section Stored

variable (parseCell : DataType → Option Bytes → Except String Cell) (schema : List Field)

/-- What a mutation leaves under its key. -/
def StateMutation.image : StateMutation → Option Bytes
  | .put _ value => some value
  | .delete _ => none

def denoteOnce (rows : List Bytes) : List (Row × Int) :=
  rows.map fun tsv => (rowOfTsv parseCell schema tsv, 1)

def denoteTsv (rows : List (Bytes × Int)) : List (Row × Int) :=
  rows.map fun row => (rowOfTsv parseCell schema row.1, row.2)

def recordWeight (table : Bytes) (row : Row) (key value : Bytes) : Int :=
  if viewOutputPrefix table <+: key ∧ rowOfTsv parseCell schema value = row then 1 else 0

variable {parseCell schema}

theorem weight_storedRows (store : Store) (table : Bytes) (row : Row) :
    weight (storedRows parseCell schema store table) row =
      store.sumOver (recordWeight parseCell schema table row) := by
  have expand : ∀ records : List (Bytes × Bytes),
      weight ((records.filter fun record => (viewOutputPrefix table).isPrefixOf record.1).map
        fun record => (rowOfTsv parseCell schema record.2, 1)) row = (records.map fun record =>
          recordWeight parseCell schema table row record.1 record.2).sum := by
    intro records
    induction records with
    | nil => rfl
    | cons record records ih =>
      rw [map_cons, sum_cons, ← ih, recordWeight]
      by_cases inTable : viewOutputPrefix table <+: record.1
      · simp [inTable]
      · rw [filter_cons, if_neg fun isPrefix =>
          inTable ( isPrefixOf_iff_prefix.mp isPrefix), if_neg fun both => inTable both.1,
          zero_add]
  unfold storedRows Store.under
  rw [expand]
  exact sum_toPairs (fun record =>
    recordWeight parseCell schema table row record.1 record.2) store

theorem weight_storedRows_apply (store : Store) (table : Bytes) (mutation : StateMutation)
    (row : Row) : weight (storedRows parseCell schema (store.apply mutation) table) row =
      weight (storedRows parseCell schema store table) row -
        (store.lookup mutation.key).elim 0 (recordWeight parseCell schema table row mutation.key) +
        mutation.image.elim 0 (recordWeight parseCell schema table row mutation.key) := by
  rw [weight_storedRows, weight_storedRows]
  cases mutation with
  | put key value => exact sumOver_insert_eq _ store key value
  | delete key => exact (sumOver_erase_eq _ store key).trans (add_zero _).symm

/-- A record of the table is replaced. -/
theorem weight_storedRows_write (store : Store)
    (isKey : mutation.key = viewOutputKey table rowKey) (row : Row) :
    weight (storedRows parseCell schema (store.apply mutation) table) row =
      weight (storedRows parseCell schema store table) row -
        weight (denoteOnce parseCell schema (store.lookup (viewOutputKey table rowKey)).toList)
          row +
        weight (denoteOnce parseCell schema mutation.image.toList) row := by
  have counted : ∀ image : Option Bytes,
      image.elim 0 (recordWeight parseCell schema table row (viewOutputKey table rowKey)) =
        weight (denoteOnce parseCell schema image.toList) row := by
    intro image
    cases image with
    | none => rfl
    | some tsv => simp [recordWeight, denoteOnce, viewOutputPrefix_isPrefix]
  rw [weight_storedRows_apply, isKey, counted, counted]

theorem weight_storedRows_apply_of_ne (store : Store) (table : Bytes)
    (outside : ¬ viewOutputPrefix table <+: mutation.key) (row : Row) :
    weight (storedRows parseCell schema (store.apply mutation) table) row =
      weight (storedRows parseCell schema store table) row := by
  have uncounted : ∀ image : Option Bytes,
      image.elim 0 (recordWeight parseCell schema table row mutation.key) = 0 := by
    intro image
    cases image with
    | none => rfl
    | some value => exact if_neg fun both => outside both.1
  rw [weight_storedRows_apply, uncounted, uncounted, sub_zero, add_zero]

/-! ## One operation -/

/-- The operation spells the table so, or names another one and writes nothing under the table's
prefix (as one on `a/b` does for `a`). -/
def DmlOp.Apart (table : Bytes) (op : DmlOp) : Prop :=
  op.table = table ∨ toAsciiLowercase op.table ≠ toAsciiLowercase table ∧
    ∀ mutation ∈ op.mutations, ¬ viewOutputPrefix table <+: mutation.key

/-- The two names are spelled alike, or name different tables. -/
def Spelled (table name : Bytes) : Prop :=
  name = table ∨ toAsciiLowercase name ≠ toAsciiLowercase table

/-- What a commit checks of an operation. -/
def DmlOp.ValidIn (store : Store) : DmlOp → Prop
  | insert table _ _ rowKey => store.lookup (viewOutputKey table rowKey) = none
  | update table oldRowKey oldTsv _ _ => store.lookup (viewOutputKey table oldRowKey) = some oldTsv
  | delete table rowKey returningTsv => store.lookup (viewOutputKey table rowKey) = returningTsv

/-- The row of the table that an update finds under its new key. -/
def DmlOp.lost (table : Bytes) (store : Store) : DmlOp → List Bytes
  | update name oldRowKey _ newRowKey _ =>
    if name = table ∧ newRowKey ≠ oldRowKey then
      (store.lookup (viewOutputKey name newRowKey)).toList
    else []
  | _ => []

/-- An update of the table whose new row key is held by another row. -/
def DmlOp.Overwrites (table : Bytes) (store : Store) (op : DmlOp) : Prop :=
  op.lost table store ≠ []

instance (table : Bytes) (op : DmlOp) : Decidable (op.Apart table) :=
  inferInstanceAs (Decidable (_ ∨ _))

variable {store : Store}

theorem weight_storedRows_writeBatch_of_ne (mutations : List StateMutation)
    (outside : ∀ mutation ∈ mutations, ¬ viewOutputPrefix table <+: mutation.key) (row : Row) :
    weight (storedRows parseCell schema (store.writeBatch mutations) table) row =
      weight (storedRows parseCell schema store table) row := by
  unfold Store.writeBatch
  induction mutations generalizing store with
  | nil => rfl
  | cons mutation mutations ih =>
    rw [foldl_cons, ih fun other mem => outside other (by simp [mem])]
    exact weight_storedRows_apply_of_ne store table (outside mutation (by simp))
      row

theorem weight_retraction (tsv : Bytes) (row : Row) :
    weight [(rowOfTsv parseCell schema tsv, -1)] row =
      -weight [(rowOfTsv parseCell schema tsv, 1)] row := by
  rw [weight_cons, weight_cons]
  split <;> simp

/-- The change of the table by a valid operation: its delta, without the row it overwrites. -/
theorem weight_storedRows_op (apart : op.Apart table)
    (valid : op.table = table → op.ValidIn store) (row : Row) :
    weight (storedRows parseCell schema (store.writeBatch op.mutations) table) row =
      weight (storedRows parseCell schema store table) row +
        weight (denoteTsv parseCell schema (op.deltaRows table)) row -
        weight (denoteOnce parseCell schema (op.lost table store)) row := by
  by_cases here : op.table = table
  · have isValid := valid here
    have sameCase : toAsciiLowercase op.table = toAsciiLowercase table := by rw [here]
    unfold deltaRows Store.writeBatch
    rw [if_pos sameCase]
    cases op with
    | insert name cols valuesTsv rowKey =>
      obtain rfl : name = table := here
      have absent : store.lookup (viewOutputKey name rowKey) = none := isValid
      rw [mutations, foldl_cons, foldl_nil, weight_storedRows_write store rfl, absent]
      simp [lost, denoteTsv, denoteOnce, StateMutation.image]
    | update name oldRowKey oldTsv newRowKey newTsv =>
      obtain rfl : name = table := here
      have present : store.lookup (viewOutputKey name oldRowKey) = some oldTsv := isValid
      have isLost : ((store.apply (.delete (viewOutputKey name oldRowKey))).lookup
          (viewOutputKey name newRowKey)).toList =
            lost name store (.update name oldRowKey oldTsv newRowKey newTsv) := by
        rw [Store.apply, lookup_erase_eq]
        by_cases same : newRowKey = oldRowKey
        · simp [lost, same]
        · rw [if_neg fun sameKey => same (viewOutputKey_injective sameKey)]
          simp [lost, same]
      rw [mutations, foldl_cons, foldl_cons, foldl_nil, weight_storedRows_write _ rfl, isLost,
        weight_storedRows_write _ rfl, present]
      have delta : weight (denoteTsv parseCell schema [(oldTsv, -1), (newTsv, 1)]) row =
          weight [(rowOfTsv parseCell schema newTsv, 1)] row -
            weight [(rowOfTsv parseCell schema oldTsv, 1)] row := by
        show weight ((rowOfTsv parseCell schema oldTsv, -1) ::
          [(rowOfTsv parseCell schema newTsv, 1)]) row = _
        rw [← singleton_append, weight_append, weight_retraction]
        ring
      rw [delta]
      unfold denoteOnce StateMutation.image
      simp only [Option.toList_none, Option.toList_some, map_nil, map_cons, weight_nil]
      ring
    | delete name rowKey returningTsv =>
      obtain rfl : name = table := here
      have image : store.lookup (viewOutputKey name rowKey) = returningTsv := isValid
      rw [mutations, foldl_cons, foldl_nil, weight_storedRows_write store rfl, image]
      cases returningTsv with
      | none => simp [lost, denoteTsv, denoteOnce, StateMutation.image]
      | some tsv =>
        show _ - weight [(rowOfTsv parseCell schema tsv, 1)] row + 0 =
          _ + weight [(rowOfTsv parseCell schema tsv, -1)] row - 0
        rw [weight_retraction]
        ring
  · obtain ⟨elsewhere, outside⟩ := apart.resolve_left here
    have noDelta : op.deltaRows table = [] := if_neg elsewhere
    have noLoss : op.lost table store = [] := by
      cases op with
      | update name => exact if_neg fun both => here both.1
      | insert => rfl
      | delete => rfl
    rw [weight_storedRows_writeBatch_of_ne _ outside, noDelta, noLoss]
    simp [denoteTsv, denoteOnce]

/-! ## A commit -/

/-- Every operation on the table is valid in the store that the operations before it leave. -/
def AllValid (table : Bytes) : Store → List DmlOp → Prop
  | _, [] => True
  | store, op :: rest =>
    (op.table = table → op.ValidIn store) ∧ AllValid table (store.writeBatch op.mutations) rest

/-- The rows that updates overwrite. -/
def lostRows (table : Bytes) : Store → List DmlOp → List Bytes
  | _, [] => []
  | store, op :: rest =>
    op.lost table store ++ lostRows table (store.writeBatch op.mutations) rest

theorem writeBatch_appendDmlOps_cons {store : Store} : store.writeBatch (appendDmlOps (op :: ops)) =
    (store.writeBatch op.mutations).writeBatch (appendDmlOps ops) :=
  store.writeBatch_append op.mutations (appendDmlOps ops)

/-- The change of the table by a commit: its delta, without the rows it overwrites. -/
theorem weight_storedRows_commit (apart : ∀ op ∈ ops, op.Apart table)
    (valid : AllValid table store ops) (row : Row) :
    weight (storedRows parseCell schema (store.writeBatch (appendDmlOps ops)) table) row =
      weight (storedRows parseCell schema store table) row +
        weight (denoteTsv parseCell schema (ops.flatMap (deltaRows table))) row -
        weight (denoteOnce parseCell schema (lostRows table store ops)) row := by
  induction ops generalizing store with
  | nil =>
    show weight (storedRows parseCell schema store table) row = _
    simp [denoteTsv, denoteOnce, lostRows]
  | cons op rest ih =>
    have later := ih (fun other mem => apart other (by simp [mem])) valid.2
    rw [writeBatch_appendDmlOps_cons, later,
      weight_storedRows_op (apart op (by simp)) valid.1]
    simp only [flatMap_cons, denoteTsv, denoteOnce, lostRows, map_append, weight_append]
    ring

end Stored

theorem lostRows_eq_nil_iff {store : Store} :
    lostRows table store ops = [] ↔ ∀ before op after, ops = before ++ op :: after →
      ¬ op.Overwrites table (store.writeBatch (appendDmlOps before)) := by
  induction ops generalizing store with
  | nil => simp [lostRows]
  | cons head rest ih =>
    rw [lostRows, append_eq_nil_iff, ih]
    constructor
    · rintro ⟨headKeeps, restKeeps⟩ before op after isSplit
      cases before with
      | nil =>
        obtain ⟨rfl, _⟩ := cons.inj isSplit
        exact not_not.mpr headKeeps
      | cons first before =>
        obtain ⟨rfl, isRest⟩ := cons.inj isSplit
        have kept := restKeeps before op after isRest
        rw [← store.writeBatch_append] at kept
        exact kept
    · intro keeps
      refine ⟨not_not.mp (keeps [] head rest rfl), fun before op after isRest => ?_⟩
      have kept := keeps (head :: before) op after (by rw [isRest]; rfl)
      rw [← store.writeBatch_append]
      exact kept

/-! ## What the loop of a commit keeps -/

section Loop

variable {store : Store} {reader : ShardReader}

theorem allValid_append_single : AllValid table store (ops ++ [op]) ↔ AllValid table store ops ∧
      (op.table = table → op.ValidIn (store.writeBatch (appendDmlOps ops))) := by
  induction ops generalizing store with
  | nil =>
    show (_ ∧ True) ↔ True ∧ _
    rw [and_true, true_and]
    rfl
  | cons head rest ih =>
    rw [cons_append, AllValid, AllValid, ih, writeBatch_appendDmlOps_cons, and_assoc]

/-- The image of a row of the table: the cached one, or else the stored one. -/
def imageAt (table : Bytes) (store : Store) (images : RowImages) (rowKey : Bytes) : Option Bytes :=
  (images.lookup (toAsciiLowercase table, rowKey)).getD (store.lookup (viewOutputKey table rowKey))

/-- The images show the table as the committed operations leave it, and those were valid. -/
structure Tracks (table : Bytes) (store : Store) (current : RowImages × List DmlOp) : Prop where
  images : ∀ rowKey, imageAt table store current.1 rowKey =
    (store.writeBatch (appendDmlOps current.2)).lookup (viewOutputKey table rowKey)
  valid : AllValid table store current.2
  apart : ∀ op ∈ current.2, op.Apart table

theorem Tracks.skip (tracks : Tracks table store current)
    (sameImages : ∀ query, imageAt table store images query = imageAt table store current.1 query) :
    Tracks table store (images, current.2) where
  images := fun rowKey => (sameImages rowKey).trans (tracks.images rowKey)
  valid := tracks.valid
  apart := tracks.apart

theorem Tracks.keep (tracks : Tracks table store current) (apart : op.Apart table)
    (valid : op.table = table → op.ValidIn (store.writeBatch (appendDmlOps current.2)))
    (follows : ∀ rowKey, imageAt table store images rowKey =
      ((store.writeBatch (appendDmlOps current.2)).writeBatch op.mutations).lookup
        (viewOutputKey table rowKey)) :
    Tracks table store (images, current.2 ++ [op]) where
  images := by
    intro rowKey
    rw [follows, ← store.writeBatch_append]
    simp [appendDmlOps]
  valid := allValid_append_single.mpr ⟨tracks.valid, valid⟩
  apart := by
    exact forall_mem_append.mpr ⟨tracks.apart, forall_mem_singleton.mpr apart⟩

theorem imageAt_insert {image : Option Bytes}
    (spelled : Spelled table name) (query : Bytes) :
    imageAt table store (images.insert (toAsciiLowercase name, rowKey) image) query =
      if name = table ∧ query = rowKey then image else imageAt table store images query := by
  unfold imageAt
  rw [lookup_insert_eq]
  have sameEntry : (toAsciiLowercase table, query) = (toAsciiLowercase name, rowKey) ↔
      name = table ∧ query = rowKey := by
    rw [Prod.mk.injEq]
    refine and_congr_left fun _ => ⟨fun sameCase => ?_, fun here => by rw [here]⟩
    exact spelled.resolve_right fun differs => differs sameCase.symm
  rw [if_congr sameEntry rfl rfl]
  split <;> rfl

theorem lookup_apply_viewOutput (name rowKey : Bytes)
    (apart : name = table ∨ ¬ viewOutputPrefix table <+: viewOutputKey name rowKey)
    (store : Store) (query : Bytes) (value : Option Bytes)
    (isMutation : mutation = .keep (viewOutputKey name rowKey) value) :
    (store.apply mutation).lookup (viewOutputKey table query) =
      if name = table ∧ query = rowKey then value
      else store.lookup (viewOutputKey table query) := by
  have sameKey : viewOutputKey table query = viewOutputKey name rowKey ↔
      name = table ∧ query = rowKey := by
    constructor
    · intro same
      rcases apart with rfl | outside
      · exact ⟨rfl, viewOutputKey_injective same⟩
      · exact absurd (same ▸ viewOutputPrefix_isPrefix table query) outside
    · rintro ⟨rfl, rfl⟩
      rfl
  rw [← if_congr sameKey rfl rfl, isMutation]
  exact store.lookup_apply_keep _ value _

/-- The rows whose images are read first are named as an operation names them. -/
theorem dmlImageTables_lookup : ∀ key name, (dmlImageTables ops).lookup key = some name →
      key.1 = toAsciiLowercase name ∧ ∃ op ∈ ops, op.table = name := by
  refine foldlRecOn (motive := fun (tables : HashMap (Bytes × Bytes) Bytes) => ∀ key name,
    tables.lookup key = some name → key.1 = toAsciiLowercase name ∧ ∃ op ∈ ops, op.table = name)
    ops _ nofun fun tables named op mem => ?_
  have extended : ∀ rowKey key name,
      (if (tables.lookup (toAsciiLowercase op.table, rowKey)).isSome then tables
        else tables.insert (toAsciiLowercase op.table, rowKey) op.table).lookup key = some name →
      key.1 = toAsciiLowercase name ∧ ∃ op ∈ ops, op.table = name := by
    intro rowKey key name found
    split at found
    · exact named key name found
    · rw [lookup_insert_eq] at found
      split at found
      · next isKey =>
        cases found
        exact ⟨by rw [isKey], op, mem, rfl⟩
      · exact named key name found
  cases op with
  | insert name cols valuesTsv rowKey => exact extended rowKey
  | update name oldRowKey oldTsv newRowKey newTsv => exact extended oldRowKey
  | delete name rowKey returningTsv => exact extended rowKey

variable (faithful : ∀ key image, reader key = .ok image → image = store.lookup key)

include faithful

theorem cachedRowImage_eq_ok {next : RowImages} {image : Option Bytes}
    (spelled : Spelled table name)
    (returned : cachedRowImage reader images name rowKey = .ok (image, next)) :
    (name = table → image = imageAt table store images rowKey) ∧
      ∀ query, imageAt table store next query = imageAt table store images query := by
  unfold cachedRowImage at returned
  split at returned
  · next cached found =>
    cases returned
    refine ⟨fun here => ?_, fun _ => rfl⟩
    rw [imageAt, ← here, found]
    rfl
  · next missing =>
    obtain ⟨_, isRead, ended⟩ := bind_eq_ok.mp returned
    cases ended
    have shown : name = table → image = imageAt table store images rowKey := by
      intro here
      rw [imageAt, ← here, missing, faithful _ _ (mapError_eq_ok.mp isRead)]
      rfl
    refine ⟨shown, fun query => ?_⟩
    rw [imageAt_insert spelled]
    split
    · next both => rw [both.2, shown both.1]
    · rfl

theorem Tracks.step {next : RowImages × List DmlOp}
    (apart : op.Apart table) (tracks : Tracks table store current)
    (stepped : commitOp reader current op = .ok next) : Tracks table store next := by
  -- The image of a row is its record in the store that the kept operations leave.
  have reads : ∀ {name rowKey image images}, Spelled table name →
      cachedRowImage reader current.1 name rowKey = .ok (image, images) →
      (name = table →
        (store.writeBatch (appendDmlOps current.2)).lookup (viewOutputKey name rowKey) = image) ∧
      ∀ query, imageAt table store images query = imageAt table store current.1 query := by
    intro name rowKey image images spelled read
    obtain ⟨isImage, sameImages⟩ := cachedRowImage_eq_ok faithful spelled read
    refine ⟨fun here => ?_, sameImages⟩
    rw [isImage here, here, tracks.images]
  rcases op with ⟨name, cols, valuesTsv, rowKey⟩ | ⟨name, oldRowKey, oldTsv, newRowKey, newTsv⟩ |
    ⟨name, rowKey, returningTsv⟩
  -- Every operation reads the image under its row key, and is kept or skipped.
  all_goals
    obtain ⟨⟨image, images⟩, read, stepped⟩ := bind_eq_ok.mp stepped
    have spelled : Spelled table name := apart.imp_right And.left
    have outside mutation mem := apart.imp_right fun other => other.2 mutation mem
    obtain ⟨isImage, sameImages⟩ := reads spelled read
    dsimp only at stepped
    split at stepped <;> cases stepped
    case isFalse.refl => exact tracks.skip sameImages
  case insert.isTrue.refl absent =>
    refine tracks.keep apart (fun here => ?_) fun query => ?_
    · exact (isImage here).trans (Option.isNone_iff_eq_none.mp absent)
    · rw [imageAt_insert spelled, sameImages, tracks.images]
      exact (lookup_apply_viewOutput name rowKey (outside _ mem_cons_self) _ query
        (some valuesTsv) rfl).symm
  case update.isTrue.refl present =>
    refine tracks.keep apart (fun here => (isImage here).trans present) fun query => ?_
    rw [imageAt_insert spelled, imageAt_insert spelled, sameImages, tracks.images,
      ← lookup_apply_viewOutput name oldRowKey (outside _ mem_cons_self) _ query none rfl]
    exact (lookup_apply_viewOutput name newRowKey (outside _ (mem_cons_of_mem _ mem_cons_self)) _
      query (some newTsv) rfl).symm
  case delete.isTrue.refl same =>
    refine tracks.keep apart (fun here => (isImage here).trans same.symm) fun query => ?_
    rw [imageAt_insert spelled, sameImages, tracks.images]
    exact (lookup_apply_viewOutput name rowKey (outside _ mem_cons_self) _ query none rfl).symm

theorem imageAt_prefetchImages (uniform : ∀ op ∈ ops, Spelled table op.table)
    (read : prefetchImages reader (dmlImageTables ops) = .ok images) (query : Bytes) :
    imageAt table store images query = store.lookup (viewOutputKey table query) := by
  refine foldlM_invariant_of_mem (fun _ (images : RowImages) =>
    ∀ query, imageAt table store images query = store.lookup (viewOutputKey table query))
    ?_ (fun _ => rfl) read query
  rintro done current ⟨⟨lower, rowKey⟩, name⟩ next listed _ shown stepped query
  obtain ⟨image, isRead, ended⟩ := bind_eq_ok.mp stepped
  cases ended
  obtain ⟨isLower, op, mem, isName⟩ :=
    dmlImageTables_lookup (lower, rowKey) name (mem_toPairs.mp listed)
  have spelled : Spelled table name := isName ▸ uniform op mem
  rw [show lower = toAsciiLowercase name from isLower, imageAt_insert spelled, shown]
  split
  · next here =>
    rw [here.2, ← here.1]
    exact faithful _ _ (mapError_eq_ok.mp isRead)
  · rfl

theorem allValid_committedDmlOps {committed : List DmlOp}
    (apart : ∀ op ∈ ops, op.Apart table)
    (isCommitted : committedDmlOps reader ops = .ok committed) :
    AllValid table store committed ∧ ∀ op ∈ committed, op.Apart table := by
  obtain ⟨images, read, filtered⟩ := bind_eq_ok.mp isCommitted
  obtain ⟨⟨finalImages, kept⟩, looped, ended⟩ := bind_eq_ok.mp filtered
  cases ended
  have started : Tracks table store (images, []) :=
    ⟨imageAt_prefetchImages faithful (fun op mem => (apart op mem).imp_right And.left) read,
      trivial, by simp⟩
  have tracks := foldlM_invariant_of_mem (fun _ => Tracks table store)
    (fun _ current op next mem _ tracks stepped =>
      tracks.step faithful (apart op mem) stepped)
    started looped
  exact ⟨tracks.valid, tracks.apart⟩

end Loop

/-! ## The law -/

section Law

variable {parseCell : DataType → Option Bytes → Except String Cell} {schema : List Field}

theorem valued_buildDeltaZsetForTable {delta : ArrowZSet}
    (built : buildDeltaZsetForTable parseCell table ops schema = .ok delta) :
    delta.valued = denoteTsv parseCell schema (ops.flatMap (deltaRows table)) := by
  unfold buildDeltaZsetForTable at built
  dsimp only at built
  split at built
  · next hollow =>
    rw [isEmpty_iff.mp hollow, ArrowZSet.valued_empty (mapError_eq_ok.mp built)]
    rfl
  · obtain ⟨rows, parsed, made⟩ := bind_eq_ok.mp built
    have isRows := (ArrowZSet.tryNew_eq_ok (mapError_eq_ok.mp made)).2
    obtain ⟨_, _, mapped⟩ := bind_eq_ok.mp (mapError_eq_ok.mp parsed)
    rw [ArrowZSet.valued, isRows]
    refine map_eq_map_of_mapM_eq_ok (fun row result returned => ?_) mapped
    obtain ⟨cells, isCells, ended⟩ := bind_eq_ok.mp returned
    cases ended
    rw [rowOfTsv, isCells]

/-- The delta of the committed operations is the change of the table exactly when no committed
update finds another row under its new row key. -/
theorem delta_is_change_iff {store : Store} {reader : ShardReader}
    (faithful : ∀ key image, reader key = .ok image → image = store.lookup key)
    {ops committed : List DmlOp} (apart : ∀ op ∈ ops, op.Apart table)
    (isCommitted : committedDmlOps reader ops = .ok committed) {delta : ArrowZSet}
    (built : buildDeltaZsetForTable parseCell table committed schema = .ok delta) :
    (∀ row, weight delta.valued row =
      weight (storedRows parseCell schema (store.writeBatch (appendDmlOps committed)) table) row -
        weight (storedRows parseCell schema store table) row) ↔
      ∀ before op after, committed = before ++ op :: after →
        ¬ op.Overwrites table (store.writeBatch (appendDmlOps before)) := by
  obtain ⟨valid, committedApart⟩ := allValid_committedDmlOps faithful apart isCommitted
  have nothingLost : (∀ row, weight (denoteOnce parseCell schema (lostRows table store committed))
      row = 0) ↔ lostRows table store committed = [] := weight_map_one_eq_zero_iff
  rw [← lostRows_eq_nil_iff, ← nothingLost, valued_buildDeltaZsetForTable built]
  refine forall_congr' fun row => ?_
  rw [weight_storedRows_commit committedApart valid]
  constructor <;> intro same <;> omega

end Law

/-! ## Sample tables -/

def decimalCell (_ : DataType) : Option Bytes → Except String Cell
  | none => .ok (Cell.ofInt64? none)
  | some text =>
    if text.all fun byte => 0x30 ≤ byte ∧ byte ≤ 0x39 then
      .ok (Cell.ofInt64 (text.foldl (fun value byte => 10 * value +
        Int64.ofNat (byte.toNat - 0x30)) 0))
    else .error "invalid digit found in string"

def accountFields : List Field := [⟨"id", .int64, true⟩, ⟨"amount", .int64, true⟩]

def accountTable : Bytes := [0x61, 0x63, 0x63]

def accountKey (digit : UInt8) : Bytes := [0x69, 0x64, 0x3D, digit]

def accountTsv (first second : UInt8) : Bytes := [first, 0x09, second]

def accountStore : Store :=
  (((∅ : Store).insert (viewOutputKey accountTable (accountKey 0x31)) (accountTsv 0x31 0x35)).insert
    (viewOutputKey accountTable (accountKey 0x32)) (accountTsv 0x32 0x36))

/-- An insert, an update in place, a delete, and an insert of a row that is there. -/
def accountOps : List DmlOp :=
  [.insert accountTable [] (accountTsv 0x33 0x37) (accountKey 0x33),
    .update accountTable (accountKey 0x31) (accountTsv 0x31 0x35) (accountKey 0x31)
      (accountTsv 0x31 0x38),
    .delete accountTable (accountKey 0x32) (some (accountTsv 0x32 0x36)),
    .insert accountTable [] (accountTsv 0x33 0x39) (accountKey 0x33)]

/-- An update that moves the first row to the key of the second. -/
def accountMove : List DmlOp :=
  [.update accountTable (accountKey 0x31) (accountTsv 0x31 0x35) (accountKey 0x32)
    (accountTsv 0x32 0x35)]

/-- A row that is inserted, and deleted under the upper-case name of its table. -/
def accountSpellings : List DmlOp :=
  [.insert accountTable [] (accountTsv 0x33 0x37) (accountKey 0x33),
    .delete [0x41, 0x43, 0x43] (accountKey 0x33) (some (accountTsv 0x33 0x37))]

theorem delta_is_change_iff_sample : ∃ committed delta,
    committedDmlOps accountStore.reader accountOps = .ok committed ∧
      buildDeltaZsetForTable decimalCell accountTable committed accountFields = .ok delta ∧
      weight delta.valued [some (.int64 1), some (.int64 8)] = 1 ∧
      ((∀ row, weight delta.valued row = weight (storedRows decimalCell accountFields
            (accountStore.writeBatch (appendDmlOps committed)) accountTable) row -
          weight (storedRows decimalCell accountFields accountStore accountTable) row) ↔
        ∀ before op after, committed = before ++ op :: after →
          ¬ op.Overwrites accountTable (accountStore.writeBatch (appendDmlOps before))) := by
  obtain ⟨⟨committed, delta⟩, ran, tested⟩ := exists_ok_of_any
    (do
      let committed ← committedDmlOps accountStore.reader accountOps
      let delta ← buildDeltaZsetForTable decimalCell accountTable committed accountFields
      pure (committed, delta))
    (fun result => decide (weight result.2.valued [some (.int64 1), some (.int64 8)] = 1))
    (by decide +kernel)
  obtain ⟨_, isCommitted, rest⟩ := bind_eq_ok.mp ran
  obtain ⟨_, built, finished⟩ := bind_eq_ok.mp rest
  cases finished
  exact ⟨committed, delta, isCommitted, built, of_decide_eq_true tested,
    delta_is_change_iff (fun key image read => by cases read; rfl)
      (by decide) isCommitted built⟩

theorem exists_delta (ops : List DmlOp) (row : Row)
    (kept : (committedDmlOps accountStore.reader ops).toOption.any (fun all => all = ops) = true)
    (hidden : (buildDeltaZsetForTable decimalCell accountTable ops accountFields).toOption.any
      (fun delta => weight delta.valued row = 0) = true) :
    ∃ delta, committedDmlOps accountStore.reader ops = .ok ops ∧
      buildDeltaZsetForTable decimalCell accountTable ops accountFields = .ok delta ∧
      weight delta.valued row = 0 := by
  obtain ⟨committed, isCommitted, same⟩ := exists_ok_of_any _ _ kept
  obtain ⟨delta, built, tested⟩ := exists_ok_of_any _ _ hidden
  rw [of_decide_eq_true same] at isCommitted
  exact ⟨delta, isCommitted, built, of_decide_eq_true tested⟩

/-- An update onto the key of another row removes that row, and no delta says so. A row that is
inserted under one spelling of its table and deleted under another stays stored, and the delta of
the two is zero. -/
theorem update_onto_occupied_key :
    (∃ delta, committedDmlOps accountStore.reader accountMove = .ok accountMove ∧
      buildDeltaZsetForTable decimalCell accountTable accountMove accountFields = .ok delta ∧
      weight delta.valued [some (.int64 2), some (.int64 6)] = 0 ∧
      weight (storedRows decimalCell accountFields accountStore accountTable)
        [some (.int64 2), some (.int64 6)] = 1 ∧ weight (storedRows decimalCell accountFields
        (accountStore.writeBatch (appendDmlOps accountMove)) accountTable)
        [some (.int64 2), some (.int64 6)] = 0) ∧
    ∃ delta, committedDmlOps accountStore.reader accountSpellings = .ok accountSpellings ∧
      buildDeltaZsetForTable decimalCell accountTable accountSpellings accountFields = .ok delta ∧
      weight delta.valued [some (.int64 3), some (.int64 7)] = 0 ∧
      weight (storedRows decimalCell accountFields accountStore accountTable)
        [some (.int64 3), some (.int64 7)] = 0 ∧ weight (storedRows decimalCell accountFields
        (accountStore.writeBatch (appendDmlOps accountSpellings)) accountTable)
        [some (.int64 3), some (.int64 7)] = 1 := by
  constructor
  · obtain ⟨delta, isCommitted, built, hidden⟩ := exists_delta accountMove
      [some (.int64 2), some (.int64 6)] (by decide +kernel) (by decide +kernel)
    exact ⟨delta, isCommitted, built, hidden, by decide +kernel, by decide +kernel⟩
  · obtain ⟨delta, isCommitted, built, hidden⟩ := exists_delta accountSpellings
      [some (.int64 3), some (.int64 7)] (by decide +kernel) (by decide +kernel)
    exact ⟨delta, isCommitted, built, hidden, by decide +kernel, by decide +kernel⟩

end RockStream
