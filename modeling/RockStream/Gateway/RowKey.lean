import RockStream.Gateway.DmlLaw
import RockStream.Gateway.Source

/-!
Contract: row keys as names of rows (`rockstream-gateway/src/server.rs`).

A row key joins `{column}={value}` with bars. The values are not escaped, so that a value
may hold the text between two columns. A commit drops the insert of a row whose key is
occupied.

Owns: for which tables row keys tell rows apart, and that a commit then keeps every insert
of a row that is not stored.

Does not own: how the statement's literals become texts.
-/

namespace RockStream

open Lib Loop List

variable {cols first second : List Bytes} {table : Bytes}

/-! ## Keys -/

theorem buildRowKey_cons_cons (col next : Bytes) (cols : List Bytes) (val second : Bytes)
    (vals : List Bytes) : buildRowKey (col :: next :: cols) (val :: second :: vals) =
      col ++ 0x3D :: (val ++ 0x7C :: buildRowKey (next :: cols) (second :: vals)) := by
  simp [buildRowKey, joinTexts]

theorem buildRowKey_singleton (col val : Bytes) : buildRowKey [col] [val] = col ++ 0x3D :: val := by
  simp [buildRowKey, joinTexts]

/-- No value but the last holds a bar. -/
def BarFree (vals : List Bytes) : Prop := ∀ val ∈ vals.dropLast, (0x7C : UInt8) ∉ val

/-- Without bars the key can be read from the left. -/
theorem buildRowKey_injective_of_barFree
    (firstLength : first.length = cols.length) (secondLength : second.length = cols.length)
    (firstFree : BarFree first) (secondFree : BarFree second)
    (same : buildRowKey cols first = buildRowKey cols second) : first = second := by
  induction cols generalizing first second with
  | nil => rw [length_eq_zero_iff.mp firstLength, length_eq_zero_iff.mp secondLength]
  | cons col cols ih =>
    obtain ⟨val, vals, rfl⟩ := exists_cons_of_length_eq_add_one firstLength
    obtain ⟨other, others, rfl⟩ := exists_cons_of_length_eq_add_one secondLength
    cases cols with
    | nil =>
      rw [length_eq_zero_iff.mp (Nat.succ.inj firstLength),
        length_eq_zero_iff.mp (Nat.succ.inj secondLength)] at same ⊢
      rw [buildRowKey_singleton, buildRowKey_singleton] at same
      rw [(cons.inj (append_cancel_left same)).2]
    | cons next cols =>
      obtain ⟨val', vals, rfl⟩ := exists_cons_of_length_eq_add_one (Nat.succ.inj firstLength)
      obtain ⟨other', others, rfl⟩ :=
        exists_cons_of_length_eq_add_one (Nat.succ.inj secondLength)
      rw [buildRowKey_cons_cons, buildRowKey_cons_cons] at same
      have bodies := (cons.inj (append_cancel_left same)).2
      -- both bodies are cut at their first bar
      have cut := congrArg (splitOn 0x7C) bodies
      rw [splitOn_append_cons_self_of_not_mem (firstFree val (by simp)),
        splitOn_append_cons_self_of_not_mem (secondFree other (by simp))] at cut
      obtain rfl : val = other := (cons.inj cut).1
      have rest := (cons.inj (append_cancel_left bodies)).2
      rw [ih (Nat.succ.inj firstLength) (Nat.succ.inj secondLength)
        (fun value mem => firstFree value (by simp [mem]))
        (fun value mem => secondFree value (by simp [mem])) rest]

/-- Two rows of a table with at least two columns that share a key: the text between the first two
columns is part of the first value of one and of the second value of the other. -/
theorem exists_rowKey_collision (wide : 2 ≤ cols.length) :
    ∃ first second : List Bytes, first.length = cols.length ∧ second.length = cols.length ∧
      first ≠ second ∧ buildRowKey cols first = buildRowKey cols second := by
  match cols, wide with
  | col :: next :: cols, _ =>
    refine ⟨(0x7C :: (next ++ [0x3D])) :: [] :: cols, [] :: (0x7C :: (next ++ [0x3D])) :: cols,
      rfl, rfl, fun same => (by cases (cons.inj same).1), ?_⟩
    rw [buildRowKey_cons_cons, buildRowKey_cons_cons]
    cases cols with
    | nil =>
      rw [buildRowKey_singleton, buildRowKey_singleton]
      simp
    | cons third cols =>
      rw [buildRowKey_cons_cons, buildRowKey_cons_cons]
      simp

/-! ## Inserts -/

def insertRow (table : Bytes) (cols vals : List Bytes) : DmlOp :=
  .insert table cols (joinTexts 0x09 vals) (buildRowKey cols vals)

def HoldsRows (store : Store) (table : Bytes) (cols : List Bytes) (rows : List (List Bytes)) :
    Prop :=
  ∀ rowKey, store.lookup (viewOutputKey table rowKey) ≠ none ↔
    ∃ vals ∈ rows, rowKey = buildRowKey cols vals

/-- A commit keeps the inserts of rows that are different from each other and not stored. -/
def KeepsInserts (table : Bytes) (cols : List Bytes) : Prop :=
  ∀ (store : Store) (rows inserts : List (List Bytes)), HoldsRows store table cols rows →
    (∀ vals ∈ rows ++ inserts, vals.length = cols.length) → (rows ++ inserts).Nodup →
      committedDmlOps store.reader (inserts.map (insertRow table cols)) =
        .ok (inserts.map (insertRow table cols))

theorem exists_cachedRowImage (store : Store) (images : RowImages) (table rowKey : Bytes) :
    ∃ result, cachedRowImage store.reader images table rowKey = .ok result := by
  unfold cachedRowImage
  split <;> exact ⟨_, rfl⟩

theorem exists_prefetchImages (store : Store) (tables : HashMap (Bytes × Bytes) Bytes) :
    ∃ images, prefetchImages store.reader tables = .ok images := by
  unfold prefetchImages
  generalize (∅ : RowImages) = images
  induction tables.toPairs generalizing images with
  | nil => exact ⟨images, rfl⟩
  | cons entry entries ih => exact ih _

theorem reader_faithful (store : Store) :
    ∀ key image, store.reader key = .ok image → image = store.lookup key :=
  fun _ _ read => (Except.ok.inj read).symm

theorem foldlM_commitOp_inserts {store : Store}
    {inserts : List (List Bytes)} {images : RowImages} {kept : List DmlOp}
    (free : ∀ vals ∈ inserts, imageAt table store images (buildRowKey cols vals) = none)
    (distinct : (inserts.map (buildRowKey cols)).Nodup) :
    ∃ final, (inserts.map (insertRow table cols)).foldlM (commitOp store.reader) (images, kept) =
      .ok (final, kept ++ inserts.map (insertRow table cols)) := by
  induction inserts generalizing images kept with
  | nil => exact ⟨images, by rw [map_nil, append_nil]; rfl⟩
  | cons vals inserts ih =>
    obtain ⟨apart, distinct⟩ := nodup_cons.mp distinct
    obtain ⟨⟨image, next⟩, read⟩ :=
      exists_cachedRowImage store images table (buildRowKey cols vals)
    obtain ⟨isImage, sameImages⟩ : (table = table → image =
        imageAt table store images (buildRowKey cols vals)) ∧
        ∀ query, imageAt table store next query = imageAt table store images query :=
      cachedRowImage_eq_ok (reader_faithful store) (.inl rfl) read
    have absent : image = none := (isImage rfl).trans (free vals (by simp))
    have stepped : commitOp store.reader (images, kept) (insertRow table cols vals) =
        .ok (next.insert (toAsciiLowercase table, buildRowKey cols vals)
          (some (joinTexts 0x09 vals)), kept ++ [insertRow table cols vals]) := by
      refine (bind_of_ok read _).trans ?_
      rw [absent]
      rfl
    rw [map_cons, foldlM_cons, stepped]
    have stillFree : ∀ other ∈ inserts, imageAt table store (next.insert
        (toAsciiLowercase table, buildRowKey cols vals) (some (joinTexts 0x09 vals)))
          (buildRowKey cols other) = none := by
      intro other mem
      rw [imageAt_insert (.inl rfl), if_neg, sameImages, free other (by simp [mem])]
      rintro ⟨_, same⟩
      exact apart (mem_map.mpr ⟨other, mem, same⟩)
    obtain ⟨final, looped⟩ := ih stillFree distinct
    refine ⟨final, looped.trans ?_⟩
    rw [append_assoc]
    rfl

theorem keepsInserts_of_injective
    (injective : ∀ first second : List Bytes, first.length = cols.length →
      second.length = cols.length → first ≠ second →
        buildRowKey cols first ≠ buildRowKey cols second) : KeepsInserts table cols := by
  intro store rows inserts holds lengths distinct
  have sameOf : ∀ first ∈ rows ++ inserts, ∀ second ∈ rows ++ inserts,
      buildRowKey cols first = buildRowKey cols second → first = second :=
    fun first firstIn second secondIn same => not_not.mp fun ne =>
      injective first second (lengths first firstIn) (lengths second secondIn) ne same
  have uniform : ∀ op ∈ inserts.map (insertRow table cols),
      op.table = table ∨ toAsciiLowercase op.table ≠ toAsciiLowercase table := by
    intro op mem
    obtain ⟨vals, _, rfl⟩ := mem_map.mp mem
    exact .inl rfl
  obtain ⟨images, read⟩ := exists_prefetchImages store
    (dmlImageTables (inserts.map (insertRow table cols)))
  have shown := imageAt_prefetchImages (reader_faithful store) uniform read
  have free : ∀ vals ∈ inserts, imageAt table store images (buildRowKey cols vals) = none := by
    intro vals mem
    rw [shown]
    by_contra occupied
    obtain ⟨other, inRows, same⟩ := (holds _).mp occupied
    obtain rfl := sameOf vals (mem_append_right _ mem) other
      (mem_append_left _ inRows) same
    exact (nodup_append.mp distinct).2.2 vals inRows vals mem rfl
  have distinctKeys : (inserts.map (buildRowKey cols)).Nodup :=
    List.Nodup.map_on (fun first firstIn second secondIn =>
      sameOf first (mem_append_right _ firstIn) second (mem_append_right _ secondIn))
      (nodup_append.mp distinct).2.1
  obtain ⟨final, looped⟩ : ∃ final, (inserts.map (insertRow table cols)).foldlM
      (commitOp store.reader) (images, []) =
        .ok (final, [] ++ inserts.map (insertRow table cols)) :=
    foldlM_commitOp_inserts free distinctKeys
  unfold committedDmlOps
  rw [bind_of_ok read, bind_of_ok looped]
  rfl

theorem not_keepsInserts_of_collision (firstLength : first.length = cols.length)
    (secondLength : second.length = cols.length) (ne : first ≠ second)
    (same : buildRowKey cols first = buildRowKey cols second) : ¬ KeepsInserts table cols := by
  intro keeps
  have holds : HoldsRows (AList.insert (viewOutputKey table (buildRowKey cols first))
      (joinTexts 0x09 first) (∅ : Store)) table cols [first] := by
    intro rowKey
    rw [HashMap.lookup_insert_eq]
    constructor
    · intro occupied
      split at occupied
      · next isKey => exact ⟨first, by simp, viewOutputKey_injective isKey⟩
      · exact absurd rfl occupied
    · rintro ⟨vals, mem, rfl⟩
      rw [mem_singleton.mp mem, if_pos rfl]
      exact Option.some_ne_none _
  have kept := keeps _ [first] [second] holds (by simp [firstLength, secondLength])
    (by simp [ne])
  obtain ⟨images, read, filtered⟩ := bind_eq_ok.mp kept
  obtain ⟨⟨finalImages, committed⟩, looped, ended⟩ := bind_eq_ok.mp filtered
  obtain ⟨stepped, isStep, ended⟩ := bind_eq_ok.mp looped
  cases ended
  obtain ⟨⟨image, next⟩, cached, tested⟩ := bind_eq_ok.mp isStep
  have isImage : table = table → image = imageAt table _ images (buildRowKey cols second) :=
    (cachedRowImage_eq_ok (reader_faithful _) (.inl rfl) cached).1
  have occupied : image ≠ none := by
    rw [isImage rfl, imageAt_prefetchImages (reader_faithful _)
      (by simp [Spelled, insertRow, DmlOp.table]) read]
    exact (holds _).mpr ⟨first, by simp, same.symm⟩
  cases image with
  | none => exact occupied rfl
  | some image =>
    cases tested
    cases ended

/-- Row keys tell the rows of a table apart exactly when it has at most one column, and exactly then
a commit keeps every insert of a row that is not stored. In every table they tell rows apart whose
values, the last ones excepted, hold no bar. -/
theorem rowKeys_injective_iff (table : Bytes) (cols : List Bytes) :
    ((∀ first second : List Bytes, first.length = cols.length → second.length = cols.length →
      first ≠ second → buildRowKey cols first ≠ buildRowKey cols second) ↔ cols.length ≤ 1) ∧
    (KeepsInserts table cols ↔ cols.length ≤ 1) ∧
    ∀ first second : List Bytes, first.length = cols.length → second.length = cols.length →
      BarFree first → BarFree second → first ≠ second →
        buildRowKey cols first ≠ buildRowKey cols second := by
  have narrow : cols.length ≤ 1 → ∀ first second : List Bytes, first.length = cols.length →
      second.length = cols.length → first ≠ second →
        buildRowKey cols first ≠ buildRowKey cols second := by
    intro isNarrow first second firstLength secondLength different same
    have free : ∀ vals : List Bytes, vals.length = cols.length → BarFree vals := by
      intro vals length val member
      have short := length_pos_of_mem member
      rw [length_dropLast, length] at short
      omega
    exact different (buildRowKey_injective_of_barFree firstLength secondLength
      (free first firstLength) (free second secondLength) same)
  refine ⟨⟨fun injective => ?_, narrow⟩, ⟨fun keeps => ?_, fun isNarrow =>
    keepsInserts_of_injective (narrow isNarrow)⟩, ?_⟩
  · by_contra wide
    obtain ⟨first, second, firstLength, secondLength, different, same⟩ :=
      exists_rowKey_collision (not_le.mp wide)
    exact injective first second firstLength secondLength different same
  · by_contra wide
    obtain ⟨first, second, firstLength, secondLength, different, same⟩ :=
      exists_rowKey_collision (not_le.mp wide)
    exact not_keepsInserts_of_collision firstLength secondLength different same keeps
  · intro first second firstLength secondLength firstFree secondFree different same
    exact different (buildRowKey_injective_of_barFree firstLength secondLength firstFree secondFree
      same)

/-- In a table `t(a, b)` the rows `("x|b=y", "z")` and `("x", "y|b=z")` share a key, and the second
is not inserted where the first is stored. -/
theorem rowKey_with_bar : buildRowKey [[0x61], [0x62]] [[0x78, 0x7C, 0x62, 0x3D, 0x79], [0x7A]] =
        buildRowKey [[0x61], [0x62]] [[0x78], [0x79, 0x7C, 0x62, 0x3D, 0x7A]] ∧
      ((committedDmlOps (Store.reader (Store.apply ∅ (.put (viewOutputKey [0x74]
          (buildRowKey [[0x61], [0x62]] [[0x78, 0x7C, 0x62, 0x3D, 0x79], [0x7A]]))
          (joinTexts 0x09 [[0x78, 0x7C, 0x62, 0x3D, 0x79], [0x7A]]))))
        [insertRow [0x74] [[0x61], [0x62]]
          [[0x78], [0x79, 0x7C, 0x62, 0x3D, 0x7A]]]).toOption = some []) := by
  decide +kernel

end RockStream
