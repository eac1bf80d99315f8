import Mathlib

/-!
Contract: finite maps with distinct keys, and sums over their entries.

A map is Mathlib's association list with distinct keys. Its entry order is not
observable by `lookup`; every fact about an iteration that is stated here is a
sum over the entries, which no reordering changes.

Owns:
- `HashMap`, its pairs, values and size;
- `sumOver`, the sum of a function over the entries, and its laws under
  `insert` and `erase`;
- the split of a map at one key;
- the values of maps with the same lookups.

Does not own: hashing, capacity, or any iteration order.
-/

namespace RockStream.Lib

open List

universe u v

/-- A finite map: an association list whose keys are distinct. -/
abbrev HashMap (κ : Type u) (ν : Type v) := AList fun _ : κ => ν

namespace HashMap

variable {κ : Type u} {ν : Type v}

def toPairs (map : HashMap κ ν) : List (κ × ν) :=
  map.entries.map fun entry => (entry.1, entry.2)

def values (map : HashMap κ ν) : List ν :=
  map.entries.map fun entry => entry.2

def size (map : HashMap κ ν) : Nat := map.entries.length

def sumOver (term : κ → ν → Int) (map : HashMap κ ν) : Int :=
  (map.entries.map fun entry => term entry.1 entry.2).sum

@[simp] theorem sumOver_empty (term : κ → ν → Int) : sumOver term (∅ : HashMap κ ν) = 0 := rfl

theorem sum_toPairs (term : κ × ν → Int) (map : HashMap κ ν) :
    ((toPairs map).map term).sum = sumOver (fun key value => term (key, value)) map := by
  simp [toPairs, sumOver, Function.comp_def]

theorem sum_values (term : ν → Int) (map : HashMap κ ν) :
    ((values map).map term).sum = sumOver (fun _ value => term value) map := by
  simp [values, sumOver, Function.comp_def]

theorem nodup_keys (map : HashMap κ ν) : ((toPairs map).map Prod.fst).Nodup := by
  have keys : (toPairs map).map Prod.fst = map.keys := by
    simp [toPairs, AList.keys, keys, Function.comp_def]
  rw [keys]
  exact map.keys_nodup

section Keyed

variable [DecidableEq κ]

@[simp] theorem mem_toPairs {map : HashMap κ ν} {key : κ} {value : ν} :
    (key, value) ∈ toPairs map ↔ map.lookup key = some value := by
  rw [← Option.mem_def, AList.mem_lookup_iff]
  simp only [toPairs, mem_map, Prod.mk.injEq]
  constructor
  · rintro ⟨⟨entryKey, entryValue⟩, mem, rfl, rfl⟩
    exact mem
  · intro mem
    exact ⟨⟨key, value⟩, mem, rfl, rfl⟩

theorem mem_values {map : HashMap κ ν} {value : ν} :
    value ∈ values map ↔ ∃ key, map.lookup key = some value := by
  simp only [← mem_toPairs, values, toPairs, mem_map, Prod.mk.injEq]
  constructor
  · rintro ⟨entry, mem, rfl⟩
    exact ⟨entry.1, entry, mem, rfl, rfl⟩
  · rintro ⟨key, entry, mem, rfl, rfl⟩
    exact ⟨entry, mem, rfl⟩

section

variable (term : κ → ν → Int) (map : HashMap κ ν) (key : κ)
include term map key

theorem sumOver_insert (value : ν) :
    sumOver term (map.insert key value) = term key value + sumOver term (map.erase key) := by
  simp [sumOver, AList.entries_insert, AList.erase]

theorem sumOver_eq_erase : sumOver term map =
      (map.lookup key).elim 0 (term key) + sumOver term (map.erase key) := by
  by_cases mem : key ∈ map
  · obtain ⟨value, before, after, fresh, split, erased⟩ :=
      exists_of_kerase (AList.mem_keys.mp mem)
    have found : map.lookup key = some value := by
      rw [← Option.mem_def, AList.mem_lookup_iff, split]
      simp
    rw [found]
    simp only [sumOver, AList.erase, erased]
    rw [split]
    simp only [map_append, map_cons, sum_append, sum_cons,
      Option.elim_some]
    ring
  · have absent : map.lookup key = none := AList.lookup_eq_none.mpr mem
    have unchanged : map.erase key = map := by
      apply AList.ext
      exact kerase_of_notMem_keys (fun inside => mem (AList.mem_keys.mpr inside))
    rw [absent, unchanged]
    simp

theorem sumOver_insert_eq (value : ν) : sumOver term (map.insert key value) =
      sumOver term map - (map.lookup key).elim 0 (term key) + term key value := by
  rw [sumOver_insert, sumOver_eq_erase term map key]
  ring

theorem sumOver_erase_eq : sumOver term (map.erase key) =
      sumOver term map - (map.lookup key).elim 0 (term key) := by
  rw [sumOver_eq_erase term map key]
  ring

end

theorem sumOver_congr {first second : κ → ν → Int} {map : HashMap κ ν}
    (agree : ∀ key value, map.lookup key = some value → first key value = second key value) :
    sumOver first map = sumOver second map := by
  unfold sumOver
  rw [map_congr_left]
  intro entry mem
  exact agree entry.1 entry.2 (AList.mem_lookup_iff.mpr mem)

theorem sumOver_eq_zero {term : κ → ν → Int} {map : HashMap κ ν}
    (vanish : ∀ key value, map.lookup key = some value → term key value = 0) :
    sumOver term map = 0 := by
  have zeros : sumOver term map = sumOver (fun _ _ => 0) map := sumOver_congr vanish
  rw [zeros]
  simp [sumOver]

theorem sumOver_single (term : ν → Int) (map : HashMap κ ν) (key : κ) :
    sumOver (fun candidate value => if candidate = key then term value else 0) map =
      (map.lookup key).elim 0 term := by
  rw [sumOver_eq_erase _ map key]
  have rest : sumOver (fun candidate value => if candidate = key then term value else 0)
      (map.erase key) = 0 := by
    apply sumOver_eq_zero
    intro candidate value found
    rw [if_neg]
    rintro rfl
    simp at found
  rw [rest]
  cases map.lookup key <;> simp

theorem lookup_insert_eq (map : HashMap κ ν) (key candidate : κ) (value : ν) :
    (map.insert key value).lookup candidate =
      if candidate = key then some value else map.lookup candidate := by
  split
  · next same =>
    subst same
    exact AList.lookup_insert map
  · next ne =>
    exact AList.lookup_insert_ne ne

theorem isSome_insert (map : HashMap κ ν) (key candidate : κ) (value : ν) :
    ((map.insert key value).lookup candidate).isSome ↔
      candidate = key ∨ (map.lookup candidate).isSome := by
  rw [lookup_insert_eq]
  split
  · next same => simp [same]
  · next ne => simp [ne]

theorem lookup_erase_eq (map : HashMap κ ν) (key candidate : κ) : (map.erase key).lookup candidate =
      if candidate = key then none else map.lookup candidate := by
  split
  · next same =>
    subst same
    exact AList.lookup_erase candidate map
  · next ne =>
    exact AList.lookup_erase_ne ne

theorem lookup_of_absent {map : HashMap κ ν} {key : κ} (absent : map.lookup key = none)
    (candidate : κ) : map.lookup candidate = if candidate = key then none
      else map.lookup candidate := by
  split
  · next same => rw [same, absent]
  · rfl

theorem values_perm {first second : HashMap κ ν}
    (same : ∀ key, first.lookup key = second.lookup key) : (values first).Perm (values second) := by
  refine List.Perm.map _ (lookup_ext first.nodupKeys second.nodupKeys ?_)
  intro key value
  rw [show first.entries.dlookup key = second.entries.dlookup key from same key]

/-- The entries whose value a function keeps, with the new values. -/
def filterMap {μ : Type*} (keep : ν → Option μ) (map : HashMap κ ν) : HashMap κ μ where
  entries := map.entries.filterMap fun entry => (keep entry.2).map fun value => ⟨entry.1, value⟩
  nodupKeys := by
    have sublist : ((map.entries.filterMap fun entry =>
        (keep entry.2).map fun value => (⟨entry.1, value⟩ : Σ _ : κ, μ)).map Sigma.fst).Sublist
          (map.entries.map Sigma.fst) := by
      induction map.entries with
      | nil => exact .slnil
      | cons entry entries ih =>
        cases kept : keep entry.2 with
        | none => simpa [kept] using ih.cons entry.1
        | some value => simpa [kept] using ih.cons_cons entry.1
    exact List.Nodup.sublist sublist map.keys_nodup

@[simp] theorem lookup_filterMap {μ : Type*} (keep : ν → Option μ) (map : HashMap κ ν) (key : κ) :
    (filterMap keep map).lookup key = (map.lookup key).bind keep := by
  apply Option.ext
  intro value
  have kept : (⟨key, value⟩ : Σ _ : κ, μ) ∈ (filterMap keep map).entries ↔
      ∃ old, (⟨key, old⟩ : Σ _ : κ, ν) ∈ map.entries ∧ keep old = some value := by
    simp only [filterMap, mem_filterMap, Option.map_eq_some_iff]
    constructor
    · rintro ⟨⟨entryKey, old⟩, mem, found, isValue, same⟩
      cases same
      exact ⟨old, mem, isValue⟩
    · rintro ⟨old, mem, isValue⟩
      exact ⟨⟨key, old⟩, mem, value, isValue, rfl⟩
  rw [← Option.mem_def, AList.mem_lookup_iff, kept, Option.bind_eq_some_iff]
  exact exists_congr fun old => and_congr_left' (by rw [← Option.mem_def, AList.mem_lookup_iff])

/-- A loop whose steps each rewrite the entry of their own key, all keys being different: every
entry is rewritten by its own step, the others stay. -/
theorem lookup_foldl {ι : Type*} (step : HashMap κ ν → ι → HashMap κ ν) (key : ι → κ)
    (rewrite : ι → Option ν → Option ν) (steps : ∀ map item query, (step map item).lookup query =
      if query = key item then rewrite item (map.lookup query) else map.lookup query)
    {items : List ι} (distinct : (items.map key).Nodup) (map : HashMap κ ν) : (∀ item ∈ items,
        (items.foldl step map).lookup (key item) = rewrite item (map.lookup (key item))) ∧
      ∀ query, query ∉ items.map key → (items.foldl step map).lookup query = map.lookup query := by
  induction items generalizing map with
  | nil => simp
  | cons head tail ih =>
    rw [map_cons, nodup_cons] at distinct
    obtain ⟨rewritten, kept⟩ := ih distinct.2 (step map head)
    rw [foldl_cons]
    constructor
    · intro item mem
      rcases mem_cons.mp mem with rfl | inTail
      · rw [kept _ distinct.1, steps, if_pos rfl]
      · have apart : key item ≠ key head := by
          intro same
          exact distinct.1 (same ▸ mem_map_of_mem inTail)
        rw [rewritten item inTail, steps, if_neg apart]
    · intro query absent
      rw [map_cons, mem_cons, not_or] at absent
      rw [kept query absent.2, steps, if_neg absent.1]

theorem lookup_foldl_insert {ι : Type*} (key : ι → κ) (value : ι → ν) {items : List ι}
    (determined : ∀ first ∈ items, ∀ second ∈ items, key first = key second →
      value first = value second) (query : κ) (found : ν) :
    (items.foldl (fun (map : HashMap κ ν) item => map.insert (key item) (value item)) ∅).lookup
      query = some found ↔ ∃ item ∈ items, key item = query ∧ value item = found := by
  induction items using reverseRecOn with
  | nil => simp
  | append_singleton items last ih =>
    have earlier := ih fun first isFirst second isSecond =>
      determined first (by simp [isFirst]) second (by simp [isSecond])
    rw [foldl_append, foldl_cons, foldl_nil, lookup_insert_eq]
    split
    · next same =>
      subst same
      constructor
      · intro isFound
        exact ⟨last, by simp, rfl, Option.some.inj isFound⟩
      · rintro ⟨item, mem, sameKey, isFound⟩
        rw [← determined item mem last (by simp) sameKey, isFound]
    · next ne =>
      rw [earlier]
      constructor
      · rintro ⟨item, mem, isKey⟩
        exact ⟨item, by simp [mem], isKey⟩
      · rintro ⟨item, mem, isKey, isFound⟩
        rcases mem_append.mp mem with old | new
        · exact ⟨item, old, isKey, isFound⟩
        · rw [mem_singleton.mp new] at isKey
          exact absurd isKey.symm ne

theorem values_foldl_insert {ι : Type*} (key : ι → κ) (value : ι → ν) {items : List ι}
    (distinct : (items.map key).Nodup) (map : HashMap κ ν)
    (fresh : ∀ item ∈ items, key item ∉ map) :
    (values (items.foldl (fun map item => map.insert (key item) (value item)) map)).Perm
      (items.map value ++ values map) := by
  induction items generalizing map with
  | nil => exact .refl _
  | cons item items ih =>
    rw [map_cons, nodup_cons] at distinct
    have stillFresh : ∀ other ∈ items, key other ∉ map.insert (key item) (value item) := by
      intro other mem inside
      rcases (AList.mem_insert map).mp inside with same | old
      · exact distinct.1 (same ▸ mem_map_of_mem mem)
      · exact fresh other (by simp [mem]) old
    refine (ih distinct.2 _ stillFresh).trans ?_
    have grown : values (map.insert (key item) (value item)) = value item :: values map := by
      unfold values
      rw [AList.entries_insert_of_notMem (fresh item (by simp))]
      rfl
    rw [grown, map_cons]
    exact perm_middle

/-! ## Grouping a list by key -/

variable {α : Type*}

/-- `map.entry(key).or_default().push(value)` for each item. -/
def groupBy (key : α → κ) (value : α → ν) (items : List α) : HashMap κ (List ν) :=
  items.foldl (fun map item =>
    map.insert (key item) ((map.lookup (key item)).getD [] ++ [value item])) ∅

theorem lookup_groupBy (key : α → κ) (value : α → ν) (items : List α) (candidate : κ) :
    ((groupBy key value items).lookup candidate).getD [] =
      (items.filter fun item => key item = candidate).map value := by
  unfold groupBy
  induction items using reverseRecOn with
  | nil => rfl
  | append_singleton items item ih =>
    rw [foldl_append, foldl_cons, foldl_nil, lookup_insert_eq,
      filter_append, map_append]
    split
    · next same =>
      subst same
      rw [Option.getD_some, ih]
      simp
    · next ne =>
      rw [ih]
      simp [Ne.symm ne]

end Keyed

end HashMap

end RockStream.Lib
