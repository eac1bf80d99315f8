import Mathlib

/-!
Contract: finite weighted collections as formal integer sums.

A weighted collection is a list of pairs of a value and an integer weight. Equal
values may occur several times, in any order; what a collection denotes is the
weight function it induces. Everything that is linear in that function is an
integral of a test function against the collection.

Owns:
- `integrate`, the pairing of a test function with a collection;
- `weight`, the pairing with the indicator of one value;
- `pairing`, the bilinear sum over all pairs of two collections;
- the algebra of these under append, map, filter and bind;
- the reading of an integral as a finite sum over distinct values, and the
  cancellation facts that follow for non-negative weights.

Does not own: any representation of a collection other than a list.
-/

namespace RockStream.Lib.Weighted

open List

universe u v

variable {α : Type u} {β : Type v}
variable {rows left : List (α × Int)} {test : α → Int} {value : α} {items : List β}
  {expand : β → List (α × Int)}

def integrate (test : α → Int) (rows : List (α × Int)) : Int :=
  (rows.map fun row => test row.1 * row.2).sum

def weight [DecidableEq α] (rows : List (α × Int)) (value : α) : Int :=
  integrate (fun candidate => if candidate = value then 1 else 0) rows

/-! ## Algebra of integrals -/

@[simp] theorem integrate_nil (test : α → Int) : integrate test [] = 0 := rfl

@[simp] theorem integrate_cons (test : α → Int) (row : α × Int) (rows : List (α × Int)) :
    integrate test (row :: rows) = test row.1 * row.2 + integrate test rows := by
  simp [integrate]

@[simp] theorem integrate_append (test : α → Int) (left right : List (α × Int)) :
    integrate test (left ++ right) = integrate test left + integrate test right := by
  simp [integrate]

theorem integrate_congr {first second : α → Int}
    (agree : ∀ row ∈ rows, first row.1 * row.2 = second row.1 * row.2) :
    integrate first rows = integrate second rows := by
  unfold integrate
  rw [map_congr_left agree]

theorem integrate_eq_zero
    (vanish : ∀ row ∈ rows, test row.1 * row.2 = 0) : integrate test rows = 0 := by
  unfold integrate
  rw [map_congr_left vanish]
  simp

theorem integrate_add (first second : α → Int) (rows : List (α × Int)) :
    integrate (fun value => first value + second value) rows =
      integrate first rows + integrate second rows := by
  simp [integrate, add_mul, sum_map_add]

theorem integrate_sub (first second : α → Int) (rows : List (α × Int)) :
    integrate (fun value => first value - second value) rows =
      integrate first rows - integrate second rows := by
  induction rows with
  | nil => simp
  | cons row rows ih =>
    simp only [integrate_cons, ih]
    ring

theorem integrate_mul_left (scalar : Int) (test : α → Int) (rows : List (α × Int)) :
    integrate (fun value => scalar * test value) rows = scalar * integrate test rows := by
  simp [integrate, mul_assoc, sum_map_mul_left]

theorem integrate_map (relabel : α → β) (test : β → Int) (rows : List (α × Int)) :
    integrate test (rows.map fun row => (relabel row.1, row.2)) =
      integrate (fun value => test (relabel value)) rows := by
  simp [integrate, Function.comp_def]

theorem integrate_map_scaled (relabel : α → β) (test : β → Int) (scale : Int)
    (rows : List (α × Int)) : integrate test (rows.map fun row => (relabel row.1, scale * row.2)) =
      integrate (fun value => test (relabel value)) rows * scale := by
  induction rows with
  | nil => simp
  | cons row rows ih =>
    rw [map_cons, integrate_cons, integrate_cons, ih]
    ring

theorem integrate_flatMap (test : β → Int) (expand : α → List (β × Int)) (items : List α) :
    integrate test (items.flatMap expand) =
      (items.map fun item => integrate test (expand item)).sum := by
  induction items with
  | nil => simp
  | cons item items ih =>
    simp [ih]

theorem integrate_flatten (test : α → Int) (parts : List (List (α × Int))) :
    integrate test parts.flatten = (parts.map (integrate test)).sum := by
  rw [← flatMap_id, integrate_flatMap]
  rfl

theorem integrate_filter (keep : α → Bool) (test : α → Int) (rows : List (α × Int)) :
    integrate test (rows.filter fun row => keep row.1) =
      integrate (fun value => if keep value then test value else 0) rows := by
  induction rows with
  | nil => simp
  | cons row rows ih =>
    by_cases kept : keep row.1 <;> simp [kept, ih]

/-! ## Pairings of two weighted lists -/

/-- The sum of a test over all pairs, each counted with the product of its weights. -/
def pairing (test : α → β → Int) (left : List (α × Int)) (right : List (β × Int)) : Int :=
  integrate (fun value => integrate (test value) right) left

theorem pairing_append_left (test : α → β → Int) (first second : List (α × Int))
    (right : List (β × Int)) :
    pairing test (first ++ second) right = pairing test first right + pairing test second right :=
  integrate_append _ first second

theorem pairing_append_right (test : α → β → Int) (left : List (α × Int))
    (first second : List (β × Int)) :
    pairing test left (first ++ second) = pairing test left first + pairing test left second := by
  unfold pairing
  simp only [integrate_append]
  exact integrate_add _ _ left

theorem pairing_comm (test : α → β → Int) (left : List (α × Int)) (right : List (β × Int)) :
    pairing test left right = pairing (fun value other => test other value) right left := by
  induction left with
  | nil => exact (integrate_eq_zero fun _ _ => by simp).symm
  | cons row rows ih =>
    have split : pairing test (row :: rows) right =
        row.2 * integrate (test row.1) right + pairing test rows right := by
      simp only [pairing, integrate_cons]
      ring
    rw [split, ih, ← integrate_mul_left]
    unfold pairing
    rw [← integrate_add]
    apply integrate_congr
    intro other _
    simp only [integrate_cons]
    ring

theorem pairing_congr {first second : α → β → Int} {right : List (β × Int)}
    (agree : ∀ row ∈ left, ∀ other ∈ right, first row.1 other.1 = second row.1 other.1) :
    pairing first left right = pairing second left right := by
  apply integrate_congr
  intro row mem
  congr 1
  apply integrate_congr
  intro other otherMember
  rw [agree row mem other otherMember]

theorem pairing_product (first : α → Int) (second : β → Int) (scale : Int)
    (left : List (α × Int)) (right : List (β × Int)) :
    pairing (fun value other => scale * (first value * second other)) left right =
      scale * (integrate first left * integrate second right) := by
  unfold pairing
  simp only [mul_comm _ (integrate second right), integrate_mul_left]

/-- The three-term expansion of the change of a pairing. -/
theorem pairing_append_append (test : α → β → Int) (left deltaLeft : List (α × Int))
    (right deltaRight : List (β × Int)) : pairing test (left ++ deltaLeft) (right ++ deltaRight) =
      pairing test left right + (pairing test deltaLeft right + pairing test left deltaRight +
        pairing test deltaLeft deltaRight) := by
  rw [pairing_append_left, pairing_append_right, pairing_append_right]
  ring

/-! ## Net weights -/

section Weight

variable [DecidableEq α]

@[simp] theorem weight_nil (value : α) : weight ([] : List (α × Int)) value = 0 := rfl

@[simp] theorem weight_cons (row : α × Int) (rows : List (α × Int)) (value : α) :
    weight (row :: rows) value = (if row.1 = value then row.2 else 0) + weight rows value := by
  by_cases same : row.1 = value <;> simp [weight, same]

@[simp] theorem weight_append (left right : List (α × Int)) (value : α) :
    weight (left ++ right) value = weight left value + weight right value := by
  simp [weight]

theorem weight_perm {right : List (α × Int)} (permutation : left.Perm right) (value : α) :
    weight left value = weight right value :=
  (permutation.map _).sum_eq

theorem weight_eq_zero_of_absent (absent : ∀ row ∈ rows, row.1 ≠ value) : weight rows value = 0 :=
  integrate_eq_zero fun row mem => by simp [absent row mem]

theorem weight_map [DecidableEq β] {relabel : β → α} (injective : Function.Injective relabel)
    (rows : List (β × Int)) (value : β) :
    weight (rows.map fun row => (relabel row.1, row.2)) (relabel value) = weight rows value := by
  simp only [weight, integrate_map, injective.eq_iff]

theorem weight_map_eq_zero {relabel : β → α} (absent : ∀ item, relabel item ≠ value)
    (rows : List (β × Int)) : weight (rows.map fun row => (relabel row.1, row.2)) value = 0 := by
  rw [weight, integrate_map]
  exact integrate_eq_zero fun row _ => by simp [absent row.1]

theorem weight_map_const (relabel : β → α) (amount : Int) (items : List β) (value : α) :
    weight (items.map fun item => (relabel item, amount)) value =
      amount * (items.map relabel).count value := by
  induction items with
  | nil => simp
  | cons item items ih =>
    rw [map_cons, weight_cons, ih, map_cons, count_cons]
    by_cases same : relabel item = value
    · simp [same, mul_add, add_comm]
    · simp [same]

/-- Rows of weight one cancel nothing. -/
theorem weight_map_one_eq_zero_iff {relabel : β → α} :
    (∀ value, weight (items.map fun item => (relabel item, 1)) value = 0) ↔ items = [] := by
  constructor
  · intro vanish
    refine eq_nil_iff_forall_not_mem.mpr fun item mem => ?_
    have counted := vanish (relabel item)
    rw [weight_map_const, one_mul, Int.natCast_eq_zero, count_eq_zero] at counted
    exact counted (mem_map_of_mem mem)
  · rintro rfl value
    rfl

theorem weight_filter_ne_zero (rows : List (α × Int)) (value : α) :
    weight (rows.filter fun row => row.2 ≠ 0) value = weight rows value := by
  induction rows with
  | nil => rfl
  | cons row rows ih =>
    rw [filter_cons, weight_cons]
    by_cases zero : row.2 = 0
    · rw [if_neg (by simp [zero]), ih, zero, ite_self, zero_add]
    · rw [if_pos (by simpa using zero), weight_cons, ih]

theorem weight_flatMap (expand : β → List (α × Int)) (items : List β) (value : α) :
    weight (items.flatMap expand) value = (items.map fun item => weight (expand item) value).sum :=
  integrate_flatMap _ expand items

theorem weight_flatMap_eq_zero (vanish : ∀ item ∈ items, weight (expand item) value = 0) :
    weight (items.flatMap expand) value = 0 := by
  rw [weight_flatMap]
  refine sum_eq_zero fun total mem => ?_
  obtain ⟨item, isItem, rfl⟩ := mem_map.mp mem
  exact vanish item isItem

theorem weight_flatMap_single [DecidableEq β] (nodup : items.Nodup) {item : β} (mem : item ∈ items)
    (others : ∀ other ∈ items, other ≠ item → weight (expand other) value = 0) :
    weight (items.flatMap expand) value = weight (expand item) value := by
  rw [weight_flatMap, sum_map_eq_nsmul_single item _ fun other ne isMember =>
    others other isMember ne, count_eq_one_of_mem nodup mem, one_nsmul]

theorem weight_of_nodup (distinct : (rows.map Prod.fst).Nodup)
    {amount : Int} (mem : (value, amount) ∈ rows) : weight rows value = amount := by
  have alone : ∀ other ∈ rows, other ≠ (value, amount) → other.1 ≠ value :=
    fun other isOther ne same => ne (inj_on_of_nodup_map distinct isOther mem same)
  rw [← flatMap_singleton' rows, weight_flatMap_single (distinct.of_map _) mem
    fun other isOther ne => by simp [alone other isOther ne]]
  simp

/-- A retraction of one optional value and an insertion of another. -/
theorem weight_replace (render : β → α) (old new : Option β) (value : α) :
    weight ((old.toList.map fun item => (render item, -1)) ++
        new.toList.map fun item => (render item, 1)) value =
      (if new.map render = some value then 1 else 0) -
        if old.map render = some value then 1 else 0 := by
  rw [weight_append, sub_eq_neg_add]
  congr 1
  · cases old <;> simp [apply_ite Neg.neg]
  · cases new <;> simp

theorem exists_nonzero_of_weight_ne_zero
    (present : weight rows value ≠ 0) : ∃ row ∈ rows, row.1 = value ∧ row.2 ≠ 0 := by
  by_contra absent
  push Not at absent
  refine present (integrate_eq_zero fun row mem => ?_)
  by_cases same : row.1 = value
  · rw [absent row mem same, mul_zero]
  · rw [if_neg same, zero_mul]

theorem exists_of_weight_ne_zero
    (present : weight rows value ≠ 0) : ∃ row ∈ rows, row.1 = value := by
  obtain ⟨row, mem, same, _⟩ := exists_nonzero_of_weight_ne_zero present
  exact ⟨row, mem, same⟩

/-- An integral is the finite sum of the test over the distinct values, each
counted with its net weight. -/
theorem integrate_eq_sum_weight (test : α → Int) (rows : List (α × Int))
    (support : Finset α) (covers : ∀ row ∈ rows, row.1 ∈ support) :
    integrate test rows = ∑ value ∈ support, test value * weight rows value := by
  induction rows with
  | nil => simp
  | cons row rows ih =>
    have headCovered : row.1 ∈ support := covers row (by simp)
    have tailSum := ih (fun other mem => covers other (by simp [mem]))
    simp only [integrate_cons, weight_cons, mul_add, Finset.sum_add_distrib, tailSum]
    congr 1
    rw [Finset.sum_eq_single row.1]
    · simp
    · intro value _ ne
      simp [Ne.symm ne]
    · intro absent
      exact absurd headCovered absent

/-- A test that only one value of non-zero weight passes. -/
theorem integrate_eq_mul_weight (value : α)
    (alone : ∀ other, other ≠ value → test other = 0 ∨ weight rows other = 0) :
    integrate test rows = test value * weight rows value := by
  rw [integrate_eq_sum_weight test rows (insert value (rows.map Prod.fst).toFinset) fun row mem =>
    Finset.mem_insert_of_mem (mem_toFinset.mpr (mem_map_of_mem mem))]
  refine Finset.sum_eq_single value (fun other _ ne => ?_) fun outside =>
    absurd (Finset.mem_insert_self _ _) outside
  rcases alone other ne with vanishes | absent
  · rw [vanishes, zero_mul]
  · rw [absent, mul_zero]

theorem integrate_eq_of_weight_eq (test : α → Int) {right : List (α × Int)}
    (agree : ∀ value, weight left value = weight right value) :
    integrate test left = integrate test right := by
  let support : Finset α := (left.map Prod.fst).toFinset ∪ (right.map Prod.fst).toFinset
  have leftCovered : ∀ row ∈ left, row.1 ∈ support := by
    intro row mem
    exact Finset.mem_union_left _ (mem_toFinset.mpr (mem_map_of_mem mem))
  have rightCovered : ∀ row ∈ right, row.1 ∈ support := by
    intro row mem
    exact Finset.mem_union_right _ (mem_toFinset.mpr (mem_map_of_mem mem))
  rw [integrate_eq_sum_weight test left support leftCovered,
    integrate_eq_sum_weight test right support rightCovered]
  exact Finset.sum_congr rfl fun value _ => by rw [agree value]

/-- Every value has a non-negative net weight. -/
def NonNegative (rows : List (α × Int)) : Prop := ∀ row ∈ rows, 0 ≤ weight rows row.1

instance (rows : List (α × Int)) : Decidable (NonNegative rows) :=
  inferInstanceAs (Decidable (∀ row ∈ rows, _))

variable (nonneg : NonNegative rows)
include nonneg

theorem NonNegative.weight_nonneg (value : α) : 0 ≤ weight rows value := by
  by_cases occurs : weight rows value = 0
  · rw [occurs]
  · obtain ⟨row, mem, rfl⟩ := exists_of_weight_ne_zero occurs
    exact nonneg row mem

/-- Under non-negative weights an integral of a non-negative test vanishes
exactly when every tested value has net weight zero. -/
theorem NonNegative.integrate_eq_zero_iff (testNonneg : ∀ value, 0 ≤ test value) :
    integrate test rows = 0 ↔ ∀ row ∈ rows, test row.1 = 0 ∨ weight rows row.1 = 0 := by
  let support : Finset α := (rows.map Prod.fst).toFinset
  have covered : ∀ row ∈ rows, row.1 ∈ support := by
    intro row mem
    exact mem_toFinset.mpr (mem_map_of_mem mem)
  rw [integrate_eq_sum_weight test rows support covered,
    Finset.sum_eq_zero_iff_of_nonneg
      (fun value _ => mul_nonneg (testNonneg value) (nonneg.weight_nonneg value))]
  constructor
  · intro vanish row mem
    exact mul_eq_zero.mp (vanish row.1 (covered row mem))
  · intro vanish value mem
    obtain ⟨row, rowMember, rfl⟩ := mem_map.mp (mem_toFinset.mp mem)
    exact mul_eq_zero.mpr (vanish row rowMember)

theorem NonNegative.integrate_nonneg
    (testNonneg : ∀ value, 0 ≤ test value) : 0 ≤ integrate test rows := by
  rw [integrate_eq_sum_weight test rows (rows.map Prod.fst).toFinset
    (fun row mem => mem_toFinset.mpr (mem_map_of_mem mem))]
  exact Finset.sum_nonneg fun value _ =>
    mul_nonneg (testNonneg value) (nonneg.weight_nonneg value)

/-- Under non-negative weights the weight of a set vanishes exactly when no value of positive weight
is in it. -/
theorem NonNegative.indicator_eq_zero_iff (Holds : α → Prop) [DecidablePred Holds] :
    integrate (fun value => if Holds value then 1 else 0) rows = 0 ↔
      ¬ ∃ row ∈ rows, 0 < weight rows row.1 ∧ Holds row.1 := by
  rw [nonneg.integrate_eq_zero_iff fun value => by split <;> simp]
  push Not
  refine forall₂_congr fun row mem => ?_
  have nonneg := nonneg.weight_nonneg row.1
  by_cases holds : Holds row.1
  · simp only [holds, if_true, one_ne_zero, false_or, not_true_eq_false, imp_false]
    omega
  · simp [holds]

end Weight

end RockStream.Lib.Weighted
