import RockStream.Lib.Bytes

/-!
Contract: the order of signed integers, and the order by a descending rank with a
byte-wise tie break.

Owns:
- the linear order of 64-bit signed integers;
- `ByRank`, its totality and transitivity, and its antisymmetry where the tie break tells
  items apart;
- the uniqueness of the sorted list of given items.

Does not own: any particular rank.
-/

namespace RockStream.Lib

universe u

variable {α : Type u}

instance linearOrderInt64 : LinearOrder Int64 where
  le_refl value := Int64.le_refl value
  le_trans _ _ _ := Int64.le_trans
  lt_iff_le_not_ge left right := by
    rw [Int64.lt_iff_toInt_lt, Int64.le_iff_toInt_le, Int64.le_iff_toInt_le]
    omega
  le_antisymm _ _ := Int64.le_antisymm
  le_total := Int64.le_total
  toDecidableLE := inferInstance
  toDecidableLT := inferInstance
  toDecidableEq := inferInstance
  toMin := inferInstance
  toMax := inferInstance
  toOrd := inferInstance

/-- Rank descending, then tie break ascending. -/
def ByRank (rank : α → Int64) (tie : α → Bytes) (left right : α) : Prop :=
  rank right < rank left ∨ (rank right = rank left ∧ tie left ≤ tie right)

namespace ByRank

variable {rank : α → Int64} {tie : α → Bytes} {left right : α}

/-- It is the lexicographic order of the ranks, upside down, and the tie breaks. -/
theorem iff_toLex : ByRank rank tie left right ↔
    toLex (OrderDual.toDual (rank left), tie left) ≤
      toLex (OrderDual.toDual (rank right), tie right) := by
  rw [Prod.Lex.toLex_le_toLex]
  exact or_congr_right (and_congr_left' eq_comm)

instance : DecidableRel (ByRank rank tie) := fun _ _ => inferInstanceAs (Decidable (_ ∨ _))

instance : Std.Total (ByRank rank tie) where
  total := fun left right => by
    rw [iff_toLex, iff_toLex]
    exact le_total _ _

instance : IsTrans α (ByRank rank tie) where
  trans := fun first second third firstSecond secondThird => by
    rw [iff_toLex] at *
    exact firstSecond.trans secondThird

/-- Two items that precede each other have the same tie break. -/
theorem tie_eq (forward : ByRank rank tie left right)
    (backward : ByRank rank tie right left) : tie left = tie right := by
  rw [iff_toLex] at forward backward
  have same := toLex.injective (le_antisymm forward backward)
  exact (Prod.mk.inj same).2

theorem eq_of_sorted (injective : ∀ left right, tie left = tie right → left = right)
    {left right : List α} (leftSorted : left.Pairwise (ByRank rank tie))
    (rightSorted : right.Pairwise (ByRank rank tie)) (leftNodup : left.Nodup)
    (rightNodup : right.Nodup) (same : ∀ item, item ∈ left ↔ item ∈ right) : left = right :=
  List.Perm.eq_of_pairwise
    (fun first second _ _ forward backward => injective first second (tie_eq forward backward))
    leftSorted rightSorted ((List.perm_ext_iff_of_nodup leftNodup rightNodup).mpr same)

end ByRank

end RockStream.Lib
