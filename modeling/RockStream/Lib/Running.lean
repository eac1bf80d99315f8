import RockStream.Lib.Weighted

/-!
Contract: conditions on the running weights of a weighted list.

A list of weighted values is consumed in order. After each row, each value seen so far
has a running weight, the net weight of the consumed prefix.

Owns:
- `Running`, that every running weight satisfies a condition;
- its restriction to a prefix, and its extension by one row, which only has to be
  checked at the value of that row.

Does not own: any particular range.
-/

namespace RockStream.Lib.Weighted

open List

universe u

variable {α : Type u} [DecidableEq α]

/-- After every row, the running weight of every value is acceptable. -/
def Running (Ok : Int → Prop) (rows : List (α × Int)) : Prop :=
  ∀ done ∈ rows.inits, ∀ row ∈ done, Ok (weight done row.1)

instance (Ok : Int → Prop) [DecidablePred Ok] (rows : List (α × Int)) :
    Decidable (Running Ok rows) :=
  inferInstanceAs (Decidable (∀ done ∈ rows.inits, ∀ row ∈ done, _))

namespace Running

variable {Ok : Int → Prop} {rows : List (α × Int)} {row : α × Int}

theorem nil : Running Ok ([] : List (α × Int)) := by
  intro done mem row inside
  rw [inits, mem_singleton] at mem
  rw [mem] at inside
  cases inside

theorem of_append (rest : List (α × Int)) (running : Running Ok (rows ++ rest)) :
    Running Ok rows := by
  intro done mem
  obtain ⟨between, rfl⟩ := (mem_inits _ _).mp mem
  exact running done ((mem_inits _ _).mpr ⟨between ++ rest, by simp⟩)

theorem of_mem (running : Running Ok rows) (mem : row ∈ rows) : Ok (weight rows row.1) :=
  running rows ((mem_inits _ _).mpr (prefix_refl rows)) row mem

theorem weight_ok (running : Running Ok rows) (zero : Ok 0) (value : α) :
    Ok (weight rows value) := by
  by_cases absent : weight rows value = 0
  · rw [absent]
    exact zero
  · obtain ⟨row, mem, rfl⟩ := exists_of_weight_ne_zero absent
    exact running.of_mem mem

theorem last (running : Running Ok (rows ++ [row])) : Ok (weight (rows ++ [row]) row.1) :=
  running.of_mem (by simp)

/-- One more row keeps the condition if the weight of its own value satisfies it. -/
theorem append_single (running : Running Ok rows) (ok : Ok (weight (rows ++ [row]) row.1)) :
    Running Ok (rows ++ [row]) := by
  intro done mem other inside
  rw [inits_append, mem_append] at mem
  rcases mem with earlier | last
  · exact running done earlier other inside
  · obtain rfl : done = rows ++ [row] := by simpa using last
    by_cases same : row.1 = other.1
    · rw [← same]
      exact ok
    · have old : other ∈ rows := by
        rcases mem_append.mp inside with old | new
        · exact old
        · exact absurd (by rw [mem_singleton.mp new]) same
      have unchanged : weight (rows ++ [row]) other.1 = weight rows other.1 := by
        simp [same]
      rw [unchanged]
      exact running.of_mem old

end Running

end RockStream.Lib.Weighted
