import Mathlib

/-!
Contract: maximal groups of integers whose neighbours are at most a gap apart.

A group of a set of integers is given by its first and its last member: from every member
but the last a step of at most the gap leads to a later member, and no further member of
the set is within the gap before the first or behind the last one.

Owns:
- `GapGroup`, and that two groups with a common member are the same;
- that a member between two groups, near enough to both, merges them, and that a group falls
  into two without a member whose neighbours are apart.

Does not own: how the groups are computed.
-/

namespace RockStream.Lib

/-- The members of a set between two of them are a maximal group for a gap. -/
structure GapGroup (gap : Int) (members : Set Int) (first last : Int) : Prop where
  firstMember : first ∈ members
  lastMember : last ∈ members
  ordered : first ≤ last
  linked : ∀ time ∈ members, first ≤ time → time < last →
    ∃ later ∈ members, time < later ∧ later ≤ time + gap ∧ later ≤ last
  apartBefore : ∀ time ∈ members, time < first → time + gap < first
  apartAfter : ∀ time ∈ members, last < time → last + gap < time

namespace GapGroup

variable {gap : Int} {members : Set Int} {first last first' last' time : Int}

section

variable (group : GapGroup gap members first last) (other : GapGroup gap members first' last')
include group other

/-- A group that reaches a member of another does not end after it. -/
theorem last_le (starts : first ≤ time) (ends' : time ≤ last') : last ≤ last' := by
  by_contra! longer
  obtain ⟨later, isMember, after, near, _⟩ :=
    group.linked last' other.lastMember (starts.trans ends') longer
  exact absurd near (not_le.mpr (other.apartAfter later isMember after))

/-- A group that reaches a member of another does not start before it. -/
theorem first_le (ends : time ≤ last) (starts' : first' ≤ time) : first' ≤ first := by
  by_contra! shorter
  -- The last member before the other group is linked to a member inside it.
  obtain ⟨before, ⟨isMember, isAfter, isBefore⟩, greatest⟩ := Int.exists_greatest_of_bdd
    (P := fun candidate => candidate ∈ members ∧ first ≤ candidate ∧ candidate < first')
    ⟨first', fun _ inside => inside.2.2.le⟩ ⟨first, group.firstMember, le_rfl, shorter⟩
  obtain ⟨later, laterMember, after, near, _⟩ :=
    group.linked before isMember isAfter (isBefore.trans_le (starts'.trans ends))
  have reaches : first' ≤ later := by
    by_contra! stillBefore
    exact absurd (greatest later ⟨laterMember, isAfter.trans after.le, stillBefore⟩)
      (not_le.mpr after)
  exact absurd (other.apartBefore before isMember isBefore) (not_lt.mpr (reaches.trans near))

/-- Two groups with a common member are the same. -/
theorem unique (starts : first ≤ time) (ends : time ≤ last) (starts' : first' ≤ time)
    (ends' : time ≤ last') : first = first' ∧ last = last' :=
  ⟨le_antisymm (other.first_le group ends' starts) (group.first_le other ends starts'),
    le_antisymm (group.last_le other starts ends') (other.last_le group starts' ends)⟩

end

theorem merge (early : GapGroup gap members first last) (late : GapGroup gap members first' last')
    {bridge : Int} (afterEarly : last < bridge) (beforeLate : bridge < first')
    (nearEarly : bridge ≤ last + gap) (nearLate : first' ≤ bridge + gap) :
    GapGroup gap (insert bridge members) first last' := by
  -- No member lies strictly between the two groups.
  have between : ∀ time ∈ members, time ≤ last ∨ first' ≤ time := by
    intro time isMember
    by_contra! inside
    have behind := early.apartAfter time isMember inside.1
    have ahead := late.apartBefore time isMember inside.2
    omega
  refine ⟨Set.mem_insert_of_mem _ early.firstMember, Set.mem_insert_of_mem _ late.lastMember, ?_,
    ?_, ?_, ?_⟩
  · have := early.ordered
    have := late.ordered
    omega
  · rintro time (rfl | isMember) starts ends
    · exact ⟨first', Set.mem_insert_of_mem _ late.firstMember, beforeLate, nearLate, late.ordered⟩
    · rcases between time isMember with inEarly | inLate
      · rcases inEarly.lt_or_eq with inner | rfl
        · obtain ⟨later, laterMember, after, near, stops⟩ :=
            early.linked time isMember starts inner
          have := late.ordered
          exact ⟨later, Set.mem_insert_of_mem _ laterMember, after, near, by omega⟩
        · have := late.ordered
          exact ⟨bridge, Set.mem_insert _ _, afterEarly, nearEarly, by omega⟩
      · obtain ⟨later, laterMember, after, near, stops⟩ := late.linked time isMember inLate ends
        exact ⟨later, Set.mem_insert_of_mem _ laterMember, after, near, stops⟩
  · rintro time (rfl | isMember) before
    · have := early.ordered
      omega
    · exact early.apartBefore time isMember before
  · rintro time (rfl | isMember) after
    · have := late.ordered
      omega
    · exact late.apartAfter time isMember after

/-- Without a member whose neighbours are apart, a group falls into two. -/
theorem split (group : GapGroup gap members first last) {before bridge after : Int}
    (isBefore : before ∈ members) (isAfter : after ∈ members) (starts : first < bridge)
    (ends : bridge < last) (beforeBridge : before < bridge) (bridgeAfter : bridge < after)
    (alone : ∀ time ∈ members, before < time → time < after → time = bridge)
    (apart : before + gap < after) :
    GapGroup gap (members \ {bridge}) first before ∧
      GapGroup gap (members \ {bridge}) after last := by
  have firstBefore : first ≤ before := by
    by_contra! beyond
    have := alone first group.firstMember beyond (starts.trans bridgeAfter)
    omega
  have afterLast : after ≤ last := by
    by_contra! beyond
    have := alone last group.lastMember (beforeBridge.trans ends) beyond
    omega
  -- A remaining member is not strictly between the neighbours.
  have located : ∀ time ∈ members \ {bridge}, time ≤ before ∨ after ≤ time := by
    rintro time ⟨isMember, ne⟩
    by_contra! between
    exact ne (alone time isMember between.1 between.2)
  have remains : ∀ time ∈ members, time < bridge ∨ bridge < time → time ∈ members \ {bridge} := by
    intro time isMember ne
    refine ⟨isMember, fun same => ?_⟩
    rw [Set.mem_singleton_iff] at same
    omega
  refine ⟨⟨remains first group.firstMember (.inl starts),
    remains before isBefore (.inl beforeBridge),
    firstBefore, ?_, fun time inside => group.apartBefore time inside.1, ?_⟩,
    ⟨remains after isAfter (.inr bridgeAfter), remains last group.lastMember (.inr ends), afterLast,
      ?_, ?_, fun time inside => group.apartAfter time inside.1⟩⟩
  · intro time inside starts' short
    obtain ⟨later, isMember, isLater, near, _⟩ :=
      group.linked time inside.1 starts' (short.trans (beforeBridge.trans ends))
    rcases le_or_gt later before with early | beyond
    · exact ⟨later, remains later isMember (.inl (early.trans_lt beforeBridge)),
        isLater, near, early⟩
    · exact ⟨before, remains before isBefore (.inl beforeBridge), short,
        beyond.le.trans near, le_rfl⟩
  · intro time inside beyond
    rcases located time inside with early | late <;> omega
  · intro time inside starts' short
    obtain ⟨later, isMember, isLater, near, inGroup⟩ :=
      group.linked time inside.1 (starts.le.trans (bridgeAfter.le.trans starts')) short
    exact ⟨later, remains later isMember (.inr (bridgeAfter.trans (starts'.trans_lt isLater))),
      isLater, near, inGroup⟩
  · intro time inside short
    rcases located time inside with early | late <;> omega

end GapGroup

end RockStream.Lib
