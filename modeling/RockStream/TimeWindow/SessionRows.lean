import RockStream.Lib.GapGroup
import RockStream.TimeWindow.Session

/-!
Contract: the sessions that `derive_sessions` gives to rows.

The loop over the sorted rows keeps an open session. Every row ends up with the group of
event times that holds its own, whatever the gap is; the saturating addition of the source
decides as the exact one on times of the range.

Owns:
- `Pending`, what is known about the open session and the rows to come;
- the sessions of rows, as groups of their event times.

Does not own: weights and partitions.
-/

namespace RockStream

open Lib List

variable {timeCol : Nat} {gapMs : Int}

theorem sessionTime_inI64 (timeCol : Nat) (vals : List Int64) : InI64 (sessionTime timeCol vals) :=
  Int64.toInt_inI64 _

def sessionTimes (timeCol : Nat) (rows : List (List Int64)) : Set Int :=
  {time | ∃ row ∈ rows, sessionTime timeCol row = time}

/-! ## The test of the loop -/

theorem near_of_le_saturatingAdd {stop time : Int} (inRange : InI64 stop) (after : stop < time)
    (joins : time ≤ saturatingAdd stop gapMs) : time ≤ stop + gapMs := by
  unfold saturatingAdd at joins
  unfold InI64 at inRange
  omega

theorem apart_of_saturatingAdd_lt {stop time : Int} (inRange : InI64 time)
    (splits : ¬ time ≤ saturatingAdd stop gapMs) : stop + gapMs < time := by
  unfold saturatingAdd at splits
  unfold InI64 at inRange
  omega

/-! ## The loop -/

/-- The open session and the rows to come. -/
structure Pending (timeCol : Nat) (gapMs : Int) (members : Set Int) (start stop : Int)
    (current rest : List (List Int64)) : Prop where
  isMember : ∀ row ∈ current ++ rest, sessionTime timeCol row ∈ members
  covered : ∀ time ∈ members, start ≤ time → ∃ row ∈ current ++ rest, sessionTime timeCol row = time
  first : ∃ row ∈ current, sessionTime timeCol row = start
  last : ∃ row ∈ current, sessionTime timeCol row = stop
  bounds : ∀ row ∈ current, start ≤ sessionTime timeCol row ∧ sessionTime timeCol row ≤ stop
  linked : ∀ time ∈ members, start ≤ time → time < stop →
    ∃ later ∈ members, time < later ∧ later ≤ time + gapMs ∧ later ≤ stop
  apart : ∀ time ∈ members, time < start → time + gapMs < start
  sorted : rest.Pairwise fun left right => sessionTime timeCol left ≤ sessionTime timeCol right
  later : ∀ row ∈ rest, stop ≤ sessionTime timeCol row

namespace Pending

variable {members : Set Int} {start stop : Int} {current rest : List (List Int64)}
  {row : List Int64}

section

variable (pending : Pending timeCol gapMs members start stop current rest)
include pending

theorem start_le_stop :
    start ≤ stop := by
  obtain ⟨row, mem, isStop⟩ := pending.last
  rw [← isStop]
  exact (pending.bounds row mem).1

theorem group (apartRest : ∀ row ∈ rest, stop + gapMs < sessionTime timeCol row) :
    GapGroup gapMs members start stop := by
  obtain ⟨firstRow, isFirst, atStart⟩ := pending.first
  obtain ⟨lastRow, isLast, atStop⟩ := pending.last
  refine ⟨?_, ?_, pending.start_le_stop, pending.linked, pending.apart, ?_⟩
  · rw [← atStart]
    exact pending.isMember firstRow (mem_append_left _ isFirst)
  · rw [← atStop]
    exact pending.isMember lastRow (mem_append_left _ isLast)
  · intro time isMember after
    obtain ⟨row, inside, rfl⟩ :=
      pending.covered time isMember (pending.start_le_stop.trans after.le)
    rcases mem_append.mp inside with inCurrent | inRest
    · exact absurd after (not_lt.mpr (pending.bounds row inCurrent).2)
    · exact apartRest row inRest

end

variable (pending : Pending timeCol gapMs members start stop current (row :: rest))
include pending

theorem join (joins : sessionTime timeCol row ≤ saturatingAdd stop gapMs) :
    Pending timeCol gapMs members start (max stop (sessionTime timeCol row)) (current ++ [row])
      rest := by
  have notBefore : stop ≤ sessionTime timeCol row := pending.later row mem_cons_self
  have ordered := pending.start_le_stop
  have sameRows : (current ++ [row]) ++ rest = current ++ row :: rest := by simp
  rw [max_eq_right notBefore]
  obtain ⟨sortedHead, sortedRest⟩ := pairwise_cons.mp pending.sorted
  refine ⟨?_, ?_, ?_, ⟨row, by simp, rfl⟩, ?_, ?_, pending.apart, sortedRest, sortedHead⟩
  · rw [sameRows]
    exact pending.isMember
  · rw [sameRows]
    exact pending.covered
  · obtain ⟨firstRow, isFirst, atStart⟩ := pending.first
    exact ⟨firstRow, mem_append_left _ isFirst, atStart⟩
  · intro other mem
    rcases mem_append.mp mem with old | new
    · have := pending.bounds other old
      omega
    · rw [mem_singleton.mp new]
      omega
  · intro time isMember starts before
    rcases lt_or_ge time stop with inner | outer
    · obtain ⟨later, laterMember, after, near, stops⟩ := pending.linked time isMember starts inner
      exact ⟨later, laterMember, after, near, stops.trans notBefore⟩
    · -- The only time from the old end on and before the new one is the old end.
      obtain ⟨other, inside, isTime⟩ := pending.covered time isMember starts
      have atStop : time = stop := by
        rcases mem_append.mp inside with inCurrent | inRest
        · have := pending.bounds other inCurrent
          omega
        · rcases mem_cons.mp inRest with rfl | behind
          · omega
          · have := sortedHead other behind
            omega
      obtain ⟨lastRow, _, isStop⟩ := pending.last
      have inRange : InI64 stop := isStop ▸ sessionTime_inI64 timeCol lastRow
      refine ⟨sessionTime timeCol row, pending.isMember row (by simp), before, ?_, le_rfl⟩
      rw [atStop] at before ⊢
      exact near_of_le_saturatingAdd inRange before joins

theorem split (splits : ¬ sessionTime timeCol row ≤ saturatingAdd stop gapMs) :
    (∀ other ∈ row :: rest, stop + gapMs < sessionTime timeCol other) ∧
      Pending timeCol gapMs members (sessionTime timeCol row) (sessionTime timeCol row)
        [row] rest := by
  have notBefore : stop ≤ sessionTime timeCol row := pending.later row mem_cons_self
  have isApart := apart_of_saturatingAdd_lt (sessionTime_inI64 timeCol row) splits
  have ordered := pending.start_le_stop
  obtain ⟨sortedHead, sortedRest⟩ := pairwise_cons.mp pending.sorted
  have notEarlier : ∀ other ∈ row :: rest, sessionTime timeCol row ≤ sessionTime timeCol other := by
    intro other mem
    rcases mem_cons.mp mem with rfl | behind
    · exact le_rfl
    · exact sortedHead other behind
  -- A member is at most the old end, or the time of a row to come.
  have located : ∀ time ∈ members, start ≤ time →
      time ≤ stop ∨ ∃ other ∈ row :: rest, sessionTime timeCol other = time := by
    intro time isMember starts
    obtain ⟨other, inside, isTime⟩ := pending.covered time isMember starts
    rcases mem_append.mp inside with inCurrent | inRest
    · exact .inl (isTime ▸ (pending.bounds other inCurrent).2)
    · exact .inr ⟨other, inRest, isTime⟩
  refine ⟨fun other mem => isApart.trans_le (notEarlier other mem), ?_⟩
  refine ⟨?_, ?_, ⟨row, by simp, rfl⟩, ⟨row, by simp, rfl⟩, by simp, ?_, ?_, sortedRest, sortedHead⟩
  · intro other mem
    exact pending.isMember other (mem_append_right _ mem)
  · intro time isMember starts
    rcases located time isMember (by omega) with inOld | ahead
    · exact ⟨row, by simp, by omega⟩
    · exact ahead
  · omega
  · intro time isMember before
    rcases lt_or_ge time start with earlier | starts
    · omega
    · rcases located time isMember starts with inOld | ⟨other, inRest, isTime⟩
      · omega
      · have := notEarlier other inRest
        omega

end Pending

theorem mem_sessionLoop {members : Set Int} {start stop : Int} {current rest : List (List Int64)}
    (pending : Pending timeCol gapMs members start stop current rest)
    (session : Int × Int × List Int64) :
    session ∈ sessionLoop timeCol gapMs start stop current rest ↔
      session.2.2 ∈ current ++ rest ∧ GapGroup gapMs members session.1 session.2.1 ∧
        session.1 ≤ sessionTime timeCol session.2.2 ∧
        sessionTime timeCol session.2.2 ≤ session.2.1 := by
  -- The rows of the open session, once it is known to be a group.
  have closed : ∀ {start stop : Int} {current : List (List Int64)},
      (∀ row ∈ current, start ≤ sessionTime timeCol row ∧ sessionTime timeCol row ≤ stop) →
      GapGroup gapMs members start stop → (session ∈ current.map (fun row => (start, stop, row)) ↔
        session.2.2 ∈ current ∧ GapGroup gapMs members session.1 session.2.1 ∧
          session.1 ≤ sessionTime timeCol session.2.2 ∧
          sessionTime timeCol session.2.2 ≤ session.2.1) := by
    intro start stop current bounds group
    rw [mem_map]
    constructor
    · rintro ⟨row, mem, rfl⟩
      exact ⟨mem, group, bounds row mem⟩
    · rintro ⟨mem, other, starts, ends⟩
      obtain ⟨sameStart, sameStop⟩ :=
        group.unique other (bounds _ mem).1 (bounds _ mem).2 starts ends
      exact ⟨session.2.2, mem, by rw [sameStart, sameStop]⟩
  induction rest generalizing start stop current with
  | nil =>
    rw [sessionLoop, append_nil]
    exact closed pending.bounds (pending.group (by simp))
  | cons row rest ih =>
    rw [sessionLoop]
    by_cases joins : sessionTime timeCol row ≤ saturatingAdd stop gapMs
    · rw [if_pos joins]
      refine (ih (pending.join joins)).trans ?_
      simp
    · obtain ⟨apartRest, fresh⟩ := pending.split joins
      rw [if_neg joins, mem_append, closed pending.bounds (pending.group apartRest)]
      refine (or_congr_right (ih fresh)).trans ?_
      rw [singleton_append, ← or_and_right, ← mem_append]

theorem rows_sessionLoop (timeCol : Nat) (gapMs : Int) (start stop : Int)
    (current rest : List (List Int64)) :
    (sessionLoop timeCol gapMs start stop current rest).map (fun session => session.2.2) =
      current ++ rest := by
  induction rest generalizing start stop current with
  | nil => simp [sessionLoop, Function.comp_def]
  | cons row rest ih =>
    rw [sessionLoop]
    split
    · rw [ih]
      simp
    · rw [map_append, ih]
      simp [Function.comp_def]

/-! ## Sorted rows -/

theorem sessionTime_le_of_order {left right : List Int64}
    (ordered : sessionOrder timeCol left ≤ sessionOrder timeCol right) :
    sessionTime timeCol left ≤ sessionTime timeCol right := by
  rcases (Prod.Lex.toLex_le_toLex).mp ordered with before | ⟨same, _⟩
  · exact le_of_lt before
  · exact le_of_eq same

instance (timeCol : Nat) : Std.Total fun left right : List Int64 =>
    sessionOrder timeCol left ≤ sessionOrder timeCol right :=
  ⟨fun _ _ => le_total _ _⟩

instance (timeCol : Nat) : IsTrans (List Int64) fun left right =>
    sessionOrder timeCol left ≤ sessionOrder timeCol right :=
  ⟨fun _ _ _ => le_trans⟩

theorem mem_deriveSessions (rows : List (List Int64)) (session : Int × Int × List Int64) :
    session ∈ deriveSessions rows timeCol gapMs ↔ session.2.2 ∈ rows ∧
        GapGroup gapMs (sessionTimes timeCol rows) session.1 session.2.1 ∧
        session.1 ≤ sessionTime timeCol session.2.2 ∧
        sessionTime timeCol session.2.2 ≤ session.2.1 := by
  unfold deriveSessions
  have members : ∀ row, row ∈ rows.insertionSort (fun left right =>
      sessionOrder timeCol left ≤ sessionOrder timeCol right) ↔ row ∈ rows :=
    fun row => mem_insertionSort _
  have ordered := pairwise_insertionSort
    (fun left right => sessionOrder timeCol left ≤ sessionOrder timeCol right) rows
  generalize rows.insertionSort (fun left right =>
    sessionOrder timeCol left ≤ sessionOrder timeCol right) = sorted at members ordered
  cases sorted with
  | nil =>
    refine iff_of_false (by simp) fun inside => ?_
    exact absurd ((members _).mpr inside.1) (by simp)
  | cons row rest =>
    obtain ⟨sortedHead, sortedRest⟩ := pairwise_cons.mp ordered
    have pending : Pending timeCol gapMs (sessionTimes timeCol rows) (sessionTime timeCol row)
        (sessionTime timeCol row) [row] rest := by
      have earliest : ∀ other ∈ row :: rest,
          sessionTime timeCol row ≤ sessionTime timeCol other := by
        intro other mem
        rcases mem_cons.mp mem with rfl | behind
        · exact le_rfl
        · exact sessionTime_le_of_order (sortedHead other behind)
      refine ⟨?_, ?_, ⟨row, by simp, rfl⟩, ⟨row, by simp, rfl⟩, by simp, ?_, ?_,
        sortedRest.imp sessionTime_le_of_order, ?_⟩
      · exact fun other mem => ⟨other, (members other).mp mem, rfl⟩
      · rintro time ⟨other, mem, isTime⟩ _
        exact ⟨other, (members other).mpr mem, isTime⟩
      · omega
      · rintro time ⟨other, mem, rfl⟩ before
        exact absurd before (not_lt.mpr (earliest other ((members other).mpr mem)))
      · exact fun other mem => earliest other (mem_cons_of_mem _ mem)
    rw [mem_sessionLoop pending, singleton_append, members]

theorem exists_session (timeCol : Nat) (gapMs : Int) {rows : List (List Int64)} {row : List Int64}
    (mem : row ∈ rows) : ∃ start stop, (start, stop, row) ∈ deriveSessions rows timeCol gapMs := by
  unfold deriveSessions
  have inSorted := (mem_insertionSort (fun left right =>
    sessionOrder timeCol left ≤ sessionOrder timeCol right)).mpr mem
  generalize rows.insertionSort (fun left right =>
    sessionOrder timeCol left ≤ sessionOrder timeCol right) = sorted at inSorted
  cases sorted with
  | nil => cases inSorted
  | cons first rest =>
    have listed := rows_sessionLoop timeCol gapMs (sessionTime timeCol first)
      (sessionTime timeCol first) [first] rest
    rw [singleton_append] at listed
    rw [← listed] at inSorted
    obtain ⟨⟨start, stop, other⟩, isSession, isRow⟩ := mem_map.mp inSorted
    cases isRow
    exact ⟨start, stop, isSession⟩

end RockStream
