import RockStream.RowMap
import RockStream.Sql.Plan

/-!
Contract: what the time-window operators share (`rockstream-ops/src/time_window.rs`).

Event times, window starts and watermarks are integers with the checked operations of
`i64`; a window is named by its start.

Owns:
- `FreshnessToken`, as far as an operator reads it, and the events an operator handles;
- `WindowTable`, the rows of the windows, the entry update of the source, and the windows to
  compare after an epoch;
- `EmittedMap`, the rows that were emitted, and the changes between two such maps;
- `floorDiv`, which is the floor of the quotient for a positive divisor, and the window of
  an event time.

Does not own: the source ids and epochs of a token, and its hash.
-/

namespace RockStream

open Lib Loop Lib.Weighted List HashMap

/-- `FreshnessToken`: the `event_time_watermark_ms` of its sources. -/
structure FreshnessToken where
  sourceProgress : List (Option Int)
deriving DecidableEq

/-- `FreshnessToken::watermark_ms`: the least watermark of a source. -/
def FreshnessToken.watermarkMs (token : FreshnessToken) : Option Int :=
  (token.sourceProgress.filterMap id).min?

def FreshnessToken.at (watermark : Int) : FreshnessToken := ⟨[some watermark]⟩

/-- The watermark that an input frontier gives, or else the operator's own. -/
def currentWatermark (frontier : Option FreshnessToken) (own : Int) : Int :=
  (frontier.bind FreshnessToken.watermarkMs).getD own

/-- What a time-window operator is given: a batch that may carry a frontier, or a frontier. -/
inductive WindowEvent where
  | processEpoch (delta : ArrowZSet) (frontier : Option FreshnessToken)
  | pushInputFrontier (frontier : FreshnessToken)

namespace WindowEvent

def deltas : WindowEvent → List ArrowZSet
  | processEpoch delta _ => [delta]
  | pushInputFrontier _ => []

/-- The same event with the rows of its batch in another order. -/
def Reordered : WindowEvent → WindowEvent → Prop
  | processEpoch delta frontier, processEpoch delta' frontier' =>
    ArrowZSet.Alike delta delta' ∧ frontier = frontier'
  | pushInputFrontier frontier, pushInputFrontier frontier' => frontier = frontier'
  | _, _ => False

theorem Reordered.shape {event other : WindowEvent} (reordered : event.Reordered other) :
    (∃ frontier, event = .pushInputFrontier frontier ∧ other = .pushInputFrontier frontier) ∨
      ∃ delta others frontier, event = .processEpoch delta frontier ∧
        other = .processEpoch others frontier ∧ ArrowZSet.Alike delta others := by
  cases event with
  | pushInputFrontier frontier =>
    cases other with
    | processEpoch => cases reordered
    | pushInputFrontier =>
      cases reordered
      exact .inl ⟨frontier, rfl, rfl⟩
  | processEpoch delta frontier =>
    cases other with
    | pushInputFrontier => cases reordered
    | processEpoch others =>
      obtain ⟨alike, rfl⟩ := reordered
      exact .inr ⟨delta, others, frontier, rfl, rfl, alike⟩

/-- A condition on the batches that does not read their order passes to reordered events. -/
theorem deltas_reordered {Accepted : ArrowZSet → Prop}
    (inv : ∀ {delta others}, ArrowZSet.Alike delta others → Accepted delta → Accepted others)
    {events others : List WindowEvent} (reordered : List.Forall₂ Reordered events others)
    (accepts : ∀ event ∈ events, ∀ delta ∈ event.deltas, Accepted delta) :
    ∀ event ∈ others, ∀ delta ∈ event.deltas, Accepted delta := by
  induction reordered with
  | nil => exact accepts
  | cons head _ ih =>
    rw [forall_mem_cons] at accepts ⊢
    refine ⟨?_, ih accepts.2⟩
    rcases head.shape with ⟨frontier, rfl, rfl⟩ | ⟨delta, batch, frontier, rfl, rfl, alike⟩
    · exact accepts.1
    · intro other mem
      rw [mem_singleton.mp mem]
      exact inv alike (accepts.1 delta (mem_singleton.mpr rfl))

end WindowEvent

/-- The rows emitted over a run; a pushed frontier emits none. -/
def emittedRows (outputs : List (Option ArrowZSet)) : List (Row × Int) :=
  outputs.flatMap fun output => output.toList.flatMap ArrowZSet.valued

/-- Where every epoch and every frontier keeps a log and emits a change of it, a run emits the
change to the log of its events. -/
theorem run_emits {σ Log : Type} {handle : σ → WindowEvent → Step σ (Option ArrowZSet × σ)}
    {processEpoch : σ → ArrowZSet → Option FreshnessToken → Step σ (ArrowZSet × σ)}
    {Accepted : ArrowZSet → Prop} (handleLog : Log → WindowEvent → Log)
    (Refines : σ → Log → Prop) (Emits : List (Row × Int) → Log → Log → Prop)
    (refl : ∀ log, Emits [] log log)
    (append : ∀ {first second before between after}, Emits first before between →
      Emits second between after → Emits (first ++ second) before after)
    (handles : ∀ state delta frontier, handle state (.processEpoch delta frontier) =
      processEpoch state delta frontier >>= fun result => pure (some result.1, result.2))
    (epoch : ∀ {state next log delta frontier batch}, Accepted delta → Refines state log →
      processEpoch state delta frontier = .ok (batch, next) →
      Refines next (handleLog log (.processEpoch delta frontier)) ∧
        Emits batch.valued log (handleLog log (.processEpoch delta frontier)))
    (push : ∀ {state log} frontier, Refines state log → ∃ next,
      handle state (.pushInputFrontier frontier) = .ok (none, next) ∧
        Refines next (handleLog log (.pushInputFrontier frontier)) ∧
        Emits [] log (handleLog log (.pushInputFrontier frontier)))
    {state final : σ} {log : Log} (refines : Refines state log) {events : List WindowEvent}
    (accepts : ∀ event ∈ events, ∀ delta ∈ event.deltas, Accepted delta)
    {outputs : List (Option ArrowZSet)}
    (ran : Loop.run handle state events = .ok (outputs, final)) :
    Refines final (events.foldl handleLog log) ∧
      Emits (emittedRows outputs) log (events.foldl handleLog log) := by
  have keeps : ∀ {state next log event output}, (∀ delta ∈ event.deltas, Accepted delta) →
      Refines state log → handle state event = .ok (output, next) →
      Refines next (handleLog log event) ∧
        Emits (output.toList.flatMap ArrowZSet.valued) log (handleLog log event) := by
    intro state next log event output accepted refines returned
    cases event with
    | processEpoch delta frontier =>
      rw [handles] at returned
      obtain ⟨result, processed, ended⟩ := bind_eq_ok.mp returned
      cases ended
      obtain ⟨kept, emits⟩ := epoch (accepted delta (mem_singleton.mpr rfl)) refines processed
      exact ⟨kept, by simpa using emits⟩
    | pushInputFrontier frontier =>
      obtain ⟨after, pushed, kept⟩ := push frontier refines
      rw [pushed] at returned
      cases returned
      exact kept
  have loop := run_invariant
    (fun done outputs state => (∀ event ∈ done, ∀ delta ∈ event.deltas, Accepted delta) →
      Refines state (done.foldl handleLog log) ∧
        Emits (emittedRows outputs) log (done.foldl handleLog log))
    ?_ (fun _ => ⟨refines, refl log⟩) ran
  · exact loop accepts
  · intro done outputs state event output next held stepped accepted
    obtain ⟨refines, emits⟩ := held fun other mem => accepted other (by simp [mem])
    obtain ⟨kept, emitsMore⟩ := keeps (accepted event (by simp)) refines stepped
    have emittedMore : emittedRows (outputs ++ [output]) =
        emittedRows outputs ++ output.toList.flatMap ArrowZSet.valued := by
      simp [emittedRows]
    rw [foldl_append, emittedMore]
    exact ⟨kept, append emits emitsMore⟩

/-! ## Sets of windows -/

section Listed

variable {α κ : Type} (idOf : α → κ) {items more : List α} {item : α} {id : κ}

theorem listed_concat : (id = idOf item ∨ ∃ other ∈ items, idOf other = id) ↔
    ∃ other ∈ items ++ [item], idOf other = id := by
  simp only [mem_append, mem_singleton, or_and_right, exists_or, exists_eq_left]
  rw [eq_comm (a := id), or_comm]

theorem listed_append : ((∃ other ∈ items, idOf other = id) ∨ ∃ other ∈ more, idOf other = id) ↔
    ∃ other ∈ items ++ more, idOf other = id := by
  simp only [mem_append, or_and_right, exists_or]

/-- A window closes in an epoch if it has rows and is passed: a window with rows of the epoch is
compared, and so is any other open one. -/
theorem closes_iff {Closed Open Passed : Prop} (isOpen : ¬ Closed → Open) :
    (Closed ∨ ((∃ other ∈ more, idOf other = id) ∨
        (∃ other ∈ items ++ more, idOf other = id) ∧ Open ∧ Passed) ∧ Passed) ↔
      Closed ∨ (∃ other ∈ items ++ more, idOf other = id) ∧ Passed := by
  have listed : (∃ other ∈ more, idOf other = id) → ∃ other ∈ items ++ more, idOf other = id :=
    fun inMore => (listed_append idOf).mp (.inr inMore)
  generalize (∃ other ∈ more, idOf other = id) = InMore at listed ⊢
  tauto

end Listed

/-- A loop that collects the passing items, one step further. -/
theorem isSome_collect (Keep : Int → Prop) [DecidablePred Keep] {found : HashSet Int} {Old : Prop}
    {done : List Int} {candidate query : Int}
    (held : (found.lookup query).isSome ↔ Old ∨ query ∈ done ∧ Keep query) :
    ((if Keep candidate then found.insert candidate () else found).lookup query).isSome ↔
      Old ∨ query ∈ done ++ [candidate] ∧ Keep query := by
  split
  · next kept =>
    rw [isSome_insert, held]
    rcases eq_or_ne query candidate with rfl | ne
    · simp [kept]
    · simp [ne]
  · next refused =>
    rw [held]
    rcases eq_or_ne query candidate with rfl | ne
    · simp [refused]
    · simp [ne]

/-! ## Groups of rows -/

/-- Rows were added to the groups they are placed in, and these groups were noted. -/
structure Filled {α κ ρ : Type} [DecidableEq α] [DecidableEq κ] (encode : ρ → Bytes)
    (Domain : κ → ρ → Prop)
    (place : α → κ × ρ) (start : κ → RowMap ρ) (admitted : List (α × Int)) (current : κ → RowMap ρ)
    (dirty : HashSet κ) : Prop where
  keyed : ∀ id, RowMap.KeyedBy encode (Domain id) (current id)
  dirty : ∀ id, (dirty.lookup id).isSome ↔ ∃ item ∈ admitted, (place item.1).1 = id
  weights : ∀ item, Domain (place item).1 (place item).2 →
    (current (place item).1).weightAt (encode (place item).2) =
      (start (place item).1).weightAt (encode (place item).2) + weight admitted item
  untouched : ∀ id, (∀ item ∈ admitted, (place item.1).1 ≠ id) → current id = start id

namespace Filled

variable {α κ ρ : Type} [DecidableEq α] [DecidableEq κ] {encode : ρ → Bytes} {Domain : κ → ρ → Prop}
  {place : α → κ × ρ} {start current next : κ → RowMap ρ} {admitted : List (α × Int)}
  {dirty : HashSet κ}

theorem nil (keyed : ∀ id, RowMap.KeyedBy encode (Domain id) (start id)) :
    Filled encode Domain place start [] start ∅ :=
  ⟨keyed, by simp, by simp, fun _ _ => rfl⟩

theorem add (filled : Filled encode Domain place start admitted current dirty)
    (injective : Function.Injective place) {item : α × Int}
    (distinguishes : RowMap.Distinguishes encode (Domain (place item.1).1))
    (inside : Domain (place item.1).1 (place item.1).2) {rows : RowMap ρ}
    (keyed : RowMap.KeyedBy encode (Domain (place item.1).1) rows)
    (weights : ∀ key, rows.weightAt key = (current (place item.1).1).weightAt key +
      if key = encode (place item.1).2 then item.2 else 0)
    (isNext : ∀ id, next id = if id = (place item.1).1 then rows else current id) :
    Filled encode Domain place start (admitted ++ [item]) next
      (dirty.insert (place item.1).1 ()) := by
  refine ⟨fun id => ?_, fun id => ?_, fun other otherInside => ?_, fun id elsewhere => ?_⟩
  · rw [isNext]
    split
    · next same => exact same ▸ keyed
    · exact filled.keyed id
  · rw [isSome_insert, filled.dirty]
    exact listed_concat fun item : α × Int => (place item.1).1
  · rw [isNext, weight_append, weight_cons, weight_nil,
      add_zero, ← add_assoc, ← filled.weights other otherInside]
    split
    · next same =>
      rw [weights, ← same]
      refine congrArg (_ + ·)
        (if_congr ⟨fun sameKey => injective (Prod.ext same.symm ?_), ?_⟩ rfl rfl)
      · exact distinguishes _ _ inside (same ▸ otherInside) sameKey.symm
      · rintro rfl
        rfl
    · next ne =>
      have otherItem : item.1 ≠ other := fun same => ne (by rw [same])
      rw [if_neg otherItem, add_zero]
  · rw [isNext, if_neg (Ne.symm (elsewhere item (by simp)))]
    exact filled.untouched id fun other mem => elsewhere other (by simp [mem])

end Filled

/-! ## Windows of rows -/

abbrev WindowTable (ρ : Type) := HashMap Int (RowMap ρ)

namespace WindowTable

variable {ρ : Type}

/-- The rows of a window; a window without entry has none. -/
def window (windows : WindowTable ρ) (windowId : Int) : RowMap ρ :=
  (windows.lookup windowId).getD ∅

/-- `entry(window_id).or_default()`, then the entry of the row. -/
def addRow (windows : WindowTable ρ) (windowId : Int) (key : Bytes) (vals : ρ) (weight : Int) :
    Exec (WindowTable ρ) := do
  let rows ← (windows.window windowId).addRow key vals weight
  pure (windows.insert windowId rows)

theorem window_insert (windows : WindowTable ρ) (windowId query : Int) (rows : RowMap ρ) :
    window (windows.insert windowId rows) query =
      if query = windowId then rows else windows.window query := by
  unfold window
  rw [lookup_insert_eq]
  split <;> rfl

/-- Every window holds rows of a domain, each under its key. -/
def KeyedBy (encode : ρ → Bytes) (Domain : Int → ρ → Prop) (windows : WindowTable ρ) : Prop :=
  ∀ windowId, RowMap.KeyedBy encode (Domain windowId) (windows.window windowId)

/-- The windows to compare: the changed ones, and the open ones that the watermark has passed. -/
def windowsToEmit (windows : WindowTable ρ) (finalized dirty : HashSet Int)
    (windowSizeMs watermark : Int) : Exec (List Int) := do
  let all ← windows.keys.foldlM (fun (all : HashSet Int) windowId =>
    if (finalized.lookup windowId).isSome then .ok all
    else do
      let windowEnd ← addI64 windowId windowSizeMs
      pure (if windowEnd < watermark then all.insert windowId () else all)) dirty
  pure all.keys

theorem mem_windowsToEmit {windows : WindowTable ρ} {finalized dirty : HashSet Int}
    {windowSizeMs watermark : Int} {compared : List Int}
    (returned : windows.windowsToEmit finalized dirty windowSizeMs watermark = .ok compared) :
    compared.Nodup ∧ ∀ windowId, windowId ∈ compared ↔ (dirty.lookup windowId).isSome ∨
      (windows.lookup windowId).isSome ∧ (finalized.lookup windowId).isNone ∧
        windowId + windowSizeMs < watermark := by
  obtain ⟨all, looped, ended⟩ := bind_eq_ok.mp returned
  cases ended
  refine ⟨all.keys_nodup, fun windowId => ?_⟩
  have inWindows : (windows.lookup windowId).isSome ↔ windowId ∈ windows.keys := by
    rw [AList.lookup_isSome, AList.mem_keys]
  have isMember : windowId ∈ all.keys ↔ (all.lookup windowId).isSome := by
    rw [AList.lookup_isSome, AList.mem_keys]
  rw [isMember, inWindows]
  refine foldlM_invariant (fun done (all : HashSet Int) => (all.lookup windowId).isSome ↔
      (dirty.lookup windowId).isSome ∨ windowId ∈ done ∧
        (finalized.lookup windowId).isNone ∧ windowId + windowSizeMs < watermark)
    ?_ (by simp) looped
  intro done found candidate next held stepped
  have isNext : next = if (finalized.lookup candidate).isNone ∧ candidate + windowSizeMs < watermark
      then found.insert candidate () else found := by
    split at stepped
    · next isFinalized =>
      cases stepped
      refine (if_neg fun kept => ?_).symm
      simp [Option.isNone_iff_eq_none.mp kept.1] at isFinalized
    · next isOpen =>
      obtain ⟨windowEnd, added, ended⟩ := bind_eq_ok.mp stepped
      obtain ⟨_, rfl⟩ := addI64_eq_ok.mp added
      cases ended
      simp [Option.eq_none_of_isNone (by simpa using isOpen)]
  rw [isNext]
  exact isSome_collect (fun windowId => (finalized.lookup windowId).isNone ∧
    windowId + windowSizeMs < watermark) held

end WindowTable

/-! ## Emitted rows -/

abbrev EmittedMap := HashMap Bytes (List Int64)

namespace EmittedMap

/-- Retract the old rows that the new map does not keep, and insert the new rows that the old map
does not hold. -/
def changes (keeps : Option (List Int64) → List Int64 → Bool) (old new : EmittedMap) :
    List (List Int64 × Int) :=
  (old.toPairs.flatMap fun entry =>
      if keeps (new.lookup entry.1) entry.2 then [] else [(entry.2, -1)]) ++
    new.toPairs.flatMap fun entry =>
      if keeps (old.lookup entry.1) entry.2 then [] else [(entry.2, 1)]

/-- Every row is stored under its key. -/
def Keyed (keyOf : List Int64 → Bytes) (map : EmittedMap) : Prop :=
  ∀ key vals, map.lookup key = some vals → keyOf vals = key

/-- The number of times a row is shown. -/
def shows (keyOf : List Int64 → Bytes) (map : EmittedMap) (vals : List Int64) : Int :=
  if map.lookup (keyOf vals) = some vals then 1 else 0

variable {keyOf : List Int64 → Bytes} {keeps : Option (List Int64) → List Int64 → Bool}
  {old new : EmittedMap}

/-- The changes of one map are the rows that the other map does not hold. -/
theorem weight_unkept (map other : EmittedMap) (sign : Int) (keyed : Keyed keyOf map)
    (isKept : ∀ vals, keeps (other.lookup (keyOf vals)) vals = true ↔
      other.lookup (keyOf vals) = some vals) (vals : List Int64) :
    weight (map.toPairs.flatMap fun entry =>
      if keeps (other.lookup entry.1) entry.2 then [] else [(entry.2, sign)]) vals =
        if map.lookup (keyOf vals) = some vals ∧ other.lookup (keyOf vals) ≠ some vals then sign
        else 0 := by
  rw [weight_flatMap_toPairs _ keyOf]
  · cases found : map.lookup (keyOf vals) with
    | none => simp
    | some stored =>
      show weight (if keeps (other.lookup (keyOf vals)) stored then [] else [(stored, sign)])
        vals = _
      rcases eq_or_ne stored vals with rfl | ne
      · by_cases kept : other.lookup (keyOf stored) = some stored
        · rw [if_pos ((isKept stored).mpr kept), if_neg (by simp [kept])]
          rfl
        · rw [if_neg (fun keeps => kept ((isKept stored).mp keeps)), if_pos ⟨rfl, kept⟩]
          simp
      · split <;> simp [ne]
  · intro key stored found row mem
    split at mem
    · cases mem
    · rw [mem_singleton.mp mem]
      exact keyed key stored found

theorem weight_changes (keyedOld : Keyed keyOf old) (keyedNew : Keyed keyOf new)
    (isKept : ∀ map, Keyed keyOf map → ∀ vals,
      keeps (map.lookup (keyOf vals)) vals = true ↔ map.lookup (keyOf vals) = some vals)
    (vals : List Int64) :
    weight (changes keeps old new) vals = shows keyOf new vals - shows keyOf old vals := by
  unfold changes shows
  rw [weight_append, weight_unkept old new (-1) keyedOld (isKept new keyedNew),
    weight_unkept new old 1 keyedNew (isKept old keyedOld)]
  by_cases isOld : old.lookup (keyOf vals) = some vals <;>
    by_cases isNew : new.lookup (keyOf vals) = some vals <;> simp [isOld, isNew]

theorem mem_changes {row : List Int64 × Int} (mem : row ∈ changes keeps old new) :
    ∃ key, old.lookup key = some row.1 ∨ new.lookup key = some row.1 := by
  rcases mem_append.mp mem with retracted | inserted
  · obtain ⟨entry, isEntry, inEntry⟩ := mem_flatMap.mp retracted
    split at inEntry
    · cases inEntry
    · rw [mem_singleton.mp inEntry]
      exact ⟨entry.1, .inl (mem_toPairs.mp isEntry)⟩
  · obtain ⟨entry, isEntry, inEntry⟩ := mem_flatMap.mp inserted
    split at inEntry
    · cases inEntry
    · rw [mem_singleton.mp inEntry]
      exact ⟨entry.1, .inr (mem_toPairs.mp isEntry)⟩

end EmittedMap

/-! ## Floor division -/

/-- `floor_div`. The sign bit of `a ^ b` is set where the signs differ; `d * b` is at most `a`
in size. -/
def floorDiv (a b : Int) : Exec Int :=
  if b = 0 then .error (.panicked "attempt to divide by zero")
  else do
    let d ← checkI64 (a.tdiv b)
    if decide (a < 0) != decide (b < 0) && decide (d * b ≠ a) then subI64 d 1 else pure d

theorem floorDiv_eq_ok {a b result : Int} (positive : 0 < b)
    (returned : floorDiv a b = .ok result) :
    result = a / b := by
  unfold floorDiv at returned
  rw [if_neg positive.ne'] at returned
  obtain ⟨d, quotient, rest⟩ := bind_eq_ok.mp returned
  obtain ⟨_, rfl⟩ := checkI64_eq_ok.mp quotient
  have notNegative : ¬ b < 0 := by omega
  simp only [notNegative, decide_false, Bool.bne_false] at rest
  split at rest
  · next rounds =>
    obtain ⟨negative, inexact⟩ := by simpa using rounds
    obtain ⟨_, rfl⟩ := subI64_eq_ok.mp rest
    have noMultiple : ¬ (0 ≤ a ∨ b ∣ a) :=
      not_or.mpr ⟨negative.not_ge, fun divides => inexact (Int.tdiv_mul_cancel divides)⟩
    rw [Int.tdiv_eq_ediv, if_neg noMultiple, Int.sign_eq_one_of_pos positive, add_sub_cancel_right]
  · next exact_ =>
    cases rest
    simp only [Bool.and_eq_true, decide_eq_true_eq, not_and, not_not, ne_eq] at exact_
    rw [Int.tdiv_eq_ediv, if_pos, add_zero]
    rcases lt_or_ge a 0 with negative | nonnegative
    · exact .inr (Dvd.intro_left _ (exact_ negative))
    · exact .inl nonnegative

def windowStart (length time : Int) : Int := time / length * length

theorem windowStart_unique {length : Int} (positive : 0 < length) (time index : Int) :
    index * length ≤ time ∧ time < (index + 1) * length ↔
      index * length = windowStart length time := by
  rw [windowStart, mul_left_inj' positive.ne', eq_comm, Int.ediv_eq_iff_of_pos positive, add_mul,
    one_mul]

end RockStream
