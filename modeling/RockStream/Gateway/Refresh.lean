import RockStream.Gateway.CommitLaw

/-!
Contract: the source deltas that a distributed gateway submits for one idempotency key.

The batch with the table rows and the key record is written before the first request is
submitted. A COMMIT that fails at a request is answered with an error; its retry finds the
key and is answered with success.

Owns:
- the requests of a commit: one for every changed table of every view that names the table
  once;
- that in every steady run a success means that every delta was submitted exactly once.

Does not own: what a workload does with a delta.
-/

namespace RockStream

open Lib List GatewayEvent SourceDeltaRequest Function Gateway

variable {ops : List DmlOp} {catalog : ViewCatalog}

/-! ## The requests of a commit -/

/-- Every view names each table it depends on itself, and once. -/
def ViewCatalog.Direct (catalog : ViewCatalog) : Prop :=
  ∀ view table, catalog.Depends view table → (catalog.viewDeps view).count table = 1

/-- The operations spell their tables as the views do. -/
def ViewCatalog.Spells (catalog : ViewCatalog) (ops : List DmlOp) : Prop :=
  ∀ op ∈ ops, ∀ view, ∀ source ∈ catalog.viewDeps view,
    eqIgnoreAsciiCase op.table source → op.table = source

def SourceDeltaRequest.isFor (view table : Bytes) (request : SourceDeltaRequest) : Bool :=
  request.view = view ∧ eqIgnoreAsciiCase request.source table

theorem exists_op_of_rows {table : Bytes}
    (rows : runtimeRowsForTable table ops ≠ []) : ∃ op ∈ ops, eqIgnoreAsciiCase op.table table := by
  obtain ⟨row, mem⟩ := exists_mem_of_ne_nil _ rows
  obtain ⟨op, isOp, isRow⟩ := mem_flatMap.mp mem
  refine ⟨op, isOp, ?_⟩
  unfold DmlOp.deltaRows at isRow
  split at isRow
  · exact decide_eq_true ‹_›
  · exact absurd isRow not_mem_nil

/-- Of distinct items only one contributes. -/
theorem flatMap_eq_of_mem {α β : Type} {items : List α} {expand : α → List β} {item : α}
    (nodup : items.Nodup) (mem : item ∈ items)
    (others : ∀ other ∈ items, other ≠ item → expand other = []) :
    items.flatMap expand = expand item := by
  induction items with
  | nil => cases mem
  | cons head tail ih =>
    obtain ⟨fresh, distinct⟩ := nodup_cons.mp nodup
    have inTail := fun other isOther => others other (mem_cons_of_mem head isOther)
    rw [flatMap_cons]
    rcases mem_cons.mp mem with rfl | later
    · rw [flatMap_eq_nil_iff.mpr fun other isOther => inTail other isOther fun same =>
        fresh (same ▸ isOther), append_nil]
    · rw [others head mem_cons_self fun same => fresh (same ▸ later), nil_append]
      exact ih distinct later inTail

namespace ViewCatalog

variable {view table : Bytes}

theorem exists_op (spells : catalog.Spells ops) (named : table ∈ catalog.viewDeps view)
    (rows : runtimeRowsForTable table ops ≠ []) : ∃ op ∈ ops, op.table = table := by
  obtain ⟨op, isOp, agrees⟩ := exists_op_of_rows rows
  exact ⟨op, isOp, spells op isOp view table named agrees⟩

theorem changedSources_filter (spells : catalog.Spells ops)
    (named : (catalog.viewDeps view).count table = 1) (rows : runtimeRowsForTable table ops ≠ []) :
    (catalog.changedSources ops view).filter (eqIgnoreAsciiCase · table) = [table] := by
  have isNamed : table ∈ catalog.viewDeps view := count_pos_iff.mp (by omega)
  obtain ⟨op, isOp, isTable⟩ := exists_op spells isNamed rows
  have only : (catalog.changedSources ops view).filter (eqIgnoreAsciiCase · table) =
      (catalog.viewDeps view).filter (· == table) := by
    unfold changedSources
    rw [filter_filter]
    refine filter_congr fun source isSource => ?_
    rw [Bool.eq_iff_iff]
    simp only [Bool.and_eq_true, decide_eq_true_eq, beq_iff_eq]
    constructor
    · rintro ⟨agrees, -, -⟩
      have same := spells op isOp view source isSource
        (by simpa [isTable, eqIgnoreAsciiCase, eq_comm] using agrees)
      exact same.symm.trans isTable
    · rintro rfl
      refine ⟨by simp [eqIgnoreAsciiCase], any_eq_true.mpr ⟨op.table, ?_, ?_⟩, rows⟩
      · exact mem_dedup.mpr (mem_map_of_mem isOp)
      · simp [isTable, eqIgnoreAsciiCase]
  rw [only, filter_beq, named]
  rfl

theorem requests_filter (direct : catalog.Direct) (spells : catalog.Spells ops) (epoch : Nat)
    (depends : catalog.Depends view table) (rows : runtimeRowsForTable table ops ≠ []) :
    (catalog.requests epoch ops).filter (isFor view table) =
      [⟨view, epoch, table, runtimeRowsForTable table ops⟩] := by
  have named := direct view table depends
  have isNamed : table ∈ catalog.viewDeps view := count_pos_iff.mp (by omega)
  obtain ⟨op, isOp, isTable⟩ := exists_op spells isNamed rows
  have distinct : (changedTables ops).Nodup := nodup_dedup _
  obtain ⟨nodup, reached⟩ := catalog.mem_reachableCompiledViews distinct
  have isReached := (reached view).mpr
    (.inr ⟨table, isTable ▸ mem_dedup.mpr (mem_map_of_mem isOp), depends⟩)
  unfold requests
  rw [filter_flatMap, flatMap_eq_of_mem nodup isReached]
  · rw [filter_map]
    have same : isFor view table ∘ (fun source =>
        (⟨view, epoch, source, runtimeRowsForTable source ops⟩ : SourceDeltaRequest)) =
        (eqIgnoreAsciiCase · table) := by
      funext source
      simp [isFor]
    rw [same, changedSources_filter spells named rows]
    rfl
  · intro other _ apart
    refine filter_eq_nil_iff.mpr fun request mem => ?_
    obtain ⟨source, -, rfl⟩ := mem_map.mp mem
    simp [isFor, apart]

end ViewCatalog

/-! ## Success and the submitted deltas -/

/-- Each dependent view has got the rows of each table that a COMMIT changed exactly once. -/
def DeltasSubmitted (catalog : ViewCatalog) (written : WrittenCommit)
    (sent : List SourceDeltaRequest) : Prop :=
  ∀ view table, catalog.Depends view table → runtimeRowsForTable table written.ops ≠ [] →
    (sent.filter (SourceDeltaRequest.isFor view table)).map SourceDeltaRequest.rows =
      [runtimeRowsForTable table written.ops]

/-- Something holds of the sent requests of every COMMIT with a key, whenever a COMMIT with that key
returns success. -/
def AtEverySuccess (query : KeyHash) (history : List GatewayEvent)
    (Holds : WrittenCommit → List SourceDeltaRequest → Prop) : Prop :=
  ∀ before success after, history = before ++ success :: after → success.succeeds query ≠ none →
    ∀ number written, .wrote number (some query) written ∈ before →
      Holds written (submissions number before)

theorem deltasSubmitted (direct : catalog.Direct) {written : WrittenCommit}
    (spells : catalog.Spells written.ops) :
    DeltasSubmitted catalog written (written.requests (some catalog)) := by
  intro view table depends rows
  have only := ViewCatalog.requests_filter direct spells written.epoch depends rows
  rw [show written.requests (some catalog) = catalog.requests written.epoch written.ops from rfl,
    only]
  rfl

/-- Every COMMIT with a key has submitted all its requests or still holds the lock, and had
submitted them at every success. -/
structure CommitCore.Delivered (catalog : Option ViewCatalog) (query : KeyHash)
    (core : CommitCore) :
    Prop where
  whole : ∀ number written, .wrote number (some query) written ∈ core.history →
    submissions number core.history = written.requests catalog ∨
      ∃ conn requests, (core.phases conn).refreshes = some (number, some query, requests)
  everySuccess : AtEverySuccess query core.history
    fun written sent => sent = written.requests catalog

namespace CommitCore.Delivered

variable {catalog : Option ViewCatalog} {query : KeyHash} {core next : CommitCore} {start : Store}
  {orderly steady : KeyHash → Prop}

/-- Without a COMMIT that has requests left, everything is submitted. -/
theorem submitted (delivered : core.Delivered catalog query) (tracked : core.Tracked catalog start)
    (none : ∀ holder ∈ core.lock, (core.phases holder).pending query = false) {number : Nat}
    {written : WrittenCommit} (mem : .wrote number (some query) written ∈ core.history) :
    submissions number core.history = written.requests catalog := by
  rcases delivered.whole number written mem with all | ⟨conn, requests, shown⟩
  · exact all
  · obtain ⟨held, other, isOther, split⟩ := tracked.running conn number _ requests shown
    obtain ⟨-, rfl⟩ := tracked.wrote_unique isOther mem
    cases requests with
    | nil => simpa using split
    | cons request rest =>
      have left := CommitPhase.pending_iff.mpr ⟨number, request, rest, shown⟩
      exact absurd (left.symm.trans (none conn held)) (by simp)

section

variable (delivered : core.Delivered catalog query) (tracked : core.Tracked catalog start)
include delivered tracked

theorem quiet (event : Option GatewayEvent) (history : next.history = core.history ++ event.toList)
    (idle : ∀ happened ∈ event, happened.writer = none ∧
      ∀ number, happened.submission number = none)
    (stays : ∀ conn number requests,
      (core.phases conn).refreshes = some (number, some query, requests) →
      (next.phases conn).refreshes = some (number, some query, requests) ∨ requests = [])
    (success : ∀ happened ∈ event, happened.succeeds query ≠ none →
      ∀ holder ∈ core.lock, (core.phases holder).pending query = false) :
    next.Delivered catalog query := by
  refine ⟨fun number written mem => ?_, ?_⟩
  · rw [history] at mem
    have old := (mem_append.mp mem).resolve_right fun new => by
      have silent := (idle _ (Option.mem_toList.mp new)).1
      cases silent
    rw [history, submissions_idle fun happened isEvent => (idle happened isEvent).2 number]
    rcases delivered.whole number written old with all | ⟨conn, requests, shown⟩
    · exact .inl all
    · rcases stays conn number requests shown with still | rfl
      · exact .inr ⟨conn, requests, still⟩
      · obtain ⟨-, other, isOther, split⟩ := tracked.running conn number _ [] shown
        obtain ⟨-, rfl⟩ := tracked.wrote_unique isOther old
        exact .inl (by simpa using split)
  · rw [history]
    cases event with
    | none => simpa using delivered.everySuccess
    | some happened =>
      exact Justified.concat delivered.everySuccess fun isSuccess number written mem =>
        delivered.submitted tracked (success happened rfl isSuccess) mem

omit tracked in
theorem write {conn : ConnId} {number : Nat} {carried key : Option KeyHash} {store : Store}
    (written : WrittenCommit) (waiting : core.phases conn = .waiting number carried ops key) :
    CommitCore.Delivered catalog query { core with
      store := store
      phases := update core.phases conn
        (.refreshing number carried written.ops.length (written.requests catalog))
      lock := some conn
      history := core.history ++ [.wrote number carried written] } := by
  refine ⟨fun other otherWritten mem => ?_, Justified.concat delivered.everySuccess (absurd rfl)⟩
  rcases mem_append.mp mem with old | new
  · rcases delivered.whole other otherWritten old with all | ⟨holder, requests, shown⟩
    · rw [submissions_concat]
      exact .inl ((append_nil _).trans all)
    · exact .inr ⟨holder, requests, shown_update (by rw [waiting]; rfl) shown⟩
  · obtain ⟨rfl, rfl, rfl⟩ := wrote.inj (mem_singleton.mp new)
    exact .inr ⟨conn, otherWritten.requests catalog, by simp [CommitPhase.refreshes]⟩

theorem submit {conn : ConnId} {number affected : Nat} {carried : Option KeyHash}
    {request : SourceDeltaRequest} {rest : List SourceDeltaRequest}
    (refreshing : core.phases conn = .refreshing number carried affected (request :: rest)) :
    CommitCore.Delivered catalog query { core with
      phases := update core.phases conn (.refreshing number carried affected rest)
      history := core.history ++ [.submitted number request] } := by
  have before := CommitPhase.refreshes_eq refreshing
  refine ⟨fun other written mem => ?_, Justified.concat delivered.everySuccess (absurd rfl)⟩
  have old := (mem_append.mp mem).resolve_right (by simp)
  by_cases same : other = number
  · subst same
    obtain ⟨-, own, isOwn, -⟩ := tracked.running conn other carried _ before
    obtain ⟨rfl, -⟩ := tracked.wrote_unique isOwn old
    exact .inr ⟨conn, rest, by simp [CommitPhase.refreshes]⟩
  · rcases delivered.whole other written old with all | ⟨holder, requests, shown⟩
    · exact .inl (by simpa [submissions_concat, submission, Ne.symm same] using all)
    · refine .inr ⟨holder, requests, ?_⟩
      have apart : holder ≠ conn := by
        rintro rfl
        exact same (Prod.mk.inj (Option.some.inj (shown.symm.trans before))).1
      simpa [update_of_ne apart] using shown

theorem step (isSteady : steady query) (moves : Step catalog orderly steady core next) :
    next.Delivered catalog query := by
  cases moves with
  | answer carried answer found alone =>
    refine delivered.quiet tracked (some _) rfl (by simp [writer, submission])
      (fun _ _ _ shown => .inl shown) fun happened isEvent isSuccess => ?_
    cases isEvent
    exact alone query isSteady (of_succeeds isSuccess).1
  | look conn carried ops key idle unrecorded kept =>
    exact delivered.quiet tracked (some _) rfl (by simp [writer, submission])
      (fun _ _ _ shown => .inl (shown_update (by rw [idle]; rfl) shown))
        (by simp [GatewayEvent.succeeds])
  | refuse conn number carried ops key answer waiting free failed =>
    exact delivered.quiet tracked (some _) rfl (by simp [writer, submission])
      (fun _ _ _ shown => .inl (shown_update (by rw [waiting]; rfl) shown)) (by simp [free])
  | write conn number carried ops key written nowMs views waiting free batch fresh =>
    exact delivered.write written waiting
  | submit conn number carried affected request rest refreshing =>
    exact delivered.submit tracked refreshing
  | leave conn number carried affected requests answer refreshing whole stayed =>
    have before := CommitPhase.refreshes_eq refreshing
    refine delivered.quiet tracked (answer.map (.answered number carried)) rfl
      (by simp [writer, submission]) (fun other otherNumber left shown => ?_) ?_
    · by_cases same : other = conn
      · subst same
        obtain ⟨rfl, rfl, rfl⟩ : otherNumber = number ∧ some query = carried ∧ left = requests := by
          simpa using Option.some.inj (shown.symm.trans before)
        exact .inr (stayed query isSteady rfl)
      · exact .inl (by simpa [update_of_ne same] using shown)
    · intro happened isEvent isSuccess holder held
      obtain ⟨given, rfl, rfl⟩ := Option.map_eq_some_iff.mp isEvent
      obtain ⟨-, count, rfl⟩ := of_succeeds isSuccess
      obtain rfl : conn = holder :=
        Option.some.inj ((tracked.running conn number carried requests before).1.symm.trans held)
      rw [refreshing, whole count rfl]
      rfl
  | giveUp conn number carried ops key waiting =>
    exact delivered.quiet tracked none (by simp) (by simp)
      (fun _ _ _ shown => .inl (shown_update (by rw [waiting]; rfl) shown)) (by simp)
  | store writes free =>
    exact delivered.quiet tracked (some _) rfl (by simp [writer, submission])
      (fun _ _ _ shown => .inl shown) (by simp [GatewayEvent.succeeds])

end

end CommitCore.Delivered

/-- Where every view names its tables itself and once, every success in a run that is steady for its
key means that every delta of the COMMITs with that key was submitted exactly once. -/
theorem distributed_refresh_steady (catalog : ViewCatalog) (direct : catalog.Direct) (db : ShardDb)
    (steps : List GatewayStep) (query : KeyHash) (spells : ∀ number carried written,
      .wrote number carried written ∈ (Gateway.run (some catalog) db steps).history →
      catalog.Spells written.ops)
    (isSteady : Throughout (Gateway.step (some catalog)) (steady query) (Gateway.start db) steps) :
    AtEverySuccess query (Gateway.run (some catalog) db steps).history
      (DeltasSubmitted catalog) := by
  obtain ⟨-, delivered⟩ := CommitCore.holds_of_run
    (fun _ _ _ _ tracked allowed moves delivered =>
      CommitCore.Delivered.step delivered tracked allowed moves)
    (tracked_start (some catalog) db) isSteady ⟨by simp [start, core], Justified.nil⟩
  intro before success after history isSuccess number written member
  have all := delivered.everySuccess before success after history isSuccess number written member
  rw [all]
  refine deltasSubmitted direct (spells number (some query) written ?_)
  rw [history]
  exact mem_append_left _ member

/-! ### Sample runs -/

def singleView (sources : List Bytes) (tables : [0x76] ∉ sources) : ViewCatalog where
  views := [[0x76]]
  viewDeps := fun name => if name = [0x76] then sources else []
  rank := fun name => if name = [0x76] then 1 else 0
  acyclic := by
    intro view dep named
    split at named
    · have apart : dep ≠ [0x76] := fun same => tables (same ▸ named)
      simp_all
    · exact absurd named not_mem_nil

theorem of_mem_singleView {sources : List Bytes} {tables : [0x76] ∉ sources} {view dep : Bytes}
    (isDep : dep ∈ (singleView sources tables).viewDeps view) : view = [0x76] ∧ dep ∈ sources := by
  simp only [singleView] at isDep
  split at isDep
  · exact ⟨‹_›, isDep⟩
  · exact absurd isDep not_mem_nil

theorem of_depends_singleView {sources : List Bytes} {tables : [0x76] ∉ sources}
    {view table : Bytes} (depends : (singleView sources tables).Depends view table) :
    view = [0x76] ∧ table ∈ sources := by
  induction depends using Relation.TransGen.head_induction_on with
  | single isDep => exact of_mem_singleView (mem_depsWithin.mp isDep).2
  | head isDep _ ih =>
    exact absurd (of_mem_singleView (mem_depsWithin.mp isDep).2).2 (ih.1 ▸ tables)

def sampleCatalog : ViewCatalog := singleView [[0x74]] (by decide)

theorem sampleCatalog_direct : sampleCatalog.Direct := by
  intro view table depends
  obtain ⟨rfl, isTable⟩ := of_depends_singleView depends
  rw [mem_singleton.mp isTable]
  rfl

def submittingRun (requests : Nat) : List GatewayStep :=
  [.set 0 ⟨some sampleKey, none⟩, .statement 0 (.push (sampleInsert 1)),
    .commit 0 sampleKey fun _ => none, .apply 0 calmWeather] ++
    replicate requests (.submit 0 none) ++ [.finish 0 none]

/-- Without a failure the view over the sample table gets its delta once, also when the client tries
again. -/
theorem distributed_refresh_steady_sample :
    let steps := submittingRun 1 ++ transaction 0 (sampleInsert 1)
    AtEverySuccess sampleKey (Gateway.run (some sampleCatalog) emptyDb steps).history
      (DeltasSubmitted sampleCatalog) := by
  refine distributed_refresh_steady sampleCatalog sampleCatalog_direct emptyDb _ sampleKey ?_ ?_
  · intro number carried written member
    obtain ⟨sampleWritten, request, history, ops⟩ : ∃ sampleWritten request,
        (run (some sampleCatalog) emptyDb
          (submittingRun 1 ++ transaction 0 (sampleInsert 1))).history =
          [.looked 0 (some sampleKey), .wrote 0 (some sampleKey) sampleWritten,
            .submitted 0 request, .answered 0 (some sampleKey) (.ok (some 1)),
            .answered 1 (some sampleKey) (.ok none)] ∧
        sampleWritten.ops = [sampleInsert 1] := ⟨_, _, rfl, rfl⟩
    rw [history] at member
    obtain ⟨-, -, rfl⟩ : number = 0 ∧ carried = some sampleKey ∧ written = sampleWritten := by
      simpa using member
    rw [ops]
    intro op isOp view source isSource agrees
    obtain ⟨-, isTable⟩ := of_mem_singleView isSource
    rw [mem_singleton.mp isOp, mem_singleton.mp isTable]
    rfl
  · exact ⟨trivial, trivial, fun _ => nofun, trivial, fun _ => rfl, trivial, trivial,
      fun _ => nofun, trivial, trivial, trivial⟩

/-- The request of the first COMMIT fails, and the client tries again with the same key. -/
def retryRun : List GatewayStep :=
  [.set 0 ⟨some sampleKey, none⟩, .statement 0 (.push (sampleInsert 1)),
    .commit 0 sampleKey fun _ => none, .apply 0 calmWeather, .submit 0 (some ("refused", false)),
    .statement 0 (.push (sampleInsert 1)), .commit 0 sampleKey fun _ => none]

/-- The view `v` over a join that names the sample table twice, with another table in between. -/
def selfJoinCatalog : ViewCatalog := singleView [[0x74], [0x75], [0x74]] (by decide)

/-- A view `v` over the sample table and a view `w` over `v`. -/
def nestedCatalog : ViewCatalog where
  views := [[0x76], [0x77]]
  viewDeps := fun name =>
    if name = [0x76] then [[0x74]] else if name = [0x77] then [[0x76]] else []
  rank := fun name => if name = [0x76] then 1 else if name = [0x77] then 2 else 0
  acyclic := by
    intro view dep named
    split at named
    · simp_all
    · split at named
      · simp_all
      · exact absurd named not_mem_nil

theorem not_atEverySuccess {query : KeyHash} {history : List GatewayEvent}
    (before after : List GatewayEvent) {success : GatewayEvent} (number : Nat)
    (written : WrittenCommit) (view table : Bytes) (split : history = before ++ success :: after)
    (isSuccess : success.succeeds query ≠ none) (mem : .wrote number (some query) written ∈ before)
    (depends : catalog.Depends view table)
    (rows : runtimeRowsForTable table written.ops ≠ [])
    (wrong : ((submissions number before).filter (isFor view table)).length ≠ 1) :
    ¬ AtEverySuccess query history (DeltasSubmitted catalog) := by
  intro holds
  have found := congrArg length
    (holds before success after split isSuccess number written mem view table depends rows)
  rw [length_map] at found
  exact wrong found

/-- A retry succeeds with nothing submitted; a view that names a table twice gets its rows twice;
and a view over a view gets nothing. -/
theorem distributed_refresh_fails :
    ¬ AtEverySuccess sampleKey (Gateway.run (some sampleCatalog) emptyDb retryRun).history
      (DeltasSubmitted sampleCatalog) ∧
    ¬ AtEverySuccess sampleKey (Gateway.run (some selfJoinCatalog) emptyDb
      (submittingRun 2)).history
      (DeltasSubmitted selfJoinCatalog) ∧
    ¬ AtEverySuccess sampleKey (Gateway.run (some nestedCatalog) emptyDb (submittingRun 1)).history
      (DeltasSubmitted nestedCatalog) := by
  refine ⟨?_, ?_, ?_⟩
  · obtain ⟨written, fault, history, ops⟩ : ∃ written fault,
        (run (some sampleCatalog) emptyDb retryRun).history =
          [.looked 0 (some sampleKey), .wrote 0 (some sampleKey) written,
            .answered 0 (some sampleKey) (.error fault)] ++
          [.answered 1 (some sampleKey) (.ok none)] ∧ written.ops = [sampleInsert 1] :=
      ⟨_, _, rfl, rfl⟩
    exact not_atEverySuccess _ _ 0 written [0x76] [0x74] history (by decide) (by simp)
      (.single (by decide)) (by rw [ops]; decide)
      (by rw [show submissions 0 _ = [] from rfl]; simp)
  · obtain ⟨written, request, history, ops, isFor⟩ : ∃ written request,
        (run (some selfJoinCatalog) emptyDb (submittingRun 2)).history =
          [.looked 0 (some sampleKey), .wrote 0 (some sampleKey) written, .submitted 0 request,
            .submitted 0 request] ++ [.answered 0 (some sampleKey) (.ok (some 1))] ∧
        written.ops = [sampleInsert 1] ∧ request.isFor [0x76] [0x74] :=
      ⟨_, _, rfl, rfl, rfl⟩
    exact not_atEverySuccess _ _ 0 written [0x76] [0x74] history (by decide) (by simp)
      (.single (by decide)) (by rw [ops]; decide)
      (by rw [show submissions 0 _ = [request, request] from rfl]; simp [isFor])
  · obtain ⟨written, request, history, ops, isFor⟩ : ∃ written request,
        (run (some nestedCatalog) emptyDb (submittingRun 1)).history =
          [.looked 0 (some sampleKey), .wrote 0 (some sampleKey) written, .submitted 0 request] ++
          [.answered 0 (some sampleKey) (.ok (some 1))] ∧
        written.ops = [sampleInsert 1] ∧ request.isFor [0x77] [0x74] = false :=
      ⟨_, _, rfl, rfl, rfl⟩
    have overView : nestedCatalog.Depends [0x77] [0x76] := .single (by decide)
    have overTable : nestedCatalog.Depends [0x76] [0x74] := .single (by decide)
    exact not_atEverySuccess _ _ 0 written [0x77] [0x74] history (by decide) (by simp)
      (overView.trans overTable) (by rw [ops]; decide)
      (by rw [show submissions 0 _ = [request] from rfl]; simp [isFor])

end RockStream
