import RockStream.Gateway.Dml
import RockStream.Lib.DependencyOrder

/-!
Contract: the views that a change of tables reaches (`reachable_compiled_views`), and the
source deltas that a distributed gateway submits for them
(`rockstream-gateway/src/server.rs`).

The catalog keeps for every view the names its own query mentions. A view over a view
mentions that view and not the tables below it.

Owns: `ViewCatalog`, `reachableCompiledViews`, `runtimeRowsForTable`, and the list of requests
of a commit.

Does not own: the views that a gateway without a data plane has compiled, request ids, and the
numbers that names of workloads are hashed to.
-/

namespace RockStream

open Lib

/-- The views of the catalog and the names each of them mentions. A view that would close a cycle is
refused when it is created, and DROP VIEW leaves the names that the view mentioned. -/
structure ViewCatalog where
  views : List Bytes
  viewDeps : Bytes → List Bytes
  rank : Bytes → Nat
  acyclic : ∀ view, ∀ dep ∈ viewDeps view, rank dep < rank view

def firstName (names : List Bytes) : Option Bytes :=
  (names.insertionSort fun left right => compare left right ≠ .gt).head?

theorem eq_nil_of_firstName {names : List Bytes} (first : firstName names = none) : names = [] := by
  have sorted := congrArg List.length (List.head?_eq_none_iff.mp first)
  rw [List.length_insertionSort, List.length_nil] at sorted
  exact List.eq_nil_of_length_eq_zero sorted

theorem mem_of_firstName {names : List Bytes} {name : Bytes} (first : firstName names = some name) :
    name ∈ names :=
  (List.mem_insertionSort _).mp (List.mem_of_head? first)

namespace ViewCatalog

variable (catalog : ViewCatalog)

/-- A view of the catalog depends on a relation, through views of the catalog. -/
def Depends : Bytes → Bytes → Prop := DependsOn (depsWithin catalog.views catalog.viewDeps)

/-- `reachable_compiled_views` of a gateway with a data plane, where every reached name is a
candidate. -/
def reachableCompiledViews (changed : List Bytes) : List Bytes :=
  dependencyOrder firstName catalog.viewDeps
    (reach catalog.viewDeps catalog.views catalog.views.length changed)

/-- The reached views: each once, and exactly those that a change reaches through its
dependencies. -/
theorem mem_reachableCompiledViews {changed : List Bytes} (nodup : changed.Nodup) :
    (catalog.reachableCompiledViews changed).Nodup ∧
    ∀ view, view ∈ catalog.reachableCompiledViews changed ↔
      view ∈ changed ∨ ∃ table ∈ changed, catalog.Depends view table := by
  obtain ⟨nodupOrder, _, members⟩ := mem_dependencyOrder (nodup_reach nodup)
    (fun _ _ => mem_of_firstName) (fun _ => eq_nil_of_firstName) catalog.acyclic
  exact ⟨nodupOrder, fun view => (members view).trans (mem_reach nodup)⟩

end ViewCatalog

/-! ## The requests of a commit -/

def eqIgnoreAsciiCase (left right : Bytes) : Bool := toAsciiLowercase left = toAsciiLowercase right

/-- `runtime_rows_for_table`: the signed rows of the operations on a table. -/
def runtimeRowsForTable (table : Bytes) (ops : List DmlOp) : List (Bytes × Int) :=
  ops.flatMap (DmlOp.deltaRows table)

/-- `SourceDeltaRequest`: the rows of a source for the workload of a view. -/
structure SourceDeltaRequest where
  view : Bytes
  epoch : Nat
  source : Bytes
  rows : List (Bytes × Int)
deriving DecidableEq

def changedTables (ops : List DmlOp) : List Bytes := (ops.map DmlOp.table).dedup

namespace ViewCatalog

def changedSources (catalog : ViewCatalog) (ops : List DmlOp) (view : Bytes) : List Bytes :=
  (catalog.viewDeps view).filter fun source =>
    (changedTables ops).any (eqIgnoreAsciiCase · source) ∧ runtimeRowsForTable source ops ≠ []

def requests (catalog : ViewCatalog) (epoch : Nat) (ops : List DmlOp) : List SourceDeltaRequest :=
  (catalog.reachableCompiledViews (changedTables ops)).flatMap fun view =>
    (catalog.changedSources ops view).map fun source =>
      ⟨view, epoch, source, runtimeRowsForTable source ops⟩

end ViewCatalog

end RockStream
