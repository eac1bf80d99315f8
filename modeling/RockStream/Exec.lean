import RockStream.Lib.Meets
import RockStream.Lib.Simulation

/-!
Contract: outcomes of operator calls and checked 64-bit arithmetic.

The release profile of the workspace sets `overflow-checks = true`, so a plain
`+`, `-` or `*` on `i64` stops the call with a panic when the result leaves the
64-bit range. Weights are therefore integers together with the checked operations
below; an operation that returns at all returns the exact integer.

Owns:
- `OpError`, the operator errors that the modelled functions return;
- `Fault`, an error value or a panic;
- `Exec`, and `Step`, whose failures carry the state the call left behind;
- the checked operations on `i64` and `usize`.

Does not own: the code and the rendered text of an error beyond its arguments.
-/

namespace RockStream

variable {σ α : Type} {right result : Int}

/-- Operator-level errors (`rockstream-ops/src/error.rs`). -/
inductive OpError where
  | internal (detail : String)
  | arrow
  | columnOutOfBounds (index numCols : Nat)
  | columnTypeMismatch (expected got : String)
  | invalidLiteral (detail : String)
  | unimplemented (feature : String) (code : Nat)
  | storage (detail : String)
  | aggregateOverflow (groupKey : Int64)
  | minMaxRetractionUnderflow (groupKey value : Int64)
  | topKBufferOverflow (limit : Nat)
  | capacityExceeded (resource : String) (current limit : Nat) (nextSteps : String)
  | invalidMultiplicity (groupKey : Int64) (count : Int)
  | unsupportedPlanNode (kind : String)
  | hopWindowStateOverflow (current limit : Nat)
  | sessionWindowStateOverflow (current limit : Nat)
  | lateRouteOverflow (current limit : Nat)
  | recursionNonMonotoneDelta
  | recursionStateOverflow (current limit : Nat)
  | recursionMaxIterations (maxIterations : Nat)
deriving DecidableEq, Repr

/-- How a call can fail to return a value: an `Err`, the arithmetic-overflow
panic, or another panic (`expect`, `unwrap`, an index out of bounds). -/
inductive Fault where
  | err (error : OpError)
  | overflow
  | panicked (message : String)
deriving DecidableEq, Repr

abbrev Exec (α : Type) := Except Fault α

/-- A call on a state. A failure keeps the state as the call left it. -/
abbrev Step (σ : Type) := Except (Fault × σ)

/-- Run a stateless part of a call while the state is `state`. -/
def Exec.within {σ α : Type} (state : σ) : Exec α → Step σ α
  | .ok value => .ok value
  | .error fault => .error (fault, state)

@[simp] theorem Exec.within_eq_ok {state : σ} {call : Exec α} {value : α} :
    Exec.within state call = .ok value ↔ call = .ok value := by
  cases call <;> simp [Exec.within]

/-- A call fails in its stateless first part, which keeps the state, or in what follows. -/
theorem Exec.within_bind_eq_error {β : Type} {state left : σ} {call : Exec α} {fault : Fault}
    {next : α → Step σ β} (failed : Exec.within state call >>= next = .error (fault, left)) :
    call = .error fault ∧ left = state ∨
      ∃ value, call = .ok value ∧ next value = .error (fault, left) := by
  cases call with
  | error stopped =>
    cases failed
    exact .inl ⟨rfl, rfl⟩
  | ok value => exact .inr ⟨value, rfl, failed⟩

/-- The state that a call leaves, failed or not. -/
def Step.left {σ ω : Type} : Step σ (ω × σ) → σ
  | .ok (_, next) => next
  | .error (_, state) => state

theorem Exec.within_simulates {σ' α' : Type} {Related : α → α' → Prop} {call : Exec α}
    {other : Exec α'} (state : σ) (state' : σ') (simulates : Lib.Simulates Related call other) :
    Lib.Simulates Related (Exec.within state call) (Exec.within state' other) := by
  intro value returned
  obtain ⟨value', returned', rel⟩ := simulates value (Exec.within_eq_ok.mp returned)
  exact ⟨value', Exec.within_eq_ok.mpr returned', rel⟩

/-! ## Checked 64-bit arithmetic -/

/-- The integers an `i64` holds. -/
def InI64 (value : Int) : Prop := -2 ^ 63 ≤ value ∧ value < 2 ^ 63

instance (value : Int) : Decidable (InI64 value) := by
  unfold InI64
  infer_instance

theorem Int64.toInt_inI64 (value : Int64) : InI64 value.toInt :=
  ⟨value.le_toInt, value.toInt_lt⟩

def checkI64 (value : Int) : Exec Int :=
  if InI64 value then .ok value else .error .overflow

@[simp] theorem checkI64_eq_ok {value : Int} :
    checkI64 value = .ok result ↔ InI64 value ∧ result = value := by
  unfold checkI64
  split
  · next inside => simp [inside, eq_comm]
  · next outside => simp [outside]

theorem checkI64_error {value : Int} {fault : Fault} (failed : checkI64 value = .error fault) :
    fault = .overflow := by
  unfold checkI64 at failed
  split at failed
  · cases failed
  · cases failed
    rfl

/-- `left + right` on `i64`. -/
def addI64 (left right : Int) : Exec Int := checkI64 (left + right)

def subI64 (left right : Int) : Exec Int := checkI64 (left - right)

def mulI64 (left right : Int) : Exec Int := checkI64 (left * right)

def negI64 (value : Int) : Exec Int := checkI64 (-value)

def subUsize (left right : Nat) : Exec Nat :=
  if right ≤ left then .ok (left - right) else .error .overflow

def addUsize (left right : Nat) : Exec Nat :=
  if left + right < 2 ^ 64 then .ok (left + right) else .error .overflow

@[simp] theorem addI64_eq_ok {left : Int} :
    addI64 left right = .ok result ↔ InI64 (left + right) ∧ result = left + right :=
  checkI64_eq_ok

@[simp] theorem subI64_eq_ok {left : Int} :
    subI64 left right = .ok result ↔ InI64 (left - right) ∧ result = left - right :=
  checkI64_eq_ok

@[simp] theorem mulI64_eq_ok {left : Int} :
    mulI64 left right = .ok result ↔ InI64 (left * right) ∧ result = left * right :=
  checkI64_eq_ok

theorem addI64_of_inI64 {left : Int} (inside : InI64 (left + right)) :
    addI64 left right = .ok (left + right) :=
  addI64_eq_ok.mpr ⟨inside, rfl⟩

theorem subI64_of_inI64 {left : Int} (inside : InI64 (left - right)) :
    subI64 left right = .ok (left - right) :=
  subI64_eq_ok.mpr ⟨inside, rfl⟩

/-! ## Calls that fail only by overflow -/

/-- The call returns a value satisfying the postcondition, unless an `i64` overflows. -/
abbrev Yields {α : Type} (call : Exec α) (Post : α → Prop) : Prop :=
  Lib.Meets (fun fault => fault = .overflow) call Post

/-- The same for a call on a state. -/
abbrev StepYields {σ α : Type} (call : Step σ α) (Post : α → Prop) : Prop :=
  Lib.Meets (fun failure => failure.1 = .overflow) call Post

theorem Exec.meets_within {Allowed : Fault → Prop} {call : Exec α} {Post : α → Prop}
    (met : Lib.Meets Allowed call Post) (state : σ) :
    Lib.Meets (fun failure => Allowed failure.1) (Exec.within state call) Post := by
  cases call with
  | error fault => exact met
  | ok value => exact met

theorem Exec.meets_within_any {call : Exec α} {Post : α → Prop}
    (met : Lib.Meets (fun _ => True) call Post) (state : σ) :
    Lib.Meets (fun _ => True) (Exec.within state call) Post :=
  Exec.meets_within met state

theorem Yields.within {call : Exec α} {Post : α → Prop} (yields : Yields call Post) (state : σ) :
    StepYields (Exec.within state call) Post :=
  Exec.meets_within yields state

theorem yields_checkI64 (value : Int) : Yields (checkI64 value) (· = value) := by
  unfold checkI64
  split
  · exact Lib.Meets.ok rfl
  · rfl

theorem yields_addI64 (left right : Int) : Yields (addI64 left right) (· = left + right) :=
  yields_checkI64 _

theorem yields_mulI64 (left right : Int) : Yields (mulI64 left right) (· = left * right) :=
  yields_checkI64 _

theorem yields_negI64 (value : Int) : Yields (negI64 value) (· = -value) :=
  yields_checkI64 _

end RockStream
