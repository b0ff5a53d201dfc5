import PagedStore.Id
import PagedStore.Query.AggregateFunction
import PagedStore.Schema.Basic

/-!
What can go wrong. An `Error` is an answer that a caller has to expect, with its cause; `message`
is the only place that puts causes into words. A `Fault` is an error, a call that broke the contract
of the function it called, a division by zero, or a loop that used up its budget of steps.
-/

namespace PagedStore

/-- Why the file system refused. -/
inductive IoError where
  | notFound
  | isADirectory
  | notADirectory
  | invalidInput
  | invalidFilename
  | permissionDenied
  | unexpectedEof
deriving DecidableEq, Repr

/-- What was used without having been opened. -/
inductive Closable where
  | operator
  | cursor
deriving DecidableEq, Repr

inductive Error where
  | io (cause : IoError)
  | typeMismatch (expected found : ValueType)
  | unknownColumn (name : String)
  | noColumn (index : Nat)
  | notOpen (what : Closable)
  | exhausted
  | outOfPages
  | unsupportedAggregate (function : AggregateFunction) (type : ValueType)
  | schemaMismatch (expected found : Schema)
  | tableNotFound (table : TableId)
  | pageFull (page : PageId)
  | missingRecordId
  | notOnPage (record : RecordId)
  | corruptedPage (page : PageId) (slot : Nat) (schema : Schema)
  | wrongPageSize (expected actual : Nat)
deriving DecidableEq

def IoError.name : IoError → String
  | notFound => "NotFound"
  | isADirectory => "IsADirectory"
  | notADirectory => "NotADirectory"
  | invalidInput => "InvalidInput"
  | invalidFilename => "InvalidFilename"
  | permissionDenied => "PermissionDenied"
  | unexpectedEof => "UnexpectedEof"

def Closable.name : Closable → String
  | operator => "operator"
  | cursor => "heap file iterator"

def Error.message : Error → String
  | io cause => cause.name
  | typeMismatch expected found => s!"Type mismatch: expected {expected.name}, found {found.name}"
  | unknownColumn name => s!"Field '{name}' not found"
  | noColumn index => s!"Field '#{index}' not found"
  | notOpen what => s!"Illegal state: {what.name} is not open"
  | exhausted => "No more tuples"
  | outOfPages => "Buffer pool has no pages to evict"
  | unsupportedAggregate function type =>
      s!"Aggregate {function.name} is not supported over {type.name}"
  | schemaMismatch expected found =>
      s!"Schema mismatch: expected [{expected.display}], found [{found.display}]"
  | tableNotFound table => s!"Table {table.text} not found"
  | pageFull page => s!"Page {page.text} is full"
  | missingRecordId => "Tuple has no record id"
  | notOnPage record => s!"Tuple {record.text} is not stored on its page"
  | corruptedPage page slot schema =>
      s!"Corrupted page {page.text}: slot {slot} does not decode as [{schema.display}]"
  | wrongPageSize expected actual =>
      s!"Invalid page size: expected {expected} bytes, got {actual} bytes"

theorem Error.exists_of_bind {ε α β : Type} {first : Except ε α} {next : α → Except ε β} {result : β}
    (done : first >>= next = .ok result) :
    ∃ value, first = .ok value ∧ next value = .ok result := by
  cases first with
  | error cause => contradiction
  | ok value => exact ⟨value, rfl, done⟩

theorem Error.mapM_eq_ok_iff {ε α β : Type} (f : α → Except ε β) (xs : List α) (ys : List β) :
    xs.mapM f = .ok ys ↔ xs.map f = ys.map .ok := by
  induction xs generalizing ys with
  | nil => cases ys <;> simp [pure, Except.pure]
  | cons x xs ih =>
    rw [List.mapM_cons, List.map_cons]
    cases head : f x with
    | error cause => cases ys <;> simp [bind, Except.bind]
    | ok y =>
      cases ys with
      | nil => cases tail : xs.mapM f <;> simp [bind, Except.bind, pure, Except.pure]
      | cons z zs =>
        rw [List.map_cons, List.cons.injEq, ← ih zs]
        cases tail : xs.mapM f <;> simp [bind, Except.bind, pure, Except.pure]

theorem Error.mapM_succeeds_iff {ε α β : Type} {f : α → Except ε β} {xs : List α} :
    (∃ ys, xs.mapM f = .ok ys) ↔ ∀ x ∈ xs, ∃ y, f x = .ok y := by
  induction xs with
  | nil => simp [pure, Except.pure]
  | cons x xs ih =>
    rw [List.mapM_cons, List.forall_mem_cons, ← ih]
    cases f x with
    | error cause => simp [bind, Except.bind]
    | ok y => cases xs.mapM f <;> simp [bind, Except.bind, pure, Except.pure]

theorem Error.mapM_concat_eq_error_iff {ε α β : Type} {f : α → Except ε β} {xs : List α} {x : α}
    {cause : ε} :
    (xs ++ [x]).mapM f = .error cause ↔
      xs.mapM f = .error cause ∨ (∃ ys, xs.mapM f = .ok ys) ∧ f x = .error cause := by
  rw [List.mapM_append, List.mapM_cons]
  cases xs.mapM f <;> cases f x <;> simp [bind, Except.bind, pure, Except.pure]

/-- The first step that fails decides, and no later one is looked at. -/
theorem Error.mapM_range_eq_error_iff {ε α : Type} {f : Nat → Except ε α} {count : Nat} {cause : ε} :
    (List.range count).mapM f = .error cause ↔
      ∃ index < count, f index = .error cause ∧ ∀ earlier < index, ∃ value, f earlier = .ok value := by
  induction count with
  | zero => simp [pure, Except.pure]
  | succ count ih =>
    rw [List.range_succ, mapM_concat_eq_error_iff, mapM_succeeds_iff, ih]
    simp only [List.mem_range]
    constructor
    · rintro (⟨index, below, fails⟩ | ⟨passed, fails⟩)
      · exact ⟨index, Nat.lt_succ_of_lt below, fails⟩
      · exact ⟨count, Nat.lt_succ_self count, fails, passed⟩
    · rintro ⟨index, below, fails, passed⟩
      rcases Nat.lt_succ_iff_lt_or_eq.mp below with earlier | rfl
      · exact Or.inl ⟨index, earlier, fails, passed⟩
      · exact Or.inr ⟨passed, fails⟩

theorem Error.mapM_eq_mapError {ε δ α ι : Type} {change : ε → δ} {f : ι → Except ε α}
    {g : ι → Except δ α} {items : List ι} (each : ∀ item ∈ items, g item = (f item).mapError change) :
    items.mapM g = (items.mapM f).mapError change := by
  induction items with
  | nil => rfl
  | cons item items ih =>
    have rest := ih fun other member => each other (List.mem_cons_of_mem item member)
    rw [List.mapM_cons, List.mapM_cons, each item List.mem_cons_self, rest]
    cases f item with
    | error cause => rfl
    | ok value => cases items.mapM f <;> rfl

/-- What stops a computation: an expected error, a caller who broke the contract of a function, an
average over a count of zero, or a loop that used up its steps. -/
inductive Fault where
  | error (cause : Error)
  | brokenContract
  | dividedByZero
  | outOfSteps
deriving DecidableEq

end PagedStore
