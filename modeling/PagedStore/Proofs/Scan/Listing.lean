import PagedStore.Proofs.Scan.Drain

/-!
What a scan lists, as a list of its own. The lines of a table are what a reader sees of its filled
cells from the left to the right: the columns of the scan, the values that a page keeps, and the record
of the slot. They depend only on the current map, on the number of cells and on how the file is laid
out, so the same rows that two scans give out can be compared through them.
-/

namespace PagedStore

structure Line where
  schema : Schema
  values : List Value
  record : Option RecordId
deriving DecidableEq

def Line.kept (line : Line) : Line := { line with values := line.values.map Value.kept }

namespace Row

def line (row : Row) : Line := ⟨row.schema, row.values, row.record⟩

theorem line_injective : Function.Injective line := by
  intro left right same
  cases left
  cases right
  simp only [line, Line.mk.injEq] at same
  obtain ⟨rfl, rfl, rfl⟩ := same
  rfl

end Row

namespace HeapFile

def recordAt (heap : HeapFile) (index : Nat) : RecordId :=
  RecordId.ofSlot (heap.page (index / heap.slotCount)) (index % heap.slotCount)

structure SameLayout (heap other : HeapFile) : Prop where
  file_eq : other.file = heap.file
  schema_eq : other.schema = heap.schema
  pageSize_eq : other.pageSize = heap.pageSize

variable {heap other : HeapFile}

theorem SameLayout.table_eq (same : heap.SameLayout other) : other.table = heap.table := by
  simp only [table, same.file_eq]

theorem SameLayout.page_eq (same : heap.SameLayout other) : other.page = heap.page := by
  funext number
  simp only [page, same.table_eq]

theorem SameLayout.slotCount_eq (same : heap.SameLayout other) :
    other.slotCount = heap.slotCount := by
  simp only [slotCount, same.pageSize_eq, same.schema_eq]

end HeapFile

namespace ScanSource

/-- What a reader sees in a cell. -/
def lineAt? (source : ScanSource) (current : PageId → Option Contents) (index : Nat) : Option Line :=
  (source.file.cell current index).map fun values =>
    ⟨source.schema, values, some (source.file.recordAt index)⟩

def lines (source : ScanSource) (current : PageId → Option Contents) (cells place : Nat) :
    List Line :=
  (List.range' place (cells - place)).filterMap (source.lineAt? current)

variable {source : ScanSource} {current : PageId → Option Contents} {cells place index : Nat}

theorem lineAt_of_cell {values : List Value}
    (filled : source.file.cell current index = some values) :
    source.lineAt? current index =
      some ⟨source.schema, values, some (source.file.recordAt index)⟩ := by
  simp only [lineAt?, filled, Option.map_some]

theorem lines_of_bare (bare : source.file.Bare current cells place) :
    source.lines current cells place = [] := by
  rw [lines, List.filterMap_eq_nil_iff]
  intro index member
  obtain ⟨atLeast, inside⟩ := List.mem_range'_1.mp member
  have free := bare index atLeast (by omega)
  simp only [lineAt?, free, Option.map_none]

theorem lines_of_next (next : source.file.NextCell current cells place index) {line : Line}
    (there : source.lineAt? current index = some line) :
    source.lines current cells place = line :: source.lines current cells (index + 1) := by
  have atLeast := next.atLeast
  have inside := next.inside
  have free : (List.range' place (index - place)).filterMap (source.lineAt? current) = [] := by
    rw [List.filterMap_eq_nil_iff]
    intro earlier member
    obtain ⟨after, before⟩ := List.mem_range'_1.mp member
    have empty := next.free earlier after (by omega)
    simp only [lineAt?, empty, Option.map_none]
  have split : List.range' place (cells - place) =
      List.range' place (index - place) ++ index :: List.range' (index + 1) (cells - (index + 1)) := by
    have reached : place + (index - place) = index := by omega
    have counted : cells - place = index - place + (cells - (index + 1) + 1) := by omega
    rw [counted, ← List.range'_append_1, reached, List.range'_succ]
  rw [lines, lines, split, List.filterMap_append, free, List.nil_append,
    List.filterMap_cons_some there]

/-- Two scans see the same lines if their files are laid out alike and hold the same. -/
theorem lines_congr {other : ScanSource} {otherCurrent : PageId → Option Contents}
    (layout : source.file.SameLayout other.file) (columns : other.«alias» = source.«alias»)
    (same : ∀ number, otherCurrent (source.file.page number) = current (source.file.page number)) :
    other.lines otherCurrent cells place = source.lines current cells place := by
  have schema : other.schema = source.schema := by
    simp only [ScanSource.schema, layout.schema_eq, columns]
  have cell : ∀ index, other.file.cell otherCurrent index = source.file.cell current index := by
    intro index
    simp only [HeapFile.cell, layout.page_eq, layout.slotCount_eq, same]
  have record : ∀ index, other.file.recordAt index = source.file.recordAt index := by
    intro index
    simp only [HeapFile.recordAt, layout.page_eq, layout.slotCount_eq]
  have line : other.lineAt? otherCurrent = source.lineAt? current := by
    funext index
    simp only [lineAt?, cell, schema, record]
  rw [lines, lines, line]

end ScanSource

namespace Store

variable {μ : Type} {store : Store μ} {source : ScanSource}

def lines (store : Store μ) (source : ScanSource) (place : Nat) : List Line :=
  source.lines store.current (store.cellCount source.file) place

theorem lineAt_of_shows {index : Nat} {row : Row} (shows : store.Shows source.file index row)
    (schema : row.schema = source.schema) :
    source.lineAt? store.current index = some row.line.kept := by
  rw [ScanSource.lineAt_of_cell shows.cell_eq, Line.kept, Row.line, schema, shows.record_eq]
  rfl

theorem lines_of_lists {place : Nat} {rows : List Row} (lists : Lists store source place rows) :
    rows.map (fun row => row.line.kept) = store.lines source place := by
  induction lists with
  | bare bare => exact (ScanSource.lines_of_bare bare).symm
  | row next shows schema _ ih =>
    have here := ScanSource.lines_of_next next (lineAt_of_shows shows schema)
    rw [lines, here, List.map_cons, ih, lines]

theorem keeps_of_lists {trait : RowTrait} (keeps : store.Keeps trait) {place : Nat}
    {rows : List Row} (lists : Lists store source place rows) :
    ∀ row ∈ rows, trait.holds row.values := by
  induction lists with
  | bare => simp
  | row _ shows _ _ ih =>
    intro row member
    rcases List.mem_cons.mp member with rfl | later
    · exact shows.keeps trait keeps
    · exact ih row later

/-- A cursor that is moved on gives out the next line, and the lines behind it are still to come. -/
theorem lines_of_sought {place : Nat} {found : Option Row} {after : Cursor × Store μ}
    (sought : Cursor.Sought store source.file place found after)
    (schema : ∀ row ∈ found, row.schema = source.schema) :
    (found.map fun row => row.line.kept) = (store.lines source place).head? ∧
      ∃ next, Cursor.StandsAt source.file after.1 next ∧
        store.lines source next = (store.lines source place).tail := by
  cases found with
  | none =>
    obtain ⟨bare, beyond, -, isBeyond, stands⟩ := sought
    have nothing : store.lines source place = [] := ScanSource.lines_of_bare bare
    have bareBeyond : source.file.Bare store.current (store.cellCount source.file) beyond :=
      fun index atLeast inside => absurd inside (by omega)
    rw [nothing]
    exact ⟨rfl, beyond, stands, ScanSource.lines_of_bare bareBeyond⟩
  | some row =>
    obtain ⟨index, next, shows, stands⟩ := sought
    have there := lineAt_of_shows shows (schema row rfl)
    have here : store.lines source place = row.line.kept :: store.lines source (index + 1) :=
      ScanSource.lines_of_next next there
    rw [here]
    exact ⟨rfl, index + 1, stands, rfl⟩

variable [EvictionPolicy μ]

theorem lines_of_saves (coherent : store.Coherent) {after : Store μ} (saves : Saves store after)
    (registered : store.catalog.file? source.file.table = some source.file) (place : Nat) :
    after.lines source place = store.lines source place := by
  rw [lines, lines, saves.current_eq, Cursor.cellCount_of_saves coherent saves registered]

end Store

end PagedStore
