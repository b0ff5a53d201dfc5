/-!
Names for what a store keeps: tables, the pages of a table, the rows on a page, and the
transactions that change them. Tables have a fixed order, bare numbers before files, and pages are
ordered by table and then by number.
-/

namespace PagedStore

/-- A table is named by the file that holds it, files being counted in the order in which they
came into being, or by a bare number that belongs to no file. -/
inductive TableId where
  | number (value : Nat)
  | file (index : Nat)
deriving DecidableEq, Repr

namespace TableId

def label : TableId → String
  | number value => s!"{value}"
  | file index => s!"T{index}"

def text (table : TableId) : String := s!"TableId({table.label})"

def order : TableId → TableId → Ordering
  | number a, number b => compare a b
  | number _, file _ => .lt
  | file _, number _ => .gt
  | file a, file b => compare a b

instance : Ord TableId := ⟨order⟩

end TableId

structure PageId where
  table : TableId
  index : UInt32
deriving DecidableEq, Repr

namespace PageId

def number (page : PageId) : Nat := page.index.toNat

theorem number_lt (page : PageId) : page.number < 4294967296 := page.index.toNat_lt

theorem ext_number {page other : PageId} (tables : page.table = other.table)
    (numbers : page.number = other.number) : page = other := by
  cases page
  cases other
  exact congr (congrArg PageId.mk tables) (UInt32.toNat_inj.mp numbers)

theorem number_ne {page other : PageId} (tables : page.table = other.table) (differs : page ≠ other) :
    page.number ≠ other.number :=
  fun numbers => differs (ext_number tables numbers)

def text (page : PageId) : String := s!"PageId({page.table.label}, {page.number})"

def offset (page : PageId) (pageSize : Nat) : Nat := page.number * pageSize

def order (a b : PageId) : Ordering :=
  (compare a.table b.table).then (compare a.number b.number)

instance : Ord PageId := ⟨order⟩

end PageId

structure RecordId where
  page : PageId
  slot : UInt16
deriving DecidableEq, Repr

namespace RecordId

/-- The record of slot `slot`, whose number is cut to sixteen bits. -/
def ofSlot (page : PageId) (slot : Nat) : RecordId := ⟨page, UInt16.ofNat slot⟩

def text (record : RecordId) : String := s!"{record.page.text}#{record.slot.toNat}"

end RecordId

structure Transaction where
  number : Nat
deriving DecidableEq, Repr

namespace Transaction

def first : Transaction := ⟨1⟩

def next (transaction : Transaction) : Transaction := ⟨transaction.number + 1⟩

/-- The transactions handed out one after the other, beginning with `start`. -/
def issue (start : Transaction) : Nat → List Transaction
  | 0 => []
  | count + 1 => start :: issue start.next count

def text (transaction : Transaction) : String := s!"Tx({transaction.number})"

end Transaction

end PagedStore
