import PagedStore.Proofs.Pool.FailedInsert
import PagedStore.Proofs.Pool.OwnChanges

/-!
What an insertion or a deletion changes of all that the pages show. If it succeeds, it changes one slot:
a free one shows the row from then on, or the slot of the row is free from then on. If it fails, it
changes none, even if a page has been added. Rows that are stored one after the other go to slots of
their own, and so do deletions.
-/

namespace PagedStore

namespace Change

def place (change : Change) : PageId × Nat := (change.page, change.slot)

/-- The change is what the request asks for. -/
inductive Fulfils : Change → Operation → Prop where
  | stored (transaction : Transaction) {table : TableId} (row : Row) {id : PageId} (slot : Nat)
      (own : id.table = table) :
      Fulfils ⟨transaction, id, slot, valuesOf (some row)⟩ (.insert transaction table row)
  | deleted (transaction : Transaction) {row : Row} {record : RecordId}
      (placed : row.record = some record) :
      Fulfils ⟨transaction, record.page, record.slot.toNat, none⟩ (.delete transaction row)

end Change

namespace Store

variable {μ : Type} {store middle after : Store μ} {id : PageId} {slot : Nat} {values : List Value}

/-- Whoever reads the page finds these values in the slot. -/
def Holds (store : Store μ) (id : PageId) (slot : Nat) (values : List Value) : Prop :=
  ∃ contents, store.Reads id contents ∧ contents slot = some values

/-- The changes are made at slots of their own, each of which was free if it has been filled and taken
if it has been freed, and every other slot is as it was. -/
structure DiffersBy (before : Store μ) (changes : List Change) (after : Store μ) : Prop where
  apart : (changes.map Change.place).Nodup
  turned : ∀ change ∈ changes,
    (∃ values, before.Holds change.page change.slot values) ↔ change.values = none
  made : ∀ change ∈ changes, ∀ values,
    after.Holds change.page change.slot values ↔ change.values = some values
  others : ∀ id slot values, (id, slot) ∉ changes.map Change.place →
    (after.Holds id slot values ↔ before.Holds id slot values)

theorem differsBy_nil
    (same : ∀ id slot values, after.Holds id slot values ↔ store.Holds id slot values) :
    DiffersBy store [] after where
  apart := List.nodup_nil
  turned := fun _ absent => absurd absent List.not_mem_nil
  made := fun _ absent => absurd absent List.not_mem_nil
  others := fun id slot values _ => same id slot values

/-- What fills slots does not fill one of them twice, and what frees slots does not free one twice. -/
theorem differsBy_append {earlier later : List Change} (first : DiffersBy store earlier middle)
    (second : DiffersBy middle later after)
    (alike : ∀ change ∈ earlier, ∀ other ∈ later, change.values = none ↔ other.values = none) :
    DiffersBy store (earlier ++ later) after := by
  have apart : ∀ change ∈ earlier, ∀ other ∈ later, change.place ≠ other.place := by
    intro change isEarlier other isLater same
    obtain ⟨samePage, sameSlot⟩ := Prod.mk.inj same
    have taken := second.turned other isLater
    rw [← samePage, ← sameSlot, ← alike change isEarlier other isLater] at taken
    simp only [first.made change isEarlier] at taken
    cases filled : change.values with
    | none =>
      obtain ⟨values, holds⟩ := taken.mpr filled
      rw [filled] at holds
      contradiction
    | some values =>
      have freed := taken.mp ⟨values, filled⟩
      rw [filled] at freed
      contradiction
  have notLater : ∀ change ∈ earlier, change.place ∉ later.map Change.place := by
    intro change isEarlier member
    obtain ⟨other, isLater, same⟩ := List.mem_map.mp member
    exact apart change isEarlier other isLater same.symm
  have notEarlier : ∀ change ∈ later, change.place ∉ earlier.map Change.place := by
    intro change isLater member
    obtain ⟨other, isEarlier, same⟩ := List.mem_map.mp member
    exact apart other isEarlier change isLater same
  constructor
  · rw [List.map_append, List.nodup_append]
    refine ⟨first.apart, second.apart, ?_⟩
    rintro _ isEarlier _ isLater rfl
    obtain ⟨change, member, rfl⟩ := List.mem_map.mp isEarlier
    exact notLater change member isLater
  · intro change member
    rcases List.mem_append.mp member with isEarlier | isLater
    · exact first.turned change isEarlier
    · rw [← second.turned change isLater]
      simp only [first.others change.page change.slot _ (notEarlier change isLater)]
  · intro change member values
    rcases List.mem_append.mp member with isEarlier | isLater
    · rw [second.others _ _ values (notLater change isEarlier)]
      exact first.made change isEarlier values
    · exact second.made change isLater values
  · intro id slot values elsewhere
    rw [List.map_append, List.mem_append, not_or] at elsewhere
    rw [second.others id slot values elsewhere.2, first.others id slot values elsewhere.1]

theorem differsBy_after_same {first : Store μ} {changes : List Change}
    (same : DiffersBy first [] store) (differs : DiffersBy store changes after) :
    DiffersBy first changes after :=
  differsBy_append same differs fun _ absent => absurd absent List.not_mem_nil

theorem holds_iff_of_cached {frame : Frame} (cached : store.pool.frame? id = some frame) :
    store.Holds id slot values ↔ frame.page.contents slot = some values := by
  constructor
  · rintro ⟨contents, reads, holds⟩
    rw [eq_of_reads cached reads]
    exact holds
  · exact fun holds => ⟨_, reads_of_cached cached, holds⟩

theorem differsBy_of_still (still : Still store after) : DiffersBy store [] after := by
  apply differsBy_nil
  intro id slot values
  simp only [Holds, still.reads_iff]

/-- A page without rows holds nothing, and before it was added nobody could read it. -/
theorem differsBy_of_grownByOne (aligned : store.Aligned) (few : store.Few)
    {file : HeapFile} (registered : store.catalog.file? file.table = some file)
    (grown : GrownByOne store file after) : DiffersBy store [] after := by
  apply differsBy_nil
  intro id slot values
  by_cases isNew : id = file.page (file.pageCount store.disk)
  · subst isNew
    constructor
    · rintro ⟨contents, reads, holds⟩
      rw [eq_of_reads_twice reads grown.blank] at holds
      contradiction
    · rintro ⟨contents, reads, -⟩
      exact absurd reads (not_reads_past_end aligned few registered contents)
  · simp only [Holds, grown.reads_iff id _ isNew]

variable [EvictionPolicy μ] {transaction : Transaction} {row : Option Row} {frame : Frame}

theorem differsBy_of_revised (revised : Revised store transaction id slot row frame after) :
    DiffersBy store [⟨transaction, id, slot, Change.valuesOf row⟩] after := by
  obtain ⟨old, cached, takes, -, -, now⟩ := contents_of_revised revised
  have lookup := frame_of_revised revised
  have cachedNow : after.pool.frame? id = some frame := (lookup id).trans (if_pos rfl)
  constructor
  · exact List.pairwise_singleton _ _
  · intro change member
    obtain rfl := List.mem_singleton.mp member
    have turns := takes.turns
    rw [← Page.isSome_contents] at turns
    simp only [holds_iff_of_cached cached]
    rw [← Option.isSome_iff_exists, turns, Change.valuesOf, Option.map_eq_none_iff]
    cases row with
    | none => exact iff_of_true rfl rfl
    | some row => exact iff_of_false Bool.false_ne_true (Option.some_ne_none row)
  · intro change member values
    obtain rfl := List.mem_singleton.mp member
    rw [holds_iff_of_cached cachedNow, now, if_pos rfl]
  · intro other place values elsewhere
    by_cases samePage : other = id
    · subst samePage
      have differs : place ≠ slot := by
        rintro rfl
        exact elsewhere List.mem_cons_self
      rw [holds_iff_of_cached cachedNow, holds_iff_of_cached cached, now, if_neg differs]
    · have same := (lookup other).trans (if_neg samePage)
      obtain ⟨-, rfl⟩ := revised
      constructor
      · rintro ⟨contents, reads, holds⟩
        exact ⟨contents, reads_of_congr reads rfl rfl same.symm, holds⟩
      · rintro ⟨contents, reads, holds⟩
        exact ⟨contents, reads_of_congr reads rfl rfl same, holds⟩

/-- The request has made the one change that it asks for. -/
def Fulfilled (before : Store μ) (operation : Operation) (after : Store μ) : Prop :=
  ∃ change : Change, change.Fulfils operation ∧ DiffersBy before [change] after

theorem insert_differs (aligned : store.Aligned) (few : store.Few) (transaction : Transaction)
    (table : TableId) (row : Row) :
    Action.Ends (insert transaction table row) store
      (fun _ after => after.Few → Fulfilled store (.insert transaction table row) after)
      fun _ after => after.Few → DiffersBy store [] after := by
  have unchanged : ∀ file middle, store.catalog.file? table = some file →
      Still store middle ∨ GrownByOne store file middle → DiffersBy store [] middle := by
    intro file middle registered first
    obtain rfl := Catalog.table_of_filed aligned.orderly.filed registered
    rcases first with still | grown
    · exact differsBy_of_still still
    · exact differsBy_of_grownByOne aligned few registered grown
  apply Action.ends_imp (insert_stops aligned few transaction table row)
  · intro frame after put fewNow
    obtain ⟨file, middle, id, slot, registered, first, alignedNow, own, revised⟩ := put fewNow
    have differs := differsBy_of_revised revised
    exact ⟨_, .stored transaction row slot own,
      differsBy_after_same (unchanged file middle registered first) differs⟩
  · intro fault after stopped fewNow
    rcases stopped fewNow with still | ⟨file, registered, still | ⟨-, -, grown⟩⟩
    · exact differsBy_of_still still
    · exact differsBy_of_still still
    · exact unchanged file after registered (Or.inr grown)

theorem deleteIn_level (grounded : store.Grounded) (file : HeapFile) (row : Row) :
    Action.Ends (deleteIn file row) store (fun _ after => Level store after)
      fun _ after => Level store after := by
  unfold deleteIn
  cases row.record with
  | none => exact fun _ => rfl
  | some record =>
    dsimp only
    split
    · exact fun _ => rfl
    · rw [Action.ends_bind]
      apply Action.ends_imp (fetch_level grounded record.page)
      · intro frame middle level
        rw [Action.ends_bind, Action.ends_ofExcept]
        cases frame.page.delete row with
        | error cause => exact level
        | ok page => exact level
      · exact fun _ _ level => level

/-- No file gets longer by a deletion. -/
theorem delete_level (grounded : store.Grounded) (transaction : Transaction) (row : Row) :
    Action.Ends (delete transaction row) store (fun _ after => Level store after)
      fun _ after => Level store after := by
  unfold delete
  cases row.record with
  | none => exact fun _ => rfl
  | some record =>
    dsimp only
    rw [Action.ends_bind, Action.ends_get, Action.ends_bind, Action.ends_ofExcept]
    cases store.catalog.file record.page.table with
    | error cause => exact fun _ => rfl
    | ok file =>
      dsimp only
      rw [Action.ends_bind]
      exact Action.ends_imp (deleteIn_level grounded file row) (fun _ _ level => level)
        fun _ _ level => level

theorem delete_differs (aligned : store.Aligned) (few : store.Few) (transaction : Transaction) (row : Row) :
    Action.Ends (delete transaction row) store
      (fun _ after => Fulfilled store (.delete transaction row) after)
      fun _ after => DiffersBy store [] after := by
  apply Action.ends_imp (Action.ends_and
    (delete_moves (tidy_of_orderly aligned.orderly) transaction row)
    (delete_level (grounded_of_orderly aligned.orderly) transaction row))
  · rintro frame after ⟨⟨middle, record, moved, placed, revised⟩, level⟩
    -- The revision itself leaves the disk alone.
    have levelNow : Level store middle := by
      rw [revised.after_eq] at level
      exact level
    have still := still_of_moved aligned moved levelNow few
    exact ⟨_, .deleted transaction placed,
      differsBy_after_same (differsBy_of_still still) (differsBy_of_revised revised)⟩
  · rintro fault after ⟨moved, level⟩
    exact differsBy_of_still (still_of_moved aligned moved level few)

end Store

end PagedStore
