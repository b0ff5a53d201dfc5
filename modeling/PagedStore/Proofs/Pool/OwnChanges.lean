import PagedStore.Proofs.Cache.Agreement
import PagedStore.Proofs.Pool.Backing
import PagedStore.Proofs.Pool.Cleaning

/-!
What a flush of one transaction makes durable. A page remembers only the transaction that changed it
last, so such a flush writes the pages that the transaction was the last to change. A change that
nobody has taken back is in the file after it if the page has been without need of writing at some
moment since the change, or if the last change of the page is one of the transaction. With another
transaction in between it may be missing.
-/

namespace PagedStore

structure Change where
  transaction : Transaction
  page : PageId
  slot : Nat
  values : Option (List Value)

namespace Change

/-- What a page keeps in a slot with this row, or without one. -/
def valuesOf (row : Option Row) : Option (List Value) :=
  row.map fun row => row.values.map Value.kept

def On (change : Change) (contents : Contents) : Prop := contents change.slot = change.values

/-- The other change frees the slot that this one filled, or fills the slot that this one freed. -/
def UndoneBy (change other : Change) : Prop :=
  other.page = change.page ∧ other.slot = change.slot ∧ other.values.isSome ≠ change.values.isSome

end Change

namespace Store

variable {μ : Type} [EvictionPolicy μ]

/-- The request succeeds and makes this change. A row goes to a slot in which nothing was found
before. -/
inductive Makes (store : Store μ) : Operation → Change → Prop where
  | inserted {transaction : Transaction} {table : TableId} {row : Row} {page : Page} {slot : Nat}
      (answered : (store.outcome (.insert transaction table row)).1 = .ok (.page page))
      (free : ∀ contents, store.Reads page.id contents → contents slot = none)
      (stored : page.contents slot = some (row.values.map Value.kept)) :
      Makes store (.insert transaction table row)
        ⟨transaction, page.id, slot, some (row.values.map Value.kept)⟩
  | deleted {transaction : Transaction} {row : Row} {record : RecordId} {answer : Answer}
      (placed : row.record = some record)
      (answered : (store.outcome (.delete transaction row)).1 = .ok answer) :
      Makes store (.delete transaction row) ⟨transaction, record.page, record.slot.toNat, none⟩

def stage (origin : Store μ) (operations : List Operation) (count : Nat) : Store μ :=
  origin.after (operations.take count)

def MadeAt (origin : Store μ) (operations : List Operation) (place : Nat) (change : Change) : Prop :=
  ∃ operation, operations[place]? = some operation ∧
    (origin.stage operations place).Makes operation change

structure Stands (origin : Store μ) (operations : List Operation) (place : Nat) (change : Change) :
    Prop where
  made : MadeAt origin operations place change
  standing : ∀ later other, place < later → MadeAt origin operations later other →
    ¬ change.UndoneBy other

/-- After some later request the page was not dirty. -/
def CleanAfter (origin : Store μ) (operations : List Operation) (place : Nat) (id : PageId) : Prop :=
  ∃ count, place < count ∧ count ≤ operations.length ∧ ¬ (origin.stage operations count).Dirty id

def LastChangedBy (origin : Store μ) (operations : List Operation) (transaction : Transaction)
    (id : PageId) : Prop :=
  ∃ place change, MadeAt origin operations place change ∧ change.page = id ∧
    change.transaction = transaction ∧
    ∀ later other, place < later → MadeAt origin operations later other → other.page ≠ id

section Steps

variable {store after : Store μ} {operation : Operation} {change : Change}

/-- If the page is dirty, then by this transaction. -/
def Owned (transaction : Transaction) (id : PageId) (store : Store μ) : Prop :=
  ∀ other, dirtiedBy? store id = some other → other = transaction

omit [EvictionPolicy μ] in
theorem owned_of_frames {transaction : Transaction} {id : PageId}
    (frames : ∀ frame, after.pool.frame? id = some frame →
      store.pool.frame? id = some frame ∨ frame.page.dirtiedBy = none)
    (owned : store.Owned transaction id) : after.Owned transaction id := by
  intro other dirtied
  obtain ⟨frame, cached, tag⟩ := Option.bind_eq_some_iff.mp dirtied
  rcases frames frame cached with same | clean
  · exact owned other (Option.bind_eq_some_iff.mpr ⟨frame, same, tag⟩)
  · rw [clean] at tag
    contradiction

theorem owned_of_shift (shift : Shift store after) {transaction : Transaction} {id : PageId}
    (owned : store.Owned transaction id) : after.Owned transaction id := by
  refine owned_of_frames ?_ owned
  intro frame cached
  cases shift with
  | read opening => exact Or.inl cached
  | save there dirty registered sized =>
    have lookup := (Pool.frame_alter store.pool _ id _).symm.trans cached
    split at lookup
    · obtain ⟨old, -, rfl⟩ := Option.map_eq_some_iff.mp lookup
      exact Or.inr rfl
    · exact Or.inl lookup
  | list => exact Or.inl cached
  | ask => exact Or.inl cached
  | touch found => exact Or.inl cached
  | leave unwritable =>
    have lookup := (Pool.frame_drop store.pool _ id).symm.trans cached
    split at lookup
    · contradiction
    · exact Or.inl lookup

theorem owned_of_shifts (shifts : Shifts store after) {transaction : Transaction} {id : PageId}
    (owned : store.Owned transaction id) : after.Owned transaction id :=
  keeps_of_shifts (fun _ _ shift => owned_of_shift shift) shifts owned

theorem owned_of_motion (motion : Motion store after) {transaction : Transaction} {id : PageId}
    (owned : store.Owned transaction id) : after.Owned transaction id := by
  cases motion with
  | shift shift => exact owned_of_shift shift owned
  | grow registered => exact owned
  | @enter middle entering file page uncached registered own whole decoded shifts room =>
    refine owned_of_frames ?_ (owned_of_shifts shifts owned)
    intro frame cached
    have lookup := (Pool.frame_place middle.pool entering id page).symm.trans cached
    split at lookup
    · obtain rfl := Option.some.inj lookup
      exact Or.inr (Page.decode_eq_ok_iff.mp decoded).2.2.2.2.2
    · exact Or.inl lookup

theorem owned_of_moved (moved : Moved store after) {transaction : Transaction} {id : PageId}
    (owned : store.Owned transaction id) : after.Owned transaction id :=
  keeps_of_moved (fun _ _ motion => owned_of_motion motion) moved owned

theorem contents_of_revised {id : PageId} {transaction : Transaction} {slot : Nat}
    {row : Option Row} {frame : Frame} (revised : Revised store transaction id slot row frame after) :
    ∃ old, store.pool.frame? id = some old ∧ old.page.Takes slot row ∧ frame.page.id = old.page.id ∧
      frame.page.dirtiedBy = some transaction ∧
      ∀ other, frame.page.contents other = if other = slot then Change.valuesOf row else old.page.contents other := by
  obtain ⟨⟨old, cached, takes, rfl⟩, -⟩ := revised
  exact ⟨old, cached, takes, rfl, rfl, Page.contents_setSlot old.page takes.inside row⟩

/-- A request that discards nothing moves pages and then may make one change. -/
theorem lasting_cases (aligned : store.Aligned) (lasting : operation.Lasting)
    (few : (store.outcome operation).2.Few) :
    Moved store (store.outcome operation).2 ∨
      ∃ middle change frame row, Moved store middle ∧ Change.valuesOf row = change.values ∧
        Revised middle change.transaction change.page change.slot row frame
          (store.outcome operation).2 ∧ store.Makes operation change := by
  have did := did_outcome (tidy_of_orderly aligned.orderly) operation
  generalize answered : (store.outcome operation).1 = answer at did
  generalize reached : (store.outcome operation).2 = after at did few
  cases did with
  | moved quiet moved => exact Or.inl moved
  | @inserted transaction table row middle _ id slot frame moved revised =>
    right
    obtain ⟨old, cached, takes, named, -, contents⟩ := contents_of_revised revised
    have tidy := tidy_of_moved moved (tidy_of_orderly aligned.orderly)
    have own : frame.page.id = id := named.trans (tidy id old cached).1
    have fewThen := few_of_revised revised few
    refine ⟨middle, ⟨transaction, id, slot, _⟩, frame, _, moved, rfl, revised, ?_⟩
    rw [← own]
    refine .inserted answered ?_ ?_
    · intro before reads
      rw [own] at reads
      rw [← eq_of_reads cached (reads_of_moved aligned moved fewThen reads), Page.contents,
        Option.map_eq_none_iff, ← Option.not_isSome_iff_eq_none, takes.turns]
      exact Bool.false_ne_true
    · rw [contents, if_pos rfl]
      rfl
  | @deleted transaction row record middle _ frame moved placed revised =>
    exact Or.inr ⟨middle, ⟨transaction, record.page, record.slot.toNat, none⟩, frame, none, moved, rfl,
      revised, .deleted placed answered⟩
  | discarded cached => exact lasting.elim

/-- Right after a change its page is in memory with the change on it, dirty by the transaction. -/
theorem cached_of_makes (aligned : store.Aligned) (makes : store.Makes operation change) :
    ∃ frame, (store.outcome operation).2.pool.frame? change.page = some frame ∧
      change.On frame.page.contents ∧ frame.page.dirtiedBy = some change.transaction := by
  have did := did_outcome (tidy_of_orderly aligned.orderly) operation
  generalize reached : (store.outcome operation).2 = after at did
  cases makes with
  | @inserted transaction table row page slot answered free stored =>
    rw [answered] at did
    cases did with
    | moved quiet moved => exact quiet.elim
    | @inserted _ _ _ middle _ id _ frame moved revised =>
      obtain ⟨old, cached, -, named, dirtied, -⟩ := contents_of_revised revised
      have tidy := tidy_of_moved moved (tidy_of_orderly aligned.orderly)
      have own : frame.page.id = id := named.trans (tidy id old cached).1
      refine ⟨frame, ?_, stored, dirtied⟩
      rw [own, frame_of_revised revised, if_pos rfl]
  | @deleted transaction row record answer placed answered =>
    rw [answered] at did
    cases did with
    | moved quiet moved => exact quiet.elim
    | @deleted _ _ own middle _ frame moved found revised =>
      obtain rfl := Option.some.inj (placed.symm.trans found)
      obtain ⟨old, -, -, -, dirtied, contents⟩ := contents_of_revised revised
      refine ⟨frame, ?_, ?_, dirtied⟩
      · rw [frame_of_revised revised, if_pos rfl]
      · rw [Change.On, contents, if_pos rfl]
        rfl

/-- A revision that does not undo the change leaves it on its page. -/
theorem on_of_revised {transaction : Transaction} {id : PageId} {slot : Nat} {row : Option Row}
    {frame : Frame} (revised : Revised store transaction id slot row frame after)
    (standing : ¬ change.UndoneBy ⟨transaction, id, slot, Change.valuesOf row⟩)
    (reads : ∃ contents, store.Reads change.page contents ∧ change.On contents) :
    ∃ contents, after.Reads change.page contents ∧ change.On contents := by
  obtain ⟨contents, reads, on⟩ := reads
  have lookup := frame_of_revised revised change.page
  obtain ⟨old, cached, takes, -, -, now⟩ := contents_of_revised revised
  by_cases samePage : change.page = id
  · rw [if_pos samePage] at lookup
    refine ⟨_, reads_of_cached lookup, ?_⟩
    have before := eq_of_reads (samePage ▸ cached) reads
    rw [Change.On, now]
    split
    · next sameSlot =>
      -- The slot was free if it has been filled and taken if it has been freed.
      have turns := takes.turns
      rw [← Page.isSome_contents, before, ← sameSlot, on] at turns
      refine absurd ⟨samePage.symm, sameSlot.symm, ?_⟩ standing
      rw [turns, Change.valuesOf, Option.isSome_map]
      cases row.isSome <;> decide
    · rw [before]
      exact on
  · rw [if_neg samePage] at lookup
    obtain ⟨-, rfl⟩ := revised
    exact ⟨contents, reads_of_congr reads rfl rfl lookup, on⟩

theorem on_of_step (aligned : store.Aligned) (lasting : operation.Lasting)
    (few : (store.outcome operation).2.Few)
    (standing : ∀ other, store.Makes operation other → ¬ change.UndoneBy other)
    (reads : ∃ contents, store.Reads change.page contents ∧ change.On contents) :
    ∃ contents, (store.outcome operation).2.Reads change.page contents ∧ change.On contents := by
  have moved : ∀ {middle}, Moved store middle → middle.Few →
      ∃ contents, middle.Reads change.page contents ∧ change.On contents := by
    intro middle moved fewThen
    obtain ⟨contents, reads, on⟩ := reads
    exact ⟨contents, reads_of_moved aligned moved fewThen reads, on⟩
  rcases lasting_cases aligned lasting few with
    only | ⟨middle, other, frame, row, first, same, revised, makes⟩
  · exact moved only few
  · have notUndone := standing other makes
    exact on_of_revised revised (same.symm ▸ notUndone) (moved first (few_of_revised revised few))

theorem secured_of_step (aligned : store.Aligned) (lasting : operation.Lasting)
    (few : (store.outcome operation).2.Few)
    (standing : ∀ other, store.Makes operation other → ¬ change.UndoneBy other)
    (secured : store.Secured change.page change.On) :
    (store.outcome operation).2.Secured change.page change.On := by
  refine ⟨on_of_step aligned lasting few standing secured.reads, ?_⟩
  rcases lasting_cases aligned lasting few with
    only | ⟨middle, other, frame, row, first, same, revised, makes⟩
  · exact (secured_of_moved aligned only few secured).onFile
  · have fewThen := few_of_revised revised few
    have onFile := (secured_of_moved aligned first fewThen secured).onFile
    rw [revised.after_eq]
    exact onFile

theorem owned_of_step (aligned : store.Aligned) (lasting : operation.Lasting)
    (few : (store.outcome operation).2.Few) {transaction : Transaction} {id : PageId}
    (elsewhere : ∀ other, store.Makes operation other → other.page ≠ id)
    (owned : store.Owned transaction id) : (store.outcome operation).2.Owned transaction id := by
  rcases lasting_cases aligned lasting few with
    only | ⟨middle, other, frame, row, first, same, revised, makes⟩
  · exact owned_of_moved only owned
  · refine owned_of_frames ?_ (owned_of_moved first owned)
    intro found cached
    rw [frame_of_revised revised, if_neg (Ne.symm (elsewhere other makes))] at cached
    exact Or.inl cached

end Steps

section Runs

variable {origin store : Store μ} {operations : List Operation} {place : Nat} {change : Change}

theorem stage_succ {operation : Operation} (asked : operations[place]? = some operation) :
    origin.stage operations (place + 1) = ((origin.stage operations place).outcome operation).2 := by
  rw [stage, List.take_add_one, asked, Option.toList_some, after_append]
  rfl

theorem stage_all : origin.stage operations operations.length = origin.after operations := by
  rw [stage, List.take_length]

theorem lt_length_of_asked {operation : Operation} (asked : operations[place]? = some operation) :
    place + 1 ≤ operations.length :=
  (List.getElem?_eq_some_iff.mp asked).1

/-- What every request from some place on keeps holds from there to the end. -/
theorem keeps_from {P : Store μ → Prop} {first : Nat} (holds : P (origin.stage operations first))
    (step : ∀ place operation, first ≤ place → operations[place]? = some operation →
      P (origin.stage operations place) → P ((origin.stage operations place).outcome operation).2)
    {last : Nat} (later : first ≤ last) (within : last ≤ operations.length) :
    P (origin.stage operations last) := by
  induction later with
  | refl => exact holds
  | @step place later ih =>
    have asked := List.getElem?_eq_getElem (Nat.lt_of_succ_le within)
    rw [stage_succ asked]
    exact step place _ later asked (ih (Nat.le_of_succ_le within))

/-- A flush of a transaction succeeds and moves pages only, after which no page is dirty by it. -/
theorem flushed_of_aligned (aligned : store.Aligned) (transaction : Transaction) :
    (store.outcome (.flushTransaction transaction)).1 = .ok .done ∧
      Shifts store (store.outcome (.flushTransaction transaction)).2 ∧
      ∀ id, dirtiedBy? (store.outcome (.flushTransaction transaction)).2 id ≠ some transaction := by
  have performs : Action.Ends (perform (.flushTransaction transaction)) store
      (fun answer after => answer = .done ∧ Shifts store after ∧
        ∀ id, dirtiedBy? after id ≠ some transaction) fun _ _ => False := by
    unfold perform
    rw [Action.ends_bind]
    apply Action.ends_imp (Action.ends_and (flushTransaction_disowns aligned.orderly transaction)
      (flushTransaction_shifts store transaction))
    · exact fun _ _ both => ⟨rfl, both.2, both.1⟩
    · exact fun _ _ impossible => impossible.1
  obtain ⟨answer, answered, rfl, done⟩ := Action.outcome_of_never_fails performs
  exact ⟨answered, done⟩

omit [EvictionPolicy μ] in
theorem not_dirty_of_owned {transaction : Transaction} {id : PageId}
    (owned : store.Owned transaction id) (disowned : dirtiedBy? store id ≠ some transaction) :
    ¬ store.Dirty id := by
  rintro ⟨frame, cached, dirty⟩
  obtain ⟨tag, tagged⟩ := Option.isSome_iff_exists.mp dirty
  have dirtied : dirtiedBy? store id = some tag :=
    Option.bind_eq_some_iff.mpr ⟨frame, cached, tagged⟩
  obtain rfl := owned tag dirtied
  exact disowned dirtied

variable (filed : origin.catalog.Filed) (unused : origin.pool.frames = [])

include unused in
/-- If no file has too many pages in the end, then none had on the way. -/
theorem few_stage (few : (origin.after operations).Few) (count : Nat) :
    (origin.stage operations count).Few := by
  have tidy := keeps_after closed_tidy (tidy_of_unused unused) (tidy_of_unused unused)
    (operations.take count)
  have whole : (origin.stage operations count).after (operations.drop count) =
      origin.after operations := by
    rw [stage, after, after, after, ← List.foldl_append, List.take_append_drop]
  rw [← whole] at few
  exact few_of_after tidy.1 few

include filed unused in
theorem aligned_stage (few : (origin.after operations).Few) (count : Nat) :
    (origin.stage operations count).Aligned :=
  (keeps_after closed_aligned (tidy_of_unused unused) (fun _ => aligned_of_unused filed unused)
    (operations.take count)).2 (few_stage unused few count)

include unused in
theorem few_succ (few : (origin.after operations).Few) {operation : Operation}
    (asked : operations[place]? = some operation) :
    ((origin.stage operations place).outcome operation).2.Few := by
  rw [← stage_succ asked]
  exact few_stage unused few (place + 1)

variable (lasting : ∀ operation ∈ operations, operation.Lasting) (few : (origin.after operations).Few)

include filed unused lasting few

/-- From the next moment on the change is found on its page. -/
theorem found_of_stands (stands : Stands origin operations place change) {count : Nat}
    (later : place + 1 ≤ count) (within : count ≤ operations.length) :
    ∃ contents, (origin.stage operations count).Reads change.page contents ∧ change.On contents := by
  obtain ⟨operation, asked, makes⟩ := stands.made
  obtain ⟨frame, cached, on, -⟩ := cached_of_makes (aligned_stage filed unused few place) makes
  refine keeps_from (P := fun now => ∃ contents, now.Reads change.page contents ∧ change.On contents)
    ?_ ?_ later within
  · rw [stage_succ asked]
    exact ⟨_, reads_of_cached cached, on⟩
  · intro count operation after askedThen reads
    refine on_of_step (aligned_stage filed unused few count)
      (lasting _ (List.mem_of_getElem? askedThen)) (few_succ unused few askedThen) ?_ reads
    exact fun other makes => stands.standing count other after ⟨operation, askedThen, makes⟩

/-- Once the page was not dirty, the change is in the file. -/
theorem secured_of_cleanAfter (stands : Stands origin operations place change)
    (cleanAfter : CleanAfter origin operations place change.page) :
    (origin.after operations).Secured change.page change.On := by
  obtain ⟨count, later, within, clean⟩ := cleanAfter
  obtain ⟨contents, reads, on⟩ := found_of_stands filed unused lasting few stands later within
  have onFile := onFile_of_clean (aligned_stage filed unused few count) clean reads
  rw [← stage_all]
  refine keeps_from (P := fun now => now.Secured change.page change.On)
    ⟨⟨contents, reads, on⟩, contents, onFile, on⟩ ?_ within (Nat.le_refl _)
  intro place operation after asked secured
  refine secured_of_step (aligned_stage filed unused few place)
    (lasting _ (List.mem_of_getElem? asked)) (few_succ unused few asked) ?_ secured
  exact fun other makes => stands.standing place other (Nat.lt_of_lt_of_le later after)
    ⟨operation, asked, makes⟩

theorem owned_of_lastChangedBy {transaction : Transaction} {id : PageId}
    (lastChanged : LastChangedBy origin operations transaction id) :
    (origin.after operations).Owned transaction id := by
  obtain ⟨last, change, ⟨operation, asked, makes⟩, rfl, rfl, elsewhere⟩ := lastChanged
  obtain ⟨frame, cached, -, dirtied⟩ := cached_of_makes (aligned_stage filed unused few last) makes
  rw [← stage_all]
  refine keeps_from (P := Owned change.transaction change.page) ?_ ?_ (lt_length_of_asked asked)
    (Nat.le_refl _)
  · intro tag tagged
    rw [stage_succ asked, dirtiedBy?, cached] at tagged
    exact Option.some.inj (tagged.symm.trans dirtied)
  · intro place operation after askedThen owned
    refine owned_of_step (aligned_stage filed unused few place)
      (lasting _ (List.mem_of_getElem? askedThen)) (few_succ unused few askedThen) ?_ owned
    exact fun other makes => elsewhere place other after ⟨operation, askedThen, makes⟩

/-- Whatever number of transactions have stored and deleted rows through one pool, over files with any
bytes, as long as none of them has come to 2^32 pages. A flush of a transaction succeeds. Each change of
the transaction that nobody has undone is then in the file of its page, provided that the page was not
dirty at some moment since, or that its last change is one of the transaction. -/
theorem durable_after_flushTransaction (stands : Stands origin operations place change)
    (own : CleanAfter origin operations place change.page ∨
      LastChangedBy origin operations change.transaction change.page) :
    let flushed := (origin.after operations).outcome (.flushTransaction change.transaction)
    flushed.1 = .ok .done ∧
      ∃ contents, flushed.2.OnFile change.page contents ∧ contents change.slot = change.values := by
  have aligned : (origin.after operations).Aligned := by
    rw [← stage_all]
    exact aligned_stage filed unused few operations.length
  obtain ⟨answered, shifts, disowned⟩ := flushed_of_aligned aligned change.transaction
  refine ⟨answered, ?_⟩
  rcases own with cleanAfter | lastChanged
  · have secured := secured_of_cleanAfter filed unused lasting few stands cleanAfter
    exact (secured_of_shifts aligned shifts secured).onFile
  · have owned := owned_of_shifts shifts (owned_of_lastChangedBy filed unused lasting few lastChanged)
    have clean := not_dirty_of_owned owned (disowned change.page)
    obtain ⟨operation, asked, -⟩ := stands.made
    obtain ⟨contents, reads, on⟩ := found_of_stands filed unused lasting few stands
      (lt_length_of_asked asked) (Nat.le_refl _)
    rw [stage_all] at reads
    exact ⟨contents, onFile_of_clean (aligned_of_shifts aligned shifts) clean
      (reads_of_shifts aligned shifts reads), on⟩

end Runs

theorem not_undone_of_insert {store : Store μ} {transaction : Transaction} {table : TableId}
    {row : Row} {change other : Change} (filled : change.values.isSome)
    (makes : store.Makes (.insert transaction table row) other) : ¬ change.UndoneBy other := by
  rintro ⟨-, -, differs⟩
  cases makes with
  | inserted answered free stored => exact differs filled.symm

omit [EvictionPolicy μ] in
/-- What a file holds in a slot can be computed from its bytes. -/
theorem slot_of_onFile {store : Store μ} {id : PageId} {file : HeapFile} {slot : Nat}
    {values : Option (List Value)} {contents : Contents}
    (registered : store.catalog.file? id.table = some file)
    (decoded : (Page.decode id file.schema (file.image store.disk id.number)).map
      (fun page => page.contents slot) = .ok values)
    (onFile : store.OnFile id contents) : contents slot = values := by
  obtain ⟨other, page, found, -, read, rfl⟩ := onFile
  obtain rfl := Option.some.inj (registered.symm.trans found)
  rw [read] at decoded
  exact Except.ok.inj decoded

def numberInsertion (transaction : Transaction) (number : Int32) : Operation :=
  .insert transaction (.file 0)
    ⟨oneRowFile.schema, [.integer number], List.length_singleton, none⟩

def eightStored : Change := ⟨.first, ⟨.file 0, 0⟩, 1, some [.integer 8]⟩

theorem filed_oneRowStore : oneRowStore.catalog.Filed :=
  Catalog.filed_add Catalog.filed_empty oneRowFile "a"

theorem makes_eightStored : oneRowStore.Makes (numberInsertion .first 8) eightStored := by
  obtain ⟨page, answered, named, stored⟩ : ∃ page,
      (oneRowStore.outcome (numberInsertion .first 8)).1 = .ok (.page page) ∧
        page.id = ⟨.file 0, 0⟩ ∧ page.contents 1 = some [.integer 8] := ⟨_, rfl, rfl, rfl⟩
  have makes : oneRowStore.Makes (numberInsertion .first 8)
      ⟨.first, page.id, 1, some [.integer 8]⟩ := by
    refine .inserted answered ?_ stored
    intro contents reads
    rw [named] at reads
    exact slot_of_onFile rfl rfl (onFile_of_reads rfl reads)
  rw [named] at makes
  exact makes

/-- The first transaction stores 8, and the second one 9 on the same page. A flush of the first one then
succeeds without writing the page, and 8 is not in the file. -/
theorem change_missing_behind_another :
    let operations := [numberInsertion .first 8, numberInsertion Transaction.first.next 9]
    (oneRowStore.catalog.Filed ∧ oneRowStore.pool.frames = [] ∧
      ∀ operation ∈ operations, operation.Lasting) ∧
    Stands oneRowStore operations 0 eightStored ∧
    let flushed := (oneRowStore.after operations).outcome (.flushTransaction .first)
    flushed.1 = .ok .done ∧
      ¬ ∃ contents, flushed.2.OnFile eightStored.page contents ∧
        contents eightStored.slot = eightStored.values := by
  refine ⟨⟨filed_oneRowStore, rfl, by simp [numberInsertion, Operation.Lasting]⟩,
    ⟨⟨_, rfl, makes_eightStored⟩, ?_⟩, rfl, ?_⟩
  · rintro later other after ⟨operation, asked, makes⟩
    obtain rfl : later = 1 := by
      have within := lt_length_of_asked asked
      simp only [List.length_cons, List.length_nil] at within
      omega
    obtain rfl := Option.some.inj asked
    exact not_undone_of_insert rfl makes
  · rintro ⟨contents, onFile, there⟩
    have absent : contents 1 = none := slot_of_onFile rfl rfl onFile
    exact Option.some_ne_none _ (there.symm.trans absent)

theorem durable_after_flushTransaction_of_one_row :
    (oneRowStore.catalog.Filed ∧ oneRowStore.pool.frames = [] ∧
      (∀ operation ∈ [numberInsertion .first 8], operation.Lasting) ∧
      Stands oneRowStore [numberInsertion .first 8] 0 eightStored ∧
      (oneRowStore.after [numberInsertion .first 8]).Few ∧
      LastChangedBy oneRowStore [numberInsertion .first 8] .first ⟨.file 0, 0⟩) ∧
    ∃ contents, ((oneRowStore.after [numberInsertion .first 8]).outcome
        (.flushTransaction .first)).2.OnFile ⟨.file 0, 0⟩ contents ∧
      contents 1 = some [.integer 8] := by
  have lasting : ∀ operation ∈ [numberInsertion .first 8], operation.Lasting := by
    simp [numberInsertion, Operation.Lasting]
  have made : MadeAt oneRowStore [numberInsertion .first 8] 0 eightStored :=
    ⟨_, rfl, makes_eightStored⟩
  have alone : ∀ later other, 0 < later →
      ¬ MadeAt oneRowStore [numberInsertion .first 8] later other := by
    rintro later other after ⟨operation, asked, -⟩
    exact Nat.not_succ_le_self _ (Nat.le_trans (Nat.succ_le_succ after) (lt_length_of_asked asked))
  have stands : Stands oneRowStore [numberInsertion .first 8] 0 eightStored :=
    ⟨made, fun later other after makes => absurd makes (alone later other after)⟩
  have last : LastChangedBy oneRowStore [numberInsertion .first 8] .first ⟨.file 0, 0⟩ :=
    ⟨0, eightStored, made, rfl, rfl, fun later other after makes =>
      absurd makes (alone later other after)⟩
  have few : (oneRowStore.after [numberInsertion .first 8]).Few :=
    few_of_single oneRowFile "a" rfl (by decide +kernel)
  exact ⟨⟨filed_oneRowStore, rfl, lasting, stands, few, last⟩,
    (durable_after_flushTransaction filed_oneRowStore rfl lasting few stands (Or.inr last)).2⟩

end Store

end PagedStore
