import PagedStore.Proofs.Cache.Refinement

/-!
What is current of the pages decides the answers. Two references with the same current rows, whatever
their files hold, answer each request alike and have the same current rows afterwards, provided that
pages can always be brought into memory and that no page is discarded.
-/

namespace PagedStore

def Operation.Tells : Operation → Prop
  | fetch _ | insert _ _ _ | delete _ _ => True
  | _ => False

/-- No page is taken back to what its file holds. -/
def Operation.Lasting : Operation → Prop
  | discard _ => False
  | _ => True

/-- The same error, or the same page with the same contents. -/
def Answer.Matches : Except Error Answer → Except Error Answer → Prop
  | .ok (.page left), .ok (.page right) => left.id = right.id ∧ left.contents = right.contents
  | .error left, .error right => left = right
  | _, _ => False

namespace Reference

variable {setting : Setting} {left right : Reference}

theorem missing_unique (hospitable : setting.hospitable)
    {id : PageId} {cause other : Error} (missing : left.Missing setting id cause)
    (otherMissing : right.Missing setting id other) : cause = other := by
  cases missing with
  | table unknown =>
    cases otherMissing with
    | table _ => rfl
    | page registered _ =>
      rw [unknown] at registered
      contradiction
    | room unhospitable => exact absurd hospitable unhospitable
  | page registered _ =>
    cases otherMissing with
    | table unknown =>
      rw [unknown] at registered
      contradiction
    | page _ _ => rfl
    | room unhospitable => exact absurd hospitable unhospitable
  | room unhospitable => exact absurd hospitable unhospitable

theorem not_missing (hospitable : setting.hospitable) {id : PageId} {file : HeapFile}
    (registered : setting.files id.table = some file) {contents : Contents}
    (there : left.current id = some contents) {cause : Error} :
    ¬ left.Missing setting id cause := by
  intro missing
  have present : (left.current id).isSome := by
    rw [there]
    rfl
  exact (roomless_of_missing registered present missing).2 hospitable

theorem unstorable_unique (same : right.current = left.current) {file : HeapFile} {row : Row}
    {cause other : Error} (unstorable : left.Unstorable file row cause)
    (otherUnstorable : right.Unstorable file row other) : cause = other := by
  cases unstorable with
  | unfit refused =>
    cases otherUnstorable with
    | unfit otherRefused => exact Except.error.inj (refused.symm.trans otherRefused)
    | narrow fits _ _ =>
      rw [refused] at fits
      contradiction
  | narrow fits _ spans =>
    cases otherUnstorable with
    | unfit refused =>
      rw [fits] at refused
      contradiction
    | narrow _ _ otherSpans => rw [spans_unique spans ((spans_congr same).mp otherSpans)]

theorem not_unstorable {file : HeapFile} {row : Row} (fits : row.checkAgainst file.schema = .ok ())
    {current : PageId → Option Contents} {number slot : Nat}
    (first : file.FirstFree current number slot) {cause : Error} :
    ¬ left.Unstorable file row cause := by
  intro unstorable
  cases unstorable with
  | unfit refused =>
    rw [fits] at refused
    contradiction
  | narrow _ slotless _ =>
    rcases first.opens with ⟨contents, -, opens⟩
    have inside := opens.inside
    rw [slotless] at inside
    exact absurd inside (Nat.not_lt_zero _)

theorem not_firstFree_of_full {file : HeapFile} {count : Nat} (spans : left.Spans file count)
    (full : left.FullBefore file count) {number slot : Nat}
    (first : file.FirstFree left.current number slot) : False := by
  rcases first.opens with ⟨contents, there, opens⟩
  have inside : number < count := by
    apply (spans.isSome_iff number first.small).mp
    rw [there]
    rfl
  rcases full number inside with ⟨other, found, isFull⟩
  obtain rfl := Option.some.inj (there.symm.trans found)
  exact Contents.not_full_of_opens opens isFull

/-- Whether a table grows before a row is stored depends on what is current alone. -/
theorem grows_unique (same : right.current = left.current) {file : HeapFile}
    {grown otherGrown : Reference} (grows : left.Grows file grown)
    (otherGrows : right.Grows file otherGrown) {number slot otherNumber otherSlot : Nat}
    (first : file.FirstFree grown.current number slot)
    (otherFirst : file.FirstFree otherGrown.current otherNumber otherSlot) :
    otherGrown.current = grown.current := by
  cases grows with
  | saved saved =>
    rw [saved.current_eq] at first
    cases otherGrows with
    | saved otherSaved => rw [otherSaved.current_eq, saved.current_eq, same]
    | appended spans full _ =>
      exact (not_firstFree_of_full ((spans_congr same).mp spans) ((fullBefore_congr same).mp full)
        first).elim
  | appended spans full saved =>
    cases otherGrows with
    | saved otherSaved =>
      rw [otherSaved.current_eq, same] at otherFirst
      exact (not_firstFree_of_full spans full otherFirst).elim
    | appended otherSpans _ otherSaved =>
      obtain rfl := spans_unique spans ((spans_congr same).mp otherSpans)
      rw [otherSaved.current_eq, saved.current_eq, appended, appended, same]

theorem undeletable_unique (hospitable : setting.hospitable) (same : right.current = left.current)
    {row : Row} {cause other : Error} (undeletable : left.Undeletable setting row cause)
    (otherUndeletable : right.Undeletable setting row other) : cause = other := by
  cases undeletable with
  | unplaced nowhere =>
    cases otherUndeletable with
    | unplaced _ => rfl
    | missing placed _ =>
      rw [nowhere] at placed
      contradiction
    | free placed _ _ _ =>
      rw [nowhere] at placed
      contradiction
  | missing placed missing =>
    cases otherUndeletable with
    | unplaced nowhere =>
      rw [nowhere] at placed
      contradiction
    | missing otherPlaced otherMissing =>
      obtain rfl := Option.some.inj (placed.symm.trans otherPlaced)
      exact missing_unique hospitable missing otherMissing
    | free otherPlaced registered there _ =>
      obtain rfl := Option.some.inj (placed.symm.trans otherPlaced)
      exact (not_missing hospitable registered (same ▸ there) missing).elim
  | free placed registered there _ =>
    cases otherUndeletable with
    | unplaced nowhere =>
      rw [nowhere] at placed
      contradiction
    | missing otherPlaced otherMissing =>
      obtain rfl := Option.some.inj (placed.symm.trans otherPlaced)
      exact (not_missing hospitable registered (same.symm ▸ there) otherMissing).elim
    | free otherPlaced _ _ _ =>
      obtain rfl := Option.some.inj (placed.symm.trans otherPlaced)
      rfl

theorem not_undeletable (hospitable : setting.hospitable) {row : Row} {record : RecordId}
    (placed : row.record = some record) {file : HeapFile}
    (registered : setting.files record.page.table = some file) {contents : Contents}
    (there : left.current record.page = some contents) (taken : (contents record.slot.toNat).isSome)
    {cause : Error} : ¬ left.Undeletable setting row cause := by
  intro undeletable
  cases undeletable with
  | unplaced nowhere =>
    rw [nowhere] at placed
    contradiction
  | missing otherPlaced missing =>
    obtain rfl := Option.some.inj (placed.symm.trans otherPlaced)
    exact not_missing hospitable registered there missing
  | free otherPlaced _ otherThere free =>
    obtain rfl := Option.some.inj (placed.symm.trans otherPlaced)
    obtain rfl := Option.some.inj (there.symm.trans otherThere)
    rw [free] at taken
    contradiction

theorem placed_current_congr (same : right.current = left.current) (id : PageId) (slot : Nat)
    (values : Option (List Value)) :
    (right.placed id slot values).current = (left.placed id slot values).current := by
  rw [placed, placed, same]

variable {owner otherOwner : PageId → Option Transaction} {answer other : Except Error Answer}
  {leftAfter rightAfter : Reference}

theorem fetch_agrees (hospitable : setting.hospitable) (same : right.current = left.current)
    {id : PageId} (step : left.Step setting owner (.fetch id) answer leftAfter)
    (otherStep : right.Step setting otherOwner (.fetch id) other rightAfter) :
    rightAfter.current = leftAfter.current ∧ Answer.Matches answer other := by
  cases step with
  | fetched registered saved named shown =>
    cases otherStep with
    | fetched _ otherSaved otherNamed otherShown =>
      rw [same] at otherShown
      exact ⟨by rw [otherSaved.current_eq, saved.current_eq, same], named.trans otherNamed.symm,
        Option.some.inj (shown.symm.trans otherShown)⟩
    | notFetched missing _ =>
      exact (not_missing hospitable registered (same.symm ▸ shown) missing).elim
  | notFetched missing saved =>
    cases otherStep with
    | fetched registered _ _ otherShown =>
      exact (not_missing hospitable registered (same ▸ otherShown) missing).elim
    | notFetched otherMissing otherSaved =>
      exact ⟨by rw [otherSaved.current_eq, saved.current_eq, same],
        missing_unique hospitable missing otherMissing⟩

theorem insert_agrees (hospitable : setting.hospitable) (same : right.current = left.current)
    {transaction : Transaction} {table : TableId} {row : Row}
    (step : left.Step setting owner (.insert transaction table row) answer leftAfter)
    (otherStep : right.Step setting otherOwner (.insert transaction table row) other rightAfter) :
    rightAfter.current = leftAfter.current ∧ Answer.Matches answer other := by
  cases step with
  | inserted registered fits grows first named shown =>
    cases otherStep with
    | inserted otherRegistered _ otherGrows otherFirst otherNamed otherShown =>
      obtain rfl := Option.some.inj (registered.symm.trans otherRegistered)
      have sameGrown := grows_unique same grows otherGrows first otherFirst
      rw [sameGrown] at otherFirst
      rcases HeapFile.firstFree_unique first otherFirst with ⟨rfl, rfl⟩
      have samePlaced := placed_current_congr sameGrown
      rw [samePlaced] at otherShown
      exact ⟨samePlaced _ _ _, named.trans otherNamed.symm,
        Option.some.inj (shown.symm.trans otherShown)⟩
    | tableUnknown unknown _ =>
      rw [unknown] at registered
      contradiction
    | notInserted otherRegistered unstorable _ =>
      obtain rfl := Option.some.inj (registered.symm.trans otherRegistered)
      exact (not_unstorable fits first unstorable).elim
    | noRoom _ _ unhospitable _ => exact absurd hospitable unhospitable
  | tableUnknown unknown saved =>
    cases otherStep with
    | inserted otherRegistered _ _ _ _ _ =>
      rw [unknown] at otherRegistered
      contradiction
    | tableUnknown _ otherSaved =>
      exact ⟨by rw [otherSaved.current_eq, saved.current_eq, same], rfl⟩
    | notInserted otherRegistered _ _ =>
      rw [unknown] at otherRegistered
      contradiction
    | noRoom _ _ unhospitable _ => exact absurd hospitable unhospitable
  | notInserted registered unstorable saved =>
    cases otherStep with
    | inserted otherRegistered fits _ otherFirst _ _ =>
      obtain rfl := Option.some.inj (registered.symm.trans otherRegistered)
      exact (not_unstorable fits otherFirst unstorable).elim
    | tableUnknown unknown _ =>
      rw [unknown] at registered
      contradiction
    | notInserted otherRegistered otherUnstorable otherSaved =>
      obtain rfl := Option.some.inj (registered.symm.trans otherRegistered)
      exact ⟨by rw [otherSaved.current_eq, saved.current_eq, same],
        unstorable_unique same unstorable otherUnstorable⟩
    | noRoom _ _ unhospitable _ => exact absurd hospitable unhospitable
  | noRoom _ _ unhospitable _ => exact absurd hospitable unhospitable

theorem delete_agrees (hospitable : setting.hospitable) (same : right.current = left.current)
    {transaction : Transaction} {row : Row}
    (step : left.Step setting owner (.delete transaction row) answer leftAfter)
    (otherStep : right.Step setting otherOwner (.delete transaction row) other rightAfter) :
    rightAfter.current = leftAfter.current ∧ Answer.Matches answer other := by
  cases step with
  | deleted placed registered there taken saved named shown =>
    cases otherStep with
    | deleted otherPlaced _ _ _ otherSaved otherNamed otherShown =>
      obtain rfl := Option.some.inj (placed.symm.trans otherPlaced)
      have sameSaved := otherSaved.current_eq.trans (same.trans saved.current_eq.symm)
      have samePlaced := placed_current_congr sameSaved
      rw [samePlaced] at otherShown
      exact ⟨samePlaced _ _ _, named.trans otherNamed.symm,
        Option.some.inj (shown.symm.trans otherShown)⟩
    | notDeleted undeletable _ =>
      exact (not_undeletable hospitable placed registered (same.symm ▸ there) taken undeletable).elim
  | notDeleted undeletable saved =>
    cases otherStep with
    | deleted placed registered there taken _ _ _ =>
      exact (not_undeletable hospitable placed registered (same ▸ there) taken undeletable).elim
    | notDeleted otherUndeletable otherSaved =>
      exact ⟨by rw [otherSaved.current_eq, saved.current_eq, same],
        undeletable_unique hospitable same undeletable otherUndeletable⟩

/-- Two references with the same current rows step alike. -/
theorem step_agrees (hospitable : setting.hospitable) (same : right.current = left.current)
    {operation : Operation} (lasting : operation.Lasting)
    (step : left.Step setting owner operation answer leftAfter)
    (otherStep : right.Step setting otherOwner operation other rightAfter) :
    rightAfter.current = leftAfter.current ∧ (operation.Tells → Answer.Matches answer other) := by
  cases operation with
  | fetch id =>
    obtain ⟨current, alike⟩ := fetch_agrees hospitable same step otherStep
    exact ⟨current, fun _ => alike⟩
  | insert transaction table row =>
    obtain ⟨current, alike⟩ := insert_agrees hospitable same step otherStep
    exact ⟨current, fun _ => alike⟩
  | delete transaction row =>
    obtain ⟨current, alike⟩ := delete_agrees hospitable same step otherStep
    exact ⟨current, fun _ => alike⟩
  | evict =>
    cases step <;> cases otherStep <;> exact ⟨same, fun tells => tells.elim⟩
  | flushPage id | flushTransaction transaction | flushAll =>
    cases step
    cases otherStep
    exact ⟨same, fun tells => tells.elim⟩
  | discard id => exact lasting.elim

end Reference

end PagedStore
