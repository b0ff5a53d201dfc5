import PagedStore.Proofs.Cache.Agreement
import PagedStore.Proofs.Scan.Drain

/-!
What a client reads does not depend on caching, up to the bytes that a text loses when its page is
written. Two stores over the same files answer the same requests alike, whatever their capacities and
policies are, as long as each policy lets some cached page go when it is asked. The answers are equal as
soon as no text that is stored is too long for its field; one text that is too long can be seen in full
through one pool and cut through the other.
-/

namespace PagedStore

structure Row.Alike (look : List Value → List Value) (left right : Row) : Prop where
  schema_eq : left.schema = right.schema
  record_eq : left.record = right.record
  look_eq : look left.values = look right.values

structure Page.Alike (look : List Value → List Value) (left right : Page) : Prop where
  id_eq : left.id = right.id
  rows_eq : ∀ slot, (left.row? slot).map (fun row => (row.record, look row.values)) =
    (right.row? slot).map fun row => (row.record, look row.values)

/-- A request of a client: an operation, or to read a whole table. -/
inductive Request where
  | ask (operation : Operation)
  | scan (table : TableId) (name : Option String)
deriving DecidableEq

inductive Response where
  | answer (answer : Except Fault Answer)
  | rows (rows : Except Fault (List Row))
deriving DecidableEq

namespace Request

/-- The response says something about rows. -/
def Tells : Request → Prop
  | ask operation => operation.Tells
  | scan _ _ => True

def Lasting : Request → Prop
  | ask operation => operation.Lasting
  | scan _ _ => True

/-- No text that is to be stored is too long for its field. -/
def Fits : Request → Prop
  | ask operation => operation.Brings RowTrait.exact
  | scan _ _ => True

end Request

def Response.Alike (look : List Value → List Value) : Response → Response → Prop
  | answer (.ok (.page left)), answer (.ok (.page right)) => left.Alike look right
  | answer (.error left), answer (.error right) => left = right
  | rows (.ok left), rows (.ok right) => List.Forall₂ (Row.Alike look) left right
  | rows (.error left), rows (.error right) => left = right
  | _, _ => False

theorem Row.eq_of_alike {left right : Row} (alike : Row.Alike id left right) : left = right := by
  rcases left with ⟨schema, values, arity, record⟩
  rcases alike with ⟨sameSchema, sameRecord, sameValues⟩
  dsimp only [id_eq] at sameSchema sameRecord sameValues
  subst sameSchema sameRecord sameValues
  rfl

theorem Row.eq_of_forall_alike {left right : List Row}
    (alike : List.Forall₂ (Row.Alike id) left right) : left = right := by
  induction alike with
  | nil => rfl
  | cons first _ ih => rw [Row.eq_of_alike first, ih]

theorem Response.eq_of_alike_rows {left right : Except Fault (List Row)}
    (alike : Response.Alike id (.rows left) (.rows right)) : left = right := by
  cases left with
  | error fault =>
    cases right with
    | error other => exact congrArg Except.error alike
    | ok rows => exact alike.elim
  | ok rows =>
    cases right with
    | error other => exact alike.elim
    | ok otherRows => exact congrArg Except.ok (Row.eq_of_forall_alike alike)

theorem Page.alike_of_contents {left right : Page} (leftFormed : left.Formed)
    (rightFormed : right.Formed) (sameId : left.id = right.id)
    (sameContents : left.contents = right.contents) {look : List Value → List Value}
    (looks : ∀ slot leftRow rightRow, left.row? slot = some leftRow →
      right.row? slot = some rightRow →
      leftRow.values.map Value.kept = rightRow.values.map Value.kept →
      look leftRow.values = look rightRow.values) : left.Alike look right where
  id_eq := sameId
  rows_eq := by
    intro slot
    have sameSlot := congrFun sameContents slot
    rw [Page.contents, Page.contents] at sameSlot
    cases inLeft : left.row? slot with
    | none =>
      rw [inLeft, Option.map_none, eq_comm, Option.map_eq_none_iff] at sameSlot
      rw [sameSlot]
    | some leftRow =>
      rw [inLeft, Option.map_some, eq_comm, Option.map_eq_some_iff] at sameSlot
      rcases sameSlot with ⟨rightRow, inRight, sameKept⟩
      have sameLook := looks slot leftRow rightRow inLeft inRight sameKept.symm
      have leftRecord := (leftFormed.holds slot leftRow inLeft).record_eq
      have rightRecord := (rightFormed.holds slot rightRow inRight).record_eq
      rw [inRight, Option.map_some, Option.map_some, sameLook, leftRecord, rightRecord, sameId]

namespace Store

variable {μ ν : Type} {store : Store μ}

structure Twins [EvictionPolicy μ] [EvictionPolicy ν] (left : Store μ) (right : Store ν) : Prop where
  leftCoherent : left.Coherent
  rightCoherent : right.Coherent
  catalog_eq : right.catalog = left.catalog
  current_eq : right.current = left.current
  leftHospitable : left.Hospitable
  rightHospitable : right.Hospitable

section One

variable [EvictionPolicy μ]

theorem scan_ends (coherent : store.Coherent) (table : TableId) (name : Option String) :
    Action.Ends (scan table name) store
      (fun rows after => Saves store after ∧ ∃ info, store.catalog.find? table = some info ∧
        Lists store ⟨info.file, info.name, name⟩ 0 rows)
      fun fault after => Saves store after ∧
        (store.catalog.find? table = none ∧ fault = .error (.tableNotFound table) ∨
          fault = .error .outOfPages ∧ ¬ store.Hospitable) := by
  unfold scan
  rw [Action.ends_bind, Action.ends_get, Action.ends_bind, Action.ends_ofExcept, Plan.scanAs,
    Catalog.registration]
  cases found : store.catalog.find? table with
  | none => exact ⟨saves_refl coherent, Or.inl ⟨rfl, rfl⟩⟩
  | some info =>
    have registered : store.catalog.file? table = some info.file := by
      rw [Catalog.file?, found]
      rfl
    have own := (coherent.sound table info.file registered).1
    dsimp only [bind, Except.bind, pure, Except.pure]
    refine (Action.ends_bind get _).mpr ?_
    rw [Action.ends_get]
    refine (Action.ends_bind _ _).mpr ?_
    rw [Action.ends_ofExcept, Catalog.file_of_some registered]
    dsimp only
    refine (Action.ends_bind get _).mpr ?_
    rw [Action.ends_get]
    let source : ScanSource := ⟨info.file, info.name, name⟩
    have registeredOwn : store.catalog.file? source.file.table = some source.file :=
      own.symm ▸ registered
    have enough : store.cellCount source.file < store.cellCount source.file + 1 := Nat.lt_add_one _
    apply Action.ends_imp (drain_ends coherent registeredOwn enough)
    · rintro rows after ⟨saves, lists⟩
      exact ⟨saves, info, rfl, lists⟩
    · rintro fault after ⟨rfl, unhospitable, saves⟩
      exact ⟨saves, Or.inr ⟨rfl, unhospitable⟩⟩

def respond (store : Store μ) : Request → Response × Store μ
  | .ask operation => (.answer (store.outcome operation).1, (store.outcome operation).2)
  | .scan table name =>
      (.rows (Action.outcome (scan table name) store).1, (Action.outcome (scan table name) store).2)

theorem respond_ask (store : Store μ) (operation : Operation) : store.respond (.ask operation) =
    (.answer (store.outcome operation).1, (store.outcome operation).2) :=
  rfl

theorem respond_scan (store : Store μ) (table : TableId) (name : Option String) :
    store.respond (.scan table name) = (.rows (Action.outcome (scan table name) store).1,
      (Action.outcome (scan table name) store).2) :=
  rfl

def serve (store : Store μ) (requests : List Request) : Store μ :=
  requests.foldl (fun now request => (now.respond request).2) store

theorem saves_of_scan (coherent : store.Coherent) (table : TableId) (name : Option String) :
    Saves store (store.respond (.scan table name)).2 := by
  rw [respond_scan]
  rcases Action.outcome_of_ends (scan_ends coherent table name) with
    ⟨rows, -, saves, -⟩ | ⟨fault, -, saves, -⟩
  · exact saves
  · exact saves

theorem lasts_respond (coherent : store.Coherent) (request : Request) :
    Lasts store (store.respond request).2 := by
  cases request with
  | ask operation => exact lasts_outcome coherent operation
  | scan table name => exact lasts_of_saves (saves_of_scan coherent table name)

theorem lasts_serve (coherent : store.Coherent) (requests : List Request) :
    Lasts store (store.serve requests) := by
  induction requests generalizing store with
  | nil => exact lasts_refl coherent
  | cons request rest ih =>
    have first := lasts_respond coherent request
    exact lasts_trans first (ih first.coherent)

theorem exact_serve (coherent : store.Coherent) (exact : store.Keeps RowTrait.exact)
    {requests : List Request} (fits : ∀ asked ∈ requests, asked.Fits) :
    (store.serve requests).Keeps RowTrait.exact := by
  induction requests generalizing store with
  | nil => exact exact
  | cons request rest ih =>
    have here := fits request List.mem_cons_self
    refine ih (lasts_respond coherent request).coherent ?_ fun asked member =>
      fits asked (List.mem_cons_of_mem _ member)
    cases request with
    | ask operation =>
      obtain ⟨answer, -, performed⟩ := performed_outcome coherent operation
      exact performed.keeps RowTrait.exact here exact
    | scan table name => exact (saves_of_scan coherent table name).keeps RowTrait.exact exact

end One

section Two

variable [EvictionPolicy μ] [EvictionPolicy ν] {left : Store μ} {right : Store ν}

theorem setting_eq_of_twins (twins : Twins left right) : right.setting = left.setting := by
  have hospitable : right.Hospitable = left.Hospitable :=
    propext ⟨fun _ => twins.leftHospitable, fun _ => twins.rightHospitable⟩
  unfold setting
  rw [twins.catalog_eq, hospitable]

theorem cellCount_of_twins (twins : Twins left right) {file : HeapFile}
    (registered : left.catalog.file? file.table = some file) :
    right.cellCount file = left.cellCount file := by
  have registeredRight : right.catalog.file? file.table = some file := twins.catalog_eq ▸ registered
  have leftSpans := spans_pageCount twins.leftCoherent.sound registered
  have rightSpans := spans_pageCount twins.rightCoherent.sound registeredRight
  have samePages : file.pageCount right.disk = file.pageCount left.disk := by
    apply Reference.spans_unique _ leftSpans
    exact (Reference.spans_congr twins.current_eq).mp rightSpans
  rw [cellCount, cellCount, samePages]

theorem alike_of_shows {look : List Value → List Value} (twins : Twins left right) {file : HeapFile}
    {index : Nat} {leftRow rightRow : Row} (leftShows : left.Shows file index leftRow)
    (rightShows : right.Shows file index rightRow) (schema : leftRow.schema = rightRow.schema)
    (looks : leftRow.values.map Value.kept = rightRow.values.map Value.kept →
      look leftRow.values = look rightRow.values) : Row.Alike look leftRow rightRow where
  schema_eq := schema
  record_eq := leftShows.record_eq.trans rightShows.record_eq.symm
  look_eq := by
    apply looks
    have sameCell := rightShows.cell_eq
    rw [twins.current_eq] at sameCell
    exact Option.some.inj (leftShows.cell_eq.symm.trans sameCell)

theorem lists_alike {look : List Value → List Value} (twins : Twins left right)
    {source : ScanSource}
    (registered : left.catalog.file? source.file.table = some source.file)
    (looks : ∀ index leftRow rightRow, left.Shows source.file index leftRow →
      right.Shows source.file index rightRow →
      leftRow.values.map Value.kept = rightRow.values.map Value.kept →
      look leftRow.values = look rightRow.values) {place : Nat} {leftRows rightRows : List Row}
    (leftLists : Lists left source place leftRows)
    (rightLists : Lists right source place rightRows) :
    List.Forall₂ (Row.Alike look) leftRows rightRows := by
  have sameCount := cellCount_of_twins twins registered
  induction leftLists generalizing rightRows with
  | bare bare =>
    cases rightLists with
    | bare _ => exact .nil
    | row next shows _ _ =>
      have occupied := shows.cell_eq
      rw [twins.current_eq, bare _ next.atLeast (sameCount ▸ next.inside)] at occupied
      contradiction
  | row next shows schema _ ih =>
    cases rightLists with
    | bare bare =>
      have occupied := shows.cell_eq
      rw [← twins.current_eq, bare _ next.atLeast (sameCount.symm ▸ next.inside)] at occupied
      contradiction
    | row otherNext otherShows otherSchema otherRest =>
      rename_i index _ _ _ otherIndex _ _
      have sameIndex : index = otherIndex := by
        rcases Nat.lt_trichotomy index otherIndex with before | same | after
        · have occupied := shows.cell_eq
          rw [← twins.current_eq, otherNext.free _ next.atLeast before] at occupied
          contradiction
        · exact same
        · have occupied := otherShows.cell_eq
          rw [twins.current_eq, next.free _ otherNext.atLeast after] at occupied
          contradiction
      subst sameIndex
      have sameRow := alike_of_shows twins shows otherShows (schema.trans otherSchema.symm)
        (looks _ _ _ shows otherShows)
      exact .cons sameRow (ih otherRest)

/-- Both stores respond to a request alike. If no text in memory and in the request is too long, they
respond the same. -/
structure RespondAlike (left : Store μ) (right : Store ν) (request : Request) : Prop where
  twins : Twins (left.respond request).2 (right.respond request).2
  alike : request.Tells → Response.Alike (List.map Value.kept) (left.respond request).1
    (right.respond request).1
  exact : request.Fits → left.Keeps RowTrait.exact → right.Keeps RowTrait.exact →
    (left.respond request).2.Keeps RowTrait.exact ∧ (right.respond request).2.Keeps RowTrait.exact ∧
      (request.Tells → Response.Alike id (left.respond request).1 (right.respond request).1)

theorem page_of_performed {before after : Store μ} {operation : Operation} {page : Page}
    (performed : Performed before operation (.ok (.page page)) after) (few : after.Few) :
    page.Formed ∧ ∀ trait, after.Keeps trait → page.Keeps trait := by
  rcases performed.cached few page rfl with ⟨id, copy, cached⟩
  rcases (performed.coherent.backed id _ cached).exists_file with ⟨file, -, owns, -⟩
  exact ⟨owns.formed, fun trait keeps => keeps id _ cached⟩

theorem alike_of_matches {look : List Value → List Value} {answer other : Except Error Answer}
    (matching : Answer.Matches answer other)
    (pages : ∀ leftPage rightPage, answer = .ok (.page leftPage) → other = .ok (.page rightPage) →
      leftPage.id = rightPage.id → leftPage.contents = rightPage.contents →
      leftPage.Alike look rightPage) :
    Response.Alike look (.answer (answer.mapError Fault.error))
      (.answer (other.mapError Fault.error)) := by
  cases answer with
  | error cause =>
    cases other with
    | error otherCause => exact congrArg Fault.error matching
    | ok otherAnswer => exact matching.elim
  | ok value =>
    cases other with
    | error otherCause =>
      cases value <;> exact matching.elim
    | ok otherValue =>
      cases value with
      | page leftPage =>
        cases otherValue with
        | page rightPage => exact pages leftPage rightPage rfl rfl matching.1 matching.2
        | wasCached _ => exact matching.elim
        | done => exact matching.elim
      | wasCached _ => exact matching.elim
      | done => exact matching.elim

theorem ask_alike (twins : Twins left right) {operation : Operation} (lasting : operation.Lasting)
    (few : (left.outcome operation).2.Few) (otherFew : (right.outcome operation).2.Few) :
    RespondAlike left right (.ask operation) := by
  rcases performed_outcome twins.leftCoherent operation with ⟨answer, answered, performed⟩
  obtain ⟨other, otherAnswered, otherPerformed⟩ :=
    performed_outcome twins.rightCoherent operation
  have otherStep := otherPerformed.step otherFew
  rw [setting_eq_of_twins twins] at otherStep
  obtain ⟨sameCurrent, matching⟩ := Reference.step_agrees twins.leftHospitable twins.current_eq
    lasting (performed.step few) otherStep
  refine ⟨⟨performed.coherent, otherPerformed.coherent, ?_, sameCurrent, ?_, ?_⟩, ?_, ?_⟩
  · exact otherPerformed.catalog_eq.trans (twins.catalog_eq.trans performed.catalog_eq.symm)
  · exact hospitable_of_follows performed.follows twins.leftHospitable
  · exact hospitable_of_follows otherPerformed.follows twins.rightHospitable
  · intro tells
    rw [respond_ask, respond_ask, answered, otherAnswered]
    apply alike_of_matches (matching tells)
    rintro leftPage rightPage rfl rfl sameId sameContents
    exact Page.alike_of_contents (page_of_performed performed few).1
      (page_of_performed otherPerformed otherFew).1 sameId sameContents fun _ _ _ _ _ sameKept => sameKept
  · intro fits leftExact rightExact
    have leftKeeps := performed.keeps RowTrait.exact fits leftExact
    have rightKeeps := otherPerformed.keeps RowTrait.exact fits rightExact
    refine ⟨leftKeeps, rightKeeps, ?_⟩
    intro tells
    rw [respond_ask, respond_ask, answered, otherAnswered]
    apply alike_of_matches (matching tells)
    rintro leftPage rightPage rfl rfl sameId sameContents
    rcases page_of_performed performed few with ⟨leftFormed, leftShown⟩
    rcases page_of_performed otherPerformed otherFew with ⟨rightFormed, rightShown⟩
    apply Page.alike_of_contents leftFormed rightFormed sameId sameContents
    intro slot leftRow rightRow inLeft inRight sameKept
    have leftSame := leftShown RowTrait.exact leftKeeps slot leftRow inLeft
    have rightSame := rightShown RowTrait.exact rightKeeps slot rightRow inRight
    exact leftSame.symm.trans (sameKept.trans rightSame)

theorem twins_of_saves {leftAfter : Store μ} {rightAfter : Store ν} (twins : Twins left right)
    (leftSaves : Saves left leftAfter) (rightSaves : Saves right rightAfter) :
    Twins leftAfter rightAfter where
  leftCoherent := leftSaves.coherent
  rightCoherent := rightSaves.coherent
  catalog_eq := by rw [rightSaves.catalog_eq, leftSaves.catalog_eq, twins.catalog_eq]
  current_eq := by rw [rightSaves.current_eq, leftSaves.current_eq, twins.current_eq]
  leftHospitable := hospitable_of_saves leftSaves twins.leftHospitable
  rightHospitable := hospitable_of_saves rightSaves twins.rightHospitable

theorem scan_alike (twins : Twins left right) (table : TableId) (name : Option String) :
    RespondAlike left right (.scan table name) := by
  have leftOutcome := Action.outcome_of_ends (scan_ends twins.leftCoherent table name)
  have rightOutcome := Action.outcome_of_ends (scan_ends twins.rightCoherent table name)
  rw [twins.catalog_eq] at rightOutcome
  rcases leftOutcome with ⟨leftRows, leftAnswer, leftSaves, info, found, leftLists⟩ |
    ⟨leftFault, leftAnswer, leftSaves, ⟨unknown, rfl⟩ | ⟨-, unhospitable⟩⟩
  · rcases rightOutcome with ⟨rightRows, rightAnswer, rightSaves, other, otherFound, rightLists⟩ |
      ⟨rightFault, rightAnswer, rightSaves, ⟨unknown, rfl⟩ | ⟨-, unhospitable⟩⟩
    · obtain rfl := Option.some.inj (found.symm.trans otherFound)
      have registered : left.catalog.file? info.file.table = some info.file := by
        have named : left.catalog.file? table = some info.file := by
          rw [Catalog.file?, found]
          rfl
        rw [(twins.leftCoherent.sound table info.file named).1]
        exact named
      refine ⟨twins_of_saves twins leftSaves rightSaves, ?_, ?_⟩
      · intro _
        rw [respond_scan, respond_scan, leftAnswer, rightAnswer]
        exact lists_alike twins registered (fun _ _ _ _ _ sameKept => sameKept) leftLists rightLists
      · intro _ leftExact rightExact
        refine ⟨leftSaves.keeps _ leftExact, rightSaves.keeps _ rightExact, ?_⟩
        intro _
        rw [respond_scan, respond_scan, leftAnswer, rightAnswer]
        apply lists_alike twins registered _ leftLists rightLists
        intro index leftRow rightRow leftShows rightShows sameKept
        have leftSame := leftShows.keeps RowTrait.exact leftExact
        have rightSame := rightShows.keeps RowTrait.exact rightExact
        exact leftSame.symm.trans (sameKept.trans rightSame)
    · rw [found] at unknown
      contradiction
    · exact absurd twins.rightHospitable unhospitable
  · rcases rightOutcome with ⟨rightRows, rightAnswer, rightSaves, other, otherFound, rightLists⟩ |
      ⟨rightFault, rightAnswer, rightSaves, ⟨otherUnknown, rfl⟩ | ⟨-, unhospitable⟩⟩
    · rw [unknown] at otherFound
      contradiction
    · refine ⟨twins_of_saves twins leftSaves rightSaves, ?_, ?_⟩
      · intro _
        rw [respond_scan, respond_scan, leftAnswer, rightAnswer]
        rfl
      · intro _ leftExact rightExact
        refine ⟨leftSaves.keeps _ leftExact, rightSaves.keeps _ rightExact, ?_⟩
        intro _
        rw [respond_scan, respond_scan, leftAnswer, rightAnswer]
        rfl
    · exact absurd twins.rightHospitable unhospitable
  · exact absurd twins.leftHospitable unhospitable

theorem respond_alike (twins : Twins left right) {request : Request} (lasting : request.Lasting)
    (few : (left.respond request).2.Few) (otherFew : (right.respond request).2.Few) :
    RespondAlike left right request := by
  cases request with
  | ask operation => exact ask_alike twins lasting few otherFew
  | scan table name => exact scan_alike twins table name

theorem serve_alike (twins : Twins left right) {requests : List Request}
    (lasting : ∀ asked ∈ requests, asked.Lasting) (few : (left.serve requests).Few)
    (otherFew : (right.serve requests).Few) :
    Twins (left.serve requests) (right.serve requests) ∧
      ((∀ asked ∈ requests, asked.Fits) → left.Keeps RowTrait.exact → right.Keeps RowTrait.exact →
        (left.serve requests).Keeps RowTrait.exact ∧
          (right.serve requests).Keeps RowTrait.exact) := by
  induction requests generalizing left right with
  | nil => exact ⟨twins, fun _ leftExact rightExact => ⟨leftExact, rightExact⟩⟩
  | cons request rest ih =>
    have coherent := (lasts_respond twins.leftCoherent request).coherent
    have otherCoherent := (lasts_respond twins.rightCoherent request).coherent
    have fewNext := few_of_lasts (lasts_serve coherent rest) few
    have otherFewNext := few_of_lasts (lasts_serve otherCoherent rest) otherFew
    rcases respond_alike twins (lasting request List.mem_cons_self) fewNext otherFewNext with
      ⟨twinsNext, -, exact⟩
    obtain ⟨twinsLast, exactRest⟩ :=
      ih twinsNext (fun asked member => lasting asked (List.mem_cons_of_mem _ member)) few otherFew
    refine ⟨twinsLast, ?_⟩
    intro fits leftExact rightExact
    obtain ⟨leftNext, rightNext, -⟩ := exact (fits request List.mem_cons_self) leftExact rightExact
    exact exactRest (fun asked member => fits asked (List.mem_cons_of_mem _ member)) leftNext rightNext

theorem twins_of_unused (sound : left.Sound) (sameFiles : right.disk.files = left.disk.files)
    (sameCatalog : right.catalog = left.catalog) (leftUnused : left.pool.frames = [])
    (rightUnused : right.pool.frames = []) (leftHospitable : left.Hospitable)
    (rightHospitable : right.Hospitable) : Twins left right := by
  rcases coherent_of_unused sound leftUnused with ⟨leftCoherent, leftCurrent⟩
  obtain ⟨rightCoherent, rightCurrent⟩ :=
    coherent_of_unused (sound_congr sameCatalog sameFiles sound) rightUnused
  refine ⟨leftCoherent, rightCoherent, sameCatalog, ?_, leftHospitable, rightHospitable⟩
  rw [leftCurrent, rightCurrent, durable_congr sameCatalog sameFiles]

end Two

/-- Capacity and policy do not show in what a client is told, as long as no file has more pages than
its page numbers tell: pages, records and scanned rows are the same up to the cutting of texts, and the
very same if no text that is stored is too long. -/
theorem transparent_up_to_cutting [EvictionPolicy μ] [EvictionPolicy ν] {left : Store μ}
    {right : Store ν} (sound : left.Sound) (sameFiles : right.disk.files = left.disk.files)
    (sameCatalog : right.catalog = left.catalog) (leftUnused : left.pool.frames = [])
    (rightUnused : right.pool.frames = []) (leftHospitable : left.Hospitable)
    (rightHospitable : right.Hospitable) {requests : List Request} {request : Request}
    (lasting : ∀ asked ∈ request :: requests, asked.Lasting) (tells : request.Tells)
    (few : ((left.serve requests).respond request).2.Few)
    (otherFew : ((right.serve requests).respond request).2.Few) :
    Response.Alike (List.map Value.kept) ((left.serve requests).respond request).1
        ((right.serve requests).respond request).1 ∧
      ((∀ asked ∈ request :: requests, asked.Fits) →
        Response.Alike id ((left.serve requests).respond request).1
            ((right.serve requests).respond request).1 ∧
          ∀ table name, request = .scan table name →
            ((left.serve requests).respond request).1 =
              ((right.serve requests).respond request).1) := by
  have twins := twins_of_unused sound sameFiles sameCatalog leftUnused rightUnused leftHospitable
    rightHospitable
  have coherentThen := (lasts_serve twins.leftCoherent requests).coherent
  have otherCoherentThen := (lasts_serve twins.rightCoherent requests).coherent
  have fewThen := few_of_lasts (lasts_respond coherentThen request) few
  have otherFewThen := few_of_lasts (lasts_respond otherCoherentThen request) otherFew
  obtain ⟨twinsThen, exactThen⟩ := serve_alike twins
    (fun asked member => lasting asked (List.mem_cons_of_mem _ member)) fewThen otherFewThen
  rcases respond_alike twinsThen (lasting request List.mem_cons_self) few otherFew with
    ⟨-, alike, exact⟩
  refine ⟨alike tells, ?_⟩
  intro fits
  obtain ⟨leftExact, rightExact⟩ :=
    exactThen (fun asked member => fits asked (List.mem_cons_of_mem _ member))
      (keeps_of_unused leftUnused _) (keeps_of_unused rightUnused _)
  rcases exact (fits request List.mem_cons_self) leftExact rightExact with ⟨-, -, same⟩
  refine ⟨same tells, ?_⟩
  rintro table name rfl
  have alikeRows := same tells
  rw [respond_scan, respond_scan] at alikeRows ⊢
  exact congrArg Response.rows (Response.eq_of_alike_rows alikeRows)

/-- A table of texts without pages, each of which will hold one row. -/
def textFile : HeapFile := ⟨0, 0, Schema.single (.named "a" .text), 133⟩

def textDisk : Disk := ⟨[⟨"a.dat", .ofBytes []⟩], [Traffic.none]⟩

def textStore (capacity : Nat) (policy : Eviction.Oblivious) : Store Eviction.Oblivious where
  disk := textDisk
  catalog := Catalog.empty.add textFile "a"
  pool := Pool.empty capacity policy Listing.byArrival

@[irreducible]
def textInsertion (length : Nat) : Request :=
  .ask (.insert ⟨1⟩ (.file 0)
    ⟨textFile.schema, [.text (String.ofList (List.replicate length 'x'))], rfl, none⟩)

theorem whole_textFile : textFile.Whole textDisk := by
  refine ⟨by decide, by decide, ?_⟩
  intro number inside
  have count : textFile.extent textDisk = 0 := by decide
  omega

theorem sound_textStore (capacity : Nat) (policy : Eviction.Oblivious) :
    (textStore capacity policy).Sound :=
  sound_of_single rfl whole_textFile

theorem few_textStore (capacity : Nat) (policy : Eviction.Oblivious) (requests : List Request)
    (request : Request)
    (small : textFile.extent (((textStore capacity policy).serve requests).respond request).2.disk <
      4294967296) : (((textStore capacity policy).serve requests).respond request).2.Few := by
  have coherent := (coherent_of_unused (sound_textStore capacity policy) rfl).1
  have served := lasts_serve coherent requests
  have responded := lasts_respond served.coherent request
  exact few_of_single _ _ (lasts_trans served responded).catalog_eq small

theorem lasting_textInsertion (length : Nat) : (textInsertion length).Lasting := by
  unfold textInsertion
  trivial

theorem hospitable_textStore {capacity : Nat} (pos : 0 < capacity) {policy : Eviction.Oblivious}
    (picks : policy = .first ∨ policy = .last) : (textStore capacity policy).Hospitable :=
  ⟨pos, Eviction.obliging_of_picks picks⟩

/-- A text of 129 bytes is scanned in full through a pool of two pages. Through a pool of one page it
has lost a byte, since the second row has driven its page out. -/
theorem long_text_shows_caching :
    (textStore 2 .first).Sound ∧ (textStore 2 .first).Hospitable ∧ (textStore 1 .last).Hospitable ∧
      (textStore 1 .last).disk.files = (textStore 2 .first).disk.files ∧
      (textStore 1 .last).catalog = (textStore 2 .first).catalog ∧
      (textStore 2 .first).pool.frames = [] ∧ (textStore 1 .last).pool.frames = [] ∧
      (((textStore 2 .first).serve [textInsertion 129, textInsertion 1]).respond
          (.scan (.file 0) none)).1 ≠
        (((textStore 1 .last).serve [textInsertion 129, textInsertion 1]).respond
          (.scan (.file 0) none)).1 :=
  ⟨sound_textStore 2 .first, hospitable_textStore (by decide) (Or.inl rfl),
    hospitable_textStore (by decide) (Or.inr rfl), rfl, rfl, rfl, rfl, by decide +kernel⟩

theorem transparent_up_to_cutting_of_long_text :
    ((textStore 2 .first).Sound ∧ (textStore 2 .first).Hospitable ∧
      (textStore 1 .last).Hospitable ∧
      (textStore 1 .last).disk.files = (textStore 2 .first).disk.files ∧
      (textStore 1 .last).catalog = (textStore 2 .first).catalog ∧
      (textStore 2 .first).pool.frames = [] ∧ (textStore 1 .last).pool.frames = [] ∧
      (∀ asked ∈ [.scan (.file 0) none, textInsertion 129, textInsertion 1], asked.Lasting) ∧
      Request.Tells (.scan (.file 0) none) ∧
      (((textStore 2 .first).serve [textInsertion 129, textInsertion 1]).respond
        (.scan (.file 0) none)).2.Few ∧
      (((textStore 1 .last).serve [textInsertion 129, textInsertion 1]).respond
        (.scan (.file 0) none)).2.Few) ∧
    Response.Alike (List.map Value.kept)
      (((textStore 2 .first).serve [textInsertion 129, textInsertion 1]).respond
        (.scan (.file 0) none)).1
      (((textStore 1 .last).serve [textInsertion 129, textInsertion 1]).respond
        (.scan (.file 0) none)).1 := by
  have sound := sound_textStore 2 .first
  have leftHospitable : (textStore 2 .first).Hospitable :=
    hospitable_textStore (by decide) (Or.inl rfl)
  have rightHospitable : (textStore 1 .last).Hospitable :=
    hospitable_textStore (by decide) (Or.inr rfl)
  have lasting : ∀ asked ∈ [.scan (.file 0) none, textInsertion 129, textInsertion 1],
      asked.Lasting := by
    intro asked member
    rcases List.mem_cons.mp member with same | member
    · rw [same]
      trivial
    rcases List.mem_cons.mp member with same | member
    · rw [same]
      exact lasting_textInsertion 129
    · rw [List.eq_of_mem_singleton member]
      exact lasting_textInsertion 1
  have tells : Request.Tells (.scan (.file 0) none) := trivial
  have few := few_textStore 2 .first [textInsertion 129, textInsertion 1] (.scan (.file 0) none)
    (by decide +kernel)
  have otherFew := few_textStore 1 .last [textInsertion 129, textInsertion 1]
    (.scan (.file 0) none) (by decide +kernel)
  have sameFiles : (textStore 1 .last).disk.files = (textStore 2 .first).disk.files := rfl
  have sameCatalog : (textStore 1 .last).catalog = (textStore 2 .first).catalog := rfl
  have leftUnused : (textStore 2 .first).pool.frames = [] := rfl
  have rightUnused : (textStore 1 .last).pool.frames = [] := rfl
  constructor
  · exact ⟨sound, leftHospitable, rightHospitable, sameFiles, sameCatalog, leftUnused, rightUnused,
      lasting, tells, few, otherFew⟩
  · exact And.left (transparent_up_to_cutting sound sameFiles sameCatalog leftUnused rightUnused
      leftHospitable rightHospitable lasting tells few otherFew)

end Store

end PagedStore
