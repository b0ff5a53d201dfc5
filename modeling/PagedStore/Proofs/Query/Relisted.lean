import PagedStore.Proofs.Pool.Sources
import PagedStore.Proofs.Query.TypeSoundness

/-!
Scans of tables that are registered again. A scan has the columns of the file that was registered when
it was built, but its rows come from the pages as they are cached, and a page that was cached under an
earlier registration keeps the columns of that one. If no cached page of the table has other column
types by then, and the table is not registered with other column types afterwards, then the scan
answers every call or refuses it with an error, and it gives rows of its columns only. The names of the
columns and the size of the pages may change, and the table may be gone.
-/

namespace PagedStore

namespace Store

variable {μ : Type} {store : Store μ} {file : HeapFile}

structure Conforms (file : HeapFile) (store : Store μ) : Prop where
  filed : store.catalog.Filed
  registered : ∀ other, store.catalog.file? file.table = some other →
    other.schema.types = file.schema.types
  sourced : store.Sourced 0
    (fun id _ source => id.table = file.table → source.schema.types = file.schema.types) store.catalog

theorem conforms_of_sourced {after : Store μ} (conforms : store.Conforms file)
    (sourced : after.Sourced 0
      (fun id _ source => id.table = file.table → source.schema.types = file.schema.types)
      store.catalog) : after.Conforms file := by
  have same := sourced.catalog_eq
  exact ⟨same ▸ conforms.filed, same ▸ conforms.registered, same.symm ▸ sourced⟩

theorem fresh_of_registered (conforms : store.Conforms file) (id : PageId) (copy : Nat)
    (source : HeapFile) (_ : 0 ≤ copy) (registered : store.catalog.file? id.table = some source)
    (own : id.table = file.table) : source.schema.types = file.schema.types :=
  conforms.registered source (own ▸ registered)

theorem tidy_of_conforms (conforms : store.Conforms file) : store.Tidy := by
  intro id frame cached
  obtain ⟨-, source, -, comes⟩ := conforms.sourced.known id frame cached
  exact ⟨comes.owns.id_eq.trans (HeapFile.page_number comes.table_eq.symm), comes.owns.formed⟩

variable [EvictionPolicy μ]

theorem closed_conforms (file : HeapFile) : Closed (Conforms (μ := μ) file) where
  motion := fun motion conforms => conforms_of_sourced conforms
    ((closed_sourced (fresh_of_registered conforms)).motion motion conforms.sourced)
  revised := fun revised conforms => conforms_of_sourced conforms
    ((closed_sourced (fresh_of_registered conforms)).revised revised conforms.sourced)
  dropped := fun there conforms => conforms_of_sourced conforms
    ((closed_sourced (fresh_of_registered conforms)).dropped there conforms.sourced)

/-- A deed keeps to the column types unless it registers the table with other ones. -/
theorem conforms_upon (conforms : store.Conforms file) {deed : Deed}
    (registered : ∀ other, (store.upon deed).catalog.file? file.table = some other →
      other.schema.types = file.schema.types) : (store.upon deed).Conforms file := by
  have tidy := tidy_of_conforms conforms
  refine ⟨filed_upon tidy conforms.filed deed, registered, sourced_upon tidy conforms.sourced deed ?_⟩
  exact fun id _ source _ found own => registered source (own ▸ found)

theorem fetch_conforms (conforms : store.Conforms file) (id : PageId) :
    Action.Ends (fetch id) store
      (fun frame after => after.Conforms file ∧ frame.page.Formed ∧
        (id.table = file.table → frame.page.schema.types = file.schema.types))
      fun fault after => after.Conforms file ∧ ∃ cause, fault = .error cause := by
  apply Action.ends_imp (Action.ends_and (fetch_moves store id) (answers_fetch id store))
  · rintro frame after ⟨⟨moved, cached⟩, -⟩
    have now := keeps_of_moved (fun _ _ => (closed_conforms file).motion) moved conforms
    obtain ⟨-, source, types, comes⟩ := now.sourced.known id frame cached
    exact ⟨now, comes.owns.formed,
      fun own => (congrArg Schema.types comes.owns.schema_eq).trans (types own)⟩
  · rintro fault after ⟨moved, isError⟩
    exact ⟨keeps_of_moved (fun _ _ => (closed_conforms file).motion) moved conforms, isError⟩

end Store

abbrev Beside.Delivers {μ α γ : Type} (file : HeapFile) (holds : α → Prop) (good : γ → Prop)
    (action : Action (α × Store μ) γ) : Prop :=
  Sustains (Store.Conforms file) holds (fun fault _ => ∃ cause, fault = .error cause) good action

theorem Beside.fails_of_error {α : Type} (cause : Error) (_ : α) :
    ∃ other, Fault.error cause = .error other :=
  ⟨cause, rfl⟩

open Beside

namespace Cursor

variable {μ : Type} {file : HeapFile}

variable [EvictionPolicy μ]

/-- A search that may take a turn for each page number comes to an end, however many pages there are. -/
theorem search_delivers {cursor : Cursor} {store : Store μ} (conforms : store.Conforms file)
    (typed : Typed file cursor) {turns : Nat} (enough : 4294967296 ≤ cursor.page.toNat + turns) :
    Action.Ends (search file turns) (cursor, store)
      (fun found after => after.2.Conforms file ∧ Typed file after.1 ∧ file.schema.Admits found)
      fun fault after => after.2.Conforms file ∧ Typed file after.1 ∧
        ∃ cause, fault = .error cause := by
  induction turns generalizing store cursor with
  | zero => exact absurd enough (Nat.not_le.mpr cursor.page.toNat_lt)
  | succ turns ih =>
    unfold search
    rw [Action.ends_bind, Action.ends_get]
    dsimp only
    by_cases past : file.numPages store.disk ≤ cursor.page
    · rw [if_pos past, Action.ends_pure]
      exact ⟨conforms, typed, Schema.admits_none _⟩
    · rw [if_neg past, Action.ends_bind, Beside.ends_onStore]
      apply Action.ends_imp (Store.fetch_conforms conforms (file.page cursor.page.toNat))
      · rintro frame middle ⟨conformsNow, formed, types⟩
        cases found : frame.page.nextRow? cursor.slot with
        | some entry =>
          exact ⟨conformsNow, typed, Schema.admits_some (fits_of_nextRow formed (types rfl) found)⟩
        | none =>
          let following : Cursor := { cursor with page := cursor.page + 1, slot := 0 }
          have forward : following.page.toNat = cursor.page.toNat + 1 :=
            toNat_succ_of_lt (Nat.lt_of_not_le past) (file.pageCount_lt store.disk)
          have enoughNext : 4294967296 ≤ following.page.toNat + turns := by omega
          exact ih conformsNow typed enoughNext
      · rintro fault after ⟨conformsNow, isError⟩
        exact ⟨conformsNow, typed, isError⟩

theorem delivers_hasNext : Delivers (μ := μ) file (Typed file) (fun _ => True) (hasNext file) := by
  have answers : Delivers (μ := μ) file (Typed file) (fun _ => True)
      (do pure (← Beside.own).found.isSome) :=
    sustains_bind sustains_own fun _ _ => sustains_pure trivial
  apply sustains_bind (sustains_checkOpen fails_of_error)
  intro _ _ cursor store conforms typed
  rw [Action.ends_bind, Beside.ends_own]
  split
  · rw [Action.ends_bind]
    apply Action.ends_imp (search_delivers conforms typed (Nat.le_add_left _ _))
    · rintro found ⟨sought, after⟩ ⟨conformsNow, -, fits⟩
      exact ⟨conformsNow, fits, trivial⟩
    · exact fun _ _ failed => failed
  · exact answers cursor store conforms typed

end Cursor

namespace Plan

variable {μ : Type} [EvictionPolicy μ]

theorem delivers_produceScanned (source : ScanSource) :
    Delivers (μ := μ) source.file (Cursor.Typed source.file) source.schema.Admits
      (produceScanned source) := by
  apply sustains_bind Cursor.delivers_hasNext
  intro more _
  split
  · apply sustains_bind (Cursor.sustains_next fails_of_error Cursor.delivers_hasNext)
    intro stored fits
    have types : stored.values.map Value.type = source.schema.types := by
      rw [types_schema]
      exact (Row.fits_iff.mp fits).2
    obtain ⟨row, made, renamed⟩ := Row.exists_fitting types
    rw [made]
    exact sustains_pure (Schema.admits_some (Row.fits_stamped renamed stored.record))
  · exact sustains_pure (Schema.admits_none _)

end Plan

namespace Operator

structure Scans {μ : Type} (source : ScanSource) (state : Operator × Store μ) : Prop where
  conforms : state.2.Conforms source.file
  typed : ∃ stage : Stage Cursor, state.1 = ⟨.scan source, stage⟩ ∧
    Stage.Typed (Cursor.Typed source.file) source.schema stage

variable {μ : Type} {source : ScanSource} {state : Operator × Store μ}

/-- What the state of a scan delivers, an operator that scans delivers. -/
theorem ends_of_delivers {α : Type} {good : α → Prop}
    {action : (plan : Plan) → Action (Stage plan.Inner × Store μ) α}
    (delivers : Delivers source.file (Stage.Typed (Cursor.Typed source.file) source.schema) good
      (action (.scan source))) (scans : Scans source state) :
    Action.Ends (onState action) state (fun value after => Scans source after ∧ good value)
      fun fault after => Scans source after ∧ ∃ cause, fault = .error cause := by
  obtain ⟨operator, store⟩ := state
  obtain ⟨conforms, stage, rfl, typed⟩ := scans
  rw [ends_onState]
  apply Action.ends_imp (delivers stage store conforms typed)
  · rintro value after ⟨conformsNow, typedNow, isGood⟩
    exact ⟨⟨conformsNow, after.1, rfl, typedNow⟩, isGood⟩
  · rintro fault after ⟨conformsNow, typedNow, isError⟩
    exact ⟨⟨conformsNow, after.1, rfl, typedNow⟩, isError⟩

variable [EvictionPolicy μ] (steps : Nat)

/-- Below its stage a scan produces rows of its columns. -/
theorem delivers_scanned (source : ScanSource) :
    Delivers (μ := μ) source.file (Stage.Typed (Cursor.Typed source.file) source.schema)
      source.schema.Admits (Stage.onInner (Plan.produce steps (.scan source))) :=
  Stage.sustains_onInner (fun _ _ _ isError => isError) (Plan.delivers_produceScanned source)

theorem perform_scans (scans : Scans source state) (call : Call) :
    Action.Ends (perform steps call) state
      (fun reply after => Scans source after ∧ Suits source.schema reply)
      fun fault after => Scans source after ∧ ∃ cause, fault = .error cause := by
  have produces := delivers_scanned (μ := μ) steps source
  cases call with
  | start =>
    have starts : Delivers (μ := μ) source.file
        (Stage.Typed (Cursor.Typed source.file) source.schema) (fun _ => True)
        (Plan.start steps (.scan source)) :=
      sustains_bind (Stage.sustains_onInner (fun _ _ _ isError => isError)
        (sustains_modifyOwn fun _ _ => Schema.admits_none _)) fun _ _ =>
          sustains_modifyOwn fun _ typed => Stage.typed_emptied typed true
    unfold perform start
    rw [Action.ends_bind]
    exact Action.ends_imp (ends_of_delivers starts scans) (fun _ _ started => started)
      fun _ _ failed => failed
  | close =>
    obtain ⟨operator, store⟩ := state
    obtain ⟨conforms, stage, rfl, typed⟩ := scans
    exact ⟨⟨conforms, _, rfl, Schema.admits_none _, Schema.admits_none _⟩, trivial⟩
  | rewind =>
    have rewinds : Delivers (μ := μ) source.file
        (Stage.Typed (Cursor.Typed source.file) source.schema) (fun _ => True)
        (Plan.rewind (.scan source)) :=
      sustains_bind (Stage.sustains_rewind fails_of_error) fun _ _ =>
        Stage.sustains_onInner (fun _ _ _ isError => isError)
          (Cursor.sustains_rewind fails_of_error)
    unfold perform rewind
    rw [Action.ends_bind]
    exact Action.ends_imp (ends_of_delivers rewinds scans) (fun _ _ rewound => rewound)
      fun _ _ failed => failed
  | hasNext =>
    unfold perform hasNext
    rw [Action.ends_map]
    exact Action.ends_imp (ends_of_delivers (Stage.sustains_hasNext fails_of_error produces) scans)
      (fun _ _ asked => asked) fun _ _ failed => failed
  | next =>
    unfold perform next
    rw [Action.ends_map]
    exact ends_of_delivers (Stage.sustains_next fails_of_error produces) scans

theorem produce_scans (scans : Scans source state) :
    Action.Ends (produce steps) state
      (fun found after => Scans source after ∧ source.schema.Admits found)
      fun fault after => Scans source after ∧ ∃ cause, fault = .error cause :=
  ends_of_delivers (delivers_scanned steps source) scans

/-- Something that happens while a scan is in use: a call of it, a row that is drawn past its stage, or a
deed of somebody else. -/
inductive Occurrence where
  | call (call : Call)
  | draw
  | deed (deed : Deed)

def occur (state : Operator × Store μ) : Occurrence → Operator × Store μ
  | .call call => (respond steps state call).2
  | .draw => (Action.outcome (produce steps) state).2
  | .deed deed => (state.1, state.2.upon deed)

def occurred (state : Operator × Store μ) (occurrences : List Occurrence) : Operator × Store μ :=
  occurrences.foldl (occur steps) state

/-- Whatever is registered for a table after some occurrences has these column types, at every moment. -/
def KeepsTypes (state : Operator × Store μ) (table : TableId) (types : List ValueType)
    (occurrences : List Occurrence) : Prop :=
  ∀ past, past <+: occurrences → ∀ file,
    (occurred steps state past).2.catalog.file? table = some file → file.schema.types = types

theorem scans_occur (scans : Scans source state) {occurrence : Occurrence}
    (registered : ∀ file, (occur steps state occurrence).2.catalog.file? source.file.table = some file →
      file.schema.types = source.file.schema.types) : Scans source (occur steps state occurrence) := by
  cases occurrence with
  | call call =>
    exact Action.after_of_ends (Action.ends_imp (perform_scans steps scans call)
      (fun _ _ done => done.1) fun _ _ failed => failed.1)
  | draw =>
    exact Action.after_of_ends (Action.ends_imp (produce_scans steps scans)
      (fun _ _ done => done.1) fun _ _ failed => failed.1)
  | deed deed => exact ⟨Store.conforms_upon scans.conforms registered, scans.typed⟩

theorem scans_occurred (scans : Scans source state) {occurrences : List Occurrence}
    (keeps : KeepsTypes steps state source.file.table source.file.schema.types occurrences) :
    Scans source (occurred steps state occurrences) := by
  induction occurrences generalizing state with
  | nil => exact scans
  | cons occurrence rest ih =>
    apply ih (scans_occur steps scans (keeps [occurrence] (List.prefix_append [occurrence] rest)))
    exact fun past isPast => keeps (occurrence :: past) ((List.prefix_cons_inj occurrence).mpr isPast)

/-- Every call is answered, or refused with an error, and every row that is given or drawn has one value
of the declared type for each column. -/
structure Delivering (schema : Schema) (state : Operator × Store μ) : Prop where
  calls : ∀ call, (∃ reply, (respond steps state call).1 = .ok reply ∧ Suits schema reply) ∨
    ∃ cause, (respond steps state call).1 = .error (.error cause)
  draws : (∃ found, (Action.outcome (produce steps) state).1 = .ok found ∧ schema.Admits found) ∨
    ∃ cause, (Action.outcome (produce steps) state).1 = .error (.error cause)

theorem delivering_of_scans (scans : Scans source state) :
    Delivering steps source.schema state := by
  constructor
  · intro call
    rcases Action.outcome_of_ends (perform_scans steps scans call) with
      ⟨reply, replied, -, suits⟩ | ⟨fault, failed, -, cause, rfl⟩
    · exact Or.inl ⟨reply, replied, suits⟩
    · exact Or.inr ⟨cause, failed⟩
  · rcases Action.outcome_of_ends (produce_scans steps scans) with
      ⟨found, given, -, fits⟩ | ⟨fault, failed, -, cause, rfl⟩
    · exact Or.inl ⟨found, given, fits⟩
    · exact Or.inr ⟨cause, failed⟩

omit [EvictionPolicy μ] in
/-- A scan that has just been built scans, if the cached pages of its table have its column types. -/
theorem scans_of_scanAs {before : Store μ} {sources : PageId → Option HeapFile}
    (sound : Traced.Sound ⟨before, sources⟩) {table : TableId} {name : Option String}
    (built : Plan.scanAs before.catalog table name = .ok (.scan source))
    (fresh : ∀ id frame, before.pool.frame? id = some frame → id.table = table →
      frame.page.schema.types = source.schema.types) :
    source.file.table = table ∧ Scans source (ofPlan (.scan source), before) := by
  obtain ⟨other, same, registered⟩ := Plan.source_of_scanAs built
  obtain rfl := Plan.scan.inj same
  have own := Catalog.table_of_filed sound.filed registered
  refine ⟨own, ⟨sound.filed, ?_, rfl, Nat.zero_le _, ?_⟩, _, rfl, Schema.admits_none _,
    Schema.admits_none _⟩
  · intro other isRegistered
    rw [own] at isRegistered
    obtain rfl := Option.some.inj (registered.symm.trans isRegistered)
    rfl
  · intro id frame cached
    obtain ⟨made, file, -, comes⟩ := sound.known id frame cached
    refine ⟨made, file, ?_, comes⟩
    intro isOwn
    have types := fresh id frame cached (isOwn.trans own)
    rw [comes.owns.schema_eq, Plan.types_schema] at types
    exact types

/-- A scan delivers however it is called and whatever is done to the store, tables registered again
included, if two things hold. No page of the table that is cached when the scan is built has other
column types, and the table is not registered with other column types afterwards. -/
theorem scan_delivers {origin : Store μ} (filed : origin.catalog.Filed)
    (unused : origin.pool.frames = []) (earlier : List Deed) {before : Store μ}
    (reached : earlier.foldl Store.upon origin = before) {table : TableId} {name : Option String}
    {plan : Plan} (built : Plan.scanAs before.catalog table name = .ok plan)
    (fresh : ∀ id frame, before.pool.frame? id = some frame → id.table = table →
      frame.page.schema.types = plan.schema.types) {later : List Occurrence}
    (keeps : KeepsTypes steps (ofPlan plan, before) table plan.schema.types later) :
    Delivering steps plan.schema (occurred steps (ofPlan plan, before) later) := by
  obtain ⟨source, rfl, -⟩ := Plan.source_of_scanAs built
  have traced := Traced.store_after (Traced.unused origin) earlier
  have sound : Traced.Sound ⟨before, ((Traced.unused origin).after earlier).source⟩ := by
    rw [← reached, ← show (Traced.unused origin).store = origin from rfl, ← traced]
    exact Traced.sound_after (Traced.sound_unused filed unused) earlier
  obtain ⟨rfl, scans⟩ := scans_of_scanAs sound built fresh
  apply delivering_of_scans steps
  apply scans_occurred steps scans
  rw [← Plan.types_schema]
  exact keeps

def pairs : Schema :=
  (Schema.single (.named "a" .integer)).append (Schema.single (.named "b" .integer))

def narrowed : List Deed :=
  [.create "a.dat" pairs 16 "t",
    .request (.insert ⟨1⟩ (.file 0) ⟨pairs, [.integer 1, .integer 2], rfl, none⟩),
    .create "a.dat" Store.oneRowFile.schema 16 "t"]

def narrowedScan : Plan := .scan ⟨⟨1, 0, Store.oneRowFile.schema, 16⟩, "t", none⟩

def narrowedStore : Store Eviction.Oblivious := narrowed.foldl Store.upon Store.vacant

/-- The page that is still cached has rows of two values, and the scan breaks the contract of rows with
them. -/
theorem broken_by_stale_page :
    Plan.scanAs narrowedStore.catalog (.file 0) none = .ok narrowedScan ∧
      (respond 1 (respond 1 (ofPlan narrowedScan, narrowedStore) .start).2 .hasNext).1 =
        .error .brokenContract := by
  have registered : narrowedStore.catalog.registration (.file 0) =
      .ok ⟨"t", ⟨1, 0, Store.oneRowFile.schema, 16⟩⟩ := by decide +kernel
  refine ⟨?_, by decide +kernel⟩
  rw [Plan.scanAs, registered]
  rfl

/-- A table that is empty when the scan is built, gets a row, and is registered again under another
name. -/
def underNewName : List Occurrence :=
  [.deed (.request (.insert ⟨1⟩ (.file 0) (Store.integerRow 7))), .call .start,
    .deed (.create "a.dat" Store.oneRowFile.schema 16 "u"), .call .hasNext]

def freshStore : Store Eviction.Oblivious :=
  [Deed.create "a.dat" Store.oneRowFile.schema 16 "t"].foldl Store.upon Store.vacant

def freshScan : Plan := .scan ⟨⟨0, 0, Store.oneRowFile.schema, 16⟩, "t", none⟩

theorem keepsTypes_underNewName :
    KeepsTypes 1 (ofPlan freshScan, freshStore) (.file 0) freshScan.schema.types underNewName := by
  have checked : ∀ past ∈ underNewName.inits,
      ((occurred 1 (ofPlan freshScan, freshStore) past).2.catalog.file? (.file 0)).all
        (fun file => file.schema.types = freshScan.schema.types) = true := by decide +kernel
  intro past isPast file registered
  have types := checked past ((List.mem_inits past underNewName).mpr isPast)
  rw [registered] at types
  exact of_decide_eq_true types

theorem scan_delivers_of_renamed_table :
    (Store.vacant.catalog.Filed ∧ Store.vacant.pool.frames = [] ∧
      Plan.scanAs freshStore.catalog (.file 0) none = .ok freshScan ∧
      (∀ id frame, freshStore.pool.frame? id = some frame → id.table = .file 0 →
        frame.page.schema.types = freshScan.schema.types) ∧
      KeepsTypes 1 (ofPlan freshScan, freshStore) (.file 0) freshScan.schema.types underNewName) ∧
    Delivering 1 freshScan.schema (occurred 1 (ofPlan freshScan, freshStore) underNewName) := by
  have registered : freshStore.catalog.registration (.file 0) =
      .ok ⟨"t", ⟨0, 0, Store.oneRowFile.schema, 16⟩⟩ := by decide +kernel
  have built : Plan.scanAs freshStore.catalog (.file 0) none = .ok freshScan := by
    rw [Plan.scanAs, registered]
    rfl
  have empty : freshStore.pool.frames = [] := by decide +kernel
  have fresh : ∀ id frame, freshStore.pool.frame? id = some frame → id.table = .file 0 →
      frame.page.schema.types = freshScan.schema.types := by
    intro id frame cached
    rw [Pool.frame?, empty] at cached
    contradiction
  exact ⟨⟨Catalog.filed_empty, rfl, built, fresh, keepsTypes_underNewName⟩,
    scan_delivers 1 Catalog.filed_empty rfl _ rfl built fresh keepsTypes_underNewName⟩

end Operator

end PagedStore
