import PagedStore.Proofs.Scan.Interleaving

/-!
A reader that is also asked whether there is a next row. To answer that there is one it has to find it,
and it keeps the row until it is asked for it. What it gives out is therefore what its record held at
the first moment when it said that there is one, and the row may have been deleted since. A reader
that has not said so since it gave out a row gives out what a record holds at the moment of the call.
-/

namespace PagedStore

namespace Cursor

variable {μ : Type} {store : Store μ} {file : HeapFile} {cursor : Cursor}

structure Waits (file : HeapFile) (cursor : Cursor) (found : Option Row) : Prop where
  found_eq : cursor.found = found
  stands : ∃ place, StandsAt file { cursor with found := none } place

theorem opened_of_waits {found : Option Row} (waits : Waits file cursor found) :
    cursor.opened = true := by
  obtain ⟨place, stands⟩ := waits.stands
  exact stands.opened

theorem without_found (nothing : cursor.found = none) : { cursor with found := none } = cursor := by
  rw [← nothing]

theorem waits_of_standsAt {place : Nat} (stands : StandsAt file cursor place) :
    Waits file cursor none :=
  ⟨stands.found_eq, place, (without_found stands.found_eq).symm ▸ stands⟩

theorem standsAt_of_waits (waits : Waits file cursor none) : ∃ place, StandsAt file cursor place :=
  without_found waits.found_eq ▸ waits.stands

variable [EvictionPolicy μ]

/-- A search never leaves the cursor behind the last slot of a page, even if it fails. -/
theorem search_waits (coherent : store.Coherent)
    (registered : store.catalog.file? file.table = some file) (waits : Waits file cursor none)
    (turns : Nat) :
    Action.Ends (search file turns) (cursor, store) (fun _ after => Waits file after.1 none)
      fun _ after => Waits file after.1 none := by
  induction turns generalizing store cursor with
  | zero => exact waits
  | succ turns ih =>
    unfold search
    rw [Action.ends_bind, Action.ends_get]
    dsimp only
    by_cases past : file.numPages store.disk ≤ cursor.page
    · rw [if_pos past]
      exact waits
    rw [if_neg past, Action.ends_bind, Beside.ends_onStore]
    have told : cursor.page.toNat < file.pageCount store.disk := Nat.lt_of_not_le past
    apply Action.ends_imp (Store.fetch_ends coherent (file.page cursor.page.toNat))
    · rintro frame middle ⟨saves, cached⟩
      have turned := turned_of_saves coherent registered told saves cached
      obtain ⟨place, stands⟩ := standsAt_of_waits waits
      cases found : frame.page.nextRow? cursor.slot with
      | some entry =>
        obtain ⟨index, -, -, there⟩ := sought_of_row stands turned found
        exact waits_of_standsAt there
      | none =>
        let following : Cursor := { cursor with page := cursor.page + 1, slot := 0 }
        have standsNext : StandsAt file following (file.cellIndex (cursor.page + 1).toNat 0) :=
          ⟨stands.opened, stands.found_eq, Nat.zero_le _, rfl⟩
        exact ih saves.coherent turned.registered (waits_of_standsAt standsNext)
    · exact fun _ _ _ => waits

/-- The row that has been found to answer that there is one is what the next call would have given. -/
theorem next_of_hasNext {more : Bool} {after : Cursor × Store μ} {row : Row}
    (asked : Action.outcome (hasNext file) (cursor, store) = (.ok more, after))
    (found : after.1.found = some row) :
    (Action.outcome (perform file .next) (cursor, store)).1 = .ok (.row row) := by
  have ends : Action.Ends (perform file .next) (cursor, store) (fun reply _ => reply = .row row)
      fun _ _ => False := by
    unfold perform next
    rw [Action.ends_bind, Action.ends_bind]
    apply Action.ends_imp (Action.ends_outcome (hasNext file) (cursor, store))
    · intro value reached same
      obtain ⟨-, rfl⟩ := Prod.mk.inj (asked.symm.trans same)
      rw [Action.ends_bind, Beside.ends_own, found]
      rfl
    · intro fault reached same
      rw [asked, Prod.mk.injEq] at same
      exact absurd same.1 (by simp)
  obtain ⟨reply, told, rfl⟩ := Action.outcome_of_never_fails ends
  exact told

/-- Whether there is a next row is answered by finding it in its cell. -/
theorem hasNext_waits (coherent : store.Coherent)
    (registered : store.catalog.file? file.table = some file) (waits : Waits file cursor none) :
    Action.Ends (hasNext file) (cursor, store)
      (fun more after => ∃ found, more = found.isSome ∧ Waits file after.1 found ∧
        ∀ row, found = some row → ∃ index, store.Shows file index row)
      fun _ after => Waits file after.1 none := by
  obtain ⟨place, stands⟩ := standsAt_of_waits waits
  have enough : file.pageCount store.disk - cursor.page.toNat < 4294967296 :=
    Nat.lt_of_le_of_lt (Nat.sub_le _ _) (file.pageCount_lt store.disk)
  unfold hasNext
  rw [Action.ends_bind, ends_checkOpen stands.opened, Action.ends_bind, Beside.ends_own,
    stands.found_eq, if_pos (Option.isNone_none), Action.ends_bind]
  have finds := search_ends coherent registered stands enough
  apply Action.ends_imp (Action.ends_and finds (search_waits coherent registered waits _))
  · rintro found ⟨sought, after⟩ ⟨⟨-, result⟩, waitsThen⟩
    refine ⟨found, rfl, ⟨rfl, waitsThen.stands⟩, ?_⟩
    rintro row rfl
    obtain ⟨index, -, shows, -⟩ := result
    exact ⟨index, shows⟩
  · exact fun _ _ failure => failure.2

/-- A cursor that has not found a row yet gives out what a cell holds. -/
theorem next_waits (coherent : store.Coherent)
    (registered : store.catalog.file? file.table = some file) (waits : Waits file cursor none) :
    Action.Ends (next file) (cursor, store)
      (fun row after => Waits file after.1 none ∧ ∃ index, store.Shows file index row)
      fun _ after => Waits file after.1 none := by
  unfold next
  rw [Action.ends_bind]
  apply Action.ends_imp (hasNext_waits coherent registered waits)
  · rintro _ after ⟨found, -, waitsThen, shows⟩
    rw [Action.ends_bind, Beside.ends_own, waitsThen.found_eq]
    cases found with
    | none => exact waitsThen
    | some row => exact ⟨⟨rfl, waitsThen.stands⟩, shows row rfl⟩
  · exact fun _ _ waitsThen => waitsThen

/-- A cursor that has found a row only says so when it is asked again. -/
theorem ends_hasNext_of_found {row : Row} (opened : cursor.opened = true)
    (found : cursor.found = some row) {done : Bool → Cursor × Store μ → Prop}
    {failed : Fault → Cursor × Store μ → Prop} :
    Action.Ends (hasNext file) (cursor, store) done failed ↔ done true (cursor, store) := by
  rcases cursor with ⟨isOpen, page, slot, ahead⟩
  dsimp only at opened found
  subst opened found
  rfl

end Cursor

namespace Scene

/-- A reader is asked for nothing but whether there is a next row and for that row. -/
def Event.Pulls (index : Nat) : Event → Prop
  | .ask _ => True
  | .call other asked => other = index → asked = .hasNext ∨ asked = .next

variable {μ : Type} [EvictionPolicy μ] {scene : Scene μ} {index : Nat} {file : HeapFile}

structure HasTable (scene : Scene μ) (file : HeapFile) : Prop where
  coherent : scene.store.Coherent
  registered : scene.store.catalog.file? file.table = some file

/-- The reader is open, and this is the row that it has found and not given out yet, if any. -/
def Waits (scene : Scene μ) (index : Nat) (file : HeapFile) (found : Option Row) : Prop :=
  ∃ cursor, scene.readers[index]? = some ⟨file, cursor⟩ ∧ Cursor.Waits file cursor found

structure Sees (scene : Scene μ) (index : Nat) (file : HeapFile) (row : Row) : Prop where
  more : (scene.respond index .hasNext).1 = some (.ok (.more true))
  next : (scene.respond index .next).1 = some (.ok (.row row))
  shown : ∃ cell, scene.store.Shows file cell row

theorem hasTable_happen (hasTable : scene.HasTable file) (event : Event) :
    (scene.happen event).HasTable file := by
  have lasts := lasts_happen hasTable.coherent event
  exact ⟨lasts.coherent, lasts.catalog_eq.symm ▸ hasTable.registered⟩

theorem hasTable_after (hasTable : scene.HasTable file) (events : List Event) :
    (scene.after events).HasTable file := by
  induction events generalizing scene with
  | nil => exact hasTable
  | cons event rest ih => exact ih (hasTable_happen hasTable event)

theorem waits_of_start {cursor : Cursor} (there : scene.readers[index]? = some ⟨file, cursor⟩) :
    (scene.happen (.call index .start)).Waits index file none := by
  obtain ⟨started, reader, stands⟩ := reads_of_start there
  exact ⟨started, reader, Cursor.waits_of_standsAt stands⟩

/-- A call ends as the cursor's call does. -/
theorem respond_ends {cursor : Cursor} (there : scene.readers[index]? = some ⟨file, cursor⟩)
    {call : Call} {done : Reply → Cursor × Store μ → Prop} {failed : Fault → Cursor × Store μ → Prop}
    (ends : Action.Ends (Cursor.perform file call) (cursor, scene.store) done failed) :
    ∃ cursor, (scene.respond index call).2.readers[index]? = some ⟨file, cursor⟩ ∧
      ((∃ reply, (scene.respond index call).1 = some (.ok reply) ∧
          done reply (cursor, (scene.respond index call).2.store)) ∨
        ∃ fault, (scene.respond index call).1 = some (.error fault) ∧
          failed fault (cursor, (scene.respond index call).2.store)) := by
  refine ⟨_, reader_of_respond there call, ?_⟩
  rw [respond_of_reader there]
  rcases Action.outcome_of_ends ends with ⟨reply, told, holds⟩ | ⟨fault, told, holds⟩
  · exact Or.inl ⟨reply, congrArg some told, holds⟩
  · exact Or.inr ⟨fault, congrArg some told, holds⟩

theorem respond_ends_of_never_fails {cursor : Cursor}
    (there : scene.readers[index]? = some ⟨file, cursor⟩) {call : Call}
    {done : Reply → Cursor × Store μ → Prop}
    (ends : Action.Ends (Cursor.perform file call) (cursor, scene.store) done fun _ _ => False) :
    ∃ cursor reply, (scene.respond index call).2.readers[index]? = some ⟨file, cursor⟩ ∧
      (scene.respond index call).1 = some (.ok reply) ∧
      done reply (cursor, (scene.respond index call).2.store) := by
  obtain ⟨changed, reader, ⟨reply, told, holds⟩ | ⟨_, _, impossible⟩⟩ := respond_ends there ends
  · exact ⟨changed, reply, reader, told, holds⟩
  · exact impossible.elim

/-- The row that has been found is given out whatever its record holds by now. -/
theorem respond_next_of_waits {row : Row} (waits : scene.Waits index file (some row)) :
    (scene.respond index .next).1 = some (.ok (.row row)) ∧
      (scene.respond index .next).2.Waits index file none := by
  obtain ⟨cursor, there, waits⟩ := waits
  have ends : Action.Ends (Cursor.perform file .next) (cursor, scene.store)
      (fun reply after => reply = .row row ∧ Cursor.Waits file after.1 none) fun _ _ => False := by
    unfold Cursor.perform
    rw [Action.ends_bind, Cursor.ends_next_of_found (Cursor.opened_of_waits waits) waits.found_eq]
    exact ⟨rfl, rfl, waits.stands⟩
  obtain ⟨changed, reply, reader, told, rfl, waitsNow⟩ := respond_ends_of_never_fails there ends
  exact ⟨told, changed, reader, waitsNow⟩

theorem respond_hasNext_of_waits {row : Row} (waits : scene.Waits index file (some row)) :
    (scene.respond index .hasNext).1 = some (.ok (.more true)) ∧
      (scene.respond index .hasNext).2.Waits index file (some row) := by
  obtain ⟨cursor, there, waits⟩ := waits
  have ends : Action.Ends (Cursor.perform file .hasNext) (cursor, scene.store)
      (fun reply after => reply = .more true ∧ Cursor.Waits file after.1 (some row))
      fun _ _ => False := by
    unfold Cursor.perform
    rw [Action.ends_bind, Cursor.ends_hasNext_of_found (Cursor.opened_of_waits waits) waits.found_eq]
    exact ⟨rfl, waits⟩
  obtain ⟨changed, reply, reader, told, rfl, waitsNow⟩ := respond_ends_of_never_fails there ends
  exact ⟨told, changed, reader, waitsNow⟩

/-- A reader that says that there is a next row has decided which one. -/
theorem respond_hasNext_of_none (hasTable : scene.HasTable file) (waits : scene.Waits index file none) :
    (∃ row, scene.Sees index file row ∧
        (scene.respond index .hasNext).2.Waits index file (some row)) ∨
      (scene.respond index .hasNext).1 ≠ some (.ok (.more true)) ∧
        (scene.respond index .hasNext).2.Waits index file none := by
  obtain ⟨cursor, there, waits⟩ := waits
  have ends : Action.Ends (Cursor.perform file .hasNext) (cursor, scene.store)
      (fun reply after => ∃ found, reply = .more found.isSome ∧ Cursor.Waits file after.1 found ∧
        ∀ row, found = some row → (∃ cell, scene.store.Shows file cell row) ∧
          (scene.respond index .next).1 = some (.ok (.row row)))
      fun _ after => Cursor.Waits file after.1 none := by
    unfold Cursor.perform
    rw [Action.ends_bind]
    apply Action.ends_imp (Action.ends_and
      (Cursor.hasNext_waits hasTable.coherent hasTable.registered waits) (Action.ends_outcome _ _))
    · rintro _ after ⟨⟨found, rfl, waitsThen, shows⟩, asked⟩
      refine ⟨found, rfl, waitsThen, ?_⟩
      intro row isFound
      refine ⟨shows row isFound, ?_⟩
      rw [respond_of_reader there]
      exact congrArg some (Cursor.next_of_hasNext asked (waitsThen.found_eq.trans isFound))
    · exact fun _ _ failure => failure.1
  obtain ⟨changed, reader, ⟨reply, told, found, rfl, waitsNow, shows⟩ | ⟨fault, told, waitsNow⟩⟩ :=
    respond_ends there ends
  · cases found with
    | none =>
      refine Or.inr ⟨?_, changed, reader, waitsNow⟩
      rw [told]
      simp
    | some row =>
      obtain ⟨shown, next⟩ := shows row rfl
      exact Or.inl ⟨row, ⟨told, next, shown⟩, changed, reader, waitsNow⟩
  · refine Or.inr ⟨?_, changed, reader, waitsNow⟩
    rw [told]
    simp

theorem respond_next_of_none (hasTable : scene.HasTable file) (waits : scene.Waits index file none) :
    (scene.respond index .next).2.Waits index file none ∧
      ∀ row, (scene.respond index .next).1 = some (.ok (.row row)) →
        ∃ cell, scene.store.Shows file cell row := by
  obtain ⟨cursor, there, waits⟩ := waits
  have ends : Action.Ends (Cursor.perform file .next) (cursor, scene.store)
      (fun reply after => Cursor.Waits file after.1 none ∧ ∃ row, reply = .row row ∧
        ∃ cell, scene.store.Shows file cell row)
      fun _ after => Cursor.Waits file after.1 none := by
    unfold Cursor.perform
    rw [Action.ends_bind]
    apply Action.ends_imp (Cursor.next_waits hasTable.coherent hasTable.registered waits)
    · exact fun row after ⟨waitsThen, shows⟩ => ⟨waitsThen, row, rfl, shows⟩
    · exact fun _ _ waitsThen => waitsThen
  obtain ⟨changed, reader, ⟨reply, told, waitsNow, row, rfl, shows⟩ | ⟨fault, told, waitsNow⟩⟩ :=
    respond_ends there ends
  · refine ⟨⟨changed, reader, waitsNow⟩, ?_⟩
    intro other given
    rw [told] at given
    obtain rfl : row = other := by simpa using given
    exact shows
  · refine ⟨⟨changed, reader, waitsNow⟩, ?_⟩
    intro row given
    rw [told] at given
    simp at given

structure Promised (scene : Scene μ) (index : Nat) (file : HeapFile) (events : List Event)
    (row : Row) : Prop where
  decided : ∃ seen rest, events = seen ++ .call index .hasNext :: rest ∧
    .call index .next ∉ rest ∧ (scene.after seen).Sees index file row
  waits : (scene.after events).Waits index file (some row)

variable {events : List Event} {event : Event} {row : Row}

theorem waits_happen_of_other {found : Option Row} (waits : scene.Waits index file found)
    (other : ∀ call, event ≠ .call index call) : (scene.happen event).Waits index file found := by
  obtain ⟨cursor, there, waits⟩ := waits
  cases event with
  | ask operation => exact ⟨cursor, there, waits⟩
  | call number call =>
    have differs : number ≠ index := by
      rintro rfl
      exact other call rfl
    exact ⟨cursor, (reader_of_other differs call).trans there, waits⟩

/-- A promise is kept until the reader is asked for the row. -/
theorem waits_happen_of_some (waits : scene.Waits index file (some row)) (pulls : event.Pulls index)
    (stays : event ≠ .call index .next) : (scene.happen event).Waits index file (some row) := by
  by_cases own : event = .call index .hasNext
  · rw [own]
    exact (respond_hasNext_of_waits waits).2
  · apply waits_happen_of_other waits
    rintro call rfl
    rcases pulls rfl with rfl | rfl
    · exact own rfl
    · exact stays rfl

theorem waits_after_of_some (waits : scene.Waits index file (some row))
    (pulls : ∀ event ∈ events, event.Pulls index) (silent : .call index .next ∉ events) :
    (scene.after events).Waits index file (some row) := by
  induction events generalizing scene with
  | nil => exact waits
  | cons event rest ih =>
    rw [List.mem_cons, not_or] at silent
    have waitsNow :=
      waits_happen_of_some waits (pulls event List.mem_cons_self) (Ne.symm silent.1)
    exact ih waitsNow (fun other member => pulls other (List.mem_cons_of_mem _ member)) silent.2

theorem after_concat (scene : Scene μ) (events : List Event) (event : Event) :
    scene.after (events ++ [event]) = (scene.after events).happen event :=
  after_append scene events [event]

theorem promised_concat (promised : scene.Promised index file events row) (pulls : event.Pulls index)
    (stays : event ≠ .call index .next) : scene.Promised index file (events ++ [event]) row where
  decided := by
    obtain ⟨seen, rest, rfl, silent, sees⟩ := promised.decided
    refine ⟨seen, rest ++ [event], by simp, ?_, sees⟩
    rw [List.mem_append, List.mem_singleton]
    rintro (earlier | last)
    · exact silent earlier
    · exact stays last.symm
  waits := by
    rw [after_concat]
    exact waits_happen_of_some promised.waits pulls stays

/-- At any moment a reader has either promised a row, or it has no row in hand. -/
theorem promised_or_none (hasTable : scene.HasTable file) (waits : scene.Waits index file none)
    (pulls : ∀ event ∈ events, event.Pulls index) :
    (scene.after events).Waits index file none ∨ ∃ row, scene.Promised index file events row := by
  induction events using List.reverseRecOn with
  | nil => exact Or.inl waits
  | append_singleton events event ih =>
    have hasTableNow := hasTable_after hasTable events
    have pullsLast := pulls event (List.mem_append_right _ List.mem_cons_self)
    have before := ih fun other member => pulls other (List.mem_append_left _ member)
    rw [after_concat]
    by_cases takes : event = .call index .next
    · left
      rw [takes]
      rcases before with nothing | ⟨row, promised⟩
      · exact (respond_next_of_none hasTableNow nothing).1
      · exact (respond_next_of_waits promised.waits).2
    rcases before with nothing | ⟨row, promised⟩
    · by_cases asks : event = .call index .hasNext
      · subst asks
        rcases respond_hasNext_of_none hasTableNow nothing with ⟨row, sees, waitsNow⟩ | ⟨-, nothingNow⟩
        · refine Or.inr ⟨row, ⟨events, [], rfl, by simp, sees⟩, ?_⟩
          rw [after_concat]
          exact waitsNow
        · exact Or.inl nothingNow
      · refine Or.inl (waits_happen_of_other nothing ?_)
        rintro call rfl
        rcases pullsLast rfl with rfl | rfl
        · exact asks rfl
        · exact takes rfl
    · exact Or.inr ⟨row, promised_concat promised pullsLast takes⟩

/-- Once a reader has said that there is a next row, it gives out the row it would have given then. -/
theorem next_of_more (hasTable : scene.HasTable file) {found : Option Row}
    (waits : scene.Waits index file found)
    (more : (scene.respond index .hasNext).1 = some (.ok (.more true))) {rest : List Event}
    (pulls : ∀ event ∈ rest, event.Pulls index) (silent : .call index .next ∉ rest) :
    ((scene.after (.call index .hasNext :: rest)).respond index .next).1 =
      (scene.respond index .next).1 := by
  obtain ⟨row, next, waitsNow⟩ : ∃ row, (scene.respond index .next).1 = some (.ok (.row row)) ∧
      (scene.respond index .hasNext).2.Waits index file (some row) := by
    cases found with
    | none =>
      rcases respond_hasNext_of_none hasTable waits with ⟨row, sees, waitsNow⟩ | ⟨differs, -⟩
      · exact ⟨row, sees.next, waitsNow⟩
      · exact absurd more differs
    | some row =>
      exact ⟨row, (respond_next_of_waits waits).1, (respond_hasNext_of_waits waits).2⟩
  rw [next]
  exact (respond_next_of_waits (waits_after_of_some waitsNow pulls silent)).1

/-- What a reader gives out that is asked whether there is a next row and for that row, while anything
happens to the store and to other readers. Each row is what its cell held at the moment of the call, or
else at an earlier moment, since which the reader has not been asked for a row and at which it said that
there is a next one. Once it has said so, it will give out the row that it would have given out then. -/
theorem next_decided_by_peek {origin : Scene μ} (sound : origin.store.Sound)
    (unused : origin.store.pool.frames = []) {reader : Reader}
    (there : origin.readers[index]? = some reader)
    (registered : origin.store.catalog.file? reader.file.table = some reader.file)
    (before during : List Event) (pulls : ∀ event ∈ during, event.Pulls index) :
    let opened := (origin.after before).happen (.call index .start)
    (∀ row, ((opened.after during).respond index .next).1 = some (.ok (.row row)) →
      ∃ seen rest cell, during = seen ++ rest ∧ .call index .next ∉ rest ∧
        row.record = some (reader.file.recordAt cell) ∧
        reader.file.cell (opened.after seen).store.current cell =
          some (row.values.map Value.kept) ∧
        (rest = [] ∨ ∃ later, rest = .call index .hasNext :: later ∧
          ((opened.after seen).respond index .hasNext).1 = some (.ok (.more true)))) ∧
    ∀ seen rest, during = seen ++ .call index .hasNext :: rest → .call index .next ∉ rest →
      ((opened.after seen).respond index .hasNext).1 = some (.ok (.more true)) →
      ((opened.after during).respond index .next).1 = ((opened.after seen).respond index .next).1 := by
  intro opened
  have hasTable : origin.HasTable reader.file :=
    ⟨(Store.coherent_of_unused sound unused).1, registered⟩
  have hasTableOpened : opened.HasTable reader.file :=
    hasTable_happen (hasTable_after hasTable before) _
  obtain ⟨cursor, thereThen⟩ := exists_reader_after there before
  have waits : opened.Waits index reader.file none := waits_of_start thereThen
  constructor
  · intro row given
    rcases promised_or_none hasTableOpened waits pulls with nothing | ⟨promise, promised⟩
    · have hasTableNow := hasTable_after hasTableOpened during
      obtain ⟨cell, shows⟩ := (respond_next_of_none hasTableNow nothing).2 row given
      exact ⟨during, [], cell, by simp, by simp, shows.record_eq, shows.cell_eq, Or.inl rfl⟩
    · obtain ⟨seen, rest, split, silent, sees⟩ := promised.decided
      rw [(respond_next_of_waits promised.waits).1] at given
      obtain rfl : promise = row := by simpa using given
      obtain ⟨cell, shows⟩ := sees.shown
      exact ⟨seen, _, cell, split, by simpa using silent, shows.record_eq, shows.cell_eq,
        Or.inr ⟨rest, rfl, sees.more⟩⟩
  · rintro seen rest rfl silent more
    have pullsSeen := fun event member => pulls event (List.mem_append_left _ member)
    have pullsRest := fun event member =>
      pulls event (List.mem_append_right seen (List.mem_cons_of_mem _ member))
    have hasTableSeen := hasTable_after hasTableOpened seen
    rw [after_append]
    rcases promised_or_none hasTableOpened waits pullsSeen with nothing | ⟨promise, promised⟩
    · exact next_of_more hasTableSeen nothing more pullsRest silent
    · exact next_of_more hasTableSeen promised.waits more pullsRest silent

def deletion : Event :=
  .ask (.delete ⟨1⟩ ((Store.integerRow 7).stamped (RecordId.ofSlot ⟨.file 0, 0⟩ 0)))

/-- A reader gives out a deleted row only if it was asked before the deletion whether there is one. -/
theorem deleted_row_after_peek :
    let opened := twoReaders.happen (.call 0 .start)
    let record := RecordId.ofSlot ⟨.file 0, 0⟩ 0
    (opened.after [deletion]).store.held record = none ∧
      ((opened.after [deletion]).respond 0 .next).1 = some (.error (.error .exhausted)) ∧
      (opened.after [.call 0 .hasNext, deletion]).store.held record = none ∧
      ((opened.after [.call 0 .hasNext, deletion]).respond 0 .next).1 =
        some (.ok (.row ((Store.integerRow 7).stamped record))) := by
  decide +kernel

theorem next_decided_by_peek_of_deleted_row :
    (twoReaders.store.Sound ∧ twoReaders.store.pool.frames = [] ∧
      ∀ event ∈ [.call 0 .hasNext, deletion, .call 0 .hasNext], event.Pulls 0) ∧
    (((twoReaders.happen (.call 0 .start)).after
        [.call 0 .hasNext, deletion, .call 0 .hasNext]).respond 0 .next).1 =
      ((twoReaders.happen (.call 0 .start)).respond 0 .next).1 := by
  have sound : twoReaders.store.Sound := Store.sound_of_single rfl Store.whole_oneRowFile
  have pulls : ∀ event ∈ [.call 0 .hasNext, deletion, .call 0 .hasNext], event.Pulls 0 := by
    simp [deletion, Event.Pulls]
  have there : twoReaders.readers[0]? = some ⟨Store.oneRowFile, .unopened⟩ := rfl
  have more : ((twoReaders.happen (.call 0 .start)).respond 0 .hasNext).1 =
      some (.ok (.more true)) := by
    decide +kernel
  have decided := (next_decided_by_peek sound rfl there rfl [] _ pulls).2
  exact ⟨⟨sound, rfl, pulls⟩, decided [] _ rfl (by simp [deletion]) more⟩

end Scene

end PagedStore
