import PagedStore.Proofs.Page.PartialMap
import PagedStore.Proofs.Page.RoundTrip

/-!
How far a record names its slot. Slots are counted without a bound, but the slot of a record has sixteen
bits, so the records of a page repeat every 65536 slots. Main statements: the records of a page name its
slots exactly when no slot from 65536 on is used, which no page of at most 270340 bytes has; and on any
page the row of a used slot is deleted from the slot with the same number modulo 65536. On a page of one
slot more, deleting the row of the last slot takes the row of the first slot away.
-/

namespace PagedStore

/-- A row has a column at least, and no column takes fewer than four bytes. -/
theorem Schema.four_le_width (schema : Schema) : 4 ≤ schema.width := by
  cases columns : schema.columns with
  | nil => exact absurd columns schema.nonempty
  | cons column rest =>
    have first : 4 ≤ column.width := by
      cases type : column.type <;> simp [Column.width, type, ValueType.width]
    rw [width, columns, List.foldr_cons]
    omega

theorem RecordId.toNat_slot_ofSlot (page : PageId) (slot : Nat) :
    (ofSlot page slot).slot.toNat = slot % 65536 := UInt16.toNat_ofNat'

/-- Two slots of a page have one record exactly when sixteen bits do not tell them apart. -/
theorem RecordId.ofSlot_eq_iff (page : PageId) (slot other : Nat) :
    ofSlot page slot = ofSlot page other ↔ slot % 65536 = other % 65536 := by
  simp only [ofSlot, RecordId.mk.injEq, true_and, ← UInt16.toNat_inj, UInt16.toNat_ofNat']

namespace Page

/-- The records of the page name its slots: no two used slots have one record, and the row of a used slot
is deleted from this slot and from no other. -/
structure Named (page : Page) : Prop where
  distinct : ∀ slot other row otherRow, page.row? slot = some row →
    page.row? other = some otherRow → slot ≠ other → row.record ≠ otherRow.record
  deletable : ∀ slot row, page.row? slot = some row →
    ∃ changed, page.delete row = .ok changed ∧ page.Replaces changed slot none

variable {page : Page} {slot other : Nat} {row otherRow : Row}

theorem record_eq_iff (formed : page.Formed) (stored : page.row? slot = some row)
    (otherStored : page.row? other = some otherRow) :
    row.record = otherRow.record ↔ slot % 65536 = other % 65536 := by
  rw [(formed.holds slot row stored).record_eq, (formed.holds other otherRow otherStored).record_eq,
    Option.some_inj]
  exact RecordId.ofSlot_eq_iff page.id slot other

/-- The row of a used slot is deleted from the slot that its record names. -/
theorem delete_stored (formed : page.Formed) (stored : page.row? slot = some row)
    (used : (page.row? (slot % 65536)).isSome) :
    ∃ changed, page.delete row = .ok changed ∧ page.Replaces changed (slot % 65536) none := by
  have named := (formed.holds slot row stored).record_eq
  have there := RecordId.toNat_slot_ofSlot page.id slot
  have isUsed : page.isUsed (slot % 65536) := (isUsed_eq formed _).trans used
  refine ⟨page.setSlot (slot % 65536) none, ?_, replaces_setSlot (isUsed_lt isUsed) none⟩
  rw [← there] at isUsed ⊢
  exact delete_eq_ok_iff.mpr ⟨_, named, rfl, isUsed, rfl⟩

theorem delete_stray (formed : page.Formed) (stored : page.row? slot = some row)
    (free : page.row? (slot % 65536) = none) :
    page.delete row = .error (.notOnPage (RecordId.ofSlot page.id slot)) := by
  have named := (formed.holds slot row stored).record_eq
  have there := RecordId.toNat_slot_ofSlot page.id slot
  have unused : ¬ page.isUsed (RecordId.ofSlot page.id slot).slot.toNat := by
    rw [there, isUsed_eq formed, free]
    decide
  rw [delete, named]
  exact if_neg fun both => unused both.2

theorem named_of_low (formed : page.Formed)
    (low : ∀ slot row, page.row? slot = some row → slot < 65536) : page.Named where
  distinct := by
    intro slot other row otherRow stored otherStored differs same
    have residues := (record_eq_iff formed stored otherStored).mp same
    rw [Nat.mod_eq_of_lt (low slot row stored), Nat.mod_eq_of_lt (low other otherRow otherStored)]
      at residues
    exact differs residues
  deletable := by
    intro slot row stored
    have inside := Nat.mod_eq_of_lt (low slot row stored)
    have deleted := delete_stored formed stored (by rw [inside, stored]; rfl)
    rwa [inside] at deleted

/-- The row of a slot from 65536 on is not deleted from this slot. -/
theorem low_of_named (formed : page.Formed) (named : page.Named) (slot : Nat) (row : Row)
    (stored : page.row? slot = some row) : slot < 65536 := by
  obtain ⟨changed, deleted, replaces⟩ := named.deletable slot row stored
  obtain ⟨record, recorded, fromRecord⟩ := replaces_of_delete deleted
  have isRecord := recorded.symm.trans (formed.holds slot row stored).record_eq
  have there : record.slot.toNat = slot % 65536 := by
    rw [Option.some.inj isRecord, RecordId.toNat_slot_ofSlot]
  have freed : changed.row? slot = none := by rw [replaces.row_eq, Function.update_self]
  apply Nat.lt_of_not_le
  intro high
  have elsewhere : slot ≠ record.slot.toNat := by omega
  rw [fromRecord.row_eq, Function.update_of_ne elsewhere, stored] at freed
  contradiction

theorem slotCount_le_of_size (formed : page.Formed) (small : page.size ≤ 270340) :
    page.slotCount ≤ 65536 := by
  have wide := Schema.four_le_width page.schema
  rw [formed.slotCount_eq, Geometry.slotCount]
  calc page.size * 8 / (page.schema.width * 8 + 1)
      ≤ page.size * 8 / 33 := Nat.div_le_div_left (by omega) (by decide)
    _ ≤ 65536 := by omega

/-- The records of a page name its slots exactly when no slot from 65536 on is used, as on any page of at
most 270340 bytes. On every page, the rows of two used slots have one record exactly when the slots have
one number modulo 65536, and the row of a used slot is deleted from the slot with this number; if that
slot is free, the row is not found. -/
theorem records_name_low_slots (reachable : page.Reachable) :
    (page.Named ↔ ∀ slot row, page.row? slot = some row → slot < 65536) ∧
      (page.size ≤ 270340 → page.Named) ∧
      (∀ slot other row otherRow, page.row? slot = some row → page.row? other = some otherRow →
        (row.record = otherRow.record ↔ slot % 65536 = other % 65536)) ∧
      ∀ slot row, page.row? slot = some row →
        ((page.row? (slot % 65536)).isSome →
          ∃ changed, page.delete row = .ok changed ∧ page.Replaces changed (slot % 65536) none) ∧
        (page.row? (slot % 65536) = none →
          page.delete row = .error (.notOnPage (RecordId.ofSlot page.id slot))) := by
  have formed := formed_of_reachable reachable
  refine ⟨⟨low_of_named formed, named_of_low formed⟩, ?_,
    fun _ _ _ _ stored otherStored => record_eq_iff formed stored otherStored, ?_⟩
  · intro small
    apply named_of_low formed
    intro slot row stored
    exact Nat.lt_of_lt_of_le (lt_slotCount_of_row stored) (slotCount_le_of_size formed small)
  · intro slot row stored
    exact ⟨delete_stored formed stored, delete_stray formed stored⟩

def numbers : Schema := .single (.unnamed .integer)

theorem arity_numbers (number : Int32) : [Value.integer number].length = numbers.arity := rfl

def wideId : PageId := ⟨.file 0, 0⟩

def wideRow (number : Int32) (slot : Nat) : Row :=
  ⟨numbers, [.integer number], arity_numbers number, some (RecordId.ofSlot wideId slot)⟩

/-- A page of 65537 slots with a row in the first of them and a row in the last. -/
def widePage : Page :=
  ((empty wideId numbers 270341).setSlot 0 (some (wideRow 7 0))).setSlot 65536
    (some (wideRow 8 65536))

theorem holds_wideRow {page : Page} (id : page.id = wideId) (schema : page.schema = numbers)
    (number : Int32) (slot : Nat) : page.Holds slot (wideRow number slot) := by
  refine ⟨?_, rfl, ?_⟩
  · rw [schema]
    rfl
  · rw [id]
    rfl

theorem slotCount_wide : (empty wideId numbers 270341).slotCount = 65537 := by
  rw [(formed_empty ..).slotCount_eq]
  decide

theorem formed_widePage : widePage.Formed := by
  have inside : 0 < (empty wideId numbers 270341).slotCount := by rw [slotCount_wide]; decide
  have first := formed_setSlot (formed_empty wideId numbers 270341) inside
    (fun _ same => Option.some.inj same ▸ holds_wideRow rfl rfl 7 0)
  refine formed_setSlot first ?_ (fun _ same => Option.some.inj same ▸ holds_wideRow rfl rfl 8 65536)
  rw [slotCount_setSlot, slotCount_wide]
  decide

theorem row_widePage (slot : Nat) : widePage.row? slot =
    if slot = 65536 then some (wideRow 8 65536) else if slot = 0 then some (wideRow 7 0) else none := by
  have free : (empty wideId numbers 270341).row? slot = none := by
    simp only [empty, row?, List.getElem?_replicate]
    split <;> rfl
  rw [widePage, row_setSlot _ (by rw [slotCount_setSlot, slotCount_wide]; decide),
    row_setSlot _ (by rw [slotCount_wide]; decide), free]

/-- The page is what is read from its own image. -/
theorem reachable_widePage : widePage.Reachable := by
  have same : widePage.reread = widePage := by
    apply reread_eq_self rfl
    intro slot row stored
    rw [row_widePage] at stored
    split at stored
    · obtain rfl := Option.some.inj stored
      rfl
    · split at stored
      · obtain rfl := Option.some.inj stored
        rfl
      · contradiction
  have decoded := decode_encode formed_widePage
  rw [same] at decoded
  exact ⟨widePage, [], .read decoded, rfl⟩

/-- The rows of the first and the last slot have one record. So deleting the row of the last slot takes
the row of the first slot away, and leaves the row that was to be deleted. -/
theorem last_row_named_as_first :
    widePage.Reachable ∧ ¬ widePage.Named ∧
      ∃ first last changed, widePage.row? 0 = some first ∧ widePage.row? 65536 = some last ∧
        first.values ≠ last.values ∧ first.record = last.record ∧
        widePage.delete last = .ok changed ∧ changed.row? 0 = none ∧
        changed.row? 65536 = some last := by
  have first : widePage.row? 0 = some (wideRow 7 0) := row_widePage 0
  have last : widePage.row? 65536 = some (wideRow 8 65536) := row_widePage 65536
  have used : (widePage.row? (65536 % 65536)).isSome := by
    rw [Nat.mod_self, first]
    rfl
  obtain ⟨changed, deleted, replaces⟩ := delete_stored formed_widePage last used
  rw [Nat.mod_self] at replaces
  refine ⟨reachable_widePage, ?_, _, _, changed, first, last, by decide, ?_, deleted, ?_, ?_⟩
  · intro named
    exact absurd (low_of_named formed_widePage named 65536 _ last) (by decide)
  · exact (record_eq_iff formed_widePage first last).mpr (by decide)
  · rw [replaces.row_eq, Function.update_self]
  · rw [replaces.row_eq, Function.update_of_ne (by decide), last]

def usualPage : Page :=
  [.insert ⟨numbers, [.integer 1], rfl, none⟩, .insert ⟨numbers, [.integer 2], rfl, none⟩,
    .delete (wideRow 1 0), .insert ⟨numbers, [.integer 3], rfl, none⟩].foldl edited
      (empty wideId numbers 4096)

theorem records_name_low_slots_of_usual_page :
    usualPage.Reachable ∧ usualPage.Named ∧
      usualPage.rows.map Row.values = [[.integer 3], [.integer 2]] := by
  have reachable : usualPage.Reachable := ⟨_, _, .empty .., rfl⟩
  refine ⟨reachable, (records_name_low_slots reachable).2.1 (by decide +kernel), by decide +kernel⟩

end Page

end PagedStore
