import Mathlib.Data.List.Basic
import PagedStore.Proofs.Page.Formed

/-!
Writing a page and reading it back. A well-formed page comes back clean, with its rows in the same
slots under the same records and with every text cut to what its field keeps. In the other direction,
an image that can be read is written again as its normal form, which differs from it only in bytes
that reading does not look at.
-/

namespace PagedStore

/-- The row that comes back from a page of the schema. -/
def Row.reread? (schema : Schema) (row : Row) : Option Row :=
  (ofValues? schema (row.values.map Value.kept)).map fun read => read.stamped row.record

/-- The field of a value with the bytes that reading does not look at set to zero. -/
def Value.cleared : ValueType → Bytes → Bytes
  | .integer, field => field
  | .text, field =>
      Bytes.padded ValueType.text.width (field.take (4 + Bytes.toNatLE (field.take 4)))

def Row.cleared : List ValueType → Bytes → Bytes
  | [], _ => []
  | type :: types, data =>
      Value.cleared type (data.take type.width) ++ cleared types (data.drop type.width)

namespace Page

def reread (page : Page) : Page :=
  { page with
    slots := page.slots.map fun row => row.bind (Row.reread? page.schema)
    dirtiedBy := none }

def clearedSlot (schema : Schema) : Bool × Bytes → Bytes
  | (true, data) => Row.cleared schema.types data
  | (false, _) => Bytes.zeros schema.width

/-- The image with the usage bits as they are and every byte that reading does not look at set to
zero: the free slots, what follows the bytes of a text, and what follows the last slot. -/
def normalImage (schema : Schema) (image : Bytes) : Bytes :=
  Bytes.resized image.length
    (image.take (Geometry.headerWidth (imageSlots schema image)) ++
      (imageFields schema image).flatMap (clearedSlot schema))

end Page

theorem Schema.width_eq_of_agrees {a b : Schema} (agrees : a.agrees b) : a.width = b.width := by
  rw [width_eq_sum_types, width_eq_sum_types, (agrees_iff a b).mp agrees]

theorem Row.length_encode_of_agrees {row : Row} {schema : Schema} (agrees : row.schema.agrees schema)
    (typed : row.WellTyped) : row.encode.length = schema.width :=
  (Row.length_encode typed).trans (Schema.width_eq_of_agrees agrees)

theorem Row.decode_encode_under {row : Row} {schema : Schema} (agrees : row.schema.agrees schema)
    (typed : row.WellTyped) :
    ∃ read, Row.decode? schema row.encode = some read ∧
      read.values = row.values.map Value.kept ∧ row.reread? schema = some (read.stamped row.record) := by
  have types := (Schema.agrees_iff row.schema schema).mp agrees
  have decoded := Row.decodeValues_encode row.values []
  rw [List.append_nil, typed, types] at decoded
  have arity : (row.values.map Value.kept).length = schema.arity := by
    have lengths := congrArg List.length types
    rw [Schema.length_types, Schema.length_types] at lengths
    rw [List.length_map, row.arity_eq, lengths]
  refine ⟨⟨schema, row.values.map Value.kept, arity, none⟩, ?_, rfl, ?_⟩
  · exact Row.decode_eq_some_iff.mpr ⟨decoded, rfl, rfl⟩
  · rw [Row.reread?, Row.ofValues?, dif_pos arity]
    rfl

namespace Page

theorem length_encodeSlot {page : Page} (formed : page.Formed) {row : Option Row}
    (member : row ∈ page.slots) : (encodeSlot page.schema.width row).length = page.schema.width := by
  cases row with
  | none => exact List.length_replicate
  | some row =>
    rcases exists_slot_of_mem member with ⟨slot, stored⟩
    have held := formed.holds slot row stored
    exact Row.length_encode_of_agrees held.agrees held.typed

theorem length_encode (page : Page) : page.encode.length = page.size :=
  Bytes.length_resized _ _

/-- Nothing is cut off: the usage bits and the slots are followed by zeros. -/
theorem encode_eq_append {page : Page} (formed : page.Formed) :
    ∃ padding, page.encode = Bitmap.toBytes (Geometry.headerWidth page.slotCount) page.bits ++
      (page.slots.flatMap (encodeSlot page.schema.width) ++ padding) := by
  have body : (page.slots.flatMap (encodeSlot page.schema.width)).length =
      page.slotCount * page.schema.width := by
    rw [List.length_flatMap, List.map_congr_left fun row member => length_encodeSlot formed member,
      List.map_const', List.sum_replicate_nat]
    rfl
  have room := Geometry.usedBytes_slotCount_le page.size page.schema.width
  rw [← formed.slotCount_eq, Geometry.usedBytes] at room
  rw [encode, Bytes.resized_of_le, List.append_assoc]
  · exact ⟨_, rfl⟩
  · rw [List.length_append, Bitmap.length_toBytes, body]
    exact room

theorem imageSlots_encode {page : Page} (formed : page.Formed) :
    imageSlots page.schema page.encode = page.slotCount := by
  rw [imageSlots, length_encode, formed.slotCount_eq]

theorem imageBits_encode {page : Page} (formed : page.Formed) :
    imageBits page.schema page.encode = page.bits := by
  rcases encode_eq_append formed with ⟨padding, split⟩
  rw [imageBits, imageSlots_encode formed, split, List.take_left' (Bitmap.length_toBytes _ _)]
  exact Bitmap.ofBytes_toBytes formed.length_bits

theorem slice_imageBody_encode {page : Page} (formed : page.Formed) {slot : Nat}
    (inside : slot < page.slotCount) :
    Bytes.slice (imageBody page.schema page.encode) (slot * page.schema.width) page.schema.width =
      encodeSlot page.schema.width (page.row? slot) := by
  rcases encode_eq_append formed with ⟨padding, split⟩
  rw [imageBody, imageSlots_encode formed, split, List.drop_left' (Bitmap.length_toBytes _ _),
    ← getElem_slots page inside]
  exact Bytes.slice_flatMap _ _ _ _ (fun row member => length_encodeSlot formed member) inside

theorem row_reread (page : Page) (slot : Nat) :
    page.reread.row? slot = (page.row? slot).bind (Row.reread? page.schema) := by
  rw [row?, row?, reread, List.getElem?_map]
  cases page.slots[slot]? <;> rfl

theorem slotCount_reread (page : Page) : page.reread.slotCount = page.slotCount :=
  List.length_map ..

theorem readSlot_encode {page : Page} (formed : page.Formed) {slot : Nat}
    (inside : slot < page.slotCount) :
    readSlot page.id page.schema page.encode slot = .ok (page.reread.row? slot) := by
  rw [readSlot, imageBits_encode formed, slice_imageBody_encode formed inside,
    bit_eq formed inside, row_reread]
  apply decodeSlot_eq_ok_iff.mpr
  cases stored : page.row? slot with
  | none => exact Or.inl ⟨rfl, rfl⟩
  | some row =>
    have held := formed.holds slot row stored
    rcases Row.decode_encode_under held.agrees held.typed with ⟨read, decoded, -, back⟩
    refine Or.inr ⟨rfl, read, decoded, ?_⟩
    rw [Option.bind_some, back, held.record_eq]

theorem decode_encode {page : Page} (formed : page.Formed) :
    decode page.id page.schema page.encode = .ok page.reread := by
  refine decode_eq_ok_iff.mpr ⟨?_, rfl, rfl, (length_encode page).symm, ?_, rfl⟩
  · rw [imageSlots_encode formed]
    apply List.ext_getElem
    · rw [List.length_map, List.length_map, List.length_range]
      exact (slotCount_reread page).symm
    · intro slot inRange inSlots
      have inside : slot < page.slotCount := by simpa using inRange
      rw [List.getElem_map, List.getElem_map, List.getElem_range, readSlot_encode formed inside,
        getElem_slots page.reread]
  · exact (imageBits_encode formed).symm

/-- What reading changes in a stored row: the values are those that a page keeps. -/
theorem reread_of_holds {page : Page} {slot : Nat} {row : Row} (held : page.Holds slot row) :
    ∃ read, row.reread? page.schema = some read ∧ read.values = row.values.map Value.kept ∧
      read.record = row.record := by
  rcases Row.decode_encode_under held.agrees held.typed with ⟨read, -, values, back⟩
  exact ⟨read.stamped row.record, back, values, rfl⟩

theorem isUsed_reread (page : Page) (slot : Nat) : page.reread.isUsed slot = page.isUsed slot := by
  rw [isUsed, isUsed, usage, usage, slotCount_reread]
  rfl

theorem values_reread {page : Page} (formed : page.Formed) (slot : Nat) :
    (page.reread.row? slot).map Row.values =
      (page.row? slot).map fun row => row.values.map Value.kept := by
  rw [row_reread]
  cases stored : page.row? slot with
  | none => rfl
  | some row =>
    rcases reread_of_holds (formed.holds slot row stored) with ⟨read, back, values, -⟩
    rw [Option.bind_some, back, Option.map_some, Option.map_some, values]

theorem record_reread {page : Page} (formed : page.Formed) (slot : Nat) :
    (page.reread.row? slot).map Row.record = (page.row? slot).map Row.record := by
  rw [row_reread]
  cases stored : page.row? slot with
  | none => rfl
  | some row =>
    rcases reread_of_holds (formed.holds slot row stored) with ⟨read, back, -, record⟩
    rw [Option.bind_some, back, Option.map_some, Option.map_some, record]

theorem encodeSlot_reread {page : Page} (formed : page.Formed) (width : Nat) {row : Option Row}
    (member : row ∈ page.slots) :
    encodeSlot width (row.bind (Row.reread? page.schema)) = encodeSlot width row := by
  cases row with
  | none => rfl
  | some row =>
    rcases exists_slot_of_mem member with ⟨slot, stored⟩
    rcases reread_of_holds (formed.holds slot row stored) with ⟨read, back, values, -⟩
    rw [Option.bind_some, back, encodeSlot, encodeSlot, Row.encode, Row.encode, values,
      List.flatMap_map, funext Value.encode_kept]

theorem encode_reread {page : Page} (formed : page.Formed) :
    page.reread.encode = page.encode := by
  have slots : page.reread.slots.flatMap (encodeSlot page.schema.width) =
      page.slots.flatMap (encodeSlot page.schema.width) := by
    rw [reread, List.flatMap_map]
    exact List.flatMap_congr fun row member => encodeSlot_reread formed _ member
  rw [encode, encode, slotCount_reread]
  exact congrArg _ (congrArg _ slots)

end Page

theorem Value.encode_of_decode {type : ValueType} {data : Bytes} {value : Value}
    (decoded : Value.decode? type data = some value) :
    value.encode = Value.cleared type (data.take type.width) := by
  unfold Value.decode? at decoded
  split at decoded
  · contradiction
  · next long =>
    cases type with
    | integer =>
      obtain rfl := Option.some.inj decoded
      have four : (data.take 4).length = 4 := by
        have long : ¬ data.length < 4 := long
        rw [List.length_take]
        omega
      have bound := Bytes.toNatLE_lt (data.take 4)
      have digits := Bytes.ofNatLE_toNatLE (data.take 4)
      rw [four] at bound digits
      have whole : (UInt32.ofNat (Bytes.toNatLE (data.take 4))).toNat =
          Bytes.toNatLE (data.take 4) := by
        rw [UInt32.toNat_ofNat']
        exact Nat.mod_eq_of_lt bound
      rw [Value.encode, Value.cleared, UInt32.toUInt32_toInt32, whole]
      exact digits
    | text =>
      rcases Option.map_eq_some_iff.mp decoded with ⟨content, read, rfl⟩
      rcases Value.decodeText_eq_some read with ⟨fits, bytes⟩
      have long : ¬ data.length < 4 + Limits.textBytes := long
      have four : (data.take 4).length = 4 := by
        rw [List.length_take]
        omega
      have size : (Text.encode content).length = Bytes.toNatLE (data.take 4) := by
        rw [bytes, Bytes.slice, List.length_take, List.length_drop]
        omega
      have digits := Bytes.ofNatLE_toNatLE (data.take 4)
      rw [four] at digits
      have field : (data.take ValueType.text.width).take 4 = data.take 4 := by
        rw [List.take_take, ValueType.width, Nat.min_eq_left (Nat.le_add_right _ _)]
      have front : (data.take ValueType.text.width).take (4 + Bytes.toNatLE (data.take 4)) =
          data.take 4 ++ Bytes.slice data 4 (Bytes.toNatLE (data.take 4)) := by
        rw [List.take_take, ValueType.width, Nat.min_eq_left (by omega), List.take_add]
        rfl
      rw [Value.encode, Text.cut_eq_self (by omega), Value.encodeText, size, digits, Value.cleared,
        field, front, ← bytes, Bytes.padded, Bytes.padded, List.length_append, four, size,
        List.append_assoc, ValueType.width, Nat.add_sub_add_left]

theorem Row.flatMap_encode_of_decodeValues {types : List ValueType} {data : Bytes}
    {values : List Value} (decoded : Row.decodeValues? types data = some values) :
    values.flatMap Value.encode = Row.cleared types data := by
  induction types generalizing data values with
  | nil =>
    obtain rfl := Option.some.inj decoded
    rfl
  | cons type types ih =>
    simp only [Row.decodeValues?, Option.bind_eq_bind, Option.bind_eq_some_iff, Option.pure_def,
      Option.some.injEq] at decoded
    rcases decoded with ⟨value, first, rest, restDecoded, rfl⟩
    rw [List.flatMap_cons, Row.cleared, Value.encode_of_decode first, ih restDecoded]

theorem Row.reread_eq_self {row : Row} (kept : row.values.map Value.kept = row.values) :
    row.reread? row.schema = some row := by
  rw [Row.reread?, kept, Row.ofValues?, dif_pos row.arity_eq]
  rfl

namespace Page

theorem encodeSlot_of_decodeSlot {id : PageId} {schema : Schema} {slot : Nat} {used : Bool}
    {data : Bytes} {row : Option Row} (read : decodeSlot id schema slot used data = .ok row) :
    encodeSlot schema.width row = clearedSlot schema (used, data) := by
  rcases decodeSlot_eq_ok_iff.mp read with ⟨rfl, rfl⟩ | ⟨rfl, plain, decoded, rfl⟩
  · rfl
  · exact Row.flatMap_encode_of_decodeValues (Row.decode_eq_some_iff.mp decoded).1

theorem map_encodeSlot_of_decode {id : PageId} {schema : Schema} {image : Bytes} {page : Page}
    (decoded : decode id schema image = .ok page) :
    page.slots.map (encodeSlot schema.width) = (imageFields schema image).map (clearedSlot schema) := by
  have enough := imageSlots_le_length_imageBits schema image
  have count := slotCount_of_decode decoded
  apply List.ext_getElem
  · rw [imageFields, Bytes.records_eq_slices]
    simp only [List.length_map, List.length_zip, List.length_take, List.length_range]
    rw [← slotCount, count]
    omega
  · intro slot inSlots inFields
    rw [List.length_map] at inSlots
    have inBits : slot < (imageBits schema image).length := by
      rw [← slotCount, count] at inSlots
      omega
    have read := readSlot_of_decode decoded inSlots
    rw [readSlot] at read
    have written := encodeSlot_of_decodeSlot read
    rw [List.getElem_map, getElem_slots, written]
    simp [imageFields, Bytes.records_eq_slices, inBits]

theorem encode_of_decode {id : PageId} {schema : Schema} {image : Bytes} {page : Page}
    (decoded : decode id schema image = .ok page) : page.encode = normalImage schema image := by
  rcases decode_eq_ok_iff.mp decoded with ⟨-, -, schemaEq, sizeEq, bitsEq, -⟩
  have bits := Bitmap.toBytes_ofBytes (image.take (Geometry.headerWidth (imageSlots schema image)))
  rw [length_take_headerWidth, ← imageBits] at bits
  rw [encode, slotCount_of_decode decoded, schemaEq, sizeEq, bitsEq, normalImage, List.flatMap_def,
    List.flatMap_def, map_encodeSlot_of_decode decoded, bits]

/-- A clean page comes back as it is if each of its rows does. -/
theorem reread_eq_self {page : Page} (clean : page.dirtiedBy = none)
    (back : ∀ slot row, page.row? slot = some row → row.reread? page.schema = some row) :
    page.reread = page := by
  have slots : page.slots.map (fun row => row.bind (Row.reread? page.schema)) =
      page.slots.map (fun row => row) := by
    apply List.map_congr_left
    intro row member
    cases row with
    | none => rfl
    | some row =>
      rcases exists_slot_of_mem member with ⟨slot, stored⟩
      exact back slot row stored
  rw [reread, slots, List.map_id', ← clean]

theorem reread_of_decode {id : PageId} {schema : Schema} {image : Bytes} {page : Page}
    (decoded : decode id schema image = .ok page) : page.reread = page := by
  rcases decode_eq_ok_iff.mp decoded with ⟨-, -, schemaEq, -, -, clean⟩
  apply reread_eq_self clean
  intro slot row stored
  have read := readSlot_of_decode decoded (lt_slotCount_of_row stored)
  rw [stored, readSlot] at read
  rcases decodeSlot_eq_ok_iff.mp read with ⟨-, isNone⟩ | ⟨-, plain, rowDecoded, isSome⟩
  · contradiction
  · obtain rfl := Option.some.inj isSome
    rcases Row.decode_eq_some_iff.mp rowDecoded with ⟨values, sameSchema, -⟩
    have under : page.schema = plain.schema := by rw [schemaEq, sameSchema]
    rw [under]
    exact Row.reread_eq_self (Row.kept_of_decodeValues values)

theorem decode_normalImage {id : PageId} {schema : Schema} {image : Bytes} {page : Page}
    (decoded : decode id schema image = .ok page) :
    decode id schema (normalImage schema image) = .ok page := by
  rcases decode_eq_ok_iff.mp decoded with ⟨-, idEq, schemaEq, -⟩
  have again := decode_encode (formed_decode decoded)
  rw [encode_of_decode decoded, reread_of_decode decoded, idEq, schemaEq] at again
  exact again

/-- The format round-trips both ways. A page that came from nothing or from an image, and was then
changed in any way, is written at its own size and read back clean, with every row in its slot under
its record and its texts cut to what a field keeps; writing what was read gives the same image. An
image that can be read is written as its normal form, which is read as the same page. -/
theorem image_round_trip :
    (∀ page : Page, page.Reachable →
      page.encode.length = page.size ∧
      ∃ again, decode page.id page.schema page.encode = .ok again ∧
        again.id = page.id ∧ again.schema = page.schema ∧ again.size = page.size ∧
        again.isDirty = false ∧ again.slotCount = page.slotCount ∧
        (∀ slot, again.isUsed slot = page.isUsed slot) ∧
        (∀ slot, (again.row? slot).map Row.record = (page.row? slot).map Row.record) ∧
        (∀ slot, (again.row? slot).map Row.values =
          (page.row? slot).map fun row => row.values.map Value.kept) ∧
        again.encode = page.encode) ∧
    ∀ (id : PageId) (schema : Schema) (image : Bytes) (page : Page),
      decode id schema image = .ok page →
        page.encode = normalImage schema image ∧
        decode id schema (normalImage schema image) = .ok page := by
  constructor
  · intro page reachable
    have formed := formed_of_reachable reachable
    refine ⟨length_encode page, page.reread, decode_encode formed, rfl, rfl, rfl, rfl,
      slotCount_reread page, isUsed_reread page, record_reread formed, values_reread formed, ?_⟩
    exact encode_reread formed
  · intro id schema image page decoded
    exact ⟨encode_of_decode decoded, decode_normalImage decoded⟩

/-- A text of 129 bytes whose last character takes two of them comes back without this character. The
bytes that reading ignores are cleared, and stray usage bits stay. -/
theorem image_round_trip_of_straddling_text :
    let texts := Schema.single (.unnamed .text)
    let long := String.ofList (List.replicate 127 'x' ++ ['é'])
    let page := (empty ⟨.file 0, 0⟩ texts 140).edited (.insert ⟨texts, [.text long], rfl, none⟩)
    let numbers := Schema.single (.unnamed .integer)
    let image : Bytes := [0x83, 1, 0, 0, 0, 9, 9, 9]
    let row : Row := ⟨numbers, [.integer 1], rfl, some ⟨⟨.file 0, 0⟩, 0⟩⟩
    let bits := [true, true, false, false, false, false, false, true]
    let read : Page := ⟨⟨.file 0, 0⟩, numbers, 8, bits, [some row], none⟩
    (page.Reachable ∧ ∃ again, decode page.id page.schema page.encode = .ok again ∧
      (again.row? 0).map Row.values =
        some [.text (String.ofList (List.replicate 127 'x'))]) ∧
    decode ⟨.file 0, 0⟩ numbers image = .ok read ∧
      read.encode = [0x83, 1, 0, 0, 0, 0, 0, 0] := by
  intro texts long page numbers image row bits read
  have reachable : page.Reachable := ⟨_, [.insert _], .empty _ _ _, rfl⟩
  have decoded : decode ⟨.file 0, 0⟩ numbers image = .ok read := by decide +kernel
  rcases (image_round_trip.1 page reachable).2 with ⟨again, same, -, -, -, -, -, -, -, values, -⟩
  have written := (image_round_trip.2 _ _ _ _ decoded).1
  refine ⟨⟨reachable, again, same, ?_⟩, decoded, ?_⟩
  · rw [values 0]
    decide +kernel
  · rw [written]
    decide +kernel

end Page

end PagedStore
