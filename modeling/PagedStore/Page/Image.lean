import PagedStore.Page.Basic
import PagedStore.Page.Bitmap
import PagedStore.Row.Codec

/-!
The image of a page on disk: the usage bits, the slots one after the other, and zeros to the end. A
free slot is written as zeros and not looked at when reading. Main statement: reading succeeds exactly
when every used slot holds a row of the schema, and then gives those rows in their slots.
-/

namespace PagedStore.Page

def encodeSlot (width : Nat) : Option Row → Bytes
  | some row => row.encode
  | none => Bytes.zeros width

def encode (page : Page) : Bytes :=
  let header := Bitmap.toBytes (Geometry.headerWidth page.slotCount) page.bits
  Bytes.resized page.size (header ++ page.slots.flatMap (encodeSlot page.schema.width))

def decodeSlot (id : PageId) (schema : Schema) (slot : Nat) (used : Bool) (data : Bytes) :
    Except Error (Option Row) :=
  if used then
    match Row.decode? schema data with
    | some row => .ok (some (row.stamped (RecordId.ofSlot id slot)))
    | none => .error (.corruptedPage id slot schema)
  else .ok none

def imageSlots (schema : Schema) (image : Bytes) : Nat :=
  Geometry.slotCount image.length schema.width

/-- The usage bits at the head of an image. -/
def imageBits (schema : Schema) (image : Bytes) : List Bool :=
  Bitmap.ofBytes (image.take (Geometry.headerWidth (imageSlots schema image)))

def imageBody (schema : Schema) (image : Bytes) : Bytes :=
  image.drop (Geometry.headerWidth (imageSlots schema image))

def imageFields (schema : Schema) (image : Bytes) : List (Bool × Bytes) :=
  let count := imageSlots schema image
  ((imageBits schema image).take count).zip
    (Bytes.records count schema.width (imageBody schema image))

/-- Reads a page from its image, whose length is the size of the page. The first used slot that
holds no row of the schema makes the page corrupted. -/
def decode (id : PageId) (schema : Schema) (image : Bytes) : Except Error Page := do
  let slots ← (imageFields schema image).zipIdx.mapM fun ((used, data), slot) =>
    decodeSlot id schema slot used data
  pure { id, schema, size := image.length, bits := imageBits schema image, slots, dirtiedBy := none }

def readSlot (id : PageId) (schema : Schema) (image : Bytes) (slot : Nat) :
    Except Error (Option Row) :=
  decodeSlot id schema slot ((imageBits schema image)[slot]?.getD false)
    (Bytes.slice (imageBody schema image) (slot * schema.width) schema.width)

theorem headerWidth_le_length (schema : Schema) (image : Bytes) :
    Geometry.headerWidth (imageSlots schema image) ≤ image.length :=
  Nat.le_trans (Nat.le_add_right ..) (Geometry.usedBytes_slotCount_le image.length schema.width)

/-- The header is all there. -/
theorem length_take_headerWidth (schema : Schema) (image : Bytes) :
    (image.take (Geometry.headerWidth (imageSlots schema image))).length =
      Geometry.headerWidth (imageSlots schema image) := by
  rw [List.length_take, Nat.min_eq_left (headerWidth_le_length schema image)]

theorem length_imageBits (schema : Schema) (image : Bytes) :
    (imageBits schema image).length = 8 * Geometry.headerWidth (imageSlots schema image) := by
  rw [imageBits, Bitmap.length_ofBytes, length_take_headerWidth]

theorem imageSlots_le_length_imageBits (schema : Schema) (image : Bytes) :
    imageSlots schema image ≤ (imageBits schema image).length := by
  rw [length_imageBits, Geometry.headerWidth]
  omega

theorem map_decodeSlot_imageFields (id : PageId) (schema : Schema) (image : Bytes) :
    (imageFields schema image).zipIdx.map
        (fun ((used, data), slot) => decodeSlot id schema slot used data) =
      (List.range (imageSlots schema image)).map (readSlot id schema image) := by
  have enough := imageSlots_le_length_imageBits schema image
  rw [imageFields, Bytes.records_eq_slices]
  apply List.ext_getElem
  · simp only [List.length_map, List.length_zipIdx, List.length_zip, List.length_take,
      List.length_range]
    omega
  · intro slot _ inRange
    simp only [List.length_map, List.length_range] at inRange
    have inBits : slot < (imageBits schema image).length := by omega
    simp [readSlot, inBits]

theorem decode_eq_ok_iff {id : PageId} {schema : Schema} {image : Bytes} {page : Page} :
    decode id schema image = .ok page ↔
      (List.range (imageSlots schema image)).map (readSlot id schema image) =
          page.slots.map .ok ∧
        page.id = id ∧ page.schema = schema ∧ page.size = image.length ∧
        page.bits = imageBits schema image ∧ page.dirtiedBy = none := by
  rw [← map_decodeSlot_imageFields, ← Error.mapM_eq_ok_iff, decode]
  constructor
  · intro decoded
    match slotsEq : (imageFields schema image).zipIdx.mapM
        (fun ((used, data), slot) => decodeSlot id schema slot used data) with
    | .error cause => simp [slotsEq, bind, Except.bind] at decoded
    | .ok slots =>
      simp only [slotsEq, bind, Except.bind, pure, Except.pure, Except.ok.injEq] at decoded
      subst decoded
      exact ⟨rfl, rfl, rfl, rfl, rfl, rfl⟩
  · rintro ⟨slotsEq, rfl, rfl, sizeEq, bitsEq, clean⟩
    rw [slotsEq, ← sizeEq, ← bitsEq, ← clean]
    rfl

theorem decodeSlot_eq_ok_iff {id : PageId} {schema : Schema} {slot : Nat} {used : Bool}
    {data : Bytes} {row : Option Row} :
    decodeSlot id schema slot used data = .ok row ↔
      (used = false ∧ row = none) ∨
        (used = true ∧ ∃ read, Row.decode? schema data = some read ∧
          row = some (read.stamped (RecordId.ofSlot id slot))) := by
  cases used with
  | false => simp [decodeSlot, eq_comm]
  | true =>
    cases decoded : Row.decode? schema data with
    | none => simp [decodeSlot, decoded]
    | some read => simp [decodeSlot, decoded, eq_comm]

theorem decodeSlot_eq_error_iff {id : PageId} {schema : Schema} {slot : Nat} {used : Bool}
    {data : Bytes} {cause : Error} :
    decodeSlot id schema slot used data = .error cause ↔
      used = true ∧ Row.decode? schema data = none ∧ cause = .corruptedPage id slot schema := by
  cases used with
  | false => simp [decodeSlot]
  | true => cases decoded : Row.decode? schema data <;> simp [decodeSlot, decoded, eq_comm]

theorem slotCount_of_decode {id : PageId} {schema : Schema} {image : Bytes} {page : Page}
    (decoded : decode id schema image = .ok page) :
    page.slotCount = imageSlots schema image := by
  have lengths := congrArg List.length (decode_eq_ok_iff.mp decoded).1
  simpa [slotCount] using lengths.symm

theorem readSlot_of_decode {id : PageId} {schema : Schema} {image : Bytes} {page : Page}
    (decoded : decode id schema image = .ok page) {slot : Nat} (inside : slot < page.slotCount) :
    readSlot id schema image slot = .ok (page.row? slot) := by
  have inImage : slot < imageSlots schema image := by rwa [← slotCount_of_decode decoded]
  have inSlots : slot < page.slots.length := inside
  have entries := congrArg (·[slot]?) (decode_eq_ok_iff.mp decoded).1
  simpa [row?, inImage, inSlots] using entries

end PagedStore.Page
