import Mathlib.Data.Nat.Find
import Mathlib.Order.Bounds.Basic
import PagedStore.Proofs.Row.FixedWidth

/-!
The geometry of a page always fits. The number of slots is computed in bits and rounded down, the usage
bits are laid out in whole bytes and rounded up; still the layout fits the page, and it would not with
one slot more. So an image is read without asking for a byte that it does not have, however short or
damaged it is. To say this, reading is stated once more with every access checked against the length of
the data, where an access outside breaks the contract; both readings agree on every image. What is left
to go wrong are the used slots that hold no row, and the first of them is the one that is reported.
-/

namespace PagedStore

namespace Geometry

/-- The usage bits take as few whole bytes as have a bit for each slot. -/
theorem isLeast_headerWidth (slots : Nat) :
    IsLeast { bytes | slots ≤ 8 * bytes } (headerWidth slots) :=
  ⟨(headerWidth_le_iff slots _).mp (Nat.le_refl _), fun bytes => (headerWidth_le_iff slots bytes).mpr⟩

theorem isGreatest_slotCount (pageSize rowWidth : Nat) :
    IsGreatest { slots | usedBytes slots rowWidth ≤ pageSize } (slotCount pageSize rowWidth) :=
  ⟨usedBytes_slotCount_le pageSize rowWidth, fun slots => (usedBytes_le_iff slots ..).mp⟩

/-- For its bit a ninth slot takes a whole byte, which is more than is left. -/
example : slotCount 37 4 = 8 ∧ usedBytes 8 4 = 33 ∧ usedBytes 9 4 = 38 := by decide

end Geometry

namespace Bytes

/-- The byte at a place, which the data must have. -/
def strictGet (data : Bytes) (place : Nat) : Except Fault UInt8 :=
  match data[place]? with
  | some byte => .ok byte
  | none => .error .brokenContract

def strictSlice (data : Bytes) (start stop : Nat) : Except Fault Bytes :=
  if start ≤ stop ∧ stop ≤ data.length then .ok (slice data start (stop - start))
  else .error .brokenContract

variable {data : Bytes} {place start count : Nat}

theorem strictGet_of_lt (inside : place < data.length) : data.strictGet place = .ok data[place] := by
  rw [strictGet, List.getElem?_eq_getElem inside]

theorem strictSlice_of_le (inside : start + count ≤ data.length) :
    data.strictSlice start (start + count) = .ok (slice data start count) := by
  rw [strictSlice, if_pos ⟨Nat.le_add_right start count, inside⟩, Nat.add_sub_cancel_left]

theorem mapM_strictGet_first_four (enough : 4 ≤ data.length) :
    [0, 1, 2, 3].mapM data.strictGet = .ok (data.take 4) := by
  match data, enough with
  | _ :: _ :: _ :: _ :: _, _ => rfl

end Bytes

namespace Value

def strictDecode (type : ValueType) (data : Bytes) : Except Fault (Option Value) :=
  if data.length < type.width then pure none
  else do
    let head ← [0, 1, 2, 3].mapM data.strictGet
    match type with
    | .integer => pure (some (integer (UInt32.ofNat (Bytes.toNatLE head)).toInt32))
    | .text =>
        if Limits.textBytes < Bytes.toNatLE head then pure none
        else do
          let content ← data.strictSlice 4 (4 + Bytes.toNatLE head)
          pure ((Text.decode? content).map text)

theorem strictDecode_eq (type : ValueType) (data : Bytes) :
    strictDecode type data = .ok (decode? type data) := by
  unfold strictDecode decode?
  by_cases short : data.length < type.width
  · rw [if_pos short, if_pos short]
    rfl
  · have four : 4 ≤ type.width := by cases type <;> decide
    rw [if_neg short, if_neg short, Bytes.mapM_strictGet_first_four (by omega)]
    cases type with
    | integer => rfl
    | text =>
      have field : 4 + Limits.textBytes ≤ data.length := Nat.le_of_not_lt short
      by_cases fits : Bytes.toNatLE (data.take 4) ≤ Limits.textBytes
      · simp only [decodeText?, if_pos fits, bind, Except.bind, if_neg (Nat.not_lt_of_le fits),
          Bytes.strictSlice_of_le (show 4 + Bytes.toNatLE (data.take 4) ≤ data.length by omega)]
        rfl
      · simp only [decodeText?, if_neg fits, bind, Except.bind, if_pos (Nat.lt_of_not_le fits)]
        rfl

end Value

namespace Row

def strictDecodeValues (data : Bytes) : List ValueType → Nat → Except Fault (Option (List Value))
  | [], _ => pure (some [])
  | type :: types, start => do
      if data.length < start then return none
      let some value ← Value.strictDecode type (data.drop start) | return none
      let some values ← strictDecodeValues data types (start + type.width) | return none
      return some (value :: values)

def strictDecode (schema : Schema) (data : Bytes) : Except Fault (Option Row) := do
  let some values ← strictDecodeValues data schema.types 0 | return none
  return ofValues? schema values

theorem strictDecodeValues_eq (data : Bytes) (types : List ValueType) (start : Nat) :
    strictDecodeValues data types start = .ok (decodeValues? types (data.drop start)) := by
  induction types generalizing start with
  | nil => rfl
  | cons type types ih =>
    rw [strictDecodeValues, decodeValues?, Value.strictDecode_eq, ih, List.drop_drop]
    by_cases past : data.length < start
    · -- nothing is left behind the end, which is too short for a value of any type
      have positive : 0 < type.width := by cases type <;> decide
      have nothing : Value.decode? type (data.drop start) = none := by
        have short : (data.drop start).length < type.width := by
          rw [List.length_drop]
          omega
        exact if_pos short
      rw [if_pos past, nothing]
      rfl
    · rw [if_neg past]
      cases Value.decode? type (data.drop start) with
      | none => rfl
      | some value => cases decodeValues? types (data.drop (start + type.width)) <;> rfl

theorem strictDecode_eq (schema : Schema) (data : Bytes) :
    strictDecode schema data = .ok (decode? schema data) := by
  rw [strictDecode, decode?, strictDecodeValues_eq, List.drop_zero]
  cases decodeValues? schema.types data <;> rfl

/-- Bytes that are as wide as the schema hold no row exactly when some column of them cannot be read. -/
theorem decode_eq_none_iff {schema : Schema} {data : Bytes} (enough : schema.width ≤ data.length) :
    decode? schema data = none ↔ ¬Legible schema.types data := by
  have readable : (∃ row, decode? schema data = some row) ↔ Legible schema.types data :=
    exists_decode_iff.trans (and_iff_right enough)
  rw [← readable]
  cases decode? schema data <;> simp

end Row

def Bitmap.strictBit (bitmap : Bytes) (index : Nat) : Except Fault Bool := do
  let byte ← bitmap.strictGet (index / 8)
  return byte.toNat.testBit (index % 8)

theorem Bitmap.strictBit_of_lt {bitmap : Bytes} {index : Nat} (inside : index / 8 < bitmap.length) :
    strictBit bitmap index = .ok ((ofBytes bitmap)[index]?.getD false) := by
  rw [strictBit, Bytes.strictGet_of_lt inside, getElem?_ofBytes, List.getElem?_eq_getElem inside]
  rfl

namespace Page

def imageHeader (schema : Schema) (image : Bytes) : Bytes :=
  image.take (Geometry.headerWidth (imageSlots schema image))

def slotStart (schema : Schema) (image : Bytes) (slot : Nat) : Nat :=
  Geometry.headerWidth (imageSlots schema image) + slot * schema.width

def strictReadSlot (id : PageId) (schema : Schema) (image header : Bytes) (slot : Nat) :
    Except Fault (Option Row) := do
  if ← Bitmap.strictBit header slot then
    let start := slotStart schema image slot
    let data ← image.strictSlice start (start + schema.width)
    let some row ← Row.strictDecode schema data | throw (.error (.corruptedPage id slot schema))
    return some (row.stamped (RecordId.ofSlot id slot))
  else return none

/-- Reads a page like `decode`, from an image that must have every byte that is asked for. -/
def strictDecode (id : PageId) (schema : Schema) (image : Bytes) : Except Fault Page := do
  let count := imageSlots schema image
  let header ← image.strictSlice 0 (Geometry.headerWidth count)
  let slots ← (List.range count).mapM (strictReadSlot id schema image header)
  return { id, schema, size := image.length, bits := Bitmap.ofBytes header, slots, dirtiedBy := none }

structure Corrupts (schema : Schema) (image : Bytes) (slot : Nat) : Prop where
  inside : slot < imageSlots schema image
  marked : ∃ byte, image[slot / 8]? = some byte ∧ byte.toNat.testBit (slot % 8)
  illegible : ¬Row.Legible schema.types
    (Bytes.slice image (slotStart schema image slot) schema.width)

variable {id : PageId} {schema : Schema} {image : Bytes} {slot : Nat} {cause : Error}

theorem div_lt_headerWidth (inside : slot < imageSlots schema image) :
    slot / 8 < Geometry.headerWidth (imageSlots schema image) := by
  rw [Geometry.headerWidth]
  omega

theorem slot_end_le_length (inside : slot < imageSlots schema image) :
    slotStart schema image slot + schema.width ≤ image.length := by
  have room := Geometry.usedBytes_slotCount_le image.length schema.width
  have whole := Nat.mul_le_mul_right schema.width (Nat.succ_le_of_lt inside)
  rw [Nat.succ_mul] at whole
  rw [Geometry.usedBytes, ← imageSlots] at room
  rw [slotStart]
  omega

theorem slice_imageBody (schema : Schema) (image : Bytes) (slot : Nat) :
    Bytes.slice (imageBody schema image) (slot * schema.width) schema.width =
      Bytes.slice image (slotStart schema image slot) schema.width := by
  rw [Bytes.slice, imageBody, List.drop_drop]
  rfl

theorem strictReadSlot_eq (id : PageId) (inside : slot < imageSlots schema image) :
    strictReadSlot id schema image (imageHeader schema image) slot =
      (readSlot id schema image slot).mapError .error := by
  have inHeader : slot / 8 < (imageHeader schema image).length := by
    rw [imageHeader, length_take_headerWidth]
    exact div_lt_headerWidth inside
  rw [strictReadSlot, Bitmap.strictBit_of_lt inHeader, readSlot, imageBits, ← imageHeader,
    slice_imageBody]
  cases (Bitmap.ofBytes (imageHeader schema image))[slot]?.getD false with
  | false => rfl
  | true =>
    simp only [bind, Except.bind, if_true, Bytes.strictSlice_of_le (slot_end_le_length inside),
      Row.strictDecode_eq, decodeSlot]
    cases Row.decode? schema (Bytes.slice image (slotStart schema image slot) schema.width) <;> rfl

/-- A page is read slot by slot. -/
theorem decode_eq_mapM (id : PageId) (schema : Schema) (image : Bytes) :
    decode id schema image = (do
      let slots ← (List.range (imageSlots schema image)).mapM (readSlot id schema image)
      pure { id, schema, size := image.length, bits := imageBits schema image, slots,
             dirtiedBy := none }) := by
  -- the outcomes of the slots are one list, so running through it is one computation
  have outcomes := congrArg (List.mapM fun outcome => outcome)
    (map_decodeSlot_imageFields id schema image)
  rw [List.mapM_map, List.mapM_map] at outcomes
  exact congrArg (fun slots => slots >>= _) outcomes

/-- No byte is asked for that an image does not have. -/
theorem strictDecode_eq (id : PageId) (schema : Schema) (image : Bytes) :
    strictDecode id schema image = (decode id schema image).mapError .error := by
  have header : image.strictSlice 0 (Geometry.headerWidth (imageSlots schema image)) =
      .ok (imageHeader schema image) := by
    rw [Bytes.strictSlice, if_pos ⟨Nat.zero_le _, headerWidth_le_length schema image⟩]
    rfl
  have slots : (List.range (imageSlots schema image)).mapM
        (strictReadSlot id schema image (imageHeader schema image)) =
      ((List.range (imageSlots schema image)).mapM (readSlot id schema image)).mapError .error :=
    Error.mapM_eq_mapError fun slot member => strictReadSlot_eq id (List.mem_range.mp member)
  rw [strictDecode, decode_eq_mapM]
  simp only [header, bind, Except.bind, slots]
  cases (List.range (imageSlots schema image)).mapM (readSlot id schema image) <;> rfl

theorem marked_iff (inside : slot < imageSlots schema image) :
    (imageBits schema image)[slot]?.getD false = true ↔
      ∃ byte, image[slot / 8]? = some byte ∧ byte.toNat.testBit (slot % 8) := by
  rw [imageBits, Bitmap.getElem?_ofBytes, List.getElem?_take_of_lt (div_lt_headerWidth inside)]
  cases image[slot / 8]? <;> simp

theorem readSlot_eq_error_iff (inside : slot < imageSlots schema image) :
    readSlot id schema image slot = .error cause ↔
      Corrupts schema image slot ∧ cause = .corruptedPage id slot schema := by
  have whole : schema.width ≤
      (Bytes.slice image (slotStart schema image slot) schema.width).length := by
    have room := slot_end_le_length inside
    rw [Bytes.slice, List.length_take, List.length_drop]
    omega
  rw [readSlot, slice_imageBody, decodeSlot_eq_error_iff, marked_iff inside,
    Row.decode_eq_none_iff whole]
  constructor
  · rintro ⟨marked, illegible, isCause⟩
    exact ⟨⟨inside, marked, illegible⟩, isCause⟩
  · rintro ⟨corrupts, isCause⟩
    exact ⟨corrupts.marked, corrupts.illegible, isCause⟩

theorem exists_readSlot_iff (inside : slot < imageSlots schema image) :
    (∃ row, readSlot id schema image slot = .ok row) ↔ ¬Corrupts schema image slot := by
  cases outcome : readSlot id schema image slot with
  | error cause =>
    have corrupts := ((readSlot_eq_error_iff inside).mp outcome).1
    simp [corrupts]
  | ok row =>
    simp only [Except.ok.injEq, exists_eq', true_iff]
    intro corrupts
    have fails : readSlot id schema image slot = .error (.corruptedPage id slot schema) :=
      (readSlot_eq_error_iff inside).mpr ⟨corrupts, rfl⟩
    rw [outcome] at fails
    contradiction

/-- The slots are read in order, so the first that holds no row is the one that is reported. -/
theorem decode_eq_error_iff :
    decode id schema image = .error cause ↔
      ∃ slot, IsLeast { slot | Corrupts schema image slot } slot ∧
        cause = .corruptedPage id slot schema := by
  have slotwise : decode id schema image = .error cause ↔
      (List.range (imageSlots schema image)).mapM (readSlot id schema image) = .error cause := by
    rw [decode_eq_mapM]
    cases (List.range (imageSlots schema image)).mapM (readSlot id schema image) <;>
      simp [bind, Except.bind, pure, Except.pure]
  rw [slotwise, Error.mapM_range_eq_error_iff]
  constructor
  · rintro ⟨slot, inside, fails, passed⟩
    obtain ⟨corrupts, isCause⟩ := (readSlot_eq_error_iff inside).mp fails
    refine ⟨slot, ⟨corrupts, ?_⟩, isCause⟩
    -- a slot before this one was read without failing
    intro other otherCorrupts
    apply Nat.le_of_not_lt
    intro earlier
    exact (exists_readSlot_iff otherCorrupts.inside).mp (passed other earlier) otherCorrupts
  · rintro ⟨slot, ⟨corrupts, least⟩, isCause⟩
    have inside := corrupts.inside
    refine ⟨slot, inside, (readSlot_eq_error_iff inside).mpr ⟨corrupts, isCause⟩, ?_⟩
    intro earlier before
    apply (exists_readSlot_iff (Nat.lt_trans before inside)).mpr
    intro earlierCorrupts
    exact Nat.not_le_of_lt before (least earlierCorrupts)

theorem exists_decode_iff :
    (∃ page, decode id schema image = .ok page) ↔ ∀ slot, ¬Corrupts schema image slot := by
  constructor
  · rintro ⟨page, read⟩ slot corrupts
    have first : ∃ slot, IsLeast { slot | Corrupts schema image slot } slot := by
      classical exact ⟨_, Nat.find_spec ⟨slot, corrupts⟩, fun _ => Nat.find_min' _⟩
    obtain ⟨slot, least⟩ := first
    have fails : decode id schema image = .error (.corruptedPage id slot schema) :=
      decode_eq_error_iff.mpr ⟨slot, least, rfl⟩
    rw [read] at fails
    contradiction
  · intro sound
    cases outcome : decode id schema image with
    | error cause =>
      obtain ⟨slot, least, -⟩ := decode_eq_error_iff.mp outcome
      exact absurd least.1 (sound slot)
    | ok page => exact ⟨page, rfl⟩

/-- The usage bits take as few whole bytes as they can, and a page has as many slots as fit behind them,
whatever the sizes. Reading any bytes as a page of any schema stays within them: with every access
checked it has the same outcome. It succeeds unless the bytes of some slot whose bit is set are no row
of the schema, and its only failure names the first such slot. -/
theorem reads_in_bounds :
    (∀ slots, IsLeast { bytes | slots ≤ 8 * bytes } (Geometry.headerWidth slots)) ∧
    (∀ pageSize rowWidth, IsGreatest
      { slots | Geometry.headerWidth slots + slots * rowWidth ≤ pageSize }
      (Geometry.slotCount pageSize rowWidth)) ∧
    ∀ (id : PageId) (schema : Schema) (image : Bytes),
      strictDecode id schema image = (decode id schema image).mapError .error ∧
      ((∃ page, decode id schema image = .ok page) ↔ ∀ slot, ¬Corrupts schema image slot) ∧
      ∀ cause, decode id schema image = .error cause ↔
        ∃ slot, IsLeast { slot | Corrupts schema image slot } slot ∧
          cause = .corruptedPage id slot schema := by
  refine ⟨Geometry.isLeast_headerWidth, Geometry.isGreatest_slotCount, fun id schema image => ?_⟩
  exact ⟨strictDecode_eq id schema image, exists_decode_iff, fun cause => decode_eq_error_iff⟩

/-- Three bytes have no room for a row, so none of them is looked at. -/
example : (strictDecode ⟨.number 0, 0⟩ (Schema.single (.unnamed .integer)) [255, 255, 255]).map
    (fun page => (page.slots, page.bits)) = .ok ([], []) := by
  rfl

end Page

end PagedStore
