import PagedStore.Bytes

/-!
The usage bits of a page, eight to a byte, the lowest bit first. Main statements: packing the bits of
a byte string gives the byte string back, and the bits of packed bits are those that were packed.
-/

namespace PagedStore.Bitmap

def bitsOfByte (byte : UInt8) : List Bool := (List.range 8).map byte.toNat.testBit

def byteOfBits (bits : List Bool) : UInt8 :=
  UInt8.ofNat (bits.foldr (fun bit rest => bit.toNat + 2 * rest) 0)

def ofBytes (data : Bytes) : List Bool := data.flatMap bitsOfByte

def toBytes : Nat → List Bool → Bytes
  | 0, _ => []
  | count + 1, bits => byteOfBits (bits.take 8) :: toBytes count (bits.drop 8)

theorem byteOfBits_bitsOfByte (byte : UInt8) : byteOfBits (bitsOfByte byte) = byte := by
  have all : ∀ number : Fin 256,
      byteOfBits (bitsOfByte (UInt8.ofNat number)) = UInt8.ofNat number := by decide +kernel
  simpa using all ⟨byte.toNat, byte.toNat_lt⟩

theorem length_bitsOfByte (byte : UInt8) : (bitsOfByte byte).length = 8 := by
  simp [bitsOfByte]

theorem length_ofBytes (data : Bytes) : (ofBytes data).length = 8 * data.length := by
  induction data with
  | nil => rfl
  | cons byte rest ih =>
    simp only [ofBytes, List.flatMap_cons, List.length_append, List.length_cons,
      length_bitsOfByte] at *
    omega

/-- The bits of a byte string are those of its bytes, eight to a byte. -/
theorem getElem?_ofBytes (data : Bytes) (index : Nat) :
    (ofBytes data)[index]? = data[index / 8]?.map fun byte => byte.toNat.testBit (index % 8) := by
  induction data generalizing index with
  | nil => rfl
  | cons byte rest ih =>
    have eight := length_bitsOfByte byte
    rw [ofBytes, List.flatMap_cons]
    by_cases first : index < 8
    · have inByte : (bitsOfByte byte)[index]? = some (byte.toNat.testBit index) := by
        simp [bitsOfByte, first]
      rw [List.getElem?_append_left (by omega), inByte, Nat.div_eq_of_lt first,
        Nat.mod_eq_of_lt first]
      rfl
    · have later : index / 8 = (index - 8) / 8 + 1 := by omega
      have place : index % 8 = (index - 8) % 8 := by omega
      rw [List.getElem?_append_right (by omega), eight, later, place, List.getElem?_cons_succ]
      exact ih (index - 8)

theorem length_toBytes (count : Nat) (bits : List Bool) : (toBytes count bits).length = count := by
  induction count generalizing bits with
  | zero => rfl
  | succ count ih => simp [toBytes, ih]

theorem toBytes_ofBytes (data : Bytes) : toBytes data.length (ofBytes data) = data := by
  induction data with
  | nil => rfl
  | cons byte rest ih =>
    have eight := length_bitsOfByte byte
    simp only [ofBytes, List.flatMap_cons, List.length_cons, toBytes]
    rw [List.take_left' eight, List.drop_left' eight, byteOfBits_bitsOfByte]
    exact congrArg _ ih

theorem bitsOfByte_byteOfBits {bits : List Bool} (eight : bits.length = 8) :
    bitsOfByte (byteOfBits bits) = bits := by
  match bits, eight with
  | [a, b, c, d, e, f, g, h], _ => revert a b c d e f g h; decide +kernel

theorem ofBytes_toBytes {count : Nat} {bits : List Bool} (enough : bits.length = 8 * count) :
    ofBytes (toBytes count bits) = bits := by
  induction count generalizing bits with
  | zero => simp_all [toBytes, ofBytes]
  | succ count ih =>
    have head : (bits.take 8).length = 8 := by simp; omega
    have tail : (bits.drop 8).length = 8 * count := by simp; omega
    have rest := ih tail
    simp only [toBytes, ofBytes, List.flatMap_cons] at rest ⊢
    rw [bitsOfByte_byteOfBits head, rest, List.take_append_drop]

end PagedStore.Bitmap
