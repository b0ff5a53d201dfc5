import PagedStore.Text
import PagedStore.Value.Basic

/-!
The fixed-width form of a value on a page. An integer is four bytes, lowest first. A text is the
length of its kept part in four bytes, the kept part, and zeros up to the width of the column. Main
statements: a value takes the width of its type, and reading it back gives what a page keeps of it,
whatever follows; a value that was read is kept as it is.
-/

namespace PagedStore.Value

/-- What a page keeps of a value: a text is cut to the width of its field. -/
def kept : Value → Value
  | integer number => integer number
  | text content => text (Text.cut Limits.textBytes content)

def encodeText (content : Bytes) : Bytes :=
  Bytes.ofNatLE 4 content.length ++ Bytes.padded Limits.textBytes content

def encode : Value → Bytes
  | integer number => Bytes.ofNatLE 4 number.toUInt32.toNat
  | text content => encodeText (Text.encode (Text.cut Limits.textBytes content))

/-- Reads the text field at the head of the data, of which the field's width is there. A length
beyond the field and bytes that form no text are refused. -/
def decodeText? (data : Bytes) : Option String :=
  let length := Bytes.toNatLE (data.take 4)
  if length ≤ Limits.textBytes then Text.decode? (Bytes.slice data 4 length) else none

def decode? (type : ValueType) (data : Bytes) : Option Value :=
  if data.length < type.width then none
  else match type with
    | .integer => some (integer (UInt32.ofNat (Bytes.toNatLE (data.take 4))).toInt32)
    | .text => (decodeText? data).map text

theorem type_kept (value : Value) : value.kept.type = value.type := by
  cases value <;> rfl

theorem kept_kept (value : Value) : value.kept.kept = value.kept := by
  cases value with
  | integer number => rfl
  | text content => simp only [kept, Text.cut_cut]

theorem length_encodeText {content : Bytes} (fits : content.length ≤ Limits.textBytes) :
    (encodeText content).length = ValueType.text.width := by
  rw [encodeText, List.length_append, Bytes.length_ofNatLE, Bytes.length_padded fits]
  rfl

theorem length_encode (value : Value) : value.encode.length = value.type.width := by
  cases value with
  | integer number => exact Bytes.length_ofNatLE 4 _
  | text content => exact length_encodeText (Text.length_encode_cut _ _)

theorem encode_kept (value : Value) : value.kept.encode = value.encode := by
  cases value with
  | integer number => rfl
  | text content => simp only [kept, encode, Text.cut_cut]

theorem decodeText_encodeText {content rest : Bytes} (fits : content.length ≤ Limits.textBytes) :
    decodeText? (encodeText content ++ rest) = Text.decode? content := by
  have lengthWidth : (Bytes.ofNatLE 4 content.length).length = 4 := Bytes.length_ofNatLE 4 _
  have lengthBound : content.length < Nat.pow 256 4 := Nat.lt_of_le_of_lt fits (by decide)
  simp only [decodeText?, encodeText, List.append_assoc, Bytes.slice]
  rw [List.take_left' lengthWidth, List.drop_left' lengthWidth, Bytes.toNatLE_ofNatLE,
    Nat.mod_eq_of_lt lengthBound, if_pos fits, Bytes.padded, List.append_assoc, List.take_left' rfl]

theorem decode_encode (value : Value) (rest : Bytes) :
    decode? value.type (value.encode ++ rest) = some value.kept := by
  have long : ¬ (value.encode ++ rest).length < value.type.width := by
    rw [List.length_append, length_encode]
    omega
  unfold decode?
  rw [if_neg long]
  cases value with
  | integer number =>
    have width : (Bytes.ofNatLE 4 number.toUInt32.toNat).length = 4 := Bytes.length_ofNatLE 4 _
    have bound : number.toUInt32.toNat < Nat.pow 256 4 := number.toUInt32.toNat_lt
    simp only [type, encode, kept]
    rw [List.take_left' width, Bytes.toNatLE_ofNatLE, Nat.mod_eq_of_lt bound, UInt32.ofNat_toNat,
      Int32.toInt32_toUInt32]
  | text content =>
    have fits := Text.length_encode_cut Limits.textBytes content
    simp only [type, encode, kept]
    rw [decodeText_encodeText fits, Text.decode_encode, Option.map_some]

theorem decodeText_eq_some {data : Bytes} {content : String}
    (decoded : decodeText? data = some content) :
    Bytes.toNatLE (data.take 4) ≤ Limits.textBytes ∧
      Text.encode content = Bytes.slice data 4 (Bytes.toNatLE (data.take 4)) := by
  unfold decodeText? at decoded
  dsimp only at decoded
  split at decoded
  · next fits => exact ⟨fits, Text.encode_of_decode decoded⟩
  · contradiction

theorem type_of_decode {type : ValueType} {data : Bytes} {value : Value}
    (decoded : decode? type data = some value) : value.type = type := by
  unfold decode? at decoded
  split at decoded
  · contradiction
  · cases type with
    | integer =>
      obtain rfl := Option.some.inj decoded
      rfl
    | text =>
      obtain ⟨content, _, rfl⟩ := Option.map_eq_some_iff.mp decoded
      rfl

theorem kept_of_decode {type : ValueType} {data : Bytes} {value : Value}
    (decoded : decode? type data = some value) : value.kept = value := by
  unfold decode? at decoded
  split at decoded
  · contradiction
  · cases type with
    | integer =>
      obtain rfl := Option.some.inj decoded
      rfl
    | text =>
      obtain ⟨content, read, rfl⟩ := Option.map_eq_some_iff.mp decoded
      obtain ⟨fits, bytes⟩ := decodeText_eq_some read
      have short : (Text.encode content).length ≤ Limits.textBytes := by
        rw [bytes, Bytes.slice, List.length_take]
        omega
      rw [kept, Text.cut_eq_self short]

end PagedStore.Value
