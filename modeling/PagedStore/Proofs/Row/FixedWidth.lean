import Mathlib.Data.List.Forall2
import PagedStore.Proofs.Page.RoundTrip

/-!
The fixed-width form of a row, column by column. Each column stands behind the widths of the columns
before it, whatever its values are, and what is lost is only what does not fit: a text comes back as its
longest part that ends between two characters, at most three bytes short of the field. In the other
direction a byte string is read exactly when it is long enough and each of its text fields holds a text
of a length that the field has room for; what is written again then differs from it in the bytes behind
the texts alone, which are zeros.
-/

namespace PagedStore

/-- The longest leading part of a text that fits the room and ends between two characters. -/
structure Text.Longest (room : Nat) (text part : String) : Prop where
  leading : part.toList <+: text.toList
  fits : (encode part).length ≤ room
  longest : ∀ other : String, other.toList <+: text.toList → (encode other).length ≤ room →
    other.toList <+: part.toList
  whole : (encode text).length ≤ room → part = text
  /-- A character takes four bytes at most. -/
  nearly_full : room < (encode text).length → room - 3 ≤ (encode part).length

/-- What a field keeps of a value. -/
def Value.FittedTo : Value → Value → Prop
  | .integer number, .integer stored => stored = number
  | .text content, .text stored => Text.Longest Limits.textBytes content stored
  | _, _ => False

/-- Whether a field of the type can be read: a text has a length within the field and holds that many
bytes of some text. -/
def Value.Readable : ValueType → Bytes → Prop
  | .integer, _ => True
  | .text, field =>
      Bytes.toNatLE (field.take 4) ≤ Limits.textBytes ∧
        ∃ content, Text.encode content = Bytes.slice field 4 (Bytes.toNatLE (field.take 4))

def Value.BehindText : ValueType → Bytes → Nat → Prop
  | .integer, _, _ => False
  | .text, field, place => 4 + Bytes.toNatLE (field.take 4) ≤ place

def Row.offset (types : List ValueType) (column : Nat) : Nat :=
  (types.take column).foldr (fun type total => type.width + total) 0

/-- Every column can be read where it begins. -/
def Row.Legible (types : List ValueType) (data : Bytes) : Prop :=
  ∀ column type, types[column]? = some type →
    Value.Readable type (Bytes.slice data (offset types column) type.width)

namespace Text

/-- What is cut off begins with a character that does not fit, so at most three bytes stay free. -/
theorem le_length_utf8_fit {room : Nat} {chars : List Char} (long : room < (utf8 chars).length) :
    room ≤ (utf8 (fit room chars)).length + 3 := by
  fun_induction fit room chars with
  | case1 => simp [utf8] at long
  | case2 room char rest fits ih =>
    rw [length_utf8_cons] at long ⊢
    have others := ih (by omega)
    omega
  | case3 room char rest tooLarge =>
    have four := char.utf8Size_le_four
    omega

theorem longest_cut (room : Nat) (text : String) : Longest room text (cut room text) where
  leading := by simp [cut, fit_isPrefix]
  fits := length_encode_cut room text
  longest other leading fits := by
    rw [cut, String.toList_ofList]
    exact isPrefix_fit leading fits
  whole := cut_eq_self
  nearly_full long := by
    have enough := le_length_utf8_fit long
    rw [encode, cut, String.toList_ofList]
    omega

end Text

namespace Value

theorem fittedTo_kept (value : Value) : value.FittedTo value.kept := by
  cases value with
  | integer number => rfl
  | text content => exact Text.longest_cut _ content

theorem exists_decode_iff {type : ValueType} {data : Bytes} :
    (∃ value, decode? type data = some value) ↔
      type.width ≤ data.length ∧ Readable type (data.take type.width) := by
  unfold decode?
  by_cases short : data.length < type.width
  · simp [short, Nat.not_le_of_lt short]
  · have enough := Nat.le_of_not_lt short
    rw [if_neg short]
    cases type with
    | integer => simp [Readable, enough]
    | text =>
      have head : (data.take ValueType.text.width).take 4 = data.take 4 := by
        rw [List.take_take, ValueType.width, Nat.min_eq_left (Nat.le_add_right ..)]
      simp only [enough, true_and, Readable, head, decodeText?, Option.map_eq_some_iff]
      by_cases fits : Bytes.toNatLE (data.take 4) ≤ Limits.textBytes
      · have body : Bytes.slice (data.take ValueType.text.width) 4 (Bytes.toNatLE (data.take 4)) =
            Bytes.slice data 4 (Bytes.toNatLE (data.take 4)) := by
          simp [Bytes.slice, ValueType.width, List.drop_take, List.take_take, fits]
        simp only [if_pos fits, body]
        constructor
        · rintro ⟨value, content, decoded, -⟩
          exact ⟨fits, content, Text.encode_of_decode decoded⟩
        · rintro ⟨-, content, bytes⟩
          exact ⟨_, content, bytes ▸ Text.decode_encode content, rfl⟩
      · simp [fits]

/-- What clearing does to each byte of a field. -/
theorem getElem?_cleared {type : ValueType} {field : Bytes} (full : field.length = type.width)
    {place : Nat} (inside : place < type.width) :
    (BehindText type field place → (cleared type field)[place]? = some 0) ∧
      (¬BehindText type field place → (cleared type field)[place]? = field[place]?) := by
  cases type with
  | integer => simp [BehindText, cleared]
  | text =>
    simp only [BehindText, cleared, Bytes.padded, Bytes.zeros, List.length_take]
    constructor
    · intro behind
      rw [List.getElem?_append_right (by simp; omega), List.getElem?_replicate, if_pos]
      simp
      omega
    · intro before
      rw [List.getElem?_append_left (by simp; omega), List.getElem?_take_of_lt (by omega)]

end Value

/-- An item of a run of items stands behind the bytes of the items before it. -/
theorem Bytes.slice_flatMap_of_getElem? {α : Type} (encode : α → Bytes) {items : List α}
    {index : Nat} {item : α} (isItem : items[index]? = some item) :
    slice (items.flatMap encode) ((items.take index).flatMap encode).length (encode item).length =
      encode item := by
  induction items generalizing index with
  | nil => simp at isItem
  | cons first items ih =>
    cases index with
    | zero =>
      obtain rfl := Option.some.inj isItem
      simp [slice]
    | succ index =>
      have rest : slice (items.flatMap encode) _ _ = encode item := ih isItem
      rw [List.take_succ_cons, List.flatMap_cons, List.flatMap_cons, List.length_append, slice,
        List.drop_length_add_append]
      exact rest

namespace Row

variable {types : List ValueType} {data : Bytes} {values : List Value} {column : Nat}
  {type : ValueType} {value : Value}

theorem offset_cons_succ (type : ValueType) (types : List ValueType) (column : Nat) :
    offset (type :: types) (column + 1) = type.width + offset types column := by
  simp [offset]

theorem length_flatMap_take (values : List Value) (column : Nat) :
    ((values.take column).flatMap Value.encode).length = offset (values.map Value.type) column := by
  rw [length_flatMap_encode, offset, List.map_take]

theorem slice_encode (isValue : values[column]? = some value) :
    Bytes.slice (values.flatMap Value.encode) (offset (values.map Value.type) column)
      value.type.width = value.encode := by
  rw [← length_flatMap_take, ← Value.length_encode]
  exact Bytes.slice_flatMap_of_getElem? Value.encode isValue

theorem legible_cons :
    Legible (type :: types) data ↔
      Value.Readable type (data.take type.width) ∧ Legible types (data.drop type.width) := by
  constructor
  · intro legible
    constructor
    · exact legible 0 type rfl
    · intro column other isColumn
      have there := legible (column + 1) other isColumn
      rwa [offset_cons_succ, Bytes.slice, ← List.drop_drop] at there
  · rintro ⟨first, rest⟩ column other isColumn
    cases column with
    | zero =>
      obtain rfl := Option.some.inj isColumn
      exact first
    | succ column =>
      rw [offset_cons_succ, Bytes.slice, ← List.drop_drop]
      exact rest column other isColumn

/-- Values are read one after the other exactly when each column can be read where it begins. -/
theorem exists_decodeValues_iff :
    (∃ values, decodeValues? types data = some values) ↔
      types.foldr (fun type total => type.width + total) 0 ≤ data.length ∧ Legible types data := by
  induction types generalizing data with
  | nil => simp [decodeValues?, Legible]
  | cons type types ih =>
    have split : (∃ values, decodeValues? (type :: types) data = some values) ↔
        (∃ value, Value.decode? type data = some value) ∧
          ∃ values, decodeValues? types (data.drop type.width) = some values := by
      simp [decodeValues?, Option.bind_eq_some_iff]
    rw [split, Value.exists_decode_iff, ih, legible_cons, List.length_drop, List.foldr_cons]
    constructor
    · rintro ⟨⟨enough, first⟩, more, rest⟩
      exact ⟨by omega, first, rest⟩
    · rintro ⟨enough, first, rest⟩
      exact ⟨⟨by omega, first⟩, by omega, rest⟩

theorem exists_decode_iff {schema : Schema} :
    (∃ row, decode? schema data = some row) ↔
      schema.width ≤ data.length ∧ Legible schema.types data := by
  rw [Schema.width_eq_sum_types, ← exists_decodeValues_iff]
  constructor
  · rintro ⟨row, decoded⟩
    exact ⟨row.values, (decode_eq_some_iff.mp decoded).1⟩
  · rintro ⟨values, decoded⟩
    have arity : values.length = schema.arity := by
      rw [← Schema.length_types, ← types_of_decodeValues decoded, List.length_map]
    exact ⟨⟨schema, values, arity, none⟩, decode_eq_some_iff.mpr ⟨decoded, rfl, rfl⟩⟩

/-- Each value is what stands where its column begins. -/
theorem decode_of_decodeValues (decoded : decodeValues? types data = some values)
    (isColumn : types[column]? = some type) :
    ∃ value, values[column]? = some value ∧
      Value.decode? type (data.drop (offset types column)) = some value := by
  induction types generalizing data values column with
  | nil => simp at isColumn
  | cons first types ih =>
    simp only [decodeValues?, Option.bind_eq_bind, Option.bind_eq_some_iff, Option.pure_def,
      Option.some.injEq] at decoded
    obtain ⟨value, head, rest, restDecoded, rfl⟩ := decoded
    cases column with
    | zero =>
      obtain rfl := Option.some.inj isColumn
      exact ⟨value, rfl, head⟩
    | succ column =>
      obtain ⟨other, isValue, there⟩ := ih restDecoded isColumn
      refine ⟨other, isValue, ?_⟩
      rwa [offset_cons_succ, ← List.drop_drop]

/-- Writing a row that was read keeps each byte that reading looked at, and sets the others to zero. -/
theorem getElem?_encode_of_decode {schema : Schema} {row : Row}
    (decoded : decode? schema data = some row) (isColumn : schema.types[column]? = some type)
    {place : Nat} (inside : place < type.width) :
    let start := offset schema.types column
    let behind := Value.BehindText type (Bytes.slice data start type.width) place
    (behind → row.encode[start + place]? = some 0) ∧
      (¬behind → row.encode[start + place]? = data[start + place]?) := by
  intro start behind
  obtain ⟨decodedValues, -, -⟩ := decode_eq_some_iff.mp decoded
  obtain ⟨value, isValue, read⟩ := decode_of_decodeValues decodedValues isColumn
  have isType : value.type = type := Value.type_of_decode read
  have field : (Bytes.slice data start type.width).length = type.width := by
    have long := (Value.exists_decode_iff.mp ⟨value, read⟩).1
    rw [Bytes.slice, List.length_take, Nat.min_eq_left long]
  have written : Bytes.slice row.encode start type.width =
      Value.cleared type (Bytes.slice data start type.width) := by
    have stored := slice_encode isValue
    rw [types_of_decodeValues decodedValues, isType] at stored
    exact stored.trans (Value.encode_of_decode read)
  have encoded : row.encode[start + place]? = (Bytes.slice row.encode start type.width)[place]? := by
    rw [Bytes.slice, List.getElem?_take_of_lt inside, List.getElem?_drop]
  have original : data[start + place]? = (Bytes.slice data start type.width)[place]? := by
    rw [Bytes.slice, List.getElem?_take_of_lt inside, List.getElem?_drop]
  rw [encoded, original, written]
  exact Value.getElem?_cleared field inside

/-- The fixed-width form loses only what does not fit. A row whose values have the types of their columns
takes the width of its schema, each value at its column, and comes back, whatever follows, with its texts
cut to what fits; written again it is the same. A byte string is read exactly when it is as wide as the
schema at least and each column can be read; what was read is written back with zeros behind the texts
and is the same everywhere else. -/
theorem fixed_width_format :
    (∀ row : Row, row.checkTypes = .ok () →
      row.encode.length = row.schema.width ∧
      (∀ column value, row.values[column]? = some value →
        Bytes.slice row.encode (offset row.schema.types column) value.type.width = value.encode) ∧
      ∀ rest, ∃ read, decode? row.schema (row.encode ++ rest) = some read ∧
        read.schema = row.schema ∧ read.record = none ∧
        List.Forall₂ Value.FittedTo row.values read.values ∧ read.encode = row.encode) ∧
    ∀ (schema : Schema) (data : Bytes),
      ((∃ row, decode? schema data = some row) ↔
        schema.width ≤ data.length ∧ Legible schema.types data) ∧
      ∀ row, decode? schema data = some row →
        row.encode.length = schema.width ∧
        ∀ column type place, schema.types[column]? = some type → place < type.width →
          let start := offset schema.types column
          let behind := Value.BehindText type (Bytes.slice data start type.width) place
          (behind → row.encode[start + place]? = some 0) ∧
            (¬behind → row.encode[start + place]? = data[start + place]?) := by
  constructor
  · intro row checked
    have typed := (checkTypes_eq_ok_iff row).mp checked
    have types : row.values.map Value.type = row.schema.types := typed
    refine ⟨length_encode typed, ?_, fun rest => ?_⟩
    · intro column value isValue
      rw [← types]
      exact slice_encode isValue
    · refine ⟨row.kept.stamped none, decode_encode typed rest, rfl, rfl, ?_, ?_⟩
      · rw [stamped, kept, List.forall₂_map_right_iff, List.forall₂_same]
        exact fun value _ => value.fittedTo_kept
      · simp [encode, stamped, kept, List.flatMap_map, Value.encode_kept]
  · intro schema data
    refine ⟨exists_decode_iff, fun row decoded => ⟨?_, ?_⟩⟩
    · obtain ⟨values, rfl, -⟩ := decode_eq_some_iff.mp decoded
      exact length_encode (types_of_decodeValues values)
    · intro column type place isColumn inside
      exact getElem?_encode_of_decode decoded isColumn inside

/-- A text of 129 bytes, whose last character takes two of them, and a number. -/
def straddling : Row :=
  let schema := (Schema.single (.unnamed .text)).append (.single (.unnamed .integer))
  ⟨schema, [.text (String.ofList (List.replicate 127 'x' ++ ['é'])), .integer (-2)], rfl, none⟩

/-- The last character is lost, and the number stands behind the whole field of the text. -/
theorem fixed_width_format_of_straddling :
    straddling.checkTypes = .ok () ∧ straddling.encode.length = 136 ∧
      Bytes.slice straddling.encode 132 4 = [254, 255, 255, 255] ∧
      ∃ read, decode? straddling.schema (straddling.encode ++ [1, 2, 3]) = some read ∧
        read.values = [.text (String.ofList (List.replicate 127 'x')), .integer (-2)] ∧
        read.encode = straddling.encode := by
  have checked : straddling.checkTypes = .ok () := by decide +kernel
  obtain ⟨width, places, back⟩ := fixed_width_format.1 straddling checked
  obtain ⟨read, decoded, -, -, -, again⟩ := back [1, 2, 3]
  have computed : (decode? straddling.schema (straddling.encode ++ [1, 2, 3])).map Row.values =
      some [.text (String.ofList (List.replicate 127 'x')), .integer (-2)] := by decide +kernel
  have start : offset straddling.schema.types 1 = 132 := by decide
  have bytes : (Value.integer (-2)).encode = [254, 255, 255, 255] := by decide
  have number := places 1 (.integer (-2)) rfl
  rw [start, bytes] at number
  rw [decoded] at computed
  exact ⟨checked, width, number, read, decoded, Option.some.inj computed, again⟩

end Row

end PagedStore
