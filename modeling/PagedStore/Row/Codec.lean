import PagedStore.Row.Basic
import PagedStore.Value.Codec

/-!
The fixed-width form of a row: its values one after the other, each at the width of its type. Main
statements: a decoded row has one value for each column, and reading a well-typed row back gives what
a page keeps of it, whatever follows.
-/

namespace PagedStore.Row

def decodeValues? : List ValueType → Bytes → Option (List Value)
  | [], _ => some []
  | type :: types, data => do
      let value ← Value.decode? type data
      let values ← decodeValues? types (data.drop type.width)
      pure (value :: values)

def decode? (schema : Schema) (data : Bytes) : Option Row :=
  (decodeValues? schema.types data).bind (ofValues? schema)

def encode (row : Row) : Bytes := row.values.flatMap Value.encode

/-- What a page keeps of a row: its texts are cut to the width of their columns. -/
def kept (row : Row) : Row :=
  { row with values := row.values.map Value.kept, arity_eq := by simp [row.arity_eq] }

theorem decode_eq_some_iff {schema : Schema} {data : Bytes} {row : Row} :
    decode? schema data = some row ↔
      decodeValues? schema.types data = some row.values ∧ row.schema = schema ∧
        row.record = none := by
  simp only [decode?, Option.bind_eq_some_iff, ofValues?]
  constructor
  · rintro ⟨values, decoded, made⟩
    split at made
    · obtain rfl := Option.some.inj made
      exact ⟨decoded, rfl, rfl⟩
    · exact absurd made (by simp)
  · rintro ⟨decoded, rfl, unstored⟩
    refine ⟨row.values, decoded, ?_⟩
    rw [dif_pos row.arity_eq, ← unstored]

theorem decodeValues_encode (values : List Value) (rest : Bytes) :
    decodeValues? (values.map Value.type) (values.flatMap Value.encode ++ rest) =
      some (values.map Value.kept) := by
  induction values with
  | nil => rfl
  | cons value values ih =>
    simp only [List.map_cons, List.flatMap_cons, List.append_assoc, decodeValues?,
      Value.decode_encode, List.drop_left' (Value.length_encode value), ih, Option.bind_eq_bind,
      Option.bind_some, Option.pure_def]

theorem length_flatMap_encode (values : List Value) :
    (values.flatMap Value.encode).length =
      (values.map Value.type).foldr (fun type total => type.width + total) 0 := by
  induction values with
  | nil => rfl
  | cons value values ih =>
    rw [List.flatMap_cons, List.length_append, Value.length_encode, ih, List.map_cons, List.foldr_cons]

theorem length_encode {row : Row} (typed : row.WellTyped) :
    row.encode.length = row.schema.width := by
  rw [encode, length_flatMap_encode, typed, Schema.width_eq_sum_types]

theorem decode_encode {row : Row} (typed : row.WellTyped) (rest : Bytes) :
    decode? row.schema (row.encode ++ rest) = some (row.kept.stamped none) := by
  refine decode_eq_some_iff.mpr ⟨?_, rfl, rfl⟩
  rw [← typed]
  exact decodeValues_encode row.values rest

theorem types_of_decodeValues {types : List ValueType} {data : Bytes} {values : List Value}
    (decoded : decodeValues? types data = some values) : values.map Value.type = types := by
  induction types generalizing data values with
  | nil => simp_all [decodeValues?]
  | cons type types ih =>
    simp only [decodeValues?, Option.bind_eq_bind, Option.bind_eq_some_iff, Option.pure_def,
      Option.some.injEq] at decoded
    obtain ⟨value, first, rest, restDecoded, rfl⟩ := decoded
    rw [List.map_cons, Value.type_of_decode first, ih restDecoded]

theorem kept_of_decodeValues {types : List ValueType} {data : Bytes} {values : List Value}
    (decoded : decodeValues? types data = some values) : values.map Value.kept = values := by
  induction types generalizing data values with
  | nil => simp_all [decodeValues?]
  | cons type types ih =>
    simp only [decodeValues?, Option.bind_eq_bind, Option.bind_eq_some_iff, Option.pure_def,
      Option.some.injEq] at decoded
    obtain ⟨value, first, rest, restDecoded, rfl⟩ := decoded
    rw [List.map_cons, Value.kept_of_decode first, ih restDecoded]

end PagedStore.Row
