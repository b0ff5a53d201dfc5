import PagedStore.Bytes

/-!
Texts as byte strings. A text is cut between characters, so that what is kept is a text again, and
its bytes are the UTF-8 form of its characters. Main statements: the kept part is the longest leading
part that fits the room, bytes are read as a text exactly when they are the bytes of that text, and
texts are ordered as their bytes are.
-/

namespace PagedStore.Text

def utf8 (chars : List Char) : Bytes := chars.flatMap String.utf8EncodeChar

/-- The longest leading part whose UTF-8 form has at most `room` bytes. -/
def fit : Nat → List Char → List Char
  | _, [] => []
  | room, char :: rest =>
      if char.utf8Size ≤ room then char :: fit (room - char.utf8Size) rest else []

/-- The text cut to at most `room` bytes, between two characters. -/
def cut (room : Nat) (text : String) : String := String.ofList (fit room text.toList)

def encode (text : String) : Bytes := utf8 text.toList

def decode? (data : Bytes) : Option String := String.fromUTF8? data.toByteArray

def occursIn (part : List Char) : List Char → Bool
  | [] => part.isEmpty
  | char :: rest => part.isPrefixOf (char :: rest) || occursIn part rest

def contains (whole part : String) : Bool := occursIn part.toList whole.toList

theorem length_utf8_cons (char : Char) (rest : List Char) :
    (utf8 (char :: rest)).length = char.utf8Size + (utf8 rest).length := by
  simp only [utf8, List.flatMap_cons, List.length_append, String.length_utf8EncodeChar]

theorem fit_isPrefix (room : Nat) (chars : List Char) : fit room chars <+: chars := by
  fun_induction fit room chars with
  | case1 => exact List.nil_prefix
  | case2 room char rest fits ih => exact List.cons_prefix_cons.mpr ⟨rfl, ih⟩
  | case3 => exact List.nil_prefix

theorem length_utf8_fit (room : Nat) (chars : List Char) :
    (utf8 (fit room chars)).length ≤ room := by
  fun_induction fit room chars with
  | case1 => exact Nat.zero_le _
  | case2 room char rest fits ih =>
    rw [length_utf8_cons]
    omega
  | case3 => exact Nat.zero_le _

/-- No longer leading part fits. -/
theorem isPrefix_fit {room : Nat} {part chars : List Char} (leading : part <+: chars)
    (fits : (utf8 part).length ≤ room) : part <+: fit room chars := by
  induction chars generalizing room part with
  | nil => rw [List.prefix_nil.mp leading]; exact List.nil_prefix
  | cons char rest ih =>
    cases part with
    | nil => exact List.nil_prefix
    | cons first others =>
      obtain ⟨rfl, tail⟩ := List.cons_prefix_cons.mp leading
      rw [length_utf8_cons] at fits
      rw [fit, if_pos (by omega)]
      exact List.cons_prefix_cons.mpr ⟨rfl, ih tail (by omega)⟩

theorem fit_eq_self {room : Nat} {chars : List Char} (fits : (utf8 chars).length ≤ room) :
    fit room chars = chars :=
  (fit_isPrefix room chars).eq_of_length_le (isPrefix_fit List.prefix_rfl fits).length_le

theorem fit_fit (room : Nat) (chars : List Char) : fit room (fit room chars) = fit room chars :=
  fit_eq_self (length_utf8_fit room chars)

theorem cut_cut (room : Nat) (text : String) : cut room (cut room text) = cut room text := by
  simp only [cut, String.toList_ofList, fit_fit]

theorem cut_eq_self {room : Nat} {text : String} (fits : (encode text).length ≤ room) :
    cut room text = text := by
  rw [cut, fit_eq_self fits, String.ofList_toList]

theorem length_encode_cut (room : Nat) (text : String) :
    (encode (cut room text)).length ≤ room := by
  rw [encode, cut, String.toList_ofList]
  exact length_utf8_fit room text.toList

theorem encode_toByteArray (text : String) : (encode text).toByteArray = text.toByteArray := by
  rw [encode, utf8, ← List.utf8Encode, String.utf8Encode_toList]

theorem decode_encode (text : String) : decode? (encode text) = some text := by
  rw [decode?, encode_toByteArray, String.fromUTF8?, dif_pos text.isValidUTF8]
  rfl

theorem encode_of_decode {data : Bytes} {text : String} (decoded : decode? data = some text) :
    encode text = data := by
  unfold decode? String.fromUTF8? at decoded
  split at decoded
  · obtain rfl := Option.some.inj decoded
    exact List.toByteArray_inj.mp (encode_toByteArray _)
  · contradiction

/-- The bytes of the smaller of two characters come before those of the other, whatever follows. -/
theorem utf8EncodeChar_lt {a b : Char} (less : a < b) (left right : Bytes) :
    String.utf8EncodeChar a ++ left < String.utf8EncodeChar b ++ right := by
  have smaller : a.val.toNat < b.val.toNat := less
  have bounded : b.val.toNat < 1114112 := by
    have valid := b.valid
    simp only [UInt32.isValidChar, Nat.isValidChar] at valid
    omega
  simp only [String.utf8EncodeChar]
  generalize a.val.toNat = low at *
  generalize b.val.toNat = high at *
  repeat' split
  all_goals
    simp (disch := omega) only [List.cons_append, List.nil_append, List.cons_lt_cons_iff,
      UInt8.lt_iff_toNat_lt, ← UInt8.toNat_inj, UInt8.toNat_ofNat', Nat.mod_eq_of_lt (b := 2 ^ 8)]
  -- Only two characters of four bytes have to be compared byte by byte.
  any_goals omega
  by_cases first : low / 262144 = high / 262144
  · by_cases second : low / 4096 = high / 4096
    · by_cases third : low / 64 = high / 64
      · omega
      · exact Or.inr ⟨by omega, Or.inr ⟨by omega, Or.inl (by omega)⟩⟩
    · exact Or.inr ⟨by omega, Or.inl (by omega)⟩
  · exact Or.inl (by omega)

theorem utf8_lt {chars others : List Char} (less : chars < others) : utf8 chars < utf8 others := by
  induction less with
  | @nil char rest =>
    cases bytes : utf8 (char :: rest) with
    | nil =>
      have length := length_utf8_cons char rest
      have positive := char.utf8Size_pos
      rw [bytes, List.length_nil] at length
      omega
    | cons byte others => exact List.nil_lt_cons byte others
  | cons _ ih => exact List.append_left_lt ih
  | rel smaller => exact utf8EncodeChar_lt smaller _ _

/-- The order of texts is that of their bytes. -/
theorem encode_lt_encode_iff {a b : String} : encode a < encode b ↔ a < b := by
  constructor
  · intro less
    apply Classical.byContradiction
    intro notLess
    by_cases same : b < a
    · exact List.lt_asymm less (utf8_lt same)
    · obtain rfl := String.le_antisymm notLess same
      exact List.lt_irrefl _ less
  · exact utf8_lt

end PagedStore.Text
