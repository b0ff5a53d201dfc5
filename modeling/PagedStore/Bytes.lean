/-!
Byte strings: slices, overwriting in place, fixed-width records and little-endian numbers. Main
statements: what was written over a byte string is found there, the records of a byte string are its
consecutive slices, and reading the little-endian form of a number gives the number back, reduced to
the width.
-/

namespace PagedStore

abbrev Bytes := List UInt8

namespace Bytes

def zeros (count : Nat) : Bytes := List.replicate count 0

def slice (data : Bytes) (start count : Nat) : Bytes := (data.drop start).take count

def padded (width : Nat) (data : Bytes) : Bytes := data ++ zeros (width - data.length)

def resized (size : Nat) (data : Bytes) : Bytes := padded size (data.take size)

/-- Puts `patch` over the bytes from `start` on. A gap between the end of the data and `start` is
filled with zeros; an empty patch changes nothing. -/
def overwrite (data : Bytes) (start : Nat) (patch : Bytes) : Bytes :=
  if patch.isEmpty then data
  else padded start (data.take start) ++ patch ++ data.drop (start + patch.length)

/-- The first `count` records of `width` bytes each. -/
def records (count width : Nat) (data : Bytes) : List Bytes :=
  let store := data.toArray
  (List.range count).map fun index => (store.extract (index * width) (index * width + width)).toList

def ofNatLE : Nat → Nat → Bytes
  | 0, _ => []
  | width + 1, number => UInt8.ofNat number :: ofNatLE width (number / 256)

def toNatLE : Bytes → Nat
  | [] => 0
  | byte :: rest => byte.toNat + 256 * toNatLE rest

theorem length_padded {width : Nat} {data : Bytes} (short : data.length ≤ width) :
    (padded width data).length = width := by
  simp only [padded, zeros, List.length_append, List.length_replicate]
  omega

theorem length_resized (size : Nat) (data : Bytes) : (resized size data).length = size :=
  length_padded (by rw [List.length_take]; exact Nat.min_le_left _ _)

/-- Data that fits is not cut. -/
theorem resized_of_le {size : Nat} {data : Bytes} (fits : data.length ≤ size) :
    resized size data = data ++ zeros (size - data.length) := by
  rw [resized, List.take_of_length_le fits, padded]

theorem length_overwrite (data : Bytes) (start : Nat) {patch : Bytes} (some_patch : patch ≠ []) :
    (overwrite data start patch).length = max data.length (start + patch.length) := by
  have proper : ¬ patch.isEmpty = true := by simpa using some_patch
  rw [overwrite, if_neg proper, List.length_append, List.length_append, List.length_drop,
    length_padded (by simp only [List.length_take]; omega)]
  omega

theorem slice_overwrite_self (data : Bytes) (start : Nat) (patch : Bytes) :
    slice (overwrite data start patch) start patch.length = patch := by
  by_cases proper : patch.isEmpty = true
  · simp [slice, List.isEmpty_iff.mp proper]
  · have front : (padded start (data.take start)).length = start := by
      apply length_padded
      simp only [List.length_take]
      omega
    rw [overwrite, if_neg proper, slice, List.append_assoc, List.drop_left' front,
      List.take_left' rfl]

theorem slice_overwrite_before {data patch : Bytes} {start first count : Nat}
    (inside : start ≤ data.length) (before : first + count ≤ start) :
    slice (overwrite data start patch) first count = slice data first count := by
  by_cases proper : patch.isEmpty = true
  · rw [overwrite, if_pos proper]
  · have room : (data.take start).length = start := by
      rw [List.length_take, Nat.min_eq_left inside]
    have pad : padded start (data.take start) = data.take start := by
      rw [padded, room, Nat.sub_self]
      exact List.append_nil _
    have within : first ≤ (data.take start).length := by omega
    have short : count ≤ ((data.take start).drop first).length := by
      rw [List.length_drop]
      omega
    rw [overwrite, if_neg proper, pad, List.append_assoc, slice, slice,
      List.drop_append_of_le_length within, List.take_append_of_le_length short, List.drop_take,
      List.take_take, Nat.min_eq_left (by omega)]

theorem slice_overwrite_after {data patch : Bytes} {start first : Nat} (count : Nat)
    (inside : start ≤ data.length) (after : start + patch.length ≤ first) :
    slice (overwrite data start patch) first count = slice data first count := by
  by_cases proper : patch.isEmpty = true
  · rw [overwrite, if_pos proper]
  · have front : (padded start (data.take start) ++ patch).length = start + patch.length := by
      rw [List.length_append, length_padded (by rw [List.length_take]; omega)]
    have past : first = (padded start (data.take start) ++ patch).length +
        (first - (start + patch.length)) := by
      rw [front]
      omega
    rw [overwrite, if_neg proper, slice, slice, past, List.drop_length_add_append, List.drop_drop,
      ← past]
    congr 2
    omega

/-- Items of one width that stand back to back are found at the multiples of the width. -/
theorem slice_flatMap {α : Type} (encode : α → Bytes) (width : Nat) (items : List α) (rest : Bytes)
    (sized : ∀ item ∈ items, (encode item).length = width) {index : Nat}
    (inside : index < items.length) :
    slice (items.flatMap encode ++ rest) (index * width) width = encode items[index] := by
  induction items generalizing index with
  | nil => exact absurd inside (Nat.not_lt_zero index)
  | cons item items ih =>
    have head : (encode item).length = width := sized item List.mem_cons_self
    rw [List.flatMap_cons, List.append_assoc]
    cases index with
    | zero => rw [Nat.zero_mul, slice, List.drop_zero, List.take_left' head, List.getElem_cons_zero]
    | succ index =>
      have step : (index + 1) * width = (encode item).length + index * width := by
        rw [head, Nat.succ_mul, Nat.add_comm]
      rw [slice, step, List.drop_length_add_append, List.getElem_cons_succ]
      exact ih (fun other member => sized other (List.mem_cons_of_mem item member))
        (Nat.lt_of_succ_lt_succ inside)

theorem records_eq_slices (count width : Nat) (data : Bytes) :
    records count width data =
      (List.range count).map fun index => slice data (index * width) width := by
  simp [records, slice, List.extract_eq_take_drop]

theorem length_ofNatLE (width number : Nat) : (ofNatLE width number).length = width := by
  induction width generalizing number with
  | zero => rfl
  | succ width ih => simp [ofNatLE, ih]

theorem toNatLE_ofNatLE (width number : Nat) :
    toNatLE (ofNatLE width number) = number % Nat.pow 256 width := by
  induction width generalizing number with
  | zero => exact (Nat.mod_one number).symm
  | succ width ih =>
    have lowest : (UInt8.ofNat number).toNat = number % 256 := by simp
    have next : Nat.pow 256 (width + 1) = 256 * Nat.pow 256 width := Nat.mul_comm ..
    rw [ofNatLE, toNatLE, ih, lowest, next, Nat.mod_mul]

theorem toNatLE_lt (data : Bytes) : toNatLE data < Nat.pow 256 data.length := by
  induction data with
  | nil => exact Nat.zero_lt_one
  | cons byte rest ih =>
    have lowest : byte.toNat < 256 := byte.toNat_lt
    have next : Nat.pow 256 (rest.length + 1) = 256 * Nat.pow 256 rest.length := Nat.mul_comm ..
    rw [toNatLE, List.length_cons, next]
    omega

theorem ofNatLE_toNatLE (data : Bytes) : ofNatLE data.length (toNatLE data) = data := by
  induction data with
  | nil => rfl
  | cons byte rest ih =>
    have lowest : byte.toNat < 256 := byte.toNat_lt
    have digit : UInt8.ofNat (byte.toNat + 256 * toNatLE rest) = byte := by
      apply UInt8.toNat_inj.mp
      simp only [UInt8.toNat_ofNat']
      omega
    have others : (byte.toNat + 256 * toNatLE rest) / 256 = toNatLE rest := by omega
    rw [List.length_cons, toNatLE, ofNatLE, digit, others, ih]

end Bytes

end PagedStore
