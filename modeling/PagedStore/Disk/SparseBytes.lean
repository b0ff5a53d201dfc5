import PagedStore.Bytes

/-!
What a file holds: its bytes up to the last one that is not zero, and how many zeros follow. So a file
that has been lengthened far beyond its last byte takes no more room than a short one. Each byte string
has one such form. Main statements: slices, overwriting and resizing are those of the byte string.
-/

namespace PagedStore

namespace Bytes

def trim (data : Bytes) : Bytes := (data.reverse.dropWhile (· == 0)).reverse

theorem getLast?_trim (data : Bytes) : (trim data).getLast? ≠ some 0 := by
  intro zero
  rw [trim, List.getLast?_reverse] at zero
  have first := List.head?_dropWhile_not (· == (0 : UInt8)) data.reverse
  rw [zero] at first
  exact absurd first (by decide)

theorem trim_append_zeros (data : Bytes) (count : Nat) : trim (data ++ zeros count) = trim data := by
  rw [trim, trim, List.reverse_append, zeros, List.reverse_replicate, List.dropWhile_append_of_pos]
  intro byte member
  rw [List.eq_of_mem_replicate member]
  rfl

theorem trim_of_trimmed {data : Bytes} (trimmed : data.getLast? ≠ some 0) : trim data = data := by
  have stays : data.reverse.dropWhile (· == 0) = data.reverse := by
    rw [List.getLast?_eq_head?_reverse] at trimmed
    cases last : data.reverse with
    | nil => rfl
    | cons byte rest =>
      rw [last] at trimmed
      apply List.dropWhile_cons_of_neg
      intro zero
      exact trimmed (congrArg some (eq_of_beq zero))
  rw [trim, stays, List.reverse_reverse]

theorem length_zeros (count : Nat) : (zeros count).length = count := List.length_replicate

theorem take_zeros (taken count : Nat) : (zeros count).take taken = zeros (min taken count) :=
  List.take_replicate

theorem drop_zeros (dropped count : Nat) : (zeros count).drop dropped = zeros (count - dropped) :=
  List.drop_replicate

theorem zeros_append_zeros (first second : Nat) : zeros first ++ zeros second = zeros (first + second) :=
  List.replicate_append_replicate

theorem trim_append_eq (data : Bytes) :
    trim data ++ zeros (data.length - (trim data).length) = data := by
  have split := List.takeWhile_append_dropWhile (p := (· == (0 : UInt8))) (l := data.reverse)
  have cut : data.reverse.takeWhile (· == 0) =
      zeros (data.reverse.takeWhile (· == (0 : UInt8))).length := by
    apply List.eq_replicate_of_mem
    intro byte member
    exact eq_of_beq (List.all_eq_true.mp List.all_takeWhile byte member)
  have whole : data = trim data ++ zeros (data.reverse.takeWhile (· == (0 : UInt8))).length := by
    rw [trim, zeros, ← List.reverse_replicate, ← List.reverse_append]
    change _ = (zeros _ ++ _).reverse
    rw [← cut, split, List.reverse_reverse]
  have sizes := congrArg List.length whole
  rw [List.length_append, zeros, List.length_replicate] at sizes
  rw [sizes, Nat.add_sub_cancel_left]
  exact whole.symm

end Bytes

structure SparseBytes where
  head : Bytes
  blank : Nat
  trimmed : head.getLast? ≠ some 0
deriving DecidableEq

namespace SparseBytes

def length (content : SparseBytes) : Nat := content.head.length + content.blank

def toBytes (content : SparseBytes) : Bytes := content.head ++ Bytes.zeros content.blank

def sized (length : Nat) (data : Bytes) : SparseBytes where
  head := Bytes.trim (data.take length)
  blank := length - (Bytes.trim (data.take length)).length
  trimmed := Bytes.getLast?_trim _

def ofBytes (data : Bytes) : SparseBytes := sized data.length data

def slice (content : SparseBytes) (start count : Nat) : Bytes :=
  Bytes.resized (min count (content.length - start)) (Bytes.slice content.head start count)

def resized (length : Nat) (content : SparseBytes) : SparseBytes := sized length content.head

/-- Puts the patch over the bytes from `start` on. Zeros behind the last byte that is not zero only
make the content longer. -/
def overwrite (content : SparseBytes) (start : Nat) (patch : Bytes) : SparseBytes :=
  if patch.isEmpty then content
  else
    let length := max content.length (start + patch.length)
    if content.head.length ≤ start ∧ patch.all (· == 0) then sized length content.head
    else sized length (Bytes.overwrite content.head start patch)

theorem length_toBytes (content : SparseBytes) : content.toBytes.length = content.length := by
  rw [toBytes, List.length_append, Bytes.length_zeros, length]

theorem trim_toBytes (content : SparseBytes) : Bytes.trim content.toBytes = content.head := by
  rw [toBytes, Bytes.trim_append_zeros, Bytes.trim_of_trimmed content.trimmed]

theorem toBytes_injective {content other : SparseBytes} (same : content.toBytes = other.toBytes) :
    content = other := by
  have head : content.head = other.head := by
    rw [← trim_toBytes, ← trim_toBytes, same]
  have length := congrArg List.length same
  rw [length_toBytes, length_toBytes, SparseBytes.length, SparseBytes.length, head] at length
  have blank : content.blank = other.blank := Nat.add_left_cancel length
  cases content
  cases other
  simp_all

theorem toBytes_sized (length : Nat) (data : Bytes) :
    (sized length data).toBytes = Bytes.resized length data := by
  have whole := Bytes.trim_append_eq (data.take length)
  have short : (Bytes.trim (data.take length)).length ≤ (data.take length).length := by
    have sizes := congrArg List.length whole
    rw [List.length_append] at sizes
    omega
  have cut : (data.take length).length ≤ length := List.length_take_le _ _
  rw [toBytes, sized, Bytes.resized, Bytes.padded]
  dsimp only
  rw [show length - (Bytes.trim (data.take length)).length =
      ((data.take length).length - (Bytes.trim (data.take length)).length) +
        (length - (data.take length).length) by omega,
    ← Bytes.zeros_append_zeros, ← List.append_assoc, whole]

@[simp]
theorem toBytes_ofBytes (data : Bytes) : (ofBytes data).toBytes = data := by
  rw [ofBytes, toBytes_sized, Bytes.resized_of_le (Nat.le_refl _), Nat.sub_self]
  exact List.append_nil data

theorem slice_eq (content : SparseBytes) (start count : Nat) :
    content.slice start count = Bytes.slice content.toBytes start count := by
  have kept : (Bytes.slice content.head start count).length =
      min count (content.head.length - start) := by
    rw [Bytes.slice, List.length_take, List.length_drop]
  rw [slice, Bytes.resized_of_le (by rw [kept, length]; omega), kept, Bytes.slice, Bytes.slice, toBytes,
    List.drop_append, List.take_append, Bytes.drop_zeros, Bytes.take_zeros, List.length_drop, length]
  congr 2
  omega

theorem toBytes_resized (length : Nat) (content : SparseBytes) :
    (resized length content).toBytes = Bytes.resized length content.toBytes := by
  rw [resized, toBytes_sized, Bytes.resized, Bytes.resized, Bytes.padded, Bytes.padded, toBytes,
    List.take_append, Bytes.take_zeros, List.append_assoc, Bytes.zeros_append_zeros,
    List.length_append, Bytes.length_zeros, List.length_take]
  congr 2
  omega

theorem overwrite_append_zeros (data : Bytes) (count start : Nat) {patch : Bytes}
    (some_patch : patch ≠ []) :
    Bytes.overwrite (data ++ Bytes.zeros count) start patch =
      Bytes.overwrite data start patch ++
        Bytes.zeros (count - (start + patch.length - data.length)) := by
  have proper : ¬ patch.isEmpty = true := by simpa using some_patch
  have front : Bytes.padded start ((data ++ Bytes.zeros count).take start) =
      Bytes.padded start (data.take start) := by
    rw [Bytes.padded, Bytes.padded, List.take_append, Bytes.take_zeros, List.append_assoc,
      Bytes.zeros_append_zeros, List.length_append, Bytes.length_zeros, List.length_take]
    congr 2
    omega
  rw [Bytes.overwrite, Bytes.overwrite, if_neg proper, if_neg proper, front, List.drop_append,
    Bytes.drop_zeros, ← List.append_assoc]

theorem toBytes_overwrite (content : SparseBytes) (start : Nat) (patch : Bytes) :
    (content.overwrite start patch).toBytes = Bytes.overwrite content.toBytes start patch := by
  by_cases empty : patch.isEmpty = true
  · rw [overwrite, if_pos empty, Bytes.overwrite, if_pos empty]
  have some_patch : patch ≠ [] := by simpa using empty
  have written := Bytes.length_overwrite content.head start some_patch
  have room : (Bytes.overwrite content.head start patch).length ≤
      max content.length (start + patch.length) := by
    rw [written, length]
    omega
  have behind : (sized (max content.length (start + patch.length))
      (Bytes.overwrite content.head start patch)).toBytes =
        Bytes.overwrite content.toBytes start patch := by
    rw [toBytes_sized, Bytes.resized_of_le room, written, toBytes,
      overwrite_append_zeros _ _ _ some_patch, length]
    congr 2
    omega
  rw [overwrite, if_neg empty]
  dsimp only
  split
  · next zero =>
    -- Zeros over zeros: the bytes before them stay, and only the length may be new.
    have patched : patch = Bytes.zeros patch.length := by
      apply List.eq_replicate_of_mem
      intro byte member
      exact eq_of_beq (List.all_eq_true.mp zero.2 byte member)
    have whole : Bytes.overwrite content.head start patch =
        content.head ++ Bytes.zeros (start + patch.length - content.head.length) := by
      rw [Bytes.overwrite, if_neg empty, List.take_of_length_le zero.1, Bytes.padded,
        List.drop_eq_nil_of_le (by omega), List.append_nil]
      conv => lhs; rhs; rw [patched]
      rw [List.append_assoc, Bytes.zeros_append_zeros]
      congr 2
      omega
    have short : content.head.length ≤ max content.length (start + patch.length) := by
      rw [length]
      omega
    rw [← behind, toBytes_sized, toBytes_sized, whole, Bytes.resized_of_le short,
      Bytes.resized_of_le (by rw [← whole]; exact room), List.append_assoc,
      Bytes.zeros_append_zeros, List.length_append, Bytes.length_zeros]
    congr 2
    omega
  · exact behind

end SparseBytes

end PagedStore
