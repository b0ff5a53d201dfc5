/-!
How many rows fit on a page. Each slot costs one row and one usage bit, and the bits are kept in
whole bytes in front of the slots. Main statement: slots fit on a page exactly when there are no more
of them than the page counts.
-/

namespace PagedStore.Geometry

def slotCount (pageSize rowWidth : Nat) : Nat := pageSize * 8 / (rowWidth * 8 + 1)

def headerWidth (slots : Nat) : Nat := (slots + 7) / 8

def usedBytes (slots rowWidth : Nat) : Nat := headerWidth slots + slots * rowWidth

theorem headerWidth_le_iff (slots bytes : Nat) : headerWidth slots ≤ bytes ↔ slots ≤ 8 * bytes := by
  rw [headerWidth]
  omega

/-- Rounding up to whole bytes costs no slot, since what the rows leave of a page is whole bytes. -/
theorem usedBytes_le_iff (slots rowWidth pageSize : Nat) :
    usedBytes slots rowWidth ≤ pageSize ↔ slots ≤ slotCount pageSize rowWidth := by
  have bits : slots * (rowWidth * 8 + 1) = slots * rowWidth * 8 + slots := by
    rw [Nat.mul_add, Nat.mul_one, Nat.mul_assoc]
  have header := headerWidth_le_iff slots (pageSize - slots * rowWidth)
  rw [usedBytes, slotCount, Nat.le_div_iff_mul_le (Nat.succ_pos _), bits]
  constructor
  · intro fits
    have bitsFit := header.mp (by omega)
    omega
  · intro fits
    have bytesFit := header.mpr (by omega)
    omega

theorem usedBytes_slotCount_le (pageSize rowWidth : Nat) :
    usedBytes (slotCount pageSize rowWidth) rowWidth ≤ pageSize :=
  (usedBytes_le_iff ..).mpr (Nat.le_refl _)

end PagedStore.Geometry
