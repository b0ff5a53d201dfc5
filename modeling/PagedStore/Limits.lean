/-!
The fixed sizes of the store. Page size and pool capacity are defaults that a caller may replace;
the width of a text column is part of the page format.
-/

namespace PagedStore.Limits

def pageBytes : Nat := 4096

def poolPages : Nat := 50

def textBytes : Nat := 128

def historyDepth : Nat := 2

end PagedStore.Limits
