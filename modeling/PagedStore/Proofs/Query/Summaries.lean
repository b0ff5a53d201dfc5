import Mathlib.Data.List.Induction
import Mathlib.Data.List.Nodup
import Mathlib.Data.String.Basic
import PagedStore.Query.Aggregator

/-!
What an aggregator has worked out. An aggregator takes one row after the other and keeps one running
result for each key. What it has worked out in the end can be said of all that it has taken at once:
there is one group for each key, in the order in which the keys were first seen, and its result is the
least or the greatest value with that key, the sum or the number of the values reduced to 32 bits, or
the quotient of the two.
-/

namespace PagedStore

theorem Value.integers_map (numbers : List Int32) :
    (numbers.map integer).filterMap integer? = numbers := by
  simp [List.filterMap_map, Function.comp_def, integer?]

theorem Value.texts_map (contents : List String) : (contents.map text).filterMap text? = contents := by
  simp [List.filterMap_map, Function.comp_def, text?]

namespace AggregateFunction

/-- The sum of the numbers before it is reduced to 32 bits. -/
def total (numbers : List Int32) : Int :=
  numbers.foldl (fun total number => total + number.toInt) 0

def ofIntegers (function : AggregateFunction) (numbers : List Int32) : Int32 :=
  match function with
  | least => numbers.min?.getD 0
  | greatest => numbers.max?.getD 0
  | sum => Int32.ofInt (total numbers)
  | average => Int32.ofInt (total numbers) / Int32.ofNat numbers.length
  | count => Int32.ofNat numbers.length

/-- Sums up texts, all of them at once; what does not apply to texts counts them. -/
def ofTexts (function : AggregateFunction) (contents : List String) : Value :=
  match function with
  | least => .text (contents.min?.getD "")
  | greatest => .text (contents.max?.getD "")
  | _ => .integer (Int32.ofNat contents.length)

end AggregateFunction

namespace Group

def ofValues (input : ValueType) (function : AggregateFunction) (key : Option Value)
    (values : List Value) : Group :=
  match input with
  | .integer =>
      let numbers := values.filterMap Value.integer?
      { key, count := Int32.ofNat values.length, sum := Int32.ofInt (AggregateFunction.total numbers)
        result := .integer (function.ofIntegers numbers) }
  | .text =>
      { key, count := Int32.ofNat values.length, sum := 0
        result := function.ofTexts (values.filterMap Value.text?) }

variable {function : AggregateFunction} {key : Option Value}

theorem key_ofValues (input : ValueType) (function : AggregateFunction) (key : Option Value)
    (values : List Value) : (ofValues input function key values).key = key := by
  cases input <;> rfl

theorem exists_integers {values : List Value} (typed : ∀ value ∈ values, value.type = .integer) :
    ∃ numbers : List Int32, values = numbers.map .integer := by
  induction values with
  | nil => exact ⟨[], rfl⟩
  | cons value rest ih =>
    obtain ⟨numbers, rfl⟩ := ih fun other member => typed other (List.mem_cons_of_mem _ member)
    cases value with
    | integer number => exact ⟨number :: numbers, rfl⟩
    | text content => exact ValueType.noConfusion (typed (.text content) List.mem_cons_self)

theorem exists_texts {values : List Value} (typed : ∀ value ∈ values, value.type = .text) :
    ∃ contents : List String, values = contents.map .text := by
  induction values with
  | nil => exact ⟨[], rfl⟩
  | cons value rest ih =>
    obtain ⟨contents, rfl⟩ := ih fun other member => typed other (List.mem_cons_of_mem _ member)
    cases value with
    | integer number => exact ValueType.noConfusion (typed (.integer number) List.mem_cons_self)
    | text content => exact ⟨content :: contents, rfl⟩

theorem ofValues_integers (numbers : List Int32) :
    ofValues .integer function key (numbers.map .integer) =
      { key, count := Int32.ofNat numbers.length, sum := Int32.ofInt (AggregateFunction.total numbers)
        result := .integer (function.ofIntegers numbers) } := by
  simp only [ofValues, Value.integers_map, List.length_map]

theorem ofValues_texts (contents : List String) :
    ofValues .text function key (contents.map .text) =
      { key, count := Int32.ofNat contents.length, sum := 0
        result := function.ofTexts contents } := by
  simp only [ofValues, Value.texts_map, List.length_map]

theorem min_concat {α : Type} [Min α] {values : List α} (nonempty : values ≠ []) (value other : α) :
    (values ++ [value]).min?.getD other = min (values.min?.getD other) value := by
  cases values with
  | nil => contradiction
  | cons first rest => simp [List.min?_cons', List.foldl_append]

theorem max_concat {α : Type} [Max α] {values : List α} (nonempty : values ≠ []) (value other : α) :
    (values ++ [value]).max?.getD other = max (values.max?.getD other) value := by
  cases values with
  | nil => contradiction
  | cons first rest => simp [List.max?_cons', List.foldl_append]

theorem min_eq_of_toInt (current value : Int32) :
    min current value = if current.toInt ≤ value.toInt then current else value := by
  change (if current ≤ value then current else value) = _
  simp only [Int32.le_iff_toInt_le]

theorem max_eq_of_toInt (current value : Int32) :
    max current value = if value.toInt ≤ current.toInt then current else value := by
  change (if current ≤ value then value else current) = _
  simp only [Int32.le_iff_toInt_le]
  by_cases less : value.toInt ≤ current.toInt
  · by_cases more : current.toInt ≤ value.toInt
    · rw [if_pos more, if_pos less]
      exact Int32.toInt_inj.mp (Int.le_antisymm less more)
    · rw [if_neg more, if_pos less]
  · rw [if_pos (by omega), if_neg less]

theorem startInteger_eq (number : Int32) :
    startInteger function key number = ofValues .integer function key [.integer number] := by
  refine Eq.trans ?_ (ofValues_integers [number]).symm
  cases function <;>
    simp [startInteger, AggregateFunction.ofIntegers, AggregateFunction.total, Int32.ofInt_toInt]

theorem startText_eq (applies : (function.resultType? .text).isSome) (content : String) :
    startText function key content = ofValues .text function key [.text content] := by
  refine Eq.trans ?_ (ofValues_texts [content]).symm
  cases function <;> simp_all [startText, AggregateFunction.ofTexts, AggregateFunction.resultType?]

/-- One more integer, as long as an average is not over a count that has become zero. -/
theorem mergeInteger_eq {numbers : List Int32} (nonempty : numbers ≠ []) (number : Int32)
    (counted : function = .average → Int32.ofNat (numbers.length + 1) ≠ 0) :
    mergeInteger function number (ofValues .integer function key (numbers.map .integer)) =
      .ok () (ofValues .integer function key ((numbers ++ [number]).map .integer)) := by
  have count : Int32.ofNat numbers.length + 1 = Int32.ofNat (numbers.length + 1) :=
    (Int32.ofNat_add _ _).symm
  have total : Int32.ofInt (AggregateFunction.total numbers) + number =
      Int32.ofInt (AggregateFunction.total (numbers ++ [number])) := by
    rw [AggregateFunction.total, AggregateFunction.total, List.foldl_append, List.foldl_cons,
      List.foldl_nil, Int32.ofInt_add, Int32.ofInt_toInt]
  have length : (numbers ++ [number]).length = numbers.length + 1 := by simp
  rw [ofValues_integers, ofValues_integers, mergeInteger_of_integer rfl, length, ← total, ← count]
  cases function with
  | least =>
    have result := (min_concat nonempty number 0).trans (min_eq_of_toInt _ number)
    simp only [nextInteger, AggregateFunction.ofIntegers, result]
    rfl
  | greatest =>
    have result := (max_concat nonempty number 0).trans (max_eq_of_toInt _ number)
    simp only [nextInteger, AggregateFunction.ofIntegers, result]
    rfl
  | sum => simp only [nextInteger, AggregateFunction.ofIntegers, ← total]
  | average =>
    have nonzero := count ▸ counted rfl
    simp only [nextInteger, AggregateFunction.ofIntegers, ← total, length, ← count, if_neg nonzero]
  | count => simp only [nextInteger, AggregateFunction.ofIntegers, length, ← count]

theorem mergeText_eq (applies : (function.resultType? .text).isSome) {contents : List String}
    (nonempty : contents ≠ []) (content : String) :
    mergeText function content (ofValues .text function key (contents.map .text)) =
      .ok () (ofValues .text function key ((contents ++ [content]).map .text)) := by
  have count : Int32.ofNat contents.length + 1 = Int32.ofNat (contents.length + 1) :=
    (Int32.ofNat_add _ _).symm
  have length : (contents ++ [content]).length = contents.length + 1 := by simp
  rw [ofValues_texts, ofValues_texts, length, ← count]
  cases function with
  | least =>
    have result := (min_concat nonempty content "").trans ((min_comm _ _).trans (min_def_lt content _))
    simp only [AggregateFunction.ofTexts, result]
    rfl
  | greatest =>
    have result := (max_concat nonempty content "").trans (max_def_lt _ content)
    simp only [AggregateFunction.ofTexts, result]
    rfl
  | sum => exact absurd applies (by decide)
  | average => exact absurd applies (by decide)
  | count =>
    simp only [AggregateFunction.ofTexts, length, ← count]
    rfl

end Group

namespace Aggregator

abbrev Taken := Option Value × Value

def valuesOf (taken : List Taken) (key : Option Value) : List Value :=
  (taken.filter fun entry => entry.1 = key).map Prod.snd

def keysOf (taken : List Taken) : List (Option Value) := (taken.map Prod.fst).eraseDups

def groupsOf (input : ValueType) (function : AggregateFunction) (taken : List Taken) : List Group :=
  (keysOf taken).map fun key => .ofValues input function key (valuesOf taken key)

variable {taken : List Taken} {key other : Option Value} {value : Value}

theorem mem_keysOf_iff : key ∈ keysOf taken ↔ ∃ value, (key, value) ∈ taken := by
  simp [keysOf, List.mem_eraseDups]

theorem keysOf_concat (taken : List Taken) (key : Option Value) (value : Value) :
    keysOf (taken ++ [(key, value)]) =
      if key ∈ keysOf taken then keysOf taken else keysOf taken ++ [key] := by
  rw [keysOf, List.map_append, List.eraseDups_append, ← keysOf]
  by_cases known : key ∈ keysOf taken
  · have member := List.mem_eraseDups.mp known
    simp [known, List.removeAll, member]
  · have absent : key ∉ taken.map Prod.fst := fun member => known (List.mem_eraseDups.mpr member)
    simp [known, List.removeAll, absent, List.eraseDups_cons]

theorem nodup_keysOf (taken : List Taken) : (keysOf taken).Nodup := by
  induction taken using List.reverseRecOn with
  | nil => exact List.nodup_nil
  | append_singleton taken entry ih =>
    rw [keysOf_concat]
    split
    · exact ih
    · next unknown =>
      rw [List.nodup_append]
      exact ⟨ih, List.nodup_singleton _, fun one member other isLast same =>
        unknown (List.mem_singleton.mp isLast ▸ same ▸ member)⟩

theorem valuesOf_concat_self (taken : List Taken) (key : Option Value) (value : Value) :
    valuesOf (taken ++ [(key, value)]) key = valuesOf taken key ++ [value] := by
  simp [valuesOf]

theorem valuesOf_concat_other (taken : List Taken) (differs : other ≠ key) (value : Value) :
    valuesOf (taken ++ [(key, value)]) other = valuesOf taken other := by
  simp [valuesOf, differs.symm]

theorem valuesOf_ne_nil (known : key ∈ keysOf taken) : valuesOf taken key ≠ [] := by
  obtain ⟨value, member⟩ := mem_keysOf_iff.mp known
  have present : value ∈ valuesOf taken key := by simp [valuesOf, member]
  exact List.ne_nil_of_mem present

theorem valuesOf_of_unknown (unknown : key ∉ keysOf taken) : valuesOf taken key = [] := by
  have absent : ∀ value, (key, value) ∉ taken :=
    fun value member => unknown (mem_keysOf_iff.mpr ⟨value, member⟩)
  simp only [valuesOf, List.map_eq_nil_iff, List.filter_eq_nil_iff, decide_eq_true_eq]
  rintro ⟨first, second⟩ member rfl
  exact absent second member

theorem length_valuesOf_le (taken : List Taken) (key : Option Value) :
    (valuesOf taken key).length ≤ taken.length := by
  rw [valuesOf, List.length_map]
  exact List.length_filter_le ..

theorem length_groupsOf_le (input : ValueType) (function : AggregateFunction)
    (taken : List Taken) : (groupsOf input function taken).length ≤ taken.length := by
  rw [groupsOf, List.length_map]
  induction taken using List.reverseRecOn with
  | nil => exact Nat.le_refl 0
  | append_singleton taken entry ih =>
    rw [keysOf_concat, List.length_append, List.length_singleton]
    split
    · exact Nat.le_succ_of_le ih
    · rw [List.length_append, List.length_singleton]
      exact Nat.succ_le_succ ih

/-- The first group with a key is the group of that key. -/
theorem find_groups {keys : List (Option Value)} {group : Option Value → Group}
    (keyed : ∀ key, (group key).key = key) (key : Option Value) :
    (keys.map group).find? (·.key = key) = if key ∈ keys then some (group key) else none := by
  induction keys with
  | nil => rfl
  | cons first rest ih =>
    by_cases same : first = key
    · simp [same, keyed]
    · simp [same, keyed, ih, Ne.symm same]

theorem place_groups {keys : List (Option Value)} (nodup : keys.Nodup)
    {group : Option Value → Group} (keyed : ∀ key, (group key).key = key) (changed : Group) :
    place (keys.map group) changed =
      if changed.key ∈ keys then
        keys.map fun key => if key = changed.key then changed else group key
      else keys.map group ++ [changed] := by
  induction keys with
  | nil => rfl
  | cons first rest ih =>
    obtain ⟨unique, nodupRest⟩ := List.nodup_cons.mp nodup
    rw [List.map_cons, place, keyed]
    by_cases same : first = changed.key
    · have others : rest.map (fun key => if key = changed.key then changed else group key) =
          rest.map group := by
        apply List.map_congr_left
        intro key member
        have differs : key ≠ changed.key := fun equal => unique (same ▸ equal ▸ member)
        rw [if_neg differs]
      simp [same, others]
    · simp only [if_neg same, ih nodupRest, List.mem_cons, Ne.symm same, false_or, List.map_cons]
      split <;> rfl

/-- One more value: the group of its key is changed, or made and put behind the others. -/
theorem groupsOf_concat (input : ValueType) (function : AggregateFunction) (taken : List Taken)
    (key : Option Value) (value : Value) :
    groupsOf input function (taken ++ [(key, value)]) =
      place (groupsOf input function taken)
        (.ofValues input function key (valuesOf taken key ++ [value])) := by
  have keyed := fun key => Group.key_ofValues input function key (valuesOf taken key)
  rw [groupsOf, groupsOf, place_groups (nodup_keysOf taken) keyed, Group.key_ofValues, keysOf_concat]
  have same : (keysOf taken).map (fun other =>
      Group.ofValues input function other (valuesOf (taken ++ [(key, value)]) other)) =
      (keysOf taken).map fun other =>
        if other = key then Group.ofValues input function key (valuesOf taken key ++ [value])
        else Group.ofValues input function other (valuesOf taken other) := by
    apply List.map_congr_left
    intro other _
    by_cases equal : other = key
    · rw [if_pos equal, equal, valuesOf_concat_self]
    · rw [if_neg equal, valuesOf_concat_other taken equal]
  by_cases known : key ∈ keysOf taken
  · rw [if_pos known, if_pos known, same]
  · rw [if_neg known, if_neg known, List.map_append, List.map_singleton, valuesOf_concat_self]
    congr 1
    apply List.map_congr_left
    intro other member
    have differs : other ≠ key := fun equal => known (equal ▸ member)
    rw [valuesOf_concat_other taken differs]

theorem type_of_valuesOf {input : ValueType} (typed : ∀ entry ∈ taken, entry.2.type = input) :
    ∀ value ∈ valuesOf taken key, value.type = input := by
  intro value member
  obtain ⟨entry, isEntry, rfl⟩ := List.mem_map.mp member
  exact typed entry (List.mem_of_mem_filter isEntry)

variable {aggregator : Aggregator} {row : Row}

theorem find_of_groups
    (groups : aggregator.groups = groupsOf aggregator.input aggregator.function taken)
    (key : Option Value) :
    aggregator.groups.find? (·.key = key) = if key ∈ keysOf taken then
      some (.ofValues aggregator.input aggregator.function key (valuesOf taken key)) else none := by
  rw [groups, groupsOf]
  exact find_groups (fun key => Group.key_ofValues ..) key

theorem mergeValue_integer_eq
    (groups : aggregator.groups = groupsOf aggregator.input aggregator.function taken)
    (typed : ∀ entry ∈ taken, entry.2.type = aggregator.input)
    (input : aggregator.input = .integer) (key : Option Value) (number : Int32)
    (counted : aggregator.function = .average →
      Int32.ofNat ((valuesOf taken key).length + 1) ≠ 0) :
    mergeValue key (.integer number) aggregator = .ok () { aggregator with
      groups := place aggregator.groups (.ofValues .integer aggregator.function key
        (valuesOf taken key ++ [.integer number])) } := by
  have ofKey : ∀ value ∈ valuesOf taken key, value.type = .integer :=
    type_of_valuesOf (input ▸ typed)
  obtain ⟨numbers, isNumbers⟩ := Group.exists_integers ofKey
  have found := find_of_groups groups key
  rw [input] at found
  rw [mergeValue_integer input]
  by_cases known : key ∈ keysOf taken
  · have nonempty : numbers ≠ [] := by
      have present := valuesOf_ne_nil known
      rw [isNumbers] at present
      exact fun none => present (congrArg (List.map Value.integer) none)
    rw [isNumbers, List.length_map] at counted
    rw [if_pos known, isNumbers] at found
    rw [update_known found, Group.mergeInteger_eq nonempty number counted, isNumbers, List.map_append]
    rfl
  · rw [if_neg known] at found
    rw [update_unknown found, Group.startInteger_eq, valuesOf_of_unknown known]
    rfl

theorem mergeValue_text_eq
    (groups : aggregator.groups = groupsOf aggregator.input aggregator.function taken)
    (typed : ∀ entry ∈ taken, entry.2.type = aggregator.input)
    (applies : (aggregator.function.resultType? .text).isSome)
    (input : aggregator.input = .text) (key : Option Value) (content : String) :
    mergeValue key (.text content) aggregator = .ok () { aggregator with
      groups := place aggregator.groups (.ofValues .text aggregator.function key
        (valuesOf taken key ++ [.text content])) } := by
  have ofKey : ∀ value ∈ valuesOf taken key, value.type = .text := type_of_valuesOf (input ▸ typed)
  obtain ⟨contents, isContents⟩ := Group.exists_texts ofKey
  have found := find_of_groups groups key
  rw [input] at found
  rw [mergeValue_text input]
  by_cases known : key ∈ keysOf taken
  · have nonempty : contents ≠ [] := by
      have present := valuesOf_ne_nil known
      rw [isContents] at present
      exact fun none => present (congrArg (List.map Value.text) none)
    rw [if_pos known, isContents] at found
    rw [update_known found, Group.mergeText_eq applies nonempty content, isContents, List.map_append]
    rfl
  · rw [if_neg known] at found
    rw [update_unknown found, Group.startText_eq applies, valuesOf_of_unknown known]
    rfl

/-- An aggregator that has worked out the groups of all that it has taken takes one more value. -/
theorem mergeValue_eq (groups : aggregator.groups = groupsOf aggregator.input aggregator.function taken)
    (typed : ∀ entry ∈ taken, entry.2.type = aggregator.input)
    (applies : (aggregator.function.resultType? aggregator.input).isSome) (key : Option Value)
    (fits : value.type = aggregator.input)
    (counted : aggregator.function = .average →
      Int32.ofNat ((valuesOf taken key).length + 1) ≠ 0) :
    mergeValue key value aggregator = .ok () { aggregator with
      groups := groupsOf aggregator.input aggregator.function (taken ++ [(key, value)]) } := by
  rw [groupsOf_concat, ← groups]
  cases value with
  | integer number =>
    have input : aggregator.input = .integer := fits.symm
    rw [mergeValue_integer_eq groups typed input key number counted, input]
  | text content =>
    have input : aggregator.input = .text := fits.symm
    rw [input] at applies
    rw [mergeValue_text_eq groups typed applies input key content, input]

end Aggregator

end PagedStore
