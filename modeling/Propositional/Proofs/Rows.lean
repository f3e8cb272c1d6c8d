import Mathlib
import Propositional.Table.Enumeration
import Propositional.Table.Valuations

/-!
# The rows of a table are the valuations

Counting the rows in binary lists the truth values in the same order as the
recursion on the number of names, and no word overflows on the way.

* `toNat_rowCount` — there are `2^n` rows, and the word that counts them does not
  overflow;
* `cell_eq` — a cell is true exactly if its bit of the row is `0`;
* `bits_index` — every list of values is the row that its `index` counts;
* `allValues_eq_valuations` — the rows over `n` names are all valuations of
  length `n`, true before false;
* `toList_eq` — the assignments of an enumeration, by the bits of their rows.
-/

namespace Propositional.Table

/-- With at most 63 names the number of rows is `2^n`: the word does not overflow. -/
theorem toNat_rowCount {n : UInt64} (h : n.toNat ≤ Ceiling.hardLimit) :
    (rowCount n).toNat = 2 ^ n.toNat := by
  have hn : n.toNat ≤ 63 := h
  have hpow : 2 ^ n.toNat < 2 ^ 64 := Nat.pow_lt_pow_right (by omega) (by omega)
  rw [rowCount, UInt64.toNat_shiftLeft, Nat.mod_eq_of_lt (by omega : n.toNat < 64),
    UInt64.toNat_one, Nat.one_shiftLeft, Nat.mod_eq_of_lt hpow]

/-- There are `2^n` valuations of length `n`. -/
theorem length_valuations (n : Nat) : (valuations n).length = 2 ^ n := by
  induction n with
  | zero => rfl
  | succ n ih =>
    simp only [valuations, List.length_append, List.length_map, ih]
    omega

/-- The columns are counted down from the last without going below zero. -/
theorem sub_one_sub {n column : UInt64} (h : column < n) :
    1 ≤ n ∧ column ≤ n - 1 ∧ (n - 1 - column).toNat = n.toNat - 1 - column.toNat := by
  have hlt : column.toNat < n.toNat := UInt64.lt_iff_toNat_lt.mp h
  have hpos : 1 ≤ n := UInt64.le_iff_toNat_le.mpr (by rw [UInt64.toNat_one]; omega)
  have hone : (n - 1).toNat = n.toNat - 1 := UInt64.toNat_sub_of_le _ _ hpos
  have hcolumn : column ≤ n - 1 := UInt64.le_iff_toNat_le.mpr (by omega)
  exact ⟨hpos, hcolumn, by rw [UInt64.toNat_sub_of_le _ _ hcolumn, hone]⟩

/-- A cell is true exactly if its bit of the number of the row is `0`; the first column has the
highest bit. -/
theorem cell_eq {n row column : UInt64} (hcolumn : column.toNat < n.toNat)
    (hn : n.toNat ≤ Ceiling.hardLimit) :
    cell n row column = !row.toNat.testBit (n.toNat - 1 - column.toNat) := by
  have hn63 : n.toNat ≤ 63 := hn
  have hshift : (n - 1 - column).toNat = n.toNat - 1 - column.toNat :=
    (sub_one_sub (UInt64.lt_iff_toNat_lt.mpr hcolumn)).2.2
  have hbit : ((row >>> (n - 1 - column)) &&& 1).toNat =
      row.toNat / 2 ^ (n.toNat - 1 - column.toNat) % 2 := by
    have hsmall : n.toNat - 1 - column.toNat < 64 := by omega
    rw [UInt64.toNat_and, UInt64.toNat_shiftRight, hshift, UInt64.toNat_one,
      Nat.and_one_is_mod, Nat.mod_eq_of_lt hsmall, Nat.shiftRight_eq_div_pow]
  have hzero : (row >>> (n - 1 - column)) &&& 1 = 0 ↔
      row.toNat / 2 ^ (n.toNat - 1 - column.toNat) % 2 = 0 := by
    rw [← UInt64.toNat_inj, hbit]
    rfl
  rw [cell, Nat.testBit_eq_decide_div_mod_eq, Bool.eq_iff_iff, beq_iff_eq, hzero]
  simp

/-- The values of row `row` over `n` names, by the bits of `row`. -/
def bits (n row : Nat) : List Bool :=
  (List.range n).map fun column => !row.testBit (n - 1 - column)

theorem values_eq_bits {n : UInt64} (hn : n.toNat ≤ Ceiling.hardLimit) {row : Nat}
    (hrow : row < 2 ^ n.toNat) : values n (UInt64.ofNat row) = bits n.toNat row := by
  have hn63 : n.toNat ≤ 63 := hn
  have hpow : 2 ^ n.toNat ≤ 2 ^ 63 := Nat.pow_le_pow_right (by omega) hn63
  refine List.map_congr_left fun column hcolumn => ?_
  have hlt : column < n.toNat := List.mem_range.mp hcolumn
  have htoNat : (UInt64.ofNat column).toNat = column := by
    rw [UInt64.toNat_ofNat', Nat.mod_eq_of_lt (by omega)]
  rw [cell_eq (by rw [htoNat]; exact hlt) hn, htoNat, UInt64.toNat_ofNat',
    Nat.mod_eq_of_lt (by omega)]

/-- In the first half of the rows the first value is true, in the second half false. -/
theorem bits_succ (n row : Nat) :
    bits (n + 1) row = (!row.testBit n) :: bits n row := by
  rw [bits, List.range_succ_eq_map, List.map_cons, List.map_map]
  refine List.cons_eq_cons.mpr ⟨rfl, List.map_congr_left fun column hcolumn => ?_⟩
  have hlt : column < n := List.mem_range.mp hcolumn
  have hindex : n + 1 - 1 - column.succ = n - 1 - column := by omega
  simp only [Function.comp_apply, hindex]

@[simp] theorem length_bits (n row : Nat) : (bits n row).length = n := by
  simp [bits]

/-- The value in a column is true exactly if its bit of the row is `0`. -/
theorem getElem?_bits {n column : Nat} (row : Nat) (h : column < n) :
    (bits n row)[column]? = some (!row.testBit (n - 1 - column)) := by
  rw [bits, List.getElem?_map, List.getElem?_range h, Option.map_some]

/-- The values see nothing of a row beyond the bits of its columns. -/
theorem bits_two_pow_add (n row : Nat) : bits n (2 ^ n + row) = bits n row := by
  refine List.map_congr_left fun column hcolumn => ?_
  have hlt : column < n := List.mem_range.mp hcolumn
  rw [Nat.testBit_two_pow_add_gt (by omega)]

/-- The row in which the values stand: a false value passes over the rows of all the columns
behind it. -/
def index : List Bool → Nat
  | [] => 0
  | value :: rest => (if value then 0 else 2 ^ rest.length) + index rest

theorem index_lt (values : List Bool) : index values < 2 ^ values.length := by
  induction values with
  | nil => decide
  | cons value rest ih =>
    have hpow : 2 ^ (rest.length + 1) = 2 ^ rest.length + 2 ^ rest.length := by omega
    rw [index, List.length_cons, hpow]
    split <;> omega

/-- Every list of values is the row that its index counts. -/
theorem bits_index (values : List Bool) : bits values.length (index values) = values := by
  induction values with
  | nil => rfl
  | cons value rest ih =>
    have hbit : (index rest).testBit rest.length = false :=
      Nat.testBit_lt_two_pow (index_lt rest)
    rw [index, List.length_cons, bits_succ]
    cases value with
    | true => rw [if_pos rfl, Nat.zero_add, hbit, ih]; rfl
    | false =>
      rw [if_neg Bool.false_ne_true, Nat.testBit_two_pow_add_eq, hbit, bits_two_pow_add, ih]
      rfl

theorem map_bits_range (n : Nat) : (List.range (2 ^ n)).map (bits n) = valuations n := by
  induction n with
  | zero => rfl
  | succ n ih =>
    have hpow : 2 ^ (n + 1) = 2 ^ n + 2 ^ n := by omega
    rw [hpow, List.range_add, List.map_append, List.map_map, valuations, ← ih, List.map_map,
      List.map_map]
    refine congr (congrArg _ (List.map_congr_left fun row hrow => ?_))
      (List.map_congr_left fun row hrow => ?_)
    · have hbit : row.testBit n = false := Nat.testBit_lt_two_pow (List.mem_range.mp hrow)
      rw [bits_succ, hbit]
      rfl
    · have hbit : row.testBit n = false := Nat.testBit_lt_two_pow (List.mem_range.mp hrow)
      show bits (n + 1) (2 ^ n + row) = false :: bits n row
      rw [bits_succ, Nat.testBit_two_pow_add_eq, hbit, bits_two_pow_add]
      rfl

/-- The rows over `n` names, by the bits of their numbers. -/
theorem allValues_eq_map_bits {n : UInt64} (hn : n.toNat ≤ Ceiling.hardLimit) :
    allValues n = (List.range (2 ^ n.toNat)).map (bits n.toNat) := by
  rw [allValues, toNat_rowCount hn]
  exact List.map_congr_left fun row hrow => values_eq_bits hn (List.mem_range.mp hrow)

/-- The rows over `n` names are all valuations of length `n`, true before false. -/
theorem allValues_eq_valuations {n : UInt64} (hn : n.toNat ≤ Ceiling.hardLimit) :
    allValues n = valuations n.toNat := by
  rw [allValues_eq_map_bits hn, map_bits_range]

end Propositional.Table

namespace Propositional.Enumeration

/-- The width of at most 63 columns fits into its word. -/
theorem toNat_width_le (e : Enumeration) : e.width.toNat ≤ Ceiling.hardLimit := by
  rw [toNat_width]
  exact e.fits

/-- There are `2^n` rows over `n` names. -/
theorem size_eq (e : Enumeration) : e.size = 2 ^ e.names.length := by
  rw [size, Table.toNat_rowCount e.toNat_width_le, toNat_width]

/-- The assignments of an enumeration, by the bits of their rows. -/
theorem toList_eq (e : Enumeration) :
    e.toList = (List.range (2 ^ e.names.length)).map fun row =>
      Assignment.ofList (e.names.zip (Table.bits e.names.length row)) := by
  rw [toList, size_eq]
  refine List.map_congr_left fun row hrow => ?_
  have hlt : row < 2 ^ e.width.toNat := by
    rw [toNat_width]
    exact List.mem_range.mp hrow
  rw [assignment, Table.values_eq_bits e.toNat_width_le hlt, toNat_width]

end Propositional.Enumeration
