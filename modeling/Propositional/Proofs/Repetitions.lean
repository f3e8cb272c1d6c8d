import Mathlib
import Propositional.Proofs.Enumerations

/-!
# Enumerations that repeat names

A name that stands in several columns has the value of the last of them, so the columns
before it are not seen.  An enumeration of `n` columns over `d` different names has
`2 ^ n` rows all the same, and every assignment comes once for each way to fill the
`n - d` columns that are not seen.

The count is by recursion on the columns: the values of a first column whose name comes
again are both as good, and those of any other first column are told apart by the
assignment.

* `Assignment.get?_ofList_zip_cons` — a pair counts if no later pair has its name;
* `Assignment.exists_lastColumn` — the last column of a name has its value;
* `Assignment.countP_agrees` — how many rows give the names their values;
* `Enumeration.repeated_exact` — the enumeration of names that may be repeated.
-/

namespace Propositional

namespace Assignment

section Cons

variable {name x : String} {rest : List String} {value : Bool} {values : List Bool}

theorem get?_ofList_zip_cons :
    (ofList ((name :: rest).zip (value :: values))).get? x =
      ((ofList (rest.zip values)).get? x).or (if name = x then some value else none) := by
  rw [List.zip_cons_cons, get?_ofList, get?_ofList, List.reverse_cons, List.lookup_append,
    lookup_cons_eq, List.lookup_nil]

/-- The first column is not seen by the names that come behind it. -/
theorem get?_ofList_zip_cons_of_mem (h : values.length = rest.length) (hx : x ∈ rest) :
    (ofList ((name :: rest).zip (value :: values))).get? x =
      (ofList (rest.zip values)).get? x := by
  obtain ⟨found, hfound⟩ := Option.isSome_iff_exists.mp ((isSome_get?_ofList_zip h x).mpr hx)
  rw [get?_ofList_zip_cons, hfound, Option.some_or]

/-- If its own name does not come again, it has the value of the first column. -/
theorem get?_ofList_zip_cons_of_notMem (h : values.length = rest.length) (hname : name ∉ rest) :
    (ofList ((name :: rest).zip (value :: values))).get? name = some value := by
  have hnone : (ofList (rest.zip values)).get? name = none := by
    rw [← Option.not_isSome_iff_eq_none, isSome_get?_ofList_zip h]
    exact hname
  rw [get?_ofList_zip_cons, hnone, Option.none_or, if_pos rfl]

end Cons

/-- The last column of a name has its value. -/
theorem exists_lastColumn {names : List String} {x : String} (hx : x ∈ names) :
    ∃ column, IsGreatest {j : Nat | names[j]? = some x} column ∧
      ∀ values : List Bool, values.length = names.length →
        (ofList (names.zip values)).get? x = values[column]? := by
  induction names with
  | nil => exact absurd hx List.not_mem_nil
  | cons name rest ih =>
    by_cases hrest : x ∈ rest
    · obtain ⟨column, ⟨hcolumn, hlast⟩, hvalue⟩ := ih hrest
      refine ⟨column + 1, ⟨hcolumn, ?_⟩, ?_⟩
      · intro j hj
        cases j with
        | zero => exact Nat.zero_le _
        | succ j => exact Nat.succ_le_succ (hlast hj)
      · intro values hvalues
        cases values with
        | nil => cases hvalues
        | cons value values =>
          have hlength : values.length = rest.length := Nat.succ.inj hvalues
          rw [get?_ofList_zip_cons_of_mem hlength hrest, hvalue values hlength]
          rfl
    · obtain rfl : x = name := (List.mem_cons.mp hx).resolve_right hrest
      refine ⟨0, ⟨rfl, ?_⟩, ?_⟩
      · intro j hj
        cases j with
        | zero => exact Nat.le_refl _
        | succ j =>
          have hj' : rest[j]? = some x := hj
          exact absurd (List.mem_of_getElem? hj') hrest
      · intro values hvalues
        cases values with
        | nil => cases hvalues
        | cons value values =>
          exact get?_ofList_zip_cons_of_notMem (Nat.succ.inj hvalues) hrest

/-- Do the columns give every name its value? -/
def agrees (v : String → Bool) (names : List String) (values : List Bool) : Bool :=
  names.all fun x => (ofList (names.zip values)).get? x == some (v x)

theorem agrees_iff {v : String → Bool} {names : List String} {values : List Bool} :
    agrees v names values = true ↔
      ∀ x ∈ names, (ofList (names.zip values)).get? x = some (v x) := by
  simp only [agrees, List.all_eq_true, beq_iff_eq]

/-- A first column whose name comes again is not seen; any other has to hold the value of its
name. -/
theorem agrees_cons_iff {v : String → Bool} {name : String} {rest : List String} {value : Bool}
    {values : List Bool} (h : values.length = rest.length) :
    agrees v (name :: rest) (value :: values) = true ↔
      (name ∈ rest ∨ value = v name) ∧ agrees v rest values = true := by
  rw [agrees_iff, agrees_iff]
  constructor
  · intro hall
    refine ⟨?_, fun x hx => ?_⟩
    · by_cases hname : name ∈ rest
      · exact Or.inl hname
      · have hvalue := hall name List.mem_cons_self
        rw [get?_ofList_zip_cons_of_notMem h hname] at hvalue
        exact Or.inr (Option.some.inj hvalue)
    · rw [← get?_ofList_zip_cons_of_mem h hx]
      exact hall x (List.mem_cons_of_mem _ hx)
  · rintro ⟨hfirst, hall⟩ x hx
    by_cases hrest : x ∈ rest
    · rw [get?_ofList_zip_cons_of_mem h hrest]
      exact hall x hrest
    · obtain rfl : x = name := (List.mem_cons.mp hx).resolve_right hrest
      rw [get?_ofList_zip_cons_of_notMem h hrest, hfirst.resolve_left hrest]

/-- The rows whose first value is the given one, and which give the names their values: all that
do so without the first column, or none. -/
theorem countP_agrees_cons (v : String → Bool) (name : String) (rest : List String)
    (value : Bool) :
    ((Table.valuations rest.length).map (value :: ·)).countP (agrees v (name :: rest)) =
      if name ∈ rest ∨ value = v name then
        (Table.valuations rest.length).countP (agrees v rest)
      else 0 := by
  rw [List.countP_map]
  split
  · rename_i hfirst
    refine List.countP_congr fun values hvalues => ?_
    rw [Function.comp_apply, agrees_cons_iff (Table.mem_valuations.mp hvalues)]
    exact and_iff_right hfirst
  · rename_i hfirst
    refine List.countP_eq_zero.mpr fun values hvalues => ?_
    rw [Function.comp_apply, agrees_cons_iff (Table.mem_valuations.mp hvalues)]
    exact fun h => hfirst h.1

/-- The columns that are not seen can be filled in every way. -/
theorem countP_agrees (v : String → Bool) (names : List String) :
    (Table.valuations names.length).countP (agrees v names) =
      2 ^ (names.length - names.dedup.length) := by
  induction names with
  | nil => rfl
  | cons name rest ih =>
    have hle : rest.dedup.length ≤ rest.length := (List.dedup_sublist rest).length_le
    rw [List.length_cons, Table.valuations, List.countP_append, countP_agrees_cons,
      countP_agrees_cons, ih]
    by_cases hname : name ∈ rest
    · rw [if_pos (Or.inl hname), if_pos (Or.inl hname), List.dedup_cons_of_mem hname,
        Nat.sub_add_comm hle, Nat.pow_succ]
      omega
    · rw [List.dedup_cons_of_notMem hname, List.length_cons, Nat.add_sub_add_right]
      cases v name <;> simp [hname]

/-- The columns give the names the values of an assignment of exactly these names if and only if
they make up that assignment. -/
theorem ofList_zip_eq_iff {a : Assignment} {names : List String} (h : a.Binds names)
    (honly : a.BindsOnly names) {values : List Bool} (hvalues : values.length = names.length) :
    ofList (names.zip values) = a ↔ agrees a.valuation names values = true := by
  rw [agrees_iff]
  constructor
  · rintro rfl x hx
    exact h.get?_eq hx
  · intro hall
    have hbindsOnly : (ofList (names.zip values)).BindsOnly names := fun x =>
      (isSome_get?_ofList_zip hvalues x).mp
    refine hbindsOnly.ext honly fun x hx => ?_
    rw [hall x hx, h.get?_eq hx]

/-- Every assignment of exactly the names comes once for each way to fill the columns that are not
seen. -/
theorem count_assignmentsOver {a : Assignment} {names : List String} (h : a.Binds names)
    (honly : a.BindsOnly names) :
    (assignmentsOver names).count a = 2 ^ (names.length - names.dedup.length) := by
  rw [← countP_agrees a.valuation names, assignmentsOver, List.count, List.countP_map]
  refine List.countP_congr fun values hvalues => ?_
  rw [Function.comp_apply, beq_iff_eq, ofList_zip_eq_iff h honly (Table.mem_valuations.mp hvalues)]

/-- There are as many assignments of exactly the names as valuations of the different ones. -/
theorem ncard_assignments (names : List String) :
    {a : Assignment | a.Binds names ∧ a.BindsOnly names}.ncard = 2 ^ names.dedup.length := by
  have hset : {a : Assignment | a.Binds names ∧ a.BindsOnly names} =
      ((assignmentsOver names.dedup).toFinset : Set Assignment) := by
    ext a
    simp only [List.coe_toFinset, Set.mem_ofPred_eq, mem_assignmentsOver, Binds, BindsOnly,
      List.mem_dedup]
  rw [hset, Set.ncard_coe_finset,
    List.toFinset_card_of_nodup (nodup_assignmentsOver names.nodup_dedup),
    length_assignmentsOver]

end Assignment

namespace Enumeration

/-- What an enumeration of names that may be repeated yields. -/
structure Repeats (names : List String) (assignments : List Assignment) : Prop where
  length_eq : assignments.length = 2 ^ names.length
  /-- Every assignment binds exactly the names. -/
  binds : ∀ a ∈ assignments, a.Binds names ∧ a.BindsOnly names
  /-- The value of a name in a row is true exactly if the bit of its last column is `0`. -/
  value_eq : ∀ (row : Nat) (a : Assignment), assignments[row]? = some a → ∀ x ∈ names,
    ∃ column, IsGreatest {j : Nat | names[j]? = some x} column ∧
      a.get? x = some (!row.testBit (names.length - 1 - column))
  /-- There are so many assignments of exactly the names, -/
  ncard_eq : {a : Assignment | a.Binds names ∧ a.BindsOnly names}.ncard = 2 ^ names.dedup.length
  /-- and each of them comes so many times. -/
  count_eq : ∀ a : Assignment, a.Binds names → a.BindsOnly names →
    assignments.count a = 2 ^ (names.length - names.dedup.length)

theorem repeats_toList (e : Enumeration) : Repeats e.names e.toList := by
  refine ⟨?_, ?_, ?_, Assignment.ncard_assignments e.names, ?_⟩
  · rw [toList_eq_assignmentsOver, Assignment.length_assignmentsOver]
  · intro a ha
    rw [toList_eq_assignmentsOver] at ha
    exact Assignment.mem_assignmentsOver.mp ha
  · intro row a ha x hx
    obtain ⟨column, hcolumn, hvalue⟩ := Assignment.exists_lastColumn hx
    have hlt : column < e.names.length := (List.getElem?_eq_some_iff.mp hcolumn.1).1
    rw [toList_eq, List.getElem?_map] at ha
    obtain ⟨number, hnumber, rfl⟩ := Option.map_eq_some_iff.mp ha
    obtain ⟨_, rfl⟩ := List.getElem?_eq_some_iff.mp hnumber
    refine ⟨column, hcolumn, ?_⟩
    rw [hvalue _ (Table.length_bits _ _), Table.getElem?_bits _ hlt, List.getElem_range]
  · intro a h honly
    rw [toList_eq_assignmentsOver]
    exact Assignment.count_assignmentsOver h honly

/-- Up to 63 columns there is an enumeration, also if names are repeated: its rows are as many as
with different names, the last column of a name counts, and every assignment comes as often as the
other columns can be filled. -/
theorem repeated_exact (names : List String) (h : names.length ≤ 63) :
    ∃ e, ofNames names = .ok e ∧ Repeats names e.toList :=
  ⟨⟨names, h⟩, ofNames_of_le h, repeats_toList ⟨names, h⟩⟩

/-- Three columns over two names. -/
theorem repeated_exact_twice :
    ["p", "q", "p"].length ≤ 63 ∧
      ∃ e, ofNames ["p", "q", "p"] = .ok e ∧ Repeats ["p", "q", "p"] e.toList :=
  ⟨by decide, repeated_exact _ (by decide)⟩

end Enumeration

end Propositional
