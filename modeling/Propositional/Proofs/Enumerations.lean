import Mathlib
import Propositional.Formula.Joint
import Propositional.Proofs.Rows

/-!
# The assignments of an enumeration

An enumeration goes through the valuations in descending order and binds its names to
them, column by column.  What it yields are the assignments that bind exactly these
names; if the names are different, each of them comes once, and they descend in the
lexicographic order of their values.

* `Table.WordsSuffice` — what the word arithmetic of the rows has to keep to;
* `Table.pairwise_valuations` — valuations descend;
* `Enumeration.toList_eq_assignmentsOver` — the assignments without words and bits;
* `Assignment.mem_assignmentsOver` — exactly those that bind the names are yielded;
* `Enumeration.distinct_exact` — the enumeration of different names.
-/

namespace Propositional

namespace Table

/-- Words of 64 bits suffice for the rows over `n` names: no shift loses a bit or is as far as a
word is wide, and no subtraction goes below zero. -/
structure WordsSuffice (n : UInt64) : Prop where
  width_lt : n.toNat < 64
  toNat_rowCount : (rowCount n).toNat = 2 ^ n.toNat
  one_le : ∀ column < n, 1 ≤ n
  column_le : ∀ column < n, column ≤ n - 1
  toNat_shift : ∀ column < n, (n - 1 - column).toNat = n.toNat - 1 - column.toNat
  shift_lt : ∀ column < n, (n - 1 - column).toNat < 64
  toNat_row : ∀ row < (rowCount n).toNat, (UInt64.ofNat row).toNat = row

/-- Words suffice up to 63 names. -/
theorem wordsSuffice {n : UInt64} (h : n.toNat ≤ Ceiling.hardLimit) : WordsSuffice n := by
  have hn : n.toNat ≤ 63 := h
  have hpow : 2 ^ n.toNat ≤ 2 ^ 63 := Nat.pow_le_pow_right (by omega) hn
  refine ⟨by omega, toNat_rowCount h, fun _ hc => (sub_one_sub hc).1,
    fun _ hc => (sub_one_sub hc).2.1, fun _ hc => (sub_one_sub hc).2.2, ?_, ?_⟩
  · intro column hcolumn
    rw [(sub_one_sub hcolumn).2.2]
    omega
  · intro row hrow
    rw [toNat_rowCount h] at hrow
    rw [UInt64.toNat_ofNat', Nat.mod_eq_of_lt (by omega)]

/-- Valuations descend, true counting as more than false. -/
theorem pairwise_valuations (n : Nat) : (valuations n).Pairwise fun a b => b < a := by
  induction n with
  | zero => simp [valuations]
  | succ n ih =>
    have hcons (value : Bool) :
        ((valuations n).map (value :: ·)).Pairwise fun a b => b < a :=
      ih.map _ fun a b hlt => List.cons_lt_cons_iff.mpr (Or.inr ⟨rfl, hlt⟩)
    refine List.pairwise_append.mpr ⟨hcons true, hcons false, ?_⟩
    intro a ha b hb
    obtain ⟨_, _, rfl⟩ := List.mem_map.mp ha
    obtain ⟨_, _, rfl⟩ := List.mem_map.mp hb
    exact List.cons_lt_cons_iff.mpr (Or.inl (by decide))

theorem head?_valuations (n : Nat) : (valuations n).head? = some (List.replicate n true) := by
  induction n with
  | zero => rfl
  | succ n ih => simp [valuations, ih, List.replicate_succ]

theorem getLast?_valuations (n : Nat) :
    (valuations n).getLast? = some (List.replicate n false) := by
  induction n with
  | zero => rfl
  | succ n ih => simp [valuations, ih, List.replicate_succ]

end Table

namespace Assignment

/-- The assignments that bind the names column by column, in the order of the valuations. -/
def assignmentsOver (names : List String) : List Assignment :=
  (Table.valuations names.length).map fun values => ofList (names.zip values)

theorem length_assignmentsOver (names : List String) :
    (assignmentsOver names).length = 2 ^ names.length := by
  rw [assignmentsOver, List.length_map, Table.length_valuations]

/-- The value of a name that has to be bound. -/
theorem Binds.get?_eq {a : Assignment} {names : List String} (h : a.Binds names) {x : String}
    (hx : x ∈ names) : a.get? x = some (a.valuation x) := by
  obtain ⟨value, hvalue⟩ := Option.isSome_iff_exists.mp (h x hx)
  rw [valuation, hvalue]
  rfl

/-- An assignment of exactly these names is told by their values. -/
theorem eq_ofValuation {a : Assignment} {names : List String} (h : a.Binds names)
    (honly : a.BindsOnly names) : a = ofValuation names a.valuation := by
  refine honly.ext (bindsOnly_ofValuation names _) fun x hx => ?_
  rw [get?_ofValuation _ hx, h.get?_eq hx]

theorem ofValuation_eq_ofList_zip (names : List String) (v : String → Bool) :
    ofValuation names v = ofList (names.zip (names.map v)) := by
  have hzip : (names.map id).zip (names.map v) = names.map fun x => (id x, v x) := List.zip_map'
  rw [List.map_id] at hzip
  rw [hzip]
  rfl

/-- Columns bind their names and no others. -/
theorem isSome_get?_ofList_zip {names : List String} {values : List Bool}
    (h : values.length = names.length) (x : String) :
    ((ofList (names.zip values)).get? x).isSome = true ↔ x ∈ names := by
  rw [isSome_get?_ofList, List.map_fst_zip (Nat.le_of_eq h.symm)]

/-- Exactly the assignments that bind the names, and no other name, are listed. -/
theorem mem_assignmentsOver {a : Assignment} {names : List String} :
    a ∈ assignmentsOver names ↔ a.Binds names ∧ a.BindsOnly names := by
  constructor
  · intro h
    obtain ⟨values, hvalues, rfl⟩ := List.mem_map.mp h
    have hbound := isSome_get?_ofList_zip (Table.mem_valuations.mp hvalues)
    exact ⟨fun x hx => (hbound x).mpr hx, fun x hx => (hbound x).mp hx⟩
  · rintro ⟨h, honly⟩
    rw [eq_ofValuation h honly, ofValuation_eq_ofList_zip]
    exact List.mem_map_of_mem (Table.mem_valuations.mpr (List.length_map _))

section Distinct

variable {names : List String} (hnames : names.Nodup)

include hnames

/-- Different names have the values of their columns. -/
theorem map_valuation_ofList_zip {values : List Bool} (h : values.length = names.length) :
    names.map (ofList (names.zip values)).valuation = values := by
  refine List.ext_getElem? fun column => ?_
  rw [List.getElem?_map]
  cases hname : names[column]? with
  | none =>
    have hle : names.length ≤ column := List.getElem?_eq_none_iff.mp hname
    rw [Option.map_none, List.getElem?_eq_none (h ▸ hle)]
  | some name =>
    have hlt : column < values.length := h ▸ (List.getElem?_eq_some_iff.mp hname).1
    rw [Option.map_some, valuation, get?_ofList_zip hnames values hname,
      List.getElem?_eq_getElem hlt]
    rfl

/-- Over different names the assignments descend in the lexicographic order of their values. -/
theorem pairwise_assignmentsOver :
    (assignmentsOver names).Pairwise fun a b => names.map b.valuation < names.map a.valuation := by
  refine List.pairwise_map.mpr ((Table.pairwise_valuations names.length).imp_of_mem ?_)
  intro a b ha hb hlt
  rw [map_valuation_ofList_zip hnames (Table.mem_valuations.mp ha),
    map_valuation_ofList_zip hnames (Table.mem_valuations.mp hb)]
  exact hlt

theorem nodup_assignmentsOver : (assignmentsOver names).Nodup := by
  refine (pairwise_assignmentsOver hnames).imp ?_
  rintro a b hlt rfl
  exact lt_irrefl _ hlt

end Distinct

/-- Names that are all bound to one value have it. -/
theorem get?_ofList_zip_replicate {names : List String} {value : Bool} {x : String}
    (h : x ∈ names) :
    (ofList (names.zip (List.replicate names.length value))).get? x = some value := by
  have hreplicate : List.replicate names.length value = names.map fun _ => value :=
    List.map_const'.symm
  rw [hreplicate, ← ofValuation_eq_ofList_zip, get?_ofValuation _ h]

end Assignment

namespace Enumeration

/-- The assignments of an enumeration are those that bind its names column by column. -/
theorem toList_eq_assignmentsOver (e : Enumeration) :
    e.toList = Assignment.assignmentsOver e.names := by
  rw [toList_eq, Assignment.assignmentsOver, ← Table.map_bits_range, List.map_map]
  rfl

/-- What an enumeration of different names yields. -/
structure Descends (names : List String) (assignments : List Assignment) : Prop where
  /-- Every assignment of exactly these names comes, and nothing else. -/
  mem_iff : ∀ a, a ∈ assignments ↔ a.Binds names ∧ a.BindsOnly names
  /-- None comes twice. -/
  nodup : assignments.Nodup
  /-- Each is above the next in the lexicographic order of the values, true above false. -/
  descends : assignments.Pairwise fun a b => names.map b.valuation < names.map a.valuation
  first : ∃ a, assignments.head? = some a ∧ ∀ x ∈ names, a.get? x = some true
  last : ∃ a, assignments.getLast? = some a ∧ ∀ x ∈ names, a.get? x = some false

theorem descends_toList (e : Enumeration) (h : e.names.Nodup) : Descends e.names e.toList := by
  rw [toList_eq_assignmentsOver]
  refine ⟨fun _ => Assignment.mem_assignmentsOver, Assignment.nodup_assignmentsOver h,
    Assignment.pairwise_assignmentsOver h, ?_, ?_⟩
  · refine ⟨_, ?_, fun _ => Assignment.get?_ofList_zip_replicate⟩
    rw [Assignment.assignmentsOver, List.head?_map, Table.head?_valuations, Option.map_some]
  · refine ⟨_, ?_, fun _ => Assignment.get?_ofList_zip_replicate⟩
    rw [Assignment.assignmentsOver, List.getLast?_map, Table.getLast?_valuations, Option.map_some]

/-- Words suffice for the rows over up to 63 names, which are the valuations in their order; so
different names get every assignment once, from all true down to all false.  More names than that
are refused. -/
theorem distinct_exact :
    (∀ n : UInt64, n.toNat ≤ 63 →
      Table.WordsSuffice n ∧ Table.allValues n = Table.valuations n.toNat) ∧
    (∀ names : List String, names.Nodup → names.length ≤ 63 →
      ∃ e, ofNames names = .ok e ∧ Descends names e.toList) ∧
    (∀ names : List String, 64 ≤ names.length →
      ofNames names = .error (.tooManyVariables names.length 63)) := by
  refine ⟨fun n hn => ⟨Table.wordsSuffice hn, Table.allValues_eq_valuations hn⟩, ?_, ?_⟩
  · intro names hnodup hlength
    exact ⟨⟨names, hlength⟩, ofNames_of_le hlength, descends_toList ⟨names, hlength⟩ hnodup⟩
  · intro names hlength
    exact ofNames_of_lt hlength

/-- The widest rows, two names, and one name too many. -/
theorem distinct_exact_bounds :
    (Table.WordsSuffice 63 ∧ Table.allValues 63 = Table.valuations 63) ∧
    (["q", "p"].Nodup ∧ ∃ e, ofNames ["q", "p"] = .ok e ∧ Descends ["q", "p"] e.toList) ∧
    (64 ≤ (List.replicate 64 "p").length ∧
      ofNames (List.replicate 64 "p") = .error (.tooManyVariables 64 63)) := by
  obtain ⟨hwords, hdistinct, hrefused⟩ := distinct_exact
  have hlength : 64 ≤ (List.replicate 64 "p").length := by decide
  refine ⟨hwords 63 (by decide), ⟨by decide, hdistinct _ (by decide) (by decide)⟩, hlength, ?_⟩
  exact hrefused _ hlength

end Enumeration

end Propositional
