/-!
# Sorted names

A set of names is kept as a list in strictly increasing order, code point by
code point, so that two sets are equal exactly when they hold the same names.
Any text is a name, but only runs of `a` to `z` can be written in a source text.

* `mem_ofList` — collecting a list keeps exactly its names;
* `ordered_ofList` — the collected list is strictly increasing;
* `eq_of_mem_iff` — two strictly increasing lists with the same names are equal.
-/

namespace Propositional.Names

/-- Can the name be written in a source text? -/
def Spellable (name : String) : Prop :=
  name.toList ≠ [] ∧ ∀ c ∈ name.toList, c.isLower = true

instance (name : String) : Decidable (Spellable name) :=
  decidable_of_iff ((!name.toList.isEmpty && name.toList.all Char.isLower) = true)
    (by simp [Spellable])

/-- Strictly increasing order of names. -/
def Ordered (names : List String) : Prop := names.Pairwise (· < ·)

/-- Puts a name in its place, unless it is there already. -/
def insert (name : String) : List String → List String
  | [] => [name]
  | head :: rest =>
    if name < head then name :: head :: rest
    else if name = head then head :: rest
    else head :: insert name rest

/-- The names of a list, sorted and without repetition. -/
def ofList (names : List String) : List String := names.foldl (fun set name => insert name set) []

/-- Of two different names, one that is not below the other is above it. -/
theorem lt_of_not_lt_of_ne {a b : String} (hlt : ¬ a < b) (hne : a ≠ b) : b < a := by
  by_cases h : b < a
  · exact h
  · exact absurd (String.le_antisymm (String.not_lt.mp h) (String.not_lt.mp hlt)) hne

theorem mem_insert {x name : String} {names : List String} :
    x ∈ insert name names ↔ x = name ∨ x ∈ names := by
  induction names with
  | nil => simp [insert]
  | cons head rest ih =>
    rw [insert]
    split
    · simp
    · split
      · rename_i h
        simp [h]
      · simp only [List.mem_cons, ih]
        constructor <;> rintro (h | h | h) <;> simp [h]

theorem ordered_insert (name : String) {names : List String} (h : Ordered names) :
    Ordered (insert name names) := by
  induction names with
  | nil => simp [insert, Ordered]
  | cons head rest ih =>
    obtain ⟨hhead, hrest⟩ := List.pairwise_cons.mp h
    rw [insert]
    split
    · rename_i hlt
      refine List.pairwise_cons.mpr ⟨?_, h⟩
      intro x hx
      rcases List.mem_cons.mp hx with rfl | hx
      · exact hlt
      · exact String.lt_trans hlt (hhead x hx)
    · split
      · exact h
      · rename_i hlt hne
        refine List.pairwise_cons.mpr ⟨?_, ih hrest⟩
        intro x hx
        rcases mem_insert.mp hx with rfl | hx
        · exact lt_of_not_lt_of_ne hlt hne
        · exact hhead x hx

private theorem foldl_insert (names set : List String) (h : Ordered set) :
    Ordered (names.foldl (fun set name => insert name set) set) ∧
      ∀ x, x ∈ names.foldl (fun set name => insert name set) set ↔ x ∈ names ∨ x ∈ set := by
  induction names generalizing set with
  | nil => simp [h]
  | cons name rest ih =>
    obtain ⟨hord, hmem⟩ := ih (insert name set) (ordered_insert name h)
    refine ⟨hord, fun x => ?_⟩
    rw [List.foldl_cons, hmem, mem_insert, List.mem_cons]
    constructor
    · rintro (h | h | h)
      · exact Or.inl (Or.inr h)
      · exact Or.inl (Or.inl h)
      · exact Or.inr h
    · rintro ((h | h) | h)
      · exact Or.inr (Or.inl h)
      · exact Or.inl h
      · exact Or.inr (Or.inr h)

/-- Collecting a list keeps exactly its names. -/
theorem mem_ofList {x : String} {names : List String} : x ∈ ofList names ↔ x ∈ names := by
  simp [ofList, (foldl_insert names [] List.Pairwise.nil).2 x]

/-- The collected names are strictly increasing. -/
theorem ordered_ofList (names : List String) : Ordered (ofList names) :=
  (foldl_insert names [] List.Pairwise.nil).1

/-- No name occurs twice in a strictly increasing list. -/
theorem Ordered.nodup {names : List String} (h : Ordered names) : names.Nodup := by
  refine List.Pairwise.imp ?_ h
  intro a b hlt heq
  subst heq
  exact String.lt_irrefl a hlt

/-- What is sorted by its names has them in increasing order. -/
theorem pairwise_mergeSort {α : Type} (name : α → String) (xs : List α) :
    (xs.mergeSort fun a b => name a ≤ name b).Pairwise fun a b => name a ≤ name b := by
  have htrans (a b c : α) (hab : decide (name a ≤ name b) = true)
      (hbc : decide (name b ≤ name c) = true) : decide (name a ≤ name c) = true :=
    decide_eq_true (String.le_trans (of_decide_eq_true hab) (of_decide_eq_true hbc))
  have htotal (a b : α) : (decide (name a ≤ name b) || decide (name b ≤ name a)) = true := by
    rw [Bool.or_eq_true, decide_eq_true_eq, decide_eq_true_eq]
    exact String.le_total (name a) (name b)
  exact (List.pairwise_mergeSort htrans htotal xs).imp of_decide_eq_true

/-- Strictly increasing lists with the same names are equal. -/
theorem eq_of_mem_iff {a b : List String} (ha : Ordered a) (hb : Ordered b)
    (h : ∀ x, x ∈ a ↔ x ∈ b) : a = b := by
  have hperm : a.Perm b := (List.perm_ext_iff_of_nodup ha.nodup hb.nodup).mpr h
  refine hperm.eq_of_pairwise ?_ ha hb
  intro x y _ _ hlt hgt
  exact absurd hgt (String.lt_asymm hlt)

end Propositional.Names
