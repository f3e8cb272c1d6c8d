import Propositional.Error
import Propositional.Names
import Propositional.TruthValue

/-!
# Assignments

An assignment binds finitely many names to truth values; the last write to a
name counts.  The bindings are kept in strictly increasing order of their names,
so the order of the writes is forgotten and equal assignments are equal values.

* `get?_insert` — a write is seen at its own name and nowhere else;
* `ext_get?` — assignments that agree at every name are equal;
* `get?_ofList` — of several pairs with one name, the last counts;
* `get?_ofList_zip` — over different names every value is bound to its own name.
-/

namespace Propositional

/-- Finitely many names with a truth value each, in strictly increasing order of names. -/
structure Assignment where
  bindings : List (String × Bool)
  ordered : bindings.Pairwise fun a b => a.1 < b.1
deriving DecidableEq

namespace Assignment

/-- Writes a binding into its place in an ordered list. -/
def write (name : String) (value : Bool) : List (String × Bool) → List (String × Bool)
  | [] => [(name, value)]
  | head :: rest =>
    if head.1 < name then head :: write name value rest
    else if head.1 = name then (name, value) :: rest
    else (name, value) :: head :: rest

theorem mem_write {b : String × Bool} {name : String} {value : Bool}
    {bindings : List (String × Bool)} (h : b ∈ write name value bindings) :
    b = (name, value) ∨ b ∈ bindings := by
  induction bindings with
  | nil => simpa [write] using h
  | cons head rest ih =>
    rw [write] at h
    split at h
    · rcases List.mem_cons.mp h with h | h
      · exact Or.inr (h ▸ List.mem_cons_self)
      · exact (ih h).imp id (List.mem_cons_of_mem _)
    · split at h
      · rcases List.mem_cons.mp h with h | h
        · exact Or.inl h
        · exact Or.inr (List.mem_cons_of_mem _ h)
      · simpa using h

theorem ordered_write (name : String) (value : Bool) {bindings : List (String × Bool)}
    (h : bindings.Pairwise fun a b => a.1 < b.1) :
    (write name value bindings).Pairwise fun a b => a.1 < b.1 := by
  induction bindings with
  | nil => simp [write]
  | cons head rest ih =>
    obtain ⟨hhead, hrest⟩ := List.pairwise_cons.mp h
    rw [write]
    split
    · rename_i hlt
      refine List.pairwise_cons.mpr ⟨fun b hb => ?_, ih hrest⟩
      rcases mem_write hb with rfl | hb
      · exact hlt
      · exact hhead b hb
    · split
      · rename_i heq
        exact List.pairwise_cons.mpr ⟨fun b hb => heq ▸ hhead b hb, hrest⟩
      · rename_i hlt hne
        have hname : name < head.1 := Names.lt_of_not_lt_of_ne hlt hne
        refine List.pairwise_cons.mpr ⟨fun b hb => ?_, h⟩
        rcases List.mem_cons.mp hb with rfl | hb
        · exact hname
        · exact String.lt_trans hname (hhead b hb)

/-- No binding at all. -/
def empty : Assignment := ⟨[], List.Pairwise.nil⟩

/-- Binds `name` to `value`, whether or not it was bound before. -/
def insert (a : Assignment) (name : String) (value : Bool) : Assignment :=
  ⟨write name value a.bindings, ordered_write name value a.ordered⟩

/-- Writes the pairs one after the other. -/
def insertAll (a : Assignment) (pairs : List (String × Bool)) : Assignment :=
  pairs.foldl (fun a pair => a.insert pair.1 pair.2) a

/-- The assignment of the pairs; of pairs with one name, the last counts. -/
def ofList (pairs : List (String × Bool)) : Assignment := empty.insertAll pairs

/-- The value bound to `name`, if it is bound. -/
def get? (a : Assignment) (name : String) : Option Bool := a.bindings.lookup name

/-- The value bound to `name`; an absent name is an error. -/
def lookup (a : Assignment) (name : String) : Except Error Bool :=
  match a.get? name with
  | some value => .ok value
  | none => .error (.unboundVariable name)

/-- Are all of the names bound?  Others may be bound too. -/
def Binds (a : Assignment) (names : List String) : Prop :=
  ∀ x ∈ names, (a.get? x).isSome = true

instance (a : Assignment) (names : List String) : Decidable (a.Binds names) :=
  inferInstanceAs (Decidable (∀ x ∈ names, (a.get? x).isSome = true))

/-- Is no name bound but these? -/
def BindsOnly (a : Assignment) (names : List String) : Prop :=
  ∀ x, (a.get? x).isSome = true → x ∈ names

/-- The value of every name; a name that is not bound counts as false. -/
def valuation (a : Assignment) (x : String) : Bool := (a.get? x).getD false

/-- The number of names bound. -/
def size (a : Assignment) : Nat := a.bindings.length

/-- Is no name bound? -/
def isEmpty (a : Assignment) : Bool := a.bindings.isEmpty

/-- The bindings in increasing order of names. -/
def toList (a : Assignment) : List (String × Bool) := a.bindings

/-- The bindings in increasing order, as `\x7bp: T, q: F\x7d`. -/
def render (a : Assignment) : String :=
  "\x7b" ++
    ", ".intercalate (a.toList.map fun b => b.1 ++ ": " ++ (TruthValue.mk b.2).symbol) ++
    "\x7d"

/-- Looking a name up in front of other bindings. -/
theorem lookup_cons_eq (x : String) (head : String × Bool) (rest : List (String × Bool)) :
    (head :: rest).lookup x = if head.1 = x then some head.2 else rest.lookup x := by
  rw [List.lookup_cons]
  by_cases h : head.1 = x
  · rw [if_pos h, h, beq_self_eq_true]
  · have hne : (x == head.1) = false := beq_eq_false_iff_ne.mpr fun hx => h hx.symm
    rw [if_neg h, hne]

theorem lookup_write (x name : String) (value : Bool) (bindings : List (String × Bool)) :
    (write name value bindings).lookup x = if name = x then some value else bindings.lookup x := by
  induction bindings with
  | nil => rw [write, lookup_cons_eq]
  | cons head rest ih =>
    rw [write]
    split
    · rename_i hlt
      rw [lookup_cons_eq, lookup_cons_eq, ih]
      by_cases hx : head.1 = x
      · have hname : ¬ name = x := fun h =>
          String.lt_irrefl x (by rw [hx, h] at hlt; exact hlt)
        rw [if_pos hx, if_pos hx, if_neg hname]
      · rw [if_neg hx, if_neg hx]
    · split
      · rename_i heq
        rw [lookup_cons_eq, lookup_cons_eq, heq]
        split <;> rfl
      · rw [lookup_cons_eq]

/-- A write is seen at its own name and nowhere else. -/
theorem get?_insert (a : Assignment) (name x : String) (value : Bool) :
    (a.insert name value).get? x = if name = x then some value else a.get? x :=
  lookup_write x name value a.bindings

theorem get?_empty (x : String) : empty.get? x = none := rfl

/-- In a list that names no name twice, the name has the value exactly if the pair is there. -/
theorem lookup_eq_some_iff {x : String} {value : Bool} {bindings : List (String × Bool)}
    (h : bindings.Pairwise fun a b => a.1 ≠ b.1) :
    bindings.lookup x = some value ↔ (x, value) ∈ bindings := by
  induction bindings with
  | nil => simp
  | cons head rest ih =>
    obtain ⟨hhead, hrest⟩ := List.pairwise_cons.mp h
    rw [lookup_cons_eq]
    split
    · rename_i heq
      subst heq
      constructor
      · intro hv
        exact Option.some.inj hv ▸ List.mem_cons_self
      · intro hm
        rcases List.mem_cons.mp hm with hm | hm
        · rw [← hm]
        · exact (hhead (head.1, value) hm rfl).elim
    · rename_i hne
      rw [ih hrest, List.mem_cons]
      constructor
      · exact Or.inr
      · rintro (hm | hm)
        · exact absurd (congrArg Prod.fst hm).symm hne
        · exact hm

/-- No name is bound twice. -/
theorem pairwise_ne (a : Assignment) : a.bindings.Pairwise fun a b => a.1 ≠ b.1 := by
  refine a.ordered.imp ?_
  intro p q hlt heq
  exact String.lt_irrefl q.1 (heq ▸ hlt)

/-- The name has the value exactly if the pair stands in the ordered list. -/
theorem get?_eq_some_iff (a : Assignment) (x : String) (value : Bool) :
    a.get? x = some value ↔ (x, value) ∈ a.toList :=
  lookup_eq_some_iff a.pairwise_ne

theorem nodup_bindings (a : Assignment) : a.bindings.Nodup := by
  refine a.pairwise_ne.imp ?_
  intro p q hne heq
  exact hne (congrArg Prod.fst heq)

/-- Assignments that agree at every name are equal. -/
theorem ext_get? {a b : Assignment} (h : ∀ x, a.get? x = b.get? x) : a = b := by
  have hmem : ∀ p, p ∈ a.bindings ↔ p ∈ b.bindings := by
    intro p
    have ha := get?_eq_some_iff a p.1 p.2
    rw [h p.1] at ha
    exact ha.symm.trans (get?_eq_some_iff b p.1 p.2)
  have hperm : a.bindings.Perm b.bindings :=
    (List.perm_ext_iff_of_nodup a.nodup_bindings b.nodup_bindings).mpr hmem
  have hbindings : a.bindings = b.bindings := by
    refine hperm.eq_of_pairwise ?_ a.ordered b.ordered
    intro p q _ _ hlt hgt
    exact absurd hgt (String.lt_asymm hlt)
  obtain ⟨_, _⟩ := a
  obtain ⟨_, _⟩ := b
  subst hbindings
  rfl

/-- Of a name that may not be bound there is nothing to be seen. -/
theorem BindsOnly.get?_eq_none {a : Assignment} {names : List String} (h : a.BindsOnly names)
    {x : String} (hx : ¬ x ∈ names) : a.get? x = none := by
  rw [← Option.not_isSome_iff_eq_none]
  exact fun hsome => hx (h x hsome)

/-- Assignments that bind no name but these are equal if they agree at these. -/
theorem BindsOnly.ext {a b : Assignment} {names : List String} (ha : a.BindsOnly names)
    (hb : b.BindsOnly names) (h : ∀ x ∈ names, a.get? x = b.get? x) : a = b := by
  refine ext_get? fun x => ?_
  by_cases hx : x ∈ names
  · exact h x hx
  · rw [ha.get?_eq_none hx, hb.get?_eq_none hx]

/-- After a sequence of writes the last one to a name counts. -/
theorem get?_insertAll (a : Assignment) (pairs : List (String × Bool)) (x : String) :
    (a.insertAll pairs).get? x = ((pairs.reverse.lookup x) <|> a.get? x) := by
  induction pairs generalizing a with
  | nil => simp [insertAll]
  | cons pair rest ih =>
    have step : a.insertAll (pair :: rest) = (a.insert pair.1 pair.2).insertAll rest := rfl
    rw [step, ih, get?_insert, List.reverse_cons, List.lookup_append]
    rw [lookup_cons_eq, List.lookup_nil]
    cases hrest : rest.reverse.lookup x with
    | some value => rfl
    | none => split <;> rfl

/-- Of several pairs with one name, the last counts. -/
theorem get?_ofList (pairs : List (String × Bool)) (x : String) :
    (ofList pairs).get? x = pairs.reverse.lookup x := by
  simp [ofList, get?_insertAll, get?_empty]

/-- The names of the pairs are bound and no others. -/
theorem isSome_get?_ofList {pairs : List (String × Bool)} {x : String} :
    ((ofList pairs).get? x).isSome = true ↔ x ∈ pairs.map Prod.fst := by
  rw [get?_ofList, List.lookup_isSome_iff]
  simp only [List.mem_reverse, List.mem_map, beq_iff_eq]
  constructor
  · rintro ⟨pair, hpair, rfl⟩
    exact ⟨pair, hpair, rfl⟩
  · rintro ⟨pair, hpair, rfl⟩
    exact ⟨pair, hpair, rfl⟩

/-- No other names are bound than those of the pairs. -/
theorem bindsOnly_ofList (pairs : List (String × Bool)) :
    (ofList pairs).BindsOnly (pairs.map Prod.fst) :=
  fun _ => isSome_get?_ofList.mp

/-- Writing to all names that are bound leaves nothing of the earlier bindings. -/
theorem insertAll_eq_ofList {a : Assignment} {pairs : List (String × Bool)}
    (h : a.BindsOnly (pairs.map Prod.fst)) : a.insertAll pairs = ofList pairs := by
  refine ext_get? fun x => ?_
  rw [get?_insertAll, get?_ofList]
  cases hlookup : pairs.reverse.lookup x with
  | some value => rfl
  | none =>
    -- A name that no pair writes to was not bound before either.
    have hpairs : ¬ x ∈ pairs.map Prod.fst := by
      rw [← isSome_get?_ofList, get?_ofList, hlookup]
      exact Bool.false_ne_true
    rw [h.get?_eq_none hpairs]
    rfl

/-- Pairs of different names are all kept. -/
theorem get?_ofList_eq_some_iff {pairs : List (String × Bool)} {x : String} {value : Bool}
    (h : pairs.Pairwise fun a b => a.1 ≠ b.1) :
    (ofList pairs).get? x = some value ↔ (x, value) ∈ pairs := by
  have hreverse : pairs.reverse.Pairwise fun a b => a.1 ≠ b.1 :=
    List.pairwise_reverse.mpr (h.imp Ne.symm)
  rw [get?_ofList, lookup_eq_some_iff hreverse, List.mem_reverse]

theorem pairwise_ne_zip {names : List String} (h : names.Nodup) (values : List Bool) :
    (names.zip values).Pairwise fun a b => a.1 ≠ b.1 := by
  induction names generalizing values with
  | nil => exact List.Pairwise.nil
  | cons name rest ih =>
    obtain ⟨hname, hrest⟩ := List.nodup_cons.mp h
    cases values with
    | nil => exact List.Pairwise.nil
    | cons value values =>
      refine List.pairwise_cons.mpr ⟨fun pair hpair heq => hname ?_, ih hrest values⟩
      rw [show name = pair.1 from heq]
      exact (List.of_mem_zip hpair).1

/-- Over different names every value is bound to the name in its column. -/
theorem get?_ofList_zip {names : List String} (h : names.Nodup) (values : List Bool)
    {column : Nat} {name : String} (hname : names[column]? = some name) :
    (ofList (names.zip values)).get? name = values[column]? := by
  refine Option.ext fun value => ?_
  rw [get?_ofList_eq_some_iff (pairwise_ne_zip h values), List.mem_iff_getElem?]
  constructor
  · rintro ⟨other, hother⟩
    obtain ⟨hname', hvalue⟩ := List.getElem?_zip_eq_some.mp hother
    have hlt : column < names.length := (List.getElem?_eq_some_iff.mp hname).1
    have heq : column = other := (List.getElem?_inj hlt h).mp (hname.trans hname'.symm)
    rw [heq]
    exact hvalue
  · intro hvalue
    exact ⟨column, List.getElem?_zip_eq_some.mpr ⟨hname, hvalue⟩⟩

end Assignment

end Propositional
