import Propositional.Assignment

/-!
# Editing an assignment

A binding can be written in three ways: `insert` puts it into its place, `exchange` does so too and
gives back the value that was there, and `set` overwrites the value where the name is bound
already and adds a binding only where it is not.  `ofList` replaces all bindings by others.

* `exchange_eq` — exchanging gives the value that a look at the name gave before it;
* `set_eq_insert` — overwriting a value in its place comes to the same as putting it there;
* `get?_edit` — what is bound after an edit.
-/

namespace Propositional.Assignment

/-- Writes a binding into its place in an ordered list, and takes out the value that was there. -/
def exchangeIn (name : String) (value : Bool) :
    List (String × Bool) → Option Bool × List (String × Bool)
  | [] => (none, [(name, value)])
  | head :: rest =>
    if head.1 < name then
      ((exchangeIn name value rest).1, head :: (exchangeIn name value rest).2)
    else if head.1 = name then (some head.2, (name, value) :: rest)
    else (none, (name, value) :: head :: rest)

theorem snd_exchangeIn (name : String) (value : Bool) (bindings : List (String × Bool)) :
    (exchangeIn name value bindings).2 = write name value bindings := by
  induction bindings with
  | nil => rfl
  | cons head rest ih =>
    rw [exchangeIn, write]
    split
    · rw [ih]
    · split <;> rfl

/-- What is taken out is what the name was bound to. -/
theorem fst_exchangeIn {name : String} (value : Bool) {bindings : List (String × Bool)}
    (h : bindings.Pairwise fun a b => a.1 < b.1) :
    (exchangeIn name value bindings).1 = bindings.lookup name := by
  induction bindings with
  | nil => rfl
  | cons head rest ih =>
    obtain ⟨hhead, hrest⟩ := List.pairwise_cons.mp h
    rw [exchangeIn, lookup_cons_eq]
    split
    · rename_i hlt
      have hne : ¬ head.1 = name := fun heq => String.lt_irrefl name (heq ▸ hlt)
      rw [if_neg hne]
      exact ih hrest
    · split
      · rfl
      · rename_i hlt hne
        -- All names that follow are behind the place where the name would stand.
        have hname : name < head.1 := Names.lt_of_not_lt_of_ne hlt hne
        symm
        refine List.lookup_eq_none_iff.mpr fun b hb => ?_
        have hlt : name < b.1 := String.lt_trans hname (hhead b hb)
        exact bne_iff_ne.mpr fun heq => String.lt_irrefl name (heq ▸ hlt)

/-- Binds `name` to `value`, and gives the value it was bound to before. -/
def exchange (a : Assignment) (name : String) (value : Bool) : Option Bool × Assignment :=
  ((exchangeIn name value a.bindings).1, ⟨(exchangeIn name value a.bindings).2, by
    rw [snd_exchangeIn]
    exact ordered_write name value a.ordered⟩)

/-- Overwrites the value of a name wherever it is bound. -/
def overwrite (name : String) (value : Bool) (bindings : List (String × Bool)) :
    List (String × Bool) :=
  bindings.map fun b => if b.1 = name then (b.1, value) else b

theorem ordered_overwrite (name : String) (value : Bool) {bindings : List (String × Bool)}
    (h : bindings.Pairwise fun a b => a.1 < b.1) :
    (overwrite name value bindings).Pairwise fun a b => a.1 < b.1 := by
  refine List.pairwise_map.mpr (h.imp ?_)
  intro p q hlt
  split <;> split <;> exact hlt

/-- Binds `name` to `value`: in its place if it is bound already, and else by a new binding. -/
def set (a : Assignment) (name : String) (value : Bool) : Assignment :=
  if (a.get? name).isSome then
    ⟨overwrite name value a.bindings, ordered_overwrite name value a.ordered⟩
  else a.insert name value

/-- Sets the pairs one after the other. -/
def setAll (a : Assignment) (pairs : List (String × Bool)) : Assignment :=
  pairs.foldl (fun current pair => current.set pair.1 pair.2) a

/-- One change of an assignment. -/
inductive Edit where
  | insert (name : String) (value : Bool)
  | exchange (name : String) (value : Bool)
  | set (name : String) (value : Bool)
  /-- All bindings are replaced by these pairs. -/
  | load (pairs : List (String × Bool))
deriving DecidableEq, Repr

/-- The pairs that the edit writes, one after the other. -/
def Edit.pairs : Edit → List (String × Bool)
  | insert name value => [(name, value)]
  | exchange name value => [(name, value)]
  | set name value => [(name, value)]
  | load pairs => pairs

/-- Does the edit do away with all earlier bindings? -/
def Edit.replaces : Edit → Bool
  | load _ => true
  | _ => false

/-- The assignment after an edit. -/
def edit (a : Assignment) : Edit → Assignment
  | .insert name value => a.insert name value
  | .exchange name value => (a.exchange name value).2
  | .set name value => a.set name value
  | .load pairs => ofList pairs

/-- The assignment after a sequence of edits, which starts without any binding. -/
def ofEdits (edits : List Edit) : Assignment := edits.foldl edit empty

/-- Exchanging gives what the name was bound to, and binds it as `insert` does. -/
theorem exchange_eq (a : Assignment) (name : String) (value : Bool) :
    a.exchange name value = (a.get? name, a.insert name value) := by
  refine Prod.ext (fst_exchangeIn value a.ordered) ?_
  simp only [exchange, insert, snd_exchangeIn]

theorem lookup_overwrite (x name : String) (value : Bool) (bindings : List (String × Bool)) :
    (overwrite name value bindings).lookup x =
      if name = x then (bindings.lookup x).map fun _ => value else bindings.lookup x := by
  induction bindings with
  | nil => simp [overwrite]
  | cons head rest ih =>
    have hfst : (if head.1 = name then (head.1, value) else head).1 = head.1 := by
      split <;> rfl
    rw [overwrite, List.map_cons, ← overwrite, lookup_cons_eq, lookup_cons_eq, hfst, ih]
    by_cases hx : head.1 = x
    · subst hx
      by_cases hname : head.1 = name
      · simp [hname]
      · simp [hname, Ne.symm hname]
    · rw [if_neg hx, if_neg hx]

/-- Overwriting in its place comes to the same as inserting. -/
theorem set_eq_insert (a : Assignment) (name : String) (value : Bool) :
    a.set name value = a.insert name value := by
  refine ext_get? fun x => ?_
  rw [set]
  split
  · rename_i hsome
    obtain ⟨previous, hprevious⟩ := Option.isSome_iff_exists.mp hsome
    rw [get?_insert, get?, lookup_overwrite, ← get?]
    split
    · rename_i hx
      rw [← hx, hprevious]
      rfl
    · rfl
  · rfl

theorem setAll_eq_insertAll (a : Assignment) (pairs : List (String × Bool)) :
    a.setAll pairs = a.insertAll pairs := by
  simp only [setAll, insertAll, set_eq_insert]

/-- After an edit a name has the value of the last pair written to it, or else its earlier value
unless all bindings are replaced. -/
theorem get?_edit (a : Assignment) (e : Edit) (x : String) :
    (a.edit e).get? x =
      (e.pairs.reverse.lookup x).or (if e.replaces then none else a.get? x) := by
  have hinsert (name : String) (value : Bool) :
      (a.insert name value).get? x = ([(name, value)].reverse.lookup x).or (a.get? x) := by
    rw [get?_insert, List.reverse_singleton, lookup_cons_eq]
    split <;> rfl
  cases e with
  | insert name value => exact hinsert name value
  | exchange name value =>
    rw [edit, exchange_eq]
    exact hinsert name value
  | set name value =>
    rw [edit, set_eq_insert]
    exact hinsert name value
  | load pairs =>
    rw [edit, get?_ofList, Edit.pairs, Edit.replaces, if_pos rfl, Option.or_none]

end Propositional.Assignment
