import Mathlib
import Propositional.Assignment.Edit
import Propositional.Formula.Evaluation

/-!
# The last write counts

An assignment is known by its edits: a name has the value of the last write to it since all
bindings were last replaced.  Everything else that is seen of an assignment follows from what
its names are bound to, so it does not matter in which order the names were written, nor by which
kind of edit.

* `lastWrite_append_singleton_iff` — what one more edit does to the last writes;
* `get?_ofEdits_eq_some_iff` — after any edits a name has the value of its last write;
* `size_eq_ncard` — an assignment has as many bindings as names that are bound;
* `mergeSort_eq_toList` — the order in which bindings are held does not show once they are
  sorted by name;
* `ofEdits_exact` — what is seen of an assignment after any edits, and of two of them.
-/

namespace Propositional.Assignment

/-- The last of the pairs with the name gives it the value. -/
def LastPair (pairs : List (String × Bool)) (x : String) (value : Bool) : Prop :=
  ∃ before behind, pairs = before ++ (x, value) :: behind ∧ ∀ p ∈ behind, p.1 ≠ x

/-- The last write to the name, since all bindings were last replaced, gives it the value. -/
def LastWrite (edits : List Edit) (x : String) (value : Bool) : Prop :=
  ∃ before e behind, edits = before ++ e :: behind ∧ LastPair e.pairs x value ∧
    ∀ later ∈ behind, later.replaces = false ∧ ∀ p ∈ later.pairs, p.1 ≠ x

/-- A search from the end finds the last of the pairs. -/
theorem lastPair_iff {pairs : List (String × Bool)} {x : String} {value : Bool} :
    LastPair pairs x value ↔ pairs.reverse.lookup x = some value := by
  rw [List.lookup_eq_some_iff]
  constructor
  · rintro ⟨before, behind, rfl, hbehind⟩
    refine ⟨behind.reverse, before.reverse, by simp, fun p hp => ?_⟩
    exact bne_iff_ne.mpr (hbehind p (List.mem_reverse.mp hp)).symm
  · rintro ⟨behind, before, hpairs, hbehind⟩
    refine ⟨before.reverse, behind.reverse, ?_, fun p hp => ?_⟩
    · rw [← List.reverse_reverse pairs, hpairs]
      simp
    · exact (bne_iff_ne.mp (hbehind p (List.mem_reverse.mp hp))).symm

/-- A search from the end finds nothing if no pair has the name. -/
theorem lookup_reverse_eq_none_iff {pairs : List (String × Bool)} {x : String} :
    pairs.reverse.lookup x = none ↔ ∀ p ∈ pairs, p.1 ≠ x := by
  rw [List.lookup_eq_none_iff]
  simp only [List.mem_reverse, bne_iff_ne, ne_comm]

theorem not_lastWrite_nil {x : String} {value : Bool} : ¬ LastWrite [] x value := by
  rintro ⟨before, e, behind, h, -⟩
  exact List.append_ne_nil_of_right_ne_nil before (List.cons_ne_nil _ _) h.symm

/-- After one more edit the last write is the last of its pairs, or else the one before it, unless
the edit replaces all bindings. -/
theorem lastWrite_append_singleton_iff {edits : List Edit} {e : Edit} {x : String}
    {value : Bool} :
    LastWrite (edits ++ [e]) x value ↔
      LastPair e.pairs x value ∨
        (∀ p ∈ e.pairs, p.1 ≠ x) ∧ e.replaces = false ∧ LastWrite edits x value := by
  constructor
  · rintro ⟨before, e', behind, hsplit, hpair, hbehind⟩
    rcases List.eq_nil_or_concat behind with rfl | ⟨behind, last, rfl⟩
    · obtain ⟨-, rfl⟩ := List.append_singleton_inj.mp hsplit
      exact Or.inl hpair
    · rw [List.concat_eq_append, ← List.cons_append, ← List.append_assoc] at hsplit
      rw [List.concat_eq_append, List.forall_mem_append] at hbehind
      obtain ⟨rfl, rfl⟩ := List.append_singleton_inj.mp hsplit
      obtain ⟨hreplaces, hpairs⟩ := hbehind.2 e (List.mem_singleton_self e)
      exact Or.inr ⟨hpairs, hreplaces, before, e', behind, rfl, hpair, hbehind.1⟩
  · rintro (hpair | ⟨hpairs, hreplaces, before, e', behind, rfl, hpair, hbehind⟩)
    · exact ⟨edits, e, [], rfl, hpair, fun later hlater => absurd hlater List.not_mem_nil⟩
    · refine ⟨before, e', behind ++ [e], by simp, hpair, List.forall_mem_append.mpr ⟨hbehind, ?_⟩⟩
      intro later hlater
      rw [List.mem_singleton.mp hlater]
      exact ⟨hreplaces, hpairs⟩

theorem ofEdits_append_singleton (edits : List Edit) (e : Edit) :
    ofEdits (edits ++ [e]) = (ofEdits edits).edit e := by
  rw [ofEdits, List.foldl_append]
  rfl

/-- After any edits a name has the value of its last write. -/
theorem get?_ofEdits_eq_some_iff {edits : List Edit} {x : String} {value : Bool} :
    (ofEdits edits).get? x = some value ↔ LastWrite edits x value := by
  induction edits using List.reverseRecOn with
  | nil => exact iff_of_false (fun h => nomatch h) not_lastWrite_nil
  | append_singleton edits e ih =>
    rw [ofEdits_append_singleton, get?_edit, lastWrite_append_singleton_iff, lastPair_iff,
      ← lookup_reverse_eq_none_iff, ← ih]
    -- Either the edit writes to the name, or it is left as it was or done away with.
    cases e.pairs.reverse.lookup x with
    | some written => simp
    | none => cases e.replaces <;> simp

/-- There are as many bindings as names that are bound. -/
theorem size_eq_ncard (a : Assignment) :
    a.size = {x : String | (a.get? x).isSome = true}.ncard := by
  have hnodup : (a.bindings.map Prod.fst).Nodup := List.pairwise_map.mpr a.pairwise_ne
  have hset : {x : String | (a.get? x).isSome = true} =
      ((a.bindings.map Prod.fst).toFinset : Set String) := by
    ext x
    simp only [Set.mem_ofPred_eq, Option.isSome_iff_exists, get?_eq_some_iff, List.coe_toFinset,
      List.mem_map, Prod.exists, exists_and_right, exists_eq_right]
    rfl
  rw [hset, Set.ncard_coe_finset, List.toFinset_card_of_nodup hnodup, List.length_map]
  rfl

/-- In whatever order the bindings are held, they are listed if they are sorted by name. -/
theorem mergeSort_eq_toList {a : Assignment} {held : List (String × Bool)}
    (h : held.Perm a.toList) : (held.mergeSort fun p q => p.1 ≤ q.1) = a.toList := by
  have hperm : (held.mergeSort fun p q => p.1 ≤ q.1).Perm a.toList :=
    (List.mergeSort_perm held _).trans h
  have hordered : a.toList.Pairwise fun p q => p.1 ≤ q.1 :=
    a.ordered.imp fun hlt => String.not_lt.mp (String.lt_asymm hlt)
  refine hperm.eq_of_pairwise ?_ (Names.pairwise_mergeSort Prod.fst held) hordered
  intro p q hp hq hle hge
  -- Bindings of one name are the same, since no name is bound twice.
  have hname : p.1 = q.1 := String.le_antisymm hle hge
  have hpvalue := (get?_eq_some_iff a p.1 p.2).mpr (hperm.mem_iff.mp hp)
  have hqvalue := (get?_eq_some_iff a q.1 q.2).mpr hq
  rw [hname, hqvalue] at hpvalue
  exact Prod.ext hname (Option.some.inj hpvalue).symm

/-- What is seen of an assignment whose names have the values of their last writes. -/
structure LastWins (edits : List Edit) (a : Assignment) : Prop where
  get?_eq_some_iff : ∀ x value, a.get? x = some value ↔ LastWrite edits x value
  get?_eq_none_iff : ∀ x, a.get? x = none ↔ ∀ value, ¬ LastWrite edits x value
  /-- Exchanging a value gives the one that was seen before it. -/
  fst_exchange : ∀ name value, (a.exchange name value).1 = a.get? name
  /-- All three ways of writing come to the same. -/
  snd_exchange : ∀ name value, (a.exchange name value).2 = a.insert name value
  set_eq : ∀ name value, a.set name value = a.insert name value
  /-- The names that are bound are counted once each. -/
  size_eq : a.size = {x : String | ∃ value, LastWrite edits x value}.ncard
  isEmpty_iff : a.isEmpty = true ↔ a.size = 0
  /-- The bindings are listed once each, in strictly increasing order of names. -/
  mem_toList_iff : ∀ x value, (x, value) ∈ a.toList ↔ LastWrite edits x value
  ordered_toList : a.toList.Pairwise fun p q => p.1 < q.1
  /-- They are so listed by sorting them, in whatever order they are held. -/
  mergeSort_eq : ∀ held : List (String × Bool), held.Perm a.toList →
    (held.mergeSort fun p q => p.1 ≤ q.1) = a.toList

theorem lastWins_ofEdits (edits : List Edit) : LastWins edits (ofEdits edits) where
  get?_eq_some_iff := fun _ _ => get?_ofEdits_eq_some_iff
  get?_eq_none_iff := by
    intro x
    simp only [← get?_ofEdits_eq_some_iff, Option.eq_none_iff_forall_ne_some, ne_eq]
  fst_exchange := by
    intro name value
    rw [exchange_eq]
  snd_exchange := by
    intro name value
    rw [exchange_eq]
  set_eq := set_eq_insert _
  size_eq := by
    simp only [size_eq_ncard, Option.isSome_iff_exists, get?_ofEdits_eq_some_iff]
  isEmpty_iff := List.isEmpty_iff_length_eq_zero
  mem_toList_iff := by
    intro x value
    rw [← Assignment.get?_eq_some_iff, get?_ofEdits_eq_some_iff]
  ordered_toList := (ofEdits edits).ordered
  mergeSort_eq := fun _ => mergeSort_eq_toList

/-- After any edits the names have the values of their last writes, and what is seen of the
assignment follows from these.  The assignments after two sequences of edits are equal exactly if
all names have the same values in both; then they are listed and shown alike, and every formula
has the same value or the same error under both. -/
theorem ofEdits_exact (edits edits' : List Edit) :
    LastWins edits (ofEdits edits) ∧
    (ofEdits edits = ofEdits edits' ↔
      ∀ x, (ofEdits edits).get? x = (ofEdits edits').get? x) ∧
    ((∀ x, (ofEdits edits).get? x = (ofEdits edits').get? x) →
      (ofEdits edits).toList = (ofEdits edits').toList ∧
      (ofEdits edits).render = (ofEdits edits').render ∧
      ∀ f : Formula, f.evaluate (ofEdits edits) = f.evaluate (ofEdits edits')) := by
  refine ⟨lastWins_ofEdits edits, ⟨fun h x => by rw [h], ext_get?⟩, fun h => ?_⟩
  have heq : ofEdits edits = ofEdits edits' := ext_get? h
  rw [heq]
  exact ⟨rfl, rfl, fun f => rfl⟩

/-- Two ways to the same two bindings: of what is written before all bindings are replaced nothing
is left, and the later of two pairs with one name counts. -/
theorem ofEdits_exact_replaced :
    (∀ x, (ofEdits [.set "r" true, .load [("q", true), ("p", false), ("q", false)],
        .exchange "p" true]).get? x =
      (ofEdits [.insert "p" true, .set "q" false]).get? x) ∧
    (ofEdits [.set "r" true, .load [("q", true), ("p", false), ("q", false)],
        .exchange "p" true]).render =
      (ofEdits [.insert "p" true, .set "q" false]).render := by
  obtain ⟨-, heq, hseen⟩ := ofEdits_exact
    [.set "r" true, .load [("q", true), ("p", false), ("q", false)], .exchange "p" true]
    [.insert "p" true, .set "q" false]
  have hagree := heq.mp (by decide)
  exact ⟨hagree, (hseen hagree).2.1⟩

end Propositional.Assignment
