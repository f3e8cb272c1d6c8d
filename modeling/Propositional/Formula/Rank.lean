import Propositional.Formula.Basic

/-!
# Chains of one level

Connectives of one level that follow one another without brackets group to the left,
so each of them has the chain in front of it as its left operand.  The rank of a
formula is its height with every such chain counted as a single step.

* `height_le` — the height, by the rank and the longest chain.
-/

namespace Propositional.Formula

/-- Is the formula a connective of the level? -/
def isOfLevel (level : Nat) : Formula → Bool
  | const _ | var _ | neg _ => false
  | bin op _ _ => op.precedence == level

/-- The number of connectives in the chain that ends with the formula: the connective itself and
those of its left operand, if that is of the same level. -/
def chainLength : Formula → Nat
  | const _ | var _ | neg _ => 0
  | bin op left _ => (if left.isOfLevel op.precedence then left.chainLength else 0) + 1

/-- The number of links of the longest chain; a negation is a chain by itself. -/
def longestChain : Formula → Nat
  | const _ | var _ => 0
  | neg operand => max 1 operand.longestChain
  | bin op left right =>
    max (bin op left right).chainLength (max left.longestChain right.longestChain)

/-- The height of the formula above its atoms when every chain is a single step. -/
def rank : Formula → Nat
  | const _ | var _ => 0
  | neg operand => operand.rank + 1
  | bin op left right =>
    max (left.rank + if left.isOfLevel op.precedence then 0 else 1) (right.rank + 1)

/-- If no chain has more than `limit` links, every step of the rank adds at most `limit` to the
height, and a chain at the top that has fewer links adds no more than these. -/
theorem height_le_mul_rank {limit : Nat} (f : Formula) (h : f.longestChain ≤ limit) :
    f.height ≤ limit * f.rank + 1 ∧
      ∀ level, f.isOfLevel level = true →
        f.height + limit ≤ limit * f.rank + f.chainLength + 1 := by
  induction f with
  | const value => exact ⟨Nat.le_add_left 1 _, fun level hlevel => by cases hlevel⟩
  | var name => exact ⟨Nat.le_add_left 1 _, fun level hlevel => by cases hlevel⟩
  | neg operand ih =>
    obtain ⟨hone, hoperand⟩ := Nat.max_le.mp h
    have hheight := (ih hoperand).1
    refine ⟨?_, fun level hlevel => by cases hlevel⟩
    rw [height, rank, Nat.mul_succ]
    omega
  | bin op left right ihl ihr =>
    obtain ⟨hlinks, hoperands⟩ := Nat.max_le.mp h
    obtain ⟨hleft, hright⟩ := Nat.max_le.mp hoperands
    have hchain : (bin op left right).height + limit ≤
        limit * (bin op left right).rank + (bin op left right).chainLength + 1 := by
      have hrank : limit * (right.rank + 1) ≤ limit * (bin op left right).rank :=
        Nat.mul_le_mul_left limit (Nat.le_max_right _ _)
      have hrankLeft : limit * (left.rank + if left.isOfLevel op.precedence then 0 else 1) ≤
          limit * (bin op left right).rank := Nat.mul_le_mul_left limit (Nat.le_max_left _ _)
      have hheightRight := (ihr hright).1
      rw [Nat.mul_succ] at hrank
      rw [height, chainLength]
      by_cases hlevel : left.isOfLevel op.precedence = true
      · have hheightLeft := (ihl hleft).2 op.precedence hlevel
        rw [if_pos hlevel, Nat.add_zero] at hrankLeft
        rw [if_pos hlevel]
        omega
      · have hheightLeft := (ihl hleft).1
        rw [if_neg hlevel, Nat.mul_succ] at hrankLeft
        rw [if_neg hlevel]
        omega
    exact ⟨by omega, fun _ _ => hchain⟩

/-- The height, by the rank and the longest chain. -/
theorem height_le (f : Formula) : f.height ≤ f.longestChain * f.rank + 1 :=
  (height_le_mul_rank f (Nat.le_refl _)).1

end Propositional.Formula
