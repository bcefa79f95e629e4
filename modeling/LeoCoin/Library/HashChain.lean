import Mathlib.Data.List.Chain
import Mathlib.Data.Set.Function

/-! # Hash chains

A chain is a list, newest element first, in which every element but the oldest
carries the digest of the one before it and the oldest is a starting element.
Where the digest has no collision among the elements of two chains, equal digests
of the newest elements make the whole chains equal (`Linked.eq_of_tip`).  The
lengths need not be known to agree: a starting element never follows another.

A list that is not linked throughout has a first break (`isChain_or_breaks`).
-/

namespace Library.HashChain

variable {α δ : Type} {digest carried : α → δ} {starts : α → Prop}

inductive Linked (digest carried : α → δ) (starts : α → Prop) : List α → Prop where
  | first {oldest : α} : starts oldest → Linked digest carried starts [oldest]
  | next {newest previous : α} {before : List α} : Linked digest carried starts (previous :: before) →
      ¬ starts newest → carried newest = digest previous →
      Linked digest carried starts (newest :: previous :: before)

/-- `newer` may come right after `older`. -/
def Follows (digest carried : α → δ) (starts : α → Prop) (newer older : α) : Prop :=
  ¬ starts newer ∧ carried newer = digest older

theorem linked_of_isChain {newest : α} {before : List α}
    (chained : List.IsChain (Follows digest carried starts) (newest :: before))
    (oldest : starts ((newest :: before).getLast (List.cons_ne_nil _ _))) :
    Linked digest carried starts (newest :: before) := by
  induction before generalizing newest with
  | nil => exact .first oldest
  | cons previous before ih =>
    obtain ⟨⟨later, carries⟩, rest⟩ := List.isChain_cons_cons.mp chained
    rw [List.getLast_cons (List.cons_ne_nil _ _)] at oldest
    exact .next (ih rest oldest) later carries

/-- The tip commits to the whole chain.  Induction on one chain, newest element first. -/
theorem Linked.eq_of_tip {left right : List α} {tipLeft tipRight : α}
    (linkedLeft : Linked digest carried starts (tipLeft :: left))
    (linkedRight : Linked digest carried starts (tipRight :: right))
    (collisionFree : Set.InjOn digest {element | element ∈ tipLeft :: left ∨ element ∈ tipRight :: right})
    (sameTip : digest tipLeft = digest tipRight) :
    tipLeft :: left = tipRight :: right := by
  induction left generalizing tipLeft tipRight right with
  | nil =>
    obtain rfl : tipLeft = tipRight := collisionFree (by simp) (by simp) sameTip
    cases linkedLeft with
    | first oldest =>
      cases linkedRight with
      | first _ => rfl
      | next _ later _ => exact absurd oldest later
  | cons previous left ih =>
    obtain rfl : tipLeft = tipRight := collisionFree (by simp) (by simp) sameTip
    cases linkedLeft with
    | next earlierLeft later carriesLeft =>
      cases linkedRight with
      | first oldest => exact absurd oldest later
      | next earlierRight _ carriesRight =>
        -- the tips are one element, and it carries one digest
        have earlier := ih earlierLeft earlierRight
          (collisionFree.mono fun element member => by
            cases member with
            | inl member => exact .inl (List.mem_cons_of_mem _ member)
            | inr member => exact .inr (List.mem_cons_of_mem _ member))
          (carriesLeft.symm.trans carriesRight)
        rw [earlier]

/-- The list is linked up to `previous`, and `next` does not belong behind it. -/
structure BreaksAt (linked : α → α → Prop) (items before : List α) (previous next : α) (after : List α) :
    Prop where
  split : items = before ++ previous :: next :: after
  chained : List.IsChain linked (before ++ [previous])
  broken : ¬ linked previous next

theorem isChain_or_breaks (linked : α → α → Prop) (items : List α) :
    List.IsChain linked items ∨ ∃ before previous next after, BreaksAt linked items before previous next after := by
  induction items with
  | nil => exact .inl .nil
  | cons first rest ih =>
    cases rest with
    | nil => exact .inl (.singleton first)
    | cons second rest =>
      by_cases head : linked first second
      · cases ih with
        | inl chained => exact .inl (.cons_cons head chained)
        | inr breaks =>
          obtain ⟨before, previous, next, after, split, chained, broken⟩ := breaks
          have begins : List.IsChain linked (first :: (before ++ [previous])) := by
            cases before with
            | nil =>
              cases split
              exact .cons_cons head chained
            | cons earliest before =>
              obtain rfl := (List.cons.inj split).1
              exact .cons_cons head chained
          exact .inr ⟨first :: before, previous, next, after, by rw [split]; rfl, begins, broken⟩
      · exact .inr ⟨[], first, second, rest, rfl, .singleton first, head⟩

end Library.HashChain
