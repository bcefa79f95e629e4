import Mathlib.Data.List.Nodup
import Mathlib.Data.List.Perm.Subperm
import Mathlib.Logic.Function.Basic

/-! # Objects in memory

A `Store` holds the objects of one type under the addresses that the allocator gave
them.  An address is handed out once, so a pointer to an object that was released never
points to another one, and `released` keeps count: what was allocated is either there or
has been released, once.  Writing to or releasing what is not there has no result, as a
program that does it has no meaning.
-/

namespace Library.Heap

structure Store (α : Type) where
  object : Nat → Option α
  fresh : Nat
  released : List Nat
  ahead : ∀ address, fresh ≤ address → object address = none
  accounted : ∀ address, address ∈ released ↔ address < fresh ∧ object address = none
  once : released.Nodup

namespace Store

variable {α : Type}

def empty : Store α where
  object _ := none
  fresh := 0
  released := []
  ahead _ _ := rfl
  accounted address := by simp
  once := List.nodup_nil

/-- There is an object at the address. -/
def Live (store : Store α) (address : Nat) : Prop := ∃ value, store.object address = some value

theorem Live.lt_fresh {store : Store α} {address : Nat} (live : store.Live address) : address < store.fresh := by
  obtain ⟨value, there⟩ := live
  refine Nat.lt_of_not_le fun beyond => ?_
  rw [store.ahead address beyond] at there
  cases there

/-- The store with a new object, which is at `store.fresh`. -/
def allocate (store : Store α) (value : α) : Store α where
  object := Function.update store.object store.fresh (some value)
  fresh := store.fresh + 1
  released := store.released
  ahead address beyond := by
    rw [Function.update_of_ne (by omega)]
    exact store.ahead address (by omega)
  accounted address := by
    rw [store.accounted]
    by_cases same : address = store.fresh
    · subst same
      simp
    · rw [Function.update_of_ne same]
      exact and_congr_left fun _ => by omega
  once := store.once

theorem write_accounted (store : Store α) {address : Nat} (value : α) (live : (store.object address).isSome)
    (other : Nat) :
    (Function.update store.object address (some value) other = none) ↔ store.object other = none := by
  by_cases same : other = address
  · subst same
    simp [Option.isSome_iff_ne_none.mp live]
  · rw [Function.update_of_ne same]

/-- `*address = value` -/
def write (store : Store α) (address : Nat) (value : α) : Option (Store α) :=
  if live : (store.object address).isSome then
    some
      { store with
        object := Function.update store.object address (some value)
        ahead := fun other beyond => (store.write_accounted value live other).mpr (store.ahead other beyond)
        accounted := fun other => by rw [store.accounted, store.write_accounted value live] }
  else
    none

/-- `free(address)` -/
def release (store : Store α) (address : Nat) : Option (Store α) :=
  if live : (store.object address).isSome then
    some
      { store with
        object := Function.update store.object address none
        released := store.released ++ [address]
        ahead := fun other beyond => by
          by_cases same : other = address
          · rw [same, Function.update_self]
          · rw [Function.update_of_ne same]
            exact store.ahead other beyond
        accounted := fun other => by
          have inside := Live.lt_fresh (Option.isSome_iff_exists.mp live)
          rw [List.mem_append, List.mem_singleton, store.accounted]
          by_cases same : other = address
          · subst same
            simp [inside]
          · simp [same]
        once := by
          rw [List.nodup_append]
          refine ⟨store.once, List.nodup_singleton address, ?_⟩
          rintro other member _ last rfl
          rw [List.mem_singleton.mp last, store.accounted] at member
          rw [member.2] at live
          cases live }
  else
    none

variable {store after : Store α} {address other : Nat} {value : α}

@[simp] theorem allocate_object_fresh (store : Store α) (value : α) :
    (store.allocate value).object store.fresh = some value := by
  simp [allocate]

theorem allocate_object_of_live (live : store.Live address) (value : α) :
    (store.allocate value).object address = store.object address := by
  have inside := live.lt_fresh
  rw [allocate]
  exact Function.update_of_ne (by omega) _ _

theorem allocate_object_of_ne (store : Store α) (value : α) (differs : other ≠ store.fresh) :
    (store.allocate value).object other = store.object other :=
  Function.update_of_ne differs _ _

/-- The number of objects that are there. -/
def count (store : Store α) : Nat := store.fresh - store.released.length

theorem length_le_count {addresses : List Nat} (distinct : addresses.Nodup)
    (live : ∀ address ∈ addresses, store.Live address) : addresses.length ≤ store.count := by
  -- what is there and what was released are different addresses, and all have been handed out
  have apart : (addresses ++ store.released).Nodup := by
    refine List.nodup_append.mpr ⟨distinct, store.once, ?_⟩
    rintro address member _ released rfl
    obtain ⟨value, there⟩ := live address member
    rw [((store.accounted address).mp released).2] at there
    cases there
  have inside : addresses ++ store.released ⊆ List.range store.fresh := by
    intro address member
    rw [List.mem_range]
    rcases List.mem_append.mp member with member | released
    · exact (live address member).lt_fresh
    · exact ((store.accounted address).mp released).1
  have bounded := (apart.subperm inside).length_le
  rw [List.length_append, List.length_range] at bounded
  rw [count]
  omega

theorem write_of_live (live : store.Live address) (value : α) :
    ∃ after, store.write address value = some after ∧ after.object address = some value ∧
      (∀ other, other ≠ address → after.object other = store.object other) ∧ after.released = store.released ∧
      after.fresh = store.fresh := by
  have there := Option.isSome_iff_exists.mpr live
  refine ⟨_, dif_pos there, by simp, fun other differs => ?_, rfl, rfl⟩
  exact Function.update_of_ne differs _ _

theorem release_of_live (live : store.Live address) :
    ∃ after, store.release address = some after ∧ after.object address = none ∧
      (∀ other, other ≠ address → after.object other = store.object other) ∧
      after.released = store.released ++ [address] ∧ after.fresh = store.fresh := by
  have there := Option.isSome_iff_exists.mpr live
  refine ⟨_, dif_pos there, by simp, fun other differs => ?_, rfl, rfl⟩
  exact Function.update_of_ne differs _ _

end Store

end Library.Heap
