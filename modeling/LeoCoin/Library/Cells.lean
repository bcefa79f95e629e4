import Mathlib.Data.Multiset.UnionInter
import LeoCoin.Library.Chain

/-! # What is there

`Store.cells` is what a store holds, each object with its address, as a multiset.  What one
part of a program owns and what the others do are then summands: a function that is said to
turn one summand into another does so beside any other summand.
-/

namespace Library.Heap

namespace Store

variable {α : Type}

def cells (store : Store α) : Multiset (Nat × α) :=
  ((List.range store.fresh).filterMap fun address => (store.object address).map (Prod.mk address) : List (Nat × α))

section Cells

variable {store after : Store α} {address : Nat} {value old : α} {rest : Multiset (Nat × α)}

@[simp] theorem mem_cells : (address, value) ∈ store.cells ↔ store.object address = some value := by
  simp only [cells, Multiset.mem_coe, List.mem_filterMap, List.mem_range, Option.map_eq_some_iff, Prod.mk.injEq]
  constructor
  · rintro ⟨_, -, _, there, rfl, rfl⟩
    exact there
  · intro there
    exact ⟨address, Live.lt_fresh ⟨value, there⟩, value, there, rfl, rfl⟩

theorem cells_addresses (store : Store α) : (store.cells.map Prod.fst).Nodup := by
  have addresses (numbers : List Nat) :
      (numbers.filterMap fun address => (store.object address).map (Prod.mk address)).map Prod.fst =
        numbers.filter fun address => (store.object address).isSome := by
    induction numbers with
    | nil => rfl
    | cons number numbers ih => cases there : store.object number <;> simp [there, ih]
  rw [cells, Multiset.map_coe, addresses, Multiset.coe_nodup]
  exact List.nodup_range.filter _

theorem cells_nodup (store : Store α) : store.cells.Nodup := store.cells_addresses.of_map

theorem object_of_cells (was : store.cells = (address, value) ::ₘ rest) : store.object address = some value := by
  rw [← mem_cells, was]
  exact Multiset.mem_cons_self _ _

theorem live_of_cells (was : store.cells = (address, value) ::ₘ rest) : store.Live address :=
  ⟨value, object_of_cells was⟩

/-- Nothing else is where an object is. -/
theorem mem_rest (was : store.cells = (address, old) ::ₘ rest) {place : Nat} :
    (place, value) ∈ rest ↔ place ≠ address ∧ store.object place = some value := by
  have distinct := store.cells_addresses
  rw [was, Multiset.map_cons, Multiset.nodup_cons] at distinct
  constructor
  · intro member
    refine ⟨?_, ?_⟩
    · rintro rfl
      exact distinct.1 (Multiset.mem_map.mpr ⟨_, member, rfl⟩)
    · rw [← mem_cells, was]
      exact Multiset.mem_cons_of_mem member
  · rintro ⟨differs, there⟩
    rw [← mem_cells, was, Multiset.mem_cons] at there
    refine there.resolve_left fun same => differs ?_
    exact congrArg Prod.fst same

theorem rest_nodup (was : store.cells = (address, old) ::ₘ rest) : rest.Nodup := by
  have distinct := store.cells_nodup
  rw [was] at distinct
  exact (Multiset.nodup_cons.mp distinct).2

theorem cells_added (absent : store.object address = none) (now : after.object address = some value)
    (others : ∀ place, place ≠ address → after.object place = store.object place) :
    after.cells = (address, value) ::ₘ store.cells := by
  have fresh : (address, value) ∉ store.cells := by simp [absent]
  refine (after.cells_nodup.ext (Multiset.nodup_cons.mpr ⟨fresh, store.cells_nodup⟩)).mpr ?_
  rintro ⟨place, found⟩
  rw [mem_cells, Multiset.mem_cons, mem_cells, Prod.mk.injEq]
  by_cases same : place = address
  · subst same
    simp [now, absent, eq_comm]
  · simp [others place same, same]

theorem cells_changed (was : store.cells = (address, old) ::ₘ rest) (now : after.object address = some value)
    (others : ∀ place, place ≠ address → after.object place = store.object place) :
    after.cells = (address, value) ::ₘ rest := by
  have fresh : (address, value) ∉ rest := by simp [mem_rest was]
  refine (after.cells_nodup.ext (Multiset.nodup_cons.mpr ⟨fresh, rest_nodup was⟩)).mpr ?_
  rintro ⟨place, found⟩
  rw [mem_cells, Multiset.mem_cons, mem_rest was, Prod.mk.injEq]
  by_cases same : place = address
  · subst same
    simp [now, eq_comm]
  · simp [others place same, same]

theorem cells_removed (was : store.cells = (address, old) ::ₘ rest) (now : after.object address = none)
    (others : ∀ place, place ≠ address → after.object place = store.object place) : after.cells = rest := by
  refine (after.cells_nodup.ext (rest_nodup was)).mpr ?_
  rintro ⟨place, found⟩
  rw [mem_cells, mem_rest was]
  by_cases same : place = address
  · subst same
    simp [now]
  · simp [others place same, same]

@[simp] theorem cells_allocate (store : Store α) (value : α) :
    (store.allocate value).cells = (store.fresh, value) ::ₘ store.cells :=
  cells_added (store.ahead _ (Nat.le_refl _)) (store.allocate_object_fresh value) fun _ differs =>
    store.allocate_object_of_ne value differs

theorem write_of_cells (was : store.cells = (address, old) ::ₘ rest) (value : α) :
    ∃ after, store.write address value = some after ∧ after.cells = (address, value) ::ₘ rest := by
  obtain ⟨after, wrote, now, others, -⟩ := store.write_of_live (live_of_cells was) value
  exact ⟨after, wrote, cells_changed was now others⟩

theorem release_of_cells (was : store.cells = (address, old) ::ₘ rest) :
    ∃ after, store.release address = some after ∧ after.cells = rest := by
  obtain ⟨after, released, now, others, -⟩ := release_of_live (live_of_cells was)
  exact ⟨after, released, cells_removed was now others⟩

/-- There are as many objects as were allocated and not released. -/
theorem card_cells (store : Store α) : store.cells.card = store.count := by
  have counted : (store.cells.map Prod.fst).card + store.released.length = store.fresh := by
    have whole : store.cells.map Prod.fst + ↑store.released = ↑(List.range store.fresh) := by
      have apart : (store.cells.map Prod.fst + ↑store.released).Nodup := by
        refine (store.cells_addresses.add_iff (Multiset.coe_nodup.mpr store.once)).mpr ?_
        rw [Multiset.disjoint_left]
        intro address there gone
        obtain ⟨⟨_, value⟩, member, rfl⟩ := Multiset.mem_map.mp there
        have none := ((store.accounted _).mp (Multiset.mem_coe.mp gone)).2
        rw [mem_cells.mp member] at none
        cases none
      refine (apart.ext (Multiset.coe_nodup.mpr List.nodup_range)).mpr fun address => ?_
      rw [Multiset.mem_add, Multiset.mem_coe, Multiset.mem_coe, List.mem_range, store.accounted]
      cases there : store.object address with
      | none => simp [there]
      | some value =>
        have inside : address < store.fresh := Live.lt_fresh ⟨value, there⟩
        simp [there, inside]
    have sizes := congrArg Multiset.card whole
    simpa using sizes
  rw [Multiset.card_map] at counted
  rw [count]
  omega

end Cells

end Store

/-! ## Nodes -/

section Nodes

variable {α : Type} {nodes : Store Node} {stop : Option Nat} {rest : Multiset (Nat × Node)} {entries : List (Entry α)}

/-- The nodes of a segment that leads to `stop`. -/
def nodeCells : List (Entry α) → Option Nat → Multiset (Nat × Node)
  | [], _ => 0
  | entry :: entries, stop => (entry.node, ⟨entry.datum, (firstNode entries).or stop⟩) ::ₘ nodeCells entries stop

@[simp] theorem nodeCells_nil (stop : Option Nat) : nodeCells ([] : List (Entry α)) stop = 0 := rfl

@[simp] theorem nodeCells_cons (entry : Entry α) (entries : List (Entry α)) (stop : Option Nat) :
    nodeCells (entry :: entries) stop =
      (entry.node, ⟨entry.datum, (firstNode entries).or stop⟩) ::ₘ nodeCells entries stop := rfl

theorem firstNode_append (entries others : List (Entry α)) :
    firstNode (entries ++ others) = (firstNode entries).or (firstNode others) := by
  cases entries <;> simp [firstNode]

theorem nodeCells_append (entries others : List (Entry α)) (stop : Option Nat) :
    nodeCells (entries ++ others) stop = nodeCells entries ((firstNode others).or stop) + nodeCells others stop := by
  induction entries with
  | nil => simp
  | cons entry entries ih =>
    simp [ih, firstNode_append, Option.or_assoc]

@[simp] theorem card_nodeCells (entries : List (Entry α)) (stop : Option Nat) :
    (nodeCells entries stop).card = entries.length := by
  induction entries with
  | nil => rfl
  | cons entry entries ih => simp [ih]

theorem segment_of_cells (was : nodes.cells = nodeCells entries stop + rest) :
    Segment nodes ((firstNode entries).or stop) entries stop := by
  induction entries generalizing rest with
  | nil => simp [Segment]
  | cons entry entries ih =>
    refine ⟨by simp, _, Store.object_of_cells (by rw [was, nodeCells_cons, Multiset.cons_add]), ?_⟩
    have later : nodes.cells =
        nodeCells entries stop + (entry.node, ⟨entry.datum, (firstNode entries).or stop⟩) ::ₘ rest := by
      rw [was, nodeCells_cons, Multiset.cons_add, Multiset.add_cons]
    exact ih later

/-- The entry, without what its datum is. -/
def Entry.bare (entry : Entry α) : Entry Unit := ⟨entry.node, entry.datum, ()⟩

theorem Segment.bare {start : Option Nat} (segment : Segment nodes start entries stop) :
    Segment nodes start (entries.map Entry.bare) stop := by
  induction entries generalizing start with
  | nil => exact segment
  | cons entry entries ih =>
    obtain ⟨begins, next, there, later⟩ := segment
    exact ⟨begins, next, there, ih later⟩

end Nodes

end Library.Heap
