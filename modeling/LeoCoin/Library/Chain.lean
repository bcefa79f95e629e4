import Mathlib.Data.List.Sublists
import LeoCoin.Library.Heap

/-! # Singly linked lists in memory

A `Memory` is a head pointer with the nodes and the data it may lead to; `none` is the
null pointer.  `Holds memory entries` says that the pointers lead from the head through
exactly these nodes and end, and that each node's datum is there.  The rules say how
linking, unlinking and releasing change the entries, and everything else is left alone.
-/

namespace Library.Heap

structure Node where
  data : Nat
  next : Option Nat
deriving DecidableEq

/-- One node of a list, with the address and the value of its datum. -/
structure Entry (α : Type) where
  node : Nat
  datum : Nat
  value : α
deriving DecidableEq

structure Memory (α : Type) where
  head : Option Nat
  nodes : Store Node
  data : Store α

variable {α : Type}

def Memory.empty : Memory α := ⟨none, .empty, .empty⟩

/-! ## Segments -/

/-- The pointers lead from `start` over the nodes of these entries to `stop`. -/
def Segment (nodes : Store Node) : Option Nat → List (Entry α) → Option Nat → Prop
  | start, [], stop => start = stop
  | start, entry :: rest, stop =>
    start = some entry.node ∧ ∃ next, nodes.object entry.node = some ⟨entry.datum, next⟩ ∧
      Segment nodes next rest stop

/-- The pointer to the first of the nodes, or behind them. -/
def firstNode (entries : List (Entry α)) : Option Nat := entries.head?.map Entry.node

/-- The pointer to the last of the nodes, if there is one. -/
def lastNode (entries : List (Entry α)) : Option Nat := entries.getLast?.map Entry.node

@[simp] theorem firstNode_nil : firstNode ([] : List (Entry α)) = none := rfl

@[simp] theorem firstNode_cons (entry : Entry α) (rest : List (Entry α)) :
    firstNode (entry :: rest) = some entry.node := rfl

@[simp] theorem lastNode_nil : lastNode ([] : List (Entry α)) = none := rfl

@[simp] theorem lastNode_concat (kept : List (Entry α)) (entry : Entry α) :
    lastNode (kept ++ [entry]) = some entry.node := by
  simp [lastNode]

section Segments

variable {nodes after : Store Node} {start middle stop : Option Nat} {entries kept rest : List (Entry α)}
  {entry : Entry α}

theorem segment_append :
    Segment nodes start (kept ++ rest) stop ↔
      ∃ middle, Segment nodes start kept middle ∧ Segment nodes middle rest stop := by
  induction kept generalizing start with
  | nil => simp [Segment]
  | cons entry kept ih =>
    simp only [List.cons_append, Segment, ih]
    constructor
    · rintro ⟨begins, next, there, middle, first, later⟩
      exact ⟨middle, ⟨begins, next, there, first⟩, later⟩
    · rintro ⟨middle, ⟨begins, next, there, first⟩, later⟩
      exact ⟨begins, next, there, middle, first, later⟩

theorem Segment.start_eq (segment : Segment nodes start entries none) : start = firstNode entries := by
  cases entries with
  | nil => exact segment
  | cons entry rest => exact segment.1

theorem Segment.live (segment : Segment nodes start entries stop) {entry : Entry α} (member : entry ∈ entries) :
    nodes.Live entry.node := by
  induction entries generalizing start with
  | nil => cases member
  | cons first rest ih =>
    obtain ⟨-, next, there, later⟩ := segment
    rcases List.mem_cons.mp member with rfl | member
    · exact ⟨_, there⟩
    · exact ih later member

/-- Nodes that are not in a segment may change. -/
theorem Segment.frame (segment : Segment nodes start entries stop)
    (same : ∀ entry ∈ entries, after.object entry.node = nodes.object entry.node) :
    Segment after start entries stop := by
  induction entries generalizing start with
  | nil => exact segment
  | cons first rest ih =>
    obtain ⟨begins, next, there, later⟩ := segment
    refine ⟨begins, next, ?_, ih later fun entry member => same entry (List.mem_cons_of_mem _ member)⟩
    rw [same first List.mem_cons_self, there]

/-- The last node of a segment is written: the segment ends at the new pointer. -/
theorem Segment.relink (segment : Segment nodes start (kept ++ [entry]) stop) {target : Option Nat}
    (others : ∀ other ∈ kept, after.object other.node = nodes.object other.node)
    (written : after.object entry.node = some ⟨entry.datum, target⟩) :
    Segment after start (kept ++ [entry]) target := by
  rw [segment_append] at segment ⊢
  obtain ⟨middle, first, begins, -⟩ := segment
  exact ⟨middle, first.frame others, begins, target, written, rfl⟩

/-- The pointers, and the values they lead to, determine the entries. -/
theorem Segment.unique {data : Store α} {others : List (Entry α)} (segment : Segment nodes start entries none)
    (also : Segment nodes start others none) (values : ∀ entry ∈ entries, data.object entry.datum = some entry.value)
    (alsoValues : ∀ entry ∈ others, data.object entry.datum = some entry.value) : entries = others := by
  induction entries generalizing start others with
  | nil =>
    cases others with
    | nil => rfl
    | cons other others => cases segment.symm.trans also.1
  | cons entry rest ih =>
    cases others with
    | nil => cases segment.1.symm.trans also
    | cons other others =>
      obtain ⟨begins, next, there, later⟩ := segment
      obtain ⟨begins', next', there', later'⟩ := also
      have node : entry.node = other.node := Option.some.inj (begins.symm.trans begins')
      rw [node, there', Option.some.injEq, Node.mk.injEq] at there
      obtain ⟨datum, rfl⟩ := there
      have value := values entry List.mem_cons_self
      rw [← datum, alsoValues other List.mem_cons_self, Option.some.injEq] at value
      have same : entry = other := by
        cases entry
        cases other
        cases node
        cases datum
        cases value
        rfl
      rw [same, ih later later' (fun entry member => values entry (List.mem_cons_of_mem _ member))
        fun entry member => alsoValues entry (List.mem_cons_of_mem _ member)]

theorem ne_of_nodup_map {β : Type} {field : Entry α → β} (distinct : ((kept ++ entry :: rest).map field).Nodup)
    {other : Entry α} (member : other ∈ kept ++ rest) : field other ≠ field entry := by
  rw [List.map_append, List.map_cons, List.nodup_middle, ← List.map_append] at distinct
  exact fun same => (List.nodup_cons.mp distinct).1 (same ▸ List.mem_map_of_mem member)

theorem firstNode_concat_concat (kept : List (Entry α)) (last entry : Entry α) :
    firstNode (kept ++ [last] ++ [entry]) = firstNode (kept ++ [last]) := by
  simp [firstNode]

theorem firstNode_concat_isSome (kept : List (Entry α)) (last : Entry α) :
    ∃ first, firstNode (kept ++ [last]) = some first := by
  cases kept with
  | nil => exact ⟨last.node, rfl⟩
  | cons entry kept => exact ⟨entry.node, rfl⟩

end Segments

/-! ## Lists -/

structure Holds (memory : Memory α) (entries : List (Entry α)) : Prop where
  chain : Segment memory.nodes memory.head entries none
  values : ∀ entry ∈ entries, memory.data.object entry.datum = some entry.value
  nodesDistinct : (entries.map Entry.node).Nodup
  dataDistinct : (entries.map Entry.datum).Nodup

theorem holds_empty : Holds (Memory.empty : Memory α) [] :=
  ⟨rfl, by simp, List.nodup_nil, List.nodup_nil⟩

theorem Holds.unique {memory : Memory α} {entries others : List (Entry α)} (holds : Holds memory entries)
    (also : Holds memory others) : entries = others :=
  holds.chain.unique also.chain holds.values also.values

/-- `head = target` or `prev->next = target` -/
def Memory.setLink (memory : Memory α) (prev target : Option Nat) : Option (Memory α) :=
  match prev with
  | none => some { memory with head := target }
  | some prev => do
    let here ← memory.nodes.object prev
    let nodes ← memory.nodes.write prev { here with next := target }
    return { memory with nodes }

section Rules

variable {memory after : Memory α} {entries kept rest : List (Entry α)} {entry : Entry α}

theorem Holds.frame (holds : Holds memory entries) (head : after.head = memory.head)
    (nodes : ∀ entry ∈ entries, after.nodes.object entry.node = memory.nodes.object entry.node)
    (data : ∀ entry ∈ entries, after.data.object entry.datum = memory.data.object entry.datum) :
    Holds after entries := by
  refine ⟨?_, fun entry member => ?_, holds.nodesDistinct, holds.dataDistinct⟩
  · rw [head]
    exact holds.chain.frame nodes
  · rw [data entry member]
    exact holds.values entry member

theorem Holds.node (holds : Holds memory (kept ++ entry :: rest)) :
    memory.nodes.object entry.node = some ⟨entry.datum, firstNode rest⟩ := by
  obtain ⟨middle, -, -, next, there, later⟩ := segment_append.mp holds.chain
  rw [there, later.start_eq]

theorem Holds.datum (holds : Holds memory (kept ++ entry :: rest)) :
    memory.data.object entry.datum = some entry.value :=
  holds.values entry (by simp)

theorem Holds.head_eq (holds : Holds memory entries) : memory.head = firstNode entries := holds.chain.start_eq

theorem Holds.node_ne (holds : Holds memory (kept ++ entry :: rest)) {other : Entry α} (member : other ∈ kept ++ rest) :
    other.node ≠ entry.node :=
  ne_of_nodup_map holds.nodesDistinct member

theorem Holds.datum_ne (holds : Holds memory (kept ++ entry :: rest)) {other : Entry α}
    (member : other ∈ kept ++ rest) : other.datum ≠ entry.datum :=
  ne_of_nodup_map holds.dataDistinct member

theorem sublist_of_middle (kept rest : List (Entry α)) (entry : Entry α) :
    (kept ++ rest).Sublist (kept ++ entry :: rest) :=
  List.Sublist.append_left (List.sublist_cons_self entry rest) kept

/-- The entry behind `kept` is unlinked; its node is still there and is not touched. -/
theorem Holds.unlink (holds : Holds memory (kept ++ entry :: rest)) :
    ∃ after, memory.setLink (lastNode kept) (firstNode rest) = some after ∧ Holds after (kept ++ rest) ∧
      after.data = memory.data ∧ after.nodes.released = memory.nodes.released ∧
      after.nodes.object entry.node = memory.nodes.object entry.node := by
  have values (other : Entry α) (member : other ∈ kept ++ rest) :
      memory.data.object other.datum = some other.value :=
    holds.values other ((sublist_of_middle kept rest entry).subset member)
  have nodesDistinct := holds.nodesDistinct.sublist ((sublist_of_middle kept rest entry).map Entry.node)
  have dataDistinct := holds.dataDistinct.sublist ((sublist_of_middle kept rest entry).map Entry.datum)
  obtain ⟨middle, before, -, next, there, later⟩ := segment_append.mp holds.chain
  obtain rfl := later.start_eq
  cases kept using List.reverseRecOn with
  | nil =>
    exact ⟨{ memory with head := firstNode rest }, rfl, ⟨later, values, nodesDistinct, dataDistinct⟩, rfl, rfl, rfl⟩
  | append_singleton earlier last =>
    obtain ⟨first, -, -, pointer, written, -⟩ := segment_append.mp before
    obtain ⟨nodes, wrote, link, others, released, -⟩ :=
      memory.nodes.write_of_live ⟨_, written⟩ ⟨last.datum, firstNode rest⟩
    have whole : Holds memory (earlier ++ last :: (entry :: rest)) := by
      rwa [List.append_assoc] at holds
    have kept (other : Entry α) (member : other ∈ earlier ++ entry :: rest) :
        nodes.object other.node = memory.nodes.object other.node := others other.node (whole.node_ne member)
    have first : Segment nodes memory.head (earlier ++ [last]) (firstNode rest) :=
      before.relink (fun other member => kept other (List.mem_append_left _ member)) link
    have second : Segment nodes (firstNode rest) rest none :=
      later.frame fun other member => kept other (List.mem_append_right _ (List.mem_cons_of_mem _ member))
    refine ⟨{ memory with nodes }, ?_, ⟨segment_append.mpr ⟨_, first, second⟩, values, nodesDistinct, dataDistinct⟩,
      rfl, released, kept entry (by simp)⟩
    simp [Memory.setLink, written, wrote]

/-- What is no longer in the list may be released. -/
theorem Holds.release (holds : Holds memory entries) {nodes : Store Node} {data : Store α} {node datum : Nat}
    (nodesKept : ∀ other, other ≠ node → nodes.object other = memory.nodes.object other)
    (dataKept : ∀ other, other ≠ datum → data.object other = memory.data.object other)
    (noNode : ∀ entry ∈ entries, entry.node ≠ node) (noDatum : ∀ entry ∈ entries, entry.datum ≠ datum) :
    Holds { memory with nodes, data } entries :=
  holds.frame rfl (fun entry member => nodesKept entry.node (noNode entry member)) fun entry member =>
    dataKept entry.datum (noDatum entry member)

theorem Holds.allocate (holds : Holds memory entries) (value : α) :
    Holds { memory with data := memory.data.allocate value } entries :=
  holds.frame rfl (fun _ _ => rfl) fun entry member =>
    Store.allocate_object_of_live ⟨_, holds.values entry member⟩ value

theorem Holds.datum_ne_fresh (holds : Holds memory entries) {entry : Entry α} (member : entry ∈ entries) :
    entry.datum ≠ memory.data.fresh := by
  have live : memory.data.Live entry.datum := ⟨_, holds.values entry member⟩
  exact Nat.ne_of_lt live.lt_fresh

theorem Holds.push (holds : Holds memory entries) {datum : Nat} {value : α}
    (there : memory.data.object datum = some value) (new : ∀ entry ∈ entries, entry.datum ≠ datum) :
    Holds { memory with
      nodes := memory.nodes.allocate ⟨datum, memory.head⟩, head := some memory.nodes.fresh }
      (⟨memory.nodes.fresh, datum, value⟩ :: entries) := by
  have kept (entry : Entry α) (member : entry ∈ entries) := holds.chain.live member
  refine ⟨⟨rfl, memory.head, memory.nodes.allocate_object_fresh _, ?_⟩, ?_, ?_, ?_⟩
  · exact holds.chain.frame fun entry member => memory.nodes.allocate_object_of_live (kept entry member) _
  · exact List.forall_mem_cons.mpr ⟨there, holds.values⟩
  · refine List.nodup_cons.mpr ⟨fun listed => ?_, holds.nodesDistinct⟩
    obtain ⟨entry, member, same⟩ := List.mem_map.mp listed
    have inside := (kept entry member).lt_fresh
    simp only [same] at inside
    omega
  · refine List.nodup_cons.mpr ⟨fun listed => ?_, holds.dataDistinct⟩
    obtain ⟨entry, member, same⟩ := List.mem_map.mp listed
    exact new entry member same

theorem Holds.modify (holds : Holds memory (kept ++ entry :: rest)) {data : Store α} {value : α}
    (written : data.object entry.datum = some value)
    (others : ∀ other, other ≠ entry.datum → data.object other = memory.data.object other) :
    Holds { memory with data } (kept ++ { entry with value } :: rest) := by
  obtain ⟨middle, before, here⟩ := segment_append.mp holds.chain
  have same (other : Entry α) (member : other ∈ kept ++ rest) : data.object other.datum = some other.value := by
    rw [others other.datum (holds.datum_ne member)]
    exact holds.values other ((sublist_of_middle kept rest entry).subset member)
  refine ⟨segment_append.mpr ⟨middle, before, here⟩, fun other member => ?_, ?_, ?_⟩
  · rcases List.mem_append.mp member with first | later
    · exact same other (List.mem_append_left _ first)
    · rcases List.mem_cons.mp later with rfl | later
      · exact written
      · exact same other (List.mem_append_right _ later)
  · simpa using holds.nodesDistinct
  · simpa using holds.dataDistinct

end Rules

end Library.Heap
