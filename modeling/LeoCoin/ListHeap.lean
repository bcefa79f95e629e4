import LeoCoin.LinkedList
import LeoCoin.Library.Imperative

/-! # Lists on the heap

The functions on linked lists with the heap they work on: lists, their nodes, and the data
that have been handed to the free function.  `none` is `NULL`; a datum is a pointer that no
function follows, but the compare function, which is given what memory holds.
-/

namespace LeoCoin

open Library.Heap
open Library.Programs

theorem failureLinkedListEmpty_ne : ReturnCode.failureLinkedListEmpty ≠ .success := by decide

/-- `FAILURE_LINKED_LIST_EMPTY` -/
def Failure.linkedListEmpty : Failure := ⟨.failureLinkedListEmpty, failureLinkedListEmpty_ne⟩

variable {σ : Type}

/-- `linked_list_t` without its free function, which is the same for all lists here. -/
structure LinkedListHeader (σ : Type) where
  compareFunction : Option (σ → Nat → Nat → Int32)
  head : Option Nat

structure ListHeap (σ : Type) where
  lists : Store (LinkedListHeader σ)
  nodes : Store Node
  /-- What the free function has been called with. -/
  handed : List Nat

abbrev ListProgram (σ β : Type) := Imperative (ListHeap σ) Failure β

namespace ListHeap

open Imperative

/-! ## Memory -/

/-- `if (NULL == pointer)` for what is passed. -/
def given {β : Type} (pointer : Option β) : ListProgram σ β :=
  match pointer with
  | some value => pure value
  | none => fail .invalidInput

/-- The same for a variable that is to be filled in. -/
def givenVariable (there : Bool) : ListProgram σ Unit := require there .invalidInput

def follow {β : Type} (pointer : Option β) : ListProgram σ β := fetch fun _ => pointer

def header (list : Nat) : ListProgram σ (LinkedListHeader σ) := fetch fun heap => heap.lists.object list

def node (address : Nat) : ListProgram σ Node := fetch fun heap => heap.nodes.object address

/-- `linked_list->head = head` -/
def setHead (list : Nat) (head : Option Nat) : ListProgram σ Unit :=
  update fun heap => do
    let here ← heap.lists.object list
    let lists ← heap.lists.write list { here with head }
    return { heap with lists }

/-- `node->next = next` -/
def setNext (address : Nat) (next : Option Nat) : ListProgram σ Unit :=
  update fun heap => do
    let here ← heap.nodes.object address
    let nodes ← heap.nodes.write address { here with next }
    return { heap with nodes }

/-- `sizeof(node_t)` -/
def nodeSize : Nat := 16

/-- One more node has an address. -/
def room (heap : ListHeap σ) : Bool := nodeSize * (heap.nodes.count + 1) < 2 ^ 64

/-- `malloc(sizeof(node_t))`, with what is put into it. -/
def mallocNode (granted : Bool) (data : Nat) (next : Option Nat) : ListProgram σ Nat :=
  request (fun heap =>
    if granted && heap.room then
      some (heap.nodes.fresh, { heap with nodes := heap.nodes.allocate ⟨data, next⟩ })
    else
      none) .couldNotMalloc

def mallocList (granted : Bool) (compareFunction : Option (σ → Nat → Nat → Int32)) : ListProgram σ Nat :=
  request (fun heap =>
    if granted then
      some (heap.lists.fresh, { heap with lists := heap.lists.allocate ⟨compareFunction, none⟩ })
    else
      none) .couldNotMalloc

def freeNode (address : Nat) : ListProgram σ Unit :=
  update fun heap => do
    let nodes ← heap.nodes.release address
    return { heap with nodes }

def freeList (list : Nat) : ListProgram σ Unit :=
  update fun heap => do
    let lists ← heap.lists.release list
    return { heap with lists }

/-- `linked_list->free_function(data)` -/
def freeFunction (data : Nat) : ListProgram σ Unit :=
  update fun heap => some { heap with handed := heap.handed ++ [data] }

/-! ## Functions -/

/-- `linked_list_create` -/
def create (listGiven freeFunctionGiven granted : Bool) (compareFunction : Option (σ → Nat → Nat → Int32)) :
    ListProgram σ Nat := do
  givenVariable (listGiven && freeFunctionGiven)
  mallocList granted compareFunction

/-- `linked_list_is_empty` -/
def isEmpty (linkedList : Option Nat) (isEmptyGiven : Bool) : ListProgram σ Bool := do
  let list ← given linkedList
  givenVariable isEmptyGiven
  let here ← header list
  return here.head.isNone

/-- `linked_list_prepend` -/
def prepend (linkedList data : Option Nat) (granted : Bool) : ListProgram σ Unit := do
  let list ← given linkedList
  let data ← given data
  let here ← header list
  let node ← mallocNode granted data here.head
  setHead list (some node)

/-- `linked_list_get_first` -/
def getFirst (linkedList : Option Nat) (nodeGiven : Bool) : ListProgram σ (Option Nat) := do
  let list ← given linkedList
  givenVariable nodeGiven
  let empty ← isEmpty (some list) true
  require (!empty) .linkedListEmpty
  let here ← header list
  return here.head

/-- `linked_list_remove_first` -/
def removeFirst (linkedList : Option Nat) : ListProgram σ Unit := do
  let list ← given linkedList
  let first ← getFirst (some list) true
  let first ← follow first
  let here ← node first
  setHead list here.next
  freeFunction here.data
  freeNode first

/-- `while (NULL != ptr)` in `linked_list_find` -/
def findLoop (compareFunction : Nat → Nat → Int32) (data : Nat) : Nat → Option Nat → ListProgram σ (Option Nat)
  | _, none => return none
  | 0, some _ => running
  | rounds + 1, some ptr => do
    let here ← node ptr
    if compareFunction data here.data = 0 then
      return some ptr
    else
      findLoop compareFunction data rounds here.next

/-- `linked_list_find`: the node that is filled in, if one is. -/
def find (contents : σ) (linkedList data : Option Nat) (nodeGiven : Bool) (rounds : Nat) :
    ListProgram σ (Option Nat) := do
  let list ← given linkedList
  let data ← given data
  givenVariable nodeGiven
  let here ← header list
  match here.compareFunction with
  | none => fail .linkedListNoCompareFunction
  | some compareFunction => findLoop (compareFunction contents) data rounds here.head

/-- `while (NULL != ptr->next)` -/
def lastLoop : Nat → Nat → ListProgram σ Nat
  | 0, _ => running
  | rounds + 1, ptr => do
    let here ← node ptr
    match here.next with
    | none => return ptr
    | some next => lastLoop rounds next

/-- `linked_list_get_last` -/
def getLast (linkedList : Option Nat) (nodeGiven : Bool) (rounds : Nat) : ListProgram σ (Option Nat) := do
  let list ← given linkedList
  givenVariable nodeGiven
  let empty ← isEmpty (some list) true
  require (!empty) .linkedListEmpty
  let here ← header list
  let ptr ← follow here.head
  let last ← lastLoop rounds ptr
  return some last

/-- `linked_list_append` -/
def append (linkedList data : Option Nat) (granted : Bool) (rounds : Nat) : ListProgram σ Unit := do
  let list ← given linkedList
  let data ← given data
  let empty ← isEmpty (some list) true
  if empty then
    prepend (some list) (some data) granted
  else
    let last ← getLast (some list) true rounds
    let node ← mallocNode granted data none
    let last ← follow last
    setNext last (some node)

/-- `for (node_t *node = linked_list->head; NULL != node; node = node->next)` -/
def lengthLoop : Nat → Option Nat → UInt64 → ListProgram σ UInt64
  | _, none, result => return result
  | 0, some _, _ => running
  | rounds + 1, some address, result => do
    let here ← node address
    lengthLoop rounds here.next (result + 1)

/-- `linked_list_length` -/
def length (linkedList : Option Nat) (lengthGiven : Bool) (rounds : Nat) : ListProgram σ UInt64 := do
  let list ← given linkedList
  givenVariable lengthGiven
  let here ← header list
  lengthLoop rounds here.head 0

/-- `while (!is_empty)` -/
def destroyLoop (list : Nat) : Nat → Bool → ListProgram σ Unit
  | _, true => return
  | 0, false => running
  | rounds + 1, false => do
    removeFirst (some list)
    let empty ← isEmpty (some list) true
    destroyLoop list rounds empty

/-- `linked_list_destroy` -/
def destroy (linkedList : Option Nat) (rounds : Nat) : ListProgram σ Unit := do
  let list ← given linkedList
  let empty ← isEmpty (some list) true
  destroyLoop list rounds empty
  freeList list

/-! ## What the functions do -/

section Functions

variable {heap : ListHeap σ} {list : Nat} {here : LinkedListHeader σ} {entries kept : List (Entry Unit)}
  {start stop : Option Nat}

theorem header_yields (there : heap.lists.object list = some here) :
    Yields (fun _ => header list) heap (.ok here) heap :=
  yields_fetch there

theorem node_yields {address : Nat} {found : Node} (there : heap.nodes.object address = some found) :
    Yields (fun _ => node address) heap (.ok found) heap :=
  yields_fetch there

theorem isEmpty_yields (there : heap.lists.object list = some here) :
    Yields (fun _ => isEmpty (some list) true) heap (.ok here.head.isNone) heap :=
  (yields_pure list).bind ((yields_pure ()).bind ((header_yields there).bind (yields_pure _)))

theorem getFirst_yields (there : heap.lists.object list = some here) {first : Nat} (head : here.head = some first) :
    Yields (fun _ => getFirst (some list) true) heap (.ok (some first)) heap := by
  have full := isEmpty_yields there
  rw [head] at full
  have fetched : Yields (fun _ => header list >>= fun here => (pure here.head : ListProgram σ (Option Nat))) heap
      (.ok (some first)) heap := by
    rw [← head]
    exact (header_yields there).bind (yields_pure _)
  exact (yields_pure list).bind ((yields_pure ()).bind (full.bind ((yields_pure ()).bind fetched)))

theorem getFirst_empty (there : heap.lists.object list = some here) (head : here.head = none) :
    Yields (fun _ => getFirst (some list) true) heap (.error .linkedListEmpty) heap := by
  have empty := isEmpty_yields there
  rw [head] at empty
  exact (yields_pure list).bind ((yields_pure ()).bind (empty.bind (yields_fail _).bind_fail))

theorem setHead_yields (heap : ListHeap σ) (there : heap.lists.object list = some here) (head : Option Nat) :
    ∃ lists, Yields (fun _ => setHead list head) heap (.ok ()) { heap with lists } ∧
      lists.object list = some { here with head } ∧
      (∀ other, other ≠ list → lists.object other = heap.lists.object other) ∧
      lists.released = heap.lists.released ∧ lists.fresh = heap.lists.fresh := by
  obtain ⟨lists, wrote, written, others, released, fresh⟩ := heap.lists.write_of_live ⟨_, there⟩ { here with head }
  exact ⟨lists, yields_update (by simp [there, wrote]), written, others, released, fresh⟩

theorem setNext_yields (heap : ListHeap σ) {address : Nat} {written : Node}
    (there : heap.nodes.object address = some written) (next : Option Nat) :
    ∃ nodes, Yields (fun _ => setNext address next) heap (.ok ()) { heap with nodes } ∧
      nodes.object address = some { written with next } ∧
      (∀ other, other ≠ address → nodes.object other = heap.nodes.object other) ∧
      nodes.released = heap.nodes.released ∧ nodes.fresh = heap.nodes.fresh := by
  obtain ⟨nodes, wrote, there', others, released, fresh⟩ :=
    heap.nodes.write_of_live ⟨_, there⟩ { written with next }
  exact ⟨nodes, yields_update (by simp [there, wrote]), there', others, released, fresh⟩

theorem freeNode_yields (heap : ListHeap σ) {address : Nat} (live : heap.nodes.Live address) :
    ∃ nodes, Yields (fun _ => freeNode address) heap (.ok ()) { heap with nodes } ∧
      (∀ other, other ≠ address → nodes.object other = heap.nodes.object other) ∧
      nodes.released = heap.nodes.released ++ [address] ∧ nodes.fresh = heap.nodes.fresh := by
  obtain ⟨nodes, freed, -, others, released, fresh⟩ := Store.release_of_live live
  exact ⟨nodes, yields_update (by simp [freed]), others, released, fresh⟩

theorem freeList_yields (live : heap.lists.Live list) :
    ∃ lists, Yields (fun _ => freeList list) heap (.ok ()) { heap with lists } ∧ lists.object list = none ∧
      (∀ other, other ≠ list → lists.object other = heap.lists.object other) ∧
      lists.released = heap.lists.released ++ [list] ∧ lists.fresh = heap.lists.fresh := by
  obtain ⟨lists, freed, gone, others, released, fresh⟩ := Store.release_of_live live
  exact ⟨lists, yields_update (by simp [freed]), gone, others, released, fresh⟩

theorem mallocNode_granted {granted : Bool} {data : Nat} {next : Option Nat}
    (granting : (granted && heap.room) = true) :
    Yields (fun _ => mallocNode granted data next) heap (.ok heap.nodes.fresh)
      { heap with nodes := heap.nodes.allocate ⟨data, next⟩ } :=
  yields_granted (by simp [granting])

theorem mallocNode_refused {granted : Bool} {data : Nat} {next : Option Nat}
    (refusing : (granted && heap.room) = false) :
    Yields (fun _ => mallocNode granted data next) heap (.error .couldNotMalloc) heap :=
  yields_refused (by simp [refusing])

/-- The loop ends at the first node that compares equal, or behind the last one. -/
theorem findLoop_yields (compareFunction : Nat → Nat → Int32) (data : Nat)
    (segment : Segment heap.nodes start entries none) :
    Yields (fun rounds => findLoop compareFunction data rounds start) heap
      (.ok ((entries.find? fun entry => compareFunction data entry.datum = 0).map Entry.node)) heap := by
  induction entries generalizing start with
  | nil =>
    obtain rfl : start = none := segment
    exact .of_eq fun rounds => by cases rounds <;> rfl
  | cons entry rest ih =>
    obtain ⟨rfl, next, there, later⟩ := segment
    refine .succ ((node_yields there).bind ?_)
    by_cases same : compareFunction data entry.datum = 0
    · simp only [if_pos same]
      simpa [same] using yields_pure (some entry.node)
    · simp only [if_neg same]
      simpa [same] using ih later

theorem lastLoop_yields {first : Nat} {last : Entry Unit}
    (segment : Segment heap.nodes (some first) (kept ++ [last]) none) :
    Yields (fun rounds => lastLoop rounds first) heap (.ok last.node) heap := by
  induction kept generalizing first with
  | nil =>
    obtain ⟨begins, next, there, ends⟩ := segment
    obtain rfl : first = last.node := Option.some.inj begins
    obtain rfl : next = none := ends
    exact .succ ((node_yields there).bind (yields_pure _))
  | cons entry kept ih =>
    obtain ⟨begins, next, there, later⟩ := segment
    obtain rfl : first = entry.node := Option.some.inj begins
    cases next with
    | none =>
      -- the rest is not empty, so its first node is there
      cases kept with
      | nil => cases later.1
      | cons other kept => cases later.1
    | some next => exact .succ ((node_yields there).bind (ih later))

theorem lengthLoop_yields (segment : Segment heap.nodes start entries none) (result : UInt64) :
    Yields (fun rounds => lengthLoop rounds start result) heap (.ok (result + UInt64.ofNat entries.length)) heap := by
  induction entries generalizing start result with
  | nil =>
    obtain rfl : start = none := segment
    exact .of_eq fun rounds => by cases rounds <;> simp [lengthLoop] <;> rfl
  | cons entry rest ih =>
    obtain ⟨rfl, next, there, later⟩ := segment
    have counted : result + 1 + UInt64.ofNat rest.length = result + UInt64.ofNat (entry :: rest).length := by
      rw [List.length_cons, Nat.add_comm, UInt64.ofNat_add, UInt64.add_assoc]
      rfl
    rw [← counted]
    exact .succ ((node_yields there).bind (ih later (result + 1)))

end Functions

/-! ## What a list owns -/

/-- Every node that was allocated since `start` is that of one of these entries. -/
structure Allocated (start : Nat) (whole : List (Entry Unit)) (nodes : Store Node) : Prop where
  each : (whole.map Entry.node).Perm (List.range' start whole.length)
  fresh : nodes.fresh = start + whole.length

/-- A list that was made in `start` is there with these entries; the nodes and the data of those that are gone have
been freed, and nothing else has been touched. -/
structure Owns (start : ListHeap σ) (list : Nat) (compareFunction : Option (σ → Nat → Nat → Int32))
    (gone entries : List (Entry Unit)) (heap : ListHeap σ) : Prop
    extends Allocated start.nodes.fresh (gone ++ entries) heap.nodes where
  header : heap.lists.object list = some ⟨compareFunction, firstNode entries⟩
  chain : Segment heap.nodes (firstNode entries) entries none
  released : heap.nodes.released = start.nodes.released ++ gone.map Entry.node
  handed : heap.handed = start.handed ++ gone.map Entry.datum
  nodesKept : ∀ address, address < start.nodes.fresh → heap.nodes.object address = start.nodes.object address
  listsKept : ∀ other, other ≠ list → heap.lists.object other = start.lists.object other
  listsReleased : heap.lists.released = start.lists.released

/-- The list is gone with all its entries. -/
structure Freed (start : ListHeap σ) (list : Nat) (whole : List (Entry Unit)) (heap : ListHeap σ) : Prop
    extends Allocated start.nodes.fresh whole heap.nodes where
  header : heap.lists.object list = none
  released : heap.nodes.released = start.nodes.released ++ whole.map Entry.node
  handed : heap.handed = start.handed ++ whole.map Entry.datum
  nodesKept : ∀ address, address < start.nodes.fresh → heap.nodes.object address = start.nodes.object address
  listsKept : ∀ other, other ≠ list → heap.lists.object other = start.lists.object other
  listsReleased : heap.lists.released = start.lists.released ++ [list]

section Owning

variable {start heap : ListHeap σ} {list data : Nat} {compareFunction : Option (σ → Nat → Nat → Int32)}
  {gone entries rest : List (Entry Unit)} {entry : Entry Unit} {granted : Bool}

theorem Allocated.distinct {first : Nat} {whole : List (Entry Unit)} {nodes : Store Node}
    (allocated : Allocated first whole nodes) : (whole.map Entry.node).Nodup :=
  allocated.each.nodup_iff.mpr List.nodup_range'

theorem Allocated.grow {first : Nat} {whole grown : List (Entry Unit)} {nodes after : Store Node}
    (allocated : Allocated first whole nodes) (entry : Entry Unit) (new : entry.node = nodes.fresh)
    (grows : grown.Perm (entry :: whole)) (fresh : after.fresh = nodes.fresh + 1) :
    Allocated first grown after := by
  have longer : grown.length = whole.length + 1 := by rw [grows.length_eq, List.length_cons]
  refine ⟨?_, ?_⟩
  · rw [longer, List.range'_1_concat, ← allocated.fresh]
    refine (grows.map Entry.node).trans ?_
    rw [List.map_cons, new]
    exact (allocated.each.cons _).trans (List.perm_append_singleton _ _).symm
  · rw [fresh, allocated.fresh, longer, Nat.add_assoc]

theorem Owns.live (owns : Owns start list compareFunction gone entries heap) (member : entry ∈ entries) :
    heap.nodes.Live entry.node :=
  owns.chain.live member

theorem Owns.inside (owns : Owns start list compareFunction gone entries heap) {address : Nat}
    (old : address < start.nodes.fresh) : address ≠ heap.nodes.fresh := by
  have grown := owns.fresh
  omega

theorem Owns.young (owns : Owns start list compareFunction gone entries heap) (member : entry ∈ gone ++ entries) :
    start.nodes.fresh ≤ entry.node := by
  have listed := owns.each.subset (List.mem_map_of_mem (f := Entry.node) member)
  exact (List.mem_range'_1.mp listed).1

theorem owns_nil {made : Store (LinkedListHeader σ)} (new : made.object list = some ⟨compareFunction, none⟩)
    (others : ∀ other, other ≠ list → made.object other = start.lists.object other)
    (released : made.released = start.lists.released) :
    Owns start list compareFunction [] [] { start with lists := made } where
  each := by simp
  fresh := by simp
  header := new
  chain := rfl
  released := by simp
  handed := by simp
  nodesKept _ _ := rfl
  listsKept := others
  listsReleased := released

theorem Owns.prepend (owns : Owns start list compareFunction gone entries heap) (data : Nat)
    (granting : (granted && heap.room) = true) :
    ∃ after, Yields (fun _ => prepend (some list) (some data) granted) heap (.ok ()) after ∧
      Owns start list compareFunction gone (⟨heap.nodes.fresh, data, ()⟩ :: entries) after := by
  have grants : Yields (fun _ => mallocNode granted data (firstNode entries)) heap (.ok heap.nodes.fresh)
      { heap with nodes := heap.nodes.allocate ⟨data, firstNode entries⟩ } := mallocNode_granted granting
  obtain ⟨lists, sets, written, others, released, -⟩ :=
    setHead_yields { heap with nodes := heap.nodes.allocate ⟨data, firstNode entries⟩ } owns.header
      (some heap.nodes.fresh)
  refine ⟨_, (yields_pure list).bind ((yields_pure data).bind
    ((header_yields owns.header).bind (grants.bind sets))), ?_⟩
  constructor
  case toAllocated => exact owns.toAllocated.grow _ rfl List.perm_middle rfl
  case header => exact written
  case chain =>
    refine ⟨rfl, firstNode entries, heap.nodes.allocate_object_fresh _, ?_⟩
    exact owns.chain.frame fun entry member => Store.allocate_object_of_live (owns.live member) _
  case released => exact owns.released
  case handed => exact owns.handed
  case nodesKept =>
    intro address old
    rw [← owns.nodesKept address old]
    exact heap.nodes.allocate_object_of_ne _ (owns.inside old)
  case listsKept => exact fun other differs => (others other differs).trans (owns.listsKept other differs)
  case listsReleased => exact released.trans owns.listsReleased

theorem Owns.prepend_refused (owns : Owns start list compareFunction gone entries heap)
    (refusing : (granted && heap.room) = false) :
    Yields (fun _ => ListHeap.prepend (some list) (some data) granted) heap (.error .couldNotMalloc) heap :=
  (yields_pure list).bind ((yields_pure data).bind
    ((header_yields owns.header).bind (mallocNode_refused refusing).bind_fail))

theorem Owns.distinct (owns : Owns start list compareFunction gone entries heap) : (entries.map Entry.node).Nodup := by
  have whole := owns.toAllocated.distinct
  rw [List.map_append] at whole
  exact (List.nodup_append.mp whole).2.1

theorem Owns.removeFirst (owns : Owns start list compareFunction gone (entry :: rest) heap) :
    ∃ after, Yields (fun _ => removeFirst (some list)) heap (.ok ()) after ∧
      Owns start list compareFunction (gone ++ [entry]) rest after := by
  obtain ⟨-, next, there, later⟩ := owns.chain
  obtain rfl := later.start_eq
  obtain ⟨lists, sets, written, others, listsReleased, -⟩ := setHead_yields heap owns.header (firstNode rest)
  have hands : Yields (fun _ => freeFunction entry.datum) { heap with lists } (.ok ())
      { heap with lists, handed := heap.handed ++ [entry.datum] } := yields_update rfl
  obtain ⟨nodes, frees, kept, released, fresh⟩ :=
    freeNode_yields { heap with lists, handed := heap.handed ++ [entry.datum] } ⟨_, there⟩
  have first : Yields (fun _ => getFirst (some list) true) heap (.ok (some entry.node)) heap :=
    getFirst_yields owns.header rfl
  refine ⟨_, (yields_pure list).bind (first.bind ((yields_fetch rfl).bind
    ((node_yields there).bind (sets.bind (hands.bind frees))))), ?_⟩
  have regroup : gone ++ [entry] ++ rest = gone ++ entry :: rest := by simp
  constructor
  case toAllocated =>
    rw [regroup]
    exact ⟨owns.each, fresh.trans owns.fresh⟩
  case header => exact written
  case chain =>
    refine later.frame fun other member => kept other.node fun same => ?_
    exact (List.nodup_cons.mp owns.distinct).1 (same ▸ List.mem_map_of_mem member)
  case released => simp [released, owns.released]
  case handed => simp [owns.handed]
  case nodesKept =>
    intro address old
    have young : start.nodes.fresh ≤ entry.node := owns.young (by simp)
    rw [← owns.nodesKept address old]
    exact kept address (by omega)
  case listsKept => exact fun other differs => (others other differs).trans (owns.listsKept other differs)
  case listsReleased => exact listsReleased.trans owns.listsReleased

theorem Owns.removeFirst_empty (owns : Owns start list compareFunction gone [] heap) :
    Yields (fun _ => ListHeap.removeFirst (some list)) heap (.error .linkedListEmpty) heap :=
  (yields_pure list).bind (getFirst_empty owns.header rfl).bind_fail

theorem Owns.getLast {kept : List (Entry Unit)} (owns : Owns start list compareFunction gone (kept ++ [entry]) heap) :
    Yields (fun rounds => getLast (some list) true rounds) heap (.ok (some entry.node)) heap := by
  obtain ⟨first, begins⟩ := firstNode_concat_isSome kept entry
  have header := owns.header
  have chain := owns.chain
  rw [begins] at header chain
  have full : Yields (fun _ => isEmpty (some list) true) heap (.ok false) heap := isEmpty_yields header
  exact (yields_pure list).bind ((yields_pure ()).bind (full.bind ((yields_pure ()).bind
    ((header_yields header).bind ((yields_fetch rfl).bind ((lastLoop_yields chain).bind (yields_pure _)))))))

theorem Owns.getLast_empty (owns : Owns start list compareFunction gone [] heap) :
    Yields (fun rounds => ListHeap.getLast (some list) true rounds) heap (.error .linkedListEmpty) heap := by
  have empty : Yields (fun _ => isEmpty (some list) true) heap (.ok true) heap := isEmpty_yields owns.header
  exact (yields_pure list).bind ((yields_pure ()).bind (empty.bind (yields_fail _).bind_fail))

theorem Owns.append_behind {kept : List (Entry Unit)}
    (owns : Owns start list compareFunction gone (kept ++ [entry]) heap) (granting : (granted && heap.room) = true) :
    ∃ after, Yields (fun rounds => ListHeap.append (some list) (some data) granted rounds) heap (.ok ()) after ∧
      Owns start list compareFunction gone (kept ++ [entry] ++ [⟨heap.nodes.fresh, data, ()⟩]) after := by
  obtain ⟨first, begins⟩ := firstNode_concat_isSome kept entry
  have full : Yields (fun _ => isEmpty (some list) true) heap (.ok false) heap := by
    have tells := isEmpty_yields owns.header
    rwa [begins] at tells
  have last : heap.nodes.object entry.node = some ⟨entry.datum, none⟩ := by
    obtain ⟨middle, -, -, next, there, ends⟩ := segment_append.mp owns.chain
    obtain rfl : next = none := ends
    exact there
  -- the heap with the new node
  have grown : Segment (heap.nodes.allocate ⟨data, none⟩) (firstNode (kept ++ [entry])) (kept ++ [entry]) none :=
    owns.chain.frame fun other member => Store.allocate_object_of_live (owns.live member) _
  have stays : (heap.nodes.allocate ⟨data, none⟩).object entry.node = some ⟨entry.datum, none⟩ := by
    rw [Store.allocate_object_of_live ⟨_, last⟩, last]
  obtain ⟨nodes, sets, written, others, released, fresh⟩ :=
    setNext_yields { heap with nodes := heap.nodes.allocate ⟨data, none⟩ } stays (some heap.nodes.fresh)
  refine ⟨_, (yields_pure list).bind ((yields_pure data).bind (full.bind (owns.getLast.bind
    ((mallocNode_granted granting).bind ((yields_fetch rfl).bind sets))))), ?_⟩
  have inside := Store.Live.lt_fresh ⟨_, last⟩
  constructor
  case toAllocated =>
    refine owns.toAllocated.grow ⟨heap.nodes.fresh, data, ()⟩ rfl ?_ fresh
    rw [← List.append_assoc]
    exact List.perm_append_comm
  case header =>
    rw [firstNode_concat_concat]
    exact owns.header
  case chain =>
    have linked : Segment nodes (firstNode (kept ++ [entry])) (kept ++ [entry]) (some heap.nodes.fresh) :=
      grown.relink (fun other member => others other.node
        (ne_of_nodup_map owns.distinct (List.mem_append_left _ member))) written
    have new : nodes.object heap.nodes.fresh = some ⟨data, none⟩ := by
      rw [others heap.nodes.fresh (by omega), Store.allocate_object_fresh]
    rw [firstNode_concat_concat]
    exact segment_append.mpr ⟨_, linked, rfl, none, new, rfl⟩
  case released => exact released.trans owns.released
  case handed => exact owns.handed
  case nodesKept =>
    intro address old
    have young : start.nodes.fresh ≤ entry.node := owns.young (by simp)
    rw [← owns.nodesKept address old, others address (by omega)]
    exact heap.nodes.allocate_object_of_ne _ (owns.inside old)
  case listsKept => exact owns.listsKept
  case listsReleased => exact owns.listsReleased

theorem Owns.append (owns : Owns start list compareFunction gone entries heap) (data : Nat)
    (granting : (granted && heap.room) = true) :
    ∃ after, Yields (fun rounds => append (some list) (some data) granted rounds) heap (.ok ()) after ∧
      Owns start list compareFunction gone (entries ++ [⟨heap.nodes.fresh, data, ()⟩]) after := by
  cases entries using List.reverseRecOn with
  | nil =>
    have empty : Yields (fun _ => isEmpty (some list) true) heap (.ok true) heap := isEmpty_yields owns.header
    obtain ⟨after, yields, owned⟩ := owns.prepend data granting
    exact ⟨after, (yields_pure list).bind ((yields_pure data).bind (empty.bind yields)), owned⟩
  | append_singleton kept last => exact owns.append_behind granting

theorem Owns.append_refused (owns : Owns start list compareFunction gone entries heap)
    (refusing : (granted && heap.room) = false) :
    Yields (fun rounds => ListHeap.append (some list) (some data) granted rounds) heap (.error .couldNotMalloc)
      heap := by
  cases entries using List.reverseRecOn with
  | nil =>
    have empty : Yields (fun _ => isEmpty (some list) true) heap (.ok true) heap := isEmpty_yields owns.header
    exact (yields_pure list).bind ((yields_pure data).bind (empty.bind (owns.prepend_refused refusing)))
  | append_singleton kept last =>
    obtain ⟨first, begins⟩ := firstNode_concat_isSome kept last
    have full : Yields (fun _ => isEmpty (some list) true) heap (.ok false) heap := by
      have tells := isEmpty_yields owns.header
      rwa [begins] at tells
    exact (yields_pure list).bind ((yields_pure data).bind (full.bind (owns.getLast.bind
      (mallocNode_refused refusing).bind_fail)))

theorem Owns.find {compare : σ → Nat → Nat → Int32} (owns : Owns start list (some compare) gone entries heap)
    (contents : σ) (data : Nat) :
    Yields (fun rounds => find contents (some list) (some data) true rounds) heap
      (.ok ((entries.find? fun entry => compare contents data entry.datum = 0).map Entry.node)) heap :=
  (yields_pure list).bind ((yields_pure data).bind ((yields_pure ()).bind
    ((header_yields owns.header).bind (findLoop_yields (compare contents) data owns.chain))))

theorem Owns.find_none (owns : Owns start list none gone entries heap) (contents : σ) (data : Nat) :
    Yields (fun rounds => ListHeap.find contents (some list) (some data) true rounds) heap
      (.error .linkedListNoCompareFunction) heap :=
  (yields_pure list).bind ((yields_pure data).bind ((yields_pure ()).bind
    ((header_yields owns.header).bind (yields_fail _))))

theorem Owns.length (owns : Owns start list compareFunction gone entries heap) :
    Yields (fun rounds => length (some list) true rounds) heap (.ok (UInt64.ofNat entries.length)) heap := by
  have counts := lengthLoop_yields owns.chain 0
  rw [UInt64.zero_add] at counts
  exact (yields_pure list).bind ((yields_pure ()).bind ((header_yields owns.header).bind counts))

/-- Every entry is removed, the first one first. -/
theorem Owns.destroyLoop (owns : Owns start list compareFunction gone entries heap) :
    ∃ after, Yields (fun rounds => destroyLoop list rounds (firstNode entries).isNone) heap (.ok ()) after ∧
      Owns start list compareFunction (gone ++ entries) [] after := by
  induction entries generalizing gone heap with
  | nil =>
    refine ⟨heap, .of_eq fun rounds => by cases rounds <;> rfl, ?_⟩
    rwa [List.append_nil]
  | cons entry rest ih =>
    obtain ⟨middle, removes, owned⟩ := owns.removeFirst
    obtain ⟨after, yields, freed⟩ := ih owned
    have tells := isEmpty_yields owned.header
    refine ⟨after, .succ (removes.bind (tells.bind yields)), ?_⟩
    rwa [List.append_assoc] at freed

theorem Owns.destroy (owns : Owns start list compareFunction gone entries heap) :
    ∃ after, Yields (fun rounds => destroy (some list) rounds) heap (.ok ()) after ∧
      Freed start list (gone ++ entries) after := by
  obtain ⟨middle, loops, owned⟩ := owns.destroyLoop
  obtain ⟨lists, frees, absent, others, released, -⟩ := freeList_yields ⟨_, owned.header⟩
  refine ⟨_, (yields_pure list).bind ((isEmpty_yields owns.header).bind (loops.bind frees)), ?_⟩
  constructor
  case toAllocated =>
    have allocated := owned.toAllocated
    rwa [List.append_nil] at allocated
  case header => exact absent
  case released => exact owned.released
  case handed => exact owned.handed
  case nodesKept => exact owned.nodesKept
  case listsKept => exact fun other differs => (others other differs).trans (owned.listsKept other differs)
  case listsReleased => rw [released, owned.listsReleased]

end Owning

/-! ## A list alone

The functions that are also written down for one list alone are the same there. -/

section Alone

variable {α : Type} {heap : ListHeap σ} {list data : Nat} {memory : Memory α} {granted : Bool}

/-- The list's head and nodes are those of this memory. -/
structure Alone (heap : ListHeap σ) (list : Nat) (compareFunction : Option (σ → Nat → Nat → Int32))
    (memory : Memory α) : Prop where
  header : heap.lists.object list = some ⟨compareFunction, memory.head⟩
  nodes : memory.nodes = heap.nodes

theorem findLoop_alone {compare : Nat → Nat → Int32} {compareFunction : α → α → Int} {value : α}
    (nodes : memory.nodes = heap.nodes) (there : memory.data.object data = some value)
    (reads : ∀ address found, heap.nodes.object address = some found → ∃ other,
      memory.data.object found.data = some other ∧ (compare data found.data = 0 ↔ compareFunction value other = 0))
    (rounds : Nat) (start : Option Nat) :
    findLoop compare data rounds start heap =
      LinkedList.findLoop compareFunction data memory rounds start >>= fun found => .done (.ok found, heap) := by
  induction rounds generalizing start with
  | zero => cases start <;> rfl
  | succ rounds ih =>
    cases start with
    | none => rfl
    | some ptr =>
      rw [findLoop, LinkedList.findLoop, bind_apply, nodes]
      cases here : heap.nodes.object ptr with
      | none => simp [node, fetch, here]
      | some found =>
        obtain ⟨other, read, agree⟩ := reads ptr found here
        simp only [node, fetch, here, there, read, Course.ofOption_some, Course.done_bind, further]
        by_cases same : compareFunction value other = 0
        · simp only [if_pos same, if_pos (agree.mpr same)]
          rfl
        · simp only [if_neg same, if_neg fun equal => same (agree.mp equal)]
          exact ih found.next

/-- `linked_list_find` is the one of `LinkedList` where the compare function reads the same data. -/
theorem find_alone {compare : σ → Nat → Nat → Int32} {compareFunction : α → α → Int} {contents : σ} {value : α}
    (alone : heap.Alone list (some compare) memory) (there : memory.data.object data = some value)
    (reads : ∀ address found, heap.nodes.object address = some found → ∃ other,
      memory.data.object found.data = some other ∧
        (compare contents data found.data = 0 ↔ compareFunction value other = 0)) (rounds : Nat) :
    find contents (some list) (some data) true rounds heap =
      LinkedList.find (some compareFunction) data memory rounds >>= fun found => .done (found, heap) := by
  have loops := findLoop_alone alone.nodes there reads rounds memory.head
  calc find contents (some list) (some data) true rounds heap
      = findLoop (compare contents) data rounds memory.head heap := by
        simp only [find, bind_apply, given, givenVariable, require, header, fetch, pure_apply, further, alone.header,
          Course.ofOption_some, Course.done_bind, if_true]
    _ = _ := by
        rw [loops, LinkedList.find]
        cases LinkedList.findLoop compareFunction data memory rounds memory.head <;> rfl

/-- `linked_list_prepend` is the one of `LinkedList`, with a node where there is room for one. -/
theorem prepend_alone {compareFunction : Option (σ → Nat → Nat → Int32)}
    (alone : heap.Alone list compareFunction memory) (data : Nat) :
    (∃ code, LinkedList.prepend (granted && heap.room) data memory = .error code ∧
      Yields (fun _ => prepend (some list) (some data) granted) heap (.error code) heap) ∨
    ∃ longer after, LinkedList.prepend (granted && heap.room) data memory = .ok longer ∧
      Yields (fun _ => prepend (some list) (some data) granted) heap (.ok ()) after ∧
      after.Alone list compareFunction longer := by
  have nodes := alone.nodes
  cases granting : granted && heap.room with
  | false =>
    refine .inl ⟨.couldNotMalloc, rfl, ?_⟩
    exact (yields_pure list).bind ((yields_pure data).bind
      ((header_yields alone.header).bind (mallocNode_refused granting).bind_fail))
  | true =>
    obtain ⟨lists, sets, written, -⟩ :=
      setHead_yields { heap with nodes := heap.nodes.allocate ⟨data, memory.head⟩ } alone.header
        (some heap.nodes.fresh)
    refine .inr ⟨_, _, rfl, (yields_pure list).bind ((yields_pure data).bind
      ((header_yields alone.header).bind ((mallocNode_granted granting).bind sets))), ?_, by rw [nodes]⟩
    rw [nodes]
    exact written

end Alone

end ListHeap

end LeoCoin
