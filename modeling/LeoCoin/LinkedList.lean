import LeoCoin.Library.Chain
import LeoCoin.Library.Course
import LeoCoin.Types

/-! # Linked lists

The functions on lists with their nodes in memory.  `data` is the address of a datum; a
list, a node and a datum that are passed are never `NULL` here.
-/

namespace LeoCoin

open Library.Programs
open Library.Heap

/-- `FAILURE_LINKED_LIST_NO_COMPARE_FUNCTION` -/
def Failure.linkedListNoCompareFunction : Failure := ⟨.failureLinkedListNoCompareFunction, by decide⟩

namespace LinkedList

variable {α : Type}

/-- `linked_list_prepend`, its node granted or not. -/
def prepend (granted : Bool) (data : Nat) (memory : Memory α) : Except Failure (Memory α) :=
  if granted then
    .ok
      { memory with
        nodes := memory.nodes.allocate ⟨data, memory.head⟩
        head := some memory.nodes.fresh }
  else
    .error .couldNotMalloc

/-- `while (NULL != ptr)` in `linked_list_find`, for at most `rounds` rounds. -/
def findLoop (compareFunction : α → α → Int) (data : Nat) (memory : Memory α) :
    Nat → Option Nat → Course (Option Nat)
  | _, none => .done none
  | 0, some _ => .running
  | rounds + 1, some ptr => do
    let here ← .ofOption (memory.nodes.object ptr)
    let left ← .ofOption (memory.data.object data)
    let right ← .ofOption (memory.data.object here.data)
    if compareFunction left right = 0 then
      .done (some ptr)
    else
      findLoop compareFunction data memory rounds here.next

/-- `linked_list_find`: the node it fills in, if it does. -/
def find (compareFunction : Option (α → α → Int)) (data : Nat) (memory : Memory α) (rounds : Nat) :
    Course (Except Failure (Option Nat)) :=
  match compareFunction with
  | none => .done (.error .linkedListNoCompareFunction)
  | some compareFunction => do
    let found ← findLoop compareFunction data memory rounds memory.head
    return .ok found

/-- `for (node_t *node = start; NULL != node; node = node->next)`, and what is read in its nodes. -/
def readLoop (memory : Memory α) : Nat → Option Nat → Course (List α)
  | _, none => .done []
  | 0, some _ => .running
  | rounds + 1, some node => do
    let here ← .ofOption (memory.nodes.object node)
    let value ← .ofOption (memory.data.object here.data)
    let rest ← readLoop memory rounds here.next
    return value :: rest

/-! ## On a list -/

section Lists

variable {compareFunction : α → α → Int} {memory : Memory α} {entries : List (Entry α)} {start : Option Nat}
  {data : Nat} {value : α}

theorem findLoop_segment (there : memory.data.object data = some value)
    (segment : Segment memory.nodes start entries none)
    (values : ∀ entry ∈ entries, memory.data.object entry.datum = some entry.value) :
    ComesTo (fun rounds => findLoop compareFunction data memory rounds start)
      (.done ((entries.find? fun entry => compareFunction value entry.value = 0).map Entry.node)) := by
  induction entries generalizing start with
  | nil =>
    obtain rfl : start = none := segment
    exact .of_eq fun rounds => by cases rounds <;> rfl
  | cons entry rest ih =>
    obtain ⟨rfl, next, node, later⟩ := segment
    obtain ⟨here, values⟩ := List.forall_mem_cons.mp values
    by_cases same : compareFunction value entry.value = 0
    · have round (rounds : Nat) : findLoop compareFunction data memory (rounds + 1) (some entry.node) =
          .done (some entry.node) := by
        simp [findLoop, node, there, here, same]
      simpa [same] using ComesTo.of_succ round (.of_eq fun _ => rfl)
    · have round (rounds : Nat) : findLoop compareFunction data memory (rounds + 1) (some entry.node) =
          findLoop compareFunction data memory rounds next := by
        simp [findLoop, node, there, here, same]
      simpa [same] using ComesTo.of_succ round (ih later values)

theorem find_comesTo (holds : Holds memory entries) (there : memory.data.object data = some value) :
    ComesTo (find (some compareFunction) data memory)
      (.done (.ok ((entries.find? fun entry => compareFunction value entry.value = 0).map Entry.node))) :=
  .bind (findLoop_segment there holds.chain holds.values) (.of_eq fun _ => rfl)

theorem readLoop_segment (segment : Segment memory.nodes start entries none)
    (values : ∀ entry ∈ entries, memory.data.object entry.datum = some entry.value) :
    ComesTo (fun rounds => readLoop memory rounds start) (.done (entries.map Entry.value)) := by
  induction entries generalizing start with
  | nil =>
    obtain rfl : start = none := segment
    exact .of_eq fun rounds => by cases rounds <;> rfl
  | cons entry rest ih =>
    obtain ⟨rfl, next, node, later⟩ := segment
    obtain ⟨here, values⟩ := List.forall_mem_cons.mp values
    have round (rounds : Nat) : readLoop memory (rounds + 1) (some entry.node) =
        (readLoop memory rounds next >>= fun rest => .done (entry.value :: rest)) := by
      simp [readLoop, node, here]
    exact .of_succ round (.bind (ih later values) (.of_eq fun _ => rfl))

theorem readLoop_comesTo (holds : Holds memory entries) :
    ComesTo (fun rounds => readLoop memory rounds memory.head) (.done (entries.map Entry.value)) :=
  readLoop_segment holds.chain holds.values

end Lists

end LinkedList

end LeoCoin
