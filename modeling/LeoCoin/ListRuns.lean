import LeoCoin.ListHeap

/-! # Runs of a list

Any calls on one list, one after the other, and the mathematical list that goes through the
same operations.
-/

namespace LeoCoin

open Library.Programs
open Library.Heap
open Library.Programs

variable {σ : Type}

/-! ## Calls -/

/-- A function that is called, with what is passed besides the list, and with what allocation and memory have for it. -/
inductive ListOperation (σ : Type) where
  | prepend (data : Option Nat) (granted : Bool) : ListOperation σ
  | append (data : Option Nat) (granted : Bool) : ListOperation σ
  | removeFirst : ListOperation σ
  | getFirst (nodeGiven : Bool) : ListOperation σ
  | getLast (nodeGiven : Bool) : ListOperation σ
  | find (contents : σ) (data : Option Nat) (nodeGiven : Bool) : ListOperation σ
  | length (lengthGiven : Bool) : ListOperation σ
  | isEmpty (isEmptyGiven : Bool) : ListOperation σ
  | destroy : ListOperation σ

structure ListCall (σ : Type) where
  listGiven : Bool
  operation : ListOperation σ

/-- What is filled in by a call that succeeds. -/
inductive ListAnswer where
  | done : ListAnswer
  | pointer (node : Option Nat) : ListAnswer
  /-- A node is filled in, or the argument left untouched. -/
  | found (node : Option Nat) : ListAnswer
  | length (length : UInt64) : ListAnswer
  | isEmpty (isEmpty : Bool) : ListAnswer
deriving DecidableEq

def ListOperation.perform (linkedList : Option Nat) (rounds : Nat) : ListOperation σ → ListProgram σ ListAnswer
  | .prepend data granted => do
    ListHeap.prepend linkedList data granted
    return .done
  | .append data granted => do
    ListHeap.append linkedList data granted rounds
    return .done
  | .removeFirst => do
    ListHeap.removeFirst linkedList
    return .done
  | .getFirst nodeGiven => do
    let node ← ListHeap.getFirst linkedList nodeGiven
    return .pointer node
  | .getLast nodeGiven => do
    let node ← ListHeap.getLast linkedList nodeGiven rounds
    return .pointer node
  | .find contents data nodeGiven => do
    let node ← ListHeap.find contents linkedList data nodeGiven rounds
    return .found node
  | .length lengthGiven => do
    let length ← ListHeap.length linkedList lengthGiven rounds
    return .length length
  | .isEmpty isEmptyGiven => do
    let isEmpty ← ListHeap.isEmpty linkedList isEmptyGiven
    return .isEmpty isEmpty
  | .destroy => do
    ListHeap.destroy linkedList rounds
    return .done

def ListCall.perform (call : ListCall σ) (list rounds : Nat) : ListProgram σ ListAnswer :=
  call.operation.perform (if call.listGiven then some list else none) rounds

/-- The list is not there any more afterwards. -/
def ListCall.destroys (call : ListCall σ) : Bool :=
  match call.operation with
  | .destroy => call.listGiven
  | _ => false

/-! ## The mathematical list -/

/-- What the operation does to a list of data. -/
def ListOperation.apply : ListOperation σ → List Nat → List Nat
  | .prepend (some data) _, list => data :: list
  | .append (some data) _, list => list ++ [data]
  | .removeFirst, list => list.tail
  | .destroy, _ => []
  | _, list => list

/-- What it puts into one. -/
def ListOperation.inserts : ListOperation σ → Option Nat
  | .prepend data _ => data
  | .append data _ => data
  | _ => none

/-- What it is answered by a list with these entries. -/
def ListOperation.answer (compareFunction : Option (σ → Nat → Nat → Int32)) (room : Bool)
    (entries : List (Entry Unit)) : ListOperation σ → Except Failure ListAnswer
  | .prepend none _ => .error .invalidInput
  | .prepend (some _) granted => if granted && room then .ok .done else .error .couldNotMalloc
  | .append none _ => .error .invalidInput
  | .append (some _) granted => if granted && room then .ok .done else .error .couldNotMalloc
  | .removeFirst => if entries.isEmpty then .error .linkedListEmpty else .ok .done
  | .getFirst false => .error .invalidInput
  | .getFirst true => if entries.isEmpty then .error .linkedListEmpty else .ok (.pointer (firstNode entries))
  | .getLast false => .error .invalidInput
  | .getLast true => if entries.isEmpty then .error .linkedListEmpty else .ok (.pointer (lastNode entries))
  | .find _ none _ => .error .invalidInput
  | .find _ _ false => .error .invalidInput
  | .find contents (some data) true =>
    match compareFunction with
    | none => .error .linkedListNoCompareFunction
    | some compare =>
      .ok (.found ((entries.find? fun entry => compare contents data entry.datum = 0).map Entry.node))
  | .length false => .error .invalidInput
  | .length true => .ok (.length (UInt64.ofNat entries.length))
  | .isEmpty false => .error .invalidInput
  | .isEmpty true => .ok (.isEmpty entries.isEmpty)
  | .destroy => .ok .done

def ListCall.answer (call : ListCall σ) (compareFunction : Option (σ → Nat → Nat → Int32)) (room : Bool)
    (entries : List (Entry Unit)) : Except Failure ListAnswer :=
  if call.listGiven then call.operation.answer compareFunction room entries else .error .invalidInput

/-- A call that was made, and what came of it. -/
structure ListEvent (σ : Type) where
  call : ListCall σ
  result : Except Failure ListAnswer

/-- A call that fails changes nothing. -/
def ListEvent.apply (list : List Nat) (event : ListEvent σ) : List Nat :=
  match event.result with
  | .ok _ => event.call.operation.apply list
  | .error _ => list

def ListEvent.inserts (event : ListEvent σ) : Option Nat :=
  match event.result with
  | .ok _ => event.call.operation.inserts
  | .error _ => none

/-- The list that went through the same operations. -/
def mathematicalList (log : List (ListEvent σ)) : List Nat := log.foldl ListEvent.apply []

/-- All data that were put into it. -/
def inserted (log : List (ListEvent σ)) : List Nat := log.filterMap ListEvent.inserts

/-- Calls on a list that was made. -/
inductive ListRun (list : Nat) (made : ListHeap σ) : List (ListEvent σ) → ListHeap σ → Prop where
  | nil : ListRun list made [] made
  | snoc {log : List (ListEvent σ)} {heap after : ListHeap σ} {event : ListEvent σ} (run : ListRun list made log heap)
      (yields : Yields (event.call.perform list) heap event.result after) : ListRun list made (log ++ [event]) after

/-! ## The list and the heap -/

open ListHeap

/-- The list on the heap is the mathematical one, and every datum is in it or has been freed. -/
structure Refines (start : ListHeap σ) (list : Nat) (compareFunction : Option (σ → Nat → Nat → Int32))
    (log : List (ListEvent σ)) (gone entries : List (Entry Unit)) (heap : ListHeap σ) : Prop
    extends Owns start list compareFunction gone entries heap where
  data : entries.map Entry.datum = mathematicalList log
  account : ((gone ++ entries).map Entry.datum).Perm (inserted log)
  bounded : nodeSize * entries.length < 2 ^ 64

section Runs

variable {start made heap : ListHeap σ} {list : Nat} {compareFunction : Option (σ → Nat → Nat → Int32)}
  {log : List (ListEvent σ)} {gone entries : List (Entry Unit)} {event : ListEvent σ}

@[simp] theorem mathematicalList_snoc (log : List (ListEvent σ)) (event : ListEvent σ) :
    mathematicalList (log ++ [event]) = event.apply (mathematicalList log) := by
  simp [mathematicalList]

theorem inserted_snoc (log : List (ListEvent σ)) (event : ListEvent σ) :
    inserted (log ++ [event]) = inserted log ++ event.inserts.toList := by
  cases inserts : event.inserts with
  | none => simp [inserted, inserts]
  | some datum => simp [inserted, inserts]

theorem create_yields (start : ListHeap σ) (compareFunction : Option (σ → Nat → Nat → Int32)) :
    Yields (fun _ => create true true true compareFunction) start (.ok start.lists.fresh)
      { start with lists := start.lists.allocate ⟨compareFunction, none⟩ } :=
  (yields_pure ()).bind (yields_granted rfl)

theorem create_refused (start : ListHeap σ) (compareFunction : Option (σ → Nat → Nat → Int32)) :
    Yields (fun _ => create true true false compareFunction) start (.error .couldNotMalloc) start :=
  (yields_pure ()).bind (yields_refused rfl)

theorem refines_nil {granted : Bool}
    (created : Yields (fun _ => create true true granted compareFunction) start (.ok list) made) :
    Refines start list compareFunction [] [] [] made := by
  cases granted with
  | false => cases (created.unique (create_refused start compareFunction)).1
  | true =>
    obtain ⟨same, rfl⟩ := created.unique (create_yields start compareFunction)
    obtain rfl : list = start.lists.fresh := Except.ok.inj same
    have owned : Owns start start.lists.fresh compareFunction [] []
        { start with lists := start.lists.allocate ⟨compareFunction, none⟩ } :=
      owns_nil (start.lists.allocate_object_fresh _) (fun _ differs => start.lists.allocate_object_of_ne _ differs) rfl
    exact ⟨owned, rfl, .refl _, by decide⟩

theorem Refines.unchanged (refines : Refines start list compareFunction log gone entries heap)
    (applies : event.apply (mathematicalList log) = mathematicalList log) (inserts : event.inserts = none) :
    Refines start list compareFunction (log ++ [event]) gone entries heap := by
  refine ⟨refines.toOwns, ?_, ?_, refines.bounded⟩
  · rw [mathematicalList_snoc, applies]
    exact refines.data
  · rw [inserted_snoc, inserts]
    simpa using refines.account

/-- Every node has an address, so there are not too many. -/
theorem bounded_of_room {granted : Bool} {after : ListHeap σ} {grown : List (Entry Unit)}
    (owns : Owns start list compareFunction gone entries heap) (granting : (granted && heap.room) = true)
    (owned : Owns start list compareFunction gone grown after) (longer : grown.length = entries.length + 1) :
    nodeSize * grown.length < 2 ^ 64 := by
  have live (address : Nat) (member : address ∈ grown.map Entry.node) : after.nodes.Live address := by
    obtain ⟨entry, listed, rfl⟩ := List.mem_map.mp member
    exact owned.live listed
  have fits := Store.length_le_count owned.distinct live
  have more : after.nodes.fresh = heap.nodes.fresh + 1 := by
    rw [owned.fresh, owns.fresh, List.length_append, List.length_append, longer]
    omega
  have room : nodeSize * (heap.nodes.count + 1) < 2 ^ 64 := by
    have enough := (Bool.and_eq_true_iff.mp granting).2
    simpa [ListHeap.room] using enough
  rw [List.length_map, Store.count, more, owned.released, ← owns.released] at fits
  rw [Store.count] at room
  simp only [nodeSize] at room ⊢
  omega

/-- The call comes to the answer of the list; the heap refines the list behind it, and is the same where it fails. -/
def Stepped (start : ListHeap σ) (list : Nat) (compareFunction : Option (σ → Nat → Nat → Int32))
    (log : List (ListEvent σ)) (entries : List (Entry Unit)) (heap : ListHeap σ) (call : ListCall σ) : Prop :=
  ∃ gone' entries' after,
    Yields (call.perform list) heap (call.answer compareFunction heap.room entries) after ∧
      Refines start list compareFunction (log ++ [⟨call, call.answer compareFunction heap.room entries⟩]) gone' entries'
        after ∧
      ∀ failure, call.answer compareFunction heap.room entries = .error failure → after = heap

theorem Refines.failed (refines : Refines start list compareFunction log gone entries heap) {call : ListCall σ}
    {failure : Failure} (answers : call.answer compareFunction heap.room entries = .error failure)
    (yields : Yields (call.perform list) heap (.error failure) heap) :
    Stepped start list compareFunction log entries heap call := by
  rw [← answers] at yields
  exact ⟨gone, entries, heap, yields, refines.unchanged (by simp [ListEvent.apply, answers])
    (by simp [ListEvent.inserts, answers]), fun _ _ => rfl⟩

theorem Refines.queried (refines : Refines start list compareFunction log gone entries heap) {call : ListCall σ}
    {answer : ListAnswer} (answers : call.answer compareFunction heap.room entries = .ok answer)
    (yields : Yields (call.perform list) heap (.ok answer) heap)
    (applies : ∀ data, call.operation.apply data = data) (inserts : call.operation.inserts = none) :
    Stepped start list compareFunction log entries heap call := by
  rw [← answers] at yields
  exact ⟨gone, entries, heap, yields, refines.unchanged (by simp [ListEvent.apply, answers, applies])
    (by simp [ListEvent.inserts, answers, inserts]), fun _ _ => rfl⟩

theorem Refines.prepended (refines : Refines start list compareFunction log gone entries heap) (data : Nat)
    (granted : Bool) : Stepped start list compareFunction log entries heap ⟨true, .prepend (some data) granted⟩ := by
  cases granting : granted && heap.room with
  | false =>
    refine refines.failed ?_ (refines.prepend_refused granting).bind_fail
    simp [ListCall.answer, ListOperation.answer, granting]
  | true =>
    obtain ⟨after, yields, owned⟩ := refines.prepend data granting
    have answers : (⟨true, .prepend (some data) granted⟩ : ListCall σ).answer compareFunction heap.room entries =
        .ok .done := by
      simp [ListCall.answer, ListOperation.answer, granting]
    have grows : Refines start list compareFunction
        (log ++ [⟨⟨true, .prepend (some data) granted⟩, .ok .done⟩]) gone (⟨heap.nodes.fresh, data, ()⟩ :: entries)
        after := by
      refine ⟨owned, ?_, ?_, bounded_of_room refines.toOwns granting owned rfl⟩
      · rw [mathematicalList_snoc, List.map_cons, refines.data]
        rfl
      · rw [inserted_snoc]
        have middle : ((gone ++ ⟨heap.nodes.fresh, data, ()⟩ :: entries).map Entry.datum).Perm
            (data :: (gone ++ entries).map Entry.datum) := List.perm_middle.map Entry.datum
        exact middle.trans ((refines.account.cons data).trans (List.perm_append_singleton _ _).symm)
    rw [Stepped, answers]
    exact ⟨gone, _, after, yields.bind (yields_pure _), grows, by simp⟩

theorem Refines.appended (refines : Refines start list compareFunction log gone entries heap) (data : Nat)
    (granted : Bool) : Stepped start list compareFunction log entries heap ⟨true, .append (some data) granted⟩ := by
  cases granting : granted && heap.room with
  | false =>
    refine refines.failed ?_ (refines.append_refused granting).bind_fail
    simp [ListCall.answer, ListOperation.answer, granting]
  | true =>
    obtain ⟨after, yields, owned⟩ := refines.append data granting
    have answers : (⟨true, .append (some data) granted⟩ : ListCall σ).answer compareFunction heap.room entries =
        .ok .done := by
      simp [ListCall.answer, ListOperation.answer, granting]
    have grows : Refines start list compareFunction
        (log ++ [⟨⟨true, .append (some data) granted⟩, .ok .done⟩]) gone (entries ++ [⟨heap.nodes.fresh, data, ()⟩])
        after := by
      refine ⟨owned, ?_, ?_, bounded_of_room refines.toOwns granting owned (by simp)⟩
      · rw [mathematicalList_snoc, List.map_append, refines.data]
        rfl
      · rw [inserted_snoc, ← List.append_assoc, List.map_append]
        exact refines.account.append_right [data]
    rw [Stepped, answers]
    exact ⟨gone, _, after, yields.bind (yields_pure _), grows, by simp⟩

theorem Refines.removedFirst (refines : Refines start list compareFunction log gone entries heap) :
    Stepped start list compareFunction log entries heap ⟨true, .removeFirst⟩ := by
  cases entries with
  | nil => exact refines.failed rfl refines.removeFirst_empty.bind_fail
  | cons entry rest =>
    obtain ⟨after, yields, owned⟩ := refines.removeFirst
    have answers : (⟨true, .removeFirst⟩ : ListCall σ).answer compareFunction heap.room (entry :: rest) = .ok .done :=
      rfl
    have shrinks : Refines start list compareFunction (log ++ [⟨⟨true, .removeFirst⟩, .ok .done⟩]) (gone ++ [entry])
        rest after := by
      refine ⟨owned, ?_, ?_, ?_⟩
      · rw [mathematicalList_snoc, ← refines.data]
        rfl
      · have regroup : gone ++ [entry] ++ rest = gone ++ entry :: rest := by simp
        rw [inserted_snoc, regroup]
        simpa [ListEvent.inserts, ListOperation.inserts] using refines.account
      · have fits := refines.bounded
        simp only [nodeSize, List.length_cons] at fits ⊢
        omega
    rw [Stepped, answers]
    exact ⟨_, rest, after, yields.bind (yields_pure _), shrinks, by simp⟩

/-- One call on a list that is there. -/
theorem Refines.step (refines : Refines start list compareFunction log gone entries heap) (call : ListCall σ)
    (alive : call.destroys = false) : Stepped start list compareFunction log entries heap call := by
  obtain ⟨listGiven, operation⟩ := call
  cases listGiven with
  | false =>
    refine refines.failed rfl ?_
    cases operation with
    | _ => exact (yields_fail _).bind_fail.bind_fail
  | true =>
    cases operation with
    | prepend data granted =>
      cases data with
      | none => exact refines.failed rfl ((yields_pure list).bind (yields_fail _).bind_fail).bind_fail
      | some data => exact refines.prepended data granted
    | append data granted =>
      cases data with
      | none => exact refines.failed rfl ((yields_pure list).bind (yields_fail _).bind_fail).bind_fail
      | some data => exact refines.appended data granted
    | removeFirst => exact refines.removedFirst
    | getFirst nodeGiven =>
      cases nodeGiven with
      | false => exact refines.failed rfl ((yields_pure list).bind (yields_fail _).bind_fail).bind_fail
      | true =>
        cases entries with
        | nil => exact refines.failed rfl (getFirst_empty refines.header rfl).bind_fail
        | cons entry rest =>
          exact refines.queried rfl ((getFirst_yields refines.header rfl).bind (yields_pure _)) (fun _ => rfl) rfl
    | getLast nodeGiven =>
      cases nodeGiven with
      | false => exact refines.failed rfl ((yields_pure list).bind (yields_fail _).bind_fail).bind_fail
      | true =>
        cases entries using List.reverseRecOn with
        | nil => exact refines.failed rfl refines.getLast_empty.bind_fail
        | append_singleton kept last =>
          refine refines.queried ?_ (refines.getLast.bind (yields_pure _)) (fun _ => rfl) rfl
          simp [ListCall.answer, ListOperation.answer]
    | find contents data nodeGiven =>
      cases data with
      | none => exact refines.failed rfl ((yields_pure list).bind (yields_fail _).bind_fail).bind_fail
      | some data =>
        cases nodeGiven with
        | false =>
          exact refines.failed rfl
            ((yields_pure list).bind ((yields_pure data).bind (yields_fail _).bind_fail)).bind_fail
        | true =>
          cases compareFunction with
          | none => exact refines.failed rfl (refines.find_none contents data).bind_fail
          | some compare =>
            exact refines.queried rfl ((refines.find contents data).bind (yields_pure _)) (fun _ => rfl) rfl
    | length lengthGiven =>
      cases lengthGiven with
      | false => exact refines.failed rfl ((yields_pure list).bind (yields_fail _).bind_fail).bind_fail
      | true => exact refines.queried rfl (refines.length.bind (yields_pure _)) (fun _ => rfl) rfl
    | isEmpty isEmptyGiven =>
      cases isEmptyGiven with
      | false => exact refines.failed rfl ((yields_pure list).bind (yields_fail _).bind_fail).bind_fail
      | true =>
        have tells : Yields ((⟨true, .isEmpty true⟩ : ListCall σ).perform list) heap
            (.ok (.isEmpty (firstNode entries).isNone)) heap :=
          (isEmpty_yields refines.header).bind (yields_pure _)
        refine refines.queried ?_ tells (fun _ => rfl) rfl
        cases entries with
        | nil => rfl
        | cons entry rest => rfl
    | destroy => cases alive

/-- And any calls, one after the other. -/
theorem Refines.run (made_empty : Refines start list compareFunction [] [] [] made) (run : ListRun list made log heap)
    (undestroyed : ∀ event ∈ log, event.call.destroys = false) :
    ∃ gone entries, Refines start list compareFunction log gone entries heap := by
  induction run with
  | nil => exact ⟨[], [], made_empty⟩
  | snoc run yields ih =>
    obtain ⟨earlier, last⟩ := List.forall_mem_append.mp undestroyed
    obtain ⟨gone, entries, refines⟩ := ih earlier
    obtain ⟨gone', entries', after, answers, refined, -⟩ := refines.step _ (last _ List.mem_cons_self)
    obtain ⟨same, rfl⟩ := yields.unique answers
    rw [← same] at refined
    exact ⟨gone', entries', refined⟩

/-- No call gets stuck, so every sequence of calls has a run. -/
theorem Refines.runs (made_empty : Refines start list compareFunction [] [] [] made) (calls : List (ListCall σ))
    (undestroyed : ∀ call ∈ calls, call.destroys = false) :
    ∃ log heap, log.map ListEvent.call = calls ∧ ListRun list made log heap := by
  induction calls using List.reverseRecOn with
  | nil => exact ⟨[], made, rfl, .nil⟩
  | append_singleton calls call ih =>
    obtain ⟨earlier, last⟩ := List.forall_mem_append.mp undestroyed
    obtain ⟨log, heap, rfl, run⟩ := ih earlier
    obtain ⟨gone, entries, refines⟩ := made_empty.run run fun event member =>
      earlier event.call (List.mem_map_of_mem member)
    obtain ⟨gone', entries', after, answers, -, -⟩ := refines.step call (last call List.mem_cons_self)
    exact ⟨log ++ [⟨call, _⟩], after, by simp, .snoc run answers⟩

theorem Refines.next (refines : Refines start list compareFunction log gone entries heap) (call : ListCall σ) :
    ∃ after, Yields (call.perform list) heap (call.answer compareFunction heap.room entries) after ∧
      (∀ failure, call.answer compareFunction heap.room entries = .error failure → after = heap) ∧
      (call.destroys = true → Freed start list (gone ++ entries) after) := by
  cases destroys : call.destroys with
  | false =>
    obtain ⟨_, _, after, answers, -, kept⟩ := refines.step call destroys
    exact ⟨after, answers, kept, by simp⟩
  | true =>
    obtain ⟨listGiven, operation⟩ := call
    cases operation with
    | destroy =>
      obtain rfl : listGiven = true := destroys
      obtain ⟨after, yields, freed⟩ := refines.destroy
      refine ⟨after, yields.bind (yields_pure _), ?_, fun _ => freed⟩
      intro failure fails
      cases fails
    | _ => cases destroys

end Runs

/-- Whatever is called on a list that was made, as long as it has not been destroyed: the calls come to an end, and in
every run of them the nodes from the head on are distinct, there, and hold the data of the list that went through the
same operations; and so is the next call answered as that list answers it, without a change where it fails, and with
every node and every datum freed once where it destroys the list. -/
theorem linked_list_refines {start made : ListHeap σ} {list : Nat} {granted : Bool}
    {compareFunction : Option (σ → Nat → Nat → Int32)}
    (created : Yields (fun _ => create true true granted compareFunction) start (.ok list) made)
    {calls : List (ListCall σ)} (undestroyed : ∀ call ∈ calls, call.destroys = false) :
    (∃ log heap, log.map ListEvent.call = calls ∧ ListRun list made log heap) ∧
    ∀ log heap, ListRun list made log heap → log.map ListEvent.call = calls →
      ∃ gone entries, Refines start list compareFunction log gone entries heap ∧
        (entries.map Entry.node).Nodup ∧ (∀ entry ∈ entries, heap.nodes.Live entry.node) ∧
        (UInt64.ofNat entries.length).toNat = (mathematicalList log).length ∧
        ∀ call : ListCall σ, ∃ after,
          Yields (call.perform list) heap (call.answer compareFunction heap.room entries) after ∧
            (∀ failure, call.answer compareFunction heap.room entries = .error failure → after = heap) ∧
            (call.destroys = true → Freed start list (gone ++ entries) after) := by
  have made_empty := refines_nil created
  refine ⟨made_empty.runs calls undestroyed, fun log heap run same => ?_⟩
  obtain ⟨gone, entries, refines⟩ := made_empty.run run fun event member =>
    undestroyed event.call (same ▸ List.mem_map_of_mem member)
  have counted : (UInt64.ofNat entries.length).toNat = (mathematicalList log).length := by
    have fits := refines.bounded
    rw [← refines.data, List.length_map]
    have few : entries.length < 2 ^ 64 := by
      simp only [nodeSize] at fits
      omega
    exact UInt64.toNat_ofNat_of_lt few
  exact ⟨gone, entries, refines, refines.distinct, fun _ member => refines.live member, counted, refines.next⟩

/-- Nothing has been allocated; no data can be compared. -/
def emptyHeap : ListHeap Unit := ⟨.empty, .empty, []⟩

/-- Memory is refused once on the way. -/
def sampleCalls : List (ListCall Unit) :=
  [⟨true, .prepend (some 7) true⟩, ⟨true, .append (some 9) false⟩, ⟨true, .append (some 8) true⟩, ⟨true, .removeFirst⟩]

theorem linked_list_refines_sample :
    (∃ log heap, log.map ListEvent.call = sampleCalls ∧
      ListRun 0 { emptyHeap with lists := emptyHeap.lists.allocate ⟨none, none⟩ } log heap) ∧
    ∀ log heap, ListRun 0 { emptyHeap with lists := emptyHeap.lists.allocate ⟨none, none⟩ } log heap →
      log.map ListEvent.call = sampleCalls →
      ∃ gone entries, Refines emptyHeap 0 none log gone entries heap ∧
        (entries.map Entry.node).Nodup ∧ (∀ entry ∈ entries, heap.nodes.Live entry.node) ∧
        (UInt64.ofNat entries.length).toNat = (mathematicalList log).length ∧
        ∀ call : ListCall Unit, ∃ after,
          Yields (call.perform 0) heap (call.answer none heap.room entries) after ∧
            (∀ failure, call.answer none heap.room entries = .error failure → after = heap) ∧
            (call.destroys = true → Freed emptyHeap 0 (gone ++ entries) after) :=
  linked_list_refines (create_yields emptyHeap none) (by simp [sampleCalls, ListCall.destroys])

end LeoCoin
