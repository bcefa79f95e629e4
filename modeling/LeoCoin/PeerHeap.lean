import LeoCoin.Library.Chain
import LeoCoin.Library.Course
import LeoCoin.PeerExpiry

/-! # Expiry in memory

The loop over the list of the bootstrap server with its pointers: what it reads of the
nodes and the records, what it links past and what it frees.  `unlinkExpired` is what it
comes to.  With `print_progress` on the name of a peer is looked up between unlinking its
node and freeing it, and the loop is left where that fails.
-/

namespace LeoCoin

open Library.Programs
open Library.Heap

/-! ## Names -/

/-- What the calls come to that name a peer before something is printed about it. -/
structure Lookup where
  getnameinfo : Bool
  inetNtop : Bool

/-- `if (args->print_progress)`: the branch is not left, with or without the calls. -/
def Lookup.printed (lookup : Lookup) (printProgress : Bool) : Bool :=
  !printProgress || (lookup.getnameinfo && lookup.inetNtop)

/-! ## The loop -/

/-- A round of the loop: on to the next node, or out of the loop with `FAILURE_NETWORK_FUNCTION`. -/
inductive ExpireRound where
  | next (prev node : Option Nat) (memory : Memory PeerInfo) : ExpireRound
  | refused (memory : Memory PeerInfo) : ExpireRound

/-- `if (NULL == node) node = head; else { prev = node; node = node->next; }` -/
def nextNode (memory : Memory PeerInfo) (prev node : Option Nat) : Option ExpireRound :=
  match node with
  | none => some (.next prev memory.head memory)
  | some address => do
    let here ← memory.nodes.object address
    return .next (some address) here.next memory

/-- The body of the loop at a node.  There is no result where it uses a node or a record that is not
there, or where the difference of the two times overflows. -/
def expireRound (keepalive : UInt64) (currentTime : Int64) (shown : Nat → Bool) (prev : Option Nat) (address : Nat)
    (memory : Memory PeerInfo) : Option ExpireRound := do
  let here ← memory.nodes.object address
  let peer ← memory.data.object here.data
  if !decide (Dated currentTime peer) then
    none
  -- `prev` may be `NULL`: then the head of the list is moved
  else if peerExpired keepalive currentTime peer then do
    let memory ← memory.setLink prev here.next
    if !shown address then
      return .refused memory
    else do
      -- the node is already linked past when its name is looked up
      let data ← memory.data.release here.data
      let nodes ← memory.nodes.release address
      nextNode { memory with nodes, data } prev prev
  else
    nextNode memory prev (some address)

/-- Out of the loop: at its end, or with `FAILURE_NETWORK_FUNCTION`. -/
inductive ExpireEnd where
  | refused (memory : Memory PeerInfo) : ExpireEnd
  | ended (memory : Memory PeerInfo) : ExpireEnd

/-- `while (NULL != node)`, for at most `rounds` rounds. -/
def expireLoop (keepalive : UInt64) (currentTime : Int64) (shown : Nat → Bool) :
    Nat → Option Nat → Option Nat → Memory PeerInfo → Course ExpireEnd
  | _, _, none, memory => .done (.ended memory)
  | 0, _, some _, _ => .running
  | rounds + 1, prev, some address, memory =>
    match expireRound keepalive currentTime shown prev address memory with
    | none => .undefined
    | some (.refused memory) => .done (.refused memory)
    | some (.next prev node memory) => expireLoop keepalive currentTime shown rounds prev node memory

/-- The loop from the head of the list. -/
def expirePeers (keepalive : UInt64) (currentTime : Int64) (shown : Nat → Bool) (memory : Memory PeerInfo)
    (rounds : Nat) : Course ExpireEnd :=
  expireLoop keepalive currentTime shown rounds none memory.head memory

/-! ## One round -/

section Round

variable {keepalive : UInt64} {currentTime : Int64} {shown : Nat → Bool} {memory : Memory PeerInfo}
  {kept rest : List (Entry PeerInfo)} {entry : Entry PeerInfo}

theorem nextNode_rest (holds : Holds memory (kept ++ rest)) :
    nextNode memory (lastNode kept) (lastNode kept) = some (.next (lastNode kept) (firstNode rest) memory) := by
  cases kept using List.reverseRecOn with
  | nil =>
    have head : memory.head = firstNode rest := holds.head_eq
    simp [nextNode, head]
  | append_singleton earlier last =>
    rw [List.append_assoc] at holds
    simp [nextNode, holds.node]

theorem expireRound_kept (shown : Nat → Bool) (holds : Holds memory (kept ++ entry :: rest))
    (dated : Dated currentTime entry.value)
    (stays : peerExpired keepalive currentTime entry.value = false) :
    expireRound keepalive currentTime shown (lastNode kept) entry.node memory =
      some (.next (some entry.node) (firstNode rest) memory) := by
  simp [expireRound, holds.node, holds.datum, dated, stays, nextNode]

/-- An entry that has expired is unlinked, and freed with its record if its name is found. -/
theorem expireRound_expired (shown : Nat → Bool) (kept rest : List (Entry PeerInfo))
    (holds : Holds memory (kept ++ entry :: rest)) (dated : Dated currentTime entry.value)
    (leaves : peerExpired keepalive currentTime entry.value = true) :
    ∃ unlinked, Holds unlinked (kept ++ rest) ∧ unlinked.nodes.released = memory.nodes.released ∧
      unlinked.data.released = memory.data.released ∧
      (shown entry.node = false →
        expireRound keepalive currentTime shown (lastNode kept) entry.node memory = some (.refused unlinked)) ∧
      (shown entry.node = true → ∃ freed, Holds freed (kept ++ rest) ∧
        freed.nodes.released = memory.nodes.released ++ [entry.node] ∧
        freed.data.released = memory.data.released ++ [entry.datum] ∧
        expireRound keepalive currentTime shown (lastNode kept) entry.node memory =
          some (.next (lastNode kept) (firstNode rest) freed)) := by
  obtain ⟨unlinked, linked, unlinks, data, released, node⟩ := holds.unlink
  refine ⟨unlinked, unlinks, released, by rw [data], fun hidden => ?_, fun shows => ?_⟩
  · simp [expireRound, holds.node, holds.datum, dated, leaves, linked, hidden]
  · -- unlinking has left the node and its record where they were
    have there : unlinked.nodes.object entry.node = some ⟨entry.datum, firstNode rest⟩ := node.trans holds.node
    have record : unlinked.data.object entry.datum = some entry.value := by rw [data, holds.datum]
    obtain ⟨freedData, freesData, -, dataKept, dataReleased, -⟩ := Store.release_of_live ⟨_, record⟩
    obtain ⟨freedNodes, freesNode, -, nodesKept, nodesReleased, -⟩ := Store.release_of_live ⟨_, there⟩
    have frees : Holds { unlinked with nodes := freedNodes, data := freedData } (kept ++ rest) :=
      unlinks.release nodesKept dataKept (fun other member => holds.node_ne member) fun other member =>
        holds.datum_ne member
    refine ⟨_, frees, by rw [nodesReleased, released], by rw [dataReleased, data], ?_⟩
    -- the loop goes on at the node behind `prev`, which is the rest again
    rw [← nextNode_rest frees]
    simp [expireRound, holds.node, holds.datum, dated, leaves, linked, shows, freesData, freesNode]

/-- Nothing is promised where the difference of the times overflows. -/
theorem expireRound_undated (holds : Holds memory (kept ++ entry :: rest)) (undated : ¬ Dated currentTime entry.value)
    (prev : Option Nat) : expireRound keepalive currentTime shown prev entry.node memory = none := by
  simp [expireRound, holds.node, holds.datum, undated]

end Round

/-! ## The loop as a whole -/

/-- The loop gets past the entry: the difference of the times is one, and its name is found if it has
to be printed. -/
def GetsPast (keepalive : UInt64) (currentTime : Int64) (shown : Nat → Bool) (entry : Entry PeerInfo) : Prop :=
  Dated currentTime entry.value ∧ (peerExpired keepalive currentTime entry.value = true → shown entry.node = true)

section Loop

variable {keepalive : UInt64} {currentTime : Int64} {shown : Nat → Bool}

theorem expireLoop_done (prev : Option Nat) (memory : Memory PeerInfo) :
    ComesTo (fun rounds => expireLoop keepalive currentTime shown rounds prev none memory) (.done (.ended memory)) :=
  .of_eq fun rounds => by cases rounds <;> rfl

theorem expireLoop_refused {prev : Option Nat} {address : Nat} {memory after : Memory PeerInfo}
    (round : expireRound keepalive currentTime shown prev address memory = some (.refused after)) :
    ComesTo (fun rounds => expireLoop keepalive currentTime shown rounds prev (some address) memory)
      (.done (.refused after)) :=
  .of_succ (fun rounds => by simp only [expireLoop, round]) (.of_eq fun _ => rfl)

theorem expireLoop_undefined {prev : Option Nat} {address : Nat} {memory : Memory PeerInfo}
    (round : expireRound keepalive currentTime shown prev address memory = none) :
    ComesTo (fun rounds => expireLoop keepalive currentTime shown rounds prev (some address) memory) .undefined :=
  .of_succ (fun rounds => by simp only [expireLoop, round]) (.of_eq fun _ => rfl)

theorem expireLoop_next {prev prev' node : Option Nat} {address : Nat} {memory after : Memory PeerInfo}
    {result : Course ExpireEnd}
    (round : expireRound keepalive currentTime shown prev address memory = some (.next prev' node after))
    (later : ComesTo (fun rounds => expireLoop keepalive currentTime shown rounds prev' node after) result) :
    ComesTo (fun rounds => expireLoop keepalive currentTime shown rounds prev (some address) memory) result :=
  .of_succ (fun rounds => by simp only [expireLoop, round]) later

/-- The entries that are left by the loop, of those it had before it. -/
def staying (keepalive : UInt64) (currentTime : Int64) (entries : List (Entry PeerInfo)) : List (Entry PeerInfo) :=
  entries.filter fun entry => !peerExpired keepalive currentTime entry.value

def leaving (keepalive : UInt64) (currentTime : Int64) (entries : List (Entry PeerInfo)) : List (Entry PeerInfo) :=
  entries.filter fun entry => peerExpired keepalive currentTime entry.value

/-- What the loop comes to behind the entries `kept`, with the entries `rest` before it. -/
inductive Expiry (keepalive : UInt64) (currentTime : Int64) (shown : Nat → Bool) (kept rest : List (Entry PeerInfo))
    (memory : Memory PeerInfo) (loop : Nat → Course ExpireEnd) : Prop where
  /-- It gets past all of them and has freed those that have expired. -/
  | ended (after : Memory PeerInfo) (comes : ComesTo loop (.done (.ended after)))
      (holds : Holds after (kept ++ staying keepalive currentTime rest))
      (nodes : after.nodes.released = memory.nodes.released ++ (leaving keepalive currentTime rest).map Entry.node)
      (data : after.data.released = memory.data.released ++ (leaving keepalive currentTime rest).map Entry.datum)
      (passes : ∀ entry ∈ rest, GetsPast keepalive currentTime shown entry)
  /-- A name is not found, and it leaves. -/
  | refused (after : Memory PeerInfo) (left : List (Entry PeerInfo)) (comes : ComesTo loop (.done (.refused after)))
      (holds : Holds after (kept ++ left)) (stays : (staying keepalive currentTime rest).Sublist left)
      (part : left.Sublist rest) (entry : Entry PeerInfo) (member : entry ∈ rest)
      (fails : ¬ GetsPast keepalive currentTime shown entry)
  /-- The difference of the times overflows. -/
  | undefined (comes : ComesTo loop .undefined) (entry : Entry PeerInfo) (member : entry ∈ rest)
      (fails : ¬ Dated currentTime entry.value)

section Entries

variable {kept rest : List (Entry PeerInfo)} {entry : Entry PeerInfo} {memory : Memory PeerInfo}
  {loop further : Nat → Course ExpireEnd}

theorem Expiry.passed (steps : ∀ {result}, ComesTo further result → ComesTo loop result)
    (dated : Dated currentTime entry.value) (stays : peerExpired keepalive currentTime entry.value = false)
    (later : Expiry keepalive currentTime shown (kept ++ [entry]) rest memory further) :
    Expiry keepalive currentTime shown kept (entry :: rest) memory loop := by
  have stay : staying keepalive currentTime (entry :: rest) = entry :: staying keepalive currentTime rest := by
    simp [staying, stays]
  have leave : leaving keepalive currentTime (entry :: rest) = leaving keepalive currentTime rest := by
    simp [leaving, stays]
  cases later with
  | ended after comes holds nodes data passes =>
    have own : GetsPast keepalive currentTime shown entry :=
      ⟨dated, fun expired => absurd expired (by simp [stays])⟩
    refine .ended after (steps comes) ?_ ?_ ?_ (List.forall_mem_cons.mpr ⟨own, passes⟩)
    · rw [stay]
      simpa using holds
    · rw [leave, nodes]
    · rw [leave, data]
  | refused after left comes holds kept part other member fails =>
    refine .refused after (entry :: left) (steps comes) (by simpa using holds) ?_ (part.cons_cons entry) other
      (List.mem_cons_of_mem _ member) fails
    rw [stay]
    exact kept.cons_cons entry
  | undefined comes other member fails =>
    exact .undefined (steps comes) other (List.mem_cons_of_mem _ member) fails

theorem Expiry.freed {freed : Memory PeerInfo} (steps : ∀ {result}, ComesTo further result → ComesTo loop result)
    (nodes : freed.nodes.released = memory.nodes.released ++ [entry.node])
    (data : freed.data.released = memory.data.released ++ [entry.datum])
    (own : GetsPast keepalive currentTime shown entry)
    (leaves : peerExpired keepalive currentTime entry.value = true)
    (later : Expiry keepalive currentTime shown kept rest freed further) :
    Expiry keepalive currentTime shown kept (entry :: rest) memory loop := by
  have stay : staying keepalive currentTime (entry :: rest) = staying keepalive currentTime rest := by
    simp [staying, leaves]
  have leave : leaving keepalive currentTime (entry :: rest) = entry :: leaving keepalive currentTime rest := by
    simp [leaving, leaves]
  cases later with
  | ended after comes holds laterNodes laterData passes =>
    refine .ended after (steps comes) ?_ ?_ ?_ (List.forall_mem_cons.mpr ⟨own, passes⟩)
    · rwa [stay]
    · rw [laterNodes, nodes, leave]
      simp
    · rw [laterData, data, leave]
      simp
  | refused after left comes holds kept part other member fails =>
    refine .refused after left (steps comes) holds ?_ (part.cons entry) other (List.mem_cons_of_mem _ member) fails
    rwa [stay]
  | undefined comes other member fails =>
    exact .undefined (steps comes) other (List.mem_cons_of_mem _ member) fails

/-- The loop has linked past an entry that has expired, and its name is not found. -/
theorem Expiry.unnamed {unlinked : Memory PeerInfo} (comes : ComesTo loop (.done (.refused unlinked)))
    (holds : Holds unlinked (kept ++ rest)) (leaves : peerExpired keepalive currentTime entry.value = true)
    (hidden : shown entry.node = false) : Expiry keepalive currentTime shown kept (entry :: rest) memory loop := by
  refine .refused unlinked rest comes holds ?_ (List.sublist_cons_self entry rest) entry List.mem_cons_self
    fun passes => ?_
  · have stay : staying keepalive currentTime (entry :: rest) = staying keepalive currentTime rest := by
      simp [staying, leaves]
    rw [stay]
    exact List.filter_sublist
  · rw [passes.2 leaves] at hidden
    cases hidden

end Entries

/-- Induction on the entries to come; those behind are only appended to. -/
theorem expireLoop_cases (keepalive : UInt64) (currentTime : Int64) (shown : Nat → Bool)
    (kept rest : List (Entry PeerInfo)) {memory : Memory PeerInfo} (holds : Holds memory (kept ++ rest)) :
    Expiry keepalive currentTime shown kept rest memory fun rounds =>
      expireLoop keepalive currentTime shown rounds (lastNode kept) (firstNode rest) memory := by
  induction rest generalizing kept memory with
  | nil =>
    refine .ended memory (expireLoop_done _ _) holds ?_ ?_ (by simp)
    · simp [leaving]
    · simp [leaving]
  | cons entry rest ih =>
    by_cases dated : Dated currentTime entry.value
    · cases expires : peerExpired keepalive currentTime entry.value with
      | false =>
        have further : Holds memory ((kept ++ [entry]) ++ rest) := by simpa using holds
        -- it stays behind the loop, which is now one entry further
        have later := ih (kept ++ [entry]) further
        rw [lastNode_concat] at later
        exact .passed (expireLoop_next (expireRound_kept shown holds dated expires)) dated expires later
      | true =>
        obtain ⟨unlinked, unlinks, -, -, hidden, shows⟩ := expireRound_expired shown kept rest holds dated expires
        cases named : shown entry.node with
        | false => exact .unnamed (expireLoop_refused (hidden named)) unlinks expires named
        | true =>
          obtain ⟨freed, frees, nodes, data, round⟩ := shows named
          exact .freed (expireLoop_next round) nodes data ⟨dated, fun _ => named⟩ expires (ih kept frees)
    · exact .undefined (expireLoop_undefined (expireRound_undated holds dated _)) entry List.mem_cons_self dated

theorem expirePeers_cases (keepalive : UInt64) (currentTime : Int64) (shown : Nat → Bool)
    {memory : Memory PeerInfo} {entries : List (Entry PeerInfo)} (holds : Holds memory entries) :
    Expiry keepalive currentTime shown [] entries memory (expirePeers keepalive currentTime shown memory) := by
  have cases := expireLoop_cases keepalive currentTime shown [] entries holds
  rw [lastNode_nil, ← holds.head_eq] at cases
  exact cases

/-- The entries that are left are those of the loop over a list without its memory. -/
theorem expirePeers_unlinkExpired {memory after : Memory PeerInfo} {entries : List (Entry PeerInfo)}
    (holds : Holds memory entries)
    (comes : ComesTo (expirePeers keepalive currentTime shown memory) (.done (.ended after))) :
    ∃ active, Holds after active ∧
      unlinkExpired (peerExpired keepalive currentTime) (entries.length + 1)
        ⟨entries.map Entry.value, none, nodeAt (entries.map Entry.value) 0⟩ = some (active.map Entry.value) := by
  cases expirePeers_cases keepalive currentTime shown holds with
  | ended done finishes remains =>
    obtain rfl := ExpireEnd.ended.inj (Course.done.inj (comes.unique finishes))
    refine ⟨_, remains, ?_⟩
    have all := unlinkExpired_eq (peerExpired keepalive currentTime) (entries.map Entry.value)
    rw [List.length_map] at all
    rw [all, List.filter_map]
    rfl
  | refused done left refuses => cases comes.unique refuses
  | undefined breaks => cases comes.unique breaks

end Loop

/-! ## What has to be left -/

instance (keepalive : UInt64) (currentTime : Int64) (peer : PeerInfo) : Decidable (Older keepalive currentTime peer) :=
  inferInstanceAs (Decidable (_ < _))

/-- The loop comes to its end, has left the entries that are not older than the keepalive as they
were and has freed the others once. -/
def ExpiresExactly (keepalive : UInt64) (currentTime : Int64) (shown : Nat → Bool) (memory : Memory PeerInfo)
    (entries : List (Entry PeerInfo)) : Prop :=
  ∃ after, ComesTo (expirePeers keepalive currentTime shown memory) (.done (.ended after)) ∧
    Holds after (entries.filter fun entry => !decide (Older keepalive currentTime entry.value)) ∧
    after.nodes.released = memory.nodes.released ++
      (entries.filter fun entry => decide (Older keepalive currentTime entry.value)).map Entry.node ∧
    after.data.released = memory.data.released ++
      (entries.filter fun entry => decide (Older keepalive currentTime entry.value)).map Entry.datum

/-- The age of the entry, in seconds. -/
def age (currentTime : Int64) (peer : PeerInfo) : Int := currentTime.toInt - peer.lastConnected.toInt

/-- The number of seconds lies between the keepalive and what the division in `double`s makes of it. -/
def RoundedPast (keepalive : UInt64) (seconds : Int) : Prop :=
  (⌊keepaliveSeconds keepalive⌋ < seconds ∧ seconds ≤ keepalive.toNat / 1000000) ∨
    (keepalive.toNat / 1000000 < seconds ∧ seconds ≤ ⌊keepaliveSeconds keepalive⌋)

theorem older_iff {keepalive : UInt64} {currentTime : Int64} {peer : PeerInfo} :
    Older keepalive currentTime peer ↔ (keepalive.toNat / 1000000 : Int) < age currentTime peer := by
  rw [Older, age]
  omega

/-- The comparison of `double`s decides as exact arithmetic does, but for the ages between. -/
theorem peerExpired_eq_older_iff {keepalive : UInt64} {currentTime : Int64} {peer : PeerInfo}
    (dated : Dated currentTime peer) :
    (peerExpired keepalive currentTime peer = decide (Older keepalive currentTime peer)) ↔
      ¬ RoundedPast keepalive (age currentTime peer) := by
  rw [Bool.eq_iff_iff, peerExpired_iff_floor dated, decide_eq_true_eq, older_iff, RoundedPast, age]
  omega

/-- A keepalive of less than 285 years is rounded past no age. -/
theorem not_roundedPast_of_lt {keepalive : UInt64} (small : keepalive.toNat < 2 ^ 53) (seconds : Int) :
    ¬ RoundedPast keepalive seconds := by
  have exact : ⌊keepaliveSeconds keepalive⌋ = (keepalive.toNat / 1000000 : Nat) := keepaliveExact_of_lt small
  rw [RoundedPast, exact]
  omega

/-- The loop over a list leaves exactly the entries that are young enough, if and only if each age is a
time that the keepalive is not rounded past, and the names of the peers that have to go are found. -/
theorem handle_one_peer_discovery_request_expires_iff {memory : Memory PeerInfo} {entries : List (Entry PeerInfo)}
    (holds : Holds memory entries) (keepalive : UInt64) (currentTime : Int64) (printProgress : Bool)
    (lookups : Nat → Lookup) :
    ExpiresExactly keepalive currentTime (fun node => (lookups node).printed printProgress) memory entries ↔
      ∀ entry ∈ entries, Dated currentTime entry.value ∧ ¬ RoundedPast keepalive (age currentTime entry.value) ∧
        (Older keepalive currentTime entry.value → (lookups entry.node).printed printProgress = true) := by
  generalize names : (fun node => (lookups node).printed printProgress) = shown
  have printed (node : Nat) : (lookups node).printed printProgress = shown node := congrFun names node
  have cases := expirePeers_cases keepalive currentTime shown holds
  constructor
  · rintro ⟨after, comes, remains, -, -⟩
    cases cases with
    | ended done finishes stays nodes data passes =>
      obtain rfl := ExpireEnd.ended.inj (Course.done.inj (comes.unique finishes))
      have same : entries.filter (fun entry => !decide (Older keepalive currentTime entry.value)) =
          staying keepalive currentTime entries := remains.unique stays
      intro entry member
      obtain ⟨dated, named⟩ := passes entry member
      -- the entry is left by both or by neither
      have agree : peerExpired keepalive currentTime entry.value =
          decide (Older keepalive currentTime entry.value) := by
        have listed : entry ∈ entries.filter (fun entry => !decide (Older keepalive currentTime entry.value)) ↔
            entry ∈ staying keepalive currentTime entries := by rw [same]
        simp only [staying, List.mem_filter, member, true_and] at listed
        exact (Bool.not_inj (Bool.eq_iff_iff.mpr listed)).symm
      refine ⟨dated, (peerExpired_eq_older_iff dated).mp agree, fun older => ?_⟩
      rw [printed]
      exact named (agree.trans (decide_eq_true older))
    | refused done left refuses => cases comes.unique refuses
    | undefined breaks => cases comes.unique breaks
  · intro fine
    cases cases with
    | ended done finishes stays nodes data =>
      -- the comparison in the loop divides the entries as exact arithmetic does
      have agree (entry : Entry PeerInfo) (member : entry ∈ entries) :
          peerExpired keepalive currentTime entry.value = decide (Older keepalive currentTime entry.value) :=
        (peerExpired_eq_older_iff (fine entry member).1).mpr (fine entry member).2.1
      have stay : staying keepalive currentTime entries =
          entries.filter fun entry => !decide (Older keepalive currentTime entry.value) :=
        List.filter_congr fun entry member => by rw [agree entry member]
      have leave : leaving keepalive currentTime entries =
          entries.filter fun entry => decide (Older keepalive currentTime entry.value) := List.filter_congr agree
      rw [stay] at stays
      rw [leave] at nodes data
      exact ⟨done, finishes, stays, nodes, data⟩
    | refused done left refuses holds stays part entry member fails =>
      obtain ⟨dated, judged, named⟩ := fine entry member
      refine absurd ⟨dated, fun expired => ?_⟩ fails
      rw [(peerExpired_eq_older_iff dated).mpr judged, decide_eq_true_eq] at expired
      rw [← printed]
      exact named expired
    | undefined breaks entry member fails => exact absurd (fine entry member).1 fails

/-! ## One entry -/

/-- A list of one entry, whose last time is 0. -/
def sampleEntry : Entry PeerInfo := ⟨0, 0, ⟨⟨10, 44444, 0, .replicate 16 0, 0⟩, 0⟩⟩

def sampleMemory : Memory PeerInfo where
  head := some 0
  nodes := Store.empty.allocate ⟨0, none⟩
  data := Store.empty.allocate sampleEntry.value

theorem sampleMemory_holds : Holds sampleMemory [sampleEntry] := by
  have record : Holds (Memory.empty : Memory PeerInfo) [] := holds_empty
  exact (record.allocate sampleEntry.value).push (Store.allocate_object_fresh _ _) (by simp)

/-- Both calls fail for every peer. -/
def nameless : Nat → Lookup := fun _ => ⟨false, false⟩

/-- Without printing nothing is looked up, and the entry goes after a minute. -/
theorem handle_one_peer_discovery_request_expires_iff_sample :
    ExpiresExactly 60000000 61 (fun node => (nameless node).printed false) sampleMemory [sampleEntry] := by
  refine (handle_one_peer_discovery_request_expires_iff sampleMemory_holds 60000000 61 false nameless).mpr ?_
  intro entry member
  obtain rfl := List.mem_singleton.mp member
  exact ⟨by decide, not_roundedPast_of_lt (by decide) _, fun _ => rfl⟩

/-- With printing the node is linked past when its name is not found, and never freed. -/
theorem nameless_peer_never_freed :
    ¬ ExpiresExactly 60000000 61 (fun node => (nameless node).printed true) sampleMemory [sampleEntry] := by
  -- 61 seconds after the last connection a keepalive of a minute is over
  have dated : Dated 61 sampleEntry.value := by decide
  have expired : peerExpired 60000000 61 sampleEntry.value = true :=
    (peerExpired_iff (keepaliveExact_of_lt (by decide)) dated).mpr (by decide)
  obtain ⟨unlinked, -, -, -, hidden, -⟩ := expireRound_expired (fun node => (nameless node).printed true) [] []
    sampleMemory_holds dated expired
  rintro ⟨after, comes, -⟩
  have refused : ComesTo (expirePeers 60000000 61 (fun node => (nameless node).printed true) sampleMemory)
      (.done (.refused unlinked)) := expireLoop_refused (hidden rfl)
  cases comes.unique refused

end LeoCoin
