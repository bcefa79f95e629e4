import LeoCoin.Mining
import LeoCoin.Library.Search

/-! # What mining finds

The search of the two mining functions, seen from outside: which round ends it, with
which code, and what block it leaves behind.  The progress line is on the way to every
hash, and none of this depends on it.
-/

namespace LeoCoin

open Library.Logging Library.Search

variable {PKey : Type}

section Search

variable (platform : Platform PKey) (blockchain : Blockchain) (shouldStop versionDiffers : UInt64 → Bool)

/-- The block with this proof of work. -/
def Block.tried (block : Block) (newProof : Nat) : Block := { block with proofOfWork := .ofNat newProof }

/-- The block that the round before this one left, if there was one. -/
def Block.triedBefore (block : Block) (first newProof : Nat) : Block :=
  if newProof = first then block else block.tried (newProof - 1)

/-- The code that the round with this proof ends the search with. -/
def roundCode (block : Block) (newProof : Nat) : Option ReturnCode :=
  if shouldStop (.ofNat newProof) then
    some .failureStoppedEarly
  else if versionDiffers (.ofNat newProof) then
    some .failureLongerBlockchainDetected
  else if blockchainIsValidBlockHash platform blockchain (blockHash platform (block.tried newProof)) then
    some .success
  else
    none

/-- The code and the block of a search that ended in this round. -/
def searched (block : Block) (first remaining : Nat) : Option (Nat × ReturnCode) → ReturnCode × Block
  | some (newProof, .success) => (.success, block.tried newProof)
  | some (newProof, code) => (code, block.triedBefore first newProof)
  | none => (.failureCouldNotFindValidProofOfWork, block.triedBefore first (first + remaining))

variable {platform blockchain shouldStop versionDiffers} {printProgress : Bool}

/-- A tried proof leaves no trace in later rounds. -/
theorem roundCode_tried (block : Block) (newProof : Nat) :
    roundCode platform blockchain shouldStop versionDiffers (block.tried newProof) =
      roundCode platform blockchain shouldStop versionDiffers block := rfl

theorem searched_tried {block : Block} {first remaining : Nat} {found : Option (Nat × ReturnCode)}
    (later : ∀ newProof code, found = some (newProof, code) → first + 1 ≤ newProof) :
    searched (block.tried first) (first + 1) remaining found = searched block first (remaining + 1) found := by
  have before {newProof : Nat} (reached : first + 1 ≤ newProof) :
      (block.tried first).triedBefore (first + 1) newProof = block.triedBefore first newProof := by
    by_cases next : newProof = first + 1
    · simp [Block.triedBefore, next]
    · have past : newProof ≠ first := by omega
      simp [Block.triedBefore, next, past, Block.tried]
  cases found with
  | none =>
    have sum : first + 1 + remaining = first + (remaining + 1) := by omega
    rw [searched, searched, sum, before (by omega)]
  | some found =>
    obtain ⟨newProof, code⟩ := found
    have reached := later newProof code rfl
    cases code with
    | success => rfl
    | _ => rw [searched, searched, before reached] <;> simp

/-- The loop ends in the first round that has a code to end with.  Induction on the proofs left. -/
theorem mineLoop_value (remaining : Nat) (newProof : UInt64) (bestLeadingZeroes : Nat) (hash : Sha256)
    (block : Block) (room : newProof.toNat + remaining < 2 ^ 64) :
    (mineLoop platform blockchain printProgress shouldStop versionDiffers remaining newProof bestLeadingZeroes
        hash block).value =
      searched block newProof.toNat remaining
        (findFirst (roundCode platform blockchain shouldStop versionDiffers block) newProof.toNat remaining) := by
  induction remaining generalizing newProof bestLeadingZeroes hash block with
  | zero => simp [mineLoop, findFirst, searched, Block.triedBefore]
  | succ remaining ih =>
    have next : (newProof + 1).toNat = newProof.toNat + 1 := by
      rw [UInt64.toNat_add, UInt64.toNat_one, Nat.mod_eq_of_lt]
      omega
    -- the reasons of this round, in the order in which it looks at them
    rw [mineLoop, findFirst, roundCode, UInt64.ofNat_toNat]
    by_cases stop : shouldStop newProof = true
    · simp [stop, searched, Block.triedBefore]
    · by_cases differs : versionDiffers newProof = true
      · simp [stop, differs, searched, Block.triedBefore]
      · simp only [stop, differs, if_false, Logged.value_bind, isValidBlockHashLogged_value, Block.tried,
          UInt64.ofNat_toNat, Bool.false_eq_true]
        by_cases valid : blockchainIsValidBlockHash platform blockchain
            (blockHash platform { block with proofOfWork := newProof }) = true
        · simp [valid, searched, Block.tried]
        · simp only [valid, if_false, Bool.false_eq_true]
          -- none: the next round starts with this proof in the block
          have found := ih (newProof + 1)
            (showProgress printProgress
              (memoryOf (blockHash platform { block with proofOfWork := newProof }).digest platform.pastHash)
              newProof bestLeadingZeroes).value
            (blockHash platform { block with proofOfWork := newProof }) (block.tried newProof.toNat) (by omega)
          rw [roundCode_tried, next, searched_tried fun other code found => (findFirst_eq_some_iff.mp found).1] at found
          simpa only [Block.tried, UInt64.ofNat_toNat] using found

theorem searched_block (block : Block) (first remaining : Nat) (found : Option (Nat × ReturnCode)) :
    (searched block first remaining found).2 =
      { block with proofOfWork := (searched block first remaining found).2.proofOfWork } := by
  have before (newProof : Nat) : block.triedBefore first newProof =
      { block with proofOfWork := (block.triedBefore first newProof).proofOfWork } := by
    by_cases start : newProof = first
    · simp [Block.triedBefore, start]
    · simp [Block.triedBefore, start, Block.tried]
  cases found with
  | none => exact before (first + remaining)
  | some found =>
    obtain ⟨newProof, code⟩ := found
    cases code with
    | success => rfl
    | _ => exact before newProof

end Search

/-! ## The result of mining -/

section Result

variable (platform : Platform PKey) (blockchain : Blockchain) (block : Block) (shouldStop : UInt64 → Bool)
  (currentlyMined version : UInt64 → UInt64)

/-- `atomic_load(sync_version_currently_mined) != atomic_load(&sync->version)` -/
def versionsDiffer (currentlyMined version : UInt64 → UInt64) (newProof : UInt64) : Bool :=
  currentlyMined newProof != version newProof

/-- The hash of the block with this proof of work starts with the zeros that are asked for. -/
def Solves (newProof : UInt64) : Prop :=
  StartsWithZeros blockchain.numLeadingZeroBytesRequiredInBlockHash.toNat
    (blockHash platform { block with proofOfWork := newProof })

/-- A round that has no reason to end the search. -/
structure Continues (newProof : UInt64) : Prop where
  running : shouldStop newProof = false
  current : currentlyMined newProof = version newProof
  unsolved : ¬ Solves platform blockchain block newProof

/-- What is so in a round that ends the search with this code, or goes on. -/
def RoundReason (newProof : UInt64) : Option ReturnCode → Prop
  | none => Continues platform blockchain block shouldStop currentlyMined version newProof
  | some code =>
    (code = .failureStoppedEarly ∧ shouldStop newProof = true) ∨
    (code = .failureLongerBlockchainDetected ∧ shouldStop newProof = false ∧
      currentlyMined newProof ≠ version newProof) ∨
    (code = .success ∧ shouldStop newProof = false ∧ currentlyMined newProof = version newProof ∧
      Solves platform blockchain block newProof)

/-- What mining promises for the values that `should_stop` and the two versions take in its rounds. -/
structure MinesFirst (result : ReturnCode × Block) : Prop where
  /-- The first round with a reason to end it does, and the reasons are looked at in this order. -/
  ends : (∃ last < 18446744073709551615,
      (∀ earlier < last, Continues platform blockchain block shouldStop currentlyMined version earlier) ∧
      ((shouldStop last = true ∧ result.1 = .failureStoppedEarly) ∨
        (shouldStop last = false ∧ currentlyMined last ≠ version last ∧
          result.1 = .failureLongerBlockchainDetected) ∨
        (shouldStop last = false ∧ currentlyMined last = version last ∧ Solves platform blockchain block last ∧
          result.1 = .success ∧ result.2.proofOfWork = last))) ∨
    ((∀ newProof < 18446744073709551615,
      Continues platform blockchain block shouldStop currentlyMined version newProof) ∧
      result.1 = .failureCouldNotFindValidProofOfWork)
  least : result.1 = .success →
    result.2.proofOfWork < 18446744073709551615 ∧ Solves platform blockchain block result.2.proofOfWork ∧
      ∀ smaller < result.2.proofOfWork, ¬ Solves platform blockchain block smaller
  exhausted : result.1 = .failureCouldNotFindValidProofOfWork →
    ∀ newProof < 18446744073709551615, ¬ Solves platform blockchain block newProof
  frame : result.2 = { block with proofOfWork := result.2.proofOfWork }

variable {platform blockchain block shouldStop currentlyMined version}

theorem roundCode_reason (small : blockchain.numLeadingZeroBytesRequiredInBlockHash.toNat ≤ 32)
    (newProof : UInt64) :
    RoundReason platform blockchain block shouldStop currentlyMined version newProof
      (roundCode platform blockchain shouldStop (versionsDiffer currentlyMined version) block newProof.toNat) := by
  have solves : blockchainIsValidBlockHash platform blockchain
      (blockHash platform { block with proofOfWork := newProof }) = true ↔
        Solves platform blockchain block newProof := blockchain_is_valid_block_hash_iff small
  rw [roundCode, UInt64.ofNat_toNat, Block.tried, UInt64.ofNat_toNat]
  cases stop : shouldStop newProof with
  | true => exact .inl ⟨rfl, stop⟩
  | false =>
    by_cases current : currentlyMined newProof = version newProof
    · by_cases solved : Solves platform blockchain block newProof
      · simp only [versionsDiffer, current, solves.mpr solved, bne_self_eq_false, Bool.false_eq_true, if_false, if_true]
        exact .inr (.inr ⟨rfl, stop, current, solved⟩)
      · simp only [versionsDiffer, current, mt solves.mp solved, bne_self_eq_false, Bool.false_eq_true, if_false]
        exact ⟨stop, current, solved⟩
    · have differs : (currentlyMined newProof != version newProof) = true := by simp [current]
      simp only [versionsDiffer, differs, Bool.false_eq_true, if_false, if_true]
      exact .inr (.inl ⟨rfl, stop, current⟩)

theorem continues_of_roundCode (small : blockchain.numLeadingZeroBytesRequiredInBlockHash.toNat ≤ 32)
    {newProof : UInt64}
    (passed : roundCode platform blockchain shouldStop (versionsDiffer currentlyMined version) block
      newProof.toNat = none) :
    Continues platform blockchain block shouldStop currentlyMined version newProof := by
  have round : RoundReason platform blockchain block shouldStop currentlyMined version newProof none :=
    passed ▸ roundCode_reason small newProof
  exact round

theorem minesFirst_searched (small : blockchain.numLeadingZeroBytesRequiredInBlockHash.toNat ≤ 32) :
    MinesFirst platform blockchain block shouldStop currentlyMined version
      (searched block 0 18446744073709551615
        (findFirst (roundCode platform blockchain shouldStop (versionsDiffer currentlyMined version) block) 0
          18446744073709551615)) := by
  have frame := searched_block block 0 18446744073709551615
    (findFirst (roundCode platform blockchain shouldStop (versionsDiffer currentlyMined version) block) 0
      18446744073709551615)
  cases found : findFirst (roundCode platform blockchain shouldStop (versionsDiffer currentlyMined version) block) 0
      18446744073709551615 with
  | none =>
    rw [found] at frame
    rw [findFirst_eq_none_iff] at found
    have all (newProof : UInt64) (within : newProof < 18446744073709551615) :
        Continues platform blockchain block shouldStop currentlyMined version newProof :=
      continues_of_roundCode small
        (found newProof.toNat (Nat.zero_le _) (by simpa using UInt64.lt_iff_toNat_lt.mp within))
    exact ⟨.inr ⟨all, rfl⟩, fun success => (by cases success),
      fun _ newProof within => (all newProof within).unsolved, frame⟩
  | some ended =>
    obtain ⟨index, code⟩ := ended
    rw [found] at frame
    obtain ⟨-, within, answered, unanswered⟩ := findFirst_eq_some_iff.mp found
    -- the index is one of the proofs that are tried
    obtain ⟨last, rfl⟩ : ∃ last : UInt64, index = last.toNat := ⟨.ofNat index, by
      rw [UInt64.toNat_ofNat', Nat.mod_eq_of_lt]
      omega⟩
    have below : last < 18446744073709551615 := UInt64.lt_iff_toNat_lt.mpr (by simpa using within)
    have before (earlier : UInt64) (reached : earlier < last) :
        Continues platform blockchain block shouldStop currentlyMined version earlier :=
      continues_of_roundCode small (unanswered earlier.toNat (Nat.zero_le _) (UInt64.lt_iff_toNat_lt.mp reached))
    have reason : RoundReason platform blockchain block shouldStop currentlyMined version last (some code) :=
      answered ▸ roundCode_reason small last
    rcases reason with ⟨rfl, stop⟩ | ⟨rfl, running, differs⟩ | ⟨rfl, running, current, solved⟩
    · refine ⟨.inl ⟨last, below, before, .inl ⟨stop, rfl⟩⟩, fun success => ?_, fun none => ?_, frame⟩
      · cases success
      · cases none
    · refine ⟨.inl ⟨last, below, before, .inr (.inl ⟨running, differs, rfl⟩)⟩, fun success => ?_, fun none => ?_, frame⟩
      · cases success
      · cases none
    · have proof : (searched block 0 18446744073709551615 (some (last.toNat, .success))).2.proofOfWork = last := by
        simp [searched, Block.tried]
      refine ⟨.inl ⟨last, below, before, .inr (.inr ⟨running, current, solved, rfl, proof⟩)⟩, fun _ => ?_,
        fun none => ?_, frame⟩
      · rw [proof]
        exact ⟨below, solved, fun smaller less => (before smaller less).unsolved⟩
      · cases none

/-- `synchronized_blockchain_mine_block` ends in the first round with a reason to, with the least proof of
work if that is the reason, whatever is printed; and without versions it is `blockchain_mine_block`. -/
theorem synchronized_blockchain_mine_block_first (block : Block) (printProgress : Bool) (shouldStop : UInt64 → Bool)
    (currentlyMined version : UInt64 → UInt64)
    (small : blockchain.numLeadingZeroBytesRequiredInBlockHash.toNat ≤ 32) :
    MinesFirst platform blockchain block shouldStop currentlyMined version
        (synchronizedBlockchainMineBlock platform blockchain block printProgress shouldStop
          (versionsDiffer currentlyMined version)).value ∧
      (∀ otherwise, (synchronizedBlockchainMineBlock platform blockchain block otherwise shouldStop
          (versionsDiffer currentlyMined version)).value =
        (synchronizedBlockchainMineBlock platform blockchain block printProgress shouldStop
          (versionsDiffer currentlyMined version)).value) ∧
      ((∀ newProof, currentlyMined newProof = version newProof) →
        (blockchainMineBlock platform blockchain block printProgress shouldStop).value =
          (synchronizedBlockchainMineBlock platform blockchain block printProgress shouldStop
            (versionsDiffer currentlyMined version)).value) := by
  have value (printProgress : Bool) (versionDiffers : UInt64 → Bool) :
      (synchronizedBlockchainMineBlock platform blockchain block printProgress shouldStop versionDiffers).value =
        searched block 0 18446744073709551615
          (findFirst (roundCode platform blockchain shouldStop versionDiffers block) 0 18446744073709551615) :=
    mineLoop_value 18446744073709551615 0 0 Sha256.zero block (by simp)
  refine ⟨?_, fun otherwise => ?_, fun equal => ?_⟩
  · rw [value]
    exact minesFirst_searched small
  · rw [value, value]
  · have never : versionsDiffer currentlyMined version = fun _ => false := by
      funext newProof
      simp [versionsDiffer, equal newProof]
    rw [never, blockchainMineBlock, synchronizedBlockchainMineBlock]

/-- A search over the sample chain that is stopped in its sixth round at the latest. -/
theorem synchronized_blockchain_mine_block_first_sample :
    MinesFirst Platform.lenient (sampleChain 1) sampleBlock (fun newProof => newProof == 5) (fun _ => 1) (fun _ => 1)
      (synchronizedBlockchainMineBlock Platform.lenient (sampleChain 1) sampleBlock true
        (fun newProof => newProof == 5) (versionsDiffer (fun _ => 1) (fun _ => 1))).value :=
  (synchronized_blockchain_mine_block_first sampleBlock true (fun newProof => newProof == 5) (fun _ => 1) (fun _ => 1)
    (by decide)).1

end Result

end LeoCoin
