import LeoCoin.Accesses
import LeoCoin.RoundTrip

/-! # Mining and the bytes of a digest

The two mining functions, with the log of the digest bytes that the progress line and
the proof of work check look at.  `num_leading_zero_bytes_required_in_block_hash` is not
checked anywhere before it is used as a count: up to 32 everything stays within the
digest, above 32 nothing refuses it.
-/

namespace LeoCoin

open Library.Logging Library.Decoding

variable {PKey : Type}

/-! ## The progress line -/

/-- The loop that counts leading zero nybbles, from `idx` on. -/
def countLeadingZeroes (digest : Nat → UInt8) : Nat → Nat → Nat → Logged Access Nat
  | _, 0, numZeroes => pure numZeroes
  | idx, remaining + 1, numZeroes => do
    Logged.touch (.digestByte idx)
    if digest idx >>> 4 != 0 then pure numZeroes
    else do
      Logged.touch (.digestByte idx)
      if digest idx != 0 then pure (numZeroes + 1)
      else countLeadingZeroes digest (idx + 1) remaining (numZeroes + 2)

/-- The loop that prints the nybbles from `idx` on. -/
def printNybbles : Nat → Nat → Logged Access Unit
  | _, 0 => pure ()
  | idx, remaining + 1 => do
    Logged.touch (.digestByte (idx / 2))
    printNybbles (idx + 1) remaining

/-- The loop that prints a whole digest, from `idx` on. -/
def printDigest : Nat → Nat → Logged Access Unit
  | _, 0 => pure ()
  | idx, remaining + 1 => do
    Logged.touch (.digestByte idx)
    printDigest (idx + 1) remaining

/-- What is printed at the end of a search. -/
def showDigest (printProgress : Bool) : Logged Access Unit :=
  if printProgress then printDigest 0 32 else pure ()

def printFrequency : UInt64 := 20000

/-- The `print_progress` part of a round; the value is the new `best_leading_zeroes`. -/
def showProgress (printProgress : Bool) (digest : Nat → UInt8) (newProof : UInt64) (bestLeadingZeroes : Nat) :
    Logged Access Nat :=
  if printProgress then do
    let numZeroes ← countLeadingZeroes digest 0 32 0
    let best := if numZeroes > bestLeadingZeroes then numZeroes else bestLeadingZeroes
    if newProof % printFrequency == 0 || numZeroes > bestLeadingZeroes then do
      printNybbles best (2 * 32 - best)
      pure best
    else pure best
  else pure bestLeadingZeroes

/-! ## The search -/

/-- The loop of the mining functions.  `shouldStop` and `longerBlockchainDetected` are what
the round that is about to try a proof reads; `hash` is the hash of the round before. -/
def mineLoop (platform : Platform PKey) (blockchain : Blockchain) (printProgress : Bool)
    (shouldStop longerBlockchainDetected : UInt64 → Bool) :
    Nat → UInt64 → Nat → Sha256 → Block → Logged Access (ReturnCode × Block)
  | 0, _, _, _, block => pure (.failureCouldNotFindValidProofOfWork, block)
  | remaining + 1, newProof, bestLeadingZeroes, _, block =>
    if shouldStop newProof then pure (.failureStoppedEarly, block)
    else if longerBlockchainDetected newProof then do
      showDigest printProgress
      pure (.failureLongerBlockchainDetected, block)
    else do
      let block := { block with proofOfWork := newProof }
      let hash := blockHash platform block
      let best ← showProgress printProgress (memoryOf hash.digest platform.pastHash) newProof bestLeadingZeroes
      if ← isValidBlockHashLogged platform blockchain hash then do
        showDigest printProgress
        pure (.success, block)
      else
        mineLoop platform blockchain printProgress shouldStop longerBlockchainDetected remaining
          (newProof + 1) best hash block

/-- `for (new_proof = 0; new_proof < UINT64_MAX; new_proof++)` -/
def blockchainMineBlock (platform : Platform PKey) (blockchain : Blockchain) (block : Block)
    (printProgress : Bool) (shouldStop : UInt64 → Bool) : Logged Access (ReturnCode × Block) :=
  mineLoop platform blockchain printProgress shouldStop (fun _ => false) 18446744073709551615 0 0
    Sha256.zero block

/-- The same on `sync->blockchain`; a round gives up when the version read differs from the
one that is mined. -/
def synchronizedBlockchainMineBlock (platform : Platform PKey) (blockchain : Blockchain) (block : Block)
    (printProgress : Bool) (shouldStop versionDiffers : UInt64 → Bool) : Logged Access (ReturnCode × Block) :=
  mineLoop platform blockchain printProgress shouldStop versionDiffers 18446744073709551615 0 0
    Sha256.zero block

/-! ## What is inspected -/

/-- The proof of work check leaves the digest when it finds nothing but zeros there. -/
theorem leadingBytesLogged_stays_iff {digest : Nat → UInt8} {idx remaining : Nat} (inside : idx ≤ 32) :
    (leadingBytesLogged digest idx remaining).Stays Access.InsideDigest ↔
      idx + remaining ≤ 32 ∨ ∃ index, idx ≤ index ∧ index < 32 ∧ digest index ≠ 0 := by
  induction remaining generalizing idx with
  | zero => simp [leadingBytesLogged, inside]
  | succ remaining ih =>
    simp only [leadingBytesLogged, Logged.stays_bind, Logged.stays_touch, Access.InsideDigest]
    by_cases zero : digest idx = 0
    · simp only [zero, bne_self_eq_false, Bool.false_eq_true, if_false]
      constructor
      · rintro ⟨bound, later⟩
        obtain short | ⟨index, lower, upper, nonzero⟩ := (ih (by omega)).mp later
        · exact .inl (by omega)
        · exact .inr ⟨index, by omega, upper, nonzero⟩
      · rintro (short | ⟨index, lower, upper, nonzero⟩)
        · exact ⟨by omega, (ih (by omega)).mpr (.inl (by omega))⟩
        · -- the byte at `idx` is zero, so the nonzero one comes later
          have later : idx ≠ index := fun same => nonzero (same ▸ zero)
          exact ⟨by omega, (ih (by omega)).mpr (.inr ⟨index, by omega, upper, nonzero⟩)⟩
    · have stops : (digest idx != 0) = true := by simp [zero]
      simp only [stops, if_true, Logged.stays_pure, and_true]
      constructor
      · intro bound
        exact .inr ⟨idx, Nat.le_refl _, bound, zero⟩
      · rintro (short | ⟨index, lower, upper, -⟩) <;> omega

theorem isValidBlockHashLogged_stays_iff {platform : Platform PKey} {blockchain : Blockchain} {hash : Sha256} :
    (isValidBlockHashLogged platform blockchain hash).Stays Access.InsideDigest ↔
      blockchain.numLeadingZeroBytesRequiredInBlockHash.toNat ≤ 32 ∨ hash ≠ Sha256.zero := by
  rw [isValidBlockHashLogged, leadingBytesLogged_stays_iff (Nat.zero_le _), Nat.zero_add]
  refine or_congr_right ?_
  constructor
  · rintro ⟨index, -, bound, nonzero⟩ rfl
    simp [memoryOf, bound, Sha256.zero] at nonzero
  · intro nonzero
    by_contra zeros
    push Not at zeros
    apply nonzero
    have digest : hash.digest = Sha256.zero.digest := by
      apply Vector.ext
      intro index bound
      simpa [memoryOf, bound, Sha256.zero] using zeros index (Nat.zero_le _) bound
    cases hash
    exact congrArg Sha256.mk digest

theorem wholeDigest : (Access.digestCompare 32).InsideDigest := Nat.le_refl 32

theorem verifyLogged_compares {platform : Platform PKey} {blockchain : Blockchain} {genesis block : Block}
    {rest : List Block} (items : blockchain.blockList = genesis :: block :: rest) (valid : ValidGenesis genesis) :
    Access.digestCompare blockchain.numLeadingZeroBytesRequiredInBlockHash ∈
      (verifyLogged platform blockchain).accesses := by
  rw [verifyLogged_genesis items valid]
  simp [verifyBlocksLogged, verifyBlockLogged]

/-- `blockchain_verify` compares beyond the hashes when it gets to the block after genesis. -/
theorem verifyLogged_stays_iff {platform : Platform PKey} {blockchain : Blockchain} :
    (verifyLogged platform blockchain).Stays Access.InsideDigest ↔
      blockchain.numLeadingZeroBytesRequiredInBlockHash.toNat ≤ 32 ∨
        ¬ ∃ genesis block rest, blockchain.blockList = genesis :: block :: rest ∧ ValidGenesis genesis := by
  constructor
  · intro stays
    by_contra reaches
    push Not at reaches
    obtain ⟨large, genesis, block, rest, items, valid⟩ := reaches
    exact absurd (stays _ (verifyLogged_compares items valid)) (Nat.not_le.mpr large)
  · rintro (small | stops)
    · exact verifyLogged_stays small wholeDigest fun _ _ _ _ => trivial
    · -- no block is compared with the zero hash
      rw [verifyLogged]
      split
      · exact Logged.stays_pure _
      next genesis rest items =>
        split
        · exact Logged.stays_pure _
        next wellFormed =>
          have whole : (genesisHashLogged genesis).Stays Access.InsideDigest :=
            Logged.stays_bind.mpr ⟨Logged.stays_touch.mpr wholeDigest, Logged.stays_pure _⟩
          refine Logged.stays_bind.mpr ⟨whole, ?_⟩
          split
          · exact Logged.stays_pure _
          next linked =>
            cases rest with
            | nil => exact Logged.stays_pure _
            | cons block rest =>
              have noPrevious : genesis.previousBlockHash = Sha256.zero :=
                hashesDiffer_eq_false.mp (Bool.eq_false_iff.mpr linked)
              simp only [Bool.not_eq_true, Bool.or_eq_false_iff, Bool.not_eq_false', List.isEmpty_iff,
                bne_eq_false_iff_eq] at wellFormed
              exact absurd ⟨genesis, block, rest, items, wellFormed.1, wellFormed.2, noPrevious⟩ stops

/-! ## The progress line stays within the digest -/

theorem countLeadingZeroes_stays {digest : Nat → UInt8} {idx remaining numZeroes : Nat}
    (inside : idx + remaining ≤ 32) :
    (countLeadingZeroes digest idx remaining numZeroes).Stays Access.InsideDigest := by
  induction remaining generalizing idx numZeroes with
  | zero => exact Logged.stays_pure _
  | succ remaining ih =>
    have touched : (Logged.touch (Access.digestByte idx)).Stays Access.InsideDigest :=
      Logged.stays_touch.mpr (by simp only [Access.InsideDigest]; omega)
    refine Logged.stays_bind.mpr ⟨touched, ?_⟩
    split
    · exact Logged.stays_pure _
    · refine Logged.stays_bind.mpr ⟨touched, ?_⟩
      split
      · exact Logged.stays_pure _
      · exact ih (by omega)

theorem printNybbles_stays {idx remaining : Nat} (inside : idx + remaining ≤ 64) :
    (printNybbles idx remaining).Stays Access.InsideDigest := by
  induction remaining generalizing idx with
  | zero => exact Logged.stays_pure _
  | succ remaining ih =>
    exact Logged.stays_bind.mpr ⟨Logged.stays_touch.mpr (by simp only [Access.InsideDigest]; omega),
      ih (by omega)⟩

theorem printDigest_stays {idx remaining : Nat} (inside : idx + remaining ≤ 32) :
    (printDigest idx remaining).Stays Access.InsideDigest := by
  induction remaining generalizing idx with
  | zero => exact Logged.stays_pure _
  | succ remaining ih =>
    exact Logged.stays_bind.mpr ⟨Logged.stays_touch.mpr (by simp only [Access.InsideDigest]; omega),
      ih (by omega)⟩

theorem countLeadingZeroes_le (digest : Nat → UInt8) (idx remaining numZeroes : Nat) :
    (countLeadingZeroes digest idx remaining numZeroes).value ≤ numZeroes + 2 * remaining := by
  induction remaining generalizing idx numZeroes with
  | zero => exact Nat.le_refl _
  | succ remaining ih =>
    rw [countLeadingZeroes, Logged.value_bind]
    split
    · exact Nat.le_add_right _ _
    · rw [Logged.value_bind]
      split
      · simp only [Logged.value_pure]
        omega
      · have later := ih (idx + 1) (numZeroes + 2)
        omega

theorem showDigest_stays (printProgress : Bool) : (showDigest printProgress).Stays Access.InsideDigest := by
  rw [showDigest]
  split
  · exact printDigest_stays (Nat.le_refl _)
  · exact Logged.stays_pure _

theorem showProgress_stays (printProgress : Bool) {digest : Nat → UInt8} {newProof : UInt64}
    {bestLeadingZeroes : Nat} (few : bestLeadingZeroes ≤ 64) :
    (showProgress printProgress digest newProof bestLeadingZeroes).Stays Access.InsideDigest ∧
      (showProgress printProgress digest newProof bestLeadingZeroes).value ≤ 64 := by
  cases printProgress with
  | false => exact ⟨Logged.stays_pure _, few⟩
  | true =>
    have counted := countLeadingZeroes_le digest 0 32 0
    have counts : (countLeadingZeroes digest 0 32 0).Stays Access.InsideDigest :=
      countLeadingZeroes_stays (Nat.le_refl _)
    rw [showProgress, if_pos rfl, Logged.stays_bind, Logged.value_bind]
    generalize (countLeadingZeroes digest 0 32 0).value = numZeroes at counted ⊢
    -- the best count so far stays a number of nybbles of one digest
    have best : (if numZeroes > bestLeadingZeroes then numZeroes else bestLeadingZeroes) ≤ 64 := by
      split <;> omega
    generalize (if numZeroes > bestLeadingZeroes then numZeroes else bestLeadingZeroes) = newBest at best ⊢
    split
    · exact ⟨⟨counts, Logged.stays_bind.mpr ⟨printNybbles_stays (by omega), Logged.stays_pure _⟩⟩, best⟩
    · exact ⟨⟨counts, Logged.stays_pure _⟩, best⟩

/-- The mining loop, as long as the difficulty fits the digest.  Induction on the proofs
that are left. -/
theorem mineLoop_stays {platform : Platform PKey} {blockchain : Blockchain} {printProgress : Bool}
    {shouldStop longerBlockchainDetected : UInt64 → Bool}
    (small : blockchain.numLeadingZeroBytesRequiredInBlockHash.toNat ≤ 32) (remaining : Nat)
    (newProof : UInt64) (bestLeadingZeroes : Nat) (hash : Sha256) (block : Block)
    (few : bestLeadingZeroes ≤ 64) :
    (mineLoop platform blockchain printProgress shouldStop longerBlockchainDetected remaining newProof
      bestLeadingZeroes hash block).Stays Access.InsideDigest := by
  induction remaining generalizing newProof bestLeadingZeroes hash block with
  | zero => exact Logged.stays_pure _
  | succ remaining ih =>
    rw [mineLoop]
    split
    · exact Logged.stays_pure _
    · split
      · exact Logged.stays_bind.mpr ⟨showDigest_stays _, Logged.stays_pure _⟩
      · obtain ⟨shown, best⟩ := showProgress_stays printProgress few
        refine Logged.stays_bind.mpr ⟨shown, Logged.stays_bind.mpr
          ⟨isValidBlockHashLogged_stays_iff.mpr (.inl small), ?_⟩⟩
        split
        · exact Logged.stays_bind.mpr ⟨showDigest_stays _, Logged.stays_pure _⟩
        · exact ih _ _ _ _ best

/-! ## Difficulties above 32 -/

/-- The four functions inspect the 32 bytes of a digest only, and no hash meets a
requirement that is longer than a hash. -/
structure StaysInDigests (platform : Platform PKey) (blockchain : Blockchain) : Prop where
  verify : (verifyLogged platform blockchain).Stays Access.InsideDigest
  check : ∀ hash, (isValidBlockHashLogged platform blockchain hash).Stays Access.InsideDigest
  mine : ∀ block printProgress shouldStop,
    (blockchainMineBlock platform blockchain block printProgress shouldStop).Stays Access.InsideDigest
  synchronizedMine : ∀ block printProgress shouldStop versionDiffers,
    (synchronizedBlockchainMineBlock platform blockchain block printProgress shouldStop
      versionDiffers).Stays Access.InsideDigest
  unsatisfiable : 32 < blockchain.numLeadingZeroBytesRequiredInBlockHash.toNat → ∀ hash,
    blockchainIsValidBlockHash platform blockchain hash = false ∧
      compareWithEmptyHash platform blockchain.numLeadingZeroBytesRequiredInBlockHash hash ≠ 0

/-- The digests are respected exactly when the chain asks for no more zero bytes than a
digest has. -/
theorem stays_in_digests_iff (platform : Platform PKey) (blockchain : Blockchain) :
    StaysInDigests platform blockchain ↔
      blockchain.numLeadingZeroBytesRequiredInBlockHash.toNat ≤ 32 := by
  constructor
  · intro stays
    exact (isValidBlockHashLogged_stays_iff.mp (stays.check Sha256.zero)).resolve_right (not_not.mpr rfl)
  · intro small
    refine ⟨verifyLogged_stays_iff.mpr (.inl small), fun hash => isValidBlockHashLogged_stays_iff.mpr (.inl small),
      ?_, ?_, fun large => absurd small (Nat.not_le.mpr large)⟩
    · intro block printProgress shouldStop
      rw [blockchainMineBlock]
      exact mineLoop_stays small _ _ _ _ _ (Nat.zero_le _)
    · intro block printProgress shouldStop versionDiffers
      rw [synchronizedBlockchainMineBlock]
      exact mineLoop_stays small _ _ _ _ _ (Nat.zero_le _)

/-- A genesis block and a mined block, with more zeros required than a hash can have. -/
def demandingChain : Blockchain := ⟨(sampleChain 1).blockList, 33, (sampleChain 1).fits⟩

/-- A peer sends the chain, it is decoded, and checking it compares 33 bytes. -/
theorem demanding_chain_reads_beyond :
    blockchainDeserialize .littleEndian
        (Input.ofBuffer (encodeBlockchain demandingChain) (fun _ => 0) grantAll) none =
      ⟨.success, some demandingChain, (encodeBlockchain demandingChain).length⟩ ∧
    Access.digestCompare 33 ∈ (verifyLogged Platform.lenient demandingChain).accesses ∧
    ¬ StaysInDigests Platform.lenient demandingChain := by
  have fits : demandingChain.SignaturesFit := sampleChain_signaturesFit 1
  have valid : ValidGenesis (blockCreateGenesisBlock 0) := ⟨rfl, rfl, rfl⟩
  have items : demandingChain.blockList = blockCreateGenesisBlock 0 :: sampleBlock :: [] := rfl
  refine ⟨?_, verifyLogged_compares items valid, ?_⟩
  · have decoded : blockchainDeserialize .littleEndian
        (Input.ofBuffer (encodeBlockchain demandingChain ++ []) (fun _ => 0) grantAll) none = _ :=
      deserialize_encode fits [] (fun _ => 0) none
    rwa [List.append_nil] at decoded
  · intro stays
    have outside := isValidBlockHashLogged_stays_iff.mp (stays.check Sha256.zero)
    exact absurd outside (by decide)

end LeoCoin
