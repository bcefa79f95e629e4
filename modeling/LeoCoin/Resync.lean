import LeoCoin.Switch

/-! # The miner and the switches

`mine_blocks` compares two version numbers to learn that its chain has been replaced, and
reads the pointer and the version at different moments.  Both results here come from the
publication protocol: the miner holds the published chain when it believes so, and it
destroys only chains that have been replaced, as long as no switch lands in a certain
window.  Both windows are real: a switch in either breaks the property.
-/

namespace LeoCoin

open Library.Publication Library.Transition

variable {PKey : Type}

/-- The run of a node, seen as a run of the publication protocol. -/
theorem run_seen {setup : Setup PKey} {nodeGuard : Node → Action → Prop}
    {cellGuard : Cell Nat UInt64 → Event Nat → Prop} {first last : Node} {actions : List Action}
    (wellFormed : WellFormed first)
    (guards : ∀ node action event, nodeGuard node action → action.event = some event →
      cellGuard node.cell event)
    (run : Run (Guarded (NodeStep setup) nodeGuard) first actions last) :
    Run (Guarded (Step incrementVersion) cellGuard) first.cell (actions.filterMap Action.event)
      last.cell := by
  apply run.simulate WellFormed wellFormed
  · intro before action after invariant taken
    exact taken.2.wellFormed invariant
  · intro before action after invariant taken
    have seen := taken.2.seen invariant
    cases shown : action.event with
    | none =>
      rw [shown] at seen
      exact seen
    | some event =>
      rw [shown] at seen
      exact ⟨guards before action event taken.1 shown, seen⟩

/-! ## Believing to be current -/

/-- Between reading the pointer again and loading the version. -/
def MinerPc.resyncing : MinerPc → Bool
  | .resyncUnlock _ => true
  | .resyncDestroy _ => true
  | .resyncLoad => true
  | _ => false

/-- No switch lands while the miner is resynchronizing. -/
def SwitchesOutsideResync (node : Node) (action : Action) : Prop :=
  match action with
  | .increment => node.miner.pc.resyncing = false
  | _ => True

/-- How often the version has been incremented. -/
def switches (actions : List Action) : Nat :=
  actions.countP fun action => match action with | .increment => true | _ => false

theorem announcements_filterMap (actions : List Action) :
    announcements (actions.filterMap Action.event) = switches actions := by
  induction actions with
  | nil => rfl
  | cons action rest ih =>
    cases action <;> simpa [announcements, switches, Action.event, List.filterMap_cons] using ih

/-- A 64-bit counter comes round after `2 ^ 64` increments. -/
theorem incrementVersion_period : Period incrementVersion (2 ^ 64) := by
  intro version distance positive small
  have iterated : incrementVersion^[distance] version = version + UInt64.ofNat distance := by
    clear positive small
    induction distance with
    | zero => simp
    | succ distance ih =>
      rw [Function.iterate_succ_apply', ih, incrementVersion, UInt64.add_assoc, UInt64.ofNat_add]
      rfl
  rw [iterated]
  intro same
  have none : (UInt64.ofNat distance).toNat = 0 := by
    have cancelled : UInt64.ofNat distance = 0 := by simpa using same
    rw [cancelled]
    rfl
  rw [UInt64.toNat_ofNat', Nat.mod_eq_of_lt small] at none
  omega

theorem phase_of_pastResync {pc : MinerPc} (past : pc.pastResync = true) : pc.phase = .settled := by
  cases pc with
  | verify | createBlock | mineLock block | mineRead block | mineUnlock block blockchain
  | searchStop block blockchain newProof | searchVersion block blockchain newProof
  | searchHash block blockchain newProof | append nextBlock => rfl
  | _ => cases past

theorem phase_of_not_resyncing {pc : MinerPc} (outside : pc.resyncing = false) :
    (∀ old, pc.phase ≠ .taken old) ∧ pc.phase ≠ .spent := by
  cases pc with
  | resyncUnlock old | resyncDestroy old | resyncLoad => cases outside
  | _ => exact ⟨fun _ => by simp [MinerPc.phase], by simp [MinerPc.phase]⟩

theorem Action.eq_increment_of_announce {action : Action} (announces : action.event = some .announce) :
    action = .increment := by
  cases action with
  | increment => rfl
  | _ => simp [Action.event] at announces

/-- Where no switch lands between the miner's reading the pointer and its loading the
version, and the version does not come round, a miner that believes its chain is the
current one is right. -/
theorem miner_follows_sync (setup : Setup PKey) (first last : Node) (actions : List Action)
    (initially : Synchronized first)
    (run : Run (Guarded (NodeStep setup) SwitchesOutsideResync) first actions last)
    (few : switches actions < 2 ^ 64) (past : last.miner.pc.pastResync = true)
    (free : last.holder = none) (same : last.syncVersionCurrentlyMined = last.version) :
    last.miner.blockchain = some last.blockchain := by
  obtain ⟨returnCode, atLoopHead⟩ := initially.atLoopHead
  have settled : first.cell.phase = .settled := by
    rw [Node.cell, atLoopHead]
    rfl
  have tracks : Tracks incrementVersion 0 first.cell := by
    simp only [Tracks, settled]
    exact ⟨0, Nat.le_refl 0, initially.sameVersion.symm, fun _ _ => initially.sameChain⟩
  have guards (node : Node) (action : Action) (event : Event Nat) (outside : SwitchesOutsideResync node action)
      (shown : action.event = some event) : TakesUndisturbed node.cell event := by
    intro announces
    subst announces
    obtain rfl := Action.eq_increment_of_announce shown
    exact phase_of_not_resyncing outside
  -- the claim is about the run as the publication protocol sees it
  have seen := run_seen initially.wellFormed guards run
  rw [← announcements_filterMap] at few
  have agreed := agreed_of_run incrementVersion_period tracks seen few (phase_of_pastResync past)
  exact agreed (by rw [Node.cell, Node.announcing, free]) same

/-! ### Sample runs -/

/-- The first switch, and the miner up to the pointer it takes over. -/
def sampleResyncing : Node :=
  { (sampleMining.switchTo (sampleChain 1)).setMinerPc (.resyncDestroy 0) with
    miner := ⟨.resyncDestroy 0, some 1⟩ }

/-- A switch before the miner looks at the version, and the miner up to its destroying its
old chain.  The switch is outside the window. -/
theorem sampleResyncing_run :
    Run (Guarded (NodeStep sampleSetup) SwitchesOutsideResync) sampleMining
      (switchActions 1 ++ [.other, .notice, .other, .readAgain, .other]) sampleResyncing := by
  have allowed (other : Node) (action : Action) (same : other.miner = sampleMining.miner) :
      SwitchesOutsideResync other action := by
    cases action with
    | increment =>
      rw [SwitchesOutsideResync, same]
      rfl
    | _ => exact trivial
  have switched := sample_switch 1 allowed rfl rfl rfl Nat.zero_lt_one rfl (Nat.lt_succ_self _)
  have resyncs : Run (Guarded (NodeStep sampleSetup) SwitchesOutsideResync)
      (sampleMining.switchTo (sampleChain 1)) [.other, .notice, .other, .readAgain, .other] sampleResyncing :=
    .cons ⟨trivial, .miner (.enter rfl)⟩ (.cons ⟨trivial, .miner (.notice rfl sample_version_bumped)⟩
      (.cons ⟨trivial, .miner (.lock rfl rfl)⟩ (.cons ⟨trivial, .miner (.readAgain rfl rfl)⟩
        (.single ⟨trivial, .miner (.unlock rfl)⟩))))
  exact switched.trans resyncs

theorem miner_follows_sync_sample :
    ∃ actions last, Run (Guarded (NodeStep sampleSetup) SwitchesOutsideResync) sampleMining actions last ∧
      last.blockchain = 1 ∧ last.miner.blockchain = some last.blockchain := by
  have resynced : Run (Guarded (NodeStep sampleSetup) SwitchesOutsideResync) sampleResyncing
      [.destroyOld, .loadVersion, .recordVersion, .other] _ :=
    .cons ⟨trivial, .miner (.destroyOld rfl)⟩ (.cons ⟨trivial, .miner (.loadVersion rfl)⟩
      (.cons ⟨trivial, .miner (.recordVersion rfl)⟩ (.single ⟨trivial, .miner (.signal rfl)⟩)))
  have run := sampleResyncing_run.trans resynced
  exact ⟨_, _, run, rfl, miner_follows_sync sampleSetup _ _ _ sampleMining_synchronized run (by decide)
    rfl rfl rfl⟩

/-- A second switch after the miner has taken the first one's chain, and before it loads the
version: it goes on with a superseded chain and believes it is current. -/
theorem miner_misses_switch :
    ¬ ∀ first last actions, Synchronized first → Run (NodeStep sampleSetup) first actions last →
      last.miner.pc.pastResync = true → last.holder = none →
      last.syncVersionCurrentlyMined = last.version → last.miner.blockchain = some last.blockchain := by
  intro follows
  have second : Run (Guarded (NodeStep sampleSetup) fun _ _ => True) sampleResyncing _ _ :=
    sample_switch 2 (fun _ _ _ => trivial) rfl rfl rfl (Nat.lt_succ_self 1) rfl (Nat.lt_succ_self _)
  have resynced : Run (NodeStep sampleSetup) (sampleResyncing.switchTo (sampleChain 2))
      [.destroyOld, .loadVersion, .recordVersion, .other] _ :=
    .cons (.miner (.destroyOld rfl)) (.cons (.miner (.loadVersion rfl))
      (.cons (.miner (.recordVersion rfl)) (.single (.miner (.signal rfl)))))
  have run := (sampleResyncing_run.unguarded.trans second.unguarded).trans resynced
  have claimed := follows _ _ _ sampleMining_synchronized run rfl rfl rfl
  cases claimed

/-! ## Destroying only what has been replaced -/

/-- Where no switch lands between `main`'s recording the version and the first read of the
pointer, the published chain is never destroyed, no chain is destroyed twice, and what the
miner is about to destroy has been replaced. -/
theorem destroys_only_replaced (setup : Setup PKey) (first last : Node) (actions : List Action)
    (initially : Booting first)
    (run : Run (Guarded (NodeStep setup) SwitchesAfterFirstRead) first actions last) :
    last.blockchain ∉ last.destroyed ∧ last.destroyed.Nodup ∧
      ∀ oldBlockchain, last.miner.pc = .resyncDestroy oldBlockchain → oldBlockchain ≠ last.blockchain := by
  have guards (node : Node) (action : Action) (event : Event Nat) (later : SwitchesAfterFirstRead node action)
      (shown : action.event = some event) : AdoptsUndisturbed node.cell event := later.undisturbed shown
  have lasting := live_of_run initially.live (run_seen initially.wellFormed guards run)
  refine ⟨lasting.publishedKept, lasting.retiredOnce, fun oldBlockchain atDestroy => ?_⟩
  have taken : last.cell.phase = .taken oldBlockchain := by
    rw [Node.cell, atDestroy]
    rfl
  exact (lasting.coherent.retires_replaced taken).1

/-- `main` before it records the version. -/
def sampleBooting : Node := sampleNode ⟨.starting, none⟩

theorem sampleBooting_booting : Booting sampleBooting where
  toQuiet := sampleNode_quiet rfl (.inl rfl) (fun _ => by simp [MinerPc.phase])
  starting := rfl
  nothing := rfl
  noneDestroyed := rfl

/-- `main` has recorded version 0 and started the server, and `mine_blocks` begins. -/
def sampleLaunched : Node := sampleNode ⟨.entryLock, none⟩

theorem sampleLaunched_run {guard : Node → Action → Prop} (allowed : ∀ node action, action ≠ .increment →
    action ≠ .append → guard node action) :
    Run (Guarded (NodeStep sampleSetup) guard) sampleBooting [.storeVersion, .other] sampleLaunched :=
  .cons ⟨allowed _ _ (by simp) (by simp), .miner (.storeVersion rfl)⟩
    (.single ⟨allowed _ _ (by simp) (by simp), .miner (.launch rfl)⟩)

theorem sampleEntered_run {guard : Node → Action → Prop} (allowed : ∀ node action, action ≠ .increment →
    action ≠ .append → guard node action) :
    Run (Guarded (NodeStep sampleSetup) guard) sampleBooting
      ([.storeVersion, .other] ++ [.other, .readFirst, .other]) sampleMining := by
  have entered : Run (Guarded (NodeStep sampleSetup) guard) sampleLaunched [.other, .readFirst, .other] sampleMining :=
    .cons ⟨allowed _ _ (by simp) (by simp), .miner (.lock rfl rfl)⟩
      (.cons ⟨allowed _ _ (by simp) (by simp), .miner (.readFirst rfl)⟩
        (.single ⟨allowed _ _ (by simp) (by simp), .miner (.unlock rfl)⟩))
  exact (sampleLaunched_run allowed).trans entered

/-- The first switch comes after the first read of the pointer. -/
theorem destroys_only_replaced_sample :
    ∃ actions last, Run (Guarded (NodeStep sampleSetup) SwitchesAfterFirstRead) sampleBooting actions last ∧
      last.destroyed = [0] ∧ last.blockchain ∉ last.destroyed := by
  have allowed (node : Node) (action : Action) (other : action ≠ .increment) (_ : action ≠ .append) :
      SwitchesAfterFirstRead node action := by
    cases action with
    | increment => exact absurd rfl other
    | _ => exact trivial
  have allowedThere (other : Node) (action : Action) (same : other.miner = sampleMining.miner) :
      SwitchesAfterFirstRead other action := by
    cases action with
    | increment =>
      rw [SwitchesAfterFirstRead, same]
      rfl
    | _ => exact trivial
  have switched := sample_switch 1 allowedThere rfl rfl rfl Nat.zero_lt_one rfl (Nat.lt_succ_self _)
  have resynced : Run (Guarded (NodeStep sampleSetup) SwitchesAfterFirstRead)
      (sampleMining.switchTo (sampleChain 1))
      [.other, .notice, .other, .readAgain, .other, .destroyOld] _ :=
    .cons ⟨trivial, .miner (.enter rfl)⟩ (.cons ⟨trivial, .miner (.notice rfl sample_version_bumped)⟩
      (.cons ⟨trivial, .miner (.lock rfl rfl)⟩ (.cons ⟨trivial, .miner (.readAgain rfl rfl)⟩
        (.cons ⟨trivial, .miner (.unlock rfl)⟩ (.single ⟨trivial, .miner (.destroyOld rfl)⟩)))))
  have run := ((sampleEntered_run allowed).trans switched).trans resynced
  exact ⟨_, _, run, rfl, (destroys_only_replaced sampleSetup _ _ _ sampleBooting_booting run).1⟩

/-- A switch between `main`'s recording the version and the miner's first read: the miner
reads the new chain, takes it for the old one, and destroys it. -/
theorem miner_destroys_live_chain :
    ¬ ∀ first last actions, Booting first → Run (NodeStep sampleSetup) first actions last →
      last.blockchain ∉ last.destroyed := by
  intro kept
  have launched : Run (Guarded (NodeStep sampleSetup) fun _ _ => True) sampleBooting _ sampleLaunched :=
    sampleLaunched_run fun _ _ _ _ => trivial
  have switched : Run (Guarded (NodeStep sampleSetup) fun _ _ => True) sampleLaunched _ _ :=
    sample_switch 1 (fun _ _ _ => trivial) rfl rfl rfl Nat.zero_lt_one rfl (Nat.lt_succ_self _)
  have resynced : Run (NodeStep sampleSetup) (sampleLaunched.switchTo (sampleChain 1))
      [.other, .readFirst, .other, .other, .notice, .other, .readAgain, .other, .destroyOld] _ :=
    .cons (.miner (.lock rfl rfl)) (.cons (.miner (.readFirst rfl)) (.cons (.miner (.unlock rfl))
      (.cons (.miner (.enter rfl)) (.cons (.miner (.notice rfl sample_version_bumped))
        (.cons (.miner (.lock rfl rfl)) (.cons (.miner (.readAgain rfl rfl))
          (.cons (.miner (.unlock rfl)) (.single (.miner (.destroyOld rfl))))))))))
  have run := (launched.unguarded.trans switched.unguarded).trans resynced
  have claimed := kept _ _ _ sampleBooting_booting run
  exact claimed (List.mem_cons_self ..)

end LeoCoin
