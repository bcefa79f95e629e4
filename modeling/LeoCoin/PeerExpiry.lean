import LeoCoin.Library.Rounding
import LeoCoin.Peers

/-! # Expired peers

The loop that unlinks entries from the list while it walks along it, and the comparison of
`double`s that it decides by.
-/

namespace LeoCoin

open Library.Rounding

/-! ## The comparison -/

/-- The nearest `double`. -/
def toDouble (x : ℚ) : ℚ := roundTo 53 x

/-- The difference of the two times is a `time_t`. -/
def Dated (currentTime : Int64) (peer : PeerInfo) : Prop :=
  -(2 ^ 63) ≤ currentTime.toInt - peer.lastConnected.toInt ∧
    currentTime.toInt - peer.lastConnected.toInt < 2 ^ 63

instance (currentTime : Int64) (peer : PeerInfo) : Decidable (Dated currentTime peer) :=
  inferInstanceAs (Decidable (_ ∧ _))

/-- `args->peer_keepalive_microseconds / 1e6` -/
def keepaliveSeconds (keepalive : UInt64) : ℚ := toDouble (toDouble keepalive.toNat / 1000000)

/-- `current_time - peer->last_connected > args->peer_keepalive_microseconds / 1e6` -/
def peerExpired (keepalive : UInt64) (currentTime : Int64) (peer : PeerInfo) : Bool :=
  toDouble (currentTime - peer.lastConnected).toInt > keepaliveSeconds keepalive

/-- The entry is older than the keepalive, in exact arithmetic. -/
def Older (keepalive : UInt64) (currentTime : Int64) (peer : PeerInfo) : Prop :=
  (keepalive.toNat : Int) < (currentTime.toInt - peer.lastConnected.toInt) * 1000000

/-- The division loses no second of the keepalive. -/
def KeepaliveExact (keepalive : UInt64) : Prop := ⌊keepaliveSeconds keepalive⌋ = (keepalive.toNat / 1000000 : Nat)

/-- A `double` below `2 ^ 50` is compared with a whole number as its floor is. -/
theorem lt_toDouble_iff {q : ℚ} {d : ℤ} (nonneg : 0 ≤ q) (small : q ≤ 2 ^ 50) : q < toDouble d ↔ ⌊q⌋ < d := by
  have floorNonneg : 0 ≤ ⌊q⌋ := Int.floor_nonneg.mpr nonneg
  by_cases positive : 0 < d
  · obtain ⟨n, rfl⟩ := Int.eq_ofNat_of_zero_le (le_of_lt positive)
    rw [Int.cast_natCast]
    by_cases few : n ≤ 2 ^ 53
    · rw [toDouble, roundTo_natCast (by decide) few, Int.floor_lt, Int.cast_natCast]
    · have many : 2 ^ 53 ≤ n := Nat.le_of_not_le few
      have rounded : ((2 ^ 53 : ℕ) : ℚ) ≤ toDouble n :=
        le_roundTo (by decide) (le_refl _) (by exact_mod_cast positive) (by exact_mod_cast many)
      have floorSmall : ⌊q⌋ ≤ 2 ^ 50 := by exact_mod_cast (Int.floor_le q).trans small
      push_cast at rounded
      exact iff_of_true (by linarith) (by omega)
  · have rounded : toDouble d ≤ 0 := roundTo_nonpos 53 (by exact_mod_cast not_lt.mp positive)
    exact iff_of_false (by linarith) (by omega)

theorem keepaliveSeconds_nonneg (keepalive : UInt64) : 0 ≤ keepaliveSeconds keepalive := by
  have whole : 0 ≤ toDouble keepalive.toNat := roundTo_nonneg 53 (Nat.cast_nonneg _)
  exact roundTo_nonneg 53 (by positivity)

theorem keepaliveSeconds_le (keepalive : UInt64) : keepaliveSeconds keepalive ≤ 2 ^ 50 := by
  have bound : (keepalive.toNat : ℚ) ≤ 2 ^ 64 := by exact_mod_cast Nat.le_of_lt keepalive.toNat_lt
  have whole : toDouble keepalive.toNat ≤ 2 ^ 65 := by
    cases Nat.eq_zero_or_pos keepalive.toNat with
    | inl zero =>
      rw [zero]
      exact (roundTo_nonpos 53 (by simp)).trans (by positivity)
    | inr positive =>
      have error := roundTo_error 53 (show (0 : ℚ) < keepalive.toNat by exact_mod_cast positive)
      rw [toDouble]
      linarith [(abs_le.mp error).2]
  have quotient : toDouble keepalive.toNat / 1000000 ≤ ((2 ^ 50 : ℕ) : ℚ) := by
    push_cast
    linarith
  rw [keepaliveSeconds]
  by_cases positive : 0 < toDouble keepalive.toNat / 1000000
  · have rounded : toDouble (toDouble keepalive.toNat / 1000000) ≤ ((2 ^ 50 : ℕ) : ℚ) :=
      roundTo_le (by decide) (by decide) positive quotient
    exact_mod_cast rounded
  · exact (roundTo_nonpos 53 (not_lt.mp positive)).trans (by positivity)

theorem peerExpired_iff_floor {keepalive : UInt64} {currentTime : Int64} {peer : PeerInfo}
    (dated : Dated currentTime peer) :
    peerExpired keepalive currentTime peer = true ↔
      ⌊keepaliveSeconds keepalive⌋ < currentTime.toInt - peer.lastConnected.toInt := by
  have difference : (currentTime - peer.lastConnected).toInt =
      currentTime.toInt - peer.lastConnected.toInt := by
    rw [Int64.toInt_sub]
    exact Int.bmod_eq_of_le (by have := dated.1; omega) (by have := dated.2; omega)
  rw [peerExpired, decide_eq_true_eq, gt_iff_lt,
    lt_toDouble_iff (keepaliveSeconds_nonneg keepalive) (keepaliveSeconds_le keepalive), difference]

theorem peerExpired_iff {keepalive : UInt64} {currentTime : Int64} {peer : PeerInfo}
    (precise : KeepaliveExact keepalive) (dated : Dated currentTime peer) :
    peerExpired keepalive currentTime peer = true ↔ Older keepalive currentTime peer := by
  rw [peerExpired_iff_floor dated, precise, Older]
  omega

theorem keepaliveExact_of_lt {keepalive : UInt64} (small : keepalive.toNat < 2 ^ 53) : KeepaliveExact keepalive := by
  rw [KeepaliveExact, keepaliveSeconds]
  have whole : toDouble keepalive.toNat = keepalive.toNat := roundTo_natCast (by decide) (Nat.le_of_lt small)
  rw [whole]
  generalize keepalive.toNat = micros at small
  have below : ((micros / 1000000 : ℕ) : ℚ) ≤ (micros : ℚ) / 1000000 := by
    rw [le_div_iff₀ (by positivity)]
    exact_mod_cast Nat.div_mul_le_self micros 1000000
  have above : (micros : ℚ) / 1000000 ≤ (micros / 1000000 : ℕ) + 999999 / 1000000 := by
    rw [div_le_iff₀ (by positivity)]
    have split : micros ≤ micros / 1000000 * 1000000 + 999999 := by omega
    have split : (micros : ℚ) ≤ (micros / 1000000 : ℕ) * 1000000 + 999999 := by exact_mod_cast split
    linarith
  have short : (micros : ℚ) / 1000000 < 2 ^ 53 / 1000000 := by
    have small : (micros : ℚ) < 2 ^ 53 := by exact_mod_cast small
    linarith
  have few : micros / 1000000 ≤ 2 ^ 53 := by omega
  rw [Int.floor_eq_iff, Int.cast_natCast]
  by_cases positive : 0 < (micros : ℚ) / 1000000
  · -- the quotient is rounded by less than the microsecond that is missing to the next second
    have error := (abs_le.mp (roundTo_error 53 positive)).2
    refine ⟨le_roundTo (by decide) few positive below, ?_⟩
    rw [toDouble]
    linarith
  · have none : (micros : ℚ) / 1000000 = 0 := le_antisymm (not_lt.mp positive) (by positivity)
    have kept : toDouble 0 = 0 := le_antisymm (roundTo_nonpos 53 (le_refl _)) (roundTo_nonneg 53 (le_refl _))
    rw [none] at below ⊢
    rw [kept]
    exact ⟨below, by positivity⟩

/-! ## The loop -/

section Loop

variable {α : Type}

/-- The loop over the nodes of a list: the nodes that are linked, and the positions of `prev`
and `node` among them. -/
structure Walk (α : Type) where
  nodes : List α
  prev : Option Nat
  node : Option Nat

/-- The pointer to the node at a position, `NULL` behind the last one. -/
def nodeAt (nodes : List α) (position : Nat) : Option Nat :=
  if position < nodes.length then some position else none

/-- `head = node->next` or `prev->next = node->next` -/
def unlink (nodes : List α) (prev : Option Nat) (node : Nat) : List α :=
  match prev with
  | none => nodes.drop (node + 1)
  | some prev => nodes.take (prev + 1) ++ nodes.drop (node + 1)

/-- The end of a round: from the head again, or on to the next node. -/
def Walk.advance (walk : Walk α) : Walk α :=
  match walk.node with
  | none => { walk with node := nodeAt walk.nodes 0 }
  | some node => { walk with prev := some node, node := nodeAt walk.nodes (node + 1) }

/-- One round of the loop at a node with this data. -/
def Walk.round (expired : α → Bool) (walk : Walk α) (node : Nat) (data : α) : Walk α :=
  if expired data then
    Walk.advance { walk with nodes := unlink walk.nodes walk.prev node, node := walk.prev }
  else
    walk.advance

/-- The loop.  `none` is a loop that is still running when the rounds are used up, or one that
has left the list. -/
def unlinkExpired (expired : α → Bool) : Nat → Walk α → Option (List α)
  | 0, _ => none
  | rounds + 1, walk =>
    match walk.node with
    | none => some walk.nodes
    | some node =>
      match walk.nodes[node]? with
      | none => none
      | some data => unlinkExpired expired rounds (walk.round expired node data)

/-- Where the loop stands when `kept` are the nodes it has passed and `rest` the ones to come. -/
def Walk.between (kept rest : List α) : Walk α where
  nodes := kept ++ rest
  prev := if kept = [] then none else some (kept.length - 1)
  node := nodeAt (kept ++ rest) kept.length

theorem Walk.between_node {kept rest : List α} {data : α} :
    (Walk.between kept (data :: rest)).node = some kept.length := by
  simp [between, nodeAt]

theorem Walk.round_kept {expired : α → Bool} {kept rest : List α} {data : α} (stays : expired data = false) :
    (Walk.between kept (data :: rest)).round expired kept.length data = Walk.between (kept ++ [data]) rest := by
  have passed : ¬ expired data = true := by simp [stays]
  rw [round, if_neg passed, advance, between_node]
  simp [between]

theorem Walk.round_unlinked {expired : α → Bool} {kept rest : List α} {data : α} (leaves : expired data = true) :
    (Walk.between kept (data :: rest)).round expired kept.length data = Walk.between kept rest := by
  rw [round, if_pos leaves, advance]
  -- the loop goes on from the node before, or from the head where there is none
  cases kept with
  | nil => simp [between, unlink]
  | cons first others => simp [between, unlink]

/-- The loop comes to its end and has unlinked the expired nodes and no others.  Induction on
the nodes to come. -/
theorem unlinkExpired_between (expired : α → Bool) (kept rest : List α) {rounds : Nat}
    (enough : rest.length < rounds) :
    unlinkExpired expired rounds (.between kept rest) = some (kept ++ rest.filter fun data => !expired data) := by
  induction rest generalizing kept rounds with
  | nil =>
    obtain ⟨rounds, rfl⟩ := Nat.exists_eq_succ_of_ne_zero (Nat.ne_of_gt enough)
    simp [unlinkExpired, Walk.between, nodeAt]
  | cons data rest ih =>
    obtain ⟨rounds, rfl⟩ := Nat.exists_eq_succ_of_ne_zero (Nat.ne_of_gt (Nat.zero_lt_of_lt enough))
    have enough : rest.length < rounds := by simpa using enough
    have found : (Walk.between kept (data :: rest)).nodes[kept.length]? = some data := by simp [Walk.between]
    rw [unlinkExpired, Walk.between_node]
    simp only [found]
    cases expires : expired data with
    | true =>
      rw [Walk.round_unlinked expires, ih kept enough]
      simp [expires]
    | false =>
      rw [Walk.round_kept expires, ih (kept ++ [data]) enough]
      simp [expires]

theorem unlinkExpired_eq (expired : α → Bool) (nodes : List α) :
    unlinkExpired expired (nodes.length + 1) ⟨nodes, none, nodeAt nodes 0⟩ =
      some (nodes.filter fun data => !expired data) :=
  unlinkExpired_between expired [] nodes (Nat.lt_succ_self nodes.length)

end Loop

theorem peersMemory_of_length_le {peers others : List PeerInfo} (shorter : peers.length ≤ others.length)
    (fits : peersMemory others < 2 ^ 64) : peersMemory peers < 2 ^ 64 := by
  rw [peersMemory] at fits ⊢
  omega

/-- The loop over the server's list. -/
def unlinkExpiredPeers (expired : PeerInfo → Bool) (list : PeerInfoList) : Option PeerInfoList :=
  match unlinked : unlinkExpired expired (list.peers.length + 1) ⟨list.peers, none, nodeAt list.peers 0⟩ with
  | none => none
  | some peers =>
    some
      { peers
        fits := by
          obtain rfl := Option.some.inj ((unlinkExpired_eq expired list.peers).symm.trans unlinked)
          exact peersMemory_of_length_le (List.length_filter_le _ _) list.fits }

theorem unlinkExpiredPeers_eq (expired : PeerInfo → Bool) (list : PeerInfoList) :
    ∃ active, unlinkExpiredPeers expired list = some active ∧
      active.peers = list.peers.filter fun peer => !expired peer := by
  have all := unlinkExpired_eq expired list.peers
  rw [unlinkExpiredPeers]
  split
  next stuck =>
    rw [all] at stuck
    cases stuck
  next peers unlinked =>
    rw [all] at unlinked
    exact ⟨_, rfl, (Option.some.inj unlinked).symm⟩

end LeoCoin
