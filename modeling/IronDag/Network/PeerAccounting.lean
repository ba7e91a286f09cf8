import IronDag.Network.Bans

namespace IronDag

open Table PeerScore PeerTable Finset

namespace PeerTable

def members (table : PeerTable) (subnet : BitVec 16) : Finset SocketAddr :=
  table.peers.filter fun addr => subnetPrefix16 addr = some subnet

structure Accounted (table : PeerTable) : Prop where
  count : table.peerCountAtomic = table.peers.card
  subnets : ∀ subnet, table.subnetPeerCounts.getD subnet 0 = (table.members subnet).card
  limit : ∀ subnet, (table.members subnet).card ≤ maxPeersPerSubnet16

/-- The books of a table in which one more place of a subnet is reserved. -/
structure Balanced (reserved : Option (BitVec 16)) (table : PeerTable) : Prop where
  count : table.peerCountAtomic = table.peers.card
  subnets : ∀ subnet, table.subnetPeerCounts.getD subnet 0 =
    (table.members subnet).card + if reserved = some subnet then 1 else 0
  limit : ∀ subnet, table.subnetPeerCounts.getD subnet 0 ≤ maxPeersPerSubnet16
  free : table.scoresHeld = false

theorem Balanced.accounted (balanced : Balanced none table) : Accounted table where
  count := balanced.count
  subnets subnet := by simpa using balanced.subnets subnet
  limit subnet := by
    have limit := balanced.limit subnet
    rw [balanced.subnets] at limit
    simpa using limit

theorem balanced_new : Balanced none new where
  count := rfl
  subnets subnet := by simp [new, members, getD]
  limit subnet := by simp [new, getD]
  free := rfl

section Books

variable {table : PeerTable}

theorem card_members_insert {peers : Finset SocketAddr} (fresh : addr ∉ peers) :
    ((insert addr peers).filter fun addr => subnetPrefix16 addr = some subnet).card =
      (peers.filter fun addr => subnetPrefix16 addr = some subnet).card +
        if subnetPrefix16 addr = some subnet then 1 else 0 := by
  rw [filter_insert]
  split
  · rw [card_insert_of_notMem]
    exact fun member => fresh (mem_of_mem_filter _ member)
  · rfl

theorem getD_reserveSubnet (done : table.reserveSubnet addr = some left) :
    left.subnetPeerCounts.getD subnet 0 =
      table.subnetPeerCounts.getD subnet 0 + (if subnetPrefix16 addr = some subnet then 1 else 0) ∧
      (subnetPrefix16 addr = some subnet →
        table.subnetPeerCounts.getD subnet 0 < maxPeersPerSubnet16) := by
  unfold reserveSubnet at done
  cases own : subnetPrefix16 addr with
  | none =>
    rw [own] at done
    cases done
    simp
  | some place =>
    rw [own] at done
    dsimp only at done
    split at done
    · cases done
    · next room =>
      cases done
      rw [getD_write]
      by_cases same : subnet = place
      · subst same
        exact ⟨by simp, fun _ => Nat.lt_of_not_le room⟩
      · have other : ¬some place = some subnet := fun equal => same (Option.some.inj equal).symm
        simp only [if_neg same, if_neg other, Nat.add_zero, true_and]
        exact fun equal => absurd equal other

theorem getD_releaseSubnet : (table.releaseSubnet addr).subnetPeerCounts.getD subnet 0 =
      table.subnetPeerCounts.getD subnet 0 -
        if subnetPrefix16 addr = some subnet then 1 else 0 := by
  unfold releaseSubnet
  cases own : subnetPrefix16 addr with
  | none => simp
  | some place =>
    dsimp only
    by_cases same : subnet = place
    · subst same
      rw [if_pos rfl]
      cases found : table.subnetPeerCounts.lookup subnet with
      | none => simp [getD, found]
      | some count =>
        rw [getD_of_lookup found]
        dsimp only
        split
        · next none => rw [getD, lookup_remove, if_pos rfl, Option.getD_none, none]
        · rw [getD_write, if_pos rfl]
    · have other : ¬some place = some subnet := fun equal => same (Option.some.inj equal).symm
      rw [if_neg other, Nat.sub_zero]
      split
      · rfl
      · split
        · rw [getD, lookup_remove, if_neg same, getD]
        · rw [getD_write, if_neg same]

theorem getD_leaveSubnet : (table.leaveSubnet addr).subnetPeerCounts.getD subnet 0 =
      table.subnetPeerCounts.getD subnet 0 -
        if subnetPrefix16 addr = some subnet then 1 else 0 := by
  rw [← getD_releaseSubnet]
  unfold leaveSubnet releaseSubnet
  split
  · rfl
  · split
    · rfl
    · dsimp only
      split
      · next none =>
        rw [getD_write, getD, getD, lookup_remove]
        split <;> simp [none]
      · rfl

theorem Balanced.reserveSubnet (balanced : Balanced none table)
    (done : table.reserveSubnet addr = some left) : Balanced (subnetPrefix16 addr) left := by
  have parts := reserveSubnet_eq done
  have members : ∀ subnet, left.members subnet = table.members subnet := by
    intro subnet
    rw [parts]
    rfl
  refine ⟨?_, fun subnet => ?_, fun subnet => ?_, ?_⟩
  · rw [parts]
    exact balanced.count
  · rw [(getD_reserveSubnet done).1, balanced.subnets, members]
    simp
  · obtain ⟨more, room⟩ := getD_reserveSubnet done
    have limit := balanced.limit subnet
    rw [more]
    split
    · next own => exact room own
    · exact limit
  · rw [parts]
    exact balanced.free

theorem Balanced.releaseSubnet (balanced : Balanced (subnetPrefix16 addr) table) :
    Balanced none (table.releaseSubnet addr) := by
  have members : ∀ subnet, (table.releaseSubnet addr).members subnet = table.members subnet := by
    intro subnet
    unfold members
    rw [peers_releaseSubnet]
  refine ⟨by simpa using balanced.count, fun subnet => ?_, fun subnet => ?_,
    by simpa using balanced.free⟩
  · rw [getD_releaseSubnet, balanced.subnets, members]
    simp
  · rw [getD_releaseSubnet]
    exact (Nat.sub_le _ _).trans (balanced.limit subnet)

theorem Balanced.forget (balanced : Balanced reserved table) (member : addr ∈ table.peers)
    (peers : after.peers = table.peers.erase addr)
    (count : after.peerCountAtomic = table.peerCountAtomic - 1)
    (subnets : ∀ subnet, after.subnetPeerCounts.getD subnet 0 =
      table.subnetPeerCounts.getD subnet 0 - if subnetPrefix16 addr = some subnet then 1 else 0)
    (free : after.scoresHeld = table.scoresHeld) : Balanced reserved after := by
  refine ⟨?_, fun subnet => ?_, fun subnet => ?_, free.trans balanced.free⟩
  · rw [count, balanced.count, peers, card_erase_of_mem member]
  · rw [subnets, balanced.subnets]
    unfold members
    have same := @card_members_insert _ subnet _ (notMem_erase addr table.peers)
    rw [insert_erase member] at same
    rw [peers]
    omega
  · rw [subnets]
    exact (Nat.sub_le _ _).trans (balanced.limit subnet)

theorem Balanced.evict (balanced : Balanced reserved table)
    (done : table.evictLowestPeer now order = some (evicted, left)) :
    Balanced reserved left ∧ left.peers = table.peers.erase evicted := by
  obtain ⟨member, rfl⟩ := evictLowestPeer_spec done
  have peers : (PeerTable.releaseSubnet evicted
      { table.forget evicted with
        peerScores := table.peerScores.erase evicted
        connectionTypes := table.connectionTypes.erase evicted }).peers =
          table.peers.erase evicted := by
    rw [peers_releaseSubnet]
    rfl
  refine ⟨balanced.forget member peers ?_ (fun subnet => ?_)
    (by rw [scoresHeld_releaseSubnet]; rfl), peers⟩
  · rw [peerCountAtomic_releaseSubnet]
    exact if_pos member
  · rw [getD_releaseSubnet]
    rfl

theorem Balanced.register (balanced : Balanced (subnetPrefix16 addr) table)
    (fresh : addr ∉ table.peers) : Balanced none (table.register now addr type) where
  count := by
    show table.peerCountAtomic + 1 = (insert addr table.peers).card
    rw [balanced.count, card_insert_of_notMem fresh]
  subnets subnet := by
    show table.subnetPeerCounts.getD subnet 0 = ((insert addr table.peers).filter _).card + _
    rw [balanced.subnets, card_members_insert fresh]
    simp [members]
  limit := balanced.limit
  free := balanced.free

theorem Balanced.withdraw (balanced : Balanced none table) (member : addr ∈ table.peers) :
    Balanced none (table.withdraw addr) := by
  unfold PeerTable.withdraw
  refine balanced.forget member ?_ ?_ (fun subnet => ?_) ?_
  · rw [peers_releaseSubnet]
    rfl
  · rw [peerCountAtomic_releaseSubnet]
    exact if_pos member
  · rw [getD_releaseSubnet]
    rfl
  · rw [scoresHeld_releaseSubnet]
    rfl

end Books

section Steps

variable (balanced : Balanced none table)

include balanced

theorem Balanced.acceptBelow : Balanced none (table.acceptBelow maxPeers now addr order).2 := by
  unfold PeerTable.acceptBelow
  split
  · exact balanced
  · split
    · exact balanced
    · next fresh =>
      split
      · exact balanced
      · next reserved found =>
        have held := balanced.reserveSubnet found
        have same : reserved.peers = table.peers := by rw [reserveSubnet_eq found]
        split
        · exact held.releaseSubnet
        · split
          · cases done : reserved.evictLowestPeer now order with
            | none => exact held.register (same ▸ fresh)
            | some entry =>
              obtain ⟨still, peers⟩ := held.evict done
              refine still.register ?_
              rw [peers, same]
              exact fun member => fresh (mem_of_mem_erase member)
          · exact held.register (same ▸ fresh)

theorem Balanced.accept : Balanced none (table.accept maxPeers orders now addr).2 := by
  unfold PeerTable.accept
  split
  · exact balanced
  · split
    · split
      · exact balanced
      · next evicted left done => exact (balanced.evict done).1.acceptBelow
    · exact balanced.acceptBelow

theorem Balanced.dial (fresh : addr ∉ table.peers)
    (endpoint : outcome = .noEndpoint → subnetPrefix16 addr = none) :
    Balanced none (table.dial now addr outcome).2 := by
  unfold PeerTable.dial
  split
  · exact balanced
  · next reserved found =>
    have held := balanced.reserveSubnet found
    have same : reserved.peers = table.peers := by rw [reserveSubnet_eq found]
    have open_ : ¬reserved.scoresHeld = true := by simp [held.free]
    have registered : Balanced none (reserved.register now addr .outbound) :=
      held.register (same ▸ fresh)
    have member : addr ∈ (reserved.register now addr .outbound).peers := mem_insert_self _ _
    cases outcome with
    | noEndpoint => exact endpoint rfl ▸ held
    | unreachable => exact held.releaseSubnet
    | noStream | noStreamType =>
      rw [if_neg open_]
      exact registered.withdraw member
    | noHandshake | connected =>
      rw [if_neg open_]
      exact registered

theorem Balanced.connectPeer (fresh : addr ∉ table.peers)
    (endpoint : outcome = .noEndpoint → subnetPrefix16 addr = none) :
    Balanced none (table.connectPeer maxPeers orders now addr outcome).2 := by
  unfold PeerTable.connectPeer
  split
  · exact balanced
  · split
    · split
      · exact balanced
      · split
        · exact balanced
        · next evicted left done =>
          obtain ⟨still, peers⟩ := balanced.evict done
          refine still.dial ?_ endpoint
          rw [peers]
          exact fun member => fresh (mem_of_mem_erase member)
    · exact balanced.dial fresh endpoint

theorem Balanced.cleanup
    (present : ∀ subnet, subnetPrefix16 addr = some subnet → addr ∉ table.peers →
      table.members subnet = ∅) : Balanced none (table.cleanupPeerStateOnError addr) := by
  unfold cleanupPeerStateOnError
  rw [if_neg (by simp [balanced.free])]
  dsimp only
  generalize entered : { table.forget addr with
    peerScores := (table.forget addr).peerScores.erase addr
    connectionTypes := (table.forget addr).connectionTypes.erase addr
    quicConnections := (table.forget addr).quicConnections.erase addr
    peerPublicKeys := (table.forget addr).peerPublicKeys.erase addr } = left
  have peers : (left.leaveSubnet addr).peers = table.peers.erase addr := by
    rw [leaveSubnet_eq, ← entered]
    rfl
  have count : (left.leaveSubnet addr).peerCountAtomic =
      if addr ∈ table.peers then table.peerCountAtomic - 1 else table.peerCountAtomic := by
    rw [leaveSubnet_eq, ← entered]
    rfl
  have subnets : ∀ subnet, (left.leaveSubnet addr).subnetPeerCounts.getD subnet 0 =
      table.subnetPeerCounts.getD subnet 0 -
        if subnetPrefix16 addr = some subnet then 1 else 0 := by
    intro subnet
    rw [getD_leaveSubnet, ← entered]
    rfl
  have free : (left.leaveSubnet addr).scoresHeld = table.scoresHeld := by
    rw [leaveSubnet_eq, ← entered]
    rfl
  by_cases member : addr ∈ table.peers
  · exact balanced.forget member peers (count.trans (if_pos member)) subnets free
  · rw [erase_eq_of_notMem member] at peers
    refine ⟨?_, fun subnet => ?_, fun subnet => ?_, free.trans balanced.free⟩
    · rw [count, if_neg member, peers, balanced.count]
    · have same : (left.leaveSubnet addr).members subnet = table.members subnet := by
        unfold members
        rw [peers]
      rw [subnets, balanced.subnets, same]
      by_cases own : subnetPrefix16 addr = some subnet
      · simp [present subnet own member]
      · rw [if_neg own, Nat.sub_zero]
    · rw [subnets]
      exact (Nat.sub_le _ _).trans (balanced.limit subnet)

omit balanced in
theorem Balanced.of_same (balanced : Balanced none table) (peers : after.peers = table.peers)
    (count : after.peerCountAtomic = table.peerCountAtomic)
    (subnets : after.subnetPeerCounts = table.subnetPeerCounts)
    (free : after.scoresHeld = table.scoresHeld) : Balanced none after := by
  refine ⟨?_, fun subnet => ?_, fun subnet => ?_, free.trans balanced.free⟩
  · rw [count, peers, balanced.count]
  · rw [subnets, balanced.subnets]
    unfold members
    rw [peers]
  · rw [subnets]
    exact balanced.limit subnet

omit balanced in
/-- A sender whose message was let through is not banned by a penalty below the limit. -/
theorem isPeerBanned_penalizePeer {peerScores : PeerScores}
    (allowed : (checkPeerRateLimit now peerScores addr).1 = true)
    (patient : ((peerScores.getD addr (default now)).countMessage now).offends reason = false) :
    isPeerBanned now
      (penalizePeer now (checkPeerRateLimit now peerScores addr).2 addr reason) addr = false := by
  generalize read : peerScores.getD addr (default now) = score at patient
  rcases checkPeerRateLimit_cases read with ⟨-, checked⟩ | ⟨free, checked⟩
  · rw [checked] at allowed
    cases allowed
  · rw [checked] at allowed ⊢
    have unpunished : (score.countMessage now).penaltyBan reason = none := by
      rw [penaltyBan, patient]
      rfl
    have counted := changes_countMessage now score free
    rw [Option.isNone_iff_eq_none.mp allowed] at counted
    have kept := ((counted.trans (changes_penalize now _ reason)).unbanned unpunished).2
    rw [isPeerBanned, penalizePeer, modifyD, getD_write, if_pos rfl, lookup_write, if_pos rfl]
    show isBanned _ now = false
    rw [isBanned, kept]
    exact free

/-- A message that is not the last straw. -/
theorem Balanced.handleFrame (patient : frame = .malformed ∨ frame = .unverified →
      Word.saturatingAdd (table.peerScores.getD addr (default now)).invalidMessages 1 <
        maxInvalidMessages) :
    Balanced none (table.handleFrame now addr frame).2 := by
  have unchanged : ((table.peerScores.getD addr (default now)).countMessage now).invalidMessages =
      (table.peerScores.getD addr (default now)).invalidMessages := by
    unfold countMessage renewWindow
    dsimp only
    split <;> split <;> rfl
  unfold PeerTable.handleFrame
  rw [if_neg (by simp [balanced.free])]
  dsimp only
  have counted :
      Balanced none { table with peerScores := (checkPeerRateLimit now table.peerScores addr).2 } :=
    balanced.of_same rfl rfl rfl rfl
  split
  · next allowed =>
    have punished : ∀ reason : PenaltyReason,
        ((table.peerScores.getD addr (default now)).countMessage now).offends reason = false →
        Balanced none (punish now addr
          { table with peerScores := (checkPeerRateLimit now table.peerScores addr).2 }
          reason) := by
      intro reason short
      unfold punish
      dsimp only
      rw [isPeerBanned_penalizePeer allowed short]
      exact counted.of_same rfl rfl rfl rfl
    have short : frame = .malformed ∨ frame = .unverified →
        decide (maxInvalidMessages ≤ Word.saturatingAdd
          ((table.peerScores.getD addr (default now)).countMessage now).invalidMessages 1) =
            false := by
      intro invalid
      rw [unchanged]
      exact decide_eq_false (BitVec.not_le.mpr (patient invalid))
    split
    · exact counted
    · exact punished _ (short (.inl rfl))
    · exact punished _ (short (.inr rfl))
    · exact counted.of_same rfl rfl rfl rfl
  · exact counted

end Steps

/-- The step keeps the books: no connection to a peer, or without an endpoint to an address with a
subnet, no end of a connection of an address that is not a peer while others of its subnet are, no
message of such an address, and no invalid message that has its sender disconnected. -/
def Orderly (step : PeerStep) (table : PeerTable) : Prop :=
  match step.event with
  | .connect addr outcome =>
    addr ∉ table.peers ∧ (outcome = .noEndpoint → subnetPrefix16 addr = none)
  | .receive addr frame =>
    (addr ∉ table.peers → table.identified addr = true → subnetPrefix16 addr = none) ∧
      (frame = .malformed ∨ frame = .unverified →
        Word.saturatingAdd (table.peerScores.getD addr (default step.now)).invalidMessages 1 <
          maxInvalidMessages)
  | .disconnect addr => ∀ subnet, subnetPrefix16 addr = some subnet → addr ∉ table.peers →
      table.members subnet = ∅
  | .accept _ | .penalize _ _ | .evict | .expireBans => True

theorem Balanced.apply (balanced : Balanced none table)
    (orderly : Orderly step table) : Balanced none (table.apply maxPeers step) := by
  obtain ⟨now, orders, event⟩ := step
  unfold PeerTable.apply perform
  cases event with
  | accept addr => exact balanced.accept
  | connect addr outcome => exact balanced.connectPeer orderly.1 orderly.2
  | receive addr frame =>
    obtain ⟨placed, patient⟩ := orderly
    dsimp only
    unfold receive
    split
    · exact balanced.handleFrame patient
    · next stranger =>
      split
      · next identified =>
        rw [if_neg (by simp [balanced.free])]
        have exempt := placed stranger identified
        have registered : Balanced none (table.autoRegister now addr) := by
          have reserved : Balanced (subnetPrefix16 addr) table := exempt ▸ balanced
          have entered : Balanced none (table.register now addr .inbound) :=
            reserved.register stranger
          exact entered.of_same rfl rfl rfl rfl
        refine registered.handleFrame fun invalid => ?_
        have same : (table.autoRegister now addr).peerScores.getD addr (default now) =
            table.peerScores.getD addr (default now) := by
          unfold autoRegister
          rw [getD_write, if_pos rfl]
        rw [same]
        exact patient invalid
      · exact balanced
  | penalize addr reason =>
    dsimp only
    unfold penalize
    split
    · exact balanced
    · exact balanced.of_same rfl rfl rfl rfl
  | evict =>
    dsimp only
    split
    · exact balanced
    · cases done : table.evictLowestPeer now (orders 0) with
      | none => exact balanced
      | some entry => exact (balanced.evict done).1
  | disconnect addr => exact balanced.cleanup orderly
  | expireBans =>
    dsimp only
    unfold expireBans
    split
    · exact balanced
    · exact balanced.of_same rfl rfl rfl rfl

/-- As long as all steps are orderly, the peers are accounted for. -/
theorem steps_accounted (maxPeers : Option ℕ) (steps : List PeerStep)
    (orderly : ∀ entry ∈ Run.visited (apply maxPeers) new steps, Orderly entry.2 entry.1) :
    ∀ table ∈ Run.states (apply maxPeers) new steps, Accounted table := by
  intro table reached
  have balanced := @Run.invariant_states _ _ (apply maxPeers) new steps (Balanced none)
    (fun table step => Orderly step table)
    (fun table step balanced orderly => balanced.apply orderly) balanced_new orderly table reached
  exact balanced.accounted

section Reconnected

def neighbour : SocketAddr where
  ip := .v4 0x0a000001
  port := 8080

def stranger : SocketAddr where
  ip := .v4 0x0a000002
  port := 8080

/-- Two peers of a subnet, one of which goes after an invalid message. -/
def visits : List PeerStep :=
  [stepAt 0 (.accept neighbour), stepAt 1 (.connect stranger .connected),
    stepAt 2 (.receive neighbour .malformed), stepAt 3 (.disconnect neighbour)]

theorem visits_accounted : (Run.run (apply none) new visits).peers = {stranger} ∧
      ∀ table ∈ Run.states (apply none) new visits, Accounted table := by
  refine ⟨by decide +kernel, steps_accounted none visits ?_⟩
  intro entry visited
  simp only [visits, Run.visited_cons, Run.visited_nil, List.mem_cons,
    List.not_mem_nil, or_false] at visited
  rcases visited with ⟨-, rfl⟩ | ⟨rfl, rfl⟩ | ⟨rfl, rfl⟩ | ⟨rfl, rfl⟩
  · trivial
  · exact ⟨by decide +kernel, nofun⟩
  · exact ⟨fun absent => absurd (by decide +kernel) absent, fun _ => by decide +kernel⟩
  · exact fun _ _ absent => absurd (by decide +kernel) absent

/-- An outgoing connection to a peer that is there counts it twice. -/
theorem reconnected_not_accounted : ¬∀ table ∈ Run.states (apply none) new
      [stepAt 0 (.connect neighbour .connected), stepAt 1 (.connect neighbour .connected)],
        Accounted table := by
  intro accounted
  have counted := (accounted _ Run.run_mem_states).count
  revert counted
  decide +kernel

end Reconnected

end PeerTable

end IronDag
