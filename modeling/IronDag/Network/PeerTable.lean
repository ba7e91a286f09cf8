import IronDag.Lib.Collections
import IronDag.Lib.TableValues
import IronDag.Network.PeerScore

namespace IronDag

inductive ConnectionType where
  | inbound
  | outbound
  deriving DecidableEq, Repr

def maxTotalPeers : ℕ := 500

/-- `(max_peers as f64 * 0.7) as usize`. The double next to 0.7 is 6305039478318694 / 2 ^ 53, and
the product is rounded to 53 bits before it is cut off. -/
def outboundSlots (maxPeers : ℕ) : ℕ :=
  let product := maxPeers * 6305039478318694
  let unit := 2 ^ (Nat.log2 product - 52)
  let low := product / unit
  let rest := product % unit
  let rounded := if unit < 2 * rest ∨ (unit = 2 * rest ∧ low % 2 = 1) then low + 1 else low
  rounded * unit / 2 ^ 53

example : outboundSlots 50 = 35 ∧ outboundSlots 90 = 62 := by decide

def inboundSlots (maxPeers : ℕ) : ℕ :=
  maxPeers - outboundSlots maxPeers

def SocketAddr.isLocalhost (addr : SocketAddr) : Bool :=
  match addr.ip with
  | .v4 octets => octets.extractLsb' 24 8 = 127
  | .v6 _ => false

structure PeerTable where
  peers : Finset SocketAddr
  peerScores : PeerScores
  peerCountAtomic : ℕ
  connectionTypes : Table SocketAddr ConnectionType
  subnetPeerCounts : Table (BitVec 16) ℕ
  quicConnections : Finset SocketAddr
  peerPublicKeys : Table SocketAddr Bytes
  /-- A task waits for the lock on the scores that it holds itself. -/
  scoresHeld : Bool

/-- How far an outgoing connection gets. -/
inductive ConnectOutcome where
  | noEndpoint
  | unreachable
  | noStream
  | noStreamType
  | noHandshake
  | connected
  deriving DecidableEq, Repr

/-- What a frame turns out to be. A verified message is processed, with success or without. -/
inductive Frame where
  | unreadable
  | malformed
  | unverified
  | verified (publicKey : Bytes) (processed : Bool)
  deriving DecidableEq, Repr

namespace PeerTable

def new : PeerTable where
  peers := ∅
  peerScores := ∅
  peerCountAtomic := 0
  connectionTypes := ∅
  subnetPeerCounts := ∅
  quicConnections := ∅
  peerPublicKeys := ∅
  scoresHeld := false

variable (maxPeers : Option ℕ) (orders : ℕ → SetIteration SocketAddr) (now : Instant)
  (addr : SocketAddr) (table : PeerTable)

def connectionCount (type : ConnectionType) : ℕ :=
  table.connectionTypes.values.countP (· = type)

/-- One more peer in the subnet, unless it is full. -/
def reserveSubnet : Option PeerTable :=
  match subnetPrefix16 addr with
  | none => some table
  | some subnet =>
    let currentCount := table.subnetPeerCounts.getD subnet 0
    if maxPeersPerSubnet16 ≤ currentCount then none
    else some { table with subnetPeerCounts :=
      table.subnetPeerCounts.insert subnet (currentCount + 1) }

/-- One peer less in the subnet, and no entry for none. -/
def releaseSubnet : PeerTable :=
  match subnetPrefix16 addr with
  | none => table
  | some subnet =>
    match table.subnetPeerCounts.lookup subnet with
    | none => table
    | some count =>
      { table with
        subnetPeerCounts :=
          if count - 1 = 0 then table.subnetPeerCounts.erase subnet
          else table.subnetPeerCounts.insert subnet (count - 1) }

/-- One peer less in the subnet. An entry for none stays. -/
def leaveSubnet : PeerTable :=
  match subnetPrefix16 addr with
  | none => table
  | some subnet =>
    match table.subnetPeerCounts.lookup subnet with
    | none => table
    | some count =>
      { table with subnetPeerCounts := table.subnetPeerCounts.insert subnet (count - 1) }

/-- The worse of the peer found so far and another: a lower score, or the same score and longer
silence. -/
def worse (worst : Option (SocketAddr × ℤ × Instant)) (addr : SocketAddr) :
    Option (SocketAddr × ℤ × Instant) :=
  let score := ((table.peerScores.lookup addr).map PeerScore.evictionScore).getD 0
  let lastSeen := ((table.peerScores.lookup addr).map PeerScore.lastSeen).getD now
  match worst with
  | none => some (addr, score, lastSeen)
  | some (_, lowest, longest) =>
    if score < lowest ∨ (score = lowest ∧ lastSeen < longest) then some (addr, score, lastSeen)
    else worst

def lowestPeer (order : SetIteration SocketAddr) : Option SocketAddr :=
  ((order.toList table.peers).foldl (table.worse now) none).map Prod.fst

theorem mem_of_worse {addrs : List SocketAddr}
    (picked : addrs.foldl (table.worse now) worst = some found) :
    worst = some found ∨ found.1 ∈ addrs := by
  induction addrs generalizing worst with
  | nil => exact .inl picked
  | cons addr rest ih =>
    rcases ih picked with here | later
    · unfold worse at here
      split at here
      · cases here
        exact .inr List.mem_cons_self
      · dsimp only at here
        split at here
        · cases here
          exact .inr List.mem_cons_self
        · exact .inl here
    · exact .inr (List.mem_cons_of_mem _ later)

theorem lowestPeer_mem (found : table.lowestPeer now order = some lowest) :
    lowest ∈ table.peers := by
  obtain ⟨entry, picked, rfl⟩ := Option.map_eq_some_iff.mp found
  exact (order.mem_toList _ _).mp ((table.mem_of_worse now picked).resolve_left (by simp))

/-- The set of peers and the number of peers, without one. -/
def forget : PeerTable :=
  { table with
    peers := table.peers.erase addr
    peerCountAtomic :=
      if addr ∈ table.peers then table.peerCountAtomic - 1 else table.peerCountAtomic }

def evictLowestPeer (order : SetIteration SocketAddr) : Option (SocketAddr × PeerTable) :=
  (table.lowestPeer now order).map fun evicted =>
    let left := table.forget evicted
    (evicted, releaseSubnet evicted
      { left with
        peerScores := left.peerScores.erase evicted
        connectionTypes := left.connectionTypes.erase evicted })

/-- A new peer, with a new record. -/
def register (type : ConnectionType) : PeerTable :=
  { table with
    peers := insert addr table.peers
    peerScores := table.peerScores.insert addr (PeerScore.default now)
    peerCountAtomic := table.peerCountAtomic + 1
    connectionTypes := table.connectionTypes.insert addr type
    quicConnections := insert addr table.quicConnections }

/-- All places for incoming connections are taken. -/
def inboundFull : Bool :=
  maxPeers.any fun limit =>
    !addr.isLocalhost && decide (inboundSlots limit ≤ table.connectionCount .inbound)

def outboundFull : Bool :=
  maxPeers.any fun limit =>
    !addr.isLocalhost && decide (outboundSlots limit ≤ table.connectionCount .outbound)

def full : Bool :=
  maxPeers.any fun limit => decide (limit ≤ table.peers.card)

/-- The checks of an incoming connection below the limit of all peers. -/
def acceptBelow (order : SetIteration SocketAddr) : Bool × PeerTable :=
  if isPeerBanned now table.peerScores addr then (false, table)
  else if addr ∈ table.peers then (false, table)
  else
    match table.reserveSubnet addr with
    | none => (false, table)
    | some reserved =>
      if reserved.inboundFull maxPeers addr then (false, reserved.releaseSubnet addr)
      else if reserved.full maxPeers then
        (true, (((reserved.evictLowestPeer now order).map Prod.snd).getD reserved).register
          now addr .inbound)
      else (true, reserved.register now addr .inbound)

/-- An incoming connection: whether it is accepted. The loop waits for the scores first. -/
def accept : Bool × PeerTable :=
  if table.scoresHeld then (false, table)
  else if maxTotalPeers ≤ table.peers.card then
    match table.evictLowestPeer now (orders 0) with
    | none => (false, table)
    | some (_, left) => left.acceptBelow maxPeers now addr (orders 1)
  else table.acceptBelow maxPeers now addr (orders 1)

/-- A peer whose stream could not be opened. The type of the connection stays. -/
def withdraw : PeerTable :=
  let left := table.forget addr
  releaseSubnet addr
    { left with
      peerScores := left.peerScores.erase addr
      quicConnections := left.quicConnections.erase addr }

/-- An outgoing connection with room for it: whether one is made. -/
def dial (outcome : ConnectOutcome) : Bool × PeerTable :=
  match table.reserveSubnet addr with
  | none => (false, table)
  | some reserved =>
    match outcome with
    | .noEndpoint => (false, reserved)
    | .unreachable => (false, reserved.releaseSubnet addr)
    | .noStream | .noStreamType | .noHandshake | .connected =>
      -- the peer is entered ahead of its record
      if reserved.scoresHeld then (true, { reserved with peers := insert addr reserved.peers })
      else
        let registered := reserved.register now addr .outbound
        match outcome with
        | .noStream | .noStreamType => (true, registered.withdraw addr)
        | _ => (true, registered)

def connectPeer (outcome : ConnectOutcome) : Bool × PeerTable :=
  if table.outboundFull maxPeers addr then (false, table)
  else if table.full maxPeers then
    if table.scoresHeld then (false, table)
    else
      match table.evictLowestPeer now (orders 0) with
      | none => (false, table)
      | some (_, left) => left.dial now addr outcome
  else table.dial now addr outcome

/-- The end of a connection. -/
def cleanupPeerStateOnError : PeerTable :=
  if table.scoresHeld then { table with peers := table.peers.erase addr }
  else
    let left := table.forget addr
    leaveSubnet addr
      { left with
        peerScores := left.peerScores.erase addr
        connectionTypes := left.connectionTypes.erase addr
        quicConnections := left.quicConnections.erase addr
        peerPublicKeys := left.peerPublicKeys.erase addr }

/-- A sender that is not among the peers is entered if it has a key or a connection. -/
def identified : Bool :=
  (table.peerPublicKeys.lookup addr).isSome || decide (addr ∈ table.quicConnections)

def autoRegister : PeerTable :=
  { table with
    peers := insert addr table.peers
    peerScores := table.peerScores.insert addr (table.peerScores.getD addr (PeerScore.default now))
    peerCountAtomic := table.peerCountAtomic + 1 }

/-- A penalty for a message. A banned peer is to be disconnected under the lock on the scores, which
removes it from the peers and then waits for that lock. -/
def punish (reason : PenaltyReason) : PeerTable :=
  let penalized := { table with peerScores := penalizePeer now table.peerScores addr reason }
  if isPeerBanned now penalized.peerScores addr then
    { penalized with peers := penalized.peers.erase addr, scoresHeld := true }
  else penalized

/-- The key of the sender is kept, and a processed message counts in its favour. -/
def credit (publicKey : Bytes) (processed : Bool) : PeerTable :=
  { table with
    peerPublicKeys := table.peerPublicKeys.insert addr publicKey
    peerScores :=
      match table.peerScores.lookup addr with
      | none => table.peerScores
      | some score =>
        if processed then
          table.peerScores.insert addr
            { score with lastSeen := now, successCount := Word.saturatingAdd score.successCount 1 }
        else table.peerScores }

/-- The frame of a peer: whether its message is processed. -/
def handleFrame (frame : Frame) : Bool × PeerTable :=
  if table.scoresHeld then (false, table)
  else
    let (allowed, peerScores) := checkPeerRateLimit now table.peerScores addr
    let counted := { table with peerScores }
    if allowed then
      match frame with
      | .unreadable => (false, counted)
      | .malformed => (false, counted.punish now addr .malformedMessage)
      | .unverified => (false, counted.punish now addr .signatureVerificationFailed)
      | .verified publicKey processed => (true, counted.credit now addr publicKey processed)
    else (false, counted)

def receive (frame : Frame) : Bool × PeerTable :=
  if addr ∈ table.peers then table.handleFrame now addr frame
  else if table.identified addr then
    if table.scoresHeld then (false, { table with peers := insert addr table.peers })
    else (table.autoRegister now addr).handleFrame now addr frame
  else (false, table)

/-- A penalty for what a message contains. -/
def penalize (reason : PenaltyReason) : PeerTable :=
  if table.scoresHeld then table
  else { table with peerScores := penalizePeer now table.peerScores addr reason }

end PeerTable

/-- A ban that is over is lifted, and the counters start anew. The offences stay. -/
def PeerScore.expire (now : Instant) (score : PeerScore) : PeerScore :=
  match score.bannedUntil with
  | some bannedUntil =>
    if bannedUntil ≤ now then
      { score with
        bannedUntil := none, banReason := none, invalidMessages := 0, invalidBlocks := 0,
        invalidTxs := 0 }
    else score
  | none => score

namespace PeerTable

def expireBans (now : Instant) (table : PeerTable) : PeerTable :=
  if table.scoresHeld then table
  else { table with peerScores := table.peerScores.mapValues (PeerScore.expire now) }

end PeerTable

inductive PeerEvent where
  | accept (addr : SocketAddr)
  | connect (addr : SocketAddr) (outcome : ConnectOutcome)
  | receive (addr : SocketAddr) (frame : Frame)
  | penalize (addr : SocketAddr) (reason : PenaltyReason)
  | evict
  | disconnect (addr : SocketAddr)
  | expireBans

/-- An event with the time and the orders in which it finds the peers. -/
structure PeerStep where
  now : Instant
  orders : ℕ → SetIteration SocketAddr
  event : PeerEvent

namespace PeerTable

variable (maxPeers : Option ℕ) (step : PeerStep) (table : PeerTable)

/-- What an event comes to, with whether it passes on a message or makes a connection. -/
def perform : Bool × PeerTable :=
  match step.event with
  | .accept addr => table.accept maxPeers step.orders step.now addr
  | .connect addr outcome => table.connectPeer maxPeers step.orders step.now addr outcome
  | .receive addr frame => table.receive step.now addr frame
  | .penalize addr reason => (false, table.penalize step.now addr reason)
  | .evict =>
    if table.scoresHeld then (false, table)
    else (false, ((table.evictLowestPeer step.now (step.orders 0)).map Prod.snd).getD table)
  | .disconnect addr => (false, table.cleanupPeerStateOnError addr)
  | .expireBans => (false, table.expireBans step.now)

def apply : PeerTable :=
  (table.perform maxPeers step).2

/-- An event after so many seconds. -/
def stepAt (seconds : ℕ) (event : PeerEvent) : PeerStep where
  now := seconds * Instant.second
  orders _ := SetIteration.ascendingBy SocketAddr.rank SocketAddr.rank_injective
  event

section Parts

variable {table : PeerTable}

theorem releaseSubnet_eq : table.releaseSubnet addr =
    { table with subnetPeerCounts := (table.releaseSubnet addr).subnetPeerCounts } := by
  unfold releaseSubnet
  split
  · rfl
  · split <;> rfl

theorem leaveSubnet_eq : table.leaveSubnet addr =
    { table with subnetPeerCounts := (table.leaveSubnet addr).subnetPeerCounts } := by
  unfold leaveSubnet
  split
  · rfl
  · split <;> rfl

@[simp] theorem peerScores_releaseSubnet :
    (table.releaseSubnet addr).peerScores = table.peerScores := by
  rw [releaseSubnet_eq]

@[simp] theorem peers_releaseSubnet : (table.releaseSubnet addr).peers = table.peers := by
  rw [releaseSubnet_eq]

@[simp] theorem peerCountAtomic_releaseSubnet :
    (table.releaseSubnet addr).peerCountAtomic = table.peerCountAtomic := by
  rw [releaseSubnet_eq]

@[simp] theorem scoresHeld_releaseSubnet :
    (table.releaseSubnet addr).scoresHeld = table.scoresHeld := by
  rw [releaseSubnet_eq]

theorem reserveSubnet_eq (reserved : table.reserveSubnet addr = some left) :
    left = { table with subnetPeerCounts := left.subnetPeerCounts } := by
  unfold reserveSubnet at reserved
  split at reserved
  · cases reserved
    rfl
  · dsimp only at reserved
    split at reserved
    · cases reserved
    · cases reserved
      rfl

theorem evictLowestPeer_spec (done : table.evictLowestPeer now order = some (evicted, left)) :
    evicted ∈ table.peers ∧ left = releaseSubnet evicted
      { table.forget evicted with
        peerScores := table.peerScores.erase evicted
        connectionTypes := table.connectionTypes.erase evicted } := by
  obtain ⟨lowest, found, same⟩ := Option.map_eq_some_iff.mp done
  cases same
  exact ⟨table.lowestPeer_mem now found, rfl⟩

theorem evictLowestPeer_parts (done : table.evictLowestPeer now order = some (evicted, left)) :
    evicted ∈ table.peers ∧ left.peerScores = table.peerScores.erase evicted ∧
      left.peers ⊆ table.peers := by
  obtain ⟨member, rfl⟩ := evictLowestPeer_spec done
  rw [peerScores_releaseSubnet, peers_releaseSubnet]
  exact ⟨member, rfl, Finset.erase_subset _ _⟩

end Parts

end PeerTable

end IronDag
