import IronDag.Chain.Resync
import IronDag.Network.Message
import IronDag.Network.OrphanPool

namespace IronDag

open SetIteration

def maxBlocksPerRequest : U64 := 500

def maxOrphanResolutionPasses : ℕ := 50

def maxPeersToShare : ℕ := 20

def requestPeersInterval : ℕ := 60 * Instant.second

/-- How a message is put on a stream, after its length. -/
inductive Framing where
  /-- The message alone. -/
  | bare
  /-- The message in an envelope, signed together with its time. -/
  | signed
  /-- The message in an envelope, signed without its time. -/
  | unstamped
  /-- A frame byte and the signed envelope. -/
  | framed
  deriving DecidableEq, Repr

structure Transmission where
  peer : SocketAddr
  framing : Framing
  message : NetworkMessage
  deriving DecidableEq, Repr

structure GossipNode where
  chain : Blockchain
  orphanPool : OrphanPool
  miningManager : Option MiningManager
  blockSeen : SeenCache
  txSeen : SeenCache
  peers : Finset SocketAddr
  /-- The peers with an open stream. -/
  gossipStreams : Finset SocketAddr
  peerScores : PeerScores
  peerAdvertisedAddrs : Table SocketAddr String
  peerRequestPeersTime : Table SocketAddr Instant
  /-- Everything written so far, in order. -/
  written : List Transmission

/-- A call of `add_block_for_sync` during one message: for a block of the message, or for an orphan
of one of the passes over the pool. -/
inductive Offer where
  | received (index : ℕ)
  | orphan (pass index : ℕ)
  deriving DecidableEq, Repr

/-- What a message meets: its sender, the clock, the chain at each call, the iteration orders of the
hash tables, the random choices and the answers of the shard manager, if there is one. -/
structure Handling where
  fromAddr : SocketAddr
  now : Instant
  conditions : Offer → Conditions
  baseFee : U128
  orphanOrder : ℕ → SetIteration Hash
  hashOrder : SetIteration Hash
  shortIdOrder : SetIteration ShortId
  addressOrder : SetIteration SocketAddr
  subnetOrder : SetIteration (BitVec 16)
  /-- The peers as they are shuffled for a relay. -/
  relayOrder : SetIteration SocketAddr
  shortIdNonce : U64
  shardBlocks : Option (ℕ → U64 → U64 → List Block)

/-- A message handled on a node. A panic keeps what was done before it. -/
abbrev GossipM := Fallible ChainFault GossipNode

namespace GossipNode

/-- The libraries of the node. -/
structure Libraries where
  host : Host
  siphash : SipHasher

variable (libraries : Libraries) (handling : Handling)

/-- Calls `add_block_for_sync`. Its error is a value here, a panic is not. -/
def offer (call : Offer) (block : Block) : GossipM (Except BlockchainError Bool) := fun node =>
  match Blockchain.addBlockForSync libraries.host (handling.conditions call) block node.chain with
  | .ok added chain => .ok (.ok added) { node with chain }
  | .error (.error reason) chain => .ok (.error reason) { node with chain }
  | .error .panic chain => .error .panic { node with chain }

/-- Whether one of the hashes is unknown. The search ends with the first one that is. -/
def missesParent (chain : Blockchain) : List Hash → Except ChainFault Bool
  | [] => .ok false
  | parent :: rest =>
    match chain.getBlockByHash parent with
    | .error fault => .error fault
    | .ok none => .ok true
    | .ok (some _) => missesParent chain rest

def getBlocksByHash (chain : Blockchain) : List Hash → Except ChainFault (List Block)
  | [] => .ok []
  | hash :: rest => do
      let found ← chain.getBlockByHash hash
      let others ← getBlocksByHash chain rest
      .ok (found.toList ++ others)

/-- Blocks by their number, the lowest first. -/
def blocksFrom (chain : Blockchain) (fromBlock count : U64) : List Block :=
  (BlockStore.sortByNumber
    (chain.blocks.blocks.filter fun block =>
      fromBlock ≤ block.header.blockNumber)).take count.toNat

/-- Writes to the stream the message came from. -/
def reply (framing : Framing) (message : NetworkMessage) : GossipM Unit :=
  modify fun node =>
    { node with written := node.written ++ [⟨handling.fromAddr, framing, message⟩] }

/-- The peers a block is relayed to: the root of their number, and three at least. -/
def relayTargets (node : GossipNode) : List SocketAddr :=
  if node.peers.card ≤ 1 then []
  else ((handling.relayOrder.toList node.peers).filter fun peer => peer ≠ handling.fromAddr).take
    (max 3 node.peers.card.sqrt)

def relayMessage (node : GossipNode) (block : Block) : NetworkMessage :=
  match node.miningManager with
  | some manager =>
    .newCompactBlock
      (CompactBlock.fromBlock libraries.siphash block
        manager.getMempoolHashes handling.shortIdNonce)
  | none => .newBlock block

def relayBlockToPeers (block : Block) : GossipM Unit :=
  modify fun node =>
    { node with
      written := node.written ++
        ((relayTargets handling node).filter fun peer => peer ∈ node.gossipStreams).map
        fun peer => ⟨peer, .framed, relayMessage libraries handling node block⟩ }

/-- A block without its parents waits, and they are asked for. -/
def keepOrphan (block : Block) : GossipM Unit := do
  let node ← get
  let (missingParents, orphanPool) := node.orphanPool.addOrphan block
  set { node with orphanPool }
  if missingParents = [] then pure () else
    reply handling .bare (.requestMissingParents missingParents)

/-- Takes the orphans out one by one and offers them to the chain. Their parents are not looked at,
and the result is ignored. -/
def offerOrphans : ℕ → List Hash → GossipM Unit
  | _, [] => pure ()
  | index, hash :: rest => do
      let node ← get
      match node.orphanPool.tryProcessOrphan hash with
      | none => offerOrphans (index + 1) rest
      | some (orphan, orphanPool) => do
          set { node with orphanPool }
          let _ ← offer libraries handling (.orphan 0 index) orphan
          offerOrphans (index + 1) rest

def unblockOrphans : GossipM Unit := do
  let node ← get
  offerOrphans libraries handling 0 (node.orphanPool.getOrphanHashes (handling.orphanOrder 0))

def punish (reason : PenaltyReason) : GossipM Unit :=
  modify fun node =>
    { node with peerScores := penalizePeer handling.now node.peerScores handling.fromAddr reason }

def newBlock (block : Block) : GossipM Unit := do
  let node ← get
  if block.hash ∈ node.blockSeen then pure ()
  else do
    set { node with
      blockSeen := markSeen handling.hashOrder handling.now node.blockSeen block.hash }
    let isOrphan ← Fallible.ofExcept (missesParent node.chain block.header.parentHashes)
    if isOrphan then keepOrphan handling block
    else
      match ← offer libraries handling (.received 0) block with
      | .ok true => do
          unblockOrphans libraries handling
          relayBlockToPeers libraries handling block
      | .ok false => pure ()
      | .error _ => punish handling .invalidBlock

/-- A block reconstructed from the pools; whether the chain has taken it. Its hash is that of the
header. -/
def reconstructed (block : Block) : GossipM Bool := do
  let isOrphan ← Fallible.ofExcept (missesParent (← get).chain block.header.parentHashes)
  if isOrphan then do
    keepOrphan handling block
    pure false
  else
    match ← offer libraries handling (.received 0) block with
    | .ok true => do
        unblockOrphans libraries handling
        pure true
    | .ok false => pure false
    | .error _ => pure false

def newCompactBlock (compactBlock : CompactBlock) : GossipM Unit := do
  let node ← get
  let blockHash := compactBlock.header.calculateHeaderHash libraries.host.crypto
  if blockHash ∈ node.blockSeen then pure ()
  else do
    set { node with blockSeen := markSeen handling.hashOrder handling.now node.blockSeen blockHash }
    let taken ←
      match node.miningManager with
      | none => pure none
      | some manager =>
        match compactBlock.toBlock libraries.siphash libraries.host.crypto handling.hashOrder
            manager.getMempoolSnapshot with
        | (some found, _) => do
            let block := { found with hash := blockHash }
            pure (if ← reconstructed libraries handling block then some block else none)
        | (none, missing) => do
            if missing = [] then pure () else
              reply handling .bare (.getMissingTransactions blockHash missing compactBlock.nonce)
            pure none
    match taken with
    | some block => relayBlockToPeers libraries handling block
    | none => reply handling .bare (.requestBlocksByHash [blockHash])

/-- What the pools read from the chain. -/
def view (node : GossipNode) : ChainView where
  getNonce := node.chain.getNonce
  baseFee := handling.baseFee

def newTransaction (transaction : Transaction) : GossipM Unit := do
  let node ← get
  if transaction.hash ∈ node.txSeen then pure ()
  else do
    let marked :=
      { node with txSeen := markSeen handling.hashOrder handling.now node.txSeen transaction.hash }
    match node.miningManager with
    | none => set marked
    | some manager => do
        let (result, updated) :=
          manager.addTransaction (node.view handling) handling.now transaction
        set { marked with miningManager := some updated }
        match result with
        | .ok _ => pure ()
        | .error _ => punish handling .invalidTransaction

def getMissingTransactions (blockHash : Hash) (shortIds : List ShortId) (nonce : U64) :
    GossipM Unit := do
  let node ← get
  let found :=
    match node.miningManager with
    | none => []
    | some manager =>
      let table := findTransactionsByShortIds libraries.siphash handling.hashOrder
        manager.getMempoolSnapshot shortIds nonce
      (handling.shortIdOrder.toList table.keys).filterMap table.lookup
  reply handling .signed (.missingTransactions blockHash found)

def missingTransactions (blockHash : Hash) (transactions : List Transaction) : GossipM Unit := do
  let node ← get
  if transactions = [] then reply handling .bare (.requestBlocksByHash [blockHash])
  else
    match node.miningManager with
    | none => pure ()
    | some manager => do
        let updated := transactions.foldl (fun manager tx =>
          (manager.addTransaction (node.view handling) handling.now tx).2) manager
        set { node with miningManager := some updated }
        reply handling .bare (.requestBlocksByHash [blockHash])

/-- How many blocks of a batch were added and how many wait. -/
structure Tally where
  added : ℕ
  orphaned : ℕ

/-- One block of a batch. It is offered only with all of its parents. -/
def receiveBlock (index : ℕ) (block : Block) (tally : Tally) : GossipM Tally := do
  let node ← get
  match ← Fallible.ofExcept (node.chain.getBlockByHash block.hash) with
  | some _ => pure tally
  | none => do
      if ← Fallible.ofExcept (missesParent node.chain block.header.parentHashes) then do
        set { node with orphanPool := (node.orphanPool.addOrphan block).2 }
        pure { tally with orphaned := tally.orphaned + 1 }
      else
        match ← offer libraries handling (.received index) block with
        | .ok true => pure { tally with added := tally.added + 1 }
        | .ok false => pure tally
        | .error _ => pure tally

def receiveBlocks : ℕ → List Block → Tally → GossipM Tally
  | _, [], tally => pure tally
  | index, block :: rest, tally => do
      let counted ← receiveBlock libraries handling index block tally
      receiveBlocks (index + 1) rest counted

/-- One orphan of a pass after a batch. It goes back to the pool unless the chain takes it. -/
def retryOrphan (pass index : ℕ) (hash : Hash) (added : ℕ) : GossipM ℕ := do
  let node ← get
  match node.orphanPool.tryProcessOrphan hash with
  | none => pure added
  | some (orphan, orphanPool) => do
      set { node with orphanPool }
      if ← Fallible.ofExcept (missesParent node.chain orphan.header.parentHashes) then do
        modify fun node => { node with orphanPool := (node.orphanPool.addOrphan orphan).2 }
        pure added
      else
        match ← offer libraries handling (.orphan pass index) orphan with
        | .ok true => pure (added + 1)
        | .ok false => pure added
        | .error _ => do
            modify fun node => { node with orphanPool := (node.orphanPool.addOrphan orphan).2 }
            pure added

def retryOrphans (pass : ℕ) : ℕ → List Hash → ℕ → GossipM ℕ
  | _, [], added => pure added
  | index, hash :: rest, added => do
      let counted ← retryOrphan libraries handling pass index hash added
      retryOrphans pass (index + 1) rest counted

/-- Passes over the orphans for as long as one of them is added. -/
def resolveOrphans : ℕ → ℕ → ℕ → GossipM ℕ
  | 0, _, added => pure added
  | fuel + 1, pass, added => do
      let node ← get
      let hashes := node.orphanPool.getOrphanHashes (handling.orphanOrder pass)
      if hashes = [] then pure added
      else do
        let counted ← retryOrphans libraries handling pass 0 hashes added
        if counted = added then pure added else resolveOrphans fuel (pass + 1) counted

/-- A batch of blocks in the order of their numbers. The next batch is asked for unless nothing came
of this one. -/
def blocks (batch : List Block) : GossipM Unit := do
  let tally ← receiveBlocks libraries handling 0 (BlockStore.sortByNumber batch) ⟨0, 0⟩
  let added ← if 0 < tally.added then
      resolveOrphans libraries handling maxOrphanResolutionPasses 0 tally.added
    else pure 0
  if 0 < added then do
    let node ← get
    reply handling .bare (.requestBlocks (node.chain.latestBlockNumber + 1) maxBlocksPerRequest)
  else if 0 < tally.orphaned then do
    let node ← get
    let highest := (batch.map fun block => block.header.blockNumber).foldl (fun highest number =>
      if highest < number then number else highest) 0
    let nextFrom := if batch = [] then node.chain.latestBlockNumber + 1 else highest + 1
    reply handling .bare (.requestBlocks nextFrom maxBlocksPerRequest)
  else pure ()

def offerAll : ℕ → List Block → GossipM Unit
  | _, [] => pure ()
  | index, block :: rest => do
      let _ ← offer libraries handling (.received index) block
      offerAll (index + 1) rest

/-- The shards' own chains are outside the model. -/
def shardBlocks (batch : List Block) : GossipM Unit :=
  match handling.shardBlocks with
  | some _ => pure ()
  | none => offerAll libraries handling 0 batch

/-- The advertised addresses a peer is told about: those exempt from the subnet limits first, then
one of each subnet in turn. -/
def sharedPeers (node : GossipNode) : List String :=
  let eligible := (handling.addressOrder.toList node.peerAdvertisedAddrs.keys).filter fun addr =>
    addr ≠ handling.fromAddr ∧ isPeerBanned handling.now node.peerScores addr = false
  let advertised := fun addrs : List SocketAddr => addrs.filterMap node.peerAdvertisedAddrs.lookup
  let exempt := eligible.filter fun addr => (subnetPrefix16 addr).isNone
  let subnets :=
    (handling.subnetOrder.toList (eligible.filterMap subnetPrefix16).toFinset).map fun subnet =>
    advertised (eligible.filter fun addr => subnetPrefix16 addr = some subnet)
  let rounds := (List.range eligible.length).flatMap fun round => subnets.filterMap fun addrs =>
    addrs[round]?
  (advertised exempt ++ rounds).take maxPeersToShare

def requestPeers : GossipM Unit := do
  let node ← get
  let tooSoon := (node.peerRequestPeersTime.lookup handling.fromAddr).any fun last =>
    decide (Instant.durationSince handling.now last < requestPeersInterval)
  if tooSoon then pure ()
  else do
    set { node with
      peerRequestPeersTime := node.peerRequestPeersTime.insert handling.fromAddr handling.now }
    reply handling .signed (.peers (node.sharedPeers handling))

def processMessage (message : NetworkMessage) : GossipM Unit :=
  match message with
  | .newBlock block => newBlock libraries handling block
  | .newCompactBlock compactBlock => newCompactBlock libraries handling compactBlock
  | .newShardBlock block _ => do
      let _ ← offer libraries handling (.received 0) block
      pure ()
  | .newTransaction transaction => newTransaction handling transaction
  | .requestBlocksByHash hashes => do
      let found ← Fallible.ofExcept (getBlocksByHash (← get).chain hashes)
      reply handling .signed (.blocks found)
  | .requestMissingParents hashes => do
      let found ← Fallible.ofExcept (getBlocksByHash (← get).chain hashes)
      reply handling .signed (.blocks found)
  | .requestBlocks fromBlock count => do
      let node ← get
      reply handling .signed (.blocks (blocksFrom node.chain fromBlock count))
  | .requestShardBlocks shardId fromBlock count => do
      let node ← get
      let found :=
        match handling.shardBlocks with
        | some answer => answer shardId fromBlock count
        | none => blocksFrom node.chain fromBlock count
      reply handling .bare (.shardBlocks shardId found)
  | .blocks batch => blocks libraries handling batch
  | .shardBlocks _ batch => shardBlocks libraries handling batch
  | .ping nonce => reply handling .unstamped (.pong nonce)
  | .requestPeers => requestPeers handling
  | .getMissingTransactions blockHash shortIds nonce =>
    getMissingTransactions libraries handling blockHash shortIds nonce
  | .missingTransactions blockHash transactions =>
    missingTransactions handling blockHash transactions
  | .handshake _ _ => pure ()
  | .pong _ => pure ()
  | .peers _ => pure ()
  | .kyberPublicKey _ => pure ()
  | .kyberCiphertext _ => pure ()
  | .kyberHandshakeAck => pure ()

/-- The node after a message, whatever came of it. -/
def handle (message : NetworkMessage) (node : GossipNode) : GossipNode :=
  Fallible.finalState (processMessage libraries handling message node)

end GossipNode

/-- Hash tables are iterated by value, no lock is contended and the clock stands. -/
def Handling.sample (fromAddr : SocketAddr) : Handling where
  fromAddr := fromAddr
  now := 0
  conditions := fun _ => Conditions.uncontended 1600000020
  baseFee := 1
  orphanOrder := fun _ => ascendingBy BitVec.toNat BitVec.toNat_injective
  hashOrder := ascendingBy BitVec.toNat BitVec.toNat_injective
  shortIdOrder := ascendingBy BitVec.toNat BitVec.toNat_injective
  addressOrder := ascendingBy SocketAddr.rank SocketAddr.rank_injective
  subnetOrder := ascendingBy BitVec.toNat BitVec.toNat_injective
  relayOrder := ascendingBy SocketAddr.rank SocketAddr.rank_injective
  shortIdNonce := 7
  shardBlocks := none

namespace GossipNode

def Libraries.sample : Libraries where
  host := Host.sample
  siphash := fun key _ bytes => bytes.foldl (fun sum byte => sum * 31 + byte.setWidth 64) key

def sample : GossipNode where
  chain := Fallible.finalState
    (Blockchain.addBlock Host.sample (Conditions.uncontended 1600000020)
      Blockchain.genesisBlock Blockchain.new)
  orphanPool := OrphanPool.new 1000
  miningManager := none
  blockSeen := ∅
  txSeen := ∅
  peers := ∅
  gossipStreams := ∅
  peerScores := ∅
  peerAdvertisedAddrs := ∅
  peerRequestPeersTime := ∅
  written := []

def samplePeer : SocketAddr where
  ip := .v4 0x0a000001
  port := 8080

end GossipNode

end IronDag
