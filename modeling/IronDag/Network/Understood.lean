import IronDag.Network.OutOfOrder
import IronDag.Network.Wire

namespace IronDag

open GossipNode Receiver SigningScheme Bytes
open List hiding after

/-- A block is announced. -/
def NetworkMessage.announces : NetworkMessage → Bool
  | .newBlock _ | .newCompactBlock _ => true
  | _ => false

/-- The messages that a node answers with. -/
def NetworkMessage.answers : NetworkMessage → Bool
  | .requestBlocks _ _ | .requestBlocksByHash _ | .requestMissingParents _ | .blocks _
  | .shardBlocks _ _ | .pong _ | .peers _ | .getMissingTransactions _ _ _
  | .missingTransactions _ _ => true
  | _ => false

/-- Announcements have a frame byte, answers have none. -/
def Transmission.Shaped (transmission : Transmission) : Prop :=
  (transmission.framing = .framed ∧ transmission.message.announces = true) ∨
    (transmission.framing ≠ .framed ∧ transmission.message.answers = true)

namespace GossipNode

/-- The node has written something more, and only announcements and answers. -/
def Wrote (before after : GossipNode) : Prop :=
  ∃ fresh, after.written = before.written ++ fresh ∧ ∀ transmission ∈ fresh, transmission.Shaped

instance : Std.Refl Wrote := ⟨fun node => ⟨[], by simp, by simp⟩⟩

instance : IsTrans GossipNode Wrote := ⟨by
  rintro first second third ⟨early, one, shaped⟩ ⟨late, two, further⟩
  refine ⟨early ++ late, by rw [two, one, append_assoc], fun transmission listed => ?_⟩
  rcases mem_append.mp listed with old | new
  · exact shaped transmission old
  · exact further transmission new⟩

theorem wrote_of_same (same : after.written = before.written) :
    Wrote before after := ⟨[], by simp [same], by simp⟩

open Fallible (Keeps)

section Written

variable (libraries : Libraries) (handling : Handling)

theorem wrote_ofExcept {check : Except ChainFault α} :
    Keeps Wrote (Fallible.ofExcept check : GossipM α) := by
  intro node
  cases check <;> exact wrote_of_same rfl

theorem wrote_offer (call : Offer) (block : Block) :
    Keeps Wrote (offer libraries handling call block) := by
  intro node
  unfold offer
  split <;> exact wrote_of_same rfl

theorem wrote_reply (unframed : framing ≠ .framed)
    (answers : message.answers = true) : Keeps Wrote (reply handling framing message) := by
  refine Keeps.modify fun node => ⟨_, rfl, fun transmission listed => ?_⟩
  rw [List.mem_singleton.mp listed]
  exact .inr ⟨unframed, answers⟩

theorem wrote_punish :
    Keeps Wrote (punish handling reason) := Keeps.modify fun _ => wrote_of_same rfl

variable {block : Block}

theorem announces_relayMessage : (relayMessage libraries handling node block).announces = true := by
  unfold relayMessage
  split <;> rfl

theorem wrote_relayBlockToPeers : Keeps Wrote (relayBlockToPeers libraries handling block) := by
  refine Keeps.modify fun node => ⟨_, rfl, fun transmission listed => ?_⟩
  obtain ⟨peer, -, rfl⟩ := mem_map.mp listed
  exact .inl ⟨rfl, announces_relayMessage libraries handling⟩

/-- What a computation writes on one node. -/
def WritesOn {α : Type} (node : GossipNode) (computation : GossipM α) : Prop :=
  Wrote node (Fallible.finalState (computation node))

theorem wrote_get_bind {next : GossipNode → GossipM α} (each : ∀ node, WritesOn node (next node)) :
    Keeps Wrote (get >>= next) := fun node => each node

theorem writesOn_of_keeps {computation : GossipM α} (keeps : Keeps Wrote computation) :
    WritesOn node computation := keeps node

theorem writesOn_set {node after : GossipNode} (same : after.written = node.written) :
    WritesOn node (set after : GossipM PUnit) := wrote_of_same same

theorem writesOn_set_bind {node after : GossipNode} {next : PUnit → GossipM α}
    (same : after.written = node.written) (tail : Keeps Wrote (next .unit)) :
    WritesOn node (set after >>= next) := by
  have first : Wrote node after := wrote_of_same same
  have second : Wrote after (Fallible.finalState (next .unit after)) := tail after
  exact IsTrans.trans node after _ first second

theorem writesOn_ofExcept_bind {next : α → GossipM β}
    (each : ∀ value, WritesOn node (next value)) :
    WritesOn node (Fallible.ofExcept check >>= next) := by
  cases check with
  | ok value => exact each value
  | error reason => exact wrote_of_same rfl

theorem wrote_keepOrphan : Keeps Wrote (keepOrphan handling block) := by
  refine wrote_get_bind fun node => ?_
  split
  refine writesOn_set_bind rfl ?_
  split
  · exact Keeps.pure ()
  · exact wrote_reply handling (by decide) rfl

theorem wrote_offerOrphans (index : ℕ) (hashes : List Hash) :
    Keeps Wrote (offerOrphans libraries handling index hashes) := by
  induction hashes generalizing index with
  | nil => exact Keeps.pure ()
  | cons hash rest ih =>
    refine wrote_get_bind fun node => ?_
    split
    · exact ih (index + 1) node
    · exact writesOn_set_bind rfl
        (Keeps.bind (wrote_offer libraries handling _ _) fun _ => ih (index + 1))

theorem wrote_unblockOrphans : Keeps Wrote (unblockOrphans libraries handling) :=
  wrote_get_bind fun node => wrote_offerOrphans libraries handling _ _ node

theorem wrote_newBlock : Keeps Wrote (newBlock libraries handling block) := by
  refine wrote_get_bind fun node => ?_
  split
  · exact writesOn_of_keeps (Keeps.pure ())
  · refine writesOn_set_bind rfl (Keeps.bind wrote_ofExcept fun isOrphan => ?_)
    split
    · exact wrote_keepOrphan handling
    · refine Keeps.bind (wrote_offer libraries handling _ _) fun result => ?_
      split
      · exact Keeps.bind (wrote_unblockOrphans libraries handling) fun _ =>
          wrote_relayBlockToPeers libraries handling
      · exact Keeps.pure ()
      · exact wrote_punish handling

theorem wrote_reconstructed : Keeps Wrote (reconstructed libraries handling block) := by
  refine wrote_get_bind fun node => writesOn_ofExcept_bind fun isOrphan => writesOn_of_keeps ?_
  split
  · exact Keeps.bind (wrote_keepOrphan handling) fun _ => Keeps.pure false
  · refine Keeps.bind (wrote_offer libraries handling _ _) fun result => ?_
    split
    · exact Keeps.bind (wrote_unblockOrphans libraries handling) fun _ => Keeps.pure true
    · exact Keeps.pure false
    · exact Keeps.pure false

theorem wrote_newCompactBlock : Keeps Wrote (newCompactBlock libraries handling compactBlock) := by
  have ends {next : Option Block → _} (relays : ∀ block, next (some block) =
      relayBlockToPeers libraries handling block) (asks : next none = reply handling .bare
        (.requestBlocksByHash [compactBlock.header.calculateHeaderHash libraries.host.crypto])) :
      ∀ taken, Keeps Wrote (next taken) := by
    intro taken
    cases taken with
    | some block => exact relays block ▸ wrote_relayBlockToPeers libraries handling
    | none => exact asks ▸ wrote_reply handling (by decide) rfl
  refine wrote_get_bind fun node => ?_
  dsimp only
  split
  · exact writesOn_of_keeps (Keeps.pure ())
  · refine writesOn_set_bind rfl ?_
    split
    · exact Keeps.bind (Keeps.pure none) (ends (fun _ => rfl) rfl)
    · split
      · exact Keeps.bind (wrote_reconstructed libraries handling) fun _ =>
          Keeps.bind (Keeps.pure _) (ends (fun _ => rfl) rfl)
      · split
        · exact Keeps.bind (Keeps.pure none) (ends (fun _ => rfl) rfl)
        · exact Keeps.bind (wrote_reply handling (by decide) rfl) fun _ =>
            Keeps.bind (Keeps.pure none) (ends (fun _ => rfl) rfl)

theorem wrote_newTransaction : Keeps Wrote (newTransaction handling transaction) := by
  refine wrote_get_bind fun node => ?_
  split
  · exact writesOn_of_keeps (Keeps.pure ())
  · split
    · exact writesOn_set rfl
    · refine writesOn_set_bind rfl ?_
      split
      · exact Keeps.pure ()
      · exact wrote_punish handling

theorem wrote_missingTransactions {blockHash : Hash} {transactions : List Transaction} :
    Keeps Wrote (missingTransactions handling blockHash transactions) := by
  have asks : Keeps Wrote (reply handling .bare (.requestBlocksByHash [blockHash])) :=
    wrote_reply handling (by decide) rfl
  refine wrote_get_bind fun node => ?_
  split
  · exact asks node
  · split
    · exact writesOn_of_keeps (Keeps.pure ())
    · exact writesOn_set_bind rfl asks

theorem wrote_receiveBlock (index : ℕ) (block : Block) (tally : Tally) :
    Keeps Wrote (receiveBlock libraries handling index block tally) := by
  refine wrote_get_bind fun node => writesOn_ofExcept_bind fun known => ?_
  split
  · exact writesOn_of_keeps (Keeps.pure _)
  · refine writesOn_ofExcept_bind fun misses => ?_
    split
    · exact writesOn_set_bind rfl (Keeps.pure _)
    · refine writesOn_of_keeps (Keeps.bind (wrote_offer libraries handling _ _) fun result => ?_)
      split <;> exact Keeps.pure _

theorem wrote_receiveBlocks (index : ℕ) (batch : List Block) (tally : Tally) :
    Keeps Wrote (receiveBlocks libraries handling index batch tally) := by
  induction batch generalizing index tally with
  | nil => exact Keeps.pure tally
  | cons block rest ih =>
    exact Keeps.bind (wrote_receiveBlock libraries handling index block tally) fun _ => ih _ _

theorem wrote_retryOrphan (pass index : ℕ) (hash : Hash) (added : ℕ) :
    Keeps Wrote (retryOrphan libraries handling pass index hash added) := by
  have back : ∀ orphan : Block, Keeps Wrote (do
      modify fun node => { node with orphanPool := (node.orphanPool.addOrphan orphan).2 }
      pure added : GossipM ℕ) :=
    fun orphan => Keeps.bind (Keeps.modify fun _ => wrote_of_same rfl) fun _ => Keeps.pure added
  refine wrote_get_bind fun node => ?_
  split
  · exact writesOn_of_keeps (Keeps.pure added)
  · refine writesOn_set_bind rfl (Keeps.bind wrote_ofExcept fun misses => ?_)
    split
    · exact back _
    · refine Keeps.bind (wrote_offer libraries handling _ _) fun result => ?_
      split
      · exact Keeps.pure _
      · exact Keeps.pure _
      · exact back _

theorem wrote_retryOrphans (pass index : ℕ) (hashes : List Hash) (added : ℕ) :
    Keeps Wrote (retryOrphans libraries handling pass index hashes added) := by
  induction hashes generalizing index added with
  | nil => exact Keeps.pure added
  | cons hash rest ih =>
    exact Keeps.bind (wrote_retryOrphan libraries handling pass index hash added) fun _ => ih _ _

theorem wrote_resolveOrphans (fuel pass added : ℕ) :
    Keeps Wrote (resolveOrphans libraries handling fuel pass added) := by
  induction fuel generalizing pass added with
  | zero => exact Keeps.pure added
  | succ fuel ih =>
    refine wrote_get_bind fun node => ?_
    dsimp only
    split
    · exact writesOn_of_keeps (Keeps.pure added)
    · refine writesOn_of_keeps
        (Keeps.bind (wrote_retryOrphans libraries handling pass 0 _ added) fun counted => ?_)
      split
      · exact Keeps.pure added
      · exact ih _ _

theorem wrote_blocks {batch : List Block} : Keeps Wrote (blocks libraries handling batch) := by
  have asks : ∀ next : GossipNode → U64, Keeps Wrote (do
      let node ← get
      reply handling .bare (.requestBlocks (next node) maxBlocksPerRequest) : GossipM Unit) :=
    fun next => wrote_get_bind fun node => wrote_reply handling (by decide) rfl node
  refine Keeps.bind (wrote_receiveBlocks libraries handling 0 _ _) fun tally => ?_
  have rest : ∀ added : ℕ, Keeps Wrote (if 0 < added then do
        let node ← get
        reply handling .bare (.requestBlocks (node.chain.latestBlockNumber + 1) maxBlocksPerRequest)
      else if 0 < tally.orphaned then do
        let node ← get
        let highest :=
          (batch.map fun block => block.header.blockNumber).foldl (fun highest number =>
          if highest < number then number else highest) 0
        let nextFrom := if batch = [] then node.chain.latestBlockNumber + 1 else highest + 1
        reply handling .bare (.requestBlocks nextFrom maxBlocksPerRequest)
      else pure () : GossipM Unit) := by
    intro added
    split
    · exact asks _
    · split
      · exact asks _
      · exact Keeps.pure ()
  by_cases some : 0 < tally.added
  · rw [if_pos some]
    exact Keeps.bind (wrote_resolveOrphans libraries handling _ _ _) rest
  · rw [if_neg some]
    exact Keeps.bind (Keeps.pure 0) rest

theorem wrote_offerAll (index : ℕ) (batch : List Block) :
    Keeps Wrote (offerAll libraries handling index batch) := by
  induction batch generalizing index with
  | nil => exact Keeps.pure ()
  | cons block rest ih => exact Keeps.bind (wrote_offer libraries handling _ _) fun _ => ih _

theorem wrote_requestPeers : Keeps Wrote (requestPeers handling) := by
  refine wrote_get_bind fun node => ?_
  dsimp only
  split
  · exact writesOn_of_keeps (Keeps.pure ())
  · exact writesOn_set_bind rfl (wrote_reply handling (by decide) rfl)

/-- A message makes a node write announcements and answers only. -/
theorem wrote_processMessage {message : NetworkMessage} :
    Keeps Wrote (processMessage libraries handling message) := by
  have answers : ∀ hashes : List Hash, Keeps Wrote (do
      let found ← Fallible.ofExcept (getBlocksByHash (← get).chain hashes)
      reply handling .signed (.blocks found) : GossipM Unit) := fun hashes =>
    wrote_get_bind fun node => writesOn_ofExcept_bind fun found =>
      writesOn_of_keeps (wrote_reply handling (by decide) rfl)
  cases message with
  | newBlock block => exact wrote_newBlock libraries handling
  | newCompactBlock compactBlock => exact wrote_newCompactBlock libraries handling
  | newShardBlock block shardId =>
    exact Keeps.bind (wrote_offer libraries handling _ _) fun _ => Keeps.pure ()
  | newTransaction transaction => exact wrote_newTransaction handling
  | requestBlocksByHash hashes | requestMissingParents hashes => exact answers hashes
  | requestBlocks fromBlock count =>
    exact wrote_get_bind fun node => wrote_reply handling (by decide) rfl node
  | requestShardBlocks shardId fromBlock count =>
    exact wrote_get_bind fun node => wrote_reply handling (by decide) rfl node
  | blocks batch => exact wrote_blocks libraries handling
  | shardBlocks shardId batch =>
    show Keeps Wrote (shardBlocks libraries handling batch)
    unfold shardBlocks
    split
    · exact Keeps.pure ()
    · exact wrote_offerAll libraries handling 0 batch
  | ping nonce => exact wrote_reply handling (by decide) rfl
  | requestPeers => exact wrote_requestPeers handling
  | getMissingTransactions blockHash shortIds nonce =>
    exact wrote_get_bind fun node => wrote_reply handling (by decide) rfl node
  | missingTransactions blockHash transactions => exact wrote_missingTransactions handling
  | handshake listenAddr capabilities | pong nonce | peers addresses => exact Keeps.pure ()
  | kyberPublicKey publicKey | kyberCiphertext ciphertext | kyberHandshakeAck => exact Keeps.pure ()

end Written

/-- What a message makes a node write. -/
def responses (libraries : Libraries) (handling : Handling) (message : NetworkMessage)
    (node : GossipNode) : List Transmission :=
  (node.handle libraries handling message).written.drop node.written.length

theorem shaped_of_mem_responses
    (listed : transmission ∈ responses libraries handling message node) : transmission.Shaped := by
  obtain ⟨fresh, grown, shaped⟩ := wrote_processMessage libraries handling node
  unfold responses handle at listed
  rw [grown, drop_left] at listed
  exact shaped transmission listed

end GossipNode

section Frames

variable {receiver : Receiver} {payload : Bytes}

theorem readLength {data rest : Bytes} : (ofBE 32 ((withLength data ++ rest).take 4)).toNat =
    data.length % 2 ^ 32 ∧
      (withLength data ++ rest).drop 4 = data ++ rest ∧ ¬(withLength data ++ rest).length < 4 := by
  have size : (be (BitVec.ofNat 32 data.length)).length = 4 := length_be _
  have back : ofBE 32 (be (BitVec.ofNat 32 data.length)) = BitVec.ofNat 32 data.length :=
    @ofBE_be 4 _
  unfold withLength
  rw [append_assoc, take_append_of_le_length (by rw [size]), take_of_length_le (by rw [size]), back]
  refine ⟨rfl, drop_left' size, ?_⟩
  rw [length_append]
  omega

theorem readFrame_of_fits (fits : (frameByte :: payload).length ≤ maxMessageSize) {rest : Bytes} :
    receiver.readFrame oversizedCount (withLength (frameByte :: payload) ++ rest) =
      some (receiver.readPayload frameByte payload, 0, rest) := by
  obtain ⟨length, body, enough⟩ := readLength
  have small : (frameByte :: payload).length % 2 ^ 32 = payload.length + 1 := by
    rw [maxMessageSize] at fits
    exact Nat.mod_eq_of_lt (by omega)
  rw [small] at length
  unfold readFrame
  rw [if_neg enough]
  rw [length, body, if_neg (by omega), if_neg (by omega)]
  dsimp only [cons_append]
  rw [Nat.add_sub_cancel, if_neg (by simp), take_left, drop_left]

/-- A frame that is understood is not longer than a frame may be, and its first byte is a frame
byte. -/
theorem fits_of_understands
    (understood : receiver.Understands (withLength (frameByte :: payload)) message) :
    (frameByte :: payload).length ≤ maxMessageSize ∧
      (frameByte = msgFrameKyberEncrypted ∨ frameByte = msgFramePlaintext) := by
  have read := understood 0 []
  obtain ⟨length, body, enough⟩ := readLength
  unfold readFrame at read
  rw [if_neg enough] at read
  dsimp only at read
  rw [length, body] at read
  split at read
  · split at read
    · cases read
    · split at read <;> cases read
  · next short =>
    split at read
    · cases read
    · dsimp only [cons_append] at read
      split at read
      · cases read
      · rw [append_nil, Option.some.injEq, Prod.mk.injEq, Prod.mk.injEq] at read
        obtain ⟨reading, -, left⟩ := read
        have whole := drop_eq_nil_iff.mp left
        refine ⟨by rw [length_cons]; omega, ?_⟩
        unfold readPayload at reading
        split at reading
        · next kyber => exact .inl kyber
        · split at reading
          · next plain => exact .inr plain
          · cases reading

end Frames

/-- The scheme accepts what it signs under a secret. -/
structure SigningScheme.Correct (ed25519 : SigningScheme) (secret : Bytes) : Prop where
  keyLength : (ed25519.publicKey secret).length = 32
  verifyingKey : ed25519.verifyingKey (ed25519.publicKey secret) = true
  signatureLength : ∀ signed, (ed25519.sign secret signed).length = 64
  signature : ∀ signed, ed25519.signature (ed25519.sign secret signed) = true
  verify : ∀ signed,
    ed25519.verify (ed25519.publicKey secret) signed (ed25519.sign secret signed) = true

/-- The clocks are within the window, far from the last second that can be counted. -/
structure WithinSkew (sent received : U64) : Prop where
  early : sent.toNat ≤ received.toNat + 300
  late : received.toNat ≤ sent.toNat + 300
  range : received.toNat + 300 < 2 ^ 64

section Envelopes

variable {codec : Codec} {ed25519 : SigningScheme} {secret : Bytes} {sent received : U64}
  {pinnedKey : Option Bytes}
  {decrypt : Bytes → Option Bytes} {message : NetworkMessage} {transmission : Transmission}

theorem verifyMessage_of_signed (correct : ed25519.Correct secret) (skew : WithinSkew sent received)
    (pinned : ∀ key, pinnedKey = some key → key = ed25519.publicKey secret) :
    verifyMessage codec ed25519 received pinnedKey
      (signMessageWithKey codec ed25519 secret sent message) = .ok () := by
  have sum : (received + clockSkew).toNat = received.toNat + 300 :=
    BitVec.toNat_add_of_lt skew.range
  have timely : ¬(received + clockSkew < sent ∨ sent < Word.saturatingSub received clockSkew) := by
    have early := skew.early
    have late := skew.late
    rw [BitVec.lt_def, BitVec.lt_def, sum, Word.toNat_saturatingSub]
    show ¬(received.toNat + 300 < sent.toNat ∨ sent.toNat < received.toNat - 300)
    omega
  have signed : ¬(ed25519.sign secret (codec.encodeMessage message ++ le sent) = [] ∨
      ed25519.publicKey secret = []) := by
    rintro (empty | empty)
    · have length := correct.signatureLength (codec.encodeMessage message ++ le sent)
      rw [empty] at length
      cases length
    · have length := correct.keyLength
      rw [empty] at length
      cases length
  have same : ¬(pinnedKey.any fun expected => ed25519.publicKey secret ≠ expected) = true := by
    cases pinnedKey with
    | none => simp
    | some key => simp [pinned key rfl]
  unfold verifyMessage signMessageWithKey
  rw [if_neg timely, if_neg signed, if_neg (not_not.mpr (correct.signatureLength _)),
    if_neg (not_not.mpr correct.keyLength), if_neg same,
    if_neg (by rw [correct.verifyingKey]; simp),
    if_neg (by rw [correct.signature]; simp), if_pos (correct.verify _)]

theorem variantIndex_of_answers (answers : message.answers = true) :
    message.variantIndex.setWidth 8 ≠ msgFrameKyberEncrypted ∧
      message.variantIndex.setWidth 8 ≠ msgFramePlaintext := by
  cases message <;>
    first | (cases answers; done) | (dsimp only [NetworkMessage.variantIndex]; decide)

theorem bytes_of_unframed (unframed : transmission.framing ≠ .framed) :
    ∃ more, transmission.bytes codec ed25519 secret sent =
      withLength (transmission.message.variantIndex.setWidth 8 :: more) := by
  unfold Transmission.bytes
  cases framing : transmission.framing with
  | bare | signed | unstamped => exact ⟨_, rfl⟩
  | framed => exact absurd framing unframed

/-- A message without a frame byte is not understood. -/
theorem not_understands_of_answers {receiver : Receiver} (unframed : transmission.framing ≠ .framed)
    (answers : transmission.message.answers = true) :
    ¬receiver.Understands (transmission.bytes codec ed25519 secret sent) transmission.message := by
  intro understood
  obtain ⟨kyber, plain⟩ := variantIndex_of_answers answers
  obtain ⟨more, same⟩ := bytes_of_unframed unframed
  rw [same] at understood
  exact (fits_of_understands understood).2.elim kyber plain

/-- A framed message is understood if it fits into a frame. -/
theorem understands_framed_iff (correct : ed25519.Correct secret) (skew : WithinSkew sent received)
    (pinned : ∀ key, pinnedKey = some key → key = ed25519.publicKey secret)
    (lossless : codec.decode
      (codec.encodeEnvelope (signMessageWithKey codec ed25519 secret sent transmission.message)) =
      some (signMessageWithKey codec ed25519 secret sent transmission.message))
    (framed : transmission.framing = .framed) :
    Understands ⟨codec, ed25519, received, pinnedKey, decrypt⟩
      (transmission.bytes codec ed25519 secret sent) transmission.message ↔
      (codec.encodeEnvelope
        (signMessageWithKey codec ed25519 secret sent transmission.message)).length + 1 ≤
        maxMessageSize := by
  unfold Transmission.bytes
  rw [framed]
  constructor
  · intro understood
    exact (fits_of_understands understood).1
  · intro fits oversizedCount rest
    rw [readFrame_of_fits fits]
    have read : readPayload ⟨codec, ed25519, received, pinnedKey, decrypt⟩ msgFramePlaintext
        (codec.encodeEnvelope (signMessageWithKey codec ed25519 secret sent transmission.message)) =
          .message transmission.message := by
      unfold readPayload readMessage
      rw [lossless]
      dsimp only
      rw [verifyMessage_of_signed correct skew pinned]
      rfl
    rw [read]

/-- A message of a node is understood if it announces a block and fits into a frame, and only
then. -/
theorem responses_understood_iff {libraries : Libraries} {handling : Handling} {node : GossipNode}
    (listed : transmission ∈ node.responses libraries handling message)
    (correct : ed25519.Correct secret)
    (skew : WithinSkew sent received)
    (pinned : ∀ key, pinnedKey = some key → key = ed25519.publicKey secret)
    (lossless : codec.decode
      (codec.encodeEnvelope (signMessageWithKey codec ed25519 secret sent transmission.message)) =
      some (signMessageWithKey codec ed25519 secret sent transmission.message)) :
    Understands ⟨codec, ed25519, received, pinnedKey, decrypt⟩
      (transmission.bytes codec ed25519 secret sent) transmission.message ↔
      transmission.message.announces = true ∧
        (codec.encodeEnvelope
          (signMessageWithKey codec ed25519 secret sent transmission.message)).length + 1 ≤
          maxMessageSize := by
  rcases shaped_of_mem_responses listed with ⟨framed, announces⟩ | ⟨unframed, answers⟩
  · rw [understands_framed_iff correct skew pinned lossless framed]
    exact ⟨fun fits => ⟨announces, fits⟩, fun both => both.2⟩
  · constructor
    · intro understood
      exact absurd understood (not_understands_of_answers unframed answers)
    · rintro ⟨announces, -⟩
      revert announces answers
      cases transmission.message <;> simp [NetworkMessage.announces, NetworkMessage.answers]

end Envelopes

def otherPeer : SocketAddr where
  ip := .v4 0x0a000002
  port := 8080

def betweenPeers : GossipNode :=
  { sample with
    peers := {samplePeer, otherPeer}
    gossipStreams := {samplePeer, otherPeer} }

theorem responses_sample : betweenPeers.responses Libraries.sample (Handling.sample samplePeer)
      (.newBlock firstGeneration) = [⟨otherPeer, .framed, .newBlock firstGeneration⟩] ∧
    betweenPeers.responses Libraries.sample (Handling.sample samplePeer) (.ping 7) =
      [⟨samplePeer, .unstamped, .pong 7⟩] := by
  decide +kernel

/-- A signature is a hash of the key and the message and one of the message, and no other one
passes. -/
def SigningScheme.sample : SigningScheme where
  publicKey := fun secret => be (Crypto.sample.keccak256 secret)
  sign := fun secret signed =>
    be (Crypto.sample.keccak256 (be (Crypto.sample.keccak256 secret) ++ signed)) ++
      be (Crypto.sample.keccak256 signed)
  verifyingKey := fun key => key.length = 32
  signature := fun signature => signature.length = 64
  verify := fun key signed signature =>
    signature = be (Crypto.sample.keccak256 (key ++ signed)) ++ be (Crypto.sample.keccak256 signed)

theorem SigningScheme.correct_sample (secret : Bytes) : sample.Correct secret where
  keyLength := length_be _
  verifyingKey := by simp [sample]
  signatureLength := fun _ => by simp [sample]
  signature := fun _ => by simp [sample]
  verify := fun _ => decide_eq_true rfl

/-- Bytes after their number, and what is left. -/
def Codec.decodeBytes (bytes : Bytes) : Option (Bytes × Bytes) :=
  let length := (ofLE 64 (bytes.take 8)).toNat
  if bytes.length < 8 + length then none else some
    ((bytes.drop 8).take length, bytes.drop (8 + length))

/-- A codec for two kinds of messages, which decodes the known ones. -/
def Codec.sample (known : List NetworkMessage) : Codec :=
  let fields := fun
    | .newBlock block => be block.hash
    | .pong nonce => le nonce
    | _ => []
  { fields
    decode := fun bytes => do
      let message ← known.find? fun message =>
        (le message.variantIndex ++ fields message).isPrefixOf bytes
      let (signature, rest) ← decodeBytes
        (bytes.drop (le message.variantIndex ++ fields message).length)
      let (publicKey, rest) ← decodeBytes rest
      if rest.length = 8 then
        some { message, signature, publicKey, timestamp := ofLE 64 rest }
      else none }

theorem announcement_understood : Understands
      ⟨Codec.sample [.pong 7, .newBlock firstGeneration], sample, 1600000020, none, fun _ => none⟩
      (Transmission.bytes (Codec.sample [.pong 7, .newBlock firstGeneration]) sample [7] 1600000000
        ⟨otherPeer, .framed, .newBlock firstGeneration⟩) (.newBlock firstGeneration) := by
  have listed := mem_singleton_self (⟨otherPeer, .framed, .newBlock firstGeneration⟩ : Transmission)
  rw [← responses_sample.1] at listed
  exact (responses_understood_iff listed (correct_sample [7]) ⟨by decide, by decide, by decide⟩
    (fun key pinned => by cases pinned) (by decide +kernel)).mpr ⟨rfl, by decide +kernel⟩

theorem pong_not_understood :
    ¬∀ (codec : Codec) (ed25519 : SigningScheme) (secret : Bytes) (sent received : U64)
    (transmission : Transmission),
      transmission ∈ betweenPeers.responses Libraries.sample (Handling.sample samplePeer)
        (.ping 7) → ed25519.Correct secret → WithinSkew sent received →
      codec.decode
        (codec.encodeEnvelope (signMessageWithKey codec ed25519 secret sent transmission.message)) =
        some (signMessageWithKey codec ed25519 secret sent transmission.message) →
      Understands ⟨codec, ed25519, received, none, fun _ => none⟩
        (transmission.bytes codec ed25519 secret sent) transmission.message := by
  intro understood
  have listed := mem_singleton_self (⟨samplePeer, .unstamped, .pong 7⟩ : Transmission)
  have read := understood (Codec.sample [.pong 7]) sample [7] 1600000000 1600000020 _ listed
    (correct_sample [7]) ⟨by decide, by decide, by decide⟩ (by decide +kernel)
  exact not_understands_of_answers (by simp) rfl read

end IronDag
