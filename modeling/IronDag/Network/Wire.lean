import IronDag.Network.Gossip

namespace IronDag

def maxMessageSize : ℕ := 10 * 1024 * 1024

def msgFramePlaintext : Byte := 0

def msgFrameKyberEncrypted : Byte := 1

def maxOversizedConsecutive : ℕ := 5

/-- The seconds that two clocks may be apart. -/
def clockSkew : U64 := 300

structure AuthenticatedMessage where
  message : NetworkMessage
  signature : Bytes
  publicKey : Bytes
  timestamp : U64
  deriving DecidableEq, Repr

/-- The position of a variant in the declaration, by which it is encoded. -/
def NetworkMessage.variantIndex : NetworkMessage → U32
  | .handshake _ _ => 0
  | .newBlock _ => 1
  | .newCompactBlock _ => 2
  | .newShardBlock _ _ => 3
  | .newTransaction _ => 4
  | .requestBlocks _ _ => 5
  | .requestBlocksByHash _ => 6
  | .requestMissingParents _ => 7
  | .requestShardBlocks _ _ _ => 8
  | .blocks _ => 9
  | .shardBlocks _ _ => 10
  | .ping _ => 11
  | .pong _ => 12
  | .requestPeers => 13
  | .peers _ => 14
  | .getMissingTransactions _ _ _ => 15
  | .missingTransactions _ _ => 16
  | .kyberPublicKey _ => 17
  | .kyberCiphertext _ => 18
  | .kyberHandshakeAck => 19

/-- The encoding of the fields of a message, and the decoder of envelopes. -/
structure Codec where
  fields : NetworkMessage → Bytes
  decode : Bytes → Option AuthenticatedMessage

namespace Codec

variable (codec : Codec)

def encodeMessage (message : NetworkMessage) : Bytes :=
  Bytes.le message.variantIndex ++ codec.fields message

/-- Bytes after their number. -/
def encodeBytes (bytes : Bytes) : Bytes :=
  Bytes.le (BitVec.ofNat 64 bytes.length) ++ bytes

def encodeEnvelope (envelope : AuthenticatedMessage) : Bytes :=
  codec.encodeMessage envelope.message ++ encodeBytes envelope.signature ++
    encodeBytes envelope.publicKey ++ Bytes.le envelope.timestamp

end Codec

/-- `ed25519_dalek` for messages of any length: the key of a secret, the signature of a message
under a secret, the parsing of keys and signatures, and verification. -/
structure SigningScheme where
  publicKey : Bytes → Bytes
  sign : Bytes → Bytes → Bytes
  verifyingKey : Bytes → Bool
  signature : Bytes → Bool
  verify : Bytes → Bytes → Bytes → Bool

section Senders

variable (codec : Codec) (ed25519 : SigningScheme) (secret : Bytes) (now : U64)

def signMessageWithKey (message : NetworkMessage) : AuthenticatedMessage where
  message
  signature := ed25519.sign secret (codec.encodeMessage message ++ Bytes.le now)
  publicKey := ed25519.publicKey secret
  timestamp := now

/-- The envelope of a `Pong`, whose time is not signed. -/
def signUnstamped (message : NetworkMessage) : AuthenticatedMessage where
  message
  signature := ed25519.sign secret (codec.encodeMessage message)
  publicKey := ed25519.publicKey secret
  timestamp := now

/-- `write_u32` of a length and the data. -/
def withLength (data : Bytes) : Bytes :=
  Bytes.be (BitVec.ofNat 32 data.length) ++ data

/-- What is written for a message. -/
def Transmission.bytes (transmission : Transmission) : Bytes :=
  match transmission.framing with
  | .bare => withLength (codec.encodeMessage transmission.message)
  | .signed => withLength
      (codec.encodeEnvelope (signMessageWithKey codec ed25519 secret now transmission.message))
  | .unstamped =>
    withLength (codec.encodeEnvelope (signUnstamped codec ed25519 secret now transmission.message))
  | .framed =>
    withLength (msgFramePlaintext ::
      codec.encodeEnvelope (signMessageWithKey codec ed25519 secret now transmission.message))

end Senders

/-- The checks of a received envelope, with the texts of the errors. -/
def verifyMessage (codec : Codec) (ed25519 : SigningScheme) (currentTime : U64)
    (pinnedKey : Option Bytes) (envelope : AuthenticatedMessage) : Except String Unit :=
  if currentTime + clockSkew < envelope.timestamp ∨
    envelope.timestamp < Word.saturatingSub currentTime clockSkew then
    .error "Message timestamp out of acceptable range (possible replay attack)"
  else if envelope.signature = [] ∨ envelope.publicKey = [] then
    .error "Message missing signature or public key - unsigned messages are not allowed"
  else if envelope.signature.length ≠ 64 then .error "Invalid signature length"
  else if envelope.publicKey.length ≠ 32 then .error "Invalid public key length"
  else if pinnedKey.any fun expected => envelope.publicKey ≠ expected then
    .error "Public key mismatch: peer key changed (possible MITM)"
  else if ed25519.verifyingKey envelope.publicKey = false then .error "Invalid public key"
  else if ed25519.signature envelope.signature = false then .error "Invalid signature"
  else if ed25519.verify envelope.publicKey
    (codec.encodeMessage envelope.message ++ Bytes.le envelope.timestamp)
      envelope.signature then .ok ()
  else .error "Message signature verification failed"

/-- One turn of the loop that reads a stream. -/
inductive Reading where
  | dropped
  | oversized
  | tooShort
  | unknownFrame (frameByte : Byte)
  | undecrypted
  | malformed
  | unverified (reason : String)
  | message (message : NetworkMessage)
  deriving DecidableEq, Repr

/-- A node that reads the stream of a peer: its clock, the key it has pinned and the session key. -/
structure Receiver where
  codec : Codec
  ed25519 : SigningScheme
  currentTime : U64
  pinnedKey : Option Bytes
  decrypt : Bytes → Option Bytes

namespace Receiver

variable (receiver : Receiver)

def readMessage (bytes : Bytes) : Reading :=
  match receiver.codec.decode bytes with
  | none => .malformed
  | some envelope =>
    match verifyMessage receiver.codec receiver.ed25519 receiver.currentTime receiver.pinnedKey
      envelope with
    | .error reason => .unverified reason
    | .ok () => .message envelope.message

def readPayload (frameByte : Byte) (payload : Bytes) : Reading :=
  if frameByte = msgFrameKyberEncrypted then
    match receiver.decrypt payload with
    | none => .undecrypted
    | some decrypted => receiver.readMessage decrypted
  else if frameByte = msgFramePlaintext then receiver.readMessage payload
  else .unknownFrame frameByte

/-- Reads one frame, with what is left of the stream and the number of oversized ones in a row.
Nothing means that the stream has not enough bytes yet. -/
def readFrame (oversizedCount : ℕ) (stream : Bytes) : Option (Reading × ℕ × Bytes) :=
  if stream.length < 4 then none
  else
    let len := (Bytes.ofBE 32 (stream.take 4)).toNat
    let body := stream.drop 4
    if maxMessageSize < len then
      if maxOversizedConsecutive ≤ oversizedCount + 1 then some (.dropped, oversizedCount + 1, body)
      else if body.length < min len maxMessageSize then none
      else some (.oversized, oversizedCount + 1, body.drop (min len maxMessageSize))
    else if len < 1 then some (.tooShort, 0, body)
    else
      match body with
      | [] => none
      | frameByte :: rest =>
        if rest.length < len - 1 then none
        else some (receiver.readPayload frameByte (rest.take (len - 1)), 0, rest.drop (len - 1))

/-- The bytes are read as one frame with the message, whatever follows, and what follows is read
from a frame boundary. -/
def Understands (bytes : Bytes) (message : NetworkMessage) : Prop :=
  ∀ oversizedCount rest,
    receiver.readFrame oversizedCount (bytes ++ rest) = some (.message message, 0, rest)

end Receiver

end IronDag
