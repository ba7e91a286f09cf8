import IronDag.Lib.Clock
import IronDag.Lib.Table
import IronDag.Types

/-!
Addresses of peers and the record a node keeps about each of them: how many messages it sent within
the current minute, what it sent that was invalid, and until when it is banned.
-/

namespace IronDag

abbrev U32 := BitVec 32

inductive IpAddr where
  | v4 (octets : BitVec 32)
  | v6 (segments : U128)
  deriving DecidableEq, Repr

structure SocketAddr where
  ip : IpAddr
  port : BitVec 16
  deriving DecidableEq, Repr

/-- A number for each address. -/
def SocketAddr.rank (addr : SocketAddr) : ℕ :=
  match addr.ip with
  | .v4 octets => 2 * (octets.toNat * 2 ^ 16 + addr.port.toNat)
  | .v6 segments => 2 * (segments.toNat * 2 ^ 16 + addr.port.toNat) + 1

theorem SocketAddr.rank_injective : Function.Injective SocketAddr.rank := by
  rintro ⟨left, leftPort⟩ ⟨right, rightPort⟩ same
  unfold rank at same
  cases left with
  | v4 octets =>
    cases right with
    | v4 others =>
      dsimp only at same
      have ip : octets = others := BitVec.eq_of_toNat_eq (by omega)
      have port : leftPort = rightPort := BitVec.eq_of_toNat_eq (by omega)
      rw [ip, port]
    | v6 segments =>
      dsimp only at same
      omega
  | v6 segments =>
    cases right with
    | v4 octets =>
      dsimp only at same
      omega
    | v6 others =>
      dsimp only at same
      have ip : segments = others := BitVec.eq_of_toNat_eq (by omega)
      have port : leftPort = rightPort := BitVec.eq_of_toNat_eq (by omega)
      rw [ip, port]

def maxPeersPerSubnet16 : ℕ := 10

/-- The first two octets. Local addresses and those of version 6 are exempt. -/
def subnetPrefix16 (addr : SocketAddr) : Option (BitVec 16) :=
  match addr.ip with
  | .v4 octets => if octets.extractLsb' 24 8 = 127 then none else some (octets.extractLsb' 16 16)
  | .v6 _ => none

structure PeerScore where
  lastSeen : Instant
  successCount : U32
  failureCount : U32
  messagesThisWindow : U64
  windowStart : Instant
  bannedUntil : Option Instant
  banReason : Option String
  invalidBlocks : U64
  invalidTxs : U64
  invalidMessages : U32
  /-- How often the peer has been banned. -/
  offenseCount : U32
  deriving DecidableEq, Repr

def maxMessagesPerMinute : U64 := 3000

def maxInvalidMessages : U32 := 5

def maxInvalidBlocks : U64 := 3

def maxInvalidTxs : U64 := 50

def rateWindowSecs : ℕ := 60

/-- A ban grows with the offences up to a day. -/
def banDurationForOffense (offenseCount : U32) : ℕ :=
  match offenseCount.toNat with
  | 0 => 600 * Instant.second
  | 1 => 600 * Instant.second
  | 2 => 3600 * Instant.second
  | 3 => 21600 * Instant.second
  | _ => 86400 * Instant.second

inductive PenaltyReason where
  | invalidBlock
  | invalidTransaction
  | invalidMessage
  | spam
  | timeout
  | protocolViolation
  | signatureVerificationFailed
  | malformedMessage
  deriving DecidableEq, Repr

namespace PeerScore

/-- The record of a peer that is new at `now`. -/
def default (now : Instant) : PeerScore where
  lastSeen := now
  successCount := 0
  failureCount := 0
  messagesThisWindow := 0
  windowStart := now
  bannedUntil := none
  banReason := none
  invalidBlocks := 0
  invalidTxs := 0
  invalidMessages := 0
  offenseCount := 0

variable (score : PeerScore) (now : Instant)

/-- The lowest is evicted first. -/
def evictionScore : ℤ :=
  (score.successCount.toNat : ℤ) - score.failureCount.toNat * 2

def isBanned : Bool :=
  score.bannedUntil.any fun bannedUntil => decide (now < bannedUntil)

def ban (reason : String) : PeerScore :=
  let offenseCount := Word.saturatingAdd score.offenseCount 1
  { score with
    offenseCount
    bannedUntil := some (now + banDurationForOffense offenseCount)
    banReason := some reason }

/-- A window that has passed is followed by a new one. -/
def renewWindow : PeerScore :=
  if rateWindowSecs * Instant.second ≤ Instant.durationSince now score.windowStart then
    { score with messagesThisWindow := 0, windowStart := now }
  else score

/-- One more message in the window; too many of them are an offence. -/
def countMessage : PeerScore :=
  let renewed := score.renewWindow now
  let counted := { renewed with messagesThisWindow := renewed.messagesThisWindow + 1 }
  if maxMessagesPerMinute < counted.messagesThisWindow then
    counted.ban now s!"rate limit exceeded ({counted.messagesThisWindow.toNat} msgs/min)"
  else counted

def penalize (reason : PenaltyReason) : PeerScore :=
  match reason with
  | .invalidMessage | .signatureVerificationFailed | .malformedMessage =>
    let counted := { score with invalidMessages := Word.saturatingAdd score.invalidMessages 1 }
    if maxInvalidMessages ≤ counted.invalidMessages then
      counted.ban now s!"{counted.invalidMessages.toNat} invalid messages"
    else counted
  | .invalidBlock =>
    let counted := { score with invalidBlocks := score.invalidBlocks + 1 }
    if maxInvalidBlocks ≤ counted.invalidBlocks then
      counted.ban now s!"{counted.invalidBlocks.toNat} invalid blocks"
    else counted
  | .invalidTransaction =>
    let counted := { score with invalidTxs := score.invalidTxs + 1 }
    if maxInvalidTxs ≤ counted.invalidTxs then
      counted.ban now s!"{counted.invalidTxs.toNat} invalid transactions"
    else counted
  | .spam | .timeout | .protocolViolation =>
    { score with failureCount := Word.saturatingAdd score.failureCount 1 }

end PeerScore

abbrev PeerScores := Table SocketAddr PeerScore

/-- Whether the message of a peer may be processed. The peer is entered if it is unknown. -/
def checkPeerRateLimit (now : Instant) (peerScores : PeerScores) (addr : SocketAddr) :
    Bool × PeerScores :=
  let score := peerScores.getD addr (PeerScore.default now)
  if score.isBanned now then (false, peerScores.insert addr score)
  else
    let counted := score.countMessage now
    (!decide (maxMessagesPerMinute < counted.messagesThisWindow), peerScores.insert addr counted)

def isPeerBanned (now : Instant) (peerScores : PeerScores) (addr : SocketAddr) : Bool :=
  (peerScores.lookup addr).any fun score => score.isBanned now

def penalizePeer (now : Instant) (peerScores : PeerScores) (addr : SocketAddr)
    (reason : PenaltyReason) : PeerScores :=
  peerScores.modifyD addr (PeerScore.default now) fun score => score.penalize now reason

end IronDag
