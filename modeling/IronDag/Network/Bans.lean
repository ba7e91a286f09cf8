import IronDag.Lib.Run
import IronDag.Network.PeerTable

namespace IronDag

open Table Run
open PeerScore hiding bannedUntil
open List hiding after length

theorem banDurationForOffense_eq {offenseCount : U32} : banDurationForOffense offenseCount =
    (if offenseCount.toNat ≤ 1 then 600 else if offenseCount.toNat = 2 then 3600
      else if offenseCount.toNat = 3 then 21600 else 86400) * Instant.second := by
  unfold banDurationForOffense
  generalize offenseCount.toNat = count
  match count with
  | 0 | 1 | 2 | 3 => rfl
  | count + 4 => simp

theorem banDurationForOffense_mono (ordered : left ≤ right) :
    banDurationForOffense left ≤ banDurationForOffense right := by
  rw [BitVec.le_def] at ordered
  rw [banDurationForOffense_eq, banDurationForOffense_eq]
  split_ifs <;> omega

namespace PeerScore

variable (now : Instant) (score : PeerScore)

/-- How long the next ban is. -/
def nextBan : ℕ :=
  banDurationForOffense (Word.saturatingAdd score.offenseCount 1)

/-- The ban that `check_peer_rate_limit` gives, if it does. -/
def rateBan : Option ℕ :=
  if score.isBanned now then none
  else if maxMessagesPerMinute < (score.countMessage now).messagesThisWindow then some score.nextBan
  else none

/-- One more of these is an offence. -/
def offends (reason : PenaltyReason) : Bool :=
  match reason with
  | .invalidMessage | .signatureVerificationFailed | .malformedMessage =>
    maxInvalidMessages ≤ Word.saturatingAdd score.invalidMessages 1
  | .invalidBlock => maxInvalidBlocks ≤ score.invalidBlocks + 1
  | .invalidTransaction => maxInvalidTxs ≤ score.invalidTxs + 1
  | .spam | .timeout | .protocolViolation => false

def penaltyBan (reason : PenaltyReason) : Option ℕ :=
  if score.offends reason then some score.nextBan else none

/-- A change of a record: either the ban stays as it is, or there is one more offence and a ban. -/
structure Changes (before after : PeerScore) (duration : Option ℕ) : Prop where
  unbanned : duration = none → after.offenseCount = before.offenseCount ∧
    after.bannedUntil = before.bannedUntil
  banned : ∀ length, duration = some length → length = before.nextBan ∧
    after.offenseCount = Word.saturatingAdd before.offenseCount 1 ∧
      after.bannedUntil = some (now + length)

theorem changes_countMessage (free : score.isBanned now = false) :
    Changes now score (score.countMessage now) (score.rateBan now) := by
  have renewed : (score.renewWindow now).offenseCount = score.offenseCount ∧
      (score.renewWindow now).bannedUntil = score.bannedUntil := by
    unfold renewWindow
    split <;> exact ⟨rfl, rfl⟩
  have counted : maxMessagesPerMinute < (score.countMessage now).messagesThisWindow ↔
      maxMessagesPerMinute < (score.renewWindow now).messagesThisWindow + 1 := by
    unfold countMessage
    dsimp only
    split <;> rfl
  unfold rateBan
  rw [free]
  by_cases past : maxMessagesPerMinute < (score.renewWindow now).messagesThisWindow + 1
  · rw [if_pos (counted.mpr past)]
    refine ⟨nofun, ?_⟩
    rintro length ⟨⟩
    unfold countMessage
    rw [if_pos past, renewed.1]
    exact ⟨rfl, rfl, rfl⟩
  · rw [if_neg (mt counted.mp past)]
    refine ⟨fun _ => ?_, nofun⟩
    unfold countMessage
    rw [if_neg past]
    exact renewed

theorem changes_penalize (reason : PenaltyReason) :
    Changes now score (score.penalize now reason) (score.penaltyBan reason) := by
  have either : ∀ (limit : Prop) [Decidable limit] (counted : PeerScore) (text : String),
      counted.offenseCount = score.offenseCount → counted.bannedUntil = score.bannedUntil →
        Changes now score (if limit then counted.ban now text else counted)
          (if decide limit then some score.nextBan else none) := by
    intro limit _ counted text offences until_
    by_cases reached : limit
    · simp only [if_pos reached, decide_eq_true reached]
      refine ⟨nofun, ?_⟩
      rintro length ⟨⟩
      rw [ban, offences]
      exact ⟨rfl, rfl, rfl⟩
    · simp only [if_neg reached, decide_eq_false reached]
      exact ⟨fun _ => ⟨offences, until_⟩, by simp⟩
  cases reason with
  | invalidMessage | signatureVerificationFailed | malformedMessage | invalidBlock =>
    exact either _ _ _ rfl rfl
  | invalidTransaction => exact either _ _ _ rfl rfl
  | spam | timeout | protocolViolation => exact ⟨fun _ => ⟨rfl, rfl⟩, nofun⟩

variable {now score}

theorem Changes.trans (first : Changes now score middle none)
    (second : Changes now middle after duration) : Changes now score after duration := by
  obtain ⟨offences, until_⟩ := first.unbanned rfl
  refine ⟨fun unbanned => ?_, fun length given => ?_⟩
  · rw [← offences, ← until_]
    exact second.unbanned unbanned
  · rw [nextBan, ← offences]
    exact second.banned length given

/-- The record still bans the peer up to a time, or that time has come, and it has the offences. -/
structure Serves (bannedUntil : Instant) (offenses : U32) (clock : Instant) (score : PeerScore) :
    Prop where
  offences : offenses ≤ score.offenseCount
  shortest : bannedUntil ≤ clock + banDurationForOffense offenses
  bound : (∃ until_, score.bannedUntil = some until_ ∧ bannedUntil ≤ until_) ∨ bannedUntil ≤ clock

variable {bannedUntil : Instant}

theorem Serves.nextBan_le (serves : Serves bannedUntil offenses clock score) :
    banDurationForOffense offenses ≤ score.nextBan := by
  refine banDurationForOffense_mono ?_
  have offences := serves.offences
  rw [BitVec.le_def] at offences ⊢
  rw [Word.toNat_saturatingAdd]
  omega

theorem Serves.later (serves : Serves bannedUntil offenses clock score) (passed : clock ≤ now) :
    Serves bannedUntil offenses now score where
  offences := serves.offences
  shortest := serves.shortest.trans (Nat.add_le_add_right passed _)
  bound := serves.bound.imp_right fun come => come.trans passed

section

variable (serves : Serves bannedUntil offenses now score)

include serves

theorem Serves.changes (changes : Changes now score after duration) :
    Serves bannedUntil offenses now after := by
  cases duration with
  | none =>
    obtain ⟨offences, until_⟩ := changes.unbanned rfl
    exact ⟨offences ▸ serves.offences, serves.shortest, until_ ▸ serves.bound⟩
  | some length =>
    obtain ⟨rfl, offences, until_⟩ := changes.banned length rfl
    refine ⟨?_, serves.shortest, .inl ⟨_, until_, ?_⟩⟩
    · have old := serves.offences
      rw [BitVec.le_def] at old ⊢
      rw [offences, Word.toNat_saturatingAdd]
      omega
    · exact serves.shortest.trans (Nat.add_le_add_left serves.nextBan_le _)

theorem Serves.expire : Serves bannedUntil offenses now (score.expire now) := by
  unfold PeerScore.expire
  split
  · next until_ found =>
    split
    · next past =>
      refine ⟨serves.offences, serves.shortest, .inr ?_⟩
      rcases serves.bound with ⟨other, same, reached⟩ | come
      · rw [found] at same
        cases same
        exact reached.trans past
      · exact come
    · exact serves
  · exact serves

theorem Serves.isBanned (early : now < bannedUntil) : score.isBanned now = true := by
  rcases serves.bound with ⟨until_, same, reached⟩ | come
  · simp [PeerScore.isBanned, same, early.trans_le reached]
  · exact absurd come (Nat.not_le.mpr early)

end

theorem Changes.serves (changes : Changes now score after (some length)) :
    Serves (now + length) after.offenseCount now after ∧
      length = banDurationForOffense after.offenseCount ∧ after.offenseCount ≠ 0 := by
  obtain ⟨rfl, offences, until_⟩ := changes.banned _ rfl
  have same : score.nextBan = banDurationForOffense after.offenseCount := by rw [nextBan, offences]
  refine ⟨⟨BitVec.le_refl _, by rw [same], .inl ⟨_, until_, Nat.le_refl _⟩⟩, same, ?_⟩
  rw [offences, ne_eq, ← BitVec.toNat_inj]
  simp

end PeerScore

def PeerEvent.subject : PeerEvent → Option SocketAddr
  | .accept addr | .connect addr _ | .receive addr _ | .penalize addr _ | .disconnect addr =>
    some addr
  | .evict | .expireBans => none

namespace PeerTable

section Observed

variable (maxPeers : Option ℕ) (step : PeerStep) (now : Instant) (addr : SocketAddr)
  (table : PeerTable)

/-- The ban that the frame of a peer leads to. -/
def frameBan (frame : Frame) : Option ℕ :=
  if table.scoresHeld then none
  else
    let score := table.peerScores.getD addr (PeerScore.default now)
    if (checkPeerRateLimit now table.peerScores addr).1 then
      match frame with
      | .malformed => (score.countMessage now).penaltyBan .malformedMessage
      | .unverified => (score.countMessage now).penaltyBan .signatureVerificationFailed
      | .unreadable | .verified _ _ => none
    else score.rateBan now

/-- The ban that a step gives, if it does: for whom and for how long. -/
def ban : Option (SocketAddr × ℕ) :=
  match step.event with
  | .receive addr frame =>
    let handled :=
      if addr ∈ table.peers then table.frameBan step.now addr frame
      else if table.identified addr && !table.scoresHeld then
        (table.autoRegister step.now addr).frameBan step.now addr frame
      else none
    handled.map fun duration => (addr, duration)
  | .penalize addr reason =>
    if table.scoresHeld then none
    else ((table.peerScores.getD addr (PeerScore.default step.now)).penaltyBan reason).map
      fun duration =>
      (addr, duration)
  | _ => none

/-- The step passes on a message from the address or makes a connection with it. -/
def Admits : Prop :=
  step.event.subject = some addr ∧ (table.perform maxPeers step).1 = true

/-- The address has no offences on record. -/
def Clean : Prop :=
  ∀ score, table.peerScores.lookup addr = some score → score.offenseCount = 0

end Observed

/-- A ban keeps the address out until it is over, and later bans are not shorter. -/
structure BansServed (maxPeers : Option ℕ) (start : PeerTable) (steps : List PeerStep) : Prop where
  silent : ∀ front step middle later back addr duration,
    steps = front ++ step :: (middle ++ later :: back) →
    (run (apply maxPeers) start front).ban step = some (addr, duration) →
      later.now < step.now + duration →
      ¬Admits maxPeers later addr (run (apply maxPeers) start (front ++ step :: middle))
  rising : ∀ front step middle later back addr duration longer,
    steps = front ++ step :: (middle ++ later :: back) →
    (run (apply maxPeers) start front).ban step = some (addr, duration) →
      (run (apply maxPeers) start (front ++ step :: middle)).ban later = some (addr, longer) →
        duration ≤ longer

/-- The step leaves records with offences where they are: it does not connect with such an address
or disconnect it, and evicts nobody while such an address is among the peers. -/
def Spares (maxPeers : Option ℕ) (step : PeerStep) (table : PeerTable) : Prop :=
  match step.event with
  | .accept addr => (isPeerBanned step.now table.peerScores addr = true ∨ table.Clean addr) ∧
      (maxTotalPeers ≤ table.peers.card ∨ table.full maxPeers = true →
        ∀ peer ∈ table.peers, table.Clean peer)
  | .connect addr _ =>
    table.Clean addr ∧ (table.full maxPeers = true → ∀ peer ∈ table.peers, table.Clean peer)
  | .evict => ∀ peer ∈ table.peers, table.Clean peer
  | .disconnect addr => table.Clean addr
  | .receive _ _ | .penalize _ _ | .expireBans => True

/-- The address is banned up to a time, or that time has come, and its offences are on record. -/
def Serving (bannedUntil : Instant) (offenses : U32) (clock : Instant) (addr : SocketAddr)
    (table : PeerTable) : Prop :=
  ∃ score, table.peerScores.lookup addr = some score ∧ score.Serves bannedUntil offenses clock

section Connections

variable {maxPeers : Option ℕ} {order : SetIteration SocketAddr} {now : Instant}
  {addr other : SocketAddr}
  {table : PeerTable} (offender : ¬table.Clean addr)

theorem lookup_of_evicted_or (done : table.evictLowestPeer now order = some (evicted, left))
    (peer : SocketAddr) :
    left.peerScores.lookup peer = table.peerScores.lookup peer ∨
      left.peerScores.lookup peer = none := by
  obtain ⟨-, scores, -⟩ := evictLowestPeer_parts done
  rw [scores, lookup_remove]
  split
  · exact .inr rfl
  · exact .inl rfl

theorem clean_of_evicted (done : table.evictLowestPeer now order = some (evicted, left))
    (peer : SocketAddr) (before : table.Clean peer) : left.Clean peer := by
  intro score found
  rcases lookup_of_evicted_or done peer with same | gone
  · exact before score (same ▸ found)
  · rw [gone] at found
    cases found

include offender

theorem lookup_of_evicted (done : table.evictLowestPeer now order = some (evicted, left))
    (clean : ∀ peer ∈ table.peers, table.Clean peer) :
    left.peerScores.lookup addr = table.peerScores.lookup addr := by
  obtain ⟨member, rfl⟩ := evictLowestPeer_spec done
  rw [peerScores_releaseSubnet, lookup_remove, if_neg]
  rintro rfl
  exact offender (clean _ member)

theorem lookup_of_room (clean : ∀ peer ∈ table.peers, table.Clean peer) :
    (((table.evictLowestPeer now order).map Prod.snd).getD table).peerScores.lookup addr =
      table.peerScores.lookup addr := by
  cases done : table.evictLowestPeer now order with
  | none => rfl
  | some entry => exact lookup_of_evicted offender done clean

theorem acceptBelow_spares
    (sound : isPeerBanned now table.peerScores other = true ∨ table.Clean other)
    (clean : table.full maxPeers = true → ∀ peer ∈ table.peers, table.Clean peer) :
    (table.acceptBelow maxPeers now other order).2.peerScores.lookup addr =
      table.peerScores.lookup addr ∧
      ((table.acceptBelow maxPeers now other order).1 = true → other ≠ addr) := by
  unfold acceptBelow
  split
  · exact ⟨rfl, by simp⟩
  · next free =>
    have distinct : other ≠ addr := by
      rintro rfl
      exact offender (sound.resolve_left free)
    refine ⟨?_, fun _ => distinct⟩
    split
    · rfl
    · split
      · rfl
      · next reserved found =>
        have scores : reserved.peerScores = table.peerScores := by rw [reserveSubnet_eq found]
        have peers : reserved.peers = table.peers := by rw [reserveSubnet_eq found]
        split
        · rw [peerScores_releaseSubnet, scores]
        · split
          · next full =>
            have limit : table.full maxPeers = true := by
              unfold PeerTable.full at full ⊢
              rw [← peers]
              exact full
            have same : ∀ peer, reserved.Clean peer ↔ table.Clean peer := by
              intro peer
              unfold Clean
              rw [scores]
            have kept : (((reserved.evictLowestPeer now order).map Prod.snd).getD
                reserved).peerScores.lookup addr = reserved.peerScores.lookup addr :=
              lookup_of_room (mt (same addr).mp offender) fun peer member =>
                (same peer).mpr (clean limit peer (peers ▸ member))
            rw [register]
            rw [lookup_write, if_neg (Ne.symm distinct), kept, scores]
          · rw [register]
            rw [lookup_write, if_neg (Ne.symm distinct), scores]

theorem accept_spares (sound : isPeerBanned now table.peerScores other = true ∨ table.Clean other)
    (clean : maxTotalPeers ≤ table.peers.card ∨ table.full maxPeers = true →
      ∀ peer ∈ table.peers, table.Clean peer) :
    (table.accept maxPeers orders now other).2.peerScores.lookup addr =
      table.peerScores.lookup addr ∧
      ((table.accept maxPeers orders now other).1 = true → other ≠ addr) := by
  unfold accept
  split
  · exact ⟨rfl, by simp⟩
  · split
    · next many =>
      have all := clean (.inl many)
      split
      · exact ⟨rfl, by simp⟩
      · next evicted left done =>
        have kept := lookup_of_evicted offender done all
        obtain ⟨-, -, subset⟩ := evictLowestPeer_parts done
        have inherits := clean_of_evicted done
        have still : isPeerBanned now left.peerScores other = true ∨ left.Clean other := by
          rcases sound with banned | before
          · rcases lookup_of_evicted_or done other with same | gone
            · rw [isPeerBanned, same]
              exact .inl banned
            · refine .inr fun score found => ?_
              rw [gone] at found
              cases found
          · exact .inr (inherits other before)
        have offends : ¬left.Clean addr := fun after => offender fun score found =>
          after score (kept ▸ found)
        have admitted : _ ∧ _ := @acceptBelow_spares maxPeers (orders 1) now addr other left offends
          still fun _ peer member =>
          inherits peer (all peer (subset member))
        exact ⟨admitted.1.trans kept, admitted.2⟩
    · exact acceptBelow_spares offender sound fun full => clean (.inr full)

theorem dial_spares (sound : table.Clean other) :
    (table.dial now other outcome).2.peerScores.lookup addr = table.peerScores.lookup addr := by
  have distinct : other ≠ addr := by
    rintro rfl
    exact offender sound
  unfold dial
  split
  · rfl
  · next reserved found =>
    have scores : reserved.peerScores = table.peerScores := by rw [reserveSubnet_eq found]
    split
    · rw [scores]
    · rw [peerScores_releaseSubnet, scores]
    all_goals
      split
      · rw [← scores]
      · simp only [register, withdraw, forget, peerScores_releaseSubnet, lookup_remove,
          lookup_write, if_neg (Ne.symm distinct), scores]

theorem connectPeer_spares (sound : table.Clean other)
    (clean : table.full maxPeers = true → ∀ peer ∈ table.peers, table.Clean peer) :
    (table.connectPeer maxPeers orders now other outcome).2.peerScores.lookup addr =
      table.peerScores.lookup addr := by
  unfold connectPeer
  split
  · rfl
  · split
    · next full =>
      split
      · rfl
      · split
        · rfl
        · next evicted left done =>
          have kept := lookup_of_evicted offender done (clean full)
          have offends : ¬left.Clean addr := fun after => offender fun score found =>
            after score (kept ▸ found)
          exact (dial_spares offends (clean_of_evicted done other sound)).trans kept
    · exact dial_spares offender sound

end Connections

section Messages

variable {table : PeerTable}

/-- What a message of a peer or a penalty does: at most the record of the peer changes, and a
message is passed on if the peer is not banned. -/
structure Recorded (now : Instant) (addr : SocketAddr) (score : PeerScore) (peerScores : PeerScores)
    (result : Bool × PeerTable) (duration : Option ℕ) : Prop where
  scores : duration = none ∧ result.2.peerScores = peerScores ∨ ∃ after,
    (∀ other, result.2.peerScores.lookup other =
      if other = addr then some after else peerScores.lookup other) ∧
      PeerScore.Changes now score after duration
  free : result.1 = true → score.isBanned now = false

theorem checkPeerRateLimit_cases {peerScores : PeerScores}
    (read : peerScores.getD addr (default now) = score) :
    (score.isBanned now = true ∧ checkPeerRateLimit now peerScores addr =
      (false, peerScores.insert addr score)) ∨
      (score.isBanned now = false ∧ checkPeerRateLimit now peerScores addr =
        ((score.rateBan now).isNone, peerScores.insert addr (score.countMessage now))) := by
  unfold checkPeerRateLimit
  rw [read]
  dsimp only
  cases banned : score.isBanned now with
  | true => exact .inl ⟨rfl, if_pos rfl⟩
  | false =>
    rw [if_neg Bool.false_ne_true, rateBan, banned, if_neg Bool.false_ne_true]
    split <;> simp_all

theorem peerScores_punish :
    (table.punish now addr reason).peerScores = penalizePeer now table.peerScores addr reason := by
  unfold punish
  dsimp only
  split <;> rfl

theorem lookup_insert_insert {peerScores : PeerScores} :
    ((peerScores.insert addr first).insert addr second).lookup other =
      if other = addr then some second else peerScores.lookup other := by
  rw [lookup_write, lookup_write]
  split <;> rfl

theorem recorded_handleFrame (frame : Frame)
    (read : table.peerScores.getD addr (default now) = score) :
    Recorded now addr score table.peerScores (table.handleFrame now addr frame)
      (table.frameBan now addr frame) := by
  unfold handleFrame frameBan
  rw [read]
  split
  · exact ⟨.inl ⟨rfl, rfl⟩, nofun⟩
  · dsimp only
    rcases checkPeerRateLimit_cases read with ⟨banned, checked⟩ | ⟨free, checked⟩
    · rw [checked, rateBan, if_pos banned]
      exact ⟨.inr ⟨score, fun other => lookup_write, ⟨fun _ => ⟨rfl, rfl⟩, nofun⟩⟩, nofun⟩
    · have counted := changes_countMessage now score free
      rw [checked]
      cases given : score.rateBan now with
      | some length =>
        rw [given] at counted
        exact ⟨.inr ⟨_, fun other => lookup_write, counted⟩, nofun⟩
      | none =>
        rw [given] at counted
        -- a penalty comes on top of the count
        have punished : ∀ reason,
            Recorded now addr score table.peerScores (false, PeerTable.punish now addr
              { table with peerScores :=
                table.peerScores.insert addr (score.countMessage now) } reason)
            ((score.countMessage now).penaltyBan reason) := by
          intro reason
          refine ⟨.inr ⟨_, fun other => ?_, counted.trans (changes_penalize now _ reason)⟩, nofun⟩
          rw [peerScores_punish, penalizePeer, Table.modifyD, getD_write,
            if_pos rfl, lookup_insert_insert]
        cases frame with
        | unreadable => exact ⟨.inr ⟨_, fun other => lookup_write, counted⟩, by simp⟩
        | malformed => exact punished _
        | unverified => exact punished _
        | verified publicKey processed =>
          refine ⟨.inr ?_, fun _ => free⟩
          have own : (table.peerScores.insert addr (score.countMessage now)).lookup addr =
              some (score.countMessage now) := by
            rw [lookup_write, if_pos rfl]
          dsimp only [credit, Option.isNone_none, if_true]
          rw [own]
          cases processed with
          | true =>
            exact ⟨_, fun other => lookup_insert_insert,
              counted.trans ⟨fun _ => ⟨rfl, rfl⟩, by simp⟩⟩
          | false => exact ⟨_, fun other => lookup_write, counted⟩

theorem recorded_receive (frame : Frame) (read : table.peerScores.getD addr (default now) = score) :
    Recorded now addr score table.peerScores (table.receive now addr frame)
      (if addr ∈ table.peers then table.frameBan now addr frame
        else if table.identified addr && !table.scoresHeld then
          (table.autoRegister now addr).frameBan now addr frame
        else none) := by
  unfold receive
  split
  · exact recorded_handleFrame frame read
  · cases table.identified addr <;> cases held : table.scoresHeld
    · exact ⟨.inl ⟨rfl, rfl⟩, nofun⟩
    · exact ⟨.inl ⟨rfl, rfl⟩, nofun⟩
    · change Recorded now addr score _ ((table.autoRegister now addr).handleFrame now addr frame)
        ((table.autoRegister now addr).frameBan now addr frame)
      have same : ∀ other, (table.autoRegister now addr).peerScores.lookup other =
          if other = addr then some score else table.peerScores.lookup other := by
        intro other
        rw [← read]
        exact lookup_write
      have registered : (table.autoRegister now addr).peerScores.getD addr (default now) = score :=
        getD_of_lookup (by rw [same, if_pos rfl])
      obtain ⟨⟨unbanned, kept⟩ | ⟨after, scores, changes⟩, free⟩ :=
        recorded_handleFrame frame registered
      · exact ⟨.inr ⟨score, fun other => kept ▸ same other, fun _ => ⟨rfl, rfl⟩,
          by rw [unbanned]; nofun⟩, free⟩
      · refine ⟨.inr ⟨after, fun other => ?_, changes⟩, free⟩
        rw [scores, same]
        split <;> rfl
    · exact ⟨.inl ⟨rfl, rfl⟩, nofun⟩

theorem recorded_penalize (reason : PenaltyReason)
    (read : table.peerScores.getD addr (default now) = score) :
    Recorded now addr score table.peerScores (false, table.penalize now addr reason)
      (if table.scoresHeld then none else score.penaltyBan reason) := by
  unfold penalize
  split
  · exact ⟨.inl ⟨rfl, rfl⟩, nofun⟩
  · refine ⟨.inr ⟨_, fun other => ?_, changes_penalize now score reason⟩, nofun⟩
    rw [penalizePeer, Table.modifyD, read, lookup_write]

theorem Serving.recorded (serving : Serving bannedUntil offenses now addr table)
    (recorded : Recorded now other (table.peerScores.getD other (default now)) table.peerScores
      result duration) :
    Serving bannedUntil offenses now addr result.2 := by
  obtain ⟨score, found, serves⟩ := serving
  rcases recorded.scores with ⟨-, same⟩ | ⟨after, scores, changes⟩
  · exact ⟨score, same ▸ found, serves⟩
  · by_cases same : addr = other
    · subst same
      rw [getD_of_lookup found] at changes
      exact ⟨after, by rw [scores, if_pos rfl], serves.changes changes⟩
    · exact ⟨score, by rw [scores, if_neg same, found], serves⟩

end Messages

section Runs

variable {maxPeers : Option ℕ} {step : PeerStep} {addr : SocketAddr} {table : PeerTable}

theorem Serving.not_clean (serving : Serving bannedUntil offenses clock addr table)
    (positive : offenses ≠ 0) : ¬table.Clean addr := by
  intro clean
  obtain ⟨score, found, serves⟩ := serving
  have offences := serves.offences
  rw [clean score found] at offences
  exact positive (BitVec.eq_of_toNat_eq (Nat.le_zero.mp offences))

theorem Serving.later (serving : Serving bannedUntil offenses clock addr table)
    (passed : clock ≤ now) : Serving bannedUntil offenses now addr table := by
  obtain ⟨score, found, serves⟩ := serving
  exact ⟨score, found, serves.later passed⟩

theorem Serving.of_lookup (serving : Serving bannedUntil offenses now addr table)
    (kept : after.peerScores.lookup addr = table.peerScores.lookup addr) :
    Serving bannedUntil offenses now addr after := by
  obtain ⟨score, found, serves⟩ := serving
  exact ⟨score, kept.trans found, serves⟩

section

variable (serving : Serving bannedUntil offenses clock addr table) (positive : offenses ≠ 0)
  (passed : clock ≤ step.now) (spares : Spares maxPeers step table)

include serving positive passed spares

theorem Serving.apply : Serving bannedUntil offenses step.now addr (table.apply maxPeers step) := by
  have offender := serving.not_clean positive
  have current := serving.later passed
  obtain ⟨now, orders, event⟩ := step
  unfold PeerTable.apply perform
  cases event with
  | accept other => exact current.of_lookup (accept_spares offender spares.1 spares.2).1
  | connect other outcome => exact current.of_lookup (connectPeer_spares offender spares.1 spares.2)
  | receive other frame => exact current.recorded (recorded_receive frame rfl)
  | penalize other reason => exact current.recorded (recorded_penalize reason rfl)
  | evict =>
    dsimp only
    split
    · exact current
    · exact current.of_lookup (lookup_of_room offender spares)
  | disconnect other =>
    have distinct : addr ≠ other := by
      rintro rfl
      exact offender spares
    dsimp only
    unfold cleanupPeerStateOnError
    split
    · exact current
    · refine current.of_lookup ?_
      rw [leaveSubnet_eq]
      dsimp only [forget]
      rw [lookup_remove, if_neg distinct]
  | expireBans =>
    dsimp only
    unfold PeerTable.expireBans
    split
    · exact current
    · obtain ⟨score, found, serves⟩ := current
      refine ⟨score.expire now, ?_, serves.expire⟩
      rw [lookup_mapValues, found]
      rfl

/-- The address is kept out until its ban is over. -/
theorem Serving.not_admits (early : step.now < bannedUntil) : ¬Admits maxPeers step addr table := by
  rintro ⟨subject, admitted⟩
  have offender := serving.not_clean positive
  have current := serving.later passed
  obtain ⟨now, orders, event⟩ := step
  cases event with
  | accept other =>
    exact (accept_spares offender spares.1 spares.2).2 admitted (Option.some.inj subject)
  | connect other outcome => exact offender (Option.some.inj subject ▸ spares.1)
  | receive other frame =>
    cases subject
    obtain ⟨score, found, serves⟩ := current
    exact absurd ((recorded_receive frame (getD_of_lookup found)).free admitted)
      (by simp [serves.isBanned early])
  | penalize other reason | disconnect other | expireBans => cases admitted
  | evict => cases subject

end

theorem recorded_of_ban (maxPeers : Option ℕ) (banned : table.ban step = some (addr, duration))
    (read : table.peerScores.getD addr (default step.now) = score) :
    ∃ after, (table.apply maxPeers step).peerScores.lookup addr = some after ∧
      Changes step.now score after (some duration) := by
  have changed : ∀ {result}, Recorded step.now addr score table.peerScores result (some duration) →
      ∃ after, result.2.peerScores.lookup addr = some after ∧
        Changes step.now score after (some duration) := by
    rintro result ⟨⟨⟨⟩, -⟩ | ⟨after, scores, changes⟩, -⟩
    exact ⟨after, by rw [scores, if_pos rfl], changes⟩
  obtain ⟨now, orders, event⟩ := step
  cases event with
  | receive other frame =>
    obtain ⟨length, handled, same⟩ := Option.map_eq_some_iff.mp banned
    cases same
    have recorded := recorded_receive frame read
    rw [handled] at recorded
    exact changed recorded
  | penalize other reason =>
    dsimp only [PeerTable.ban] at banned
    split at banned
    · cases banned
    · next open_ =>
      obtain ⟨length, given, same⟩ := Option.map_eq_some_iff.mp banned
      cases same
      have recorded := recorded_penalize reason read
      rw [if_neg open_, ← read, given] at recorded
      exact changed (read ▸ recorded)
  | accept other | connect other outcome | evict | disconnect other | expireBans => cases banned

theorem Serving.ban_le (serving : Serving bannedUntil offenses clock addr table)
    (passed : clock ≤ step.now)
    (banned : table.ban step = some (addr, duration)) :
    banDurationForOffense offenses ≤ duration := by
  obtain ⟨score, found, serves⟩ := serving.later passed
  obtain ⟨after, -, changes⟩ := recorded_of_ban none banned (getD_of_lookup found)
  exact (changes.banned duration rfl).1 ▸ serves.nextBan_le

theorem Serving.run {later : Instant} (serving : Serving bannedUntil offenses clock addr table)
    (positive : offenses ≠ 0) (spares : ∀ entry ∈ visited (PeerTable.apply maxPeers) table steps,
      Spares maxPeers entry.2 entry.1)
    (ordered : steps.Pairwise fun first second => first.now ≤ second.now)
    (since : ∀ step ∈ steps, clock ≤ step.now)
    (before : ∀ step ∈ steps, step.now ≤ later) (passed : clock ≤ later) :
    ∃ last, last ≤ later ∧
      Serving bannedUntil offenses last addr (run (PeerTable.apply maxPeers) table steps) := by
  induction steps generalizing table clock with
  | nil => exact ⟨clock, passed, serving⟩
  | cons step rest ih =>
    obtain ⟨follows, ordered⟩ := pairwise_cons.mp ordered
    have once :=
      serving.apply positive (since step mem_cons_self) (spares (table, step) mem_cons_self)
    exact ih once (fun entry visited => spares entry (mem_cons_of_mem _ visited)) ordered follows
      (fun other listed => before other (mem_cons_of_mem _ listed)) (before step mem_cons_self)

/-- As long as records with offences are spared, bans are served. -/
theorem steps_bansServed (maxPeers : Option ℕ) (start : PeerTable) (steps : List PeerStep)
    (ordered : steps.Pairwise fun first second => first.now ≤ second.now)
    (spares : ∀ entry ∈ visited (apply maxPeers) start steps, Spares maxPeers entry.2 entry.1) :
    BansServed maxPeers start steps := by
  have reached : ∀ front step middle later back addr duration, steps =
      front ++ step :: (middle ++ later :: back) →
      (run (apply maxPeers) start front).ban step = some (addr, duration) →
        ∃ offenses last, offenses ≠ 0 ∧ duration = banDurationForOffense offenses ∧
          last ≤ later.now ∧
          Serving (step.now + duration) offenses last addr
            (run (apply maxPeers) start (front ++ step :: middle)) := by
    intro front step middle later back addr duration split banned
    obtain ⟨score, found, changes⟩ := recorded_of_ban maxPeers banned rfl
    obtain ⟨serves, length, positive⟩ := changes.serves
    rw [split] at ordered
    obtain ⟨follows, further⟩ := pairwise_cons.mp (pairwise_append.mp ordered).2.1
    obtain ⟨inOrder, -, ahead⟩ := pairwise_append.mp further
    have visits : ∀ entry ∈ visited (apply maxPeers)
        ((run (apply maxPeers) start front).apply maxPeers step) middle,
        Spares maxPeers entry.2 entry.1 := by
      intro entry found
      obtain ⟨early, late, rfl, same⟩ := exists_split_of_mem_visited found
      have whole : steps = (front ++ step :: early) ++ entry.2 :: (late ++ later :: back) := by
        rw [split]
        simp
      have listed := @mem_visited_of_split _ _ (apply maxPeers) start _ _ _ _ whole
      rw [run_append, run_cons, ← same] at listed
      exact spares _ listed
    have serving : Serving (step.now + duration) _ step.now addr _ := ⟨score, found, serves⟩
    obtain ⟨last, before, served⟩ := serving.run positive visits inOrder
      (fun other listed => follows other (mem_append_left _ listed))
      (fun other listed => ahead other listed later mem_cons_self)
      (follows later (mem_append_right _ mem_cons_self))
    refine ⟨_, last, positive, length, before, ?_⟩
    rw [run_append]
    exact served
  constructor
  · intro front step middle later back addr duration split banned early
    obtain ⟨offenses, last, positive, -, before, serving⟩ :=
      reached front step middle later back addr duration split banned
    have whole : steps = (front ++ step :: middle) ++ later :: back := by
      rw [split]
      simp
    exact serving.not_admits positive before (spares _ (mem_visited_of_split whole)) early
  · intro front step middle later back addr duration longer split banned again
    obtain ⟨offenses, last, -, length, before, serving⟩ :=
      reached front step middle later back addr duration split banned
    rw [length]
    exact serving.ban_le before again

end Runs

section Reconnected

def offender : SocketAddr where
  ip := .v4 0x0a000001
  port := 8080

/-- A peer connects and sends three invalid blocks, which is an offence. -/
def offences : List PeerStep :=
  [stepAt 0 (.accept offender), stepAt 1 (.penalize offender .invalidBlock),
    stepAt 1 (.penalize offender .invalidBlock)]

def lastOffence : PeerStep :=
  stepAt 1 (.penalize offender .invalidBlock)

/-- The peer sends messages during the ban and after it. -/
def messages : List PeerStep :=
  [stepAt 100 (.receive offender (.verified [] true)), stepAt 601 .expireBans,
    stepAt 700 (.receive offender (.verified [] true))]

theorem messages_bansServed :
    (run (apply none) new offences).ban lastOffence = some (offender, 600 * Instant.second) ∧
      BansServed none new (offences ++ lastOffence :: messages) := by
  refine ⟨by decide +kernel, steps_bansServed none new _ (by decide +kernel) ?_⟩
  intro entry visited
  simp only [offences, messages, cons_append, nil_append, visited_cons, visited_nil, mem_cons,
    not_mem_nil, or_false] at visited
  rcases visited with ⟨rfl, rfl⟩ | ⟨-, rfl⟩ | ⟨-, rfl⟩ | ⟨-, rfl⟩ | ⟨-, rfl⟩ | ⟨-, rfl⟩ | ⟨-, rfl⟩
  · exact ⟨.inr fun score found => by simp [new] at found, fun _ peer member => by
      simp [new] at member⟩
  all_goals trivial

/-- The peer closes the connection and connects again. -/
def reconnection : List PeerStep :=
  [stepAt 2 (.disconnect offender), stepAt 3 (.accept offender)]

theorem reconnection_not_bansServed :
    ((offences ++ lastOffence :: reconnection).Pairwise fun first second =>
      first.now ≤ second.now) ∧ ¬BansServed none new (offences ++ lastOffence :: reconnection) := by
  refine ⟨by decide +kernel, fun served => ?_⟩
  refine served.silent offences lastOffence [stepAt 2 (.disconnect offender)]
    (stepAt 3 (.accept offender)) [] offender
    (600 * Instant.second) rfl (by decide +kernel) (by decide +kernel) ⟨rfl, ?_⟩
  decide +kernel

end Reconnected

end PeerTable

end IronDag
