import IronDag.Lib.Run
import IronDag.Lib.TableValues
import IronDag.Network.PeerScore

namespace IronDag

/-- Peers that must report a greater height. -/
def resyncQuorum : ℕ := 3

/-- The setting of the environment, never below two. -/
def getResyncQuorum (setting : Option ℕ) : ℕ :=
  (setting.map fun value => max value 2).getD resyncQuorum

def resyncCooldownSecs : U64 := 1800

/-- What a process remembers between two reports. -/
structure ResyncState where
  lastResyncTime : U64
  peerHeightAttestations : Table IpAddr U64

def ResyncState.initial : ResyncState where
  lastResyncTime := 0
  peerHeightAttestations := ∅

/-- The height that a peer reports, with our own height and clock at that time. -/
structure HeightReport where
  peerIp : IpAddr
  peerHeight : U64
  localHeight : U64
  /-- Seconds of the system clock. -/
  now : U64
  deriving DecidableEq, Repr

/-- Peers noted down with a height above a threshold. -/
def agreeingPeers (attestations : Table IpAddr U64) (threshold : U64) : ℕ :=
  attestations.values.countP fun height => threshold < height

/-- Whether the chain is to be cleared. A build with overflow checks may panic. -/
def shouldTriggerResync (overflowChecks : Bool) (quorum : ℕ) (report : HeightReport)
    (state : ResyncState) : Option (Bool × ResyncState) := do
  let elapsed ← Word.subIn overflowChecks report.now state.lastResyncTime
  if elapsed < resyncCooldownSecs then
    return (false, state)
  let threshold ← Word.addIn overflowChecks report.localHeight 50
  if report.peerHeight ≤ threshold ∨ report.localHeight = 0 then
    return (false, state)
  let attestations := state.peerHeightAttestations.insert report.peerIp report.peerHeight
  if quorum ≤ agreeingPeers attestations threshold then
    return (true, { lastResyncTime := report.now, peerHeightAttestations := ∅ })
  else
    return (false, { state with peerHeightAttestations := attestations })

namespace ResyncState

section Steps

variable (overflowChecks : Bool) (quorum : ℕ)

/-- The state after a report. A panic comes ahead of all writes. -/
def receive (report : HeightReport) (state : ResyncState) : ResyncState :=
  ((shouldTriggerResync overflowChecks quorum report state).map Prod.snd).getD state

/-- After the reports before it, this one has the chain cleared. -/
def TriggersAt (front : List HeightReport) (report : HeightReport) : Prop :=
  (shouldTriggerResync overflowChecks quorum report
    (Run.run (receive overflowChecks quorum) initial front)).map Prod.fst = some true

instance (front : List HeightReport) (report : HeightReport) :
    Decidable (TriggersAt overflowChecks quorum front report) :=
  inferInstanceAs (Decidable (_ = _))

end Steps

def latestReport (history : List HeightReport) (peerIp : IpAddr) : Option HeightReport :=
  history.reverse.find? fun report => report.peerIp = peerIp

/-- The peers whose most recent report is more than 50 above a height. -/
def supporters (history : List HeightReport) (localHeight : U64) : Finset IpAddr :=
  (history.map HeightReport.peerIp).toFinset.filter fun peerIp =>
    (latestReport history peerIp).any fun report =>
      decide (localHeight.toNat + 50 < report.peerHeight.toNat)

/-- A report is answered, and where it has the chain cleared, enough peers stand by it and the last
time was half an hour ago. -/
structure CurrentQuorum (overflowChecks : Bool) (quorum : ℕ) (front : List HeightReport)
    (report : HeightReport) : Prop where
  answered : (shouldTriggerResync overflowChecks quorum report
    (Run.run (receive overflowChecks quorum) initial front)).isSome
  supported : TriggersAt overflowChecks quorum front report →
    quorum ≤ (supporters (front ++ [report]) report.localHeight).card
  rested : TriggersAt overflowChecks quorum front report → ∀ before earlier between,
    front = before ++ earlier :: between → TriggersAt overflowChecks quorum before earlier →
    (∀ early other late, between = early ++ other :: late →
      ¬TriggersAt overflowChecks quorum (before ++ earlier :: early) other) →
    earlier.now.toNat + 1800 ≤ report.now.toNat

/-- The report is noted down. -/
structure Counts (state : ResyncState) (report : HeightReport) : Prop where
  rested : state.lastResyncTime.toNat + 1800 ≤ report.now.toNat
  ahead : report.localHeight.toNat + 50 < report.peerHeight.toNat
  begun : report.localHeight ≠ 0

/-- The clock has not gone back behind the last time, our height is far from the largest number, and
a report that does not count is no lower than what its peer is noted down with. -/
structure Orderly (state : ResyncState) (report : HeightReport) : Prop where
  clock : state.lastResyncTime ≤ report.now
  range : report.localHeight.toNat + 50 < 2 ^ 64
  upheld : Counts state report ∨ ∀ height,
    state.peerHeightAttestations.lookup report.peerIp = some height → height ≤ report.peerHeight

variable {overflowChecks : Bool} {quorum : ℕ} {state : ResyncState} {report : HeightReport}

theorem toNat_localHeight_add (range : report.localHeight.toNat + 50 < 2 ^ 64) :
    (report.localHeight + 50).toNat = report.localHeight.toNat + 50 :=
  BitVec.toNat_add_of_lt range

theorem receive_of_answer
    (done : shouldTriggerResync overflowChecks quorum report state = some (triggered, after)) :
    receive overflowChecks quorum report state = after := by
  rw [receive, done]
  rfl

/-- All that an orderly report can do. -/
theorem Orderly.shouldTriggerResync_cases (orderly : Orderly state report) :
    (¬Counts state report ∧
      shouldTriggerResync overflowChecks quorum report state = some (false, state)) ∨
    (Counts state report ∧
      ((¬quorum ≤ agreeingPeers
        (state.peerHeightAttestations.insert report.peerIp report.peerHeight)
          (report.localHeight + 50) ∧
        shouldTriggerResync overflowChecks quorum report state = some (false, { state with
          peerHeightAttestations :=
            state.peerHeightAttestations.insert report.peerIp report.peerHeight })) ∨
      (quorum ≤ agreeingPeers (state.peerHeightAttestations.insert report.peerIp report.peerHeight)
          (report.localHeight + 50) ∧
        shouldTriggerResync overflowChecks quorum report state =
          some (true, { lastResyncTime := report.now, peerHeightAttestations := ∅ })))) := by
  have elapsed : (report.now - state.lastResyncTime).toNat =
      report.now.toNat - state.lastResyncTime.toNat :=
    BitVec.toNat_sub_of_le orderly.clock
  have threshold := toNat_localHeight_add orderly.range
  have limit : resyncCooldownSecs.toNat = 1800 := rfl
  unfold shouldTriggerResync
  rw [Word.subIn_of_le orderly.clock, Word.addIn_of_lt orderly.range]
  simp only [Option.bind_eq_bind, Option.bind_some]
  by_cases early : report.now - state.lastResyncTime < resyncCooldownSecs
  · rw [if_pos early]
    rw [BitVec.lt_def] at early
    exact .inl ⟨fun counts => by have := counts.rested; omega, rfl⟩
  · rw [if_neg early]
    rw [BitVec.lt_def] at early
    by_cases near : report.peerHeight ≤ report.localHeight + 50 ∨ report.localHeight = 0
    · rw [if_pos near]
      refine .inl ⟨fun counts => ?_, rfl⟩
      rcases near with low | genesis
      · have := counts.ahead
        rw [BitVec.le_def] at low
        omega
      · exact counts.begun genesis
    · rw [if_neg near]
      obtain ⟨high, begun⟩ := not_or.mp near
      rw [BitVec.le_def] at high
      refine .inr ⟨⟨by omega, by omega, begun⟩, ?_⟩
      split
      · next enough => exact .inr ⟨enough, rfl⟩
      · next few => exact .inl ⟨few, rfl⟩

theorem latestReport_append {peerIp : IpAddr} : latestReport (front ++ [report]) peerIp =
      if report.peerIp = peerIp then some report else latestReport front peerIp := by
  unfold latestReport
  by_cases same : report.peerIp = peerIp <;> simp [same]

theorem mem_supporters :
    peerIp ∈ supporters history localHeight ↔ ∃ report, latestReport history peerIp = some report ∧
      localHeight.toNat + 50 < report.peerHeight.toNat := by
  unfold supporters
  rw [Finset.mem_filter, Option.any_eq_true]
  simp only [decide_eq_true_eq]
  refine and_iff_right_of_imp ?_
  rintro ⟨report, found, -⟩
  have member := List.mem_of_find?_eq_some found
  have same : report.peerIp = peerIp := by simpa using List.find?_some found
  rw [List.mem_toFinset, List.mem_map]
  exact ⟨report, List.mem_reverse.mp member, same⟩

/-- Every note is backed by the most recent report of its peer. -/
def Backed (history : List HeightReport) (state : ResyncState) : Prop :=
  ∀ peerIp height, state.peerHeightAttestations.lookup peerIp = some height →
    ∃ report, latestReport history peerIp = some report ∧ height ≤ report.peerHeight

/-- The time is that of the report by which the chain was cleared last. -/
def Timed (overflowChecks : Bool) (quorum : ℕ) (history : List HeightReport) (state : ResyncState) :
    Prop :=
  ∀ before earlier between, history = before ++ earlier :: between →
    TriggersAt overflowChecks quorum before earlier →
    (∀ early other late, between = early ++ other :: late →
      ¬TriggersAt overflowChecks quorum (before ++ earlier :: early) other) →
    state.lastResyncTime = earlier.now

theorem Backed.note (backed : Backed front state) : Backed (front ++ [report])
      { state with peerHeightAttestations :=
        state.peerHeightAttestations.insert report.peerIp report.peerHeight } := by
  intro peerIp height noted
  rw [Table.lookup_write] at noted
  rw [latestReport_append]
  by_cases same : peerIp = report.peerIp
  · rw [if_pos same] at noted
    rw [if_pos same.symm]
    exact ⟨report, rfl, by rw [Option.some.inj noted]; exact BitVec.le_refl _⟩
  · rw [if_neg same] at noted
    rw [if_neg (Ne.symm same)]
    exact backed peerIp height noted

theorem Backed.receive (backed : Backed front state) (orderly : Orderly state report) :
    Backed (front ++ [report]) (receive overflowChecks quorum report state) := by
  rcases @orderly.shouldTriggerResync_cases overflowChecks quorum with
    ⟨ignored, done⟩ | ⟨-, ⟨-, done⟩ | ⟨-, done⟩⟩
  · rw [receive_of_answer done]
    intro peerIp height noted
    rw [latestReport_append]
    split
    · next same => exact ⟨report, rfl, orderly.upheld.resolve_left ignored height (same ▸ noted)⟩
    · exact backed peerIp height noted
  · rw [receive_of_answer done]
    exact backed.note
  · rw [receive_of_answer done]
    intro peerIp height noted
    simp at noted

theorem Backed.agreeingPeers_le (backed : Backed front state)
    (range : report.localHeight.toNat + 50 < 2 ^ 64) :
    agreeingPeers state.peerHeightAttestations (report.localHeight + 50) ≤
      (supporters front report.localHeight).card := by
  apply Table.countP_values_le
  intro peerIp height noted above
  obtain ⟨latest, found, upheld⟩ := backed peerIp height noted
  rw [BitVec.lt_def, toNat_localHeight_add range] at above
  exact mem_supporters.mpr ⟨latest, found, above.trans_le (BitVec.le_def.mp upheld)⟩

section

variable (orderly : Orderly (Run.run (receive overflowChecks quorum) initial front) report)

include orderly

/-- The report that comes last is the one that cleared the chain last, or it did not clear it. -/
theorem Timed.receive
    (timed : Timed overflowChecks quorum front
      (Run.run (receive overflowChecks quorum) initial front)) :
    Timed overflowChecks quorum (front ++ [report])
      (ResyncState.receive overflowChecks quorum report
        (Run.run (ResyncState.receive overflowChecks quorum) initial front)) := by
  intro before earlier between split triggered quiet
  rcases List.eq_nil_or_concat between with rfl | ⟨others, last, rfl⟩
  · obtain ⟨rfl, same⟩ := List.append_inj' split rfl
    cases same
    unfold TriggersAt at triggered
    rcases @orderly.shouldTriggerResync_cases overflowChecks quorum with
      ⟨-, done⟩ | ⟨-, ⟨-, done⟩ | ⟨-, done⟩⟩
    · simp [done] at triggered
    · simp [done] at triggered
    · rw [receive_of_answer done]
  · have shape : front ++ [report] = (before ++ earlier :: others) ++ [last] := by simpa using split
    obtain ⟨rfl, same⟩ := List.append_inj' shape rfl
    cases same
    have silent : ¬TriggersAt overflowChecks quorum (before ++ earlier :: others) report :=
      quiet others report [] (by simp)
    have time := timed before earlier others rfl triggered fun early other late between =>
      quiet early other (late ++ [report]) (by simp [between])
    rw [← time]
    unfold TriggersAt at silent
    rcases @orderly.shouldTriggerResync_cases overflowChecks quorum with
      ⟨-, done⟩ | ⟨-, ⟨-, done⟩ | ⟨-, done⟩⟩
    · rw [receive_of_answer done]
    · rw [receive_of_answer done]
    · exact absurd (by rw [done]; rfl) silent

/-- An orderly report after orderly ones is answered by a current quorum. -/
theorem currentQuorum_of_backed
    (backed : Backed front (Run.run (receive overflowChecks quorum) initial front))
    (timed : Timed overflowChecks quorum front
      (Run.run (receive overflowChecks quorum) initial front)) :
    CurrentQuorum overflowChecks quorum front report := by
  rcases @orderly.shouldTriggerResync_cases overflowChecks quorum with
    ⟨-, done⟩ | ⟨counts, ⟨-, done⟩ | ⟨enough, done⟩⟩
  · have silent : ¬TriggersAt overflowChecks quorum front report := by simp [TriggersAt, done]
    exact ⟨by rw [done]; rfl, fun triggered => absurd triggered silent,
      fun triggered => absurd triggered silent⟩
  · have silent : ¬TriggersAt overflowChecks quorum front report := by simp [TriggersAt, done]
    exact ⟨by rw [done]; rfl, fun triggered => absurd triggered silent,
      fun triggered => absurd triggered silent⟩
  · refine ⟨by rw [done]; rfl, fun _ => ?_,
      fun _ before earlier between split triggered quiet => ?_⟩
    · exact enough.trans (backed.note.agreeingPeers_le orderly.range)
    · rw [← timed before earlier between split triggered quiet]
      exact counts.rested

end

/-- As long as all reports are orderly, the chain is cleared on a current quorum only. -/
theorem reports_currentQuorum (overflowChecks : Bool) (setting : Option ℕ)
    (reports : List HeightReport)
    (orderly : ∀ entry ∈ Run.visited (receive overflowChecks (getResyncQuorum setting))
      initial reports, Orderly entry.1 entry.2) :
    ∀ front report back, reports = front ++ report :: back →
      CurrentQuorum overflowChecks (getResyncQuorum setting) front report := by
  intro front report back split
  obtain ⟨backed, timed⟩ := Run.invariant_of_prefixes
    (fun front state => Backed front state ∧
      Timed overflowChecks (getResyncQuorum setting) front state)
    Orderly
    ⟨fun peerIp height noted => by simp [initial] at noted,
      fun before earlier between none => by simp at none⟩
    (fun front report back _ orderly ⟨backed, timed⟩ =>
      ⟨backed.receive orderly, timed.receive orderly⟩)
    orderly front (report :: back) split
  exact currentQuorum_of_backed (orderly _ (Run.mem_visited_of_split split)) backed timed

def reportOf (peer : ℕ) (peerHeight : U64) (now : U64) : HeightReport where
  peerIp := .v4 (BitVec.ofNat 32 peer)
  peerHeight
  localHeight := 100
  now

/-- Three peers report a greater height, each once. -/
def steadyReports : List HeightReport :=
  [reportOf 1 1000 2000, reportOf 2 1000 2001, reportOf 3 1000 2002]

theorem steadyReports_currentQuorum : TriggersAt true 3 (steadyReports.take 2)
    (reportOf 3 1000 2002) ∧
      CurrentQuorum true 3 (steadyReports.take 2) (reportOf 3 1000 2002) := by
  refine ⟨by decide +kernel, reports_currentQuorum true none steadyReports ?_ _ _ [] rfl⟩
  intro entry visited
  simp only [steadyReports, Run.visited_cons, Run.visited_nil, List.mem_cons,
    List.not_mem_nil, or_false] at visited
  rcases visited with ⟨rfl, rfl⟩ | ⟨rfl, rfl⟩ | ⟨rfl, rfl⟩ <;>
    exact ⟨by decide +kernel,
      by decide +kernel, .inl ⟨by decide +kernel, by decide +kernel, by decide +kernel⟩⟩

/-- The first peer has come back to our height, but its first report is what counts. -/
def withdrawnReports : List HeightReport :=
  [reportOf 1 1000 2000, reportOf 1 120 2001, reportOf 2 1000 2002]

theorem withdrawnReports_not_currentQuorum :
    ¬CurrentQuorum false (getResyncQuorum none) withdrawnReports (reportOf 3 1000 2003) := by
  intro current
  have triggered :
      TriggersAt false (getResyncQuorum none) withdrawnReports (reportOf 3 1000 2003) := by
    decide +kernel
  have few : ¬getResyncQuorum none ≤
      (supporters (withdrawnReports ++ [reportOf 3 1000 2003]) 100).card := by
    decide +kernel
  exact few (current.supported triggered)

end ResyncState

end IronDag
