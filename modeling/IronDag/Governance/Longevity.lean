import IronDag.Lib.Run
import IronDag.Types
import Mathlib.Data.List.Dedup

/-! The longevity of a node: one snapshot a day, and the counters that are kept beside them. -/

namespace IronDag

open List

inductive ParticipationType where
  | blockMined (stream : StreamType) (blockHash : Hash)
  | zkProofSubmitted (proofHash : Hash)
  | consensusVote (voteHash : Hash)
  deriving DecidableEq, Repr

namespace ParticipationType

def proof : ParticipationType → Hash
  | blockMined _ hash | zkProofSubmitted hash | consensusVote hash => hash

def isBlock : ParticipationType → Bool
  | blockMined _ _ => true
  | _ => false

end ParticipationType

structure ActivitySnapshot where
  date : ℕ
  participated : Bool
  participationType : ParticipationType
  participationProof : Hash
  deriving DecidableEq, Repr

/-- The time is that of midnight. -/
def midnight (time : ℕ) : ℕ := time - time % 86400

structure NodeLongevity where
  activeDays : ℕ
  blocksMined : ℕ
  lastSeen : ℕ
  /-- The newest first. -/
  activitySnapshots : List ActivitySnapshot
  consecutiveOfflineDays : ℕ
  deriving DecidableEq, Repr

namespace NodeLongevity

def new (now : ℕ) : NodeLongevity where
  activeDays := 0
  blocksMined := 0
  lastSeen := now
  activitySnapshots := []
  consecutiveOfflineDays := 0

variable (now : ℕ) (node : NodeLongevity)

def recordedToday : Bool := node.activitySnapshots.head?.any fun last => last.date = midnight now

/-- Only the first participation of a day is counted, also where it is not a block. -/
def recordActivitySnapshot (participation : ParticipationType) : NodeLongevity :=
  let snapshot := ⟨midnight now, true, participation, participation.proof⟩
  if node.recordedToday now then
    { node with activitySnapshots := snapshot :: node.activitySnapshots.tail }
  else { node with
    activitySnapshots := snapshot :: node.activitySnapshots
    activeDays := node.activeDays + 1
    consecutiveOfflineDays := 0
    lastSeen := now
    blocksMined := if participation.isBlock then node.blocksMined + 1 else node.blocksMined }

def recordNoActivity : NodeLongevity :=
  if node.recordedToday now then node
  else { node with
    activitySnapshots := ⟨midnight now, false, .consensusVote 0, 0⟩ :: node.activitySnapshots
    consecutiveOfflineDays := node.consecutiveOfflineDays + 1
    activeDays := if 30 < node.consecutiveOfflineDays + 1 then 0 else node.activeDays }

end NodeLongevity

/-- A call at a time, without a participation for `record_no_activity`. -/
structure Activity where
  time : ℕ
  participation : Option ParticipationType

namespace Activity

def record (activity : Activity) (node : NodeLongevity) : NodeLongevity :=
  match activity.participation with
  | some participation => node.recordActivitySnapshot activity.time participation
  | none => node.recordNoActivity activity.time

variable (history : List Activity)

/-- The recorded days of a history, both with the latest first. -/
def days : List ℕ := (history.map fun activity => midnight activity.time).dedup

def participatedOn (day : ℕ) : Bool :=
  history.any fun activity => midnight activity.time = day && activity.participation.isSome

/-- Each recorded day, and whether there was a participation. -/
def daily : List (ℕ × Bool) := (days history).map fun day => (day, participatedOn history day)

/-- How many days in a row, up to the last one, had no participation. -/
def offline (marks : List Bool) : ℕ := (marks.takeWhile (!·)).length

/-- The days with a participation after the last one that ended more than thirty without. -/
def activeSinceReset : List Bool → ℕ
  | [] => 0
  | true :: older => activeSinceReset older + 1
  | false :: older => if 30 < offline (false :: older) then 0 else activeSinceReset older

/-- What the snapshots and the counters are meant to be. -/
structure Exact (node : NodeLongevity) : Prop where
  snapshots : node.activitySnapshots.map (fun snapshot => (snapshot.date, snapshot.participated)) =
    daily history
  activeDays : node.activeDays = activeSinceReset ((daily history).map Prod.snd)
  blocksMined : node.blocksMined = history.countP fun activity =>
    activity.participation.any ParticipationType.isBlock
  offlineDays : node.consecutiveOfflineDays = offline ((daily history).map Prod.snd)

/-- On a day that has its snapshot, only participations that are not blocks follow a
participation. -/
def Counted (node : NodeLongevity) (activity : Activity) : Prop :=
  ∀ participation ∈ activity.participation, ∀ last ∈ node.activitySnapshots.head?,
    last.date = midnight activity.time → last.participated = true ∧ participation.isBlock = false

variable {history} {activity : Activity} {node : NodeLongevity}

theorem mem_days : day ∈ days history ↔ ∃ activity ∈ history, midnight activity.time = day := by
  simp [days]

theorem midnight_mono (le : earlier ≤ later) : midnight earlier ≤ midnight later := by
  unfold midnight
  omega

/-- Under a clock that does not go back, the days are sorted. -/
theorem pairwise_days (clock : history.Pairwise fun later earlier => earlier.time ≤ later.time) :
    (days history).Pairwise (· > ·) := by
  induction history with
  | nil => exact .nil
  | cons activity older ih =>
    obtain ⟨latest, clock⟩ := pairwise_cons.mp clock
    by_cases again : midnight activity.time ∈ older.map fun earlier => midnight earlier.time
    · rw [days, map_cons, dedup_cons_of_mem again]
      exact ih clock
    · rw [days, map_cons, dedup_cons_of_notMem again]
      refine pairwise_cons.mpr ⟨fun day earlier => ?_, ih clock⟩
      obtain ⟨other, member, rfl⟩ := mem_days.mp earlier
      exact lt_of_le_of_ne (midnight_mono (latest other member)) fun same =>
        again (same ▸ mem_dedup.mp earlier)

/-- A day that has been recorded is that of the last snapshot. -/
theorem recordedToday_of_mem (exact : Exact history node)
    (clock : (activity :: history).Pairwise fun later earlier => earlier.time ≤ later.time)
    (member : midnight activity.time ∈ days history) : node.recordedToday activity.time = true := by
  obtain ⟨latest, earlier⟩ := pairwise_cons.mp clock
  have sorted := pairwise_days earlier
  have snapshots := exact.snapshots
  unfold daily at snapshots
  cases recorded : days history with
  | nil => simp [recorded] at member
  | cons day rest =>
    rw [recorded] at sorted snapshots member
    have same : midnight activity.time = day := by
      rcases mem_cons.mp member with same | older
      · exact same
      · obtain ⟨other, before, rfl⟩ := mem_days.mp (recorded ▸ mem_cons_self)
        exact absurd (midnight_mono (latest other before))
          (not_le.mpr ((pairwise_cons.mp sorted).1 _ older))
    obtain ⟨last, older, listed, pair, -⟩ := map_eq_cons_iff.mp snapshots
    simp [NodeLongevity.recordedToday, listed, same, (Prod.mk.inj pair).1]

theorem participatedOn_cons : participatedOn (activity :: history) day =
    (decide (midnight activity.time = day) && activity.participation.isSome ||
      participatedOn history day) := rfl

theorem daily_again (member : midnight activity.time ∈ days history)
    (marked : activity.participation.isSome = true →
      participatedOn history (midnight activity.time) = true) :
    daily (activity :: history) = daily history := by
  have sameDays : days (activity :: history) = days history :=
    dedup_cons_of_mem (mem_dedup.mp member)
  rw [daily, sameDays]
  refine map_congr_left fun day _ => ?_
  rw [participatedOn_cons]
  by_cases here : midnight activity.time = day
  · cases took : activity.participation.isSome with
    | false => simp
    | true => simp [← here, marked took]
  · simp [here]

theorem daily_first (new : midnight activity.time ∉ days history) :
    daily (activity :: history) =
      (midnight activity.time, activity.participation.isSome) :: daily history := by
  have nextDays : days (activity :: history) = midnight _ :: days history :=
    dedup_cons_of_notMem fun member => new (mem_dedup.mpr member)
  have none : participatedOn history (midnight activity.time) = false := by
    rw [participatedOn, any_eq_false]
    intro other member
    have apart : midnight _ ≠ midnight _ := fun same => new (mem_days.mpr ⟨other, member, same⟩)
    simp [apart]
  rw [daily, nextDays, map_cons, participatedOn_cons, none]
  refine congrArg₂ _ (by simp) (map_congr_left fun day member => ?_)
  have other : midnight _ ≠ day := fun same => new (same ▸ member)
  simp [participatedOn_cons, other]

/-- A later call of the day. -/
theorem Exact.again (exact : Exact history node) (counted : Counted node activity)
    (today : node.recordedToday activity.time = true) :
    Exact (activity :: history) (activity.record node) := by
  cases listed : node.activitySnapshots with
  | nil => simp [NodeLongevity.recordedToday, listed] at today
  | cons last older =>
    have date : last.date = midnight activity.time := by
      simpa [NodeLongevity.recordedToday, listed] using today
    have snapshots := exact.snapshots
    rw [listed, map_cons] at snapshots
    obtain ⟨day, member, pair⟩ := mem_map.mp (snapshots ▸ mem_cons_self)
    obtain ⟨rfl, mark⟩ := Prod.mk.inj pair
    rw [date] at member mark
    have same : daily (activity :: history) = daily history := by
      refine daily_again member fun took => ?_
      obtain ⟨participation, called⟩ := Option.isSome_iff_exists.mp took
      rw [mark, (counted _ called last (by simp [listed]) date).1]
    unfold record
    cases called : activity.participation with
    | some participation =>
      obtain ⟨took, notBlock⟩ := counted _ called last (by simp [listed]) date
      dsimp only
      rw [NodeLongevity.recordActivitySnapshot, if_pos today]
      refine ⟨?_, same ▸ exact.activeDays, by simp [called, notBlock, exact.blocksMined],
        same ▸ exact.offlineDays⟩
      rw [same, ← snapshots, listed, date, took]
      rfl
    | none =>
      rw [NodeLongevity.recordNoActivity, if_pos today]
      exact ⟨same ▸ exact.snapshots, same ▸ exact.activeDays, by simp [called, exact.blocksMined],
        same ▸ exact.offlineDays⟩

/-- The first call of a day. -/
theorem Exact.first (exact : Exact history node) (today : ¬node.recordedToday activity.time = true)
    (new : midnight activity.time ∉ days history) :
    Exact (activity :: history) (activity.record node) := by
  have next := daily_first new
  unfold record
  cases called : activity.participation with
  | some participation =>
    rw [called] at next
    dsimp only
    rw [NodeLongevity.recordActivitySnapshot, if_neg today]
    refine ⟨?_, ?_, ?_, ?_⟩
    · rw [next, ← exact.snapshots]
      rfl
    · rw [next, exact.activeDays]
      rfl
    · simp [called, exact.blocksMined, countP_cons]
      split <;> rfl
    · rw [next]
      rfl
  | none =>
    rw [called] at next
    rw [NodeLongevity.recordNoActivity, if_neg today]
    refine ⟨?_, ?_, by simp [called, exact.blocksMined], ?_⟩
    · rw [next, ← exact.snapshots]
      rfl
    · rw [next, exact.activeDays, exact.offlineDays]
      rfl
    · rw [next, exact.offlineDays]
      rfl

/-- A later call that should have counted leaves a counter behind. -/
theorem Exact.counted (before : Exact history node)
    (after : Exact (activity :: history) (activity.record node)) : Counted node activity := by
  intro participation called last newest date
  obtain ⟨older, listed⟩ := head?_eq_some_iff.mp newest
  have today : node.recordedToday activity.time = true := by
    simp [NodeLongevity.recordedToday, listed, date]
  have replaced : activity.record node =
      { node with
        activitySnapshots :=
          ⟨midnight activity.time, true, participation, participation.proof⟩ :: older } := by
    rw [record, Option.mem_def.mp called]
    dsimp only
    rw [NodeLongevity.recordActivitySnapshot, if_pos today, listed]
    rfl
  rw [replaced] at after
  constructor
  · by_contra idle
    have same := before.offlineDays.symm.trans after.offlineDays
    rw [← before.snapshots, ← after.snapshots, listed] at same
    simp [offline, Bool.eq_false_of_not_eq_true idle] at same
  · by_contra block
    have same := before.blocksMined.symm.trans after.blocksMined
    rw [countP_cons_of_pos (by simpa [Option.mem_def.mp called] using block)] at same
    omega

/-- The counters are exact all along a run exactly if no later call of a day is one that should have
counted. -/
theorem run_exact_iff (start : ℕ) (activities : List Activity)
    (clock : activities.Pairwise fun earlier later => earlier.time ≤ later.time) :
    (∀ front back, activities = front ++ back →
        Exact front.reverse (Run.run record (.new start) front)) ↔
      ∀ entry ∈ Run.visited record (.new start) activities, Counted entry.1 entry.2 := by
  constructor
  · intro exact entry visited
    obtain ⟨front, back, split, state⟩ := Run.exists_split_of_mem_visited visited
    have after := exact (front ++ [entry.2]) back (by simp [split])
    rw [reverse_concat, Run.run_append] at after
    exact state ▸ (exact front _ split).counted after
  · refine Run.invariant_of_prefixes (fun front node => Exact front.reverse node) Counted
      ⟨rfl, rfl, rfl, rfl⟩ ?_
    intro front activity back split counted exact
    rw [reverse_concat]
    by_cases today : (Run.run record (.new start) front).recordedToday activity.time = true
    · exact exact.again counted today
    · refine exact.first today fun member => today (recordedToday_of_mem exact ?_ member)
      rw [split, pairwise_append] at clock
      rw [← reverse_concat, pairwise_reverse, pairwise_append]
      exact ⟨clock.1, pairwise_singleton _ _, fun earlier before _ here => by
        rw [mem_singleton.mp here]
        exact clock.2.2 earlier before activity mem_cons_self⟩

/-- A vote, and a day without. -/
def voteAndSilence : List Activity := [⟨7, some (.consensusVote 1)⟩, ⟨86400, none⟩]

theorem voteAndSilence_exact :
    Exact voteAndSilence.reverse (Run.run record (.new 0) voteAndSilence) :=
  (run_exact_iff 0 voteAndSilence (by simp [voteAndSilence])).mpr
    (by simp [voteAndSilence, Counted, NodeLongevity.new]) _ [] (append_nil _).symm

/-- A block that is mined after a vote of the same day is not counted. -/
theorem laterBlock_uncounted : ¬∀ activities : List Activity,
    activities.Pairwise (fun earlier later => earlier.time ≤ later.time) →
      Exact activities.reverse (Run.run record (.new 0) activities) := by
  intro always
  have exact := always [⟨7, some (.consensusVote 1)⟩, ⟨8, some (.blockMined .streamA 2)⟩] (by simp)
  exact absurd exact.blocksMined (by decide)

end Activity

end IronDag
