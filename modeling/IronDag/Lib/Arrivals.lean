import IronDag.Lib.Run
import Mathlib.Data.List.Nodup

/-! Items that name others they need, taken in as they arrive. -/

universe u v w

namespace Arrivals

open List

/-- What the arrivals have come to, with the items taken in listed in that order. -/
structure Progress (α : Type u) where
  taken : List α
  waiting : List α
  lost : List α

namespace Progress

variable {α : Type u} (progress : Progress α)

def empty : Progress α where
  taken := []
  waiting := []
  lost := []

/-- Everything that has arrived. -/
def all : List α :=
  progress.taken ++ progress.waiting ++ progress.lost

end Progress

variable {α : Type u} {κ : Type v} (key : α → κ) (needs : α → List κ) (present : κ → Prop)

/-- All that the item needs is there from the start or was taken in. -/
def Ready (taken : List α) (item : α) : Prop :=
  ∀ need ∈ needs item, present need ∨ need ∈ taken.map key

/-- Each item is ready when its turn comes. -/
def InOrder : List α → List α → Prop
  | _, [] => True
  | taken, item :: rest => Ready key needs present taken item ∧ InOrder (taken ++ [item]) rest

/-- Nothing is lost, and everything was taken in after its needs. -/
structure Sound (taken lost : List α) : Prop where
  inOrder : InOrder key needs present [] taken
  kept : lost = []

/-- A pass over waiting items. It may break off, and it loses an item only where the order is
broken. -/
inductive Pass : List α → List α → List α → Progress α → Prop where
  | done (taken lost : List α) : Pass [] taken lost ⟨taken, [], lost⟩
  | take {item : α} {rest taken lost : List α} {after : Progress α}
      (next : Pass rest (taken ++ [item]) lost after) : Pass (item :: rest) taken lost after
  | lose {item : α} {rest taken lost : List α} {after : Progress α}
      (broken : ¬(Sound key needs present taken lost ∧ Ready key needs present taken item))
      (next : Pass rest taken (lost ++ [item]) after) : Pass (item :: rest) taken lost after
  | halt {item : α} {rest taken lost : List α}
      (broken : ¬(Sound key needs present taken lost ∧ Ready key needs present taken item)) :
      Pass (item :: rest) taken lost ⟨taken, rest, lost ++ [item]⟩

/-- An item arrives, and if it is taken in the waiting ones are gone through in some order. -/
inductive Arrive (item : α) (order : List α) (before : Progress α) : Progress α → Prop where
  | wait (unmet : ¬Ready key needs present before.taken item) :
      Arrive item order before { before with waiting := item :: before.waiting }
  | take {after : Progress α} (met : Ready key needs present before.taken item)
      (all : order.Perm before.waiting)
      (pass : Pass key needs present order (before.taken ++ [item]) before.lost after) :
        Arrive item order before after
  | lose (met : Ready key needs present before.taken item)
      (broken : ¬Sound key needs present before.taken before.lost) :
      Arrive item order before { before with lost := before.lost ++ [item] }

variable {key needs present}

theorem inOrder_append : InOrder key needs present taken (front ++ back) ↔
      InOrder key needs present taken front ∧ InOrder key needs present (taken ++ front) back := by
  induction front generalizing taken with
  | nil => simp [InOrder]
  | cons item rest ih => simp [InOrder, ih, and_assoc]

/-- Each item of the order was ready on top of those before it. -/
theorem inOrder_iff_split : InOrder key needs present taken items ↔
      ∀ front item back, items = front ++ item :: back →
        Ready key needs present (taken ++ front) item := by
  constructor
  · rintro ordered front item back rfl
    exact (inOrder_append.mp ordered).2.1
  · intro ready
    induction items generalizing taken with
    | nil => trivial
    | cons item rest ih =>
      refine ⟨by simpa using ready [] item rest rfl, ih fun front next back split => ?_⟩
      simpa using ready (item :: front) next back (by rw [split]; rfl)

section Pass

variable {order taken lost : List α} {after : Progress α}
  (pass : Pass key needs present order taken lost after)

include pass

theorem Pass.taken_grows : taken <+: after.taken := by
  induction pass with
  | done => exact prefix_rfl
  | take next ih => exact (prefix_append _ _).trans ih
  | lose broken next ih => exact ih
  | halt broken => exact prefix_rfl

theorem Pass.lost_grows : lost <+: after.lost := by
  induction pass with
  | done => exact prefix_rfl
  | take next ih => exact ih
  | lose broken next ih => exact (prefix_append _ _).trans ih
  | halt broken => exact prefix_append _ _

/-- Every item of the pass is somewhere afterwards. -/
theorem Pass.accounts : after.all.Perm (taken ++ order ++ lost) := by
  induction pass with
  | done => exact Perm.refl _
  | take next ih => simpa using ih
  | @lose item rest taken lost after broken next ih =>
    refine ih.trans ?_
    simp only [append_assoc]
    refine Perm.append_left taken ?_
    simpa using perm_append_singleton item (rest ++ lost)
  | @halt item rest taken lost broken =>
    simp only [Progress.all, append_assoc]
    refine Perm.append_left taken ?_
    simpa using perm_append_singleton item (rest ++ lost)

theorem Pass.of_kept (kept : after.lost = []) : after = ⟨taken ++ order, [], []⟩ := by
  induction pass with
  | done taken lost =>
    dsimp only at kept
    simp [kept]
  | take next ih => simpa using ih kept
  | lose broken next ih =>
    have grows := next.lost_grows
    rw [kept] at grows
    simp at grows
  | halt broken => simp at kept

/-- A pass by needs, over what was in order before, loses nothing. -/
theorem Pass.of_inOrder (sound : Sound key needs present taken lost)
    (ordered : InOrder key needs present taken order) : after = ⟨taken ++ order, [], []⟩ := by
  induction pass with
  | done taken lost => simp [sound.kept]
  | @take item rest taken lost after next ih =>
    have longer : Sound key needs present (taken ++ [item]) lost :=
      ⟨inOrder_append.mpr ⟨sound.inOrder, by simpa [InOrder] using ordered.1⟩, sound.kept⟩
    simpa using ih longer ordered.2
  | lose broken next ih | halt broken => exact absurd ⟨sound, ordered.1⟩ broken

theorem Pass.sound_iff (sound : Sound key needs present taken lost) :
    Sound key needs present after.taken after.lost ↔ InOrder key needs present taken order := by
  constructor
  · intro kept
    have same := pass.of_kept kept.kept
    have ordered := kept.inOrder
    rw [same] at ordered
    simpa using (inOrder_append.mp ordered).2
  · intro ordered
    rw [pass.of_inOrder sound ordered]
    exact ⟨inOrder_append.mpr ⟨sound.inOrder, by simpa using ordered⟩, rfl⟩

end Pass

section Arrive

variable {item : α} {order : List α} {before after : Progress α}
  (arrived : Arrive key needs present item order before after)

include arrived

theorem Arrive.taken_grows : before.taken <+: after.taken := by
  cases arrived with
  | wait unmet => exact prefix_rfl
  | take met all pass => exact (prefix_append _ _).trans pass.taken_grows
  | lose met broken => exact prefix_rfl

theorem Arrive.lost_grows : before.lost <+: after.lost := by
  cases arrived with
  | wait unmet => exact prefix_rfl
  | take met all pass => exact pass.lost_grows
  | lose met broken => exact prefix_append _ _

theorem Arrive.accounts : after.all.Perm (item :: before.all) := by
  cases arrived with
  | wait unmet =>
    simp only [Progress.all, append_assoc]
    exact perm_middle
  | take met all pass =>
    refine pass.accounts.trans ?_
    simp only [Progress.all, append_assoc]
    refine perm_middle.trans (Perm.cons item ?_)
    exact Perm.append_left _ (Perm.append_right _ all)
  | lose met broken =>
    simp only [Progress.all]
    rw [← append_assoc]
    exact perm_append_singleton item _

/-- What was sound stays so exactly if the pass, where there is one, goes by needs. -/
theorem Arrive.sound_iff (sound : Sound key needs present before.taken before.lost) :
    Sound key needs present after.taken after.lost ↔
      (Ready key needs present before.taken item →
        InOrder key needs present (before.taken ++ [item]) order) := by
  cases arrived with
  | wait unmet => exact iff_of_true sound fun met => absurd met unmet
  | take met all pass =>
    have longer : Sound key needs present (before.taken ++ [item]) before.lost :=
      ⟨inOrder_append.mpr ⟨sound.inOrder, by simpa [InOrder] using met⟩, sound.kept⟩
    rw [pass.sound_iff longer]
    exact ⟨fun ordered _ => ordered, fun ordered => ordered met⟩
  | lose met broken => exact absurd sound broken

/-- After an arrival that lost nothing, items wait exactly if the one that arrived does. -/
theorem Arrive.waiting_iff (kept : after.lost = []) :
    after.waiting = [] ↔ Ready key needs present before.taken item := by
  cases arrived with
  | wait unmet => exact iff_of_false (cons_ne_nil _ _) unmet
  | take met all pass => exact iff_of_true (by rw [pass.of_kept kept]) met
  | lose met broken => simp at kept

end Arrive

section History

variable {σ : Type w} {ι : Type w} {step : ι → σ → σ} {item : ι → α} {order : σ → ι → List α}
  {expected : ι → Prop}
  {Shows : σ → Progress α → Prop} {ReadyAt OrderlyAt : σ → ι → Prop}
  (readyAt_iff : ∀ state progress input, Shows state progress →
    (ReadyAt state input ↔ Ready key needs present progress.taken (item input)))
  (orderlyAt_iff : ∀ state progress input, Shows state progress →
    (OrderlyAt state input ↔
      InOrder key needs present (progress.taken ++ [item input]) (order state input)))
  (simulates : ∀ state progress input, expected input → Shows state progress →
    (item input :: progress.all).Nodup →
    ∃ after, Arrive key needs present (item input) (order state input) progress after ∧
      Shows (step input state) after)

/-- The last item to arrive is ready when it does. -/
def LastReady (step : ι → σ → σ) (ReadyAt : σ → ι → Prop) (start : σ) (inputs : List ι) : Prop :=
  ∀ front last, inputs = front ++ [last] → ReadyAt (Run.run step start front) last

theorem lastReady_cons (more : inputs ≠ []) :
    LastReady step ReadyAt start (input :: inputs) ↔
      LastReady step ReadyAt (step input start) inputs := by
  constructor
  · rintro ready front last rfl
    exact ready (input :: front) last rfl
  · intro ready front last split
    cases front with
    | nil =>
      cases split
      exact absurd rfl more
    | cons first front =>
      obtain ⟨rfl, rest⟩ := cons.inj split
      exact ready front last rest

theorem lastReady_singleton : LastReady step ReadyAt start [input] ↔ ReadyAt start input := by
  constructor
  · exact fun ready => ready [] input rfl
  · intro ready front last split
    cases front with
    | nil =>
      cases split
      exact ready
    | cons first front => simp at split

/-- What a system that takes in items has come to after some inputs. -/
structure Outcome (key : α → κ) (needs : α → List κ) (present : κ → Prop) (step : ι → σ → σ)
    (item : ι → α)
    (ReadyAt OrderlyAt : σ → ι → Prop) (start : σ) (inputs : List ι) (before final : Progress α) :
    Prop where
  lost_grows : before.lost <+: final.lost
  taken_grows : before.taken <+: final.taken
  accounts : final.all.Perm (inputs.map item ++ before.all)
  sound_iff : Sound key needs present before.taken before.lost →
    (Sound key needs present final.taken final.lost ↔
    ∀ entry ∈ Run.visited step start inputs, ReadyAt entry.1 entry.2 → OrderlyAt entry.1 entry.2)
  idle : inputs = [] → final = before
  waiting_iff : inputs ≠ [] → final.lost = [] →
    (final.waiting = [] ↔ LastReady step ReadyAt start inputs)

include readyAt_iff orderlyAt_iff simulates

theorem exists_outcome (wanted : ∀ input ∈ inputs, expected input)
    (shown : Shows start before) (distinct : (inputs.map item ++ before.all).Nodup) :
    ∃ final, Shows (Run.run step start inputs) final ∧
      Outcome key needs present step item ReadyAt OrderlyAt start inputs before final := by
  induction inputs generalizing start before with
  | nil =>
    refine ⟨before, shown, prefix_rfl, prefix_rfl, Perm.refl _, fun sound => ?_, fun _ => rfl,
      fun none => absurd rfl none⟩
    exact iff_of_true sound fun entry visited => by cases visited
  | cons input rest ih =>
    have fresh : (item input :: before.all).Nodup :=
      distinct.sublist (Sublist.cons_cons _ (sublist_append_right _ _))
    obtain ⟨middle, arrived, shownMiddle⟩ :=
      simulates _ _ input (wanted input mem_cons_self) shown fresh
    have regrouped :
        (rest.map item ++ middle.all).Perm (item input :: rest.map item ++ before.all) :=
      (Perm.append_left _ arrived.accounts).trans perm_middle
    obtain ⟨final, shownFinal, outcome⟩ := ih
      (fun later member => wanted later (mem_cons_of_mem _ member))
      shownMiddle (regrouped.nodup_iff.mpr distinct)
    refine ⟨final, shownFinal, arrived.lost_grows.trans outcome.lost_grows,
      arrived.taken_grows.trans outcome.taken_grows, outcome.accounts.trans regrouped,
      fun sound => ?_, fun none => absurd none (cons_ne_nil _ _), fun _ kept => ?_⟩
    · rw [Run.visited_cons, forall_mem_cons]
      have first := arrived.sound_iff sound
      rw [← readyAt_iff _ _ input shown, ← orderlyAt_iff _ _ input shown] at first
      constructor
      · intro soundFinal
        -- what ends sound has been so in between
        have soundMiddle : Sound key needs present middle.taken middle.lost := by
          refine ⟨?_, prefix_nil.mp (soundFinal.kept ▸ outcome.lost_grows)⟩
          obtain ⟨more, same⟩ := outcome.taken_grows
          have ordered := soundFinal.inOrder
          rw [← same] at ordered
          exact (inOrder_append.mp ordered).1
        exact ⟨first.mp soundMiddle, (outcome.sound_iff soundMiddle).mp soundFinal⟩
      · rintro ⟨orderly, later⟩
        exact (outcome.sound_iff (first.mpr orderly)).mpr later
    · by_cases last : rest = []
      · subst last
        obtain rfl := outcome.idle rfl
        rw [arrived.waiting_iff kept, lastReady_singleton, readyAt_iff _ _ input shown]
      · rw [lastReady_cons last]
        exact outcome.waiting_iff last kept

/-- Everything is taken in after its needs exactly if every pass goes by needs and the last item
need not wait. -/
theorem settled_iff {start : σ} {inputs : List ι} (wanted : ∀ input ∈ inputs, expected input)
    (shown : Shows start Progress.empty) (distinct : (inputs.map item).Nodup) :
    ∃ final, Shows (Run.run step start inputs) final ∧
      (((∀ input ∈ inputs, item input ∈ final.taken) ∧ final.waiting = [] ∧
        InOrder key needs present [] final.taken) ↔
        (∀ entry ∈ Run.visited step start inputs, ReadyAt entry.1 entry.2 →
          OrderlyAt entry.1 entry.2) ∧ LastReady step ReadyAt start inputs) := by
  have reached : ∃ final, Shows (Run.run step start inputs) final ∧
      Outcome key needs present step item ReadyAt OrderlyAt start inputs Progress.empty final :=
    exists_outcome readyAt_iff orderlyAt_iff simulates wanted shown
      (by simpa [Progress.empty, Progress.all] using distinct)
  obtain ⟨final, shownFinal, outcome⟩ := reached
  have accounts : final.all.Perm (inputs.map item) := by
    simpa [Progress.empty, Progress.all] using outcome.accounts
  have startSound : Sound key needs present (Progress.empty (α := α)).taken Progress.empty.lost :=
    ⟨trivial, rfl⟩
  have waits : final.lost = [] → (final.waiting = [] ↔ LastReady step ReadyAt start inputs) := by
    intro kept
    by_cases none : inputs = []
    · subst none
      rw [outcome.idle rfl]
      exact iff_of_true rfl fun front last split => by simp at split
    · exact outcome.waiting_iff none kept
  refine ⟨final, shownFinal, ?_⟩
  rw [← outcome.sound_iff startSound]
  constructor
  · rintro ⟨taken, settled, ordered⟩
    have kept : final.lost = [] := by
      -- an item is in one place only
      rw [eq_nil_iff_forall_not_mem]
      intro lost member
      have arrived : lost ∈ inputs.map item := accounts.mem_iff.mp (mem_append_right _ member)
      obtain ⟨input, listed, rfl⟩ := mem_map.mp arrived
      have once := accounts.nodup_iff.mpr distinct
      rw [Progress.all, nodup_append] at once
      exact once.2.2 _ (mem_append_left _ (taken input listed)) _ member rfl
    exact ⟨⟨ordered, kept⟩, (waits kept).mp settled⟩
  · rintro ⟨sound, last⟩
    have settled := (waits sound.kept).mpr last
    refine ⟨fun input listed => ?_, settled, sound.inOrder⟩
    have arrived : item input ∈ final.all := accounts.mem_iff.mpr (mem_map_of_mem listed)
    simpa [Progress.all, settled, sound.kept] using arrived

end History

end Arrivals
