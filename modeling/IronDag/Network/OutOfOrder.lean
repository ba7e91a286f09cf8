import IronDag.Lib.Arrivals
import IronDag.Network.Handled

namespace IronDag

open Blockchain Fallible Arrivals Finmap Block
open List hiding after

namespace GossipNode

structure BlockDelivery where
  block : Block
  handling : Handling

variable (libraries : Libraries)

def deliver (delivery : BlockDelivery) (node : GossipNode) : GossipNode :=
  node.handle libraries delivery.handling (.newBlock delivery.block)

/-- A chain grown from `start` by the listed blocks of a family, each after its parents. -/
inductive Grown (host : Host) (allowed : Conditions → Prop) (family : List Block)
    (start : Blockchain) : List Block → Blockchain → Prop where
  | start : Grown host allowed family start [] start
  | add {taken : List Block} {chain after : Blockchain} {block : Block} {conditions : Conditions}
      (grown : Grown host allowed family start taken chain) (member : block ∈ family)
      (parents : ParentsStored chain block) (meets : allowed conditions)
      (added : addBlockForSync host conditions block chain = .ok true after) :
      Grown host allowed family start (taken ++ [block]) after

/-- Each block of the family is accepted once its parents are stored. -/
def Acceptable (host : Host) (allowed : Conditions → Prop) (family : List Block)
    (start : Blockchain) : Prop :=
  ∀ taken chain, Grown host allowed family start taken chain → ∀ block ∈ family, block ∉ taken →
    ParentsStored chain block → ∀ conditions, allowed conditions →
      ∃ after, addBlockForSync host conditions block chain = .ok true after

/-- The chain has the blocks of `start` and those taken in since. -/
structure Holds (start chain : Blockchain) (taken : List Block) : Prop where
  bounded : chain.InBounds
  blocks : chain.blocks.blocks = start.blocks.blocks ++ taken
  stored : ∀ hash, chain.Stored hash ↔ start.Stored hash ∨ hash ∈ taken.map Block.hash

/-- The pool has the orphans that wait. -/
def Waits (pool : OrphanPool) (waiting : List Block) : Prop :=
  ∀ hash block, pool.orphans.lookup hash = some block ↔ block ∈ waiting ∧ block.hash = hash

section Progress

variable {chain : Blockchain}

theorem Holds.append (holds : Holds start chain taken) (appended : Appended chain block after) :
    Holds start after (taken ++ [block]) where
  bounded := appended.inBounds holds.bounded
  blocks := by rw [appended.blocks, holds.blocks, append_assoc]
  stored hash := by
    rw [appended.stored_iff holds.bounded, holds.stored]
    simp only [map_append, map_singleton, mem_append, List.mem_singleton]
    tauto

theorem Holds.same (holds : Holds start chain taken) (same : SameBlocks chain after) :
    Holds start after taken where
  bounded := same.inBounds holds.bounded
  blocks := by rw [same.blocks, holds.blocks]
  stored hash := by
    rw [← holds.stored]
    unfold Stored
    rw [same.getBlockByHash]

theorem Holds.parentsStored_iff (holds : Holds start chain taken) (block : Block) :
      ParentsStored chain block ↔ Ready Block.hash parentsOf start.Stored taken block :=
  forall₂_congr fun parent _ => holds.stored parent

theorem mem_cons_other {block found : Block} (other : key ≠ block.hash) :
    found ∈ block :: left ∧ found.hash = key ↔ found ∈ left ∧ found.hash = key := by
  refine and_congr_left fun same =>
    ⟨fun member => (mem_cons.mp member).resolve_left ?_, mem_cons_of_mem _⟩
  rintro rfl
  exact other same.symm

theorem Waits.erase (waits : Waits pool (block :: left))
    (once : block.hash ∉ left.map Block.hash) (queue : List Hash) :
    Waits { pool with orphans := pool.orphans.erase block.hash, queue } left := by
  intro hash found
  rw [Table.lookup_remove]
  split
  · next here =>
    subst here
    refine iff_of_false (by simp) ?_
    rintro ⟨member, same⟩
    exact once (same ▸ mem_map_of_mem member)
  · next other => rw [waits, mem_cons_other other]

end Progress

/-- A node that has come so far with the blocks of a family. -/
structure Shows (host : Host) (allowed : Conditions → Prop) (family : List Block)
    (start node : GossipNode) (progress : Progress Block) : Prop where
  holds : Holds start.chain node.chain progress.taken
  waits : Waits node.orphanPool progress.waiting
  maxOrphans : node.orphanPool.maxOrphans = start.orphanPool.maxOrphans
  seen : ∀ hash ∈ node.blockSeen, hash ∈ start.blockSeen ∨ hash ∈ progress.all.map Block.hash
  known : ∀ block ∈ progress.all, block ∈ family
  grown : Sound hash parentsOf start.chain.Stored progress.taken progress.lost →
    Grown host allowed family start.chain progress.taken node.chain

section Simulation

variable {libraries} {family : List Block} {start : GossipNode}

/-- What is taken in last was ready for it. -/
theorem Shows.grown_append {chain after : Blockchain} (holds : Holds start.chain chain taken)
    (grown : Sound hash parentsOf start.chain.Stored taken lost →
      Grown libraries.host allowed family start.chain taken chain)
    (member : block ∈ family) (meets : allowed conditions)
    (added : addBlockForSync libraries.host conditions block chain = .ok true after)
    (sound : Sound hash parentsOf start.chain.Stored (taken ++ [block]) lost) :
    Grown libraries.host allowed family start.chain (taken ++ [block]) after := by
  obtain ⟨earlier, ready⟩ := inOrder_append.mp sound.inOrder
  have parents : ParentsStored chain block :=
    (holds.parentsStored_iff block).mpr (by simpa [InOrder] using ready)
  exact (grown ⟨earlier, sound.kept⟩).add member parents meets added

/-- A block that is not taken in was offered out of order. -/
theorem Shows.broken_of_rejected (shown : Shows libraries.host allowed family start node progress)
    (acceptable : Acceptable libraries.host allowed family start.chain) (member : block ∈ family)
    (new : block ∉ progress.taken) (meets : allowed conditions)
    (rejected : ∀ after,
      addBlockForSync libraries.host conditions block node.chain ≠ .ok true after) :
    ¬(Sound hash parentsOf start.chain.Stored progress.taken progress.lost ∧
      Ready hash parentsOf start.chain.Stored progress.taken block) := by
  rintro ⟨sound, ready⟩
  obtain ⟨after, added⟩ := acceptable _ _ (shown.grown sound) block member new
    ((shown.holds.parentsStored_iff block).mpr ready) conditions meets
  exact rejected after added

/-- The pass over the orphans is one of the abstract kind. -/
theorem pass_offerOrphans (acceptable : Acceptable libraries.host allowed family start.chain)
    (meets : ∀ call, allowed (handling.conditions call)) (index : ℕ)
    (shown : Shows libraries.host allowed family start node ⟨taken, waiting, lost⟩)
    (listed : waiting.map hash = hashes) (once : hashes.Nodup)
    (apart : (taken ++ waiting ++ lost).Nodup) :
    ∃ after, Pass Block.hash parentsOf start.chain.Stored waiting taken lost after ∧
      Shows libraries.host allowed family start
        (finalState (offerOrphans libraries handling index hashes node)) after := by
  induction hashes generalizing node taken waiting lost index with
  | nil =>
    obtain rfl := map_eq_nil_iff.mp listed
    exact ⟨_, .done taken lost, shown⟩
  | cons hash rest ih =>
    obtain ⟨block, others, rfl, rfl, rfl⟩ := map_eq_cons_iff.mp listed
    have found : node.orphanPool.orphans.lookup block.hash = some block :=
      (shown.waits _ _).mpr ⟨mem_cons_self, rfl⟩
    have member : block ∈ family := shown.known block (by simp [Progress.all])
    have new : block ∉ taken := by
      intro early
      rw [append_assoc, nodup_append] at apart
      exact apart.2.2 _ early _ (by simp) rfl
    have pooled := shown.waits.erase (nodup_cons.mp once).1
      (node.orphanPool.queue.filter fun queued => queued ≠ block.hash)
    unfold offerOrphans
    rw [get_bind]
    simp only [OrphanPool.tryProcessOrphan, found, Option.map_some, set_bind]
    generalize emptied : ({ node with orphanPool := _ } : GossipNode) = next
    have offeredOn : next.chain = node.chain ∧ Waits next.orphanPool others ∧
        next.orphanPool.maxOrphans = node.orphanPool.maxOrphans ∧
          next.blockSeen = node.blockSeen := by
      subst emptied
      exact ⟨rfl, pooled, rfl, rfl⟩
    obtain ⟨sameChain, waits, capacity, seen⟩ := offeredOn
    -- what holds of the node once the orphan has been offered, whatever came of it
    have continues : ∀ {chain taken' lost'}, Holds start.chain chain taken' →
        (taken' ++ others ++ lost').Perm (taken ++ (block :: others) ++ lost) →
        (Sound hash parentsOf start.chain.Stored taken' lost' →
          Grown libraries.host allowed family start.chain taken' chain) →
        Shows libraries.host allowed family start { next with chain } ⟨taken', others, lost'⟩ := by
      intro chain taken' lost' holds moved grown
      refine ⟨holds, waits, capacity.trans shown.maxOrphans, fun hash known => ?_,
        fun other listed => ?_, grown⟩
      · exact (shown.seen hash (seen ▸ known)).imp_right (moved.map Block.hash).mem_iff.mpr
      · exact shown.known other (moved.mem_iff.mp listed)
    have taking :
        (taken ++ [block] ++ others ++ lost).Perm (taken ++ (block :: others) ++ lost) := by simp
    have losing :
        (taken ++ others ++ (lost ++ [block])).Perm (taken ++ (block :: others) ++ lost) := by
      simp only [append_assoc]
      refine Perm.append_left taken ?_
      simpa using perm_append_singleton block (others ++ lost)
    rcases @offer_cases libraries handling next block (.orphan 0 index) with
      ⟨after, added, offered⟩ | ⟨rejected, after, same, ⟨result, -, offered⟩ | offered⟩
    · rw [bind_of_ok offered]
      rw [sameChain] at added
      have holds := shown.holds.append (appended_addBlockForSync added)
      obtain ⟨final, pass, shownFinal⟩ := ih (index + 1)
        (continues holds taking (Shows.grown_append shown.holds shown.grown member (meets _) added))
        rfl (nodup_cons.mp once).2 (taking.nodup_iff.mpr apart)
      exact ⟨final, .take pass, shownFinal⟩
    · rw [bind_of_ok offered]
      rw [sameChain] at rejected same
      obtain ⟨final, pass, shownFinal⟩ := ih (index + 1)
        (continues (shown.holds.same same) losing fun sound => by simpa using sound.kept) rfl
        (nodup_cons.mp once).2 (losing.nodup_iff.mpr apart)
      exact ⟨final, .lose (shown.broken_of_rejected acceptable member new (meets _) rejected)
        pass, shownFinal⟩
    · rw [bind_of_error offered]
      rw [sameChain] at rejected same
      exact ⟨_, .halt (shown.broken_of_rejected acceptable member new (meets _) rejected),
        continues (shown.holds.same same) losing fun sound => by simpa using sound.kept⟩

theorem Waits.inOrder (waits : Waits pool waiting) (iteration : SetIteration Hash) :
    (pool.inOrder iteration).map Block.hash = pool.getOrphanHashes iteration ∧
      ∀ block, block ∈ pool.inOrder iteration ↔ block ∈ waiting := by
  have found : ∀ hash ∈ pool.getOrphanHashes iteration, ∃ block, pool.orphans.lookup hash =
      some block := by
    intro hash listed
    have key := (iteration.mem_toList _ _).mp listed
    exact Table.mem_keys_iff.mp key
  constructor
  · unfold OrphanPool.inOrder
    generalize pool.getOrphanHashes iteration = hashes at found
    induction hashes with
    | nil => rfl
    | cons hash rest ih =>
      obtain ⟨block, here⟩ := found hash mem_cons_self
      rw [filterMap_cons]
      simp only [here, map_cons]
      rw [ih fun other listed => found other (mem_cons_of_mem _ listed), ((waits _ _).mp here).2]
  · intro block
    unfold OrphanPool.inOrder
    rw [mem_filterMap]
    constructor
    · rintro ⟨hash, -, here⟩
      exact ((waits _ _).mp here).1
    · intro member
      have here := (waits block.hash block).mpr ⟨member, rfl⟩
      refine ⟨block.hash, (iteration.mem_toList _ _).mpr (mem_keys.mpr ?_), here⟩
      exact mem_iff.mpr ⟨block, here⟩

theorem Waits.addOrphan (waits : Waits pool waiting)
    (new : block.hash ∉ waiting.map Block.hash) (room : pool.orphans.keys.card < pool.maxOrphans) :
    Waits (pool.addOrphan block).2 (block :: waiting) ∧
      (pool.addOrphan block).2.maxOrphans = pool.maxOrphans := by
  have absent : block.hash ∉ pool.orphans := by
    intro present
    obtain ⟨other, found⟩ := mem_iff.mp present
    obtain ⟨member, same⟩ := (waits _ _).mp found
    exact new (same ▸ mem_map_of_mem member)
  unfold OrphanPool.addOrphan
  rw [if_neg absent, OrphanPool.makeRoom_of_lt room]
  refine ⟨fun hash found => ?_, rfl⟩
  rw [Table.lookup_write]
  split
  · next here =>
    subst here
    constructor
    · intro same
      cases same
      exact ⟨mem_cons_self, rfl⟩
    · rintro ⟨member, same⟩
      rcases mem_cons.mp member with rfl | old
      · rfl
      · exact absurd (same ▸ mem_map_of_mem old) new
  · next other => rw [waits, mem_cons_other other]

/-- Fewer orphans wait than the family has blocks. -/
theorem Waits.card_lt {progress : Progress Block} (waits : Waits pool progress.waiting)
    (known : ∀ other ∈ progress.all, other ∈ family) (member : block ∈ family)
    (fresh : block ∉ progress.all) :
    pool.orphans.keys.card < family.length := by
  classical
  have within : pool.orphans.keys ⊆ ((family.erase block).map Block.hash).toFinset := by
    intro hash key
    obtain ⟨other, found⟩ := Table.mem_keys_iff.mp key
    obtain ⟨listed, same⟩ := (waits _ _).mp found
    have waiting : other ∈ progress.all := by simp [Progress.all, listed]
    rw [mem_toFinset, mem_map]
    refine ⟨other, (mem_erase_of_ne ?_).mpr (known other waiting), same⟩
    rintro rfl
    exact fresh waiting
  have bound := (Finset.card_le_card within).trans (toFinset_card_le _)
  rw [length_map, length_erase_of_mem member] at bound
  have positive := length_pos_of_mem member
  omega

/-- The delivery of a block of the family is an arrival. -/
theorem arrive_deliver (acceptable : Acceptable libraries.host allowed family start.chain)
    (distinct : (family.map hash).Nodup) (room : family.length ≤ start.orphanPool.maxOrphans)
    (unseen : ∀ block ∈ family, block.hash ∉ start.blockSeen) (member : delivery.block ∈ family)
    (meets : ∀ call, allowed (delivery.handling.conditions call))
    (shown : Shows libraries.host allowed family start node progress)
    (apart : (delivery.block :: progress.all).Nodup) :
    ∃ after, Arrive Block.hash parentsOf start.chain.Stored delivery.block
        (node.orphanPool.inOrder (delivery.handling.orphanOrder 0)) progress after ∧
      Shows libraries.host allowed family start (deliver libraries delivery node) after := by
  obtain ⟨block, handling⟩ := delivery
  have fresh := (nodup_cons.mp apart).1
  -- distinct blocks of the family have distinct hashes
  have newHash : ∀ others : List Block, (∀ other ∈ others, other ∈ progress.all) →
      block.hash ∉ others.map hash := by
    intro others listed same
    obtain ⟨other, found, equal⟩ := mem_map.mp same
    have known := listed other found
    exact fresh (inj_on_of_nodup_map distinct (shown.known other known) member equal ▸ known)
  have notSeen : block.hash ∉ node.blockSeen := fun seen =>
    (shown.seen _ seen).elim (unseen block member) (newHash progress.all fun _ known => known)
  have remembered : ∀ {later : Progress Block}, later.all.Perm (block :: progress.all) →
      (∀ hash ∈ markSeen handling.hashOrder handling.now node.blockSeen block.hash,
        hash ∈ start.blockSeen ∨ hash ∈ later.all.map Block.hash) ∧
          ∀ other ∈ later.all, other ∈ family := by
    intro later moved
    constructor
    · intro hash kept
      rw [(moved.map Block.hash).mem_iff, map_cons, mem_cons]
      rcases mem_of_mem_markSeen kept with rfl | old
      · exact .inr (.inl rfl)
      · exact (shown.seen hash old).imp_right .inr
    · intro other listed
      rcases mem_cons.mp (moved.mem_iff.mp listed) with rfl | old
      · exact member
      · exact shown.known other old
  by_cases parents : ParentsStored node.chain block
  · have met := (shown.holds.parentsStored_iff block).mp parents
    by_cases accepted : ∃ after,
      addBlockForSync libraries.host (handling.conditions (.received 0)) block
        node.chain = .ok true after
    · obtain ⟨after, added⟩ := accepted
      obtain ⟨written, final⟩ := newBlock_of_added notSeen parents added
      obtain ⟨listed, same⟩ := shown.waits.inOrder (handling.orphanOrder 0)
      have hashesOnce : (node.orphanPool.getOrphanHashes (handling.orphanOrder 0)).Nodup :=
        (handling.orphanOrder 0).nodup _
      have waitingOnce : progress.waiting.Nodup :=
        (nodup_cons.mp apart).2.sublist ((sublist_append_right _ _).trans (sublist_append_left _ _))
      have all : (node.orphanPool.inOrder (handling.orphanOrder 0)).Perm progress.waiting :=
        (perm_ext_iff_of_nodup (Nodup.of_map _ (listed ▸ hashesOnce)) waitingOnce).mpr same
      have moved : (progress.taken ++ [block] ++
          node.orphanPool.inOrder (handling.orphanOrder 0) ++ progress.lost).Perm
          (block :: progress.all) := by
        simp only [Progress.all, append_assoc]
        exact perm_middle.trans (((all.append_right _).append_left _).cons _)
      have shownMiddle : Shows libraries.host allowed family start
          { node.saw handling block.hash with chain := after }
          ⟨progress.taken ++ [block],
            node.orphanPool.inOrder (handling.orphanOrder 0), progress.lost⟩ := by
        obtain ⟨seen, known⟩ := @remembered ⟨_, _, _⟩ moved
        exact ⟨shown.holds.append (appended_addBlockForSync added),
          fun hash other =>
            (shown.waits hash other).trans (and_congr_left fun _ => (same other).symm),
          shown.maxOrphans, seen, known,
            Shows.grown_append shown.holds shown.grown member (meets _) added⟩
      obtain ⟨last, pass, shownLast⟩ := pass_offerOrphans acceptable meets 0 shownMiddle
        listed hashesOnce (moved.nodup_iff.mpr apart)
      refine ⟨last, .take met all pass, ?_⟩
      show Shows _ _ _ _ (finalState (newBlock libraries handling block node)) _
      rw [final]
      exact ⟨shownLast.holds, shownLast.waits, shownLast.maxOrphans, shownLast.seen,
        shownLast.known, shownLast.grown⟩
    · have rejected := not_exists.mp accepted
      obtain ⟨after, peerScores, same, final⟩ := newBlock_of_rejected notSeen parents rejected
      have new : block ∉ progress.taken := fun early => fresh (by simp [Progress.all, early])
      have broken := shown.broken_of_rejected acceptable member new (meets _) rejected
      refine ⟨_, .lose met fun sound => broken ⟨sound, met⟩, ?_⟩
      show Shows _ _ _ _ (finalState (newBlock libraries handling block node)) _
      rw [final]
      obtain ⟨seen, known⟩ := @remembered { progress with lost := progress.lost ++ [block] } (by
        simp only [Progress.all]
        rw [← append_assoc]
        exact perm_append_singleton block _)
      exact ⟨shown.holds.same same, shown.waits, shown.maxOrphans, seen, known,
        fun sound => by simpa using sound.kept⟩
  · obtain ⟨written, final⟩ :=
      @newBlock_of_orphan libraries handling node block notSeen shown.holds.bounded parents
    have unmet := mt (shown.holds.parentsStored_iff block).mpr parents
    refine ⟨_, .wait unmet, ?_⟩
    show Shows _ _ _ _ (finalState (newBlock libraries handling block node)) _
    rw [final]
    have roomy : node.orphanPool.orphans.keys.card < node.orphanPool.maxOrphans := by
      rw [shown.maxOrphans]
      exact (shown.waits.card_lt shown.known member fresh).trans_le room
    obtain ⟨waits, capacity⟩ := shown.waits.addOrphan
      (newHash progress.waiting fun other listed => by simp [Progress.all, listed]) roomy
    obtain ⟨seen, known⟩ := @remembered { progress with waiting := block :: progress.waiting }
      (by simp [Progress.all])
    exact ⟨shown.holds, waits, capacity.trans shown.maxOrphans, seen, known, shown.grown⟩

end Simulation

/-- In the pass that follows a delivery, every orphan comes after its parents. -/
def ParentsFirst (node : GossipNode) (delivery : BlockDelivery) : Prop :=
  ∀ front orphan back, node.orphanPool.inOrder (delivery.handling.orphanOrder 0) = front ++
    orphan :: back → ∀ parent ∈ parentsOf orphan,
      node.chain.Stored parent ∨ parent = delivery.block.hash ∨ parent ∈ front.map Block.hash

/-- Each block added since `before` was so after its parents. -/
def AfterParents (before after : Blockchain) : Prop :=
  ∀ front block back, after.blocks.blocks = before.blocks.blocks ++ (front ++ block :: back) →
    ∀ parent ∈ parentsOf block, before.Stored parent ∨ parent ∈ front.map Block.hash

/-- All blocks are stored, after their parents, and nothing waits. -/
structure Settled (start : GossipNode) (deliveries : List BlockDelivery) (final : GossipNode) :
    Prop where
  stored : ∀ delivery ∈ deliveries, delivery.block ∈ final.chain.blocks.blocks
  noOrphans : final.orphanPool.orphans = ∅
  afterParents : AfterParents start.chain final.chain

/-- The conditions that the calls of some deliveries meet. -/
def MetBy (deliveries : List BlockDelivery) (conditions : Conditions) : Prop :=
  ∃ delivery ∈ deliveries, ∃ call, conditions = delivery.handling.conditions call

theorem Holds.parentsFirst_iff {start node : GossipNode}
    (holds : Holds start.chain node.chain taken) (delivery : BlockDelivery) :
    ParentsFirst node delivery ↔
      InOrder Block.hash parentsOf start.chain.Stored (taken ++ [delivery.block])
      (node.orphanPool.inOrder (delivery.handling.orphanOrder 0)) := by
  rw [inOrder_iff_split]
  refine forall₄_congr fun front orphan back split => forall₂_congr fun parent _ => ?_
  rw [holds.stored]
  simp only [map_append, map_singleton, mem_append, List.mem_singleton]
  tauto

theorem Holds.afterParents_iff {start chain : Blockchain} (holds : Holds start chain taken) :
    AfterParents start chain ↔ InOrder Block.hash parentsOf start.Stored [] taken := by
  rw [inOrder_iff_split]
  unfold AfterParents
  rw [holds.blocks]
  simp only [List.append_cancel_left_eq]
  exact Iff.rfl

theorem Waits.orphans_eq_empty_iff (waits : Waits pool waiting) : pool.orphans = ∅ ↔
    waiting = [] := by
  constructor
  · intro none
    rw [List.eq_nil_iff_forall_not_mem]
    intro block member
    have found := (waits block.hash block).mpr ⟨member, rfl⟩
    rw [none] at found
    simp at found
  · rintro rfl
    refine ext_lookup fun hash => ?_
    cases found : pool.orphans.lookup hash with
    | none => rfl
    | some block => simpa using (waits hash block).mp found

/-- A family delivered in any order is settled exactly if each pass over the orphans meets parents
first and the block that comes last is not an orphan. -/
theorem deliveries_settled_iff (libraries : Libraries) (start : GossipNode)
    (deliveries : List BlockDelivery)
    (bounded : start.chain.InBounds) (idle : start.orphanPool.orphans = ∅)
    (distinct : (deliveries.map fun delivery => delivery.block.hash).Nodup)
    (further : ∀ delivery ∈ deliveries, delivery.block ∉ start.chain.blocks.blocks)
    (unseen : ∀ delivery ∈ deliveries, delivery.block.hash ∉ start.blockSeen)
    (room : deliveries.length ≤ start.orphanPool.maxOrphans)
    (acceptable : Acceptable libraries.host (MetBy deliveries)
      (deliveries.map BlockDelivery.block) start.chain) :
    Settled start deliveries (Run.run (deliver libraries) start deliveries) ↔
      (∀ entry ∈ Run.visited (deliver libraries) start deliveries,
        ParentsStored entry.1.chain entry.2.block → ParentsFirst entry.1 entry.2) ∧
      LastReady (deliver libraries) (fun node delivery => ParentsStored node.chain delivery.block)
        start deliveries := by
  have hashesOnce : ((deliveries.map BlockDelivery.block).map hash).Nodup := by
    simpa [Function.comp_def] using distinct
  have shown : Shows libraries.host (MetBy deliveries) (deliveries.map BlockDelivery.block) start
      start Progress.empty :=
    { holds := ⟨bounded, by simp [Progress.empty], by simp [Progress.empty]⟩
      waits := fun hash block => by simp [idle, Progress.empty]
      maxOrphans := rfl
      seen := fun hash known => .inl known
      known := fun block listed => by simp [Progress.empty, Progress.all] at listed
      grown := fun _ => .start }
  obtain ⟨final, shownFinal, settled⟩ := @settled_iff _ _ hash parentsOf start.chain.Stored _ _
    (deliver libraries) BlockDelivery.block
    (fun node delivery => node.orphanPool.inOrder (delivery.handling.orphanOrder 0))
    (fun delivery => delivery ∈ deliveries)
    (Shows libraries.host (MetBy deliveries) (deliveries.map BlockDelivery.block) start)
    (fun node delivery => ParentsStored node.chain delivery.block) ParentsFirst
    (fun node progress delivery shown => shown.holds.parentsStored_iff delivery.block)
    (fun node progress delivery shown => shown.holds.parentsFirst_iff delivery)
    (fun node progress delivery listed shown apart => arrive_deliver acceptable hashesOnce
      (by simpa using room) (by simpa using unseen) (mem_map_of_mem listed)
      (fun call => ⟨delivery, listed, call, rfl⟩) shown apart)
    start deliveries (fun _ listed => listed) shown (Nodup.of_map _ hashesOnce)
  rw [← settled]
  constructor
  · rintro ⟨stored, noOrphans, afterParents⟩
    refine ⟨fun delivery listed => ?_, shownFinal.waits.orphans_eq_empty_iff.mp noOrphans,
      shownFinal.holds.afterParents_iff.mp afterParents⟩
    have found := stored delivery listed
    rw [shownFinal.holds.blocks, mem_append] at found
    exact found.resolve_left (further delivery listed)
  · rintro ⟨taken, waiting, ordered⟩
    refine ⟨fun delivery listed => ?_, shownFinal.waits.orphans_eq_empty_iff.mpr waiting,
      shownFinal.holds.afterParents_iff.mpr ordered⟩
    rw [shownFinal.holds.blocks]
    exact mem_append_right _ (taken delivery listed)

/-- An empty block on top of a parent. -/
def generation (parent : Hash) (number : U64) : Block :=
  Block.new Crypto.sample
    { parentHashes := [parent], blockNumber := number, streamType := .streamA, difficulty := 1
      timestamp := 1600000010, nonce := 0, baseFeePerGas := 1, hashVersion := 1 } []

def firstGeneration : Block :=
  generation genesisBlock.hash 1

def secondGeneration : Block :=
  generation firstGeneration.hash 2

def thirdGeneration : Block :=
  generation secondGeneration.hash 3

/-- The youngest comes first. -/
def reversed : List BlockDelivery :=
  [thirdGeneration, secondGeneration, firstGeneration].map fun block =>
    ⟨block, Handling.sample samplePeer⟩

def sampleConditions : Conditions :=
  Conditions.uncontended 1600000020

/-- The sample node with blocks added one after another. -/
def withGenerations (blocks : List Block) : Blockchain :=
  blocks.foldl (fun chain block =>
    finalState (addBlockForSync Host.sample sampleConditions block chain)) sample.chain

theorem eq_sampleConditions (met : MetBy reversed conditions) : conditions = sampleConditions := by
  obtain ⟨delivery, listed, call, rfl⟩ := met
  obtain ⟨block, -, rfl⟩ := List.mem_map.mp listed
  rfl

def answer (taken : List Block) (block : Block) : Option Bool :=
  returned (addBlockForSync Host.sample sampleConditions block (withGenerations taken))

/-- The generations in their order, as far as they have come. -/
inductive Lineage : List Block → Prop where
  | none : Lineage []
  | first : Lineage [firstGeneration]
  | second : Lineage [firstGeneration, secondGeneration]
  | third : Lineage [firstGeneration, secondGeneration, thirdGeneration]

section Lineage

variable {taken : List Block} {block : Block} (lineage : Lineage taken)
  (member : block ∈ reversed.map BlockDelivery.block)

include member

theorem mem_reversed : block = thirdGeneration ∨ block = secondGeneration ∨
    block = firstGeneration := by
  simpa [reversed] using member

include lineage

/-- The chain takes the next generation and no other. -/
theorem Lineage.next (accepted : answer taken block = some true) : Lineage (taken ++ [block]) := by
  rcases mem_reversed member with rfl | rfl | rfl <;> cases lineage
  all_goals first
    | exact absurd accepted (by decide +kernel)
    | constructor

theorem Lineage.answer (new : block ∉ taken)
    (parents : ParentsStored (withGenerations taken) block) : answer taken block = some true := by
  rcases mem_reversed member with rfl | rfl | rfl <;> cases lineage
  all_goals first
    | exact absurd (parents _ mem_cons_self) (by decide +kernel)
    | decide +kernel
    | simp at new

end Lineage

theorem grown_reversed {chain : Blockchain}
    (grown : Grown Host.sample (MetBy reversed) (reversed.map BlockDelivery.block) sample.chain
      taken chain) :
    chain = withGenerations taken ∧ Lineage taken := by
  induction grown with
  | start => exact ⟨rfl, .none⟩
  | @add taken chain after block conditions grown member parents meets added ih =>
    obtain ⟨rfl, lineage⟩ := ih
    obtain rfl := eq_sampleConditions meets
    refine ⟨?_, lineage.next member (by rw [GossipNode.answer, added]; rfl)⟩
    rw [withGenerations, List.foldl_append]
    show after =
      finalState (addBlockForSync Host.sample sampleConditions block (withGenerations taken))
    rw [added]
    rfl

theorem acceptable_reversed :
    Acceptable Host.sample (MetBy reversed) (reversed.map BlockDelivery.block) sample.chain := by
  intro taken chain grown block member new parents conditions met
  obtain ⟨rfl, lineage⟩ := grown_reversed grown
  obtain rfl := eq_sampleConditions met
  exact ⟨_, eq_ok_of_returned (lineage.answer member new parents)⟩

theorem inBounds_sample : sample.chain.InBounds := by
  have entries : sample.chain.blocks.blockByHash =
      (∅ : Table Hash ℕ).insert genesisBlock.hash 0 := by
    decide +kernel
  intro hash position found
  rw [entries, Table.lookup_write] at found
  split at found
  · cases found
    exact Nat.one_pos
  · simp at found

theorem reversed_settled_iff : Settled sample reversed
    (Run.run (deliver Libraries.sample) sample reversed) ↔
      (∀ entry ∈ Run.visited (deliver Libraries.sample) sample reversed,
        ParentsStored entry.1.chain entry.2.block → ParentsFirst entry.1 entry.2) ∧
      LastReady (deliver Libraries.sample)
        (fun node delivery => ParentsStored node.chain delivery.block) sample reversed :=
  deliveries_settled_iff Libraries.sample sample reversed inBounds_sample rfl (by decide +kernel)
    (by decide +kernel) (by decide +kernel) (by decide +kernel) acceptable_reversed

/-- The third generation leaves the pool ahead of the second, is rejected and lost. -/
theorem reversed_not_settled : sample.chain.InBounds ∧ sample.orphanPool.orphans = ∅ ∧
      (reversed.map fun delivery => delivery.block.hash).Nodup ∧
      (∀ delivery ∈ reversed, delivery.block ∉ sample.chain.blocks.blocks) ∧
      (∀ delivery ∈ reversed, delivery.block.hash ∉ sample.blockSeen) ∧
      reversed.length < sample.orphanPool.maxOrphans ∧
      Acceptable Host.sample (MetBy reversed) (reversed.map BlockDelivery.block) sample.chain ∧
      ¬Settled sample reversed (Run.run (deliver Libraries.sample) sample reversed) := by
  refine ⟨inBounds_sample, rfl, by decide +kernel, by decide +kernel, by decide +kernel,
    by decide +kernel, acceptable_reversed, fun settled => ?_⟩
  have lost : thirdGeneration ∉
      (Run.run (deliver Libraries.sample) sample reversed).chain.blocks.blocks := by
    decide +kernel
  exact lost (settled.stored ⟨thirdGeneration, Handling.sample samplePeer⟩ (by simp [reversed]))

end GossipNode

end IronDag
