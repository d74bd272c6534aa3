import GseNetwork.Chain.Forest

namespace GseNetwork.Chain

open GseNetwork.Core GseNetwork.Foundation
open ForkIndex (ids)
open Quorum (Confirms)

def HeaderConfirmation.content (hc : HeaderConfirmation) : HeaderConfirmation :=
  { hc with signature := {} }

theorem HeaderConfirmation.equal_iff {x y : HeaderConfirmation} :
    x.equal y = true ↔ x.content = y.content := by
  unfold equal content
  simp only [Bool.and_eq_true, beq_iff_eq, HeaderConfirmation.mk.injEq]
  tauto

namespace BlockState

def receive (b : BlockState) (hc : HeaderConfirmation) : BlockState :=
  if b.blockID == hc.blockID then RollbackState.confirm hc b else b

def contents (b : BlockState) : List HeaderConfirmation :=
  b.confirmations.map HeaderConfirmation.content

def Offered (b : BlockState) (hs : List HeaderConfirmation) (c : HeaderConfirmation) : Prop :=
  ∃ hc ∈ hs, Confirms hc b ∧ hc.content = c

/-- The block state `b'` is what `b` becomes when the confirmations `hs` are delivered: it has
gained one of each kind, and is solid if they suffice. -/
structure Collected (b : BlockState) (hs : List HeaderConfirmation) (b' : BlockState) : Prop where
  number : b'.blockNumber = b.blockNumber
  id : b'.blockID = b.blockID
  producers : b'.activeProducers = b.activeProducers
  gained : ∃ new, b'.contents = b.contents ++ new ∧ new.Nodup ∧
    ∀ c, c ∈ new ↔ c ∉ b.contents ∧ Offered b hs c
  solid : b'.bftSolidifyBlockNumber =
    if (∃ hc ∈ hs, hc.blockID = b.blockID) ∧ b.bftSolidifyBlockNumber < b.blockNumber ∧
      b.activeProducers.size * 2 / 3 ≤ b'.contents.length then b.blockNumber
    else b.bftSolidifyBlockNumber

variable {b b' c c' : BlockState} {hs : List HeaderConfirmation} {hc : HeaderConfirmation}

theorem collected_nil (b : BlockState) : Collected b [] b := by
  refine ⟨rfl, rfl, rfl, ⟨[], by simp [Offered]⟩, ?_⟩
  simp

theorem offered_append (hs : List HeaderConfirmation) (hc : HeaderConfirmation)
    (c : HeaderConfirmation) :
    Offered b (hs ++ [hc]) c ↔ Offered b hs c ∨ (Confirms hc b ∧ hc.content = c) := by
  simp only [Offered, List.mem_append, List.mem_singleton]
  constructor
  · rintro ⟨d, hd | rfl, hrest⟩
    · exact Or.inl ⟨d, hd, hrest⟩
    · exact Or.inr hrest
  · rintro (⟨d, hd, hrest⟩ | hrest)
    · exact ⟨d, Or.inl hd, hrest⟩
    · exact ⟨hc, Or.inr rfl, hrest⟩

theorem any_equal_iff (b : BlockState) (hc : HeaderConfirmation) :
    (∃ hc' ∈ b.confirmations, hc'.equal hc = true) ↔ hc.content ∈ b.contents := by
  simp only [contents, List.mem_map, HeaderConfirmation.equal_iff]

/-- The confirmation is appended if it is for the block and not there yet. -/
theorem contents_addConfirmation (b : BlockState) (hc : HeaderConfirmation) :
    (b.addConfirmation hc).contents = b.contents ∧ (Confirms hc b → hc.content ∈ b.contents) ∨
      (b.addConfirmation hc).contents = b.contents ++ [hc.content] ∧ Confirms hc b ∧
        hc.content ∉ b.contents := by
  rcases Quorum.addConfirmation_cases b hc with ⟨heq, hold⟩ | ⟨hconfirms, hnew, heq⟩
  · rw [heq]
    exact Or.inl ⟨rfl, fun h ↦ (any_equal_iff b hc).mp (hold h)⟩
  · refine Or.inr ⟨by rw [heq]; simp [contents], hconfirms, fun hmem ↦ ?_⟩
    obtain ⟨hc', hmem', hequal⟩ := (any_equal_iff b hc).mpr hmem
    rw [hnew hc' hmem'] at hequal
    contradiction

theorem Collected.gained_addConfirmation (h : Collected b hs b') (hc : HeaderConfirmation) :
    ∃ new, (b'.addConfirmation hc).contents = b.contents ++ new ∧ new.Nodup ∧
      ∀ c, c ∈ new ↔ c ∉ b.contents ∧ Offered b (hs ++ [hc]) c := by
  obtain ⟨new, heq, hnodup, hmem⟩ := h.gained
  have hcongr : Confirms hc b ↔ Confirms hc b' :=
    ⟨fun hb ↦ hb.congr h.number h.id h.producers,
      fun hb ↦ hb.congr h.number.symm h.id.symm h.producers.symm⟩
  rcases contents_addConfirmation b' hc with ⟨hsame, hold⟩ | ⟨happend, hconfirms, hfresh⟩
  · refine ⟨new, hsame.trans heq, hnodup, fun c ↦ ?_⟩
    rw [hmem, offered_append]
    refine and_congr_right fun habsent ↦ ⟨Or.inl, ?_⟩
    rintro (hoffered | ⟨hb, rfl⟩)
    · exact hoffered
    · have hthere := hold (hcongr.mp hb)
      rw [heq, List.mem_append, hmem] at hthere
      rcases hthere with hb' | hb'
      · exact absurd hb' habsent
      · exact hb'.2
  · rw [heq, List.mem_append, not_or] at hfresh
    refine ⟨new ++ [hc.content], by rw [happend, heq, List.append_assoc], ?_, fun c ↦ ?_⟩
    · refine List.Nodup.append hnodup (List.nodup_singleton _) fun c hc' hlast ↦ ?_
      rw [List.mem_singleton.mp hlast] at hc'
      exact hfresh.2 hc'
    · rw [List.mem_append, hmem, offered_append, List.mem_singleton]
      constructor
      · rintro (⟨habsent, hoffered⟩ | rfl)
        · exact ⟨habsent, Or.inl hoffered⟩
        · exact ⟨hfresh.1, Or.inr ⟨hcongr.mpr hconfirms, rfl⟩⟩
      · rintro ⟨habsent, hoffered | ⟨-, rfl⟩⟩
        · exact Or.inl ⟨habsent, hoffered⟩
        · exact Or.inr rfl

theorem addConfirmation_eq_self (hid : hc.blockID ≠ b.blockID) : b.addConfirmation hc = b := by
  unfold addConfirmation
  rw [if_pos (Or.inr hid)]

theorem length_le_addConfirmation (b : BlockState) (hc : HeaderConfirmation) :
    b.contents.length ≤ (b.addConfirmation hc).contents.length := by
  rcases contents_addConfirmation b hc with ⟨heq, -⟩ | ⟨heq, -⟩
  · rw [heq]
  · rw [heq]
    simp

theorem addConfirmation_frame (b : BlockState) (hc : HeaderConfirmation) :
    (b.addConfirmation hc).blockNumber = b.blockNumber ∧
      (b.addConfirmation hc).blockID = b.blockID ∧
      (b.addConfirmation hc).activeProducers = b.activeProducers ∧
      (b.addConfirmation hc).bftSolidifyBlockNumber = b.bftSolidifyBlockNumber := by
  rcases Quorum.addConfirmation_cases b hc with ⟨heq, -⟩ | ⟨-, -, heq⟩
  · rw [heq]
    exact ⟨rfl, rfl, rfl, rfl⟩
  · rw [heq]
    exact ⟨rfl, rfl, rfl, rfl⟩

/-- The flag after the quorum test that every confirmation of the block makes. -/
theorem confirm_spec (b : BlockState) (hc : HeaderConfirmation) :
    (RollbackState.confirm hc b).blockNumber = b.blockNumber ∧
      (RollbackState.confirm hc b).blockID = b.blockID ∧
      (RollbackState.confirm hc b).activeProducers = b.activeProducers ∧
      (RollbackState.confirm hc b).contents = (b.addConfirmation hc).contents ∧
      (RollbackState.confirm hc b).bftSolidifyBlockNumber =
        if b.bftSolidifyBlockNumber < b.blockNumber ∧
          b.activeProducers.size * 2 / 3 ≤ (b.addConfirmation hc).contents.length then
          b.blockNumber else b.bftSolidifyBlockNumber := by
  obtain ⟨hnumber, hid, hproducers, hbft⟩ := addConfirmation_frame b hc
  have hquorum : (b.addConfirmation hc).reachesQuorum = true ↔
      b.bftSolidifyBlockNumber < b.blockNumber ∧
        b.activeProducers.size * 2 / 3 ≤ (b.addConfirmation hc).contents.length := by
    simp only [reachesQuorum, Bool.and_eq_true, decide_eq_true_eq, hnumber, hproducers, hbft,
      contents, List.length_map]
  rw [Quorum.confirm_eq]
  by_cases h : (b.addConfirmation hc).reachesQuorum = true
  · rw [if_pos h, if_pos (hquorum.mp h)]
    exact ⟨hnumber, hid, hproducers, rfl, hnumber⟩
  · rw [if_neg h, if_neg (mt hquorum.mpr h)]
    exact ⟨hnumber, hid, hproducers, rfl, hbft⟩

theorem Collected.receive (h : Collected b hs b') (hc : HeaderConfirmation) :
    Collected b (hs ++ [hc]) (b'.receive hc) := by
  have hgained := h.gained_addConfirmation hc
  unfold BlockState.receive
  by_cases hid : b'.blockID = hc.blockID
  · rw [if_pos (beq_iff_eq.mpr hid)]
    obtain ⟨hnumber, hsame, hproducers, hcontents, hbft⟩ := confirm_spec b' hc
    refine ⟨hnumber.trans h.number, hsame.trans h.id, hproducers.trans h.producers,
      hcontents ▸ hgained, ?_⟩
    have hmono := length_le_addConfirmation b' hc
    have hany : ∃ d ∈ hs ++ [hc], d.blockID = b.blockID :=
      ⟨hc, by simp, hid.symm.trans h.id⟩
    rw [hbft, hcontents, h.number, h.producers, h.solid]
    simp only [hany, true_and]
    split_ifs <;> omega
  · rw [if_neg (mt beq_iff_eq.mp hid)]
    rw [addConfirmation_eq_self (Ne.symm hid)] at hgained
    refine ⟨h.number, h.id, h.producers, hgained, ?_⟩
    have hany : (∃ d ∈ hs ++ [hc], d.blockID = b.blockID) ↔ ∃ d ∈ hs, d.blockID = b.blockID := by
      constructor
      · rintro ⟨d, hd, heq⟩
        rcases List.mem_append.mp hd with hd | hd
        · exact ⟨d, hd, heq⟩
        · rw [List.mem_singleton.mp hd, ← h.id] at heq
          exact absurd heq.symm hid
      · rintro ⟨d, hd, heq⟩
        exact ⟨d, List.mem_append_left _ hd, heq⟩
    rw [h.solid]
    simp only [hany]

theorem collected_foldl (b : BlockState) (hs : List HeaderConfirmation) :
    Collected b hs (hs.foldl BlockState.receive b) := by
  induction hs using List.reverseRecOn with
  | nil => exact collected_nil b
  | append_singleton hs hc ih =>
    rw [List.foldl_append]
    exact ih.receive hc

structure Alike (b c : BlockState) : Prop where
  number : c.blockNumber = b.blockNumber
  id : c.blockID = b.blockID
  producers : c.activeProducers = b.activeProducers
  contents : c.contents = b.contents
  bft : c.bftSolidifyBlockNumber = b.bftSolidifyBlockNumber

theorem Alike.refl (b : BlockState) : Alike b b := ⟨rfl, rfl, rfl, rfl, rfl⟩

theorem Collected.solid_eq {hs' : List HeaderConfirmation} (h : Collected b hs b')
    (h' : Collected c hs' c') (halike : Alike b c) (hmem : ∀ d, d ∈ hs ↔ d ∈ hs') :
    c'.bftSolidifyBlockNumber = b'.bftSolidifyBlockNumber := by
  have hconfirms (d : HeaderConfirmation) : Confirms d b ↔ Confirms d c :=
    ⟨fun hb ↦ hb.congr halike.number halike.id halike.producers,
      fun hb ↦ hb.congr halike.number.symm halike.id.symm halike.producers.symm⟩
  have hlength : c'.contents.length = b'.contents.length := by
    obtain ⟨new, heq, hnodup, hnew⟩ := h.gained
    obtain ⟨new', heq', hnodup', hnew'⟩ := h'.gained
    have hperm : new'.Perm new := by
      refine (List.perm_ext_iff_of_nodup hnodup' hnodup).mpr fun d ↦ ?_
      rw [hnew, hnew', halike.contents]
      simp only [Offered, hmem, hconfirms]
    rw [heq, heq', halike.contents, List.length_append, List.length_append, hperm.length_eq]
  rw [h.solid, h'.solid]
  simp only [hmem, hlength, halike.number, halike.id, halike.producers, halike.bft]

end BlockState

inductive Delivery
  | block (block : Block)
  | confirmation (hc : HeaderConfirmation)

namespace Delivery

open RollbackState BlockState

def blocks (order : List Delivery) : List Block :=
  order.filterMap fun
    | .block b => some b
    | .confirmation _ => none

def confirmations (order : List Delivery) : List HeaderConfirmation :=
  order.filterMap fun
    | .block _ => none
    | .confirmation hc => some hc

section

variable (sha3 : Bytes → H256) (garbage : UInt8) (snapshot : BlockID → ProducerSnapshot)

def hashes (order : List Delivery) : List BlockID := (blocks order).map (Block.getHash sha3)

def operation : Delivery → Operation
  | .block b => .add b (snapshot (b.getHash sha3))
  | .confirmation hc => .confirmation hc

def deliver (x : RollbackState) (d : Delivery) : RollbackState :=
  x.perform sha3 garbage (d.operation sha3 snapshot)

/-- Every block comes after its parent, the blocks `known` being there already. -/
def ParentFirst (known : List BlockID) : List Delivery → Prop
  | [] => True
  | .block b :: order =>
    b.getParentHash ∈ known ∧ ParentFirst (b.getHash sha3 :: known) order
  | .confirmation _ :: order => ParentFirst known order

def BlockFirst (known : List BlockID) : List Delivery → Prop
  | [] => True
  | .block b :: order => BlockFirst (b.getHash sha3 :: known) order
  | .confirmation hc :: order =>
    (hc.blockID ∈ known ∨ hc.blockID ∉ hashes sha3 order) ∧ BlockFirst known order

def solid (x : RollbackState) : Set BlockID :=
  { id | ∃ b ∈ x.index, b.blockID = id ∧ b.bftSolidifyBlockNumber = b.blockNumber }

def fresh (b : Block) : BlockState :=
  { BlockState.ofBlock sha3 garbage b with activeProducers := snapshot (b.getHash sha3) }

/-- The index of `y` is that of `x` with the new blocks, each having received every
confirmation. -/
structure Tracks (x : RollbackState) (order : List Delivery) (y : RollbackState) : Prop where
  old : ∀ b ∈ x.index, (confirmations order).foldl receive b ∈ y.index
  new : ∀ b ∈ blocks order, b.getHash sha3 ∉ ids x.index →
    ∃ c ∈ blocks order, c.getHash sha3 = b.getHash sha3 ∧
      (confirmations order).foldl receive (fresh sha3 garbage snapshot c) ∈ y.index
  origin : ∀ b ∈ y.index, (∃ c ∈ x.index, b = (confirmations order).foldl receive c) ∨
    ∃ c ∈ blocks order, c.getHash sha3 ∉ ids x.index ∧
      b = (confirmations order).foldl receive (fresh sha3 garbage snapshot c)

end

section Steps

variable {sha3 : Bytes → H256} {garbage : UInt8} {snapshot : BlockID → ProducerSnapshot}
  {x y : RollbackState} {order : List Delivery} {b : Block} {hc : HeaderConfirmation}

theorem fresh_blockID (b : Block) :
    (fresh sha3 garbage snapshot b).blockID = b.getHash sha3 := rfl

theorem deliver_existing (hexist : b.getHash sha3 ∈ ids x.index) :
    deliver sha3 garbage snapshot x (.block b) = x := by
  simp only [deliver, operation, perform, RollbackState.add,
    (ForkIndex.isSome_getBlock x _).mpr hexist, if_true]
  rfl

theorem deliver_fresh (hnew : b.getHash sha3 ∉ ids x.index)
    (hparent : b.getParentHash ∈ ids x.index) :
    deliver sha3 garbage snapshot x (.block b) =
      ForkIndex.inserted x (fresh sha3 garbage snapshot b) := by
  have hnone : ¬ (x.getBlock (b.getHash sha3)).isSome = true :=
    mt (ForkIndex.isSome_getBlock x _).mp hnew
  have hsome : ¬ (x.getBlock b.getParentHash).isNone = true := by
    rw [Option.isNone_iff_eq_none, ← ne_eq, ← Option.isSome_iff_ne_none]
    exact (ForkIndex.isSome_getBlock x _).mpr hparent
  simp only [deliver, operation, perform, RollbackState.add, if_neg hnone, if_neg hsome]
  rfl

theorem ids_deliver_confirmation :
    ids (deliver sha3 garbage snapshot x (.confirmation hc)).index = ids x.index :=
  ForkIndex.ids_map (Control.same_confirm hc)

theorem ids_inserted (new : BlockState) :
    ids (ForkIndex.inserted x new).index = ids x.index ++ [new.blockID] := by
  simp [ForkIndex.inserted, ids]

theorem Tracks.existing (h : Tracks sha3 garbage snapshot x order y)
    (hexist : b.getHash sha3 ∈ ids x.index) :
    Tracks sha3 garbage snapshot x (.block b :: order) y := by
  refine ⟨h.old, fun c hc hnew ↦ ?_, fun c hc ↦ ?_⟩
  · rcases List.mem_cons.mp hc with rfl | hc
    · exact absurd hexist hnew
    · obtain ⟨d, hd, hhash, hmem⟩ := h.new c hc hnew
      exact ⟨d, List.mem_cons_of_mem _ hd, hhash, hmem⟩
  · rcases h.origin c hc with hold | ⟨d, hd, hnew, heq⟩
    · exact Or.inl hold
    · exact Or.inr ⟨d, List.mem_cons_of_mem _ hd, hnew, heq⟩

theorem Tracks.inserted (h : Tracks sha3 garbage snapshot
      (ForkIndex.inserted x (fresh sha3 garbage snapshot b)) order y)
    (hnew : b.getHash sha3 ∉ ids x.index) :
    Tracks sha3 garbage snapshot x (.block b :: order) y := by
  have hids := ids_inserted (x := x) (fresh sha3 garbage snapshot b)
  have hlast : fresh sha3 garbage snapshot b ∈
      (ForkIndex.inserted x (fresh sha3 garbage snapshot b)).index :=
    List.mem_append_right _ (List.mem_singleton_self _)
  refine ⟨fun c hc ↦ h.old c (List.mem_append_left _ hc), fun c hc habsent ↦ ?_, fun c hc ↦ ?_⟩
  · by_cases hsame : c.getHash sha3 = b.getHash sha3
    · exact ⟨b, List.mem_cons_self, hsame.symm, h.old _ hlast⟩
    · rcases List.mem_cons.mp hc with rfl | hc
      · exact absurd rfl hsame
      · have habsent' : c.getHash sha3 ∉
            ids (ForkIndex.inserted x (fresh sha3 garbage snapshot b)).index := by
          rw [hids, List.mem_append, List.mem_singleton]
          rintro (hmem | heq)
          · exact habsent hmem
          · exact hsame heq
        obtain ⟨d, hd, hhash, hmem⟩ := h.new c hc habsent'
        exact ⟨d, List.mem_cons_of_mem _ hd, hhash, hmem⟩
  · rcases h.origin c hc with ⟨d, hd, heq⟩ | ⟨d, hd, habsent, heq⟩
    · rcases List.mem_append.mp hd with hd | hd
      · exact Or.inl ⟨d, hd, heq⟩
      · rw [List.mem_singleton.mp hd] at heq
        exact Or.inr ⟨b, List.mem_cons_self, hnew, heq⟩
    · rw [hids, List.mem_append, not_or] at habsent
      exact Or.inr ⟨d, List.mem_cons_of_mem _ hd, habsent.1, heq⟩

theorem receive_eq_self {b : BlockState} (hid : hc.blockID ≠ b.blockID) : b.receive hc = b := by
  unfold receive
  rw [if_neg (mt beq_iff_eq.mp (Ne.symm hid))]

theorem Tracks.confirmation
    (h : Tracks sha3 garbage snapshot (deliver sha3 garbage snapshot x (.confirmation hc)) order y)
    (hfirst : hc.blockID ∈ ids x.index ∨ hc.blockID ∉ hashes sha3 order) :
    Tracks sha3 garbage snapshot x (.confirmation hc :: order) y := by
  have hids : ids (deliver sha3 garbage snapshot x (.confirmation hc)).index = ids x.index :=
    ids_deliver_confirmation
  -- a block that is still to come is not the one confirmed here
  have hpast (c : Block) (hc' : c ∈ blocks order) (habsent : c.getHash sha3 ∉ ids x.index) :
      (fresh sha3 garbage snapshot c).receive hc = fresh sha3 garbage snapshot c := by
    refine receive_eq_self fun heq ↦ ?_
    rw [fresh_blockID] at heq
    rw [heq] at hfirst
    rcases hfirst with hthere | hnever
    · exact habsent hthere
    · exact hnever (List.mem_map_of_mem hc')
  refine ⟨fun c hc' ↦ h.old (c.receive hc) (List.mem_map_of_mem hc'), fun c hc' habsent ↦ ?_,
    fun c hc' ↦ ?_⟩
  · have habsent' := habsent
    rw [← hids] at habsent'
    obtain ⟨d, hd, hhash, hmem⟩ := h.new c hc' habsent'
    rw [← hhash] at habsent
    rw [← hpast d hd habsent] at hmem
    exact ⟨d, hd, hhash, hmem⟩
  · rcases h.origin c hc' with ⟨d, hd, heq⟩ | ⟨d, hd, habsent, heq⟩
    · obtain ⟨d₀, hd₀, rfl⟩ := List.mem_map.mp hd
      exact Or.inl ⟨d₀, hd₀, heq⟩
    · rw [hids] at habsent
      rw [← hpast d hd habsent] at heq
      exact Or.inr ⟨d, hd, habsent, heq⟩

end Steps

section Runs

variable {sha3 : Bytes → H256} {garbage : UInt8} {snapshot : BlockID → ProducerSnapshot}

theorem tracks_foldl (garbage : UInt8) (snapshot : BlockID → ProducerSnapshot)
    (order : List Delivery) (x : RollbackState) (known : List BlockID)
    (hknown : ∀ i, i ∈ known ↔ i ∈ ids x.index) (hparent : ParentFirst sha3 known order)
    (hblock : BlockFirst sha3 known order) :
    Tracks sha3 garbage snapshot x order (order.foldl (deliver sha3 garbage snapshot) x) := by
  induction order generalizing x known with
  | nil => exact ⟨fun b hb ↦ hb, fun b hb ↦ absurd hb List.not_mem_nil,
      fun b hb ↦ Or.inl ⟨b, hb, rfl⟩⟩
  | cons d order ih =>
    rw [List.foldl_cons]
    cases d with
    | block b =>
      by_cases hexist : b.getHash sha3 ∈ ids x.index
      · rw [deliver_existing hexist]
        refine (ih x _ (fun i ↦ ?_) hparent.2 hblock).existing hexist
        rw [List.mem_cons, hknown]
        exact ⟨fun h ↦ h.elim (fun heq ↦ heq ▸ hexist) id, Or.inr⟩
      · rw [deliver_fresh hexist ((hknown _).mp hparent.1)]
        refine (ih _ _ (fun i ↦ ?_) hparent.2 hblock).inserted hexist
        rw [List.mem_cons, hknown, ids_inserted, List.mem_append, List.mem_singleton, or_comm]
        rfl
    | confirmation hc =>
      refine (ih _ known (fun i ↦ ?_) hparent hblock.2).confirmation ?_
      · rw [hknown, ids_deliver_confirmation]
      · rw [← hknown]
        exact hblock.1

theorem alike_fresh {b c : Block} (hid : b.getHash sha3 = c.getHash sha3)
    (hnumber : b.getNumber = c.getNumber) :
    Alike (fresh sha3 garbage snapshot b) (fresh sha3 garbage snapshot c) where
  number := hnumber.symm
  id := hid.symm
  producers := congrArg snapshot hid.symm
  contents := rfl
  bft := rfl

/-- What is solid after one order has an entry that is solid after the other. -/
theorem solid_subset {x y z : RollbackState} {order order' : List Delivery}
    (hperm : order.Perm order')
    (hnumber : ∀ b ∈ blocks order, ∀ c ∈ blocks order, b.getHash sha3 = c.getHash sha3 →
      b.getNumber = c.getNumber)
    (hy : Tracks sha3 garbage snapshot x order y)
    (hz : Tracks sha3 garbage snapshot x order' z) : solid y ⊆ solid z := by
  have hconfirmations (hc : HeaderConfirmation) :
      hc ∈ confirmations order ↔ hc ∈ confirmations order' := (hperm.filterMap _).mem_iff
  have hblocks (b : Block) : b ∈ blocks order ↔ b ∈ blocks order' := (hperm.filterMap _).mem_iff
  -- both are what their first states become under the same confirmations
  have htransfer {b c : BlockState} (halike : Alike b c)
      (hsolid : ((confirmations order).foldl receive b).bftSolidifyBlockNumber =
        ((confirmations order).foldl receive b).blockNumber)
      (hmem : (confirmations order').foldl receive c ∈ z.index) :
      ((confirmations order).foldl receive b).blockID ∈ solid z := by
    have hb := collected_foldl b (confirmations order)
    have hc := collected_foldl c (confirmations order')
    refine ⟨_, hmem, ?_, ?_⟩
    · rw [hc.id, hb.id, halike.id]
    · rw [hb.solid_eq hc halike hconfirmations, hsolid, hc.number, hb.number, halike.number]
  rintro _ ⟨b, hb, rfl, hsolid⟩
  rcases hy.origin b hb with ⟨c, hc, rfl⟩ | ⟨c, hc, habsent, rfl⟩
  · exact htransfer (Alike.refl c) hsolid (hz.old c hc)
  · obtain ⟨d, hd, hhash, hmem⟩ := hz.new c ((hblocks c).mp hc) habsent
    have hsame := hnumber c hc d ((hblocks d).mpr hd) hhash.symm
    exact htransfer (alike_fresh hhash.symm hsame) hsolid hmem

/-- Two orders of one set of blocks and confirmations, in which parents come before their children
and blocks before their confirmations, mark the same blocks. -/
theorem solid_eq_of_perm (sha3 : Bytes → H256) (garbage : UInt8)
    (snapshot : BlockID → ProducerSnapshot) (x : RollbackState) (order order' : List Delivery)
    (hperm : order.Perm order')
    (hnumber : ∀ b ∈ blocks order, ∀ c ∈ blocks order, b.getHash sha3 = c.getHash sha3 →
      b.getNumber = c.getNumber)
    (hparent : ParentFirst sha3 (ids x.index) order)
    (hparent' : ParentFirst sha3 (ids x.index) order')
    (hblock : BlockFirst sha3 (ids x.index) order)
    (hblock' : BlockFirst sha3 (ids x.index) order') :
    solid (order.foldl (deliver sha3 garbage snapshot) x) =
      solid (order'.foldl (deliver sha3 garbage snapshot) x) := by
  have htracks := tracks_foldl garbage snapshot order x _
    (fun _ ↦ Iff.rfl) hparent hblock
  have htracks' := tracks_foldl garbage snapshot order' x _
    (fun _ ↦ Iff.rfl) hparent' hblock'
  refine Set.Subset.antisymm (solid_subset hperm hnumber htracks htracks') ?_
  refine solid_subset hperm.symm (fun b hb c hc ↦ ?_) htracks' htracks
  exact hnumber b ((hperm.filterMap _).mem_iff.mpr hb) c ((hperm.filterMap _).mem_iff.mpr hc)

end Runs

section Race

def trioSnapshot (_ : BlockID) : ProducerSnapshot := trioAttributes.currentProducerList

def punctual : List Delivery :=
  [.block trioFirst, .confirmation (trioConfirmation 2 1), .confirmation (trioConfirmation 2 2)]

def swapped : List Delivery :=
  [.block trioFirst, .confirmation (trioConfirmation 2 2), .confirmation (trioConfirmation 2 1)]

def racing : List Delivery :=
  [.confirmation (trioConfirmation 2 1), .block trioFirst, .confirmation (trioConfirmation 2 2)]

def start : RollbackState := first trioChain.head

def after (order : List Delivery) : RollbackState :=
  order.foldl (deliver trioEnv.sha3 trioEnv.garbage trioSnapshot) start

instance (x : RollbackState) (id : BlockID) : Decidable (id ∈ solid x) :=
  inferInstanceAs (Decidable (∃ b ∈ x.index, b.blockID = id ∧
    b.bftSolidifyBlockNumber = b.blockNumber))

theorem parentFirst_punctual : ParentFirst trioEnv.sha3 (ids start.index) punctual :=
  ⟨by decide +kernel, trivial⟩

theorem numbers_punctual : ∀ b ∈ blocks punctual, ∀ c ∈ blocks punctual,
    b.getHash trioEnv.sha3 = c.getHash trioEnv.sha3 → b.getNumber = c.getNumber := by
  decide +kernel

theorem solid_eq_of_perm_trio : 2 ∈ solid (after punctual) ∧
    solid (after punctual) = solid (after swapped) := by
  refine ⟨by decide +kernel, solid_eq_of_perm _ _ _ start punctual swapped ?_ numbers_punctual
    parentFirst_punctual ⟨?_, trivial⟩ ⟨Or.inl ?_, Or.inl ?_, trivial⟩
    ⟨Or.inl ?_, Or.inl ?_, trivial⟩⟩
  · exact (List.Perm.swap _ _ []).cons _
  all_goals decide +kernel

/-- The confirmation that overtakes its block is dropped, and the other one does not suffice. -/
theorem overtaking_lost : punctual.Perm racing ∧
    ParentFirst trioEnv.sha3 (ids start.index) punctual ∧
    ParentFirst trioEnv.sha3 (ids start.index) racing ∧
    2 ∈ solid (after punctual) ∧ 2 ∉ solid (after racing) := by
  refine ⟨List.Perm.swap _ _ _, parentFirst_punctual, ⟨?_, trivial⟩, ?_, ?_⟩
  all_goals decide +kernel

end Race

end Delivery

end GseNetwork.Chain
