import GseNetwork.Chain.Node

namespace GseNetwork.Chain.Control

open GseNetwork.Core GseNetwork.Foundation
open ForkIndex (byNumber ids OfBlock)

variable {sha3 : Bytes → H256} {initial : Block} {c c' : Control} {new : BlockState} {number : ℕ}

/-- The block of `m_head` is the one that its number is looked up as. -/
def Live (c : Control) : Prop :=
  ∃ b, byNumber c.rollbackState.index c.head.blockNumber = some b ∧ b.block = c.head.block

/-- How `m_head` relates to the executed chain: it is the last executed block; it is that block
but no longer in the fork index; or it is a block one further that has not been executed. -/
inductive Mode (initial : Block) (c : Control) : Prop
  | following (hhead : c.head.block = c.tip initial) (hlive : c.Live)
  | severed (hhead : c.head.block = c.tip initial) (hempty : c.queue = [])
      (hgone : c.head.blockID ∉ ids c.rollbackState.index)
  | stuck (hnumber : c.head.blockNumber = (c.tip initial).getNumber + 1) (hlive : c.Live)

structure Linked (sha3 : Bytes → H256) (initial : Block) (c : Control) : Prop
    extends Base sha3 initial c where
  latest : c.latestBlockNumber = (c.tip initial).getNumber
  headOf : OfBlock sha3 c.head
  rollbackHeadOf : OfBlock sha3 c.rollbackState.head
  sameHead : c.rollbackState.head.block = c.head.block
  bounded : ∀ b ∈ c.rollbackState.index, b.blockNumber ≤ c.head.blockNumber
  loopless : c.head.getPrev ≠ c.head.blockID
  mode : Mode initial c
  cached : c.Cached

theorem Base.lastCommitted_le_tip (h : Base sha3 initial c) :
    (c.lastCommitted initial).getNumber ≤ (c.tip initial).getNumber := by
  rw [tip_eq]
  rcases List.eq_nil_or_concat c.blocks with hnil | ⟨l, last, hlast⟩
  · rw [hnil]
    exact le_rfl
  · have hlt := number_lt_of_isChain h.chain last (by simp [hlast])
    rw [hlast, List.getLastD_eq_getLast?]
    simpa using hlt.le

theorem Base.lastCommitted_lt_tip (h : Base sha3 initial c) (hne : c.queue ≠ []) :
    (c.lastCommitted initial).getNumber < (c.tip initial).getNumber := by
  rw [tip_eq]
  rcases List.eq_nil_or_concat c.blocks with hnil | ⟨l, last, hlast⟩
  · exact absurd (List.map_eq_nil_iff.mp hnil) hne
  · have hlt := number_lt_of_isChain h.chain last (by simp [hlast])
    rw [hlast, List.getLastD_eq_getLast?]
    simpa using hlt

theorem tip_of_queue_nil (hnil : c.queue = []) : c.tip initial = c.lastCommitted initial := by
  rw [tip_eq, blocks, hnil]
  rfl

section Confirm

theorem same_confirm (hc : HeaderConfirmation) (b : BlockState) :
    ForkIndex.Same b (if b.blockID == hc.blockID then RollbackState.confirm hc b else b) := by
  have hadd : ForkIndex.Same b (b.addConfirmation hc) := by
    rcases Quorum.addConfirmation_cases b hc with ⟨heq, -⟩ | ⟨-, -, heq⟩
    · rw [heq]
      exact ⟨rfl, rfl, rfl⟩
    · rw [heq]
      exact ⟨rfl, rfl, rfl⟩
  split_ifs
  · rw [Quorum.confirm_eq]
    split_ifs
    · exact ⟨hadd.block, hadd.number, hadd.id⟩
    · exact hadd
  · exact ⟨rfl, rfl, rfl⟩

theorem byNumber_confirm (hc : HeaderConfirmation) {block : Block} {m : ℕ}
    (h : ∃ b, byNumber c.rollbackState.index m = some b ∧ b.block = block) :
    ∃ b, byNumber (c.confirm hc).rollbackState.index m = some b ∧ b.block = block := by
  obtain ⟨b, hb, hblock⟩ := h
  refine ⟨_, ?_, (same_confirm hc b).block.trans hblock⟩
  change byNumber (c.rollbackState.index.map _) m = _
  rw [ForkIndex.byNumber_map (same_confirm hc), hb]
  rfl

theorem ids_confirm (c : Control) (hc : HeaderConfirmation) :
    ids (c.confirm hc).rollbackState.index = ids c.rollbackState.index :=
  ForkIndex.ids_map (same_confirm hc)

theorem mem_confirm {hc : HeaderConfirmation} {b : BlockState}
    (hb : b ∈ (c.confirm hc).rollbackState.index) :
    ∃ b₀ ∈ c.rollbackState.index, ForkIndex.Same b₀ b := by
  obtain ⟨b₀, hb₀, rfl⟩ := List.mem_map.mp hb
  exact ⟨b₀, hb₀, same_confirm hc b₀⟩

theorem Base.confirm (h : Base sha3 initial c) (hc : HeaderConfirmation) :
    Base sha3 initial (c.confirm hc) := by
  refine ⟨h.items, h.linked, h.height, h.wf.map (same_confirm hc),
    fun i hi ↦ byNumber_confirm hc (h.queued i hi), ?_⟩
  rw [ids_confirm]
  refine h.past.imp_right fun ⟨⟨b, hb, hblock⟩, hparent⟩ ↦
    ⟨⟨_, List.mem_map_of_mem hb, ?_⟩, hparent⟩
  exact (same_confirm hc b).block.trans hblock

theorem Linked.confirm (h : Linked sha3 initial c) (hc : HeaderConfirmation) :
    Linked sha3 initial (c.confirm hc) := by
  refine ⟨h.toBase.confirm hc, h.latest, h.headOf, h.rollbackHeadOf, h.sameHead, ?_, h.loopless,
    ?_, h.cached⟩
  · intro b hb
    obtain ⟨b₀, hb₀, hsame⟩ := mem_confirm hb
    rw [hsame.number]
    exact h.bounded b₀ hb₀
  · cases h.mode with
    | following hhead hlive => exact .following hhead (byNumber_confirm hc hlive)
    | severed hhead hempty hgone =>
      refine .severed hhead hempty ?_
      rw [ids_confirm]
      exact hgone
    | stuck hnumber hlive => exact .stuck hnumber (byNumber_confirm hc hlive)

theorem Linked.send (env : Env) (h : Linked sha3 initial c) (block : Block) :
    Linked sha3 initial (c.send env block) := by
  unfold Control.send
  split_ifs
  · exact h
  · have hconfirm := h.confirm (BlockChain.ownConfirmation env block)
    exact { hconfirm with mode := by cases hconfirm.mode with
      | following hhead hlive => exact .following hhead hlive
      | severed hhead hempty hgone => exact .severed hhead hempty hgone
      | stuck hnumber hlive => exact .stuck hnumber hlive }

theorem Live.send (h : c.Live) (env : Env) (block : Block) : (c.send env block).Live := by
  unfold Control.send
  split_ifs
  · exact h
  · exact byNumber_confirm _ h

@[simp] theorem tip_send (env : Env) (c : Control) (block : Block) :
    (c.send env block).tip initial = c.tip initial := by
  unfold Control.send
  split <;> rfl

@[simp] theorem head_send (env : Env) (c : Control) (block : Block) :
    (c.send env block).head = c.head := by
  unfold Control.send
  split <;> rfl

end Confirm

end GseNetwork.Chain.Control
