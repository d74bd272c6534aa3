import GseNetwork.Chain.FrontReads
import GseNetwork.Chain.Lineage

namespace GseNetwork.Chain

open GseNetwork.Core GseNetwork.Foundation
open ForkIndex (byNumber ids Parent Line Descends)
open Relation (ReflTransGen TransGen)
open BlockChain

namespace Control

variable {sha3 : Bytes → H256} {initial : Block} {c c' : Control} {number : ℕ}

/-- A beginning `l` of the queue is committed, and exactly its blocks and the last committed block
before them leave the index. -/
structure Pruned (sha3 : Bytes → H256) (initial : Block) (number : ℕ) (l : List (ℕ × Block))
    (c c' : Control) : Prop where
  queue_eq : c.queue = l ++ c'.queue
  last_eq : c'.lastCommitted initial = (l.map (·.2)).getLastD (c.lastCommitted initial)
  bound : ∀ i ∈ l, i.1 ≤ number
  idle : l = [] → c'.rollbackState.index = c.rollbackState.index
  mem_iff : l ≠ [] → ∀ b, b ∈ c'.rollbackState.index ↔ b ∈ c.rollbackState.index ∧
    ∀ q ∈ c.lastCommitted initial :: l.map (·.2), b.blockID ≠ q.getHash sha3

theorem Pruned.cons {item : ℕ × Block} {queue l : List (ℕ × Block)} {b : BlockState}
    (hbase : Base sha3 initial c) (hqueue : c.queue = item :: queue) (hle : item.1 ≤ number)
    (hb : byNumber c.rollbackState.index item.1 = some b)
    (h : Pruned sha3 initial number l (c.commitFront item queue b) c') :
    Pruned sha3 initial number (item :: l) c c' := by
  have hlast : (c.commitFront item queue b).lastCommitted initial = item.2 :=
    lastCommitted_commitFront
  have hid : b.blockID = item.2.getHash sha3 := by
    rw [(hbase.wf.ofBlock b (ForkIndex.mem_of_byNumber hb).1).id_eq, hbase.block_eq hqueue hb]
  have hround : ∀ d, d ∈ (c.commitFront item queue b).rollbackState.index ↔
      d ∈ c.rollbackState.index ∧ d.blockID ≠ item.2.getHash sha3 ∧
        d.blockID ≠ (c.lastCommitted initial).getHash sha3 := by
    intro d
    change d ∈ (c.rollbackState.remove b.blockID).index ↔ _
    rw [hbase.remove_front hqueue hb, List.mem_filter, hid]
    simp
  refine ⟨?_, ?_, ?_, fun hnil ↦ absurd hnil (List.cons_ne_nil _ _), fun _ d ↦ ?_⟩
  · rw [hqueue, List.cons_append]
    exact congrArg (item :: ·) h.queue_eq
  · rw [h.last_eq, hlast, List.map_cons, List.getLastD_cons]
  · intro i hi
    rcases List.mem_cons.mp hi with rfl | hi
    · exact hle
    · exact h.bound i hi
  · simp only [List.map_cons, List.mem_cons, forall_eq_or_imp]
    by_cases hl : l = []
    · rw [h.idle hl, hround, hl]
      constructor
      · rintro ⟨hd, hitem, hold⟩
        exact ⟨hd, hold, hitem, fun q hq ↦ by cases hq⟩
      · rintro ⟨hd, hold, hitem, -⟩
        exact ⟨hd, hitem, hold⟩
    · rw [h.mem_iff hl, hround, hlast]
      simp only [List.mem_cons, forall_eq_or_imp]
      constructor
      · rintro ⟨⟨hd, -, hold⟩, hitem, hrest⟩
        exact ⟨hd, hold, hitem, hrest⟩
      · rintro ⟨hd, hold, hitem, hrest⟩
        exact ⟨⟨hd, hitem, hold⟩, hitem, hrest⟩

section Lineage

variable {index : List BlockState} {p q : Block} {l : List Block}

structure Trunk (sha3 : Bytes → H256) (index : List BlockState) (p : Block) (l : List Block) :
    Prop where
  wf : ForkIndex.WellFormed sha3 index
  chain : (p :: l).IsChain (Follows sha3)
  mem : ∀ q ∈ l, ∃ b ∈ index, b.block = q ∧ b.blockID = q.getHash sha3
  past : p.getHash sha3 ∉ ids index ∨
    (∃ b ∈ index, b.block = p) ∧ p.getParentHash ∉ ids index

theorem Trunk.block_eq (h : Trunk sha3 index p l) {b : BlockState} (hb : b ∈ index)
    (hq : q ∈ p :: l) (hid : b.blockID = q.getHash sha3) : b.block = q := by
  rcases List.mem_cons.mp hq with rfl | hq
  · rcases h.past with hgone | ⟨⟨d, hd, hblock⟩, -⟩
    · exact absurd (hid ▸ List.mem_map_of_mem hb) hgone
    · have hdid : d.blockID = q.getHash sha3 := by rw [(h.wf.ofBlock d hd).id_eq, hblock]
      rw [h.wf.eq_of_id hb hd (hid.trans hdid.symm)]
      exact hblock
  · obtain ⟨d, hd, hblock, hdid⟩ := h.mem q hq
    rw [h.wf.eq_of_id hb hd (hid.trans hdid.symm)]
    exact hblock

end Lineage

end Control

section Siblings

end Siblings

end GseNetwork.Chain
