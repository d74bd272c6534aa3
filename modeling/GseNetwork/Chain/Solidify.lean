import GseNetwork.Chain.Control
import GseNetwork.Chain.ForkIndex

namespace GseNetwork.Chain

open GseNetwork.Core GseNetwork.Foundation
open ForkIndex (byNumber ids)

structure Follows (sha3 : Bytes → H256) (p q : Block) : Prop where
  parent : q.getParentHash = p.getHash sha3
  number : q.getNumber = p.getNumber + 1

theorem isChain_getLastD {α : Type} {R : α → α → Prop} {l m : List α} {a : α}
    (h : (a :: (l ++ m)).IsChain R) : (l.getLastD a :: m).IsChain R := by
  induction l generalizing a with
  | nil => exact h
  | cons b l ih =>
    rw [List.getLastD_cons]
    exact ih h.tail

theorem number_lt_of_isChain {sha3 : Bytes → H256} {p : Block} {l : List Block}
    (h : (p :: l).IsChain (Follows sha3)) : ∀ q ∈ l, p.getNumber < q.getNumber := by
  induction l generalizing p with
  | nil =>
    intro q hq
    cases hq
  | cons r l ih =>
    obtain ⟨hr, hl⟩ := List.isChain_cons_cons.mp h
    intro q hq
    have hnumber := hr.number
    cases hq with
    | head => omega
    | tail _ hq =>
      have hlt := ih hl q hq
      omega

namespace Control

variable {sha3 : Bytes → H256} {initial : Block} {c c' : Control}

def blocks (c : Control) : List Block := c.queue.map (·.2)

def lastCommitted (initial : Block) (c : Control) : Block := c.committed.getLastD initial

def tip (initial : Block) (c : Control) : Block := (c.committed ++ c.blocks).getLastD initial

/-- The executed chain is linked, and the fork index knows each block of the queue by its number.
The last committed block is in the index only as long as it is the initial one. -/
structure Base (sha3 : Bytes → H256) (initial : Block) (c : Control) : Prop where
  items : ∀ i ∈ c.queue, i.1 = i.2.getNumber
  linked : (initial :: (c.committed ++ c.blocks)).IsChain (Follows sha3)
  height : c.currentBlockHeight = (c.lastCommitted initial).getNumber
  wf : ForkIndex.WellFormed sha3 c.rollbackState.index
  queued : ∀ i ∈ c.queue, ∃ b, byNumber c.rollbackState.index i.1 = some b ∧ b.block = i.2
  past : (c.lastCommitted initial).getHash sha3 ∉ ids c.rollbackState.index ∨
    (∃ b ∈ c.rollbackState.index, b.block = c.lastCommitted initial) ∧
      (c.lastCommitted initial).getParentHash ∉ ids c.rollbackState.index

theorem Base.chain (h : Base sha3 initial c) :
    (c.lastCommitted initial :: c.blocks).IsChain (Follows sha3) := isChain_getLastD h.linked

theorem tip_eq (initial : Block) (c : Control) :
    c.tip initial = c.blocks.getLastD (c.lastCommitted initial) := by
  unfold tip lastCommitted
  simp only [List.getLastD_eq_getLast?, List.getLast?_append]
  cases c.blocks.getLast? <;> rfl

theorem Base.number_lt (h : Base sha3 initial c) {i : ℕ × Block} (hi : i ∈ c.queue) :
    (c.lastCommitted initial).getNumber < i.1 := by
  rw [h.items i hi]
  exact number_lt_of_isChain h.chain i.2 (List.mem_map_of_mem hi)

section Commit

/-- What one round of `onSolidifiable` does, given the block state it finds. -/
def commitFront (c : Control) (item : ℕ × Block) (rest : List (ℕ × Block)) (b : BlockState) :
    Control :=
  { c with
    queue := rest
    committed := c.committed ++ [item.2]
    currentBlockHeight := b.blockNumber
    rollbackState := { c.rollbackState.remove b.blockID with solidifyNumber := item.1 } }

variable {item : ℕ × Block} {rest : List (ℕ × Block)} {b : BlockState}

theorem Base.front (h : Base sha3 initial c) (hqueue : c.queue = item :: rest) :
    Follows sha3 (c.lastCommitted initial) item.2 := by
  have hchain := h.chain
  rw [blocks, hqueue, List.map_cons] at hchain
  exact (List.isChain_cons_cons.mp hchain).1

theorem Base.block_eq (h : Base sha3 initial c) (hqueue : c.queue = item :: rest)
    (hb : byNumber c.rollbackState.index item.1 = some b) : b.block = item.2 := by
  obtain ⟨b', hb', hblock⟩ := h.queued item (hqueue ▸ List.mem_cons_self)
  rw [hb] at hb'
  rwa [Option.some.inj hb']

theorem Base.remove_front (h : Base sha3 initial c) (hqueue : c.queue = item :: rest)
    (hb : byNumber c.rollbackState.index item.1 = some b) :
    (c.rollbackState.remove b.blockID).index = c.rollbackState.index.filter fun d ↦
      d.blockID != b.blockID && d.blockID != (c.lastCommitted initial).getHash sha3 := by
  have hprev : b.getPrev = (c.lastCommitted initial).getHash sha3 := by
    rw [BlockState.getPrev, h.block_eq hqueue hb]
    exact (h.front hqueue).parent
  obtain ⟨hmem, hnumber⟩ := ForkIndex.mem_of_byNumber hb
  have hlt := h.number_lt (hqueue ▸ List.mem_cons_self : item ∈ c.queue)
  unfold RollbackState.remove
  rcases h.past with hgone | ⟨⟨root, hroot, hblock⟩, hparent⟩
  · obtain ⟨fuel, hfuel⟩ := Nat.exists_eq_add_one.mpr (List.length_pos_of_mem hmem)
    simp only [hfuel]
    rw [h.wf.removeAncestors_root hmem (hprev ▸ hgone)]
    refine List.filter_congr fun d hd ↦ ?_
    have hne : d.blockID ≠ (c.lastCommitted initial).getHash sha3 := by
      intro heq
      exact hgone (heq ▸ List.mem_map_of_mem hd)
    simp [hne]
  · have hid : root.blockID = (c.lastCommitted initial).getHash sha3 := by
      rw [(h.wf.ofBlock root hroot).id_eq, hblock]
    have hne : root ≠ b := by
      rintro rfl
      have heq := (h.wf.ofBlock root hroot).number_eq
      rw [hblock] at heq
      omega
    have htwo : 2 ≤ c.rollbackState.index.length := by
      rcases hindex : c.rollbackState.index with _ | ⟨d, _ | ⟨e, index⟩⟩
      · simp [hindex] at hmem
      · rw [hindex, List.mem_singleton] at hmem hroot
        exact absurd (hroot.trans hmem.symm) hne
      · simp
    obtain ⟨fuel, hfuel⟩ := Nat.exists_eq_add_of_le' htwo
    simp only [hfuel]
    rw [h.wf.removeAncestors_child hmem hroot (hprev.trans hid.symm)
      (by rw [BlockState.getPrev, hblock]; exact hparent), List.filter_filter, hid]

theorem Base.byNumber_remove (h : Base sha3 initial c) (hqueue : c.queue = item :: rest)
    (hb : byNumber c.rollbackState.index item.1 = some b) {m : ℕ} (hm : item.1 < m) :
    byNumber (c.rollbackState.remove b.blockID).index m = byNumber c.rollbackState.index m := by
  obtain ⟨hmem, hnumber⟩ := ForkIndex.mem_of_byNumber hb
  have hlt := h.number_lt (hqueue ▸ List.mem_cons_self : item ∈ c.queue)
  rw [h.remove_front hqueue hb]
  refine ForkIndex.byNumber_filter fun d hd hdm ↦ ?_
  have hne : d.blockID ≠ b.blockID := by
    intro heq
    rw [h.wf.eq_of_id hd hmem heq] at hdm
    omega
  have hnc : d.blockID ≠ (c.lastCommitted initial).getHash sha3 := by
    intro heq
    rcases h.past with hgone | ⟨⟨root, hroot, hblock⟩, -⟩
    · exact hgone (heq ▸ List.mem_map_of_mem hd)
    · have hof := h.wf.ofBlock root hroot
      have hroot' := h.wf.eq_of_id hd hroot (by rw [heq, hof.id_eq, hblock])
      have hnumber' := hof.number_eq
      rw [hblock, ← hroot'] at hnumber'
      omega
  simp [hne, hnc]

theorem Base.hash_notMem_remove (h : Base sha3 initial c) (hqueue : c.queue = item :: rest)
    (hb : byNumber c.rollbackState.index item.1 = some b) :
    item.2.getHash sha3 ∉ ids (c.rollbackState.remove b.blockID).index := by
  have hid := (h.wf.ofBlock b (ForkIndex.mem_of_byNumber hb).1).id_eq
  rw [h.block_eq hqueue hb] at hid
  rw [h.remove_front hqueue hb, ids, List.mem_map]
  rintro ⟨d, hd, heq⟩
  have hkept := (List.mem_filter.mp hd).2
  simp [heq, hid] at hkept

theorem lastCommitted_commitFront :
    (c.commitFront item rest b).lastCommitted initial = item.2 := by
  simp [lastCommitted, commitFront, List.getLastD_eq_getLast?]

theorem Base.commitFront (h : Base sha3 initial c) (hqueue : c.queue = item :: rest)
    (hb : byNumber c.rollbackState.index item.1 = some b) :
    Base sha3 initial (c.commitFront item rest b) := by
  have hmem : ∀ i ∈ rest, i ∈ c.queue := fun i hi ↦ hqueue ▸ List.mem_cons_of_mem _ hi
  have hblock := h.block_eq hqueue hb
  obtain ⟨hmemb, hnumber⟩ := ForkIndex.mem_of_byNumber hb
  constructor
  · exact fun i hi ↦ h.items i (hmem i hi)
  · have hlinked := h.linked
    rw [blocks, hqueue, List.map_cons] at hlinked
    simpa [Control.commitFront, blocks] using hlinked
  · rw [lastCommitted_commitFront, ← hblock]
    exact (h.wf.ofBlock b hmemb).number_eq
  · change ForkIndex.WellFormed sha3 (c.rollbackState.remove b.blockID).index
    rw [h.remove_front hqueue hb]
    exact h.wf.filter _
  · intro i hi
    have hlt : item.1 < i.1 := by
      have hchain := h.chain
      rw [blocks, hqueue, List.map_cons] at hchain
      rw [h.items i (hmem i hi), h.items item (hqueue ▸ List.mem_cons_self)]
      exact number_lt_of_isChain (List.isChain_cons_cons.mp hchain).2 i.2 (List.mem_map_of_mem hi)
    obtain ⟨d, hd, hdblock⟩ := h.queued i (hmem i hi)
    exact ⟨d, (h.byNumber_remove hqueue hb hlt).trans hd, hdblock⟩
  · rw [lastCommitted_commitFront]
    exact Or.inl (h.hash_notMem_remove hqueue hb)

end Commit

/-- How `onSolidifiable` changes the control, for the number it is called with: a beginning of
the queue is committed, and of the index only block states up to the last committed number go. -/
structure Solidified (sha3 : Bytes → H256) (initial : Block) (number : ℕ) (c c' : Control) :
    Prop where
  base : Base sha3 initial c'
  commits : ∃ l, c.queue = l ++ c'.queue ∧ c'.committed = c.committed ++ l.map (·.2) ∧
    ∀ i ∈ l, i.1 ≤ number
  sublist : c'.rollbackState.index.Sublist c.rollbackState.index
  above : ∀ m, (c'.lastCommitted initial).getNumber < m →
    byNumber c'.rollbackState.index m = byNumber c.rollbackState.index m
  idle : c'.queue = c.queue → c'.rollbackState.index = c.rollbackState.index
  gone : c'.queue ≠ c.queue →
    (c'.lastCommitted initial).getHash sha3 ∉ ids c'.rollbackState.index
  head_eq : c'.head = c.head
  rollbackHead_eq : c'.rollbackState.head = c.rollbackState.head
  marked_eq : c'.rollbackState.marked = c.rollbackState.marked
  latest_eq : c'.latestBlockNumber = c.latestBlockNumber
  sent_eq : c'.sent = c.sent
  blockCache_eq : c'.blockCache = c.blockCache

variable {number : ℕ}

theorem Solidified.refl (h : Base sha3 initial c) : Solidified sha3 initial number c c :=
  ⟨h, ⟨[], by simp⟩, List.Sublist.refl _, fun _ _ ↦ rfl, fun _ ↦ rfl, fun hne ↦ absurd rfl hne,
    rfl, rfl, rfl, rfl, rfl, rfl⟩

theorem Solidified.tip_eq (h : Solidified sha3 initial number c c') :
    c'.tip initial = c.tip initial := by
  obtain ⟨l, hqueue, hcommitted, -⟩ := h.commits
  rw [tip, tip, hcommitted, blocks, blocks, hqueue, List.map_append, List.append_assoc]

theorem Solidified.cons {item : ℕ × Block} {queue : List (ℕ × Block)} {b : BlockState}
    (hbase : Base sha3 initial c) (hqueue : c.queue = item :: queue) (hle : item.1 ≤ number)
    (hb : byNumber c.rollbackState.index item.1 = some b)
    (h : Solidified sha3 initial number (c.commitFront item queue b) c') :
    Solidified sha3 initial number c c' := by
  obtain ⟨l, hl, hcommitted, hall⟩ := h.commits
  have hl' : queue = l ++ c'.queue := hl
  refine ⟨h.base, ⟨item :: l, ?_, ?_, ?_⟩, ?_, ?_, ?_, ?_, h.head_eq, h.rollbackHead_eq,
    h.marked_eq, h.latest_eq, h.sent_eq, h.blockCache_eq⟩
  · rw [hqueue, hl', List.cons_append]
  · rw [hcommitted, List.map_cons]
    simp [Control.commitFront]
  · intro i hi
    cases hi with
    | head => exact hle
    | tail _ hi => exact hall i hi
  · refine h.sublist.trans ?_
    change (c.rollbackState.remove b.blockID).index.Sublist _
    rw [hbase.remove_front hqueue hb]
    exact List.filter_sublist
  · intro m hm
    refine (h.above m hm).trans (hbase.byNumber_remove hqueue hb ?_)
    rw [hbase.items item (hqueue ▸ List.mem_cons_self)]
    have hitem : (c.commitFront item queue b).lastCommitted initial = item.2 :=
      lastCommitted_commitFront
    rcases List.eq_nil_or_concat l with rfl | ⟨l, last, rfl⟩
    · rw [lastCommitted, hcommitted, List.map_nil, List.append_nil] at hm
      rw [lastCommitted] at hitem
      rwa [hitem] at hm
    · rw [lastCommitted, hcommitted] at hm
      have hlast := (hbase.commitFront hqueue hb).number_lt (i := last) (by
        rw [hl]
        simp)
      rw [hitem] at hlast
      have hlast' := hbase.items last (by
        rw [hqueue, hl']
        simp)
      simp [List.getLastD_eq_getLast?] at hm
      omega
  · intro heq
    have hlength := congrArg List.length (hl'.trans (congrArg (l ++ ·) (heq.trans hqueue)))
    simp at hlength
    omega
  · intro _
    by_cases hsame : c'.queue = queue
    · have hnil : l = [] := by
        have hlength := congrArg List.length (hl'.trans (congrArg (l ++ ·) hsame))
        rw [List.length_append] at hlength
        exact List.eq_nil_of_length_eq_zero (by omega)
      have hlast : c'.lastCommitted initial = item.2 := by
        rw [lastCommitted, hcommitted, hnil, List.map_nil, List.append_nil]
        exact lastCommitted_commitFront
      rw [hlast, h.idle hsame]
      exact hbase.hash_notMem_remove hqueue hb
    · exact h.gone hsame

end Control

namespace BlockChain

variable (env : Env) {initial : Block} {s : BlockChain}

theorem commitItem_control {item : MemoryItem} (queue : List MemoryItem) {b : BlockState}
    (hb : byNumber s.rollbackState.index item.blockNumber = some b) :
    ∃ t, commitItem env item queue s = (.ok (), t) ∧ t.memoryQueue = queue ∧
      t.control = s.control.commitFront (item.blockNumber, item.repository.block)
        (queue.map fun i ↦ (i.blockNumber, i.repository.block)) b := by
  have hb' : s.rollbackState.getBlockByNumber item.blockNumber = some b := hb
  unfold commitItem
  rw [Eff.modify_bind_apply, Eff.get_bind_apply]
  simp only [hb', Eff.modify_apply]
  exact ⟨_, rfl, rfl, rfl⟩

theorem solidifyLoop_control (number fuel : ℕ) (h : s.control.Base env.sha3 initial)
    (hfuel : s.memoryQueue.length < fuel) :
    ∃ t, solidifyLoop env number fuel s = (.ok (), t) ∧
      Control.Solidified env.sha3 initial number s.control t.control := by
  induction fuel generalizing s with
  | zero => omega
  | succ fuel ih =>
    unfold solidifyLoop
    rw [Eff.get_bind_apply]
    cases hqueue : s.memoryQueue with
    | nil => exact ⟨_, rfl, .refl h⟩
    | cons item queue =>
      have hcontrol : s.control.queue = (item.blockNumber, item.repository.block) ::
          queue.map fun i ↦ (i.blockNumber, i.repository.block) := by
        simp [control, hqueue]
      dsimp only
      split_ifs with hgoes
      · obtain ⟨b, hb, -⟩ := h.queued (item.blockNumber, item.repository.block)
          (hcontrol ▸ List.mem_cons_self)
        obtain ⟨t, hcommit, htqueue, htcontrol⟩ := commitItem_control env queue hb
        have hbase := h.commitFront hcontrol hb
        rw [← htcontrol] at hbase
        obtain ⟨u, hloop, hsolid⟩ := ih hbase (by
          rw [htqueue]
          rw [hqueue, List.length_cons] at hfuel
          omega)
        rw [htcontrol] at hsolid
        rw [Eff.bind_ok hcommit]
        exact ⟨u, hloop, .cons h hcontrol hgoes.1 hb hsolid⟩
      · exact ⟨_, rfl, .refl h⟩

theorem onSolidifiable_control (bsp : BlockState) (h : s.control.Base env.sha3 initial) :
    ∃ t, onSolidifiable env bsp s = (.ok (), t) ∧
      Control.Solidified env.sha3 initial bsp.blockNumber s.control t.control :=
  solidifyLoop_control env bsp.blockNumber _ h (Nat.lt_succ_self _)

theorem onSolidifiable_killed (bsp : BlockState) (hkilled : s.blockChainStatus = .killed) :
    ∃ t, onSolidifiable env bsp s = (.ok (), t) ∧ t.control = s.control := by
  unfold onSolidifiable
  rw [Eff.get_bind_apply, solidifyLoop, Eff.get_bind_apply]
  cases s.memoryQueue with
  | nil => exact ⟨_, rfl, rfl⟩
  | cons item queue =>
    dsimp only
    rw [if_neg (by simp [hkilled])]
    exact ⟨_, rfl, rfl⟩

end BlockChain

end GseNetwork.Chain
