import GseNetwork.Chain.Linked

namespace GseNetwork.Chain

open GseNetwork.Core GseNetwork.Foundation
open ForkIndex (byNumber ids OfBlock)
open BlockChain

namespace Control

variable {sha3 : Bytes → H256} {initial : Block} {c c₁ : Control} {new : BlockState} {n : ℕ}

def add (c : Control) (new : BlockState) : Control :=
  { c with rollbackState := ForkIndex.inserted c.rollbackState new }

def follow (c : Control) : Control := { c with head := c.rollbackState.head }

def execute (c : Control) : Control :=
  { c.push c.head.block with latestBlockNumber := c.head.block.getNumber }

theorem follow_send (env : Env) (c : Control) (block : Block) :
    (c.send env block).follow = c.follow.send env block := by
  unfold send
  split <;> rfl

theorem follow_execute_send (env : Env) {c : Control} {block : Block}
    (h : c.rollbackState.head.block = block) :
    follow { (c.push block).send env block with latestBlockNumber := block.getNumber } =
      c.follow.execute.send env block := by
  subst h
  unfold send
  split <;> rfl

/-- The block shares its hash with neither the last committed block nor the parent of that, and
its number has not wrapped around. -/
structure Fresh (sha3 : Bytes → H256) (initial : Block) (c : Control) (block : Block) : Prop where
  positive : 0 < block.getNumber
  ne_hash : block.getHash sha3 ≠ (c.lastCommitted initial).getHash sha3
  ne_parent : block.getHash sha3 ≠ (c.lastCommitted initial).getParentHash

instance (sha3 : Bytes → H256) (initial : Block) (c : Control) (block : Block) :
    Decidable (Fresh sha3 initial c block) :=
  decidable_of_iff
    (0 < block.getNumber ∧ block.getHash sha3 ≠ (c.lastCommitted initial).getHash sha3 ∧
      block.getHash sha3 ≠ (c.lastCommitted initial).getParentHash)
    ⟨fun h ↦ ⟨h.1, h.2.1, h.2.2⟩, fun h ↦ ⟨h.positive, h.ne_hash, h.ne_parent⟩⟩

theorem Base.add (h : Base sha3 initial c) (hnew : OfBlock sha3 new)
    (hid : new.blockID ∉ ids c.rollbackState.index) (hfresh : Fresh sha3 initial c new.block) :
    Base sha3 initial (c.add new) := by
  have hids : ids (c.rollbackState.index ++ [new]) = ids c.rollbackState.index ++ [new.blockID] :=
    List.map_append
  refine ⟨h.items, h.linked, h.height, h.wf.append hnew hid, ?_, ?_⟩
  · intro i hi
    obtain ⟨b, hb, hblock⟩ := h.queued i hi
    exact ⟨b, ForkIndex.byNumber_append_of_some hb new, hblock⟩
  · change _ ∉ ids (c.rollbackState.index ++ [new]) ∨
      (∃ b ∈ c.rollbackState.index ++ [new], _) ∧ _ ∉ ids (c.rollbackState.index ++ [new])
    rw [hids, hnew.id_eq]
    rcases h.past with hgone | ⟨⟨b, hb, hblock⟩, hparent⟩
    · left
      rw [List.mem_append, List.mem_singleton, not_or]
      exact ⟨hgone, hfresh.ne_hash.symm⟩
    · right
      rw [List.mem_append, List.mem_singleton, not_or]
      exact ⟨⟨b, List.mem_append_left _ hb, hblock⟩, hparent, hfresh.ne_parent.symm⟩

theorem Linked.head_add_of_le (h : Linked sha3 initial c) (hlive : c.Live)
    (hle : new.blockNumber ≤ c.head.blockNumber) :
    byNumber (c.rollbackState.index ++ [new]) c.head.blockNumber =
        some (c.add new).rollbackState.head ∧
      OfBlock sha3 (c.add new).rollbackState.head ∧
      (c.add new).rollbackState.head.block = c.head.block := by
  obtain ⟨b, hb, hblock⟩ := hlive
  obtain ⟨hmem, hnumber⟩ := ForkIndex.mem_of_byNumber hb
  have happend := ForkIndex.byNumber_append_of_some hb new
  have hhead : (c.add new).rollbackState.head = b := by
    have hhighest : RollbackState.highest (c.rollbackState.index ++ [new]) = some b := by
      refine ForkIndex.highest_eq_some (hnumber ▸ happend) fun d hd ↦ ?_
      rw [hnumber]
      rcases List.mem_append.mp hd with hold | hlast
      · exact h.bounded d hold
      · rwa [List.mem_singleton.mp hlast]
    simp only [Control.add, ForkIndex.inserted, hhighest, Option.getD_some]
  rw [hhead]
  exact ⟨happend, h.wf.ofBlock b hmem, hblock⟩

theorem byNumber_add_of_lt (hbounded : ∀ b ∈ c.rollbackState.index, b.blockNumber < n)
    (hn : new.blockNumber = n) : byNumber (c.rollbackState.index ++ [new]) n = some new := by
  rw [ForkIndex.byNumber_append, ForkIndex.byNumber_eq_none fun b hb ↦ (hbounded b hb).ne,
    if_pos hn]
  rfl

theorem Linked.head_add_of_lt (h : Linked sha3 initial c)
    (hlt : c.head.blockNumber < new.blockNumber) :
    byNumber (c.rollbackState.index ++ [new]) new.blockNumber = some new ∧
      (c.add new).rollbackState.head = new := by
  have hfind := byNumber_add_of_lt (fun b hb ↦ (h.bounded b hb).trans_lt hlt) (rfl : _ = _)
  refine ⟨hfind, ?_⟩
  have hhighest : RollbackState.highest (c.rollbackState.index ++ [new]) = some new := by
    refine ForkIndex.highest_eq_some hfind fun d hd ↦ ?_
    rcases List.mem_append.mp hd with hold | hlast
    · exact ((h.bounded d hold).trans_lt hlt).le
    · rw [List.mem_singleton.mp hlast]
  simp only [Control.add, ForkIndex.inserted, hhighest, Option.getD_some]

end Control

section Adding

variable (env : Env) (initial block : Block) (s : BlockChain)

/-- Adding the block raises `m_solidifiable`, and its handler does not stop at once. -/
def Solidifies : Prop :=
  (RollbackState.oldestNumber s.rollbackState.index <
      RollbackState.maxBftSolidify s.rollbackState.index ∨
    block.getNumber < RollbackState.maxBftSolidify s.rollbackState.index) ∧
  s.blockChainStatus ≠ .killed

/-- `processBlock` gets as far as to put the block into the fork index. -/
structure Accepted : Prop where
  producer : s.checkProducer block = true
  absent : (s.rollbackState.getBlock (block.getHash env.sha3)).isNone = true
  parent : (s.rollbackState.getBlock block.getParentHash).isSome = true

structure Added (new : BlockState) (c : Control) : Prop where
  newOf : OfBlock env.sha3 new
  block_eq : new.block = block
  producers_eq : new.activeProducers = s.schedule.getProducerSnapshot
  unmarked : new.bftSolidifyBlockNumber = 0
  unconfirmed : new.confirmations = []
  absent : new.blockID ∉ ids s.rollbackState.index
  parent : block.getParentHash ∈ ids s.rollbackState.index
  solidified : Control.Solidified env.sha3 initial
    (RollbackState.maxBftSolidify s.rollbackState.index) (s.control.add new) c
  quiet : ¬ Solidifies block s → c = s.control.add new

variable {env initial block s}

theorem Added.accepted {new : BlockState} {c : Control} (h : Added env initial block s new c)
    (hproducer : s.checkProducer block = true) : Accepted env block s := by
  refine ⟨hproducer, ?_, (ForkIndex.isSome_getBlock _ _).mpr h.parent⟩
  rw [Option.isNone_iff_eq_none, ← Option.not_isSome_iff_eq_none, ForkIndex.isSome_getBlock,
    ← h.block_eq, ← h.newOf.id_eq]
  exact h.absent

theorem addToRollbackState_eq (env : Env) (block : Block) (s : BlockChain) :
    addToRollbackState env block s =
      match s.rollbackState.add env.sha3 env.garbage block s.schedule.getProducerSnapshot with
      | .error e => (.error e, s)
      | .ok (y, none) => (.ok (), { s with rollbackState := y })
      | .ok (y, some bsp) => onSolidifiable env bsp { s with rollbackState := y } := by
  unfold addToRollbackState
  rw [Eff.get_bind_apply]
  rcases s.rollbackState.add env.sha3 env.garbage block s.schedule.getProducerSnapshot with
    _ | ⟨y, _ | bsp⟩ <;> rfl

theorem addToRollbackState_cases (h : s.control.Base env.sha3 initial)
    (hfresh : s.control.Fresh env.sha3 initial block) :
    (∃ e, addToRollbackState env block s = (.error e, s) ∧ rejects e = true) ∨
      ∃ t new, addToRollbackState env block s = (.ok (), t) ∧
        Added env initial block s new t.control := by
  rw [addToRollbackState_eq]
  rcases ForkIndex.add_cases env.sha3 env.garbage s.rollbackState block
      s.schedule.getProducerSnapshot with
    ⟨e, hadd, htype, -⟩ | ⟨new, hof, hblock, hps, hbft, hnone, habsent, hparent, hadd⟩
  · rw [hadd]
    exact Or.inl ⟨e, rfl, by simp [rejects, htype]⟩
  · rw [hadd]
    right
    have hbase : ({ s with rollbackState := ForkIndex.inserted s.rollbackState new } :
        BlockChain).control.Base env.sha3 initial := h.add hof habsent (hblock ▸ hfresh)
    have hidle : Added env initial block s new (s.control.add new) :=
      ⟨hof, hblock, hps, hbft, hnone, habsent, hparent, .refl hbase, fun _ ↦ rfl⟩
    split_ifs with hsignal
    · cases hfind : byNumber (s.rollbackState.index ++ [new])
          (RollbackState.maxBftSolidify s.rollbackState.index) with
      | none => exact ⟨_, new, rfl, hidle⟩
      | some bsp =>
        by_cases hkilled : s.blockChainStatus = .killed
        · obtain ⟨t, ht, hsame⟩ := onSolidifiable_killed env bsp
            (s := { s with rollbackState := ForkIndex.inserted s.rollbackState new }) hkilled
          exact ⟨t, new, ht, hsame ▸ hidle⟩
        · obtain ⟨t, ht, hsolid⟩ := onSolidifiable_control env bsp hbase
          rw [(ForkIndex.mem_of_byNumber hfind).2] at hsolid
          refine ⟨t, new, ht, hof, hblock, hps, hbft, hnone, habsent, hparent, hsolid,
            fun hquiet ↦ ?_⟩
          exact absurd ⟨min_lt_iff.mp hsignal, hkilled⟩ hquiet
    · exact ⟨_, new, rfl, hidle⟩

end Adding

section Processing

variable (env : Env) {block : Block} {s t : BlockChain}

theorem processBlock_of_checkProducer (h : s.checkProducer block = false) :
    processBlock env block s = (.ok false, s) := by
  unfold processBlock Eff.tryCatch
  rw [Eff.get_bind_apply, h]
  rfl

theorem processBlock_of_error {e : Exception} (h : s.checkProducer block = true)
    (hadd : addToRollbackState env block s = (.error e, s)) (he : rejects e = true) :
    processBlock env block s = (.ok false, s) := by
  unfold processBlock Eff.tryCatch
  rw [Eff.get_bind_apply, h]
  simp only [Bool.not_true, Bool.false_eq_true, if_false, Eff.bind_error hadd, he, if_true,
    Eff.pure_apply]

theorem processBlock_of_added (h : s.checkProducer block = true)
    (hadd : addToRollbackState env block s = (.ok (), t)) {u : BlockChain}
    (hcheck : checkBifurcation env block t = (.ok (), u)) :
    processBlock env block s = (.ok true, { u with head := u.rollbackState.head }) := by
  unfold processBlock Eff.tryCatch
  rw [Eff.get_bind_apply, h]
  simp only [Bool.not_true, Bool.false_eq_true, if_false, Eff.bind_ok hadd, Eff.bind_ok hcheck,
    Eff.modify_bind_apply, Eff.pure_apply]

theorem checkBifurcation_of_extends (block : Block)
    (h : t.rollbackState.head.getPrev = t.head.blockID) :
    checkBifurcation env block t = doProcessBlock env block t := by
  unfold checkBifurcation
  rw [Eff.get_bind_apply, if_pos h]

theorem checkBifurcation_of_apart (h : t.rollbackState.head.getPrev ≠ t.head.blockID)
    (hlt : t.head.blockNumber < t.rollbackState.head.blockNumber) :
    checkBifurcation env block t = (.ok (), t) := by
  have hnone : t.rollbackState.rollbackTo t.rollbackState.head t.head = none := by
    unfold RollbackState.rollbackTo RollbackState.rollbackFrom
    rw [if_neg hlt.not_gt, if_pos hlt.ne']
  unfold checkBifurcation
  rw [Eff.get_bind_apply, if_neg h]
  unfold Eff.tryCatch switchBranch
  rw [Eff.get_bind_apply, hnone]
  rfl

theorem checkBifurcation_of_sibling (h : t.rollbackState.head.getPrev ≠ t.head.blockID)
    (hnumber : t.rollbackState.head.blockNumber = t.head.blockNumber)
    (hprev : t.rollbackState.head.getPrev = t.head.getPrev) :
    checkBifurcation env block t = (.ok (), { t with blockChainStatus := .sync }) := by
  have hsome : t.rollbackState.rollbackTo t.rollbackState.head t.head = some [] := by
    unfold RollbackState.rollbackTo RollbackState.rollbackFrom
    rw [if_neg hnumber.not_lt, if_neg (not_not.mpr hnumber), if_neg (not_not.mpr hprev)]
  unfold checkBifurcation
  rw [Eff.get_bind_apply, if_neg h]
  unfold Eff.tryCatch switchBranch
  rw [Eff.get_bind_apply, hsome]
  rfl

end Processing

section Outcome

variable (env : Env) (initial block : Block) (s : BlockChain)

def Contained : Prop :=
  Accepted env block s → block.getNumber = s.head.blockNumber + 1 →
    block.getParentHash = s.head.blockID → ∀ t e u, addToRollbackState env block s = (.ok (), t) →
      attemptBlock env block t = (.error e, u) → e.type.isGS = true

/-- What a linked node does with a block: it refuses it, keeps it as a fork, moves its head to it
without executing it, fails to execute it, or executes it. -/
inductive Processed (t : BlockChain) : Prop
  | rejected (ht : t = s)
  | fork {new : BlockState} {c : Control} (hacc : Accepted env block s)
      (hadd : Added env initial block s new c)
      (hle : block.getNumber ≤ s.head.blockNumber) (hlive : s.control.Live)
      (ht : t.control = c.follow)
  | apart {new : BlockState} {c : Control} (hacc : Accepted env block s)
      (hadd : Added env initial block s new c)
      (hhead : s.head.block = s.control.tip initial)
      (hnumber : block.getNumber = s.head.blockNumber + 1)
      (hparent : block.getParentHash ≠ s.head.blockID) (ht : t.control = c.follow)
  | failed {new : BlockState} {c : Control} (hacc : Accepted env block s)
      (hadd : Added env initial block s new c)
      (hhead : s.head.block = s.control.tip initial)
      (hnumber : block.getNumber = s.head.blockNumber + 1)
      (hparent : block.getParentHash = s.head.blockID)
      (hfails : ∃ u e v, addToRollbackState env block s = (.ok (), u) ∧
        attemptBlock env block u = (.error e, v))
      (ht : t.control = c.follow ∨ t.control = c.follow.send env block)
  | done {new : BlockState} {c : Control} (hacc : Accepted env block s)
      (hadd : Added env initial block s new c)
      (hhead : s.head.block = s.control.tip initial)
      (hnumber : block.getNumber = s.head.blockNumber + 1)
      (hparent : block.getParentHash = s.head.blockID)
      (ht : t.control = c.follow.execute.send env block)

end Outcome

end GseNetwork.Chain
