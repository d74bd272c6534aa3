import GseNetwork.Chain.Coherence
import GseNetwork.Chain.Operations

namespace GseNetwork.Chain

open GseNetwork.Core GseNetwork.Foundation
open ForkIndex (ids)
open BlockChain

variable {env : Env} {block : Block} {s t : BlockChain}

section Removal

variable {index : List BlockState} {blockID : BlockID} {b : BlockState} {fuel : ℕ}

theorem notMem_removeAncestors (h : fuel ≠ 0) :
    blockID ∉ ids (RollbackState.removeAncestors fuel index blockID) := by
  obtain ⟨fuel, rfl⟩ := Nat.exists_eq_succ_of_ne_zero h
  rw [RollbackState.removeAncestors]
  cases hfind : index.find? fun b ↦ b.blockID == blockID with
  | none =>
    intro hmem
    obtain ⟨b, hb, hid⟩ := List.mem_map.mp hmem
    have hne := List.find?_eq_none.mp hfind b hb
    simp [hid] at hne
  | some b =>
    intro hmem
    obtain ⟨c, hc, hid⟩ := List.mem_map.mp hmem
    have hne := (List.mem_filter.mp hc).2
    simp [hid] at hne

theorem parent_notMem_removeAncestors (hfind : index.find? (fun c ↦ c.blockID == blockID) = some b)
    (hfuel : 2 ≤ fuel) :
    b.getPrev ∉ ids (RollbackState.removeAncestors fuel index blockID) := by
  obtain ⟨fuel, rfl⟩ : ∃ n, fuel = n + 1 := ⟨fuel - 1, by omega⟩
  rw [RollbackState.removeAncestors, hfind]
  intro hmem
  obtain ⟨c, hc, hid⟩ := List.mem_map.mp hmem
  obtain ⟨hc, -⟩ := List.mem_filter.mp hc
  split_ifs at hc with hparent
  · have hgone : b.getPrev ∉ ids (RollbackState.removeAncestors fuel index b.getPrev) :=
      notMem_removeAncestors (by omega)
    exact hgone (List.mem_map.mpr ⟨c, hc, hid⟩)
  · simp only [Bool.not_eq_true, List.any_eq_false] at hparent
    have hne := hparent c hc
    simp [hid] at hne

end Removal

section Trace

theorem commitItem_cases (env : Env) (item : MemoryItem) (queue : List MemoryItem)
    (s : BlockChain) :
    (∃ e t, commitItem env item queue s = (.error e, t) ∧ t.rollbackState = s.rollbackState) ∨
      ∃ b ∈ s.rollbackState.index, ∃ t, commitItem env item queue s = (.ok (), t) ∧
        t.rollbackState.index = (s.rollbackState.remove b.blockID).index := by
  unfold commitItem
  rw [Eff.modify_bind_apply, Eff.get_bind_apply]
  cases hfind : s.rollbackState.getBlockByNumber item.blockNumber with
  | none => exact Or.inl ⟨_, _, rfl, rfl⟩
  | some b => exact Or.inr ⟨b, List.mem_of_find?_eq_some hfind, _, rfl, rfl⟩

/-- What the loop of `onSolidifiable` does to the fork index: nothing, or it takes at least one
block out of it. -/
theorem solidifyLoop_removes (env : Env) (number fuel : ℕ) (s : BlockChain) :
    (solidifyLoop env number fuel s).2.rollbackState.index = s.rollbackState.index ∨
      ∃ b ∈ s.rollbackState.index, (solidifyLoop env number fuel s).2.rollbackState.index ⊆
        (s.rollbackState.remove b.blockID).index := by
  cases fuel with
  | zero => exact Or.inl rfl
  | succ fuel =>
    rw [solidifyLoop, Eff.get_bind_apply]
    cases hqueue : s.memoryQueue with
    | nil => exact Or.inl rfl
    | cons item queue =>
      dsimp only
      split_ifs with hcommit
      · rcases commitItem_cases env item queue s with ⟨e, t, hrun, hsame⟩ | ⟨b, hb, t, hrun, heq⟩
        · rw [Eff.bind_error hrun]
          exact Or.inl (congrArg RollbackState.index hsame)
        · rw [Eff.bind_ok hrun]
          refine Or.inr ⟨b, hb, ?_⟩
          rw [← heq]
          exact subset_of_trims (trimmed_solidifyLoop number fuel t).1
      · exact Or.inl rfl

/-- Of the blocks in the index before, one is gone after any removal that follows an insertion. -/
theorem exists_removed {x : RollbackState} {new b : BlockState}
    (habsent : new.blockID ∉ ids x.index) (hparent : new.getPrev ∈ ids x.index)
    (hb : b ∈ (ForkIndex.inserted x new).index) :
    ∃ id ∈ ids x.index, id ∉ ids ((ForkIndex.inserted x new).remove b.blockID).index := by
  have hlength : (ForkIndex.inserted x new).index.length = x.index.length + 1 :=
    List.length_append
  rcases List.mem_append.mp hb with hold | hlast
  · exact ⟨b.blockID, List.mem_map_of_mem hold, notMem_removeAncestors (by omega)⟩
  · rw [List.mem_singleton.mp hlast]
    have hpos : 0 < x.index.length := by
      rw [← List.length_map BlockState.blockID]
      exact List.length_pos_of_mem hparent
    have hfind : (ForkIndex.inserted x new).index.find? (fun c ↦ c.blockID == new.blockID) =
        some new := by
      have hnone : x.index.find? (fun c ↦ c.blockID == new.blockID) = none := by
        rw [List.find?_eq_none]
        intro c hc heq
        exact habsent (List.mem_map.mpr ⟨c, hc, beq_iff_eq.mp heq⟩)
      change (x.index ++ [new]).find? _ = some new
      rw [List.find?_append, hnone]
      simp
    exact ⟨new.getPrev, hparent, parent_notMem_removeAncestors hfind (by omega)⟩

/-- After a block was added the fork index is never what it was before: the block is new in it,
or solidification has taken a block out that was in it. -/
theorem ids_addToRollbackState_ne (h : addToRollbackState env block s = (.ok (), t)) :
    ids t.rollbackState.index ≠ ids s.rollbackState.index := by
  rw [addToRollbackState_eq] at h
  rcases ForkIndex.add_cases env.sha3 env.garbage s.rollbackState block
      s.schedule.getProducerSnapshot with
    ⟨e, hadd, -⟩ | ⟨new, -, hblock, -, -, -, habsent, hparent, hadd⟩
  · rw [hadd] at h
    cases h
  · have hnew : ids (ForkIndex.inserted s.rollbackState new).index ≠ ids s.rollbackState.index := by
      intro heq
      apply habsent
      rw [← heq]
      exact List.mem_map_of_mem (List.mem_append_right _ List.mem_cons_self)
    rw [hadd] at h
    split_ifs at h with hsignal
    · cases hfind : ForkIndex.byNumber (s.rollbackState.index ++ [new])
          (RollbackState.maxBftSolidify s.rollbackState.index) with
      | none =>
        rw [hfind] at h
        obtain ⟨-, rfl⟩ := Prod.mk.inj h
        exact hnew
      | some bsp =>
        rw [hfind] at h
        dsimp only at h
        have hprev : new.getPrev ∈ ids s.rollbackState.index := by
          rw [BlockState.getPrev, hblock]
          exact hparent
        have hremoves := solidifyLoop_removes env bsp.blockNumber (s.memoryQueue.length + 1)
          { s with rollbackState := ForkIndex.inserted s.rollbackState new }
        rw [show solidifyLoop env _ _ _ = (.ok (), t) from h] at hremoves
        rcases hremoves with hsame | ⟨b, hb, hsub⟩
        · rw [hsame]
          exact hnew
        · obtain ⟨id, hold, hgone⟩ := exists_removed habsent hprev hb
          intro heq
          rw [← heq] at hold
          obtain ⟨c, hc, hid⟩ := List.mem_map.mp hold
          exact hgone (List.mem_map.mpr ⟨c, hsub hc, hid⟩)
    · obtain ⟨-, rfl⟩ := Prod.mk.inj h
      exact hnew

/-- Processing the block raises an exception inside `doProcessBlock`. -/
def Raises (env : Env) (block : Block) (s : BlockChain) : Prop :=
  s.checkProducer block = true ∧ ∃ t e u, addToRollbackState env block s = (.ok (), t) ∧
    t.rollbackState.head.getPrev = t.head.blockID ∧ attemptBlock env block t = (.error e, u)

structure NoTrace (s : BlockChain) (result : Except Exception Bool × BlockChain) : Prop where
  unreported : result.1 ≠ .ok true
  memoryQueue : result.2.memoryQueue = s.memoryQueue
  head : result.2.head = s.head
  index : result.2.rollbackState.index = s.rollbackState.index
  latestBlockNumber : result.2.latestBlockNumber = s.latestBlockNumber
  latestBlock : result.2.latestBlock = s.latestBlock
  producerRecord : result.2.producerRecord = s.producerRecord
  currentActiveProducers : result.2.currentActiveProducers = s.currentActiveProducers
  prevPS : result.2.prevPS = s.prevPS
  currentPS : result.2.currentPS = s.currentPS
  schedule : result.2.schedule = s.schedule
  attributes : result.2.attributes = s.attributes
  stored : result.2.dbc.attributesStore = s.dbc.attributesStore
  scheduleUpdate : result.2.scheduleUpdateBlockTimestamp = s.scheduleUpdateBlockTimestamp

theorem ids_doProcessBlock (env : Env) (block : Block) (t : BlockChain) :
    ids (doProcessBlock env block t).2.rollbackState.index = ids t.rollbackState.index := by
  rcases sends_doProcessBlock env block t with ⟨hsame, -⟩ | ⟨hsent, -⟩
  · exact congrArg (fun x ↦ ids x.index) hsame
  · exact (congrArg (fun x ↦ ids x.index) hsent).trans
      (Control.ids_confirm t.control (ownConfirmation env block))

theorem ids_processBlock_ne (hraises : Raises env block s) :
    ids (processBlock env block s).2.rollbackState.index ≠ ids s.rollbackState.index := by
  obtain ⟨hproducer, t, e, u, hadd, hextends, -⟩ := hraises
  have hids := ids_doProcessBlock env block t
  have hends : (processBlock env block s).2.rollbackState =
      (doProcessBlock env block t).2.rollbackState := by
    rw [← checkBifurcation_of_extends env block hextends]
    rcases hcheck : checkBifurcation env block t with ⟨e | ⟨⟨⟩⟩, v⟩
    · unfold processBlock Eff.tryCatch
      rw [Eff.get_bind_apply, hproducer]
      simp only [Bool.not_true, Bool.false_eq_true, if_false, Eff.bind_ok hadd,
        Eff.bind_error hcheck]
      split_ifs <;> rfl
    · rw [processBlock_of_added env hproducer hadd hcheck]
  rw [hends, hids]
  exact ids_addToRollbackState_ne hadd

/-- No block whose execution raises an exception leaves everything as it was: the fork index keeps
the block or has lost others. -/
theorem trace_of_raises (hraises : Raises env block s) :
    ¬ NoTrace s (processBlock env block s) := by
  intro hnotrace
  exact ids_processBlock_ne hraises (congrArg ids hnotrace.index)

end Trace

section Solo

theorem raises_of_eval (hproducer : s.checkProducer block = true)
    (hadd : (addToRollbackState env block s).1.isOk = true)
    (hextends : (addToRollbackState env block s).2.rollbackState.head.getPrev =
      (addToRollbackState env block s).2.head.blockID)
    (hfails : (attemptBlock env block (addToRollbackState env block s).2).1.isOk = false) :
    Raises env block s := by
  rcases hattempt : attemptBlock env block (addToRollbackState env block s).2 with ⟨e | ⟨⟨⟩⟩, u⟩
  · exact ⟨hproducer, _, e, u, Eff.eq_ok_of_isOk hadd, hextends, hattempt⟩
  · rw [hattempt] at hfails
    contradiction

theorem raises_solo : Raises soloEnv soloFirst (soloChain false) :=
  raises_of_eval (by decide +kernel) (by decide +kernel) (by decide +kernel) (by decide +kernel)

theorem trace_of_raises_solo :
    Raises soloEnv soloFirst (soloChain false) ∧
      ¬ NoTrace (soloChain false) (processBlock soloEnv soloFirst (soloChain false)) :=
  ⟨raises_solo, trace_of_raises raises_solo⟩

/-- The failed block is reported as processed, and it has become the head. -/
theorem failure_reported :
    Raises soloEnv soloFirst (soloChain false) ∧
      (processBlock soloEnv soloFirst (soloChain false)).1.toOption = some true ∧
      (processBlock soloEnv soloFirst (soloChain false)).2.head ≠ (soloChain false).head ∧
      ¬ NoTrace (soloChain false) (processBlock soloEnv soloFirst (soloChain false)) := by
  have hhead : (processBlock soloEnv soloFirst (soloChain false)).2.head ≠
      (soloChain false).head := by decide +kernel
  exact ⟨raises_solo, by decide +kernel, hhead, fun hnotrace ↦ hhead hnotrace.head⟩

end Solo

end GseNetwork.Chain
