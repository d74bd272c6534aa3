import GseNetwork.Chain.Runs

namespace GseNetwork.Chain

open GseNetwork.Core GseNetwork.Foundation
open ForkIndex (ids)
open BlockChain

variable {env : Env} {ps : ProducerSnapshot} {x y : RollbackState}

inductive Trim : RollbackState → RollbackState → Prop
  | remove (x : RollbackState) (blockID : BlockID) : Trim x (x.remove blockID)
  | solidify (x : RollbackState) (number : ℕ) : Trim x { x with solidifyNumber := number }

/-- What the node does to its fork index apart from confirmations, while its schedule is `ps`. -/
inductive Upkeep (env : Env) (ps : ProducerSnapshot) : RollbackState → RollbackState → Prop
  | add {x y : RollbackState} {block : Block} {signal : Option BlockState} :
      x.add env.sha3 env.garbage block ps = .ok (y, signal) → Upkeep env ps x y
  | trim {x y : RollbackState} : Trim x y → Upkeep env ps x y

theorem Trim.subset (h : Trim x y) : y.index ⊆ x.index := by
  cases h with
  | remove blockID => exact Quorum.removeAncestors_subset _ _ _
  | solidify number => exact List.Subset.refl _

theorem subset_of_trims (h : Relation.ReflTransGen Trim x y) : y.index ⊆ x.index := by
  induction h with
  | refl => exact List.Subset.refl _
  | tail _ htrim ih => exact List.Subset.trans htrim.subset ih

theorem upkeep_of_trims (h : Relation.ReflTransGen Trim x y) :
    Relation.ReflTransGen (Upkeep env ps) x y := by
  induction h with
  | refl => exact .refl
  | tail _ htrim ih => exact ih.tail (.trim htrim)

theorem Upkeep.step {P : RollbackState → HeaderConfirmation → Prop} (h : Upkeep env ps x y) :
    Quorum.Step env P x y := by
  cases h with
  | add hadd => exact .add hadd
  | trim htrim =>
    cases htrim with
    | remove blockID => exact .remove x blockID
    | solidify number => exact .solidify x number

section Trimmed

def Trimmed (s t : BlockChain) : Prop :=
  Relation.ReflTransGen Trim s.rollbackState t.rollbackState ∧ t.sent = s.sent

theorem Trimmed.refl (s : BlockChain) : Trimmed s s := ⟨.refl, rfl⟩

theorem Trimmed.trans (s t u : BlockChain) (hst : Trimmed s t) (htu : Trimmed t u) :
    Trimmed s u := ⟨hst.1.trans htu.1, htu.2.trans hst.2⟩

theorem trimmed_modify {f : BlockChain → BlockChain} (h : ∀ s, Trimmed s (f s)) :
    Eff.Keeps Trimmed (Eff.modify f : ChainM Unit) := h

theorem trimmed_commitItem (item : MemoryItem) (queue : List MemoryItem) :
    Eff.Keeps Trimmed (commitItem env item queue) := by
  refine Eff.Keeps.bind Trimmed.trans (trimmed_modify fun s ↦ ⟨.refl, rfl⟩) fun _ ↦ ?_
  refine Eff.Keeps.bind Trimmed.trans Trimmed.refl fun s ↦ ?_
  cases s.rollbackState.getBlockByNumber item.blockNumber with
  | none => exact Eff.keeps_throw Trimmed.refl _
  | some bsp =>
    refine trimmed_modify fun s ↦ ⟨?_, rfl⟩
    exact (Relation.ReflTransGen.single (.remove s.rollbackState bsp.blockID)).tail
      (.solidify _ item.blockNumber)

theorem trimmed_solidifyLoop (number fuel : ℕ) :
    Eff.Keeps Trimmed (solidifyLoop env number fuel) := by
  induction fuel with
  | zero => exact Eff.keeps_pure Trimmed.refl _
  | succ fuel ih =>
    refine Eff.Keeps.bind Trimmed.trans Trimmed.refl fun s ↦ ?_
    cases s.memoryQueue with
    | nil => exact trimmed_modify fun s ↦ ⟨.refl, rfl⟩
    | cons item queue =>
      dsimp only
      split_ifs
      · exact Eff.Keeps.bind Trimmed.trans (trimmed_commitItem item queue) fun _ ↦ ih
      · exact Eff.keeps_pure Trimmed.refl _

theorem trimmed_onSolidifiable (env : Env) (bsp : BlockState) :
    Eff.Keeps Trimmed (onSolidifiable env bsp) :=
  Eff.Keeps.bind Trimmed.trans Trimmed.refl fun _ ↦ trimmed_solidifyLoop _ _

theorem trimmed_undoBlock (item : BlockState) : Eff.Keeps Trimmed (undoBlock item) := by
  refine Eff.Keeps.bind Trimmed.trans (trimmed_modify fun s ↦ ⟨?_, rfl⟩) fun _ ↦ ?_
  · change Relation.ReflTransGen Trim s.rollbackState
      (s.rollbackState.removeByNumber item.blockNumber)
    unfold RollbackState.removeByNumber
    cases s.rollbackState.getBlockByNumber item.blockNumber with
    | none => exact .refl
    | some b => exact .single (.remove s.rollbackState b.blockID)
  · refine Eff.Keeps.bind Trimmed.trans Trimmed.refl fun s ↦ ?_
    cases s.rollbackState.getBlock s.head.getPrev with
    | none => exact Eff.keeps_throw Trimmed.refl _
    | some prev => exact trimmed_modify fun s ↦ ⟨.refl, rfl⟩

theorem trimmed_switchBranch : Eff.Keeps Trimmed switchBranch := by
  refine Eff.Keeps.bind Trimmed.trans Trimmed.refl fun s ↦ ?_
  cases s.rollbackState.rollbackTo s.rollbackState.head s.head with
  | none => exact Eff.keeps_pure Trimmed.refl _
  | some branch =>
    refine Eff.Keeps.bind Trimmed.trans (trimmed_modify fun s ↦ ⟨.refl, rfl⟩) fun _ ↦ ?_
    refine Eff.Keeps.bind Trimmed.trans
      (Eff.keeps_forEach Trimmed.refl Trimmed.trans branch fun item _ ↦ trimmed_undoBlock item)
      fun _ ↦ ?_
    refine Eff.Keeps.bind Trimmed.trans Trimmed.refl fun s ↦ ?_
    split_ifs
    · exact Eff.keeps_throw Trimmed.refl _
    · exact Eff.keeps_pure Trimmed.refl _

end Trimmed

section Processing

variable (env) (block : Block) (s : BlockChain)

structure FirstSent (t : BlockChain) : Prop where
  upkeep : ∃ y,
    Relation.ReflTransGen (Upkeep env s.schedule.getProducerSnapshot) s.rollbackState y ∧
    (∀ b ∈ y.index, b.blockID = block.getHash env.sha3 → b.confirmations = []) ∧
    t.rollbackState = y.addConfirmation (ownConfirmation env block)
  sent_eq : t.sent = s.sent ++ [ownConfirmation env block]

/-- All that `processBlock` does to the fork index and the confirmations sent. -/
def Upkept (t : BlockChain) : Prop :=
  Relation.ReflTransGen (Upkeep env s.schedule.getProducerSnapshot) s.rollbackState
      t.rollbackState ∧ t.sent = s.sent ∨
    FirstSent env block s t

def Sends (c d : Control) : Prop :=
  d.rollbackState = c.rollbackState ∧ d.sent = c.sent ∨
    d.rollbackState = c.rollbackState.addConfirmation (ownConfirmation env block) ∧
      d.sent = c.sent ++ [ownConfirmation env block]

theorem sends_send (c : Control) : Sends env block c (c.send env block) := by
  unfold Control.send
  split_ifs
  · exact Or.inl ⟨rfl, rfl⟩
  · exact Or.inr ⟨rfl, rfl⟩

theorem sends_doProcessBlock :
    Sends env block s.control (doProcessBlock env block s).2.control := by
  have hprepare : (prepareBlock env block s).2.control = s.control :=
    sameControl_prepareBlock env block s
  unfold doProcessBlock
  rcases h₁ : prepareBlock env block s with ⟨e | ⟨⟨⟩⟩, s₁⟩
  · rw [h₁] at hprepare
    have hends : Sends env block s.control s₁.control := by
      rw [show s₁.control = s.control from hprepare]
      exact Or.inl ⟨rfl, rfl⟩
    dsimp only
    split_ifs
    · exact hends
    · exact hends
  · rw [h₁] at hprepare
    have hpush : (addMemoryItem block s₁).control = s.control.push block := by
      rw [control_addMemoryItem, show s₁.control = s.control from hprepare]
    rcases h₂ : executeBlock env block (addMemoryItem block s₁) with ⟨e | ⟨⟨⟩⟩, s₂⟩
    · have hexecute := executeBlock_control env block h₂
      rw [hpush] at hexecute
      have hends : Sends env block s.control s₂.control := by
        rcases hexecute with hsame | hsent
        · rw [hsame]
          exact Or.inl ⟨rfl, rfl⟩
        · rw [hsent]
          exact sends_send env block (s.control.push block)
      simp only [h₂]
      split_ifs
      · exact hends
      · exact hends
    · have hexecute := executeBlock_control env block h₂
      rw [hpush] at hexecute
      simp only [h₂]
      rw [show s₂.control = _ from hexecute]
      exact sends_send env block (s.control.push block)

theorem addToRollbackState_upkept :
    Relation.ReflTransGen (Upkeep env s.schedule.getProducerSnapshot) s.rollbackState
        (addToRollbackState env block s).2.rollbackState ∧
      (addToRollbackState env block s).2.sent = s.sent ∧
      ((addToRollbackState env block s).1.isOk = true →
        ∀ b ∈ (addToRollbackState env block s).2.rollbackState.index,
          b.blockID = block.getHash env.sha3 → b.confirmations = []) := by
  rw [addToRollbackState_eq]
  rcases ForkIndex.add_cases env.sha3 env.garbage s.rollbackState block
      s.schedule.getProducerSnapshot with
    ⟨e, hadd, -⟩ | ⟨new, hof, hblock, -, -, hnone, habsent, -, hadd⟩
  · rw [hadd]
    exact ⟨.refl, rfl, fun h ↦ by cases h⟩
  · have hfresh : ∀ b ∈ (ForkIndex.inserted s.rollbackState new).index,
        b.blockID = block.getHash env.sha3 → b.confirmations = [] := by
      intro b hb hid
      rcases List.mem_append.mp hb with hold | hlast
      · rw [← hblock, ← hof.id_eq] at hid
        exact absurd (hid ▸ List.mem_map_of_mem hold) habsent
      · rw [List.mem_singleton.mp hlast]
        exact hnone
    have hstep : Relation.ReflTransGen (Upkeep env s.schedule.getProducerSnapshot)
        s.rollbackState (ForkIndex.inserted s.rollbackState new) := .single (.add hadd)
    rw [hadd]
    split_ifs
    · cases ForkIndex.byNumber (s.rollbackState.index ++ [new])
          (RollbackState.maxBftSolidify s.rollbackState.index) with
      | none => exact ⟨hstep, rfl, fun _ ↦ hfresh⟩
      | some bsp =>
        obtain ⟨htrims, hsent⟩ := trimmed_onSolidifiable env bsp
          { s with rollbackState := ForkIndex.inserted s.rollbackState new }
        exact ⟨hstep.trans (upkeep_of_trims htrims), hsent,
          fun _ b hb ↦ hfresh b (subset_of_trims htrims hb)⟩
    · exact ⟨hstep, rfl, fun _ ↦ hfresh⟩

theorem upkept_checkBifurcation {t : BlockChain}
    (hadd : addToRollbackState env block s = (.ok (), t)) :
    Upkept env block s (checkBifurcation env block t).2 := by
  obtain ⟨hupkeep, hsent, hfresh⟩ := addToRollbackState_upkept env block s
  rw [hadd] at hupkeep hsent hfresh
  by_cases hextends : t.rollbackState.head.getPrev = t.head.blockID
  · rw [checkBifurcation_of_extends env block hextends]
    rcases sends_doProcessBlock env block t with ⟨hstate, hsame⟩ | ⟨hstate, hsends⟩
    · refine Or.inl ⟨?_, hsame.trans hsent⟩
      rw [show (doProcessBlock env block t).2.rollbackState = t.rollbackState from hstate]
      exact hupkeep
    · refine Or.inr ⟨⟨t.rollbackState, hupkeep, hfresh rfl, hstate⟩, ?_⟩
      rw [show (doProcessBlock env block t).2.sent = _ from hsends]
      exact congrArg (· ++ [ownConfirmation env block]) hsent
  · have htrimmed := trimmed_switchBranch t
    have hends : (checkBifurcation env block t).2 = (switchBranch t).2 := by
      unfold checkBifurcation
      rw [Eff.get_bind_apply, if_neg hextends]
      unfold Eff.tryCatch
      rcases switchBranch t with ⟨e | ⟨⟨⟩⟩, u⟩
      · dsimp only
        split_ifs <;> rfl
      · rfl
    rw [hends]
    exact Or.inl ⟨hupkeep.trans (upkeep_of_trims htrimmed.1), htrimmed.2.trans hsent⟩

theorem processBlock_upkept : Upkept env block s (processBlock env block s).2 := by
  cases hproducer : s.checkProducer block with
  | false =>
    rw [processBlock_of_checkProducer env hproducer]
    exact Or.inl ⟨.refl, rfl⟩
  | true =>
    rcases hadd : addToRollbackState env block s with ⟨e | ⟨⟨⟩⟩, t⟩
    · obtain ⟨hupkeep, hsent, -⟩ := addToRollbackState_upkept env block s
      rw [hadd] at hupkeep hsent
      unfold processBlock Eff.tryCatch
      rw [Eff.get_bind_apply, hproducer]
      simp only [Bool.not_true, Bool.false_eq_true, if_false, Eff.bind_error hadd]
      split_ifs
      · exact Or.inl ⟨hupkeep, hsent⟩
      · exact Or.inl ⟨hupkeep, hsent⟩
    · have hends := upkept_checkBifurcation env block s hadd
      rcases hcheck : checkBifurcation env block t with ⟨e | ⟨⟨⟩⟩, u⟩
      · rw [hcheck] at hends
        unfold processBlock Eff.tryCatch
        rw [Eff.get_bind_apply, hproducer]
        simp only [Bool.not_true, Bool.false_eq_true, if_false, Eff.bind_ok hadd,
          Eff.bind_error hcheck]
        split_ifs
        · exact hends
        · exact hends
      · rw [hcheck] at hends
        rw [processBlock_of_added env hproducer hadd hcheck]
        exact hends.imp_right fun hfirst ↦ ⟨hfirst.upkeep, hfirst.sent_eq⟩

end Processing

section Runs

variable {s t : BlockChain}

theorem doWork_upkept (env : Env) (s : BlockChain) :
    (doWork env s).2 = s.nextBlock.2 ∨
      ∃ block, Upkept env block s.nextBlock.2 (doWork env s).2 := by
  unfold doWork
  rw [Eff.get_bind_apply, Eff.modify_bind_apply]
  cases s.nextBlock.1 with
  | none => exact Or.inl rfl
  | some block =>
    right
    refine ⟨block, ?_⟩
    have hupkept := processBlock_upkept env block s.nextBlock.2
    dsimp only
    rcases hrun : processBlock env block s.nextBlock.2 with ⟨e | r, u⟩
    · rw [hrun] at hupkept
      rw [Eff.bind_error hrun]
      exact hupkept
    · rw [hrun] at hupkept
      rw [Eff.bind_ok hrun]
      exact hupkept

theorem nextBlock_frame (s : BlockChain) :
    s.nextBlock.2.rollbackState = s.rollbackState ∧ s.nextBlock.2.sent = s.sent ∧
      s.nextBlock.2.schedule = s.schedule := by
  obtain ⟨cache, heq, -⟩ := nextBlock_eq s
  rw [heq]
  exact ⟨rfl, rfl, rfl⟩

theorem Upkept.quorum {block : Block} (h : Upkept env block s t) :
    Quorum.Run env (fun _ _ ↦ True) s.rollbackState t.rollbackState := by
  have hrun : ∀ {x y}, Relation.ReflTransGen (Upkeep env s.schedule.getProducerSnapshot) x y →
      Quorum.Run env (fun _ _ ↦ True) x y := by
    intro x y hops
    induction hops with
    | refl => exact .refl
    | tail _ hstep ih => exact ih.tail hstep.step
  rcases h with ⟨hops, -⟩ | ⟨⟨y, hops, -, heq⟩, -⟩
  · exact hrun hops
  · rw [heq]
    exact (hrun hops).tail (.confirm trivial)

theorem quorum_confirmations (x : RollbackState) (hcs : List HeaderConfirmation) :
    Quorum.Run env (fun _ _ ↦ True) x (hcs.foldl RollbackState.addConfirmation x) := by
  induction hcs generalizing x with
  | nil => exact .refl
  | cons hc hcs ih => exact .head (.confirm trivial) (ih (x.addConfirmation hc))

theorem Run.quorum {P : BlockChain → Event → Prop} (h : Run env P s t) :
    Quorum.Run env (fun _ _ ↦ True) s.rollbackState t.rollbackState := by
  induction h with
  | start => exact .refl
  | @step t u event _ _ hstep ih =>
    refine Relation.ReflTransGen.trans ih ?_
    have hu : (handle env event t).2 = u := by rw [hstep]
    rw [← hu]
    cases event with
    | block block => exact .refl
    | work =>
      obtain ⟨hstate, -⟩ := nextBlock_frame t
      rcases doWork_upkept env t with heq | ⟨block, hupkept⟩
      · change Quorum.Run env _ _ (doWork env t).2.rollbackState
        rw [heq, hstate]
        exact .refl
      · rw [← hstate]
        exact hupkept.quorum
    | confirmation hc => exact .single (.confirm trivial)
    | blockState number confirmations =>
      change Quorum.Run env _ _ (t.rollbackState.addSyncBlockState number confirmations)
      unfold RollbackState.addSyncBlockState
      split_ifs
      · exact .refl
      · exact quorum_confirmations t.rollbackState confirmations
    | status status => exact .refl

end Runs

end GseNetwork.Chain
