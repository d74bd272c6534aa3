import GseNetwork.Chain.Processing

namespace GseNetwork.Chain

open GseNetwork.Core GseNetwork.Foundation GseNetwork.Storage
open BlockChain Relation

variable (env : Env) (block : Block)

inductive Prepares : BlockChain → BlockChain → Prop
  | lookup (s : BlockChain) (tx : Transaction) : Prepares s (isExistInRepo env tx s).2
  | active (s : BlockChain) (x : ProducerSnapshot) :
      Prepares s { s with currentActiveProducers := x }
  | record (s : BlockChain) :
      Prepares s { s with
        producerRecord := s.producerRecord.insert block.getProducer block.getTimestamp.toInt }

/-- What `executeBlock` does once the transactions have been executed. -/
inductive Completes : BlockChain → BlockChain → Prop
  | confirm (s : BlockChain) : Completes s (sendConfirmation env block s)
  | schedule (s : BlockChain) : Completes s (updateSchedule env block.getTimestamp s).2
  | prune (s : BlockChain) :
      Completes s (updateProducerRecord
        { s with currentActiveProducers := s.currentActiveProducers.clear })
  | scheduled (s : BlockChain) :
      Completes s { s with scheduleUpdateBlockTimestamp := block.getTimestamp.toInt }
  | bonus (s : BlockChain) (value : UInt64) :
      Completes s (onRepo (fun db ↦ Repository.bonus db block.getProducer value) s).2
  | done (s : BlockChain) :
      Completes s { eraseSolicitedTx env block s.setDone with
        latestBlockNumber := block.getNumber
        latestBlock := block }

inductive Commits : BlockChain → BlockChain → Prop
  | commit {s : BlockChain} {item : MemoryItem} {rest : List MemoryItem} :
      s.memoryQueue = item :: rest →
      Commits s { s with
        attributes.dbDirty := 1
        dbc := s.dbc.putAll env.sha3 env.codec (.dbDirty 1 :: item.repository.commitWrites)
        memoryQueue := rest
        committed := s.committed ++ [item.repository.block] }
  | solidify (s : BlockChain) (number : ℕ) (bsp : BlockState) :
      Commits s { s with
        attributes.dbDirty := 0
        attributes.currentBlockHeight := bsp.blockNumber
        attributes.solidifyActiveProducerList := bsp.activeProducers
        dbc := s.dbc.putAll env.sha3 env.codec [.currentBlockHeight bsp.blockNumber,
          .solidifyActiveProducerList bsp.activeProducers, .blockState bsp,
          .blockStateIndex bsp, .dbDirty 0]
        rollbackState := { s.rollbackState.remove bsp.blockID with solidifyNumber := number } }
  | front (s : BlockChain) : Commits s { s with frontOfEmpty := true }

inductive Undoes : BlockChain → BlockChain → Prop
  | sync (s : BlockChain) : Undoes s { s with blockChainStatus := .sync }
  | back (s : BlockChain) (number : ℕ) : Undoes s { s with
      latestBlockNumber := number - 1
      rollbackState := s.rollbackState.removeByNumber number }
  | pop (s : BlockChain) (prev : BlockState) : Undoes s (cancelMemoryItem { s with head := prev })

/-- What `processBlock` does to a node; the work of `doProcessBlock` counts as one step. -/
inductive Passes : BlockChain → BlockChain → Prop
  | index (s : BlockChain) (x : RollbackState) : Passes s { s with rollbackState := x }
  | commit {s t : BlockChain} : Commits env s t → Passes s t
  | process (s : BlockChain) : Passes s (doProcessBlock env block s).2
  | undo {s t : BlockChain} : Undoes s t → Passes s t
  | head (s : BlockChain) (x : BlockState) : Passes s { s with head := x }

section Steps

variable {α : Type} {r : BlockChain → BlockChain → Prop}

theorem keeps_single {m : ChainM α} (h : ∀ s, r s (m s).2) : Eff.Keeps (ReflTransGen r) m :=
  fun s ↦ .single (h s)

theorem keeps_still {m : ChainM α} (h : ∀ s, (m s).2 = s) : Eff.Keeps (ReflTransGen r) m := by
  intro s
  rw [h s]

theorem keeps_tryCatch {m : ChainM α} {f : Exception → ChainM α}
    (hm : Eff.Keeps (ReflTransGen r) m) (hf : ∀ e, Eff.Keeps (ReflTransGen r) (f e)) :
    Eff.Keeps (ReflTransGen r) (Eff.tryCatch m f) := by
  intro s
  have hsteps := hm s
  unfold Eff.tryCatch
  rcases hrun : m s with ⟨e | a, t⟩
  · rw [hrun] at hsteps
    exact hsteps.trans (hf e t)
  · rw [hrun] at hsteps
    exact hsteps

theorem keeps_bind {β : Type} {m : ChainM α} {f : α → ChainM β}
    (hm : Eff.Keeps (ReflTransGen r) m) (hf : ∀ a, Eff.Keeps (ReflTransGen r) (f a)) :
    Eff.Keeps (ReflTransGen r) (m >>= f) :=
  Eff.Keeps.bind (fun _ _ _ h₁ h₂ ↦ h₁.trans h₂) hm hf

theorem keeps_loop {β : Type} {f : β → ChainM Unit} (xs : List β)
    (hf : ∀ x, Eff.Keeps (ReflTransGen r) (f x)) :
    Eff.Keeps (ReflTransGen r) (Eff.forEach xs f) :=
  Eff.keeps_forEach (fun _ ↦ .refl) (fun _ _ _ h₁ h₂ ↦ h₁.trans h₂) xs fun x _ ↦ hf x

end Steps

theorem prepareBlock_steps :
    Eff.Keeps (ReflTransGen (Prepares env block)) (prepareBlock env block) := by
  refine keeps_bind (keeps_loop _ fun tx ↦ ?_) fun _ ↦ ?_
  · refine keeps_bind (keeps_single fun s ↦ .lookup s tx) fun found ↦ ?_
    cases found <;> exact keeps_still fun _ ↦ rfl
  · refine keeps_bind ?_ fun _ ↦ keeps_single fun s ↦ .record s
    refine keeps_bind (keeps_still fun _ ↦ rfl) fun s ↦ ?_
    refine keeps_bind (keeps_still fun _ ↦ rfl) fun prevBlock ↦ ?_
    refine keeps_bind (keeps_single fun s ↦ .active s _) fun _ ↦ ?_
    refine keeps_bind (keeps_still fun _ ↦ rfl) fun producer ↦ ?_
    exact keeps_single fun s ↦ .active s _

def completeBlock : ChainM Unit := do
  Eff.modify (sendConfirmation env block)
  reschedule env block
  onRepo fun db ↦ Repository.bonus db block.getProducer (blockBonus env block.getTimestamp)
  Eff.modify fun s ↦ { eraseSolicitedTx env block s.setDone with
    latestBlockNumber := block.getNumber
    latestBlock := block }

theorem executeBlock_eq : executeBlock env block = (do
    onRepo fun db ↦ Runtime.run env.sha3 db block
    completeBlock env block) := rfl

theorem completeBlock_steps :
    Eff.Keeps (ReflTransGen (Completes env block)) (completeBlock env block) := by
  refine keeps_bind (keeps_single fun s ↦ .confirm s) fun _ ↦ ?_
  refine keeps_bind ?_ fun _ ↦ ?_
  · unfold reschedule
    split_ifs
    · refine keeps_bind (keeps_single fun s ↦ .schedule s) fun _ ↦ ?_
      exact keeps_bind (keeps_single fun s ↦ .prune s) fun _ ↦ keeps_single fun s ↦ .scheduled s
    · exact keeps_still fun _ ↦ rfl
  · exact keeps_bind (keeps_single fun s ↦ .bonus s _) fun _ ↦ keeps_single fun s ↦ .done s

theorem commitItem_steps {s : BlockChain} {item : MemoryItem} {rest : List MemoryItem}
    (h : s.memoryQueue = item :: rest) :
    ReflTransGen (Commits env) s (commitItem env item rest s).2 := by
  refine ReflTransGen.head (.commit h) ?_
  unfold commitItem
  rw [Eff.modify_bind_apply, Eff.get_bind_apply]
  cases RollbackState.getBlockByNumber _ item.blockNumber with
  | none => exact .refl
  | some bsp => exact .single (.solidify _ item.blockNumber bsp)

theorem solidifyLoop_steps (number fuel : ℕ) :
    Eff.Keeps (ReflTransGen (Commits env)) (solidifyLoop env number fuel) := by
  induction fuel with
  | zero => exact keeps_still fun _ ↦ rfl
  | succ fuel ih =>
    intro s
    unfold solidifyLoop
    rw [Eff.get_bind_apply]
    cases hqueue : s.memoryQueue with
    | nil => exact .single (.front s)
    | cons item rest =>
      dsimp only
      split_ifs
      · have hsteps := commitItem_steps env hqueue
        rcases hrun : commitItem env item rest s with ⟨e | ⟨⟨⟩⟩, t⟩
        · rw [hrun] at hsteps
          rw [Eff.bind_error hrun]
          exact hsteps
        · rw [hrun] at hsteps
          rw [Eff.bind_ok hrun]
          exact hsteps.trans (ih t)
      · exact .refl

theorem onSolidifiable_steps (bsp : BlockState) :
    Eff.Keeps (ReflTransGen (Commits env)) (onSolidifiable env bsp) :=
  fun s ↦ solidifyLoop_steps env bsp.blockNumber (s.memoryQueue.length + 1) s

theorem undoBlock_steps (item : BlockState) :
    Eff.Keeps (ReflTransGen Undoes) (undoBlock item) := by
  refine keeps_bind (keeps_single fun s ↦ .back s item.blockNumber) fun _ ↦ ?_
  refine keeps_bind (keeps_still fun _ ↦ rfl) fun s ↦ ?_
  cases s.rollbackState.getBlock s.head.getPrev with
  | none => exact keeps_still fun _ ↦ rfl
  | some prev => exact keeps_single fun s ↦ .pop s prev

theorem switchBranch_steps : Eff.Keeps (ReflTransGen Undoes) switchBranch := by
  refine keeps_bind (keeps_still fun _ ↦ rfl) fun s ↦ ?_
  cases s.rollbackState.rollbackTo s.rollbackState.head s.head with
  | none => exact keeps_still fun _ ↦ rfl
  | some branch =>
    refine keeps_bind (keeps_single fun s ↦ .sync s) fun _ ↦ ?_
    refine keeps_bind (keeps_loop branch undoBlock_steps) fun _ ↦ ?_
    refine keeps_bind (keeps_still fun _ ↦ rfl) fun s ↦ ?_
    split_ifs <;> exact keeps_still fun _ ↦ rfl

theorem processBlock_steps :
    Eff.Keeps (ReflTransGen (Passes env block)) (processBlock env block) := by
  have hcommit : ∀ {s t}, ReflTransGen (Commits env) s t → ReflTransGen (Passes env block) s t :=
    ReflTransGen.mono (fun _ _ ↦ .commit) _ _
  have hundo : ∀ {s t}, ReflTransGen Undoes s t → ReflTransGen (Passes env block) s t :=
    ReflTransGen.mono (fun _ _ ↦ .undo) _ _
  refine keeps_tryCatch ?_ fun e ↦ by split_ifs <;> exact keeps_still fun _ ↦ rfl
  refine keeps_bind (keeps_still fun _ ↦ rfl) fun s ↦ ?_
  split_ifs
  · exact keeps_still fun _ ↦ rfl
  refine keeps_bind ?_ fun _ ↦ keeps_bind ?_ fun _ ↦ ?_
  · refine keeps_bind (keeps_still fun _ ↦ rfl) fun s ↦ ?_
    refine keeps_bind (keeps_still fun _ ↦ rfl) fun p ↦ ?_
    refine keeps_bind (keeps_single fun s ↦ .index s _) fun _ ↦ ?_
    cases p.2 with
    | none => exact keeps_still fun _ ↦ rfl
    | some bsp => exact fun s ↦ hcommit (onSolidifiable_steps env bsp s)
  · refine keeps_bind (keeps_still fun _ ↦ rfl) fun s ↦ ?_
    split_ifs
    · exact keeps_single fun s ↦ .process s
    · refine keeps_tryCatch (fun s ↦ hundo (switchBranch_steps s)) fun e ↦ ?_
      split_ifs <;> exact keeps_still fun _ ↦ rfl
  · exact keeps_bind (keeps_single fun s ↦ .head s _) fun _ ↦ keeps_still fun _ ↦ rfl

/-- `doWork` takes a block out of the cache, or discards one, and processes the block it took. -/
theorem doWork_steps (s : BlockChain) :
    (doWork env s).2 = s.nextBlock.2 ∧ s.nextBlock.1 = none ∨
      ∃ block, s.nextBlock.1 = some block ∧
        ReflTransGen (Passes env block) s.nextBlock.2 (doWork env s).2 := by
  unfold doWork
  rw [Eff.get_bind_apply, Eff.modify_bind_apply]
  cases hnext : s.nextBlock.1 with
  | none => exact Or.inl ⟨rfl, rfl⟩
  | some block =>
    refine Or.inr ⟨block, rfl, ?_⟩
    have hsteps := processBlock_steps env block s.nextBlock.2
    dsimp only
    rcases hrun : processBlock env block s.nextBlock.2 with ⟨e | r, u⟩
    · rw [hrun] at hsteps
      rw [Eff.bind_error hrun]
      exact hsteps
    · rw [hrun] at hsteps
      rw [Eff.bind_ok hrun]
      exact hsteps

section Frame

variable {env block}

theorem steps_invariant {α : Type} {r : α → α → Prop} {I : α → Prop}
    (hstep : ∀ s t, r s t → I s → I t) {s t : α} (h : ReflTransGen r s t) (hs : I s) : I t := by
  induction h with
  | refl => exact hs
  | tail _ hrt ih => exact hstep _ _ hrt ih

theorem doProcessBlock_invariant {I : BlockChain → Prop}
    (hprepare : ∀ s t, Prepares env block s t → I s → I t)
    (hpush : ∀ s, I s → I (addMemoryItem block s))
    (hrun : ∀ s, I s → I (onRepo (fun db ↦ Runtime.run env.sha3 db block) s).2)
    (hcomplete : ∀ s t, Completes env block s t → I s → I t)
    (hcancel : ∀ s, I s → I s.cancelMemoryItem) {s : BlockChain} (hs : I s) :
    I (doProcessBlock env block s).2 := by
  have h₁ := steps_invariant hprepare (prepareBlock_steps env block s) hs
  unfold doProcessBlock
  rcases hprep : prepareBlock env block s with ⟨e | ⟨⟨⟩⟩, s₁⟩
  · rw [hprep] at h₁
    dsimp only
    split_ifs <;> exact h₁
  · rw [hprep] at h₁
    have h₂ := hrun _ (hpush _ h₁)
    have h₃ : I (executeBlock env block (addMemoryItem block s₁)).2 := by
      rw [executeBlock_eq]
      rcases hexec : onRepo (fun db ↦ Runtime.run env.sha3 db block) (addMemoryItem block s₁) with
        ⟨e | ⟨⟨⟩⟩, s₂⟩
      · rw [hexec] at h₂
        rw [Eff.bind_error hexec]
        exact h₂
      · rw [hexec] at h₂
        rw [Eff.bind_ok hexec]
        exact steps_invariant hcomplete (completeBlock_steps env block s₂) h₂
    dsimp only
    rcases hexec : executeBlock env block (addMemoryItem block s₁) with ⟨e | ⟨⟨⟩⟩, s₃⟩
    · rw [hexec] at h₃
      dsimp only
      split_ifs
      · exact hcancel _ h₃
      · exact h₃
    · rw [hexec] at h₃
      exact h₃

end Frame

end GseNetwork.Chain
