import GseNetwork.Chain.Control
import GseNetwork.Chain.Moves

namespace GseNetwork.Chain

open GseNetwork.Core GseNetwork.Foundation GseNetwork.Storage GseNetwork.Runtime
open BlockChain Relation

variable {env : Env} {block : Block} {s t : BlockChain}

section Control

theorem sameControl_onChild {α : Type} {m : DatabaseController → RepoM α}
    (hm : ∀ db, Eff.Keeps SameBlocks (m db)) : Eff.Keeps SameControl (onChild m) := by
  intro s
  refine control_setQueue s (queue_unstack ?_)
  have hblocks := hm s.dbc ({ block := emptyBlock } :: stack s.memoryQueue)
  unfold SameBlocks at hblocks ⊢
  rw [List.map_tail, hblocks]
  rfl

theorem sameBlocks_excute (sha3 : Bytes → H256) (db : DatabaseController) (tx : Transaction) :
    Eff.Keeps SameBlocks (Runtime.excute sha3 db 0 tx) :=
  Eff.Keeps.bind (framed_sameBlocks db).trans ((framed_sameBlocks db).execute 0 tx) fun _ ↦
    sameBlocks_putTransaction sha3 tx

theorem Checks.control_eq (h : Checks env s t) : t.control = s.control := by
  cases h with
  | seek id => exact sameControl_onRepo (fun db ↦ sameBlocks_getTransaction env.sha3 db id) s
  | lookup id => exact sameControl_onChild (fun db ↦ sameBlocks_getTransaction env.sha3 db id) s
  | trial tx => exact sameControl_onChild (fun db ↦ sameBlocks_excute env.sha3 db tx) s
  | trials txs =>
    refine sameControl_onChild (fun db ↦ ?_) s
    exact Eff.keeps_forEach (framed_sameBlocks db).refl (framed_sameBlocks db).trans txs
      fun tx _ ↦ sameBlocks_excute env.sha3 db tx

theorem Prepares.control_eq (h : Prepares env block s t) : t.control = s.control := by
  cases h with
  | lookup tx =>
    refine Eff.Keeps.bind SameControl.trans ?_ (fun _ ↦ Eff.keeps_pure SameControl.refl _) s
    exact sameControl_onRepo fun db ↦ sameBlocks_getTransaction env.sha3 db _
  | active => rfl
  | record => rfl

theorem Completes.queue_eq (h : Completes env block s t) :
    t.control.queue = s.control.queue ∧ t.committed = s.committed := by
  cases h with
  | confirm =>
    unfold sendConfirmation
    split_ifs <;> exact ⟨rfl, rfl⟩
  | schedule =>
    unfold updateSchedule
    rw [Eff.get_bind_apply]
    cases hlist : Repository.getProducerList s.dbc (stack s.memoryQueue) <;> exact ⟨rfl, rfl⟩
  | prune => exact ⟨rfl, rfl⟩
  | scheduled => exact ⟨rfl, rfl⟩
  | bonus value =>
    have hcontrol := sameControl_onRepo
      (fun db ↦ (framed_sameBlocks db).bonus block.getProducer value) s
    exact ⟨congrArg Control.queue hcontrol, congrArg Control.committed hcontrol⟩
  | done => exact ⟨queue_setDone s, rfl⟩

end Control

def executedBlocks (s : BlockChain) : List Block :=
  s.committed ++ s.memoryQueue.map fun i ↦ i.repository.block

theorem executedBlocks_eq (s : BlockChain) :
    executedBlocks s = s.control.committed ++ s.control.queue.map (·.2) := by
  unfold executedBlocks BlockChain.control
  rw [List.map_map]
  rfl

theorem executedBlocks_of_control (h : t.control = s.control) :
    executedBlocks t = executedBlocks s := by
  rw [executedBlocks_eq, executedBlocks_eq, h]

section Property

variable {Q : Block → Prop}

theorem executed_doProcessBlock (hblock : Q block) (hs : ∀ b ∈ executedBlocks s, Q b) :
    ∀ b ∈ executedBlocks (doProcessBlock env block s).2, Q b := by
  refine doProcessBlock_invariant (I := fun t ↦ ∀ b ∈ executedBlocks t, Q b) ?_ ?_ ?_ ?_ ?_ hs
  · intro s t hstep hs
    rw [executedBlocks_of_control hstep.control_eq]
    exact hs
  · intro s hs b hb
    unfold executedBlocks addMemoryItem at hb
    rw [List.map_append, ← List.append_assoc] at hb
    rcases List.mem_append.mp hb with hold | hnew
    · exact hs b hold
    · rw [List.mem_singleton.mp hnew]
      exact hblock
  · intro s hs
    rw [executedBlocks_of_control (sameControl_onRepo
      (fun db ↦ sameBlocks_run env.sha3 db block) s)]
    exact hs
  · intro s t hstep hs
    obtain ⟨hqueue, hcommitted⟩ := hstep.queue_eq
    rw [executedBlocks_eq, hqueue, show t.control.committed = s.control.committed from hcommitted,
      ← executedBlocks_eq]
    exact hs
  · intro s hs b hb
    unfold executedBlocks cancelMemoryItem at hb
    rw [List.map_dropLast] at hb
    refine hs b (List.mem_append.mpr ((List.mem_append.mp hb).imp_right ?_))
    exact List.mem_of_mem_dropLast

/-- What holds of the block being processed and of the executed blocks holds of the executed
blocks afterwards. -/
theorem Passes.executed (hpass : Passes env block s t) (hblock : Q block)
    (hs : ∀ b ∈ executedBlocks s, Q b) : ∀ b ∈ executedBlocks t, Q b := by
  cases hpass with
  | index => exact hs
  | commit hcommit =>
    cases hcommit with
    | commit hqueue =>
      intro b hb
      unfold executedBlocks at hs
      rw [hqueue, List.map_cons, List.append_cons] at hs
      exact hs b hb
    | solidify => exact hs
    | front => exact hs
  | process => exact executed_doProcessBlock hblock hs
  | undo hundo =>
    cases hundo with
    | sync => exact hs
    | back => exact hs
    | pop prev =>
      intro b hb
      unfold executedBlocks cancelMemoryItem at hb
      rw [List.map_dropLast] at hb
      refine hs b (List.mem_append.mpr ((List.mem_append.mp hb).imp_right ?_))
      exact List.mem_of_mem_dropLast
  | head => exact hs

theorem doWork_executed (hnext : ∀ b, s.nextBlock.1 = some b → Q b)
    (hs : ∀ b ∈ executedBlocks s, Q b) : ∀ b ∈ executedBlocks (doWork env s).2, Q b := by
  have hs' : ∀ b ∈ executedBlocks s.nextBlock.2, Q b := by
    obtain ⟨cache, heq, -⟩ := nextBlock_eq s
    rw [heq]
    exact hs
  rcases doWork_steps env s with ⟨heq, -⟩ | ⟨block, hblock, hsteps⟩
  · rw [heq]
    exact hs'
  · exact steps_invariant (I := fun t ↦ ∀ b ∈ executedBlocks t, Q b)
      (fun _ _ hpass ht ↦ hpass.executed (hnext block hblock) ht) hsteps hs'

end Property

end GseNetwork.Chain
