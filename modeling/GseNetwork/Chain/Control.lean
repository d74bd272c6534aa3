import GseNetwork.Chain.Processing
import GseNetwork.Runtime.Frames

namespace GseNetwork.Chain

open GseNetwork.Core GseNetwork.Foundation GseNetwork.Storage GseNetwork.Runtime
open Std (ExtTreeMap)

/-- The part of the state of a node that its choice of chain depends on; of each repository only
the block it was made for. -/
structure Control where
  queue : List (ℕ × Block)
  rollbackState : RollbackState
  head : BlockState
  latestBlockNumber : ℕ
  committed : List Block
  currentBlockHeight : ℕ
  sent : List HeaderConfirmation
  blockCache : ExtTreeMap ℕ Block

namespace Control

def push (c : Control) (block : Block) : Control :=
  { c with queue := c.queue ++ [(block.getNumber, block)] }

def confirm (c : Control) (hc : HeaderConfirmation) : Control :=
  { c with rollbackState := c.rollbackState.addConfirmation hc }

/-- The confirmation that `doProcessBlock` sends, unless the block is part of a
synchronisation. -/
def send (env : Env) (c : Control) (block : Block) : Control :=
  if block.syncBlock then c
  else { c.confirm (BlockChain.ownConfirmation env block) with
    sent := c.sent ++ [BlockChain.ownConfirmation env block] }

end Control

namespace BlockChain

def control (s : BlockChain) : Control where
  queue := s.memoryQueue.map fun i ↦ (i.blockNumber, i.repository.block)
  rollbackState := s.rollbackState
  head := s.head
  latestBlockNumber := s.latestBlockNumber
  committed := s.committed
  currentBlockHeight := s.attributes.currentBlockHeight
  sent := s.sent
  blockCache := s.blockCache

def SameControl (s t : BlockChain) : Prop := t.control = s.control

namespace SameControl

theorem refl (s : BlockChain) : SameControl s s := rfl

theorem trans (s t u : BlockChain) (hst : SameControl s t) (htu : SameControl t u) :
    SameControl s u := Eq.trans htu hst

end SameControl

section Frames

variable (env : Env) {s s' : BlockChain}

theorem map_zipWith_blocks {queue : List MemoryItem} {rs : List Repository}
    (h : rs.map Repository.block = queue.map fun i ↦ i.repository.block) :
    (List.zipWith (fun i r ↦ { i with repository := r }) queue rs).map
        (fun i : MemoryItem ↦ (i.blockNumber, i.repository.block)) =
      queue.map fun i ↦ (i.blockNumber, i.repository.block) := by
  induction queue generalizing rs with
  | nil => rfl
  | cons i queue ih =>
    cases rs with
    | nil => simp at h
    | cons r rs =>
      simp only [List.map_cons, List.cons.injEq] at h
      simp only [List.zipWith_cons_cons, List.map_cons, h.1, ih h.2]

theorem queue_unstack {queue : List MemoryItem} {st : List Repository}
    (h : SameBlocks (stack queue) st) :
    (unstack queue st).map (fun i ↦ (i.blockNumber, i.repository.block)) =
      queue.map fun i ↦ (i.blockNumber, i.repository.block) := by
  refine map_zipWith_blocks ?_
  rw [List.map_reverse, h, stack, List.map_reverse, List.reverse_reverse, List.map_map]
  rfl

theorem control_setQueue (s : BlockChain) {queue : List MemoryItem}
    (h : queue.map (fun i ↦ (i.blockNumber, i.repository.block)) =
      s.memoryQueue.map fun i ↦ (i.blockNumber, i.repository.block)) :
    ({ s with memoryQueue := queue } : BlockChain).control = s.control := by
  simp only [control, h]

theorem sameControl_onRepo {α : Type} {m : DatabaseController → RepoM α}
    (hm : ∀ db, Eff.Keeps SameBlocks (m db)) : Eff.Keeps SameControl (onRepo m) :=
  fun s ↦ control_setQueue s (queue_unstack (hm s.dbc (stack s.memoryQueue)))

theorem sameControl_modify {f : BlockChain → BlockChain} (h : ∀ s, (f s).control = s.control) :
    Eff.Keeps SameControl (Eff.modify f : ChainM Unit) := h

theorem sameControl_prepareBlock (block : Block) :
    Eff.Keeps SameControl (prepareBlock env block) := by
  refine Eff.Keeps.bind SameControl.trans ?_ fun _ ↦ ?_
  · refine Eff.keeps_forEach SameControl.refl SameControl.trans _ fun tx _ ↦ ?_
    refine Eff.Keeps.bind SameControl.trans ?_ fun found ↦ ?_
    · refine Eff.Keeps.bind SameControl.trans ?_ fun _ ↦ Eff.keeps_pure SameControl.refl _
      exact sameControl_onRepo fun db ↦ sameBlocks_getTransaction env.sha3 db _
    · split
      · exact Eff.keeps_throw SameControl.refl _
      · exact Eff.keeps_pure SameControl.refl _
  · refine Eff.Keeps.bind SameControl.trans ?_ fun _ ↦ sameControl_modify fun _ ↦ rfl
    refine Eff.Keeps.bind SameControl.trans SameControl.refl fun s ↦ ?_
    refine Eff.Keeps.bind SameControl.trans SameControl.refl fun prevBlock ↦ ?_
    refine Eff.Keeps.bind SameControl.trans (sameControl_modify fun _ ↦ rfl) fun _ ↦ ?_
    refine Eff.Keeps.bind SameControl.trans SameControl.refl fun producer ↦ ?_
    exact sameControl_modify fun _ ↦ rfl

theorem sameControl_reschedule (block : Block) :
    Eff.Keeps SameControl (reschedule env block) := by
  unfold reschedule
  split
  · refine Eff.Keeps.bind SameControl.trans ?_ fun _ ↦ ?_
    · refine Eff.Keeps.bind SameControl.trans SameControl.refl fun s ↦ ?_
      refine Eff.Keeps.bind SameControl.trans SameControl.refl fun updatedSchedule ↦ ?_
      exact sameControl_modify fun _ ↦ rfl
    · exact Eff.Keeps.bind SameControl.trans (sameControl_modify fun _ ↦ rfl) fun _ ↦
        sameControl_modify fun _ ↦ rfl
  · exact Eff.keeps_pure SameControl.refl _

theorem control_sendConfirmation (block : Block) (s : BlockChain) :
    (sendConfirmation env block s).control = s.control.send env block := by
  unfold sendConfirmation Control.send
  split <;> rfl

theorem control_addMemoryItem (block : Block) (s : BlockChain) :
    (addMemoryItem block s).control = s.control.push block := by
  simp only [control, addMemoryItem, Control.push, List.map_append, List.map_cons, List.map_nil]

theorem queue_setDone (s : BlockChain) :
    s.setDone.memoryQueue.map (fun i ↦ (i.blockNumber, i.repository.block)) =
      s.memoryQueue.map fun i ↦ (i.blockNumber, i.repository.block) := by
  rcases List.eq_nil_or_concat s.memoryQueue with h | ⟨queue, item, h⟩
  · simp [setDone, h]
  · simp [setDone, h]

end Frames

section Outcomes

variable (env : Env) (block : Block) {s s' : BlockChain}

/-- A block in execution either stops before or after its confirmation is sent, or is done. -/
theorem executeBlock_control {r : Except Exception Unit}
    (h : executeBlock env block s = (r, s')) :
    match r with
    | .ok () => s'.control =
        { s.control.send env block with latestBlockNumber := block.getNumber }
    | .error _ => s'.control = s.control ∨ s'.control = s.control.send env block := by
  have hrun : Eff.Keeps SameControl (onRepo fun db ↦ Runtime.run env.sha3 db block) :=
    sameControl_onRepo fun db ↦ sameBlocks_run env.sha3 db block
  have hbonus : Eff.Keeps SameControl (onRepo fun db ↦
      Repository.bonus db block.getProducer (blockBonus env block.getTimestamp)) :=
    sameControl_onRepo fun db ↦ (framed_sameBlocks db).bonus _ _
  unfold executeBlock at h
  rcases h₁ : onRepo (fun db ↦ Runtime.run env.sha3 db block) s with ⟨_ | ⟨⟨⟩⟩, s₁⟩
  · rw [Eff.bind_error h₁] at h
    obtain ⟨rfl, rfl⟩ := Prod.mk.inj h
    have hsame := hrun s
    rw [h₁] at hsame
    exact Or.inl hsame
  · rw [Eff.bind_ok h₁, Eff.modify_bind_apply] at h
    have hsame := hrun s
    rw [h₁] at hsame
    have hsent := control_sendConfirmation env block s₁
    rw [show s₁.control = s.control from hsame] at hsent
    rcases h₂ : reschedule env block (sendConfirmation env block s₁) with ⟨_ | ⟨⟨⟩⟩, s₂⟩
    · rw [Eff.bind_error h₂] at h
      obtain ⟨rfl, rfl⟩ := Prod.mk.inj h
      have hsame₂ := sameControl_reschedule env block (sendConfirmation env block s₁)
      rw [h₂] at hsame₂
      exact Or.inr (Eq.trans hsame₂ hsent)
    · rw [Eff.bind_ok h₂] at h
      have hsame₂ := sameControl_reschedule env block (sendConfirmation env block s₁)
      rw [h₂] at hsame₂
      have hsame₃ := hbonus s₂
      rcases h₃ : onRepo (fun db ↦ Repository.bonus db block.getProducer
        (blockBonus env block.getTimestamp)) s₂ with ⟨_ | ⟨⟨⟩⟩, s₃⟩
      · rw [Eff.bind_error h₃] at h
        rw [h₃] at hsame₃
        obtain ⟨rfl, rfl⟩ := Prod.mk.inj h
        exact Or.inr (Eq.trans hsame₃ (Eq.trans hsame₂ hsent))
      · rw [Eff.bind_ok h₃] at h
        rw [h₃] at hsame₃
        obtain ⟨rfl, rfl⟩ := Prod.mk.inj h
        have hcontrol : s₃.control = s.control.send env block :=
          Eq.trans hsame₃ (Eq.trans hsame₂ hsent)
        rw [← hcontrol]
        simp only [control, eraseSolicitedTx, queue_setDone]
        rfl

theorem control_cancelMemoryItem {s : BlockChain} {c : Control} (item : ℕ × Block)
    (h : s.control = { c with queue := c.queue ++ [item] }) :
    s.cancelMemoryItem.control = c := by
  have hdrop : s.cancelMemoryItem.control =
      { s.control with queue := s.control.queue.dropLast } := by
    simp only [control, cancelMemoryItem, List.map_dropLast]
  rw [hdrop, h]
  simp

/-- The three ways `doProcessBlock` ends: done, with an exception it swallows, and with one that
it lets pass. -/
theorem doProcessBlock_cases (s : BlockChain) :
    (∃ s', attemptBlock env block s = (.ok (), s') ∧ doProcessBlock env block s = (.ok (), s') ∧
      s'.control =
        { (s.control.push block).send env block with latestBlockNumber := block.getNumber }) ∨
    (∃ e t s', attemptBlock env block s = (.error e, t) ∧ e.type.isGS = true ∧
      doProcessBlock env block s = (.ok (), s') ∧
      (s'.control = s.control ∨ s'.control = s.control.send env block)) ∨
    (∃ e t, attemptBlock env block s = (.error e, t) ∧ e.type.isGS = false ∧
      doProcessBlock env block s = (.error e, t)) := by
  unfold attemptBlock doProcessBlock
  have hprepare := sameControl_prepareBlock env block s
  rcases h₁ : prepareBlock env block s with ⟨e | ⟨⟨⟩⟩, s₁⟩
  · rw [h₁] at hprepare
    rw [Eff.bind_error h₁]
    cases he : e.type.isGS with
    | true => exact Or.inr (Or.inl ⟨e, s₁, s₁, rfl, he, by simp [he], Or.inl hprepare⟩)
    | false => exact Or.inr (Or.inr ⟨e, s₁, rfl, he, by simp [he]⟩)
  · rw [h₁] at hprepare
    have hpush : (addMemoryItem block s₁).control = s.control.push block := by
      rw [control_addMemoryItem, show s₁.control = s.control from hprepare]
    rw [Eff.bind_ok h₁, Eff.modify_bind_apply]
    dsimp only
    rcases h₂ : executeBlock env block (addMemoryItem block s₁) with ⟨e | ⟨⟨⟩⟩, s₂⟩
    · have hcontrol := executeBlock_control env block h₂
      rw [hpush] at hcontrol
      cases he : e.type.isGS with
      | true =>
        refine Or.inr (Or.inl ⟨e, s₂, s₂.cancelMemoryItem, rfl, he, by simp [he], ?_⟩)
        rcases hcontrol with hsame | hsent
        · exact Or.inl (control_cancelMemoryItem _ hsame)
        · refine Or.inr (control_cancelMemoryItem (block.getNumber, block) ?_)
          rw [hsent]
          unfold Control.send Control.push
          split <;> rfl
      | false => exact Or.inr (Or.inr ⟨e, s₂, rfl, he, by simp [he]⟩)
    · have hcontrol := executeBlock_control env block h₂
      rw [hpush] at hcontrol
      exact Or.inl ⟨s₂, rfl, rfl, hcontrol⟩

end Outcomes

end BlockChain

end GseNetwork.Chain
