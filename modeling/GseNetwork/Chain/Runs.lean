import GseNetwork.Chain.Advance

namespace GseNetwork.Chain

open GseNetwork.Core GseNetwork.Foundation
open BlockChain

variable {env : Env} {initial block : Block} {s t : BlockChain}

variable (env initial)

/-- The worker takes a block whose hash collides with nothing committed and whose execution lets
no exception pass. -/
def Orderly (s : BlockChain) : Event → Prop
  | .work => ∀ block, s.nextBlock.1 = some block →
    s.nextBlock.2.control.Fresh env.sha3 initial block ∧ Contained env block s.nextBlock.2
  | _ => True

variable {env initial}

theorem Control.Linked.setBlockCache {c : Control} (h : c.Linked env.sha3 initial)
    {cache : Std.ExtTreeMap ℕ Block} (hcached : Control.Cached { c with blockCache := cache }) :
    Control.Linked env.sha3 initial { c with blockCache := cache } :=
  { h with
    cached := hcached
    mode := by
      cases h.mode with
      | following hhead hlive => exact .following hhead hlive
      | severed hhead hempty hgone => exact .severed hhead hempty hgone
      | stuck hstuck hlive => exact .stuck hstuck hlive }

theorem Control.Linked.nextBlock (h : s.control.Linked env.sha3 initial) :
    s.nextBlock.2.control.Linked env.sha3 initial := by
  obtain ⟨cache, heq, hsub⟩ := nextBlock_eq s
  rw [heq]
  exact h.setBlockCache (c := s.control) fun n b hb ↦ h.cached n b (hsub n b hb)

theorem handedOut_nextBlock (h : s.control.Linked env.sha3 initial)
    (hnext : s.nextBlock.1 = some block) : HandedOut s.nextBlock.2 block := by
  obtain ⟨cache, heq, -⟩ := nextBlock_eq s
  rw [heq]
  exact h.cached.handedOut hnext

/-- The worker either finds no block to process or processes one to its end. -/
theorem doWork_cases (h : s.control.Linked env.sha3 initial) (ho : Orderly env initial s .work) :
    s.nextBlock.1 = none ∧ doWork env s = (.ok (), s.nextBlock.2) ∨
      ∃ block t, s.nextBlock.1 = some block ∧ doWork env s = (.ok (), t) ∧
        Processed env initial block s.nextBlock.2 t := by
  unfold doWork
  rw [Eff.get_bind_apply, Eff.modify_bind_apply]
  cases hnext : s.nextBlock.1 with
  | none => exact Or.inl ⟨rfl, rfl⟩
  | some block =>
    obtain ⟨hfresh, hcontained⟩ := ho block hnext
    obtain ⟨r, t, hrun, hprocessed⟩ :=
      processBlock_processed h.nextBlock (handedOut_nextBlock h hnext) hfresh hcontained
    refine Or.inr ⟨block, t, rfl, ?_, hprocessed⟩
    dsimp only
    rw [Eff.bind_ok hrun]
    rfl

theorem Control.foldl_confirm (c : Control) (hcs : List HeaderConfirmation) :
    hcs.foldl Control.confirm c =
      { c with rollbackState := hcs.foldl RollbackState.addConfirmation c.rollbackState } := by
  induction hcs generalizing c with
  | nil => rfl
  | cons hc hcs ih => exact ih (c.confirm hc)

theorem control_processBlockStateMessage (number : ℕ) (confirmations : List HeaderConfirmation)
    (s : BlockChain) :
    (processBlockStateMessage number confirmations s).control =
      if number ≤ s.rollbackState.solidifyNumber then s.control
      else confirmations.foldl Control.confirm s.control := by
  unfold processBlockStateMessage RollbackState.addSyncBlockState
  split_ifs
  · rfl
  · exact (Control.foldl_confirm s.control confirmations).symm

theorem Control.Linked.confirmAll {c : Control} (h : c.Linked env.sha3 initial)
    (hcs : List HeaderConfirmation) : (hcs.foldl Control.confirm c).Linked env.sha3 initial := by
  induction hcs generalizing c with
  | nil => exact h
  | cons hc hcs ih => exact ih (h.confirm hc)

theorem Control.Linked.handle (h : s.control.Linked env.sha3 initial) {event : Event}
    (ho : Orderly env initial s event) :
    ∃ t, handle env event s = (.ok (), t) ∧ t.control.Linked env.sha3 initial := by
  cases event with
  | block block => exact ⟨_, rfl, h.setBlockCache (c := s.control) (h.cached.cacheBlock block)⟩
  | work =>
    rcases doWork_cases h ho with ⟨-, hrun⟩ | ⟨block, t, -, hrun, hprocessed⟩
    · exact ⟨_, hrun, h.nextBlock⟩
    · exact ⟨t, hrun, hprocessed.linked h.nextBlock⟩
  | confirmation hc => exact ⟨_, rfl, h.confirm hc⟩
  | blockState number confirmations =>
    refine ⟨_, rfl, ?_⟩
    rw [control_processBlockStateMessage]
    split_ifs
    · exact h
    · exact h.confirmAll confirmations
  | status status => exact ⟨_, rfl, h⟩

theorem Control.Linked.run (h : s.control.Linked env.sha3 initial)
    (hrun : Run env (Orderly env initial) s t) : t.control.Linked env.sha3 initial := by
  induction hrun with
  | start => exact h
  | step _ ho hstep ih =>
    obtain ⟨u, hu, hlinked⟩ := ih.handle ho
    rw [hstep] at hu
    rwa [(Prod.mk.inj hu).2]

section Evaluation

def afterBlock (env : Env) (s : BlockChain) (block : Block) : BlockChain :=
  (handle env .work (cacheBlock block s)).2

theorem run_afterBlock {P : BlockChain → Event → Prop} {s₀ : BlockChain}
    (hrun : Run env P s₀ s) (hblock : P s (.block block)) (hwork : P (cacheBlock block s) .work)
    (hok : (handle env .work (cacheBlock block s)).1.isOk = true) :
    Run env P s₀ (afterBlock env s block) :=
  .step (.step hrun hblock rfl) hwork (Eff.eq_ok_of_isOk hok)

theorem run_confirmation {P : BlockChain → Event → Prop} {s₀ : BlockChain} {hc : HeaderConfirmation}
    (hrun : Run env P s₀ s) (hevent : P s (.confirmation hc)) :
    Run env P s₀ (processConfirmationMessage hc s) := .step hrun hevent rfl

theorem orderly_of_isOk (block : Block)
    (h : s.nextBlock.1 = some block ∧ s.nextBlock.2.control.Fresh env.sha3 initial block ∧
      (attemptBlock env block (addToRollbackState env block s.nextBlock.2).2).1.isOk = true) :
    Orderly env initial s .work := by
  obtain ⟨hnext, hfresh, hok⟩ := h
  intro block' hnext'
  obtain rfl := Option.some.inj (hnext.symm.trans hnext')
  refine ⟨hfresh, fun _ _ _ t e u hadd hattempt ↦ ?_⟩
  rw [hadd, hattempt] at hok
  contradiction

end Evaluation

end GseNetwork.Chain
