import GseNetwork.Chain.Operations

namespace GseNetwork.Chain.Agreement

open GseNetwork.Core GseNetwork.Foundation
open BlockChain

variable {env : Env} {initial block : Block} {s t : BlockChain}

def ConfirmsOnce (s : BlockChain) : Prop :=
  ∀ hc ∈ s.sent, ∀ hc' ∈ s.sent, hc.number = hc'.number → hc.blockID = hc'.blockID

structure SentOnce (s : BlockChain) : Prop where
  below : ∀ hc ∈ s.sent, hc.number.toNat ≤ s.head.blockNumber
  once : ConfirmsOnce s

/-- The worker takes a block whose hash collides with nothing committed, and no exception of the
kind that `processBlock` turns into a refusal passes through its execution. -/
def Undisturbed (env : Env) (initial : Block) (s : BlockChain) : Event → Prop
  | .work => ∀ block, s.nextBlock.1 = some block →
    s.nextBlock.2.control.Fresh env.sha3 initial block ∧
      ∀ t e u, addToRollbackState env block s.nextBlock.2 = (.ok (), t) →
        attemptBlock env block t = (.error e, u) → e.type.isCore = false
  | _ => True

theorem SentOnce.send (h : SentOnce s) (hnumber : block.getNumber = s.head.blockNumber + 1)
    (hsent : t.sent = s.sent ++ [ownConfirmation env block]) : ConfirmsOnce t := by
  have hown : (ownConfirmation env block).number.toNat = s.head.blockNumber + 1 := hnumber
  intro hc hmem hc' hmem' heq
  rw [hsent] at hmem hmem'
  rcases List.mem_append.mp hmem with hold | hlast <;>
    rcases List.mem_append.mp hmem' with hold' | hlast'
  · exact h.once hc hold hc' hold' heq
  · have hle := h.below hc hold
    rw [heq, List.mem_singleton.mp hlast'] at hle
    omega
  · have hle := h.below hc' hold'
    rw [← heq, List.mem_singleton.mp hlast] at hle
    omega
  · rw [List.mem_singleton.mp hlast, List.mem_singleton.mp hlast']

theorem SentOnce.advance (h : SentOnce s) (hle : s.head.blockNumber ≤ t.head.blockNumber)
    (hsent : t.sent = s.sent) : SentOnce t := by
  refine ⟨fun hc hmem ↦ ?_, ?_⟩
  · rw [hsent] at hmem
    exact (h.below hc hmem).trans hle
  · unfold ConfirmsOnce
    rw [hsent]
    exact h.once

theorem SentOnce.confirm (env : Env) (h : SentOnce s)
    (hnumber : block.getNumber = s.head.blockNumber + 1)
    (hhead : t.head.blockNumber = block.getNumber)
    (hsent : t.sent = s.sent ∨ t.sent = s.sent ++ [ownConfirmation env block]) : SentOnce t := by
  rcases hsent with hsame | hsent
  · exact h.advance (by omega) hsame
  · refine ⟨fun hc hmem ↦ ?_, h.send hnumber hsent⟩
    rw [hsent] at hmem
    rcases List.mem_append.mp hmem with hold | hlast
    · have hle := h.below hc hold
      omega
    · rw [List.mem_singleton.mp hlast, hhead]
      exact le_rfl

theorem Processed.sentOnce (h : s.control.Linked env.sha3 initial) (hsent : SentOnce s)
    (hp : Processed env initial block s t) : SentOnce t := by
  have hsends : ∀ c : Control, (c.send env block).sent = c.sent ∨
      (c.send env block).sent = c.sent ++ [ownConfirmation env block] := fun c ↦
    (sends_send env block c).imp And.right And.right
  have hhead : ∀ {c : Control}, t.control = c → t.head = c.head ∧ t.sent = c.sent := by
    rintro c rfl
    exact ⟨rfl, rfl⟩
  cases hp with
  | rejected ht =>
    rw [ht]
    exact hsent
  | @fork new c hacc hadd hle hlive ht =>
    have hnew : new.blockNumber ≤ s.control.head.blockNumber := by
      rw [hadd.newOf.number_eq, hadd.block_eq]
      exact hle
    obtain ⟨-, hof, hblock⟩ := h.head_add_of_le hlive hnew
    rw [← hadd.solidified.rollbackHead_eq] at hof hblock
    obtain ⟨hthead, htsent⟩ := hhead ht
    refine hsent.advance (le_of_eq ?_) (htsent.trans hadd.solidified.sent_eq)
    rw [hthead]
    have hnumber_eq := congrArg Block.getNumber hblock
    exact (hof.number_eq.trans (hnumber_eq.trans h.headOf.number_eq.symm)).symm
  | @apart new c hacc hadd hhead' hnumber hparent ht =>
    obtain ⟨hnext, -, hblock, -⟩ := hadd.next_linked h hhead' hnumber
    obtain ⟨hthead, htsent⟩ := hhead ht
    have hnumber' : t.head.blockNumber = block.getNumber := by
      rw [hthead, hnext.headOf.number_eq, hblock]
    exact hsent.advance (by omega) (htsent.trans hadd.solidified.sent_eq)
  | @failed new c hacc hadd hhead' hnumber hparent hfails ht =>
    obtain ⟨hnext, -, hblock, -⟩ := hadd.next_linked h hhead' hnumber
    have hnumber' : c.follow.head.blockNumber = block.getNumber := by
      rw [hnext.headOf.number_eq, hblock]
    have hsame : c.follow.sent = s.sent := hadd.solidified.sent_eq
    rcases ht with ht | ht
    · obtain ⟨hthead, htsent⟩ := hhead ht
      rw [← hthead] at hnumber'
      exact hsent.advance (by omega) (htsent.trans hsame)
    · obtain ⟨hthead, htsent⟩ := hhead ht
      rw [Control.head_send] at hthead
      refine hsent.confirm env hnumber (hthead ▸ hnumber') ?_
      rw [htsent, ← hsame]
      exact hsends c.follow
  | @done new c hacc hadd hhead' hnumber hparent ht =>
    obtain ⟨hnext, -, hblock, -⟩ := hadd.next_linked h hhead' hnumber
    have hnumber' : c.follow.execute.head.blockNumber = block.getNumber :=
      hnext.headOf.number_eq.trans (congrArg Block.getNumber hblock)
    have hsame : c.follow.execute.sent = s.sent := hadd.solidified.sent_eq
    obtain ⟨hthead, htsent⟩ := hhead ht
    rw [Control.head_send] at hthead
    refine hsent.confirm env hnumber (hthead ▸ hnumber') ?_
    rw [htsent, ← hsame]
    exact hsends c.follow.execute

theorem rejects_of_not_isGS {e : Exception} (hgs : e.type.isGS = false)
    (hcore : e.type.isCore = false) : rejects e = false := by
  obtain ⟨type, what⟩ := e
  cases type <;> simp_all [rejects, ExceptionClass.isGS, ExceptionClass.isCore]

/-- A block that the worker takes is processed, or an exception ends the worker. -/
theorem processBlock_settled (h : s.control.Linked env.sha3 initial) (hout : HandedOut s block)
    (hfresh : s.control.Fresh env.sha3 initial block)
    (hcore : ∀ t e u, addToRollbackState env block s = (.ok (), t) →
      attemptBlock env block t = (.error e, u) → e.type.isCore = false) :
    (∃ r t, processBlock env block s = (.ok r, t) ∧ Processed env initial block s t) ∨
      block.getNumber = s.head.blockNumber + 1 ∧
        (processBlock env block s).1.isOk = false := by
  cases hproducer : s.checkProducer block with
  | false =>
    exact Or.inl ⟨false, s, processBlock_of_checkProducer env hproducer, .rejected rfl⟩
  | true =>
    rcases addToRollbackState_cases h.toBase hfresh with ⟨e, hrun, he⟩ | ⟨t, new, hrun, hadd⟩
    · exact Or.inl ⟨false, s, processBlock_of_error env hproducer hrun he, .rejected rfl⟩
    · rcases h.handedOut hout hfresh.positive with ⟨hle, hlive⟩ | ⟨hnumber, hhead⟩
      · exact Or.inl ⟨true, processBlock_fork h hproducer hrun hadd hle hlive⟩
      · rcases processBlock_next_cases h hproducer hrun hadd hnumber hhead with
          hprocessed | ⟨-, e, v, hattempt, he, hcheck⟩
        · exact Or.inl ⟨true, hprocessed⟩
        · refine Or.inr ⟨hnumber, ?_⟩
          have hpass := rejects_of_not_isGS he (hcore t e v hrun hattempt)
          unfold processBlock Eff.tryCatch
          rw [Eff.get_bind_apply, hproducer]
          simp only [Bool.not_true, Bool.false_eq_true, if_false, Eff.bind_ok hrun,
            Eff.bind_error hcheck, hpass]
          rfl

theorem SentOnce.nextBlock (h : SentOnce s) : SentOnce s.nextBlock.2 := by
  obtain ⟨cache, heq, -⟩ := nextBlock_eq s
  rw [heq]
  exact ⟨h.below, h.once⟩

variable (env initial) in
structure Settled (result : Except Exception Unit × BlockChain) : Prop where
  goesOn : result.1.isOk = true → result.2.control.Linked env.sha3 initial ∧ SentOnce result.2
  once : ConfirmsOnce result.2

theorem Settled.of_ok (hlinked : t.control.Linked env.sha3 initial) (hsent : SentOnce t) :
    Settled env initial (.ok (), t) := ⟨fun _ ↦ ⟨hlinked, hsent⟩, hsent.once⟩

theorem settled_doWork (h : s.control.Linked env.sha3 initial) (hsent : SentOnce s)
    (hsound : Undisturbed env initial s .work) : Settled env initial (doWork env s) := by
  unfold doWork
  rw [Eff.get_bind_apply, Eff.modify_bind_apply]
  cases hnext : s.nextBlock.1 with
  | none => exact .of_ok h.nextBlock hsent.nextBlock
  | some block =>
    obtain ⟨hfresh, hcore⟩ := hsound block hnext
    dsimp only
    rcases processBlock_settled h.nextBlock (handedOut_nextBlock h hnext) hfresh hcore with
      ⟨r, t, hrun, hprocessed⟩ | ⟨hnumber, hfails⟩
    · rw [Eff.bind_ok hrun]
      exact .of_ok (hprocessed.linked h.nextBlock)
        (Processed.sentOnce h.nextBlock hsent.nextBlock hprocessed)
    · have hupkept := processBlock_upkept env block s.nextBlock.2
      rcases hrun : processBlock env block s.nextBlock.2 with ⟨e | r, t⟩
      · rw [hrun] at hupkept
        rw [Eff.bind_error hrun]
        refine ⟨fun hok ↦ absurd hok Bool.false_ne_true, ?_⟩
        rcases hupkept with ⟨-, hsame⟩ | hfirst
        · unfold ConfirmsOnce
          rw [show t.sent = _ from hsame]
          exact hsent.nextBlock.once
        · exact hsent.nextBlock.send hnumber hfirst.sent_eq
      · rw [hrun] at hfails
        contradiction

theorem settled_handle (h : s.control.Linked env.sha3 initial) (hsent : SentOnce s) {event : Event}
    (hsound : Undisturbed env initial s event) : Settled env initial (handle env event s) := by
  cases event with
  | block block =>
    exact .of_ok (h.setBlockCache (h.cached.cacheBlock block)) ⟨hsent.below, hsent.once⟩
  | work => exact settled_doWork h hsent hsound
  | confirmation hc => exact .of_ok (h.confirm hc) ⟨hsent.below, hsent.once⟩
  | blockState number confirmations =>
    refine .of_ok ?_ ⟨hsent.below, hsent.once⟩
    rw [control_processBlockStateMessage]
    split_ifs
    · exact h
    · exact h.confirmAll confirmations
  | status status => exact .of_ok h ⟨hsent.below, hsent.once⟩

theorem handle_sent_of_ne_work {event : Event} (hne : event ≠ .work) :
    (handle env event s).2.sent = s.sent := by
  cases event with
  | work => exact absurd rfl hne
  | _ => rfl

theorem handle_sent_subset (env : Env) (s : BlockChain) (event : Event) :
    s.sent ⊆ (handle env event s).2.sent := by
  cases event with
  | work =>
    obtain ⟨-, hsent, -⟩ := nextBlock_frame s
    change s.sent ⊆ (doWork env s).2.sent
    rw [← hsent]
    rcases doWork_upkept env s with heq | ⟨block, ⟨-, hsame⟩ | hfirst⟩
    · rw [heq]
      exact List.Subset.refl _
    · rw [hsame]
      exact List.Subset.refl _
    · rw [hfirst.sent_eq]
      exact List.subset_append_left _ _
  | _ => exact List.Subset.refl _

end GseNetwork.Chain.Agreement
