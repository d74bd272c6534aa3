import GseNetwork.Chain.Outcomes

namespace GseNetwork.Chain

open GseNetwork.Core GseNetwork.Foundation
open ForkIndex (byNumber ids OfBlock)
open BlockChain

variable {env : Env} {initial block : Block} {s t : BlockChain}

section Inversion

theorem Control.Linked.handedOut (h : s.control.Linked env.sha3 initial)
    (hout : HandedOut s block) (hpos : 0 < block.getNumber) :
    block.getNumber ≤ s.head.blockNumber ∧ s.control.Live ∨
      block.getNumber = s.head.blockNumber + 1 ∧ s.head.block = s.control.tip initial := by
  have hlatest : s.latestBlockNumber = (s.control.tip initial).getNumber := h.latest
  have hbound : (s.control.tip initial).getNumber < 2 ^ 64 := UInt64.toNat_lt _
  have hout : block.getNumber = s.latestBlockNumber + 1 ∨
      s.attributes.currentBlockHeight < block.getNumber ∧
        block.getNumber ≤ s.latestBlockNumber := by
    refine hout.imp_left fun hnew ↦ ?_
    omega
  have hnumber : s.head.blockNumber = s.head.block.getNumber := h.headOf.number_eq
  cases h.mode with
  | following hhead hlive =>
    have hhead' : s.head.block = s.control.tip initial := hhead
    rw [hhead'] at hnumber
    rcases hout with hnew | ⟨-, hold⟩
    · exact Or.inr ⟨by omega, hhead⟩
    · exact Or.inl ⟨by omega, hlive⟩
  | severed hhead hempty hgone =>
    have hhead' : s.head.block = s.control.tip initial := hhead
    have hheight : s.attributes.currentBlockHeight = (s.control.tip initial).getNumber := by
      rw [Control.tip_of_queue_nil hempty]
      exact h.height
    rw [hhead'] at hnumber
    rcases hout with hnew | ⟨hhigh, hold⟩
    · exact Or.inr ⟨by omega, hhead⟩
    · omega
  | stuck hstuck hlive =>
    have hstuck' : s.head.blockNumber = (s.control.tip initial).getNumber + 1 := hstuck
    rcases hout with hnew | ⟨-, hold⟩
    · exact Or.inl ⟨by omega, hlive⟩
    · exact Or.inl ⟨by omega, hlive⟩

theorem processBlock_fork (h : s.control.Linked env.sha3 initial)
    (hproducer : s.checkProducer block = true)
    (hrun : addToRollbackState env block s = (.ok (), t)) {new : BlockState}
    (hadd : Added env initial block s new t.control)
    (hle : block.getNumber ≤ s.head.blockNumber) (hlive : s.control.Live) :
    ∃ u, processBlock env block s = (.ok true, u) ∧ Processed env initial block s u := by
  have hnew : new.blockNumber ≤ s.control.head.blockNumber := by
    rw [hadd.newOf.number_eq, hadd.block_eq]
    exact hle
  obtain ⟨-, hof, hblock⟩ := h.head_add_of_le hlive hnew
  have hhead : t.head = s.head := hadd.solidified.head_eq
  rw [← hadd.solidified.rollbackHead_eq] at hof hblock
  have hblock' : t.rollbackState.head.block = t.head.block := by rw [hhead]; exact hblock
  have hprev : t.rollbackState.head.getPrev = t.head.getPrev := by
    rw [BlockState.getPrev, hblock', BlockState.getPrev]
  have hnumber : t.rollbackState.head.blockNumber = t.head.blockNumber := by
    rw [show t.rollbackState.head.blockNumber = t.rollbackState.head.block.getNumber from
      hof.number_eq, hblock', hhead]
    exact h.headOf.number_eq.symm
  have hne : t.rollbackState.head.getPrev ≠ t.head.blockID := by
    rw [hprev, hhead]
    exact h.loopless
  refine ⟨_, processBlock_of_added env hproducer hrun
    (checkBifurcation_of_sibling env hne hnumber hprev), ?_⟩
  exact .fork (hadd.accepted hproducer) hadd hle hlive rfl

/-- A block one further is processed, unless an exception passes through `doProcessBlock`. -/
theorem processBlock_next_cases (h : s.control.Linked env.sha3 initial)
    (hproducer : s.checkProducer block = true)
    (hrun : addToRollbackState env block s = (.ok (), t)) {new : BlockState}
    (hadd : Added env initial block s new t.control)
    (hnumber : block.getNumber = s.head.blockNumber + 1)
    (hhead : s.head.block = s.control.tip initial) :
    (∃ u, processBlock env block s = (.ok true, u) ∧ Processed env initial block s u) ∨
      block.getParentHash = s.head.blockID ∧ ∃ e v, attemptBlock env block t = (.error e, v) ∧
        e.type.isGS = false ∧ checkBifurcation env block t = (.error e, v) := by
  have hlt : s.control.head.blockNumber < new.blockNumber := by
    rw [hadd.newOf.number_eq, hadd.block_eq, hnumber]
    exact Nat.lt_succ_self _
  have hnew : t.rollbackState.head = new :=
    hadd.solidified.rollbackHead_eq.trans (h.head_add_of_lt hlt).2
  have hsame : t.head = s.head := hadd.solidified.head_eq
  have hprev : t.rollbackState.head.getPrev = block.getParentHash := by
    rw [hnew, BlockState.getPrev, hadd.block_eq]
  by_cases hparent : block.getParentHash = s.head.blockID
  · have hextends := checkBifurcation_of_extends env block
      (hprev.trans (hparent.trans (congrArg BlockState.blockID hsame.symm)))
    rcases doProcessBlock_cases env block t with
      ⟨u, -, hdo, hcontrol⟩ | ⟨e, v, u, hattempt, -, hdo, hcontrol⟩ | ⟨e, v, hattempt, he, hdo⟩
    · refine Or.inl ⟨_, processBlock_of_added env hproducer hrun (hextends.trans hdo), ?_⟩
      refine .done (hadd.accepted hproducer) hadd hhead hnumber hparent
        ((congrArg Control.follow hcontrol).trans (Control.follow_execute_send env ?_))
      exact (congrArg BlockState.block hnew).trans hadd.block_eq
    · refine Or.inl ⟨_, processBlock_of_added env hproducer hrun (hextends.trans hdo), ?_⟩
      refine .failed (hadd.accepted hproducer) hadd hhead hnumber hparent
        ⟨t, e, v, hrun, hattempt⟩ (hcontrol.imp (congrArg Control.follow) fun hsent ↦ ?_)
      exact (congrArg Control.follow hsent).trans (Control.follow_send env t.control block)
    · exact Or.inr ⟨hparent, e, v, hattempt, he, hextends.trans hdo⟩
  · have hne : t.rollbackState.head.getPrev ≠ t.head.blockID := by
      rw [hprev, hsame]
      exact hparent
    refine Or.inl ⟨_, processBlock_of_added env hproducer hrun
      (checkBifurcation_of_apart env hne (by rw [hnew, hsame]; exact hlt)), ?_⟩
    exact .apart (hadd.accepted hproducer) hadd hhead hnumber hparent rfl

theorem processBlock_next (h : s.control.Linked env.sha3 initial)
    (hcontained : Contained env block s) (hproducer : s.checkProducer block = true)
    (hrun : addToRollbackState env block s = (.ok (), t)) {new : BlockState}
    (hadd : Added env initial block s new t.control)
    (hnumber : block.getNumber = s.head.blockNumber + 1)
    (hhead : s.head.block = s.control.tip initial) :
    ∃ u, processBlock env block s = (.ok true, u) ∧ Processed env initial block s u := by
  rcases processBlock_next_cases h hproducer hrun hadd hnumber hhead with
    hprocessed | ⟨hparent, e, v, hattempt, he, -⟩
  · exact hprocessed
  · rw [hcontained (hadd.accepted hproducer) hnumber hparent t e v hrun hattempt] at he
    contradiction

/-- A linked node is done with every block handed out to it, in one of these ways. -/
theorem processBlock_processed (h : s.control.Linked env.sha3 initial)
    (hout : HandedOut s block) (hfresh : s.control.Fresh env.sha3 initial block)
    (hcontained : Contained env block s) :
    ∃ r t, processBlock env block s = (.ok r, t) ∧ Processed env initial block s t := by
  cases hproducer : s.checkProducer block with
  | false => exact ⟨false, s, processBlock_of_checkProducer env hproducer, .rejected rfl⟩
  | true =>
    rcases addToRollbackState_cases h.toBase hfresh with ⟨e, hrun, he⟩ | ⟨t, new, hrun, hadd⟩
    · exact ⟨false, s, processBlock_of_error env hproducer hrun he, .rejected rfl⟩
    · rcases h.handedOut hout hfresh.positive with ⟨hle, hlive⟩ | ⟨hnumber, hhead⟩
      · exact ⟨true, processBlock_fork h hproducer hrun hadd hle hlive⟩
      · exact ⟨true, processBlock_next h hcontained hproducer hrun hadd hnumber hhead⟩

end Inversion

namespace Control

variable {sha3 : Bytes → H256} {c d : Control} {new : BlockState} {n : ℕ}

theorem Live.mem_ids (h : Linked sha3 initial c) (hlive : c.Live) :
    c.head.blockID ∈ ids c.rollbackState.index := by
  obtain ⟨b, hb, hblock⟩ := hlive
  obtain ⟨hmem, -⟩ := ForkIndex.mem_of_byNumber hb
  rw [h.headOf.id_eq, ← hblock, ← (h.wf.ofBlock b hmem).id_eq]
  exact List.mem_map_of_mem hmem

section Follow

theorem Linked.follow (h : Linked sha3 initial c) (hs : Solidified sha3 initial n (c.add new) d)
    (hof : OfBlock sha3 d.rollbackState.head)
    (hbounded : ∀ b ∈ c.rollbackState.index ++ [new],
      b.blockNumber ≤ d.rollbackState.head.blockNumber)
    (hloop : d.rollbackState.head.getPrev ≠ d.rollbackState.head.blockID)
    (hmode : Mode initial d.follow) : Linked sha3 initial d.follow where
  items := hs.base.items
  linked := hs.base.linked
  height := hs.base.height
  wf := hs.base.wf
  queued := hs.base.queued
  past := hs.base.past
  latest := hs.latest_eq.trans (h.latest.trans (congrArg Block.getNumber hs.tip_eq.symm))
  headOf := hof
  rollbackHeadOf := hof
  sameHead := rfl
  bounded b hb := hbounded b (hs.sublist.subset hb)
  loopless := hloop
  mode := hmode
  cached m b hb := h.cached m b (by rw [← hb]; exact congrArg (·[m]?) hs.blockCache_eq.symm)

/-- The head stays where it was; it leaves the index only with the rest of the queue. -/
theorem Linked.fork_live (h : Linked sha3 initial c)
    (hs : Solidified sha3 initial n (c.add new) d) (hlive : c.Live)
    (hle : new.blockNumber ≤ c.head.blockNumber)
    (hkept : d.queue = c.queue ∨ (d.lastCommitted initial).getNumber < c.head.blockNumber) :
    d.follow.Live := by
  obtain ⟨hfind, hof, hblock⟩ := h.head_add_of_le hlive hle
  rw [← hs.rollbackHead_eq] at hfind hof hblock
  have hnumber : d.rollbackState.head.blockNumber = c.head.blockNumber := by
    rw [hof.number_eq, hblock, h.headOf.number_eq]
  refine ⟨d.rollbackState.head, ?_, rfl⟩
  change byNumber d.rollbackState.index d.rollbackState.head.blockNumber = _
  rw [hnumber]
  rcases hkept with hsame | hlt
  · rw [hs.idle hsame]
    exact hfind
  · rw [hs.above _ hlt]
    exact hfind

theorem Linked.fork_mode (h : Linked sha3 initial c)
    (hs : Solidified sha3 initial n (c.add new) d) (hlive : c.Live)
    (hle : new.blockNumber ≤ c.head.blockNumber) : Mode initial d.follow := by
  obtain ⟨-, hof, hblock⟩ := h.head_add_of_le hlive hle
  rw [← hs.rollbackHead_eq] at hof hblock
  have htip : d.tip initial = c.tip initial := hs.tip_eq
  cases h.mode with
  | following hhead _ =>
    have hhead' : d.rollbackState.head.block = d.tip initial := by rw [hblock, hhead, htip]
    by_cases hsame : d.queue = c.queue
    · exact .following hhead' (h.fork_live hs hlive hle (Or.inl hsame))
    · by_cases hempty : d.queue = []
      · refine .severed hhead' hempty ?_
        change d.rollbackState.head.blockID ∉ ids d.rollbackState.index
        rw [hof.id_eq, hhead', tip_of_queue_nil hempty]
        exact hs.gone hsame
      · have hlt := hs.base.lastCommitted_lt_tip hempty
        rw [htip, ← hhead, ← h.headOf.number_eq] at hlt
        exact .following hhead' (h.fork_live hs hlive hle (Or.inr hlt))
  | severed hhead hempty hgone => exact absurd (Live.mem_ids h hlive) hgone
  | stuck hstuck _ =>
    have hle' := hs.base.lastCommitted_le_tip
    rw [htip] at hle'
    refine .stuck ?_ (h.fork_live hs hlive hle (Or.inr (by omega)))
    change d.rollbackState.head.blockNumber = (d.tip initial).getNumber + 1
    rw [hof.number_eq, hblock, ← h.headOf.number_eq, htip, hstuck]

theorem Linked.next_byNumber (h : Linked sha3 initial c)
    (hs : Solidified sha3 initial n (c.add new) d) (hhead : c.head.block = c.tip initial)
    (hnumber : new.blockNumber = c.head.blockNumber + 1) :
    byNumber d.rollbackState.index new.blockNumber = some new ∧ d.rollbackState.head = new := by
  have hlt : c.head.blockNumber < new.blockNumber := by omega
  obtain ⟨hfind, hnew⟩ := h.head_add_of_lt hlt
  refine ⟨(hs.above _ ?_).trans hfind, hs.rollbackHead_eq.trans hnew⟩
  have hle := hs.base.lastCommitted_le_tip
  have htip : d.tip initial = c.tip initial := hs.tip_eq
  rw [htip, ← hhead, ← h.headOf.number_eq] at hle
  omega

theorem Linked.next (h : Linked sha3 initial c) (hs : Solidified sha3 initial n (c.add new) d)
    (hof : OfBlock sha3 new) (habsent : new.blockID ∉ ids c.rollbackState.index)
    (hparent : new.getPrev ∈ ids c.rollbackState.index) (hhead : c.head.block = c.tip initial)
    (hnumber : new.blockNumber = c.head.blockNumber + 1) : Linked sha3 initial d.follow := by
  obtain ⟨hfind, hnew⟩ := h.next_byNumber hs hhead hnumber
  refine h.follow hs (hnew ▸ hof) ?_ ?_ (.stuck ?_ ⟨new, ?_, ?_⟩)
  · intro b hb
    rw [hnew]
    rcases List.mem_append.mp hb with hold | hlast
    · have hle := h.bounded b hold
      omega
    · rw [List.mem_singleton.mp hlast]
  · rw [hnew]
    intro heq
    exact habsent (heq ▸ hparent)
  · change d.rollbackState.head.blockNumber = (d.tip initial).getNumber + 1
    rw [hnew, hnumber, h.headOf.number_eq, hhead]
    exact congrArg (fun b ↦ b.getNumber + 1) hs.tip_eq.symm
  · change byNumber d.rollbackState.index d.rollbackState.head.blockNumber = _
    rw [hnew]
    exact hfind
  · exact congrArg BlockState.block hnew.symm

end Follow

section Push

theorem isChain_concat {α : Type} {R : α → α → Prop} {l : List α} {a x : α}
    (h : (a :: l).IsChain R) (hx : R (l.getLastD a) x) : (a :: (l ++ [x])).IsChain R := by
  rw [← List.cons_append, List.isChain_append]
  refine ⟨h, List.isChain_singleton x, ?_⟩
  intro y hy z hz
  rw [List.getLast?_cons, Option.mem_some_iff, ← List.getLastD_eq_getLast?] at hy
  rw [List.head?_cons, Option.mem_some_iff] at hz
  rwa [← hy, ← hz]

theorem tip_execute (c : Control) : c.execute.tip initial = c.head.block := by
  simp [tip, execute, push, blocks, List.getLastD_eq_getLast?]

theorem Linked.execute (h : Linked sha3 initial c) (hlive : c.Live)
    (hnumber : c.head.blockNumber = (c.tip initial).getNumber + 1)
    (hparent : c.head.getPrev = (c.tip initial).getHash sha3) :
    Linked sha3 initial c.execute where
  items i hi := by
    rcases List.mem_append.mp hi with hold | hlast
    · exact h.items i hold
    · rw [List.mem_singleton.mp hlast]
  linked := by
    have hfollows : Follows sha3 (c.tip initial) c.head.block :=
      ⟨hparent, h.headOf.number_eq.symm.trans hnumber⟩
    have hchain := isChain_concat h.linked hfollows
    simpa [Control.execute, push, blocks] using hchain
  height := h.height
  wf := h.wf
  queued i hi := by
    rcases List.mem_append.mp hi with hold | hlast
    · exact h.queued i hold
    · rw [List.mem_singleton.mp hlast, ← h.headOf.number_eq]
      exact hlive
  past := h.past
  latest := by
    rw [tip_execute]
    rfl
  headOf := h.headOf
  rollbackHeadOf := h.rollbackHeadOf
  sameHead := h.sameHead
  bounded := h.bounded
  loopless := h.loopless
  mode := .following (tip_execute c).symm hlive
  cached := h.cached

end Push

end Control

section Preservation

theorem Added.next_linked {new : BlockState} {c : Control}
    (h : s.control.Linked env.sha3 initial) (hadd : Added env initial block s new c)
    (hhead : s.head.block = s.control.tip initial)
    (hnumber : block.getNumber = s.head.blockNumber + 1) :
    c.follow.Linked env.sha3 initial ∧ c.follow.Live ∧ c.follow.head.block = block ∧
      c.follow.head.blockNumber = (c.follow.tip initial).getNumber + 1 := by
  have hnew : new.blockNumber = s.head.blockNumber + 1 := by
    rw [hadd.newOf.number_eq, hadd.block_eq, hnumber]
  have hprev : new.getPrev ∈ ids s.rollbackState.index := by
    rw [BlockState.getPrev, hadd.block_eq]
    exact hadd.parent
  obtain ⟨hfind, hheadnew⟩ := h.next_byNumber hadd.solidified hhead hnew
  refine ⟨h.next hadd.solidified hadd.newOf hadd.absent hprev hhead hnew, ⟨new, ?_, ?_⟩, ?_, ?_⟩
  · change byNumber c.rollbackState.index c.rollbackState.head.blockNumber = _
    rw [hheadnew]
    exact hfind
  · exact congrArg BlockState.block hheadnew.symm
  · exact (congrArg BlockState.block hheadnew).trans hadd.block_eq
  · have htip : c.follow.tip initial = s.control.tip initial := hadd.solidified.tip_eq
    change c.rollbackState.head.blockNumber = _
    rw [hheadnew, hnew, htip, ← hhead]
    exact congrArg (· + 1) h.headOf.number_eq

theorem Added.next_parent {new : BlockState} {c : Control}
    (h : s.control.Linked env.sha3 initial) (hadd : Added env initial block s new c)
    (hhead : s.head.block = s.control.tip initial)
    (hparent : block.getParentHash = s.head.blockID) (hblock : c.follow.head.block = block) :
    c.follow.head.getPrev = (c.follow.tip initial).getHash env.sha3 := by
  have htip : c.follow.tip initial = s.control.tip initial := hadd.solidified.tip_eq
  rw [BlockState.getPrev, hblock, hparent, htip, ← hhead]
  exact h.headOf.id_eq

theorem Processed.linked (h : s.control.Linked env.sha3 initial)
    (hp : Processed env initial block s t) : t.control.Linked env.sha3 initial := by
  cases hp with
  | rejected ht =>
    rw [ht]
    exact h
  | @fork new c hacc hadd hle hlive ht =>
    have hnew : new.blockNumber ≤ s.control.head.blockNumber := by
      rw [hadd.newOf.number_eq, hadd.block_eq]
      exact hle
    obtain ⟨-, hof, hblock⟩ := h.head_add_of_le hlive hnew
    rw [← hadd.solidified.rollbackHead_eq] at hof hblock
    have hnumber : c.rollbackState.head.blockNumber = s.control.head.blockNumber := by
      rw [hof.number_eq, hblock, h.headOf.number_eq]
    rw [ht]
    refine h.follow hadd.solidified hof ?_ ?_ (h.fork_mode hadd.solidified hlive hnew)
    · intro b hb
      rw [hnumber]
      rcases List.mem_append.mp hb with hold | hlast
      · exact h.bounded b hold
      · rw [List.mem_singleton.mp hlast]
        exact hnew
    · rw [hof.id_eq, BlockState.getPrev, hblock, ← h.headOf.id_eq]
      exact h.loopless
  | apart hacc hadd hhead hnumber hparent ht =>
    rw [ht]
    exact (hadd.next_linked h hhead hnumber).1
  | @failed new c hacc hadd hhead hnumber hparent hfails ht =>
    have hnext := (hadd.next_linked h hhead hnumber).1
    rcases ht with ht | ht
    · rw [ht]
      exact hnext
    · rw [ht]
      exact hnext.send env block
  | @done new c hacc hadd hhead hnumber hparent ht =>
    obtain ⟨hnext, hlive, hblock, hstuck⟩ := hadd.next_linked h hhead hnumber
    rw [ht]
    exact (hnext.execute hlive hstuck (hadd.next_parent h hhead hparent hblock)).send env block

end Preservation

end GseNetwork.Chain
