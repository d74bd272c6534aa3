import GseNetwork.Chain.Coherence
import GseNetwork.Core.BlockCodec

namespace GseNetwork.Chain

open GseNetwork.Core GseNetwork.Foundation GseNetwork.Storage
open ForkIndex (byNumber ids OfBlock)
open BlockChain

variable {env : Env} {sha3 : Bytes → H256} {initial block : Block} {s t : BlockChain}
  {c d : Control} {n : ℕ}

def Ancestor (sha3 : Bytes → H256) : Block → Block → Prop :=
  Relation.ReflTransGen fun p q ↦ q.getParentHash = p.getHash sha3

theorem ancestor_getLastD {p : Block} {l : List Block} (h : (p :: l).IsChain (Follows sha3)) :
    ∀ q ∈ p :: l, Ancestor sha3 q (l.getLastD p) := by
  induction l generalizing p with
  | nil =>
    intro q hq
    rw [List.mem_singleton.mp hq]
    exact .refl
  | cons r l ih =>
    obtain ⟨hpr, hl⟩ := List.isChain_cons_cons.mp h
    intro q hq
    rw [List.getLastD_cons]
    cases hq with
    | head => exact .head hpr.parent (ih hl r List.mem_cons_self)
    | tail _ hq => exact ih hl q hq

theorem Control.Base.ancestor_tip (h : c.Base sha3 initial) {i : ℕ × Block} (hi : i ∈ c.queue) :
    Ancestor sha3 i.2 (c.tip initial) := by
  rw [Control.tip_eq]
  exact ancestor_getLastD h.chain i.2 (List.mem_cons_of_mem _ (List.mem_map_of_mem hi))

namespace Control

/-- Every block of the queue up to the number of `b` is the block of `b` or an ancestor of it. -/
def OnChain (sha3 : Bytes → H256) (c : Control) (b : BlockState) : Prop :=
  ∀ i ∈ c.queue, i.1 ≤ b.blockNumber → Ancestor sha3 i.2 b.block

def ConfirmsOnChain (sha3 : Bytes → H256) (c : Control) (hc : HeaderConfirmation) : Prop :=
  ∀ b ∈ c.rollbackState.index, b.blockID = hc.blockID →
    (b.addConfirmation hc).reachesQuorum = true → c.OnChain sha3 b

def ConfirmAllOnChain (sha3 : Bytes → H256) : Control → List HeaderConfirmation → Prop
  | _, [] => True
  | c, hc :: hcs => c.ConfirmsOnChain sha3 hc ∧ ConfirmAllOnChain sha3 (c.confirm hc) hcs

/-- Solid numbers beyond the last committed one are those of marked blocks on the chain of the
queue, and every committed block is an ancestor of a marked one. -/
structure Final (sha3 : Bytes → H256) (initial : Block) (c : Control) : Prop where
  solid : ∀ b ∈ c.rollbackState.index,
    b.bftSolidifyBlockNumber ≤ (c.lastCommitted initial).getNumber ∨
      b.bftSolidifyBlockNumber = b.blockNumber ∧ b.block ∈ c.rollbackState.marked ∧
        c.OnChain sha3 b
  committed : ∀ p ∈ c.committed, ∃ q ∈ c.rollbackState.marked, Ancestor sha3 p q

theorem maxBftSolidify_eq (index : List BlockState) :
    RollbackState.maxBftSolidify index = 0 ∨
      ∃ b ∈ index, b.bftSolidifyBlockNumber = RollbackState.maxBftSolidify index := by
  induction index using List.reverseRecOn with
  | nil => exact Or.inl rfl
  | append_singleton index b ih =>
    rw [ForkIndex.maxBftSolidify_append]
    rcases max_choice (RollbackState.maxBftSolidify index) b.bftSolidifyBlockNumber with hmax | hmax
    · rw [hmax]
      exact ih.imp_right fun ⟨d, hd, heq⟩ ↦ ⟨d, List.mem_append_left _ hd, heq⟩
    · exact Or.inr ⟨b, by simp, hmax.symm⟩

theorem Final.add (h : Final sha3 initial c) {new : BlockState}
    (hnew : new.bftSolidifyBlockNumber = 0) : Final sha3 initial (c.add new) := by
  refine ⟨fun b hb ↦ ?_, h.committed⟩
  rcases List.mem_append.mp hb with hold | hlast
  · exact h.solid b hold
  · left
    rw [List.mem_singleton.mp hlast, hnew]
    exact Nat.zero_le _

theorem Solidified.lastCommitted_le (hbase : Base sha3 initial c)
    (hs : Solidified sha3 initial n c d) :
    (c.lastCommitted initial).getNumber ≤ (d.lastCommitted initial).getNumber := by
  obtain ⟨l, hqueue, hcommitted, -⟩ := hs.commits
  rcases List.eq_nil_or_concat l with rfl | ⟨l, last, rfl⟩
  · rw [lastCommitted, lastCommitted, hcommitted, List.map_nil, List.append_nil]
  · have hmem : last ∈ c.queue := by
      rw [hqueue]
      simp
    have hlt := hbase.number_lt hmem
    rw [hbase.items last hmem] at hlt
    have hlast : d.lastCommitted initial = last.2 := by
      rw [lastCommitted, hcommitted]
      simp [List.getLastD_eq_getLast?]
    rw [hlast]
    exact hlt.le

theorem Final.solidified (h : Final sha3 initial c) (hbase : Base sha3 initial c)
    (hs : Solidified sha3 initial n c d)
    (hn : n ≤ RollbackState.maxBftSolidify c.rollbackState.index) : Final sha3 initial d := by
  have hle := hs.lastCommitted_le hbase
  obtain ⟨l, hqueue, hcommitted, hall⟩ := hs.commits
  refine ⟨fun b hb ↦ ?_, fun p hp ↦ ?_⟩
  · rw [hs.marked_eq]
    rcases h.solid b (hs.sublist.subset hb) with hlow | ⟨hsolid, hmarked, hchain⟩
    · exact Or.inl (hlow.trans hle)
    · refine Or.inr ⟨hsolid, hmarked, fun i hi ↦ hchain i ?_⟩
      rw [hqueue]
      exact List.mem_append_right l hi
  · rw [hs.marked_eq]
    rw [hcommitted] at hp
    rcases List.mem_append.mp hp with hold | hnew
    · exact h.committed p hold
    · obtain ⟨i, hi, rfl⟩ := List.mem_map.mp hnew
      have hmem : i ∈ c.queue := by
        rw [hqueue]
        exact List.mem_append_left _ hi
      have hlt := hbase.number_lt hmem
      have hin := (hall i hi).trans hn
      -- the block state that carries the highest solid number is a marked one
      rcases maxBftSolidify_eq c.rollbackState.index with hzero | ⟨b, hb, hmax⟩
      · omega
      · rcases h.solid b hb with hlow | ⟨hsolid, hmarked, hchain⟩
        · omega
        · exact ⟨b.block, hmarked, hchain i hmem (by omega)⟩

theorem OnChain.congr {b b' : BlockState} (h : c.OnChain sha3 b) (hsame : ForkIndex.Same b b') :
    c.OnChain sha3 b' := by
  intro i hi hle
  rw [hsame.block]
  exact h i hi (hsame.number ▸ hle)

theorem bftSolidify_addConfirmation (hc : HeaderConfirmation) (b : BlockState) :
    (b.addConfirmation hc).bftSolidifyBlockNumber = b.bftSolidifyBlockNumber := by
  rcases Quorum.addConfirmation_cases b hc with ⟨heq, -⟩ | ⟨-, -, heq⟩ <;> rw [heq]

theorem Final.confirm (h : Final sha3 initial c) {hc : HeaderConfirmation}
    (hchain : c.ConfirmsOnChain sha3 hc) : Final sha3 initial (c.confirm hc) := by
  have hmarked : ∀ q ∈ c.rollbackState.marked, q ∈ (c.confirm hc).rollbackState.marked :=
    fun q hq ↦ List.mem_append_left _ hq
  refine ⟨fun b hb ↦ ?_, fun p hp ↦ ?_⟩
  · obtain ⟨b₀, hb₀, rfl⟩ := List.mem_map.mp hb
    have hsame := same_confirm hc b₀
    have hkeeps : ∀ b', ForkIndex.Same b₀ b' →
        b'.bftSolidifyBlockNumber = b₀.bftSolidifyBlockNumber →
        b'.bftSolidifyBlockNumber ≤ (c.lastCommitted initial).getNumber ∨
          b'.bftSolidifyBlockNumber = b'.blockNumber ∧
            b'.block ∈ (c.confirm hc).rollbackState.marked ∧ c.OnChain sha3 b' := by
      intro b' hsame hbft
      rw [hbft, hsame.number, hsame.block]
      exact (h.solid b₀ hb₀).imp_right fun ⟨hsolid, hmem, hon⟩ ↦
        ⟨hsolid, hmarked _ hmem, hon.congr hsame⟩
    cases hid : b₀.blockID == hc.blockID with
    | false =>
      rw [hid] at hsame
      exact hkeeps b₀ hsame rfl
    | true =>
      rw [hid] at hsame
      simp only [if_true] at hsame ⊢
      by_cases hquorum : (b₀.addConfirmation hc).reachesQuorum = true
      · refine Or.inr ⟨?_, ?_, (hchain b₀ hb₀ (beq_iff_eq.mp hid) hquorum).congr hsame⟩
        · rw [Quorum.confirm_eq, if_pos hquorum]
          rfl
        · rw [hsame.block]
          refine List.mem_append_right _ (List.mem_map_of_mem (List.mem_filter.mpr ⟨hb₀, ?_⟩))
          rw [hid, hquorum]
          rfl
      · refine hkeeps _ hsame ?_
        rw [Quorum.confirm_eq, if_neg hquorum]
        exact bftSolidify_addConfirmation hc b₀
  · obtain ⟨q, hq, hancestor⟩ := h.committed p hp
    exact ⟨q, hmarked q hq, hancestor⟩

theorem Final.confirmAll {hcs : List HeaderConfirmation} (h : Final sha3 initial c)
    (hchain : c.ConfirmAllOnChain sha3 hcs) :
    Final sha3 initial (hcs.foldl Control.confirm c) := by
  induction hcs generalizing c with
  | nil => exact h
  | cons hc hcs ih => exact ih (h.confirm hchain.1) hchain.2

/-- The node's own confirmation is for the head, which extends the queue. -/
theorem Final.send (h : Final env.sha3 initial c) (hlinked : Linked env.sha3 initial c)
    (hlive : c.Live) (hblock : c.head.block = block)
    (hall : ∀ i ∈ c.queue, Ancestor env.sha3 i.2 block) :
    Final env.sha3 initial (c.send env block) := by
  unfold Control.send
  split_ifs
  · exact h
  · have hconfirms : c.ConfirmsOnChain env.sha3 (ownConfirmation env block) := by
      intro b hb hid _ i hi _
      obtain ⟨b', hb', hblock'⟩ := hlive
      obtain ⟨hmem, -⟩ := ForkIndex.mem_of_byNumber hb'
      have heq : b = b' := by
        refine hlinked.wf.eq_of_id hb hmem ?_
        rw [hid, (hlinked.wf.ofBlock b' hmem).id_eq, hblock', hblock]
        rfl
      rw [heq, hblock', hblock]
      exact hall i hi
    have hfinal := h.confirm hconfirms
    exact ⟨hfinal.solid, hfinal.committed⟩

theorem Final.execute (h : Final sha3 initial c)
    (habove : ∀ b ∈ c.rollbackState.index, b.bftSolidifyBlockNumber ≠ 0 →
      b.blockNumber < c.head.block.getNumber) : Final sha3 initial c.execute := by
  refine ⟨fun b hb ↦ ?_, h.committed⟩
  rcases h.solid b hb with hlow | ⟨hsolid, hmarked, hchain⟩
  · exact Or.inl hlow
  · by_cases hzero : b.bftSolidifyBlockNumber = 0
    · left
      rw [hzero]
      exact Nat.zero_le _
    · refine Or.inr ⟨hsolid, hmarked, fun i hi hle ↦ ?_⟩
      rcases List.mem_append.mp hi with hold | hlast
      · exact hchain i hold hle
      · have hlt := habove b hb hzero
        rw [List.mem_singleton.mp hlast] at hle
        omega

end Control

section Runs

theorem Added.final {new : BlockState} (h : s.control.Final env.sha3 initial)
    (hbase : s.control.Base env.sha3 initial) (hadd : Added env initial block s new c)
    (hfresh : s.control.Fresh env.sha3 initial block) : c.Final env.sha3 initial := by
  refine (h.add hadd.unmarked).solidified
    (hbase.add hadd.newOf hadd.absent (hadd.block_eq ▸ hfresh)) hadd.solidified ?_
  exact (ForkIndex.maxBftSolidify_append s.rollbackState.index new).symm ▸ le_max_left _ _

theorem Processed.final (h : s.control.Final env.sha3 initial)
    (hlinked : s.control.Linked env.sha3 initial)
    (hfresh : s.control.Fresh env.sha3 initial block) (hp : Processed env initial block s t) :
    t.control.Final env.sha3 initial := by
  cases hp with
  | rejected ht =>
    rw [ht]
    exact h
  | fork hacc hadd hle hlive ht =>
    have hfinal := hadd.final h hlinked.toBase hfresh
    rw [ht]
    exact ⟨hfinal.solid, hfinal.committed⟩
  | apart hacc hadd hhead hnumber hparent ht =>
    have hfinal := hadd.final h hlinked.toBase hfresh
    rw [ht]
    exact ⟨hfinal.solid, hfinal.committed⟩
  | @failed new c hacc hadd hhead hnumber hparent hfails ht =>
    have hfinal := hadd.final h hlinked.toBase hfresh
    have hfollow : c.follow.Final env.sha3 initial := ⟨hfinal.solid, hfinal.committed⟩
    obtain ⟨hnext, hlive, hblock, -⟩ := hadd.next_linked hlinked hhead hnumber
    rcases ht with ht | ht
    · rw [ht]
      exact hfollow
    · rw [ht]
      refine hfollow.send hnext hlive hblock fun i hi ↦ ?_
      have hprev := hadd.next_parent hlinked hhead hparent hblock
      rw [BlockState.getPrev, hblock] at hprev
      exact (hnext.toBase.ancestor_tip hi).tail hprev
  | @done new c hacc hadd hhead hnumber hparent ht =>
    have hfinal := hadd.final h hlinked.toBase hfresh
    have hfollow : c.follow.Final env.sha3 initial := ⟨hfinal.solid, hfinal.committed⟩
    obtain ⟨hnext, hlive, hblock, hstuck⟩ := hadd.next_linked hlinked hhead hnumber
    have hexecuted := hnext.execute hlive hstuck (hadd.next_parent hlinked hhead hparent hblock)
    rw [ht]
    refine (hfollow.execute fun b hb hsolid ↦ ?_).send hexecuted hlive hblock fun i hi ↦ ?_
    · rw [hblock, hnumber]
      rcases List.mem_append.mp (hadd.solidified.sublist.subset hb) with hold | hlast
      · have hle : b.blockNumber ≤ s.head.blockNumber := hlinked.bounded b hold
        omega
      · rw [List.mem_singleton.mp hlast] at hsolid
        exact absurd hadd.unmarked hsolid
    · have hancestor := hexecuted.toBase.ancestor_tip hi
      rwa [Control.tip_execute, hblock] at hancestor

variable (env initial)

/-- Nothing collides, no exception passes through `doProcessBlock`, and confirmations that arrive
make no block solid that is off the node's own chain. -/
def Faithful (s : BlockChain) : Event → Prop
  | .confirmation hc => s.control.ConfirmsOnChain env.sha3 hc
  | .blockState number confirmations => s.rollbackState.solidifyNumber < number →
    s.control.ConfirmAllOnChain env.sha3 confirmations
  | event => Orderly env initial s event

variable {env initial}

theorem Faithful.orderly {event : Event} (h : Faithful env initial s event) :
    Orderly env initial s event := by
  cases event with
  | confirmation hc => trivial
  | blockState number confirmations => trivial
  | block block => exact h
  | work => exact h
  | status status => exact h

theorem Control.Final.nextBlock (h : s.control.Final env.sha3 initial) :
    s.nextBlock.2.control.Final env.sha3 initial := by
  obtain ⟨cache, heq, -⟩ := nextBlock_eq s
  rw [heq]
  exact ⟨h.solid, h.committed⟩

theorem Control.Final.handle (h : s.control.Final env.sha3 initial)
    (hlinked : s.control.Linked env.sha3 initial) {event : Event}
    (hfaithful : Faithful env initial s event) (hrun : handle env event s = (.ok (), t)) :
    t.control.Final env.sha3 initial := by
  cases event with
  | block block =>
    obtain ⟨-, rfl⟩ := Prod.mk.inj hrun
    exact ⟨h.solid, h.committed⟩
  | work =>
    rcases doWork_cases hlinked hfaithful with ⟨-, hwork⟩ | ⟨block, u, hnext, hwork, hprocessed⟩
    · obtain ⟨-, rfl⟩ := Prod.mk.inj (hwork.symm.trans hrun)
      exact h.nextBlock
    · obtain ⟨-, rfl⟩ := Prod.mk.inj (hwork.symm.trans hrun)
      exact hprocessed.final h.nextBlock hlinked.nextBlock (hfaithful block hnext).1
  | confirmation hc =>
    obtain ⟨-, rfl⟩ := Prod.mk.inj hrun
    exact h.confirm hfaithful
  | blockState number confirmations =>
    obtain ⟨-, rfl⟩ := Prod.mk.inj hrun
    rw [control_processBlockStateMessage]
    split_ifs with hold
    · exact h
    · exact h.confirmAll (hfaithful (not_le.mp hold))
  | status status =>
    obtain ⟨-, rfl⟩ := Prod.mk.inj hrun
    exact h

theorem Run.mono {P Q : BlockChain → Event → Prop} (hPQ : ∀ s event, P s event → Q s event)
    (hrun : Run env P s t) : Run env Q s t := by
  induction hrun with
  | start => exact .start
  | step _ hevent hstep ih => exact .step ih (hPQ _ _ hevent) hstep

theorem Control.Final.run (h : s.control.Final env.sha3 initial)
    (hlinked : s.control.Linked env.sha3 initial) (hrun : Run env (Faithful env initial) s t) :
    t.control.Final env.sha3 initial := by
  induction hrun with
  | start => exact h
  | step hrun hfaithful hstep ih =>
    exact ih.handle (hlinked.run (hrun.mono fun _ _ ↦ Faithful.orderly)) hfaithful hstep

theorem Initialised.final (h : Initialised env initial s) : s.control.Final env.sha3 initial := by
  obtain ⟨dbc, attributes, -, rfl⟩ := h.eq_start
  refine ⟨fun b hb ↦ Or.inl ?_, fun p hp ↦ ?_⟩
  · rw [List.mem_singleton.mp hb]
    exact le_rfl
  · cases hp

/-- In every faithful run, every block committed is a block that was marked solid or an ancestor
of one. -/
theorem committed_backed (h : Initialised env initial s)
    (hrun : Run env (Faithful env initial) s t) :
    ∀ p ∈ t.committed, ∃ q ∈ t.rollbackState.marked, Ancestor env.sha3 p q :=
  (h.final.run h.linked hrun).committed

end Runs

section Trio

def trioBlock (producer : Address) (parentHash : H256) (number : UInt64) (slot : Int64) :
    Block where
  blockHeader := {
    producer := producer, parentHash := parentHash, number := number
    timestamp := 1538352000000 + 2000 * slot }

def trioFirst : Block := trioBlock 3 1 1 0

def trioFork : Block := trioBlock 2 1 1 1

def trioSecond : Block := trioBlock 1 2 2 2

def trioEnv : Env where
  sha3 data :=
    if data = BlockHeader.content {} then 1
    else if data = trioFirst.blockHeader.content then 2
    else if data = trioFork.blockHeader.content then 3
    else 4
  chainID := 0
  address := 1

def trioStore : DatabaseController where
  accountStore := ((Std.ExtTreeMap.insert ∅ 1 (.ok (Account.new 1 1 0))).insert 2
    (.ok (Account.new 2 1 0))).insert 3 (.ok (Account.new 3 1 0))
  blockIndexStore := Std.ExtTreeMap.insert ∅ 0 (.ok {})

def trioAttributes : Attributes where
  currentProducerList := { producers := [
    { address := 1, timestamp := 1, votes := 0 }, { address := 2, timestamp := 1, votes := 0 },
    { address := 3, timestamp := 1, votes := 0 }] }

def trioChain : BlockChain := start trioEnv trioStore trioAttributes {}

def trioConfirmation (blockID : BlockID) (producer : Address) : HeaderConfirmation where
  chainID := 0
  number := 1
  blockID := blockID
  timestamp := 0
  producer := producer

theorem initialised_trioChain : Initialised trioEnv {} trioChain :=
  initialised_start Std.ExtTreeMap.getD_insert_self rfl (by decide) rfl (by decide +kernel)

def trioConfirmed : BlockChain :=
  processConfirmationMessage (trioConfirmation 2 2) (afterBlock trioEnv trioChain trioFirst)

/-- The first block is executed, its sibling arrives and is confirmed by two producers, and the
second block, a child of the first, arrives. -/
def trioForked : BlockChain :=
  processConfirmationMessage (trioConfirmation 3 3) (processConfirmationMessage
    (trioConfirmation 3 2) (afterBlock trioEnv (afterBlock trioEnv trioChain trioFirst) trioFork))

theorem orderly_trioFirst : Orderly trioEnv {} (cacheBlock trioFirst trioChain) .work := by
  apply orderly_of_isOk trioFirst
  decide +kernel

theorem orderly_trioSecond :
    Orderly trioEnv {} (cacheBlock trioSecond trioConfirmed) .work := by
  apply orderly_of_isOk trioSecond
  decide +kernel

theorem faithful_trioConfirmation :
    Faithful trioEnv {} (afterBlock trioEnv trioChain trioFirst)
      (.confirmation (trioConfirmation 2 2)) := by
  have hcheck : (∀ b ∈ (afterBlock trioEnv trioChain trioFirst).control.rollbackState.index,
      b.blockID = (trioConfirmation 2 2).blockID → b.block = trioFirst) ∧
      ∀ i ∈ (afterBlock trioEnv trioChain trioFirst).control.queue, i.2 = trioFirst := by
    decide +kernel
  obtain ⟨hblocks, hqueue⟩ := hcheck
  intro b hb hid _ i hi _
  rw [hqueue i hi, hblocks b hb hid]
  exact .refl

theorem committed_backed_trio :
    (afterBlock trioEnv trioConfirmed trioSecond).committed = [trioFirst] ∧
      ∀ p ∈ (afterBlock trioEnv trioConfirmed trioSecond).committed,
        ∃ q ∈ (afterBlock trioEnv trioConfirmed trioSecond).rollbackState.marked,
          Ancestor trioEnv.sha3 p q := by
  refine ⟨by decide +kernel, committed_backed initialised_trioChain ?_⟩
  have hfirst : Run trioEnv (Faithful trioEnv {}) trioChain
      (afterBlock trioEnv trioChain trioFirst) :=
    run_afterBlock .start trivial orderly_trioFirst (by decide +kernel)
  exact run_afterBlock (run_confirmation hfirst faithful_trioConfirmation) trivial
    orderly_trioSecond (by decide +kernel)

theorem content_of_hash_eq_one {p : Block} (h : p.getHash trioEnv.sha3 = 1) :
    p.blockHeader.content = BlockHeader.content {} := by
  change (if p.blockHeader.content = BlockHeader.content {} then (1 : H256)
    else if p.blockHeader.content = trioFirst.blockHeader.content then 2
    else if p.blockHeader.content = trioFork.blockHeader.content then 3 else 4) = 1 at h
  split_ifs at h with hcontent
  · exact hcontent
  all_goals exact absurd h (by decide)

theorem hash_ne_zero (p : Block) : p.getHash trioEnv.sha3 ≠ 0 := by
  change (if p.blockHeader.content = BlockHeader.content {} then (1 : H256)
    else if p.blockHeader.content = trioFirst.blockHeader.content then 2
    else if p.blockHeader.content = trioFork.blockHeader.content then 3 else 4) ≠ 0
  split_ifs <;> decide

theorem not_ancestor_trio : ¬ Ancestor trioEnv.sha3 trioFirst trioFork := by
  intro h
  rcases Relation.ReflTransGen.cases_tail h with heq | ⟨p, hp, hfork⟩
  · exact absurd heq (by decide)
  · have hcontent := content_of_hash_eq_one (p := p) hfork.symm
    have hparent : p.getParentHash = 0 := (BlockHeader.eq_of_content hcontent).1
    rcases Relation.ReflTransGen.cases_tail hp with heq | ⟨q, -, hq⟩
    · rw [heq] at hcontent
      exact absurd hcontent (by decide +kernel)
    · exact hash_ne_zero q (hq.symm.trans hparent)

/-- Two producers confirm a sibling of the executed block, and the executed block is committed. -/
theorem committed_without_mark :
    Initialised trioEnv {} trioChain ∧
      Run trioEnv (fun _ _ ↦ True) trioChain (afterBlock trioEnv trioForked trioSecond) ∧
      ¬ ∀ p ∈ (afterBlock trioEnv trioForked trioSecond).committed,
        ∃ q ∈ (afterBlock trioEnv trioForked trioSecond).rollbackState.marked,
          Ancestor trioEnv.sha3 p q := by
  refine ⟨initialised_trioChain, ?_, fun hall ↦ ?_⟩
  · have hfirst : Run trioEnv (fun _ _ ↦ True) trioChain
        (afterBlock trioEnv trioChain trioFirst) :=
      run_afterBlock .start trivial trivial (by decide +kernel)
    have hfork : Run trioEnv (fun _ _ ↦ True) trioChain
        (afterBlock trioEnv (afterBlock trioEnv trioChain trioFirst) trioFork) :=
      run_afterBlock hfirst trivial trivial (by decide +kernel)
    exact run_afterBlock (run_confirmation (run_confirmation hfork trivial) trivial) trivial trivial
      (by decide +kernel)
  · have hresult : (afterBlock trioEnv trioForked trioSecond).committed = [trioFirst] ∧
        (afterBlock trioEnv trioForked trioSecond).rollbackState.marked = [trioFork] := by
      decide +kernel
    obtain ⟨hcommitted, hmarked⟩ := hresult
    rw [hcommitted, hmarked] at hall
    obtain ⟨q, hq, hancestor⟩ := hall trioFirst List.mem_cons_self
    rw [List.mem_singleton.mp hq] at hancestor
    exact not_ancestor_trio hancestor

end Trio

end GseNetwork.Chain
