import GseNetwork.Chain.Displacement
import GseNetwork.Chain.Executed

namespace GseNetwork.Chain

open GseNetwork.Core GseNetwork.Foundation GseNetwork.Storage
open BlockChain Relation

/-- The transaction is meant for this chain and carries the signature of its sender: the key
recovered from it is not the null key, which stands for an invalid signature, and its address is
the sender. -/
structure Authorised (env : Env) (tx : Transaction) : Prop where
  chainID_eq : tx.chainID = env.chainID
  signed : env.recover tx.signature (tx.getHash env.sha3) ≠ 0
  sender_eq : Valid.toAddress env (env.recover tx.signature (tx.getHash env.sha3)) = tx.sender

def Clean (env : Env) (block : Block) : Prop :=
  ∀ tx ∈ block.transactions, tx.chainID = env.chainID ∧
    env.recover tx.signature (tx.getHash env.sha3) ≠ 0

namespace Relay

variable {env : Env} {block : Block} {r t u : Relay} {call : Call}

theorem authorised_iff_clean (h : Checked env block) :
    (∀ tx ∈ block.transactions, Authorised env tx) ↔ Clean env block := by
  constructor
  · intro hauthorised tx htx
    exact ⟨(hauthorised tx htx).chainID_eq, (hauthorised tx htx).signed⟩
  · intro hclean tx htx
    obtain ⟨hchain, hsigned⟩ := hclean tx htx
    refine ⟨hchain, hsigned, ?_⟩
    have hvalid := h.valid
    unfold Valid.validBlock at hvalid
    have htx := List.all_eq_true.mp (Bool.and_eq_true_iff.mp hvalid).2 tx htx
    simpa [Valid.validTransaction] using htx

/-- The received blocks that pass the checks of `preProcessBlock` are clean. -/
def Vetted (env : Env) (_ : Relay) (call : Call) : Prop :=
  ∀ block ∈ call.blocks, Checked env block → Clean env block

def Sourced (env : Env) (r : Relay) (block : Block) : Prop :=
  block ∈ r.produced ∨ block ∈ r.received ∧ ∀ tx ∈ block.transactions, Authorised env tx

structure AllSourced (env : Env) (r : Relay) : Prop where
  cached : ∀ (n : ℕ) (b : Block), r.chain.blockCache[n]? = some b → Sourced env r b
  executed : ∀ b ∈ executedBlocks r.chain, Sourced env r b

theorem Sourced.mono (h : Sourced env r block) (hproduced : r.produced ⊆ t.produced)
    (hreceived : r.received ⊆ t.received) : Sourced env t block :=
  h.imp (fun hmem ↦ hproduced hmem) fun hmem ↦ ⟨hreceived hmem.1, hmem.2⟩

theorem mem_cacheBlock {s : BlockChain} {n : ℕ} {b : Block}
    (h : (cacheBlock block s).blockCache[n]? = some b) :
    b = block ∨ s.blockCache[n]? = some b := by
  change (s.blockCache.insertIfNew block.getNumber block)[n]? = some b at h
  rw [Std.ExtTreeMap.getElem?_insertIfNew] at h
  split_ifs at h
  · exact Or.inl (Option.some.inj h).symm
  · exact Or.inr h

theorem AllSourced.move (h : AllSourced env r) (hvetted : Vetted env r call)
    (hmove : Moves env call r t) : AllSourced env t := by
  cases hmove with
  | checks hchecks =>
    refine ⟨fun n b hb ↦ h.cached n b ?_, fun b hb ↦ h.executed b ?_⟩
    · rwa [← hchecks.blockCache_eq]
    · rwa [← executedBlocks_of_control hchecks.control_eq]
  | history => exact ⟨h.cached, h.executed⟩
  | tx => exact ⟨h.cached, h.executed⟩
  | @block block hmem hchecked =>
    have hmono : ∀ {b}, Sourced env r b → Sourced env
        { r with chain := cacheBlock block r.chain, received := r.received ++ [block] } b :=
      fun hb ↦ hb.mono (List.Subset.refl _) (List.subset_append_left _ _)
    refine ⟨fun n b hb ↦ ?_, fun b hb ↦ hmono (h.executed b hb)⟩
    rcases mem_cacheBlock hb with rfl | hold
    · exact Or.inr ⟨by simp, (authorised_iff_clean hchecked).mpr (hvetted _ hmem hchecked)⟩
    · exact hmono (h.cached n b hold)
  | index => exact ⟨h.cached, h.executed⟩
  | status => exact ⟨h.cached, h.executed⟩
  | take =>
    unfold getTransactionFromCache
    cases r.chain.txCache.toList.head? <;> exact ⟨h.cached, h.executed⟩
  | producer => exact ⟨h.cached, h.executed⟩
  | produce block =>
    have hmono : ∀ {b}, Sourced env r b → Sourced env { r with
        producer := .idle
        chain := (processProducerBlock block r.chain).2
        produced := r.produced ++ [block] } b :=
      fun hb ↦ hb.mono (List.subset_append_left _ _) (List.Subset.refl _)
    unfold processProducerBlock at hmono ⊢
    split_ifs at hmono ⊢
    · exact ⟨fun n b hb ↦ hmono (h.cached n b hb), fun b hb ↦ hmono (h.executed b hb)⟩
    · refine ⟨fun n b hb ↦ ?_, fun b hb ↦ hmono (h.executed b hb)⟩
      rcases mem_cacheBlock hb with rfl | hold
      · exact Or.inl (by simp)
      · exact hmono (h.cached n b hold)

theorem nextBlock_mem {s : BlockChain} (h : s.nextBlock.1 = some block) :
    ∃ n : ℕ, s.blockCache[n]? = some block := by
  unfold nextBlock at h
  cases hhead : s.blockCache.toList.head? with
  | none => simp [hhead] at h
  | some item =>
    have hmem : s.blockCache[item.1]? = some item.2 :=
      Std.ExtTreeMap.mem_toList_iff_getElem?_eq_some.mp (List.mem_of_head? hhead)
    rw [hhead] at h
    dsimp only at h
    split_ifs at h
    · exact ⟨item.1, by rw [hmem, ← Option.some.inj h]⟩
    · exact ⟨item.1, by rw [hmem, ← Option.some.inj h]⟩

theorem AllSourced.next (h : AllSourced env r) {block : Block}
    (hnext : r.chain.nextBlock.1 = some block) : Sourced env r block := by
  obtain ⟨n, hmem⟩ := nextBlock_mem hnext
  exact h.cached n block hmem

/-- What holds of the cached and of the executed blocks holds of both after `doWork`. -/
theorem work_blocks {Q : Block → Prop}
    (hcached : ∀ (n : ℕ) (b : Block), r.chain.blockCache[n]? = some b → Q b)
    (hexecuted : ∀ b ∈ executedBlocks r.chain, Q b) :
    (∀ (n : ℕ) (b : Block), (perform env .work r).2.chain.blockCache[n]? = some b → Q b) ∧
      ∀ b ∈ executedBlocks (perform env .work r).2.chain, Q b := by
  rcases perform_work env r with heq | ⟨working, heq⟩
  · rw [heq]
    exact ⟨hcached, hexecuted⟩
  · rw [heq]
    refine ⟨fun n b hb ↦ ?_, doWork_executed (fun b hb ↦ ?_) hexecuted⟩
    · dsimp only at hb
      obtain ⟨cache, hcache, hsub⟩ := nextBlock_eq r.chain
      rw [blockCache_doWork, hcache] at hb
      exact hcached n b (hsub n b hb)
    · obtain ⟨n, hmem⟩ := nextBlock_mem hb
      exact hcached n b hmem

theorem AllSourced.perform (h : AllSourced env r) (hvetted : Vetted env r call)
    (hstep : perform env call r = (.ok (), t)) : AllSourced env t := by
  have ht : (Relay.perform env call r).2 = t := by rw [hstep]
  rw [← ht]
  by_cases hwork : call = .work
  · subst hwork
    have hblocks := @work_blocks env r (Sourced env r) h.cached h.executed
    rcases perform_work env r with heq | ⟨working, heq⟩
    · rw [heq]
      exact h
    · rw [heq] at hblocks ⊢
      exact ⟨hblocks.1, hblocks.2⟩
  · exact steps_invariant (I := AllSourced env) (fun _ _ hmove hs ↦ hs.move hvetted hmove)
      (perform_moves hwork r) h

/-- In every run from a node that has executed nothing, in which the received blocks are vetted,
the blocks that `doWork` hands to `processBlock` and those that were executed are the node's own
or have authorised transactions only. -/
theorem authorised_of_vetted (env : Env) (r u : Relay) (hcache : r.chain.blockCache = ∅)
    (hexecuted : executedBlocks r.chain = []) (hrun : Reaches env (Vetted env) r u) :
    (∀ block, u.chain.nextBlock.1 = some block → Sourced env u block) ∧
      ∀ block ∈ executedBlocks u.chain, Sourced env u block := by
  have hstart : AllSourced env r := by
    refine ⟨fun n b hb ↦ ?_, fun b hb ↦ ?_⟩
    · simp [hcache] at hb
    · simp [hexecuted] at hb
  have hall : AllSourced env u := by
    induction hrun with
    | start => exact hstart
    | step _ hvetted hstep ih => exact ih.perform hvetted hstep
  exact ⟨fun block hnext ↦ hall.next hnext, hall.executed⟩

def fundedRelay : Relay where
  chain := start openEnv
    { accountStore := ((Std.ExtTreeMap.insert ∅ 0 (.ok (Account.new 0 10000000 0))).insert 1
        (.ok (Account.new 1 10000000 0))).insert 2 (.ok (Account.new 2 10000000 0))
      blockIndexStore := Std.ExtTreeMap.insert ∅ 0 (.ok {}) }
    { currentProducerList := { producers := [{ address := 1, timestamp := 1, votes := 0 }] } } {}

def openTransfer (chainID : ChainID) (sender : Address) (key : H256) : Transaction where
  chainID := chainID
  type := Transaction.transferType
  sender := sender
  recipient := 1
  timestamp := 1
  value := 100
  signature := { r := key }

def transferBlock (txs : List Transaction) : Block :=
  { openBlock 1 with transactions := txs }

def afterMessage (env : Env) (r : Relay) (block : Block) : Relay :=
  (perform env .work (perform env (.blockMessage block) r).2).2

theorem reaches_afterMessage {P : Relay → Call → Prop}
    (hfirst : P r (.blockMessage block))
    (hsecond : P (perform env (.blockMessage block) r).2 .work)
    (hok : (perform env (.blockMessage block) r).1.isOk = true ∧
      (perform env .work (perform env (.blockMessage block) r).2).1.isOk = true) :
    Reaches env P r (afterMessage env r block) := by
  refine .step (.step .start hfirst (Eff.eq_ok_of_isOk hok.1)) hsecond ?_
  exact Eff.eq_ok_of_isOk hok.2

theorem authorised_of_vetted_open :
    executedBlocks (afterMessage openEnv fundedRelay (transferBlock [openTransfer 0 2 2])).chain =
        [transferBlock [openTransfer 0 2 2]] ∧
      Sourced openEnv (afterMessage openEnv fundedRelay (transferBlock [openTransfer 0 2 2]))
        (transferBlock [openTransfer 0 2 2]) := by
  have hevaluated : (perform openEnv (.blockMessage (transferBlock [openTransfer 0 2 2]))
        fundedRelay).1.isOk = true ∧
      (perform openEnv .work (perform openEnv (.blockMessage (transferBlock [openTransfer 0 2 2]))
        fundedRelay).2).1.isOk = true ∧
      executedBlocks (afterMessage openEnv fundedRelay (transferBlock [openTransfer 0 2 2])).chain =
        [transferBlock [openTransfer 0 2 2]] := by
    decide +kernel
  have hclean : Clean openEnv (transferBlock [openTransfer 0 2 2]) := by
    unfold Clean
    decide +kernel
  refine ⟨hevaluated.2.2, (authorised_of_vetted openEnv fundedRelay _ rfl rfl
    (reaches_afterMessage ?_ ?_ ⟨hevaluated.1, hevaluated.2.1⟩)).2 _ ?_⟩
  · intro block hblock _
    rw [List.mem_singleton.mp hblock]
    exact hclean
  · intro block hblock _
    cases hblock
  · rw [hevaluated.2.2]
    exact List.mem_singleton_self _

/-- A transfer signed for another chain, and one without any signature from the account at the
address of the null key, are executed. -/
theorem unauthorised_executed :
    Reaches openEnv (fun _ _ ↦ True) fundedRelay
        (afterMessage openEnv fundedRelay
          (transferBlock [openTransfer 5 2 2, openTransfer 0 0 0])) ∧
      executedBlocks (afterMessage openEnv fundedRelay
        (transferBlock [openTransfer 5 2 2, openTransfer 0 0 0])).chain =
          [transferBlock [openTransfer 5 2 2, openTransfer 0 0 0]] ∧
      (afterMessage openEnv fundedRelay
        (transferBlock [openTransfer 5 2 2, openTransfer 0 0 0])).produced = [] ∧
      ¬ Authorised openEnv (openTransfer 5 2 2) ∧ ¬ Authorised openEnv (openTransfer 0 0 0) := by
  have hevaluated : (perform openEnv (.blockMessage
        (transferBlock [openTransfer 5 2 2, openTransfer 0 0 0])) fundedRelay).1.isOk = true ∧
      (perform openEnv .work (perform openEnv (.blockMessage
        (transferBlock [openTransfer 5 2 2, openTransfer 0 0 0])) fundedRelay).2).1.isOk = true ∧
      executedBlocks (afterMessage openEnv fundedRelay
        (transferBlock [openTransfer 5 2 2, openTransfer 0 0 0])).chain =
          [transferBlock [openTransfer 5 2 2, openTransfer 0 0 0]] ∧
      (afterMessage openEnv fundedRelay
        (transferBlock [openTransfer 5 2 2, openTransfer 0 0 0])).produced = [] := by
    decide +kernel
  refine ⟨reaches_afterMessage trivial trivial ⟨hevaluated.1, hevaluated.2.1⟩, hevaluated.2.2.1,
    hevaluated.2.2.2, fun h ↦ ?_, fun h ↦ ?_⟩
  · exact absurd h.chainID_eq (by decide)
  · exact h.signed (by decide +kernel)

end Relay

end GseNetwork.Chain
