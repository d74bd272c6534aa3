import GseNetwork.Chain.History
import GseNetwork.Chain.Recorded

namespace GseNetwork.Chain

open GseNetwork.Core GseNetwork.Foundation GseNetwork.Storage GseNetwork.Storage.Repository
open BlockChain Relation
open Std (ExtTreeMap)

variable {env : Env} {block : Block} {s t u : BlockChain}

section Around

variable {codec : Codec} {m : ExtTreeMap TxID (Except Exception Transaction)} {h : TxID}

/-- No transaction is read back from the database as the empty one, except such as are taken for
it anyway. -/
def ReadsBack (sha3 : Bytes → H256) (codec : Codec) : Prop :=
  ∀ tx v : Transaction, codec.transaction tx = .ok v →
    v.getHash sha3 = emptyTransaction.getHash sha3 → tx.getHash sha3 = emptyTransaction.getHash sha3

theorem inStore_insert {sha3 : Bytes → H256} (hcodec : ReadsBack sha3 codec)
    (hne : h ≠ emptyTransaction.getHash sha3) {db : DatabaseController} {tx : Transaction}
    (hin : InStore sha3 db h ∨ tx.getHash sha3 = h) :
    InStore sha3 { db with
      transactionStore := db.transactionStore.insert (tx.getHash sha3)
        (codec.transaction tx) } h := by
  by_cases heq : tx.getHash sha3 = h
  · refine ⟨codec.transaction tx, ?_, fun v hv ↦ ?_⟩
    · rw [← heq]
      exact ExtTreeMap.getElem?_insert_self
    · unfold Transaction.equal
      rw [beq_eq_false_iff_ne]
      intro hempty
      exact hne (heq.symm.trans (hcodec tx v hv hempty))
  · obtain ⟨x, hx, hall⟩ := hin.resolve_right heq
    refine ⟨x, ?_, hall⟩
    dsimp only
    rw [ReadThrough.getElem?_insert, if_neg heq]
    exact hx

theorem inStore_putAll {sha3 : Bytes → H256} (hcodec : ReadsBack sha3 codec)
    (hne : h ≠ emptyTransaction.getHash sha3) {db : DatabaseController}
    {l : List (TxID × Transaction)} (hin : InStore sha3 db h ∨ ∃ i ∈ l, i.2.getHash sha3 = h) :
    InStore sha3 (db.putAll sha3 codec (l.map fun i ↦ .transaction i.2)) h := by
  induction l generalizing db with
  | nil =>
    rcases hin with hin | ⟨i, hi, -⟩
    · exact hin
    · exact absurd hi List.not_mem_nil
  | cons x l ih =>
    refine @ih (db.put sha3 codec (.transaction x.2)) ?_
    rcases hin with hin | ⟨i, hi, heq⟩
    · exact Or.inl (inStore_insert hcodec hne (Or.inl hin))
    · rcases List.mem_cons.mp hi with rfl | hi
      · exact Or.inl (inStore_insert hcodec hne (Or.inr heq))
      · exact Or.inr ⟨i, hi, heq⟩

theorem inStore_commit (hcodec : ReadsBack env.sha3 codec)
    (hne : h ≠ emptyTransaction.getHash env.sha3) {db : DatabaseController} {r : Repository}
    (hin : InStore env.sha3 db h ∨ Keyed env.sha3 r.cacheTransaction ∧ h ∈ r.cacheTransaction) :
    InStore env.sha3 (db.putAll env.sha3 codec (.dbDirty 1 :: r.commitWrites)) h := by
  have hstore : (db.putAll env.sha3 codec (.dbDirty 1 :: r.commitWrites)).transactionStore =
      (db.putAll env.sha3 codec
        (r.cacheTransaction.toList.map fun i ↦ .transaction i.2)).transactionStore := by
    change ((db.put env.sha3 codec (.dbDirty 1)).putAll env.sha3 codec
      r.commitWrites).transactionStore = _
    rw [putAll_commitWrites, putAll_transactions]
    rfl
  refine inStore_congr hstore (inStore_putAll hcodec hne (hin.imp_right fun ⟨hkeyed, hmem⟩ ↦ ?_))
  obtain ⟨tx, htx⟩ := Option.isSome_iff_exists.mp (ExtTreeMap.mem_iff_isSome_getElem?.mp hmem)
  exact ⟨(h, tx), ExtTreeMap.mem_toList_iff_getElem?_eq_some.mpr htx, hkeyed h tx htx⟩

theorem Commits.recorded (hcodec : ReadsBack env.sha3 env.codec) (hstep : Commits env s t)
    (hs : Recorded env s) : Recorded env t := by
  cases hstep with
  | @commit item rest hqueue =>
    have hblocks : executedBlocks s = s.committed ++ [item.repository.block] ++
        rest.map fun i ↦ i.repository.block := by
      unfold executedBlocks
      rw [hqueue, List.map_cons, List.append_cons]
    have hitem : item ∈ s.memoryQueue := by
      rw [hqueue]
      exact List.mem_cons_self
    have hrest : ∀ i ∈ rest, i ∈ s.memoryQueue := by
      intro i hi
      rw [hqueue]
      exact List.mem_cons_of_mem item hi
    refine ⟨fun i hi ↦ hs.keyed i (hrest i hi), fun i hi ↦ hs.queued i (hrest i hi),
      fun b hb k hk ↦ ?_, ?_, ?_⟩
    · have hexecuted : b ∈ executedBlocks s := by
        rw [hblocks]
        exact List.mem_append_left _ hb
      have hne : k ≠ emptyTransaction.getHash env.sha3 := by
        rintro rfl
        exact hs.proper b hexecuted hk
      refine inStore_commit hcodec hne ?_
      rcases List.mem_append.mp hb with hold | hnew
      · exact Or.inl (hs.stored b hold k hk)
      · rw [List.mem_singleton.mp hnew] at hk
        exact Or.inr ⟨hs.keyed item hitem, hs.queued item hitem k hk⟩
    · intro b hb
      refine hs.proper b ?_
      rw [hblocks]
      exact hb
    · have honce := hs.once
      rw [hblocks] at honce
      exact honce
  | solidify => exact hs.grows ⟨forall₂_itemGrows_refl _, rfl, rfl⟩
  | front => exact hs.grows ⟨forall₂_itemGrows_refl _, rfl, rfl⟩

theorem Undoes.recorded (hstep : Undoes s t) (hs : Recorded env s) : Recorded env t := by
  cases hstep with
  | sync => exact hs.grows ⟨forall₂_itemGrows_refl _, rfl, rfl⟩
  | back => exact hs.grows ⟨forall₂_itemGrows_refl _, rfl, rfl⟩
  | pop prev =>
    have hhead : Recorded env { s with head := prev } :=
      hs.grows ⟨forall₂_itemGrows_refl _, rfl, rfl⟩
    exact hhead.cancel

theorem addToRollbackState_recorded (block : Block) (hcodec : ReadsBack env.sha3 env.codec)
    (hs : Recorded env s) :
    Recorded env (addToRollbackState env block s).2 := by
  unfold addToRollbackState
  rw [Eff.get_bind_apply]
  rcases hadd : s.rollbackState.add env.sha3 env.garbage block s.schedule.getProducerSnapshot with
    e | ⟨rollbackState, signal⟩
  · exact hs
  · have hindex : Recorded env { s with rollbackState := rollbackState } :=
      hs.grows ⟨forall₂_itemGrows_refl _, rfl, rfl⟩
    rw [Eff.ofExcept_ok_bind]
    dsimp only
    rw [Eff.modify_bind_apply]
    cases signal with
    | none => exact hindex
    | some bsp =>
      exact steps_invariant (fun _ _ hstep ht ↦ hstep.recorded hcodec ht)
        (onSolidifiable_steps env bsp _) hindex

theorem checkBifurcation_recorded (hs : Recorded env s)
    (hprocess : Recorded env (doProcessBlock env block s).2) :
    Recorded env (checkBifurcation env block s).2 := by
  unfold checkBifurcation
  rw [Eff.get_bind_apply]
  split_ifs
  · exact hprocess
  · have hswitch := steps_invariant (fun _ _ hstep ht ↦ Undoes.recorded hstep ht)
      (switchBranch_steps s) hs
    unfold Eff.tryCatch
    rcases hrun : switchBranch s with ⟨e | ⟨⟨⟩⟩, t⟩
    · rw [hrun] at hswitch
      dsimp only
      split_ifs <;> exact hswitch
    · rw [hrun] at hswitch
      exact hswitch

theorem processBlock_recorded (hcodec : ReadsBack env.sha3 env.codec) (hs : Recorded env s)
    (hprocess : ∀ t, addToRollbackState env block s = (.ok (), t) → Recorded env t →
      Recorded env (doProcessBlock env block t).2) :
    Recorded env (processBlock env block s).2 := by
  have hadd := addToRollbackState_recorded block hcodec hs
  have hbody : Recorded env ((do
      let s ← Eff.get
      if !s.checkProducer block then Eff.throw ⟨.invalidProducer, "Invalid block producer!"⟩
      else do
        addToRollbackState env block
        checkBifurcation env block
        Eff.modify fun s ↦ { s with head := s.rollbackState.head }
        return true : ChainM Bool) s).2 := by
    rw [Eff.get_bind_apply]
    split_ifs with hcheck
    · exact hs
    rcases hrun : addToRollbackState env block s with ⟨e | ⟨⟨⟩⟩, t⟩
    · rw [hrun] at hadd
      rw [Eff.bind_error hrun]
      exact hadd
    rw [hrun] at hadd
    rw [Eff.bind_ok hrun]
    have hfork := checkBifurcation_recorded hadd (hprocess t hrun hadd)
    rcases hrun' : checkBifurcation env block t with ⟨e | ⟨⟨⟩⟩, u⟩
    · rw [hrun'] at hfork
      rw [Eff.bind_error hrun']
      exact hfork
    · rw [hrun'] at hfork
      rw [Eff.bind_ok hrun']
      exact hfork.grows ⟨forall₂_itemGrows_refl _, rfl, rfl⟩
  unfold processBlock Eff.tryCatch
  split
  · next heq => rwa [heq] at hbody
  · next e t heq =>
    rw [heq] at hbody
    beta_reduce
    split_ifs <;> exact hbody

end Around

namespace Relay

variable {r : Relay} {call : Call}

/-- A block that can be executed without repeating a transaction: if the node has produced it
itself, so that nothing has looked for duplicates in it, its transactions are of different hashes;
none has the hash of `EmptyTransaction` by chance, which counts as absent; and no exception that
`doProcessBlock` does not catch leaves the block in the queue. -/
structure Unrepeated (env : Env) (r : Relay) (block : Block) : Prop where
  distinct : block ∈ r.produced → (txHashes env block).Nodup
  proper : Proper env block
  caught : ∀ s, addToRollbackState env block r.chain.nextBlock.2 = (.ok (), s) →
    (doProcessBlock env block s).1.isOk = true

def TakesUnrepeated (env : Env) (r : Relay) (call : Call) : Prop :=
  call = .work → ∀ block, r.chain.nextBlock.1 = some block → Unrepeated env r block

structure AllRecorded (env : Env) (r : Relay) : Prop where
  cached : ∀ (n : ℕ) (b : Block), r.chain.blockCache[n]? = some b →
    b ∈ r.produced ∨ (txHashes env b).Nodup
  executed : Recorded env r.chain

theorem AllRecorded.move {t : Relay} (h : AllRecorded env r) (hmove : Moves env call r t) :
    AllRecorded env t := by
  have hsame : ∀ {s : BlockChain}, s.memoryQueue = r.chain.memoryQueue → s.dbc = r.chain.dbc →
      s.committed = r.chain.committed → Recorded env s := by
    intro s hqueue hdbc hcommitted
    refine h.executed.grows ⟨?_, by rw [hdbc], hcommitted⟩
    rw [hqueue]
    exact forall₂_itemGrows_refl _
  cases hmove with
  | checks hchecks =>
    refine ⟨fun n b hb ↦ h.cached n b ?_, h.executed.grows hchecks.queueGrows⟩
    rwa [← hchecks.blockCache_eq]
  | history => exact ⟨h.cached, h.executed⟩
  | tx => exact ⟨h.cached, hsame rfl rfl rfl⟩
  | block hmem hchecked =>
    refine ⟨fun n b hb ↦ ?_, hsame rfl rfl rfl⟩
    rcases mem_cacheBlock hb with rfl | hold
    · exact Or.inr hchecked.noDuplicate
    · exact h.cached n b hold
  | index => exact ⟨h.cached, hsame rfl rfl rfl⟩
  | status => exact ⟨h.cached, hsame rfl rfl rfl⟩
  | take =>
    unfold getTransactionFromCache
    cases r.chain.txCache.toList.head? <;> exact ⟨h.cached, hsame rfl rfl rfl⟩
  | producer => exact ⟨h.cached, h.executed⟩
  | produce block =>
    have hold : ∀ (n : ℕ) (b : Block), r.chain.blockCache[n]? = some b →
        b ∈ r.produced ++ [block] ∨ (txHashes env b).Nodup :=
      fun n b hb ↦ (h.cached n b hb).imp_left (List.mem_append_left _)
    unfold processProducerBlock
    split_ifs
    · exact ⟨hold, h.executed⟩
    · refine ⟨fun n b hb ↦ ?_, hsame rfl rfl rfl⟩
      rcases mem_cacheBlock hb with rfl | hb
      · exact Or.inl (List.mem_append_right _ List.mem_cons_self)
      · exact hold n b hb

theorem AllRecorded.work (hcodec : ReadsBack env.sha3 env.codec) (h : AllRecorded env r)
    (htakes : TakesUnrepeated env r .work) : Recorded env (doWork env r.chain).2 := by
  obtain ⟨cache, hcache, -⟩ := nextBlock_eq r.chain
  have hnext : Recorded env r.chain.nextBlock.2 := by
    rw [hcache]
    exact h.executed.grows ⟨forall₂_itemGrows_refl _, rfl, rfl⟩
  unfold doWork
  rw [Eff.get_bind_apply, Eff.modify_bind_apply]
  cases hblock : r.chain.nextBlock.1 with
  | none => exact hnext
  | some block =>
    have hunrepeated := htakes rfl block hblock
    obtain ⟨n, hmem⟩ := nextBlock_mem hblock
    have hnodup : (txHashes env block).Nodup := (h.cached n block hmem).elim hunrepeated.distinct id
    have hprocess := processBlock_recorded hcodec hnext fun t ht hrecorded ↦ by
      refine (hrecorded.doProcessBlock hnodup hunrepeated.proper).resolve_right fun hfailed ↦ ?_
      rw [hunrepeated.caught t ht] at hfailed
      exact Bool.noConfusion hfailed
    dsimp only
    rcases hrun : processBlock env block r.chain.nextBlock.2 with ⟨e | _, u⟩
    · rw [hrun] at hprocess
      rw [Eff.bind_error hrun]
      exact hprocess
    · rw [hrun] at hprocess
      rw [Eff.bind_ok hrun]
      exact hprocess

theorem AllRecorded.perform {t : Relay} (hcodec : ReadsBack env.sha3 env.codec)
    (h : AllRecorded env r) (htakes : TakesUnrepeated env r call)
    (hstep : perform env call r = (.ok (), t)) : AllRecorded env t := by
  have ht : (Relay.perform env call r).2 = t := by rw [hstep]
  rw [← ht]
  by_cases hwork : call = .work
  · subst hwork
    rcases perform_work env r with heq | ⟨working, heq⟩
    · rw [heq]
      exact h
    · rw [heq]
      refine ⟨fun n b hb ↦ ?_, h.work hcodec htakes⟩
      dsimp only at hb
      obtain ⟨cache, hcache, hsub⟩ := nextBlock_eq r.chain
      rw [blockCache_doWork, hcache] at hb
      exact h.cached n b (hsub n b hb)
  · exact steps_invariant (I := AllRecorded env) (fun _ _ hmove hs ↦ hs.move hmove)
      (perform_moves hwork r) h

/-- In every run from a node that has executed nothing, in which the worker takes fresh blocks, no
two executed transactions have the same hash. -/
theorem executes_once (env : Env) (r u : Relay) (hcodec : ReadsBack env.sha3 env.codec)
    (hcache : r.chain.blockCache = ∅) (hqueue : r.chain.memoryQueue = [])
    (hcommitted : r.chain.committed = []) (hrun : Reaches env (TakesUnrepeated env) r u) :
    ((executedBlocks u.chain).flatMap fun b ↦
      b.transactions.map fun tx ↦ tx.getHash env.sha3).Nodup := by
  have hnone : executedBlocks r.chain = [] := by
    unfold executedBlocks
    rw [hqueue, hcommitted]
    rfl
  have hstart : AllRecorded env r := by
    refine ⟨fun n b hb ↦ ?_, ⟨?_, ?_, ?_, ?_, ?_⟩⟩
    · simp [hcache] at hb
    · simp [hqueue]
    · simp [hqueue]
    · simp [hcommitted]
    · simp [hnone]
    · simp [hnone]
  have hall : AllRecorded env u := by
    induction hrun with
    | start => exact hstart
    | step _ htakes hstep ih => exact ih.perform hcodec htakes hstep
  exact hall.executed.once

/-- Two transfers of different senders. -/
def twoTransfers : Block := transferBlock [openTransfer 0 2 2, openTransfer 0 1 1]

theorem executes_once_transfers :
    executedBlocks (afterMessage openEnv fundedRelay twoTransfers).chain = [twoTransfers] ∧
      ((executedBlocks (afterMessage openEnv fundedRelay twoTransfers).chain).flatMap fun b ↦
        b.transactions.map fun tx ↦ tx.getHash openEnv.sha3).Nodup := by
  have hevaluated : (perform openEnv (.blockMessage twoTransfers) fundedRelay).1.isOk = true ∧
      (perform openEnv .work (perform openEnv (.blockMessage twoTransfers) fundedRelay).2).1.isOk =
        true ∧
      executedBlocks (afterMessage openEnv fundedRelay twoTransfers).chain = [twoTransfers] := by
    decide +kernel
  have hnext : (perform openEnv (.blockMessage twoTransfers) fundedRelay).2.chain.nextBlock.1 =
        some twoTransfers ∧
      (doProcessBlock openEnv twoTransfers (addToRollbackState openEnv twoTransfers
        (perform openEnv (.blockMessage twoTransfers) fundedRelay).2.chain.nextBlock.2).2).1.isOk =
          true := by
    decide +kernel
  have hcodec : ReadsBack openEnv.sha3 openEnv.codec := by
    intro tx v hv hhash
    cases hv
    exact hhash
  refine ⟨hevaluated.2.2, executes_once openEnv fundedRelay _ hcodec rfl rfl rfl
    (reaches_afterMessage ?_ ?_ ⟨hevaluated.1, hevaluated.2.1⟩)⟩
  · intro hwork
    cases hwork
  · intro _ block hblock
    rw [hnext.1] at hblock
    cases hblock
    refine ⟨fun _ ↦ by decide +kernel, ?_, fun s hs ↦ ?_⟩
    · unfold Proper
      decide +kernel
    · have hafter := hnext.2
      rw [hs] at hafter
      exact hafter

def takingCalls : List Call :=
  [.status .producer, .begins 1538352000000, .rpcTx (openTransfer 0 2 2), .takes]

def takenOnce : Relay := performAll tailEnv idleRelay takingCalls

theorem foreign_ne_transfer (k : ℕ) :
    (foreignTx k).getHash tailEnv.sha3 ≠ (openTransfer 0 2 2).getHash tailEnv.sha3 := by
  intro heq
  obtain ⟨p, hp⟩ := foreignTx_content k
  have hlast : ((foreignTx k).getHash tailEnv.sha3).toNat % 256 = 128 := by
    rw [tailEnv_sha3]
    change (BitVec.ofNat 256 (BigEndian.fromBigEndian (foreignTx k).content)).toNat % 256 = 128
    rw [hp, BigEndian.fromBigEndian_append_singleton, BitVec.toNat_ofNat,
      show (0x80 : UInt8).toNat = 128 from rfl]
    omega
  rw [heq] at hlast
  revert hlast
  decide +kernel

theorem takenOnce_evaluated :
    allOk tailEnv idleRelay takingCalls = true ∧
      takenOnce.historyTxCache = [(openTransfer 0 2 2).getHash tailEnv.sha3] ∧
      takenOnce.producer = .assembling (assembly [openTransfer 0 2 2]) 1 ∧
      takenOnce.working = true ∧
      (preProcessTx tailEnv (openTransfer 0 2 2) takenOnce.chain).1.isOk = true := by
  decide +kernel

def twiceChain : BlockChain :=
  (checkTransactionNotExisted tailEnv ((openTransfer 0 2 2).getHash tailEnv.sha3)
    (cacheTx (openTransfer 0 2 2)
      (preProcessTx tailEnv (openTransfer 0 2 2) takenOnce.chain).2).getTransactionFromCache.2).2

theorem taken_again :
    (cacheTx (openTransfer 0 2 2)
        (preProcessTx tailEnv (openTransfer 0 2 2) takenOnce.chain).2).getTransactionFromCache.1 =
      some (openTransfer 0 2 2) ∧
    (checkTransactionNotExisted tailEnv ((openTransfer 0 2 2).getHash tailEnv.sha3)
      (cacheTx (openTransfer 0 2 2)
        (preProcessTx tailEnv (openTransfer 0 2 2)
          takenOnce.chain).2).getTransactionFromCache.2).1.toOption = some true ∧
    twiceChain.txCache.toList.head? = none := by
  decide +kernel

def twiceBlock : Block :=
  (((assembly [openTransfer 0 2 2]).addTransaction (openTransfer 0 2 2)).setRoots
    tailEnv.sha3).sign tailEnv.sha3 tailEnv.sign

theorem twiceBlock_executed :
    (doWork tailEnv (processProducerBlock twiceBlock twiceChain).2).1.isOk = true ∧
      ((executedBlocks (doWork tailEnv (processProducerBlock twiceBlock twiceChain).2).2).map
        Block.transactions) = [[openTransfer 0 2 2, openTransfer 0 2 2]] := by
  decide +kernel

/-- A transaction that is forgotten while it waits in a block is taken and executed twice. -/
theorem executed_twice :
    ∃ u, Reaches tailEnv (fun _ _ ↦ True) idleRelay u ∧ executedBlocks idleRelay.chain = [] ∧
      (executedBlocks u.chain).map Block.transactions =
        [[openTransfer 0 2 2, openTransfer 0 2 2]] ∧
      ¬ ((executedBlocks u.chain).flatMap fun b ↦
        b.transactions.map fun tx ↦ tx.getHash tailEnv.sha3).Nodup := by
  obtain ⟨hok, hhistory, hproducer, hworking, hpre⟩ := takenOnce_evaluated
  obtain ⟨htake, habsent, hempty⟩ := taken_again
  obtain ⟨hwork, hexecuted⟩ := twiceBlock_executed
  have hstart : Reaches tailEnv (fun _ _ ↦ True) idleRelay takenOnce :=
    reaches_performAll (fun _ _ _ ↦ trivial) .start hok
  unfold twiceChain at hempty hwork hexecuted
  unfold twiceBlock at hwork hexecuted
  obtain ⟨u, hreaches, hchain⟩ := reaches_replayed 1538352000100 hstart hhistory
    foreign_ne_transfer hproducer hworking (Eff.eq_ok_of_isOk hpre) htake
    (Eff.eq_ok_of_toOption habsent) hempty (by decide) (Eff.eq_ok_of_isOk hwork)
  rw [← hchain] at hexecuted
  refine ⟨u, hreaches, rfl, hexecuted, fun hnodup ↦ ?_⟩
  rw [← List.flatMap_map Block.transactions (List.map fun tx ↦ tx.getHash tailEnv.sha3),
    hexecuted] at hnodup
  exact (List.nodup_cons.mp hnodup).1 List.mem_cons_self

end Relay

end GseNetwork.Chain
