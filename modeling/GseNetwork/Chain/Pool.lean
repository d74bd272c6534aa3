import GseNetwork.Chain.Displacement

namespace GseNetwork.Chain

open GseNetwork.Core GseNetwork.Foundation GseNetwork.Storage
open BlockChain Relation

variable {env : Env} {block : Block} {tx : Transaction}

def OnChain (env : Env) (tx : Transaction) (s : BlockChain) : Prop :=
  (∃ i ∈ s.latestBlock.transactions, i.getHash env.sha3 = tx.getHash env.sha3) ∨
    (isExistInRepo env tx s).1 = .ok true

section TxCache

variable {s t : BlockChain}

def Pooled (tx : Transaction) (s : BlockChain) : Prop :=
  s.txCache[tx.timestamp.toInt]? = some tx

theorem Pooled.of_eq (h : Pooled tx s) (heq : t.txCache = s.txCache) : Pooled tx t := by
  unfold Pooled
  rw [heq]
  exact h

theorem Checks.txCache_eq (h : Checks env s t) : t.txCache = s.txCache := by
  cases h <;> rfl

theorem checks_txCache_eq (h : ReflTransGen (Checks env) s t) : t.txCache = s.txCache := by
  induction h with
  | refl => rfl
  | tail _ hstep ih => exact hstep.txCache_eq.trans ih

theorem Prepares.pool_eq (h : Prepares env block s t) :
    t.txCache = s.txCache ∧ t.latestBlock = s.latestBlock := by
  cases h with
  | lookup tx =>
    rw [isExistInRepo_state]
    exact ⟨rfl, rfl⟩
  | active => exact ⟨rfl, rfl⟩
  | record => exact ⟨rfl, rfl⟩

def Settled (env : Env) (tx : Transaction) (block : Block) (s : BlockChain) : Prop :=
  Pooled tx s ∨ s.latestBlock = block ∧
    ∃ i ∈ block.transactions, i.getHash env.sha3 = tx.getHash env.sha3

theorem Settled.of_eq (h : Settled env tx block s) (hcache : t.txCache = s.txCache)
    (hlatest : t.latestBlock = s.latestBlock) : Settled env tx block t :=
  h.imp (fun hpool ↦ hpool.of_eq hcache) fun hlast ↦ ⟨hlatest.trans hlast.1, hlast.2⟩

theorem settled_done (h : Settled env tx block s) :
    Settled env tx block { eraseSolicitedTx env block s.setDone with
      latestBlockNumber := block.getNumber
      latestBlock := block } := by
  rcases h with hpool | hlast
  · by_cases hmem : ∃ i ∈ block.transactions, i.getHash env.sha3 = tx.getHash env.sha3
    · exact Or.inr ⟨rfl, hmem⟩
    · left
      change (s.txCache.filter _)[tx.timestamp.toInt]? = some tx
      rw [Std.ExtTreeMap.getElem?_filter', show s.txCache[tx.timestamp.toInt]? = some tx from hpool,
        Option.filter_some, if_pos]
      simpa using hmem
  · exact Or.inr ⟨rfl, hlast.2⟩

theorem Completes.settled (hstep : Completes env block s t) (h : Settled env tx block s) :
    Settled env tx block t := by
  cases hstep with
  | confirm =>
    unfold sendConfirmation
    split_ifs <;> exact h
  | schedule =>
    unfold updateSchedule
    rw [Eff.get_bind_apply]
    cases hlist : Repository.getProducerList s.dbc (stack s.memoryQueue) <;> exact h
  | prune => exact h
  | scheduled => exact h
  | bonus => exact h
  | done => exact settled_done h

theorem Passes.settled (hstep : Passes env block s t) (h : Settled env tx block s) :
    Settled env tx block t := by
  cases hstep with
  | index => exact h
  | commit hcommit => cases hcommit <;> exact h
  | process =>
    exact doProcessBlock_invariant
      (fun _ _ hstep hs ↦ hs.of_eq hstep.pool_eq.1 hstep.pool_eq.2) (fun _ hs ↦ hs)
      (fun _ hs ↦ hs) (fun _ _ hstep hs ↦ hstep.settled hs) (fun _ hs ↦ hs) h
  | undo hundo => cases hundo <;> exact h
  | head => exact h

/-- The worker thread takes a transaction out of the cache only with a block that carries it. -/
theorem doWork_settled (env : Env) (h : Pooled tx s) :
    Pooled tx (doWork env s).2 ∨ OnChain env tx (doWork env s).2 := by
  obtain ⟨cache, hnext, -⟩ := nextBlock_eq s
  have hpool : Pooled tx s.nextBlock.2 := h.of_eq (by rw [hnext])
  rcases doWork_steps env s with ⟨heq, -⟩ | ⟨block, -, hsteps⟩
  · rw [heq]
    exact Or.inl hpool
  · have hsettled : Settled env tx block (doWork env s).2 :=
      steps_invariant (fun _ _ hstep ht ↦ hstep.settled ht) hsteps (Or.inl hpool)
    refine hsettled.imp_right fun hlast ↦ Or.inl ?_
    rw [hlast.1]
    exact hlast.2

end TxCache

def Call.IsMessage : Call → Prop
  | .work | .begins _ | .takes | .finishes _ => False
  | _ => True

namespace Relay

variable {r t u : Relay} {call : Call}

/-- Where an accepted transaction is as long as it has not been executed: in the cache, in the
block that `doWork` is filling, or in a block that was handed out. -/
inductive Kept (tx : Transaction) (r : Relay) : Prop
  | pooled : Pooled tx r.chain → Kept tx r
  | assembling {block : Block} {rounds : ℕ} :
      r.producer = .assembling block rounds → tx ∈ block.transactions → Kept tx r
  | produced {block : Block} : block ∈ r.produced → tx ∈ block.transactions → Kept tx r

/-- What does not lose the transaction: a step of the producer server that can decode the
transactions of the database, and the end of a block within its time if it carries the
transaction. -/
structure Spares (tx : Transaction) (r : Relay) (call : Call) : Prop where
  decodes : call = .takes → ∀ id, ∃ i, r.chain.dbc.getTransaction id = .ok i
  inTime : ∀ timestampEnd block rounds, call = .finishes timestampEnd →
    r.producer = .assembling block rounds → tx ∈ block.transactions →
    inTime block.getTimestamp timestampEnd = true

structure Beside (tx : Transaction) (r t : Relay) : Prop where
  producer_eq : t.producer = r.producer
  produced_eq : t.produced = r.produced
  pooled : Pooled tx r.chain → Pooled tx t.chain

theorem Beside.refl (r : Relay) : Beside tx r r := ⟨rfl, rfl, fun h ↦ h⟩

theorem Beside.trans {r t u : Relay} (h₁ : Beside tx r t) (h₂ : Beside tx t u) : Beside tx r u :=
  ⟨h₂.producer_eq.trans h₁.producer_eq, h₂.produced_eq.trans h₁.produced_eq,
    fun h ↦ h₂.pooled (h₁.pooled h)⟩

theorem Kept.beside (h : Kept tx r) (hbeside : Beside tx r t) : Kept tx t := by
  cases h with
  | pooled hpool => exact .pooled (hbeside.pooled hpool)
  | assembling hproducer hmem => exact .assembling (hbeside.producer_eq.trans hproducer) hmem
  | produced hblock hmem => exact .produced (hbeside.produced_eq ▸ hblock) hmem

theorem cacheTx_keeps {s : BlockChain} (h : Pooled tx s) (i : Transaction) :
    Pooled tx (cacheTx i s) := by
  change (s.txCache.insertIfNew i.timestamp.toInt i)[tx.timestamp.toInt]? = some tx
  rw [Std.ExtTreeMap.getElem?_insertIfNew]
  split_ifs with hnew
  · have hmem : tx.timestamp.toInt ∈ s.txCache :=
      Std.ExtTreeMap.mem_iff_isSome_getElem?.mpr (by rw [show _ = _ from h]; rfl)
    rw [Std.LawfulEqCmp.eq_of_compare hnew.1] at hnew
    exact absurd hmem hnew.2
  · exact h

theorem preProcessTx_pooled (env : Env) {s : BlockChain} (h : Pooled tx s) (i : Transaction) :
    Pooled tx (preProcessTx env i s).2 :=
  h.of_eq (checks_txCache_eq (preProcessTx_steps env i s))

theorem acceptTx_beside (i : Transaction) {handler : Exception → RelayM Bool}
    (hhandler : ∀ e r, (handler e r).1 ≠ .ok true ∧ (handler e r).2 = r) (r : Relay) :
    Beside tx r (acceptTx env i handler r).2 := by
  rcases acceptTx_cases env i hhandler r with heq | ⟨s, -, hpre, heq⟩ | ⟨e, s, hpre, -, heq⟩
  · rw [heq]
    exact .refl r
  · rw [heq]
    refine ⟨rfl, rfl, fun h ↦ cacheTx_keeps ?_ i⟩
    have hpool := preProcessTx_pooled env h i
    rwa [hpre] at hpool
  · rw [heq]
    refine ⟨rfl, rfl, fun h ↦ ?_⟩
    have hpool := preProcessTx_pooled env h i
    rwa [hpre] at hpool

theorem acceptBlock_beside (env : Env) (tx : Transaction) (block : Block) (r : Relay) :
    Beside tx r (acceptBlock env block r).2 := by
  have hpre := checks_txCache_eq (preProcessBlock_steps env block r.chain)
  rcases acceptBlock_cases env block r with ⟨s, hrun, heq⟩ | ⟨e, s, hrun, -, heq⟩
  · rw [hrun] at hpre
    rw [heq]
    exact ⟨rfl, rfl, fun h ↦ h.of_eq hpre⟩
  · rw [hrun] at hpre
    rw [heq]
    exact ⟨rfl, rfl, fun h ↦ h.of_eq hpre⟩

theorem processReplyBlocks_beside (blocks : List Block) :
    Eff.Keeps (Beside tx) (processReplyBlocks env blocks) := by
  have htrans : ∀ r t u : Relay, Beside tx r t → Beside tx t u → Beside tx r u :=
    fun _ _ _ ↦ Beside.trans
  refine Eff.keeps_forEach Beside.refl htrans blocks fun block _ ↦ ?_
  exact Eff.Keeps.bind htrans (acceptBlock_beside env tx _) fun _ ↦ Eff.keeps_pure Beside.refl _

theorem message_beside (hcall : call.IsMessage) (r : Relay) :
    Beside tx r (perform env call r).2 := by
  cases call with
  | rpcTx i =>
    change Beside tx r (dispatch (addRPCTx env i) r).2
    rw [dispatch_state]
    exact acceptTx_beside i (fun e r ↦ ⟨fun h ↦ (by cases h), rfl⟩) r
  | txMessage i =>
    change Beside tx r (dispatch (processTxMessage env i) r).2
    rw [dispatch_state]
    refine acceptTx_beside i (fun e r ↦ ?_) r
    split_ifs
    · exact ⟨fun h ↦ (by cases h), rfl⟩
    · exact ⟨fun h ↦ (by cases h), rfl⟩
  | blockMessage block =>
    change Beside tx r (dispatch (processBlockMessage env block) r).2
    rw [dispatch_state]
    unfold processBlockMessage
    rw [Eff.get_bind_apply]
    split_ifs
    · exact .refl r
    · exact .refl r
    · rw [Eff.modify_bind_apply]
      have hbeside := acceptBlock_beside env tx block { r with
        historyBroadcastBlockCache :=
          pushFixed 8 r.historyBroadcastBlockCache (block.getHash env.sha3) }
      exact ⟨hbeside.producer_eq, hbeside.produced_eq, hbeside.pooled⟩
  | replyBlocks blocks =>
    change Beside tx r (dispatch (processReplyBlocks env blocks) r).2
    rw [dispatch_state]
    exact processReplyBlocks_beside blocks r
  | confirmation hc => exact ⟨rfl, rfl, fun h ↦ h⟩
  | blockState number confirmations => exact ⟨rfl, rfl, fun h ↦ h⟩
  | status status => exact ⟨rfl, rfl, fun h ↦ h⟩
  | work | begins | takes | finishes => exact hcall.elim

theorem startAssembly_kept (timestamp : Int64) (h : Kept tx r) :
    Kept tx (startAssembly env timestamp r) := by
  unfold startAssembly
  cases hproducer : r.producer with
  | idle =>
    have hidle : ∀ {t : Relay}, t.chain = r.chain → t.produced = r.produced → Kept tx t := by
      intro t hchain hproduced
      cases h with
      | pooled hpool => exact .pooled (by rw [hchain]; exact hpool)
      | assembling hassembling => exact absurd (hproducer.symm.trans hassembling) (by simp)
      | produced hblock hmem => exact .produced (hproduced ▸ hblock) hmem
    dsimp only
    unfold beginBlock
    dsimp only
    split_ifs <;> exact hidle rfl rfl
  | assembling block rounds => exact h
  | stopped => exact h

theorem getTransactionFromCache_pooled {s : BlockChain} (h : Pooled tx s) :
    Pooled tx s.getTransactionFromCache.2 ∨ s.getTransactionFromCache.1 = some tx := by
  unfold getTransactionFromCache
  cases hhead : s.txCache.toList.head? with
  | none => exact Or.inl h
  | some item =>
    obtain ⟨timestamp, i⟩ := item
    have hmem : s.txCache[timestamp]? = some i :=
      Std.ExtTreeMap.mem_toList_iff_getElem?_eq_some.mp (List.mem_of_head? hhead)
    by_cases heq : timestamp = tx.timestamp.toInt
    · right
      rw [heq] at hmem
      exact hmem.symm.trans h
    · left
      change (s.txCache.erase timestamp)[tx.timestamp.toInt]? = some tx
      rw [ReadThrough.getElem?_erase, if_neg heq]
      exact h

theorem getTransactionFromCache_eq (s : BlockChain) :
    ∃ cache, s.getTransactionFromCache.2 = { s with txCache := cache } := by
  unfold getTransactionFromCache
  cases s.txCache.toList.head? with
  | none => exact ⟨s.txCache, rfl⟩
  | some item => exact ⟨_, rfl⟩

/-- The two look-ups of the code are one, and among decodable records it answers. -/
theorem checkTransactionNotExisted_eq (env : Env) {s : BlockChain}
    (hdecodes : ∀ id, ∃ i, s.dbc.getTransaction id = .ok i) (tx : Transaction)
    (cache : Std.ExtTreeMap ℤ Transaction) : ∃ absent queue,
      (isExistInRepo env tx s).1 = .ok (!absent) ∧
        checkTransactionNotExisted env (tx.getHash env.sha3) { s with txCache := cache } =
          (.ok absent, { s with txCache := cache, memoryQueue := queue }) := by
  obtain ⟨item, hitem⟩ := ReadThrough.Table.exists_view_eq_ok
    (t := transactionTable env.sha3) (hdecodes (tx.getHash env.sha3))
    ((stack s.memoryQueue).map Repository.cacheTransaction)
  have hseek : ∀ u : BlockChain, u.dbc = s.dbc → u.memoryQueue = s.memoryQueue → ∃ queue,
      onRepo (fun db ↦ Repository.getTransaction env.sha3 db (tx.getHash env.sha3)) u =
        (.ok item, { u with memoryQueue := queue }) := by
    intro u hdbc hqueue
    rw [← hdbc, ← hqueue] at hitem
    exact ⟨_, Prod.ext hitem rfl⟩
  obtain ⟨queue, hrun⟩ := hseek { s with txCache := cache } rfl rfl
  obtain ⟨_, hfound⟩ := hseek s rfl rfl
  refine ⟨item.equal env.sha3 emptyTransaction, queue, ?_, ?_⟩
  · unfold isExistInRepo
    rw [Eff.bind_ok hfound]
    rfl
  · unfold checkTransactionNotExisted
    rw [Eff.bind_ok hrun]
    rfl

/-- A transaction taken from the cache goes into the block unless the chain has it. -/
theorem takeTransaction_kept {block : Block} {rounds : ℕ}
    (hdecodes : ∀ id, ∃ i, r.chain.dbc.getTransaction id = .ok i)
    (hproducer : r.producer = .assembling block rounds) (h : Kept tx r) :
    Kept tx (takeTransaction env block rounds r).2 ∨ OnChain env tx r.chain := by
  have hpooled := fun hpool : Pooled tx r.chain ↦ getTransactionFromCache_pooled hpool
  obtain ⟨cache, hcache⟩ := getTransactionFromCache_eq r.chain
  unfold takeTransaction
  rw [Eff.get_bind_apply, Eff.modify_bind_apply]
  rw [hcache] at hpooled ⊢
  cases htaken : r.chain.getTransactionFromCache.1 with
  | none =>
    left
    cases h with
    | pooled hpool =>
      exact .pooled ((hpooled hpool).resolve_right (by rw [htaken]; simp))
    | assembling heq hmem =>
      obtain ⟨rfl, -⟩ := ProducerState.assembling.inj (hproducer.symm.trans heq)
      exact .assembling rfl hmem
    | produced hblock hmem => exact .produced hblock hmem
  | some i =>
    obtain ⟨absent, queue, hfound, hcheck⟩ :=
      checkTransactionNotExisted_eq env hdecodes i cache
    have hrun : onChain (checkTransactionNotExisted env (i.getHash env.sha3))
        { r with chain := { r.chain with txCache := cache } } =
          (.ok absent, { r with
            chain := { r.chain with txCache := cache, memoryQueue := queue } }) := by
      unfold onChain
      rw [Eff.zoom_apply, hcheck]
    dsimp only
    unfold Eff.tryCatch
    rw [Eff.bind_ok hrun]
    -- the block now holds what it held, and the transaction unless it was found
    have hblock : ∀ x ∈ block.transactions,
        x ∈ (if absent then block.addTransaction i else block).transactions := by
      intro x hx
      split_ifs
      · exact List.mem_append_left _ hx
      · exact hx
    cases h with
    | pooled hpool =>
      rcases hpooled hpool with hstays | hhead
      · exact Or.inl (.pooled hstays)
      · rw [htaken, Option.some.injEq] at hhead
        cases absent with
        | true =>
          exact Or.inl (.assembling rfl (List.mem_append_right _ (by simp [hhead])))
        | false => exact Or.inr (Or.inr (hhead ▸ hfound))
    | assembling heq hmem =>
      obtain ⟨rfl, -⟩ := ProducerState.assembling.inj (hproducer.symm.trans heq)
      exact Or.inl (.assembling rfl (hblock tx hmem))
    | produced hproduced hmem => exact Or.inl (.produced hproduced hmem)

theorem endAssembly_kept (timestampEnd : Int64) (hspares : Spares tx r (.finishes timestampEnd))
    (h : Kept tx r) : Kept tx (endAssembly env timestampEnd r) := by
  unfold endAssembly
  cases hproducer : r.producer with
  | idle => exact h
  | stopped => exact h
  | assembling block rounds =>
    dsimp only
    split_ifs
    · exact h
    · unfold finishBlock
      dsimp only
      split_ifs with htime
      · cases h with
        | pooled hpool =>
          refine .pooled ?_
          dsimp only
          unfold processProducerBlock
          split_ifs <;> exact hpool
        | assembling heq hmem =>
          obtain ⟨rfl, -⟩ := ProducerState.assembling.inj (hproducer.symm.trans heq)
          exact .produced (List.mem_append_right _ (List.mem_singleton_self _)) hmem
        | produced hproduced hmem => exact .produced (List.mem_append_left _ hproduced) hmem
      · cases h with
        | pooled hpool => exact .pooled hpool
        | assembling heq hmem =>
          obtain ⟨rfl, -⟩ := ProducerState.assembling.inj (hproducer.symm.trans heq)
          exact absurd (hspares.inTime timestampEnd _ _ rfl hproducer hmem) htime
        | produced hproduced hmem => exact .produced hproduced hmem

theorem perform_kept (env : Env) (hspares : Spares tx r call) (h : Kept tx r) :
    Kept tx (perform env call r).2 ∨ OnChain env tx r.chain ∨
      OnChain env tx (perform env call r).2.chain := by
  by_cases hmessage : call.IsMessage
  · exact Or.inl (h.beside (message_beside hmessage r))
  · cases call with
    | work =>
      rcases perform_work env r with heq | ⟨working, heq⟩
      · rw [heq]
        exact Or.inl h
      · rw [heq]
        cases h with
        | pooled hpool =>
          exact (doWork_settled env hpool).imp .pooled fun hchain ↦ Or.inr hchain
        | assembling hproducer hmem => exact Or.inl (.assembling hproducer hmem)
        | produced hproduced hmem => exact Or.inl (.produced hproduced hmem)
    | begins timestamp => exact Or.inl (startAssembly_kept timestamp h)
    | takes =>
      change Kept tx (continueAssembly env r).2 ∨ _
      unfold continueAssembly
      rw [Eff.get_bind_apply]
      cases hproducer : r.producer with
      | idle => exact Or.inl h
      | stopped => exact Or.inl h
      | assembling block rounds =>
        dsimp only
        split_ifs
        · exact (takeTransaction_kept (hspares.decodes rfl) hproducer h).imp_right Or.inl
        · exact Or.inl h
    | finishes timestampEnd => exact Or.inl (endAssembly_kept timestampEnd hspares h)
    | _ => exact absurd trivial hmessage

theorem acceptTx_pooled {handler : Exception → RelayM Bool}
    (hfree : r.chain.txCache[tx.timestamp.toInt]? = none)
    (h : acceptTx env tx handler r = (.ok true, t))
    (hhandler : ∀ e r, (handler e r).1 ≠ .ok true ∧ (handler e r).2 = r) : Pooled tx t.chain := by
  rcases acceptTx_cases env tx hhandler r with heq | ⟨s, -, hpre, heq⟩ | ⟨e, s, -, hne, -⟩
  · cases heq.symm.trans h
  · have hcache := checks_txCache_eq (preProcessTx_steps env tx r.chain)
    rw [hpre] at hcache
    have ht := congrArg (fun r : Relay ↦ r.chain) (Prod.mk.inj (heq.symm.trans h)).2
    rw [← ht]
    change (s.txCache.insertIfNew tx.timestamp.toInt tx)[tx.timestamp.toInt]? = some tx
    rw [show s.txCache = r.chain.txCache from hcache, Std.ExtTreeMap.getElem?_insertIfNew, if_pos]
    refine ⟨Std.ReflCmp.compare_self, fun hin ↦ ?_⟩
    rw [Std.ExtTreeMap.mem_iff_isSome_getElem?, hfree] at hin
    cases hin
  · rw [h] at hne
    exact absurd rfl hne

/-- The transaction has been on the chain in some state between `r` and `u`. -/
def WasOnChain (env : Env) (tx : Transaction) (r u : Relay) : Prop :=
  ∃ t, Reaches env (Spares tx) r t ∧ Reaches env (Spares tx) t u ∧ OnChain env tx t.chain

theorem Reaches.trans {P : Relay → Call → Prop} (h₁ : Reaches env P r t)
    (h₂ : Reaches env P t u) : Reaches env P r u := by
  induction h₂ with
  | start => exact h₁
  | step _ hcall hstep ih => exact ih.step hcall hstep

/-- A transaction that was accepted when the cache held none of its time is kept, or has been on
the chain, in every state that calls which spare it lead to. -/
theorem accepted_tx_kept (env : Env) (tx : Transaction) (r r' : Relay)
    (haccept : addRPCTx env tx r = (.ok true, r') ∨ processTxMessage env tx r = (.ok true, r'))
    (hfree : r.chain.txCache[tx.timestamp.toInt]? = none) :
    ∀ u, Reaches env (Spares tx) r' u → Kept tx u ∨ WasOnChain env tx r' u := by
  have hpool : Pooled tx r'.chain := by
    rcases haccept with hrpc | hmessage
    · exact acceptTx_pooled hfree hrpc fun e r ↦ ⟨fun h ↦ (by cases h), rfl⟩
    · refine acceptTx_pooled hfree hmessage fun e r ↦ ?_
      split_ifs
      · exact ⟨fun h ↦ (by cases h), rfl⟩
      · exact ⟨fun h ↦ (by cases h), rfl⟩
  intro u hrun
  induction hrun with
  | start => exact Or.inl (.pooled hpool)
  | @step t u call hreach hcall hstep ih =>
    have hu : (perform env call t).2 = u := by rw [hstep]
    rcases ih with hkept | ⟨v, hv, hvt, hchain⟩
    · have hkeep := perform_kept env hcall hkept
      rw [hu] at hkeep
      refine hkeep.imp_right fun hchain ↦ ?_
      rcases hchain with hbefore | hafter
      · exact ⟨t, hreach, Reaches.start.step hcall hstep, hbefore⟩
      · exact ⟨u, hreach.step hcall hstep, .start, hafter⟩
    · exact Or.inr ⟨v, hv, hvt.step hcall hstep, hchain⟩

def idleTx (data : Bytes) : Transaction where
  chainID := 0
  type := 7
  sender := 1
  recipient := 0
  timestamp := 1538352000000
  data := data
  value := 0
  signature := { r := 1 }

theorem accepted_tx_kept_idle :
    ∃ r', addRPCTx openEnv (idleTx [1]) openRelay = (.ok true, r') ∧
      ∀ u, Reaches openEnv (Spares (idleTx [1])) r' u →
        Kept (idleTx [1]) u ∨ WasOnChain openEnv (idleTx [1]) r' u := by
  have haccept : (addRPCTx openEnv (idleTx [1]) openRelay).1.toOption = some true := by
    decide +kernel
  have hrun := Eff.eq_ok_of_toOption haccept
  exact ⟨_, hrun, accepted_tx_kept openEnv (idleTx [1]) openRelay _ (.inl hrun)
    (by decide +kernel)⟩

/-- Of two accepted transactions with one time the second is nowhere. -/
theorem accepted_tx_lost :
    (addRPCTx openEnv (idleTx [1]) openRelay).1.toOption = some true ∧
      (addRPCTx openEnv (idleTx [2]) (addRPCTx openEnv (idleTx [1]) openRelay).2).1.toOption =
        some true ∧
      let r := (addRPCTx openEnv (idleTx [2]) (addRPCTx openEnv (idleTx [1]) openRelay).2).2
      r.chain.txCache.toList = [(1538352000000, idleTx [1])] ∧
        r.produced = [] ∧ r.chain.latestBlock.transactions = [] ∧
        (isExistInRepo openEnv (idleTx [2]) r.chain).1.toOption = some false := by
  decide +kernel

end Relay

end GseNetwork.Chain
