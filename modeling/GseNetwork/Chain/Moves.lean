import GseNetwork.Chain.Calls
import GseNetwork.Chain.Passes

namespace GseNetwork.Chain

open GseNetwork.Core GseNetwork.Foundation GseNetwork.Storage
open BlockChain Relation

variable (env : Env)

/-- What the checks of a message do to a node: look-ups, and transactions tried out on a child
repository. -/
inductive Checks : BlockChain → BlockChain → Prop
  | seek (s : BlockChain) (id : TxID) :
      Checks s (onRepo (fun db ↦ Repository.getTransaction env.sha3 db id) s).2
  | lookup (s : BlockChain) (id : TxID) :
      Checks s (onChild (fun db ↦ Repository.getTransaction env.sha3 db id) s).2
  | trial (s : BlockChain) (tx : Transaction) :
      Checks s (onChild (fun db ↦ Runtime.excute env.sha3 db 0 tx) s).2
  | trials (s : BlockChain) (txs : List Transaction) :
      Checks s (onChild (fun db ↦
        Eff.forEach txs fun tx ↦ Runtime.excute env.sha3 db 0 tx) s).2

structure Checked (block : Block) : Prop where
  chainID_eq : block.blockHeader.chainID = env.chainID
  valid : Valid.validBlock env block = true
  noDuplicate : (block.transactions.map fun tx ↦ tx.getHash env.sha3).Nodup

namespace BlockChain

theorem isExistTx_steps (tx : Transaction) :
    Eff.Keeps (ReflTransGen (Checks env)) (isExistTx env tx) := by
  refine keeps_bind (keeps_still fun _ ↦ rfl) fun s ↦ ?_
  split_ifs
  · exact keeps_still fun _ ↦ rfl
  · exact keeps_bind (keeps_single fun s ↦ .lookup s _) fun _ ↦ keeps_still fun _ ↦ rfl

theorem preProcessTx_steps (tx : Transaction) :
    Eff.Keeps (ReflTransGen (Checks env)) (preProcessTx env tx) := by
  unfold preProcessTx
  split_ifs
  · exact keeps_still fun _ ↦ rfl
  · exact keeps_still fun _ ↦ rfl
  · refine keeps_bind (isExistTx_steps env tx) fun found ↦ ?_
    split_ifs
    · exact keeps_still fun _ ↦ rfl
    · exact keeps_single fun s ↦ .trial s tx

theorem isExistBlock_state (block : Block) (s : BlockChain) :
    (isExistBlock env block s).2 = s := by
  unfold isExistBlock
  rw [Eff.get_bind_apply]
  split_ifs
  · rfl
  · cases hget : Repository.getBlock env.sha3 s.dbc (block.getHash env.sha3)
      ({ block := emptyBlock } :: stack s.memoryQueue) <;> rfl

theorem preProcessBlock_steps (block : Block) :
    Eff.Keeps (ReflTransGen (Checks env)) (preProcessBlock env block) := by
  unfold preProcessBlock
  split_ifs
  · exact keeps_still fun _ ↦ rfl
  · exact keeps_still fun _ ↦ rfl
  · refine keeps_bind (keeps_still (isExistBlock_state env block)) fun found ↦ ?_
    split_ifs <;> exact keeps_still fun _ ↦ rfl
  · refine keeps_bind (keeps_still (isExistBlock_state env block)) fun found ↦ ?_
    split_ifs
    · exact keeps_still fun _ ↦ rfl
    · exact keeps_single fun s ↦ .trials s block.transactions

theorem preProcessBlock_ok {block : Block} {s t : BlockChain}
    (h : preProcessBlock env block s = (.ok (), t)) :
    Checked env block ∧ isExistBlock env block s = (.ok false, s) := by
  unfold preProcessBlock at h
  split_ifs at h with hchain hvalid hdup
  · cases h
  · cases h
  · obtain ⟨found, u, -, h⟩ := Eff.bind_eq_ok.mp h
    split_ifs at h <;> cases h
  · obtain ⟨found, u, hexist, h⟩ := Eff.bind_eq_ok.mp h
    have hu : u = s := by
      rw [← isExistBlock_state env block s, hexist]
    split_ifs at h with hfound
    · cases h
    · rw [hexist, hu, Bool.not_eq_true _ |>.mp hfound]
      refine ⟨⟨not_not.mp hchain, ?_, ?_⟩, rfl⟩
      · simpa using hvalid
      · simpa [checkDuplicateTx] using hdup

theorem preProcessTx_ok {tx : Transaction} {s t : BlockChain}
    (h : preProcessTx env tx s = (.ok (), t)) :
    tx.chainID = env.chainID ∧ Valid.validTransaction env tx = true ∧
      (isExistTx env tx s).1 = .ok false := by
  unfold preProcessTx at h
  split_ifs at h with hchain hvalid
  · cases h
  · cases h
  · obtain ⟨found, u, hexist, h⟩ := Eff.bind_eq_ok.mp h
    split_ifs at h with hfound
    · cases h
    · rw [hexist, Bool.not_eq_true _ |>.mp hfound]
      exact ⟨not_not.mp hchain, by simpa using hvalid, rfl⟩

end BlockChain

namespace Relay

/-- What a call other than `doWork` of the worker thread does to a node, step by step. -/
inductive Moves (call : Call) : Relay → Relay → Prop
  | checks {r : Relay} {s : BlockChain} : Checks env r.chain s → Moves call r { r with chain := s }
  | history (r : Relay) (txs : List TxID) (blocks : List BlockID) :
      Moves call r { r with historyTxCache := txs, historyBroadcastBlockCache := blocks }
  | tx (r : Relay) {tx : Transaction} :
      tx.chainID = env.chainID → Valid.validTransaction env tx = true →
      Moves call r { r with chain := cacheTx tx r.chain, relayed := r.relayed ++ [tx] }
  | block (r : Relay) {block : Block} : block ∈ call.blocks → Checked env block →
      Moves call r { r with chain := cacheBlock block r.chain, received := r.received ++ [block] }
  | index (r : Relay) (x : RollbackState) :
      Moves call r { r with chain := { r.chain with rollbackState := x } }
  | status (r : Relay) (x : BlockChainStatus) :
      Moves call r { r with chain := { r.chain with blockChainStatus := x } }
  | take (r : Relay) : Moves call r { r with chain := r.chain.getTransactionFromCache.2 }
  | producer (r : Relay) (x : ProducerState) (timestamp : ℤ) :
      Moves call r { r with producer := x, prevTimestamp := timestamp }
  | produce (r : Relay) (block : Block) :
      (∃ b : Block, block = (b.setRoots env.sha3).sign env.sha3 env.sign) →
      Moves call r { r with
        producer := .idle
        chain := (processProducerBlock block r.chain).2
        produced := r.produced ++ [block] }

variable {env} {call : Call}

theorem onChain_moves (call : Call) {α : Type} {m : ChainM α}
    (hm : Eff.Keeps (ReflTransGen (Checks env)) m) (r : Relay) :
    ReflTransGen (Moves env call) r (onChain m r).2 := by
  have hlift : ∀ {s t}, ReflTransGen (Checks env) s t → ∀ r : Relay, r.chain = s →
      ReflTransGen (Moves env call) r { r with chain := t } := by
    intro s t h
    induction h with
    | refl =>
      rintro r rfl
      exact .refl
    | tail _ hstep ih =>
      intro r hr
      exact (ih r hr).tail (.checks hstep)
  exact hlift (hm r.chain) r rfl

/-- An accepted block has been checked, and enters the cache; a refused one leaves no trace but
look-ups. -/
theorem acceptBlock_cases (env : Env) (block : Block) (r : Relay) :
    (∃ s, preProcessBlock env block r.chain = (.ok (), s) ∧
      acceptBlock env block r = (.ok true, { r with
        chain := cacheBlock block s
        received := r.received ++ [block] })) ∨
    (∃ e s, preProcessBlock env block r.chain = (.error e, s) ∧
      (acceptBlock env block r).1 ≠ .ok true ∧
      (acceptBlock env block r).2 = { r with chain := s }) := by
  unfold acceptBlock Eff.tryCatch
  rcases hpre : preProcessBlock env block r.chain with ⟨e | ⟨⟨⟩⟩, s⟩
  · refine Or.inr ⟨e, s, rfl, ?_⟩
    have hrun : onChain (preProcessBlock env block) r = (.error e, { r with chain := s }) := by
      unfold onChain
      rw [Eff.zoom_apply, hpre]
    rw [Eff.bind_error hrun]
    dsimp only
    split_ifs
    · exact ⟨fun h ↦ (by cases h), rfl⟩
    · exact ⟨fun h ↦ (by cases h), rfl⟩
  · refine Or.inl ⟨s, rfl, ?_⟩
    have hrun : onChain (preProcessBlock env block) r = (.ok (), { r with chain := s }) := by
      unfold onChain
      rw [Eff.zoom_apply, hpre]
    rw [Eff.bind_ok hrun]
    rfl

theorem acceptBlock_moves {block : Block} (hmem : block ∈ call.blocks) (r : Relay) :
    ReflTransGen (Moves env call) r (acceptBlock env block r).2 := by
  have hmoves := onChain_moves call (preProcessBlock_steps env block) r
  rcases acceptBlock_cases env block r with ⟨s, hpre, heq⟩ | ⟨e, s, hpre, -, heq⟩
  · unfold onChain at hmoves
    rw [Eff.zoom_apply, hpre] at hmoves
    rw [heq]
    exact hmoves.tail (.block _ hmem (preProcessBlock_ok env hpre).1)
  · unfold onChain at hmoves
    rw [Eff.zoom_apply, hpre] at hmoves
    rw [heq]
    exact hmoves

/-- A transaction is refused because of the history, or by the checks, or it enters the cache. -/
theorem acceptTx_cases (env : Env) (tx : Transaction) {handler : Exception → RelayM Bool}
    (hhandler : ∀ e r, (handler e r).1 ≠ .ok true ∧ (handler e r).2 = r) (r : Relay) :
    acceptTx env tx handler r = (.ok false, r) ∨
    (∃ s, tx.getHash env.sha3 ∉ r.historyTxCache ∧ preProcessTx env tx r.chain = (.ok (), s) ∧
      acceptTx env tx handler r = (.ok true, { rememberTx env tx r with
        chain := cacheTx tx s
        relayed := r.relayed ++ [tx] })) ∨
    (∃ e s, preProcessTx env tx r.chain = (.error e, s) ∧
      (acceptTx env tx handler r).1 ≠ .ok true ∧
      (acceptTx env tx handler r).2 = { rememberTx env tx r with chain := s }) := by
  unfold acceptTx
  rw [Eff.get_bind_apply]
  split_ifs with hknown
  · exact Or.inl rfl
  right
  rw [Eff.modify_bind_apply]
  rcases hpre : preProcessTx env tx r.chain with ⟨e | ⟨⟨⟩⟩, s⟩
  · have hrun : onChain (preProcessTx env tx) (rememberTx env tx r) =
        (.error e, { rememberTx env tx r with chain := s }) := by
      unfold onChain rememberTx
      rw [Eff.zoom_apply, hpre]
    refine Or.inr ⟨e, s, rfl, ?_⟩
    rw [Eff.tryCatch_error (Eff.bind_error hrun)]
    exact hhandler e _
  · have hrun : onChain (preProcessTx env tx) (rememberTx env tx r) =
        (.ok (), { rememberTx env tx r with chain := s }) := by
      unfold onChain rememberTx
      rw [Eff.zoom_apply, hpre]
    refine Or.inl ⟨s, hknown, rfl, ?_⟩
    exact Eff.tryCatch_ok (Eff.bind_ok hrun)

theorem acceptTx_moves (tx : Transaction) {handler : Exception → RelayM Bool}
    (hhandler : ∀ e r, (handler e r).1 ≠ .ok true ∧ (handler e r).2 = r) (r : Relay) :
    ReflTransGen (Moves env call) r (acceptTx env tx handler r).2 := by
  have hhistory : ReflTransGen (Moves env call) r (rememberTx env tx r) :=
    .single (.history r _ r.historyBroadcastBlockCache)
  have hmoves := onChain_moves call (preProcessTx_steps env tx) (rememberTx env tx r)
  unfold onChain at hmoves
  rw [Eff.zoom_apply] at hmoves
  change ReflTransGen (Moves env call) (rememberTx env tx r)
    { rememberTx env tx r with chain := (preProcessTx env tx r.chain).2 } at hmoves
  rcases acceptTx_cases env tx hhandler r with heq | ⟨s, -, hpre, heq⟩ | ⟨e, s, hpre, -, heq⟩
  · rw [heq]
  · rw [hpre] at hmoves
    obtain ⟨hchain, hvalid, -⟩ := preProcessTx_ok env hpre
    rw [heq]
    exact (hhistory.trans hmoves).tail (.tx _ hchain hvalid)
  · rw [hpre] at hmoves
    rw [heq]
    exact hhistory.trans hmoves

theorem processBlockMessage_moves (block : Block) (r : Relay) :
    ReflTransGen (Moves env (.blockMessage block)) r (processBlockMessage env block r).2 := by
  unfold processBlockMessage
  rw [Eff.get_bind_apply]
  split_ifs
  · exact .refl
  · exact .refl
  · rw [Eff.modify_bind_apply]
    exact ReflTransGen.head (.history r r.historyTxCache _)
      (acceptBlock_moves (List.mem_singleton_self block) _)

theorem keeps_relay {α β : Type} {m : RelayM α} {f : α → RelayM β}
    (hm : Eff.Keeps (ReflTransGen (Moves env call)) m)
    (hf : ∀ a, Eff.Keeps (ReflTransGen (Moves env call)) (f a)) :
    Eff.Keeps (ReflTransGen (Moves env call)) (m >>= f) :=
  Eff.Keeps.bind (fun _ _ _ h₁ h₂ ↦ h₁.trans h₂) hm hf

theorem processReplyBlocks_moves (blocks : List Block) :
    Eff.Keeps (ReflTransGen (Moves env (.replyBlocks blocks))) (processReplyBlocks env blocks) := by
  refine Eff.keeps_forEach (fun _ ↦ .refl) (fun _ _ _ h₁ h₂ ↦ h₁.trans h₂) blocks
    fun block hmem ↦ ?_
  refine keeps_relay (acceptBlock_moves ?_) fun _ ↦ Eff.keeps_pure (fun _ ↦ .refl) _
  exact List.mem_map_of_mem hmem

theorem dispatch_state {α : Type} (m : RelayM α) (r : Relay) : (dispatch m r).2 = (m r).2 := by
  unfold dispatch Eff.tryCatch
  rcases hrun : m r with ⟨e | a, t⟩
  · rw [Eff.bind_error hrun]
    rfl
  · rw [Eff.bind_ok hrun]
    rfl

theorem takeTransaction_moves (block : Block) (rounds : ℕ) (r : Relay) :
    ReflTransGen (Moves env call) r (takeTransaction env block rounds r).2 := by
  unfold takeTransaction
  rw [Eff.get_bind_apply, Eff.modify_bind_apply]
  refine ReflTransGen.head (.take r) ?_
  cases r.chain.getTransactionFromCache.1 with
  | none => exact .single (.producer _ _ r.prevTimestamp)
  | some tx =>
    dsimp only
    have hseek : Eff.Keeps (ReflTransGen (Checks env))
        (checkTransactionNotExisted env (tx.getHash env.sha3)) :=
      keeps_bind (keeps_single fun s ↦ .seek s _) fun _ ↦ keeps_still fun _ ↦ rfl
    have hmoves := onChain_moves call hseek { r with chain := r.chain.getTransactionFromCache.2 }
    unfold Eff.tryCatch
    rcases hrun : onChain (checkTransactionNotExisted env (tx.getHash env.sha3))
      { r with chain := r.chain.getTransactionFromCache.2 } with ⟨e | absent, t⟩
    · rw [hrun] at hmoves
      rw [Eff.bind_error hrun]
      exact hmoves.tail (.producer _ _ t.prevTimestamp)
    · rw [hrun] at hmoves
      rw [Eff.bind_ok hrun]
      exact hmoves.tail (.producer _ _ t.prevTimestamp)

theorem beginBlock_moves (timestamp : Int64) (r : Relay) :
    ReflTransGen (Moves env call) r (r.beginBlock env timestamp) := by
  unfold beginBlock
  dsimp only
  split_ifs
  · exact .refl
  · exact .single (.producer r r.producer _)
  · exact .single (.producer r _ _)

theorem finishBlock_moves (block : Block) (timestampEnd : Int64) (r : Relay) :
    ReflTransGen (Moves env call) r (r.finishBlock env block timestampEnd) := by
  unfold finishBlock
  dsimp only
  split_ifs
  · exact .single (.produce r _ ⟨block, rfl⟩)
  · exact .single (.producer r _ r.prevTimestamp)

theorem perform_moves (hcall : call ≠ .work) (r : Relay) :
    ReflTransGen (Moves env call) r (perform env call r).2 := by
  have hfalse : ∀ e (r : Relay), ((fun _ ↦ pure false : Exception → RelayM Bool) e r).1 ≠
      .ok true ∧ ((fun _ ↦ pure false : Exception → RelayM Bool) e r).2 = r :=
    fun e r ↦ ⟨fun h ↦ (by cases h), rfl⟩
  cases call with
  | rpcTx tx =>
    change ReflTransGen (Moves env (.rpcTx tx)) r (dispatch (addRPCTx env tx) r).2
    rw [dispatch_state]
    exact acceptTx_moves tx hfalse r
  | txMessage tx =>
    change ReflTransGen (Moves env (.txMessage tx)) r (dispatch (processTxMessage env tx) r).2
    rw [dispatch_state]
    refine acceptTx_moves tx (fun e r ↦ ?_) r
    split_ifs
    · exact ⟨fun h ↦ (by cases h), rfl⟩
    · exact ⟨fun h ↦ (by cases h), rfl⟩
  | blockMessage block =>
    change ReflTransGen (Moves env (.blockMessage block)) r
      (dispatch (processBlockMessage env block) r).2
    rw [dispatch_state]
    exact processBlockMessage_moves block r
  | replyBlocks blocks =>
    change ReflTransGen (Moves env (.replyBlocks blocks)) r
      (dispatch (processReplyBlocks env blocks) r).2
    rw [dispatch_state]
    exact processReplyBlocks_moves blocks r
  | confirmation hc => exact .single (.index r _)
  | blockState number confirmations => exact .single (.index r _)
  | status status => exact .single (.status r status)
  | work => exact absurd rfl hcall
  | begins timestamp =>
    change ReflTransGen (Moves env (.begins timestamp)) r (startAssembly env timestamp r)
    unfold startAssembly
    cases r.producer with
    | idle => exact beginBlock_moves timestamp r
    | assembling block rounds => exact .refl
    | stopped => exact .refl
  | takes =>
    change ReflTransGen (Moves env .takes) r (continueAssembly env r).2
    unfold continueAssembly
    rw [Eff.get_bind_apply]
    cases r.producer with
    | idle => exact .refl
    | assembling block rounds =>
      dsimp only
      split_ifs
      · exact takeTransaction_moves block rounds r
      · exact .refl
    | stopped => exact .refl
  | finishes timestampEnd =>
    change ReflTransGen (Moves env (.finishes timestampEnd)) r (endAssembly env timestampEnd r)
    unfold endAssembly
    cases r.producer with
    | idle => exact .refl
    | assembling block rounds =>
      dsimp only
      split_ifs
      · exact .refl
      · exact finishBlock_moves block timestampEnd r
    | stopped => exact .refl

theorem perform_work (env : Env) (r : Relay) :
    (perform env .work r).2 = r ∨
      ∃ working, (perform env .work r).2 =
        { r with chain := (doWork env r.chain).2, working := working } := by
  change (work env r).2 = r ∨ ∃ working, (work env r).2 =
    { r with chain := (doWork env r.chain).2, working := working }
  unfold work
  rw [Eff.get_bind_apply]
  split_ifs
  · right
    unfold Eff.tryCatch onChain
    rw [Eff.zoom_apply]
    rcases doWork env r.chain with ⟨e | ⟨⟨⟩⟩, s⟩
    · dsimp only
      split_ifs
      · exact ⟨r.working, rfl⟩
      · exact ⟨false, rfl⟩
    · exact ⟨r.working, rfl⟩
  · exact Or.inl rfl

end Relay

end GseNetwork.Chain
