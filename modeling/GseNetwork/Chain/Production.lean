import GseNetwork.Chain.Pool
import GseNetwork.Chain.TransactionViews

namespace GseNetwork.Chain

open GseNetwork.Core GseNetwork.Foundation GseNetwork.Storage
open BlockChain Relation

variable {env : Env} {block : Block} {s t : BlockChain}

theorem checks_keepsTx (h : ReflTransGen (Checks env) s t) :
    KeepsTx env s t ∧ t.txCache = s.txCache :=
  steps_invariant (I := fun u ↦ KeepsTx env s u ∧ u.txCache = s.txCache)
    (fun _ _ hstep hu ↦ ⟨hu.1.trans hstep.keepsTx, hstep.txCache_eq.trans hu.2⟩) h
    ⟨KeepsTx.refl s, rfl⟩

namespace Relay

variable {r u : Relay}

section Serving

def SignedPool (env : Env) (s : BlockChain) : Prop :=
  ∀ (timestamp : ℤ) (tx : Transaction), s.txCache[timestamp]? = some tx →
    Valid.validTransaction env tx = true

structure Serves (env : Env) (r u : Relay) : Prop where
  keepsTx : KeepsTx env r.chain u.chain
  pooled : SignedPool env r.chain → SignedPool env u.chain
  producer_eq : u.producer = r.producer
  produced_eq : u.produced = r.produced

theorem Serves.refl (r : Relay) : Serves env r r := ⟨KeepsTx.refl _, id, rfl, rfl⟩

theorem Serves.trans (r u w : Relay) (h : Serves env r u) (h' : Serves env u w) :
    Serves env r w where
  keepsTx := h.keepsTx.trans h'.keepsTx
  pooled hr := h'.pooled (h.pooled hr)
  producer_eq := h'.producer_eq.trans h.producer_eq
  produced_eq := h'.produced_eq.trans h.produced_eq

theorem SignedPool.congr (h : SignedPool env s) (heq : t.txCache = s.txCache) :
    SignedPool env t := by
  unfold SignedPool
  rw [heq]
  exact h

theorem SignedPool.cacheTx {tx : Transaction} (h : SignedPool env s)
    (hvalid : Valid.validTransaction env tx = true) : SignedPool env (cacheTx tx s) := by
  intro k x hx
  unfold BlockChain.cacheTx at hx
  rw [Std.ExtTreeMap.getElem?_insertIfNew] at hx
  split_ifs at hx
  · exact Option.some.inj hx ▸ hvalid
  · exact h k x hx

theorem SignedPool.take (h : SignedPool env s) : SignedPool env s.getTransactionFromCache.2 := by
  unfold getTransactionFromCache
  cases hhead : s.txCache.toList.head? with
  | none => exact h
  | some i =>
    intro k x hx
    dsimp only at hx
    rw [ReadThrough.getElem?_erase] at hx
    split_ifs at hx
    exact h k x hx

theorem SignedPool.taken {tx : Transaction} (h : SignedPool env s)
    (htx : s.getTransactionFromCache.1 = some tx) : Valid.validTransaction env tx = true := by
  unfold getTransactionFromCache at htx
  cases hhead : s.txCache.toList.head? with
  | none =>
    rw [hhead] at htx
    cases htx
  | some i =>
    rw [hhead] at htx
    have hmem := List.mem_of_head? hhead
    rw [← Option.some.inj htx]
    exact h i.1 i.2 (Std.ExtTreeMap.mem_toList_iff_getElem?_eq_some.mp hmem)

theorem serves_acceptTx (tx : Transaction) {handler : Exception → RelayM Bool}
    (hhandler : ∀ e r, (handler e r).1 ≠ .ok true ∧ (handler e r).2 = r) :
    Eff.Keeps (Serves env) (acceptTx env tx handler) := by
  intro r
  rcases acceptTx_cases env tx hhandler r with heq | ⟨s, -, hpre, heq⟩ | ⟨e, s, hpre, -, heq⟩
  · rw [heq]
    exact Serves.refl r
  · have hsteps := preProcessTx_steps env tx r.chain
    rw [hpre] at hsteps
    obtain ⟨hkeeps, hcache⟩ := checks_keepsTx hsteps
    rw [heq]
    exact ⟨hkeeps.trans (keepsTx_of_eq rfl rfl rfl),
      fun h ↦ (h.congr hcache).cacheTx (preProcessTx_ok env hpre).2.1, rfl, rfl⟩
  · have hsteps := preProcessTx_steps env tx r.chain
    rw [hpre] at hsteps
    obtain ⟨hkeeps, hcache⟩ := checks_keepsTx hsteps
    rw [heq]
    exact ⟨hkeeps, fun h ↦ h.congr hcache, rfl, rfl⟩

theorem serves_acceptBlock (block : Block) : Eff.Keeps (Serves env) (acceptBlock env block) := by
  intro r
  have hsteps := preProcessBlock_steps env block r.chain
  rcases acceptBlock_cases env block r with ⟨s, hpre, heq⟩ | ⟨e, s, hpre, -, heq⟩
  · rw [hpre] at hsteps
    obtain ⟨hkeeps, hcache⟩ := checks_keepsTx hsteps
    rw [heq]
    exact ⟨hkeeps.trans (keepsTx_of_eq rfl rfl rfl), fun h ↦ h.congr hcache, rfl, rfl⟩
  · rw [hpre] at hsteps
    obtain ⟨hkeeps, hcache⟩ := checks_keepsTx hsteps
    rw [heq]
    exact ⟨hkeeps, fun h ↦ h.congr hcache, rfl, rfl⟩

theorem serves_dispatch {α : Type} {m : RelayM α} (h : Eff.Keeps (Serves env) m) :
    Eff.Keeps (Serves env) (dispatch m) := by
  intro r
  rw [dispatch_state]
  exact h r

theorem serves_perform {call : Call} (h : call.IsMessage) :
    Eff.Keeps (Serves env) (perform env call) := by
  cases call with
  | rpcTx tx => exact serves_dispatch (serves_acceptTx tx fun e r ↦ ⟨fun h ↦ (by cases h), rfl⟩)
  | txMessage tx =>
    refine serves_dispatch (serves_acceptTx tx fun e r ↦ ?_)
    split_ifs
    · exact ⟨fun h ↦ (by cases h), rfl⟩
    · exact ⟨fun h ↦ (by cases h), rfl⟩
  | blockMessage block =>
    refine serves_dispatch fun r ↦ ?_
    unfold processBlockMessage
    rw [Eff.get_bind_apply]
    split_ifs
    · exact Serves.refl r
    · exact Serves.refl r
    · rw [Eff.modify_bind_apply]
      refine Serves.trans _ _ _ ?_ (serves_acceptBlock block _)
      exact ⟨KeepsTx.refl _, id, rfl, rfl⟩
  | replyBlocks blocks =>
    refine serves_dispatch (Eff.keeps_forEach Serves.refl Serves.trans blocks fun block _ ↦ ?_)
    exact Eff.Keeps.bind Serves.trans (serves_acceptBlock _) fun _ ↦
      Eff.keeps_pure Serves.refl _
  | confirmation hc => exact fun r ↦ ⟨keepsTx_of_eq rfl rfl rfl, id, rfl, rfl⟩
  | blockState number confirmations => exact fun r ↦ ⟨keepsTx_of_eq rfl rfl rfl, id, rfl, rfl⟩
  | status status => exact fun r ↦ ⟨keepsTx_of_eq rfl rfl rfl, id, rfl, rfl⟩
  | work => exact h.elim
  | begins timestamp => exact h.elim
  | takes => exact h.elim
  | finishes timestampEnd => exact h.elim

end Serving

section Assembly

/-- What `ProducerServer::doWork` has made sure of for the block that it fills. -/
structure Begun (env : Env) (s : BlockChain) (block : Block) : Prop where
  chainID_eq : block.blockHeader.chainID = env.chainID
  producer_eq : block.getProducer = env.address
  scheduled : s.getExpectedProducer block.getTimestamp = env.address
  valid : ∀ tx ∈ block.transactions, Valid.validTransaction env tx = true
  absent : ∀ tx ∈ block.transactions, (isExistInRepo env tx s).1 = .ok false

theorem Begun.keepsTx (h : Begun env s block) (hkeyed : TxKeyed env s) (hkeeps : KeepsTx env s t) :
    Begun env t block where
  chainID_eq := h.chainID_eq
  producer_eq := h.producer_eq
  scheduled := by
    unfold getExpectedProducer
    rw [hkeeps.schedule_eq]
    exact h.scheduled
  valid := h.valid
  absent tx htx := by
    rw [isExistInRepo_fst, hkeeps.view_eq hkeyed, ← isExistInRepo_fst]
    exact h.absent tx htx

theorem Begun.addTransaction {tx : Transaction} (h : Begun env s block)
    (hvalid : Valid.validTransaction env tx = true)
    (habsent : (isExistInRepo env tx s).1 = .ok false) :
    Begun env s (block.addTransaction tx) where
  chainID_eq := h.chainID_eq
  producer_eq := h.producer_eq
  scheduled := h.scheduled
  valid x hx := by
    rcases List.mem_append.mp hx with hold | hnew
    · exact h.valid x hold
    · rw [List.mem_singleton.mp hnew]
      exact hvalid
  absent x hx := by
    rcases List.mem_append.mp hx with hold | hnew
    · exact h.absent x hold
    · rw [List.mem_singleton.mp hnew]
      exact habsent

theorem absent_of_notExisted {tx : Transaction}
    (h : (checkTransactionNotExisted env (tx.getHash env.sha3) s).1 = .ok true) :
    (isExistInRepo env tx s).1 = .ok false := by
  rw [checkTransactionNotExisted_fst] at h
  rw [isExistInRepo_fst]
  cases hview : txView env s (tx.getHash env.sha3) with
  | error e =>
    rw [hview] at h
    cases h
  | ok item =>
    rw [hview] at h
    have hempty : item.equal env.sha3 emptyTransaction = true := Except.ok.inj h
    change Except.ok (!item.equal env.sha3 emptyTransaction) = _
    rw [hempty]
    rfl

structure Assembles (env : Env) (r : Relay) : Prop where
  keyed : TxKeyed env r.chain
  pooled : SignedPool env r.chain
  begun : ∀ block rounds, r.producer = .assembling block rounds → Begun env r.chain block
  produced : ∀ b ∈ r.produced, ∃ block, b = (block.setRoots env.sha3).sign env.sha3 env.sign ∧
    Begun env r.chain block

/-- What a step of the producer server has to keep, apart from the block that is filled. -/
theorem Assembles.next (h : Assembles env r) (hkeeps : KeepsTx env r.chain u.chain)
    (hpooled : SignedPool env u.chain) (hproduced : u.produced = r.produced)
    (hbegun : ∀ block rounds, u.producer = .assembling block rounds → Begun env u.chain block) :
    Assembles env u := by
  refine ⟨hkeeps.keyed h.keyed, hpooled, hbegun, fun b hb ↦ ?_⟩
  rw [hproduced] at hb
  obtain ⟨block, heq, hblock⟩ := h.produced b hb
  exact ⟨block, heq, hblock.keepsTx h.keyed hkeeps⟩

theorem Assembles.serves (h : Assembles env r) (hserves : Serves env r u) : Assembles env u := by
  refine h.next hserves.keepsTx (hserves.pooled h.pooled) hserves.produced_eq ?_
  intro block rounds hu
  rw [hserves.producer_eq] at hu
  exact (h.begun block rounds hu).keepsTx h.keyed hserves.keepsTx

theorem Assembles.begins (h : Assembles env r) (timestamp : Int64) :
    Assembles env (startAssembly env timestamp r) := by
  unfold startAssembly
  cases hproducer : r.producer with
  | assembling block rounds => exact h
  | stopped => exact h
  | idle =>
    unfold beginBlock
    dsimp only
    split_ifs with hcheck hempty
    · exact h
    · exact h.next (KeepsTx.refl _) h.pooled rfl h.begun
    · refine h.next (KeepsTx.refl _) h.pooled rfl fun block rounds hu ↦ ?_
      cases hu
      refine ⟨rfl, rfl, ?_, fun tx htx ↦ absurd htx List.not_mem_nil,
        fun tx htx ↦ absurd htx List.not_mem_nil⟩
      unfold checkProducer at hcheck
      simp only [Bool.not_eq_true', Bool.not_eq_false, Bool.and_eq_true, beq_iff_eq] at hcheck
      exact hcheck.1.1.1.2.symm

theorem Assembles.takeTransaction {rounds : ℕ} (h : Assembles env r)
    (hblock : Begun env r.chain block) :
    Assembles env (takeTransaction env block rounds r).2 := by
  have htaken : KeepsTx env r.chain r.chain.getTransactionFromCache.2 := by
    unfold getTransactionFromCache
    cases r.chain.txCache.toList.head? <;> exact keepsTx_of_eq rfl rfl rfl
  have hblock' := hblock.keepsTx h.keyed htaken
  unfold Relay.takeTransaction
  rw [Eff.get_bind_apply, Eff.modify_bind_apply]
  cases htx : r.chain.getTransactionFromCache.1 with
  | none =>
    refine h.next htaken h.pooled.take rfl fun block' rounds' hu ↦ ?_
    cases hu
    exact hblock'
  | some tx =>
    dsimp only
    have hseek : Eff.Keeps (ReflTransGen (Checks env))
        (checkTransactionNotExisted env (tx.getHash env.sha3)) :=
      keeps_bind (keeps_single fun s ↦ .seek s _) fun _ ↦ keeps_still fun _ ↦ rfl
    have hsteps := hseek r.chain.getTransactionFromCache.2
    rcases hrun : checkTransactionNotExisted env (tx.getHash env.sha3)
      r.chain.getTransactionFromCache.2 with ⟨e | absent, s⟩
    · rw [hrun] at hsteps
      obtain ⟨hkeeps, hcache⟩ := checks_keepsTx hsteps
      have hchain : onChain (checkTransactionNotExisted env (tx.getHash env.sha3))
          { r with chain := r.chain.getTransactionFromCache.2 } =
            (.error e, { r with chain := s }) := by
        unfold onChain
        rw [Eff.zoom_apply, hrun]
      rw [Eff.tryCatch_error (Eff.bind_error hchain)]
      refine h.next (htaken.trans hkeeps) (h.pooled.take.congr hcache) rfl ?_
      intro block' rounds' hu
      cases hu
    · have hfound := congrArg Prod.fst hrun
      rw [hrun] at hsteps
      obtain ⟨hkeeps, hcache⟩ := checks_keepsTx hsteps
      have hchain : onChain (checkTransactionNotExisted env (tx.getHash env.sha3))
          { r with chain := r.chain.getTransactionFromCache.2 } =
            (.ok absent, { r with chain := s }) := by
        unfold onChain
        rw [Eff.zoom_apply, hrun]
      have hnext := h.next (u := { r with
          chain := s
          producer :=
            .assembling (if absent then block.addTransaction tx else block) (rounds + 1) })
        (htaken.trans hkeeps) (h.pooled.take.congr hcache) rfl fun block' rounds' hu ↦ by
          cases hu
          have hold := hblock'.keepsTx (htaken.keyed h.keyed) hkeeps
          cases absent with
          | false => exact hold
          | true =>
            have habsent := absent_of_notExisted hfound
            rw [isExistInRepo_fst, ← hkeeps.view_eq (htaken.keyed h.keyed),
              ← isExistInRepo_fst] at habsent
            exact hold.addTransaction (h.pooled.taken htx) habsent
      unfold Eff.tryCatch
      rw [Eff.bind_ok hchain]
      exact hnext

theorem Assembles.takes (h : Assembles env r) : Assembles env (perform env .takes r).2 := by
  change Assembles env (continueAssembly env r).2
  unfold continueAssembly
  rw [Eff.get_bind_apply]
  cases hproducer : r.producer with
  | idle => exact h
  | stopped => exact h
  | assembling block rounds =>
    dsimp only
    split_ifs
    · exact h.takeTransaction (h.begun block rounds hproducer)
    · exact h

theorem Assembles.finishes (h : Assembles env r) (timestampEnd : Int64) :
    Assembles env (endAssembly env timestampEnd r) := by
  unfold endAssembly
  cases hproducer : r.producer with
  | idle => exact h
  | stopped => exact h
  | assembling block rounds =>
    dsimp only
    split_ifs
    · exact h
    unfold finishBlock
    dsimp only
    split_ifs
    · have hkeeps : ∀ b, KeepsTx env r.chain (processProducerBlock b r.chain).2 := by
        intro b
        unfold processProducerBlock
        split_ifs <;> exact keepsTx_of_eq rfl rfl rfl
      have hcache : ∀ b, (processProducerBlock b r.chain).2.txCache = r.chain.txCache := by
        intro b
        unfold processProducerBlock
        split_ifs <;> rfl
      refine ⟨(hkeeps _).keyed h.keyed, h.pooled.congr (hcache _), fun _ _ hu ↦ ?_, fun b hb ↦ ?_⟩
      · cases hu
      rcases List.mem_append.mp hb with hold | hnew
      · obtain ⟨block', heq, hblock⟩ := h.produced b hold
        exact ⟨block', heq, hblock.keepsTx h.keyed (hkeeps _)⟩
      · refine ⟨block, List.mem_singleton.mp hnew, ?_⟩
        exact (h.begun block rounds hproducer).keepsTx h.keyed (hkeeps _)
    · refine h.next (KeepsTx.refl _) h.pooled rfl fun _ _ hu ↦ ?_
      cases hu

theorem Assembles.perform {call : Call} (h : Assembles env r) (hcall : call ≠ .work) :
    Assembles env (perform env call r).2 := by
  cases call with
  | work => exact absurd rfl hcall
  | begins timestamp => exact h.begins timestamp
  | takes => exact h.takes
  | finishes timestampEnd => exact h.finishes timestampEnd
  | _ =>
    refine h.serves (serves_perform ?_ r)
    trivial

end Assembly

end Relay

end GseNetwork.Chain
