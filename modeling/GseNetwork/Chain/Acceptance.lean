import GseNetwork.Chain.History
import GseNetwork.Chain.Production
import GseNetwork.Chain.Slots
import GseNetwork.Ledger.Solvency

namespace GseNetwork.Chain

open GseNetwork.Core GseNetwork.Foundation GseNetwork.Storage GseNetwork.Ledger
open BlockChain Relation

variable {env : Env} {block : Block} {s v : BlockChain}

section Acceptance

structure Accepts (env : Env) (v : BlockChain) (block : Block) : Prop where
  checked : (preProcessBlock env block v).1 = .ok ()
  scheduled : v.checkProducer block = true
  executed : (attemptBlock env block (preProcessBlock env block v).2).1 = .ok ()

/-- Neither the blocks that wait, nor the repositories, nor the database hold a block of the same
hash. A block with the hash of the empty one is never found. -/
structure Unknown (env : Env) (v : BlockChain) (block : Block) : Prop where
  waiting : ∀ i ∈ v.blockCache.toList, i.2.getHash env.sha3 ≠ block.getHash env.sha3
  chained : block.getHash env.sha3 ≠ emptyBlock.getHash env.sha3 →
    ∀ i ∈ v.memoryQueue, i.repository.block.getHash env.sha3 ≠ block.getHash env.sha3
  stored : block.getHash env.sha3 ≠ emptyBlock.getHash env.sha3 →
    ∃ b, v.dbc.getBlock (block.getHash env.sha3) = .ok b ∧
      b.getHash env.sha3 = emptyBlock.getHash env.sha3

def slotStart (block : Block) : ℤ := genesisTimestamp + Block.slot block * producerInterval

structure Acceptable (env : Env) (v : BlockChain) (block : Block) : Prop where
  distinct : (block.transactions.map fun tx ↦ tx.getHash env.sha3).Nodup
  solvent : Solvent (openView block v) block.transactions
  unknown : Unknown env v block
  later : ∀ time, v.producerRecord[block.getProducer]? = some time → time < slotStart block
  current : v.scheduleUpdateBlockTimestamp < slotStart block
  payable : Payable block (chainView v)

/-- A read finds a block of the repositories, or else what the database has. -/
theorem getBlock_cases {sha3 : Bytes → H256} (db : DatabaseController) {id : BlockID}
    (hid : id ≠ emptyBlock.getHash sha3) (st : List Repository) :
    (∃ r ∈ st, r.block.getHash sha3 = id ∧ Repository.getBlock sha3 db id st = .ok r.block) ∨
      (∀ r ∈ st, r.block.getHash sha3 ≠ id) ∧
        Repository.getBlock sha3 db id st = db.getBlock id := by
  induction st with
  | nil => exact Or.inr ⟨fun r hr ↦ absurd hr List.not_mem_nil, rfl⟩
  | cons r rest ih =>
    unfold Repository.getBlock
    by_cases hr : r.block.getHash sha3 = id
    · exact Or.inl ⟨r, List.mem_cons_self, hr, if_pos hr⟩
    rw [if_neg hr, List.forall_mem_cons, and_iff_right (a := r.block.getHash sha3 ≠ id) hr]
    rcases ih with ⟨q, hq, hhash, hget⟩ | ⟨hnone, hget⟩
    · refine Or.inl ⟨q, List.mem_cons_of_mem r hq, hhash, ?_⟩
      have hne : q.block.getHash sha3 ≠ emptyBlock.getHash sha3 := fun h ↦ hid (hhash.symm.trans h)
      rw [if_neg (by simpa using List.ne_nil_of_mem hq), hget]
      simp only [bind, Except.bind, if_neg hne, pure, Except.pure]
    · refine Or.inr ⟨hnone, ?_⟩
      rw [hget]
      split_ifs
      · rfl
      · cases db.getBlock id with
        | error e => rfl
        | ok b => exact ite_self _

theorem isExistBlock_iff : (isExistBlock env block s).1 = .ok false ↔ Unknown env s block := by
  have hmem : ∀ r : Repository,
      r ∈ stack s.memoryQueue ↔ ∃ i ∈ s.memoryQueue, i.repository = r := by
    intro r
    rw [stack, List.mem_reverse, List.mem_map]
  -- What the read answers if the hash is not that of the child repository's own block.
  have hread : block.getHash env.sha3 ≠ emptyBlock.getHash env.sha3 →
      ((∃ b, Repository.getBlock env.sha3 s.dbc (block.getHash env.sha3)
          ({ block := emptyBlock } :: stack s.memoryQueue) = .ok b ∧
            b.getHash env.sha3 = emptyBlock.getHash env.sha3) ↔
        (∀ i ∈ s.memoryQueue, i.repository.block.getHash env.sha3 ≠ block.getHash env.sha3) ∧
          ∃ b, s.dbc.getBlock (block.getHash env.sha3) = .ok b ∧
            b.getHash env.sha3 = emptyBlock.getHash env.sha3) := by
    intro hne
    rcases getBlock_cases s.dbc hne ({ block := emptyBlock } :: stack s.memoryQueue) with
      ⟨r, hr, hhash, hget⟩ | ⟨hnone, hget⟩
    · rw [hget]
      refine iff_of_false ?_ fun h ↦ ?_
      · rintro ⟨b, hb, hempty⟩
        obtain rfl := Except.ok.inj hb
        exact hne (hhash.symm.trans hempty)
      · rcases List.mem_cons.mp hr with rfl | hr
        · exact hne hhash.symm
        · obtain ⟨i, hi, rfl⟩ := (hmem r).mp hr
          exact h.1 i hi hhash
    · rw [hget]
      refine (and_iff_right fun i hi ↦ ?_).symm
      exact hnone _ (List.mem_cons_of_mem _ ((hmem _).mpr ⟨i, hi, rfl⟩))
  have hanswer : ∀ r : Except Exception Block, ((do
      let item ← Eff.ofExcept r
      return item.getHash env.sha3 != emptyBlock.getHash env.sha3 : ChainM Bool) s).1 = .ok false ↔
        ∃ b, r = .ok b ∧ b.getHash env.sha3 = emptyBlock.getHash env.sha3 := by
    intro r
    cases r with
    | error e =>
      refine iff_of_false (fun h ↦ by cases h) ?_
      rintro ⟨b, hb, -⟩
      cases hb
    | ok b =>
      rw [Eff.bind_ok (Eff.ofExcept_apply (.ok b) s)]
      change Except.ok (b.getHash env.sha3 != emptyBlock.getHash env.sha3) = .ok false ↔ _
      rw [Except.ok.injEq, bne_eq_false_iff_eq]
      constructor
      · exact fun h ↦ ⟨b, rfl, h⟩
      · rintro ⟨b', hb, h⟩
        obtain rfl := Except.ok.inj hb
        exact h
  unfold isExistBlock
  rw [Eff.get_bind_apply]
  split_ifs with hcached
  · refine iff_of_false (fun h ↦ by cases h) fun h ↦ ?_
    obtain ⟨i, hi, heq⟩ := List.any_eq_true.mp hcached
    exact h.waiting i hi (beq_iff_eq.mp heq)
  · have hwaiting : ∀ i ∈ s.blockCache.toList, i.2.getHash env.sha3 ≠ block.getHash env.sha3 :=
      fun i hi heq ↦ hcached (List.any_eq_true.mpr ⟨i, hi, beq_iff_eq.mpr heq⟩)
    rw [hanswer]
    by_cases hne : block.getHash env.sha3 = emptyBlock.getHash env.sha3
    · refine iff_of_true ⟨emptyBlock, ?_, rfl⟩
        ⟨hwaiting, fun h ↦ absurd hne h, fun h ↦ absurd hne h⟩
      unfold Repository.getBlock
      exact if_pos hne.symm
    · rw [hread hne]
      exact ⟨fun h ↦ ⟨hwaiting, fun _ ↦ h.1, fun _ ↦ h.2⟩, fun h ↦ ⟨h.chained hne, h.stored hne⟩⟩

theorem preProcessBlock_ok_iff : (preProcessBlock env block s).1 = .ok () ↔
    block.blockHeader.chainID = env.chainID ∧ Valid.validBlock env block = true ∧
      (isExistBlock env block s).1 = .ok false ∧
      (block.transactions.map fun tx ↦ tx.getHash env.sha3).Nodup ∧
      ∃ st, Eff.forEach block.transactions (fun tx ↦ Runtime.excute env.sha3 s.dbc 0 tx)
        ({ block := emptyBlock } :: stack s.memoryQueue) = (.ok (), st) := by
  constructor
  · intro h
    have hpre : preProcessBlock env block s = (.ok (), (preProcessBlock env block s).2) :=
      Prod.ext h rfl
    obtain ⟨hchecked, hexist⟩ := preProcessBlock_ok env hpre
    refine ⟨hchecked.chainID_eq, hchecked.valid, ?_, hchecked.noDuplicate,
      preProcessBlock_trial hpre⟩
    rw [hexist]
  · rintro ⟨hchain, hvalid, hexist, hnodup, st, htrial⟩
    have hfound : isExistBlock env block s = (.ok false, s) :=
      Prod.ext hexist (isExistBlock_state env block s)
    have hdup : checkDuplicateTx env block = true := decide_eq_true hnodup
    unfold preProcessBlock
    rw [if_neg (not_not.mpr hchain), hvalid, if_neg (by decide), Eff.bind_ok hfound,
      if_neg (by decide), hdup, if_neg (by decide)]
    exact congrArg Prod.fst htrial

structure SameChain (s v : BlockChain) : Prop where
  dbc_eq : v.dbc = s.dbc
  memoryQueue_eq : v.memoryQueue = s.memoryQueue
  schedule_eq : v.schedule = s.schedule
  producerRecord_eq : v.producerRecord = s.producerRecord
  scheduleUpdate_eq : v.scheduleUpdateBlockTimestamp = s.scheduleUpdateBlockTimestamp

theorem validBlock_sign (hkey : ∀ h, Valid.toAddress env (env.recover (env.sign h) h) = env.address)
    (hproducer : block.getProducer = env.address)
    (hvalid : ∀ tx ∈ block.transactions, Valid.validTransaction env tx = true) :
    Valid.validBlock env ((block.setRoots env.sha3).sign env.sha3 env.sign) = true := by
  unfold Valid.validBlock
  rw [Bool.and_eq_true, beq_iff_eq, List.all_eq_true]
  refine ⟨?_, hvalid⟩
  exact (hkey _).trans hproducer.symm

theorem trial_iff (env : Env) (hwell : WellFormed v) (hreadable : Readable v.dbc)
    (hsender : ∀ tx ∈ block.transactions, tx.type = Transaction.beenProducerType → tx.sender ≠ 0) :
    (∃ st, Eff.forEach block.transactions (fun tx ↦ Runtime.excute env.sha3 v.dbc 0 tx)
        ({ block := emptyBlock } :: stack v.memoryQueue) = (.ok (), st)) ↔
      Solvent (openView block v) block.transactions :=
  transactions_solvent block.transactions (shows_open hwell.shows emptyBlock)
    (fun q ↦ ReadThrough.Table.exists_view_eq_ok (hreadable.getProducer q) _) hsender

/-- A signed block of the scheduled producer, with transactions that are not on the ledger. -/
theorem accepts_iff (hchain : block.blockHeader.chainID = env.chainID)
    (hvalid : Valid.validBlock env block = true)
    (hproducer : block.getProducer = v.getExpectedProducer block.getTimestamp)
    (habsent : ∀ tx ∈ block.transactions, (isExistInRepo env tx v).1 = .ok false)
    (hkeyed : TxKeyed env v) (hwell : WellFormed v) (hreadable : Readable v.dbc)
    (hsender : ∀ tx ∈ block.transactions, tx.type = Transaction.beenProducerType → tx.sender ≠ 0) :
    Accepts env v block ↔ Acceptable env v block := by
  have htrial := trial_iff env hwell hreadable hsender
  have hview := keepsView_preProcessBlock env block v
  have habsent' : ∀ tx ∈ block.transactions,
      (isExistInRepo env tx (preProcessBlock env block v).2).1 = .ok false := by
    intro tx htx
    rw [isExistInRepo_fst, (checks_keepsTx (preProcessBlock_steps env block v)).1.view_eq hkeyed,
      ← isExistInRepo_fst]
    exact habsent tx htx
  have hledger : chainView (preProcessBlock env block v).2 = chainView v :=
    (hview.shows _ _ hwell.shows).view_eq
  have hexecute : (∃ st, Eff.forEach block.transactions
      (fun tx ↦ Runtime.excute env.sha3 v.dbc 0 tx)
        ({ block := emptyBlock } :: stack v.memoryQueue) = (.ok (), st)) →
      ((attemptBlock env block (preProcessBlock env block v).2).1 = .ok () ↔
        Payable block (chainView v)) := by
    intro htogether
    rw [attemptBlock_ok_iff hwell htogether hview ?_ hsender, hledger]
    · exact and_iff_right habsent'
    · rw [preProcessBlock_dbc]
      exact hreadable
  constructor
  · rintro ⟨hchecked, hscheduled, hexecuted⟩
    obtain ⟨-, -, hunknown, hdistinct, htogether⟩ := preProcessBlock_ok_iff.mp hchecked
    obtain ⟨-, hlater, hcurrent⟩ := checkProducer_iff.mp hscheduled
    exact ⟨hdistinct, htrial.mp htogether, isExistBlock_iff.mp hunknown,
      fun time htime ↦ sub_lt_iff_lt_add'.mp (hlater time htime), sub_lt_iff_lt_add'.mp hcurrent,
      (hexecute htogether).mp hexecuted⟩
  · intro h
    have htogether := htrial.mpr h.solvent
    exact ⟨preProcessBlock_ok_iff.mpr
        ⟨hchain, hvalid, isExistBlock_iff.mpr h.unknown, h.distinct, htogether⟩,
      checkProducer_iff.mpr ⟨hproducer,
        fun time htime ↦ sub_lt_iff_lt_add'.mpr (h.later time htime),
        sub_lt_iff_lt_add'.mpr h.current⟩, (hexecute htogether).mpr h.payable⟩

end Acceptance

theorem Relay.Reaches.assembles {r u : Relay} (hstart : Relay.Assembles env r)
    (hrun : Relay.Reaches env (fun _ call ↦ call ≠ .work) r u) : Relay.Assembles env u := by
  induction hrun with
  | start => exact hstart
  | step _ hcall hstep ih =>
    have hnext := ih.perform hcall
    rw [hstep] at hnext
    exact hnext

/-- A block that a node produces, without another block being processed meanwhile, is accepted by a
node with the same chain exactly if its transactions are different, the balances and producers cover
each after those before it, its producer has or gets an account, no block of its hash is there, and
its slot begins after the last block of its producer and the last change of the schedule. -/
theorem produced_accepted_iff (env : Env) (r u : Relay) (v : BlockChain) (block : Block)
    (address : Address) (sign : H256 → SignatureStruct)
    (hkey : ∀ h, Valid.toAddress env (env.recover (env.sign h) h) = env.address)
    (hidle : r.producer = .idle) (hnone : r.produced = []) (hkeyed : TxKeyed env r.chain)
    (hpool : ∀ (timestamp : ℤ) (tx : Transaction), r.chain.txCache[timestamp]? = some tx →
      ∃ s s', preProcessTx env tx s = (.ok (), s'))
    (hrun : Relay.Reaches env (fun _ call ↦ call ≠ .work) r u) (hblock : block ∈ u.produced)
    (hsame : SameChain u.chain v) (hwell : WellFormed v) (hreadable : Readable v.dbc)
    (hsender : ∀ tx ∈ block.transactions, tx.type = Transaction.beenProducerType → tx.sender ≠ 0) :
    Accepts { env with address := address, sign := sign } v block ↔
      Acceptable { env with address := address, sign := sign } v block := by
  have hstart : Relay.Assembles env r := by
    refine ⟨hkeyed, fun k tx htx ↦ ?_, fun b rounds hr ↦ ?_, fun b hb ↦ ?_⟩
    · obtain ⟨s, s', hpre⟩ := hpool k tx htx
      exact (preProcessTx_ok env hpre).2.1
    · rw [hidle] at hr
      cases hr
    · rw [hnone] at hb
      exact absurd hb List.not_mem_nil
  have hall := hrun.assembles hstart
  obtain ⟨b, heq, hbegun⟩ := hall.produced block hblock
  have hkeeps : KeepsTx env u.chain v :=
    keepsTx_of_eq hsame.dbc_eq hsame.memoryQueue_eq hsame.schedule_eq
  have hkeyed' := hkeeps.keyed hall.keyed
  have hbegun' := hbegun.keepsTx hall.keyed hkeeps
  have hvalid := validBlock_sign hkey hbegun.producer_eq hbegun.valid
  rw [heq] at hsender ⊢
  exact accepts_iff hbegun.chainID_eq hvalid
    (hbegun.producer_eq.trans hbegun'.scheduled.symm) hbegun'.absent
    ⟨hkeyed'.store, hkeyed'.caches⟩ hwell hreadable hsender

section Runs

theorem Relay.Moves.dbc_eq {r u : Relay} {call : Call} (h : Relay.Moves env call r u) :
    u.chain.dbc = r.chain.dbc := by
  cases h with
  | checks hchecks => exact hchecks.dbc_eq
  | take =>
    unfold getTransactionFromCache
    cases r.chain.txCache.toList.head? <;> rfl
  | produce block _ =>
    unfold processProducerBlock
    split_ifs <;> rfl
  | _ => rfl

theorem Relay.Reaches.dbc_eq {r u : Relay}
    (h : Relay.Reaches env (fun _ call ↦ call ≠ .work) r u) : u.chain.dbc = r.chain.dbc := by
  induction h with
  | start => rfl
  | @step w w' call _ hcall hstep ih =>
    have hmoves : (Relay.perform env call w).2.chain.dbc = w.chain.dbc :=
      steps_invariant (I := fun x : Relay ↦ x.chain.dbc = w.chain.dbc)
        (fun _ _ hmove hx ↦ hmove.dbc_eq.trans hx) (Relay.perform_moves hcall w) rfl
    rw [hstep] at hmoves
    exact hmoves.trans ih

theorem sameChain_produced (b : Block) (s : BlockChain) :
    SameChain (processProducerBlock b s).2 s := by
  unfold processProducerBlock
  split_ifs <;> exact ⟨rfl, rfl, rfl, rfl, rfl⟩

end Runs

namespace Relay

def signingEnv : Env := { tailEnv with sign := fun _ ↦ { r := 1 } }

def payment (value : UInt64) (timestamp : Int64) : Transaction :=
  { openTransfer 0 2 2 with value := value, timestamp := timestamp }

def fillingCalls (txs : List Transaction) : List Call :=
  [.status .producer, .begins 1538352000000] ++ txs.map .rpcTx ++ txs.map fun _ ↦ .takes

def filled (txs : List Transaction) : Relay := performAll signingEnv idleRelay (fillingCalls txs)

def finished (txs : List Transaction) : Block :=
  ((assembly txs).setRoots signingEnv.sha3).sign signingEnv.sha3 signingEnv.sign

theorem reaches_filled {txs : List Transaction} (n : ℕ)
    (hok : allOk signingEnv idleRelay (fillingCalls txs) = true)
    (hproducer : (filled txs).producer = .assembling (assembly txs) txs.length)
    (hempty : (filled txs).chain.txCache.toList.head? = none)
    (hn : txs.length + n = maxTransactionsPerBlock) :
    ∃ u, Reaches signingEnv (fun _ call ↦ call ≠ .work) idleRelay u ∧ finished txs ∈ u.produced ∧
      SameChain u.chain (filled txs).chain := by
  have hfilled : Reaches signingEnv (fun _ call ↦ call ≠ .work) idleRelay (filled txs) := by
    refine reaches_performAll (fun _ call hcall ↦ ?_) .start hok
    unfold fillingCalls at hcall
    simp only [List.mem_append, List.mem_map, List.mem_cons, List.not_mem_nil, or_false] at hcall
    rcases hcall with ((rfl | rfl) | ⟨tx, -, rfl⟩) | ⟨tx, -, rfl⟩ <;> exact fun h ↦ by cases h
  have hfinished := reaches_finished n 1538352000100 (fun _ h ↦ by cases h)
    (fun _ h ↦ by cases h) hfilled hproducer hempty hn
    (show inTime 1538352000000 1538352000100 = true by decide)
  refine ⟨_, hfinished, ?_, sameChain_produced _ _⟩
  exact List.mem_append_right _ List.mem_cons_self

theorem signed_signingEnv (h : H256) :
    Valid.toAddress signingEnv (signingEnv.recover (signingEnv.sign h) h) = signingEnv.address := by
  change Valid.toAddress signingEnv ((1 : H256).setWidth 512) = 1
  decide +kernel

theorem txKeyed_idle : TxKeyed signingEnv idleRelay.chain := by
  refine ⟨fun id tx htx hne ↦ ?_, fun m hm ↦ absurd hm List.not_mem_nil⟩
  have hempty : idleRelay.chain.dbc.getTransaction id = .ok emptyTransaction :=
    Std.ExtTreeMap.getD_empty
  obtain rfl : emptyTransaction = tx := Except.ok.inj (hempty.symm.trans htx)
  change emptyTransaction.equal signingEnv.sha3 emptyTransaction = false at hne
  simp [Transaction.equal] at hne

theorem getAccount_idle (a : Address) : idleRelay.chain.dbc.getAccount a =
    .ok (if a = 2 then Account.new 2 10000000 0 else if a = 1 then Account.new 1 10000000 0
      else emptyAccount) := by
  change (((Std.ExtTreeMap.insert ∅ 1 (.ok (Account.new 1 10000000 0))).insert 2
    (.ok (Account.new 2 10000000 0)) : Std.ExtTreeMap Address (Except Exception Account)).getD a
      (.ok emptyAccount)) = _
  rw [Std.ExtTreeMap.getD_eq_getD_getElem?, ReadThrough.getElem?_insert,
    ReadThrough.getElem?_insert]
  by_cases h2 : 2 = a
  · rw [if_pos h2, if_pos h2.symm]
    rfl
  · by_cases h1 : 1 = a
    · rw [if_neg h2, if_pos h1, if_neg (Ne.symm h2), if_pos h1.symm]
      rfl
    · rw [if_neg h2, if_neg h1, if_neg (Ne.symm h2), if_neg (Ne.symm h1)]
      simp

theorem wellFormed_of_idle {s : BlockChain} (hdbc : s.dbc = idleRelay.chain.dbc)
    (hqueue : s.memoryQueue = []) : WellFormed s ∧ Readable s.dbc := by
  have hstack : stack s.memoryQueue = [] := by rw [hqueue]; rfl
  refine ⟨⟨fun a x hx hne ↦ ?_, fun a p hp hne ↦ ?_, fun m hm ↦ ?_, fun m hm ↦ ?_⟩, ?_⟩
  · rw [hdbc, getAccount_idle, Except.ok.injEq] at hx
    split_ifs at hx with h2 h1
    · exact hx ▸ ⟨h2.symm, rfl⟩
    · exact hx ▸ ⟨h1.symm, rfl⟩
    · rw [← hx] at hne
      cases hne
  · have hempty : idleRelay.chain.dbc.getProducer a = .ok emptyProducer :=
      Std.ExtTreeMap.getD_empty
    rw [hdbc, hempty] at hp
    obtain rfl : emptyProducer = p := Except.ok.inj hp
    cases hne
  · simp [hstack] at hm
  · simp [hstack] at hm
  · have hblocks : idleRelay.chain.dbc.blockIndexStore =
      Std.ExtTreeMap.insert ∅ 0 (.ok firstBlock) := rfl
    have hproducers : idleRelay.chain.dbc.producerStore = ∅ := rfl
    rw [hdbc]
    refine ⟨fun a e h ↦ ?_, fun number e h ↦ ?_⟩
    · simp [hproducers] at h
    · rw [hblocks, ReadThrough.getElem?_insert] at h
      split_ifs at h
      · cases h
      · simp at h

theorem filled_evaluated :
    allOk signingEnv idleRelay (fillingCalls [payment 100 1]) = true ∧
      (filled [payment 100 1]).producer = .assembling (assembly [payment 100 1]) 1 ∧
      (filled [payment 100 1]).chain.txCache.toList.head? = none ∧
      (filled [payment 100 1]).chain.memoryQueue.isEmpty = true := by
  decide +kernel

theorem filled_acceptable :
    (isExistBlock { signingEnv with address := 2, sign := fun _ ↦ {} } (finished [payment 100 1])
        (filled [payment 100 1]).chain).1.toOption = some false ∧
      (Eff.forEach [payment 100 1] (fun tx ↦ Runtime.excute signingEnv.sha3
        (filled [payment 100 1]).chain.dbc 0 tx) [{ block := emptyBlock }]).1.isOk = true ∧
      (filled [payment 100 1]).chain.producerRecord[(1 : Address)]? = none ∧
      (filled [payment 100 1]).chain.scheduleUpdateBlockTimestamp = 0 := by
  decide +kernel

theorem overspent_evaluated :
    allOk signingEnv idleRelay (fillingCalls [payment 6000000 1, payment 6000000 2]) = true ∧
      (filled [payment 6000000 1, payment 6000000 2]).producer =
        .assembling (assembly [payment 6000000 1, payment 6000000 2]) 2 ∧
      (filled [payment 6000000 1, payment 6000000 2]).chain.txCache.toList.head? = none ∧
      (preProcessBlock signingEnv (finished [payment 6000000 1, payment 6000000 2])
        (filled [payment 6000000 1, payment 6000000 2]).chain).1.isOk = false := by
  decide +kernel

theorem produced_accepted_iff_payment :
    Accepts { signingEnv with address := 2, sign := fun _ ↦ {} } (filled [payment 100 1]).chain
      (finished [payment 100 1]) := by
  obtain ⟨hok, hproducer, hempty, hqueue⟩ := filled_evaluated
  obtain ⟨hunknown, htogether, hrecord, hupdate⟩ := filled_acceptable
  obtain ⟨u, hrun, hmem, hsame⟩ := reaches_filled 399 hok hproducer hempty rfl
  have hdbc : (filled [payment 100 1]).chain.dbc = idleRelay.chain.dbc :=
    hsame.dbc_eq.trans hrun.dbc_eq
  have hqueue' := List.isEmpty_iff.mp hqueue
  have hstack : stack (filled [payment 100 1]).chain.memoryQueue = [] := by
    rw [hqueue']
    rfl
  obtain ⟨hwell, hreadable⟩ := wellFormed_of_idle hdbc hqueue'
  have htogether' : ∃ st, Eff.forEach [payment 100 1] (fun tx ↦ Runtime.excute signingEnv.sha3
      (filled [payment 100 1]).chain.dbc 0 tx)
        ({ block := emptyBlock } :: stack (filled [payment 100 1]).chain.memoryQueue) =
          (.ok (), st) := by
    rw [hstack]
    exact ⟨_, Eff.eq_ok_of_isOk htogether⟩
  have hunknown' := congrArg Prod.fst (Eff.eq_ok_of_toOption hunknown)
  have hsender : ∀ tx ∈ (finished [payment 100 1]).transactions,
      tx.type = Transaction.beenProducerType → tx.sender ≠ 0 := by
    intro tx htx htype
    rw [List.mem_singleton.mp htx] at htype
    exact absurd htype (by decide)
  have hsolvent := (trial_iff signingEnv hwell hreadable hsender).mp htogether'
  refine (produced_accepted_iff signingEnv idleRelay u _ _ 2 _ signed_signingEnv rfl rfl
    txKeyed_idle ?_ hrun hmem hsame hwell hreadable hsender).mpr
      ⟨List.nodup_singleton _, hsolvent, isExistBlock_iff.mp hunknown', ?_, ?_, Or.inl ?_⟩
  · intro k tx htx
    have hnone : idleRelay.chain.txCache = ∅ := rfl
    simp [hnone] at htx
  · intro time htime
    have hnone : none = some time := hrecord.symm.trans htime
    cases hnone
  · rw [hupdate]
    change (0 : ℤ) < genesisTimestamp + slotOf (1538352000000 : Int64).toInt * producerInterval
    decide
  · unfold chainView
    rw [hstack, hdbc]
    refine ⟨Account.new 1 10000000 0, ?_, rfl, rfl⟩
    change (idleRelay.chain.dbc.getAccount 1).map erase = _
    rw [getAccount_idle]
    rfl

/-- Two payments that each passed the checks overspend the account together: the block of the
producer is refused. -/
theorem produced_refused :
    ∃ u, Reaches signingEnv (fun _ call ↦ call ≠ .work) idleRelay u ∧
      finished [payment 6000000 1, payment 6000000 2] ∈ u.produced ∧
      SameChain u.chain (filled [payment 6000000 1, payment 6000000 2]).chain ∧
      ¬ Accepts signingEnv (filled [payment 6000000 1, payment 6000000 2]).chain
        (finished [payment 6000000 1, payment 6000000 2]) := by
  obtain ⟨hok, hproducer, hempty, hrefused⟩ := overspent_evaluated
  obtain ⟨u, hrun, hmem, hsame⟩ := reaches_filled 398 hok hproducer hempty rfl
  refine ⟨u, hrun, hmem, hsame, fun haccepts ↦ ?_⟩
  rw [haccepts.checked] at hrefused
  cases hrefused

end Relay

end GseNetwork.Chain
