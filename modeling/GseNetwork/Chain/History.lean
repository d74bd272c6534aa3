import GseNetwork.Chain.Authorisation
import GseNetwork.Core.SignedContent

namespace GseNetwork.Chain.Relay

open GseNetwork.Core GseNetwork.Foundation GseNetwork.Storage BlockChain

section Histories

variable {env : Env} {P : Relay → Call → Prop} {r r₀ : Relay} {h : List TxID} {tx : Transaction}

def performAll (env : Env) (r : Relay) : List Call → Relay
  | [] => r
  | call :: calls => performAll env (perform env call r).2 calls

def allOk (env : Env) (r : Relay) : List Call → Bool
  | [] => true
  | call :: calls => (perform env call r).1.isOk && allOk env (perform env call r).2 calls

theorem reaches_performAll {calls : List Call} (hP : ∀ t, ∀ call ∈ calls, P t call)
    (hr : Reaches env P r₀ r) (hok : allOk env r calls = true) :
    Reaches env P r₀ (performAll env r calls) := by
  induction calls generalizing r with
  | nil => exact hr
  | cons call calls ih =>
    unfold allOk at hok
    rw [Bool.and_eq_true] at hok
    refine ih (fun t c hc ↦ hP t c (List.mem_cons_of_mem call hc)) ?_ hok.2
    exact hr.step (hP r call List.mem_cons_self) (Eff.eq_ok_of_isOk hok.1)

def withHistory (h : List TxID) (r : Relay) : Relay := { r with historyTxCache := h }

/-- A transaction that is not in the history and passes the checks is cached. -/
theorem rpcTx_accepted {s : BlockChain} (hnew : tx.getHash env.sha3 ∉ h)
    (hpre : preProcessTx env tx r.chain = (.ok (), s)) :
    perform env (.rpcTx tx) (r.withHistory h) =
      (.ok (), ({ r with chain := cacheTx tx s, relayed := r.relayed ++ [tx] } : Relay).withHistory
        (pushFixed 4096 h (tx.getHash env.sha3))) := by
  have hnew' : tx.getHash env.sha3 ∉ (r.withHistory h).historyTxCache := hnew
  have hchain : onChain (preProcessTx env tx) (rememberTx env tx (r.withHistory h)) =
      (.ok (), ({ r with chain := s } : Relay).withHistory
        (pushFixed 4096 h (tx.getHash env.sha3))) := by
    unfold onChain
    rw [Eff.zoom_apply]
    have hsame : (rememberTx env tx (r.withHistory h)).chain = r.chain := rfl
    rw [hsame, hpre]
    rfl
  have haccept : acceptTx env tx (fun _ ↦ pure false) (r.withHistory h) =
      (.ok true, ({ r with
        chain := cacheTx tx s
        relayed := r.relayed ++ [tx] } : Relay).withHistory
          (pushFixed 4096 h (tx.getHash env.sha3))) := by
    unfold acceptTx
    rw [Eff.get_bind_apply, if_neg hnew', Eff.modify_bind_apply]
    exact Eff.tryCatch_ok (Eff.bind_ok hchain)
  change dispatch (acceptTx env tx fun _ ↦ pure false) _ = _
  unfold dispatch
  exact Eff.tryCatch_ok (Eff.bind_ok haccept)

/-- A round of the loop that finds a transaction the repositories do not have. -/
theorem takes_new {block : Block} {rounds : ℕ} {s t : BlockChain}
    (hproducer : r.producer = .assembling block rounds) (hrounds : rounds < maxTransactionsPerBlock)
    (htake : r.chain.getTransactionFromCache = (some tx, s))
    (habsent : checkTransactionNotExisted env (tx.getHash env.sha3) s = (.ok true, t)) :
    perform env .takes r = (.ok (), { r with
      chain := t
      producer := .assembling (block.addTransaction tx) (rounds + 1) }) := by
  have hchain : onChain (checkTransactionNotExisted env (tx.getHash env.sha3))
      { r with chain := s } = (.ok true, { r with chain := t }) := by
    unfold onChain
    rw [Eff.zoom_apply, habsent]
  change continueAssembly env r = _
  unfold continueAssembly
  rw [Eff.get_bind_apply, hproducer]
  dsimp only
  rw [if_pos hrounds]
  unfold takeTransaction
  rw [Eff.get_bind_apply, Eff.modify_bind_apply, htake]
  exact Eff.tryCatch_ok (Eff.bind_ok hchain)

theorem takes_nothing {block : Block} {rounds : ℕ}
    (hproducer : r.producer = .assembling block rounds)
    (hrounds : rounds < maxTransactionsPerBlock) (hempty : r.chain.txCache.toList.head? = none) :
    perform env .takes r = (.ok (), { r with producer := .assembling block (rounds + 1) }) := by
  have htake : r.chain.getTransactionFromCache = (none, r.chain) := by
    unfold getTransactionFromCache
    rw [hempty]
  change continueAssembly env r = _
  unfold continueAssembly
  rw [Eff.get_bind_apply, hproducer]
  dsimp only
  rw [if_pos hrounds]
  unfold takeTransaction
  rw [Eff.get_bind_apply, Eff.modify_bind_apply, htake]
  rfl

theorem reaches_rounds {block : Block} {rounds n : ℕ} (hP : ∀ t, P t .takes)
    (hr : Reaches env P r₀ r) (hproducer : r.producer = .assembling block rounds)
    (hempty : r.chain.txCache.toList.head? = none)
    (hn : rounds + n ≤ maxTransactionsPerBlock) :
    Reaches env P r₀ { r with producer := .assembling block (rounds + n) } := by
  induction n with
  | zero =>
    have heq : { r with producer := .assembling block (rounds + 0) } = r := by
      rw [Nat.add_zero, ← hproducer]
    rw [heq]
    exact hr
  | succ n ih =>
    refine .step (ih (by omega)) (hP _) ?_
    exact takes_nothing (r := { r with producer := .assembling block (rounds + n) }) rfl
      (show rounds + n < maxTransactionsPerBlock by omega) hempty

theorem finishes_full {block : Block} {rounds : ℕ} (timestampEnd : Int64)
    (hproducer : r.producer = .assembling block rounds)
    (hrounds : ¬ rounds < maxTransactionsPerBlock)
    (htime : inTime block.getTimestamp timestampEnd = true) :
    perform env (.finishes timestampEnd) r = (.ok (), { r with
      producer := .idle
      chain := (processProducerBlock ((block.setRoots env.sha3).sign env.sha3 env.sign) r.chain).2
      produced := r.produced ++ [(block.setRoots env.sha3).sign env.sha3 env.sign] }) := by
  change (Except.ok (), endAssembly env timestampEnd r) = _
  unfold endAssembly
  rw [hproducer]
  dsimp only
  rw [if_neg hrounds]
  unfold finishBlock
  rw [if_pos htime]

/-- A block that is being filled is handed out once there is nothing to take any more. -/
theorem reaches_finished {block : Block} {rounds : ℕ} (n : ℕ) (timestampEnd : Int64)
    (htakes : ∀ t, P t .takes) (hfinishes : ∀ t, P t (.finishes timestampEnd))
    (hr : Reaches env P r₀ r) (hproducer : r.producer = .assembling block rounds)
    (hempty : r.chain.txCache.toList.head? = none) (hn : rounds + n = maxTransactionsPerBlock)
    (htime : inTime block.getTimestamp timestampEnd = true) :
    Reaches env P r₀ { r with
      producer := .idle
      chain := (processProducerBlock ((block.setRoots env.sha3).sign env.sha3 env.sign) r.chain).2
      produced := r.produced ++ [(block.setRoots env.sha3).sign env.sha3 env.sign] } :=
  (reaches_rounds htakes hr hproducer hempty hn.le).step (hfinishes _)
    (finishes_full timestampEnd rfl hn.not_lt htime)

theorem work_ok {s : BlockChain} (hworking : r.working = true)
    (hrun : doWork env r.chain = (.ok (), s)) :
    perform env .work r = (.ok (), { r with chain := s }) := by
  have hchain : onChain (doWork env) r = (.ok (), { r with chain := s }) := by
    unfold onChain
    rw [Eff.zoom_apply, hrun]
  change work env r = _
  unfold work
  rw [Eff.get_bind_apply, if_pos hworking]
  exact Eff.tryCatch_ok hchain

end Histories

section Flood

def tailEnv : Env where
  sha3 data := BitVec.ofNat 256 (BigEndian.fromBigEndian (data.drop (data.length - 32)))
  recover signature _ := signature.r.setWidth 512
  chainID := 0
  address := 1

theorem tailEnv_sha3 : tailEnv.sha3 = openEnv.sha3 := by
  funext data
  change BitVec.ofNat 256 (BigEndian.fromBigEndian (data.drop (data.length - 32))) =
    BitVec.ofNat 256 (BigEndian.fromBigEndian data)
  rcases le_or_gt data.length 32 with hle | hgt
  · rw [Nat.sub_eq_zero_of_le hle, List.drop_zero]
  · have hlength : (data.drop (data.length - 32)).length = 32 := by
      rw [List.length_drop]
      omega
    have hsplit := BigEndian.fromBigEndian_append (data.take (data.length - 32))
      (data.drop (data.length - 32))
    rw [List.take_append_drop, hlength] at hsplit
    apply BitVec.eq_of_toNat_eq
    rw [BitVec.toNat_ofNat, BitVec.toNat_ofNat, hsplit]
    omega

variable {P : Relay → Call → Prop} {r r₀ : Relay} {n : ℕ} {id : TxID}

def foreignTx (n : ℕ) : Transaction where
  chainID := 1
  type := Transaction.transferType
  sender := 2
  recipient := 1
  timestamp := 1
  data := [UInt8.ofNat (n / 256), UInt8.ofNat n]
  value := 0

def foreignIDs (n : ℕ) : List TxID :=
  (List.range n).map fun k ↦ (foreignTx k).getHash tailEnv.sha3

theorem foreignIDs_succ (n : ℕ) :
    foreignIDs (n + 1) = foreignIDs n ++ [(foreignTx n).getHash tailEnv.sha3] := by
  unfold foreignIDs
  rw [List.range_succ, List.map_append]
  rfl

theorem length_foreignIDs (n : ℕ) : (foreignIDs n).length = n := by
  unfold foreignIDs
  rw [List.length_map, List.length_range]

theorem foreignTx_content (n : ℕ) : ∃ p : Bytes, (foreignTx n).content =
    p ++ [UInt8.ofNat (n / 256)] ++ [UInt8.ofNat n] ++ [0x80] := by
  have hdata : encodeBytes [UInt8.ofNat (n / 256), UInt8.ofNat n] =
      RLPStream.dataHead 2 ++ [UInt8.ofNat (n / 256), UInt8.ofNat n] := rfl
  have hfields : (foreignTx n).contentFields = (foreignTx 0).contentFields.take 5 ++
      [encodeBytes [UInt8.ofNat (n / 256), UInt8.ofNat n], [0x80]] := rfl
  refine ⟨RLPStream.listHead (foreignTx n).contentFields.flatten.length ++
    ((foreignTx 0).contentFields.take 5).flatten ++ RLPStream.dataHead 2, ?_⟩
  rw [Transaction.content_eq, encodeList]
  generalize RLPStream.listHead (foreignTx n).contentFields.flatten.length = listHead
  rw [hfields, hdata, List.flatten_append]
  generalize ((foreignTx 0).contentFields.take 5).flatten = front
  simp only [List.flatten_cons, List.flatten_nil, List.append_assoc, List.cons_append,
    List.nil_append, List.append_nil]

theorem foreignTx_hash (h : n < 4096) :
    ((foreignTx n).getHash tailEnv.sha3).toNat / 256 % 65536 = n := by
  obtain ⟨p, hp⟩ := foreignTx_content n
  rw [tailEnv_sha3]
  change (BitVec.ofNat 256 (BigEndian.fromBigEndian (foreignTx n).content)).toNat / 256 % 65536 = n
  rw [hp, BigEndian.fromBigEndian_append_singleton, BigEndian.fromBigEndian_append_singleton,
    BigEndian.fromBigEndian_append_singleton, BitVec.toNat_ofNat, UInt8.toNat_ofNat',
    UInt8.toNat_ofNat', show (0x80 : UInt8).toNat = 128 from rfl]
  omega

theorem foreign_notMem (hid : ∀ k < 4096, (foreignTx k).getHash tailEnv.sha3 ≠ id)
    (hn : n < 4096) : (foreignTx n).getHash tailEnv.sha3 ∉ id :: foreignIDs n := by
  intro hmem
  rcases List.mem_cons.mp hmem with heq | hmem
  · exact hid n hn heq
  · obtain ⟨k, hk, heq⟩ := List.mem_map.mp hmem
    have hlt := List.mem_range.mp hk
    have hhash := foreignTx_hash hn
    rw [← heq, foreignTx_hash (by omega)] at hhash
    omega

theorem perform_foreign {h : List TxID} (hnew : (foreignTx n).getHash tailEnv.sha3 ∉ h) :
    perform tailEnv (.rpcTx (foreignTx n)) (r.withHistory h) =
      (.ok (), r.withHistory (pushFixed 4096 h ((foreignTx n).getHash tailEnv.sha3))) := by
  have hnew' : (foreignTx n).getHash tailEnv.sha3 ∉ (r.withHistory h).historyTxCache := hnew
  have haccept : acceptTx tailEnv (foreignTx n) (fun _ ↦ pure false) (r.withHistory h) =
      (.ok false, r.withHistory (pushFixed 4096 h ((foreignTx n).getHash tailEnv.sha3))) := by
    unfold acceptTx
    rw [Eff.get_bind_apply, if_neg hnew', Eff.modify_bind_apply]
    rfl
  change dispatch (acceptTx tailEnv (foreignTx n) fun _ ↦ pure false) _ = _
  unfold dispatch
  exact Eff.tryCatch_ok (Eff.bind_ok haccept)

theorem reaches_foreign (hP : ∀ t tx, P t (.rpcTx tx)) (hr : Reaches tailEnv P r₀ r)
    (hhistory : r.historyTxCache = [id])
    (hid : ∀ k < 4096, (foreignTx k).getHash tailEnv.sha3 ≠ id) (hn : n ≤ 4095) :
    Reaches tailEnv P r₀ (r.withHistory (id :: foreignIDs n)) := by
  induction n with
  | zero =>
    have heq : r.withHistory (id :: foreignIDs 0) = r := by
      change { r with historyTxCache := [id] } = r
      rw [← hhistory]
    rw [heq]
    exact hr
  | succ n ih =>
    refine .step (ih (by omega)) (hP _ (foreignTx n)) ?_
    have hlength : ¬ 4096 ≤ (id :: foreignIDs n).length := by
      rw [List.length_cons, length_foreignIDs]
      omega
    rw [perform_foreign (foreign_notMem hid (by omega)), foreignIDs_succ]
    unfold pushFixed
    rw [if_neg hlength, List.cons_append]

theorem reaches_forgotten (hP : ∀ t tx, P t (.rpcTx tx)) (hr : Reaches tailEnv P r₀ r)
    (hhistory : r.historyTxCache = [id])
    (hid : ∀ k < 4096, (foreignTx k).getHash tailEnv.sha3 ≠ id) :
    Reaches tailEnv P r₀ (r.withHistory (foreignIDs 4096)) := by
  refine .step (reaches_foreign hP hr hhistory hid (le_refl 4095)) (hP _ (foreignTx 4095)) ?_
  have hlength : 4096 ≤ (id :: foreignIDs 4095).length := by
    rw [List.length_cons, length_foreignIDs]
  rw [perform_foreign (foreign_notMem hid (by omega)),
    show foreignIDs 4096 = _ from foreignIDs_succ 4095]
  unfold pushFixed
  rw [if_pos hlength, List.tail_cons]

/-- A transaction in the block under assembly is forgotten, accepted and taken once more. -/
theorem reaches_replayed {block : Block} {tx : Transaction} {s t w : BlockChain}
    (timestampEnd : Int64) (hr : Reaches tailEnv (fun _ _ ↦ True) r₀ r)
    (hhistory : r.historyTxCache = [tx.getHash tailEnv.sha3])
    (hforeign : ∀ k, (foreignTx k).getHash tailEnv.sha3 ≠ tx.getHash tailEnv.sha3)
    (hproducer : r.producer = .assembling block 1) (hworking : r.working = true)
    (hpre : preProcessTx tailEnv tx r.chain = (.ok (), s))
    (htake : (cacheTx tx s).getTransactionFromCache.1 = some tx)
    (habsent : checkTransactionNotExisted tailEnv (tx.getHash tailEnv.sha3)
      (cacheTx tx s).getTransactionFromCache.2 = (.ok true, t))
    (hempty : t.txCache.toList.head? = none)
    (htime : inTime (block.addTransaction tx).getTimestamp timestampEnd = true)
    (hwork : doWork tailEnv (processProducerBlock (((block.addTransaction tx).setRoots
      tailEnv.sha3).sign tailEnv.sha3 tailEnv.sign) t).2 = (.ok (), w)) :
    ∃ u, Reaches tailEnv (fun _ _ ↦ True) r₀ u ∧ u.chain = w := by
  have hforgotten := reaches_forgotten (fun _ _ ↦ trivial) hr hhistory fun k _ ↦ hforeign k
  have hnew : tx.getHash tailEnv.sha3 ∉ foreignIDs 4096 := by
    intro hmem
    obtain ⟨k, -, heq⟩ := List.mem_map.mp hmem
    exact hforeign k heq
  have hcached := hforgotten.step trivial (rpcTx_accepted hnew hpre)
  have htaken := hcached.step trivial (takes_new (by exact hproducer) (by decide)
    (Prod.ext htake rfl) habsent)
  have hfinished := reaches_finished 398 timestampEnd (fun _ ↦ trivial) (fun _ ↦ trivial) htaken
    rfl hempty rfl htime
  exact ⟨_, hfinished.step trivial (work_ok hworking hwork), rfl⟩

end Flood

section Producing

def firstBlock : Block where
  blockHeader := { extra := [1] }

def idleRelay : Relay where
  chain := start tailEnv
    { accountStore := (Std.ExtTreeMap.insert ∅ 1 (.ok (Account.new 1 10000000 0))).insert 2
        (.ok (Account.new 2 10000000 0))
      blockIndexStore := Std.ExtTreeMap.insert ∅ 0 (.ok firstBlock) }
    { currentProducerList := { producers := [{ address := 1, timestamp := 1, votes := 0 }] } }
    firstBlock

def assembly (txs : List Transaction) : Block where
  blockHeader := {
    number := 1, producer := 1, chainID := 0, timestamp := 1538352000000
    parentHash := firstBlock.getHash tailEnv.sha3 }
  transactions := txs

end Producing

end GseNetwork.Chain.Relay
