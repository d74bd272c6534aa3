import GseNetwork.Chain.Authorisation
import GseNetwork.Core.TransactionsRoot

namespace GseNetwork.Chain

open GseNetwork.Core GseNetwork.Foundation
open BlockChain Relation

/-- The header commits to the transactions of the block as `setRoots` computes it. -/
def Rooted (sha3 : Bytes → H256) (block : Block) : Prop :=
  block.blockHeader.transactionsRoot = (block.setRoots sha3).blockHeader.transactionsRoot

namespace Relay

variable {env : Env} {block : Block} {r t u : Relay} {call : Call}

def Rooting (env : Env) (_ : Relay) (call : Call) : Prop :=
  ∀ block ∈ call.blocks, Checked env block → Rooted env.sha3 block

structure AllRooted (env : Env) (r : Relay) : Prop where
  cached : ∀ (n : ℕ) (b : Block), r.chain.blockCache[n]? = some b → Rooted env.sha3 b
  executed : ∀ b ∈ executedBlocks r.chain, Rooted env.sha3 b

theorem AllRooted.cacheBlock (h : AllRooted env r) (hblock : Rooted env.sha3 block) :
    AllRooted env { r with chain := BlockChain.cacheBlock block r.chain } := by
  refine ⟨fun n b hb ↦ ?_, h.executed⟩
  rcases mem_cacheBlock hb with rfl | hold
  · exact hblock
  · exact h.cached n b hold

theorem rooted_produced (b : Block) :
    Rooted env.sha3 ((b.setRoots env.sha3).sign env.sha3 env.sign) := rfl

theorem AllRooted.move (h : AllRooted env r) (hrooting : Rooting env r call)
    (hmove : Moves env call r t) : AllRooted env t := by
  cases hmove with
  | checks hchecks =>
    refine ⟨fun n b hb ↦ h.cached n b ?_, fun b hb ↦ h.executed b ?_⟩
    · rwa [← hchecks.blockCache_eq]
    · rwa [← executedBlocks_of_control hchecks.control_eq]
  | history => exact ⟨h.cached, h.executed⟩
  | tx => exact ⟨h.cached, h.executed⟩
  | block hmem hchecked =>
    have hcached := h.cacheBlock (hrooting _ hmem hchecked)
    exact ⟨hcached.cached, hcached.executed⟩
  | index => exact ⟨h.cached, h.executed⟩
  | status => exact ⟨h.cached, h.executed⟩
  | take =>
    unfold getTransactionFromCache
    cases r.chain.txCache.toList.head? <;> exact ⟨h.cached, h.executed⟩
  | producer => exact ⟨h.cached, h.executed⟩
  | produce block hproduced =>
    obtain ⟨b, rfl⟩ := hproduced
    unfold processProducerBlock
    split_ifs
    · exact ⟨h.cached, h.executed⟩
    · have hcached := h.cacheBlock (rooted_produced b)
      exact ⟨hcached.cached, hcached.executed⟩

theorem AllRooted.perform (h : AllRooted env r) (hrooting : Rooting env r call)
    (hstep : perform env call r = (.ok (), t)) : AllRooted env t := by
  have ht : (Relay.perform env call r).2 = t := by rw [hstep]
  rw [← ht]
  by_cases hwork : call = .work
  · subst hwork
    obtain ⟨hcached, hexecuted⟩ := work_blocks h.cached h.executed
    exact ⟨hcached, hexecuted⟩
  · exact steps_invariant (I := AllRooted env) (fun _ _ hmove hs ↦ hs.move hrooting hmove)
      (perform_moves hwork r) h

/-- In a run from a node that has executed nothing, in which the received blocks are rooted, so are
the executed ones. -/
theorem executed_rooted (hcache : r.chain.blockCache = ∅) (hexecuted : executedBlocks r.chain = [])
    (hrun : Reaches env (Rooting env) r u) : ∀ b ∈ executedBlocks u.chain, Rooted env.sha3 b := by
  have hstart : AllRooted env r := by
    refine ⟨fun n b hb ↦ ?_, fun b hb ↦ ?_⟩
    · simp [hcache] at hb
    · simp [hexecuted] at hb
  have hall : AllRooted env u := by
    induction hrun with
    | start => exact hstart
    | step _ hrooting hstep ih => exact ih.perform hrooting hstep
  exact hall.executed

end Relay

section Identity

variable {sha3 : Bytes → H256} {b b' : Block}

/-- The block can be encoded: its times are not negative, which the library refuses, its encodings
have lengths that can be written, and `setRoots` gets through its transactions. -/
structure Encodable (block : Block) : Prop where
  count : block.transactions.length < 2 ^ 32
  timed : ∀ tx ∈ block.transactions, 0 ≤ tx.timestamp
  fits : ∀ tx ∈ block.transactions, tx.getRLPData.length < maxLength

/-- The hash has no collision between the two headers, nor among the nodes that are hashed for the
two roots. -/
structure Separates (sha3 : Bytes → H256) (b b' : Block) : Prop where
  headers : b.getHash sha3 = b'.getHash sha3 → b.blockHeader.content = b'.blockHeader.content
  tries : Trie.SeparatesNodes sha3 (Trie.hashedNodes sha3 b.transactionsMap ++
    Trie.hashedNodes sha3 b'.transactionsMap)

theorem eq_of_encodings {l l' : List Transaction}
    (hl : ∀ tx ∈ l, Transaction.ofRLP tx.getRLPData = .ok tx)
    (hl' : ∀ tx ∈ l', Transaction.ofRLP tx.getRLPData = .ok tx)
    (h : l.map Transaction.getRLPData = l'.map Transaction.getRLPData) : l = l' := by
  induction l generalizing l' with
  | nil => exact (List.map_eq_nil_iff.mp h.symm).symm
  | cons x l ih =>
    cases l' with
    | nil => exact absurd h (by simp)
    | cons y l' =>
      rw [List.map_cons, List.map_cons, List.cons.injEq] at h
      have hread := hl x List.mem_cons_self
      rw [h.1, hl' y List.mem_cons_self, Except.ok.injEq] at hread
      rw [hread, ih (fun tx htx ↦ hl tx (List.mem_cons_of_mem x htx))
        (fun tx htx ↦ hl' tx (List.mem_cons_of_mem y htx)) h.2]

theorem transactions_eq (hb : Rooted sha3 b) (hb' : Rooted sha3 b') (hencodes : Encodable b)
    (hencodes' : Encodable b') (hsha3 : Separates sha3 b b')
    (hid : b.getHash sha3 = b'.getHash sha3) : b.transactions = b'.transactions := by
  have hroots := (BlockHeader.eq_of_content (hsha3.headers hid)).2.2.1
  rw [hb, hb'] at hroots
  have hmaps : b.transactionsMap = b'.transactionsMap :=
    Trie.trieHash256_inj (Trie.transactionsMap_ne_nil hencodes.count)
      (Trie.transactionsMap_ne_nil hencodes'.count) hsha3.tries hroots
  refine eq_of_encodings (fun tx htx ↦ ?_) (fun tx htx ↦ ?_)
    (Trie.encoded_eq hencodes.count hencodes'.count hmaps)
  · exact Transaction.ofRLP_getRLPData (hencodes.timed tx htx) (hencodes.fits tx htx)
  · exact Transaction.ofRLP_getRLPData (hencodes'.timed tx htx) (hencodes'.fits tx htx)

end Identity

/-- Of any two nodes with the same hash, in runs that receive rooted blocks only, executed blocks
with one id carry the same transactions. -/
theorem id_fixes_transactions {env env' : Env} {r u r' u' : Relay} {b b' : Block}
    (hsame : env'.sha3 = env.sha3)
    (hstart : r.chain.blockCache = ∅ ∧ executedBlocks r.chain = [])
    (hstart' : r'.chain.blockCache = ∅ ∧ executedBlocks r'.chain = [])
    (hrun : Relay.Reaches env (Relay.Rooting env) r u)
    (hrun' : Relay.Reaches env' (Relay.Rooting env') r' u')
    (hb : b ∈ executedBlocks u.chain) (hb' : b' ∈ executedBlocks u'.chain)
    (hencodes : Encodable b) (hencodes' : Encodable b') (hsha3 : Separates env.sha3 b b')
    (hid : b.getHash env.sha3 = b'.getHash env.sha3) : b.transactions = b'.transactions := by
  have hrooted := Relay.executed_rooted hstart.1 hstart.2 hrun b hb
  have hrooted' := Relay.executed_rooted hstart'.1 hstart'.2 hrun' b' hb'
  rw [hsame] at hrooted'
  exact transactions_eq hrooted hrooted' hencodes hencodes' hsha3 hid

namespace Relay

def mixingEnv : Env := { openEnv with sha3 := Trie.mixingHash }

def ownerRelay (balance : UInt64) : Relay where
  chain := start mixingEnv
    { accountStore := (Std.ExtTreeMap.insert ∅ 1 (.ok (Account.new 1 10000000 0))).insert 2
        (.ok (Account.new 2 balance 0))
      blockIndexStore := Std.ExtTreeMap.insert ∅ 0 (.ok {}) }
    { currentProducerList := { producers := [{ address := 1, timestamp := 1, votes := 0 }] } } {}

/-- A block with three transfers of the address two and the root that `setRoots` computes. -/
def paymentsBlock : Block where
  blockHeader := { (openBlock 1).blockHeader with
    parentHash := 447107683, transactionsRoot := 87997273 }
  transactions := [openTransfer 0 2 2, { openTransfer 0 2 2 with timestamp := 2 },
    { openTransfer 0 2 2 with timestamp := 3, value := 50 }]

theorem rooted_paymentsBlock : Rooted mixingEnv.sha3 paymentsBlock := by
  unfold Rooted
  decide +kernel

/-- Two nodes with different ledgers that received one block with three transfers. -/
theorem id_fixes_transactions_payments :
    executedBlocks (afterMessage mixingEnv (ownerRelay 100000000) paymentsBlock).chain =
        [paymentsBlock] ∧
      ∀ b ∈ executedBlocks (afterMessage mixingEnv (ownerRelay 100000000) paymentsBlock).chain,
      ∀ b' ∈ executedBlocks (afterMessage mixingEnv (ownerRelay 200000000) paymentsBlock).chain,
        b.transactions = b'.transactions := by
  have hfirst : (perform mixingEnv (.blockMessage paymentsBlock) (ownerRelay 100000000)).1.isOk ∧
      (perform mixingEnv .work (perform mixingEnv (.blockMessage paymentsBlock)
        (ownerRelay 100000000)).2).1.isOk ∧
      executedBlocks (afterMessage mixingEnv (ownerRelay 100000000) paymentsBlock).chain =
        [paymentsBlock] := by
    decide +kernel
  have hsecond : (perform mixingEnv (.blockMessage paymentsBlock) (ownerRelay 200000000)).1.isOk ∧
      (perform mixingEnv .work (perform mixingEnv (.blockMessage paymentsBlock)
        (ownerRelay 200000000)).2).1.isOk ∧
      executedBlocks (afterMessage mixingEnv (ownerRelay 200000000) paymentsBlock).chain =
        [paymentsBlock] := by
    decide +kernel
  have hrooting (t : Relay) : Rooting mixingEnv t (.blockMessage paymentsBlock) := by
    intro block hblock _
    rw [List.mem_singleton.mp hblock]
    exact rooted_paymentsBlock
  have hworking (t : Relay) : Rooting mixingEnv t .work := fun block hblock ↦ by cases hblock
  have hencodes : Encodable paymentsBlock :=
    ⟨by decide +kernel, by decide +kernel, by decide +kernel⟩
  have hsha3 : Separates mixingEnv.sha3 paymentsBlock paymentsBlock :=
    ⟨fun _ ↦ rfl, by decide +kernel⟩
  refine ⟨hfirst.2.2, fun b hb b' hb' ↦ ?_⟩
  have hone : b = paymentsBlock := by
    rw [hfirst.2.2] at hb
    exact List.mem_singleton.mp hb
  have hother : b' = paymentsBlock := by
    rw [hsecond.2.2] at hb'
    exact List.mem_singleton.mp hb'
  have hrun := reaches_afterMessage (hrooting (ownerRelay 100000000)) (hworking _)
    ⟨hfirst.1, hfirst.2.1⟩
  have hrun' := reaches_afterMessage (hrooting (ownerRelay 200000000)) (hworking _)
    ⟨hsecond.1, hsecond.2.1⟩
  refine id_fixes_transactions rfl ⟨rfl, rfl⟩ ⟨rfl, rfl⟩ hrun hrun' hb hb' ?_ ?_ ?_ ?_
  · exact hone ▸ hencodes
  · exact hother ▸ hencodes
  · rw [hone, hother]
    exact hsha3
  · rw [hone, hother]

end Relay

open Relay in
/-- Two nodes execute blocks with one id, of which only one carries a transfer. -/
theorem id_shared :
    executedBlocks (afterMessage openEnv fundedRelay (transferBlock [openTransfer 0 2 2])).chain =
        [transferBlock [openTransfer 0 2 2]] ∧
      executedBlocks (afterMessage openEnv fundedRelay (transferBlock [])).chain =
        [transferBlock []] ∧
      (transferBlock [openTransfer 0 2 2]).getHash openEnv.sha3 =
        (transferBlock []).getHash openEnv.sha3 ∧
      (transferBlock [openTransfer 0 2 2]).transactions ≠ (transferBlock []).transactions := by
  refine ⟨by decide +kernel, by decide +kernel, rfl, ?_⟩
  exact List.cons_ne_nil _ _

end GseNetwork.Chain
