import GseNetwork.Chain.Node
import GseNetwork.Chain.Valid
import GseNetwork.Core.Trie

namespace GseNetwork.Storage.Repository

open GseNetwork.Core

/-- `Repository::getBlock`: the block of the repository itself, of one below it, or one of the
database. -/
def getBlock (sha3 : Bytes → H256) (db : DatabaseController) (blockID : BlockID) :
    List Repository → Except Exception Block
  | [] => db.getBlock blockID
  | r :: rest =>
    if r.block.getHash sha3 = blockID then .ok r.block
    else if rest.isEmpty then db.getBlock blockID
    else do
      let ret ← getBlock sha3 db blockID rest
      if ret.getHash sha3 = emptyBlock.getHash sha3 then db.getBlock blockID else return ret

end GseNetwork.Storage.Repository

namespace GseNetwork.Chain

open GseNetwork.Core GseNetwork.Foundation GseNetwork.Storage

namespace BlockChain

section Checks

variable (env : Env)

/-- An operation on a child repository of the last item, which is dropped afterwards; its reads
stay cached below. -/
def onChild {α : Type} (m : DatabaseController → RepoM α) : ChainM α := fun s ↦
  let r := m s.dbc ({ block := emptyBlock } :: stack s.memoryQueue)
  (r.1, { s with memoryQueue := unstack s.memoryQueue r.2.tail })

def isExistTx (tx : Transaction) : ChainM Bool := do
  let s ← Eff.get
  if s.txCache.toList.any fun i ↦ i.2.getHash env.sha3 == tx.getHash env.sha3 then return true
  else do
    let item ← onChild fun db ↦ Repository.getTransaction env.sha3 db (tx.getHash env.sha3)
    return !item.equal env.sha3 emptyTransaction

def isExistBlock (block : Block) : ChainM Bool := do
  let s ← Eff.get
  if s.blockCache.toList.any fun i ↦ i.2.getHash env.sha3 == block.getHash env.sha3 then return true
  else do
    let item ← Eff.ofExcept (Repository.getBlock env.sha3 s.dbc (block.getHash env.sha3)
      ({ block := emptyBlock } :: stack s.memoryQueue))
    return item.getHash env.sha3 != emptyBlock.getHash env.sha3

def checkDuplicateTx (block : Block) : Bool :=
  decide (block.transactions.map fun tx ↦ tx.getHash env.sha3).Nodup

/-- Before it is accepted a transaction is executed on a child repository, for a block without a
time. -/
def preProcessTx (tx : Transaction) : ChainM Unit :=
  if tx.chainID ≠ env.chainID then
    Eff.throw ⟨.blockChain, "The transaction's ChainID is not current ChainID"⟩
  else if !Valid.validTransaction env tx then
    Eff.throw ⟨.blockChain,
      "Transaction(" ++ (tx.getHash env.sha3).toHex ++ ") is not valid signature."⟩
  else do
    if ← isExistTx env tx then
      Eff.throw ⟨.blockChain, "Transaction(" ++ (tx.getHash env.sha3).toHex ++ ") has exist."⟩
    else onChild fun db ↦ Runtime.excute env.sha3 db 0 tx

def blockException (block : Block) (reason : String) : Exception :=
  ⟨.blockChain, "Block(number:" ++ toString block.getNumber ++ " hash:" ++
    (block.getHash env.sha3).toHex ++ ") " ++ reason⟩

def preProcessBlock (block : Block) : ChainM Unit :=
  if block.blockHeader.chainID ≠ env.chainID then
    Eff.throw ⟨.blockChain, "Block's ChainID is not current ChainID"⟩
  else if !Valid.validBlock env block then
    Eff.throw (blockException env block "is not valid signature.")
  else do
    if ← isExistBlock env block then Eff.throw (blockException env block "has exist.")
    else if !checkDuplicateTx env block then
      Eff.throw (blockException env block "has duplicate transactions.")
    else onChild fun db ↦ Eff.forEach block.transactions fun tx ↦
      Runtime.excute env.sha3 db 0 tx

def cacheTx (tx : Transaction) (s : BlockChain) : BlockChain :=
  { s with txCache := s.txCache.insertIfNew tx.timestamp.toInt tx }

def getTransactionFromCache (s : BlockChain) : Option Transaction × BlockChain :=
  match s.txCache.toList.head? with
  | none => (none, s)
  | some (timestamp, tx) => (some tx, { s with txCache := s.txCache.erase timestamp })

def processProducerBlock (block : Block) (s : BlockChain) : Bool × BlockChain :=
  if block.getNumber ≤ s.attributes.currentBlockHeight then (false, s)
  else (true, cacheBlock block s)

end Checks

end BlockChain

def pushFixed {α : Type} (size : ℕ) (queue : List α) (x : α) : List α :=
  (if size ≤ queue.length then queue.tail else queue) ++ [x]

/-- Where the thread of the producer server is: between two calls of `doWork`, in the loop that
fills a block, or ended by an exception. -/
inductive ProducerState
  | idle
  | assembling (block : Block) (rounds : ℕ)
  | stopped
  deriving DecidableEq

/-- A node with the state of its threads and what it remembers of the messages it has received.
`relayed`, `received` and `produced` record the accepted transactions, the accepted blocks and the
blocks handed to `processProducerBlock`. -/
structure Relay where
  chain : BlockChain
  historyTxCache : List TxID := []
  historyBroadcastBlockCache : List BlockID := []
  producer : ProducerState := .idle
  prevTimestamp : ℤ := -1
  working : Bool := true
  relayed : List Transaction := []
  received : List Block := []
  produced : List Block := []

abbrev RelayM := Eff Relay Exception

namespace Relay

open BlockChain

def onChain {α : Type} (m : ChainM α) : RelayM α :=
  Eff.zoom chain (fun chain r ↦ { r with chain := chain }) m

/-- The exceptions that the handlers of messages answer themselves; all others end the handling
of the whole packet. -/
def answers (e : Exception) : Bool :=
  e.type == .blockChain || e.type == .repository || e.type.isCore

variable (env : Env)

def rememberTx (tx : Transaction) (r : Relay) : Relay :=
  { r with historyTxCache := pushFixed 4096 r.historyTxCache (tx.getHash env.sha3) }

def acceptTx (tx : Transaction) (handler : Exception → RelayM Bool) : RelayM Bool := do
  let r ← Eff.get
  if tx.getHash env.sha3 ∈ r.historyTxCache then return false
  else do
    Eff.modify (rememberTx env tx)
    Eff.tryCatch (do
      onChain (preProcessTx env tx)
      Eff.modify fun r ↦ { r with
        chain := cacheTx tx r.chain
        relayed := r.relayed ++ [tx] }
      return true) handler

def addRPCTx (tx : Transaction) : RelayM Bool := acceptTx env tx fun _ ↦ pure false

def processTxMessage (tx : Transaction) : RelayM Bool :=
  acceptTx env tx fun e ↦ if answers e then pure false else Eff.throw e

def acceptBlock (block : Block) : RelayM Bool :=
  Eff.tryCatch (do
    onChain (preProcessBlock env block)
    Eff.modify fun r ↦ { r with
      chain := cacheBlock block r.chain
      received := r.received ++ [block] }
    return true) fun e ↦ if answers e then pure false else Eff.throw e

def processBlockMessage (block : Block) : RelayM Bool := do
  let r ← Eff.get
  if (r.chain.latestBlockNumber + 1000) % 2 ^ 64 < block.getNumber ∨
      block.getNumber ≤ r.chain.rollbackState.solidifyNumber then return false
  else if block.getHash env.sha3 ∈ r.historyBroadcastBlockCache then return false
  else do
    Eff.modify fun r ↦ { r with
      historyBroadcastBlockCache :=
        pushFixed 8 r.historyBroadcastBlockCache (block.getHash env.sha3) }
    acceptBlock env block

def processSyncBlockMessage (block : Block) : RelayM Bool := acceptBlock env block

def processReplyBlocks (blocks : List Block) : RelayM Unit :=
  Eff.forEach blocks fun block ↦ do
    let _ ← processSyncBlockMessage env { block with syncBlock := true }

end Relay

end GseNetwork.Chain
