import GseNetwork.Chain.Intake

namespace GseNetwork.Chain

open GseNetwork.Core GseNetwork.Foundation GseNetwork.Storage

namespace Relay

open BlockChain

variable (env : Env)

def checkProducer (timestamp : Int64) (r : Relay) : Bool :=
  let slice :=
    ((timestamp.toInt - genesisTimestamp).tdiv producerInterval) * producerInterval
  decide (r.prevTimestamp ≤ timestamp.toInt) &&
    env.address == r.chain.getExpectedProducer timestamp &&
    decide (r.prevTimestamp - genesisTimestamp < slice) &&
    decide (r.chain.latestBlock.getTimestamp.toInt - genesisTimestamp < slice) &&
    decide (r.chain.blockChainStatus = .producer)

/-- `ProducerServer::doWork` up to its loop, at the given time. -/
def beginBlock (timestamp : Int64) (r : Relay) : Relay :=
  if !r.checkProducer env timestamp then r
  else
    let prevBlock := r.chain.latestBlock
    if prevBlock.getHash env.sha3 = emptyBlock.getHash env.sha3 then
      { r with prevTimestamp := timestamp.toInt }
    else { r with
      prevTimestamp := timestamp.toInt
      producer := .assembling { blockHeader := {
        number := UInt64.ofNat (prevBlock.getNumber + 1)
        producer := env.address
        chainID := env.chainID
        timestamp := timestamp
        parentHash := prevBlock.getHash env.sha3 } } 0 }

def maxTransactionsPerBlock : ℕ := 400

def checkTransactionNotExisted (txID : TxID) : ChainM Bool := do
  let item ← onRepo fun db ↦ Repository.getTransaction env.sha3 db txID
  return item.equal env.sha3 emptyTransaction

/-- One round of the loop in `ProducerServer::doWork`. An exception ends the thread, and the block
is gone. -/
def takeTransaction (block : Block) (rounds : ℕ) : RelayM Unit := do
  let r ← Eff.get
  Eff.modify fun r ↦ { r with chain := r.chain.getTransactionFromCache.2 }
  match r.chain.getTransactionFromCache.1 with
  | none => Eff.modify fun r ↦ { r with producer := .assembling block (rounds + 1) }
  | some tx =>
    Eff.tryCatch
      (do
        let absent ← onChain (checkTransactionNotExisted env (tx.getHash env.sha3))
        let block' := if absent then block.addTransaction tx else block
        Eff.modify fun r ↦ { r with producer := .assembling block' (rounds + 1) })
      fun _ ↦ Eff.modify fun r ↦ { r with producer := .stopped }

def inTime (timestamp timestampEnd : Int64) : Bool :=
  decide ((timestampEnd.toInt - timestamp.toInt) % 2 ^ 64 < 600)

def finishBlock (block : Block) (timestampEnd : Int64) (r : Relay) : Relay :=
  let block' := (block.setRoots env.sha3).sign env.sha3 env.sign
  if inTime block.getTimestamp timestampEnd then { r with
    producer := .idle
    chain := (processProducerBlock block' r.chain).2
    produced := r.produced ++ [block'] }
  else { r with producer := .idle }

end Relay

/-- What happens to a node: a call of its interface or a message is handled, its worker thread
takes a block, the producer server goes one step further. -/
inductive Call
  | rpcTx (tx : Transaction)
  | txMessage (tx : Transaction)
  | blockMessage (block : Block)
  | replyBlocks (blocks : List Block)
  | confirmation (hc : HeaderConfirmation)
  | blockState (number : ℕ) (confirmations : List HeaderConfirmation)
  | status (status : BlockChainStatus)
  | work
  | begins (timestamp : Int64)
  | takes
  | finishes (timestampEnd : Int64)

def Call.blocks : Call → List Block
  | .blockMessage block => [block]
  | .replyBlocks blocks => blocks.map fun block ↦ { block with syncBlock := true }
  | _ => []

namespace Relay

open BlockChain

variable (env : Env)

def dispatch {α : Type} (m : RelayM α) : RelayM Unit :=
  Eff.tryCatch (do let _ ← m) fun _ ↦ pure ()

/-- An exception ends the thread that runs `doWork`, or the process. -/
def work : RelayM Unit := do
  let r ← Eff.get
  if r.working then
    Eff.tryCatch (onChain (doWork env)) fun e ↦
      if e.type = .exitProcess then Eff.throw e
      else Eff.modify fun r ↦ { r with working := false }
  else pure ()

def startAssembly (timestamp : Int64) (r : Relay) : Relay :=
  match r.producer with
  | .idle => r.beginBlock env timestamp
  | _ => r

def continueAssembly : RelayM Unit := do
  let r ← Eff.get
  match r.producer with
  | .assembling block rounds =>
    if rounds < maxTransactionsPerBlock then takeTransaction env block rounds else pure ()
  | _ => pure ()

def endAssembly (timestampEnd : Int64) (r : Relay) : Relay :=
  match r.producer with
  | .assembling block rounds =>
    if rounds < maxTransactionsPerBlock then r else r.finishBlock env block timestampEnd
  | _ => r

def perform : Call → RelayM Unit
  | .rpcTx tx => dispatch (addRPCTx env tx)
  | .txMessage tx => dispatch (processTxMessage env tx)
  | .blockMessage block => dispatch (processBlockMessage env block)
  | .replyBlocks blocks => dispatch (processReplyBlocks env blocks)
  | .confirmation hc => onChain (handle env (.confirmation hc))
  | .blockState number confirmations => onChain (handle env (.blockState number confirmations))
  | .status status => onChain (handle env (.status status))
  | .work => work env
  | .begins timestamp => Eff.modify (startAssembly env timestamp)
  | .takes => continueAssembly env
  | .finishes timestampEnd => Eff.modify (endAssembly env timestampEnd)

/-- The runs of a node in which every call meets `P` in the state it finds. -/
inductive Reaches (P : Relay → Call → Prop) (r : Relay) : Relay → Prop
  | start : Reaches P r r
  | step {t u : Relay} {call : Call} :
      Reaches P r t → P t call → perform env call t = (.ok (), u) → Reaches P r u

end Relay

end GseNetwork.Chain
