import GseNetwork.Chain.RollbackState
import GseNetwork.Producer.Schedule
import GseNetwork.Runtime.Action

namespace GseNetwork.Chain

open GseNetwork.Core GseNetwork.Foundation GseNetwork.Storage GseNetwork.Producer
open Std (ExtTreeMap)

/-- What a node runs with: the cryptography, the key of the node, the codec of its database, and
the results of what the language leaves undefined (the byte an uninitialised counter holds, a
shift by 64 or more). -/
structure Env where
  sha3 : Bytes → H256
  sign : H256 → SignatureStruct := fun _ ↦ {}
  recover : SignatureStruct → H256 → Public := fun _ _ ↦ 0
  chainID : ChainID
  address : Address
  codec : Codec := Codec.faithful
  garbage : UInt8 := 0
  shiftOut : UInt64 → ℕ → UInt64 := fun x n ↦ x >>> UInt64.ofNat (n % 64)

structure MemoryItem where
  blockNumber : ℕ
  repository : Repository
  isDone : Bool := false

inductive BlockChainStatus
  | normal
  | sync
  | producer
  | killed
  deriving DecidableEq

/-- The state of a node. `sent` records the confirmations handed to the network, `committed` the
blocks whose repositories were committed, and `frontOfEmpty` whether `front()` was called on an
empty queue. -/
structure BlockChain where
  dbc : DatabaseController
  attributes : Attributes
  schedule : Schedule
  memoryQueue : List MemoryItem := []
  rollbackState : RollbackState
  head : BlockState
  blockChainStatus : BlockChainStatus := .producer
  txCache : ExtTreeMap ℤ Transaction := ∅
  blockCache : ExtTreeMap ℕ Block := ∅
  currentActiveProducers : ProducerSnapshot := {}
  prevPS : ProducerSnapshot := {}
  currentPS : ProducerSnapshot := {}
  latestBlockNumber : ℕ
  latestBlock : Block
  producerRecord : ExtTreeMap Address ℤ := ∅
  scheduleUpdateBlockTimestamp : ℤ := 0
  sent : List HeaderConfirmation := []
  committed : List Block := []
  frontOfEmpty : Bool := false

abbrev ChainM := Eff BlockChain Exception

namespace BlockChain

def stack (queue : List MemoryItem) : List Repository := (queue.map (·.repository)).reverse

def unstack (queue : List MemoryItem) (repositories : List Repository) : List MemoryItem :=
  List.zipWith (fun i r ↦ { i with repository := r }) queue repositories.reverse

/-- An operation on the repository of the last item; on an empty queue the stack is empty, which
reads the database. -/
def onRepo {α : Type} (m : DatabaseController → RepoM α) : ChainM α := fun s ↦
  Eff.zoom (fun s ↦ stack s.memoryQueue)
    (fun st s ↦ { s with memoryQueue := unstack s.memoryQueue st }) (m s.dbc) s

/-- The slot of a time within its round, converted to `unsigned`. -/
def producerPosition (timestamp : Int64) : ℕ :=
  ((((timestamp.toInt - genesisTimestamp).tmod timePerRound).tdiv producerInterval) % 2 ^ 32).toNat

def getExpectedProducer (s : BlockChain) (timestamp : Int64) : Address :=
  s.schedule.getAddress (producerPosition timestamp)

def checkProducer (s : BlockChain) (block : Block) : Bool :=
  let timestamp := block.getTimestamp
  let blockSlice :=
    ((timestamp.toInt - genesisTimestamp).tdiv producerInterval) * producerInterval
  if block.getProducer ≠ s.getExpectedProducer timestamp then false
  else if s.producerRecord[block.getProducer]?.any fun record ↦
    decide (blockSlice ≤ record - genesisTimestamp) then false
  else if blockSlice ≤ s.scheduleUpdateBlockTimestamp - genesisTimestamp then false
  else true

def addMemoryItem (block : Block) (s : BlockChain) : BlockChain :=
  { s with memoryQueue := s.memoryQueue ++
      [{ blockNumber := block.getNumber, repository := { block := block } }] }

def cancelMemoryItem (s : BlockChain) : BlockChain :=
  { s with memoryQueue := s.memoryQueue.dropLast }

variable (env : Env)

def isExistInRepo (tx : Transaction) : ChainM Bool := do
  let item ← onRepo fun db ↦ Repository.getTransaction env.sha3 db (tx.getHash env.sha3)
  return !item.equal env.sha3 emptyTransaction

/-- `getBlockByNumber`, with the wrap-around of `getNumber() - 1` left to the caller. -/
def getBlockByNumber (s : BlockChain) (number : ℕ) : Except Exception Block :=
  if s.latestBlockNumber < number then .ok emptyBlock
  else if number ≤ s.rollbackState.solidifyNumber then s.dbc.getBlockByNumber number
  else match s.memoryQueue.find? fun i ↦ i.blockNumber == number with
    | some i =>
      if (s.memoryQueue.map (·.blockNumber)).headD 0 ≤ number ∧
          number ≤ (s.memoryQueue.map (·.blockNumber)).getLastD 0 then
        .ok i.repository.block
      else s.dbc.getBlockByNumber number
    | none => s.dbc.getBlockByNumber number

def deleteProducer (x : ProducerSnapshot) (producer : Producer) : ProducerSnapshot :=
  { x with producers := x.producers.eraseP fun i ↦ i.equal producer }

/-- The positions of the schedule that `updateActiveProducers` drops: those of the slots passed
over since the previous block. -/
def skipped (prevIndex currentIndex i : ℕ) : Bool :=
  if prevIndex < currentIndex then decide (prevIndex < i ∧ i < currentIndex)
  else if prevIndex = currentIndex then decide (i ≠ currentIndex)
  else decide (i < currentIndex ∨ (prevIndex + 1) % 2 ^ 32 ≤ i)

/-- `updateActiveProducers`, with the number under which the block before is looked up. -/
def updateActiveProducersFrom (prevNumber : ℕ) (block : Block) : ChainM Unit := do
  let s ← Eff.get
  let currentIndex := producerPosition block.getTimestamp
  let prevBlock ← Eff.ofExcept (s.getBlockByNumber prevNumber)
  let prevIndex := producerPosition prevBlock.getTimestamp
  Eff.modify fun s ↦ { s with currentActiveProducers.timestamp := block.getTimestamp }
  let producer ← Eff.ofExcept (s.dbc.getProducer block.getProducer)
  let dropped := (s.schedule.getCurrentProducerList.zipIdx.filter fun i ↦
    skipped prevIndex currentIndex i.2).map (·.1)
  Eff.modify fun s ↦ { s with
    currentActiveProducers := dropped.foldl deleteProducer
      (s.currentActiveProducers.addProducer producer) }

def updateActiveProducers (block : Block) : ChainM Unit :=
  updateActiveProducersFrom ((block.getNumber + (2 ^ 64 - 1)) % 2 ^ 64) block

/-- The state `init` sets up over the last committed block, with the schedules pushed. -/
def start (dbc : DatabaseController) (attributes : Attributes) (solidifyBlock : Block) :
    BlockChain :=
  let head := { BlockState.ofBlock env.sha3 env.garbage solidifyBlock with
    bftSolidifyBlockNumber := solidifyBlock.getNumber }
  let prevPS := attributes.prevProducerList
  let currentPS := if solidifyBlock.getTimestamp < attributes.currentProducerList.timestamp then
    attributes.prevProducerList else attributes.currentProducerList
  { dbc, attributes, head, prevPS, currentPS
    schedule := (Schedule.schedule {} prevPS.producers prevPS.timestamp).schedule
      currentPS.producers currentPS.timestamp
    rollbackState := { head, index := [head] }
    currentActiveProducers := attributes.solidifyActiveProducerList
    latestBlockNumber := solidifyBlock.getNumber
    latestBlock := solidifyBlock }

def init (dbc : DatabaseController) (attributes : Attributes) : Except Exception BlockChain := do
  let solidifyBlock ← dbc.getBlockByNumber attributes.currentBlockHeight
  if dbc.attributesStore.dbDirty = 1 then
    throw ⟨.blockChain, "Database corruption, please delete database and sync again!"⟩
  else return start env dbc { attributes with dbDirty := dbc.attributesStore.dbDirty } solidifyBlock

end BlockChain

end GseNetwork.Chain
