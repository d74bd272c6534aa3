import GseNetwork.Chain.BlockChain

namespace GseNetwork.Chain.BlockChain

open GseNetwork.Core GseNetwork.Foundation GseNetwork.Storage GseNetwork.Producer
open Std (ExtTreeMap)

variable (env : Env)

section Processing

def updateSchedule (timestamp : Int64) : ChainM Unit := do
  let s ← Eff.get
  let updatedSchedule ← Eff.ofExcept (Repository.getProducerList s.dbc (stack s.memoryQueue))
  let currentPS : ProducerSnapshot :=
    { (updatedSchedule.toList.map (·.2)).foldl ProducerSnapshot.addProducer s.currentPS.clear with
      timestamp := timestamp }
  Eff.modify fun s ↦ { s with
    prevPS := s.currentPS
    currentPS := currentPS
    schedule := s.schedule.schedule currentPS.producers timestamp
    attributes.prevProducerList := s.currentPS
    attributes.currentProducerList := currentPS
    dbc := s.dbc.putAll env.sha3 env.codec
      [.prevProducerList s.currentPS, .currentProducerList currentPS] }

def updateProducerRecord (s : BlockChain) : BlockChain :=
  let producerRecord := s.schedule.getCurrentProducerList.foldl
    (fun m i ↦ m.insert i.address (s.producerRecord.getD i.address 0)) ∅
  { s with producerRecord }

/-- The bonus halves every year. The factor is an `unsigned`, and a shift by the word size or
more is undefined. -/
def blockBonus (timestamp : Int64) : UInt64 :=
  let bonusFactor :=
    (((timestamp.toInt - genesisTimestamp).tdiv millisecondsPerYear) % 2 ^ 32).toNat
  if bonusFactor < 64 then blockBonusBase >>> UInt64.ofNat bonusFactor
  else env.shiftOut blockBonusBase bonusFactor

def eraseSolicitedTx (block : Block) (s : BlockChain) : BlockChain :=
  { s with txCache := s.txCache.filter fun _ tx ↦
      !block.transactions.any fun i ↦ i.getHash env.sha3 == tx.getHash env.sha3 }

def ownConfirmation (block : Block) : HeaderConfirmation :=
  HeaderConfirmation.sign env.sha3 env.sign {
    chainID := env.chainID
    number := block.blockHeader.number
    blockID := block.getHash env.sha3
    timestamp := block.getTimestamp
    producer := env.address }

def sendConfirmation (block : Block) (s : BlockChain) : BlockChain :=
  if block.syncBlock then s
  else { s with
    rollbackState := s.rollbackState.addConfirmation (ownConfirmation env block)
    sent := s.sent ++ [ownConfirmation env block] }

def setDone (s : BlockChain) : BlockChain :=
  { s with memoryQueue := s.memoryQueue.dropLast ++
      (s.memoryQueue.getLast?.map fun i ↦ { i with isDone := true }).toList }

def prepareBlock (block : Block) : ChainM Unit := do
  Eff.forEach block.transactions fun tx ↦ do
    if ← isExistInRepo env tx then
      Eff.throw ⟨.blockChain, "Transaction(" ++ (tx.getHash env.sha3).toHex ++ ") has exist."⟩
    else pure ()
  updateActiveProducers block
  Eff.modify fun s ↦ { s with
    producerRecord := s.producerRecord.insert block.getProducer block.getTimestamp.toInt }

def reschedule (block : Block) : ChainM Unit :=
  if block.getNumber % (numDelegatedBlocks * scheduleUpdateRounds) = 0 then do
    updateSchedule env block.getTimestamp
    Eff.modify fun s ↦ updateProducerRecord
      { s with currentActiveProducers := s.currentActiveProducers.clear }
    Eff.modify fun s ↦ { s with scheduleUpdateBlockTimestamp := block.getTimestamp.toInt }
  else pure ()

def executeBlock (block : Block) : ChainM Unit := do
  onRepo fun db ↦ Runtime.run env.sha3 db block
  Eff.modify (sendConfirmation env block)
  reschedule env block
  onRepo fun db ↦ Repository.bonus db block.getProducer (blockBonus env block.getTimestamp)
  Eff.modify fun s ↦ { eraseSolicitedTx env block s.setDone with
    latestBlockNumber := block.getNumber
    latestBlock := block }

def attemptBlock (block : Block) : ChainM Unit := do
  prepareBlock env block
  Eff.modify (addMemoryItem block)
  executeBlock env block

/-- `doProcessBlock`: exceptions derived from `GSException` are swallowed, and the queue item is
cancelled if it had been added; all others pass through with the item left in the queue. -/
def doProcessBlock (block : Block) : ChainM Unit := fun s ↦
  match prepareBlock env block s with
  | (.error e, s') => if e.type.isGS then (.ok (), s') else (.error e, s')
  | (.ok (), s') =>
    match executeBlock env block (addMemoryItem block s') with
    | (.error e, s'') => if e.type.isGS then (.ok (), s''.cancelMemoryItem) else (.error e, s'')
    | (.ok (), s'') => (.ok (), s'')

end Processing

section Solidify

/-- One round of the loop in `onSolidifiable`, for the item taken from the front. -/
def commitItem (item : MemoryItem) (rest : List MemoryItem) : ChainM Unit := do
  Eff.modify fun s ↦ { s with
    attributes.dbDirty := 1
    dbc := s.dbc.putAll env.sha3 env.codec (.dbDirty 1 :: item.repository.commitWrites)
    memoryQueue := rest
    committed := s.committed ++ [item.repository.block] }
  let s ← Eff.get
  match s.rollbackState.getBlockByNumber item.blockNumber with
  | none => Eff.throw ⟨.blockChain, "onIrreversible - block state not found"⟩
  | some solidifyBSP =>
    Eff.modify fun s ↦ { s with
      attributes.dbDirty := 0
      attributes.currentBlockHeight := solidifyBSP.blockNumber
      attributes.solidifyActiveProducerList := solidifyBSP.activeProducers
      dbc := s.dbc.putAll env.sha3 env.codec [.currentBlockHeight solidifyBSP.blockNumber,
        .solidifyActiveProducerList solidifyBSP.activeProducers, .blockState solidifyBSP,
        .blockStateIndex solidifyBSP, .dbDirty 0]
      rollbackState := { s.rollbackState.remove solidifyBSP.blockID with
        solidifyNumber := item.blockNumber } }

def solidifyLoop (number : ℕ) : ℕ → ChainM Unit
  | 0 => pure ()
  | fuel + 1 => do
    let s ← Eff.get
    match s.memoryQueue with
    | [] => Eff.modify fun s ↦ { s with frontOfEmpty := true }
    | item :: rest =>
      if item.blockNumber ≤ number ∧ s.blockChainStatus ≠ .killed then do
        commitItem env item rest
        solidifyLoop number fuel
      else pure ()

/-- `onSolidifiable`; each round takes an item off the queue, so its length bounds the rounds. -/
def onSolidifiable (bsp : BlockState) : ChainM Unit := do
  let s ← Eff.get
  solidifyLoop env bsp.blockNumber (s.memoryQueue.length + 1)

end Solidify

section Forks

/-- `m_rollbackState.add(*block, ps)` with the signal it raises. -/
def addToRollbackState (block : Block) : ChainM Unit := do
  let s ← Eff.get
  let (rollbackState, signal) ← Eff.ofExcept
    (s.rollbackState.add env.sha3 env.garbage block s.schedule.getProducerSnapshot)
  Eff.modify fun s ↦ { s with rollbackState := rollbackState }
  match signal with
  | some bsp => onSolidifiable env bsp
  | none => pure ()

def undoBlock (item : BlockState) : ChainM Unit := do
  Eff.modify fun s ↦ { s with
    latestBlockNumber := item.blockNumber - 1
    rollbackState := s.rollbackState.removeByNumber item.blockNumber }
  let s ← Eff.get
  match s.rollbackState.getBlock s.head.getPrev with
  | none =>
    Eff.throw ⟨.blockChain, "popBlockState - no prev block exist in rollbackState!"⟩
  | some prev => Eff.modify fun s ↦ cancelMemoryItem { s with head := prev }

def switchBranch : ChainM Unit := do
  let s ← Eff.get
  match s.rollbackState.rollbackTo s.rollbackState.head s.head with
  | none => pure ()
  | some branch =>
    Eff.modify fun s ↦ { s with blockChainStatus := .sync }
    Eff.forEach branch undoBlock
    let s ← Eff.get
    if branch.getLast?.any fun b ↦ s.head.blockID != b.getPrev then
      Eff.throw ⟨.blockChain,
        "checkBifurcation - the head is not the second chain's parent block"⟩
    else pure ()

/-- `checkBifurcation`. A `BlockChainException` of the second branch ends the process, all other
exceptions of it are swallowed. -/
def checkBifurcation (block : Block) : ChainM Unit := do
  let s ← Eff.get
  if s.rollbackState.head.getPrev = s.head.blockID then doProcessBlock env block
  else Eff.tryCatch switchBranch fun e ↦
    if e.type = .blockChain then Eff.throw ⟨.exitProcess, e.what⟩ else pure ()

def rejects (e : Exception) : Bool :=
  e.type == .invalidTransaction || e.type == .invalidProducer || e.type == .rollbackState ||
    e.type.isCore

def processBlock (block : Block) : ChainM Bool :=
  Eff.tryCatch
    (do
      let s ← Eff.get
      if !s.checkProducer block then Eff.throw ⟨.invalidProducer, "Invalid block producer!"⟩
      else do
        addToRollbackState env block
        checkBifurcation env block
        Eff.modify fun s ↦ { s with head := s.rollbackState.head }
        return true)
    fun e ↦ if rejects e then pure false else Eff.throw e

def cacheBlock (block : Block) (s : BlockChain) : BlockChain :=
  { s with blockCache := s.blockCache.insertIfNew block.getNumber block }

/-- The first half of `doWork`: takes the lowest cached block that can be processed. -/
def nextBlock (s : BlockChain) : Option Block × BlockChain :=
  match s.blockCache.toList.head? with
  | none => (none, s)
  | some (number, block) =>
    let s' := { s with blockCache := s.blockCache.erase number }
    if number = (s.latestBlockNumber + 1) % 2 ^ 64 then (some block, s')
    else if number ≤ s.latestBlockNumber then
      if number ≤ s.attributes.currentBlockHeight then (none, s') else (some block, s')
    else (none, s)

def doWork : ChainM Unit := do
  let s ← Eff.get
  Eff.modify fun s ↦ s.nextBlock.2
  match s.nextBlock.1 with
  | some block => do
    let _ ← processBlock env block
  | none => pure ()

end Forks

section Messages

def processConfirmationMessage (hc : HeaderConfirmation) (s : BlockChain) : BlockChain :=
  { s with rollbackState := s.rollbackState.addConfirmation hc }

def processBlockStateMessage (number : ℕ) (confirmations : List HeaderConfirmation)
    (s : BlockChain) : BlockChain :=
  { s with rollbackState := s.rollbackState.addSyncBlockState number confirmations }

end Messages

end GseNetwork.Chain.BlockChain
