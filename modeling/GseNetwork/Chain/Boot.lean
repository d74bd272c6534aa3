import GseNetwork.Chain.Processing

namespace GseNetwork.Storage

open GseNetwork.Core GseNetwork.Chain GseNetwork.Foundation
open Std (ExtTreeMap)

/-- The attributes as records of the database or as global variables. A record that was never put,
or a variable that never got data, is absent. -/
structure StoredAttributes where
  genesisInited : Option ℕ := none
  dbDirty : Option ℕ := none
  currentBlockHeight : Option ℕ := none
  prevProducerList : Option ProducerSnapshot := none
  currentProducerList : Option ProducerSnapshot := none
  solidifyActiveProducerList : Option ProducerSnapshot := none
  deriving DecidableEq

def StoredAttributes.globals : StoredAttributes where
  genesisInited := some 1
  dbDirty := some 0
  currentBlockHeight := some 0

/-- One `put`; the marker of the genesis is written by `initGenesis` only. -/
inductive Put
  | genesisInited (value : ℕ)
  | write (w : DbWrite)

def StoredAttributes.put (x : StoredAttributes) : Put → StoredAttributes
  | .genesisInited value => { x with genesisInited := some value }
  | .write (.dbDirty value) => { x with dbDirty := some value }
  | .write (.currentBlockHeight value) => { x with currentBlockHeight := some value }
  | .write (.prevProducerList value) => { x with prevProducerList := some value }
  | .write (.currentProducerList value) => { x with currentProducerList := some value }
  | .write (.solidifyActiveProducerList value) =>
    { x with solidifyActiveProducerList := some value }
  | .write _ => x

structure Disk where
  dbc : DatabaseController := {}
  attributes : StoredAttributes := {}

namespace Disk

variable (sha3 : Bytes → H256) (codec : Codec)

def put (d : Disk) (p : Put) : Disk where
  dbc :=
    match p with
    | .genesisInited _ => d.dbc
    | .write w => d.dbc.put sha3 codec w
  attributes := d.attributes.put p

def putAll (d : Disk) (puts : List Put) : Disk := puts.foldl (put sha3 codec) d

end Disk

/-- `getAttribute`: of an absent record there are no bytes, which are not a list of two items. -/
def getAttribute {α : Type} : Option α → Except Exception α
  | some value => .ok value
  | none => .error ⟨.attributeState, "None list || None CONSTANT_STATE_FIELDS"⟩

structure Genesis where
  initAccounts : ExtTreeMap Address Account := ∅
  initProducers : ExtTreeMap Address Producer := ∅
  genesisBlock : Block := {}
  producerSnapshot : ProducerSnapshot := {}

def initGenesis (genesis : Genesis) : List Put :=
  genesis.initAccounts.toList.map (fun i ↦ .write (.account i.2)) ++
    genesis.initProducers.toList.map (fun i ↦ .write (.producer i.2)) ++
    [.write (.block genesis.genesisBlock), .write (.blockIndex genesis.genesisBlock),
      .write (.currentBlockHeight 0), .genesisInited 1, .write (.dbDirty 0),
      .write (.prevProducerList genesis.producerSnapshot),
      .write (.currentProducerList genesis.producerSnapshot)]

def checkGenesisExisted (attributes : StoredAttributes) : Bool :=
  match getAttribute attributes.genesisInited with
  | .ok value => value != 0
  | .error _ => false

/-- The `try` block of `DatabaseController::init`: the first absent record ends it. -/
def readAttributes (attributes : StoredAttributes) : Eff StoredAttributes Exception Unit := do
  let height ← Eff.ofExcept (getAttribute attributes.currentBlockHeight)
  Eff.modify fun globals ↦ { globals with currentBlockHeight := some height }
  let prevList ← Eff.ofExcept (getAttribute attributes.prevProducerList)
  Eff.modify fun globals ↦ { globals with prevProducerList := some prevList }
  let currentList ← Eff.ofExcept (getAttribute attributes.currentProducerList)
  Eff.modify fun globals ↦ { globals with currentProducerList := some currentList }
  let activeList ← Eff.ofExcept (getAttribute attributes.solidifyActiveProducerList)
  Eff.modify fun globals ↦ { globals with solidifyActiveProducerList := some activeList }

/-- `DatabaseController::init`: the files and the global variables afterwards. -/
def Disk.init (sha3 : Bytes → H256) (codec : Codec) (genesis : Genesis) (d : Disk) :
    Disk × StoredAttributes :=
  if checkGenesisExisted d.attributes then (d, (readAttributes d.attributes .globals).2)
  else (d.putAll sha3 codec (initGenesis genesis), { StoredAttributes.globals with
    prevProducerList := some genesis.producerSnapshot
    currentProducerList := some genesis.producerSnapshot })

def StoredAttributes.populate (globals : StoredAttributes) : Attributes where
  currentBlockHeight := globals.currentBlockHeight.getD 0
  prevProducerList := globals.prevProducerList.getD {}
  currentProducerList := globals.currentProducerList.getD {}
  solidifyActiveProducerList := globals.solidifyActiveProducerList.getD {}

end GseNetwork.Storage

namespace GseNetwork.Chain

open GseNetwork.Core GseNetwork.Foundation GseNetwork.Storage BlockChain

/-- The part of `BlockChain::init` that reads `ATTRIBUTE_DB_DIRTY`. -/
def checkDirty (attributes : StoredAttributes) : Except Exception ℕ := do
  let dirty ← getAttribute attributes.dbDirty
  if dirty = 1 then
    throw ⟨.blockChain, "Database corruption, please delete database and sync again!"⟩
  else return dirty

/-- A process starts over the files of a node: `DatabaseController::init`, `BlockChain::init` and
`pushSchedule`, without synchronisation. -/
def boot (env : Env) (genesis : Genesis) (d : Disk) : Except Exception BlockChain := do
  let (d, globals) := d.init env.sha3 env.codec genesis
  let solidifyBlock ← d.dbc.getBlockByNumber globals.populate.currentBlockHeight
  let dirty ← checkDirty d.attributes
  return start env d.dbc { globals.populate with dbDirty := dirty } solidifyBlock

section Puts

variable (env : Env)

/-- The puts of one round of the loop in `onSolidifiable`, in their order. -/
def roundPuts (item : MemoryItem) (s : BlockChain) : List DbWrite :=
  .dbDirty 1 :: (item.repository.commitWrites ++
    match s.rollbackState.getBlockByNumber item.blockNumber with
    | none => []
    | some solidifyBSP => [.currentBlockHeight solidifyBSP.blockNumber,
        .solidifyActiveProducerList solidifyBSP.activeProducers, .blockState solidifyBSP,
        .blockStateIndex solidifyBSP, .dbDirty 0])

def loopPuts (number : ℕ) : ℕ → BlockChain → List (List DbWrite)
  | 0, _ => []
  | fuel + 1, s =>
    match s.memoryQueue with
    | [] => []
    | item :: rest =>
      if item.blockNumber ≤ number ∧ s.blockChainStatus ≠ .killed then
        roundPuts item s ::
          match commitItem env item rest s with
          | (.ok (), t) => loopPuts number fuel t
          | (.error _, _) => []
      else []

def solidifyPuts (bsp : BlockState) (s : BlockChain) : List (List DbWrite) :=
  loopPuts env bsp.blockNumber (s.memoryQueue.length + 1) s

end Puts

end GseNetwork.Chain
