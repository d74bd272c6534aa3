import GseNetwork.Chain.BlockState

namespace GseNetwork.Chain

open GseNetwork.Core

/-- The fork index, in the order of insertion, which is the order the ordered indices keep
among blocks of the same number; `marked` records the calls of `setBFTSolidify`. -/
structure RollbackState where
  head : BlockState
  index : List BlockState
  solidifyNumber : ℕ := 0
  marked : List Block := []

namespace RollbackState

def getBlock (x : RollbackState) (blockID : BlockID) : Option BlockState :=
  x.index.find? fun b ↦ b.blockID == blockID

def getBlockByNumber (x : RollbackState) (number : ℕ) : Option BlockState :=
  x.index.find? fun b ↦ b.blockNumber == number

/-- `begin()` of the index by number: the first inserted of the highest blocks. -/
def highest (index : List BlockState) : Option BlockState :=
  index.find? fun b ↦ index.all fun c ↦ decide (c.blockNumber ≤ b.blockNumber)

def maxBftSolidify (index : List BlockState) : ℕ :=
  index.foldl (fun n b ↦ max n b.bftSolidifyBlockNumber) 0

def oldestNumber (index : List BlockState) : ℕ :=
  index.foldl (fun n b ↦ min n b.blockNumber) ((index.map (·.blockNumber)).headD 0)

/-- `add(Block, ProducerSnapshot)`; the second component is the block the signal
`m_solidifiable` is raised with. -/
def add (sha3 : Bytes → H256) (garbage : UInt8) (x : RollbackState) (block : Block)
    (ps : ProducerSnapshot) : Except Exception (RollbackState × Option BlockState) :=
  if (x.getBlock (block.getHash sha3)).isSome then .error ⟨.rollbackState, "Block has exist!"⟩
  else if (x.getBlock block.getParentHash).isNone then
    .error ⟨.rollbackState, "Unlink block, id!"⟩
  else
    let nextBSP := { BlockState.ofBlock sha3 garbage block with activeProducers := ps }
    let index := x.index ++ [nextBSP]
    let y := { x with index := index, head := (highest index).getD nextBSP }
    let solidifyNumber := maxBftSolidify index
    .ok (y, if oldestNumber index < solidifyNumber then y.getBlockByNumber solidifyNumber
      else none)

/-- `remove` takes the block and all its ancestors out of the index. -/
def removeAncestors : ℕ → List BlockState → BlockID → List BlockState
  | 0, index, _ => index
  | fuel + 1, index, blockID =>
    match index.find? fun b ↦ b.blockID == blockID with
    | none => index
    | some b =>
      let index' := if index.any fun c ↦ c.blockID == b.getPrev then
        removeAncestors fuel index b.getPrev else index
      index'.filter fun c ↦ c.blockID != blockID

def remove (x : RollbackState) (blockID : BlockID) : RollbackState :=
  { x with index := removeAncestors x.index.length x.index blockID }

def removeByNumber (x : RollbackState) (number : ℕ) : RollbackState :=
  match x.getBlockByNumber number with
  | some b => x.remove b.blockID
  | none => x

/-- What `add(HeaderConfirmation)` does to the block state it finds. -/
def confirm (hc : HeaderConfirmation) (b : BlockState) : BlockState :=
  let b' := b.addConfirmation hc
  if b'.reachesQuorum then b'.setBFTSolidify else b'

def addConfirmation (x : RollbackState) (hc : HeaderConfirmation) : RollbackState :=
  { x with
    index := x.index.map fun b ↦ if b.blockID == hc.blockID then confirm hc b else b
    marked := x.marked ++ (x.index.filter fun b ↦
      b.blockID == hc.blockID && (b.addConfirmation hc).reachesQuorum).map (·.block) }

def addSyncBlockState (x : RollbackState) (number : ℕ) (confirmations : List HeaderConfirmation) :
    RollbackState :=
  if number ≤ x.solidifyNumber then x else confirmations.foldl addConfirmation x

/-- The loop of `rollbackTo`, from `prevItem` down to the height of `first`. -/
def rollbackFrom (x : RollbackState) (first : BlockState) :
    ℕ → BlockState → List BlockState → Option (List BlockState)
  | 0, _, _ => none
  | fuel + 1, prevItem, branch =>
    if first.blockNumber < prevItem.blockNumber then
      match x.getBlock prevItem.getPrev with
      | none => none
      | some p => rollbackFrom x first fuel p (branch ++ [prevItem])
    else if first.blockNumber ≠ prevItem.blockNumber then none
    else if first.getPrev ≠ prevItem.getPrev then none
    else some branch

/-- `rollbackTo`: the branch to undo, or nothing where it answers `false`. -/
def rollbackTo (x : RollbackState) (first second : BlockState) : Option (List BlockState) :=
  rollbackFrom x first (x.index.length + 1) second []

end RollbackState

end GseNetwork.Chain
