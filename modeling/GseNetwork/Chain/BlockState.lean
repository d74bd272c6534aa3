import GseNetwork.Core.Block
import GseNetwork.Core.Producer

namespace GseNetwork.Chain

open GseNetwork.Core

structure HeaderConfirmation where
  chainID : ChainID
  number : UInt64
  blockID : BlockID
  timestamp : Int64
  producer : Address
  signature : SignatureStruct := {}
  deriving DecidableEq

namespace HeaderConfirmation

def equal (x y : HeaderConfirmation) : Bool :=
  x.chainID == y.chainID && x.number == y.number && x.blockID == y.blockID &&
    x.timestamp == y.timestamp && x.producer == y.producer

def streamRLPContent (x : HeaderConfirmation) (s : RLPStream) : RLPStream :=
  ((((((s.appendList 5).appendInt x.chainID.toNat).appendInt x.number.toNat).appendHash 32
    x.blockID).appendInt x.timestamp.toInt).appendHash 20 x.producer)

def getHash (sha3 : Bytes → H256) (x : HeaderConfirmation) : H256 :=
  sha3 (x.streamRLPContent {}).out

/-- Signs with a key given by what it signs; `signWith h` is the zero signature where
`SignatureStruct::isValid` refuses the result. -/
def sign (sha3 : Bytes → H256) (signWith : H256 → SignatureStruct) (x : HeaderConfirmation) :
    HeaderConfirmation :=
  { x with signature := signWith (x.getHash sha3) }

end HeaderConfirmation

structure BlockState where
  block : Block
  blockNumber : ℕ
  blockID : BlockID
  bftSolidifyBlockNumber : ℕ := 0
  activeProducers : ProducerSnapshot := {}
  confirmCount : UInt8 := 0
  confirmations : List HeaderConfirmation := []
  deriving DecidableEq

namespace BlockState

/-- `BlockState(Block&)`, which leaves `m_confirmCount` uninitialised. -/
def ofBlock (sha3 : Bytes → H256) (garbage : UInt8) (block : Block) : BlockState where
  block := block
  blockNumber := block.getNumber
  blockID := block.getHash sha3
  confirmCount := garbage

def getPrev (x : BlockState) : BlockID := x.block.getParentHash

def addConfirmation (x : BlockState) (confirmation : HeaderConfirmation) : BlockState :=
  if confirmation.number.toNat ≠ x.blockNumber ∨ confirmation.blockID ≠ x.blockID then x
  else if !x.activeProducers.isExist confirmation.producer then x
  else if x.confirmations.any (·.equal confirmation) then x
  else { x with
    confirmCount := x.confirmCount + 1
    confirmations := x.confirmations ++ [confirmation] }

def setBFTSolidify (x : BlockState) : BlockState :=
  { x with bftSolidifyBlockNumber := x.blockNumber }

def reachesQuorum (x : BlockState) : Bool :=
  decide (x.bftSolidifyBlockNumber < x.blockNumber) &&
    decide (x.activeProducers.size * 2 / 3 ≤ x.confirmations.length)

end BlockState

end GseNetwork.Chain
