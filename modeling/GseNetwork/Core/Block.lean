import GseNetwork.Core.Transaction

namespace GseNetwork.Core

structure BlockHeader where
  chainID : ChainID := 0xFFFFFFFFFFFFFFFF
  producer : Address := 0
  parentHash : H256 := 0
  mklRoot : H256 := 0
  transactionsRoot : H256 := 0
  receiptRoot : H256 := 0
  number : UInt64 := 0
  timestamp : Int64 := 0
  extra : Bytes := []
  signature : SignatureStruct := {}
  deriving DecidableEq

namespace BlockHeader

def streamRLPContent (x : BlockHeader) (s : RLPStream) : RLPStream :=
  ((((((((((s.appendList 9).appendInt x.chainID.toNat).appendHash 20 x.producer).appendHash 32
    x.parentHash).appendHash 32 x.mklRoot).appendHash 32 x.transactionsRoot).appendHash 32
    x.receiptRoot).appendInt x.number.toNat).appendInt x.timestamp.toInt).append x.extra)

def getHash (sha3 : Bytes → H256) (x : BlockHeader) : H256 := sha3 (x.streamRLPContent {}).out

end BlockHeader

/-- A block; `syncBlock` marks one that came in with a synchronisation packet. -/
structure Block where
  blockHeader : BlockHeader := {}
  transactions : List Transaction := []
  syncBlock : Bool := false
  deriving DecidableEq

def emptyBlock : Block := {}

namespace Block

def getProducer (x : Block) : Address := x.blockHeader.producer

def getNumber (x : Block) : ℕ := x.blockHeader.number.toNat

def getTimestamp (x : Block) : Int64 := x.blockHeader.timestamp

def getParentHash (x : Block) : H256 := x.blockHeader.parentHash

def getHash (sha3 : Bytes → H256) (x : Block) : H256 := x.blockHeader.getHash sha3

end Block

end GseNetwork.Core
