import GseNetwork.Core.RlpStream

namespace GseNetwork.Core

structure SignatureStruct where
  r : H256 := 0
  s : H256 := 0
  v : UInt8 := 0
  deriving DecidableEq

def SignatureStruct.toSignature (x : SignatureStruct) : BitVec (8 * 65) :=
  BitVec.ofNat (8 * 65) ((x.r.toNat * 2 ^ 256 + x.s.toNat) * 2 ^ 8 + x.v.toNat)

structure Transaction where
  chainID : ChainID
  type : UInt32
  sender : Address
  recipient : Address
  timestamp : Int64
  data : Bytes := []
  value : UInt64
  signature : SignatureStruct := {}
  deriving DecidableEq

def emptyTransaction : Transaction where
  chainID := 0
  type := 0
  sender := 0
  recipient := 0
  timestamp := 0
  value := 0

namespace Transaction

def voteType : UInt32 := 0x0
def transferType : UInt32 := 0x01
def beenProducerType : UInt32 := 0x02

def streamFields (x : Transaction) (s : RLPStream) : RLPStream :=
  (((((((s.appendInt x.chainID.toNat).appendInt x.type.toNat).appendHash 20 x.sender).appendHash 20
    x.recipient).appendInt x.timestamp.toInt).append x.data).appendInt x.value.toNat)

def streamRLP (x : Transaction) (s : RLPStream) : RLPStream :=
  (x.streamFields (s.appendList 8)).appendHash 65 x.signature.toSignature

def streamRLPContent (x : Transaction) (s : RLPStream) : RLPStream :=
  x.streamFields (s.appendList 7)

def getHash (sha3 : Bytes → H256) (x : Transaction) : H256 := sha3 (x.streamRLPContent {}).out

def equal (sha3 : Bytes → H256) (x y : Transaction) : Bool := x.getHash sha3 == y.getHash sha3

end Transaction

structure Candidate where
  address : Address
  value : UInt64
  deriving DecidableEq

namespace Candidate

open RLP in
def parse (data : Bytes) : Except Exception Candidate := do
  let rlp ← ofBytes data
  if isList rlp && (← itemCount rlp) == 2 then
    let address : Address ← toHash 20 (← item rlp 0)
    let value ← toInt 8 (← item rlp 1)
    return { address, value := UInt64.ofNat value }
  else throw ⟨.deserialize, "Not Candidate bytes data!"⟩

def ofRLP (data : Bytes) : Except Exception Candidate :=
  match parse data with
  | .ok x => .ok x
  | .error e =>
    .error (if e.type.isCore then ⟨.deserialize, "Deserialize Candidate failed!"⟩ else e)

end Candidate

abbrev Ballot := List Candidate

namespace Ballot

open RLP in
def readItems (d : RLP) : ℕ → ℕ → Except Exception Ballot
  | 0, _ => .ok []
  | fuel + 1, i => do
    if i < (← itemCount d) then
      let candidate ← Candidate.ofRLP (← item d i)
      return candidate :: (← readItems d fuel (i + 1))
    else return []

open RLP in
def parse (data : Bytes) : Except Exception Ballot := do
  let rlp ← ofBytes data
  if isList rlp && decide (0 < (← itemCount rlp)) then
    readItems rlp (← itemCount rlp) 0
  else throw ⟨.deserialize, "Not Ballot bytes data"⟩

def ofRLP (data : Bytes) : Except Exception Ballot :=
  match parse data with
  | .ok x => .ok x
  | .error e =>
    .error (if e.type.isCore then ⟨.deserialize, "Deserialize Ballot failed!"⟩ else e)

end Ballot

end GseNetwork.Core
