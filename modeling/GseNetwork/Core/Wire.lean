import GseNetwork.Core.RlpCanonical

namespace GseNetwork.Core

open Foundation.BigEndian Foundation.SelfDelimiting RLP

/-- `throw e` in a handler for `core::Exception&` throws a copy of the base class. -/
def rethrown {α : Type} : Except Exception α → Except Exception α
  | .ok a => .ok a
  | .error e => .error (if e.type.isCore then ⟨.core, ""⟩ else e)

namespace RLP

/-- `toBytes` with its default `LaissezFaire`: a list gives the empty string. -/
def toBytes (d : RLP) : Except Exception Bytes := if isData d then payload d else .ok []

def size (d : RLP) : Except Exception ℕ := if isData d then length d else .ok 0

/-- `toHash` with its default `Strict`: a shorter string is taken as well. -/
def toHashStrict (size : ℕ) (d : RLP) : Except Exception (BitVec (8 * size)) := do
  requireGood d
  let p ← payload d
  if !isData d || decide (size < p.length) then throw ⟨.badCast, ""⟩
  return BitVec.ofNat (8 * size) (fromBigEndian p)

def readEach {α : Type} (read : Bytes → Except Exception α) (d : RLP) :
    ℕ → ℕ → Except Exception (List α)
  | 0, _ => .ok []
  | fuel + 1, i => do
    if i < (← itemCount d) then
      let x ← read (← item d i)
      return x :: (← readEach read d fuel (i + 1))
    else return []

end RLP

def SignatureStruct.ofSignature (x : BitVec (8 * 65)) : SignatureStruct where
  r := BitVec.ofNat 256 (x.toNat / 2 ^ 264)
  s := BitVec.ofNat 256 (x.toNat / 2 ^ 8)
  v := UInt8.ofNat x.toNat

namespace Transaction

def readFields (rlp : RLP) : Except Exception Transaction := do
  let chainID ← toInt 8 (← item rlp 0)
  let type ← toInt 4 (← item rlp 1)
  let sender : Address ← toHash 20 (← item rlp 2)
  let recipient : Address ← toHash 20 (← item rlp 3)
  let timestamp ← toInt64 (← item rlp 4)
  let data ← toBytes (← item rlp 5)
  let value ← toInt 8 (← item rlp 6)
  let sig ← toHash 65 (← item rlp 7)
  return {
    chainID := UInt64.ofNat chainID, type := UInt32.ofNat type, sender, recipient, timestamp, data
    value := UInt64.ofNat value, signature := .ofSignature sig }

def parse (rlp : RLP) : Except Exception Transaction := do
  if !isList rlp || (← itemCount rlp) != 8 then
    throw ⟨.rangeError, "transaction RLP must be a list"⟩
  readFields rlp

/-- `Transaction(bytesConstRef)`; the list is opened outside the `try`. -/
def ofRLP (data : Bytes) : Except Exception Transaction := do
  rethrown (parse (← ofBytes data))

def getRLPData (x : Transaction) : Bytes := (x.streamRLP {}).out

end Transaction

namespace BlockHeader

def streamRLP (x : BlockHeader) (s : RLPStream) : RLPStream :=
  (((((((((((((s.appendList 12).appendInt x.chainID.toNat).appendHash 20 x.producer).appendHash 32
    x.parentHash).appendHash 32 x.mklRoot).appendHash 32 x.transactionsRoot).appendHash 32
    x.receiptRoot).appendInt x.number.toNat).appendInt x.timestamp.toInt).append x.extra).appendInt
    x.signature.v.toNat).appendInt x.signature.r.toNat).appendInt x.signature.s.toNat)

def getRLPData (x : BlockHeader) : Bytes := (x.streamRLP {}).out

def readFields (rlp : RLP) : Except Exception BlockHeader := do
  let chainID ← toInt 8 (← item rlp 0)
  let producer : Address ← toHash 20 (← item rlp 1)
  let parentHash : H256 ← toHash 32 (← item rlp 2)
  let mklRoot : H256 ← toHash 32 (← item rlp 3)
  let transactionsRoot : H256 ← toHash 32 (← item rlp 4)
  let receiptRoot : H256 ← toHash 32 (← item rlp 5)
  let number ← toPositiveInt64 (← item rlp 6)
  let timestamp ← toInt64 (← item rlp 7)
  let extra ← toBytes (← item rlp 8)
  let v ← toInt 4 (← item rlp 9)
  let r ← toInt 32 (← item rlp 10)
  let s ← toInt 32 (← item rlp 11)
  return {
    chainID := UInt64.ofNat chainID, producer, parentHash, mklRoot, transactionsRoot, receiptRoot
    number := number.toUInt64, timestamp, extra
    signature := { r := BitVec.ofNat 256 r, s := BitVec.ofNat 256 s, v := UInt8.ofNat v } }

/-- `populate` before its `catch`: what is not a list of twelve items is passed over. -/
def parse (x : BlockHeader) (data : Bytes) : Except Exception BlockHeader := do
  let rlp ← ofBytes data
  if isList rlp && (← itemCount rlp) == 12 then readFields rlp else return x

def populate (x : BlockHeader) (data : Bytes) : Except Exception BlockHeader :=
  rethrown (x.parse data)

end BlockHeader

inductive TransactionReceipt
  | receiptCode (code : UInt32)
  | stateRoot (root : H256)
  deriving DecidableEq

namespace TransactionReceipt

/-- `TransactionReceipt(bytesConstRef)` before its `catch`; the state root is looked for in the
second item of a list of one. -/
def parse (data : Bytes) : Except Exception TransactionReceipt := do
  let rlp ← ofBytes data
  if isList rlp && (← itemCount rlp) == 1 then
    if (← size (← item rlp 0)) == 4 then
      let code ← toInt 4 (← item rlp 0)
      return receiptCode (UInt32.ofNat code)
    else
      let root ← toHashStrict 32 (← item rlp 1)
      return stateRoot root
  else throw ⟨.rangeError, "Invalid transaction receipt format!"⟩

def ofRLP (data : Bytes) : Except Exception TransactionReceipt := rethrown (parse data)

def streamRLP (x : TransactionReceipt) (s : RLPStream) : RLPStream :=
  match x with
  | receiptCode code => (s.appendList 1).appendInt code.toNat
  | stateRoot root => (s.appendList 1).appendHash 32 root

def getRLPData (x : TransactionReceipt) : Bytes := (x.streamRLP {}).out

end TransactionReceipt

structure FullBlock extends Block where
  transactionReceipts : List TransactionReceipt := []
  deriving DecidableEq

namespace FullBlock

/-- The list of `appendList(size)` and `appendRaw` of what is written for each element. -/
def streamEach {α : Type} (getRLPData : α → Bytes) (l : List α) : Bytes :=
  (l.foldl (fun s x ↦ s.appendRaw (getRLPData x)) (RLPStream.appendList {} l.length)).out

def streamRLP (x : FullBlock) (s : RLPStream) : RLPStream :=
  (((s.appendList 3).appendRaw x.blockHeader.getRLPData).appendRaw
    (streamEach Transaction.getRLPData x.transactions)).appendRaw
    (streamEach TransactionReceipt.getRLPData x.transactionReceipts)

def getRLPData (x : FullBlock) : Bytes := (x.streamRLP {}).out

def parseEach {α : Type} (read : Bytes → Except Exception α) (data : Bytes) :
    Except Exception (List α) := do
  let rlp ← ofBytes data
  if isList rlp then readEach read rlp (← itemCount rlp) 0 else return []

def parse (data : Bytes) : Except Exception FullBlock := do
  let rlp ← ofBytes data
  if isList rlp && (← itemCount rlp) == 3 then
    let bytesHeader ← item rlp 0
    let bytesTransactions ← item rlp 1
    let bytesReceipts ← item rlp 2
    let blockHeader ← BlockHeader.populate {} bytesHeader
    let transactions ← parseEach Transaction.ofRLP bytesTransactions
    let transactionReceipts ← parseEach TransactionReceipt.ofRLP bytesReceipts
    return { blockHeader, transactions, transactionReceipts }
  else throw ⟨.deserialize, "Block deserialize incorrect list or item count!"⟩

def ofRLP (data : Bytes) : Except Exception FullBlock := rethrown (parse data)

end FullBlock

end GseNetwork.Core
