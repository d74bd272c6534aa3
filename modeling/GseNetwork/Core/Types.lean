import GseNetwork.Foundation.BigEndian

namespace GseNetwork.Core

export GseNetwork.Foundation.BigEndian (Bytes)

abbrev Address := BitVec 160
abbrev H256 := BitVec 256
abbrev Public := BitVec 512
abbrev TxID := H256
abbrev BlockID := H256
abbrev ChainID := UInt64

instance : Std.TransOrd Address := BitVec.instTransOrd

instance : Std.LawfulEqOrd Address := BitVec.instLawfulEqOrd

instance : Std.TransOrd H256 := BitVec.instTransOrd

instance : Std.LawfulEqOrd H256 := BitVec.instLawfulEqOrd

/-- The exception classes of the node. The first group derives from `core::Exception`, the
second from `GSException`; `rangeError` is the plain `std::range_error` of the codecs and
`exitProcess` stands for a call of `exit(-1)`, which nothing catches. -/
inductive ExceptionClass
  | core
  | badCast
  | badRLP
  | oversizeRLP
  | undersizeRLP
  | deserialize
  | serialize
  | invalidTransaction
  | invalidProducer
  | attributeState
  | repository
  | blockChain
  | rollbackState
  | rollbackStateAncestor
  | rangeError
  | exitProcess
  deriving DecidableEq, Repr

structure Exception where
  type : ExceptionClass
  what : String := ""
  deriving DecidableEq, Repr

def ExceptionClass.isCore : ExceptionClass → Bool
  | .core | .badCast | .badRLP | .oversizeRLP | .undersizeRLP => true
  | _ => false

def ExceptionClass.isGS : ExceptionClass → Bool
  | .deserialize | .serialize | .invalidTransaction | .invalidProducer | .attributeState
  | .repository | .blockChain | .rollbackState | .rollbackStateAncestor => true
  | _ => false

@[simp] theorem ok_bind {α β : Type} (a : α) (f : α → Except Exception β) :
    (Except.ok a >>= f) = f a := rfl

@[simp] theorem error_bind {α β : Type} (e : Exception) (f : α → Except Exception β) :
    (Except.error e >>= f) = .error e := rfl

def repositoryException (message : String) : Exception := ⟨.repository, message⟩

def genesisTimestamp : ℤ := 1538352000000
def numDelegatedBlocks : ℕ := 7
def producerInterval : ℤ := 2000
def timePerRound : ℤ := producerInterval * numDelegatedBlocks
def scheduleUpdateRounds : ℕ := 20
def transactionFee : UInt64 := 500000
def blockBonusBase : UInt64 := 512000000
def producerCost : UInt64 := 1024000000
def millisecondsPerYear : ℤ := 31536000000

end GseNetwork.Core
