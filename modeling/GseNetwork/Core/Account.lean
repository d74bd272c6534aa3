import GseNetwork.Core.RlpStream

namespace GseNetwork.Core

open Std

/-- `Account::AccountType` has `uint32_t` as its underlying type, and the decoder casts any
number to it. -/
abbrev AccountType := UInt32

def externalType : AccountType := 0x01
def contractType : AccountType := 0x02

structure Account where
  address : Address
  type : AccountType := externalType
  code : Bytes := []
  alive : Bool := false
  balance : UInt64
  timestamp : Int64
  contractAddresses : List Address := []
  votes : UInt64
  candidates : ExtTreeMap Address UInt64 := ∅
  deriving DecidableEq

def emptyAccount : Account where
  address := 0
  balance := 0
  timestamp := 0
  votes := 0

namespace Account

def new (address : Address) (balance : UInt64) (timestamp : Int64) : Account where
  address := address
  alive := true
  balance := balance
  timestamp := timestamp
  votes := 0

def equal (x y : Account) : Bool :=
  x.address == y.address && x.type == y.type && x.alive == y.alive && x.balance == y.balance &&
    x.timestamp == y.timestamp

def isEmpty (x : Account) : Bool := x.equal emptyAccount

/-- `operator=`: the contract addresses are not among the fields it copies. -/
def assign (this account : Account) : Account :=
  { account with contractAddresses := this.contractAddresses }

def addVoter (x : Account) (address : Address) (value : UInt64) : Account :=
  { x with candidates := x.candidates.insert address value, votes := x.votes + value }

def clearVote (x : Account) : Account := { x with candidates := ∅, votes := 0 }

def streamContracts (x : Account) : RLPStream :=
  x.contractAddresses.foldl (fun s a ↦ s.appendHash 20 a)
    (RLPStream.appendList {} x.contractAddresses.length)

def streamCandidates (x : Account) : RLPStream :=
  x.candidates.toList.foldl (fun s i ↦ (s.appendHash 20 i.1).appendInt i.2.toNat)
    (RLPStream.appendList {} (x.candidates.toList.length * 2))

def streamRLP (x : Account) (s : RLPStream) : RLPStream :=
  ((((((((((s.appendList 9).appendHash 20 x.address).appendInt x.type.toNat).append x.code
    ).appendInt x.alive.toNat).appendInt x.balance.toNat).appendInt x.timestamp.toInt
    ).appendRaw x.streamContracts.out).appendInt x.votes.toNat).appendRaw x.streamCandidates.out)

def getRLPData (x : Account) : Bytes := (x.streamRLP {}).out

open RLP in
def readContracts (d : RLP) : ℕ → ℕ → Except Exception (List Address)
  | 0, _ => .ok []
  | fuel + 1, i => do
    if i < (← itemCount d) then
      let address : Address ← toHash 20 (← item d i)
      return address :: (← readContracts d fuel (i + 1))
    else return []

open RLP in
def readCandidates (d : RLP) :
    ℕ → ℕ → ExtTreeMap Address UInt64 → Except Exception (ExtTreeMap Address UInt64)
  | 0, _, m => .ok m
  | fuel + 1, i, m => do
    if i < (← itemCount d) then
      let address : Address ← toHash 20 (← item d i)
      let vote ← toPositiveInt64 (← item d (i + 1))
      readCandidates d fuel (i + 2) (m.insert address vote.toUInt64)
    else return m

open RLP in
def parseContracts (casBytes : Bytes) : Except Exception (List Address) := do
  let rlpAddresses ← ofBytes casBytes
  if isList rlpAddresses && decide (0 < (← itemCount rlpAddresses)) then
    readContracts rlpAddresses (← itemCount rlpAddresses) 0
  else return []

open RLP in
def parseCandidates (csBytes : Bytes) : Except Exception (ExtTreeMap Address UInt64) := do
  let rlpCandidates ← ofBytes csBytes
  if isList rlpCandidates && decide (0 < (← itemCount rlpCandidates)) then
    readCandidates rlpCandidates (← itemCount rlpCandidates) 0 ∅
  else return ∅

open RLP in
def parse (data : Bytes) : Except Exception Account := do
  let rlp ← ofBytes data
  if isList rlp && (← itemCount rlp) == 9 then
    let address : Address ← toHash 20 (← item rlp 0)
    let type ← toInt 4 (← item rlp 1)
    let code ← item rlp 2
    let alive ← toInt 1 (← item rlp 3)
    let balance ← toPositiveInt64 (← item rlp 4)
    let timestamp ← toInt64 (← item rlp 5)
    let contracts ← parseContracts (← item rlp 6)
    let votes ← toPositiveInt64 (← item rlp 7)
    let candidates ← parseCandidates (← item rlp 8)
    return {
      address, type := UInt32.ofNat type, code, alive := alive != 0, balance := balance.toUInt64,
      timestamp, contractAddresses := contracts, votes := votes.toUInt64, candidates }
  else throw ⟨.rangeError, "Acount RLP must be a list"⟩

/-- `Account(bytesConstRef)`: an RLP exception is caught by value and rethrown as the base
class. -/
def ofRLP (data : Bytes) : Except Exception Account :=
  match parse data with
  | .ok x => .ok x
  | .error e => .error (if e.type.isCore then ⟨.core, ""⟩ else e)

end Account

end GseNetwork.Core
