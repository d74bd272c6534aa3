import GseNetwork.Core.AccountCodec
import GseNetwork.Core.Producer
import GseNetwork.Core.RoundTrip
import GseNetwork.Foundation.Effect

namespace GseNetwork.Core

open Foundation Foundation.BigEndian Foundation.SelfDelimiting RLP
open Std (ExtTreeMap)

namespace Producer

def streamVoters (x : Producer) : RLPStream :=
  x.voters.toList.foldl (fun s i ↦ (s.appendHash 20 i.1).appendInt i.2.toNat)
    (RLPStream.appendList {} (x.voters.toList.length * 2))

def streamRLP (x : Producer) (s : RLPStream) : RLPStream :=
  ((((s.appendList 4).appendHash 20 x.address).appendInt x.timestamp.toInt).appendInt
    x.votes.toNat).appendRaw x.streamVoters.out

def getRLPData (x : Producer) : Bytes := (x.streamRLP {}).out

def readVoters (d : RLP) :
    ℕ → ℕ → ExtTreeMap Address UInt64 → Except Exception (ExtTreeMap Address UInt64)
  | 0, _, m => .ok m
  | fuel + 1, i, m => do
    if i < (← itemCount d) then
      let address : Address ← toHash 20 (← item d i)
      let vote ← toInt 8 (← item d (i + 1))
      readVoters d fuel (i + 2) (m.insert address (UInt64.ofNat vote))
    else return m

def parseVoters (vBytes : Bytes) : Except Exception (ExtTreeMap Address UInt64) := do
  let rlpVoters ← ofBytes vBytes
  if isList rlpVoters && decide (0 < (← itemCount rlpVoters)) then
    readVoters rlpVoters (← itemCount rlpVoters) 0 ∅
  else return ∅

def parse (data : Bytes) : Except Exception Producer := do
  let rlp ← ofBytes data
  if isList rlp && (← itemCount rlp) == 4 then
    let address : Address ← toHash 20 (← item rlp 0)
    let timestamp ← toInt64 (← item rlp 1)
    let votes ← toInt 8 (← item rlp 2)
    let voters ← parseVoters (← item rlp 3)
    return { address, timestamp, votes := UInt64.ofNat votes, voters }
  else throw ⟨.rangeError, "Producer RLP is not list or not PRODUCER_FIELDS!"⟩

def ofRLP (data : Bytes) : Except Exception Producer := rethrown (parse data)

end Producer

/-- The loop of a constructor over the items from `i` on: each element is appended as it is read,
and what was read before an exception stays. -/
def RLP.readOnto {σ α : Type} (read : Bytes → Except Exception α) (push : α → σ → σ) (d : RLP) :
    ℕ → ℕ → Eff σ Exception Unit
  | 0, _ => pure ()
  | fuel + 1, i => do
    if i < (← Eff.ofExcept (itemCount d)) then
      let a ← Eff.ofExcept (do read (← item d i))
      Eff.modify (push a)
      readOnto read push d fuel (i + 1)
    else pure ()

namespace ProducerSnapshot

def streamRLP (x : ProducerSnapshot) (s : RLPStream) : RLPStream :=
  x.producers.foldl (fun s i ↦ s.appendRaw i.getRLPData)
    ((s.appendList (1 + x.producers.length)).appendInt x.timestamp.toInt)

def getRLPData (x : ProducerSnapshot) : Bytes := (x.streamRLP {}).out

def push (producer : Producer) (x : ProducerSnapshot) : ProducerSnapshot :=
  { x with producers := x.producers ++ [producer] }

def readFields (data : Bytes) : Eff ProducerSnapshot Exception Unit := do
  let rlp ← Eff.ofExcept (ofBytes data)
  let count ← Eff.ofExcept (itemCount rlp)
  if isList rlp && decide (0 < count) then
    let timestamp ← Eff.ofExcept (do toInt64 (← item rlp 0))
    Eff.modify fun x ↦ { x with timestamp := timestamp }
    readOnto Producer.ofRLP push rlp count 1
  else pure ()

def populate (x : ProducerSnapshot) (data : Bytes) : ProducerSnapshot := (readFields data x.clear).2

end ProducerSnapshot

structure AttributeState where
  key : Bytes
  type : UInt32
  value : UInt64 := 0
  data : Bytes := []
  deriving DecidableEq

namespace AttributeState

def uint64Type : UInt32 := 0
def bytesType : UInt32 := 1
def unknownType : UInt32 := 2

def ofKey (key : Bytes) : AttributeState where
  key := key
  type := bytesType

def setData (x : AttributeState) (data : Bytes) : AttributeState := { x with data := data }

def streamRLP (x : AttributeState) (s : RLPStream) : RLPStream :=
  let s := (s.appendList 2).appendInt x.type.toNat
  if x.type = uint64Type then s.appendInt x.value.toNat
  else if x.type = bytesType then s.appendRaw x.data
  else s

def getRLPData (x : AttributeState) : Bytes := (x.streamRLP {}).out

def parse (key data : Bytes) : Except Exception AttributeState := do
  let rlp ← ofBytes data
  if isList rlp && (← itemCount rlp) == 2 then
    let type := UInt32.ofNat (← toInt 4 (← item rlp 0))
    if type = uint64Type then
      return { key, type, value := UInt64.ofNat (← toInt 8 (← item rlp 1)) }
    else if type = bytesType then return { key, type, data := ← item rlp 1 }
    else return { key, type }
  else throw ⟨.attributeState, "None list || None CONSTANT_STATE_FIELDS"⟩

def ofRLP (key data : Bytes) : Except Exception AttributeState := rethrown (parse key data)

end AttributeState

end GseNetwork.Core
