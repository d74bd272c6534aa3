import GseNetwork.Core.RlpStream

namespace GseNetwork.Core

open Std (ExtTreeMap)

structure Producer where
  address : Address
  timestamp : Int64
  votes : UInt64
  voters : ExtTreeMap Address UInt64 := ∅
  deriving DecidableEq

def emptyProducer : Producer where
  address := 0
  timestamp := 0
  votes := 0

namespace Producer

def new (address : Address) (timestamp : Int64) : Producer where
  address := address
  timestamp := timestamp
  votes := 0

/-- `operator==`, which compares the address and the time of creation only. -/
def equal (x y : Producer) : Bool := x.address == y.address && x.timestamp == y.timestamp

def isEmpty (x : Producer) : Bool := x.equal emptyProducer

def gt (x y : Producer) : Bool :=
  if x.votes > y.votes then true
  else if x.votes = y.votes then decide (x.address > y.address)
  else false

def addVoter (x : Producer) (voter : Address) (value : UInt64) : Producer :=
  { x with voters := x.voters.insert voter value, votes := x.votes + value }

def eraseVoter (x : Producer) (voter : Address) : Producer :=
  match x.voters[voter]? with
  | some value => { x with votes := x.votes - value, voters := x.voters.erase voter }
  | none => x

end Producer

/-- `ProducerSnapshot` and `ActiveProducerSnapshot`, which have the same members. -/
structure ProducerSnapshot where
  timestamp : Int64 := 0
  producers : List Producer := []
  deriving DecidableEq

namespace ProducerSnapshot

def isExist (x : ProducerSnapshot) (address : Address) : Bool :=
  x.producers.any fun i ↦ i.address == address

def addProducer (x : ProducerSnapshot) (producer : Producer) : ProducerSnapshot :=
  if x.isExist producer.address then x else { x with producers := x.producers ++ [producer] }

def clear (x : ProducerSnapshot) : ProducerSnapshot := { x with producers := [] }

def size (x : ProducerSnapshot) : ℕ := x.producers.length

end ProducerSnapshot

end GseNetwork.Core
