import GseNetwork.Core.Producer

namespace GseNetwork.Producer

open GseNetwork.Core

structure Schedule where
  prevTimestamp : Int64 := 0
  prevProducerList : List Producer := []
  currentTimestamp : Int64 := 0
  currentProducerList : List Producer := []

namespace Schedule

def producerSort (l : List Producer) : List Producer := l.insertionSort fun x y ↦ y.gt x = false

/-- The list that was current becomes the previous one; the time stays as it was when no
producer is given. -/
def schedule (x : Schedule) (producerList : List Producer) (timestamp : Int64) : Schedule where
  prevTimestamp := if x.currentProducerList.isEmpty then x.prevTimestamp else x.currentTimestamp
  prevProducerList := producerSort x.currentProducerList
  currentTimestamp := if producerList.isEmpty then x.currentTimestamp else timestamp
  currentProducerList := producerSort producerList

def getCurrentProducerList (x : Schedule) : List Producer :=
  x.currentProducerList.take numDelegatedBlocks

def getProducerSnapshot (x : Schedule) : ProducerSnapshot :=
  x.getCurrentProducerList.foldl ProducerSnapshot.addProducer
    { timestamp := x.currentTimestamp }

/-- `getAddress`, with the zero address for a position outside the schedule. -/
def getAddress (x : Schedule) (idx : ℕ) : Address :=
  if x.currentProducerList.length ≤ idx ∨ numDelegatedBlocks ≤ idx then 0
  else (x.currentProducerList.getD idx emptyProducer).address

end Schedule

end GseNetwork.Producer
