import GseNetwork.Core.Canonical

namespace GseNetwork.Core

open Foundation.BigEndian Foundation.SelfDelimiting RLP

abbrev StatusPacketType := UInt8

namespace StatusPacketType

def getHeight : StatusPacketType := 0x01
def replyHeight : StatusPacketType := 0x02
def syncBlocks : StatusPacketType := 0x03
def replyBlocks : StatusPacketType := 0x04
def unknownSPT : StatusPacketType := 0xFF

end StatusPacketType

open StatusPacketType

/-- A synchronisation packet; `height`, `start` and `endNumber` are left uninitialised by most
constructors. -/
structure Status where
  type : StatusPacketType := unknownSPT
  height : UInt64
  start : UInt64
  endNumber : UInt64
  blocks : List FullBlock := []
  deriving DecidableEq

namespace Status

def streamRLP (x : Status) (s : RLPStream) : RLPStream :=
  if x.type = getHeight then (s.appendList 1).appendInt x.type.toNat
  else if x.type = replyHeight then
    ((s.appendList 2).appendInt x.type.toNat).appendInt x.height.toNat
  else if x.type = syncBlocks then
    (((s.appendList 3).appendInt x.type.toNat).appendInt x.start.toNat).appendInt x.endNumber.toNat
  else if x.type = replyBlocks then
    x.blocks.foldl (fun s b ↦ s.appendRaw b.getRLPData)
      ((s.appendList (1 + x.blocks.length)).appendInt x.type.toNat)
  else s

def getRLPData (x : Status) : Bytes := (x.streamRLP {}).out

def readType (rlp : RLP) : Except Exception (Option StatusPacketType) := do
  if isList rlp && decide (1 ≤ (← itemCount rlp)) then
    let type ← toInt 1 (← item rlp 0)
    return some (UInt8.ofNat type)
  else return none

def pushBlocks (rlp : RLP) : ℕ → ℕ → List FullBlock → List FullBlock
  | 0, _, blocks => blocks
  | fuel + 1, i, blocks =>
    match itemCount rlp with
    | .error _ => blocks
    | .ok n =>
      if i < n then
        match (do FullBlock.ofRLP (← item rlp i)) with
        | .error _ => blocks
        | .ok b => pushBlocks rlp fuel (i + 1) (blocks ++ [b])
      else blocks

def readBody (x : Status) (rlp : RLP) : Status :=
  if x.type = replyHeight then
    match (do toInt 8 (← item rlp 1)) with
    | .error _ => x
    | .ok height => { x with height := UInt64.ofNat height }
  else if x.type = syncBlocks then
    match (do toInt 8 (← item rlp 1)) with
    | .error _ => x
    | .ok start =>
      match (do toInt 8 (← item rlp 2)) with
      | .error _ => { x with start := UInt64.ofNat start }
      | .ok endNumber => { x with start := UInt64.ofNat start, endNumber := UInt64.ofNat endNumber }
  else if x.type = replyBlocks then { x with blocks := pushBlocks rlp (List.length rlp) 1 x.blocks }
  else x

/-- `populate`, which catches everything and keeps what was read before. -/
def populate (x : Status) (data : Bytes) : Status :=
  match (do let rlp ← ofBytes data; return (rlp, ← readType rlp)) with
  | .ok (rlp, some type) => readBody { x with type := type } rlp
  | _ => x

end Status

end GseNetwork.Core
