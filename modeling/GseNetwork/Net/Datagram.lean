import GseNetwork.Net.Endpoint

namespace GseNetwork.Net

open GseNetwork.Core GseNetwork.Foundation.BigEndian

def protocolVersion : ℕ := 4

/-- What discovery needs of the cryptography: the hash, the signatures of the node's own key, and
the recovery of a key from a signature, null if it is invalid. -/
structure Crypto where
  sha3 : Bytes → H256
  sign : H256 → SignatureStruct
  recover : SignatureStruct → H256 → Public

def plainCrypto : Crypto where
  sha3 b := BitVec.ofNat 256 (fromBigEndian b)
  sign _ := {}
  recover _ _ := 1

structure Neighbour where
  endpoint : NodeIPEndpoint
  node : NodeID
  deriving DecidableEq

namespace Neighbour

def streamRLP (x : Neighbour) (s : RLPStream) : RLPStream :=
  (x.endpoint.streamRLP .streamInline (s.appendList 4)).appendHash 64 x.node

/-- `Neighbour(RLP)`. A node id of the wrong size is read as null. -/
def ofRLP (r : RLP) : Except Exception Neighbour := do
  let endpoint ← NodeIPEndpoint.interpretRLP r
  let node ← RLP.toBytes (← RLP.item r 3)
  return { endpoint, node := if node.length = 64 then BitVec.ofNat 512 (fromBigEndian node) else 0 }

end Neighbour

inductive Packet
  | pingNode (version : UInt32) (source destination : NodeIPEndpoint)
  | pong (destination : NodeIPEndpoint) (echo : H256)
  | findNode (target : NodeID)
  | neighbours (list : List Neighbour)
  deriving DecidableEq

inductive PacketType
  | pingNode
  | pong
  | findNode
  | neighbours

def PacketType.ofByte (x : UInt8) : Option PacketType :=
  if x = 1 then some .pingNode
  else if x = 2 then some .pong
  else if x = 3 then some .findNode
  else if x = 4 then some .neighbours
  else none

namespace Packet

def packetType : Packet → UInt8
  | pingNode .. => 1
  | pong .. => 2
  | findNode _ => 3
  | neighbours _ => 4

/-- The four `streamRLP`. A ping carries the version of this program, whatever its field holds. -/
def streamRLP (ts : UInt32) (s : RLPStream) : Packet → RLPStream
  | pingNode _ source destination =>
    (destination.streamRLP .streamList
      (source.streamRLP .streamList ((s.appendList 4).appendInt protocolVersion))).appendInt
        ts.toNat
  | pong destination echo =>
    ((destination.streamRLP .streamList (s.appendList 3)).appendHash 32 echo).appendInt ts.toNat
  | findNode target => ((s.appendList 2).appendHash 64 target).appendInt ts.toNat
  | neighbours list =>
    (list.foldl (fun s n ↦ n.streamRLP s) ((s.appendList 2).appendList list.length)).appendInt
      ts.toNat

/-- The four `interpretRLP`, with the time stamp they read last. -/
def interpretRLP (type : PacketType) (r : RLP) : Except Exception (Packet × UInt32) :=
  match type with
  | .pingNode => do
    let version ← RLP.toInt 4 (← RLP.item r 0)
    let source ← NodeIPEndpoint.interpretRLP (← RLP.item r 1)
    let destination ← NodeIPEndpoint.interpretRLP (← RLP.item r 2)
    let ts ← RLP.toInt 4 (← RLP.item r 3)
    return (.pingNode (UInt32.ofNat version) source destination, UInt32.ofNat ts)
  | .pong => do
    let destination ← NodeIPEndpoint.interpretRLP (← RLP.item r 0)
    let echo : H256 ← RLP.toHashStrict 32 (← RLP.item r 1)
    let ts ← RLP.toInt 4 (← RLP.item r 2)
    return (.pong destination echo, UInt32.ofNat ts)
  | .findNode => do
    let target : NodeID ← RLP.toHashStrict 64 (← RLP.item r 0)
    let ts ← RLP.toInt 4 (← RLP.item r 1)
    return (.findNode target, UInt32.ofNat ts)
  | .neighbours => do
    let list ← RLP.item r 0
    let items ← if RLP.isList list then RLP.itemsOf list else pure []
    let neighbours ← items.mapM fun n ↦ do Neighbour.ofRLP (← RLP.ofBytes n)
    let ts ← RLP.toInt 4 (← RLP.item r 1)
    return (.neighbours neighbours, UInt32.ofNat ts)

end Packet

/-- A datagram that was received: the key its signature belongs to, the hash it starts with, and
what it says. -/
structure DiscoveryDatagram where
  sourceid : NodeID
  echo : H256
  packet : Packet
  ts : UInt32
  deriving DecidableEq

namespace DiscoveryDatagram

variable (crypto : Crypto)

def rlpData (packet : Packet) (ts : UInt32) : Bytes :=
  (packet.streamRLP ts (RLPStream.appendRaw {} [packet.packetType])).out

/-- `BytesDatagramFace::sign`: the hash of all that follows, the signature and the packet. -/
def sign (packet : Packet) (ts : UInt32) : Bytes :=
  let rlpData := rlpData packet ts
  let sig := crypto.sign (crypto.sha3 rlpData)
  let hashContent := toBigEndian 65 sig.toSignature.toNat ++ rlpData
  toBigEndian 32 (crypto.sha3 hashContent).toNat ++ hashContent

def minSize : ℕ := 32 + 65 + 1 + 3

def interpretUDP (packet : Bytes) : Except Exception (Option DiscoveryDatagram) :=
  if packet.length < minSize then .ok none
  else
    let hashedBytes := packet.drop 32
    let signedBytes := hashedBytes.drop 65
    let signatureBytes := hashedBytes.take 65
    let bodyBytes := signedBytes.drop 1
    let echo := crypto.sha3 hashedBytes
    if packet.take 32 ≠ toBigEndian 32 echo.toNat then .ok none
    else
      let signature := BitVec.ofNat (8 * 65) (fromBigEndian signatureBytes)
      let sourceid := crypto.recover (.ofSignature signature) (crypto.sha3 signedBytes)
      if sourceid = 0 then .ok none
      else
        match PacketType.ofByte (RLP.byteAt signedBytes 0) with
        | none => .ok none
        | some type => do
          let (packet, ts) ← Packet.interpretRLP type bodyBytes
          -- The field of a pong takes the place of the hash.
          let echo := match packet with
            | .pong _ echo => echo
            | _ => echo
          return some { sourceid, echo, packet, ts }

end DiscoveryDatagram

end GseNetwork.Net
