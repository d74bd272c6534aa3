import GseNetwork.Core.Wire

namespace GseNetwork.Net

open GseNetwork.Core GseNetwork.Foundation.BigEndian

abbrev NodeID := Public

/-- `boost::asio::ip::address`, without the scope of a version 6 address. -/
inductive IPAddress
  | v4 (bytes : BitVec 32)
  | v6 (bytes : BitVec 128)
  deriving DecidableEq

namespace IPAddress

def unspecified : IPAddress := .v4 0

def isUnspecified : IPAddress → Bool
  | v4 bytes => bytes == 0
  | v6 bytes => bytes == 0

def toBytes : IPAddress → Bytes
  | v4 bytes => toBigEndian 4 bytes.toNat
  | v6 bytes => toBigEndian 16 bytes.toNat

def isPrivateAddress (x : IPAddress) : Bool :=
  let byte := fun i ↦ RLP.byteAt x.toBytes i
  match x with
  | v4 _ =>
    byte 0 == 10 || byte 0 == 127 ||
      (byte 0 == 172 && decide (16 ≤ byte 1 ∧ byte 1 ≤ 31)) || (byte 0 == 192 && byte 1 == 168)
  | v6 bytes => (byte 0 == 0xfd && byte 1 == 0) || bytes == 0 || bytes == 1

def isLocalHostAddress (x : IPAddress) : Bool :=
  x ∈ [v4 0x7f000001, v4 0, v6 1, v6 0]

def isPublicAddress (x : IPAddress) : Bool := !(x.isPrivateAddress || x.isLocalHostAddress)

end IPAddress

structure UdpEndpoint where
  address : IPAddress
  port : UInt16
  deriving DecidableEq

structure NodeIPEndpoint where
  address : IPAddress := .unspecified
  udpPort : UInt16 := 0
  tcpPort : UInt16 := 0
  deriving DecidableEq

namespace NodeIPEndpoint

def testAllowLocal : Bool := true

def isSpecified (x : NodeIPEndpoint) : Bool :=
  !x.address.isUnspecified && decide (0 < x.udpPort) && decide (0 < x.tcpPort)

def isAllowed (x : NodeIPEndpoint) : Bool :=
  if testAllowLocal then !x.address.isUnspecified else x.address.isPublicAddress

def toUdp (x : NodeIPEndpoint) : UdpEndpoint := ⟨x.address, x.udpPort⟩

inductive RLPAppend
  | streamList
  | streamInline

def streamRLP (x : NodeIPEndpoint) (append : RLPAppend) (s : RLPStream) : RLPStream :=
  let s := match append with
    | .streamList => s.appendList 3
    | .streamInline => s
  ((s.append x.address.toBytes).appendInt x.udpPort.toNat).appendInt x.tcpPort.toNat

/-- `interpretRLP`: an address of neither size is the unspecified one. -/
def interpretRLP (r : RLP) : Except Exception NodeIPEndpoint := do
  let size ← RLP.size (← RLP.item r 0)
  let address ←
    if size = 4 then do
      pure (.v4 (BitVec.ofNat 32 (fromBigEndian (← RLP.toBytes (← RLP.item r 0)))))
    else if size = 16 then do
      pure (.v6 (BitVec.ofNat 128 (fromBigEndian (← RLP.toBytes (← RLP.item r 0)))))
    else pure IPAddress.unspecified
  let udpPort ← RLP.toInt 2 (← RLP.item r 1)
  let tcpPort ← RLP.toInt 2 (← RLP.item r 2)
  return { address, udpPort := UInt16.ofNat udpPort, tcpPort := UInt16.ofNat tcpPort }

end NodeIPEndpoint

end GseNetwork.Net
