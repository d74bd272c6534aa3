import GseNetwork.Core.RlpStream

namespace GseNetwork.Net

open GseNetwork.Core

/-- One direction of the encrypted transport: a stream cipher with its state, and a running MAC
that is updated with the header or the frame and read by a digest. -/
structure Coder (κ μ : Type) where
  processData : κ → Bytes → Bytes × κ
  updateMACWithHeader : μ → Bytes → μ
  updateMACWithFrame : μ → Bytes → μ
  digest : μ → Bytes

structure BytesFrameInfo where
  length : ℕ
  padding : ℕ
  protocolId : ℕ
  multiFrame : Bool
  sequenceId : ℕ
  totalLength : ℕ
  deriving DecidableEq, Repr

def paddingOf (length : ℕ) : ℕ := (16 - length % 16) % 16

/-- `BytesFrameInfo(bytesConstRef)`. The members are initialised in this order. -/
def BytesFrameInfo.ofHeader (frameHeader : Bytes) : Except Exception BytesFrameInfo := do
  let length := (RLP.byteAt frameHeader 0).toNat * 256 + (RLP.byteAt frameHeader 1).toNat * 256 +
    (RLP.byteAt frameHeader 2).toNat
  let header ← RLP.ofPrefix (frameHeader.drop 3)
  let protocolId ← RLP.toInt 2 (← RLP.item header 0)
  let itemCount ← RLP.itemCount header
  let multiFrame := decide (1 < itemCount)
  let sequenceId ← if multiFrame then (do RLP.toInt 2 (← RLP.item header 1)) else pure 0
  let totalLength ← if itemCount = 3 then (do RLP.toInt 4 (← RLP.item header 2)) else pure 0
  return {
    length := length
    padding := paddingOf length
    protocolId := protocolId
    multiFrame := multiFrame
    sequenceId := sequenceId
    totalLength := totalLength }

def lengthBytes (payload : Bytes) : Bytes :=
  let len := UInt32.ofNat payload.length
  [((len >>> 16) &&& 0xFF).toUInt8, ((len >>> 8) &&& 0xFF).toUInt8, (len &&& 0xFF).toUInt8]

def lengthStream (payload : Bytes) : RLPStream := RLPStream.appendRaw {} (lengthBytes payload)

section Write

variable {κ μ : Type} (enc : Coder κ μ)

/-- `writeFrame` with the header given: the header with its MAC, the payload with its padding, and
the MAC of the frame. -/
def writeFrame (header : RLPStream) (payload : Bytes) (k : κ) (m : μ) : Bytes × κ × μ :=
  let headerWithMac := (header.out ++ List.replicate 32 0).take 32
  let (headerCipher, k) := enc.processData k (headerWithMac.take 16)
  let m := enc.updateMACWithHeader m headerCipher
  let headerDigest := enc.digest m
  let (packet, k) := enc.processData k payload
  let (filled, k) :=
    if paddingOf payload.length ≠ 0 then
      enc.processData k (List.replicate (paddingOf payload.length) 0)
    else ([], k)
  let m := enc.updateMACWithFrame m (packet ++ filled)
  (headerCipher ++ headerDigest ++ (packet ++ filled) ++ enc.digest m, k, m)

def singleHeader (protocolType : UInt16) (payload : Bytes) : RLPStream :=
  ((lengthStream payload).appendList 1).appendInt protocolType.toNat

def continuationHeader (protocolType seqId : UInt16) (payload : Bytes) : RLPStream :=
  (((lengthStream payload).appendList 2).appendInt protocolType.toNat).appendInt seqId.toNat

def firstHeader (protocolType seqId : UInt16) (totalSize : UInt32) (payload : Bytes) : RLPStream :=
  ((((lengthStream payload).appendList 3).appendInt protocolType.toNat).appendInt
    seqId.toNat).appendInt totalSize.toNat

/-- The header of `writeSingleFramePacket`, with its three bytes written out. -/
def packetHeader (packet : Bytes) : RLPStream :=
  (lengthStream packet).appendRaw [0xc2, 0x80, 0x80]

inductive Frame
  | packet
  | single (protocolType : UInt16)
  | continuation (protocolType seqId : UInt16)
  | first (protocolType seqId : UInt16) (totalSize : UInt32)

namespace Frame

def header : Frame → Bytes → RLPStream
  | packet => packetHeader
  | single protocolType => singleHeader protocolType
  | continuation protocolType seqId => continuationHeader protocolType seqId
  | first protocolType seqId totalSize => firstHeader protocolType seqId totalSize

/-- `writeSingleFramePacket` and the three overloads of `writeFrame`. -/
def write (frame : Frame) (payload : Bytes) (k : κ) (m : μ) : Bytes × κ × μ :=
  writeFrame enc (frame.header payload) payload k m

def protocolId : Frame → ℕ
  | packet => 0
  | single protocolType | continuation protocolType _ | first protocolType _ _ =>
    protocolType.toNat

def sequenceId : Frame → ℕ
  | packet | single _ => 0
  | continuation _ seqId | first _ seqId _ => seqId.toNat

def totalLength : Frame → ℕ
  | packet | single _ | continuation _ _ => 0
  | first _ _ totalSize => totalSize.toNat

end Frame

end Write

section Read

variable {κ μ : Type} (dec : Coder κ μ)

/-- What one round of `doRead` comes to: it waits for more bytes, gives the peer up, or hands a
frame on and leaves the rest of the input to the next round. -/
inductive Reading (κ μ : Type)
  | waiting
  | dropped
  | frame (protocolId : ℕ) (frame : Bytes) (rest : Bytes) (k : κ) (m : μ)

/-- The second read of `doRead`: the padded frame and its MAC. -/
def readFrame (header : BytesFrameInfo) (input : Bytes) (k : κ) (m : μ) : Reading κ μ :=
  let tlen := header.length + header.padding + 16
  if input.length < tlen then .waiting
  else
    let data := input.take tlen
    let cipherText := data.take (tlen - 16)
    let m := dec.updateMACWithFrame m cipherText
    if data.drop (tlen - 16) ≠ dec.digest m then .dropped
    else
      let (plain, k) := dec.processData k cipherText
      .frame header.protocolId (plain.take header.length) (input.drop tlen) k m

/-- `Session::doRead`: the header is decoded from all 32 bytes, its MAC included. -/
def doRead (input : Bytes) (k : κ) (m : μ) : Reading κ μ :=
  if input.length < 32 then .waiting
  else
    let data := input.take 32
    let m := dec.updateMACWithHeader m (data.take 16)
    if data.drop 16 ≠ dec.digest m then .dropped
    else
      let (plain, k) := dec.processData k (data.take 16)
      match BytesFrameInfo.ofHeader (plain ++ data.drop 16) with
      | .error _ => .dropped
      | .ok header => readFrame dec header (input.drop 32) k m

end Read

end GseNetwork.Net
