import GseNetwork.Foundation.Duplex
import GseNetwork.Net.Datagram
import GseNetwork.Net.Ecies

namespace GseNetwork.Net

open GseNetwork.Core GseNetwork.Foundation GseNetwork.Foundation.BigEndian

structure HostInfo where
  key : Secret
  clientVersion : Bytes
  caps : List (Bytes × H256)
  listenPort : UInt16

inductive HandshakeState
  | error
  | new
  | ackAuth
  | ackAuthEIP8
  | writeHello
  | readHello
  | startSession
  deriving DecidableEq

inductive Handler
  | auth
  | authEIP8
  | ack
  | ackEIP8
  | helloHeader
  | helloFrame

inductive Pending
  | none
  | write (data : Bytes)
  | read (n : ℕ) (handler : Handler)

structure BytesHandshake where
  host : HostInfo
  originated : Bool
  remote : Public := 0
  ecdheLocal : Secret
  /-- Nothing sets the nonce: its assignment in the constructors is commented out. -/
  nonce : H256 := 0
  /-- The key pair and the vector drawn when the message is encrypted, and its padding. -/
  random : Secret
  iv : H128
  padAmount : ℕ := 100
  nextState : HandshakeState := .new
  cancelled : Bool := false
  authCipher : Bytes := []
  ackCipher : Bytes := []
  ecdheRemote : Public := 0
  remoteNonce : H256 := 0
  remoteVersion : UInt64 := 0
  io : Option BytesFrameCoder := none
  pending : Pending := .none
  /-- The arguments of `startPeerSession`, once it is called. -/
  started : Option (Public × RLP × BytesFrameCoder) := none
  /-- An exception has left a handler. -/
  thrown : Bool := false

namespace BytesHandshake

variable (p : Primitives)

section Messages

def auth (h : BytesHandshake) : Bytes :=
  let staticShared := (p.agree h.host.key h.remote).getD 0
  toBigEndian 65 (p.sign h.ecdheLocal (staticShared ^^^ h.nonce)).toNat ++
    toBigEndian 32 (p.sha3 (toBigEndian 64 (p.toPublic h.ecdheLocal).toNat)).toNat ++
    toBigEndian 64 (p.toPublic h.host.key).toNat ++ toBigEndian 32 h.nonce.toNat ++ [0]

def writeAuth (h : BytesHandshake) : BytesHandshake :=
  let authCipher := encryptECIES p h.remote [] h.random h.iv (h.auth p)
  { h with authCipher := authCipher, pending := .write authCipher }

def ack (h : BytesHandshake) : Bytes :=
  toBigEndian 64 (p.toPublic h.ecdheLocal).toNat ++ toBigEndian 32 h.nonce.toNat ++ [0]

def writeAck (h : BytesHandshake) : BytesHandshake :=
  let ackCipher := encryptECIES p h.remote [] h.random h.iv (h.ack p)
  { h with ackCipher := ackCipher, pending := .write ackCipher }

def rlpxVersion : ℕ := 4

def writeAckEIP8 (h : BytesHandshake) : BytesHandshake :=
  let rlp := (((RLPStream.appendList {} 3).appendHash 64 (p.toPublic h.ecdheLocal)).appendHash 32
    h.nonce).appendInt rlpxVersion
  let ack := rlp.out ++ List.replicate h.padAmount 0
  let size := toBigEndian 2 (ack.length + eciesOverhead)
  let ackCipher := size ++ encryptECIES p h.remote size h.random h.iv ack
  { h with ackCipher := ackCipher, pending := .write ackCipher }

def helloPacket (host : HostInfo) : Bytes :=
  let s := ((RLPStream.appendInt {} 0).appendList 5).appendInt protocolVersion
  let s := (s.append host.clientVersion).appendList host.caps.length
  let s := host.caps.foldl (fun s cap ↦ ((s.appendList 2).append cap.1).appendInt cap.2.toNat) s
  ((s.appendInt host.listenPort.toNat).appendHash 64 (p.toPublic host.key)).out

end Messages

section Steps

def cancel (h : BytesHandshake) : BytesHandshake :=
  { h with cancelled := true, io := none, pending := .none }

def throws (h : BytesHandshake) : BytesHandshake := { h with thrown := true, pending := .none }

def setAuthValues (h : BytesHandshake) (sig : Signature) (remotePubk : Public) (remoteNonce : H256)
    (remoteVersion : UInt64) : BytesHandshake :=
  let sharedSecret := (p.agree h.host.key remotePubk).getD 0
  { h with
    remote := remotePubk, remoteNonce := remoteNonce, remoteVersion := remoteVersion
    ecdheRemote := p.recover sig (sharedSecret ^^^ remoteNonce) }

/-- The case of `WriteHello`: the coder is set up, and the packet is the first it writes. -/
def writeHello (h : BytesHandshake) : BytesHandshake :=
  match BytesFrameCoder.setup p h.originated h.ecdheRemote h.remoteNonce h.ecdheLocal h.nonce
      h.ackCipher h.authCipher with
  | none => throws { h with nextState := .readHello }
  | some io =>
    let (out, io) := io.writeSingleFramePacket p (helloPacket p h.host)
    { h with nextState := .readHello, io := some io, pending := .write out }

def transition (h : BytesHandshake) : BytesHandshake :=
  if h.nextState = .error ∨ h.cancelled then h.cancel
  else
    match h.nextState with
    | .error => h.cancel
    | .new =>
      let h := { h with nextState := .ackAuth }
      if h.originated then h.writeAuth p else { h with pending := .read 307 .auth }
    | .ackAuth =>
      let h := { h with nextState := .writeHello }
      if h.originated then { h with pending := .read 210 .ack } else h.writeAck p
    | .ackAuthEIP8 =>
      let h := { h with nextState := .writeHello }
      if h.originated then { h with pending := .read 210 .ack } else h.writeAckEIP8 p
    | .writeHello => h.writeHello p
    | .readHello => { h with nextState := .startSession, pending := .read 32 .helloHeader }
    -- The assertion at the head of the function.
    | .startSession => h.throws

def fails (h : BytesHandshake) : BytesHandshake := transition p { h with nextState := .error }

def sizeOf (data : Bytes) : ℕ := (RLP.byteAt data 0).toNat * 256 + (RLP.byteAt data 1).toNat

def onAuth (h : BytesHandshake) (data : Bytes) : BytesHandshake :=
  match decryptECIES p h.host.key [] data with
  | some auth =>
    let sig := BitVec.ofNat (8 * 65) (fromBigEndian (auth.take 65))
    let pubk := BitVec.ofNat 512 (fromBigEndian ((auth.drop 97).take 64))
    let nonce := BitVec.ofNat 256 (fromBigEndian ((auth.drop 161).take 32))
    transition p (setAuthValues p { h with authCipher := data } sig pubk nonce 4)
  | none =>
    { h with
      authCipher := data.take (sizeOf data + 2)
      pending := .read (sizeOf data + 2 - 307) .authEIP8 }

def authFields (auth : Bytes) : Except Exception (Signature × Public × H256 × UInt64) := do
  let rlp ← RLP.ofPrefix auth
  let sig : Signature ← RLP.toHashStrict 65 (← RLP.item rlp 0)
  let pubk : Public ← RLP.toHashStrict 64 (← RLP.item rlp 1)
  let nonce : H256 ← RLP.toHashStrict 32 (← RLP.item rlp 2)
  let version ← RLP.toInt 8 (← RLP.item rlp 3)
  return (sig, pubk, nonce, UInt64.ofNat version)

def onAuthEIP8 (h : BytesHandshake) (data : Bytes) : BytesHandshake :=
  let ct := h.authCipher ++ data
  let h := { h with authCipher := ct }
  match decryptECIES p h.host.key (ct.take 2) (ct.drop 2) with
  | none => h.fails p
  | some auth =>
    match authFields auth with
    | .error _ => h.throws
    | .ok (sig, pubk, nonce, version) =>
      transition p { setAuthValues p h sig pubk nonce version with nextState := .ackAuthEIP8 }

def onAck (h : BytesHandshake) (data : Bytes) : BytesHandshake :=
  match decryptECIES p h.host.key [] data with
  | some ack =>
    transition p { h with
      ackCipher := data
      ecdheRemote := BitVec.ofNat 512 (fromBigEndian (ack.take 64))
      remoteNonce := BitVec.ofNat 256 (fromBigEndian ((ack.drop 64).take 32))
      remoteVersion := 4 }
  | none =>
    { h with
      ackCipher := data.take (sizeOf data + 2)
      pending := .read (sizeOf data + 2 - 210) .ackEIP8 }

def ackFields (ack : Bytes) : Except Exception (Public × H256 × UInt64) := do
  let rlp ← RLP.ofPrefix ack
  let pubk : Public ← RLP.toHashStrict 64 (← RLP.item rlp 0)
  let nonce : H256 ← RLP.toHashStrict 32 (← RLP.item rlp 1)
  let version ← RLP.toInt 8 (← RLP.item rlp 2)
  return (pubk, nonce, UInt64.ofNat version)

def onAckEIP8 (h : BytesHandshake) (data : Bytes) : BytesHandshake :=
  let ct := h.ackCipher ++ data
  let h := { h with ackCipher := ct }
  match decryptECIES p h.host.key (ct.take 2) (ct.drop 2) with
  | none => h.fails p
  | some ack =>
    match ackFields ack with
    | .error _ => h.throws
    | .ok (pubk, nonce, version) =>
      transition p { h with ecdheRemote := pubk, remoteNonce := nonce, remoteVersion := version }

def frameSize (header : Bytes) : ℕ :=
  (RLP.byteAt header 0).toNat * 65536 + (RLP.byteAt header 1).toNat * 256 +
    (RLP.byteAt header 2).toNat

def onHelloHeader (h : BytesHandshake) (data : Bytes) : BytesHandshake :=
  match h.io with
  | none => h.fails p
  | some io =>
    match io.authAndDecryptHeader p data with
    | none => h.fails p
    | some (header, io) =>
      let h := { h with io := some io }
      if 1024 < frameSize header then h.fails p
      else
        { h with pending :=
            .read (frameSize header + paddingOf (frameSize header) + 16) .helloFrame }

def onHelloFrame (h : BytesHandshake) (data : Bytes) : BytesHandshake :=
  match h.io with
  | none => h.fails p
  | some io =>
    match io.authAndDecryptFrame p data with
    | none => h.fails p
    | some (frame, io) =>
      let h := { h with io := some io }
      if RLP.byteAt frame 0 ≠ 0x80 ∧ RLP.byteAt frame 0 ≠ 0 then h.fails p
      else
        match RLP.ofPrefix (frame.drop 1) with
        | .error _ => h.fails p
        | .ok rlp => { h with io := none, pending := .none, started := some (h.remote, rlp, io) }

def handle (h : BytesHandshake) (data : Bytes) : Handler → BytesHandshake
  | .auth => h.onAuth p data
  | .authEIP8 => h.onAuthEIP8 p data
  | .ack => h.onAck p data
  | .ackEIP8 => h.onAckEIP8 p data
  | .helloHeader => h.onHelloHeader p data
  | .helloFrame => h.onHelloFrame p data

def resume (h : BytesHandshake) (data : Bytes) : BytesHandshake :=
  match h.pending with
  | .none => h
  | .write _ => h.transition p
  | .read _ handler => h.handle p data handler

def wait (h : BytesHandshake) : Duplex.Wait UInt8 :=
  match h.pending with
  | .none => .idle
  | .write data => .write data
  | .read n _ => .read n

def party : Duplex.Party UInt8 BytesHandshake where
  wait := wait
  resume := resume p
  fail := cancel

end Steps

end BytesHandshake

end GseNetwork.Net
