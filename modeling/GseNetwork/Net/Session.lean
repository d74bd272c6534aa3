import GseNetwork.Foundation.Duplex
import GseNetwork.Net.SecureCoder

namespace GseNetwork.Net

open GseNetwork.Core GseNetwork.Foundation.Duplex
open Relation (ReflTransGen)

inductive DisconnectReason
  | disconnectRequested
  | tcpError
  | badProtocol
  | uselessPeer
  | tooManyPeers
  | duplicatePeer
  | incompatibleProtocol
  | nullIdentity
  | clientQuit
  | unexpectedIdentity
  | localIdentity
  | pingTimeout
  | userReason
  | noDisconnect
  deriving DecidableEq

def DisconnectReason.toNat : DisconnectReason → ℕ
  | disconnectRequested => 0
  | tcpError => 1
  | badProtocol => 2
  | uselessPeer => 3
  | tooManyPeers => 4
  | duplicatePeer => 5
  | incompatibleProtocol => 6
  | nullIdentity => 7
  | clientQuit => 8
  | unexpectedIdentity => 9
  | localIdentity => 10
  | pingTimeout => 11
  | userReason => 0x10
  | noDisconnect => 0xffff

inductive ReadStage
  | idle
  | header
  | frame (info : BytesFrameInfo)

structure Reaction where
  sends : List Bytes := []
  throws : Bool := false

structure Session where
  io : BytesFrameCoder
  writeQueue : List Bytes := []
  /-- What the socket has still to take of the write under way. -/
  writing : Option Bytes := none
  isOpen : Bool := true
  dropped : Bool := false
  lastDisconnect : DisconnectReason := .noDisconnect
  reading : ReadStage := .idle
  /-- An exception has left a handler. -/
  thrown : Bool := false
  /-- Records of the packets put into the queue, and of the frames that were decrypted. -/
  sent : List Bytes := []
  received : List Bytes := []

namespace Session

variable (p : Primitives)

section Steps

def packet (type : ℕ) (items : List ℕ) : Bytes :=
  (items.foldl (fun s n ↦ s.appendInt n)
    ((RLPStream.appendInt {} type).appendList items.length)).out

def checkPacket (msg : Bytes) : Bool := !(0x7f < RLP.byteAt msg 0 || decide (msg.length < 2))

def write (s : Session) : Session :=
  let (out, io) := s.io.writeSingleFramePacket p (s.writeQueue.headD [])
  { s with io := io, writeQueue := out :: s.writeQueue.tail, writing := some out }

def send (s : Session) (msg : Bytes) : Session :=
  if !checkPacket msg then s
  else if !s.isOpen then s
  else
    let s := { s with writeQueue := s.writeQueue ++ [msg], sent := s.sent ++ [msg] }
    if s.writeQueue.length = 1 then s.write p else s

def onWritten (s : Session) : Session :=
  let s := { s with writeQueue := s.writeQueue.tail, writing := none }
  if s.writeQueue.isEmpty then s else s.write p

def drop (s : Session) (reason : DisconnectReason) : Session :=
  if s.dropped then s
  else { s with isOpen := false, lastDisconnect := reason, dropped := true }

def disconnect (s : Session) (reason : DisconnectReason) : Session :=
  let s := if s.isOpen then s.send p (packet 1 [reason.toNat]) else s
  s.drop reason

def ping (s : Session) : Session := s.send p (packet 2 [])

def interpret (s : Session) (type : ℕ) (r : RLP) : Except Exception Session := do
  if type = 1 then
    let _ ← RLP.toInt 4 (← RLP.item r 0)
    if !(← RLP.isInt (← RLP.item r 0)) then return s.drop .badProtocol
    else return s.drop .disconnectRequested
  else if type = 2 then return s.send p (packet 3 [])
  else return s

/-- `readPacket`. Which capability handles a packet, and how, is given. -/
def readPacket (s : Session) (capId type : ℕ) (r : RLP) (reaction : Reaction) : Session :=
  if capId = 0 ∧ type < 0x10 then
    match s.interpret p type r with
    | .ok s => s
    | .error _ => s.disconnect p .badProtocol
  else
    let s := reaction.sends.foldl (fun s msg ↦ s.send p msg) s
    if reaction.throws then s.disconnect p .badProtocol else s

def doRead (s : Session) : Session :=
  if s.dropped then s else { s with reading := .header }

def onHeader (s : Session) (data : Bytes) : Session :=
  let s := { s with reading := .idle }
  match s.io.authAndDecryptHeader p data with
  | none => s.drop .badProtocol
  | some (header, io) =>
    let s := { s with io := io }
    match BytesFrameInfo.ofHeader header with
    | .error _ => s.drop .badProtocol
    | .ok info => { s with reading := .frame info }

def parsePacket (frame : Bytes) : Except Exception (ℕ × RLP) := do
  let type ← RLP.toInt 4 (← RLP.ofBytes (frame.take 1))
  let r ← RLP.ofBytes (frame.drop 1)
  return (type, r)

def handleFrame (s : Session) (protocolId : ℕ) (frame : Bytes) (reaction : Reaction) : Session :=
  if !checkPacket frame then s.disconnect p .badProtocol
  else
    match parsePacket frame with
    | .error _ => { s with thrown := true }
    | .ok (type, r) => (s.readPacket p protocolId type r reaction).doRead

def onFrame (s : Session) (info : BytesFrameInfo) (data : Bytes) (reaction : Reaction) : Session :=
  let s := { s with reading := .idle }
  match s.io.authAndDecryptFrame p data with
  | none => s.drop .badProtocol
  | some (text, io) =>
    let frame := text.take info.length
    let s := { s with io := io, received := s.received ++ [frame] }
    s.handleFrame p info.protocolId frame reaction

def start (io : BytesFrameCoder) : Session := (ping p { io := io }).doRead

/-- What can happen at one end, with what has come and what the socket takes. An error of the socket
or a timeout drops or disconnects; a handler may still run after that. -/
inductive Act : Session → Bytes → Session → Bytes → Bytes → Prop
  | send {s : Session} {incoming : Bytes} (msg : Bytes) : Act s incoming (s.send p msg) incoming []
  | transmit {s : Session} {incoming data : Bytes} (n : ℕ) : s.isOpen = true →
      s.writing = some data →
      Act s incoming { s with writing := some (data.drop n) } incoming (data.take n)
  | written {s : Session} {incoming : Bytes} : s.writing = some [] →
      Act s incoming (s.onWritten p) incoming []
  | header {s : Session} {incoming : Bytes} : s.reading = .header → 32 ≤ incoming.length →
      Act s incoming (s.onHeader p (incoming.take 32)) (incoming.drop 32) []
  | frame {s : Session} {incoming : Bytes} {info : BytesFrameInfo} (reaction : Reaction) :
      s.reading = .frame info → info.length + info.padding + 16 ≤ incoming.length →
      Act s incoming
        (s.onFrame p info (incoming.take (info.length + info.padding + 16)) reaction)
        (incoming.drop (info.length + info.padding + 16)) []
  | drop {s : Session} {incoming : Bytes} (reason : DisconnectReason) :
      Act s incoming (s.drop reason) incoming []
  | disconnect {s : Session} {incoming : Bytes} (reason : DisconnectReason) :
      Act s incoming (s.disconnect p reason) incoming []

inductive Step : Link UInt8 Session Session → Link UInt8 Session Session → Prop
  | left {l : Link UInt8 Session Session} {next : Session} {back out : Bytes} :
      Act p l.left l.back next back out →
      Step l { l with left := next, forth := l.forth ++ out, back := back }
  | right {l : Link UInt8 Session Session} {next : Session} {forth out : Bytes} :
      Act p l.right l.forth next forth out →
      Step l { l with right := next, back := l.back ++ out, forth := forth }

end Steps

end Session

end GseNetwork.Net
