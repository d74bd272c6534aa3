import GseNetwork.Net.Handshake

namespace GseNetwork.Net.BytesHandshake

open GseNetwork.Core GseNetwork.Foundation GseNetwork.Foundation.BigEndian
open GseNetwork.Foundation.Duplex BytesFrameCoder
open Relation (ReflTransGen)

variable {p : Primitives}

section Hello

def helloItems (p : Primitives) (host : HostInfo) : List Bytes :=
  [encodeInt protocolVersion, encodeBytes host.clientVersion,
    encodeList (host.caps.map fun cap ↦ encodeList [encodeBytes cap.1, encodeInt cap.2.toNat]),
    encodeInt host.listenPort.toNat, encodeHash 64 (p.toPublic host.key)]

theorem helloPacket_eq (host : HostInfo) :
    helloPacket p host = 0x80 :: encodeList (helloItems p host) := by
  have hcap : ∀ (s : RLPStream) (cap : Bytes × H256),
      ((s.appendList 2).append cap.1).appendInt cap.2.toNat =
        s.appendRaw (encodeList [encodeBytes cap.1, encodeInt cap.2.toNat]) := by
    intro s cap
    rw [← RLPStream.appendList_items, RLPStream.append_eq, RLPStream.appendInt_eq]
    rfl
  have hcaps : ∀ s : RLPStream,
      host.caps.foldl (fun s cap ↦ ((s.appendList 2).append cap.1).appendInt cap.2.toNat)
        (s.appendList host.caps.length) =
      s.appendRaw (encodeList (host.caps.map fun cap ↦
        encodeList [encodeBytes cap.1, encodeInt cap.2.toNat])) := by
    intro s
    rw [← RLPStream.appendList_items, List.foldl_map, List.length_map]
    simp only [hcap]
  have hlist : ∀ s : RLPStream, (helloItems p host).foldl (fun s x ↦ s.appendRaw x)
      (s.appendList 5) = s.appendRaw (encodeList (helloItems p host)) :=
    fun s ↦ RLPStream.appendList_items s (helloItems p host)
  have hstream : helloPacket p host =
      ((RLPStream.appendInt {} 0).appendRaw (encodeList (helloItems p host))).out := by
    rw [← hlist]
    unfold helloPacket
    simp only [hcaps]
    simp only [RLPStream.append_eq, RLPStream.appendInt_eq, RLPStream.appendHash_eq]
    rfl
  rw [hstream, RLPStream.appendInt_eq]
  rfl

theorem frameSize_packetHeader {packet : Bytes} (h : packet.length < 2 ^ 24) (mac : Bytes) :
    frameSize (plainHeader (packetHeader packet) ++ mac) = packet.length := by
  obtain ⟨zeros, hplain⟩ := Frame.packet.plainHeader_eq packet
  have hout := Frame.packet.header_eq packet
  have hheader : packetHeader packet = Frame.packet.header packet := rfl
  rw [hheader, hplain, hout, lengthBytes_eq h]
  simp only [List.cons_append, List.nil_append, frameSize, RLP.byteAt, List.getD_cons_zero,
    List.getD_cons_succ, UInt8.toNat_ofNat']
  omega

/-- The handshake goes as it should: nothing is cancelled or thrown, and it ends with a session that
is started with these arguments. -/
structure Proceeds (x : Public × RLP × BytesFrameCoder) (h : BytesHandshake) : Prop where
  thrown : h.thrown = false
  cancelled : h.cancelled = false
  started : ∀ y, h.started = some y → y = x
  ends : h.wait = .idle → h.started = some x

structure ProceedsOrCancels (x : Public × RLP × BytesFrameCoder) (h : BytesHandshake) : Prop where
  thrown : h.thrown = false
  started : ∀ y, h.started = some y → y = x
  ends : h.wait = .idle → h.cancelled = true ∨ h.started = some x

section

variable {x : Public × RLP × BytesFrameCoder} {h : BytesHandshake}

theorem Proceeds.proceedsOrCancels (hs : Proceeds x h) : ProceedsOrCancels x h :=
  ⟨hs.thrown, hs.started, fun hidle ↦ .inr (hs.ends hidle)⟩

theorem ProceedsOrCancels.cancel (hs : ProceedsOrCancels x h) :
    ProceedsOrCancels x h.cancel ∧ h.cancel.wait = .idle :=
  ⟨⟨hs.thrown, hs.started, fun _ ↦ .inl rfl⟩, rfl⟩

theorem smooth_of_waiting (hthrown : h.thrown = false) (hcancelled : h.cancelled = false)
    (hstarted : h.started = none) (hwait : h.wait ≠ .idle) : Proceeds x h where
  thrown := hthrown
  cancelled := hcancelled
  started y hy := by
    rw [hstarted] at hy
    cases hy
  ends hidle := absurd hidle hwait

theorem smooth_of_write {data : Bytes} (hthrown : h.thrown = false)
    (hcancelled : h.cancelled = false) (hstarted : h.started = none)
    (hwait : h.wait = .write data) : Proceeds x h := by
  apply smooth_of_waiting hthrown hcancelled hstarted
  intro hidle
  cases hwait.symm.trans hidle

theorem smooth_of_read {n : ℕ} (hthrown : h.thrown = false) (hcancelled : h.cancelled = false)
    (hstarted : h.started = none) (hwait : h.wait = .read n) : Proceeds x h := by
  apply smooth_of_waiting hthrown hcancelled hstarted
  intro hidle
  cases hwait.symm.trans hidle

end

/-- The second half of a handshake, the same on both sides: the packet is written with the new
coder, and that of the other side is read. -/
theorem follows_hello {stream : Bytes → H128 → ℕ → UInt8} (hctr : p.CounterMode stream)
    (h : BytesHandshake) (own host : HostInfo) (remote : Public) {io other : BytesFrameCoder}
    (hown : h.host = own) (hremote : h.remote = remote)
    (hnext : h.nextState = .writeHello) (hcancelled : h.cancelled = false)
    (hthrown : h.thrown = false) (hstarted : h.started = none)
    (hsetup : setup p h.originated h.ecdheRemote h.remoteNonce h.ecdheLocal h.nonce h.ackCipher
      h.authCipher = some io)
    (hfeeds : Feeds other io) (hsmall : (helloPacket p host).length ≤ 1024) :
    ∃ header frame rest final,
      (other.writeSingleFramePacket p (helloPacket p host)).1 = header ++ frame ∧
      Feeds (other.writeSingleFramePacket p (helloPacket p host)).2 final ∧
      final.frameEnc = (io.writeSingleFramePacket p (helloPacket p own)).2.frameEnc ∧
      final.egressMac = (io.writeSingleFramePacket p (helloPacket p own)).2.egressMac ∧
      Follows (party p) (Proceeds (remote, encodeList (helloItems p host) ++ rest, final))
        (h.transition p)
        [.write (io.writeSingleFramePacket p (helloPacket p own)).1, .read header,
          .read frame] := by
  subst hown hremote
  have hpacket := helloPacket_eq (p := p) host
  have hfeeds' := hfeeds.of_write (p := p) (helloPacket p h.host)
  generalize helloPacket p host = hello at hpacket hsmall ⊢
  generalize hout : io.writeSingleFramePacket p (helloPacket p h.host) = out at hfeeds' ⊢
  obtain ⟨header, frame, mac, mac', io₁, io₂, hwire, hheader, hframe, hread, hread', hend, henc,
    hmac⟩ := hfeeds'.transfer hctr hello
  have hsize : frameSize (plainHeader (packetHeader hello) ++ mac) = hello.length :=
    frameSize_packetHeader (hsmall.trans_lt (by decide)) mac
  let rest := List.replicate (paddingOf hello.length) 0 ++ mac'
  have hplain : paddedFrame hello ++ mac' = 0x80 :: (encodeList (helloItems p host) ++ rest) := by
    rw [paddedFrame, List.append_assoc]
    nth_rewrite 1 [hpacket]
    rfl
  have hlist : RLP.ofPrefix (encodeList (helloItems p host) ++ rest) =
      .ok (encodeList (helloItems p host) ++ rest) := by
    refine ofPrefix_encodeList_append ?_ rest
    have hle := flatten_length_le_encodeList (helloItems p host)
    have hlen : hello.length = (encodeList (helloItems p host)).length + 1 := by
      rw [hpacket, List.length_cons]
    have hmax : 1024 < maxLength := by decide
    omega
  -- The states the handshake goes through.
  let s₁ := { h with nextState := .readHello, io := some out.2, pending := .write out.1 }
  let s₂ := { s₁ with nextState := .startSession, pending := .read 32 .helloHeader }
  let s₃ := { s₂ with
    io := some io₁, pending := .read (hello.length + paddingOf hello.length + 16) .helloFrame }
  let s₄ := { s₃ with
    io := none, pending := .none
    started := some (h.remote, encodeList (helloItems p host) ++ rest, io₂) }
  have h₁ : h.transition p = s₁ := by
    unfold transition writeHello
    rw [if_neg (by rw [hnext, hcancelled]; decide), hnext, hsetup]
    simp only [hout]
    rfl
  have h₂ : s₁.resume p [] = s₂ := by
    change s₁.transition p = s₂
    unfold transition
    rw [if_neg (by simp [s₁, hcancelled])]
  have h₃ : s₂.resume p header = s₃ := by
    change s₂.onHelloHeader p header = s₃
    unfold onHelloHeader
    simp only [s₂, s₁, hread, hsize]
    rw [if_neg hsmall.not_gt]
  have h₄ : s₃.resume p frame = s₄ := by
    change s₃.onHelloFrame p frame = s₄
    unfold onHelloFrame
    simp only [s₃, hread', hplain]
    rw [if_neg (by simp [RLP.byteAt])]
    simp only [List.drop_succ_cons, List.drop_zero, hlist]
    rfl
  refine ⟨header, frame, rest, io₂, hwire, hend, henc, hmac, ?_⟩
  rw [h₁]
  refine ⟨smooth_of_write hthrown hcancelled hstarted rfl, rfl, ?_⟩
  change Follows (party p) _ (s₁.resume p []) _
  rw [h₂]
  refine ⟨smooth_of_read hthrown hcancelled hstarted rfl, by rw [hheader]; rfl, ?_⟩
  change Follows (party p) _ (s₂.resume p header) _
  rw [h₃]
  refine ⟨smooth_of_read hthrown hcancelled hstarted rfl, by rw [hframe]; rfl, ?_⟩
  change Follows (party p) _ (s₃.resume p frame) _
  rw [h₄]
  exact ⟨⟨hthrown, hcancelled, fun y hy ↦ (Option.some.inj hy).symm, fun _ ↦ rfl⟩, rfl⟩

end Hello

section Messages

theorem length_auth (h : BytesHandshake) : (h.auth p).length = 194 := by
  simp only [auth, List.length_append, length_toBigEndian, List.length_singleton]

theorem length_ack (h : BytesHandshake) : (h.ack p).length = 97 := by
  simp only [ack, List.length_append, length_toBigEndian, List.length_singleton]

/-- The signature, the key and the nonce stand where the other side looks for them. -/
theorem auth_fields (h : BytesHandshake) :
    let staticShared := (p.agree h.host.key h.remote).getD 0
    BitVec.ofNat (8 * 65) (fromBigEndian ((h.auth p).take 65)) =
        p.sign h.ecdheLocal (staticShared ^^^ h.nonce) ∧
      BitVec.ofNat 512 (fromBigEndian (((h.auth p).drop 97).take 64)) = p.toPublic h.host.key ∧
      BitVec.ofNat 256 (fromBigEndian (((h.auth p).drop 161).take 32)) = h.nonce := by
  intro staticShared
  let sig := toBigEndian 65 (p.sign h.ecdheLocal (staticShared ^^^ h.nonce)).toNat
  let hash := toBigEndian 32 (p.sha3 (toBigEndian 64 (p.toPublic h.ecdheLocal).toNat)).toNat
  let pubk := toBigEndian 64 (p.toPublic h.host.key).toNat
  let nonce := toBigEndian 32 h.nonce.toNat
  have hauth : h.auth p = sig ++ (hash ++ (pubk ++ (nonce ++ [0]))) := by
    simp only [auth, List.append_assoc]
    rfl
  have hsig : sig.length = 65 := length_toBigEndian _ _
  have hhash : (sig ++ hash).length = 97 := by
    simp only [sig, hash, List.length_append, length_toBigEndian]
  have hpubk : (sig ++ hash ++ pubk).length = 161 := by
    simp only [sig, hash, pubk, List.length_append, length_toBigEndian]
  refine ⟨?_, ?_, ?_⟩
  · rw [hauth, List.take_left' hsig]
    exact ofNat_fromBigEndian_toBigEndian 65 _
  · rw [hauth, ← List.append_assoc sig, List.drop_left' hhash,
      List.take_left' (length_toBigEndian _ _)]
    exact ofNat_fromBigEndian_toBigEndian 64 _
  · rw [hauth, ← List.append_assoc sig, ← List.append_assoc (sig ++ hash), List.drop_left' hpubk,
      List.take_left' (length_toBigEndian _ _)]
    exact ofNat_fromBigEndian_toBigEndian 32 _

theorem ack_fields (h : BytesHandshake) :
    BitVec.ofNat 512 (fromBigEndian ((h.ack p).take 64)) = p.toPublic h.ecdheLocal ∧
      BitVec.ofNat 256 (fromBigEndian (((h.ack p).drop 64).take 32)) = h.nonce := by
  have hack : h.ack p = toBigEndian 64 (p.toPublic h.ecdheLocal).toNat ++
      (toBigEndian 32 h.nonce.toNat ++ [0]) := by
    rw [ack, List.append_assoc]
  refine ⟨?_, ?_⟩
  · rw [hack, List.take_left' (length_toBigEndian _ _)]
    exact ofNat_fromBigEndian_toBigEndian 64 _
  · rw [hack, List.drop_left' (length_toBigEndian _ _), List.take_left' (length_toBigEndian _ _)]
    exact ofNat_fromBigEndian_toBigEndian 32 _

end Messages

section Parties

/-- What the handshakes assume of the primitives, for the keys in use: the cipher XORs with a key
stream, both sides of an agreement find the same secret, and a signature gives its key away. -/
structure Lawful (p : Primitives) (valid : Secret → Prop) : Prop where
  ctr : ∃ stream, p.CounterMode stream
  agree : ∀ s t, valid s → valid t →
    ∃ z, p.agree s (p.toPublic t) = some z ∧ p.agree t (p.toPublic s) = some z
  recover : ∀ s h, valid s → p.recover (p.sign s h) h = p.toPublic s

structure End where
  host : HostInfo
  ephemeral : Secret
  random : Secret
  iv : H128
  nonce : H256 := 0

structure End.Valid (valid : Secret → Prop) (e : End) : Prop where
  key : valid e.host.key
  ephemeral : valid e.ephemeral
  random : valid e.random

def originator (remote : Public) (e : End) : BytesHandshake where
  host := e.host
  originated := true
  remote := remote
  ecdheLocal := e.ephemeral
  nonce := e.nonce
  random := e.random
  iv := e.iv

def listener (e : End) : BytesHandshake where
  host := e.host
  originated := false
  ecdheLocal := e.ephemeral
  nonce := e.nonce
  random := e.random
  iv := e.iv

def start (p : Primitives) (a b : End) : Link UInt8 BytesHandshake BytesHandshake where
  left := (originator (p.toPublic b.host.key) a).transition p
  right := (listener b).transition p

variable {valid : Secret → Prop} {a b : End}

def authText (p : Primitives) (a b : End) : Bytes :=
  encryptECIES p (p.toPublic b.host.key) [] a.random a.iv
    ((originator (p.toPublic b.host.key) a).auth p)

def ackText (p : Primitives) (a b : End) : Bytes :=
  encryptECIES p (p.toPublic a.host.key) [] b.random b.iv ((listener b).ack p)

theorem length_authText (hlaw : Lawful p valid) : (authText p a b).length = 307 := by
  obtain ⟨stream, hctr⟩ := hlaw.ctr
  have hlen := length_auth (p := p) (originator (p.toPublic b.host.key) a)
  rw [authText, length_encryptECIES hctr _ _ _ _ (List.ne_nil_of_length_pos (by omega)), hlen]
  rfl

theorem length_ackText (hlaw : Lawful p valid) : (ackText p a b).length = 210 := by
  obtain ⟨stream, hctr⟩ := hlaw.ctr
  have hlen := length_ack (p := p) (listener b)
  rw [ackText, length_encryptECIES hctr _ _ _ _ (List.ne_nil_of_length_pos (by omega)), hlen]
  rfl

theorem transition_originator : (originator (p.toPublic b.host.key) a).transition p =
    { originator (p.toPublic b.host.key) a with
      nextState := .ackAuth, authCipher := authText p a b
      pending := .write (authText p a b) } := by
  unfold transition
  rw [if_neg (by simp [originator])]
  rfl

/-- The originator writes its message, and from the answer it has what the coder is set up with. -/
theorem follows_originator {x : Public × RLP × BytesFrameCoder} {ops : List (Op UInt8)}
    (hlaw : Lawful p valid) (ha : a.Valid valid) (hb : b.Valid valid)
    (hrest : Follows (party p) (Proceeds x) (transition p
      { originator (p.toPublic b.host.key) a with
        nextState := .writeHello, authCipher := authText p a b, ackCipher := ackText p a b
        ecdheRemote := p.toPublic b.ephemeral, remoteNonce := b.nonce, remoteVersion := 4
        pending := .read 210 .ack }) ops) :
    Follows (party p) (Proceeds x) ((originator (p.toPublic b.host.key) a).transition p)
      (.write (authText p a b) :: .read (ackText p a b) :: ops) := by
  obtain ⟨stream, hctr⟩ := hlaw.ctr
  obtain ⟨z, hz, hz'⟩ := hlaw.agree _ _ hb.random ha.key
  have hne : (listener b).ack p ≠ [] := List.ne_nil_of_length_pos (by rw [length_ack]; omega)
  have hdecrypt : decryptECIES p a.host.key [] (ackText p a b) = some ((listener b).ack p) :=
    decryptECIES_encryptECIES hctr hz hz' [] b.iv hne
  obtain ⟨hpubk, hnonce⟩ := ack_fields (p := p) (listener b)
  have hlen := length_ackText (a := a) (b := b) hlaw
  rw [transition_originator]
  generalize authText p a b = auth at hrest ⊢
  generalize ackText p a b = ack at hdecrypt hrest hlen ⊢
  let s₁ := { originator (p.toPublic b.host.key) a with
    nextState := .ackAuth, authCipher := auth, pending := .write auth }
  let s₂ := { s₁ with nextState := .writeHello, pending := .read 210 .ack }
  have h₂ : s₁.resume p [] = s₂ := by
    change s₁.transition p = s₂
    unfold transition
    rw [if_neg (by simp [s₁, originator])]
    rfl
  refine ⟨smooth_of_write rfl rfl rfl rfl, rfl, ?_⟩
  change Follows (party p) _ (s₁.resume p []) _
  rw [h₂]
  refine ⟨smooth_of_read rfl rfl rfl rfl, by rw [hlen]; rfl, ?_⟩
  change Follows (party p) _ (s₂.onAck p ack) _
  have hdecrypt' : decryptECIES p s₂.host.key [] ack = some ((listener b).ack p) := hdecrypt
  unfold onAck
  simp only [hdecrypt', hpubk, hnonce]
  exact hrest

def answered (p : Primitives) (a b : End) : BytesHandshake :=
  { listener b with
    nextState := .writeHello, remote := p.toPublic a.host.key, remoteNonce := a.nonce
    remoteVersion := 4, ecdheRemote := p.toPublic a.ephemeral, authCipher := authText p a b
    ackCipher := ackText p a b, pending := .write (ackText p a b) }

theorem onAuth_authText (hlaw : Lawful p valid) (ha : a.Valid valid) (hb : b.Valid valid) :
    onAuth p { listener b with nextState := .ackAuth, pending := .read 307 .auth }
      (authText p a b) = answered p a b := by
  let first := originator (p.toPublic b.host.key) a
  obtain ⟨stream, hctr⟩ := hlaw.ctr
  obtain ⟨z, hz, hz'⟩ := hlaw.agree _ _ ha.random hb.key
  obtain ⟨w, hw, hw'⟩ := hlaw.agree _ _ ha.key hb.key
  have hne : first.auth p ≠ [] := List.ne_nil_of_length_pos (by rw [length_auth]; omega)
  have hdecrypt : decryptECIES p b.host.key [] (authText p a b) = some (first.auth p) :=
    decryptECIES_encryptECIES hctr hz hz' [] a.iv hne
  obtain ⟨hsig, hpubk, hnonce⟩ := auth_fields (p := p) first
  have hshared : (p.agree first.host.key first.remote).getD 0 = w := by
    change (p.agree a.host.key (p.toPublic b.host.key)).getD 0 = w
    rw [hw, Option.getD_some]
  have hrecover := hlaw.recover _ (w ^^^ a.nonce) ha.ephemeral
  rw [hshared] at hsig
  unfold answered onAuth
  generalize authText p a b = text at hdecrypt ⊢
  simp only [listener, hdecrypt, hsig, hpubk, hnonce, setAuthValues]
  change transition p { listener b with
    nextState := .ackAuth, authCipher := text, remote := p.toPublic a.host.key
    remoteNonce := a.nonce, remoteVersion := 4, pending := .read 307 .auth
    ecdheRemote := p.recover (p.sign a.ephemeral (w ^^^ a.nonce))
      ((p.agree b.host.key (p.toPublic a.host.key)).getD 0 ^^^ a.nonce) } = _
  rw [hw', Option.getD_some, hrecover]
  unfold transition
  rw [if_neg (by simp [listener])]
  rfl

theorem follows_listener {x : Public × RLP × BytesFrameCoder} {ops : List (Op UInt8)}
    (hlaw : Lawful p valid) (ha : a.Valid valid) (hb : b.Valid valid)
    (hrest : Follows (party p) (Proceeds x) ((answered p a b).transition p) ops) :
    Follows (party p) (Proceeds x) ((listener b).transition p)
      (.read (authText p a b) :: .write (ackText p a b) :: ops) := by
  have hauth := onAuth_authText hlaw ha hb
  have hlen := length_authText (a := a) (b := b) hlaw
  have hwait : (answered p a b).wait = .write (ackText p a b) := rfl
  have hsmooth : Proceeds x (answered p a b) := smooth_of_write rfl rfl rfl hwait
  generalize authText p a b = text at hauth hlen ⊢
  have hstart : (listener b).transition p =
      { listener b with nextState := .ackAuth, pending := .read 307 .auth } := by
    unfold transition
    rw [if_neg (by simp [listener])]
    rfl
  rw [hstart]
  refine ⟨smooth_of_read rfl rfl rfl rfl, by rw [hlen]; rfl, ?_⟩
  change Follows (party p) _ (onAuth p _ text) _
  rw [hauth]
  exact ⟨hsmooth, hwait, hrest⟩

end Parties

section Agreement

variable {valid : Secret → Prop} {a b : End}

/-- With what the sessions of the two ends are started: each knows the other by its key and has the
list it sent, and what the one coder writes the other reads. -/
structure Agreement (p : Primitives) (a b : End) (x y : Public × RLP × BytesFrameCoder) : Prop where
  left : x.1 = p.toPublic b.host.key
  right : y.1 = p.toPublic a.host.key
  helloLeft : ∃ rest, x.2.1 = encodeList (helloItems p b.host) ++ rest
  helloRight : ∃ rest, y.2.1 = encodeList (helloItems p a.host) ++ rest
  mirrored : Mirrored x.2.2 y.2.2

/-- The originator writes, the listener answers, and then each writes before it reads. -/
theorem schedule {auth ack outA outB headerA frameA headerB frameB : Bytes}
    (hA : outA = headerA ++ frameA) (hB : outB = headerB ++ frameB) :
    Schedule [] [] [.write auth, .read ack, .write outA, .read headerB, .read frameB]
      [.read auth, .write ack, .write outB, .read headerA, .read frameA] := by
  refine .writeLeft (.readRight (List.append_nil auth).symm ?_)
  refine .writeRight (.readLeft (List.append_nil ack).symm ?_)
  refine .writeLeft (.writeRight ?_)
  refine .readLeft hB (.readLeft (List.append_nil frameB).symm ?_)
  exact .readRight hA (.readRight (List.append_nil frameA).symm .done)

theorem exists_scripts (hlaw : Lawful p valid) (ha : a.Valid valid) (hb : b.Valid valid)
    (hsmall : (helloPacket p a.host).length ≤ 1024)
    (hsmall' : (helloPacket p b.host).length ≤ 1024) :
    ∃ x y opsA opsB, Agreement p a b x y ∧
      Follows (party p) (Proceeds x) (start p a b).left opsA ∧
      Follows (party p) (Proceeds y) (start p a b).right opsB ∧ Schedule [] [] opsA opsB := by
  obtain ⟨stream, hctr⟩ := hlaw.ctr
  obtain ⟨z, hz, hz'⟩ := hlaw.agree _ _ ha.ephemeral hb.ephemeral
  have hleft := fun x ops ↦ @follows_originator p valid a b x ops hlaw ha hb
  have hright := fun x ops ↦ @follows_listener p valid a b x ops hlaw ha hb
  unfold answered at hright
  generalize authText p a b = auth at hleft hright
  generalize ackText p a b = ack at hleft hright
  obtain ⟨ioA, ioB, hsetup, hsetup', hmirrored⟩ :=
    mirrored_setup (p := p) a.nonce b.nonce ack auth hz hz'
  obtain ⟨headerB, frameB, restB, finalA, hwireB, hfeedsA, hencA, hmacA, hfollowsA⟩ :=
    follows_hello hctr { originator (p.toPublic b.host.key) a with
      nextState := .writeHello, authCipher := auth, ackCipher := ack
      ecdheRemote := p.toPublic b.ephemeral, remoteNonce := b.nonce, remoteVersion := 4
      pending := .read 210 .ack } a.host b.host (p.toPublic b.host.key) rfl rfl rfl rfl rfl rfl
      hsetup hmirrored.back hsmall'
  obtain ⟨headerA, frameA, restA, finalB, hwireA, hfeedsB, hencB, hmacB, hfollowsB⟩ :=
    follows_hello hctr { listener b with
      nextState := .writeHello, remote := p.toPublic a.host.key, remoteNonce := a.nonce
      remoteVersion := 4, ecdheRemote := p.toPublic a.ephemeral, authCipher := auth
      ackCipher := ack, pending := .write ack } b.host a.host (p.toPublic a.host.key) rfl rfl rfl
      rfl rfl rfl hsetup' hmirrored.forth hsmall
  have hlink : Mirrored finalA finalB :=
    ⟨⟨hfeedsB.cipher.trans hencA.symm, hfeedsB.mac.trans hmacA.symm⟩,
      ⟨hfeedsA.cipher.trans hencB.symm, hfeedsA.mac.trans hmacB.symm⟩⟩
  refine ⟨_, _, _, _, ⟨rfl, rfl, ⟨restB, rfl⟩, ⟨restA, rfl⟩, hlink⟩, hleft _ _ hfollowsA,
    hright _ _ hfollowsB, schedule hwireA hwireB⟩

/-- Ends that follow their scripts stay sound when they are cancelled, and when the other is. -/
theorem sound_of_run {x y : Public × RLP × BytesFrameCoder} {opsA opsB : List (Op UInt8)}
    {s t : Link UInt8 BytesHandshake BytesHandshake}
    (hleft : Follows (party p) (Proceeds x) s.left opsA)
    (hright : Follows (party p) (Proceeds y) s.right opsB)
    (hschedule : Schedule s.forth s.back opsA opsB)
    (hrun : ReflTransGen (Move (party p) (party p)) s t) :
    ProceedsOrCancels x t.left ∧ ProceedsOrCancels y t.right := by
  have hmatched :
      Matched (party p) (party p) (ProceedsOrCancels x) (ProceedsOrCancels y) s opsA opsB :=
    ⟨.inl (hleft.mono fun _ ↦ Proceeds.proceedsOrCancels),
      .inl (hright.mono fun _ ↦ Proceeds.proceedsOrCancels), hschedule.flow.1, hschedule.flow.2⟩
  exact safety (fun s ↦ ProceedsOrCancels.cancel) (fun s ↦ ProceedsOrCancels.cancel) hmatched hrun

/-- In whatever order the two ends go on, and wherever one is cancelled: no exception leaves a
handler, an end stops only with a session or cancelled, and the sessions that are started agree. -/
theorem handshake_agreement (hlaw : Lawful p valid) (ha : a.Valid valid) (hb : b.Valid valid)
    (hsmall : (helloPacket p a.host).length ≤ 1024)
    (hsmall' : (helloPacket p b.host).length ≤ 1024) :
    ∃ x y, Agreement p a b x y ∧ ∀ t, ReflTransGen (Move (party p) (party p)) (start p a b) t →
      ProceedsOrCancels x t.left ∧ ProceedsOrCancels y t.right := by
  obtain ⟨x, y, opsA, opsB, hagree, hleft, hright, hschedule⟩ :=
    exists_scripts hlaw ha hb hsmall hsmall'
  exact ⟨x, y, hagree, fun t hrun ↦ sound_of_run hleft hright hschedule hrun⟩

theorem lawful_plainPrimitives : Lawful plainPrimitives fun _ ↦ True where
  ctr := ⟨plainStream, counterMode_plainPrimitives⟩
  agree s t _ _ := ⟨s ^^^ t, agree_plainPrimitives s t⟩
  recover s _ _ := by
    change (s.setWidth (8 * 65)).setWidth 512 = s.setWidth 512
    exact BitVec.setWidth_setWidth_of_le s (by decide)

def sample (key : Secret) : End where
  host :=
    { key := key, clientVersion := [103], caps := [([103, 115, 101], 1)], listenPort := 60606 }
  ephemeral := key + 1
  random := key + 2
  iv := 7

theorem handshake_agreement_sample :
    ∃ x y, Agreement plainPrimitives (sample 1) (sample 2) x y ∧
      ∀ t, ReflTransGen (Move (party plainPrimitives) (party plainPrimitives))
        (start plainPrimitives (sample 1) (sample 2)) t →
          ProceedsOrCancels x t.left ∧ ProceedsOrCancels y t.right :=
  handshake_agreement lawful_plainPrimitives ⟨trivial, trivial, trivial⟩
    ⟨trivial, trivial, trivial⟩ (by decide +kernel) (by decide +kernel)

/-- Without a cancellation both sessions are started, whichever end goes on first at each time, and
nothing is left between them. -/
theorem handshake_completes (hlaw : Lawful p valid) (ha : a.Valid valid) (hb : b.Valid valid)
    (hsmall : (helloPacket p a.host).length ≤ 1024)
    (hsmall' : (helloPacket p b.host).length ≤ 1024) :
    ∃ x y t, Agreement p a b x y ∧ t.left.started = some x ∧ t.right.started = some y ∧
      t.forth = [] ∧ t.back = [] ∧
      ∀ u, ReflTransGen (Step (party p) (party p)) (start p a b) u →
        ReflTransGen (Step (party p) (party p)) u t := by
  obtain ⟨x, y, opsA, opsB, hagree, hleft, hright, hschedule⟩ :=
    exists_scripts hlaw ha hb hsmall hsmall'
  obtain ⟨l, r, hrun, ⟨hl, hidle⟩, hr, hidle'⟩ := hschedule.run hleft hright
  exact ⟨x, y, ⟨l, r, [], []⟩, hagree, hl.ends hidle, hr.ends hidle', rfl, rfl,
    fun u hrun' ↦ completes hrun ⟨hidle, hidle'⟩ hrun'⟩

theorem handshake_completes_sample :
    ∃ x y t, Agreement plainPrimitives (sample 1) (sample 2) x y ∧ t.left.started = some x ∧
      t.right.started = some y ∧ t.forth = [] ∧ t.back = [] ∧
      ∀ u, ReflTransGen (Step (party plainPrimitives) (party plainPrimitives))
        (start plainPrimitives (sample 1) (sample 2)) u →
        ReflTransGen (Step (party plainPrimitives) (party plainPrimitives)) u t :=
  handshake_completes lawful_plainPrimitives ⟨trivial, trivial, trivial⟩
    ⟨trivial, trivial, trivial⟩ (by decide +kernel) (by decide +kernel)

end Agreement

end GseNetwork.Net.BytesHandshake
