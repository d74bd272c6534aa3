import GseNetwork.Foundation.KeyStream
import GseNetwork.Net.FrameRoundTrip

namespace GseNetwork.Net

open GseNetwork.Core GseNetwork.Foundation.BigEndian GseNetwork.Foundation.KeyStream

abbrev Secret := BitVec 256
abbrev H128 := BitVec 128
abbrev Signature := BitVec (8 * 65)

/-- The primitives of the cryptography: the hashes, the block cipher, its counter mode, and the
curve. `ctr` is what `ProcessData` makes of a text, for a key and a vector and after so many bytes;
`agree` fails for an invalid key. -/
structure Primitives where
  sha3 : Bytes → H256
  sha256 : Bytes → H256
  hmac : Bytes → Bytes → H256
  aes : Bytes → H128 → H128
  ctr : Bytes → H128 → ℕ → Bytes → Bytes
  toPublic : Secret → Public
  agree : Secret → Public → Option Secret
  sign : Secret → H256 → Signature
  recover : Signature → H256 → Public

def Primitives.CounterMode (p : Primitives) (stream : Bytes → H128 → ℕ → UInt8) : Prop :=
  ∀ key iv offset text, p.ctr key iv offset text = mask (stream key iv) offset text

variable (p : Primitives)

section Cipher

structure Ctr where
  key : Bytes
  iv : H128 := 0
  offset : ℕ := 0
  deriving DecidableEq

def Ctr.processData (c : Ctr) (b : Bytes) : Bytes × Ctr :=
  (p.ctr c.key c.iv c.offset b, { c with offset := c.offset + b.length })

structure Mac where
  key : Bytes
  absorbed : Bytes
  deriving DecidableEq

namespace Mac

def update (m : Mac) (b : Bytes) : Mac := { m with absorbed := m.absorbed ++ b }

def digest (m : Mac) : Bytes := (toBigEndian 32 (p.sha3 m.absorbed).toNat).take 16

def updateMAC (m : Mac) (seed : Bytes) : Mac :=
  let prevDigest := m.digest p
  let encDigest := toBigEndian 16 (p.aes m.key (BitVec.ofNat 128 (fromBigEndian prevDigest))).toNat
  m.update (List.zipWith (· ^^^ ·) encDigest (if seed ≠ [] then seed else prevDigest))

end Mac

def coder : Coder Ctr Mac where
  processData c b := c.processData p b
  updateMACWithHeader m headerCipher := m.updateMAC p (headerCipher.take 16)
  updateMACWithFrame m cipher := (m.update cipher).updateMAC p []
  digest m := m.digest p

variable {p} {stream : Bytes → H128 → ℕ → UInt8}

theorem inverse_coder (hctr : p.CounterMode stream) : Inverse (coder p) (coder p) where
  append c a b := by
    simp only [coder, Ctr.processData, hctr _ _ _ _, mask_append, List.length_append,
      Nat.add_assoc]
  length_eq c b := by
    simp only [coder, Ctr.processData, hctr _ _ _ _, length_mask]
  inverse c b := by
    simp only [coder, Ctr.processData, hctr _ _ _ _, mask_mask, length_mask]
  header := rfl
  frame := rfl
  digest := rfl
  length_digest m := by
    simp [coder, Mac.digest]

end Cipher

structure BytesFrameCoder where
  frameEnc : Ctr
  frameDec : Ctr
  egressMac : Mac
  ingressMac : Mac
  deriving DecidableEq

namespace BytesFrameCoder

def setup (originated : Bool) (remoteEphemeral : Public) (remoteNonce : H256) (gkey : Secret)
    (nonce : H256) (ackCipher authCipher : Bytes) : Option BytesFrameCoder := do
  let ephemeralShared ← p.agree gkey remoteEphemeral
  let leftNonce := if originated then remoteNonce else nonce
  let rightNonce := if originated then nonce else remoteNonce
  let chain := fun h : H256 ↦
    p.sha3 (toBigEndian 32 ephemeralShared.toNat ++ toBigEndian 32 h.toNat)
  let nonces := p.sha3 (toBigEndian 32 leftNonce.toNat ++ toBigEndian 32 rightNonce.toNat)
  let sharedSecret := chain nonces
  let aesSecret := chain sharedSecret
  let macSecret := chain aesSecret
  let macKey := toBigEndian 32 macSecret.toNat
  let egressCipher := if originated then authCipher else ackCipher
  let ingressCipher := if originated then ackCipher else authCipher
  return {
    frameEnc := { key := toBigEndian 32 aesSecret.toNat }
    frameDec := { key := toBigEndian 32 aesSecret.toNat }
    egressMac := ⟨macKey, toBigEndian 32 (macSecret ^^^ remoteNonce).toNat ++ egressCipher⟩
    ingressMac := ⟨macKey, toBigEndian 32 (macSecret ^^^ remoteNonce ^^^ remoteNonce ^^^
      nonce).toNat ++ ingressCipher⟩ }

def writeSingleFramePacket (io : BytesFrameCoder) (packet : Bytes) : Bytes × BytesFrameCoder :=
  let (bytes, k, m) := Frame.packet.write (coder p) packet io.frameEnc io.egressMac
  (bytes, { io with frameEnc := k, egressMac := m })

/-- `authAndDecryptHeader`, in place: the MAC stays behind the header. -/
def authAndDecryptHeader (io : BytesFrameCoder) (data : Bytes) :
    Option (Bytes × BytesFrameCoder) :=
  if data.length ≠ 32 then none
  else
    let m := (coder p).updateMACWithHeader io.ingressMac (data.take 16)
    if data.drop 16 ≠ (coder p).digest m then none
    else
      let (plain, k) := (coder p).processData io.frameDec (data.take 16)
      some (plain ++ data.drop 16, { io with frameDec := k, ingressMac := m })

def authAndDecryptFrame (io : BytesFrameCoder) (data : Bytes) : Option (Bytes × BytesFrameCoder) :=
  let cipherText := data.take (data.length - 16)
  let m := (coder p).updateMACWithFrame io.ingressMac cipherText
  if data.drop (data.length - 16) ≠ (coder p).digest m then none
  else
    let (plain, k) := (coder p).processData io.frameDec cipherText
    some (plain ++ data.drop (data.length - 16), { io with frameDec := k, ingressMac := m })

structure Feeds (a b : BytesFrameCoder) : Prop where
  cipher : b.frameDec = a.frameEnc
  mac : b.ingressMac = a.egressMac

structure Mirrored (a b : BytesFrameCoder) : Prop where
  forth : Feeds a b
  back : Feeds b a

variable {p}

theorem xor_cancel (x y z : H256) : x ^^^ y ^^^ y ^^^ z = x ^^^ z := by
  rw [BitVec.xor_assoc x, BitVec.xor_self, BitVec.xor_zero]

/-- Both sides derive the same keys, each from its own ephemeral key and that of the other. -/
theorem mirrored_setup {ea eb shared : Secret} (na nb : H256) (ack auth : Bytes)
    (ha : p.agree ea (p.toPublic eb) = some shared)
    (hb : p.agree eb (p.toPublic ea) = some shared) :
    ∃ a b, setup p true (p.toPublic eb) nb ea na ack auth = some a ∧
      setup p false (p.toPublic ea) na eb nb ack auth = some b ∧ Mirrored a b := by
  refine ⟨_, _, by rw [setup, ha]; rfl, by rw [setup, hb]; rfl, ⟨rfl, ?_⟩, ⟨rfl, ?_⟩⟩
  · simp only [xor_cancel]
    rfl
  · simp only [xor_cancel]
    rfl

section Transfer

variable {stream : Bytes → H128 → ℕ → UInt8} {a b : BytesFrameCoder} {x y : Bytes}

theorem Feeds.of_write (h : Feeds a b) (packet : Bytes) :
    Feeds a (b.writeSingleFramePacket p packet).2 := by
  have hdec : (b.writeSingleFramePacket p packet).2.frameDec = b.frameDec := by
    rw [writeSingleFramePacket]
  have hmac : (b.writeSingleFramePacket p packet).2.ingressMac = b.ingressMac := by
    rw [writeSingleFramePacket]
  exact ⟨hdec.trans h.cipher, hmac.trans h.mac⟩

theorem authAndDecryptHeader_eq (hx : x.length = 16) (hy : y.length = 16)
    (hmac : y = (coder p).digest ((coder p).updateMACWithHeader b.ingressMac x)) :
    b.authAndDecryptHeader p (x ++ y) = some (((coder p).processData b.frameDec x).1 ++ y, { b with
      frameDec := ((coder p).processData b.frameDec x).2
      ingressMac := (coder p).updateMACWithHeader b.ingressMac x }) := by
  unfold authAndDecryptHeader
  rw [if_neg (by rw [List.length_append, hx, hy]; decide), List.take_left' hx, List.drop_left' hx]
  dsimp only
  rw [if_neg (not_not.mpr hmac)]

theorem authAndDecryptFrame_eq (hy : y.length = 16)
    (hmac : y = (coder p).digest ((coder p).updateMACWithFrame b.ingressMac x)) :
    b.authAndDecryptFrame p (x ++ y) = some (((coder p).processData b.frameDec x).1 ++ y, { b with
      frameDec := ((coder p).processData b.frameDec x).2
      ingressMac := (coder p).updateMACWithFrame b.ingressMac x }) := by
  have hlen : (x ++ y).length - 16 = x.length := by
    rw [List.length_append, hy]
    omega
  unfold authAndDecryptFrame
  rw [hlen, List.take_left' rfl, List.drop_left' rfl]
  dsimp only
  rw [if_neg (not_not.mpr hmac)]

/-- What a packet is on the wire: a header and a frame, each with its MAC, which whoever is where
the writer was decrypts one after the other, and then is where the writer is. -/
theorem transfer_parts (hctr : p.CounterMode stream) (k : Ctr) (m : Mac) (packet : Bytes) :
    ∃ header frame k₁ m₁,
      (Frame.packet.write (coder p) packet k m).1 = header ++ frame ∧ header.length = 32 ∧
      frame.length = packet.length + paddingOf packet.length + 16 ∧
      (∀ b : BytesFrameCoder, b.frameDec = k → b.ingressMac = m →
        ∃ mac, b.authAndDecryptHeader p header = some (plainHeader (packetHeader packet) ++ mac,
          { b with frameDec := k₁, ingressMac := m₁ })) ∧
      (∀ b : BytesFrameCoder, b.frameDec = k₁ → b.ingressMac = m₁ →
        ∃ mac, b.authAndDecryptFrame p frame = some (paddedFrame packet ++ mac, { b with
          frameDec := (Frame.packet.write (coder p) packet k m).2.1
          ingressMac := (Frame.packet.write (coder p) packet k m).2.2 })) := by
  have hinv := inverse_coder hctr
  let c := coder p
  let headerText := c.processData k (plainHeader (packetHeader packet))
  let m₁ := c.updateMACWithHeader m headerText.1
  let frameText := c.processData headerText.2 (paddedFrame packet)
  let m₂ := c.updateMACWithFrame m₁ frameText.1
  have hwrite : Frame.packet.write c packet k m =
      (headerText.1 ++ c.digest m₁ ++ frameText.1 ++ c.digest m₂, frameText.2, m₂) :=
    writeFrame_eq hinv (packetHeader packet) packet k m
  have hheader : headerText.1.length = 16 := (hinv.length_eq _ _).trans (length_plainHeader _)
  have hframe : frameText.1.length = packet.length + paddingOf packet.length :=
    (hinv.length_eq _ _).trans (length_paddedFrame packet)
  have hread : c.processData k headerText.1 = (plainHeader (packetHeader packet), headerText.2) :=
    hinv.inverse _ _
  have hread' : c.processData headerText.2 frameText.1 = (paddedFrame packet, frameText.2) :=
    hinv.inverse _ _
  rw [hwrite]
  refine ⟨headerText.1 ++ c.digest m₁, frameText.1 ++ c.digest m₂, headerText.2, m₁, ?_, ?_, ?_,
    fun b hk hm ↦ ⟨c.digest m₁, ?_⟩, fun b hk hm ↦ ⟨c.digest m₂, ?_⟩⟩
  · simp only [List.append_assoc]
  · rw [List.length_append, hheader, hinv.length_digest]
  · rw [List.length_append, hframe, hinv.length_digest]
  · have hstep := authAndDecryptHeader_eq (p := p) (b := b) hheader (hinv.length_digest m₁)
      (by rw [hm])
    rw [hk, hm, hread] at hstep
    exact hstep
  · have hstep := authAndDecryptFrame_eq (p := p) (b := b) (x := frameText.1)
      (hinv.length_digest m₂) (by rw [hm])
    rw [hk, hm, hread'] at hstep
    exact hstep

theorem Feeds.transfer (hctr : p.CounterMode stream) (h : Feeds a b) (packet : Bytes) :
    ∃ header frame mac mac' b₁ b₂,
      (a.writeSingleFramePacket p packet).1 = header ++ frame ∧ header.length = 32 ∧
      frame.length = packet.length + paddingOf packet.length + 16 ∧
      b.authAndDecryptHeader p header = some (plainHeader (packetHeader packet) ++ mac, b₁) ∧
      b₁.authAndDecryptFrame p frame = some (paddedFrame packet ++ mac', b₂) ∧
      Feeds (a.writeSingleFramePacket p packet).2 b₂ ∧
      b₂.frameEnc = b.frameEnc ∧ b₂.egressMac = b.egressMac := by
  obtain ⟨header, frame, k₁, m₁, hwrite, hheader, hframe, hfirst, hsecond⟩ :=
    transfer_parts hctr a.frameEnc a.egressMac packet
  obtain ⟨mac, hread⟩ := hfirst b h.cipher h.mac
  obtain ⟨mac', hread'⟩ := hsecond { b with frameDec := k₁, ingressMac := m₁ } rfl rfl
  exact ⟨header, frame, mac, mac', _, _, hwrite, hheader, hframe, hread, hread', ⟨rfl, rfl⟩, rfl,
    rfl⟩

end Transfer

section KeyStream

variable {stream : Bytes → H128 → ℕ → UInt8} {io : BytesFrameCoder}

theorem frameEnc_eq_frameDec {originated : Bool} {remote : Public} {remoteNonce nonce : H256}
    {gkey : Secret} {ack auth : Bytes}
    (h : setup p originated remote remoteNonce gkey nonce ack auth = some io) :
    io.frameEnc = io.frameDec := by
  cases hagree : p.agree gkey remote with
  | none =>
    rw [setup, hagree] at h
    cases h
  | some shared =>
    rw [setup, hagree] at h
    rw [← Option.some.inj h]

/-- What is written is the header and the frame, each masked with the key stream, with a MAC behind
it. -/
theorem writeSingleFramePacket_eq (hctr : p.CounterMode stream) (io : BytesFrameCoder)
    (packet : Bytes) :
    ∃ mac mac', mac.length = 16 ∧ (io.writeSingleFramePacket p packet).1 =
      mask (stream io.frameEnc.key io.frameEnc.iv) io.frameEnc.offset
          (plainHeader (packetHeader packet)) ++ (mac ++
        (mask (stream io.frameEnc.key io.frameEnc.iv) (io.frameEnc.offset + 16)
          (paddedFrame packet) ++ mac')) := by
  have hinv := inverse_coder hctr
  let c := coder p
  let headerText := c.processData io.frameEnc (plainHeader (packetHeader packet))
  let m₁ := c.updateMACWithHeader io.egressMac headerText.1
  let frameText := c.processData headerText.2 (paddedFrame packet)
  let m₂ := c.updateMACWithFrame m₁ frameText.1
  have hwrite : Frame.packet.write c packet io.frameEnc io.egressMac =
      (headerText.1 ++ c.digest m₁ ++ frameText.1 ++ c.digest m₂, frameText.2, m₂) :=
    writeFrame_eq hinv (packetHeader packet) packet io.frameEnc io.egressMac
  have hoffset : headerText.2.offset = io.frameEnc.offset + 16 :=
    congrArg (io.frameEnc.offset + ·) (length_plainHeader _)
  have hheader : headerText.1 = mask (stream io.frameEnc.key io.frameEnc.iv) io.frameEnc.offset
      (plainHeader (packetHeader packet)) := hctr _ _ _ _
  have hframe : frameText.1 = mask (stream io.frameEnc.key io.frameEnc.iv) headerText.2.offset
      (paddedFrame packet) := hctr _ _ _ _
  refine ⟨c.digest m₁, c.digest m₂, hinv.length_digest m₁, ?_⟩
  rw [writeSingleFramePacket, hwrite, ← hoffset, ← hheader, ← hframe]
  simp only [List.append_assoc]

/-- Both directions have the same key stream: of two packets that are written first, one at each
end, the wire gives away in what they differ. -/
theorem first_packets_xor {ea eb shared : Secret} {na nb : H256} {ack auth : Bytes}
    {a b : BytesFrameCoder} (hctr : p.CounterMode stream)
    (hagree : p.agree ea (p.toPublic eb) = some shared)
    (hagree' : p.agree eb (p.toPublic ea) = some shared)
    (ha : setup p true (p.toPublic eb) nb ea na ack auth = some a)
    (hb : setup p false (p.toPublic ea) na eb nb ack auth = some b) (x y : Bytes) :
    List.zipWith (· ^^^ ·) ((a.writeSingleFramePacket p x).1.take 16)
        ((b.writeSingleFramePacket p y).1.take 16) =
      List.zipWith (· ^^^ ·) (plainHeader (packetHeader x)) (plainHeader (packetHeader y)) ∧
    List.zipWith (· ^^^ ·)
        (((a.writeSingleFramePacket p x).1.drop 32).take (paddedFrame x).length)
        (((b.writeSingleFramePacket p y).1.drop 32).take (paddedFrame y).length) =
      List.zipWith (· ^^^ ·) (paddedFrame x) (paddedFrame y) := by
  obtain ⟨a', b', ha', hb', hmirrored⟩ := mirrored_setup na nb ack auth hagree hagree'
  obtain rfl := Option.some.inj (ha.symm.trans ha')
  obtain rfl := Option.some.inj (hb.symm.trans hb')
  have hsame : b.frameEnc = a.frameEnc :=
    (frameEnc_eq_frameDec hb).trans hmirrored.forth.cipher
  obtain ⟨mac, tail, hmac, hx⟩ := writeSingleFramePacket_eq hctr a x
  obtain ⟨mac', tail', hmac', hy⟩ := writeSingleFramePacket_eq hctr b y
  have hsplit : ∀ header mac text tail : Bytes, header.length = 16 → mac.length = 16 →
      (header ++ (mac ++ (text ++ tail))).take 16 = header ∧
        ((header ++ (mac ++ (text ++ tail))).drop 32).take text.length = text := by
    intro header mac text tail hheader hmac
    refine ⟨List.take_left' hheader, ?_⟩
    rw [← List.append_assoc, List.drop_left' (by rw [List.length_append, hheader, hmac]),
      List.take_left' rfl]
  rw [hsame] at hy
  generalize stream a.frameEnc.key a.frameEnc.iv = bytes at hx hy
  generalize a.frameEnc.offset = offset at hx hy
  have hheader : ∀ packet : Bytes,
      (mask bytes offset (plainHeader (packetHeader packet))).length = 16 := fun packet ↦
    (length_mask _ _ _).trans (length_plainHeader _)
  obtain ⟨h₁, h₂⟩ := hsplit _ _ (mask bytes (offset + 16) (paddedFrame x)) tail (hheader x) hmac
  obtain ⟨h₁', h₂'⟩ := hsplit _ _ (mask bytes (offset + 16) (paddedFrame y)) tail' (hheader y)
    hmac'
  rw [length_mask] at h₂ h₂'
  rw [hx, hy, h₁, h₁', h₂, h₂']
  exact ⟨zipWith_mask _ _ _ _, zipWith_mask _ _ _ _⟩

end KeyStream

end BytesFrameCoder

def plainStream (_ : Bytes) (iv : H128) (n : ℕ) : UInt8 :=
  (toBigEndian 16 (iv + BitVec.ofNat 128 (n / 16)).toNat).getD (n % 16) 0

def plainPrimitives : Primitives where
  sha3 _ := 0
  sha256 _ := 0
  hmac _ _ := 0
  aes _ block := block
  ctr key iv := mask (plainStream key iv)
  toPublic s := s.setWidth 512
  agree s k := some (s ^^^ k.setWidth 256)
  sign s _ := s.setWidth (8 * 65)
  recover sig _ := sig.setWidth 512

theorem counterMode_plainPrimitives : plainPrimitives.CounterMode plainStream :=
  fun _ _ _ _ ↦ rfl

theorem agree_plainPrimitives (s t : Secret) :
    plainPrimitives.agree s (plainPrimitives.toPublic t) = some (s ^^^ t) ∧
      plainPrimitives.agree t (plainPrimitives.toPublic s) = some (s ^^^ t) := by
  have hwidth : ∀ k : Secret, (k.setWidth 512).setWidth 256 = k := fun k ↦ by
    rw [BitVec.setWidth_setWidth_of_le k (by decide), BitVec.setWidth_eq]
  refine ⟨?_, ?_⟩
  · change some (s ^^^ (t.setWidth 512).setWidth 256) = _
    rw [hwidth]
  · change some (t ^^^ (s.setWidth 512).setWidth 256) = _
    rw [hwidth, BitVec.xor_comm]

theorem first_packets_xor_plain : ∃ a b,
    List.zipWith (· ^^^ ·)
        (((BytesFrameCoder.writeSingleFramePacket plainPrimitives a [1, 2]).1.drop 32).take
          (paddedFrame [1, 2]).length)
        (((BytesFrameCoder.writeSingleFramePacket plainPrimitives b [3, 4]).1.drop 32).take
          (paddedFrame [3, 4]).length) =
      List.zipWith (· ^^^ ·) (paddedFrame [1, 2]) (paddedFrame [3, 4]) := by
  obtain ⟨hagree, hagree'⟩ := agree_plainPrimitives 5 6
  obtain ⟨a, b, ha, hb, -⟩ := BytesFrameCoder.mirrored_setup 0 0 [] [] hagree hagree'
  exact ⟨a, b, (BytesFrameCoder.first_packets_xor counterMode_plainPrimitives hagree hagree' ha hb
    [1, 2] [3, 4]).2⟩

end GseNetwork.Net
