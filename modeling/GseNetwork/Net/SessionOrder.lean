import GseNetwork.Core.Acceptance
import GseNetwork.Net.HandshakeAgreement
import GseNetwork.Net.Session

namespace GseNetwork.Net.Session

open GseNetwork.Core GseNetwork.Foundation.Duplex BytesFrameCoder
open Relation (ReflTransGen)

variable {p : Primitives} {pad : Bytes → H128 → ℕ → UInt8}

section Wire

def wire (p : Primitives) : List Bytes → Ctr × Mac → Bytes × (Ctr × Mac)
  | [], c => ([], c)
  | msg :: msgs, c =>
    let first := Frame.packet.write (coder p) msg c.1 c.2
    let later := wire p msgs first.2
    (first.1 ++ later.1, later.2)

def extend (p : Primitives) (x : Bytes × (Ctr × Mac)) (msgs : List Bytes) : Bytes × (Ctr × Mac) :=
  (x.1 ++ (wire p msgs x.2).1, (wire p msgs x.2).2)

theorem extend_nil (x : Bytes × (Ctr × Mac)) : extend p x [] = x := by
  rw [extend, wire, List.append_nil]

theorem wire_append (msgs later : List Bytes) (c : Ctr × Mac) :
    wire p (msgs ++ later) c = extend p (wire p msgs c) later := by
  induction msgs generalizing c with
  | nil => rfl
  | cons msg msgs ih =>
    rw [List.cons_append, wire, ih, wire]
    simp only [extend, List.append_assoc]

theorem extend_append (x : Bytes × (Ctr × Mac)) (msgs later : List Bytes) :
    extend p x (msgs ++ later) = extend p (extend p x msgs) later := by
  rw [extend, wire_append]
  simp only [extend, List.append_assoc]

theorem extend_prepend (a : Bytes) (x : Bytes × (Ctr × Mac)) (msgs : List Bytes) :
    extend p (a ++ x.1, x.2) msgs = (a ++ (extend p x msgs).1, (extend p x msgs).2) := by
  simp only [extend, List.append_assoc]

theorem wire_eq_nil (hctr : p.CounterMode pad) {msgs : List Bytes} {c : Ctr × Mac}
    (h : (wire p msgs c).1 = []) : msgs = [] := by
  cases msgs with
  | nil => rfl
  | cons msg msgs =>
    obtain ⟨header, frame, -, -, hwrite, hheader, -⟩ := transfer_parts hctr c.1 c.2 msg
    have hnil := congrArg List.length h
    simp only [wire, hwrite, List.length_append, hheader, List.length_nil] at hnil
    omega

end Wire

section Writer

def rest (p : Primitives) (s : Session) : Bytes × (Ctr × Mac) :=
  let later := wire p s.writeQueue.tail (s.io.frameEnc, s.io.egressMac)
  (s.writing.getD [] ++ later.1, later.2)

def Queued (s : Session) : Prop := s.writing = none ↔ s.writeQueue = []

/-- All that was sent from `s` to `t` stands behind what was there before. -/
structure Sends (p : Primitives) (s t : Session) : Prop where
  queued : Queued t
  grows : ∃ msgs, t.sent = s.sent ++ msgs ∧ t.rest p = extend p (s.rest p) msgs

structure Keeps (s t : Session) : Prop where
  frameDec : t.io.frameDec = s.io.frameDec
  ingressMac : t.io.ingressMac = s.io.ingressMac
  received : t.received = s.received
  reading : t.reading = s.reading

variable {s t u : Session}

theorem Sends.refl (h : Queued s) : Sends p s s :=
  ⟨h, [], (List.append_nil _).symm, (extend_nil _).symm⟩

theorem Sends.trans (h : Sends p s t) (h' : Sends p t u) : Sends p s u := by
  obtain ⟨msgs, hsent, hrest⟩ := h.grows
  obtain ⟨later, hsent', hrest'⟩ := h'.grows
  refine ⟨h'.queued, msgs ++ later, ?_, ?_⟩
  · rw [hsent', hsent, List.append_assoc]
  · rw [hrest', hrest, extend_append]

theorem Keeps.refl (s : Session) : Keeps s s := ⟨rfl, rfl, rfl, rfl⟩

theorem Keeps.trans (h : Keeps s t) (h' : Keeps t u) : Keeps s u :=
  ⟨h'.frameDec.trans h.frameDec, h'.ingressMac.trans h.ingressMac,
    h'.received.trans h.received, h'.reading.trans h.reading⟩

/-- The front of the queue is written: what was to come of it is under way. -/
theorem rest_write {msg : Bytes} {msgs : List Bytes} (h : s.writeQueue = msg :: msgs) :
    (s.write p).rest p = wire p (msg :: msgs) (s.io.frameEnc, s.io.egressMac) := by
  unfold write
  rw [h]
  rfl

theorem queued_write (s : Session) : Queued (s.write p) :=
  ⟨fun h ↦ absurd h (by simp [write]), fun h ↦ absurd h (by simp [write])⟩

theorem keeps_write (s : Session) : Keeps s (s.write p) := by
  have h : (s.write p).io.frameDec = s.io.frameDec ∧
      (s.write p).io.ingressMac = s.io.ingressMac := ⟨rfl, rfl⟩
  exact ⟨h.1, h.2, rfl, rfl⟩

theorem sends_send (h : Queued s) (msg : Bytes) : Sends p s (s.send p msg) := by
  unfold send
  split
  · exact .refl h
  · split
    · exact .refl h
    · dsimp only
      cases hqueue : s.writeQueue with
      | nil =>
        -- Nothing is under way, and the packet is written at once.
        have hnone : s.writing = none := h.mpr hqueue
        rw [if_pos (by simp)]
        refine ⟨queued_write _, [msg], rfl, ?_⟩
        rw [rest_write rfl]
        simp [rest, extend, hqueue, hnone, wire]
      | cons first queue =>
        rw [if_neg (by simp)]
        refine ⟨⟨fun hnone ↦ ?_, fun hnil ↦ ?_⟩, [msg], rfl, ?_⟩
        · rw [h.mp hnone] at hqueue
          cases hqueue
        · simp at hnil
        · simp only [rest, hqueue, List.cons_append, List.tail_cons, wire_append]
          rw [extend_prepend]

theorem keeps_send (s : Session) (msg : Bytes) : Keeps s (s.send p msg) := by
  unfold send
  split
  · exact .refl s
  · split
    · exact .refl s
    · dsimp only
      split
      · refine Keeps.trans ?_ (keeps_write _)
        exact ⟨rfl, rfl, rfl, rfl⟩
      · exact ⟨rfl, rfl, rfl, rfl⟩

theorem sends_drop (h : Queued s) (reason : DisconnectReason) : Sends p s (s.drop reason) := by
  unfold drop
  split
  · exact .refl h
  · exact ⟨h, [], (List.append_nil _).symm, (extend_nil _).symm⟩

theorem keeps_drop (s : Session) (reason : DisconnectReason) : Keeps s (s.drop reason) := by
  unfold drop
  split
  · exact .refl s
  · exact ⟨rfl, rfl, rfl, rfl⟩

theorem sends_disconnect (h : Queued s) (reason : DisconnectReason) :
    Sends p s (s.disconnect p reason) := by
  unfold disconnect
  dsimp only
  split
  · have hsend := sends_send (p := p) h (packet 1 [reason.toNat])
    exact hsend.trans (sends_drop hsend.queued reason)
  · exact sends_drop h reason

theorem keeps_disconnect (s : Session) (reason : DisconnectReason) :
    Keeps s (s.disconnect p reason) := by
  unfold disconnect
  dsimp only
  split
  · exact (keeps_send s _).trans (keeps_drop _ reason)
  · exact keeps_drop s reason

theorem sends_foldl (h : Queued s) (msgs : List Bytes) :
    Sends p s (msgs.foldl (fun s msg ↦ s.send p msg) s) := by
  induction msgs generalizing s with
  | nil => exact .refl h
  | cons msg msgs ih =>
    have hsend := sends_send (p := p) h msg
    exact hsend.trans (ih hsend.queued)

theorem keeps_foldl (s : Session) (msgs : List Bytes) :
    Keeps s (msgs.foldl (fun s msg ↦ s.send p msg) s) := by
  induction msgs generalizing s with
  | nil => exact .refl s
  | cons msg msgs ih => exact (keeps_send s msg).trans (ih _)

theorem interpret_ok {type : ℕ} {r : RLP} (h : s.interpret p type r = .ok t) :
    t = s ∨ (∃ msg, t = s.send p msg) ∨ ∃ reason, t = s.drop reason := by
  unfold interpret at h
  split at h
  · obtain ⟨x, -, h⟩ := bind_eq_ok.mp h
    obtain ⟨n, -, h⟩ := bind_eq_ok.mp h
    obtain ⟨y, -, h⟩ := bind_eq_ok.mp h
    obtain ⟨canonical, -, h⟩ := bind_eq_ok.mp h
    split at h
    · exact .inr (.inr ⟨.badProtocol, (Except.ok.inj h).symm⟩)
    · exact .inr (.inr ⟨.disconnectRequested, (Except.ok.inj h).symm⟩)
  · split at h
    · exact .inr (.inl ⟨packet 3 [], (Except.ok.inj h).symm⟩)
    · exact .inl (Except.ok.inj h).symm

theorem readPacket_local (h : Queued s) (capId type : ℕ) (r : RLP) (reaction : Reaction) :
    Sends p s (s.readPacket p capId type r reaction) ∧
      Keeps s (s.readPacket p capId type r reaction) := by
  unfold readPacket
  split
  · cases hread : s.interpret p type r with
    | error e => exact ⟨sends_disconnect h _, keeps_disconnect s _⟩
    | ok t =>
      rcases interpret_ok hread with hsame | ⟨msg, rfl⟩ | ⟨reason, rfl⟩
      · rw [hsame]
        exact ⟨.refl h, .refl s⟩
      · exact ⟨sends_send h msg, keeps_send s msg⟩
      · exact ⟨sends_drop h reason, keeps_drop s reason⟩
  · have hsends := sends_foldl (p := p) h reaction.sends
    have hkeeps := keeps_foldl (p := p) s reaction.sends
    dsimp only
    split
    · exact ⟨hsends.trans (sends_disconnect hsends.queued _),
        hkeeps.trans (keeps_disconnect _ _)⟩
    · exact ⟨hsends, hkeeps⟩

theorem sends_of_eq (h : Queued s) (hqueue : t.writeQueue = s.writeQueue)
    (hwriting : t.writing = s.writing) (hsent : t.sent = s.sent)
    (henc : t.io.frameEnc = s.io.frameEnc) (hmac : t.io.egressMac = s.io.egressMac) :
    Sends p s t := by
  refine ⟨?_, [], ?_, ?_⟩
  · unfold Queued
    rw [hwriting, hqueue]
    exact h
  · rw [hsent, List.append_nil]
  · rw [extend_nil]
    unfold rest
    rw [hqueue, hwriting, henc, hmac]

theorem sends_doRead (h : Queued s) : Sends p s s.doRead := by
  unfold doRead
  split
  · exact .refl h
  · exact sends_of_eq h rfl rfl rfl rfl rfl

theorem sends_handleFrame (h : Queued s) (protocolId : ℕ) (frame : Bytes) (reaction : Reaction) :
    Sends p s (s.handleFrame p protocolId frame reaction) := by
  unfold handleFrame
  split
  · exact sends_disconnect h _
  · cases parsePacket frame with
    | error e => exact sends_of_eq h rfl rfl rfl rfl rfl
    | ok x =>
      obtain ⟨hsends, -⟩ := readPacket_local (p := p) h protocolId x.1 x.2 reaction
      exact hsends.trans (sends_doRead hsends.queued)

theorem authAndDecryptHeader_enc {io io' : BytesFrameCoder} {data text : Bytes}
    (h : io.authAndDecryptHeader p data = some (text, io')) :
    io'.frameEnc = io.frameEnc ∧ io'.egressMac = io.egressMac := by
  unfold authAndDecryptHeader at h
  split at h
  · cases h
  · dsimp only at h
    split at h
    · cases h
    · obtain ⟨-, rfl⟩ := Prod.mk.inj (Option.some.inj h)
      exact ⟨rfl, rfl⟩

theorem authAndDecryptFrame_enc {io io' : BytesFrameCoder} {data text : Bytes}
    (h : io.authAndDecryptFrame p data = some (text, io')) :
    io'.frameEnc = io.frameEnc ∧ io'.egressMac = io.egressMac := by
  unfold authAndDecryptFrame at h
  dsimp only at h
  split at h
  · cases h
  · obtain ⟨-, rfl⟩ := Prod.mk.inj (Option.some.inj h)
    exact ⟨rfl, rfl⟩

theorem sends_onHeader (h : Queued s) (data : Bytes) : Sends p s (s.onHeader p data) := by
  have hidle : Sends p s { s with reading := .idle } := sends_of_eq h rfl rfl rfl rfl rfl
  unfold onHeader
  dsimp only
  cases hread : s.io.authAndDecryptHeader p data with
  | none => exact hidle.trans (sends_drop hidle.queued _)
  | some x =>
    obtain ⟨henc, hmac⟩ := authAndDecryptHeader_enc hread
    have hio : Sends p s { s with reading := .idle, io := x.2 } :=
      sends_of_eq h rfl rfl rfl henc hmac
    dsimp only
    cases BytesFrameInfo.ofHeader x.1 with
    | error e => exact hio.trans (sends_drop hio.queued _)
    | ok info => exact sends_of_eq h rfl rfl rfl henc hmac

theorem onFrame_eq {data text : Bytes} {io : BytesFrameCoder}
    (h : s.io.authAndDecryptFrame p data = some (text, io)) (info : BytesFrameInfo)
    (reaction : Reaction) :
    s.onFrame p info data reaction = handleFrame p
      { s with io := io, reading := .idle, received := s.received ++ [text.take info.length] }
      info.protocolId (text.take info.length) reaction := by
  unfold onFrame
  simp only [h]

theorem sends_onFrame (h : Queued s) (info : BytesFrameInfo) (data : Bytes)
    (reaction : Reaction) : Sends p s (s.onFrame p info data reaction) := by
  have hidle : Sends p s { s with reading := .idle } := sends_of_eq h rfl rfl rfl rfl rfl
  unfold onFrame
  dsimp only
  cases hread : s.io.authAndDecryptFrame p data with
  | none => exact hidle.trans (sends_drop hidle.queued _)
  | some x =>
    obtain ⟨henc, hmac⟩ := authAndDecryptFrame_enc hread
    have hio : Sends p s { s with
        reading := .idle, io := x.2, received := s.received ++ [x.1.take info.length] } :=
      sends_of_eq h rfl rfl rfl henc hmac
    exact hio.trans (sends_handleFrame hio.queued _ _ _)

theorem rest_onWritten (h : s.writing = some []) : (s.onWritten p).rest p = s.rest p := by
  unfold onWritten
  dsimp only
  cases hqueue : s.writeQueue.tail with
  | nil =>
    rw [if_pos List.isEmpty_nil]
    simp [rest, hqueue, h]
  | cons msg msgs =>
    rw [if_neg (by simp), rest_write rfl]
    simp [rest, hqueue, h]

theorem sends_onWritten (h : s.writing = some []) : Sends p s (s.onWritten p) := by
  refine ⟨?_, [], ?_, (rest_onWritten h).trans (extend_nil _).symm⟩
  · unfold onWritten
    dsimp only
    split
    next hempty => exact ⟨fun _ ↦ List.isEmpty_iff.mp hempty, fun _ ↦ rfl⟩
    next => exact queued_write _
  · unfold onWritten
    dsimp only
    split
    · exact (List.append_nil _).symm
    · exact (List.append_nil _).symm

theorem keeps_onWritten (s : Session) : Keeps s (s.onWritten p) := by
  unfold onWritten
  dsimp only
  split
  · exact ⟨rfl, rfl, rfl, rfl⟩
  · refine Keeps.trans ?_ (keeps_write _)
    exact ⟨rfl, rfl, rfl, rfl⟩

end Writer

section Reader

/-- The packets still to be read are those whose bytes are under way: from the next header on, or
from the frame whose header was read. -/
def Awaits (p : Primitives) (s : Session) (todo : List Bytes) (x : Bytes × (Ctr × Mac)) : Prop :=
  match s.reading with
  | .frame info => ∃ msg msgs frame c, todo = msg :: msgs ∧ info.length = msg.length ∧
      frame.length = info.length + info.padding + 16 ∧
      (∀ b : BytesFrameCoder, b.frameDec = s.io.frameDec → b.ingressMac = s.io.ingressMac →
        ∃ mac, b.authAndDecryptFrame p frame = some (paddedFrame msg ++ mac,
          { b with frameDec := c.1, ingressMac := c.2 })) ∧
      x = extend p (frame, c) msgs
  | _ => x = wire p todo (s.io.frameDec, s.io.ingressMac)

def Flow (p : Primitives) (s t : Session) (stream : Bytes) : Prop :=
  ∃ todo, s.sent = t.received ++ todo ∧ Awaits p t todo (stream ++ (s.rest p).1, (s.rest p).2)

variable {s s' t t' : Session} {stream : Bytes}

theorem Awaits.extend {todo : List Bytes} {x : Bytes × (Ctr × Mac)} (h : Awaits p t todo x)
    (msgs : List Bytes) : Awaits p t (todo ++ msgs) (extend p x msgs) := by
  unfold Awaits at h ⊢
  cases hreading : t.reading with
  | idle =>
    simp only [hreading] at h ⊢
    rw [h, wire_append]
  | header =>
    simp only [hreading] at h ⊢
    rw [h, wire_append]
  | frame info =>
    simp only [hreading] at h ⊢
    obtain ⟨msg, later, frame, c, rfl, hlength, hframe, hread, rfl⟩ := h
    exact ⟨msg, later ++ msgs, frame, c, rfl, hlength, hframe, hread, (extend_append _ _ _).symm⟩

theorem Awaits.keeps {todo : List Bytes} {x : Bytes × (Ctr × Mac)} (h : Awaits p t todo x)
    (hkeeps : Keeps t t') : Awaits p t' todo x := by
  unfold Awaits at h ⊢
  rw [hkeeps.reading, hkeeps.frameDec, hkeeps.ingressMac]
  exact h

theorem Flow.sends (h : Flow p s t stream) (hsends : Sends p s s') : Flow p s' t stream := by
  obtain ⟨todo, hsent, hawaits⟩ := h
  obtain ⟨msgs, hsent', hrest⟩ := hsends.grows
  refine ⟨todo ++ msgs, ?_, ?_⟩
  · rw [hsent', hsent, List.append_assoc]
  · rw [hrest, ← extend_prepend]
    exact hawaits.extend msgs

theorem Flow.keeps (h : Flow p s t stream) (hkeeps : Keeps t t') : Flow p s t' stream := by
  obtain ⟨todo, hsent, hawaits⟩ := h
  exact ⟨todo, by rw [hkeeps.received, hsent], hawaits.keeps hkeeps⟩

theorem Flow.transmit {data : Bytes} (h : Flow p s t stream) (hwriting : s.writing = some data)
    (n : ℕ) : Flow p { s with writing := some (data.drop n) } t (stream ++ data.take n) := by
  obtain ⟨todo, hsent, hawaits⟩ := h
  refine ⟨todo, hsent, ?_⟩
  have hrest : stream ++ data.take n ++ (rest p { s with writing := some (data.drop n) }).1 =
      stream ++ (s.rest p).1 := by
    simp only [rest, hwriting, Option.getD_some, List.append_assoc]
    rw [← List.append_assoc (data.take n), List.take_append_drop]
  have hend : (rest p { s with writing := some (data.drop n) }).2 = (s.rest p).2 := rfl
  rw [hrest, hend]
  exact hawaits

theorem ofHeader_packetHeader {msg : Bytes} (h : msg.length < 2 ^ 16) (mac : Bytes) :
    ∃ info, BytesFrameInfo.ofHeader (plainHeader (packetHeader msg) ++ mac) = .ok info ∧
      info.length = msg.length ∧ info.padding = paddingOf msg.length := by
  have h24 : msg.length < 2 ^ 24 := h.trans (by decide)
  obtain ⟨zeros, hplain⟩ := Frame.packet.plainHeader_eq msg
  have hinfo := Frame.packet.ofHeader_eq h24 (zeros ++ mac)
  rw [← List.append_assoc, ← hplain] at hinfo
  exact ⟨_, hinfo, (decodedLength_eq_iff h24).mpr h, paddingOf_decodedLength msg⟩

/-- The header of the next packet is read, and announces the frame that stands behind it. -/
theorem onHeader_wire (hctr : p.CounterMode pad) {msg : Bytes} (hshort : msg.length < 2 ^ 16)
    (t : Session) :
    ∃ header frame info k₁ m₁,
      (Frame.packet.write (coder p) msg t.io.frameDec t.io.ingressMac).1 = header ++ frame ∧
      header.length = 32 ∧ info.length = msg.length ∧
      frame.length = info.length + info.padding + 16 ∧
      t.onHeader p header = { t with
        io := { t.io with frameDec := k₁, ingressMac := m₁ }, reading := .frame info } ∧
      ∀ b : BytesFrameCoder, b.frameDec = k₁ → b.ingressMac = m₁ →
        ∃ mac, b.authAndDecryptFrame p frame = some (paddedFrame msg ++ mac, { b with
          frameDec := (Frame.packet.write (coder p) msg t.io.frameDec t.io.ingressMac).2.1
          ingressMac :=
            (Frame.packet.write (coder p) msg t.io.frameDec t.io.ingressMac).2.2 }) := by
  obtain ⟨header, frame, k₁, m₁, hwrite, hheader, hframe, hfirst, hsecond⟩ :=
    transfer_parts hctr t.io.frameDec t.io.ingressMac msg
  obtain ⟨mac, hread⟩ := hfirst t.io rfl rfl
  obtain ⟨info, hinfo, hlength, hpadding⟩ := ofHeader_packetHeader hshort mac
  refine ⟨header, frame, info, k₁, m₁, hwrite, hheader, hlength, ?_, ?_, hsecond⟩
  · rw [hframe, hlength, hpadding]
  · unfold onHeader
    simp only [hread, hinfo]

theorem Flow.header (hctr : p.CounterMode pad) (h : Flow p s t stream)
    (hreading : t.reading = .header) (hlen : 32 ≤ stream.length)
    (hshort : ∀ m ∈ s.sent, m.length < 2 ^ 16) :
    Flow p s (t.onHeader p (stream.take 32)) (stream.drop 32) := by
  obtain ⟨todo, hsent, hawaits⟩ := h
  unfold Awaits at hawaits
  simp only [hreading] at hawaits
  cases todo with
  | nil =>
    have hnil := congrArg (fun x ↦ x.1.length) hawaits
    simp only [wire, List.length_append, List.length_nil] at hnil
    omega
  | cons msg msgs =>
    have hmem : msg ∈ s.sent := by
      rw [hsent]
      exact List.mem_append_right _ List.mem_cons_self
    obtain ⟨header, frame, info, k₁, m₁, hwrite, hheader, hlength, hframe, hstep, hsecond⟩ :=
      onHeader_wire hctr (hshort msg hmem) t
    simp only [wire] at hawaits
    generalize Frame.packet.write (coder p) msg t.io.frameDec t.io.ingressMac = out
      at hwrite hsecond hawaits
    obtain ⟨hbytes, hend⟩ := Prod.mk.inj hawaits
    rw [hwrite, List.append_assoc] at hbytes
    have htake := congrArg (List.take 32) hbytes
    rw [List.take_append_of_le_length hlen, List.take_left' hheader] at htake
    have hdrop := congrArg (List.drop 32) hbytes
    rw [List.drop_append_of_le_length hlen, List.drop_left' hheader] at hdrop
    rw [htake, hstep]
    refine ⟨msg :: msgs, hsent, msg, msgs, frame, out.2, rfl, hlength, hframe, hsecond, ?_⟩
    rw [hdrop, hend]
    rfl

/-- The packet is what is decrypted of the frame, and the next one is read from its header on. -/
theorem Flow.frame {info : BytesFrameInfo} (h : Flow p s t stream)
    (hreading : t.reading = .frame info)
    (hlen : info.length + info.padding + 16 ≤ stream.length) :
    ∃ text io, t.io.authAndDecryptFrame p (stream.take (info.length + info.padding + 16)) =
        some (text, io) ∧
      Flow p s { t with
          io := io, received := t.received ++ [text.take info.length], reading := .idle }
        (stream.drop (info.length + info.padding + 16)) := by
  obtain ⟨todo, hsent, hawaits⟩ := h
  unfold Awaits at hawaits
  simp only [hreading] at hawaits
  obtain ⟨msg, msgs, frame, c, rfl, hlength, hframe, hread, hbytes⟩ := hawaits
  obtain ⟨mac, htext⟩ := hread t.io rfl rfl
  obtain ⟨hbytes, hend⟩ := Prod.mk.inj hbytes
  have htake := congrArg (List.take (info.length + info.padding + 16)) hbytes
  rw [List.take_append_of_le_length hlen, List.take_left' hframe] at htake
  have hdrop := congrArg (List.drop (info.length + info.padding + 16)) hbytes
  rw [List.drop_append_of_le_length hlen, List.drop_left' hframe] at hdrop
  refine ⟨_, _, by rw [htake, htext], msgs, ?_, ?_⟩
  · have hmsg : (paddedFrame msg ++ mac).take info.length = msg := by
      rw [paddedFrame, List.append_assoc, List.take_left' hlength.symm]
    rw [hmsg, hsent, List.append_assoc]
    rfl
  · rw [hdrop, hend]
    rfl

theorem Flow.doRead (h : Flow p s t stream) (hidle : t.reading = .idle) :
    Flow p s t.doRead stream := by
  unfold Session.doRead
  split
  · exact h
  · obtain ⟨todo, hsent, hawaits⟩ := h
    unfold Awaits at hawaits
    simp only [hidle] at hawaits
    exact ⟨todo, hsent, hawaits⟩

theorem Flow.handleFrame (h : Flow p s t stream) (hqueued : Queued t) (hidle : t.reading = .idle)
    (protocolId : ℕ) (frame : Bytes) (reaction : Reaction) :
    Flow p s (t.handleFrame p protocolId frame reaction) stream := by
  unfold Session.handleFrame
  split
  · exact h.keeps (keeps_disconnect t _)
  · cases parsePacket frame with
    | error e => exact h.keeps ⟨rfl, rfl, rfl, rfl⟩
    | ok x =>
      obtain ⟨-, hkeeps⟩ := readPacket_local (p := p) hqueued protocolId x.1 x.2 reaction
      exact (h.keeps hkeeps).doRead (hkeeps.reading.trans hidle)

end Reader

section Runs

variable {s s' t : Session} {incoming incoming' out : Bytes}

theorem Act.writes (h : Act p s incoming s' incoming' out) (hqueued : Queued s) :
    Queued s' ∧ s.sent <+: s'.sent ∧
      ∀ t stream, Flow p s t stream → Flow p s' t (stream ++ out) := by
  have hsends : ∀ {u : Session}, Sends p s u → Queued u ∧ s.sent <+: u.sent ∧
      ∀ t stream, Flow p s t stream → Flow p u t (stream ++ []) := by
    intro u hu
    obtain ⟨msgs, hsent, -⟩ := hu.grows
    refine ⟨hu.queued, ⟨msgs, hsent.symm⟩, fun t stream hflow ↦ ?_⟩
    rw [List.append_nil]
    exact hflow.sends hu
  cases h with
  | send msg => exact hsends (sends_send hqueued msg)
  | transmit n hopen hwriting =>
    refine ⟨⟨fun hnone ↦ ?_, fun hnil ↦ ?_⟩, List.prefix_rfl, fun t stream hflow ↦
      hflow.transmit hwriting n⟩
    · cases hnone
    · rw [hqueued.mpr hnil] at hwriting
      cases hwriting
  | written hwriting => exact hsends (sends_onWritten hwriting)
  | header hreading hlen => exact hsends (sends_onHeader hqueued _)
  | frame reaction hreading hlen => exact hsends (sends_onFrame hqueued _ _ reaction)
  | drop reason => exact hsends (sends_drop hqueued reason)
  | disconnect reason => exact hsends (sends_disconnect hqueued reason)

theorem Act.reads (hctr : p.CounterMode pad) (h : Act p s incoming s' incoming' out)
    (hqueued : Queued s)
    (hflow : Flow p t s incoming) (hshort : ∀ m ∈ t.sent, m.length < 2 ^ 16) :
    Flow p t s' incoming' := by
  cases h with
  | send msg => exact hflow.keeps (keeps_send s msg)
  | transmit n hopen hwriting => exact hflow.keeps ⟨rfl, rfl, rfl, rfl⟩
  | written hwriting => exact hflow.keeps (keeps_onWritten s)
  | header hreading hlen => exact hflow.header hctr hreading hlen hshort
  | frame reaction hreading hlen =>
    obtain ⟨text, io, hread, hnext⟩ := hflow.frame hreading hlen
    rw [onFrame_eq hread]
    -- Only the reader's side has changed so far, so the queue is as it was.
    exact hnext.handleFrame hqueued rfl _ _ reaction
  | drop reason => exact hflow.keeps (keeps_drop s reason)
  | disconnect reason => exact hflow.keeps (keeps_disconnect s reason)

structure InOrder (p : Primitives) (l : Link UInt8 Session Session) : Prop where
  left : Queued l.left
  right : Queued l.right
  forth : Flow p l.left l.right l.forth
  back : Flow p l.right l.left l.back

def Short (l : Link UInt8 Session Session) : Prop :=
  (∀ m ∈ l.left.sent, m.length < 2 ^ 16) ∧ ∀ m ∈ l.right.sent, m.length < 2 ^ 16

variable {l l' : Link UInt8 Session Session}

/-- The queues are in order whatever is sent, and what was sent stays recorded. -/
theorem queued_step (h : Queued l.left ∧ Queued l.right) (hstep : Step p l l') :
    (Queued l'.left ∧ Queued l'.right) ∧ (Short l' → Short l) := by
  cases hstep with
  | left hact =>
    obtain ⟨hqueued, hsent, -⟩ := hact.writes h.1
    exact ⟨⟨hqueued, h.2⟩, fun hshort ↦ ⟨fun m hm ↦ hshort.1 m (hsent.subset hm), hshort.2⟩⟩
  | right hact =>
    obtain ⟨hqueued, hsent, -⟩ := hact.writes h.2
    exact ⟨⟨h.1, hqueued⟩, fun hshort ↦ ⟨hshort.1, fun m hm ↦ hshort.2 m (hsent.subset hm)⟩⟩

theorem queued_of_run (h : Queued l.left ∧ Queued l.right) (hrun : ReflTransGen (Step p) l l') :
    Queued l'.left ∧ Queued l'.right := by
  induction hrun with
  | refl => exact h
  | tail _ hstep ih => exact (queued_step ih hstep).1

theorem InOrder.step (hctr : p.CounterMode pad) (h : InOrder p l) (hstep : Step p l l')
    (hshort : Short l) : InOrder p l' := by
  cases hstep with
  | left hact =>
    obtain ⟨hqueued, -, hflow⟩ := hact.writes h.left
    exact ⟨hqueued, h.right, hflow _ _ h.forth, hact.reads hctr h.left h.back hshort.2⟩
  | right hact =>
    obtain ⟨hqueued, -, hflow⟩ := hact.writes h.right
    exact ⟨h.left, hqueued, hact.reads hctr h.right h.forth hshort.1, hflow _ _ h.back⟩

theorem InOrder.run (hctr : p.CounterMode pad) (h : InOrder p l)
    (hrun : ReflTransGen (Step p) l l') (hshort : Short l') : InOrder p l' := by
  induction hrun with
  | refl => exact h
  | tail hfirst hstep ih =>
    have hqueued := queued_of_run ⟨h.left, h.right⟩ hfirst
    have hbefore := (queued_step hqueued hstep).2 hshort
    exact (ih hbefore).step hctr hstep hbefore

def connected (p : Primitives) (a b : BytesFrameCoder) : Link UInt8 Session Session where
  left := start p a
  right := start p b

theorem inOrder_connected {a b : BytesFrameCoder} (h : Mirrored a b) :
    InOrder p (connected p a b) := by
  have hqueued : ∀ io : BytesFrameCoder, Queued { io := io } := fun io ↦ ⟨fun _ ↦ rfl, fun _ ↦ rfl⟩
  have hstart : ∀ io : BytesFrameCoder, Sends p { io := io } (start p io) := by
    intro io
    have hping := sends_send (p := p) (hqueued io) (packet 2 [])
    exact hping.trans (sends_doRead hping.queued)
  -- Before the first packet nothing is under way, and the reader is where the writer is.
  have hflow : ∀ {x y : BytesFrameCoder}, Feeds x y → Flow p (start p x) (start p y) [] := by
    intro x y hfeeds
    have hnew : Flow p { io := x } { io := y } [] := by
      refine ⟨[], rfl, ?_⟩
      change ([], (x.frameEnc, x.egressMac)) = ([], (y.frameDec, y.ingressMac))
      rw [hfeeds.cipher, hfeeds.mac]
    have hkeeps := keeps_send (p := p) { io := y } (packet 2 [])
    exact ((hnew.sends (hstart x)).keeps hkeeps).doRead hkeeps.reading
  exact ⟨(hstart a).queued, (hstart b).queued, hflow h.forth, hflow h.back⟩

/-- What has come to an end is the beginning of what the other sent, in the same order, and all of
it once nothing is under way. -/
structure Delivered (s t : Session) (stream : Bytes) : Prop where
  inOrder : t.received <+: s.sent
  complete : stream = [] → s.writing = none → t.received = s.sent

theorem Flow.delivered (hctr : p.CounterMode pad) {stream : Bytes} (h : Flow p s t stream)
    (hqueued : Queued s) : Delivered s t stream := by
  obtain ⟨todo, hsent, hawaits⟩ := h
  refine ⟨⟨todo, hsent.symm⟩, fun hstream hwriting ↦ ?_⟩
  have hrest : (s.rest p).1 = [] := by
    simp [rest, hwriting, hqueued.mp hwriting, wire]
  rw [hstream, hrest] at hawaits
  have htodo : todo = [] := by
    unfold Awaits at hawaits
    split at hawaits
    · obtain ⟨msg, msgs, frame, c, -, -, hframe, -, hbytes⟩ := hawaits
      have hnil := congrArg (fun x ↦ x.1.length) hbytes
      simp only [extend, List.append_nil, List.length_append, List.length_nil] at hnil
      omega
    · exact wire_eq_nil hctr (congrArg Prod.fst hawaits).symm
  rw [hsent, htodo, List.append_nil]

theorem InOrder.delivered (hctr : p.CounterMode pad) (h : InOrder p l) :
    Delivered l.left l.right l.forth ∧ Delivered l.right l.left l.back :=
  ⟨h.forth.delivered hctr h.left, h.back.delivered hctr h.right⟩

/-- In every run of two sessions with the coders of one handshake, in whatever order packets are
sent, taken by the sockets, read and handled, and wherever an end is dropped: each end receives what
the other sent in the order in which it was sent, nothing twice and nothing in between, as long as
no packet has 64 KiB or more. -/
theorem packets_in_order (hctr : p.CounterMode pad) {a b : BytesFrameCoder} (h : Mirrored a b)
    (hrun : ReflTransGen (Step p) (connected p a b) l) (hshort : Short l) :
    Delivered l.left l.right l.forth ∧ Delivered l.right l.left l.back := by
  have hinorder := (inOrder_connected h).run hctr hrun hshort
  exact hinorder.delivered hctr

end Runs

section Schedules

inductive Event
  | send (msg : Bytes)
  | transmit (n : ℕ)
  | written
  | header
  | frame (reaction : Reaction)

/-- What an event makes of an end and of what has come, and what the socket takes; nothing where it
cannot happen. -/
def Event.run (p : Primitives) (s : Session) (incoming : Bytes) :
    Event → Option (Session × Bytes × Bytes)
  | .send msg => some (s.send p msg, incoming, [])
  | .transmit n =>
    if s.isOpen then s.writing.map fun data ↦
      ({ s with writing := some (data.drop n) }, incoming, data.take n)
    else none
  | .written => if s.writing = some [] then some (s.onWritten p, incoming, []) else none
  | .header =>
    match s.reading with
    | .header =>
      if 32 ≤ incoming.length then
        some (s.onHeader p (incoming.take 32), incoming.drop 32, [])
      else none
    | _ => none
  | .frame reaction =>
    match s.reading with
    | .frame info =>
      let n := info.length + info.padding + 16
      if n ≤ incoming.length then
        some (s.onFrame p info (incoming.take n) reaction, incoming.drop n, [])
      else none
    | _ => none

variable {s : Session} {incoming : Bytes} {l l' : Link UInt8 Session Session}

theorem Event.act {e : Event} {x : Session × Bytes × Bytes} (h : e.run p s incoming = some x) :
    Act p s incoming x.1 x.2.1 x.2.2 := by
  cases e with
  | send msg =>
    obtain rfl := Option.some.inj h
    exact .send msg
  | transmit n =>
    rw [Event.run] at h
    split_ifs at h with hopen
    obtain ⟨data, hdata, rfl⟩ := Option.map_eq_some_iff.mp h
    exact .transmit n hopen hdata
  | written =>
    rw [Event.run] at h
    split_ifs at h with hwriting
    obtain rfl := Option.some.inj h
    exact .written hwriting
  | header =>
    simp only [Event.run] at h
    split at h
    · next hreading =>
      split_ifs at h with hlen
      obtain rfl := Option.some.inj h
      exact .header hreading hlen
    · contradiction
  | frame reaction =>
    simp only [Event.run] at h
    split at h
    · next info hreading =>
      split_ifs at h with hlen
      obtain rfl := Option.some.inj h
      exact .frame reaction hreading hlen
    · contradiction

def runAll (p : Primitives) (events : List (Bool × Event)) (l : Link UInt8 Session Session) :
    Option (Link UInt8 Session Session) :=
  events.foldlM (fun l e ↦
    if e.1 then (e.2.run p l.left l.back).map fun x ↦
      { l with left := x.1, back := x.2.1, forth := l.forth ++ x.2.2 }
    else (e.2.run p l.right l.forth).map fun x ↦
      { l with right := x.1, forth := x.2.1, back := l.back ++ x.2.2 }) l

theorem run_of_runAll {events : List (Bool × Event)} (h : runAll p events l = some l') :
    ReflTransGen (Step p) l l' := by
  induction events generalizing l with
  | nil =>
    obtain rfl := Option.some.inj h
    exact .refl
  | cons e events ih =>
    obtain ⟨u, hu, hrest⟩ := Option.bind_eq_some_iff.mp h
    refine ReflTransGen.head ?_ (ih hrest)
    dsimp only at hu
    split_ifs at hu
    · obtain ⟨x, hx, rfl⟩ := Option.map_eq_some_iff.mp hu
      exact .left (Event.act hx)
    · obtain ⟨x, hx, rfl⟩ := Option.map_eq_some_iff.mp hu
      exact .right (Event.act hx)

def loopback : BytesFrameCoder where
  frameEnc := { key := [] }
  frameDec := { key := [] }
  egressMac := ⟨[], []⟩
  ingressMac := ⟨[], []⟩

/-- The left end sends a packet behind its first ping, and the socket takes the ping in two pieces;
both are read at the right end, and its own ping and its answer at the left end. -/
def exchange : List (Bool × Event) :=
  [(true, .send [0x10, 0xc0]), (true, .transmit 20), (true, .transmit 100), (true, .written),
    (true, .transmit 100), (false, .header), (false, .frame {}), (false, .transmit 100),
    (false, .header), (false, .frame {}), (false, .written), (false, .transmit 100),
    (true, .header), (true, .frame {}), (true, .header), (true, .frame {})]

def records (l : Link UInt8 Session Session) : List (List Bytes) :=
  [l.left.sent, l.right.received, l.right.sent, l.left.received, [l.forth, l.back]]

theorem packets_in_order_exchange : ∃ l, records l = [[packet 2 [], [0x10, 0xc0], packet 3 []],
      [packet 2 [], [0x10, 0xc0]], [packet 2 [], packet 3 []], [packet 2 [], packet 3 []],
      [[], []]] ∧
    Delivered l.left l.right l.forth ∧ Delivered l.right l.left l.back := by
  have hrecords : (runAll plainPrimitives exchange
      (connected plainPrimitives loopback loopback)).map records =
        some [[packet 2 [], [0x10, 0xc0], packet 3 []], [packet 2 [], [0x10, 0xc0]],
          [packet 2 [], packet 3 []], [packet 2 [], packet 3 []], [[], []]] := by
    decide +kernel
  obtain ⟨l, hl, hrec⟩ := Option.map_eq_some_iff.mp hrecords
  have hsent : l.left.sent = [packet 2 [], [0x10, 0xc0], packet 3 []] := (List.cons.inj hrec).1
  have hsent' : l.right.sent = [packet 2 [], packet 3 []] :=
    (List.cons.inj (List.cons.inj (List.cons.inj hrec).2).2).1
  refine ⟨l, hrec, packets_in_order counterMode_plainPrimitives ⟨⟨rfl, rfl⟩, ⟨rfl, rfl⟩⟩
    (run_of_runAll hl) ⟨?_, ?_⟩⟩
  · rw [hsent]
    decide +kernel
  · rw [hsent']
    decide +kernel

end Schedules

section EndToEnd

open BytesHandshake (party exists_scripts sound_of_run Lawful End)

variable {valid : Secret → Prop} {a b : End} {x y : Public × RLP × BytesFrameCoder}

/-- Whatever happened during a handshake, the sessions it has started know each other, and between
them packets below 64 KiB arrive in order. -/
theorem end_to_end (hlaw : Lawful p valid) (ha : a.Valid valid) (hb : b.Valid valid)
    (hsmall : (BytesHandshake.helloPacket p a.host).length ≤ 1024)
    (hsmall' : (BytesHandshake.helloPacket p b.host).length ≤ 1024)
    {t : Link UInt8 BytesHandshake BytesHandshake}
    (hrun : ReflTransGen (Move (party p) (party p)) (BytesHandshake.start p a b) t)
    (hx : t.left.started = some x) (hy : t.right.started = some y)
    {l : Link UInt8 Session Session}
    (hsession : ReflTransGen (Step p) (connected p x.2.2 y.2.2) l) (hshort : Short l) :
    x.1 = p.toPublic b.host.key ∧ y.1 = p.toPublic a.host.key ∧
      Delivered l.left l.right l.forth ∧ Delivered l.right l.left l.back := by
  obtain ⟨pad, hctr⟩ := hlaw.ctr
  obtain ⟨x', y', opsA, opsB, hagree, hleft, hright, hschedule⟩ :=
    exists_scripts hlaw ha hb hsmall hsmall'
  obtain ⟨hsoundL, hsoundR⟩ := sound_of_run hleft hright hschedule hrun
  obtain rfl := hsoundL.started x hx
  obtain rfl := hsoundR.started y hy
  have hinorder := (inOrder_connected hagree.mirrored).run hctr hsession hshort
  exact ⟨hagree.left, hagree.right, hinorder.delivered hctr⟩

/-- A new session writes a ping and reads the header of the first packet. -/
theorem start_eq (io : BytesFrameCoder) : start p io =
    { io := (io.writeSingleFramePacket p (packet 2 [])).2
      writeQueue := [(io.writeSingleFramePacket p (packet 2 [])).1]
      writing := some (io.writeSingleFramePacket p (packet 2 [])).1
      reading := .header
      sent := [packet 2 []] } := by
  have hcheck : checkPacket (packet 2 []) = true := by decide +kernel
  simp [start, ping, send, hcheck, doRead, write]

theorem handleFrame_ping (s : Session) (protocolId : ℕ) :
    s.handleFrame p protocolId (packet 2 []) {} = (s.send p (packet 3 [])).doRead ∨
      s.handleFrame p protocolId (packet 2 []) {} = s.doRead := by
  have hcheck : checkPacket (packet 2 []) = true := by decide +kernel
  have hparse : parsePacket (packet 2 []) = .ok (2, [0xc0]) := by rfl
  unfold handleFrame readPacket
  simp only [hcheck, hparse]
  by_cases hown : protocolId = 0 ∧ 2 < 0x10
  · exact .inl (by simp only [if_pos hown]; rfl)
  · exact .inr (by simp only [if_neg hown]; rfl)

theorem doRead_records (s : Session) : s.doRead.sent = s.sent ∧ s.doRead.received = s.received := by
  unfold doRead
  split <;> exact ⟨rfl, rfl⟩

theorem mem_sent_send {s : Session} {msg m : Bytes} (h : m ∈ (s.send p msg).sent) :
    m ∈ s.sent ∨ m = msg := by
  unfold send at h
  dsimp only at h
  split_ifs at h
  · exact .inl h
  · exact .inl h
  · simpa [write] using h
  · simpa using h

/-- The ping with which a session starts can be transmitted and read at the other end. -/
theorem ping_arrives (hctr : p.CounterMode pad) {io io' : BytesFrameCoder}
    (h : Mirrored io io') : ∃ l, ReflTransGen (Step p) (connected p io io') l ∧ Short l ∧
      l.right.received = [packet 2 []] := by
  have hping : (packet 2 []).length < 2 ^ 16 := by decide +kernel
  have hpong : (packet 3 []).length < 2 ^ 16 := by decide +kernel
  obtain ⟨header, frame, info, k₁, m₁, hwrite, hheader, hlength, hframe, hread, hsecond⟩ :=
    onHeader_wire hctr hping (start p io')
  have hout : (io.writeSingleFramePacket p (packet 2 [])).1 = header ++ frame := by
    have hdec : (start p io').io.frameDec = io.frameEnc := by
      rw [start_eq]
      exact h.forth.cipher
    have hmac : (start p io').io.ingressMac = io.egressMac := by
      rw [start_eq]
      exact h.forth.mac
    rw [← hwrite, hdec, hmac]
    rfl
  let u : Session := { start p io' with
    io := { (start p io').io with frameDec := k₁, ingressMac := m₁ }, reading := .frame info }
  obtain ⟨mac, io₂, htext⟩ : ∃ mac io₂, u.io.authAndDecryptFrame p frame =
      some (paddedFrame (packet 2 []) ++ mac, io₂) := by
    obtain ⟨mac, htext⟩ := hsecond u.io rfl rfl
    exact ⟨mac, _, htext⟩
  let v : Session := u.onFrame p info frame {}
  -- the socket takes all of the ping, and the other end reads its header and its frame
  let l₁ : Link UInt8 Session Session :=
    { left := { start p io with writing := some [] }, right := start p io'
      forth := header ++ frame, back := [] }
  let l₂ : Link UInt8 Session Session := { l₁ with right := u, forth := frame }
  let l₃ : Link UInt8 Session Session := { l₁ with right := v, forth := [] }
  have hstep₁ : Step p (connected p io io') l₁ := by
    have hact : Act p (start p io) [] _ _ _ :=
      .transmit (header ++ frame).length (by rw [start_eq]) (by rw [start_eq, hout])
    rw [List.drop_length, List.take_length] at hact
    exact .left hact
  have hstep₂ : Step p l₁ l₂ := by
    have hact : Act p (start p io') (header ++ frame) _ _ _ :=
      .header (by rw [start_eq]) (by rw [List.length_append, hheader]; omega)
    rw [List.take_left' hheader, List.drop_left' hheader, hread] at hact
    exact .right hact
  have hstep₃ : Step p l₂ l₃ := by
    have hact : Act p u frame _ _ _ := .frame {} rfl hframe.ge
    rw [← hframe, List.take_length, List.drop_length] at hact
    exact .right hact
  have hmsg : (paddedFrame (packet 2 []) ++ mac).take info.length = packet 2 [] := by
    rw [paddedFrame, List.append_assoc, List.take_left' hlength.symm]
  have hv : ∃ s : Session, s.sent = [packet 2 []] ∧ s.received = [packet 2 []] ∧
      v = s.handleFrame p info.protocolId (packet 2 []) {} := by
    refine ⟨{ u with
      io := io₂, reading := .idle, received := u.received ++ [packet 2 []] }, ?_, ?_, ?_⟩
    · simp only [u, start_eq]
    · simp only [u, start_eq, List.nil_append]
    · have hv := onFrame_eq htext info {}
      rw [hmsg] at hv
      exact hv
  obtain ⟨s, hsent, hreceived, hs⟩ := hv
  have hright : v.received = [packet 2 []] ∧ ∀ m ∈ v.sent, m.length < 2 ^ 16 := by
    rw [hs]
    rcases handleFrame_ping (p := p) s info.protocolId with heq | heq
    · rw [heq, (doRead_records _).1, (doRead_records _).2, (keeps_send s _).received, hreceived]
      refine ⟨rfl, fun m hm ↦ ?_⟩
      rcases mem_sent_send hm with hm | rfl
      · rw [hsent, List.mem_singleton] at hm
        rwa [hm]
      · exact hpong
    · rw [heq, (doRead_records _).1, (doRead_records _).2, hreceived, hsent]
      exact ⟨rfl, fun m hm ↦ by rwa [List.mem_singleton.mp hm]⟩
  refine ⟨l₃, .tail (.tail (.single hstep₁) hstep₂) hstep₃, ⟨fun m hm ↦ ?_, hright.2⟩, hright.1⟩
  have hmem : m ∈ (start p io).sent := hm
  rw [start_eq, List.mem_singleton] at hmem
  rwa [hmem]

theorem end_to_end_ping : ∃ (x y : Public × RLP × BytesFrameCoder)
    (l : Link UInt8 Session Session), x.1 = plainPrimitives.toPublic 2 ∧
      y.1 = plainPrimitives.toPublic 1 ∧ l.right.received = [packet 2 []] ∧
      Delivered l.left l.right l.forth ∧ Delivered l.right l.left l.back := by
  have hvalid : ∀ key : Secret, (BytesHandshake.sample key).Valid fun _ ↦ True :=
    fun key ↦ ⟨trivial, trivial, trivial⟩
  have hsmall : (BytesHandshake.helloPacket plainPrimitives
      (BytesHandshake.sample 1).host).length ≤ 1024 := by decide +kernel
  have hsmall' : (BytesHandshake.helloPacket plainPrimitives
      (BytesHandshake.sample 2).host).length ≤ 1024 := by decide +kernel
  obtain ⟨x, y, opsA, opsB, hagree, hleft, hright, hschedule⟩ :=
    exists_scripts BytesHandshake.lawful_plainPrimitives (hvalid 1) (hvalid 2) hsmall hsmall'
  obtain ⟨l, r, hrun, ⟨hl, hidle⟩, hr, hidle'⟩ := hschedule.run hleft hright
  have hmoves : ReflTransGen (Move (party plainPrimitives) (party plainPrimitives))
      (BytesHandshake.start plainPrimitives (BytesHandshake.sample 1) (BytesHandshake.sample 2))
      ⟨l, r, [], []⟩ :=
        ReflTransGen.lift id (fun _ _ hstep ↦ Move.step hstep) _ _ hrun
  obtain ⟨l', hsession, hshort, hreceived⟩ :=
    ping_arrives counterMode_plainPrimitives hagree.mirrored
  obtain ⟨hkey, hkey', hdelivered⟩ := end_to_end BytesHandshake.lawful_plainPrimitives (hvalid 1)
    (hvalid 2) hsmall hsmall' hmoves (hl.ends hidle) (hr.ends hidle') hsession hshort
  exact ⟨x, y, l', hkey, hkey', hreceived, hdelivered⟩

end EndToEnd

end GseNetwork.Net.Session
