import GseNetwork.Core.RlpReading
import GseNetwork.Net.FrameCoder

namespace GseNetwork.Net

open GseNetwork.Core GseNetwork.Foundation.BigEndian GseNetwork.Foundation.SelfDelimiting
open GseNetwork.Core.RLP

section Prefix

variable {items : List Bytes} (hitems : ∀ x ∈ items, Delimited sizeAsEncoded x)
  (hlen : items.flatten.length < maxLength) (r : Bytes)

include hlen

theorem payload_encodeList_append : payload (encodeList items ++ r) = .ok items.flatten := by
  obtain ⟨offset, h⟩ := framed_encodeList hlen
  have hle : offset ≤ (encodeList items).length := by
    have := h.length_eq
    omega
  rw [(h.heads r).payload_eq (by rw [List.length_append, ← h.length_eq]; omega),
    List.drop_append_of_le_length hle, h.drop_eq, List.take_left]

theorem ofPrefix_encodeList_append :
    ofPrefix (encodeList items ++ r) = .ok (encodeList items ++ r) := by
  obtain ⟨offset, h⟩ := framed_encodeList hlen
  unfold ofPrefix
  rw [(h.heads r).actualSize_eq, h.length_eq]
  change (if (encodeList items ++ r).length < (encodeList items).length then _ else _) = _
  rw [if_neg (by rw [List.length_append]; omega)]
  rfl

theorem isList_encodeList_append : isList (encodeList items ++ r) = true := by
  obtain ⟨offset, h⟩ := framed_encodeList hlen
  have hlist := isList_encodeList hlen
  obtain ⟨x, t, hx⟩ := List.exists_cons_of_ne_nil h.ne_nil
  rw [hx] at hlist ⊢
  exact hlist

include hitems

theorem itemCount_encodeList_append :
    itemCount (encodeList items ++ r) = .ok items.length := by
  unfold itemCount itemsOf
  rw [isList_encodeList_append hlen, payload_encodeList_append hlen]
  change (do return (← split sizeAsEncoded items.flatten.length items.flatten).length) = _
  rw [split_flatten hitems (length_le_flatten hitems)]
  rfl

theorem item_encodeList_append {i : ℕ} (hi : i < items.length) :
    item (encodeList items ++ r) i = .ok (items.getD i []) := by
  have hmem : items.getD i [] ∈ items := by
    rw [List.getD_eq_getElem _ _ hi]
    exact List.getElem_mem hi
  unfold item
  rw [payload_encodeList_append hlen]
  change (do ofPrefix (← walk i items.flatten)) = _
  rw [walk_flatten hitems hi]
  exact ofPrefix_of_delimited (hitems _ hmem)

end Prefix

section Fields

def Frame.fields : Frame → List ℕ
  | .packet => [0, 0]
  | .single protocolType => [protocolType.toNat]
  | .continuation protocolType seqId => [protocolType.toNat, seqId.toNat]
  | .first protocolType seqId totalSize => [protocolType.toNat, seqId.toNat, totalSize.toNat]

variable {frame : Frame} {payload : Bytes}

theorem Frame.header_eq (frame : Frame) (payload : Bytes) :
    (frame.header payload).out =
      lengthBytes payload ++ encodeList (frame.fields.map fun n : ℕ ↦ encodeInt n) := by
  have hfields : ∀ items : List Bytes,
      (items.foldl (fun s x ↦ s.appendRaw x) ((lengthStream payload).appendList items.length)).out =
        lengthBytes payload ++ encodeList items := by
    intro items
    rw [RLPStream.appendList_items]
    rfl
  cases frame with
  | packet => rfl
  | single protocolType =>
    rw [← hfields]
    change (singleHeader protocolType payload).out = _
    rw [singleHeader, RLPStream.appendInt_eq]
    rfl
  | continuation protocolType seqId =>
    rw [← hfields]
    change (continuationHeader protocolType seqId payload).out = _
    rw [continuationHeader, RLPStream.appendInt_eq, RLPStream.appendInt_eq]
    rfl
  | first protocolType seqId totalSize =>
    rw [← hfields]
    change (firstHeader protocolType seqId totalSize payload).out = _
    rw [firstHeader, RLPStream.appendInt_eq, RLPStream.appendInt_eq, RLPStream.appendInt_eq]
    rfl

theorem length_encodeInt_le {n w : ℕ} (h : n < 256 ^ w) (hw : w < rlpDataImmLenCount) :
    (encodeInt n).length ≤ w + 1 := by
  have hreq : bytesRequired n ≤ w := bytesRequired_le h
  rw [encodeInt_natCast]
  unfold encodeBytes
  split
  · rw [length_toBigEndian]
    omega
  · rw [List.length_append, length_toBigEndian]
    unfold RLPStream.dataHead
    rw [if_pos (by omega), List.length_singleton]
    omega

theorem delimited_encodeInt_of_lt {n w : ℕ} (h : n < 256 ^ w) (hw : w < rlpDataImmLenCount) :
    Delimited sizeAsEncoded (encodeInt n) := by
  have hreq : bytesRequired n ≤ w := bytesRequired_le h
  have hmax : (toBigEndian (bytesRequired n) n).length < maxLength := by
    rw [length_toBigEndian]
    simp only [rlpDataImmLenCount, maxLength] at hw ⊢
    omega
  obtain ⟨offset, hframe⟩ := framed_encodeBytes hmax
  rw [encodeInt_natCast]
  exact hframe.delimited

theorem toInt_encodeInt_of_lt {n w : ℕ} (h : n < 256 ^ w) (hw : w < rlpDataImmLenCount) :
    toInt w (encodeInt n) = .ok n := by
  have hreq : bytesRequired n ≤ w := bytesRequired_le h
  rw [toInt_encodeInt (by omega), if_pos hreq]

theorem Frame.fields_lt (frame : Frame) : ∀ n ∈ frame.fields, n < 256 ^ 4 := by
  have h16 : ∀ x : UInt16, x.toNat < 4294967296 := fun x ↦ by
    have := x.toNat_lt
    omega
  have h32 : ∀ x : UInt32, x.toNat < 4294967296 := fun x ↦ x.toNat_lt
  cases frame <;> simp [fields, h16, h32]

theorem Frame.delimited_fields (frame : Frame) :
    ∀ x ∈ frame.fields.map fun n : ℕ ↦ encodeInt n, Delimited sizeAsEncoded x := by
  intro x hx
  obtain ⟨n, hn, rfl⟩ := List.mem_map.mp hx
  exact delimited_encodeInt_of_lt (frame.fields_lt n hn) (by decide)

/-- The list fits into the sixteen bytes of the header, after the three of the length. -/
theorem Frame.length_fields_le (frame : Frame) :
    (frame.fields.map fun n : ℕ ↦ encodeInt n).flatten.length ≤ 11 := by
  have h16 : ∀ x : UInt16, (encodeInt x.toNat).length ≤ 3 := fun x ↦
    length_encodeInt_le (show x.toNat < 256 ^ 2 by have := x.toNat_lt; omega) (by decide)
  have h32 : ∀ x : UInt32, (encodeInt x.toNat).length ≤ 5 := fun x ↦
    length_encodeInt_le (show x.toNat < 256 ^ 4 by have := x.toNat_lt; omega) (by decide)
  cases frame with
  | packet => decide
  | single protocolType =>
    have := h16 protocolType
    simp [fields]
    omega
  | continuation protocolType seqId =>
    have := h16 protocolType
    have := h16 seqId
    simp [fields]
    omega
  | first protocolType seqId totalSize =>
    have := h16 protocolType
    have := h16 seqId
    have := h32 totalSize
    simp [fields]
    omega

theorem Frame.length_header_le (frame : Frame) (payload : Bytes) :
    (frame.header payload).out.length ≤ 16 := by
  have hfields := frame.length_fields_le
  rw [header_eq, List.length_append, encodeList, List.length_append, RLPStream.listHead,
    if_pos (by simp only [rlpListImmLenCount]; omega)]
  simp only [lengthBytes, List.length_cons, List.length_nil]
  omega

end Fields

section Header

def decodedLength (payload : Bytes) : ℕ :=
  payload.length / 65536 % 256 * 256 + payload.length / 256 % 256 * 256 + payload.length % 256

theorem lengthBytes_eq {payload : Bytes} (h : payload.length < 2 ^ 24) :
    lengthBytes payload = [UInt8.ofNat (payload.length / 65536), UInt8.ofNat (payload.length / 256),
      UInt8.ofNat payload.length] := by
  have hlen : (UInt32.ofNat payload.length).toNat = payload.length :=
    UInt32.toNat_ofNat_of_lt' (h.trans (by decide))
  unfold lengthBytes
  simp only [List.cons.injEq, and_true, ← UInt8.toNat_inj, UInt32.toNat_toUInt8,
    UInt32.toNat_and, UInt32.toNat_shiftRight, hlen, UInt8.toNat_ofNat']
  refine ⟨?_, ?_, ?_⟩
  · change (payload.length >>> 16 &&& 2 ^ 8 - 1) % 256 = _
    rw [Nat.and_two_pow_sub_one_eq_mod, Nat.shiftRight_eq_div_pow]
    omega
  · change (payload.length >>> 8 &&& 2 ^ 8 - 1) % 256 = _
    rw [Nat.and_two_pow_sub_one_eq_mod, Nat.shiftRight_eq_div_pow]
    omega
  · change (payload.length &&& 2 ^ 8 - 1) % 256 = _
    rw [Nat.and_two_pow_sub_one_eq_mod]
    omega

theorem Frame.ofHeader_eq (frame : Frame) {payload : Bytes} (h : payload.length < 2 ^ 24)
    (tail : Bytes) :
    BytesFrameInfo.ofHeader ((frame.header payload).out ++ tail) = .ok {
      length := decodedLength payload
      padding := paddingOf (decodedLength payload)
      protocolId := frame.protocolId
      multiFrame := decide (1 < frame.fields.length)
      sequenceId := frame.sequenceId
      totalLength := frame.totalLength } := by
  have hitems := frame.delimited_fields
  have hmax : (frame.fields.map fun n : ℕ ↦ encodeInt n).flatten.length < maxLength :=
    lt_of_le_of_lt frame.length_fields_le (by decide)
  have hcount := itemCount_encodeList_append hitems hmax tail
  have hitem := fun i hi ↦ item_encodeList_append hitems hmax tail (i := i) hi
  have h16 : ∀ x : UInt16, toInt 2 (encodeInt x.toNat) = .ok x.toNat := fun x ↦
    toInt_encodeInt_of_lt (by have := x.toNat_lt; omega) (by decide)
  have h32 : ∀ x : UInt32, toInt 4 (encodeInt x.toNat) = .ok x.toNat := fun x ↦
    toInt_encodeInt_of_lt (by have := x.toNat_lt; omega) (by decide)
  have hprefix := ofPrefix_encodeList_append hmax tail
  have hlength : (UInt8.ofNat (payload.length / 65536)).toNat * 256 +
      (UInt8.ofNat (payload.length / 256)).toNat * 256 + (UInt8.ofNat payload.length).toNat =
        decodedLength payload := by
    simp only [UInt8.toNat_ofNat', decodedLength]
  rw [header_eq, lengthBytes_eq h]
  unfold BytesFrameInfo.ofHeader
  simp only [List.cons_append, List.nil_append, byteAt, List.getD_cons_zero, List.getD_cons_succ,
    hlength, List.drop_succ_cons, List.drop_zero, hprefix, ok_bind, hcount, List.length_map]
  cases frame with
  | packet =>
    rw [hitem 0 (by simp [fields]), hitem 1 (by simp [fields])]
    rfl
  | single protocolType =>
    rw [hitem 0 (by simp [fields])]
    simp only [fields, List.map_cons, List.getD_cons_zero, ok_bind, h16]
    rfl
  | continuation protocolType seqId =>
    rw [hitem 0 (by simp [fields]), hitem 1 (by simp [fields])]
    simp only [fields, List.map_cons, List.getD_cons_zero, List.getD_cons_succ, ok_bind, h16]
    rfl
  | first protocolType seqId totalSize =>
    rw [hitem 0 (by simp [fields]), hitem 1 (by simp [fields]), hitem 2 (by simp [fields])]
    simp only [fields, List.map_cons, List.getD_cons_zero, List.getD_cons_succ, ok_bind, h16, h32]
    rfl

theorem decodedLength_eq_iff {payload : Bytes} (h : payload.length < 2 ^ 24) :
    decodedLength payload = payload.length ↔ payload.length < 2 ^ 16 := by
  unfold decodedLength
  omega

theorem paddingOf_decodedLength (payload : Bytes) :
    paddingOf (decodedLength payload) = paddingOf payload.length := by
  unfold paddingOf decodedLength
  omega

end Header

section Transport

variable {κ μ : Type} {enc dec : Coder κ μ}

structure Inverse (enc dec : Coder κ μ) : Prop where
  append : ∀ k a b, enc.processData k (a ++ b) =
    ((enc.processData k a).1 ++ (enc.processData (enc.processData k a).2 b).1,
      (enc.processData (enc.processData k a).2 b).2)
  length_eq : ∀ k b, (enc.processData k b).1.length = b.length
  inverse : ∀ k b, dec.processData k (enc.processData k b).1 = (b, (enc.processData k b).2)
  header : dec.updateMACWithHeader = enc.updateMACWithHeader
  frame : dec.updateMACWithFrame = enc.updateMACWithFrame
  digest : dec.digest = enc.digest
  length_digest : ∀ m, (enc.digest m).length = 16

def plainHeader (header : RLPStream) : Bytes := (header.out ++ List.replicate 32 0).take 16

theorem length_plainHeader (header : RLPStream) : (plainHeader header).length = 16 := by
  simp [plainHeader]

theorem Frame.plainHeader_eq (frame : Frame) (payload : Bytes) :
    ∃ zeros, plainHeader (frame.header payload) = (frame.header payload).out ++ zeros := by
  refine ⟨(List.replicate 32 0).take (16 - (frame.header payload).out.length), ?_⟩
  rw [plainHeader, List.take_append, List.take_of_length_le (frame.length_header_le payload)]

def paddedFrame (payload : Bytes) : Bytes :=
  payload ++ List.replicate (paddingOf payload.length) 0

theorem length_paddedFrame (payload : Bytes) :
    (paddedFrame payload).length = payload.length + paddingOf payload.length := by
  simp [paddedFrame]

theorem writeFrame_eq (h : Inverse enc dec) (header : RLPStream) (payload : Bytes) (k : κ) (m : μ) :
    let headerText := enc.processData k (plainHeader header)
    let m₁ := enc.updateMACWithHeader m headerText.1
    let frameText := enc.processData headerText.2 (paddedFrame payload)
    let m₂ := enc.updateMACWithFrame m₁ frameText.1
    writeFrame enc header payload k m =
      (headerText.1 ++ enc.digest m₁ ++ frameText.1 ++ enc.digest m₂, frameText.2, m₂) := by
  intro headerText m₁ frameText m₂
  have hplain : ((header.out ++ List.replicate 32 0).take 32).take 16 = plainHeader header := by
    rw [List.take_take]
    rfl
  have hframe : frameText = enc.processData headerText.2 (paddedFrame payload) := rfl
  unfold writeFrame
  simp only [hplain]
  by_cases hpad : paddingOf payload.length = 0
  · rw [paddedFrame, hpad, List.replicate_zero, List.append_nil] at hframe
    simp [hpad, m₂, m₁, hframe, headerText]
  · rw [paddedFrame, h.append] at hframe
    simp [hpad, m₂, m₁, hframe, headerText]

theorem doRead_parts {a b : Bytes} (ha : a.length = 16) (hb : b.length = 16) (r : Bytes) (k : κ)
    (m : μ) (hmac : b = dec.digest (dec.updateMACWithHeader m a)) {info : BytesFrameInfo}
    (hinfo : BytesFrameInfo.ofHeader ((dec.processData k a).1 ++ b) = .ok info) :
    doRead dec (a ++ b ++ r) k m =
      readFrame dec info r (dec.processData k a).2 (dec.updateMACWithHeader m a) := by
  have hab : (a ++ b).length = 32 := by rw [List.length_append, ha, hb]
  unfold doRead
  rw [if_neg (by rw [List.length_append, hab]; omega), List.take_left' hab, List.drop_left' hab]
  dsimp only
  rw [List.take_left' ha, List.drop_left' ha]
  simp only [← hmac, ne_eq, not_true_eq_false, if_false, hinfo]

/-- The second read takes the frame and its MAC, if the header announced their length. -/
theorem readFrame_parts {c d : Bytes} {info : BytesFrameInfo}
    (hc : c.length = info.length + info.padding) (hd : d.length = 16) (r : Bytes) (k : κ) (m : μ)
    (hmac : d = dec.digest (dec.updateMACWithFrame m c)) :
    readFrame dec info (c ++ d ++ r) k m =
      .frame info.protocolId ((dec.processData k c).1.take info.length) r (dec.processData k c).2
        (dec.updateMACWithFrame m c) := by
  have hcd : (c ++ d).length = info.length + info.padding + 16 := by
    rw [List.length_append, hc, hd]
  unfold readFrame
  rw [if_neg (by rw [List.length_append, hcd]; omega), List.take_left' hcd, List.drop_left' hcd]
  dsimp only
  rw [Nat.add_sub_cancel, List.take_left' hc, List.drop_left' hc]
  simp only [← hmac, ne_eq, not_true_eq_false, if_false]

/-- A frame below 64 KiB is read back, and the reader stops where the writer stopped. -/
theorem doRead_write (h : Inverse enc dec) (frame : Frame) {payload : Bytes}
    (hlen : payload.length < 2 ^ 16) (rest : Bytes) (k : κ) (m : μ) :
    doRead dec ((frame.write enc payload k m).1 ++ rest) k m =
      .frame frame.protocolId payload rest (frame.write enc payload k m).2.1
        (frame.write enc payload k m).2.2 := by
  have h24 : payload.length < 2 ^ 24 := by omega
  obtain ⟨zeros, hplain⟩ := frame.plainHeader_eq payload
  have hwrite := writeFrame_eq h (frame.header payload) payload k m
  simp only at hwrite
  unfold Frame.write
  rw [hwrite]
  simp only [List.append_assoc]
  rw [← List.append_assoc (enc.processData k _).1]
  have hinfo := frame.ofHeader_eq h24 (zeros ++ enc.digest (enc.updateMACWithHeader m
    (enc.processData k (plainHeader (frame.header payload))).1))
  rw [← List.append_assoc, ← hplain, (decodedLength_eq_iff h24).mpr hlen] at hinfo
  rw [doRead_parts (by rw [h.length_eq, length_plainHeader]) (h.length_digest _) _ k m
    (by rw [h.digest, h.header]) (by rw [h.inverse]; exact hinfo)]
  rw [← List.append_assoc, readFrame_parts (by rw [h.length_eq, length_paddedFrame])
    (h.length_digest _) rest _ _ (by rw [h.digest, h.frame, h.header])]
  rw [h.inverse, h.inverse, h.frame, h.header]
  simp [paddedFrame]

/-- A header decodes to the fields it was written from, the length and the padding of its frame
included, and the reader takes exactly the bytes that were written. -/
structure ReadsBack (enc dec : Coder κ μ) (frame : Frame) (payload : Bytes) : Prop where
  decoded : ∀ tail, ∃ info,
    BytesFrameInfo.ofHeader (plainHeader (frame.header payload) ++ tail) = .ok info ∧
    info.length = payload.length ∧ info.padding = paddingOf payload.length ∧
    info.protocolId = frame.protocolId ∧ info.sequenceId = frame.sequenceId ∧
    info.totalLength = frame.totalLength
  consumed : ∀ rest k m, doRead dec ((frame.write enc payload k m).1 ++ rest) k m =
    .frame frame.protocolId payload rest (frame.write enc payload k m).2.1
      (frame.write enc payload k m).2.2

/-- Every writer's frame is read back exactly below 64 KiB: above, the reader multiplies the first
byte of the length by 256 instead of 65536. -/
theorem readsBack_iff (h : Inverse enc dec) (frame : Frame) (payload : Bytes)
    (hlen : payload.length < 2 ^ 24) :
    ReadsBack enc dec frame payload ↔ payload.length < 2 ^ 16 := by
  obtain ⟨zeros, hplain⟩ := frame.plainHeader_eq payload
  constructor
  · intro hread
    obtain ⟨info, hinfo, hlength, -⟩ := hread.decoded []
    rw [hplain, List.append_assoc, frame.ofHeader_eq hlen] at hinfo
    rw [← decodedLength_eq_iff hlen, ← hlength, ← Except.ok.inj hinfo]
  · intro hshort
    refine ⟨fun tail ↦ ?_, fun rest k m ↦ doRead_write h frame hshort rest k m⟩
    rw [hplain, List.append_assoc, frame.ofHeader_eq hlen]
    exact ⟨_, rfl, (decodedLength_eq_iff hlen).mpr hshort, paddingOf_decodedLength payload, rfl,
      rfl, rfl⟩

def plainCoder : Coder Unit Unit where
  processData _ b := (b, ())
  updateMACWithHeader _ _ := ()
  updateMACWithFrame _ _ := ()
  digest _ := List.replicate 16 0

theorem inverse_plainCoder : Inverse plainCoder plainCoder where
  append _ _ _ := rfl
  length_eq _ _ := rfl
  inverse _ _ := rfl
  header := rfl
  frame := rfl
  digest := rfl
  length_digest _ := rfl

theorem readsBack_iff_hello : ReadsBack plainCoder plainCoder (.first 1 2 3) [1, 2, 3] :=
  (readsBack_iff inverse_plainCoder (.first 1 2 3) [1, 2, 3] (by decide)).mpr (by decide)

/-- The length of a packet of 64 KiB is read as 256. -/
theorem longPacket_misread :
    ∃ info, BytesFrameInfo.ofHeader
        (plainHeader (Frame.packet.header (List.replicate 65536 0))) = .ok info ∧
      info.length = 256 := by
  have hlen : (List.replicate 65536 (0 : UInt8)).length = 65536 := List.length_replicate
  obtain ⟨zeros, hplain⟩ := Frame.packet.plainHeader_eq (List.replicate 65536 0)
  have hinfo := Frame.packet.ofHeader_eq (hlen.trans_lt (by decide)) zeros
  rw [← hplain] at hinfo
  refine ⟨_, hinfo, ?_⟩
  change decodedLength (List.replicate 65536 0) = 256
  unfold decodedLength
  rw [hlen]

end Transport

end GseNetwork.Net
