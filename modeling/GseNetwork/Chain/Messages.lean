import GseNetwork.Chain.BlockState
import GseNetwork.Core.RoundTrip

namespace GseNetwork.Chain

open GseNetwork.Core Foundation.BigEndian Foundation.SelfDelimiting RLP

namespace HeaderConfirmation

def streamRLP (x : HeaderConfirmation) (s : RLPStream) : RLPStream :=
  (((((((s.appendList 6).appendInt x.chainID.toNat).appendInt x.number.toNat).appendHash 32
    x.blockID).appendInt x.timestamp.toInt).appendHash 20 x.producer).appendHash 65
    x.signature.toSignature)

def getRLPData (x : HeaderConfirmation) : Bytes := (x.streamRLP {}).out

def readFields (rlp : RLP) : Except Exception HeaderConfirmation := do
  let chainID ← toInt 8 (← item rlp 0)
  let number ← toInt 8 (← item rlp 1)
  let blockID : BlockID ← toHash 32 (← item rlp 2)
  let timestamp ← toInt64 (← item rlp 3)
  let producer : Address ← toHash 20 (← item rlp 4)
  let sig ← toHash 65 (← item rlp 5)
  return {
    chainID := UInt64.ofNat chainID, number := UInt64.ofNat number, blockID, timestamp, producer
    signature := .ofSignature sig }

def ofRLP (data : Bytes) : Except Exception HeaderConfirmation := do
  let rlp ← ofBytes data
  if isList rlp && (← itemCount rlp) == 6 then readFields rlp
  else throw ⟨.deserialize, "Deserialize HeaderConfirmation failed!"⟩

def wireItems (x : HeaderConfirmation) : List Bytes :=
  [encodeInt x.chainID.toNat, encodeInt x.number.toNat, encodeHash 32 x.blockID,
    encodeInt x.timestamp.toUInt64.toNat, encodeHash 20 x.producer,
    encodeHash 65 x.signature.toSignature]

theorem readFields_eq_ok {d x0 x1 x2 x3 x4 x5 : Bytes} {t : HeaderConfirmation}
    (h : Listing d [x0, x1, x2, x3, x4, x5]) :
    readFields d = .ok t ↔ [x0, x1, x2, x3, x4, x5] = t.wireItems := by
  have h0 := h.item_eq (show 0 < 6 by decide)
  have h1 := h.item_eq (show 1 < 6 by decide)
  have h2 := h.item_eq (show 2 < 6 by decide)
  have h3 := h.item_eq (show 3 < 6 by decide)
  have h4 := h.item_eq (show 4 < 6 by decide)
  have h5 := h.item_eq (show 5 < 6 by decide)
  have hitem := h.items
  simp only [List.mem_cons, List.not_mem_nil, or_false, forall_eq_or_imp, forall_eq] at hitem
  obtain ⟨i0, i1, i2, i3, i4, i5⟩ := hitem
  simp only [List.getD_cons_zero, List.getD_cons_succ] at h0 h1 h2 h3 h4 h5
  simp only [readFields, h0, h1, h2, h3, h4, h5, ok_bind, bind_eq_ok,
    toInt_eq_ok i0 (show 8 < rlpDataImmLenCount by decide),
    toInt_eq_ok i1 (show 8 < rlpDataImmLenCount by decide),
    toHash_eq_ok (show 32 < maxLength by decide) i2, toInt64_eq_ok i3,
    toHash_eq_ok (show 20 < maxLength by decide) i4,
    toHash_eq_ok (show 65 < maxLength by decide) i5, wireItems, List.cons.injEq, and_true]
  constructor
  · rintro ⟨n0, ⟨e0, l0⟩, n1, ⟨e1, l1⟩, v2, e2, v3, e3, v4, e4, v5, e5, ht⟩
    obtain rfl := Except.ok.inj ht
    refine ⟨?_, ?_, e2, e3, e4, ?_⟩
    · rw [e0, ofNat_uint64 l0]
    · rw [e1, ofNat_uint64 l1]
    · rw [e5, SignatureStruct.toSignature_ofSignature]
  · rintro ⟨e0, e1, e2, e3, e4, e5⟩
    refine ⟨_, ⟨e0, ?_⟩, _, ⟨e1, ?_⟩, _, e2, _, e3, _, e4, _, e5, ?_⟩
    · simpa using t.chainID.toNat_lt
    · simpa using t.number.toNat_lt
    · rw [UInt64.ofNat_toNat, UInt64.ofNat_toNat, SignatureStruct.ofSignature_toSignature]
      rfl

theorem ofRLP_eq_ok {d : Bytes} {t : HeaderConfirmation} :
    ofRLP d = .ok t ↔ Listing d t.wireItems := by
  unfold ofRLP
  rw [bind_eq_ok]
  constructor
  · rintro ⟨rlp, hrlp, hparse⟩
    obtain rfl := eq_of_ofBytes hrlp
    rw [bind_eq_ok] at hparse
    obtain ⟨n, hcount, hparse⟩ := hparse
    by_cases hguard : (isList rlp && n == 6) = true
    · rw [if_pos hguard] at hparse
      rw [Bool.and_eq_true, beq_iff_eq] at hguard
      obtain ⟨-, items, hlisting, hlen⟩ := listing_of_itemCount hrlp hguard.1 hcount
      rw [hguard.2] at hlen
      match items, hlen with
      | [x0, x1, x2, x3, x4, x5], _ =>
        rwa [(readFields_eq_ok hlisting).mp hparse] at hlisting
    · rw [if_neg hguard] at hparse
      contradiction
  · intro hlisting
    refine ⟨d, hlisting.ofBytes_eq, ?_⟩
    rw [hlisting.itemCount_eq, ok_bind, if_pos (by rw [hlisting.isList_eq]; rfl)]
    exact (readFields_eq_ok hlisting).mpr rfl

theorem item_wireItems (x : HeaderConfirmation) : ∀ y ∈ x.wireItems, Item y := by
  simp only [wireItems, List.mem_cons, List.not_mem_nil, or_false, forall_eq_or_imp, forall_eq]
  exact ⟨item_encodeInt_uint64 _, item_encodeInt_uint64 _, item_encodeHash (by decide) _,
    item_encodeInt_uint64 _, item_encodeHash (by decide) _, item_encodeHash (by decide) _⟩

theorem length_wireItems (x : HeaderConfirmation) : x.wireItems.flatten.length < maxLength := by
  have h0 := length_encodeInt_uint64_le x.chainID
  have h1 := length_encodeInt_uint64_le x.number
  have h2 : (encodeHash 32 x.blockID).length ≤ 32 + 9 := length_encodeHash_le (by decide) _
  have h3 := length_encodeInt_uint64_le x.timestamp.toUInt64
  have h4 : (encodeHash 20 x.producer).length ≤ 20 + 9 := length_encodeHash_le (by decide) _
  have h5 := length_encodeHash_le (show 65 < maxLength by decide) x.signature.toSignature
  have hmax : 200 < maxLength := by decide
  simp only [wireItems, List.flatten_cons, List.flatten_nil, List.length_append, List.length_nil]
  omega

theorem getRLPData_eq {x : HeaderConfirmation} (hts : 0 ≤ x.timestamp) :
    x.getRLPData = encodeList x.wireItems := by
  have h := RLPStream.appendList_items {} x.wireItems
  simp only [wireItems, List.foldl_cons, List.foldl_nil, List.length_cons, List.length_nil] at h
  rw [getRLPData, streamRLP, toInt_of_nonneg (lt_of_nonneg hts), RLPStream.appendHash_eq,
    RLPStream.appendHash_eq, RLPStream.appendInt_eq, RLPStream.appendHash_eq,
    RLPStream.appendInt_eq, RLPStream.appendInt_eq, h, RLPStream.out_appendRaw]
  rfl

theorem ofRLP_getRLPData {x : HeaderConfirmation} (hts : 0 ≤ x.timestamp) :
    ofRLP x.getRLPData = .ok x :=
  ofRLP_eq_ok.mpr ⟨getRLPData_eq hts, length_wireItems x, item_wireItems x⟩

end HeaderConfirmation

inductive Message
  | transaction (t : Transaction)
  | header (h : BlockHeader)
  | block (b : FullBlock)
  | confirmation (hc : HeaderConfirmation)
  | status (x : Status)

inductive Kind
  | transaction
  | header
  | block
  | confirmation
  | status

namespace Message

def kind : Message → Kind
  | transaction _ => .transaction
  | header _ => .header
  | block _ => .block
  | confirmation _ => .confirmation
  | status _ => .status

def getRLPData : Message → Bytes
  | transaction t => t.getRLPData
  | header h => h.getRLPData
  | block b => b.getRLPData
  | confirmation hc => hc.getRLPData
  | status x => x.getRLPData

/-- The decoding constructors; `garbage` is what a new status holds in its uninitialised fields. -/
def ofRLP (garbage : UInt64 × UInt64 × UInt64) (data : Bytes) : Kind → Except Exception Message
  | .transaction => transaction <$> Transaction.ofRLP data
  | .header => header <$> BlockHeader.populate {} data
  | .block => block <$> FullBlock.ofRLP data
  | .confirmation => confirmation <$> HeaderConfirmation.ofRLP data
  | .status => .ok (status (Status.populate
      { height := garbage.1, start := garbage.2.1, endNumber := garbage.2.2 } data))

def Sendable : Message → Prop
  | transaction t => 0 ≤ t.timestamp
  | header h => 0 ≤ h.timestamp ∧ h.number.toNat < 2 ^ 63
  | block b => b.Sendable
  | confirmation hc => 0 ≤ hc.timestamp
  | status x => x.Sendable

def Carries : Message → Message → Prop
  | transaction t, transaction u => u = t
  | header h, header k => k = h
  | block b, block c => c = b.arrived
  | confirmation hc, confirmation hd => hd = hc
  | status x, status y => Status.Agrees x y
  | _, _ => False

/-- What is sent arrives. -/
theorem wire_round_trip (garbage : UInt64 × UInt64 × UInt64) (m : Message) (h : m.Sendable)
    (hlen : m.getRLPData.length < maxLength) :
    ∃ m', ofRLP garbage m.getRLPData m.kind = .ok m' ∧ m.Carries m' := by
  cases m with
  | transaction t =>
    refine ⟨transaction t, ?_, rfl⟩
    simp only [ofRLP, getRLPData, kind, Transaction.ofRLP_getRLPData h hlen]
    rfl
  | header k =>
    refine ⟨header k, ?_, rfl⟩
    simp only [ofRLP, getRLPData, kind, BlockHeader.populate_getRLPData {} h.1 h.2 hlen]
    rfl
  | block b =>
    refine ⟨block b.arrived, ?_, rfl⟩
    simp only [ofRLP, getRLPData, kind, FullBlock.ofRLP_getRLPData h hlen]
    rfl
  | confirmation hc =>
    refine ⟨confirmation hc, ?_, rfl⟩
    simp only [ofRLP, getRLPData, kind, HeaderConfirmation.ofRLP_getRLPData h]
    rfl
  | status x => exact ⟨_, rfl, Status.agrees_populate h hlen rfl⟩

def reply : Status where
  type := StatusPacketType.replyBlocks
  height := 0
  start := 0
  endNumber := 0
  blocks := [{ transactions := [{ emptyTransaction with data := [0x80, 0], timestamp := 128 }] }]

theorem wire_round_trip_reply :
    ∃ m', ofRLP (0, 0, 0) (status reply).getRLPData .status = .ok m' ∧
      (status reply).Carries m' := by
  refine wire_round_trip (0, 0, 0) (status reply) ⟨?_, fun _ b hb ↦ ?_⟩ ?_
  · decide
  · rw [List.mem_singleton.mp hb]
    refine ⟨?_, ?_, ?_, rfl⟩
    all_goals decide
  · decide +kernel

end Message

end GseNetwork.Chain
