import GseNetwork.Chain.Messages
import GseNetwork.Core.SnapshotRoundTrip

namespace GseNetwork.Chain

open GseNetwork.Core GseNetwork.Foundation Foundation.BigEndian Foundation.SelfDelimiting RLP

namespace HeaderConfirmation

variable {x : HeaderConfirmation}

def fields (x : HeaderConfirmation) : List Bytes :=
  [encodeInt x.chainID.toNat, encodeInt x.number.toNat, encodeHash 32 x.blockID,
    encodeInt x.timestamp.toInt, encodeHash 20 x.producer, encodeHash 65 x.signature.toSignature]

theorem getRLPData_eq_fields (x : HeaderConfirmation) : x.getRLPData = encodeList x.fields := by
  have h := RLPStream.appendList_items {} x.fields
  simp only [fields, List.foldl_cons, List.foldl_nil, List.length_cons, List.length_nil] at h
  rw [getRLPData, streamRLP, RLPStream.appendHash_eq, RLPStream.appendHash_eq,
    RLPStream.appendInt_eq, RLPStream.appendHash_eq, RLPStream.appendInt_eq,
    RLPStream.appendInt_eq, h, RLPStream.out_appendRaw]
  rfl

/-- A confirmation is not written in more bytes than it was read from, and in fewer if its time is
negative. -/
theorem length_getRLPData_le {d : Bytes} (h : ofRLP d = .ok x) :
    x.getRLPData.length ≤ d.length ∧ (x.timestamp < 0 → x.getRLPData.length < d.length) := by
  have hlisting := ofRLP_eq_ok.mp h
  have htime := Producer.length_encodeInt_timestamp_le x.timestamp
  rw [getRLPData_eq_fields, hlisting.eq]
  constructor
  · refine length_encodeList_mono ?_
    simp only [fields, wireItems, List.flatten_cons, List.length_append]
    omega
  · intro hneg
    have hlt := htime.2 hneg
    refine length_encodeList_strict ?_
    simp only [fields, wireItems, List.flatten_cons, List.length_append]
    omega

end HeaderConfirmation

namespace BlockState

def streamRLP (x : BlockState) (s : RLPStream) : RLPStream :=
  x.confirmations.foldl (fun s i ↦ s.appendRaw i.getRLPData)
    (((((s.appendList (4 + x.confirmations.length)).appendInt x.blockNumber).appendHash 32
      x.blockID).appendRaw x.activeProducers.getRLPData).appendInt x.confirmCount.toNat)

def getRLPData (x : BlockState) : Bytes := (x.streamRLP {}).out

def push (confirmation : HeaderConfirmation) (x : BlockState) : BlockState :=
  { x with confirmations := x.confirmations ++ [confirmation] }

def readFields (data : Bytes) : Eff BlockState Exception Unit := do
  let rlp ← Eff.ofExcept (ofBytes data)
  let count ← Eff.ofExcept (itemCount rlp)
  if isList rlp && decide (4 ≤ count) then
    let blockNumber ← Eff.ofExcept (do toInt 8 (← item rlp 0))
    Eff.modify fun x ↦ { x with blockNumber := blockNumber }
    let blockID : BlockID ← Eff.ofExcept (do toHash 32 (← item rlp 1))
    Eff.modify fun x ↦ { x with blockID := blockID }
    let aps ← Eff.ofExcept (item rlp 2)
    Eff.modify fun x ↦ { x with activeProducers := x.activeProducers.populate aps }
    let confirmCount ← Eff.ofExcept (do toInt 1 (← item rlp 3))
    Eff.modify fun x ↦ { x with confirmCount := UInt8.ofNat confirmCount }
    readOnto HeaderConfirmation.ofRLP push rlp count 4
  else pure ()

/-- `BlockState(bytesConstRef)`, which swallows every exception; `x` is what the members hold
before they are assigned. -/
def ofRLP (x : BlockState) (data : Bytes) : BlockState := (readFields data x).2

structure SameStored (x y : BlockState) : Prop where
  blockNumber : x.blockNumber = y.blockNumber
  blockID : x.blockID = y.blockID
  activeProducers : x.activeProducers = y.activeProducers
  confirmCount : x.confirmCount = y.confirmCount
  confirmations : x.confirmations = y.confirmations

structure Timely (x : BlockState) : Prop where
  activeProducers : x.activeProducers.Timely
  confirmations : ∀ c ∈ x.confirmations, 0 ≤ c.timestamp

section Write

variable {x : BlockState}

def fields (x : BlockState) : List Bytes :=
  encodeInt x.blockNumber :: encodeHash 32 x.blockID :: x.activeProducers.getRLPData ::
    encodeInt x.confirmCount.toNat :: x.confirmations.map HeaderConfirmation.getRLPData

theorem getRLPData_eq (x : BlockState) : x.getRLPData = encodeList x.fields := by
  have h := RLPStream.appendList_items {} x.fields
  have hcount : x.fields.length = 4 + x.confirmations.length := by
    simp only [fields, List.length_cons, List.length_map]
    omega
  rw [hcount] at h
  simp only [fields, List.foldl_cons, List.foldl_map] at h
  rw [getRLPData, streamRLP, RLPStream.appendInt_eq, RLPStream.appendHash_eq,
    RLPStream.appendInt_eq, h, RLPStream.out_appendRaw]
  rfl

theorem foldl_push (l : List HeaderConfirmation) (x : BlockState) :
    l.foldl (fun s a ↦ push a s) x = { x with confirmations := x.confirmations ++ l } := by
  induction l generalizing x with
  | nil => simp
  | cons c l ih =>
    rw [List.foldl_cons, ih]
    simp [push]

theorem flatten_fields_lt (hlen : x.getRLPData.length < maxLength) :
    x.fields.flatten.length < maxLength := by
  have hflat := flatten_length_le_encodeList x.fields
  rw [← getRLPData_eq] at hflat
  omega

theorem length_field_lt (hlen : x.getRLPData.length < maxLength) {y : Bytes} (hy : y ∈ x.fields) :
    y.length < maxLength :=
  (length_le_flatten_of_mem hy).trans_lt (flatten_fields_lt hlen)

theorem listing_getRLPData (h : x.Timely) (hnumber : x.blockNumber < 2 ^ 64)
    (hlen : x.getRLPData.length < maxLength) : Listing x.getRLPData x.fields := by
  have hn : bytesRequired x.blockNumber < maxLength :=
    (bytesRequired_le (w := 8) (by simpa using hnumber)).trans_lt (by decide)
  have hc : bytesRequired x.confirmCount.toNat < maxLength :=
    (bytesRequired_le (w := 1) (by simpa using x.confirmCount.toNat_lt)).trans_lt (by decide)
  have hproducers : Item x.activeProducers.getRLPData :=
    (ProducerSnapshot.listing_getRLPData h.activeProducers
      (length_field_lt hlen (by simp [fields]))).item
  have hconfirmations : ∀ y ∈ x.confirmations.map HeaderConfirmation.getRLPData, Item y := by
    intro y hy
    have hlt : y.length < maxLength := length_field_lt hlen (by simp [fields, hy])
    obtain ⟨c, -, rfl⟩ := List.mem_map.mp hy
    rw [HeaderConfirmation.getRLPData_eq_fields] at hlt ⊢
    exact item_encodeList_of_length hlt
  refine ⟨getRLPData_eq x, flatten_fields_lt hlen, ?_⟩
  simp only [fields, List.forall_mem_cons]
  exact ⟨item_encodeInt hn, item_encodeHash (show 32 < maxLength by decide) x.blockID, hproducers,
    item_encodeInt hc, hconfirmations⟩

theorem ofRLP_getRLPData (h : x.Timely) (hnumber : x.blockNumber < 2 ^ 64)
    (hlen : x.getRLPData.length < maxLength) {y : BlockState} (hfresh : y.confirmations = []) :
    SameStored (ofRLP y x.getRLPData) x := by
  have hlisting := listing_getRLPData h hnumber hlen
  have hpos : ∀ i, i < 4 → i < x.fields.length := by
    intro i hi
    simp only [fields, List.length_cons]
    omega
  have h0 := hlisting.item_eq (hpos 0 (by decide))
  have h1 := hlisting.item_eq (hpos 1 (by decide))
  have h2 := hlisting.item_eq (hpos 2 (by decide))
  have h3 := hlisting.item_eq (hpos 3 (by decide))
  simp only [fields, List.getD_cons_zero, List.getD_cons_succ] at h0 h1 h2 h3
  have hnumber' : toInt 8 (encodeInt x.blockNumber) = .ok x.blockNumber :=
    (toInt_eq_ok (hlisting.items _ (by simp [fields])) (by decide)).mpr
      ⟨rfl, by simpa using hnumber⟩
  have hid := toHash_encodeHash (show 32 < maxLength by decide) x.blockID
  have hcount : toInt 1 (encodeInt x.confirmCount.toNat) = .ok x.confirmCount.toNat :=
    (toInt_eq_ok (hlisting.items _ (by simp [fields])) (by decide)).mpr
      ⟨rfl, by simpa using x.confirmCount.toNat_lt⟩
  have hproducers := ProducerSnapshot.populate_getRLPData h.activeProducers
    (length_field_lt hlen (by simp [fields])) y.activeProducers
  have hconfirmations : List.Forall₂ (fun d c ↦ HeaderConfirmation.ofRLP d = .ok c)
      (x.fields.drop 4) x.confirmations := by
    change List.Forall₂ _ (x.confirmations.map HeaderConfirmation.getRLPData) _
    rw [List.forall₂_map_left_iff, List.forall₂_same]
    exact fun c hc ↦ HeaderConfirmation.ofRLP_getRLPData (h.confirmations c hc)
  have hread (s : BlockState) : readOnto HeaderConfirmation.ofRLP push x.getRLPData x.fields.length
      4 s = (.ok (), { s with confirmations := s.confirmations ++ x.confirmations }) := by
    rw [readOnto_ok hlisting (Nat.le_add_left _ 4) hconfirmations, foldl_push]
  unfold ofRLP readFields
  rw [hlisting.ofBytes_eq, Eff.ofExcept_ok_bind, hlisting.itemCount_eq, Eff.ofExcept_ok_bind,
    hlisting.isList_eq, if_pos (by simpa using Nat.succ_le_of_lt (hpos 3 (by decide))), h0,
    ok_bind, hnumber', Eff.ofExcept_ok_bind, Eff.modify_bind_apply, h1, ok_bind, hid,
    Eff.ofExcept_ok_bind, Eff.modify_bind_apply, h2, Eff.ofExcept_ok_bind,
    Eff.modify_bind_apply, h3, ok_bind, hcount, Eff.ofExcept_ok_bind, Eff.modify_bind_apply,
    hread]
  refine ⟨rfl, rfl, hproducers, UInt8.ofNat_toNat, ?_⟩
  change y.confirmations ++ x.confirmations = _
  rw [hfresh, List.nil_append]

end Write

section Read

variable {x y : BlockState} {d : Bytes}

end Read

end BlockState

end GseNetwork.Chain
