import GseNetwork.Core.RlpStream

namespace GseNetwork.Core

open Foundation.BigEndian Foundation.SelfDelimiting

/-- The lengths the reader accepts: `payloadOffset` must be addable without overflow. -/
def maxLength : ℕ := 2 ^ 64 - 1 - 0x100

namespace RLP

/-- What the reader sees of an item from its first bytes on: where its payload starts and how
long it is. -/
structure Heads (d : Bytes) (offset size : ℕ) : Prop where
  ne_nil : d ≠ []
  good : requireGood d = .ok ()
  offset_eq : payloadOffset d = offset
  length_eq : length d = .ok size
  single : isSingleByte d = true → offset + size = 1

theorem Heads.actualSize_eq {d : Bytes} {offset size : ℕ} (h : Heads d offset size) :
    actualSize d = .ok (offset + size) := by
  have hnull : isNull d = false := by simp [isNull, h.ne_nil]
  unfold actualSize
  rw [hnull]
  by_cases hs : isSingleByte d = true
  · rw [h.single hs, hs]
    rfl
  · rw [Bool.not_eq_true] at hs
    rw [hs, h.length_eq, h.offset_eq]
    rfl

theorem Heads.sizeAsEncoded_eq {d : Bytes} {offset size : ℕ} (h : Heads d offset size)
    (hlen : offset + size ≤ d.length) : sizeAsEncoded d = .ok (offset + size) := by
  have hfits : ofPrefix d = .ok d := by
    unfold ofPrefix
    rw [h.actualSize_eq]
    change (if d.length < offset + size then _ else _) = _
    rw [if_neg (by omega)]
    rfl
  unfold sizeAsEncoded
  rw [hfits]
  exact h.actualSize_eq

theorem Heads.payload_eq {d : Bytes} {offset size : ℕ} (h : Heads d offset size)
    (hlen : offset + size ≤ d.length) : payload d = .ok ((d.drop offset).take size) := by
  unfold payload
  rw [h.length_eq, h.offset_eq]
  change (if d.length < size then _ else _) = _
  rw [if_neg (by omega)]
  simp only [cropped]
  rw [if_pos ⟨by omega, hlen⟩]
  rfl

section Heads

variable (r : Bytes)

theorem heads_singleByte {x : UInt8} (h : x < rlpDataImmLenStart) : Heads (x :: r) 0 1 := by
  have hx : x.toNat < 128 := h
  have hne : x ≠ rlpDataImmLenStart + 1 := by
    intro heq
    have := congrArg UInt8.toNat heq
    simp [rlpDataImmLenStart] at this
    omega
  have hgood : requireGood (x :: r) = .ok () := by
    simp [requireGood, isNull, byteAt, hne]
  refine ⟨by simp, hgood, ?_, ?_, fun _ ↦ rfl⟩
  · simp [payloadOffset, isSingleByte, isNull, byteAt, h]
  · simp [length, isNull, hgood, byteAt, h]

theorem toNat_head (base : UInt8) {n : ℕ} (h : base.toNat + n < 256) :
    (base + UInt8.ofNat n).toNat = base.toNat + n := by
  simp only [UInt8.toNat_add, UInt8.toNat_ofNat']
  omega

theorem heads_shortData {n : ℕ} (h : n < rlpDataImmLenCount)
    (hone : n = 1 → ∃ y t, r = y :: t ∧ rlpDataImmLenStart ≤ y) :
    Heads ((rlpDataImmLenStart + UInt8.ofNat n) :: r) 1 n := by
  have hn : n < 56 := h
  have hhead : (rlpDataImmLenStart + UInt8.ofNat n).toNat = 128 + n :=
    toNat_head rlpDataImmLenStart (by simp [rlpDataImmLenStart]; omega)
  generalize rlpDataImmLenStart + UInt8.ofNat n = x at hhead
  have hlow : ¬ x < rlpDataImmLenStart := by
    rw [UInt8.lt_iff_toNat_lt, hhead]; simp [rlpDataImmLenStart]
  have hind : x ≤ rlpDataIndLenZero := by
    rw [UInt8.le_iff_toNat_le, hhead]; simp [rlpDataIndLenZero]; omega
  have hlist : x < rlpListStart := by
    rw [UInt8.lt_iff_toNat_lt, hhead]; simp [rlpListStart]; omega
  have hsub : (x - rlpDataImmLenStart).toNat = n := by
    rw [UInt8.toNat_sub_of_le _ _ (by simpa using hlow), hhead]; simp [rlpDataImmLenStart]
  have hgood : requireGood (x :: r) = .ok () := by
    by_cases hx : x = rlpDataImmLenStart + 1
    · have hn1 : n = 1 := by
        have := congrArg UInt8.toNat hx
        rw [hhead] at this
        simp [rlpDataImmLenStart] at this
        omega
      obtain ⟨y, t, rfl, hy⟩ := hone hn1
      simp [requireGood, isNull, byteAt, hy]
    · simp [requireGood, isNull, byteAt, hx]
  refine ⟨by simp, hgood, ?_, ?_, ?_⟩
  · simp [payloadOffset, lengthSize, isSingleByte, isData, isList, isNull, byteAt, hlow, hlist,
      UInt8.not_lt.mpr hind, UInt8.not_le.mpr hlist]
  · simp [length, isNull, hgood, byteAt, hlow, hind, hsub]
  · simp [isSingleByte, byteAt, hlow]

theorem heads_shortList {n : ℕ} (h : n < rlpListImmLenCount) :
    Heads ((rlpListStart + UInt8.ofNat n) :: r) 1 n := by
  have hn : n < 56 := h
  have hhead : (rlpListStart + UInt8.ofNat n).toNat = 192 + n :=
    toNat_head rlpListStart (by simp [rlpListStart]; omega)
  generalize rlpListStart + UInt8.ofNat n = x at hhead
  have hlow : ¬ x < rlpDataImmLenStart := by
    rw [UInt8.lt_iff_toNat_lt, hhead]; simp [rlpDataImmLenStart]; omega
  have hdata : ¬ x ≤ rlpDataIndLenZero := by
    rw [UInt8.le_iff_toNat_le, hhead]; simp [rlpDataIndLenZero]; omega
  have hlist : ¬ x < rlpListStart := by
    rw [UInt8.lt_iff_toNat_lt, hhead]; simp [rlpListStart]
  have hind : x ≤ rlpListIndLenZero := by
    rw [UInt8.le_iff_toNat_le, hhead]; simp [rlpListIndLenZero]; omega
  have hsub : (x - rlpListStart).toNat = n := by
    rw [UInt8.toNat_sub_of_le _ _ (by simpa using hlist), hhead]; simp [rlpListStart]
  have hx : x ≠ rlpDataImmLenStart + 1 := by
    intro heq
    have := congrArg UInt8.toNat heq
    rw [hhead] at this
    simp [rlpDataImmLenStart] at this
    omega
  have hgood : requireGood (x :: r) = .ok () := by
    simp [requireGood, isNull, byteAt, hx]
  refine ⟨by simp, hgood, ?_, ?_, ?_⟩
  · simp [payloadOffset, lengthSize, isSingleByte, isData, isList, isNull, byteAt, hlow, hlist,
      hind]
  · simp [length, isNull, hgood, byteAt, hlow, hdata, hlist, hind, hsub]
  · simp [isSingleByte, byteAt, hlow]

/-- A length of 56 or more is read back from the bytes that follow the head. -/
theorem indirectLength_pushCount {n minimum : ℕ} (x : UInt8) (hmin : minimum ≤ n)
    (hpos : n ≠ 0) (hmax : n < maxLength) :
    indirectLength (x :: (toBigEndian (bytesRequired n) n ++ r)) (bytesRequired n) minimum =
      .ok n := by
  obtain ⟨y, t, hy, hy0⟩ := toBigEndian_bytesRequired hpos
  have hlen : (toBigEndian (bytesRequired n) n).length = bytesRequired n := by simp
  have hbyte : byteAt (x :: (toBigEndian (bytesRequired n) n ++ r)) 1 ≠ 0 := by
    rw [hy]
    simpa [byteAt] using hy0
  have hread : fromBigEndian (((x :: (toBigEndian (bytesRequired n) n ++ r)).drop 1).take
      (bytesRequired n)) = n := by
    rw [List.drop_one, List.tail_cons, List.take_left' hlen]
    exact fromBigEndian_toBigEndian_of_lt (lt_pow_bytesRequired n)
  have hmax' : ¬ 2 ^ 64 - 1 - 0x100 ≤ n := by
    unfold maxLength at hmax
    omega
  unfold indirectLength
  rw [hread]
  rw [if_neg (by simp), if_neg hbyte, if_neg (by omega), if_neg hmax']
  rfl

theorem bytesRequired_le_eight {n : ℕ} (h : n < maxLength) : bytesRequired n ≤ 8 := by
  refine bytesRequired_le ?_
  unfold maxLength at h
  omega

theorem heads_longData {n : ℕ} (hmin : rlpDataImmLenCount ≤ n) (hmax : n < maxLength) :
    Heads (RLPStream.pushCount n rlpDataIndLenZero ++ r) (1 + bytesRequired n) n := by
  have hn : 56 ≤ n := hmin
  have hpos := bytesRequired_pos (show n ≠ 0 by omega)
  have h8 := bytesRequired_le_eight hmax
  have hhead : (rlpDataIndLenZero + UInt8.ofNat (bytesRequired n)).toNat =
      183 + bytesRequired n :=
    toNat_head rlpDataIndLenZero (by simp [rlpDataIndLenZero]; omega)
  have hindirect := indirectLength_pushCount r
    (rlpDataIndLenZero + UInt8.ofNat (bytesRequired n)) hmin (by omega) hmax
  rw [RLPStream.pushCount, List.cons_append]
  generalize rlpDataIndLenZero + UInt8.ofNat (bytesRequired n) = x at hhead hindirect ⊢
  have hlow : ¬ x < rlpDataImmLenStart := by
    rw [UInt8.lt_iff_toNat_lt, hhead]; simp [rlpDataImmLenStart]; omega
  have hind : rlpDataIndLenZero < x := by
    rw [UInt8.lt_iff_toNat_lt, hhead]; simp [rlpDataIndLenZero]; omega
  have hlist : x < rlpListStart := by
    rw [UInt8.lt_iff_toNat_lt, hhead]; simp [rlpListStart]; omega
  have hsub : (x - rlpDataIndLenZero).toNat = bytesRequired n := by
    rw [UInt8.toNat_sub_of_le _ _ (UInt8.le_of_lt hind), hhead]; simp [rlpDataIndLenZero]
  have hx : x ≠ rlpDataImmLenStart + 1 := by
    intro heq
    have := congrArg UInt8.toNat heq
    rw [hhead] at this
    simp [rlpDataImmLenStart] at this
    omega
  have hgood : ∀ t, requireGood (x :: t) = .ok () := by
    simp [requireGood, isNull, byteAt, hx]
  refine ⟨by simp, hgood _, ?_, ?_, ?_⟩
  · simp [payloadOffset, lengthSize, isSingleByte, isData, isNull, byteAt, hlow, hlist, hind,
      hsub]
  · rw [← hindirect]
    simp [length, isNull, hgood, byteAt, hlow, UInt8.not_le.mpr hind, hlist, hsub]
  · simp [isSingleByte, byteAt, hlow]

theorem heads_longList {n : ℕ} (hmin : rlpListImmLenCount ≤ n) (hmax : n < maxLength) :
    Heads (RLPStream.pushCount n rlpListIndLenZero ++ r) (1 + bytesRequired n) n := by
  have hn : 56 ≤ n := hmin
  have hpos := bytesRequired_pos (show n ≠ 0 by omega)
  have h8 := bytesRequired_le_eight hmax
  have hhead : (rlpListIndLenZero + UInt8.ofNat (bytesRequired n)).toNat =
      247 + bytesRequired n :=
    toNat_head rlpListIndLenZero (by simp [rlpListIndLenZero]; omega)
  have hindirect := indirectLength_pushCount r
    (rlpListIndLenZero + UInt8.ofNat (bytesRequired n)) hmin (by omega) hmax
  rw [RLPStream.pushCount, List.cons_append]
  generalize rlpListIndLenZero + UInt8.ofNat (bytesRequired n) = x at hhead hindirect ⊢
  have hlow : ¬ x < rlpDataImmLenStart := by
    rw [UInt8.lt_iff_toNat_lt, hhead]; simp [rlpDataImmLenStart]; omega
  have hdata : ¬ x ≤ rlpDataIndLenZero := by
    rw [UInt8.le_iff_toNat_le, hhead]; simp [rlpDataIndLenZero]; omega
  have hlist : ¬ x < rlpListStart := by
    rw [UInt8.lt_iff_toNat_lt, hhead]; simp [rlpListStart]; omega
  have hind : rlpListIndLenZero < x := by
    rw [UInt8.lt_iff_toNat_lt, hhead]; simp [rlpListIndLenZero]; omega
  have hsub : (x - rlpListIndLenZero).toNat = bytesRequired n := by
    rw [UInt8.toNat_sub_of_le _ _ (UInt8.le_of_lt hind), hhead]; simp [rlpListIndLenZero]
  have hx : x ≠ rlpDataImmLenStart + 1 := by
    intro heq
    have := congrArg UInt8.toNat heq
    rw [hhead] at this
    simp [rlpDataImmLenStart] at this
    omega
  have hgood : ∀ t, requireGood (x :: t) = .ok () := by
    simp [requireGood, isNull, byteAt, hx]
  refine ⟨by simp, hgood _, ?_, ?_, ?_⟩
  · simp [payloadOffset, lengthSize, isSingleByte, isData, isList, isNull, byteAt, hlow, hlist,
      hind, hsub, UInt8.not_lt.mp hlist]
  · rw [← hindirect]
    simp [length, isNull, hgood, byteAt, hlow, hdata, hlist, UInt8.not_le.mpr hind, hsub]
  · simp [isSingleByte, byteAt, hlow]

end Heads

/-- A complete item `x`: a head of `offset` bytes in front of the payload `p`, read back
whatever follows the item. -/
structure Framed (x p : Bytes) (offset : ℕ) : Prop where
  length_eq : offset + p.length = x.length
  drop_eq : x.drop offset = p
  heads : ∀ r, Heads (x ++ r) offset p.length

namespace Framed

variable {x p : Bytes} {offset : ℕ}

theorem ne_nil (h : Framed x p offset) : x ≠ [] := by
  simpa using (h.heads []).ne_nil

theorem requireGood_eq (h : Framed x p offset) : requireGood x = .ok () := by
  simpa using (h.heads []).good

theorem delimited (h : Framed x p offset) : Delimited sizeAsEncoded x where
  ne_nil := h.ne_nil
  size_append r := by
    rw [← h.length_eq]
    refine (h.heads r).sizeAsEncoded_eq ?_
    rw [List.length_append, ← h.length_eq]
    omega

theorem payload_eq (h : Framed x p offset) : payload x = .ok p := by
  have hh := (h.heads []).payload_eq (by simp [h.length_eq])
  rw [List.append_nil, h.drop_eq, List.take_length] at hh
  exact hh

theorem actualSize_eq (h : Framed x p offset) : actualSize x = .ok x.length := by
  have hh := (h.heads []).actualSize_eq
  rwa [List.append_nil, h.length_eq] at hh

theorem ofPrefix_eq (h : Framed x p offset) : ofPrefix x = .ok x := by
  unfold ofPrefix
  rw [h.actualSize_eq]
  change (if x.length < x.length then _ else _) = _
  rw [if_neg (lt_irrefl _)]
  rfl

theorem ofBytes_eq (h : Framed x p offset) : ofBytes x = .ok x := by
  unfold ofBytes
  rw [h.actualSize_eq, h.ofPrefix_eq]
  change (if x.length < x.length then _ else _) = _
  rw [if_neg (lt_irrefl _)]

end Framed

end RLP

open RLP

theorem framed_encodeBytes {b : Bytes} (h : b.length < maxLength) :
    ∃ offset, Framed (encodeBytes b) b offset := by
  unfold encodeBytes
  by_cases hsingle : b.length = 1 ∧ b.getD 0 0 < rlpDataImmLenStart
  · obtain ⟨x, rfl⟩ := List.length_eq_one_iff.mp hsingle.1
    rw [if_pos hsingle]
    exact ⟨0, rfl, rfl, fun r ↦ heads_singleByte r (by simpa using hsingle.2)⟩
  rw [if_neg hsingle]
  unfold RLPStream.dataHead
  by_cases hshort : b.length < rlpDataImmLenCount
  · rw [if_pos hshort]
    refine ⟨1, by simp; omega, rfl, fun r ↦ heads_shortData _ hshort fun hone ↦ ?_⟩
    obtain ⟨x, rfl⟩ := List.length_eq_one_iff.mp hone
    exact ⟨x, r, rfl, by simpa using hsingle⟩
  · rw [if_neg hshort]
    refine ⟨1 + bytesRequired b.length, ?_, ?_, fun r ↦ ?_⟩
    · simp [RLPStream.pushCount]; omega
    · refine List.drop_left' ?_
      simp [RLPStream.pushCount]; omega
    · rw [List.append_assoc]
      exact heads_longData (b ++ r) (by omega) h

theorem framed_encodeList {items : List Bytes} (h : items.flatten.length < maxLength) :
    ∃ offset, Framed (encodeList items) items.flatten offset := by
  unfold encodeList RLPStream.listHead
  by_cases hshort : items.flatten.length < rlpListImmLenCount
  · rw [if_pos hshort]
    exact ⟨1, by simp; omega, rfl, fun r ↦ heads_shortList _ hshort⟩
  · rw [if_neg hshort]
    refine ⟨1 + bytesRequired items.flatten.length, ?_, ?_, fun r ↦ ?_⟩
    · simp [RLPStream.pushCount]; omega
    · refine List.drop_left' ?_
      simp [RLPStream.pushCount]; omega
    · rw [List.append_assoc]
      exact heads_longList (items.flatten ++ r) (by omega) h

theorem length_le_encodeBytes (b : Bytes) : b.length ≤ (encodeBytes b).length := by
  unfold encodeBytes
  split
  · exact le_rfl
  · simp

theorem flatten_length_le_encodeList (items : List Bytes) :
    items.flatten.length ≤ (encodeList items).length := by
  unfold encodeList
  rw [List.length_append]
  omega

theorem delimited_encodeBytes {b : Bytes} (h : b.length < maxLength) :
    Delimited sizeAsEncoded (encodeBytes b) := by
  obtain ⟨offset, hframe⟩ := framed_encodeBytes h
  exact hframe.delimited

theorem delimited_encodeList {items : List Bytes} (h : items.flatten.length < maxLength) :
    Delimited sizeAsEncoded (encodeList items) := by
  obtain ⟨offset, hframe⟩ := framed_encodeList h
  exact hframe.delimited

theorem isData_encodeBytes {b : Bytes} (h : b.length < maxLength) :
    isData (encodeBytes b) = true := by
  have h8 := bytesRequired_le_eight h
  unfold encodeBytes
  split
  · next hsingle =>
    obtain ⟨x, rfl⟩ := List.length_eq_one_iff.mp hsingle.1
    have hx : x < rlpDataImmLenStart := by simpa using hsingle.2
    simp [isData, isNull, byteAt, UInt8.lt_trans hx (by decide : rlpDataImmLenStart < rlpListStart)]
  · unfold RLPStream.dataHead
    split
    · next hshort =>
      have hn : b.length < 56 := hshort
      have hhead := toNat_head rlpDataImmLenStart (n := b.length)
        (by simp [rlpDataImmLenStart]; omega)
      simp only [isData, isNull, byteAt, List.cons_append, List.isEmpty_cons, List.getD_cons_zero,
        Bool.not_false, Bool.true_and, decide_eq_true_eq, UInt8.lt_iff_toNat_lt, hhead]
      simp [rlpDataImmLenStart, rlpListStart]; omega
    · have hhead := toNat_head rlpDataIndLenZero (n := bytesRequired b.length)
        (by simp [rlpDataIndLenZero]; omega)
      simp only [isData, isNull, byteAt, RLPStream.pushCount, List.cons_append, List.isEmpty_cons,
        List.getD_cons_zero, Bool.not_false, Bool.true_and, decide_eq_true_eq,
        UInt8.lt_iff_toNat_lt, hhead]
      simp [rlpDataIndLenZero, rlpListStart]; omega

theorem isList_encodeList {items : List Bytes} (h : items.flatten.length < maxLength) :
    isList (encodeList items) = true := by
  have h8 := bytesRequired_le_eight h
  unfold encodeList RLPStream.listHead
  split
  · next hshort =>
    have hn : items.flatten.length < 56 := hshort
    have hhead := toNat_head rlpListStart (n := items.flatten.length)
      (by simp only [rlpListStart, UInt8.reduceToNat]; omega)
    simp only [isList, isNull, byteAt, List.cons_append, List.isEmpty_cons, List.getD_cons_zero,
      Bool.not_false, Bool.true_and, decide_eq_true_eq, UInt8.le_iff_toNat_le, hhead]
    omega
  · have hhead := toNat_head rlpListIndLenZero (n := bytesRequired items.flatten.length)
      (by simp only [rlpListIndLenZero, UInt8.reduceToNat]; omega)
    simp only [isList, isNull, byteAt, RLPStream.pushCount, List.cons_append, List.isEmpty_cons,
      List.getD_cons_zero, Bool.not_false, Bool.true_and, decide_eq_true_eq,
      UInt8.le_iff_toNat_le, hhead]
    simp only [rlpListIndLenZero, rlpListStart, UInt8.reduceToNat]
    omega

theorem isList_encodeBytes {b : Bytes} (h : b.length < maxLength) :
    isList (encodeBytes b) = false := by
  have hdata := isData_encodeBytes h
  simp only [isData, Bool.and_eq_true, decide_eq_true_eq] at hdata
  simp [isList, UInt8.not_le.mpr hdata.2]

end GseNetwork.Core
