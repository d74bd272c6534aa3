import GseNetwork.Core.RlpFraming

namespace GseNetwork.Core

open Foundation.BigEndian Foundation.SelfDelimiting RLP

section Items

variable {items : List Bytes} (hitems : ∀ x ∈ items, Delimited sizeAsEncoded x)
  (hlen : items.flatten.length < maxLength)

include hitems in
theorem length_le_flatten : items.length ≤ items.flatten.length := by
  induction items with
  | nil => simp
  | cons x xs ih =>
    have hx := (hitems x (by simp)).length_pos
    have := ih fun y hy ↦ hitems y (by simp [hy])
    simp only [List.length_cons, List.flatten_cons, List.length_append]
    omega

include hitems hlen in
theorem itemsOf_encodeList : itemsOf (encodeList items) = .ok items := by
  obtain ⟨offset, h⟩ := framed_encodeList hlen
  unfold itemsOf
  rw [h.payload_eq]
  exact split_flatten hitems (length_le_flatten hitems)

include hitems hlen in
theorem itemCount_encodeList : itemCount (encodeList items) = .ok items.length := by
  unfold itemCount
  rw [isList_encodeList hlen, itemsOf_encodeList hitems hlen]
  rfl

include hitems in
theorem walk_flatten {i : ℕ} (hi : i < items.length) :
    walk i items.flatten = .ok (items.getD i []) := by
  induction items generalizing i with
  | nil => simp at hi
  | cons x xs ih =>
    have hx := hitems x (by simp)
    cases i with
    | zero =>
      simp only [walk, List.flatten_cons, hx.size_append]
      change Except.ok _ = _
      simp
    | succ i =>
      simp only [walk, List.flatten_cons, hx.size_append]
      change (if x.length = 0 then _ else _) = _
      rw [if_neg (by have := hx.length_pos; omega), List.drop_left]
      exact ih (fun y hy ↦ hitems y (by simp [hy])) (by simpa using hi)

theorem eq_of_ofPrefix {x y : Bytes} (h : ofPrefix x = .ok y) : y = x := by
  unfold ofPrefix at h
  cases hact : actualSize x with
  | error e =>
    rw [hact] at h
    cases h
  | ok n =>
    rw [hact] at h
    change (if x.length < n then (throw _ : Except Exception RLP) else pure x) = .ok y at h
    split at h
    · cases h
    · exact (Except.ok.inj h).symm

theorem ofPrefix_of_delimited {x : Bytes} (h : Delimited sizeAsEncoded x) :
    ofPrefix x = .ok x := by
  have hsize := h.size_eq
  unfold sizeAsEncoded at hsize
  cases hp : ofPrefix x with
  | error e =>
    rw [hp] at hsize
    cases hsize
  | ok y => rw [eq_of_ofPrefix hp]

include hitems hlen in
theorem item_encodeList {i : ℕ} (hi : i < items.length) :
    item (encodeList items) i = .ok (items.getD i []) := by
  obtain ⟨offset, h⟩ := framed_encodeList hlen
  have hmem : items.getD i [] ∈ items := by
    rw [List.getD_eq_getElem _ _ hi]
    exact List.getElem_mem hi
  unfold item
  rw [h.payload_eq]
  change (do ofPrefix (← walk i items.flatten)) = _
  rw [walk_flatten hitems hi]
  exact ofPrefix_of_delimited (hitems _ hmem)

end Items

theorem bytesRequired_eq_one {n : ℕ} (hpos : n ≠ 0) (h : n < 256) : bytesRequired n = 1 := by
  have hle : bytesRequired n ≤ 1 := bytesRequired_le (by simpa using h)
  have := bytesRequired_pos hpos
  omega

theorem encodeInt_natCast (n : ℕ) :
    encodeInt n = encodeBytes (toBigEndian (bytesRequired n) n) := by
  unfold encodeInt encodeBytes
  by_cases hzero : n = 0
  · subst hzero
    rfl
  have hzero' : (n : ℤ) ≠ 0 := by exact_mod_cast hzero
  rw [if_neg hzero']
  by_cases hsmall : n < 0x80
  · have hone := bytesRequired_eq_one hzero (by omega)
    have hcast : ((n : ℤ) % 256).toNat = n := by omega
    rw [if_pos (by exact_mod_cast hsmall), hcast, hone, if_pos]
    · simp [toBigEndian]
    · refine ⟨by simp, ?_⟩
      simp only [toBigEndian, List.nil_append, List.getD_cons_zero, UInt8.lt_iff_toNat_lt,
        UInt8.toNat_ofNat', rlpDataImmLenStart, UInt8.reduceToNat]
      omega
  · rw [if_neg (by exact_mod_cast hsmall), if_neg, Int.toNat_natCast, length_toBigEndian]
    rintro ⟨hlen, hbyte⟩
    rw [length_toBigEndian] at hlen
    have hlt := lt_pow_bytesRequired n
    rw [hlen] at hlt hbyte
    simp only [toBigEndian, List.nil_append, List.getD_cons_zero, UInt8.lt_iff_toNat_lt,
      UInt8.toNat_ofNat', rlpDataImmLenStart, UInt8.reduceToNat] at hbyte
    omega

theorem isInt_shortData {x y : UInt8} {t : Bytes} (hgood : requireGood (y :: x :: t) = .ok ())
    (hlow : rlpDataImmLenStart < y) (hind : y ≤ rlpDataIndLenZero) (hx : x ≠ 0) :
    isInt (y :: x :: t) = .ok true := by
  have hlow' : ¬ y < rlpDataImmLenStart := UInt8.not_lt.mpr (UInt8.le_of_lt hlow)
  have hne : y ≠ rlpDataImmLenStart := (UInt8.ne_of_lt hlow).symm
  simp [isInt, isNull, hgood, byteAt, hlow', hne, hind, hx]

theorem isInt_singleByte {x : UInt8} (h : x < rlpDataImmLenStart) (hx : x ≠ 0) :
    isInt [x] = .ok true := by
  simp [isInt, isNull, (heads_singleByte [] h).good, byteAt, h, hx]

theorem isInt_encodeInt {n : ℕ} (h : bytesRequired n < rlpDataImmLenCount) :
    isInt (encodeInt n) = .ok true := by
  have hn : bytesRequired n < 56 := h
  have hmax : (toBigEndian (bytesRequired n) n).length < maxLength := by
    simp only [length_toBigEndian, maxLength]
    omega
  obtain ⟨offset, hframe⟩ := framed_encodeBytes hmax
  have hgood := hframe.requireGood_eq
  rw [encodeInt_natCast]
  by_cases hzero : n = 0
  · subst hzero
    rfl
  obtain ⟨x, t, hx, hx0⟩ := toBigEndian_bytesRequired hzero
  have hlen : (x :: t).length = bytesRequired n := by rw [← hx, length_toBigEndian]
  rw [hx] at hgood ⊢
  unfold encodeBytes at hgood ⊢
  by_cases hsingle : (x :: t).length = 1 ∧ (x :: t).getD 0 0 < rlpDataImmLenStart
  · rw [if_pos hsingle]
    obtain rfl : t = [] := by simpa using hsingle.1
    exact isInt_singleByte (by simpa using hsingle.2) hx0
  · have hhead := toNat_head rlpDataImmLenStart (n := bytesRequired n)
      (by simp only [rlpDataImmLenStart, UInt8.reduceToNat]; omega)
    have hpos := bytesRequired_pos hzero
    rw [if_neg hsingle, RLPStream.dataHead, hlen, if_pos h] at hgood ⊢
    refine isInt_shortData hgood ?_ ?_ hx0
    · rw [UInt8.lt_iff_toNat_lt, hhead]
      omega
    · rw [UInt8.le_iff_toNat_le, hhead]
      simp only [rlpDataImmLenStart, rlpDataIndLenZero, UInt8.reduceToNat]
      omega

theorem toInt_encodeInt {n w : ℕ} (h : bytesRequired n < rlpDataImmLenCount) :
    toInt w (encodeInt n) =
      if bytesRequired n ≤ w then .ok n else .error ⟨.badCast, ""⟩ := by
  have hmax : (toBigEndian (bytesRequired n) n).length < maxLength := by
    simp only [length_toBigEndian, rlpDataImmLenCount, maxLength] at h ⊢
    omega
  obtain ⟨offset, hframe⟩ := framed_encodeBytes hmax
  have hlist := isList_encodeBytes hmax
  have hnull : isNull (encodeBytes (toBigEndian (bytesRequired n) n)) = false := by
    simp [isNull, hframe.ne_nil]
  unfold toInt
  rw [isInt_encodeInt h, encodeInt_natCast, hframe.requireGood_eq, hframe.payload_eq, hlist,
    hnull]
  change (if w < (toBigEndian (bytesRequired n) n).length then _ else _) = _
  rw [length_toBigEndian]
  by_cases hw : bytesRequired n ≤ w
  · rw [if_pos hw, if_neg (by omega)]
    exact congrArg Except.ok (fromBigEndian_toBigEndian_of_lt (lt_pow_bytesRequired n))
  · rw [if_neg hw, if_pos (by omega)]
    rfl

theorem bytesRequired_uint64 (x : UInt64) : bytesRequired x.toNat ≤ 8 :=
  bytesRequired_le (by have := x.toNat_lt; omega)

theorem toInt_encodeInt_uint64 (x : UInt64) :
    toInt 8 (encodeInt x.toNat) = .ok x.toNat := by
  have h8 := bytesRequired_uint64 x
  rw [toInt_encodeInt (by simp only [rlpDataImmLenCount]; omega), if_pos h8]

theorem toInt64_encodeInt_uint64 (x : UInt64) :
    toInt64 (encodeInt x.toNat) = .ok x.toInt64 := by
  unfold toInt64
  rw [toInt_encodeInt_uint64]
  change Except.ok (UInt64.ofNat x.toNat).toInt64 = _
  rw [UInt64.ofNat_toNat]

theorem toInt64_neg_iff (x : UInt64) : x.toInt64 < 0 ↔ 2 ^ 63 ≤ x.toNat := by
  have hx := x.toNat_lt
  rw [Int64.lt_iff_toInt_lt]
  have hint : x.toInt64.toInt = (x.toBitVec).toInt := rfl
  rw [hint, BitVec.toInt_eq_toNat_cond, UInt64.toNat_toBitVec, Int64.toInt_zero]
  split <;> omega

theorem toPositiveInt64_of_lt {x : UInt64} (h : x.toNat < 2 ^ 63) :
    toPositiveInt64 (encodeInt x.toNat) = .ok x.toInt64 := by
  unfold toPositiveInt64
  rw [toInt64_encodeInt_uint64, ok_bind, if_neg (by rw [toInt64_neg_iff]; omega)]
  rfl

theorem toPositiveInt64_of_ge {x : UInt64} (h : ¬ x.toNat < 2 ^ 63) :
    toPositiveInt64 (encodeInt x.toNat) = .error ⟨.badCast, ""⟩ := by
  unfold toPositiveInt64
  rw [toInt64_encodeInt_uint64, ok_bind, if_pos (by rw [toInt64_neg_iff]; omega)]
  rfl

theorem toHash_encodeHash {size : ℕ} (hsize : size < maxLength) (h : BitVec (8 * size)) :
    toHash size (encodeHash size h) = .ok h := by
  have hmax : (toBigEndian size h.toNat).length < maxLength := by simpa using hsize
  obtain ⟨offset, hframe⟩ := framed_encodeBytes hmax
  unfold toHash encodeHash
  rw [hframe.requireGood_eq, hframe.payload_eq, isData_encodeBytes hmax]
  change (if (!true || decide ((toBigEndian size h.toNat).length ≠ size)) = true then _ else _) = _
  rw [if_neg (by simp)]
  have hlt : h.toNat < 256 ^ size := by
    have := h.isLt
    rwa [pow_mul] at this
  change Except.ok (BitVec.ofNat _ (fromBigEndian (toBigEndian size h.toNat))) = _
  rw [fromBigEndian_toBigEndian_of_lt hlt, BitVec.ofNat_toNat, BitVec.setWidth_eq]

end GseNetwork.Core
