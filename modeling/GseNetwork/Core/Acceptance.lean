import GseNetwork.Core.Wire

namespace GseNetwork.Core

open Foundation.BigEndian Foundation.SelfDelimiting RLP

section Results

variable {α β : Type} {a : α} {b : β}

theorem bind_eq_ok {m : Except Exception α} {f : α → Except Exception β} :
    (m >>= f) = .ok b ↔ ∃ a, m = .ok a ∧ f a = .ok b := by
  cases m with
  | error e => simp
  | ok a => simp

@[simp] theorem rethrown_eq_ok {r : Except Exception α} : rethrown r = .ok a ↔ r = .ok a := by
  cases r with
  | error e => simp [rethrown]
  | ok a => simp [rethrown]

end Results

namespace RLP

structure Listing (d : Bytes) (items : List Bytes) : Prop where
  eq : d = encodeList items
  length_lt : items.flatten.length < maxLength
  items : ∀ x ∈ items, Item x

section Listing

variable {d e : Bytes} {items : List Bytes}

theorem Listing.delimited (h : Listing d items) : ∀ x ∈ items, Delimited sizeAsEncoded x :=
  fun x hx ↦ (h.items x hx).delimited

theorem Listing.ofBytes_eq (h : Listing d items) : ofBytes d = .ok d := by
  obtain ⟨_, hframe⟩ := framed_encodeList h.length_lt
  rw [h.eq]
  exact hframe.ofBytes_eq

theorem Listing.isList_eq (h : Listing d items) : isList d = true := by
  rw [h.eq]
  exact isList_encodeList h.length_lt

theorem Listing.itemCount_eq (h : Listing d items) : itemCount d = .ok items.length := by
  rw [h.eq]
  exact itemCount_encodeList h.delimited h.length_lt

theorem Listing.item_eq (h : Listing d items) {i : ℕ} (hi : i < items.length) :
    item d i = .ok (items.getD i []) := by
  rw [h.eq]
  exact item_encodeList h.delimited h.length_lt hi

theorem eq_of_ofBytes (h : ofBytes d = .ok e) : e = d := by
  by_cases hne : d = []
  · subst hne
    exact (Except.ok.inj h).symm
  · exact (item_of_ofBytes hne h).1

theorem listing_of_itemCount {n : ℕ} (h : ofBytes d = .ok e) (hlist : isList e = true)
    (hcount : itemCount e = .ok n) : e = d ∧ ∃ items, Listing d items ∧ items.length = n := by
  have hne : d ≠ [] := by
    rintro rfl
    obtain rfl := Except.ok.inj h
    contradiction
  obtain ⟨rfl, -⟩ := item_of_ofBytes hne h
  unfold itemCount at hcount
  rw [if_pos hlist, bind_eq_ok] at hcount
  obtain ⟨items, hitems, hn⟩ := hcount
  obtain ⟨heq, hlt, hall⟩ := list_of_itemsOf h hlist hitems
  exact ⟨rfl, items, ⟨heq, hlt, hall⟩, Except.ok.inj hn⟩

theorem Listing.item {x : Bytes} {items : List Bytes} (h : Listing x items) : Item x := by
  rw [h.eq, ← encodeList_flatten]
  exact .list _ h.length_lt

end Listing

section Fields

variable {x : Bytes} {n w : ℕ}

theorem item_encodeBytes {p : Bytes} (h : p.length < maxLength) : Item (encodeBytes p) := .data p h

theorem item_encodeHash {size : ℕ} (hsize : size < maxLength) (v : BitVec (8 * size)) :
    Item (encodeHash size v) := .data _ (by rwa [length_toBigEndian])

theorem item_encodeInt (h : bytesRequired n < maxLength) : Item (encodeInt n) := by
  rw [encodeInt_natCast]
  exact .data _ (by rwa [length_toBigEndian])

/-- The reader of integers accepts the bytes written for those that fit, and no others. -/
theorem toInt_eq_ok (hx : Item x) (hw : w < rlpDataImmLenCount) :
    toInt w x = .ok n ↔ x = encodeInt n ∧ n < 256 ^ w := by
  constructor
  · intro h
    obtain ⟨rfl, hle⟩ := toInt_ok hx hw h
    exact ⟨rfl, (lt_pow_bytesRequired n).trans_le (Nat.pow_le_pow_right (by decide) hle)⟩
  · rintro ⟨rfl, hlt⟩
    have hle := bytesRequired_le hlt
    rw [toInt_encodeInt (hle.trans_lt hw), if_pos hle]

theorem toHash_eq_ok {size : ℕ} (hsize : size < maxLength) {v : BitVec (8 * size)} (hx : Item x) :
    toHash size x = .ok v ↔ x = encodeHash size v := by
  constructor
  · exact toHash_ok hx
  · rintro rfl
    exact toHash_encodeHash hsize v

theorem toBytes_encodeBytes {p : Bytes} (h : p.length < maxLength) :
    toBytes (encodeBytes p) = .ok p := by
  obtain ⟨_, hframe⟩ := framed_encodeBytes h
  rw [toBytes, if_pos (isData_encodeBytes h), hframe.payload_eq]

theorem isData_encodeList {items : List Bytes} (h : items.flatten.length < maxLength) :
    isData (encodeList items) = false := by
  have hlist := isList_encodeList h
  simp only [isList, Bool.and_eq_true, decide_eq_true_eq] at hlist
  simp [isData, UInt8.not_lt.mpr hlist.2]

theorem toBytes_eq_ok {p : Bytes} (hx : Item x) :
    toBytes x = .ok p ↔ x = encodeBytes p ∧ p.length < maxLength ∨ isList x = true ∧ p = [] := by
  cases hx with
  | data q hq =>
    rw [toBytes_encodeBytes hq, isList_encodeBytes hq]
    constructor
    · intro h
      obtain rfl := Except.ok.inj h
      exact Or.inl ⟨rfl, hq⟩
    · rintro (⟨heq, hp⟩ | ⟨hlist, -⟩)
      · rw [encodeBytes_inj hq hp heq]
      · contradiction
  | list q hq =>
    have hlen : [q].flatten.length < maxLength := by simpa using hq
    have hlist := isList_encodeList hlen
    rw [toBytes, isData_encodeList hlen, hlist]
    constructor
    · intro h
      exact Or.inr ⟨rfl, (Except.ok.inj h).symm⟩
    · rintro (⟨heq, hp⟩ | ⟨-, rfl⟩)
      · rw [heq, isList_encodeBytes hp] at hlist
        contradiction
      · rfl

theorem ofNat_uint64 (h : n < 256 ^ 8) : (UInt64.ofNat n).toNat = n := by
  rw [UInt64.toNat_ofNat', Nat.mod_eq_of_lt (by simpa using h)]

theorem ofNat_uint32 (h : n < 256 ^ 4) : (UInt32.ofNat n).toNat = n := by
  rw [UInt32.toNat_ofNat', Nat.mod_eq_of_lt (by simpa using h)]

theorem toInt64_eq_ok {i : Int64} (hx : Item x) :
    toInt64 x = .ok i ↔ x = encodeInt i.toUInt64.toNat := by
  unfold toInt64
  rw [bind_eq_ok]
  constructor
  · rintro ⟨n, hn, hi⟩
    obtain ⟨rfl, hlt⟩ := (toInt_eq_ok hx (by decide)).mp hn
    have hi' : (UInt64.ofNat n).toInt64 = i := Except.ok.inj hi
    have hback : i.toUInt64.toNat = n := by
      rw [← hi']
      exact ofNat_uint64 hlt
    rw [hback]
  · intro h
    refine ⟨i.toUInt64.toNat, (toInt_eq_ok hx (by decide)).mpr ⟨h, ?_⟩, ?_⟩
    · have := i.toUInt64.toNat_lt
      simpa using this
    · rw [UInt64.ofNat_toNat]
      rfl

theorem toPositiveInt64_eq_ok {i : Int64} (hx : Item x) :
    toPositiveInt64 x = .ok i ↔ x = encodeInt i.toUInt64.toNat ∧ i.toUInt64.toNat < 2 ^ 63 := by
  have hneg := toInt64_neg_iff i.toUInt64
  rw [Int64.toInt64_toUInt64] at hneg
  unfold toPositiveInt64
  rw [bind_eq_ok]
  constructor
  · rintro ⟨j, hj, hi⟩
    by_cases hlt : j < 0
    · rw [if_pos hlt] at hi
      contradiction
    rw [if_neg hlt] at hi
    obtain rfl := Except.ok.inj hi
    exact ⟨(toInt64_eq_ok hx).mp hj, not_le.mp (mt hneg.mpr hlt)⟩
  · rintro ⟨heq, hlt⟩
    refine ⟨i, (toInt64_eq_ok hx).mpr heq, ?_⟩
    rw [if_neg (mt hneg.mp (not_le.mpr hlt))]
    rfl

end Fields

end RLP

namespace SignatureStruct

theorem ofSignature_toSignature (x : SignatureStruct) : ofSignature x.toSignature = x := by
  have hr := x.r.isLt
  have hs := x.s.isLt
  have hv := x.v.toNat_lt
  have hnat : x.toSignature.toNat = (x.r.toNat * 2 ^ 256 + x.s.toNat) * 2 ^ 8 + x.v.toNat := by
    rw [toSignature, BitVec.toNat_ofNat]
    refine Nat.mod_eq_of_lt ?_
    omega
  have hhigh : x.toSignature.toNat / 2 ^ 264 = x.r.toNat := by omega
  have hmiddle : x.toSignature.toNat / 2 ^ 8 % 2 ^ 256 = x.s.toNat := by omega
  have hlow : x.toSignature.toNat % 2 ^ 8 = x.v.toNat := by omega
  have h1 : BitVec.ofNat 256 (x.toSignature.toNat / 2 ^ 264) = x.r := by
    rw [hhigh, BitVec.ofNat_toNat, BitVec.setWidth_eq]
  have h2 : BitVec.ofNat 256 (x.toSignature.toNat / 2 ^ 8) = x.s := by
    apply BitVec.eq_of_toNat_eq
    rw [BitVec.toNat_ofNat, hmiddle]
  have h3 : UInt8.ofNat x.toSignature.toNat = x.v := by
    apply UInt8.toNat_inj.mp
    rw [UInt8.toNat_ofNat', hlow]
  rw [ofSignature, h1, h2, h3]

theorem toSignature_ofSignature (x : BitVec (8 * 65)) : (ofSignature x).toSignature = x := by
  have hx := x.isLt
  apply BitVec.eq_of_toNat_eq
  rw [toSignature, ofSignature, BitVec.toNat_ofNat]
  simp only [BitVec.toNat_ofNat, UInt8.toNat_ofNat']
  omega

end SignatureStruct

namespace Transaction

def wireItems (t : Transaction) (x : Bytes) : List Bytes :=
  [encodeInt t.chainID.toNat, encodeInt t.type.toNat, encodeHash 20 t.sender,
    encodeHash 20 t.recipient, encodeInt t.timestamp.toUInt64.toNat, x, encodeInt t.value.toNat,
    encodeHash 65 t.signature.toSignature]

theorem readFields_eq_ok {d x0 x1 x2 x3 x4 x5 x6 x7 : Bytes} {t : Transaction}
    (h : Listing d [x0, x1, x2, x3, x4, x5, x6, x7]) :
    readFields d = .ok t ↔
      toBytes x5 = .ok t.data ∧ [x0, x1, x2, x3, x4, x5, x6, x7] = t.wireItems x5 := by
  have h0 := h.item_eq (show 0 < 8 by decide)
  have h1 := h.item_eq (show 1 < 8 by decide)
  have h2 := h.item_eq (show 2 < 8 by decide)
  have h3 := h.item_eq (show 3 < 8 by decide)
  have h4 := h.item_eq (show 4 < 8 by decide)
  have h5 := h.item_eq (show 5 < 8 by decide)
  have h6 := h.item_eq (show 6 < 8 by decide)
  have h7 := h.item_eq (show 7 < 8 by decide)
  have hitem := h.items
  simp only [List.mem_cons, List.not_mem_nil, or_false, forall_eq_or_imp, forall_eq] at hitem
  obtain ⟨i0, i1, i2, i3, i4, i5, i6, i7⟩ := hitem
  simp only [List.getD_cons_zero, List.getD_cons_succ] at h0 h1 h2 h3 h4 h5 h6 h7
  simp only [readFields, h0, h1, h2, h3, h4, h5, h6, h7, ok_bind, bind_eq_ok,
    toInt_eq_ok i0 (show 8 < rlpDataImmLenCount by decide),
    toInt_eq_ok i1 (show 4 < rlpDataImmLenCount by decide),
    toHash_eq_ok (show 20 < maxLength by decide) i2,
    toHash_eq_ok (show 20 < maxLength by decide) i3,
    toInt64_eq_ok i4, toInt_eq_ok i6 (show 8 < rlpDataImmLenCount by decide),
    toHash_eq_ok (show 65 < maxLength by decide) i7, wireItems, List.cons.injEq, and_true]
  constructor
  · rintro ⟨n0, ⟨e0, l0⟩, n1, ⟨e1, l1⟩, v2, e2, v3, e3, v4, e4, v5, e5, n6, ⟨e6, l6⟩, v7, e7, ht⟩
    obtain rfl := Except.ok.inj ht
    refine ⟨e5, ?_, ?_, e2, e3, e4, trivial, ?_, ?_⟩
    · rw [e0, ofNat_uint64 l0]
    · rw [e1, ofNat_uint32 l1]
    · rw [e6, ofNat_uint64 l6]
    · rw [e7, SignatureStruct.toSignature_ofSignature]
  · rintro ⟨e5, e0, e1, e2, e3, e4, -, e6, e7⟩
    refine ⟨_, ⟨e0, ?_⟩, _, ⟨e1, ?_⟩, _, e2, _, e3, _, e4, _, e5, _, ⟨e6, ?_⟩, _, e7, ?_⟩
    · simpa using t.chainID.toNat_lt
    · simpa using t.type.toNat_lt
    · simpa using t.value.toNat_lt
    · rw [UInt64.ofNat_toNat, UInt32.ofNat_toNat, UInt64.ofNat_toNat,
        SignatureStruct.ofSignature_toSignature]
      rfl

theorem ofRLP_eq_ok {d : Bytes} {t : Transaction} :
    ofRLP d = .ok t ↔ ∃ x, toBytes x = .ok t.data ∧ Listing d (t.wireItems x) := by
  unfold ofRLP
  simp only [bind_eq_ok, rethrown_eq_ok]
  constructor
  · rintro ⟨rlp, hrlp, hparse⟩
    unfold parse at hparse
    rw [bind_eq_ok] at hparse
    obtain ⟨n, hcount, hparse⟩ := hparse
    by_cases hguard : (!isList rlp || n != 8) = true
    · rw [if_pos hguard] at hparse
      contradiction
    rw [if_neg hguard] at hparse
    simp only [Bool.or_eq_true, Bool.not_eq_true', bne_iff_ne, ne_eq, not_or, Bool.not_eq_false,
      not_not] at hguard
    obtain ⟨rfl, items, hlisting, hlen⟩ := listing_of_itemCount hrlp hguard.1 hcount
    rw [hguard.2] at hlen
    match items, hlen with
    | [x0, x1, x2, x3, x4, x5, x6, x7], _ =>
      obtain ⟨hdata, heq⟩ := (readFields_eq_ok hlisting).mp hparse
      rw [heq] at hlisting
      exact ⟨x5, hdata, hlisting⟩
  · rintro ⟨x, hdata, hlisting⟩
    refine ⟨d, hlisting.ofBytes_eq, ?_⟩
    unfold parse
    rw [hlisting.itemCount_eq, ok_bind, hlisting.isList_eq]
    exact (readFields_eq_ok hlisting).mpr ⟨hdata, rfl⟩

end Transaction

namespace BlockHeader

def wireItems (h : BlockHeader) (x : Bytes) (v : ℕ) : List Bytes :=
  [encodeInt h.chainID.toNat, encodeHash 20 h.producer, encodeHash 32 h.parentHash,
    encodeHash 32 h.mklRoot, encodeHash 32 h.transactionsRoot, encodeHash 32 h.receiptRoot,
    encodeInt h.number.toNat, encodeInt h.timestamp.toUInt64.toNat, x, encodeInt v,
    encodeInt h.signature.r.toNat, encodeInt h.signature.s.toNat]

/-- The items are read as the header: the number is positive as a signed word, and of the recovery
id only the low byte is kept. -/
structure Fits (h : BlockHeader) (x : Bytes) (v : ℕ) : Prop where
  number : h.number.toNat < 2 ^ 63
  extra : toBytes x = .ok h.extra
  small : v < 256 ^ 4
  v : UInt8.ofNat v = h.signature.v

theorem readFields_eq_ok {d x0 x1 x2 x3 x4 x5 x6 x7 x8 x9 x10 x11 : Bytes} {t : BlockHeader}
    (h : Listing d [x0, x1, x2, x3, x4, x5, x6, x7, x8, x9, x10, x11]) :
    readFields d = .ok t ↔ ∃ v, t.Fits x8 v ∧
      [x0, x1, x2, x3, x4, x5, x6, x7, x8, x9, x10, x11] = t.wireItems x8 v := by
  have h0 := h.item_eq (show 0 < 12 by decide)
  have h1 := h.item_eq (show 1 < 12 by decide)
  have h2 := h.item_eq (show 2 < 12 by decide)
  have h3 := h.item_eq (show 3 < 12 by decide)
  have h4 := h.item_eq (show 4 < 12 by decide)
  have h5 := h.item_eq (show 5 < 12 by decide)
  have h6 := h.item_eq (show 6 < 12 by decide)
  have h7 := h.item_eq (show 7 < 12 by decide)
  have h8 := h.item_eq (show 8 < 12 by decide)
  have h9 := h.item_eq (show 9 < 12 by decide)
  have h10 := h.item_eq (show 10 < 12 by decide)
  have h11 := h.item_eq (show 11 < 12 by decide)
  have hitem := h.items
  simp only [List.mem_cons, List.not_mem_nil, or_false, forall_eq_or_imp, forall_eq] at hitem
  obtain ⟨i0, i1, i2, i3, i4, i5, i6, i7, i8, i9, i10, i11⟩ := hitem
  simp only [List.getD_cons_zero, List.getD_cons_succ] at h0 h1 h2 h3 h4 h5 h6 h7 h8 h9 h10 h11
  have h32 : 32 < maxLength := by decide
  have hword : 32 < rlpDataImmLenCount := by decide
  simp only [readFields, h0, h1, h2, h3, h4, h5, h6, h7, h8, h9, h10, h11, ok_bind, bind_eq_ok,
    toInt_eq_ok i0 (show 8 < rlpDataImmLenCount by decide),
    toHash_eq_ok (show 20 < maxLength by decide) i1, toHash_eq_ok h32 i2, toHash_eq_ok h32 i3,
    toHash_eq_ok h32 i4, toHash_eq_ok h32 i5, toPositiveInt64_eq_ok i6, toInt64_eq_ok i7,
    toInt_eq_ok i9 (show 4 < rlpDataImmLenCount by decide), toInt_eq_ok i10 hword,
    toInt_eq_ok i11 hword, wireItems, List.cons.injEq, and_true]
  constructor
  · rintro ⟨n0, ⟨e0, l0⟩, v1, e1, v2, e2, v3, e3, v4, e4, v5, e5, v6, ⟨e6, l6⟩, v7, e7, v8, e8,
      v, ⟨e9, l9⟩, r, ⟨e10, l10⟩, s, ⟨e11, l11⟩, ht⟩
    obtain rfl := Except.ok.inj ht
    refine ⟨v, ⟨l6, e8, l9, rfl⟩, ?_, e1, e2, e3, e4, e5, e6, e7, trivial, e9, ?_, ?_⟩
    · rw [e0, ofNat_uint64 l0]
    · rw [e10, BitVec.toNat_ofNat, Nat.mod_eq_of_lt (by simpa using l10)]
    · rw [e11, BitVec.toNat_ofNat, Nat.mod_eq_of_lt (by simpa using l11)]
  · rintro ⟨v, hfits, e0, e1, e2, e3, e4, e5, e6, e7, -, e9, e10, e11⟩
    refine ⟨_, ⟨e0, ?_⟩, _, e1, _, e2, _, e3, _, e4, _, e5, t.number.toInt64, ⟨e6, hfits.number⟩,
      _, e7, _, hfits.extra, _, ⟨e9, hfits.small⟩, _, ⟨e10, ?_⟩, _, ⟨e11, ?_⟩, ?_⟩
    · simpa using t.chainID.toNat_lt
    · simpa using t.signature.r.isLt
    · simpa using t.signature.s.isLt
    · rw [UInt64.ofNat_toNat, BitVec.ofNat_toNat, BitVec.setWidth_eq, BitVec.ofNat_toNat,
        BitVec.setWidth_eq, hfits.v]
      rfl

def Skipped (d : Bytes) : Prop :=
  ofBytes d = .ok d ∧ (isList d = false ∨ ∃ items, Listing d items ∧ items.length ≠ 12)

theorem populate_eq_ok {d : Bytes} {x t : BlockHeader} :
    x.populate d = .ok t ↔
      (∃ y v, t.Fits y v ∧ Listing d (t.wireItems y v)) ∨ t = x ∧ Skipped d := by
  unfold populate
  rw [rethrown_eq_ok, parse, bind_eq_ok]
  constructor
  · rintro ⟨rlp, hrlp, hparse⟩
    obtain rfl := eq_of_ofBytes hrlp
    rw [bind_eq_ok] at hparse
    obtain ⟨n, hcount, hparse⟩ := hparse
    by_cases hlist : isList rlp = true
    · obtain ⟨-, items, hlisting, hlen⟩ := listing_of_itemCount hrlp hlist hcount
      by_cases hn : n = 12
      · rw [if_pos (by rw [hlist, hn]; rfl)] at hparse
        rw [hn] at hlen
        match items, hlen with
        | [x0, x1, x2, x3, x4, x5, x6, x7, x8, x9, x10, x11], _ =>
          obtain ⟨v, hfits, heq⟩ := (readFields_eq_ok hlisting).mp hparse
          rw [heq] at hlisting
          exact Or.inl ⟨x8, v, hfits, hlisting⟩
      · rw [if_neg (by simp [hn])] at hparse
        refine Or.inr ⟨(Except.ok.inj hparse).symm, hrlp, Or.inr ⟨items, hlisting, ?_⟩⟩
        rwa [hlen]
    · rw [if_neg (by simp [hlist])] at hparse
      exact Or.inr ⟨(Except.ok.inj hparse).symm, hrlp, Or.inl (by simpa using hlist)⟩
  · rintro (⟨y, v, hfits, hlisting⟩ | ⟨rfl, hrlp, hlist | ⟨items, hlisting, hlen⟩⟩)
    · refine ⟨d, hlisting.ofBytes_eq, ?_⟩
      rw [hlisting.itemCount_eq, ok_bind, hlisting.isList_eq]
      exact (readFields_eq_ok hlisting).mpr ⟨v, hfits, rfl⟩
    · refine ⟨d, hrlp, ?_⟩
      simp only [itemCount, hlist]
      rfl
    · refine ⟨d, hrlp, ?_⟩
      rw [hlisting.itemCount_eq, ok_bind, if_neg (by simp [hlen])]
      rfl

end BlockHeader

namespace TransactionReceipt

theorem size_encodeBytes {p : Bytes} (h : p.length < maxLength) :
    size (encodeBytes p) = .ok p.length := by
  obtain ⟨_, hframe⟩ := framed_encodeBytes h
  have hlength := (hframe.heads []).length_eq
  rw [List.append_nil] at hlength
  rw [size, if_pos (isData_encodeBytes h), hlength]

theorem size_encodeInt {n : ℕ} (h : n < 256 ^ 4) : size (encodeInt n) = .ok (bytesRequired n) := by
  have hle := bytesRequired_le h
  rw [encodeInt_natCast, size_encodeBytes, length_toBigEndian]
  rw [length_toBigEndian]
  exact hle.trans_lt (by decide)

theorem item_one {d x : Bytes} (h : Listing d [x]) : item d 1 = .ok [] := by
  obtain ⟨_, hframe⟩ := framed_encodeList h.length_lt
  have hx := (h.items x (by simp)).delimited
  have hsize : sizeAsEncoded x = .ok x.length := hx.size_eq
  have hne : x.length ≠ 0 := hx.length_pos.ne'
  rw [h.eq, item, hframe.payload_eq, ok_bind, List.flatten_singleton, walk, hsize, ok_bind,
    if_neg hne, List.drop_length]
  rfl

theorem ofRLP_eq_ok {d : Bytes} {t : TransactionReceipt} :
    ofRLP d = .ok t ↔ ∃ code : UInt32, t = receiptCode code ∧ bytesRequired code.toNat = 4 ∧
      Listing d [encodeInt code.toNat] := by
  unfold ofRLP
  rw [rethrown_eq_ok, parse, bind_eq_ok]
  constructor
  · rintro ⟨rlp, hrlp, hparse⟩
    obtain rfl := eq_of_ofBytes hrlp
    rw [bind_eq_ok] at hparse
    obtain ⟨n, hcount, hparse⟩ := hparse
    by_cases hguard : (isList rlp && n == 1) = true
    · rw [if_pos hguard] at hparse
      rw [Bool.and_eq_true, beq_iff_eq] at hguard
      obtain ⟨-, items, hlisting, hlen⟩ := listing_of_itemCount hrlp hguard.1 hcount
      obtain ⟨x, rfl⟩ := List.length_eq_one_iff.mp (hlen.trans hguard.2)
      have hitem : item rlp 0 = .ok x := hlisting.item_eq (show 0 < 1 by decide)
      rw [hitem, ok_bind, bind_eq_ok] at hparse
      obtain ⟨m, hm, hparse⟩ := hparse
      by_cases hfour : (m == 4) = true
      · rw [if_pos hfour, ok_bind, bind_eq_ok] at hparse
        obtain ⟨k, hk, heq⟩ := hparse
        obtain ⟨rfl, hlt⟩ := (toInt_eq_ok (hlisting.items x (by simp)) (by decide)).mp hk
        rw [size_encodeInt hlt] at hm
        have hcode := ofNat_uint32 hlt
        refine ⟨UInt32.ofNat k, (Except.ok.inj heq).symm, ?_, ?_⟩
        · rw [hcode, Except.ok.inj hm]
          exact beq_iff_eq.mp hfour
        · rwa [hcode]
      · rw [if_neg hfour, item_one hlisting] at hparse
        contradiction
    · rw [if_neg hguard] at hparse
      contradiction
  · rintro ⟨code, rfl, hfour, hlisting⟩
    have hlt : code.toNat < 256 ^ 4 := by simpa using code.toNat_lt
    have hitem : item d 0 = .ok (encodeInt code.toNat) :=
      hlisting.item_eq (show 0 < 1 by decide)
    have hcode : toInt 4 (encodeInt code.toNat) = .ok code.toNat :=
      (toInt_eq_ok (hlisting.items _ (by simp)) (by decide)).mpr ⟨rfl, hlt⟩
    refine ⟨d, hlisting.ofBytes_eq, ?_⟩
    rw [hlisting.itemCount_eq, ok_bind, if_pos (by rw [hlisting.isList_eq]; rfl), hitem, ok_bind,
      size_encodeInt hlt, ok_bind, hfour, if_pos (beq_self_eq_true 4), ok_bind, hcode, ok_bind,
      UInt32.ofNat_toNat]
    rfl

end TransactionReceipt

section Each

variable {α : Type} {read : Bytes → Except Exception α}

theorem readEach_eq_ok {d : Bytes} {items : List Bytes} (h : Listing d items) {fuel i : ℕ}
    (hfuel : items.length ≤ i + fuel) {l : List α} :
    readEach read d fuel i = .ok l ↔ List.Forall₂ (fun x a ↦ read x = .ok a) (items.drop i) l := by
  induction fuel generalizing i l with
  | zero =>
    rw [List.drop_of_length_le (by omega), readEach, List.forall₂_nil_left_iff, Except.ok.injEq]
    exact eq_comm
  | succ fuel ih =>
    rw [readEach, h.itemCount_eq, ok_bind]
    by_cases hi : i < items.length
    · rw [if_pos hi, h.item_eq hi, ok_bind, bind_eq_ok, List.drop_eq_getElem_cons hi,
        List.getD_eq_getElem _ _ hi]
      simp only [bind_eq_ok, ih (show items.length ≤ i + 1 + fuel by omega),
        List.forall₂_cons_left_iff]
      constructor
      · rintro ⟨a, ha, rest, hrest, heq⟩
        exact ⟨a, rest, ha, hrest, (Except.ok.inj heq).symm⟩
      · rintro ⟨a, rest, ha, hrest, rfl⟩
        exact ⟨a, ha, rest, hrest, rfl⟩
    · rw [if_neg hi, List.drop_of_length_le (by omega), List.forall₂_nil_left_iff]
      constructor
      · intro heq
        exact (Except.ok.inj heq).symm
      · rintro rfl
        rfl

theorem parseEach_eq_ok {d : Bytes} {l : List α} :
    FullBlock.parseEach read d = .ok l ↔
      (∃ items, Listing d items ∧ List.Forall₂ (fun x a ↦ read x = .ok a) items l) ∨
        l = [] ∧ ofBytes d = .ok d ∧ isList d = false := by
  unfold FullBlock.parseEach
  rw [bind_eq_ok]
  constructor
  · rintro ⟨rlp, hrlp, hparse⟩
    obtain rfl := eq_of_ofBytes hrlp
    by_cases hlist : isList rlp = true
    · rw [if_pos hlist, bind_eq_ok] at hparse
      obtain ⟨n, hcount, hparse⟩ := hparse
      obtain ⟨-, items, hlisting, hlen⟩ := listing_of_itemCount hrlp hlist hcount
      rw [readEach_eq_ok hlisting (by omega), List.drop_zero] at hparse
      exact Or.inl ⟨items, hlisting, hparse⟩
    · rw [if_neg hlist] at hparse
      exact Or.inr ⟨(Except.ok.inj hparse).symm, hrlp, by simpa using hlist⟩
  · rintro (⟨items, hlisting, hforall⟩ | ⟨rfl, hrlp, hlist⟩)
    · refine ⟨d, hlisting.ofBytes_eq, ?_⟩
      rw [if_pos hlisting.isList_eq, hlisting.itemCount_eq, ok_bind,
        readEach_eq_ok hlisting (by omega)]
      exact hforall
    · refine ⟨d, hrlp, ?_⟩
      rw [if_neg (by simp [hlist])]
      rfl

end Each

theorem FullBlock.ofRLP_eq_ok {d : Bytes} {b : FullBlock} :
    ofRLP d = .ok b ↔ b.syncBlock = false ∧ ∃ x0 x1 x2, Listing d [x0, x1, x2] ∧
      BlockHeader.populate {} x0 = .ok b.blockHeader ∧
      parseEach Transaction.ofRLP x1 = .ok b.transactions ∧
      parseEach TransactionReceipt.ofRLP x2 = .ok b.transactionReceipts := by
  unfold ofRLP
  rw [rethrown_eq_ok, parse, bind_eq_ok]
  constructor
  · rintro ⟨rlp, hrlp, hparse⟩
    obtain rfl := eq_of_ofBytes hrlp
    rw [bind_eq_ok] at hparse
    obtain ⟨n, hcount, hparse⟩ := hparse
    by_cases hguard : (isList rlp && n == 3) = true
    · rw [if_pos hguard] at hparse
      rw [Bool.and_eq_true, beq_iff_eq] at hguard
      obtain ⟨-, items, hlisting, hlen⟩ := listing_of_itemCount hrlp hguard.1 hcount
      rw [hguard.2] at hlen
      match items, hlen with
      | [x0, x1, x2], _ =>
        have h0 : item rlp 0 = .ok x0 := hlisting.item_eq (show 0 < 3 by decide)
        have h1 : item rlp 1 = .ok x1 := hlisting.item_eq (show 1 < 3 by decide)
        have h2 : item rlp 2 = .ok x2 := hlisting.item_eq (show 2 < 3 by decide)
        simp only [h0, h1, h2, ok_bind, bind_eq_ok] at hparse
        obtain ⟨header, hheader, txs, htxs, receipts, hreceipts, heq⟩ := hparse
        obtain rfl := Except.ok.inj heq
        exact ⟨rfl, x0, x1, x2, hlisting, hheader, htxs, hreceipts⟩
    · rw [if_neg hguard] at hparse
      contradiction
  · rintro ⟨hsync, x0, x1, x2, hlisting, hheader, htxs, hreceipts⟩
    have h0 : item d 0 = .ok x0 := hlisting.item_eq (show 0 < 3 by decide)
    have h1 : item d 1 = .ok x1 := hlisting.item_eq (show 1 < 3 by decide)
    have h2 : item d 2 = .ok x2 := hlisting.item_eq (show 2 < 3 by decide)
    refine ⟨d, hlisting.ofBytes_eq, ?_⟩
    rw [hlisting.itemCount_eq, ok_bind, if_pos (by rw [hlisting.isList_eq]; rfl)]
    simp only [h0, h1, h2, ok_bind, hheader, htxs, hreceipts]
    rw [← hsync]
    rfl

end GseNetwork.Core
