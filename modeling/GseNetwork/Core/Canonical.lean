import GseNetwork.Core.Acceptance

namespace GseNetwork.Core

open Foundation.BigEndian Foundation.SelfDelimiting RLP

section Timestamps

theorem toInt_of_nonneg {i : Int64} (h : i.toUInt64.toNat < 2 ^ 63) :
    i.toInt = i.toUInt64.toNat := by
  have hint : i.toInt = i.toBitVec.toInt := rfl
  have hnat : i.toUInt64.toNat = i.toBitVec.toNat := rfl
  rw [hnat] at h ⊢
  rw [hint, BitVec.toInt_eq_toNat_cond, if_pos (by omega)]

theorem toInt_of_neg {i : Int64} (h : ¬ i.toUInt64.toNat < 2 ^ 63) : i.toInt < 0 := by
  have hint : i.toInt = i.toBitVec.toInt := rfl
  have hnat : i.toUInt64.toNat = i.toBitVec.toNat := rfl
  have hlt := i.toBitVec.isLt
  rw [hnat] at h
  rw [hint, BitVec.toInt_eq_toNat_cond, if_neg (by omega)]
  omega

theorem length_encodeInt_neg {i : ℤ} (h : i < 0) : (encodeInt i).length = 1 := by
  unfold encodeInt
  rw [if_neg (by omega), if_pos (by omega)]
  rfl

/-- A number with more than `k` bytes is written in more than that and a head. -/
theorem lt_length_encodeInt {k n : ℕ} (hk : 0 < k) (h : 256 ^ k ≤ n) :
    k + 1 < (encodeInt n).length := by
  have hbr : k < bytesRequired n := by
    by_contra hle
    have hlt := lt_pow_bytesRequired n
    have hmono : 256 ^ bytesRequired n ≤ 256 ^ k :=
      Nat.pow_le_pow_right (by decide) (not_lt.mp hle)
    omega
  have hpow : 256 ^ 1 ≤ 256 ^ k := Nat.pow_le_pow_right (by decide) hk
  have hhead : 0 < (RLPStream.dataHead (bytesRequired n)).length := by
    unfold RLPStream.dataHead
    split_ifs
    · simp
    · simp [RLPStream.pushCount]
  unfold encodeInt
  rw [if_neg (by omega), if_neg (by omega), List.length_append, length_toBigEndian]
  simp only [Int.toNat_natCast]
  omega

theorem eight_lt_length_encodeInt {n : ℕ} (h : 2 ^ 63 ≤ n) : 8 < (encodeInt n).length :=
  lt_length_encodeInt (show 0 < 7 by decide) (le_trans (by decide) h)

theorem length_encodeInt_byte {n : ℕ} (h : n < 256) : (encodeInt n).length ≤ 2 := by
  have hbr : bytesRequired n ≤ 1 := bytesRequired_le (by simpa using h)
  have hcount : bytesRequired n < rlpDataImmLenCount := hbr.trans_lt (by decide)
  unfold encodeInt
  split_ifs
  · simp
  · simp
  · rw [List.length_append, length_toBigEndian, RLPStream.dataHead, Int.toNat_natCast,
      if_pos hcount, List.length_singleton]
    omega

theorem length_encodeInt_mod (n : ℕ) :
    (encodeInt ((n % 256 : ℕ) : ℤ)).length ≤ (encodeInt n).length := by
  by_cases h : n < 256
  · rw [Nat.mod_eq_of_lt h]
  · have hbyte := length_encodeInt_byte (Nat.mod_lt n (show 0 < 256 by decide))
    have hlong := lt_length_encodeInt (show 0 < 1 by decide) (show 256 ^ 1 ≤ n by omega)
    omega

/-- What is read from an item as bytes is not written in more bytes than the item has. -/
theorem length_encodeBytes_le {x p : Bytes} (hx : Item x) (h : toBytes x = .ok p) :
    (encodeBytes p).length ≤ x.length := by
  rcases (toBytes_eq_ok hx).mp h with ⟨rfl, -⟩ | ⟨-, rfl⟩
  · exact le_rfl
  · exact hx.delimited.length_pos

theorem length_lt_of_toBytes {x p : Bytes} (hx : Item x) (h : toBytes x = .ok p) :
    p.length < maxLength := by
  rcases (toBytes_eq_ok hx).mp h with ⟨-, hp⟩ | ⟨-, rfl⟩
  · exact hp
  · decide

theorem encodeInt_nat_inj {m n : ℕ} (hm : m < 256 ^ 4) (hn : n < 256 ^ 4)
    (h : encodeInt m = encodeInt n) : m = n := by
  have hitem : Item (encodeInt m) :=
    item_encodeInt ((bytesRequired_le hm).trans_lt (by decide))
  have hread := (toInt_eq_ok hitem (show 4 < rlpDataImmLenCount by decide)).mpr ⟨rfl, hm⟩
  have hread' := (toInt_eq_ok hitem (show 4 < rlpDataImmLenCount by decide)).mpr ⟨h, hn⟩
  exact Except.ok.inj (hread.symm.trans hread')

theorem encodeBytes_eq_iff {x p : Bytes} (hx : Item x) (h : toBytes x = .ok p) :
    x = encodeBytes p ↔ isData x = true := by
  rcases (toBytes_eq_ok hx).mp h with ⟨rfl, hp⟩ | ⟨hlist, rfl⟩
  · exact ⟨fun _ ↦ isData_encodeBytes hp, fun _ ↦ rfl⟩
  · constructor
    · rintro rfl
      exact isData_encodeBytes (by decide)
    · intro hdata
      simp only [isData, Bool.and_eq_true, decide_eq_true_eq] at hdata
      simp only [isList, Bool.and_eq_true, decide_eq_true_eq] at hlist
      exact absurd hdata.2 (UInt8.not_lt.mpr hlist.2)

end Timestamps

theorem length_encodeList_mono {xs ys : List Bytes}
    (h : xs.flatten.length ≤ ys.flatten.length) :
    (encodeList xs).length ≤ (encodeList ys).length := by
  unfold encodeList
  rw [List.length_append, List.length_append]
  rcases h.lt_or_eq with hlt | heq
  · exact (listHead_strict hlt).le
  · rw [heq]

theorem length_flatten_le {xs ys : List Bytes}
    (hle : List.Forall₂ (fun x y ↦ x.length ≤ y.length) xs ys) :
    xs.flatten.length ≤ ys.flatten.length := by
  induction hle with
  | nil => exact le_rfl
  | cons hxy _ ih =>
    simp only [List.flatten_cons, List.length_append]
    omega

/-- Words of which none is longer than its counterpart are told apart by their concatenation. -/
theorem eq_of_flatten_eq {xs ys : List Bytes}
    (hle : List.Forall₂ (fun x y ↦ x.length ≤ y.length) xs ys) (h : xs.flatten = ys.flatten) :
    xs = ys := by
  induction hle with
  | nil => rfl
  | @cons x y xs ys hxy hrest ih =>
    rw [List.flatten_cons, List.flatten_cons] at h
    have hlen := congrArg List.length h
    have htail := length_flatten_le hrest
    rw [List.length_append, List.length_append] at hlen
    obtain ⟨rfl, hflat⟩ := List.append_inj h (by omega)
    rw [ih hflat]

namespace Transaction

def fields (t : Transaction) : List Bytes :=
  [encodeInt t.chainID.toNat, encodeInt t.type.toNat, encodeHash 20 t.sender,
    encodeHash 20 t.recipient, encodeInt t.timestamp.toInt, encodeBytes t.data,
    encodeInt t.value.toNat, encodeHash 65 t.signature.toSignature]

theorem getRLPData_eq (t : Transaction) : t.getRLPData = encodeList t.fields := by
  have h := RLPStream.appendList_items {} t.fields
  simp only [fields, List.foldl_cons, List.foldl_nil, List.length_cons, List.length_nil] at h
  rw [getRLPData, streamRLP, streamFields, RLPStream.appendHash_eq, RLPStream.appendInt_eq,
    RLPStream.append_eq, RLPStream.appendInt_eq, RLPStream.appendHash_eq, RLPStream.appendHash_eq,
    RLPStream.appendInt_eq, RLPStream.appendInt_eq, h, RLPStream.out_appendRaw]
  rfl

theorem flatten_eq_iff {t : Transaction} {x : Bytes} (hx : Item x)
    (hdata : toBytes x = .ok t.data) :
    t.fields.flatten = (t.wireItems x).flatten ↔
      t.timestamp.toUInt64.toNat < 2 ^ 63 ∧ isData x = true := by
  rw [← encodeBytes_eq_iff hx hdata]
  constructor
  · intro h
    simp only [fields, wireItems, List.flatten_cons, List.append_cancel_left_eq] at h
    by_cases hts : t.timestamp.toUInt64.toNat < 2 ^ 63
    · rw [toInt_of_nonneg hts, List.append_cancel_left_eq, List.append_cancel_right_eq] at h
      exact ⟨hts, h.symm⟩
    · have hone := length_encodeInt_neg (toInt_of_neg hts)
      have height := eight_lt_length_encodeInt (not_lt.mp hts)
      have hle := length_encodeBytes_le hx hdata
      have hlen := congrArg List.length h
      simp only [List.length_append] at hlen
      omega
  · rintro ⟨hts, heq⟩
    rw [fields, wireItems, ← heq, toInt_of_nonneg hts]

structure Canonical (d : Bytes) : Prop where
  timestamp : ∃ x n, item d 4 = .ok x ∧ toInt 8 x = .ok n ∧ n < 2 ^ 63
  data : ∃ x, item d 5 = .ok x ∧ isData x = true

theorem canonical_listing {d x : Bytes} {t : Transaction} (h : Listing d (t.wireItems x)) :
    Canonical d ↔ t.timestamp.toUInt64.toNat < 2 ^ 63 ∧ isData x = true := by
  have h4 : item d 4 = .ok (encodeInt t.timestamp.toUInt64.toNat) :=
    h.item_eq (show 4 < 8 by decide)
  have h5 : item d 5 = .ok x := h.item_eq (show 5 < 8 by decide)
  have hread := toInt_encodeInt_uint64 t.timestamp.toUInt64
  constructor
  · rintro ⟨⟨y, n, hy, hn, hlt⟩, z, hz, hdata⟩
    obtain rfl := Except.ok.inj (h4.symm.trans hy)
    obtain rfl := Except.ok.inj (hread.symm.trans hn)
    obtain rfl := Except.ok.inj (h5.symm.trans hz)
    exact ⟨hlt, hdata⟩
  · rintro ⟨hlt, hdata⟩
    exact ⟨⟨_, _, h4, hread, hlt⟩, _, h5, hdata⟩

/-- An accepted transaction is written as it was read exactly if its bytes are canonical. -/
theorem getRLPData_eq_iff {d : Bytes} {t : Transaction} (h : ofRLP d = .ok t) :
    t.getRLPData = d ↔ Canonical d := by
  obtain ⟨x, hdata, hlisting⟩ := ofRLP_eq_ok.mp h
  have hx : Item x := hlisting.items x (by simp [wireItems])
  rw [canonical_listing hlisting, ← flatten_eq_iff hx hdata, getRLPData_eq]
  constructor
  · intro heq
    rw [hlisting.eq] at heq
    exact flatten_eq_of_encodeList heq
  · intro hflat
    rw [hlisting.eq, ← encodeList_flatten, hflat, encodeList_flatten]

theorem length_fields_le {t : Transaction} {x : Bytes} (hx : Item x)
    (hdata : toBytes x = .ok t.data) :
    t.fields.flatten.length ≤ (t.wireItems x).flatten.length := by
  by_cases hts : t.timestamp.toUInt64.toNat < 2 ^ 63
  · have hle := length_encodeBytes_le hx hdata
    simp only [fields, wireItems, toInt_of_nonneg hts, List.flatten_cons, List.length_append]
    omega
  · have hone := length_encodeInt_neg (toInt_of_neg hts)
    have height := eight_lt_length_encodeInt (not_lt.mp hts)
    have hle := length_encodeBytes_le hx hdata
    simp only [fields, wireItems, List.flatten_cons, List.length_append]
    omega

theorem length_getRLPData_le {d : Bytes} {t : Transaction} (h : ofRLP d = .ok t) :
    t.getRLPData.length ≤ d.length := by
  obtain ⟨x, hdata, hlisting⟩ := ofRLP_eq_ok.mp h
  have hx : Item x := hlisting.items x (by simp [wireItems])
  rw [getRLPData_eq, hlisting.eq]
  exact length_encodeList_mono (length_fields_le hx hdata)

end Transaction

namespace BlockHeader

def wireFields (h : BlockHeader) : List Bytes :=
  [encodeInt h.chainID.toNat, encodeHash 20 h.producer, encodeHash 32 h.parentHash,
    encodeHash 32 h.mklRoot, encodeHash 32 h.transactionsRoot, encodeHash 32 h.receiptRoot,
    encodeInt h.number.toNat, encodeInt h.timestamp.toInt, encodeBytes h.extra,
    encodeInt h.signature.v.toNat, encodeInt h.signature.r.toNat, encodeInt h.signature.s.toNat]

theorem getRLPData_eq (h : BlockHeader) : h.getRLPData = encodeList h.wireFields := by
  have hlist := RLPStream.appendList_items {} h.wireFields
  simp only [wireFields, List.foldl_cons, List.foldl_nil, List.length_cons, List.length_nil]
    at hlist
  rw [getRLPData, streamRLP, RLPStream.appendInt_eq, RLPStream.appendInt_eq,
    RLPStream.appendInt_eq, RLPStream.append_eq, RLPStream.appendInt_eq, RLPStream.appendInt_eq,
    RLPStream.appendHash_eq, RLPStream.appendHash_eq, RLPStream.appendHash_eq,
    RLPStream.appendHash_eq, RLPStream.appendHash_eq, RLPStream.appendInt_eq, hlist,
    RLPStream.out_appendRaw]
  rfl

variable {h : BlockHeader} {x : Bytes} {v : ℕ}

theorem toNat_v (hfits : h.Fits x v) : h.signature.v.toNat = v % 256 := by
  rw [← hfits.v, UInt8.toNat_ofNat']

theorem flatten_eq_iff (hx : Item x) (hfits : h.Fits x v) :
    h.wireFields.flatten = (h.wireItems x v).flatten ↔
      h.timestamp.toUInt64.toNat < 2 ^ 63 ∧ isData x = true ∧ v < 256 := by
  have hv := toNat_v hfits
  rw [← encodeBytes_eq_iff hx hfits.extra]
  constructor
  · intro heq
    simp only [wireFields, wireItems, List.flatten_cons, List.append_cancel_left_eq] at heq
    by_cases hts : h.timestamp.toUInt64.toNat < 2 ^ 63
    · rw [toInt_of_nonneg hts, List.append_cancel_left_eq] at heq
      obtain ⟨hextra, hrest⟩ :=
        (item_encodeBytes (length_lt_of_toBytes hx hfits.extra)).delimited.append_inj
          hx.delimited heq
      rw [List.append_cancel_right_eq] at hrest
      have hlt : h.signature.v.toNat < 256 := h.signature.v.toNat_lt
      have hsame := encodeInt_nat_inj (hlt.trans (by decide)) hfits.small hrest
      exact ⟨hts, hextra.symm, hsame ▸ hlt⟩
    · have hone := length_encodeInt_neg (toInt_of_neg hts)
      have height := eight_lt_length_encodeInt (not_lt.mp hts)
      have hle := length_encodeBytes_le hx hfits.extra
      have hbyte := length_encodeInt_byte h.signature.v.toNat_lt
      have hlen := congrArg List.length heq
      simp only [List.length_append] at hlen
      omega
  · rintro ⟨hts, heq, hlt⟩
    rw [Nat.mod_eq_of_lt hlt] at hv
    rw [wireFields, wireItems, ← heq, toInt_of_nonneg hts, hv]

/-- A list of twelve items, with a timestamp that is not negative, a byte string for the extra data
and one byte for the recovery id. -/
structure Canonical (d : Bytes) : Prop where
  isList : isList d = true
  itemCount : itemCount d = .ok 12
  timestamp : ∃ x n, item d 7 = .ok x ∧ toInt 8 x = .ok n ∧ n < 2 ^ 63
  extra : ∃ x, item d 8 = .ok x ∧ isData x = true
  v : ∃ x n, item d 9 = .ok x ∧ toInt 4 x = .ok n ∧ n < 256

theorem canonical_listing {d : Bytes} (hfits : h.Fits x v)
    (hlisting : Listing d (h.wireItems x v)) :
    Canonical d ↔ h.timestamp.toUInt64.toNat < 2 ^ 63 ∧ isData x = true ∧ v < 256 := by
  have h7 : item d 7 = .ok (encodeInt h.timestamp.toUInt64.toNat) :=
    hlisting.item_eq (show 7 < 12 by decide)
  have h8 : item d 8 = .ok x := hlisting.item_eq (show 8 < 12 by decide)
  have h9 : item d 9 = .ok (encodeInt v) := hlisting.item_eq (show 9 < 12 by decide)
  have hread := toInt_encodeInt_uint64 h.timestamp.toUInt64
  have hv : toInt 4 (encodeInt v) = .ok v :=
    (toInt_eq_ok (hlisting.items _ (by simp [wireItems])) (by decide)).mpr ⟨rfl, hfits.small⟩
  constructor
  · rintro ⟨-, -, ⟨y, n, hy, hn, hlt⟩, ⟨z, hz, hdata⟩, w, m, hw, hm, hbyte⟩
    obtain rfl := Except.ok.inj (h7.symm.trans hy)
    obtain rfl := Except.ok.inj (hread.symm.trans hn)
    obtain rfl := Except.ok.inj (h8.symm.trans hz)
    obtain rfl := Except.ok.inj (h9.symm.trans hw)
    obtain rfl := Except.ok.inj (hv.symm.trans hm)
    exact ⟨hlt, hdata, hbyte⟩
  · rintro ⟨hlt, hdata, hbyte⟩
    exact ⟨hlisting.isList_eq, hlisting.itemCount_eq, ⟨_, _, h7, hread, hlt⟩, ⟨_, h8, hdata⟩,
      _, _, h9, hv, hbyte⟩

theorem length_wireFields_le (hx : Item x) (hfits : h.Fits x v) :
    h.wireFields.flatten.length ≤ (h.wireItems x v).flatten.length := by
  have hle := length_encodeBytes_le hx hfits.extra
  have hbyte : (encodeInt h.signature.v.toNat).length ≤ (encodeInt v).length := by
    rw [toNat_v hfits]
    exact length_encodeInt_mod v
  by_cases hts : h.timestamp.toUInt64.toNat < 2 ^ 63
  · simp only [wireFields, wireItems, toInt_of_nonneg hts, List.flatten_cons, List.length_append]
    omega
  · have hone := length_encodeInt_neg (toInt_of_neg hts)
    have height := eight_lt_length_encodeInt (not_lt.mp hts)
    simp only [wireFields, wireItems, List.flatten_cons, List.length_append]
    omega

theorem item_wireFields (hextra : h.extra.length < maxLength)
    (hts : h.timestamp.toUInt64.toNat < 2 ^ 63) : ∀ y ∈ h.wireFields, Item y := by
  have h32 : 32 < maxLength := by decide
  have hbits (z : BitVec 256) : Item (encodeInt z.toNat) := by
    refine item_encodeInt ((bytesRequired_le ?_).trans_lt h32)
    simpa using z.isLt
  have hword (z : UInt64) : Item (encodeInt z.toNat) :=
    item_encodeInt ((bytesRequired_uint64 z).trans_lt (by decide))
  have hv : Item (encodeInt h.signature.v.toNat) := by
    refine item_encodeInt ((bytesRequired_le (w := 1) ?_).trans_lt (by decide))
    simpa using h.signature.v.toNat_lt
  simp only [wireFields, toInt_of_nonneg hts, List.mem_cons, List.not_mem_nil, or_false,
    forall_eq_or_imp, forall_eq]
  exact ⟨hword _, item_encodeHash (by decide) _, item_encodeHash h32 _, item_encodeHash h32 _,
    item_encodeHash h32 _, item_encodeHash h32 _, hword _, hword _, item_encodeBytes hextra, hv,
    hbits _, hbits _⟩

/-- The header that is left alone is not written as the bytes that were passed over. -/
theorem not_skipped_default {d : Bytes} (hskipped : Skipped d) :
    getRLPData {} ≠ d ∧ ¬ Canonical d := by
  have hlisting : Listing (getRLPData {}) (wireFields {}) :=
    ⟨getRLPData_eq {}, by decide +kernel, item_wireFields (by decide) (by decide)⟩
  obtain ⟨-, hlist | ⟨items, hitems, hlen⟩⟩ := hskipped
  · refine ⟨?_, fun hcanonical ↦ ?_⟩
    · rintro rfl
      rw [hlisting.isList_eq] at hlist
      contradiction
    · rw [hcanonical.isList] at hlist
      contradiction
  · refine ⟨?_, fun hcanonical ↦ ?_⟩
    · rintro rfl
      exact hlen (Except.ok.inj (hitems.itemCount_eq.symm.trans hlisting.itemCount_eq))
    · exact hlen (Except.ok.inj (hitems.itemCount_eq.symm.trans hcanonical.itemCount))

theorem getRLPData_eq_iff {d : Bytes} (hok : populate {} d = .ok h) :
    h.getRLPData = d ↔ Canonical d := by
  rcases populate_eq_ok.mp hok with ⟨x, v, hfits, hlisting⟩ | ⟨rfl, hskipped⟩
  · have hx : Item x := hlisting.items x (by simp [wireItems])
    rw [canonical_listing hfits hlisting, ← flatten_eq_iff hx hfits, getRLPData_eq]
    constructor
    · intro heq
      rw [hlisting.eq] at heq
      exact flatten_eq_of_encodeList heq
    · intro hflat
      rw [hlisting.eq, ← encodeList_flatten, hflat, encodeList_flatten]
  · obtain ⟨hne, hnot⟩ := not_skipped_default hskipped
    exact ⟨fun heq ↦ absurd heq hne, fun hcanonical ↦ absurd hcanonical hnot⟩

theorem item_getRLPData {d : Bytes} (hok : populate {} d = .ok h) : Item h.getRLPData := by
  rw [getRLPData_eq, ← encodeList_flatten]
  refine .list _ ?_
  rcases populate_eq_ok.mp hok with ⟨x, v, hfits, hlisting⟩ | ⟨rfl, -⟩
  · have hx : Item x := hlisting.items x (by simp [wireItems])
    exact (length_wireFields_le hx hfits).trans_lt hlisting.length_lt
  · decide +kernel

end BlockHeader

theorem TransactionReceipt.getRLPData_code (code : UInt32) :
    (receiptCode code).getRLPData = encodeList [encodeInt code.toNat] := by
  have h := RLPStream.appendList_items {} [encodeInt code.toNat]
  simp only [List.foldl_cons, List.foldl_nil, List.length_singleton] at h
  rw [getRLPData, streamRLP, RLPStream.appendInt_eq, h, RLPStream.out_appendRaw]

theorem TransactionReceipt.getRLPData_eq_self {d : Bytes} {t : TransactionReceipt}
    (h : ofRLP d = .ok t) : t.getRLPData = d := by
  obtain ⟨code, rfl, -, hlisting⟩ := ofRLP_eq_ok.mp h
  rw [getRLPData_code, hlisting.eq]

namespace FullBlock

section Each

variable {α : Type} {read : Bytes → Except Exception α} {write : α → Bytes} {d : Bytes} {l : List α}

theorem streamEach_eq (write : α → Bytes) (l : List α) :
    streamEach write l = encodeList (l.map write) := by
  have h := RLPStream.appendList_items {} (l.map write)
  rw [List.foldl_map, List.length_map] at h
  rw [streamEach, h, RLPStream.out_appendRaw]

theorem forall₂_length_le (hlen : ∀ x a, read x = .ok a → (write a).length ≤ x.length)
    {items : List Bytes} (h : List.Forall₂ (fun x a ↦ read x = .ok a) items l) :
    List.Forall₂ (fun x y ↦ x.length ≤ y.length) (l.map write) items := by
  induction h with
  | nil => exact .nil
  | cons hx _ ih => exact .cons (hlen _ _ hx) ih

theorem map_eq_iff {P : Bytes → Prop} (hiff : ∀ x a, read x = .ok a → (write a = x ↔ P x))
    {items : List Bytes} (h : List.Forall₂ (fun x a ↦ read x = .ok a) items l) :
    l.map write = items ↔ ∀ x ∈ items, P x := by
  induction h with
  | nil => simp
  | @cons x a items l hx _ ih =>
    rw [List.map_cons, List.cons.injEq, ih, hiff x a hx]
    simp

/-- An item is written as it was read if it is a list, and so is each of its elements. -/
theorem streamEach_eq_iff {P : Bytes → Prop}
    (hlen : ∀ x a, read x = .ok a → (write a).length ≤ x.length)
    (hiff : ∀ x a, read x = .ok a → (write a = x ↔ P x)) (h : parseEach read d = .ok l) :
    streamEach write l = d ↔
      isList d = true ∧ ∀ items, itemsOf d = .ok items → ∀ x ∈ items, P x := by
  rw [streamEach_eq]
  rcases parseEach_eq_ok.mp h with ⟨items, hlisting, hforall⟩ | ⟨rfl, -, hlist⟩
  · have hitemsOf : itemsOf d = .ok items := by
      rw [hlisting.eq]
      exact itemsOf_encodeList hlisting.delimited hlisting.length_lt
    have hmap := map_eq_iff hiff hforall
    constructor
    · intro heq
      rw [hlisting.eq] at heq
      have hall := eq_of_flatten_eq (forall₂_length_le hlen hforall) (flatten_eq_of_encodeList heq)
      refine ⟨hlisting.isList_eq, fun items' hitems' ↦ ?_⟩
      obtain rfl := Except.ok.inj (hitemsOf.symm.trans hitems')
      exact hmap.mp hall
    · rintro ⟨-, hall⟩
      rw [hmap.mpr (hall items hitemsOf), hlisting.eq]
  · constructor
    · intro heq
      rw [← heq] at hlist
      contradiction
    · rintro ⟨hlist', -⟩
      rw [hlist] at hlist'
      contradiction

theorem length_streamEach_le (hne : d ≠ [])
    (hlen : ∀ x a, read x = .ok a → (write a).length ≤ x.length) (h : parseEach read d = .ok l) :
    (streamEach write l).length ≤ d.length := by
  rw [streamEach_eq]
  rcases parseEach_eq_ok.mp h with ⟨items, hlisting, hforall⟩ | ⟨rfl, -, -⟩
  · rw [hlisting.eq]
    exact length_encodeList_mono (length_flatten_le (forall₂_length_le hlen hforall))
  · exact List.length_pos_iff.mpr hne

end Each

theorem getRLPData_eq (b : FullBlock) : b.getRLPData =
    encodeList [b.blockHeader.getRLPData, streamEach Transaction.getRLPData b.transactions,
      streamEach TransactionReceipt.getRLPData b.transactionReceipts] := by
  have h := RLPStream.appendList_items {} [b.blockHeader.getRLPData,
    streamEach Transaction.getRLPData b.transactions,
    streamEach TransactionReceipt.getRLPData b.transactionReceipts]
  simp only [List.foldl_cons, List.foldl_nil, List.length_cons, List.length_nil] at h
  rw [getRLPData, streamRLP, h, RLPStream.out_appendRaw]

/-- The header, the transactions and the receipts are all there, and the header and every
transaction are canonical. -/
structure Canonical (d : Bytes) : Prop where
  header : ∃ x, item d 0 = .ok x ∧ BlockHeader.Canonical x
  transactions : ∃ x, item d 1 = .ok x ∧ isList x = true ∧
    ∀ items, itemsOf x = .ok items → ∀ y ∈ items, Transaction.Canonical y
  receipts : ∃ x, item d 2 = .ok x ∧ isList x = true

theorem getRLPData_eq_iff {d : Bytes} {b : FullBlock} (h : ofRLP d = .ok b) :
    b.getRLPData = d ↔ Canonical d := by
  obtain ⟨-, x0, x1, x2, hlisting, hheader, htxs, hreceipts⟩ := ofRLP_eq_ok.mp h
  have h0 : item d 0 = .ok x0 := hlisting.item_eq (show 0 < 3 by decide)
  have h1 : item d 1 = .ok x1 := hlisting.item_eq (show 1 < 3 by decide)
  have h2 : item d 2 = .ok x2 := hlisting.item_eq (show 2 < 3 by decide)
  have hitem := hlisting.items
  simp only [List.mem_cons, List.not_mem_nil, or_false, forall_eq_or_imp, forall_eq] at hitem
  obtain ⟨i0, i1, i2⟩ := hitem
  have hheader_iff := BlockHeader.getRLPData_eq_iff hheader
  have htxs_iff := streamEach_eq_iff (fun _ _ ↦ Transaction.length_getRLPData_le)
    (fun _ _ ↦ Transaction.getRLPData_eq_iff) htxs
  have hreceipts_len : ∀ x a, TransactionReceipt.ofRLP x = .ok a →
      a.getRLPData.length ≤ x.length :=
    fun x a hx ↦ (congrArg List.length (TransactionReceipt.getRLPData_eq_self hx)).le
  have hreceipts_iff := streamEach_eq_iff (P := fun _ ↦ True) hreceipts_len
    (fun x a hx ↦ iff_of_true (TransactionReceipt.getRLPData_eq_self hx) trivial) hreceipts
  constructor
  · intro heq
    rw [getRLPData_eq, hlisting.eq] at heq
    have hflat := flatten_eq_of_encodeList heq
    obtain ⟨hfirst, hrest⟩ :=
      peel (BlockHeader.item_getRLPData hheader).delimited i0.delimited hflat
    have hle1 := length_streamEach_le i1.delimited.ne_nil
      (fun _ _ ↦ Transaction.length_getRLPData_le) htxs
    have hle2 := length_streamEach_le i2.delimited.ne_nil hreceipts_len hreceipts
    have hparts := eq_of_flatten_eq (.cons hle1 (.cons hle2 .nil)) hrest
    simp only [List.cons.injEq, and_true] at hparts
    exact ⟨⟨x0, h0, hheader_iff.mp hfirst⟩, ⟨x1, h1, htxs_iff.mp hparts.1⟩,
      x2, h2, (hreceipts_iff.mp hparts.2).1⟩
  · rintro ⟨⟨y0, hy0, hcanonical⟩, ⟨y1, hy1, hlist⟩, y2, hy2, hlist2⟩
    obtain rfl := Except.ok.inj (h0.symm.trans hy0)
    obtain rfl := Except.ok.inj (h1.symm.trans hy1)
    obtain rfl := Except.ok.inj (h2.symm.trans hy2)
    rw [getRLPData_eq, hlisting.eq, hheader_iff.mpr hcanonical, htxs_iff.mpr hlist,
      hreceipts_iff.mpr ⟨hlist2, fun _ _ _ _ ↦ trivial⟩]

end FullBlock

/-- Bytes from which a transaction or a block is constructed are what it is written as, exactly if
none of the lenient readers had anything to forgive. -/
theorem accepted_canonical_iff (d : Bytes) :
    (∀ t, Transaction.ofRLP d = .ok t → (t.getRLPData = d ↔ Transaction.Canonical d)) ∧
      ∀ b, FullBlock.ofRLP d = .ok b → (b.getRLPData = d ↔ FullBlock.Canonical d) :=
  ⟨fun _ h ↦ Transaction.getRLPData_eq_iff h, fun _ h ↦ FullBlock.getRLPData_eq_iff h⟩

section Leniency

def listedData : Bytes := encodeList (emptyTransaction.wireItems (encodeList []))

def plainSignature : SignatureStruct := { r := 300, s := 7, v := 27 }

def plainTransaction : Transaction where
  chainID := 5
  type := 1
  sender := 2
  recipient := 3
  timestamp := 1538352000000
  data := [0x80, 1, 0]
  value := 100
  signature := plainSignature

def plainBlock : FullBlock where
  blockHeader :=
    { chainID := 5, producer := 1, parentHash := 9, mklRoot := 8, transactionsRoot := 7,
      receiptRoot := 6, number := 4, timestamp := 1538352000000, extra := [1, 2],
      signature := plainSignature }
  transactions := [plainTransaction, { plainTransaction with value := 200 }]
  transactionReceipts := [.receiptCode 0x12345678]

theorem accepted_canonical_iff_plain :
    Transaction.ofRLP plainTransaction.getRLPData = .ok plainTransaction ∧
      Transaction.Canonical plainTransaction.getRLPData ∧
      FullBlock.ofRLP plainBlock.getRLPData = .ok plainBlock ∧
      FullBlock.Canonical plainBlock.getRLPData := by
  have htx : Transaction.ofRLP plainTransaction.getRLPData = .ok plainTransaction := by
    decide +kernel
  have hblock : FullBlock.ofRLP plainBlock.getRLPData = .ok plainBlock := by
    decide +kernel
  exact ⟨htx, ((accepted_canonical_iff _).1 _ htx).mp rfl, hblock,
    ((accepted_canonical_iff _).2 _ hblock).mp rfl⟩

/-- Two byte strings for one transaction. -/
theorem list_read_as_empty_data :
    Transaction.ofRLP listedData = .ok emptyTransaction ∧
      Transaction.ofRLP emptyTransaction.getRLPData = .ok emptyTransaction ∧
      emptyTransaction.getRLPData ≠ listedData := by
  decide +kernel

end Leniency

end GseNetwork.Core
