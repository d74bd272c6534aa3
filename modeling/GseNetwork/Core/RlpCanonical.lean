import GseNetwork.Core.BlockCodec

namespace GseNetwork.Core.RLP

open Foundation.BigEndian Foundation.SelfDelimiting

inductive Item : Bytes → Prop
  | data (p : Bytes) (h : p.length < maxLength) : Item (encodeBytes p)
  | list (p : Bytes) (h : p.length < maxLength) : Item (encodeList [p])

theorem Item.framed {x : Bytes} (h : Item x) : ∃ p offset, Framed x p offset := by
  cases h with
  | data p hp => exact ⟨p, framed_encodeBytes hp⟩
  | list p hp =>
    have hlen : [p].flatten.length < maxLength := by simpa using hp
    obtain ⟨offset, hframe⟩ := framed_encodeList hlen
    exact ⟨_, offset, hframe⟩

theorem Item.delimited {x : Bytes} (h : Item x) : Delimited sizeAsEncoded x := by
  obtain ⟨_, _, hframe⟩ := h.framed
  exact hframe.delimited

section Heads

variable {x : UInt8} {t : Bytes} {n l : ℕ}

theorem actualSize_cons (hx : ¬ x < rlpDataImmLenStart) (h : actualSize (x :: t) = .ok n) :
    ∃ l, length (x :: t) = .ok l ∧ n = payloadOffset (x :: t) + l := by
  have hsingle : isSingleByte (x :: t) = false := by simp [isSingleByte, isNull, byteAt, hx]
  unfold actualSize at h
  rw [hsingle] at h
  cases hl : length (x :: t) with
  | error e =>
    rw [hl] at h
    contradiction
  | ok l =>
    rw [hl] at h
    exact ⟨l, rfl, (Except.ok.inj h).symm⟩

theorem requireGood_of_length (h : length (x :: t) = .ok l) : requireGood (x :: t) = .ok () := by
  unfold length at h
  cases hgood : requireGood (x :: t) with
  | error e =>
    rw [hgood] at h
    contradiction
  | ok u => rfl

theorem indirectLength_ok {size minimum : ℕ} (hsize : size ≠ 0)
    (h : indirectLength (x :: t) size minimum = .ok l) :
    ∃ c r, t = c ++ r ∧ c.length = size ∧ bytesRequired l = size ∧ toBigEndian size l = c ∧
      minimum ≤ l ∧ l < maxLength := by
  unfold indirectLength at h
  by_cases hshort : (x :: t).length ≤ size
  · rw [if_pos hshort] at h
    contradiction
  by_cases hzero : byteAt (x :: t) 1 = 0
  · rw [if_neg hshort, if_pos hzero] at h
    contradiction
  by_cases hmin : fromBigEndian (t.take size) < minimum
  · simp only [if_neg hshort, if_neg hzero, List.drop_succ_cons, List.drop_zero, if_pos hmin] at h
    contradiction
  by_cases hmax : 2 ^ 64 - 1 - 0x100 ≤ fromBigEndian (t.take size)
  · simp only [if_neg hshort, if_neg hzero, List.drop_succ_cons, List.drop_zero, if_neg hmin,
      if_pos hmax] at h
    contradiction
  simp only [if_neg hshort, if_neg hzero, List.drop_succ_cons, List.drop_zero, if_neg hmin,
    if_neg hmax] at h
  obtain rfl := Except.ok.inj h
  have hlen : size ≤ t.length := by
    simp only [List.length_cons] at hshort
    omega
  have htake : (t.take size).length = size := List.length_take_of_le hlen
  obtain ⟨y, c, hc⟩ : ∃ y c, t.take size = y :: c := by
    refine List.exists_cons_of_length_pos ?_
    omega
  have hy : y ≠ 0 := by
    intro hy0
    have hhead : (t.take size).getD 0 0 = 0 := by rw [hc, hy0]; rfl
    apply hzero
    cases t with
    | nil => simp at hc
    | cons z t =>
      obtain ⟨k, rfl⟩ := Nat.exists_eq_succ_of_ne_zero hsize
      simpa [byteAt] using hhead
  refine ⟨t.take size, t.drop size, (List.take_append_drop size t).symm, htake, ?_, ?_,
    not_lt.mp hmin, not_le.mp hmax⟩
  · rw [hc, bytesRequired_fromBigEndian c hy, ← List.length_cons, ← hc, htake]
  · have hback := toBigEndian_fromBigEndian (t.take size)
    rwa [htake] at hback

end Heads

section Shape

variable {b : Bytes} {n l : ℕ}

theorem encodeBytes_of_ne_single {p : Bytes}
    (h : ¬ (p.length = 1 ∧ p.getD 0 0 < rlpDataImmLenStart)) :
    encodeBytes p = RLPStream.dataHead p.length ++ p := by
  unfold encodeBytes
  rw [if_neg h]

theorem encodeList_singleton (p : Bytes) : encodeList [p] = RLPStream.listHead p.length ++ p := by
  simp [encodeList]

theorem add_sub_toNat (x base : UInt8) : base + UInt8.ofNat (x - base).toNat = x := by
  rw [UInt8.ofNat_toNat, UInt8.add_comm, UInt8.sub_add_cancel]

theorem item_shortData {x : UInt8} {t : Bytes} (hx : ¬ x < rlpDataImmLenStart)
    (hhigh : x ≤ rlpDataIndLenZero) (hgood : requireGood (x :: t) = .ok ())
    (hl : l = (x - rlpDataImmLenStart).toNat) (hle : l ≤ t.length) : Item (x :: t.take l) := by
  have hlow : rlpDataImmLenStart ≤ x := UInt8.not_lt.mp hx
  have hp : (t.take l).length = l := List.length_take_of_le hle
  have hcount : l < rlpDataImmLenCount := by
    rw [hl, UInt8.toNat_sub_of_le _ _ hlow]
    have hnat : x.toNat ≤ 183 := hhigh
    have hstart : rlpDataImmLenStart.toNat = 128 := rfl
    simp only [rlpDataImmLenCount]
    omega
  have hsingle : ¬ ((t.take l).length = 1 ∧ (t.take l).getD 0 0 < rlpDataImmLenStart) := by
    rintro ⟨hone, hbyte⟩
    rw [hp] at hone
    subst hone
    have hxeq : x = rlpDataImmLenStart + 1 := by
      rw [← add_sub_toNat x rlpDataImmLenStart, ← hl]
      rfl
    cases t with
    | nil => simp at hle
    | cons y t =>
      have hy : y < rlpDataImmLenStart := by simpa using hbyte
      simp [requireGood, isNull, byteAt, hxeq, hy] at hgood
  have heq : encodeBytes (t.take l) = x :: t.take l := by
    rw [encodeBytes_of_ne_single hsingle, hp, RLPStream.dataHead, if_pos hcount, hl,
      add_sub_toNat]
    rfl
  rw [← heq]
  refine .data _ ?_
  rw [hp]
  exact hcount.trans (by decide)

theorem item_shortList {x : UInt8} {t : Bytes} (hlow : rlpListStart ≤ x)
    (hhigh : x ≤ rlpListIndLenZero) (hl : l = (x - rlpListStart).toNat) (hle : l ≤ t.length) :
    Item (x :: t.take l) := by
  have hp : (t.take l).length = l := List.length_take_of_le hle
  have hcount : l < rlpListImmLenCount := by
    rw [hl, UInt8.toNat_sub_of_le _ _ hlow]
    have hnat : x.toNat ≤ 247 := hhigh
    have hstart : rlpListStart.toNat = 192 := rfl
    simp only [rlpListImmLenCount]
    omega
  have heq : encodeList [t.take l] = x :: t.take l := by
    rw [encodeList_singleton, hp, RLPStream.listHead, if_pos hcount, hl, add_sub_toNat]
    rfl
  rw [← heq]
  refine .list _ ?_
  rw [hp]
  exact hcount.trans (by decide)

theorem pushCount_eq {x base : UInt8} {c : Bytes}
    (hrequired : bytesRequired l = (x - base).toNat)
    (hc : toBigEndian (x - base).toNat l = c) : RLPStream.pushCount l base = x :: c := by
  rw [RLPStream.pushCount, hrequired, hc, add_sub_toNat]

theorem item_longData {x : UInt8} {c p : Bytes}
    (hrequired : bytesRequired p.length = (x - rlpDataIndLenZero).toNat)
    (hc : toBigEndian (x - rlpDataIndLenZero).toNat p.length = c)
    (hmin : rlpDataImmLenCount ≤ p.length) (hmax : p.length < maxLength) :
    Item (x :: c ++ p) := by
  have hmin' : 56 ≤ p.length := hmin
  have heq : encodeBytes p = x :: c ++ p := by
    rw [encodeBytes_of_ne_single (by omega), RLPStream.dataHead, if_neg (not_lt.mpr hmin),
      pushCount_eq hrequired hc]
  rw [← heq]
  exact .data p hmax

theorem item_longList {x : UInt8} {c p : Bytes}
    (hrequired : bytesRequired p.length = (x - rlpListIndLenZero).toNat)
    (hc : toBigEndian (x - rlpListIndLenZero).toNat p.length = c)
    (hmin : rlpListImmLenCount ≤ p.length) (hmax : p.length < maxLength) :
    Item (x :: c ++ p) := by
  have heq : encodeList [p] = x :: c ++ p := by
    rw [encodeList_singleton, RLPStream.listHead, if_neg (not_lt.mpr hmin),
      pushCount_eq hrequired hc]
  rw [← heq]
  exact .list p hmax

theorem payloadOffset_cons {x : UInt8} {t : Bytes} (hx : ¬ x < rlpDataImmLenStart) :
    payloadOffset (x :: t) = 1 + lengthSize (x :: t) := by
  simp [payloadOffset, isSingleByte, isNull, byteAt, hx]

theorem take_long {x : UInt8} {c r : Bytes} {size : ℕ} (hc : c.length = size)
    (hle : 1 + size + l ≤ (x :: (c ++ r)).length) :
    (x :: (c ++ r)).take (1 + size + l) = x :: c ++ r.take l ∧ (r.take l).length = l := by
  have hr : l ≤ r.length := by
    simp only [List.length_cons, List.length_append] at hle
    omega
  refine ⟨?_, List.length_take_of_le hr⟩
  have hsum : 1 + size + l = (c.length + l) + 1 := by omega
  rw [hsum, List.take_succ_cons, List.take_append, List.take_of_length_le (by omega)]
  simp

/-- Whatever the reader takes as one item is one that the writer could have written. -/
theorem item_take (hne : b ≠ []) (hsize : actualSize b = .ok n) (hle : n ≤ b.length) :
    Item (b.take n) := by
  obtain ⟨x, t, rfl⟩ := List.exists_cons_of_ne_nil hne
  by_cases hx : x < rlpDataImmLenStart
  · have hone : n = 1 := by
      rw [(heads_singleByte t hx).actualSize_eq] at hsize
      exact (Except.ok.inj hsize).symm
    have heq : encodeBytes [x] = [x] := by simp [encodeBytes, hx]
    rw [hone, List.take_succ_cons, List.take_zero, ← heq]
    exact .data [x] (show 1 < maxLength by decide)
  obtain ⟨l, hl, rfl⟩ := actualSize_cons hx hsize
  have hgood := requireGood_of_length hl
  have hnull : isNull (x :: t) = false := rfl
  have hbyte : byteAt (x :: t) 0 = x := rfl
  rw [payloadOffset_cons hx] at hle ⊢
  simp only [length, hnull, hgood, hbyte, if_neg hx, Bool.false_eq_true, if_false, ok_bind] at hl
  by_cases hshort : x ≤ rlpDataIndLenZero
  · have hls : lengthSize (x :: t) = 0 := by
      have hdata : ¬ rlpDataIndLenZero < x := UInt8.not_lt.mpr hshort
      have hlist : ¬ rlpListIndLenZero < x :=
        UInt8.not_lt.mpr (UInt8.le_trans hshort (by decide))
      simp [lengthSize, hbyte, hdata, hlist]
    rw [if_pos hshort] at hl
    rw [hls] at hle ⊢
    simp only [List.length_cons] at hle
    have htake : (x :: t).take (1 + 0 + l) = x :: t.take l := by
      rw [show 1 + 0 + l = l + 1 by omega, List.take_succ_cons]
    rw [htake]
    exact item_shortData hx hshort hgood (Except.ok.inj hl).symm (by omega)
  rw [if_neg hshort] at hl
  rw [UInt8.not_le] at hshort
  by_cases hdata : x < rlpListStart
  · have hls : lengthSize (x :: t) = (x - rlpDataIndLenZero).toNat := by
      simp [lengthSize, hbyte, hshort, isData, hnull, hdata]
    rw [if_pos hdata] at hl
    have hpos : (x - rlpDataIndLenZero).toNat ≠ 0 := by
      rw [UInt8.toNat_sub_of_le _ _ (UInt8.le_of_lt hshort)]
      have hlt : rlpDataIndLenZero.toNat < x.toNat := hshort
      omega
    obtain ⟨c, r, rfl, hc, hrequired, hbig, hmin, hmax⟩ := indirectLength_ok hpos hl
    rw [hls] at hle ⊢
    obtain ⟨htake, hlen⟩ := take_long hc hle
    rw [htake]
    rw [← hlen] at hrequired hbig hmin hmax
    exact item_longData hrequired hbig hmin hmax
  rw [if_neg hdata] at hl
  rw [UInt8.not_lt] at hdata
  have hnot : isData (x :: t) = false := by
    simp [isData, hnull, hbyte, UInt8.not_lt.mpr hdata]
  by_cases hlist : x ≤ rlpListIndLenZero
  · have hls : lengthSize (x :: t) = 0 := by
      simp [lengthSize, hbyte, hnot, UInt8.not_lt.mpr hlist]
    rw [if_pos hlist] at hl
    rw [hls] at hle ⊢
    simp only [List.length_cons] at hle
    have htake : (x :: t).take (1 + 0 + l) = x :: t.take l := by
      rw [show 1 + 0 + l = l + 1 by omega, List.take_succ_cons]
    rw [htake]
    exact item_shortList hdata hlist (Except.ok.inj hl).symm (by omega)
  rw [if_neg hlist] at hl
  rw [UInt8.not_le] at hlist
  have hls : lengthSize (x :: t) = (x - rlpListIndLenZero).toNat := by
    simp [lengthSize, hbyte, hnot, hlist, isList, hnull, hdata]
  have hpos : (x - rlpListIndLenZero).toNat ≠ 0 := by
    rw [UInt8.toNat_sub_of_le _ _ (UInt8.le_of_lt hlist)]
    have hlt : rlpListIndLenZero.toNat < x.toNat := hlist
    omega
  obtain ⟨c, r, rfl, hc, hrequired, hbig, hmin, hmax⟩ := indirectLength_ok hpos hl
  rw [hls] at hle ⊢
  obtain ⟨htake, hlen⟩ := take_long hc hle
  rw [htake]
  rw [← hlen] at hrequired hbig hmin hmax
  exact item_longList hrequired hbig hmin hmax

theorem actualSize_of_ofPrefix {d : Bytes} (h : ofPrefix b = .ok d) :
    d = b ∧ ∃ n, actualSize b = .ok n ∧ n ≤ b.length := by
  refine ⟨eq_of_ofPrefix h, ?_⟩
  unfold ofPrefix at h
  cases hsize : actualSize b with
  | error e =>
    rw [hsize] at h
    contradiction
  | ok n =>
    refine ⟨n, rfl, not_lt.mp fun hlt ↦ ?_⟩
    rw [hsize, ok_bind, if_pos hlt] at h
    contradiction

theorem item_of_sizeAsEncoded (hne : b ≠ []) (h : sizeAsEncoded b = .ok n) :
    n ≤ b.length ∧ Item (b.take n) := by
  unfold sizeAsEncoded at h
  cases hd : ofPrefix b with
  | error e =>
    rw [hd] at h
    contradiction
  | ok d =>
    obtain ⟨rfl, m, hsize, hle⟩ := actualSize_of_ofPrefix hd
    rw [hd, ok_bind, hsize] at h
    obtain rfl := Except.ok.inj h
    exact ⟨hle, item_take hne hsize hle⟩

theorem item_of_ofBytes {d : Bytes} (hne : b ≠ []) (h : ofBytes b = .ok d) : d = b ∧ Item b := by
  unfold ofBytes at h
  cases hsize : actualSize b with
  | error e =>
    rw [hsize] at h
    contradiction
  | ok n =>
    by_cases hlt : n < b.length
    · rw [hsize, ok_bind, if_pos hlt] at h
      contradiction
    rw [hsize, ok_bind, if_neg hlt] at h
    obtain ⟨rfl, m, hsize', hle⟩ := actualSize_of_ofPrefix h
    rw [hsize] at hsize'
    obtain rfl := Except.ok.inj hsize'
    have hitem := item_take hne hsize hle
    rw [List.take_of_length_le (not_lt.mp hlt)] at hitem
    exact ⟨rfl, hitem⟩

theorem items_of_split {fuel : ℕ} {items : List Bytes} (hfuel : b.length ≤ fuel)
    (h : split sizeAsEncoded fuel b = .ok items) :
    items.flatten = b ∧ ∀ x ∈ items, Item x := by
  induction fuel generalizing b items with
  | zero =>
    obtain rfl := List.length_eq_zero_iff.mp (Nat.le_zero.mp hfuel)
    obtain rfl := Except.ok.inj h
    exact ⟨rfl, fun x hx ↦ absurd hx List.not_mem_nil⟩
  | succ fuel ih =>
    unfold split at h
    by_cases hempty : b.isEmpty = true
    · rw [if_pos hempty] at h
      obtain rfl := Except.ok.inj h
      exact ⟨(List.isEmpty_iff.mp hempty).symm, fun x hx ↦ absurd hx List.not_mem_nil⟩
    rw [if_neg hempty] at h
    have hne : b ≠ [] := fun hnil ↦ hempty (List.isEmpty_iff.mpr hnil)
    cases hsize : sizeAsEncoded b with
    | error e =>
      rw [hsize] at h
      contradiction
    | ok n =>
      obtain ⟨hle, hitem⟩ := item_of_sizeAsEncoded hne hsize
      have hpos : 0 < (b.take n).length := hitem.delimited.length_pos
      have hdrop : (b.drop n).length ≤ fuel := by
        rw [List.length_take] at hpos
        rw [List.length_drop]
        omega
      cases hrest : split sizeAsEncoded fuel (b.drop n) with
      | error e =>
        rw [hsize] at h
        simp only [hrest] at h
        contradiction
      | ok rest =>
        rw [hsize] at h
        simp only [hrest] at h
        obtain rfl := Except.ok.inj h
        obtain ⟨hflat, hall⟩ := ih hdrop hrest
        refine ⟨by rw [List.flatten_cons, hflat, List.take_append_drop], fun x hx ↦ ?_⟩
        rcases List.mem_cons.mp hx with rfl | hx
        · exact hitem
        · exact hall x hx

end Shape

section Lists

variable {d e x : Bytes} {items : List Bytes}

theorem encodeList_flatten (items : List Bytes) :
    encodeList [items.flatten] = encodeList items := by
  simp [encodeList]

/-- A list that is read without complaint is what the writer writes for its items. -/
theorem list_of_itemsOf (h : ofBytes d = .ok e) (hlist : isList d = true)
    (hitems : itemsOf d = .ok items) :
    d = encodeList items ∧ items.flatten.length < maxLength ∧ ∀ x ∈ items, Item x := by
  have hne : d ≠ [] := by
    rintro rfl
    contradiction
  obtain ⟨-, hitem⟩ := item_of_ofBytes hne h
  cases hitem with
  | data p hp =>
    rw [isList_encodeBytes hp] at hlist
    contradiction
  | list p hp =>
    have hlen : [p].flatten.length < maxLength := by simpa using hp
    obtain ⟨offset, hframe⟩ := framed_encodeList hlen
    unfold itemsOf at hitems
    rw [hframe.payload_eq, ok_bind, List.flatten_singleton] at hitems
    obtain ⟨hflat, hall⟩ := items_of_split le_rfl hitems
    rw [← hflat] at hp ⊢
    exact ⟨encodeList_flatten items, hp, hall⟩

end Lists

section Fields

variable {x : Bytes} {w n size : ℕ}

theorem isInt_leadingZero {y : UInt8} {t : Bytes} (hgood : requireGood (y :: 0 :: t) = .ok ())
    (hlow : rlpDataImmLenStart < y) (hind : y ≤ rlpDataIndLenZero) :
    isInt (y :: 0 :: t) = .ok false := by
  have hlow' : ¬ y < rlpDataImmLenStart := UInt8.not_lt.mpr (UInt8.le_of_lt hlow)
  have hne : y ≠ rlpDataImmLenStart := (UInt8.ne_of_lt hlow).symm
  simp [isInt, isNull, hgood, byteAt, hlow', hne, hind]

theorem isInt_encodeBytes {y : UInt8} {q : Bytes} (hlen : (y :: q).length < rlpDataImmLenCount)
    (h : isInt (encodeBytes (y :: q)) = .ok true) : y ≠ 0 := by
  rintro rfl
  have hmax : ((0 : UInt8) :: q).length < maxLength := hlen.trans (by decide)
  obtain ⟨offset, hframe⟩ := framed_encodeBytes hmax
  have hgood := hframe.requireGood_eq
  cases q with
  | nil => simp [encodeBytes, isInt, requireGood, isNull, byteAt, rlpDataImmLenStart] at h
  | cons z q =>
    obtain ⟨n, hn⟩ : ∃ n, n = ((0 : UInt8) :: z :: q).length := ⟨_, rfl⟩
    have htwo : 2 ≤ n := by simp [hn]
    have heq : encodeBytes (0 :: z :: q) = (rlpDataImmLenStart + UInt8.ofNat n) :: 0 :: z :: q := by
      rw [encodeBytes_of_ne_single (by omega), RLPStream.dataHead, if_pos hlen, hn]
      rfl
    rw [← hn] at hlen
    have h56 : n < 56 := hlen
    have hhead : (rlpDataImmLenStart + UInt8.ofNat n).toNat = 128 + n :=
      toNat_head rlpDataImmLenStart (by have : rlpDataImmLenStart.toNat = 128 := rfl; omega)
    have hlow : rlpDataImmLenStart < rlpDataImmLenStart + UInt8.ofNat n := by
      rw [UInt8.lt_iff_toNat_lt, hhead]
      have : rlpDataImmLenStart.toNat = 128 := rfl
      omega
    have hhigh : rlpDataImmLenStart + UInt8.ofNat n ≤ rlpDataIndLenZero := by
      rw [UInt8.le_iff_toNat_le, hhead]
      have : rlpDataIndLenZero.toNat = 183 := rfl
      omega
    rw [heq] at h hgood
    rw [isInt_leadingZero hgood hlow hhigh] at h
    contradiction

theorem int_of_payload {p : Bytes} {offset : ℕ} (hx : Item x) (hframe : Framed x p offset)
    (hlist : isList x = false) (hint : isInt x = .ok true) (hlen : p.length ≤ w)
    (hw : w < rlpDataImmLenCount) :
    x = encodeInt (fromBigEndian p) ∧ bytesRequired (fromBigEndian p) ≤ w := by
  cases hx with
  | list q hq =>
    rw [isList_encodeList (by simpa using hq)] at hlist
    contradiction
  | data q hq =>
    obtain ⟨_, hframe'⟩ := framed_encodeBytes hq
    have hpq : p = q := Except.ok.inj (hframe.payload_eq.symm.trans hframe'.payload_eq)
    subst hpq
    cases p with
    | nil => exact ⟨rfl, Nat.zero_le _⟩
    | cons y q =>
      have hy := isInt_encodeBytes (hlen.trans_lt hw) hint
      have hrequired := bytesRequired_fromBigEndian q hy
      have hback := toBigEndian_fromBigEndian (y :: q)
      rw [encodeInt_natCast, hrequired, ← List.length_cons, hback]
      exact ⟨rfl, hlen⟩

theorem toInt_ok (hx : Item x) (hw : w < rlpDataImmLenCount) (h : toInt w x = .ok n) :
    x = encodeInt n ∧ bytesRequired n ≤ w := by
  unfold toInt at h
  obtain ⟨p, offset, hframe⟩ := hx.framed
  rw [hframe.requireGood_eq, ok_bind, hframe.payload_eq] at h
  cases hint : isInt x with
  | error e =>
    rw [hint] at h
    contradiction
  | ok isint =>
    rw [hint, ok_bind, ok_bind] at h
    by_cases hcond : (!isint || isList x || isNull x) = true
    · rw [if_pos hcond] at h
      contradiction
    by_cases hlen : w < p.length
    · rw [if_neg hcond, if_pos hlen] at h
      contradiction
    rw [if_neg hcond, if_neg hlen] at h
    obtain rfl := Except.ok.inj h
    simp only [Bool.or_eq_true, Bool.not_eq_true', not_or, Bool.not_eq_false,
      Bool.not_eq_true] at hcond
    obtain ⟨⟨rfl, hnotlist⟩, -⟩ := hcond
    exact int_of_payload hx hframe hnotlist hint (not_lt.mp hlen) hw

theorem toHash_ok {v : BitVec (8 * size)} (hx : Item x) (h : toHash size x = .ok v) :
    x = encodeHash size v := by
  unfold toHash at h
  cases hx with
  | list q hq =>
    have hlen : [q].flatten.length < maxLength := by simpa using hq
    obtain ⟨_, hframe⟩ := framed_encodeList hlen
    have hdata : isData (encodeList [q]) = false := by
      have hlist := isList_encodeList hlen
      simp only [isList, Bool.and_eq_true, decide_eq_true_eq] at hlist
      simp [isData, UInt8.not_lt.mpr hlist.2]
    rw [hframe.requireGood_eq, ok_bind, hframe.payload_eq, ok_bind, hdata] at h
    contradiction
  | data q hq =>
    obtain ⟨_, hframe⟩ := framed_encodeBytes hq
    rw [hframe.requireGood_eq, ok_bind, hframe.payload_eq, ok_bind, isData_encodeBytes hq] at h
    by_cases hsize : q.length = size
    · simp only [hsize, ne_eq, not_true_eq_false, decide_false, Bool.not_true, Bool.or_self,
        Bool.false_eq_true, if_false] at h
      obtain rfl := Except.ok.inj h
      have hlt := fromBigEndian_lt q
      have hback := toBigEndian_fromBigEndian q
      rw [hsize] at hlt hback
      have hmod : (BitVec.ofNat (8 * size) (fromBigEndian q)).toNat = fromBigEndian q := by
        rw [BitVec.toNat_ofNat, Nat.mod_eq_of_lt]
        rwa [pow_mul]
      rw [encodeHash, hmod, hback]
    · simp only [hsize, ne_eq, not_false_eq_true, decide_true, Bool.or_true, if_true] at h
      contradiction

end Fields

end GseNetwork.Core.RLP
