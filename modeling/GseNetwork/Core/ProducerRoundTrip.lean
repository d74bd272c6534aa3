import GseNetwork.Core.ProducerCodec

namespace GseNetwork.Core

open Foundation Foundation.BigEndian Foundation.SelfDelimiting RLP
open Account (candidateItems)
open Std (ExtTreeMap)

namespace RLP

variable {d : Bytes} {items : List Bytes}

theorem walk_length (hitems : ∀ x ∈ items, Delimited sizeAsEncoded x) :
    walk items.length items.flatten = .ok [] := by
  induction items with
  | nil => rfl
  | cons x items ih =>
    have hx := hitems x (by simp)
    rw [List.length_cons, walk, List.flatten_cons, hx.size_append, ok_bind,
      if_neg hx.length_pos.ne', List.drop_left]
    exact ih fun y hy ↦ hitems y (by simp [hy])

theorem Listing.item_length (h : Listing d items) : RLP.item d items.length = .ok [] := by
  obtain ⟨_, hframe⟩ := framed_encodeList h.length_lt
  rw [h.eq, RLP.item, hframe.payload_eq, ok_bind, walk_length h.delimited]
  rfl

end RLP

theorem length_encodeList_strict {xs ys : List Bytes}
    (h : xs.flatten.length < ys.flatten.length) :
    (encodeList xs).length < (encodeList ys).length := by
  unfold encodeList
  rw [List.length_append, List.length_append]
  exact listHead_strict h

namespace Producer

section Voters

variable {d : Bytes} {items : List Bytes} {m m' : ExtTreeMap Address UInt64}

theorem eq_nil_of_candidateItems {l : List (Address × UInt64)} (h : candidateItems l = []) :
    l = [] := by
  cases l with
  | nil => rfl
  | cons c l => cases h

theorem readVoters_end (hnil : items = []) :
    (.ok m : Except Exception (ExtTreeMap Address UInt64)) = .ok m' ↔
      ∃ l, items = candidateItems l ∧ l.foldl (fun m c ↦ m.insert c.1 c.2) m = m' := by
  constructor
  · intro heq
    exact ⟨[], hnil, Except.ok.inj heq⟩
  · rintro ⟨l, hl, rfl⟩
    rw [eq_nil_of_candidateItems (hl.symm.trans hnil)]
    rfl

theorem toInt_nil (w : ℕ) : toInt w [] = .error ⟨.badRLP, ""⟩ := rfl

/-- The loop accepts pairs of an address and a number, and puts them into the map in turn. -/
theorem readVoters_eq_ok (h : Listing d items) {fuel i : ℕ} (hfuel : items.length ≤ i + fuel) :
    readVoters d fuel i m = .ok m' ↔ ∃ l, items.drop i = candidateItems l ∧
      l.foldl (fun m c ↦ m.insert c.1 c.2) m = m' := by
  induction fuel generalizing i m with
  | zero => exact readVoters_end (List.drop_of_length_le (by omega))
  | succ fuel ih =>
    rw [readVoters, h.itemCount_eq, ok_bind]
    by_cases hi : i < items.length
    · have hx : Item (items.getD i []) := by
        rw [List.getD_eq_getElem _ _ hi]
        exact h.items _ (List.getElem_mem hi)
      rw [if_pos hi, h.item_eq hi, ok_bind, bind_eq_ok]
      simp only [toHash_eq_ok (show 20 < maxLength by decide) hx]
      by_cases hi' : i + 1 < items.length
      · have hy : Item (items.getD (i + 1) []) := by
          rw [List.getD_eq_getElem _ _ hi']
          exact h.items _ (List.getElem_mem hi')
        have hdrop : items.drop i =
            items.getD i [] :: items.getD (i + 1) [] :: items.drop (i + 2) := by
          rw [List.drop_eq_getElem_cons hi, List.drop_eq_getElem_cons hi',
            List.getD_eq_getElem _ _ hi, List.getD_eq_getElem _ _ hi']
        rw [h.item_eq hi', hdrop]
        simp only [ok_bind, bind_eq_ok, toInt_eq_ok hy (show 8 < rlpDataImmLenCount by decide),
          ih (show items.length ≤ i + 2 + fuel by omega)]
        constructor
        · rintro ⟨a, ha, n, ⟨hn, hlt⟩, l, hl, hfold⟩
          refine ⟨(a, UInt64.ofNat n) :: l, ?_, hfold⟩
          rw [ha, hn, hl]
          simp [candidateItems, ofNat_uint64 hlt]
        · rintro ⟨l, hl, hfold⟩
          cases l with
          | nil => cases hl
          | cons c l =>
            obtain ⟨hc1, hc2, hrest⟩ : items.getD i [] = encodeHash 20 c.1 ∧
                items.getD (i + 1) [] = encodeInt c.2.toNat ∧
                items.drop (i + 2) = candidateItems l := by
              simpa [candidateItems] using hl
            refine ⟨c.1, hc1, c.2.toNat, ⟨hc2, ?_⟩, l, hrest, ?_⟩
            · simpa using c.2.toNat_lt
            · rw [UInt64.ofNat_toNat]
              exact hfold
      · have hlast : i + 1 = items.length := by omega
        rw [hlast, h.item_length, List.drop_eq_getElem_cons hi, hlast, List.drop_length]
        simp only [ok_bind, toInt_nil, error_bind]
        constructor
        · rintro ⟨a, -, hcontra⟩
          cases hcontra
        · rintro ⟨l, hl, -⟩
          cases l with
          | nil => cases hl
          | cons c l => simp [candidateItems] at hl
    · rw [if_neg hi]
      exact readVoters_end (List.drop_of_length_le (by omega))

theorem foldl_insert_subset (l : List (Address × UInt64)) (m : ExtTreeMap Address UInt64) :
    ∀ c ∈ (l.foldl (fun m c ↦ m.insert c.1 c.2) m).toList, c ∈ m.toList ∨ c ∈ l := by
  induction l generalizing m with
  | nil => exact fun c hc ↦ Or.inl hc
  | cons x l ih =>
    intro c hc
    rcases ih _ c hc with hc | hc
    · rw [ExtTreeMap.mem_toList_iff_getElem?_eq_some, ExtTreeMap.getElem?_insert] at hc
      split at hc
      · next heq =>
        right
        rw [Std.LawfulEqCmp.compare_eq_iff_eq] at heq
        have hval := Option.some.inj hc
        have : x = c := Prod.ext heq hval
        exact this ▸ List.mem_cons_self
      · exact Or.inl (ExtTreeMap.mem_toList_iff_getElem?_eq_some.mpr hc)
    · exact Or.inr (List.mem_cons_of_mem _ hc)

theorem nodup_toList (m : ExtTreeMap Address UInt64) : m.toList.Nodup := by
  have hkeys : (m.toList.map Prod.fst).Nodup := by
    rw [ExtTreeMap.map_fst_toList_eq_keys]
    exact ExtTreeMap.nodup_keys
  exact List.Nodup.of_map _ hkeys

/-- The map is not written in more bytes than the pairs it was read from. -/
theorem length_candidateItems_le (l : List (Address × UInt64)) :
    (candidateItems (l.foldl (fun m c ↦ m.insert c.1 c.2) (∅ : ExtTreeMap Address UInt64)).toList
      ).flatten.length ≤ (candidateItems l).flatten.length := by
  have hsize : ∀ l : List (Address × UInt64), (candidateItems l).flatten.length =
      (l.map fun c ↦ (encodeHash 20 c.1).length + (encodeInt c.2.toNat).length).sum := by
    intro l
    induction l with
    | nil => rfl
    | cons c l ih =>
      have hcons : candidateItems (c :: l) =
          encodeHash 20 c.1 :: encodeInt c.2.toNat :: candidateItems l := rfl
      rw [hcons, List.flatten_cons, List.flatten_cons, List.length_append, List.length_append, ih,
        List.map_cons, List.sum_cons, Nat.add_assoc]
  rw [hsize, hsize]
  have hsub : (l.foldl (fun m c ↦ m.insert c.1 c.2) (∅ : ExtTreeMap Address UInt64)).toList.Subperm
      l := by
    refine List.subperm_of_subset (nodup_toList _) fun c hc ↦ ?_
    rcases foldl_insert_subset l ∅ c hc with hc | hc
    · rw [ExtTreeMap.mem_toList_iff_getElem?_eq_some, ExtTreeMap.getElem?_empty] at hc
      cases hc
    · exact hc
  obtain ⟨l', hperm, hsublist⟩ := hsub
  rw [← (hperm.map _).sum_eq]
  exact (hsublist.map _).sum_le_sum fun _ _ ↦ Nat.zero_le _

theorem length_voters_le {x : Bytes} (hx : Item x) (h : parseVoters x = .ok m) :
    (encodeList (candidateItems m.toList)).length ≤ x.length := by
  unfold parseVoters at h
  obtain ⟨rlp, hrlp, hrest⟩ := bind_eq_ok.mp h
  obtain rfl := eq_of_ofBytes hrlp
  obtain ⟨n, hcount, hread⟩ := bind_eq_ok.mp hrest
  have hempty : (encodeList (candidateItems (∅ : ExtTreeMap Address UInt64).toList)).length ≤
      List.length rlp := by
    have hone :
        (encodeList (candidateItems (∅ : ExtTreeMap Address UInt64).toList)).length = 1 := by
      decide
    rw [hone]
    exact hx.delimited.length_pos
  split at hread
  · next hguard =>
    rw [Bool.and_eq_true] at hguard
    obtain ⟨-, items, hlisting, hlen⟩ := listing_of_itemCount hrlp hguard.1 hcount
    rw [hcount, ok_bind, readVoters_eq_ok hlisting (by omega), List.drop_zero] at hread
    obtain ⟨l, hl, rfl⟩ := hread
    rw [hlisting.eq, hl]
    exact length_encodeList_mono (length_candidateItems_le l)
  · obtain rfl := Except.ok.inj hread
    exact hempty

theorem parseVoters_encodeList (m : ExtTreeMap Address UInt64)
    (hlen : (candidateItems m.toList).flatten.length < maxLength) :
    parseVoters (encodeList (candidateItems m.toList)) = .ok m := by
  have hlisting : Listing (encodeList (candidateItems m.toList)) (candidateItems m.toList) := by
    refine ⟨rfl, hlen, fun x hx ↦ ?_⟩
    simp only [candidateItems, List.mem_flatMap] at hx
    obtain ⟨c, -, hx⟩ := hx
    simp only [List.mem_cons, List.not_mem_nil, or_false] at hx
    rcases hx with hx | hx
    · rw [hx]
      exact item_encodeHash (show 20 < maxLength by decide) c.1
    · rw [hx]
      exact item_encodeInt_uint64 c.2
  have hread : readVoters (encodeList (candidateItems m.toList)) (candidateItems m.toList).length 0
      ∅ = .ok m :=
    (readVoters_eq_ok hlisting (Nat.le_add_left _ 0)).mpr
      ⟨m.toList, rfl, Account.foldl_insert_toList m⟩
  unfold parseVoters
  rw [hlisting.ofBytes_eq, ok_bind, hlisting.itemCount_eq, ok_bind, hlisting.isList_eq]
  split
  · exact hread
  · next hnone =>
    have hnil : candidateItems m.toList = [] := by simpa using hnone
    have hempty := Account.foldl_insert_toList m
    rw [eq_nil_of_candidateItems hnil] at hempty
    exact congrArg Except.ok hempty

end Voters

section Fields

variable {x p : Producer} {d : Bytes}

def fields (x : Producer) : List Bytes :=
  [encodeHash 20 x.address, encodeInt x.timestamp.toInt, encodeInt x.votes.toNat,
    encodeList (candidateItems x.voters.toList)]

def wireItems (x : Producer) (voters : Bytes) : List Bytes :=
  [encodeHash 20 x.address, encodeInt x.timestamp.toUInt64.toNat, encodeInt x.votes.toNat, voters]

theorem getRLPData_eq (x : Producer) : x.getRLPData = encodeList x.fields := by
  have hvoters := RLPStream.appendList_items {} (candidateItems x.voters.toList)
  rw [Account.length_candidateItems, ← Account.foldl_candidateItems] at hvoters
  have h := RLPStream.appendList_items {} x.fields
  simp only [fields, List.foldl_cons, List.foldl_nil, List.length_cons, List.length_nil] at h
  rw [getRLPData, streamRLP, streamVoters, hvoters, RLPStream.out_appendRaw, RLPStream.appendInt_eq,
    RLPStream.appendInt_eq, RLPStream.appendHash_eq, h, RLPStream.out_appendRaw, fields]

theorem ofRLP_eq_ok : ofRLP d = .ok p ↔
    ∃ voters, Listing d (p.wireItems voters) ∧ parseVoters voters = .ok p.voters := by
  unfold ofRLP
  rw [rethrown_eq_ok, parse, bind_eq_ok]
  constructor
  · rintro ⟨rlp, hrlp, hparse⟩
    obtain rfl := eq_of_ofBytes hrlp
    obtain ⟨n, hcount, hfields⟩ := bind_eq_ok.mp hparse
    by_cases hguard : (isList rlp && n == 4) = true
    · rw [if_pos hguard] at hfields
      rw [Bool.and_eq_true, beq_iff_eq] at hguard
      obtain ⟨-, items, hlisting, hlen⟩ := listing_of_itemCount hrlp hguard.1 hcount
      rw [hguard.2] at hlen
      match items, hlen with
      | [x0, x1, x2, x3], _ =>
        have h0 : item rlp 0 = .ok x0 := hlisting.item_eq (show 0 < 4 by decide)
        have h1 : item rlp 1 = .ok x1 := hlisting.item_eq (show 1 < 4 by decide)
        have h2 : item rlp 2 = .ok x2 := hlisting.item_eq (show 2 < 4 by decide)
        have h3 : item rlp 3 = .ok x3 := hlisting.item_eq (show 3 < 4 by decide)
        have hitem := hlisting.items
        simp only [List.mem_cons, List.not_mem_nil, or_false, forall_eq_or_imp, forall_eq] at hitem
        obtain ⟨i0, i1, i2, -⟩ := hitem
        simp only [h0, h1, h2, h3, ok_bind, bind_eq_ok,
          toHash_eq_ok (show 20 < maxLength by decide) i0, toInt64_eq_ok i1,
          toInt_eq_ok i2 (show 8 < rlpDataImmLenCount by decide)] at hfields
        obtain ⟨a, e0, t, e1, v, ⟨e2, hlt⟩, voters, hvoters, heq⟩ := hfields
        rw [e0, e1, e2, ← ofNat_uint64 hlt] at hlisting
        obtain rfl := Except.ok.inj heq
        exact ⟨x3, hlisting, hvoters⟩
    · rw [if_neg hguard] at hfields
      contradiction
  · rintro ⟨x3, hlisting, hvoters⟩
    have h0 := hlisting.item_eq (show 0 < 4 by decide)
    have h1 := hlisting.item_eq (show 1 < 4 by decide)
    have h2 := hlisting.item_eq (show 2 < 4 by decide)
    have h3 := hlisting.item_eq (show 3 < 4 by decide)
    simp only [wireItems, List.getD_cons_zero, List.getD_cons_succ] at h0 h1 h2 h3
    have hhash := toHash_encodeHash (show 20 < maxLength by decide) p.address
    have htime := (toInt64_eq_ok (i := p.timestamp) (item_encodeInt_uint64 _)).mpr rfl
    have hvotes := toInt_encodeInt_uint64 p.votes
    refine ⟨d, hlisting.ofBytes_eq, ?_⟩
    rw [hlisting.itemCount_eq, ok_bind, if_pos (by rw [hlisting.isList_eq]; rfl), h0, ok_bind,
      hhash, ok_bind, h1, ok_bind, htime, ok_bind, h2, ok_bind, hvotes, ok_bind, h3, ok_bind,
      hvoters, ok_bind, UInt64.ofNat_toNat]
    rfl

theorem length_encodeInt_timestamp_le (t : Int64) :
    (encodeInt t.toInt).length ≤ (encodeInt t.toUInt64.toNat).length ∧
      (t < 0 → (encodeInt t.toInt).length < (encodeInt t.toUInt64.toNat).length) := by
  by_cases hts : t.toUInt64.toNat < 2 ^ 63
  · rw [toInt_of_nonneg hts]
    refine ⟨le_rfl, fun hneg ↦ ?_⟩
    rw [Int64.lt_iff_toInt_lt, toInt_of_nonneg hts] at hneg
    exact absurd hneg (by simp)
  · have hone := length_encodeInt_neg (toInt_of_neg hts)
    have height := eight_lt_length_encodeInt (not_lt.mp hts)
    constructor
    · omega
    · intro _
      omega

/-- A producer is not written in more bytes than it was read from, and in fewer if its time is
negative. -/
theorem length_getRLPData_le (h : ofRLP d = .ok p) :
    p.getRLPData.length ≤ d.length ∧ (p.timestamp < 0 → p.getRLPData.length < d.length) := by
  obtain ⟨voters, hlisting, hvoters⟩ := ofRLP_eq_ok.mp h
  have hle := length_voters_le (hlisting.items voters (by simp [wireItems])) hvoters
  have htime := length_encodeInt_timestamp_le p.timestamp
  rw [getRLPData_eq, hlisting.eq]
  constructor
  · refine length_encodeList_mono ?_
    simp only [fields, wireItems, List.flatten_cons, List.length_append]
    omega
  · intro hneg
    have hlt := htime.2 hneg
    refine length_encodeList_strict ?_
    simp only [fields, wireItems, List.flatten_cons, List.length_append]
    omega

theorem ofRLP_getRLPData (hts : 0 ≤ x.timestamp) (hlen : x.getRLPData.length < maxLength) :
    ofRLP x.getRLPData = .ok x := by
  have hfields : x.fields = x.wireItems (encodeList (candidateItems x.voters.toList)) := by
    rw [fields, wireItems, toInt_of_nonneg (lt_of_nonneg hts)]
  have hflat := flatten_length_le_encodeList x.fields
  rw [← getRLPData_eq] at hflat
  have hvoters : (candidateItems x.voters.toList).flatten.length < maxLength := by
    have hmem : encodeList (candidateItems x.voters.toList) ∈ x.fields := by simp [fields]
    have hle := length_le_flatten_of_mem hmem
    have := flatten_length_le_encodeList (candidateItems x.voters.toList)
    omega
  refine ofRLP_eq_ok.mpr ⟨_, ⟨?_, ?_, ?_⟩, parseVoters_encodeList x.voters hvoters⟩
  · rw [getRLPData_eq, hfields]
  · rw [← hfields]
    omega
  · simp only [wireItems, List.mem_cons, List.not_mem_nil, or_false, forall_eq_or_imp, forall_eq]
    refine ⟨item_encodeHash (show 20 < maxLength by decide) x.address, item_encodeInt_uint64 _,
      item_encodeInt_uint64 _, ?_⟩
    rw [← encodeList_flatten]
    exact .list _ hvoters

end Fields

end Producer

end GseNetwork.Core
