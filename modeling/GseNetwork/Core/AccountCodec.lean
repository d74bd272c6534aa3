import GseNetwork.Core.Account
import GseNetwork.Core.RlpReading

namespace GseNetwork.Core.Account

open Foundation.BigEndian Foundation.SelfDelimiting RLP
open Std (ExtTreeMap)

def contractItems (x : Account) : List Bytes := x.contractAddresses.map (encodeHash 20)

def candidateItems (l : List (Address × UInt64)) : List Bytes :=
  l.flatMap fun i ↦ [encodeHash 20 i.1, encodeInt i.2.toNat]

def fields (x : Account) : List Bytes :=
  [encodeHash 20 x.address, encodeInt x.type.toNat, encodeBytes x.code, encodeInt x.alive.toNat,
    encodeInt x.balance.toNat, encodeInt x.timestamp.toInt, encodeList x.contractItems,
    encodeInt x.votes.toNat, encodeList (candidateItems x.candidates.toList)]

theorem out_streamContracts (x : Account) : x.streamContracts.out = encodeList x.contractItems := by
  have h := RLPStream.appendList_items {} x.contractItems
  rw [contractItems, List.length_map, List.foldl_map] at h
  simp only [streamContracts, RLPStream.appendHash_eq]
  rw [h, RLPStream.out_appendRaw, contractItems]

theorem foldl_candidateItems (l : List (Address × UInt64)) (s : RLPStream) :
    l.foldl (fun s i ↦ (s.appendHash 20 i.1).appendInt i.2.toNat) s =
      (candidateItems l).foldl (fun s x ↦ s.appendRaw x) s := by
  induction l generalizing s with
  | nil => rfl
  | cons i l ih =>
    rw [List.foldl_cons, ih, RLPStream.appendHash_eq, RLPStream.appendInt_eq]
    rfl

theorem length_candidateItems (l : List (Address × UInt64)) :
    (candidateItems l).length = l.length * 2 := by
  induction l with
  | nil => rfl
  | cons i l ih =>
    simp only [candidateItems, List.flatMap_cons, List.length_append] at ih ⊢
    simp only [ih, List.length_cons, List.length_nil]
    omega

theorem out_streamCandidates (x : Account) :
    x.streamCandidates.out = encodeList (candidateItems x.candidates.toList) := by
  have h := RLPStream.appendList_items {} (candidateItems x.candidates.toList)
  rw [length_candidateItems, ← foldl_candidateItems] at h
  rw [streamCandidates, h, RLPStream.out_appendRaw]

theorem getRLPData_eq (x : Account) : x.getRLPData = encodeList x.fields := by
  have h := RLPStream.appendList_items {} x.fields
  simp only [fields, List.foldl_cons, List.foldl_nil, List.length_cons, List.length_nil] at h
  rw [getRLPData, streamRLP, RLPStream.appendInt_eq, RLPStream.appendInt_eq, RLPStream.appendInt_eq,
    RLPStream.appendInt_eq, RLPStream.appendInt_eq, RLPStream.append_eq, RLPStream.appendHash_eq,
    out_streamContracts, out_streamCandidates, h, RLPStream.out_appendRaw]
  rfl

theorem twenty_lt_maxLength : 20 < maxLength := by
  unfold maxLength
  omega

theorem delimited_encodeHash20 (a : Address) : Delimited sizeAsEncoded (encodeHash 20 a) := by
  refine delimited_encodeBytes ?_
  rw [length_toBigEndian]
  exact twenty_lt_maxLength

theorem delimited_encodeInt_uint64 (x : UInt64) : Delimited sizeAsEncoded (encodeInt x.toNat) := by
  rw [encodeInt_natCast]
  have h8 := bytesRequired_uint64 x
  exact delimited_encodeBytes (by simp only [length_toBigEndian, maxLength]; omega)

theorem delimited_candidateItems (l : List (Address × UInt64)) :
    ∀ x ∈ candidateItems l, Delimited sizeAsEncoded x := by
  intro x hx
  simp only [candidateItems, List.mem_flatMap] at hx
  obtain ⟨i, -, hx⟩ := hx
  simp only [List.mem_cons, List.not_mem_nil, or_false] at hx
  rcases hx with hx | hx
  · rw [hx]
    exact delimited_encodeHash20 i.1
  · rw [hx]
    exact delimited_encodeInt_uint64 i.2

theorem delimited_contractItems (x : Account) :
    ∀ b ∈ x.contractItems, Delimited sizeAsEncoded b := by
  intro b hb
  obtain ⟨a, -, rfl⟩ := List.mem_map.mp hb
  exact delimited_encodeHash20 a

section Loops

variable {items : List Bytes} (hitems : ∀ x ∈ items, Delimited sizeAsEncoded x)
  (hlen : items.flatten.length < maxLength)

theorem drop_eq_cons {i : ℕ} {x : Bytes} {t : List Bytes} (h : items.drop i = x :: t) :
    i < items.length ∧ items.getD i [] = x ∧ items.drop (i + 1) = t := by
  have hi : i < items.length := by
    by_contra hge
    rw [List.drop_of_length_le (by omega)] at h
    simp at h
  refine ⟨hi, ?_, ?_⟩
  · rw [List.drop_eq_getElem_cons hi] at h
    rw [List.getD_eq_getElem _ _ hi]
    exact (List.cons.inj h).1
  · rw [← List.drop_drop, h]
    rfl

include hitems hlen in
theorem readContracts_eq {fuel i : ℕ} {rest : List Address}
    (hrest : items.drop i = rest.map (encodeHash 20)) (hfuel : rest.length ≤ fuel) :
    readContracts (encodeList items) fuel i = .ok rest := by
  induction rest generalizing fuel i with
  | nil =>
    cases fuel with
    | zero => rfl
    | succ fuel =>
      have hge : items.length ≤ i := by simpa using hrest
      rw [readContracts, itemCount_encodeList hitems hlen, ok_bind, if_neg (by omega)]
      rfl
  | cons a rest ih =>
    obtain ⟨fuel, rfl⟩ : ∃ k, fuel = k + 1 := ⟨fuel - 1, by simp at hfuel; omega⟩
    obtain ⟨hi, hget, htail⟩ := drop_eq_cons hrest
    have hhash := toHash_encodeHash twenty_lt_maxLength a
    rw [readContracts, itemCount_encodeList hitems hlen, ok_bind, if_pos hi,
      item_encodeList hitems hlen hi, ok_bind, hget, hhash, ok_bind,
      ih htail (by simpa using hfuel)]
    rfl

include hitems hlen in
theorem readCandidates_eq {fuel i : ℕ} {rest : List (Address × UInt64)}
    (m : ExtTreeMap Address UInt64) (hrest : items.drop i = candidateItems rest)
    (hfuel : rest.length ≤ fuel) :
    readCandidates (encodeList items) fuel i m =
      if ∀ c ∈ rest, c.2.toNat < 2 ^ 63 then
        .ok (rest.foldl (fun m c ↦ m.insert c.1 c.2) m)
      else .error ⟨.badCast, ""⟩ := by
  induction rest generalizing fuel i m with
  | nil =>
    rw [if_pos (by simp)]
    cases fuel with
    | zero => rfl
    | succ fuel =>
      have hge : items.length ≤ i := by simpa [candidateItems] using hrest
      rw [readCandidates, itemCount_encodeList hitems hlen, ok_bind, if_neg (by omega)]
      rfl
  | cons c rest ih =>
    obtain ⟨fuel, rfl⟩ : ∃ k, fuel = k + 1 := ⟨fuel - 1, by simp at hfuel; omega⟩
    have hdrop : items.drop i =
        encodeHash 20 c.1 :: encodeInt c.2.toNat :: candidateItems rest := hrest
    obtain ⟨hi, hget, htail⟩ := drop_eq_cons hdrop
    obtain ⟨hi', hget', htail'⟩ := drop_eq_cons htail
    have hhash := toHash_encodeHash twenty_lt_maxLength c.1
    rw [readCandidates, itemCount_encodeList hitems hlen, ok_bind, if_pos hi,
      item_encodeList hitems hlen hi, ok_bind, hget, hhash, ok_bind,
      item_encodeList hitems hlen hi', ok_bind, hget']
    by_cases hc : c.2.toNat < 2 ^ 63
    · rw [toPositiveInt64_of_lt hc, ok_bind, UInt64.toUInt64_toInt64,
        ih _ htail' (by simpa using hfuel)]
      simp only [List.mem_cons, forall_eq_or_imp, hc, true_and, List.foldl_cons]
    · have hall : ¬ ∀ d ∈ c :: rest, d.2.toNat < 2 ^ 63 := fun h ↦ hc (h c (by simp))
      rw [toPositiveInt64_of_ge hc, error_bind, if_neg hall]

end Loops

theorem foldl_insert_toList (m : ExtTreeMap Address UInt64) :
    m.toList.foldl (fun m c ↦ m.insert c.1 c.2) ∅ = m := by
  rw [← ExtTreeMap.ofList_eq_foldl]
  refine ExtTreeMap.ext_getElem? fun k ↦ ?_
  cases hk : m[k]? with
  | some v =>
    have hmem : (k, v) ∈ m.toList := ExtTreeMap.mem_toList_iff_getElem?_eq_some.mpr hk
    exact ExtTreeMap.getElem?_ofList_of_mem Std.compare_self ExtTreeMap.distinct_keys_toList hmem
  | none =>
    refine ExtTreeMap.getElem?_ofList_of_contains_eq_false ?_
    rw [ExtTreeMap.map_fst_toList_eq_keys]
    simpa using hk

def fitsInt64 (x : Account) : Prop :=
  x.balance.toNat < 2 ^ 63 ∧ x.votes.toNat < 2 ^ 63 ∧
    ∀ c ∈ x.candidates.toList, c.2.toNat < 2 ^ 63

instance (x : Account) : Decidable x.fitsInt64 := by
  unfold fitsInt64
  infer_instance

section Parse

variable {x : Account} (htime : 0 ≤ x.timestamp) (hsize : x.getRLPData.length < 2 ^ 63)

include htime in
theorem timestamp_toInt_eq : x.timestamp.toInt = (x.timestamp.toUInt64.toNat : ℤ) := by
  have hneg : ¬ x.timestamp.toUInt64.toInt64 < 0 := by
    rw [Int64.toInt64_toUInt64]
    exact Int64.not_lt.mpr htime
  rw [toInt64_neg_iff, not_le] at hneg
  have hint : x.timestamp.toInt = (x.timestamp.toUInt64.toBitVec).toInt := rfl
  rw [hint, BitVec.toInt_eq_toNat_cond, UInt64.toNat_toBitVec, if_pos (by omega)]

include hsize in
theorem fields_length_lt : x.fields.flatten.length < maxLength := by
  have h := flatten_length_le_encodeList x.fields
  rw [getRLPData_eq] at hsize
  unfold maxLength
  omega

include hsize in
theorem field_length_lt {b : Bytes} (hb : b ∈ x.fields) : b.length < maxLength :=
  lt_of_le_of_lt (List.sublist_flatten_of_mem hb).length_le (fields_length_lt hsize)

theorem toInt_encodeInt_uint32 (y : UInt32) : toInt 4 (encodeInt y.toNat) = .ok y.toNat := by
  have h4 : bytesRequired y.toNat ≤ 4 := bytesRequired_le (by have := y.toNat_lt; omega)
  rw [toInt_encodeInt (by simp only [rlpDataImmLenCount]; omega), if_pos h4]

theorem toInt_encodeInt_bool (b : Bool) : toInt 1 (encodeInt b.toNat) = .ok b.toNat := by
  cases b <;> rfl

theorem delimited_encodeInt_of_le {n : ℕ} (h : bytesRequired n ≤ 8) :
    Delimited sizeAsEncoded (encodeInt n) := by
  rw [encodeInt_natCast]
  exact delimited_encodeBytes (by simp only [length_toBigEndian, maxLength]; omega)

include htime hsize in
theorem delimited_fields : ∀ b ∈ x.fields, Delimited sizeAsEncoded b := by
  have hcode : x.code.length < maxLength :=
    (length_le_encodeBytes _).trans_lt (field_length_lt hsize (by simp [fields]))
  have hcontracts : x.contractItems.flatten.length < maxLength :=
    (flatten_length_le_encodeList _).trans_lt (field_length_lt hsize (by simp [fields]))
  have hcandidates : (candidateItems x.candidates.toList).flatten.length < maxLength :=
    (flatten_length_le_encodeList _).trans_lt (field_length_lt hsize (by simp [fields]))
  have htype : bytesRequired x.type.toNat ≤ 8 :=
    bytesRequired_le (by have := x.type.toNat_lt; omega)
  have halive : bytesRequired x.alive.toNat ≤ 8 :=
    bytesRequired_le (by have := x.alive.toNat_lt; omega)
  simp only [fields, List.forall_mem_cons, List.not_mem_nil, false_implies, implies_true, and_true,
    timestamp_toInt_eq htime]
  exact ⟨delimited_encodeHash20 _, delimited_encodeInt_of_le htype, delimited_encodeBytes hcode,
    delimited_encodeInt_of_le halive, delimited_encodeInt_uint64 _, delimited_encodeInt_uint64 _,
    delimited_encodeList hcontracts, delimited_encodeInt_uint64 _,
    delimited_encodeList hcandidates⟩

include hsize in
theorem parseContracts_fields :
    parseContracts (encodeList x.contractItems) = .ok x.contractAddresses := by
  have hlen : x.contractItems.flatten.length < maxLength :=
    (flatten_length_le_encodeList _).trans_lt (field_length_lt hsize (by simp [fields]))
  have hitems := delimited_contractItems x
  obtain ⟨offset, hframe⟩ := framed_encodeList hlen
  rw [parseContracts, hframe.ofBytes_eq, ok_bind, isList_encodeList hlen,
    itemCount_encodeList hitems hlen]
  simp only [ok_bind, Bool.true_and, decide_eq_true_eq]
  by_cases hpos : 0 < x.contractItems.length
  · rw [if_pos hpos]
    exact readContracts_eq hitems hlen rfl (by simp [contractItems])
  · rw [if_neg hpos]
    have hnil : x.contractAddresses = [] := by simpa [contractItems] using hpos
    rw [hnil]
    rfl

include hsize in
theorem parseCandidates_fields :
    parseCandidates (encodeList (candidateItems x.candidates.toList)) =
      if ∀ c ∈ x.candidates.toList, c.2.toNat < 2 ^ 63 then .ok x.candidates
      else .error ⟨.badCast, ""⟩ := by
  have hlen : (candidateItems x.candidates.toList).flatten.length < maxLength :=
    (flatten_length_le_encodeList _).trans_lt (field_length_lt hsize (by simp [fields]))
  have hitems := delimited_candidateItems x.candidates.toList
  have hcount := length_candidateItems x.candidates.toList
  obtain ⟨offset, hframe⟩ := framed_encodeList hlen
  rw [parseCandidates, hframe.ofBytes_eq, ok_bind, isList_encodeList hlen,
    itemCount_encodeList hitems hlen]
  simp only [ok_bind, Bool.true_and, decide_eq_true_eq]
  by_cases hpos : 0 < (candidateItems x.candidates.toList).length
  · rw [if_pos hpos, readCandidates_eq hitems hlen ∅ rfl (by omega), foldl_insert_toList]
  · have hnil : x.candidates.toList = [] := by
      rw [← List.length_eq_zero_iff]
      omega
    have hempty := foldl_insert_toList x.candidates
    rw [hnil] at hempty
    rw [if_neg hpos, hnil, if_pos (by simp), ← hempty]
    rfl

include hsize in
theorem parseCandidates_of_fits (h : ∀ c ∈ x.candidates.toList, c.2.toNat < 2 ^ 63) :
    parseCandidates (encodeList (candidateItems x.candidates.toList)) = .ok x.candidates := by
  rw [parseCandidates_fields hsize, if_pos h]

include hsize in
theorem parseCandidates_of_not_fits (h : ¬ ∀ c ∈ x.candidates.toList, c.2.toNat < 2 ^ 63) :
    parseCandidates (encodeList (candidateItems x.candidates.toList)) =
      .error ⟨.badCast, ""⟩ := by
  rw [parseCandidates_fields hsize, if_neg h]

include htime hsize in
/-- What decoding the stored bytes yields: the numbers above `2 ^ 63` are refused, and the code
comes back as the whole item it was written as. -/
theorem parse_getRLPData :
    parse x.getRLPData =
      if x.fitsInt64 then .ok { x with code := encodeBytes x.code }
      else .error ⟨.badCast, ""⟩ := by
  have hlen := fields_length_lt hsize
  have hfields := delimited_fields htime hsize
  have hitem : ∀ i, i < 9 → item (encodeList x.fields) i = .ok (x.fields.getD i []) :=
    fun i hi ↦ item_encodeList hfields hlen hi
  obtain ⟨offset, hframe⟩ := framed_encodeList hlen
  have haddress := toHash_encodeHash twenty_lt_maxLength x.address
  have htimestamp := toInt64_encodeInt_uint64 x.timestamp.toUInt64
  rw [← timestamp_toInt_eq htime, Int64.toInt64_toUInt64] at htimestamp
  rw [getRLPData_eq, parse, hframe.ofBytes_eq, ok_bind, isList_encodeList hlen,
    itemCount_encodeList hfields hlen]
  simp only [ok_bind, hitem, Nat.reduceLT]
  change (if (true && ((9 : ℕ) == 9)) = true then _ else _) = _
  rw [if_pos (show (true && ((9 : ℕ) == 9)) = true from rfl)]
  simp only [fields, List.getD_cons_zero, List.getD_cons_succ]
  have halive : (x.alive.toNat != 0) = x.alive := by cases x.alive <;> rfl
  rw [haddress, ok_bind, toInt_encodeInt_uint32, ok_bind, toInt_encodeInt_bool, ok_bind, htimestamp,
    parseContracts_fields hsize, halive, UInt32.ofNat_toNat]
  by_cases hbalance : x.balance.toNat < 2 ^ 63
  · rw [toPositiveInt64_of_lt hbalance, ok_bind, ok_bind, ok_bind]
    by_cases hvotes : x.votes.toNat < 2 ^ 63
    · rw [toPositiveInt64_of_lt hvotes, ok_bind, UInt64.toUInt64_toInt64, UInt64.toUInt64_toInt64]
      by_cases hcandidates : ∀ c ∈ x.candidates.toList, c.2.toNat < 2 ^ 63
      · rw [parseCandidates_of_fits hsize hcandidates,
          if_pos (show x.fitsInt64 from ⟨hbalance, hvotes, hcandidates⟩)]
        rfl
      · rw [parseCandidates_of_not_fits hsize hcandidates,
          if_neg (fun h : x.fitsInt64 ↦ hcandidates h.2.2)]
        rfl
    · rw [toPositiveInt64_of_ge hvotes, if_neg (fun h : x.fitsInt64 ↦ hvotes h.2.1)]
      rfl
  · rw [toPositiveInt64_of_ge hbalance, if_neg (fun h : x.fitsInt64 ↦ hbalance h.1)]
    rfl

end Parse

theorem encodeBytes_eq_self_iff (b : Bytes) :
    encodeBytes b = b ↔ ∃ c, b = [c] ∧ c < rlpDataImmLenStart := by
  unfold encodeBytes
  split
  · next h =>
    obtain ⟨c, rfl⟩ := List.length_eq_one_iff.mp h.1
    simpa using h.2
  · next h =>
    constructor
    · intro heq
      have hlen := congrArg List.length heq
      have hhead : 0 < (RLPStream.dataHead b.length).length := by
        unfold RLPStream.dataHead RLPStream.pushCount
        split <;> simp
      rw [List.length_append] at hlen
      omega
    · rintro ⟨c, rfl, hc⟩
      exact absurd ⟨rfl, hc⟩ h

/-- An account written to the database and read back `n` times. -/
def reload : ℕ → Account → Except Exception Account
  | 0, x => .ok x
  | n + 1, x => do ofRLP (← reload n x).getRLPData

theorem reload_eq_self {x : Account} (h : ofRLP x.getRLPData = .ok x) (n : ℕ) :
    reload n x = .ok x := by
  induction n with
  | zero => rfl
  | succ n ih => rw [reload, ih, ok_bind, h]

theorem ofRLP_getRLPData_eq_self_iff {x : Account} (htime : 0 ≤ x.timestamp)
    (hsize : x.getRLPData.length < 2 ^ 63) :
    ofRLP x.getRLPData = .ok x ↔ encodeBytes x.code = x.code ∧ x.fitsInt64 := by
  have hparse := parse_getRLPData htime hsize
  unfold ofRLP
  by_cases hfits : x.fitsInt64
  · rw [if_pos hfits] at hparse
    rw [hparse]
    constructor
    · intro h
      exact ⟨congrArg Account.code (Except.ok.inj h), hfits⟩
    · intro h
      rw [h.1]
  · rw [if_neg hfits] at hparse
    rw [hparse]
    constructor
    · intro h
      cases h
    · intro h
      exact absurd h.2 hfits

/-- Storing an account and reading it back, once or any number of times, is the identity exactly
for the accounts whose code is one byte below 0x80 and whose balance, votes and votes by
candidate are below `2 ^ 63`. -/
theorem reload_identity_iff (x : Account) (htime : 0 ≤ x.timestamp)
    (hsize : x.getRLPData.length < 2 ^ 63) :
    (ofRLP x.getRLPData = .ok x ∧ ∀ n, reload n x = .ok x) ↔
      (∃ c, x.code = [c] ∧ c < rlpDataImmLenStart) ∧ x.balance.toNat < 2 ^ 63 ∧
        x.votes.toNat < 2 ^ 63 ∧
          ∀ (p : Address) (v : UInt64), x.candidates[p]? = some v → v.toNat < 2 ^ 63 := by
  have hcandidates : (∀ c ∈ x.candidates.toList, c.2.toNat < 2 ^ 63) ↔
      ∀ (p : Address) (v : UInt64), x.candidates[p]? = some v → v.toNat < 2 ^ 63 := by
    simp only [Prod.forall, ExtTreeMap.mem_toList_iff_getElem?_eq_some]
  have honce := ofRLP_getRLPData_eq_self_iff htime hsize
  rw [encodeBytes_eq_self_iff, fitsInt64, hcandidates] at honce
  rw [← honce]
  exact ⟨fun h ↦ h.1, fun h ↦ ⟨h, reload_eq_self h⟩⟩

/-- A contract account with one byte of code does come back, from three stores and loads. -/
theorem reload_identity_iff_oneByteCode :
    reload 3 { new 7 100 1538352000000 with code := [0x05] } =
      .ok { new 7 100 1538352000000 with code := [0x05] } :=
  ((reload_identity_iff { new 7 100 1538352000000 with code := [0x05] } (by decide)
    (by decide)).mpr ⟨⟨0x05, by decide, by decide⟩, by decide, by decide,
      fun p v h ↦ by simp [new] at h⟩).2 3

/-- An account without code comes back with the one byte 0x80 as its code. -/
theorem ofRLP_getRLPData_noCode :
    ofRLP (new 7 100 1538352000000).getRLPData =
        .ok { new 7 100 1538352000000 with code := [0x80] } ∧
      ofRLP (new 7 100 1538352000000).getRLPData ≠ .ok (new 7 100 1538352000000) := by
  decide

end GseNetwork.Core.Account
