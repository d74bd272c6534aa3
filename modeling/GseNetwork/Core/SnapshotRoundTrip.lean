import GseNetwork.Core.ProducerRoundTrip

namespace GseNetwork.Core

open Foundation Foundation.BigEndian Foundation.SelfDelimiting RLP

section Loops

variable {σ α : Type} {read : Bytes → Except Exception α} {push : α → σ → σ} {d : Bytes}
  {items : List Bytes}

theorem readOnto_ok (h : Listing d items) {fuel i : ℕ} (hfuel : items.length ≤ i + fuel)
    {l : List α} (hl : List.Forall₂ (fun x a ↦ read x = .ok a) (items.drop i) l) (s : σ) :
    readOnto read push d fuel i s = (.ok (), l.foldl (fun s a ↦ push a s) s) := by
  induction fuel generalizing i l s with
  | zero =>
    rw [List.drop_of_length_le (by omega), List.forall₂_nil_left_iff] at hl
    rw [hl]
    rfl
  | succ fuel ih =>
    have hcount : (Eff.ofExcept (itemCount d) : Eff σ Exception ℕ) s = (.ok items.length, s) := by
      rw [Eff.ofExcept_apply, h.itemCount_eq]
    rw [readOnto, Eff.bind_ok hcount]
    by_cases hi : i < items.length
    · rw [List.drop_eq_getElem_cons hi, List.forall₂_cons_left_iff] at hl
      obtain ⟨a, l, ha, hl, rfl⟩ := hl
      have hread : (Eff.ofExcept (do read (← item d i)) : Eff σ Exception α) s = (.ok a, s) := by
        rw [Eff.ofExcept_apply, h.item_eq hi, ok_bind, List.getD_eq_getElem _ _ hi, ha]
      rw [if_pos hi, Eff.bind_ok hread, Eff.modify_bind_apply, ih (by omega) hl]
      rfl
    · rw [List.drop_of_length_le (by omega), List.forall₂_nil_left_iff] at hl
      rw [if_neg hi, hl]
      rfl

/-- What the loop leaves behind, with or without an exception, was read from the first items. -/
theorem readOnto_leaves (h : Listing d items) (fuel i : ℕ) (s : σ) :
    ∃ l, List.Forall₂ (fun x a ↦ read x = .ok a) ((items.drop i).take l.length) l ∧
      (readOnto read push d fuel i s).2 = l.foldl (fun s a ↦ push a s) s := by
  have hstop : ∀ t : Except Exception Unit × σ, t.2 = s →
      ∃ l, List.Forall₂ (fun x a ↦ read x = .ok a) ((items.drop i).take l.length) l ∧
        t.2 = l.foldl (fun s a ↦ push a s) s :=
    fun t ht ↦ ⟨[], .nil, ht⟩
  induction fuel generalizing i s with
  | zero => exact hstop _ rfl
  | succ fuel ih =>
    have hcount : (Eff.ofExcept (itemCount d) : Eff σ Exception ℕ) s = (.ok items.length, s) := by
      rw [Eff.ofExcept_apply, h.itemCount_eq]
    rw [readOnto, Eff.bind_ok hcount]
    by_cases hi : i < items.length
    · rw [if_pos hi]
      cases ha : read (items.getD i []) with
      | error e =>
        have hread : (Eff.ofExcept (do read (← item d i)) : Eff σ Exception α) s =
            (.error e, s) := by
          rw [Eff.ofExcept_apply, h.item_eq hi, ok_bind, ha]
        rw [Eff.bind_error hread]
        exact hstop _ rfl
      | ok a =>
        have hread : (Eff.ofExcept (do read (← item d i)) : Eff σ Exception α) s = (.ok a, s) := by
          rw [Eff.ofExcept_apply, h.item_eq hi, ok_bind, ha]
        rw [Eff.bind_ok hread, Eff.modify_bind_apply]
        obtain ⟨l, hl, heq⟩ := ih (i + 1) (push a s) fun t ht ↦ ⟨[], .nil, ht⟩
        refine ⟨a :: l, ?_, heq⟩
        rw [List.drop_eq_getElem_cons hi, List.length_cons, List.take_succ_cons]
        rw [List.getD_eq_getElem _ _ hi] at ha
        exact .cons ha hl
    · rw [if_neg hi]
      exact hstop _ rfl

/-- Elements that are not written in more bytes than they were read from are so together, and in
fewer bytes if one of them is. -/
theorem length_written_le {write : α → Bytes} {P : α → Prop}
    (hle : ∀ x a, read x = .ok a →
      (write a).length ≤ x.length ∧ (P a → (write a).length < x.length)) {l : List α}
    (hl : List.Forall₂ (fun x a ↦ read x = .ok a) items l) :
    (l.map write).flatten.length ≤ items.flatten.length ∧
      ((∃ a ∈ l, P a) → (l.map write).flatten.length < items.flatten.length) := by
  induction hl with
  | nil => simp
  | cons ha _ ih =>
    obtain ⟨h1, h2⟩ := hle _ _ ha
    simp only [List.map_cons, List.flatten_cons, List.length_append]
    refine ⟨by omega, ?_⟩
    rintro ⟨b, hb, hP⟩
    rcases List.mem_cons.mp hb with rfl | hb
    · have := h2 hP
      omega
    · have := ih.2 ⟨b, hb, hP⟩
      omega

theorem length_flatten_take_le (items : List Bytes) (n : ℕ) :
    (items.take n).flatten.length ≤ items.flatten.length := by
  conv_rhs => rw [← List.take_append_drop n items]
  rw [List.flatten_append, List.length_append]
  omega

end Loops

namespace ProducerSnapshot

variable {x ps : ProducerSnapshot}

structure Timely (x : ProducerSnapshot) : Prop where
  timestamp : 0 ≤ x.timestamp
  producers : ∀ p ∈ x.producers, 0 ≤ p.timestamp

def fields (x : ProducerSnapshot) : List Bytes :=
  encodeInt x.timestamp.toInt :: x.producers.map Producer.getRLPData

theorem getRLPData_eq (x : ProducerSnapshot) : x.getRLPData = encodeList x.fields := by
  have h := RLPStream.appendList_items {} x.fields
  have hcount : x.fields.length = 1 + x.producers.length := by
    rw [fields, List.length_cons, List.length_map, Nat.add_comm]
  rw [hcount, fields, List.foldl_cons, ← RLPStream.appendInt_eq, List.foldl_map] at h
  rw [getRLPData, streamRLP, h, RLPStream.out_appendRaw, fields]

theorem foldl_push (l : List Producer) (x : ProducerSnapshot) :
    l.foldl (fun s a ↦ push a s) x = { x with producers := x.producers ++ l } := by
  induction l generalizing x with
  | nil => simp
  | cons p l ih =>
    rw [List.foldl_cons, ih]
    simp [push]

theorem listing_getRLPData (h : x.Timely) (hlen : x.getRLPData.length < maxLength) :
    Listing x.getRLPData
      (encodeInt x.timestamp.toUInt64.toNat :: x.producers.map Producer.getRLPData) := by
  have hflat := flatten_length_le_encodeList x.fields
  rw [← getRLPData_eq] at hflat
  have hfields : x.fields =
      encodeInt x.timestamp.toUInt64.toNat :: x.producers.map Producer.getRLPData := by
    rw [fields, toInt_of_nonneg (lt_of_nonneg h.timestamp)]
  rw [hfields] at hflat
  refine ⟨by rw [getRLPData_eq, hfields], by omega, fun y hy ↦ ?_⟩
  have hle := length_le_flatten_of_mem hy
  rcases List.mem_cons.mp hy with rfl | hy
  · exact item_encodeInt_uint64 _
  · obtain ⟨p, -, rfl⟩ := List.mem_map.mp hy
    rw [Producer.getRLPData_eq] at hle ⊢
    exact item_encodeList_of_length (by omega)

theorem forall₂_producers (h : x.Timely) (hlen : x.getRLPData.length < maxLength) :
    List.Forall₂ (fun d p ↦ Producer.ofRLP d = .ok p) (x.producers.map Producer.getRLPData)
      x.producers := by
  have hflat := flatten_length_le_encodeList x.fields
  rw [← getRLPData_eq] at hflat
  rw [List.forall₂_map_left_iff, List.forall₂_same]
  intro p hp
  have hmem : p.getRLPData ∈ x.fields :=
    List.mem_cons_of_mem _ (List.mem_map_of_mem hp)
  have hle := length_le_flatten_of_mem hmem
  exact Producer.ofRLP_getRLPData (h.producers p hp) (by omega)

theorem populate_getRLPData (h : ps.Timely) (hlen : ps.getRLPData.length < maxLength)
    (x : ProducerSnapshot) : x.populate ps.getRLPData = ps := by
  have hlisting := listing_getRLPData h hlen
  have hitem : item ps.getRLPData 0 = .ok (encodeInt ps.timestamp.toUInt64.toNat) :=
    hlisting.item_eq (by simp)
  have htime : toInt64 (encodeInt ps.timestamp.toUInt64.toNat) = .ok ps.timestamp :=
    (toInt64_eq_ok (item_encodeInt_uint64 _)).mpr rfl
  have hread : readOnto Producer.ofRLP push ps.getRLPData _ 1
      { x.clear with timestamp := ps.timestamp } = _ :=
    readOnto_ok hlisting (Nat.le_add_left _ 1) (forall₂_producers h hlen) _
  unfold populate readFields
  rw [hlisting.ofBytes_eq, Eff.ofExcept_ok_bind, hlisting.itemCount_eq, Eff.ofExcept_ok_bind,
    hlisting.isList_eq, if_pos (by simp), hitem, ok_bind, htime, Eff.ofExcept_ok_bind,
    Eff.modify_bind_apply, hread, foldl_push]
  rfl

/-- What a snapshot with another time was populated from is longer than what is written for it,
unless all times are in range. -/
theorem length_getRLPData_le {d : Bytes} (h : x.populate d = ps)
    (hne : x.timestamp ≠ ps.timestamp) :
    ps.getRLPData.length ≤ d.length ∧ (¬ ps.Timely → ps.getRLPData.length < d.length) := by
  have hsame : ∀ r : Except Exception Unit × ProducerSnapshot, r.2 = x.clear → r.2 ≠ ps := by
    intro r hr heq
    have htime := congrArg ProducerSnapshot.timestamp (hr.symm.trans heq)
    exact hne htime
  unfold populate readFields at h
  rcases hrlp : ofBytes d with e | rlp
  · rw [hrlp] at h
    exact absurd h (hsame _ rfl)
  obtain rfl := eq_of_ofBytes hrlp
  rw [hrlp, Eff.ofExcept_ok_bind] at h
  rcases hcount : itemCount rlp with e | n
  · rw [hcount] at h
    exact absurd h (hsame _ rfl)
  rw [hcount, Eff.ofExcept_ok_bind] at h
  by_cases hguard : (isList rlp && decide (0 < n)) = true
  swap
  · rw [if_neg hguard] at h
    exact absurd h (hsame _ rfl)
  rw [if_pos hguard] at h
  rw [Bool.and_eq_true, decide_eq_true_eq] at hguard
  obtain ⟨-, items, hlisting, hlen⟩ := listing_of_itemCount hrlp hguard.1 hcount
  obtain ⟨x0, xs, rfl⟩ : ∃ x0 xs, items = x0 :: xs :=
    List.exists_cons_of_length_pos (hlen ▸ hguard.2)
  have hitem : item rlp 0 = .ok x0 := hlisting.item_eq (by simp)
  rw [hitem, ok_bind] at h
  rcases htime : toInt64 x0 with e | t
  · rw [htime] at h
    exact absurd h (hsame _ rfl)
  rw [htime, Eff.ofExcept_ok_bind, Eff.modify_bind_apply] at h
  obtain ⟨l, hl, heq⟩ : ∃ l, List.Forall₂ (fun y p ↦ Producer.ofRLP y = .ok p)
      (((x0 :: xs).drop 1).take l.length) l ∧ (readOnto Producer.ofRLP push rlp n 1
        { x.clear with timestamp := t }).2 = l.foldl (fun s a ↦ push a s)
          { x.clear with timestamp := t } :=
    readOnto_leaves hlisting n 1 _
  rw [foldl_push] at heq
  obtain rfl : (⟨t, l⟩ : ProducerSnapshot) = ps := heq.symm.trans h
  have hx0 := (toInt64_eq_ok (hlisting.items x0 (by simp))).mp htime
  have hproducers := length_written_le (fun y p ↦ Producer.length_getRLPData_le) hl
  have htake := length_flatten_take_le xs l.length
  have hstamp := Producer.length_encodeInt_timestamp_le t
  rw [getRLPData_eq, hlisting.eq, hx0]
  constructor
  · refine length_encodeList_mono ?_
    simp only [fields, List.flatten_cons, List.length_append]
    have := hproducers.1
    simp only [List.drop_succ_cons, List.drop_zero] at this
    omega
  · intro hnot
    refine length_encodeList_strict ?_
    simp only [fields, List.flatten_cons, List.length_append]
    have hle := hproducers.1
    simp only [List.drop_succ_cons, List.drop_zero] at hle hproducers
    by_cases ht : t < 0
    · have := hstamp.2 ht
      omega
    · have hlate : ∃ p ∈ l, p.timestamp < 0 := by
        by_contra hall
        exact hnot ⟨Int64.not_lt.mp ht, fun p hp ↦ Int64.not_lt.mp fun hneg ↦ hall ⟨p, hp, hneg⟩⟩
      have := hproducers.2 hlate
      have := hstamp.1
      omega

end ProducerSnapshot

namespace AttributeState

theorem getRLPData_setData (key data : Bytes) :
    ((ofKey key).setData data).getRLPData = encodeList [encodeInt bytesType.toNat, data] := by
  have h := RLPStream.appendList_items {} [encodeInt bytesType.toNat, data]
  rw [List.foldl_cons, List.foldl_cons, List.foldl_nil, ← RLPStream.appendInt_eq] at h
  have htype : ((ofKey key).setData data).type = bytesType := rfl
  rw [getRLPData, streamRLP, htype, if_neg (by decide), if_pos rfl,
    ← RLPStream.out_appendRaw (encodeList _), ← h]
  rfl

theorem length_data_lt {key data : Bytes}
    (hlen : ((ofKey key).setData data).getRLPData.length < maxLength) :
    [encodeInt bytesType.toNat, data].flatten.length < maxLength := by
  have hflat := flatten_length_le_encodeList [encodeInt bytesType.toNat, data]
  rw [← getRLPData_setData key] at hflat
  omega

theorem ofRLP_getRLPData {key data : Bytes} (hitem : Item data)
    (hlen : ((ofKey key).setData data).getRLPData.length < maxLength) :
    ofRLP key ((ofKey key).setData data).getRLPData = .ok ((ofKey key).setData data) := by
  have hlisting : Listing ((ofKey key).setData data).getRLPData
      [encodeInt bytesType.toNat, data] := by
    have htype : bytesRequired bytesType.toNat < maxLength := by decide
    refine ⟨getRLPData_setData key data, length_data_lt hlen, fun y hy ↦ ?_⟩
    rcases List.mem_cons.mp hy with rfl | hy
    · exact item_encodeInt htype
    · rw [List.mem_singleton.mp hy]
      exact hitem
  have h0 := hlisting.item_eq (show 0 < 2 by decide)
  have h1 := hlisting.item_eq (show 1 < 2 by decide)
  simp only [List.getD_cons_zero, List.getD_cons_succ] at h0 h1
  have htype : toInt 4 (encodeInt bytesType.toNat) = .ok bytesType.toNat :=
    Account.toInt_encodeInt_uint32 bytesType
  unfold ofRLP
  rw [rethrown_eq_ok, parse, hlisting.ofBytes_eq, ok_bind, hlisting.itemCount_eq, ok_bind,
    hlisting.isList_eq, if_pos (by rfl), h0, ok_bind, htype, ok_bind, h1]
  rfl

end AttributeState

end GseNetwork.Core
