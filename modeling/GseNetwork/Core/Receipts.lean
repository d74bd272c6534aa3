import GseNetwork.Core.RoundTrip

namespace GseNetwork.Core

open Foundation.BigEndian Foundation.SelfDelimiting RLP

theorem bytesRequired_eq_succ_iff {n w : ℕ} :
    bytesRequired n = w + 1 ↔ 256 ^ w ≤ n ∧ n < 256 ^ (w + 1) := by
  constructor
  · intro h
    have hne : n ≠ 0 := by
      rintro rfl
      rw [bytesRequired_zero] at h
      omega
    have hlow := pow_le_of_bytesRequired hne
    have hhigh := lt_pow_bytesRequired n
    rw [h] at hlow hhigh
    exact ⟨hlow, hhigh⟩
  · rintro ⟨hlow, hhigh⟩
    have hle := bytesRequired_le hhigh
    have hgt : w < bytesRequired n := by
      have hlt := hlow.trans_lt (lt_pow_bytesRequired n)
      exact (Nat.pow_lt_pow_iff_right (by decide)).mp hlt
    omega

namespace TransactionReceipt

def LongCode : TransactionReceipt → Prop
  | receiptCode code => 2 ^ 24 ≤ code.toNat
  | stateRoot _ => False

theorem bytesRequired_code_iff (code : UInt32) :
    bytesRequired code.toNat = 4 ↔ 2 ^ 24 ≤ code.toNat := by
  rw [bytesRequired_eq_succ_iff]
  have := code.toNat_lt
  omega

theorem longCode_of_ofRLP {d : Bytes} {t : TransactionReceipt} (h : ofRLP d = .ok t) :
    t.LongCode := by
  obtain ⟨code, rfl, hfour, -⟩ := ofRLP_eq_ok.mp h
  exact (bytesRequired_code_iff code).mp hfour

theorem listing_code (code : UInt32) :
    Listing (receiptCode code).getRLPData [encodeInt code.toNat] := by
  have hle : bytesRequired code.toNat ≤ 4 := bytesRequired_le (by simpa using code.toNat_lt)
  have hmax : (toBigEndian (bytesRequired code.toNat) code.toNat).length < maxLength := by
    rw [length_toBigEndian]
    exact hle.trans_lt (by decide)
  refine ⟨getRLPData_code code, ?_, ?_⟩
  · have hlen := length_encodeBytes_le_add hmax
    rw [← encodeInt_natCast, length_toBigEndian] at hlen
    rw [List.flatten_singleton]
    exact hlen.trans_lt ((Nat.add_le_add_right hle 9).trans_lt (by decide))
  · intro x hx
    rw [List.mem_singleton.mp hx]
    exact item_encodeInt (hle.trans_lt (by decide))

theorem ofRLP_getRLPData_iff (t : TransactionReceipt) :
    ofRLP t.getRLPData = .ok t ↔ t.LongCode := by
  constructor
  · exact longCode_of_ofRLP
  · intro hlong
    cases t with
    | stateRoot root => exact hlong.elim
    | receiptCode code =>
      exact ofRLP_eq_ok.mpr ⟨code, rfl, (bytesRequired_code_iff code).mpr hlong, listing_code code⟩

end TransactionReceipt

namespace FullBlock

variable {b : FullBlock}

theorem longCode_of_ofRLP {d : Bytes} (h : ofRLP d = .ok b) :
    ∀ t ∈ b.transactionReceipts, t.LongCode := by
  obtain ⟨-, x0, x1, x2, -, -, -, hreceipts⟩ := ofRLP_eq_ok.mp h
  rcases parseEach_eq_ok.mp hreceipts with ⟨items, -, hforall⟩ | ⟨hnil, -⟩
  · generalize b.transactionReceipts = receipts at hforall ⊢
    induction hforall with
    | nil => simp
    | cons hx _ ih =>
      rw [List.forall_mem_cons]
      exact ⟨TransactionReceipt.longCode_of_ofRLP hx, ih⟩
  · rw [hnil]
    simp

theorem nonneg_of_lt {i : Int64} (h : i.toUInt64.toNat < 2 ^ 63) : 0 ≤ i := by
  rw [Int64.le_iff_toInt_le, toInt_of_nonneg h]
  simp

theorem timestamp_of_canonical {d : Bytes} {t : Transaction} (h : Transaction.ofRLP d = .ok t)
    (hcanonical : Transaction.Canonical d) : 0 ≤ t.timestamp := by
  obtain ⟨x, -, hlisting⟩ := Transaction.ofRLP_eq_ok.mp h
  exact nonneg_of_lt ((Transaction.canonical_listing hlisting).mp hcanonical).1

/-- A block that is written as it was read has neither negative times nor a large number. -/
theorem wired_of_ofRLP (h : ofRLP b.getRLPData = .ok b) : b.Wired := by
  obtain ⟨⟨y0, hy0, hheader⟩, ⟨y1, hy1, -, hcanonical⟩, -⟩ := (getRLPData_eq_iff h).mp rfl
  obtain ⟨-, x0, x1, x2, hlisting, hpopulate, htxs, -⟩ := ofRLP_eq_ok.mp h
  have h0 : item b.getRLPData 0 = .ok x0 := hlisting.item_eq (show 0 < 3 by decide)
  have h1 : item b.getRLPData 1 = .ok x1 := hlisting.item_eq (show 1 < 3 by decide)
  obtain rfl := Except.ok.inj (h0.symm.trans hy0)
  obtain rfl := Except.ok.inj (h1.symm.trans hy1)
  have htransactions : ∀ t ∈ b.transactions, 0 ≤ t.timestamp := by
    rcases parseEach_eq_ok.mp htxs with ⟨items, hitems, hforall⟩ | ⟨hnil, -⟩
    · have heach : ∀ y ∈ items, Transaction.Canonical y := by
        refine hcanonical items ?_
        rw [hitems.eq]
        exact itemsOf_encodeList hitems.delimited hitems.length_lt
      generalize b.transactions = txs at hforall ⊢
      clear hitems
      induction hforall with
      | nil => simp
      | cons hx _ ih =>
        rw [List.forall_mem_cons] at heach ⊢
        exact ⟨timestamp_of_canonical hx heach.1, ih heach.2⟩
    · rw [hnil]
      simp
  rcases BlockHeader.populate_eq_ok.mp hpopulate with ⟨x, v, hfits, hfields⟩ | ⟨-, hskipped⟩
  · have hts := ((BlockHeader.canonical_listing hfits hfields).mp hheader).1
    exact ⟨nonneg_of_lt hts, hfits.number, htransactions⟩
  · exact absurd hheader (BlockHeader.not_skipped_default hskipped).2

theorem length_receipts_lt (hlen : b.getRLPData.length < maxLength) :
    (streamEach TransactionReceipt.getRLPData b.transactionReceipts).length < maxLength := by
  have hflat := flatten_length_le_encodeList [b.blockHeader.getRLPData,
    streamEach Transaction.getRLPData b.transactions,
    streamEach TransactionReceipt.getRLPData b.transactionReceipts]
  rw [← getRLPData_eq] at hflat
  simp only [List.flatten_cons, List.flatten_nil, List.length_append, List.length_nil] at hflat
  omega

/-- A receipt is read back as it was written exactly if it is a code that takes four bytes, and a
block exactly if all its receipts are such codes, its times are not negative and its number fits
into a signed word. -/
theorem receipts_survive_iff (b : FullBlock) (hlen : b.getRLPData.length < maxLength) :
    (∀ t : TransactionReceipt,
        TransactionReceipt.ofRLP t.getRLPData = .ok t ↔ t.LongCode) ∧
      (ofRLP b.getRLPData = .ok b.arrived ↔
        (∀ t ∈ b.transactionReceipts, t.LongCode) ∧ b.Wired) := by
  refine ⟨TransactionReceipt.ofRLP_getRLPData_iff, fun hread ↦ ⟨fun t ht ↦ ?_, ?_⟩, ?_⟩
  · exact longCode_of_ofRLP hread t ht
  · exact ⟨(wired_of_ofRLP (b := b.arrived) hread).timestamp,
      (wired_of_ofRLP (b := b.arrived) hread).number,
      (wired_of_ofRLP (b := b.arrived) hread).transactions⟩
  · rintro ⟨hlong, hwired⟩
    refine ofRLP_getRLPData_of_receipts hwired ?_ hlen
    refine parseEach_streamEach
      (fun t ht ↦ (TransactionReceipt.ofRLP_getRLPData_iff t).mpr (hlong t ht)) (fun t ht ↦ ?_)
      (length_receipts_lt hlen)
    have hlongt := hlong t ht
    cases t with
    | stateRoot root => exact hlongt.elim
    | receiptCode code => exact (TransactionReceipt.listing_code code).item

theorem receipts_survive_iff_code :
    ofRLP (getRLPData { transactionReceipts := [.receiptCode 0x01000000] }) =
      .ok (arrived { transactionReceipts := [.receiptCode 0x01000000] }) := by
  refine (receipts_survive_iff { transactionReceipts := [.receiptCode 0x01000000] }
    (by decide +kernel)).2.mpr ⟨?_, by decide, by decide, by simp⟩
  intro t ht
  rw [List.mem_singleton.mp ht]
  exact (by decide : 2 ^ 24 ≤ (0x01000000 : UInt32).toNat)

/-- The code of success and a state root are not read back, and neither is a block with them. -/
theorem receipts_lost :
    (TransactionReceipt.ofRLP (TransactionReceipt.receiptCode 0).getRLPData).isOk = false ∧
      (TransactionReceipt.ofRLP (TransactionReceipt.stateRoot 1).getRLPData).isOk = false ∧
      (ofRLP (getRLPData { transactionReceipts := [.receiptCode 0] })).isOk = false := by
  decide +kernel

end FullBlock

end GseNetwork.Core
