import GseNetwork.Core.Status

namespace GseNetwork.Core

open Foundation.BigEndian Foundation.SelfDelimiting RLP

section Sizes

theorem lt_of_nonneg {i : Int64} (h : 0 ≤ i) : i.toUInt64.toNat < 2 ^ 63 := by
  have hneg := toInt64_neg_iff i.toUInt64
  rw [Int64.toInt64_toUInt64] at hneg
  by_contra hge
  have hlt := hneg.mpr (not_lt.mp hge)
  rw [Int64.lt_iff_toInt_lt] at hlt
  rw [Int64.le_iff_toInt_le] at h
  omega

theorem length_le_flatten_of_mem {items : List Bytes} {x : Bytes} (h : x ∈ items) :
    x.length ≤ items.flatten.length := by
  induction items with
  | nil => exact absurd h List.not_mem_nil
  | cons y items ih =>
    rw [List.flatten_cons, List.length_append]
    rcases List.mem_cons.mp h with rfl | h
    · omega
    · have := ih h
      omega

theorem length_encodeBytes_le_add {p : Bytes} (h : p.length < maxLength) :
    (encodeBytes p).length ≤ p.length + 9 := by
  have hbr := bytesRequired_le_eight h
  unfold encodeBytes
  split
  · omega
  · rw [List.length_append, RLPStream.dataHead]
    split
    · rw [List.length_singleton]
      omega
    · rw [RLPStream.pushCount, List.length_cons, length_toBigEndian]
      omega

theorem length_encodeHash_le {size : ℕ} (h : size < maxLength) (v : BitVec (8 * size)) :
    (encodeHash size v).length ≤ size + 9 := by
  have hle := length_encodeBytes_le_add (p := toBigEndian size v.toNat) (by simpa using h)
  rwa [length_toBigEndian] at hle

theorem length_encodeInt_uint64_le (x : UInt64) : (encodeInt x.toNat).length ≤ 17 := by
  have h8 := bytesRequired_uint64 x
  have hlt : (toBigEndian (bytesRequired x.toNat) x.toNat).length < maxLength := by
    rw [length_toBigEndian]
    exact h8.trans_lt (by decide)
  have hle := length_encodeBytes_le_add hlt
  rw [length_toBigEndian] at hle
  rw [encodeInt_natCast]
  omega

theorem item_encodeInt_uint64 (x : UInt64) : Item (encodeInt x.toNat) :=
  item_encodeInt ((bytesRequired_uint64 x).trans_lt (by decide))

end Sizes

theorem Transaction.ofRLP_getRLPData {t : Transaction} (hts : 0 ≤ t.timestamp)
    (hlen : t.getRLPData.length < maxLength) : ofRLP t.getRLPData = .ok t := by
  have hfields : t.fields = t.wireItems (encodeBytes t.data) := by
    rw [fields, wireItems, toInt_of_nonneg (lt_of_nonneg hts)]
  have hflat := flatten_length_le_encodeList t.fields
  rw [← getRLPData_eq] at hflat
  have hdata : t.data.length < maxLength := by
    have hmem : encodeBytes t.data ∈ t.fields := by simp [fields]
    have hle := length_le_flatten_of_mem hmem
    have := length_le_encodeBytes t.data
    omega
  refine ofRLP_eq_ok.mpr ⟨encodeBytes t.data, toBytes_encodeBytes hdata, ?_, ?_, ?_⟩
  · rw [getRLPData_eq, hfields]
  · rw [← hfields]
    omega
  · have htype : Item (encodeInt t.type.toNat) := by
      refine item_encodeInt ((bytesRequired_le (w := 4) ?_).trans_lt (by decide))
      simpa using t.type.toNat_lt
    simp only [wireItems, List.mem_cons, List.not_mem_nil, or_false, forall_eq_or_imp, forall_eq]
    exact ⟨item_encodeInt_uint64 _, htype, item_encodeHash (by decide) _,
      item_encodeHash (by decide) _, item_encodeInt_uint64 _, item_encodeBytes hdata,
      item_encodeInt_uint64 _, item_encodeHash (by decide) _⟩

theorem BlockHeader.populate_getRLPData {h : BlockHeader} (x : BlockHeader)
    (hts : 0 ≤ h.timestamp) (hnumber : h.number.toNat < 2 ^ 63)
    (hlen : h.getRLPData.length < maxLength) : x.populate h.getRLPData = .ok h := by
  have hts' := lt_of_nonneg hts
  have hfields : h.wireFields = h.wireItems (encodeBytes h.extra) h.signature.v.toNat := by
    rw [wireFields, wireItems, toInt_of_nonneg hts']
  have hflat := flatten_length_le_encodeList h.wireFields
  rw [← getRLPData_eq] at hflat
  have hextra : h.extra.length < maxLength := by
    have hmem : encodeBytes h.extra ∈ h.wireFields := by simp [wireFields]
    have hle := length_le_flatten_of_mem hmem
    have := length_le_encodeBytes h.extra
    omega
  have hv : h.signature.v.toNat < 256 ^ 4 :=
    (show h.signature.v.toNat < 256 from h.signature.v.toNat_lt).trans (by decide)
  refine populate_eq_ok.mpr (Or.inl ⟨encodeBytes h.extra, h.signature.v.toNat,
    ⟨hnumber, toBytes_encodeBytes hextra, hv, UInt8.ofNat_toNat⟩, ?_, ?_, ?_⟩)
  · rw [getRLPData_eq, hfields]
  · rw [← hfields]
    omega
  · rw [← hfields]
    exact item_wireFields hextra hts'

/-- What a list of elements is written as is read back, if each of them is. -/
theorem FullBlock.parseEach_streamEach {α : Type} {read : Bytes → Except Exception α}
    {write : α → Bytes} {l : List α} (hread : ∀ a ∈ l, read (write a) = .ok a)
    (hitem : ∀ a ∈ l, Item (write a)) (hlen : (streamEach write l).length < maxLength) :
    parseEach read (streamEach write l) = .ok l := by
  have hflat := flatten_length_le_encodeList (l.map write)
  rw [← streamEach_eq] at hflat
  refine parseEach_eq_ok.mpr (Or.inl ⟨l.map write, ⟨streamEach_eq write l, by omega, ?_⟩, ?_⟩)
  · intro x hx
    obtain ⟨a, ha, rfl⟩ := List.mem_map.mp hx
    exact hitem a ha
  · clear hlen hflat hitem
    induction l with
    | nil => exact .nil
    | cons a l ih =>
      exact .cons (hread a (by simp)) (ih fun b hb ↦ hread b (by simp [hb]))

theorem item_encodeList_of_length {items : List Bytes} (h : (encodeList items).length < maxLength) :
    Item (encodeList items) := by
  have hflat := flatten_length_le_encodeList items
  rw [← encodeList_flatten]
  exact .list _ (by omega)

namespace FullBlock

/-- What the format can carry of a block: times and numbers that are positive as signed words, and
no receipts. -/
structure Sendable (b : FullBlock) : Prop where
  timestamp : 0 ≤ b.blockHeader.timestamp
  number : b.blockHeader.number.toNat < 2 ^ 63
  transactions : ∀ t ∈ b.transactions, 0 ≤ t.timestamp
  receipts : b.transactionReceipts = []

def arrived (b : FullBlock) : FullBlock := { b with syncBlock := false }

structure Wired (b : FullBlock) : Prop where
  timestamp : 0 ≤ b.blockHeader.timestamp
  number : b.blockHeader.number.toNat < 2 ^ 63
  transactions : ∀ t ∈ b.transactions, 0 ≤ t.timestamp

/-- A block is read back as it was written, but for the local flag, if its receipts are. -/
theorem ofRLP_getRLPData_of_receipts {b : FullBlock} (h : b.Wired)
    (hreceipts : parseEach TransactionReceipt.ofRLP
      (streamEach TransactionReceipt.getRLPData b.transactionReceipts) = .ok b.transactionReceipts)
    (hlen : b.getRLPData.length < maxLength) : ofRLP b.getRLPData = .ok b.arrived := by
  have hflat := flatten_length_le_encodeList [b.blockHeader.getRLPData,
    streamEach Transaction.getRLPData b.transactions,
    streamEach TransactionReceipt.getRLPData b.transactionReceipts]
  rw [← getRLPData_eq] at hflat
  have hsum := hflat
  simp only [List.flatten_cons, List.flatten_nil, List.length_append, List.length_nil] at hsum
  have hheader := BlockHeader.populate_getRLPData {} h.timestamp h.number (by omega)
  have hshort (t : Transaction) (ht : t ∈ b.transactions) : t.getRLPData.length < maxLength := by
    have hle := length_le_flatten_of_mem (List.mem_map_of_mem (f := Transaction.getRLPData) ht)
    have hle' := flatten_length_le_encodeList (b.transactions.map Transaction.getRLPData)
    rw [← streamEach_eq] at hle'
    omega
  have htxs : parseEach Transaction.ofRLP (streamEach Transaction.getRLPData b.transactions) =
      .ok b.transactions := by
    refine parseEach_streamEach (fun t ht ↦ ?_) (fun t ht ↦ ?_) (by omega)
    · exact Transaction.ofRLP_getRLPData (h.transactions t ht) (hshort t ht)
    · have hlt := hshort t ht
      rw [Transaction.getRLPData_eq] at hlt ⊢
      exact item_encodeList_of_length hlt
  refine ofRLP_eq_ok.mpr ⟨rfl, _, _, _, ⟨getRLPData_eq b, by omega, ?_⟩, hheader, htxs, hreceipts⟩
  simp only [List.mem_cons, List.not_mem_nil, or_false, forall_eq_or_imp, forall_eq, streamEach_eq]
  simp only [streamEach_eq] at hsum
  refine ⟨?_, item_encodeList_of_length (by omega), item_encodeList_of_length (by omega)⟩
  rw [BlockHeader.getRLPData_eq] at hsum ⊢
  exact item_encodeList_of_length (by omega)

/-- A block without receipts is read back as it was written, but for the local flag. -/
theorem ofRLP_getRLPData {b : FullBlock} (h : b.Sendable) (hlen : b.getRLPData.length < maxLength) :
    ofRLP b.getRLPData = .ok b.arrived := by
  refine ofRLP_getRLPData_of_receipts ⟨h.timestamp, h.number, h.transactions⟩ ?_ hlen
  rw [h.receipts]
  rfl

end FullBlock

namespace Status

open StatusPacketType

structure Sendable (x : Status) : Prop where
  type : x.type = getHeight ∨ x.type = replyHeight ∨ x.type = syncBlocks ∨ x.type = replyBlocks
  blocks : x.type = replyBlocks → ∀ b ∈ x.blocks, b.Sendable

structure Agrees (x y : Status) : Prop where
  type : y.type = x.type
  height : x.type = replyHeight → y.height = x.height
  range : x.type = syncBlocks → y.start = x.start ∧ y.endNumber = x.endNumber
  blocks : x.type = replyBlocks → y.blocks = x.blocks.map FullBlock.arrived

def body (x : Status) : List Bytes :=
  if x.type = getHeight then []
  else if x.type = replyHeight then [encodeInt x.height.toNat]
  else if x.type = syncBlocks then [encodeInt x.start.toNat, encodeInt x.endNumber.toNat]
  else x.blocks.map FullBlock.getRLPData

variable {x : Status}

theorem getRLPData_eq (h : x.Sendable) :
    x.getRLPData = encodeList (encodeInt x.type.toNat :: x.body) := by
  have hlist := RLPStream.appendList_items {} (encodeInt x.type.toNat :: x.body)
  have hcons : RLPStream.appendList {} (x.body.length + 1) =
      RLPStream.appendList {} (1 + x.body.length) := by
    rw [Nat.add_comm]
  rw [List.length_cons, List.foldl_cons, hcons] at hlist
  rw [getRLPData, ← RLPStream.out_appendRaw (encodeList _), ← hlist]
  congr 1
  rcases h.type with htype | htype | htype | htype
  · simp [streamRLP, body, htype, RLPStream.appendInt_eq]
  · have hne : ¬ replyHeight = getHeight := by decide
    simp [streamRLP, body, htype, hne, RLPStream.appendInt_eq]
  · have hne : ¬ syncBlocks = getHeight := by decide
    have hne' : ¬ syncBlocks = replyHeight := by decide
    simp [streamRLP, body, htype, hne, hne', RLPStream.appendInt_eq]
  · have hne : ¬ replyBlocks = getHeight := by decide
    have hne' : ¬ replyBlocks = replyHeight := by decide
    have hne'' : ¬ replyBlocks = syncBlocks := by decide
    simp [streamRLP, body, htype, hne, hne', hne'', RLPStream.appendInt_eq, List.foldl_map]

theorem listing_getRLPData (h : x.Sendable) (hlen : x.getRLPData.length < maxLength) :
    Listing x.getRLPData (encodeInt x.type.toNat :: x.body) := by
  have hflat := flatten_length_le_encodeList (encodeInt x.type.toNat :: x.body)
  rw [← getRLPData_eq h] at hflat
  refine ⟨getRLPData_eq h, by omega, fun y hy ↦ ?_⟩
  rcases List.mem_cons.mp hy with rfl | hy
  · refine item_encodeInt ((bytesRequired_le (w := 1) ?_).trans_lt (by decide))
    simpa using x.type.toNat_lt
  · have hle := length_le_flatten_of_mem (List.mem_cons_of_mem (encodeInt x.type.toNat) hy)
    unfold body at hy
    split_ifs at hy with h1 h2 h3
    · exact absurd hy List.not_mem_nil
    · rw [List.mem_singleton.mp hy]
      exact item_encodeInt_uint64 _
    · simp only [List.mem_cons, List.not_mem_nil, or_false] at hy
      rcases hy with rfl | rfl
      · exact item_encodeInt_uint64 _
      · exact item_encodeInt_uint64 _
    · obtain ⟨b, -, rfl⟩ := List.mem_map.mp hy
      rw [FullBlock.getRLPData_eq] at hle ⊢
      exact item_encodeList_of_length (by omega)

theorem pushBlocks_eq {d : Bytes} {items : List Bytes} (h : Listing d items) (fuel i : ℕ)
    (hfuel : items.length ≤ i + fuel) (blocks : List FullBlock) {l : List FullBlock}
    (hl : List.Forall₂ (fun y b ↦ FullBlock.ofRLP y = .ok b) (items.drop i) l) :
    pushBlocks d fuel i blocks = blocks ++ l := by
  induction fuel generalizing i blocks l with
  | zero =>
    rw [List.drop_of_length_le (by omega), List.forall₂_nil_left_iff] at hl
    rw [hl, pushBlocks, List.append_nil]
  | succ fuel ih =>
    rw [pushBlocks, h.itemCount_eq]
    by_cases hi : i < items.length
    · rw [List.drop_eq_getElem_cons hi, List.forall₂_cons_left_iff] at hl
      obtain ⟨b, rest, hb, hrest, rfl⟩ := hl
      have hitem := h.item_eq hi
      rw [List.getD_eq_getElem _ _ hi] at hitem
      simp only [if_pos hi, hitem, ok_bind, hb]
      rw [ih (i + 1) (by omega) _ hrest, List.append_assoc]
      rfl
    · rw [List.drop_of_length_le (by omega), List.forall₂_nil_left_iff] at hl
      simp only [if_neg hi, hl, List.append_nil]

theorem readType_eq (h : x.Sendable) (hlen : x.getRLPData.length < maxLength) :
    readType x.getRLPData = .ok (some x.type) := by
  have hlisting := listing_getRLPData h hlen
  have hitem : item x.getRLPData 0 = .ok (encodeInt x.type.toNat) :=
    hlisting.item_eq (Nat.succ_pos _)
  have hread : toInt 1 (encodeInt x.type.toNat) = .ok x.type.toNat := by
    refine (toInt_eq_ok (hlisting.items _ List.mem_cons_self) (by decide)).mpr ⟨rfl, ?_⟩
    simpa using x.type.toNat_lt
  unfold readType
  rw [hlisting.itemCount_eq, ok_bind, hlisting.isList_eq, if_pos (by simp), hitem, ok_bind, hread,
    ok_bind, UInt8.ofNat_toNat]
  rfl

theorem readBody_replyHeight {y : Status} (h : x.Sendable)
    (hlen : x.getRLPData.length < maxLength) (htype : x.type = replyHeight) :
    readBody { y with type := x.type } x.getRLPData =
      { y with type := x.type, height := x.height } := by
  have hlisting := listing_getRLPData h hlen
  have hne : ¬ replyHeight = getHeight := by decide
  simp only [body, htype, if_neg hne, if_true] at hlisting
  have hitem : item x.getRLPData 1 = .ok (encodeInt x.height.toNat) :=
    hlisting.item_eq (show 1 < 2 by decide)
  simp only [readBody, htype, if_true, hitem, ok_bind, toInt_encodeInt_uint64, UInt64.ofNat_toNat]

theorem readBody_syncBlocks {y : Status} (h : x.Sendable)
    (hlen : x.getRLPData.length < maxLength) (htype : x.type = syncBlocks) :
    readBody { y with type := x.type } x.getRLPData =
      { y with type := x.type, start := x.start, endNumber := x.endNumber } := by
  have hlisting := listing_getRLPData h hlen
  have hne : ¬ syncBlocks = getHeight := by decide
  have hne' : ¬ syncBlocks = replyHeight := by decide
  simp only [body, htype, if_neg hne, if_neg hne', if_true] at hlisting
  have hstart : item x.getRLPData 1 = .ok (encodeInt x.start.toNat) :=
    hlisting.item_eq (show 1 < 3 by decide)
  have hend : item x.getRLPData 2 = .ok (encodeInt x.endNumber.toNat) :=
    hlisting.item_eq (show 2 < 3 by decide)
  simp only [readBody, htype, if_neg hne', if_true, hstart, hend, ok_bind, toInt_encodeInt_uint64,
    UInt64.ofNat_toNat]

theorem forall₂_arrived (h : ∀ b ∈ x.blocks, b.Sendable)
    (hlen : ∀ b ∈ x.blocks, b.getRLPData.length < maxLength) :
    List.Forall₂ (fun y b ↦ FullBlock.ofRLP y = .ok b) (x.blocks.map FullBlock.getRLPData)
      (x.blocks.map FullBlock.arrived) := by
  rw [List.forall₂_map_left_iff, List.forall₂_map_right_iff, List.forall₂_same]
  exact fun b hb ↦ FullBlock.ofRLP_getRLPData (h b hb) (hlen b hb)

theorem readBody_replyBlocks {y : Status} (h : x.Sendable)
    (hlen : x.getRLPData.length < maxLength) (htype : x.type = replyBlocks) (hy : y.blocks = []) :
    readBody { y with type := x.type } x.getRLPData =
      { y with type := x.type, blocks := x.blocks.map FullBlock.arrived } := by
  have hlisting := listing_getRLPData h hlen
  have hne : ¬ replyBlocks = getHeight := by decide
  have hne' : ¬ replyBlocks = replyHeight := by decide
  have hne'' : ¬ replyBlocks = syncBlocks := by decide
  have hbody : x.body = x.blocks.map FullBlock.getRLPData := by
    simp only [body, htype, if_neg hne, if_neg hne', if_neg hne'']
  rw [hbody] at hlisting
  have hflat := flatten_length_le_encodeList
    (encodeInt x.type.toNat :: x.blocks.map FullBlock.getRLPData)
  rw [← hlisting.eq] at hflat
  have hshort (b : FullBlock) (hb : b ∈ x.blocks) : b.getRLPData.length < maxLength := by
    have hle := length_le_flatten_of_mem (List.mem_cons_of_mem (encodeInt x.type.toNat)
      (List.mem_map_of_mem (f := FullBlock.getRLPData) hb))
    omega
  have hcount := length_le_flatten hlisting.delimited
  have hpush := pushBlocks_eq hlisting (List.length x.getRLPData) 1 (by omega) []
    (forall₂_arrived (h.blocks htype) hshort)
  simp only [readBody, htype, if_neg hne', if_neg hne'', if_true, hy, hpush, List.nil_append]

theorem agrees_populate {y : Status} (h : x.Sendable) (hlen : x.getRLPData.length < maxLength)
    (hy : y.blocks = []) : Agrees x (y.populate x.getRLPData) := by
  have hlisting := listing_getRLPData h hlen
  have hpopulate : y.populate x.getRLPData = readBody { y with type := x.type } x.getRLPData := by
    simp only [populate, hlisting.ofBytes_eq, ok_bind, readType_eq h hlen]
    rfl
  rw [hpopulate]
  have hneq : ∀ a b : StatusPacketType, x.type = a → x.type = b → a = b :=
    fun _ _ ha hb ↦ ha.symm.trans hb
  rcases h.type with htype | htype | htype | htype
  · have hsame : readBody { y with type := x.type } x.getRLPData = { y with type := x.type } := by
      have hne : ¬ getHeight = replyHeight := by decide
      have hne' : ¬ getHeight = syncBlocks := by decide
      have hne'' : ¬ getHeight = replyBlocks := by decide
      simp only [readBody, htype, if_neg hne, if_neg hne', if_neg hne'']
    rw [hsame]
    exact ⟨rfl, fun hc ↦ absurd (hneq _ _ htype hc) (by decide),
      fun hc ↦ absurd (hneq _ _ htype hc) (by decide),
      fun hc ↦ absurd (hneq _ _ htype hc) (by decide)⟩
  · rw [readBody_replyHeight h hlen htype]
    exact ⟨rfl, fun _ ↦ rfl, fun hc ↦ absurd (hneq _ _ htype hc) (by decide),
      fun hc ↦ absurd (hneq _ _ htype hc) (by decide)⟩
  · rw [readBody_syncBlocks h hlen htype]
    exact ⟨rfl, fun hc ↦ absurd (hneq _ _ htype hc) (by decide), fun _ ↦ ⟨rfl, rfl⟩,
      fun hc ↦ absurd (hneq _ _ htype hc) (by decide)⟩
  · rw [readBody_replyBlocks h hlen htype hy]
    exact ⟨rfl, fun hc ↦ absurd (hneq _ _ htype hc) (by decide),
      fun hc ↦ absurd (hneq _ _ htype hc) (by decide), fun _ ↦ rfl⟩

end Status

end GseNetwork.Core
