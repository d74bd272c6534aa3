import GseNetwork.Core.Canonical
import GseNetwork.Core.TrieRoot

namespace GseNetwork.Core.Trie

open Foundation.BigEndian Foundation.SelfDelimiting RLP
open Std (ExtTreeMap)

section Entries

variable {α : Type} {f : α → Bytes} {g : α → Bytes}

/-- The entries of a map filled one after the other, under keys that differ. -/
theorem getElem?_foldl_insert {l : List α} (hl : (l.map f).Nodup) (m : ExtTreeMap Bytes Bytes)
    (k v : Bytes) :
    (l.foldl (fun m i ↦ m.insert (f i) (g i)) m)[k]? = some v ↔
      (∃ i ∈ l, f i = k ∧ g i = v) ∨ (∀ i ∈ l, f i ≠ k) ∧ m[k]? = some v := by
  induction l generalizing m with
  | nil => simp
  | cons x l ih =>
    rw [List.map_cons, List.nodup_cons] at hl
    rw [List.foldl_cons, ih hl.2, ExtTreeMap.getElem?_insert]
    by_cases hx : f x = k
    · have hlater : ∀ i ∈ l, f i ≠ k := fun i hi heq ↦
        hl.1 (List.mem_map.mpr ⟨i, hi, heq.trans hx.symm⟩)
      rw [if_pos (Std.compare_eq_iff_eq.mpr hx), Option.some.injEq]
      constructor
      · rintro (⟨i, hi, hk, -⟩ | ⟨-, hv⟩)
        · exact absurd hk (hlater i hi)
        · exact Or.inl ⟨x, List.mem_cons_self, hx, hv⟩
      · rintro (⟨i, hi, hk, hv⟩ | ⟨hall, -⟩)
        · rcases List.mem_cons.mp hi with rfl | hi
          · exact Or.inr ⟨hlater, hv⟩
          · exact absurd hk (hlater i hi)
        · exact absurd hx (hall x List.mem_cons_self)
    · rw [if_neg (mt Std.compare_eq_iff_eq.mp hx), List.exists_mem_cons_iff, List.forall_mem_cons]
      simp [hx]

theorem foldl_insertIfNew {l : List α} (hl : (l.map f).Nodup) (m : ExtTreeMap Bytes Bytes)
    (hm : ∀ i ∈ l, f i ∉ m) :
    l.foldl (fun m i ↦ m.insertIfNew (f i) (g i)) m =
      l.foldl (fun m i ↦ m.insert (f i) (g i)) m := by
  induction l generalizing m with
  | nil => rfl
  | cons x l ih =>
    rw [List.map_cons, List.nodup_cons] at hl
    have hsame : m.insertIfNew (f x) (g x) = m.insert (f x) (g x) := by
      refine ExtTreeMap.ext_getElem? fun k ↦ ?_
      rw [ExtTreeMap.getElem?_insertIfNew, ExtTreeMap.getElem?_insert]
      simp [hm x List.mem_cons_self]
    rw [List.foldl_cons, List.foldl_cons, hsame]
    refine ih hl.2 _ fun i hi hmem ↦ ?_
    rw [ExtTreeMap.mem_insert, Std.compare_eq_iff_eq] at hmem
    rcases hmem with heq | hmem
    · exact hl.1 (List.mem_map.mpr ⟨i, hi, heq.symm⟩)
    · exact hm i (List.mem_cons_of_mem x hi) hmem

theorem le_foldl_max (l : List ℕ) (n : ℕ) : n ≤ l.foldl max n ∧ ∀ i ∈ l, i ≤ l.foldl max n := by
  induction l generalizing n with
  | nil => exact ⟨le_refl n, fun i hi ↦ absurd hi List.not_mem_nil⟩
  | cons x l ih =>
    obtain ⟨hle, hall⟩ := ih (max n x)
    refine ⟨(le_max_left _ _).trans hle, fun i hi ↦ ?_⟩
    rcases List.mem_cons.mp hi with rfl | hi
    · exact (le_max_right _ _).trans hle
    · exact hall i hi

theorem lt_of_compare {a b : Bytes} (h : compare a b = .lt) : a < b := by
  induction a generalizing b with
  | nil =>
    cases b with
    | nil => exact absurd h (by decide)
    | cons y b => exact List.nil_lt_cons y b
  | cons x a ih =>
    cases b with
    | nil => exact absurd h (by simp [compare, List.compareLex])
    | cons y b =>
      change List.compareLex compare (x :: a) (y :: b) = .lt at h
      rw [List.compareLex_cons_cons, Ordering.then_eq_lt] at h
      rw [List.cons_lt_cons_iff]
      rcases h with h | ⟨hxy, h⟩
      · exact Or.inl (Std.compare_eq_lt.mp h)
      · exact Or.inr ⟨Std.compare_eq_iff_eq.mp hxy, ih h⟩

end Entries

section Maps

variable {sha3 : Bytes → H256} {m m' : ExtTreeMap Bytes Bytes}

theorem unpack_asNibbles (k : Bytes) : packNibbles (asNibbles k) = k := by
  induction k with
  | nil => rfl
  | cons x k ih =>
    have hbyte : x / 16 * 16 + x % 16 = x := by
      rw [← UInt8.toNat_inj, UInt8.toNat_add, UInt8.toNat_mul, UInt8.toNat_div, UInt8.toNat_mod]
      have hlt := x.toNat_lt
      change (x.toNat / 16 * 16 % 2 ^ 8 + x.toNat % 16) % 2 ^ 8 = x.toNat
      omega
    unfold asNibbles at ih ⊢
    rw [List.flatMap_cons]
    change (x / 16 * 16 + x % 16) :: packNibbles (k.flatMap fun i ↦ [i / 16, i % 16]) = x :: k
    rw [ih, hbyte]

theorem asNibbles_inj {k k' : Bytes} (h : asNibbles k = asNibbles k') : k = k' := by
  rw [← unpack_asNibbles k, h, unpack_asNibbles]

theorem asNibbles_lt (k : Bytes) : ∀ n ∈ asNibbles k, n < 16 := by
  intro n hn
  obtain ⟨x, -, hx⟩ := List.mem_flatMap.mp hn
  have hbyte : ∀ x : UInt8, x / 16 < 16 ∧ x % 16 < 16 := by decide +kernel
  rcases List.mem_cons.mp hx with rfl | hx
  · exact (hbyte x).1
  · rw [List.mem_singleton.mp hx]
    exact (hbyte x).2

theorem mem_hexMap {n v : Bytes} :
    (n, v) ∈ hexMap m ↔ ∃ k, asNibbles k = n ∧ m[k]? = some v := by
  have hnodup : (m.toList.reverse.map fun i ↦ asNibbles i.1).Nodup := by
    rw [List.map_reverse, List.nodup_reverse, List.Nodup, List.pairwise_map]
    refine ExtTreeMap.distinct_keys_toList.imp fun {a b} hne heq ↦ hne ?_
    rw [asNibbles_inj heq, Std.compare_eq_iff_eq]
  unfold hexMap
  rw [ExtTreeMap.mem_toList_iff_getElem?_eq_some, getElem?_foldl_insert hnodup]
  constructor
  · rintro (⟨⟨k, w⟩, hi, hk, hv⟩ | ⟨-, hnone⟩)
    · refine ⟨k, hk, ?_⟩
      rw [← ExtTreeMap.mem_toList_iff_getElem?_eq_some, ← List.mem_reverse]
      exact hv ▸ hi
    · simp at hnone
  · rintro ⟨k, hk, hv⟩
    refine Or.inl ⟨(k, v), ?_, hk, rfl⟩
    rw [List.mem_reverse, ExtTreeMap.mem_toList_iff_getElem?_eq_some]
    exact hv

theorem hexMap_inj (h : hexMap m = hexMap m') : m = m' := by
  have hiff (k v : Bytes) : m[k]? = some v ↔ m'[k]? = some v := by
    have hmem : (asNibbles k, v) ∈ hexMap m ↔ (asNibbles k, v) ∈ hexMap m' := by rw [h]
    have hkey {m : ExtTreeMap Bytes Bytes} : (asNibbles k, v) ∈ hexMap m ↔ m[k]? = some v := by
      rw [mem_hexMap]
      constructor
      · rintro ⟨k', hk, hv⟩
        exact asNibbles_inj hk ▸ hv
      · exact fun hv ↦ ⟨k, rfl, hv⟩
    rwa [hkey, hkey] at hmem
  refine ExtTreeMap.ext_getElem? fun k ↦ Option.ext fun v ↦ ?_
  exact hiff k v

/-- What `trieHash256` hashes: the root and the long nodes below it. -/
def hashedNodes (sha3 : Bytes → H256) (m : ExtTreeMap Bytes Bytes) : List Bytes :=
  trieRLP256 sha3 m :: hashedBelow sha3 (depth (hexMap m) + 1) (hexMap m) 0

theorem below_hexMap (hm : ∀ k v : Bytes, m[k]? = some v → v ≠ []) :
    Below (depth (hexMap m) + 1) 0 (hexMap m) where
  sorted := by
    refine List.Pairwise.imp (fun h ↦ ?_) (ExtTreeMap.ordered_keys_toList (t :=
      m.toList.reverse.foldl (fun m i ↦ m.insert (asNibbles i.1) i.2) ∅))
    rw [List.drop_zero, List.drop_zero]
    exact lt_of_compare h
  deep i hi := by
    have hle : i.1.length ≤ depth (hexMap m) := by
      exact (le_foldl_max _ 0).2 _ (List.mem_map_of_mem hi)
    omega
  nibble i hi := by
    obtain ⟨k, hk, -⟩ := mem_hexMap.mp (show (i.1, i.2) ∈ hexMap m from hi)
    rw [← hk]
    exact asNibbles_lt k
  value i hi := by
    obtain ⟨k, -, hv⟩ := mem_hexMap.mp (show (i.1, i.2) ∈ hexMap m from hi)
    exact hm k i.2 hv

theorem hexMap_ne_nil (h : m.isEmpty = false) : hexMap m ≠ [] := by
  obtain ⟨i, hi⟩ : ∃ i, i ∈ m.toList := by
    rw [← ExtTreeMap.isEmpty_toList, List.isEmpty_eq_false_iff] at h
    exact List.exists_mem_of_ne_nil _ h
  have hmem : (asNibbles i.1, i.2) ∈ hexMap m :=
    mem_hexMap.mpr ⟨i.1, rfl, ExtTreeMap.mem_toList_iff_getElem?_eq_some.mp hi⟩
  exact List.ne_nil_of_mem hmem

theorem trieRLP256_of_isEmpty (h : m.isEmpty = true) : trieRLP256 sha3 m = encodeBytes [] := by
  unfold trieRLP256
  rw [if_pos h, RLPStream.append_eq, RLPStream.out_appendRaw]

theorem trieRLP256_of_filled (h : m.isEmpty = false) :
    trieRLP256 sha3 m = node sha3 (depth (hexMap m) + 1) (hexMap m) 0 := by
  unfold trieRLP256
  rw [if_neg (by simp [h])]
  rfl

theorem covered_hexMap {s : List Bytes} (h : m.isEmpty = false) (hs : hashedNodes sha3 m ⊆ s) :
    Covered sha3 s (depth (hexMap m) + 1) 0 (hexMap m) := by
  rw [hashedNodes, List.cons_subset] at hs
  refine ⟨?_, hs.2⟩
  rw [← trieRLP256_of_filled h, hashedNode]
  split_ifs
  · exact List.nil_subset s
  · simpa using hs.1

theorem trieHash256_inj (hm : ∀ k v : Bytes, m[k]? = some v → v ≠ [])
    (hm' : ∀ k v : Bytes, m'[k]? = some v → v ≠ [])
    (hs : SeparatesNodes sha3 (hashedNodes sha3 m ++ hashedNodes sha3 m'))
    (h : trieHash256 sha3 m = trieHash256 sha3 m') : m = m' := by
  have hbelow := below_hexMap hm
  have hbelow' := below_hexMap hm'
  have hsub := List.subset_append_left (hashedNodes sha3 m) (hashedNodes sha3 m')
  have hsub' := List.subset_append_right (hashedNodes sha3 m) (hashedNodes sha3 m')
  have hroot : trieRLP256 sha3 m = trieRLP256 sha3 m' :=
    hs.free _ (hsub List.mem_cons_self) _ (hsub' List.mem_cons_self) h
  cases he : m.isEmpty with
  | true =>
    cases he' : m'.isEmpty with
    | true =>
      rw [ExtTreeMap.isEmpty_iff] at he he'
      rw [he, he']
    | false =>
      rw [trieRLP256_of_isEmpty he, trieRLP256_of_filled he'] at hroot
      exact absurd hroot.symm
        (hbelow'.node_ne hs (covered_hexMap he' hsub') (hexMap_ne_nil he'))
  | false =>
    cases he' : m'.isEmpty with
    | true =>
      rw [trieRLP256_of_filled he, trieRLP256_of_isEmpty he'] at hroot
      exact absurd hroot (hbelow.node_ne hs (covered_hexMap he hsub) (hexMap_ne_nil he))
    | false =>
      rw [trieRLP256_of_filled he, trieRLP256_of_filled he'] at hroot
      have hsuffixes := node_inj hs _ hbelow hbelow' (covered_hexMap he hsub)
        (covered_hexMap he' hsub') (hexMap_ne_nil he) (hexMap_ne_nil he') hroot
      have hzero (r : HexMap) : suffixes 0 r = r := by simp [suffixes]
      rw [hzero, hzero] at hsuffixes
      exact hexMap_inj hsuffixes

end Maps

section Blocks

variable {sha3 : Bytes → H256} {x y : Block}

theorem getElem?_transactionsMap (hx : x.transactions.length < 2 ^ 32) (k v : Bytes) :
    x.transactionsMap[k]? = some v ↔ ∃ (i : ℕ) (tx : Transaction), x.transactions[i]? = some tx ∧
      encodeInt (i : ℤ) = k ∧ (tx.streamRLP {}).out = v := by
  have hkeys (i : ℕ) : (RLPStream.appendInt {} (i : ℤ)).out = encodeInt (i : ℤ) := by
    rw [RLPStream.appendInt_eq, RLPStream.out_appendRaw]
  have hnodup : (x.transactions.zipIdx.map fun i ↦
      (RLPStream.appendInt {} (i.2 : ℤ)).out).Nodup := by
    have hsnd : (x.transactions.zipIdx.map fun i ↦ (RLPStream.appendInt {} (i.2 : ℤ)).out) =
        (List.range' 0 x.transactions.length).map fun i : ℕ ↦ encodeInt (i : ℤ) := by
      rw [← List.zipIdx_map_snd, List.map_map]
      exact List.map_congr_left fun i _ ↦ hkeys i.2
    rw [hsnd]
    refine List.Nodup.map_on (fun i hi j hj heq ↦ ?_) List.nodup_range'
    rw [List.mem_range'_1] at hi hj
    exact encodeInt_nat_inj (by omega) (by omega) heq
  unfold Block.transactionsMap
  rw [foldl_insertIfNew hnodup _ (by simp), getElem?_foldl_insert hnodup]
  constructor
  · rintro (⟨⟨tx, i⟩, hi, hk, hv⟩ | ⟨-, hnone⟩)
    · exact ⟨i, tx, List.mem_zipIdx_iff_getElem?.mp hi, (hkeys i).symm.trans hk, hv⟩
    · simp at hnone
  · rintro ⟨i, tx, htx, hk, hv⟩
    exact Or.inl ⟨(tx, i), List.mem_zipIdx_iff_getElem?.mpr htx, (hkeys i).trans hk, hv⟩

theorem encodeList_ne_nil (items : List Bytes) : encodeList items ≠ [] := by
  intro heq
  have hlength := congrArg List.length heq
  rw [encodeList, List.length_append, length_listHead, List.length_nil] at hlength
  split_ifs at hlength
  · omega
  · omega

theorem transactionsMap_ne_nil (hx : x.transactions.length < 2 ^ 32) (k v : Bytes)
    (h : x.transactionsMap[k]? = some v) : v ≠ [] := by
  obtain ⟨i, tx, -, -, rfl⟩ := (getElem?_transactionsMap hx k v).mp h
  change tx.getRLPData ≠ []
  rw [Transaction.getRLPData_eq]
  exact encodeList_ne_nil _

theorem encoded_iff (hx : x.transactions.length < 2 ^ 32) {i : ℕ} (hi : i < 2 ^ 32) (v : Bytes) :
    (x.transactions.map fun tx ↦ (tx.streamRLP {}).out)[i]? = some v ↔
      x.transactionsMap[encodeInt (i : ℤ)]? = some v := by
  rw [getElem?_transactionsMap hx, List.getElem?_map, Option.map_eq_some_iff]
  constructor
  · rintro ⟨tx, htx, hv⟩
    exact ⟨i, tx, htx, rfl, hv⟩
  · rintro ⟨j, tx, htx, hk, hv⟩
    have hj : j < x.transactions.length := (List.getElem?_eq_some_iff.mp htx).1
    rw [encodeInt_nat_inj (by omega) (by omega) hk] at htx
    exact ⟨tx, htx, hv⟩

theorem encoded_eq (hx : x.transactions.length < 2 ^ 32) (hy : y.transactions.length < 2 ^ 32)
    (h : x.transactionsMap = y.transactionsMap) :
    (x.transactions.map fun tx ↦ (tx.streamRLP {}).out) =
      y.transactions.map fun tx ↦ (tx.streamRLP {}).out := by
  refine List.ext_getElem? fun i ↦ ?_
  rcases Nat.lt_or_ge i (2 ^ 32) with hi | hi
  · refine Option.ext fun v ↦ ?_
    rw [encoded_iff hx hi, encoded_iff hy hi, h]
  · rw [List.getElem?_eq_none (by rw [List.length_map]; omega),
      List.getElem?_eq_none (by rw [List.length_map]; omega)]

end Blocks

/-- The root of a trie determines its map, and the root of a block its encoded transactions. -/
theorem roots_commit (sha3 : Bytes → H256) :
    (∀ m m' : ExtTreeMap Bytes Bytes, (∀ k v : Bytes, m[k]? = some v → v ≠ []) →
      (∀ k v : Bytes, m'[k]? = some v → v ≠ []) →
      SeparatesNodes sha3 (hashedNodes sha3 m ++ hashedNodes sha3 m') →
      trieHash256 sha3 m = trieHash256 sha3 m' → m = m') ∧
    ∀ x y : Block, x.transactions.length < 2 ^ 32 → y.transactions.length < 2 ^ 32 →
      SeparatesNodes sha3
        (hashedNodes sha3 x.transactionsMap ++ hashedNodes sha3 y.transactionsMap) →
      (x.setRoots sha3).blockHeader.transactionsRoot =
        (y.setRoots sha3).blockHeader.transactionsRoot →
      (x.transactions.map fun tx ↦ (tx.streamRLP {}).out) =
        y.transactions.map fun tx ↦ (tx.streamRLP {}).out := by
  refine ⟨fun m m' hm hm' hs h ↦ trieHash256_inj hm hm' hs h, fun x y hx hy hs h ↦ ?_⟩
  exact encoded_eq hx hy
    (trieHash256_inj (transactionsMap_ne_nil hx) (transactionsMap_ne_nil hy) hs h)

section Sample

def mixingHash (data : Bytes) : H256 :=
  if data.length = 64 then BitVec.ofNat 256 (fromBigEndian data)
  else BitVec.ofNat 256 (data.foldl (fun n b ↦ (n * 257 + b.toNat + 1) % 1000000007) 0)

def sampleEntries : List (Bytes × Bytes) :=
  [([0x12], [5]), ([0x12, 0x34], List.replicate 40 7), ([0x56], [1, 2, 3]), ([0x12, 0x3a], [8])]

def filled (entries : List (Bytes × Bytes)) : ExtTreeMap Bytes Bytes :=
  entries.foldl (fun m i ↦ m.insert i.1 i.2) ∅

theorem filled_ne_nil {entries : List (Bytes × Bytes)} (h : ∀ i ∈ entries, i.2 ≠ [])
    (hkeys : (entries.map (·.1)).Nodup) (k v : Bytes) (hv : (filled entries)[k]? = some v) :
    v ≠ [] := by
  rw [filled, getElem?_foldl_insert hkeys] at hv
  rcases hv with ⟨i, hi, -, rfl⟩ | ⟨-, hnone⟩
  · exact h i hi
  · simp at hnone

def sampleTransaction (value : UInt64) : Transaction where
  chainID := 1
  type := Transaction.transferType
  sender := 3
  recipient := 4
  timestamp := 1538352000000
  data := [6, 7]
  value := value

def sampleBlock (number : UInt64) : Block where
  blockHeader := { number := number }
  transactions := [sampleTransaction 10, sampleTransaction 20, sampleTransaction 30]

end Sample

/-- A map filled in two orders, with nodes embedded and nodes hashed, and two blocks with the same
three transactions. -/
theorem roots_commit_sample :
    (hashedNodes mixingHash (filled sampleEntries)).length = 5 ∧
    filled sampleEntries = filled sampleEntries.reverse ∧
    ((sampleBlock 1).transactions.map fun tx ↦ (tx.streamRLP {}).out) =
      (sampleBlock 2).transactions.map fun tx ↦ (tx.streamRLP {}).out := by
  refine ⟨by decide +kernel, (roots_commit mixingHash).1 _ _ ?_ ?_ ?_ ?_,
    (roots_commit mixingHash).2 (sampleBlock 1) (sampleBlock 2) ?_ ?_ ?_ rfl⟩
  · exact filled_ne_nil (by decide) (by decide)
  · exact filled_ne_nil (by decide) (by decide)
  · decide +kernel
  · decide +kernel
  · decide
  · decide
  · decide +kernel

end GseNetwork.Core.Trie
