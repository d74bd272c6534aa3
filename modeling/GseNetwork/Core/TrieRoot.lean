import GseNetwork.Core.RoundTrip
import GseNetwork.Core.TrieNodes

namespace GseNetwork.Core.Trie

open Foundation.BigEndian Foundation.SelfDelimiting RLP
open Std (ExtTreeMap)

section Suffixes

variable {range : HexMap} {preLen : ℕ} {i : Bytes × Bytes}

def suffixes (preLen : ℕ) (range : HexMap) : HexMap := range.map fun i ↦ (i.1.drop preLen, i.2)

theorem le_of_foldl_min {α : Type} (f : α → ℕ) (l : List α) (n : ℕ) :
    l.foldl (fun m i ↦ min m (f i)) n ≤ n ∧ ∀ i ∈ l, l.foldl (fun m i ↦ min m (f i)) n ≤ f i := by
  induction l generalizing n with
  | nil => exact ⟨le_refl n, fun i hi ↦ absurd hi List.not_mem_nil⟩
  | cons x l ih =>
    obtain ⟨hle, hall⟩ := ih (min n (f x))
    refine ⟨hle.trans (min_le_left _ _), fun i hi ↦ ?_⟩
    rcases List.mem_cons.mp hi with rfl | hi
    · exact hle.trans (min_le_right _ _)
    · exact hall i hi

theorem take_eq_of_agree {a b : Bytes} {m : ℕ}
    (h : m ≤ ((a.zip b).takeWhile fun i ↦ i.1 == i.2).length) :
    a.take m = b.take m ∧ m ≤ a.length ∧ m ≤ b.length := by
  induction m generalizing a b with
  | zero => exact ⟨rfl, Nat.zero_le _, Nat.zero_le _⟩
  | succ m ih =>
    match a, b with
    | [], _ => simp at h
    | x :: a, [] => simp at h
    | x :: a, y :: b =>
      rw [List.zip_cons_cons, List.takeWhile_cons] at h
      split_ifs at h with heq
      · rw [List.length_cons, Nat.succ_le_succ_iff] at h
        obtain ⟨htake, ha, hb⟩ := ih h
        have hxy : x = y := beq_iff_eq.mp heq
        rw [List.take_succ_cons, List.take_succ_cons, htake, hxy]
        exact ⟨rfl, Nat.succ_le_succ ha, Nat.succ_le_succ hb⟩
      · simp at h

theorem drop_eq_of_shared {first : Bytes × Bytes} {rest : HexMap}
    (hshared : preLen < sharedPrefix first.1 rest preLen) (hrest : rest ≠ [])
    (hi : i ∈ first :: rest) :
    i.1.drop preLen = (first.1.take (sharedPrefix first.1 rest preLen)).drop preLen ++
        i.1.drop (sharedPrefix first.1 rest preLen) ∧
      sharedPrefix first.1 rest preLen ≤ i.1.length := by
  have hall : ∀ j ∈ rest, sharedPrefix first.1 rest preLen ≤ sharedNibbles first.1 j.1 preLen :=
    (le_of_foldl_min (fun j : Bytes × Bytes ↦ sharedNibbles first.1 j.1 preLen) rest _).2
  generalize sharedPrefix first.1 rest preLen = n at hshared hall ⊢
  have hagree : ∀ j ∈ rest, (first.1.take n).drop preLen = (j.1.take n).drop preLen ∧
      n ≤ first.1.length ∧ n ≤ j.1.length := by
    intro j hj
    have hle := hall j hj
    unfold sharedNibbles at hle
    obtain ⟨htake, hfirst, hlast⟩ := take_eq_of_agree (a := first.1.drop preLen)
      (b := j.1.drop preLen) (m := n - preLen) (by omega)
    rw [List.length_drop] at hfirst hlast
    rw [List.drop_take, List.drop_take]
    exact ⟨htake, by omega, by omega⟩
  have hsplit (key : Bytes) : key.drop preLen = (key.take n).drop preLen ++ key.drop n := by
    conv_lhs => rw [← List.take_append_drop (n - preLen) (key.drop preLen)]
    rw [List.drop_take, List.drop_drop, Nat.add_sub_cancel' hshared.le]
  rcases List.mem_cons.mp hi with rfl | hi
  · obtain ⟨j, hj⟩ := List.exists_mem_of_ne_nil rest hrest
    exact ⟨hsplit i.1, (hagree j hj).2.1⟩
  · rw [(hagree i hi).1]
    exact ⟨hsplit i.1, (hagree i hi).2.2⟩

theorem append_lt_append {w a b : Bytes} (h : w ++ a < w ++ b) : a < b := by
  induction w with
  | nil => exact h
  | cons x w ih =>
    rw [List.cons_append, List.cons_append, List.cons_lt_cons_iff] at h
    exact ih (h.resolve_left (UInt8.lt_irrefl x) |>.2)

theorem drop_of_hasNibble {n : UInt8} (h : hasNibble preLen n i = true) :
    i.1.drop preLen = n :: i.1.drop (preLen + 1) := by
  unfold hasNibble at h
  rw [beq_iff_eq, List.getElem?_eq_some_iff] at h
  obtain ⟨hlt, hn⟩ := h
  rw [List.drop_eq_getElem_cons hlt, hn]

theorem hasNibble_of_drop {n : UInt8} {l : Bytes} (h : i.1.drop preLen = n :: l) :
    hasNibble preLen n i = true := by
  unfold hasNibble
  have hget : (i.1.drop preLen)[0]? = some n := by rw [h]; rfl
  rw [List.getElem?_drop, Nat.add_zero] at hget
  rw [hget, beq_self_eq_true]

end Suffixes

section Range

variable {sha3 : Bytes → H256} {fuel fuel' preLen preLen' : ℕ} {range range' : HexMap}

/-- A part of a map below a node: the keys go on in order, in nibbles, and no deeper than there is
fuel. -/
structure Below (fuel preLen : ℕ) (range : HexMap) : Prop where
  sorted : range.Pairwise fun a b ↦ a.1.drop preLen < b.1.drop preLen
  deep : ∀ i ∈ range, preLen ≤ i.1.length ∧ i.1.length < preLen + fuel
  nibble : ∀ i ∈ range, ∀ n ∈ i.1, n < 16
  value : ∀ i ∈ range, i.2 ≠ []

theorem Below.sublist (h : Below fuel preLen range) (hsub : range'.Sublist range) :
    Below fuel preLen range' where
  sorted := h.sorted.sublist hsub
  deep i hi := h.deep i (hsub.subset hi)
  nibble i hi := h.nibble i (hsub.subset hi)
  value i hi := h.value i (hsub.subset hi)

/-- Entries that go on with the same nibbles are a part below the node after those. -/
theorem Below.deeper {n : ℕ} (w : Bytes) (h : Below (fuel + 1) preLen range)
    (hn : preLen < n) (hw : ∀ i ∈ range, i.1.drop preLen = w ++ i.1.drop n ∧ n ≤ i.1.length) :
    Below fuel n range where
  sorted := by
    refine h.sorted.imp_of_mem fun {a b} ha hb hlt ↦ ?_
    rw [(hw a ha).1, (hw b hb).1] at hlt
    exact append_lt_append hlt
  deep i hi := by
    have hdeep := h.deep i hi
    exact ⟨(hw i hi).2, by omega⟩
  nibble := h.nibble
  value := h.value

theorem suffixes_eq_of_deeper {n n' : ℕ} (w : Bytes)
    (hw : ∀ i ∈ range, i.1.drop preLen = w ++ i.1.drop n)
    (hw' : ∀ i ∈ range', i.1.drop preLen' = w ++ i.1.drop n')
    (h : suffixes n range = suffixes n' range') :
    suffixes preLen range = suffixes preLen' range' := by
  have hmap {m k : ℕ} {r : HexMap} (hr : ∀ i ∈ r, i.1.drop k = w ++ i.1.drop m) :
      suffixes k r = (suffixes m r).map fun i ↦ (w ++ i.1, i.2) := by
    unfold suffixes
    rw [List.map_map]
    refine List.map_congr_left fun i hi ↦ ?_
    rw [hr i hi]
    rfl
  rw [hmap hw, hmap hw', h]

theorem Below.fuel_pos (h : Below fuel preLen range) (hne : range ≠ []) : 0 < fuel := by
  obtain ⟨i, hi⟩ := List.exists_mem_of_ne_nil range hne
  have hdeep := h.deep i hi
  omega

theorem Below.node_eq (h : Below fuel preLen range) (hne : range ≠ []) :
    ∃ items, node sha3 fuel range preLen = encodeList items := by
  obtain ⟨n, rfl⟩ : ∃ n, fuel = n + 1 := ⟨fuel - 1, by have := h.fuel_pos hne; omega⟩
  obtain ⟨items, -, heq⟩ := Trie.node_eq sha3 n hne preLen
  exact ⟨items, heq⟩

theorem Below.spread {below : HexMap} {value : Bytes} (h : Below fuel preLen range)
    (hspread : Spread preLen range below value) :
    below.Sublist range ∧ (∀ i ∈ below, preLen < i.1.length) ∧
      suffixes preLen range =
        (if value = [] then [] else [([], value)]) ++ suffixes preLen below := by
  cases hspread with
  | filled first next rest _ hlength =>
    have hnil : first.1.drop preLen = [] := by rw [hlength, List.drop_length]
    refine ⟨List.sublist_cons_self _ _, fun i hi ↦ ?_, ?_⟩
    · have hlt := (List.pairwise_cons.mp h.sorted).1 i hi
      have hne : i.1.drop preLen ≠ [] := by
        intro heq
        rw [hnil, heq] at hlt
        exact List.lt_irrefl _ hlt
      rw [ne_eq, List.drop_eq_nil_iff, not_le] at hne
      exact hne
    · rw [if_neg (h.value first List.mem_cons_self), suffixes, List.map_cons, hnil]
      rfl
  | unfilled first next rest _ hlength =>
    have hfirst : preLen < first.1.length :=
      lt_of_le_of_ne (h.deep first List.mem_cons_self).1 hlength
    refine ⟨List.Sublist.refl _, fun i hi ↦ ?_, rfl⟩
    rcases List.mem_cons.mp hi with rfl | hi
    · exact hfirst
    · have hlt := (List.pairwise_cons.mp h.sorted).1 i hi
      have hne : i.1.drop preLen ≠ [] := by
        intro heq
        rw [heq] at hlt
        exact List.not_lt_nil _ hlt
      rw [ne_eq, List.drop_eq_nil_iff, not_le] at hne
      exact hne

theorem mem_slotRanges {slots : List UInt8} {part : HexMap}
    (h : part ∈ slotRanges preLen slots range) :
    part.Sublist range ∧ ∃ n ∈ slots, ∀ i ∈ part, hasNibble preLen n i = true := by
  induction slots generalizing range with
  | nil => exact absurd h List.not_mem_nil
  | cons n slots ih =>
    rcases List.mem_cons.mp h with rfl | h
    · exact ⟨List.takeWhile_sublist _, n, List.mem_cons_self, fun i hi ↦ List.mem_takeWhile_imp hi⟩
    · obtain ⟨hsub, m, hm, hall⟩ := ih h
      exact ⟨hsub.trans (List.dropWhile_sublist _), m, List.mem_cons_of_mem n hm, hall⟩

theorem Below.slot {n : UInt8} (h : Below (fuel + 1) preLen range)
    (hn : ∀ i ∈ range, hasNibble preLen n i = true) : Below fuel (preLen + 1) range := by
  refine h.deeper [n] (Nat.lt_succ_self preLen) fun i hi ↦ ⟨drop_of_hasNibble (hn i hi), ?_⟩
  have hlength := congrArg List.length (drop_of_hasNibble (hn i hi))
  rw [List.length_drop, List.length_cons] at hlength
  omega

/-- Entries in the order of their keys are spread over the slots without a rest. -/
theorem flatten_slotRanges {slots : List UInt8} (hslots : slots.Pairwise (· < ·))
    (hrange : ∀ i ∈ range, ∃ n ∈ slots, hasNibble preLen n i = true)
    (hsorted : range.Pairwise fun a b ↦ a.1.drop preLen < b.1.drop preLen) :
    (slotRanges preLen slots range).flatten = range := by
  induction slots generalizing range with
  | nil =>
    cases range with
    | nil => rfl
    | cons i range => exact absurd (hrange i List.mem_cons_self) (by simp)
  | cons m slots ih =>
    rw [List.pairwise_cons] at hslots
    have hdrop : range.dropWhile (hasNibble preLen m) ⊆ range := (List.dropWhile_sublist _).subset
    rw [slotRanges, List.flatten_cons, ih hslots.2 ?_ (hsorted.sublist (List.dropWhile_sublist _)),
      List.takeWhile_append_dropWhile]
    intro i hi
    have hhead := List.head?_dropWhile_not (hasNibble preLen m) range
    have hpairs := hsorted.sublist (List.dropWhile_sublist (hasNibble preLen m))
    cases hlist : range.dropWhile (hasNibble preLen m) with
    | nil => rw [hlist] at hi; exact absurd hi List.not_mem_nil
    | cons d rest =>
      rw [hlist] at hhead hpairs hi hdrop
      -- the first entry left has a later nibble, and the others come after it
      obtain ⟨n, hn, hd⟩ := hrange d (hdrop List.mem_cons_self)
      have hlater : n ∈ slots := by
        rcases List.mem_cons.mp hn with rfl | hn
        · exact absurd (hd.symm.trans hhead) (by simp)
        · exact hn
      rcases List.mem_cons.mp hi with rfl | hrest
      · exact ⟨n, hlater, hd⟩
      · obtain ⟨k, hk, hik⟩ := hrange i (hdrop hi)
        rcases List.mem_cons.mp hk with rfl | hk
        · have hlt := (List.pairwise_cons.mp hpairs).1 i hrest
          rw [drop_of_hasNibble hd, drop_of_hasNibble hik, List.cons_lt_cons_iff] at hlt
          have hkn := hslots.1 n hlater
          rcases hlt with hlt | ⟨heq, -⟩
          · exact absurd (UInt8.lt_trans hlt hkn) (UInt8.lt_irrefl n)
          · exact absurd (heq ▸ hkn) (UInt8.lt_irrefl _)
        · exact ⟨k, hk, hik⟩

end Range

section Injective

variable {sha3 : Bytes → H256} {s : List Bytes} {fuel fuel' preLen preLen' : ℕ}
  {range range' : HexMap}

structure SeparatesNodes (sha3 : Bytes → H256) (s : List Bytes) : Prop where
  free : ∀ a ∈ s, ∀ b ∈ s, sha3 a = sha3 b → a = b
  fits : ∀ a ∈ s, a.length < maxLength

instance (sha3 : Bytes → H256) (s : List Bytes) : Decidable (SeparatesNodes sha3 s) :=
  decidable_of_iff ((∀ a ∈ s, ∀ b ∈ s, sha3 a = sha3 b → a = b) ∧ ∀ a ∈ s, a.length < maxLength)
    ⟨fun h ↦ ⟨h.1, h.2⟩, fun h ↦ ⟨h.free, h.fits⟩⟩

theorem length_encodeHash32 (h : H256) : (encodeHash 32 h).length = 33 := by
  unfold encodeHash encodeBytes
  rw [length_toBigEndian, if_neg (by simp), List.length_append, length_toBigEndian]
  rfl

theorem mem_of_hashedNode {a : Bytes} (ha : hashedNode a ⊆ s) (hlong : ¬ a.length < 32) :
    a ∈ s := by
  rw [hashedNode, if_neg hlong] at ha
  exact ha List.mem_cons_self

theorem SeparatesNodes.length_lt {a : Bytes} (hs : SeparatesNodes sha3 s) (ha : hashedNode a ⊆ s) :
    a.length < maxLength := by
  by_cases hsmall : a.length < 32
  · exact hsmall.trans (by decide)
  · exact hs.fits a (mem_of_hashedNode ha hsmall)

theorem reference_inj {a b : Bytes} (hs : SeparatesNodes sha3 s) (ha : hashedNode a ⊆ s)
    (hb : hashedNode b ⊆ s) (h : reference sha3 a = reference sha3 b) : a = b := by
  unfold reference at h
  split_ifs at h with hsmall hsmall' hsmall'
  · exact h
  · have hlength := congrArg List.length h
    rw [length_encodeHash32] at hlength
    omega
  · have hlength := congrArg List.length h
    rw [length_encodeHash32] at hlength
    omega
  · exact hs.free a (mem_of_hashedNode ha hsmall) b (mem_of_hashedNode hb hsmall')
      (encodeHash_inj (show 32 < maxLength by decide) h)

theorem Below.node_ne (h : Below fuel preLen range) (hs : SeparatesNodes sha3 s)
    (hcovered : Covered sha3 s fuel preLen range) (hne : range ≠ []) :
    node sha3 fuel range preLen ≠ encodeBytes [] := by
  intro heq
  obtain ⟨items, hitems⟩ := h.node_eq hne
  have hfits := hs.length_lt hcovered.self
  rw [hitems] at hfits heq
  have hlist := isList_encodeList ((flatten_length_le_encodeList items).trans_lt hfits)
  rw [heq] at hlist
  exact absurd hlist (by decide)

/-- A node is written as a list or by its hash, never as the empty string. -/
theorem Below.reference_ne (h : Below fuel preLen range) (hs : SeparatesNodes sha3 s)
    (hcovered : Covered sha3 s fuel preLen range) (hne : range ≠ []) :
    reference sha3 (node sha3 fuel range preLen) ≠ encodeBytes [] := by
  intro heq
  unfold reference at heq
  split_ifs at heq with hsmall
  · exact h.node_ne hs hcovered hne heq
  · have hlength := congrArg List.length heq
    rw [length_encodeHash32] at hlength
    exact absurd hlength (by decide)

def Written (x : Bytes) : Prop := (∃ b, x = encodeBytes b) ∨ ∃ items, x = encodeList items

theorem Written.delimited {x : Bytes} (h : Written x) (hx : x.length < maxLength) :
    Delimited sizeAsEncoded x := by
  rcases h with ⟨b, rfl⟩ | ⟨items, rfl⟩
  · exact delimited_encodeBytes ((length_le_encodeBytes b).trans_lt hx)
  · exact delimited_encodeList ((flatten_length_le_encodeList items).trans_lt hx)

theorem Below.written_reference (h : Below fuel preLen range) (hne : range ≠ []) :
    Written (reference sha3 (node sha3 fuel range preLen)) := by
  unfold reference
  split_ifs
  · exact Or.inr (h.node_eq hne)
  · exact Or.inl ⟨_, rfl⟩

theorem Below.written {items : List Bytes} (h : Below fuel preLen range)
    (hshape : Shape sha3 fuel range preLen items) : ∀ x ∈ items, Written x := by
  cases hshape with
  | leaf fuel preLen key value =>
    intro x hx
    rcases List.mem_cons.mp hx with rfl | hx
    · exact Or.inl ⟨_, rfl⟩
    · exact Or.inl ⟨value, List.mem_singleton.mp hx⟩
  | extension fuel preLen first next rest hshared =>
    intro x hx
    rcases List.mem_cons.mp hx with rfl | hx
    · exact Or.inl ⟨_, rfl⟩
    · rw [List.mem_singleton.mp hx]
      exact (h.deeper _ hshared fun i hi ↦
        drop_eq_of_shared hshared (List.cons_ne_nil _ _) hi).written_reference
          (List.cons_ne_nil _ _)
  | @branch fuel preLen range below value hspread =>
    intro x hx
    rcases List.mem_append.mp hx with hx | hx
    · obtain ⟨part, hpart, rfl⟩ := List.mem_map.mp hx
      obtain ⟨hsub, n, -, hn⟩ := mem_slotRanges hpart
      unfold slotItem
      split_ifs with hempty
      · exact Or.inl ⟨[], rfl⟩
      · have hpart := (h.sublist (hsub.trans (h.spread hspread).1)).slot hn
        exact hpart.written_reference (by simpa using hempty)
    · exact Or.inl ⟨value, List.mem_singleton.mp hx⟩

theorem items_eq {items items' : List Bytes} (hs : SeparatesNodes sha3 s)
    (h : Below fuel preLen range) (h' : Below fuel' preLen' range')
    (hcovered : Covered sha3 s fuel preLen range)
    (hshape : Shape sha3 fuel range preLen items) (hshape' : Shape sha3 fuel' range' preLen' items')
    (hitems : node sha3 fuel range preLen = encodeList items)
    (hitems' : node sha3 fuel' range' preLen' = encodeList items')
    (heq : node sha3 fuel range preLen = node sha3 fuel' range' preLen') :
    items = items' ∧ ∀ x ∈ items, x.length < maxLength := by
  have hfits := hs.length_lt hcovered.self
  rw [hitems] at hfits
  have hflat : items.flatten = items'.flatten := by
    refine flatten_eq_of_encodeList ?_
    rw [← hitems, heq, hitems']
  have hlt : items.flatten.length < maxLength := (flatten_length_le_encodeList items).trans_lt hfits
  have hsize : ∀ x ∈ items, x.length < maxLength :=
    fun x hx ↦ (List.sublist_flatten_of_mem hx).length_le.trans_lt hlt
  refine ⟨flatten_inj (fun x hx ↦ (h.written hshape x hx).delimited (hsize x hx))
    (fun x hx ↦ (h'.written hshape' x hx).delimited ?_) hflat, hsize⟩
  rw [hflat] at hlt
  exact (List.sublist_flatten_of_mem hx).length_le.trans_lt hlt

def Determines (sha3 : Bytes → H256) (s : List Bytes) (fuel : ℕ) : Prop :=
  ∀ {fuel' preLen preLen' : ℕ} {range range' : HexMap}, Below fuel preLen range →
    Below fuel' preLen' range' → Covered sha3 s fuel preLen range →
    Covered sha3 s fuel' preLen' range' → range ≠ [] → range' ≠ [] →
    node sha3 fuel range preLen = node sha3 fuel' range' preLen' →
      suffixes preLen range = suffixes preLen' range'

theorem suffixes_slot (hs : SeparatesNodes sha3 s) (ih : Determines sha3 s fuel) {n : UInt8}
    (h : Below (fuel + 1) preLen range) (h' : Below (fuel' + 1) preLen' range')
    (hcovered : range ≠ [] → Covered sha3 s fuel (preLen + 1) range)
    (hcovered' : range' ≠ [] → Covered sha3 s fuel' (preLen' + 1) range')
    (hn : ∀ i ∈ range, hasNibble preLen n i = true)
    (hn' : ∀ i ∈ range', hasNibble preLen' n i = true)
    (heq : slotItem sha3 fuel preLen range = slotItem sha3 fuel' preLen' range') :
    suffixes preLen range = suffixes preLen' range' := by
  unfold slotItem at heq
  split_ifs at heq with hempty hempty' hempty'
  · rw [List.isEmpty_iff.mp hempty, List.isEmpty_iff.mp hempty']
    rfl
  · have hne' : range' ≠ [] := by simpa using hempty'
    exact absurd heq.symm ((h'.slot hn').reference_ne hs (hcovered' hne') hne')
  · have hne : range ≠ [] := by simpa using hempty
    exact absurd heq ((h.slot hn).reference_ne hs (hcovered hne) hne)
  · have hne : range ≠ [] := by simpa using hempty
    have hne' : range' ≠ [] := by simpa using hempty'
    have hnode := reference_inj hs (hcovered hne).self (hcovered' hne').self heq
    refine suffixes_eq_of_deeper [n] (fun i hi ↦ drop_of_hasNibble (hn i hi))
      (fun i hi ↦ drop_of_hasNibble (hn' i hi)) ?_
    exact ih (h.slot hn) (h'.slot hn') (hcovered hne) (hcovered' hne') hne hne' hnode

theorem suffixes_slots (hs : SeparatesNodes sha3 s) (ih : Determines sha3 s fuel)
    {slots : List UInt8} (h : Below (fuel + 1) preLen range)
    (h' : Below (fuel' + 1) preLen' range')
    (hcovered : ∀ part ∈ slotRanges preLen slots range, part ≠ [] →
      Covered sha3 s fuel (preLen + 1) part)
    (hcovered' : ∀ part ∈ slotRanges preLen' slots range', part ≠ [] →
      Covered sha3 s fuel' (preLen' + 1) part)
    (heq : (slotRanges preLen slots range).map (slotItem sha3 fuel preLen) =
      (slotRanges preLen' slots range').map (slotItem sha3 fuel' preLen')) :
    suffixes preLen (slotRanges preLen slots range).flatten =
      suffixes preLen' (slotRanges preLen' slots range').flatten := by
  induction slots generalizing range range' with
  | nil => rfl
  | cons n slots ihs =>
    rw [slotRanges, slotRanges, List.map_cons, List.map_cons, List.cons.injEq] at heq
    rw [slotRanges, List.forall_mem_cons] at hcovered hcovered'
    have hfirst := suffixes_slot hs ih (h.sublist (List.takeWhile_sublist (hasNibble preLen n)))
      (h'.sublist (List.takeWhile_sublist (hasNibble preLen' n))) hcovered.1 hcovered'.1
      (fun i hi ↦ List.mem_takeWhile_imp hi) (fun i hi ↦ List.mem_takeWhile_imp hi) heq.1
    have hrest := ihs (h.sublist (List.dropWhile_sublist _)) (h'.sublist (List.dropWhile_sublist _))
      hcovered.2 hcovered'.2 heq.2
    unfold suffixes at hfirst hrest ⊢
    rw [slotRanges, slotRanges, List.flatten_cons, List.flatten_cons, List.map_append,
      List.map_append, hfirst, hrest]

theorem Below.flatten_slots {below : HexMap} {value : Bytes} (h : Below fuel preLen range)
    (hspread : Spread preLen range below value) :
    (slotRanges preLen nibbles below).flatten = below := by
  obtain ⟨hsub, hlonger, -⟩ := h.spread hspread
  refine flatten_slotRanges (by decide) (fun i hi ↦ ?_) (h.sorted.sublist hsub)
  have hlt := hlonger i hi
  refine ⟨i.1[preLen], ?_, hasNibble_of_drop (List.drop_eq_getElem_cons hlt)⟩
  have hnibble : ∀ n : UInt8, n < 16 → n ∈ nibbles := by decide +kernel
  exact hnibble _ (h.nibble i (hsub.subset hi) _ (List.getElem_mem hlt))

theorem written_inj {x y : Bytes} (hx : (encodeBytes x).length < maxLength)
    (h : encodeBytes x = encodeBytes y) : x = y := by
  refine encodeBytes_inj ((length_le_encodeBytes x).trans_lt hx) ?_ h
  rw [h] at hx
  exact (length_le_encodeBytes y).trans_lt hx

theorem path_inj {leaf leaf' : Bool} {n n' : Bytes} (hn : ∀ i ∈ n, i < 16)
    (hn' : ∀ i ∈ n', i < 16) (hfits : (encodeBytes (hexPrefix leaf n)).length < maxLength)
    (h : encodeBytes (hexPrefix leaf n) = encodeBytes (hexPrefix leaf' n')) :
    leaf = leaf' ∧ n = n' :=
  hexPrefix_inj hn hn' (written_inj hfits h)

theorem length_branch (below : HexMap) (value : Bytes) :
    ((slotRanges preLen nibbles below).map (slotItem sha3 fuel preLen) ++
      [encodeBytes value]).length = 17 := by
  rw [List.length_append, List.length_map, length_slotRanges]
  rfl

theorem Below.path (h : Below fuel preLen range) {i : Bytes × Bytes} (hi : i ∈ range)
    {n : Bytes} (hn : n ⊆ i.1) : ∀ x ∈ n, x < 16 :=
  fun x hx ↦ h.nibble i hi x (hn hx)

theorem take_drop_subset (key : Bytes) (m n : ℕ) : (key.take m).drop n ⊆ key :=
  fun _ hx ↦ List.mem_of_mem_take (List.mem_of_mem_drop hx)

theorem node_inj (hs : SeparatesNodes sha3 s) (fuel : ℕ) : Determines sha3 s fuel := by
  induction fuel with
  | zero =>
    intro fuel' preLen preLen' range range' h h' hcovered hcovered' hne hne' heq
    exact absurd (h.fuel_pos hne) (Nat.lt_irrefl 0)
  | succ fuel ih =>
    intro fuel' preLen preLen' range range' h h' hcovered hcovered' hne hne' heq
    obtain ⟨fuel', rfl⟩ : ∃ n, fuel' = n + 1 := ⟨fuel' - 1, by have := h'.fuel_pos hne'; omega⟩
    obtain ⟨items, hshape, hitems⟩ := node_eq sha3 fuel hne preLen
    obtain ⟨items', hshape', hitems'⟩ := node_eq sha3 fuel' hne' preLen'
    obtain ⟨hsame, hsize⟩ := items_eq hs h h' hcovered hshape hshape' hitems hitems' heq
    clear hitems hitems' heq
    have hlength := congrArg List.length hsame
    cases hshape with
    | leaf _ _ key value =>
      have hpath := h.path List.mem_cons_self (List.drop_subset preLen key)
      have hfits := hsize _ List.mem_cons_self
      cases hshape' with
      | leaf _ _ key' value' =>
        obtain ⟨hkey, htail⟩ := List.cons.inj hsame
        have hpath' := h'.path List.mem_cons_self (List.drop_subset preLen' key')
        have hvalue := written_inj (hsize _ (List.mem_cons_of_mem _ List.mem_cons_self))
          (List.cons.inj htail).1
        unfold suffixes
        rw [List.map_singleton, List.map_singleton, (path_inj hpath hpath' hfits hkey).2, hvalue]
      | extension _ _ first next rest hshared =>
        have hpath' m := h'.path List.mem_cons_self (take_drop_subset first.1 m preLen')
        exact absurd (path_inj hpath (hpath' _) hfits (List.cons.inj hsame).1).1 (by decide)
      | branch _ _ hspread =>
        rw [length_branch] at hlength
        exact absurd hlength (by simp)
    | extension _ _ first next rest hshared =>
      have hpath m := h.path List.mem_cons_self (take_drop_subset first.1 m preLen)
      have hfits := hsize _ List.mem_cons_self
      have hway := fun i hi ↦ drop_eq_of_shared (i := i) hshared (List.cons_ne_nil _ _) hi
      cases hshape' with
      | leaf _ _ key' value' =>
        have hpath' := h'.path List.mem_cons_self (List.drop_subset preLen' key')
        exact absurd (path_inj (hpath _) hpath' hfits (List.cons.inj hsame).1).1 (by decide)
      | extension _ _ first' next' rest' hshared' =>
        obtain ⟨hkey, htail⟩ := List.cons.inj hsame
        have hpath' m := h'.path List.mem_cons_self (take_drop_subset first'.1 m preLen')
        have hway' := fun i hi ↦ drop_eq_of_shared (i := i) hshared' (List.cons_ne_nil _ _) hi
        have hnext := hcovered.extension hshared
        have hnext' := hcovered'.extension hshared'
        have hnode := reference_inj hs hnext.self hnext'.self (List.cons.inj htail).1
        have hbelow := ih (h.deeper _ hshared hway) (h'.deeper _ hshared' hway') hnext hnext' hne
          hne' hnode
        refine suffixes_eq_of_deeper _ (fun i hi ↦ (hway i hi).1) (fun i hi ↦ ?_) hbelow
        rw [(path_inj (hpath _) (hpath' _) hfits hkey).2]
        exact (hway' i hi).1
      | branch _ _ hspread =>
        rw [length_branch] at hlength
        exact absurd hlength (by simp)
    | branch _ _ hspread =>
      cases hshape' with
      | leaf _ _ key' value' =>
        rw [length_branch] at hlength
        exact absurd hlength (by simp)
      | extension _ _ first next rest hshared =>
        rw [length_branch] at hlength
        exact absurd hlength (by simp)
      | branch _ _ hspread' =>
        obtain ⟨hslots, hlast⟩ := List.append_inj hsame (by
          rw [List.length_map, List.length_map, length_slotRanges, length_slotRanges])
        have hvalue := written_inj (hsize _ (List.mem_append_right _ List.mem_cons_self))
          (List.cons.inj hlast).1
        obtain ⟨hsub, -, hsuffixes⟩ := h.spread hspread
        obtain ⟨hsub', -, hsuffixes'⟩ := h'.spread hspread'
        have hbelow := suffixes_slots hs ih (h.sublist hsub) (h'.sublist hsub')
          (fun part hpart ↦ hcovered.slot hspread hpart)
          (fun part hpart ↦ hcovered'.slot hspread' hpart) hslots
        rw [h.flatten_slots hspread, h'.flatten_slots hspread'] at hbelow
        rw [hsuffixes, hsuffixes', hbelow, hvalue]

end Injective

end GseNetwork.Core.Trie
