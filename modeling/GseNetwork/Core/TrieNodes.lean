import GseNetwork.Core.BlockCodec
import GseNetwork.Core.Trie

namespace GseNetwork.Core.Trie

open Foundation.BigEndian Foundation.SelfDelimiting RLP

section HexPrefix

def hexPrefix (leaf : Bool) (nibbles : Bytes) : Bytes :=
  hexPrefixEncode nibbles leaf 0 nibbles.length

theorem hexPrefixEncode_eq (key : Bytes) (leaf : Bool) (first last : ℕ) :
    hexPrefixEncode key leaf first last = hexPrefix leaf ((key.take last).drop first) := by
  unfold hexPrefix hexPrefixEncode
  rw [List.take_length, List.drop_zero]

def unpackNibbles (b : Bytes) : Bytes := b.flatMap fun i ↦ [i / 16, i % 16]

theorem byte_div (x y : UInt8) (hx : x < 16) (hy : y < 16) : (x * 16 + y) / 16 = x := by
  rw [UInt8.lt_iff_toNat_lt] at hx hy
  rw [← UInt8.toNat_inj, UInt8.toNat_div, UInt8.toNat_add, UInt8.toNat_mul]
  change x.toNat < 16 at hx
  change y.toNat < 16 at hy
  change (x.toNat * 16 % 2 ^ 8 + y.toNat) % 2 ^ 8 / 16 = x.toNat
  omega

theorem byte_mod (x y : UInt8) (hx : x < 16) (hy : y < 16) : (x * 16 + y) % 16 = y := by
  rw [UInt8.lt_iff_toNat_lt] at hx hy
  rw [← UInt8.toNat_inj, UInt8.toNat_mod, UInt8.toNat_add, UInt8.toNat_mul]
  change x.toNat < 16 at hx
  change y.toNat < 16 at hy
  change (x.toNat * 16 % 2 ^ 8 + y.toNat) % 2 ^ 8 % 16 = y.toNat
  omega

theorem unpackNibbles_packNibbles {n : Bytes} (hn : ∀ i ∈ n, i < 16) (heven : n.length % 2 = 0) :
    unpackNibbles (packNibbles n) = n := by
  induction n using packNibbles.induct with
  | case1 x y rest ih =>
    have hx : x < 16 := hn x (by simp)
    have hy : y < 16 := hn y (by simp)
    have hrest := ih (fun i hi ↦ hn i (by simp [hi]))
      (by rw [List.length_cons, List.length_cons] at heven; omega)
    unfold unpackNibbles at hrest ⊢
    rw [packNibbles, List.flatMap_cons, hrest, byte_div x y hx hy, byte_mod x y hx hy]
    rfl
  | case2 n hshort =>
    match n, hshort with
    | [], _ => rfl
    | [x], _ => simp at heven
    | x :: y :: rest, hshort => exact absurd rfl (hshort x y rest)

def readHexPrefix : Bytes → Bool × Bytes
  | [] => (false, [])
  | b :: rest =>
    (decide (32 ≤ b), if b / 16 % 2 = 1 then b % 16 :: unpackNibbles rest else unpackNibbles rest)

theorem readHexPrefix_hexPrefix (leaf : Bool) {n : Bytes} (hn : ∀ i ∈ n, i < 16) :
    readHexPrefix (hexPrefix leaf n) = (leaf, n) := by
  unfold hexPrefix hexPrefixEncode
  rw [List.take_length, List.drop_zero]
  dsimp only
  rcases Nat.mod_two_eq_zero_or_one n.length with heven | hodd
  · rw [heven]
    have hpacked := unpackNibbles_packNibbles hn heven
    cases leaf <;> simp [readHexPrefix, hpacked]
  · match n with
    | [] => simp at hodd
    | x :: rest =>
      have hx : x < 16 := hn x (by simp)
      have hpacked := unpackNibbles_packNibbles (fun i hi ↦ hn i (List.mem_cons_of_mem x hi))
        (by rw [List.length_cons] at hodd; omega)
      have hbyte : ∀ x : UInt8, x < 16 →
          (¬ 32 ≤ (1 * 16 ||| x) ∧ (1 * 16 ||| x) / 16 % 2 = 1 ∧ (1 * 16 ||| x) % 16 = x) ∧
          32 ≤ (3 * 16 ||| x) ∧ (3 * 16 ||| x) / 16 % 2 = 1 ∧ (3 * 16 ||| x) % 16 = x := by
        decide +kernel
      obtain ⟨⟨h1, h2, h3⟩, h4, h5, h6⟩ := hbyte x hx
      rw [hodd]
      cases leaf
      · change (decide (32 ≤ (1 * 16 ||| x)), if (1 * 16 ||| x) / 16 % 2 = 1 then
          (1 * 16 ||| x) % 16 :: unpackNibbles (packNibbles rest)
          else unpackNibbles (packNibbles rest)) = _
        rw [decide_eq_false h1, if_pos h2, h3, hpacked]
      · change (decide (32 ≤ (3 * 16 ||| x)), if (3 * 16 ||| x) / 16 % 2 = 1 then
          (3 * 16 ||| x) % 16 :: unpackNibbles (packNibbles rest)
          else unpackNibbles (packNibbles rest)) = _
        rw [decide_eq_true h4, if_pos h5, h6, hpacked]

theorem hexPrefix_inj {leaf leaf' : Bool} {n n' : Bytes} (hn : ∀ i ∈ n, i < 16)
    (hn' : ∀ i ∈ n', i < 16) (h : hexPrefix leaf n = hexPrefix leaf' n') :
    leaf = leaf' ∧ n = n' := by
  have hread := congrArg readHexPrefix h
  rw [readHexPrefix_hexPrefix leaf hn, readHexPrefix_hexPrefix leaf' hn'] at hread
  exact Prod.mk.inj hread

end HexPrefix

section Nodes

variable (sha3 : Bytes → H256)

def reference (node : Bytes) : Bytes :=
  if node.length < 32 then node else encodeHash 32 (sha3 node)

def node (fuel : ℕ) (range : HexMap) (preLen : ℕ) : Bytes :=
  (hash256rlp sha3 fuel range preLen {}).out

def slotRanges (preLen : ℕ) : List UInt8 → HexMap → List HexMap
  | [], _ => []
  | i :: slots, range =>
    range.takeWhile (hasNibble preLen i) ::
      slotRanges preLen slots (range.dropWhile (hasNibble preLen i))

def slotItem (fuel preLen : ℕ) (range : HexMap) : Bytes :=
  if range.isEmpty then encodeBytes [] else reference sha3 (node sha3 fuel range (preLen + 1))

theorem hash256aux_eq (child : RLPStream → RLPStream) (rlp : RLPStream) :
    hash256aux sha3 child rlp = rlp.appendRaw (reference sha3 (child {}).out) := by
  unfold hash256aux reference
  dsimp only
  split_ifs
  · rfl
  · rw [RLPStream.appendHash_eq]

theorem branchSlots_eq (fuel preLen : ℕ) (slots : List UInt8) (range : HexMap) (rlp : RLPStream) :
    branchSlots sha3 (fun range ↦ hash256rlp sha3 fuel range (preLen + 1)) preLen slots range rlp =
      ((slotRanges preLen slots range).map (slotItem sha3 fuel preLen)).foldl
        (fun s x ↦ s.appendRaw x) rlp := by
  induction slots generalizing range rlp with
  | nil => rfl
  | cons i slots ih =>
    rw [branchSlots, slotRanges, List.map_cons, List.foldl_cons, ih]
    congr 1
    unfold slotItem
    split_ifs
    · rw [RLPStream.append_eq]
    · rw [hash256aux_eq]
      rfl

theorem length_slotRanges (preLen : ℕ) (slots : List UInt8) (range : HexMap) :
    (slotRanges preLen slots range).length = slots.length := by
  induction slots generalizing range with
  | nil => rfl
  | cons i slots ih => rw [slotRanges, List.length_cons, ih, List.length_cons]

/-- What a branch holds itself and what is below its slots: an entry that ends at the branch comes
first. -/
inductive Spread (preLen : ℕ) : HexMap → HexMap → Bytes → Prop
  | filled (first next : Bytes × Bytes) (rest : HexMap)
      (hshared : ¬ preLen < sharedPrefix first.1 (next :: rest) preLen)
      (h : preLen = first.1.length) :
      Spread preLen (first :: next :: rest) (next :: rest) first.2
  | unfilled (first next : Bytes × Bytes) (rest : HexMap)
      (hshared : ¬ preLen < sharedPrefix first.1 (next :: rest) preLen)
      (h : preLen ≠ first.1.length) :
      Spread preLen (first :: next :: rest) (first :: next :: rest) []

inductive Shape : ℕ → HexMap → ℕ → List Bytes → Prop
  | leaf (fuel preLen : ℕ) (key value : Bytes) :
      Shape (fuel + 1) [(key, value)] preLen
        [encodeBytes (hexPrefix true (key.drop preLen)), encodeBytes value]
  | extension (fuel preLen : ℕ) (first next : Bytes × Bytes) (rest : HexMap)
      (h : preLen < sharedPrefix first.1 (next :: rest) preLen) :
      Shape (fuel + 1) (first :: next :: rest) preLen
        [encodeBytes (hexPrefix false
          ((first.1.take (sharedPrefix first.1 (next :: rest) preLen)).drop preLen)),
        reference sha3 (node sha3 fuel (first :: next :: rest)
          (sharedPrefix first.1 (next :: rest) preLen))]
  | branch (fuel preLen : ℕ) {range below : HexMap} {value : Bytes}
      (h : Spread preLen range below value) :
      Shape (fuel + 1) range preLen
        ((slotRanges preLen nibbles below).map (slotItem sha3 fuel preLen) ++ [encodeBytes value])

theorem node_eq (fuel : ℕ) {range : HexMap} (h : range ≠ []) (preLen : ℕ) :
    ∃ items, Shape sha3 (fuel + 1) range preLen items ∧
      node sha3 (fuel + 1) range preLen = encodeList items := by
  have hitems (items : List Bytes) (n : ℕ) (hn : items.length = n) :
      (items.foldl (fun s x ↦ s.appendRaw x) (RLPStream.appendList {} n)).out =
        encodeList items := by
    rw [← hn, RLPStream.appendList_items, RLPStream.out_appendRaw]
  have hslots (range : HexMap) (value : Bytes) :
      ((slotRanges preLen nibbles range).map (slotItem sha3 fuel preLen) ++
        [encodeBytes value]).length = 17 := by
    rw [List.length_append, List.length_map, length_slotRanges]
    rfl
  match range with
  | [] => exact absurd rfl h
  | [(key, value)] =>
    refine ⟨_, .leaf fuel preLen key value, ?_⟩
    rw [node, hash256rlp, hexPrefixEncode_eq, List.take_length, RLPStream.append_eq,
      RLPStream.append_eq, ← hitems _ 2 rfl, List.foldl_cons, List.foldl_cons, List.foldl_nil]
  | (key, value) :: next :: rest =>
    rw [node, hash256rlp]
    split_ifs with hshared hfilled
    · refine ⟨_, .extension fuel preLen (key, value) next rest hshared, ?_⟩
      rw [hash256aux_eq, hexPrefixEncode_eq, RLPStream.append_eq, ← hitems _ 2 rfl,
        List.foldl_cons, List.foldl_cons, List.foldl_nil]
      rfl
    · refine ⟨_, .branch fuel preLen (.filled (key, value) next rest hshared hfilled), ?_⟩
      rw [branchSlots_eq, RLPStream.append_eq, ← hitems _ 17 (hslots _ _), List.foldl_append,
        List.foldl_cons, List.foldl_nil]
    · refine ⟨_, .branch fuel preLen (.unfilled (key, value) next rest hshared hfilled), ?_⟩
      rw [branchSlots_eq, RLPStream.append_eq, ← hitems _ 17 (hslots _ _), List.foldl_append,
        List.foldl_cons, List.foldl_nil]

end Nodes

section Hashed

variable (sha3 : Bytes → H256)

def hashedNode (node : Bytes) : List Bytes := if node.length < 32 then [] else [node]

/-- What `hash256rlp` hands to the hash on its way: the long nodes below the one it writes. -/
def hashedBelow : ℕ → HexMap → ℕ → List Bytes
  | fuel + 1, (key, value) :: next :: rest, preLen =>
    let sharedPre := sharedPrefix key (next :: rest) preLen
    if preLen < sharedPre then
      hashedNode (node sha3 fuel ((key, value) :: next :: rest) sharedPre) ++
        hashedBelow fuel ((key, value) :: next :: rest) sharedPre
    else
      let below := if preLen = key.length then next :: rest else (key, value) :: next :: rest
      (slotRanges preLen nibbles below).flatMap fun part ↦
        if part.isEmpty then []
        else hashedNode (node sha3 fuel part (preLen + 1)) ++ hashedBelow fuel part (preLen + 1)
  | _, _, _ => []

variable {sha3} {s : List Bytes} {fuel preLen : ℕ} {range : HexMap}

structure Covered (sha3 : Bytes → H256) (s : List Bytes) (fuel preLen : ℕ) (range : HexMap) :
    Prop where
  self : hashedNode (node sha3 fuel range preLen) ⊆ s
  below : hashedBelow sha3 fuel range preLen ⊆ s

theorem Covered.extension {first next : Bytes × Bytes} {rest : HexMap}
    (h : Covered sha3 s (fuel + 1) preLen (first :: next :: rest))
    (hshared : preLen < sharedPrefix first.1 (next :: rest) preLen) :
    Covered sha3 s fuel (sharedPrefix first.1 (next :: rest) preLen) (first :: next :: rest) := by
  have hbelow := h.below
  rw [hashedBelow, if_pos hshared, List.append_subset] at hbelow
  exact ⟨hbelow.1, hbelow.2⟩

theorem Covered.slot {below part : HexMap} {value : Bytes}
    (h : Covered sha3 s (fuel + 1) preLen range) (hspread : Spread preLen range below value)
    (hpart : part ∈ slotRanges preLen nibbles below) (hne : part ≠ []) :
    Covered sha3 s fuel (preLen + 1) part := by
  have hbelow : hashedNode (node sha3 fuel part (preLen + 1)) ++
      hashedBelow sha3 fuel part (preLen + 1) ⊆ s := by
    intro b hb
    refine h.below ?_
    have hslot : b ∈ (slotRanges preLen nibbles below).flatMap fun part ↦
        if part.isEmpty then []
        else hashedNode (node sha3 fuel part (preLen + 1)) ++
          hashedBelow sha3 fuel part (preLen + 1) := by
      refine List.mem_flatMap.mpr ⟨part, hpart, ?_⟩
      rwa [if_neg (by simpa using hne)]
    cases hspread with
    | filled first next rest hshared hlength => rwa [hashedBelow, if_neg hshared, if_pos hlength]
    | unfilled first next rest hshared hlength => rwa [hashedBelow, if_neg hshared, if_neg hlength]
  rw [List.append_subset] at hbelow
  exact ⟨hbelow.1, hbelow.2⟩

end Hashed

end GseNetwork.Core.Trie
