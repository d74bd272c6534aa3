import GseNetwork.Vm.Control

namespace GseNetwork.Vm

open GseNetwork.Core GseNetwork.Foundation GseNetwork.Foundation.BigEndian

namespace VM

section Bytes

variable {b data : Bytes} {offset size i : ℕ}

def grown (b : Bytes) (size : ℕ) : Bytes := b ++ List.replicate (size - b.length) 0

theorem length_grown (b : Bytes) (size : ℕ) : (grown b size).length = max b.length size := by
  unfold grown
  rw [List.length_append, List.length_replicate]
  omega

theorem getD_grown (b : Bytes) (size i : ℕ) : (grown b size).getD i 0 = b.getD i 0 :=
  getD_append_zeros b _ i

theorem length_splice (h : offset + data.length ≤ b.length) :
    (splice b offset data).length = b.length := by
  unfold splice
  rw [List.length_append, List.length_append, List.length_take, List.length_drop]
  omega

theorem getD_splice (h : offset + data.length ≤ b.length) (i : ℕ) :
    (splice b offset data).getD i 0 =
      if offset ≤ i ∧ i < offset + data.length then data.getD (i - offset) 0 else b.getD i 0 := by
  have hlength : (b.take offset).length = offset := by
    rw [List.length_take]
    omega
  unfold splice
  rw [List.append_assoc]
  rcases lt_or_ge i offset with hlow | hlow
  · rw [List.getD_append _ _ _ _ (by omega), if_neg (by omega)]
    simp only [List.getD_eq_getElem?_getD, List.getElem?_take_of_lt hlow]
  · rw [List.getD_append_right _ _ _ _ (by omega), hlength]
    rcases lt_or_ge i (offset + data.length) with hhigh | hhigh
    · rw [List.getD_append _ _ _ _ (by omega), if_pos ⟨hlow, hhigh⟩]
    · rw [List.getD_append_right _ _ _ _ (by omega), if_neg (by omega)]
      simp only [List.getD_eq_getElem?_getD, List.getElem?_drop]
      congr 2
      omega

theorem slice_eq_of_getD (hsize : data.length = size) (hend : offset + size ≤ b.length)
    (h : ∀ j < size, b.getD (offset + j) 0 = data.getD j 0) : slice b offset size = data := by
  unfold slice
  refine List.ext_getElem (by rw [List.length_take, List.length_drop]; omega) fun j hj hj' ↦ ?_
  have hget := h j (by omega)
  rw [List.getD_eq_getElem _ _ (by omega), List.getD_eq_getElem _ _ hj'] at hget
  rw [List.getElem_take, List.getElem_drop]
  exact hget

end Bytes

section Array

/-- An array in which the bytes from an offset on have been replaced: the others keep their values,
and what lies beyond the old end is zero. -/
structure Stored (before after : Bytes) (offset : ℕ) (data : Bytes) : Prop where
  covers : offset + data.length ≤ after.length
  keeps : before.length ≤ after.length
  written : ∀ j < data.length, after.getD (offset + j) 0 = data.getD j 0
  others : ∀ i, i < offset ∨ offset + data.length ≤ i → after.getD i 0 = before.getD i 0

def StandsAt (b : Bytes) (offset : ℕ) (data : Bytes) : Prop :=
  ∀ j < data.length, b.getD (offset + j) 0 = data.getD j 0

variable {b data : Bytes} {offset size : ℕ}

/-- Data written to the low 32 bits of an offset, in a memory grown for the whole offset: this is
what an array does exactly if the offset has no more bits, or if both places hold the data already.
-/
theorem stored_splice_iff (hdata : data.length ≤ 32) (hsize : offset + data.length ≤ size) :
    Stored b (splice (grown b size) (offset % 2 ^ 32) data) offset data ↔
      offset < 2 ^ 32 ∨ StandsAt b (offset % 2 ^ 32) data ∧ StandsAt b offset data := by
  have hlow : offset % 2 ^ 32 ≤ offset := Nat.mod_le _ _
  have hlength := length_grown b size
  have hroom : offset % 2 ^ 32 + data.length ≤ (grown b size).length := by omega
  have hget := getD_splice hroom
  constructor
  · intro h
    rcases lt_or_ge offset (2 ^ 32) with hlt | hge
    · exact Or.inl hlt
    -- the two ranges lie apart, so neither may change
    refine Or.inr ⟨fun j hj ↦ ?_, fun j hj ↦ ?_⟩
    · rw [← h.others _ (by omega), hget, if_pos (by omega)]
      congr 1
      omega
    · rw [← h.written j hj, hget, if_neg (by omega), getD_grown]
  · intro h
    refine ⟨by rw [length_splice hroom]; omega, by rw [length_splice hroom]; omega,
      fun j hj ↦ ?_, fun i hi ↦ ?_⟩
    · rw [hget]
      rcases lt_or_ge offset (2 ^ 32) with hlt | hge
      · rw [if_pos (by omega)]
        congr 1
        omega
      · rw [if_neg (by omega), getD_grown, (h.resolve_left (by omega)).2 j hj]
    · rw [hget]
      split_ifs with hin
      · have hge : ¬ offset < 2 ^ 32 := by omega
        rw [← (h.resolve_left hge).1 (i - offset % 2 ^ 32) (by omega)]
        congr 1
        omega
      · exact getD_grown b size i

end Array

section Instructions

variable {σ : Type} {host : Host σ} {s t : VM σ} {offset value : U256} {l : Leave}

theorem sp_of_eq {i : ℕ} {x : U256} {u : VM σ} (h : sp i s = (.ok x, s))
    (hstack : u.stack = s.stack) (hSP : u.SP = s.SP) : sp i u = (.ok x, u) := by
  unfold sp readStack at h ⊢
  rw [hSP, hstack]
  by_cases hplace : 0 ≤ s.SP + i ∧ s.SP + i < 1024
  · rw [if_pos hplace] at h ⊢
    rw [Except.ok.inj (Prod.ext_iff.mp h).1]
  · rw [if_neg hplace] at h
    cases h

theorem sp_eq {i : ℕ} {x y : U256} {u v : VM σ} (h : sp i s = (.ok x, s))
    (hy : sp i u = (.ok y, v)) (hstack : u.stack = s.stack) (hSP : u.SP = s.SP) :
    y = x ∧ v = u := by
  rw [sp_of_eq h hstack hSP] at hy
  cases hy
  exact ⟨rfl, rfl⟩

/-- A callback that does not throw leaves all but the host and the count of steps. -/
theorem onOperation_ok (h : onOperation host s = (.ok (), t)) :
    ∃ x n, t = { s with extVM := x, steps := n } := by
  unfold onOperation at h
  rcases hop : host.onOp with _ | onOp
  · rw [hop] at h
    cases h
    exact ⟨s.extVM, s.steps, rfl⟩
  · rw [hop] at h
    dsimp only at h
    rw [Eff.modify_bind_apply, Eff.get_bind_apply] at h
    unfold ext at h
    split at h
    · cases h
      exact ⟨_, _, rfl⟩
    · cases h

theorem toInt63_ok {n m : ℕ} (h : toInt63 n s = (.ok m, t)) : n < 2 ^ 63 ∧ m = n ∧ t = s := by
  unfold toInt63 at h
  split_ifs at h with hn
  · cases h
  · cases h
    exact ⟨by omega, rfl, rfl⟩

/-- The memory covers the words asked for, and its old part is unchanged. -/
theorem updateMem_ok {n : ℕ} (h : updateMem host n s = (.ok (), t)) :
    ∃ m, (n + 31) / 32 * 32 ≤ m ∧
      t = { s with newMemSize := (n + 31) / 32 * 32, memory := grown s.memory m } := by
  unfold updateMem at h
  rw [Eff.modify_bind_apply, Eff.get_bind_apply] at h
  split_ifs at h with hgrow halloc
  · cases h
    exact ⟨(n + 31) / 32 * 32, le_refl _, rfl⟩
  · cases h
  · cases h
    refine ⟨s.memory.length, not_lt.mp hgrow, ?_⟩
    unfold grown
    rw [Nat.sub_self, List.replicate_zero, List.append_nil]

theorem updateMem_total {n : ℕ}
    (h : s.memory.length < (n + 31) / 32 * 32 → host.allocates ((n + 31) / 32 * 32) = true) :
    ∃ t, updateMem host n s = (.ok (), t) := by
  unfold updateMem
  rw [Eff.modify_bind_apply, Eff.get_bind_apply]
  split_ifs with hgrow halloc
  · exact ⟨_, rfl⟩
  · exact absurd (h hgrow) halloc
  · exact ⟨_, rfl⟩

theorem stores_ok {size : ℕ} (data : U256 → Bytes) (hoffset : sp 0 s = (.ok offset, s))
    (hvalue : sp 1 s = (.ok value, s)) (h : stores host size data s = (.ok l, t)) :
    offset.toNat < 2 ^ 63 ∧ ∃ m, (offset.toNat + size + 31) / 32 * 32 ≤ m ∧
      t.memory = splice (grown s.memory m) (offset.toNat % 2 ^ 32) (data value) := by
  unfold stores at h
  obtain ⟨⟨⟩, s₁, hop, h⟩ := Eff.bind_eq_ok.mp h
  obtain ⟨x, n, rfl⟩ := onOperation_ok hop
  obtain ⟨_, _, hsp, h⟩ := Eff.bind_eq_ok.mp h
  obtain ⟨rfl, rfl⟩ := sp_eq hoffset hsp rfl rfl
  obtain ⟨k, s₂, hint, h⟩ := Eff.bind_eq_ok.mp h
  obtain ⟨hlt, rfl, rfl⟩ := toInt63_ok hint
  obtain ⟨⟨⟩, s₃, hmem, h⟩ := Eff.bind_eq_ok.mp h
  obtain ⟨m, hm, rfl⟩ := updateMem_ok hmem
  obtain ⟨_, _, hsp, h⟩ := Eff.bind_eq_ok.mp h
  obtain ⟨rfl, rfl⟩ := sp_eq hoffset hsp rfl rfl
  obtain ⟨_, _, hsp, h⟩ := Eff.bind_eq_ok.mp h
  obtain ⟨rfl, rfl⟩ := sp_eq hvalue hsp rfl rfl
  cases h
  exact ⟨hlt, m, hm, rfl⟩

theorem stored_stores_iff {size : ℕ} (data : U256 → Bytes) (hsize : (data value).length = size)
    (hbound : size ≤ 32) (hoffset : sp 0 s = (.ok offset, s)) (hvalue : sp 1 s = (.ok value, s))
    (h : stores host size data s = (.ok l, t)) :
    Stored s.memory t.memory offset.toNat (data value) ↔ offset.toNat < 2 ^ 32 ∨
      StandsAt s.memory (low32 offset) (data value) ∧
        StandsAt s.memory offset.toNat (data value) := by
  obtain ⟨-, m, hm, hmemory⟩ := stores_ok data hoffset hvalue h
  rw [hmemory]
  exact stored_splice_iff (by omega) (by omega)

theorem holds_stores {size : ℕ} (data : U256 → Bytes) (hsize : (data value).length = size)
    (hoffset : sp 0 s = (.ok offset, s)) (hvalue : sp 1 s = (.ok value, s))
    (h : stores host size data s = (.ok l, t)) :
    StandsAt t.memory (low32 offset) (data value) := by
  obtain ⟨-, m, hm, hmemory⟩ := stores_ok data hoffset hvalue h
  intro j hj
  have hlow : offset.toNat % 2 ^ 32 ≤ offset.toNat := Nat.mod_le _ _
  have hlength := length_grown s.memory m
  unfold low32
  rw [hmemory, getD_splice (by omega), if_pos (by omega)]
  congr 1
  omega

theorem readStack_of_write {place : ℤ} {x : U256} {u : VM σ}
    (h : writeStack place x s = (.ok (), u)) (hstack : t.stack = u.stack) :
    readStack place t = (.ok x, t) := by
  unfold writeStack at h
  unfold readStack
  split_ifs at h ⊢ with hplace
  · cases h
    rw [hstack, Vector.getElem?_setIfInBounds_self_of_lt (by omega)]
    rfl
  · cases h

theorem mload_ok (hoffset : sp 0 s = (.ok offset, s)) (h : mload host s = (.ok l, t)) :
    ∃ m, offset.toNat + 32 ≤ m ∧ readStack s.SPP t =
      (.ok (BitVec.ofNat 256 (fromBigEndian (slice (grown s.memory m) (low32 offset) 32))), t) := by
  unfold mload at h
  obtain ⟨⟨⟩, s₁, hop, h⟩ := Eff.bind_eq_ok.mp h
  obtain ⟨x, n, rfl⟩ := onOperation_ok hop
  obtain ⟨_, _, hsp, h⟩ := Eff.bind_eq_ok.mp h
  obtain ⟨rfl, rfl⟩ := sp_eq hoffset hsp rfl rfl
  obtain ⟨k, s₂, hint, h⟩ := Eff.bind_eq_ok.mp h
  obtain ⟨hlt, rfl, rfl⟩ := toInt63_ok hint
  obtain ⟨⟨⟩, s₃, hmem, h⟩ := Eff.bind_eq_ok.mp h
  obtain ⟨m, hm, rfl⟩ := updateMem_ok hmem
  obtain ⟨_, _, hsp, h⟩ := Eff.bind_eq_ok.mp h
  obtain ⟨rfl, rfl⟩ := sp_eq hoffset hsp rfl rfl
  rw [Eff.get_bind_apply] at h
  obtain ⟨⟨⟩, s₄, hset, h⟩ := Eff.bind_eq_ok.mp h
  refine ⟨m, by omega, ?_⟩
  cases h
  exact readStack_of_write hset rfl

/-- A memory access goes on from a state with the same stack if the callback does not throw, the
offset has 63 bits and the memory can be had. -/
theorem access_total (size : ℕ) {s' : VM σ} (hoffset : sp 0 s = (.ok offset, s))
    (hlt : offset.toNat < 2 ^ 63) (halloc : s.memory.length < (offset.toNat + size + 31) / 32 * 32 →
      host.allocates ((offset.toNat + size + 31) / 32 * 32) = true)
    (hop : onOperation host s = (.ok (), s')) :
    ∃ t, t.stack = s.stack ∧ t.SP = s.SP ∧ t.SPP = s.SPP ∧ ∀ rest : VmM σ Leave, (do
      onOperation host
      updateMem host ((← toInt63 (← sp 0).toNat) + size)
      rest) s = rest t := by
  obtain ⟨x, n, heq⟩ := onOperation_ok hop
  have hstack : s'.stack = s.stack := by rw [heq]
  have hSP : s'.SP = s.SP := by rw [heq]
  have hmemory : s'.memory = s.memory := by rw [heq]
  have hint : toInt63 offset.toNat s' = (.ok offset.toNat, s') := by
    unfold toInt63
    rw [if_neg (by omega)]
    rfl
  obtain ⟨t, ht⟩ := updateMem_total (s := s') (by rwa [hmemory])
  obtain ⟨m, -, hm⟩ := updateMem_ok ht
  refine ⟨t, by rw [hm, heq], by rw [hm, heq], by rw [hm, heq], fun rest ↦ ?_⟩
  rw [Eff.bind_ok hop, Eff.bind_ok (sp_of_eq hoffset hstack hSP), Eff.bind_ok hint, Eff.bind_ok ht]

theorem setSpp_of_mem (h : 0 ≤ s.SPP ∧ s.SPP < 1024) (x : U256) :
    setSpp x s = (.ok (), { s with stack := s.stack.setIfInBounds s.SPP.toNat x }) :=
  if_pos h

theorem mload_total {s' : VM σ} (hoffset : sp 0 s = (.ok offset, s)) (hlt : offset.toNat < 2 ^ 63)
    (hcovers : (offset.toNat + 32 + 31) / 32 * 32 ≤ s.memory.length)
    (hSPP : 0 ≤ s.SPP ∧ s.SPP < 1024) (hop : onOperation host s = (.ok (), s')) :
    ∃ t, mload host s = (.ok .break, t) := by
  obtain ⟨t, hstack, hSP, hSPPt, hrest⟩ := access_total 32 hoffset hlt (fun h ↦ by omega) hop
  unfold mload
  rw [hrest, Eff.bind_ok (sp_of_eq hoffset hstack hSP), Eff.get_bind_apply]
  rw [← hSPPt] at hSPP
  rw [Eff.bind_ok (setSpp_of_mem hSPP _)]
  exact ⟨_, rfl⟩

theorem stores_total (host : Host σ) (size : ℕ) (data : U256 → Bytes) {s' : VM σ}
    (hoffset : sp 0 s = (.ok offset, s)) (hvalue : sp 1 s = (.ok value, s))
    (hlt : offset.toNat < 2 ^ 63) (halloc : ∀ n, host.allocates n = true)
    (hop : onOperation host s = (.ok (), s')) :
    ∃ t, stores host size data s = (.ok .break, t) := by
  obtain ⟨t, hstack, hSP, -, hrest⟩ := access_total size hoffset hlt (fun _ ↦ halloc _) hop
  unfold stores
  rw [hrest, Eff.bind_ok (sp_of_eq hoffset hstack hSP), Eff.bind_ok (sp_of_eq hvalue hstack hSP)]
  exact ⟨_, rfl⟩

theorem slice_of_holds {b data : Bytes} {place m : ℕ} (hdata : data.length ≤ 32)
    (hm : place + 32 ≤ m) (h : StandsAt b place data) :
    ∃ rest, slice (grown b m) place 32 = data ++ rest ∧ rest.length = 32 - data.length := by
  refine ⟨(slice (grown b m) place 32).drop data.length, ?_, ?_⟩
  · have hlength := length_grown b m
    have htake : (slice (grown b m) place 32).take data.length = data := by
      unfold slice
      rw [List.take_take, min_eq_left hdata]
      exact slice_eq_of_getD rfl (by omega) fun j hj ↦ (getD_grown b m _).trans (h j hj)
    conv_lhs => rw [← List.take_append_drop data.length (slice (grown b m) place 32), htake]
  · have hlength := length_grown b m
    unfold slice
    rw [List.length_drop, List.length_take, List.length_drop]
    omega

variable (host t offset value) in
/-- A later `MLOAD` at the offset, on any stack with a place for the result, ends well and leaves
the value there, unless the callback throws. -/
def LoadsBack : Prop :=
  ∀ u u' : VM σ, u.memory = t.memory → sp 0 u = (.ok offset, u) → 0 ≤ u.SPP ∧ u.SPP < 1024 →
    onOperation host u = (.ok (), u') →
      ∃ v, mload host u = (.ok .break, v) ∧ readStack u.SPP v = (.ok value, v)

variable (host t offset) in
/-- A later `MLOAD` at the offset that does not throw leaves a word whose first byte is `byte`. -/
def LoadsByte (byte : UInt8) : Prop :=
  ∀ (u v : VM σ) (l : Leave), u.memory = t.memory → sp 0 u = (.ok offset, u) →
    mload host u = (.ok l, v) →
      ∃ word, readStack u.SPP v = (.ok word, v) ∧ word.toNat / 256 ^ 31 = byte.toNat

theorem loadsBack_mstore (hoffset : sp 0 s = (.ok offset, s)) (hvalue : sp 1 s = (.ok value, s))
    (h : mstore host s = (.ok l, t)) : LoadsBack host t offset value := by
  intro u u' hmemory hu hSPP hop
  have hlow : low32 offset ≤ offset.toNat := Nat.mod_le _ _
  have hholds := holds_stores (fun value ↦ toBigEndian 32 value.toNat)
    (length_toBigEndian 32 _) hoffset hvalue h
  obtain ⟨hlt, m, hm, ht⟩ := stores_ok (fun value ↦ toBigEndian 32 value.toNat) hoffset hvalue h
  have hgrown := length_grown s.memory m
  have hlength : t.memory.length = max s.memory.length m := by
    rw [ht, length_splice (by rw [length_toBigEndian]; unfold low32 at hlow; omega), hgrown]
  obtain ⟨v, hv⟩ := mload_total hu hlt (by rw [hmemory]; omega) hSPP hop
  obtain ⟨k, hk, hread⟩ := mload_ok hu hv
  refine ⟨v, hv, ?_⟩
  obtain ⟨rest, hslice, hrest⟩ := slice_of_holds (b := u.memory) (length_toBigEndian 32 _).le
    (m := k) (by omega) (hmemory ▸ hholds)
  rw [length_toBigEndian, Nat.sub_self, List.length_eq_zero_iff] at hrest
  rw [hread, hslice, hrest, List.append_nil, fromBigEndian_toBigEndian_of_lt value.isLt,
    BitVec.ofNat_toNat, BitVec.setWidth_eq]

theorem loadsByte_mstore8 (hoffset : sp 0 s = (.ok offset, s)) (hvalue : sp 1 s = (.ok value, s))
    (h : mstore8 host s = (.ok l, t)) :
    LoadsByte host t offset (UInt8.ofNat (value &&& 0xff).toNat) := by
  intro u v l' hmemory hu hload
  have hlow : low32 offset ≤ offset.toNat := Nat.mod_le _ _
  have hholds : StandsAt u.memory (low32 offset) [UInt8.ofNat (value &&& 0xff).toNat] := by
    rw [hmemory]
    exact holds_stores (fun value ↦ [UInt8.ofNat (value &&& 0xff).toNat]) rfl hoffset hvalue h
  obtain ⟨k, hk, hread⟩ := mload_ok hu hload
  obtain ⟨rest, hslice, hrest⟩ := slice_of_holds (m := k) (by simp) (by omega) hholds
  have hbound : fromBigEndian rest < 256 ^ 31 := by
    have := fromBigEndian_lt rest
    rwa [hrest] at this
  have hbyte := (UInt8.ofNat (value &&& 0xff).toNat).toNat_lt
  refine ⟨_, hread, ?_⟩
  rw [hslice, List.singleton_append, fromBigEndian_cons, hrest, List.length_singleton,
    BitVec.toNat_ofNat, Nat.mod_eq_of_lt (by omega)]
  omega

/-- For every memory, offset and value for which `MSTORE` or `MSTORE8` does not throw: the memory
behaves as an array exactly if the offset fits in 32 bits, or if the place and the one at the low
32 bits of the offset hold the data already. -/
theorem memory_array_iff (host : Host σ) (s : VM σ) (offset value : U256)
    (hoffset : sp 0 s = (.ok offset, s)) (hvalue : sp 1 s = (.ok value, s)) :
    (∀ l t, mstore host s = (.ok l, t) →
      (Stored s.memory t.memory offset.toNat (toBigEndian 32 value.toNat) ∧
          LoadsBack host t offset value ↔
        offset.toNat < 2 ^ 32 ∨
          StandsAt s.memory (low32 offset) (toBigEndian 32 value.toNat) ∧
            StandsAt s.memory offset.toNat (toBigEndian 32 value.toNat))) ∧
      ∀ l t, mstore8 host s = (.ok l, t) →
        (Stored s.memory t.memory offset.toNat [UInt8.ofNat (value &&& 0xff).toNat] ∧
            LoadsByte host t offset (UInt8.ofNat (value &&& 0xff).toNat) ↔
          offset.toNat < 2 ^ 32 ∨
            StandsAt s.memory (low32 offset) [UInt8.ofNat (value &&& 0xff).toNat] ∧
              StandsAt s.memory offset.toNat [UInt8.ofNat (value &&& 0xff).toNat]) := by
  refine ⟨fun l t h ↦ ?_, fun l t h ↦ ?_⟩
  · have hiff := stored_stores_iff (fun value ↦ toBigEndian 32 value.toNat)
      (length_toBigEndian 32 _) (le_refl 32) hoffset hvalue h
    exact (and_iff_left (loadsBack_mstore hoffset hvalue h)).trans hiff
  · have hiff := stored_stores_iff (fun value ↦ [UInt8.ofNat (value &&& 0xff).toNat])
      rfl (by simp) hoffset hvalue h
    exact (and_iff_left (loadsByte_mstore8 hoffset hvalue h)).trans hiff

end Instructions

def twoItems (x y : U256) : VM Unit where
  extVM := ()
  stack := ((Vector.replicate 1024 0).set 1022 x).set 1023 y
  SP := 1022

theorem sp_zero_twoItems (x y : U256) : sp 0 (twoItems x y) = (.ok x, twoItems x y) := by
  simp [sp, readStack, twoItems]

theorem sp_one_twoItems (x y : U256) : sp 1 (twoItems x y) = (.ok y, twoItems x y) := by
  simp [sp, readStack, twoItems]

/-- The value 7 is stored at offset 64. -/
theorem memory_array_iff_word :
    ∃ t, mstore (plainHost []) (twoItems 64 7) = (.ok .break, t) ∧
      Stored [] t.memory 64 (toBigEndian 32 7) ∧ LoadsBack (plainHost []) t 64 7 := by
  obtain ⟨t, ht⟩ := stores_total (plainHost []) 32
    (fun value ↦ toBigEndian 32 value.toNat) (sp_zero_twoItems 64 7) (sp_one_twoItems 64 7)
    (by decide) (fun _ ↦ rfl) rfl
  have hlaw := (memory_array_iff (plainHost []) (twoItems 64 7) 64 7 (sp_zero_twoItems 64 7)
    (sp_one_twoItems 64 7)).1 .break t ht
  exact ⟨t, ht, hlaw.mpr (Or.inl (by decide))⟩

/-- The value 1 stored at offset 2^32 goes to the bytes 0 to 31. -/
theorem mstore_wraps :
    ∃ t, mstore (plainHost []) (twoItems 0x100000000 1) = (.ok .break, t) ∧
      t.memory.getD 31 0 = 1 ∧ t.memory.getD (2 ^ 32 + 31) 0 = 0 ∧
      ¬ Stored [] t.memory (2 ^ 32) (toBigEndian 32 1) := by
  obtain ⟨t, ht⟩ := stores_total (plainHost []) 32 (fun value ↦ toBigEndian 32 value.toNat)
    (sp_zero_twoItems 0x100000000 1) (sp_one_twoItems 0x100000000 1) (by decide) (fun _ ↦ rfl) rfl
  obtain ⟨-, m, hm, hmemory⟩ := stores_ok (fun value ↦ toBigEndian 32 value.toNat)
    (sp_zero_twoItems 0x100000000 1) (sp_one_twoItems 0x100000000 1) ht
  have hplace : (0x100000000 : U256).toNat = 2 ^ 32 := by decide
  have hone : (1 : U256).toNat = 1 := by decide
  rw [hplace, Nat.mod_self, hone] at hmemory
  have hempty : (twoItems 0x100000000 1).memory = [] := rfl
  have hlength := length_grown [] m
  have hroom : 0 + (toBigEndian 32 1).length ≤ (grown [] m).length := by
    rw [length_toBigEndian]
    omega
  have hget := getD_splice hroom
  rw [← hempty, ← hmemory, length_toBigEndian] at hget
  have hlow : t.memory.getD 31 0 = 1 := by
    rw [hget, if_pos (by decide)]
    decide
  have hhigh : t.memory.getD (2 ^ 32 + 31) 0 = 0 := by
    rw [hget, if_neg (by decide), getD_grown]
    rfl
  refine ⟨t, ht, hlow, hhigh, fun h ↦ ?_⟩
  have hwritten := h.written 31 (by decide)
  rw [hhigh] at hwritten
  revert hwritten
  decide

end VM

end GseNetwork.Vm
