import GseNetwork.Core.Trie
import GseNetwork.Foundation.PairTree

namespace GseNetwork.Core.Trie

open Foundation.PairTree

variable {sha3 : Bytes → H256}

theorem makeTrieLeft_makeTrieRight (value : H256) :
    makeTrieLeft (makeTrieRight value) = makeTrieLeft value := by
  unfold makeTrieLeft makeTrieRight
  ext i hi
  simp only [BitVec.getElem_and, BitVec.getElem_or, BitVec.getElem_not]
  cases value[i] <;> cases (1#256 <<< 255)[i] <;> rfl

theorem pairUp_eq_level (ids : List H256) : pairUp sha3 ids = level (hashPair sha3) ids := by
  induction ids using pairUp.induct with
  | case1 => rfl
  | case2 x => rfl
  | case3 x y rest ih =>
    rw [pairUp, ih]
    rfl

theorem merkleLoop_eq {fuel : ℕ} {ids : List H256} (hne : ids ≠ [])
    (hfuel : ids.length ≤ fuel + 1) :
    [merkleLoop sha3 fuel ids] = (level (hashPair sha3))^[Nat.clog 2 ids.length] ids := by
  induction fuel generalizing ids with
  | zero =>
    match ids with
    | [x] => rfl
    | x :: y :: rest => exact absurd hfuel (by simp)
  | succ fuel ih =>
    match ids with
    | [x] => rfl
    | x :: y :: rest =>
      have hlength : 2 ≤ (x :: y :: rest).length := by simp
      have hround : (level (hashPair sha3) (x :: y :: rest)).length =
          ((x :: y :: rest).length + 1) / 2 := length_level _ _
      rw [← clog_length_level (hashPair sha3) hlength, Function.iterate_succ_apply, merkleLoop,
        pairUp_eq_level]
      · refine ih ?_ (by omega)
        rw [← List.length_pos_iff]
        omega
      · simp
      · simp

theorem merkle_eq {ids : List H256} (hne : ids ≠ []) :
    [merkle sha3 ids] = (level (hashPair sha3))^[Nat.clog 2 ids.length] ids :=
  merkleLoop_eq hne (Nat.le_succ _)

def sha3Pair (sha3 : Bytes → H256) (input : H256 × H256) : H256 :=
  sha3 (hexBytes input.1 ++ hexBytes input.2)

def merklePairs (sha3 : Bytes → H256) (ids : List H256) : List (H256 × H256) :=
  (hashedPairs (hashPair sha3) (Nat.clog 2 ids.length) ids).map fun p ↦
    (makeTrieLeft p.1, makeTrieRight p.2)

def CollisionFree (sha3 : Bytes → H256) (s : List (H256 × H256)) : Prop :=
  ∀ p ∈ s, ∀ q ∈ s, makeTrieLeft (sha3Pair sha3 p) = makeTrieLeft (sha3Pair sha3 q) → p = q

theorem binding_of_collisionFree {s : List (H256 × H256)}
    (h : CollisionFree sha3 (s.map fun p ↦ (makeTrieLeft p.1, makeTrieRight p.2))) :
    Binding (hashPair sha3) makeTrieLeft s := by
  intro p hp q hq hkey
  have hsame := h _ (List.mem_map_of_mem hp) _ (List.mem_map_of_mem hq) hkey
  obtain ⟨hleft, hright⟩ := Prod.mk.inj hsame
  refine ⟨hleft, ?_⟩
  rw [← makeTrieLeft_makeTrieRight p.2, hright, makeTrieLeft_makeTrieRight]

theorem merkle_binds {ids ids' : List H256} (hne : ids ≠ []) (hne' : ids' ≠ [])
    (hdistinct : (ids.map makeTrieLeft).Nodup) (hdistinct' : (ids'.map makeTrieLeft).Nodup)
    (hdepth : Nat.clog 2 ids.length = Nat.clog 2 ids'.length)
    (hfree : CollisionFree sha3 (merklePairs sha3 ids ++ merklePairs sha3 ids'))
    (h : merkle sha3 ids = merkle sha3 ids') :
    ids.length = ids'.length ∧ ∀ (i : ℕ) x y, ids[i]? = some x → ids'[i]? = some y →
      makeTrieLeft x = makeTrieLeft y := by
  have hbinding : Binding (hashPair sha3) makeTrieLeft
      (hashedPairs (hashPair sha3) (Nat.clog 2 ids.length) ids ++
        hashedPairs (hashPair sha3) (Nat.clog 2 ids.length) ids') := by
    refine binding_of_collisionFree ?_
    rw [List.map_append]
    unfold merklePairs at hfree
    rw [← hdepth] at hfree
    exact hfree
  have hroot : (level (hashPair sha3))^[Nat.clog 2 ids.length] ids =
      (level (hashPair sha3))^[Nat.clog 2 ids.length] ids' := by
    rw [← merkle_eq hne, h, merkle_eq hne', hdepth]
  have hkeys : ids.map makeTrieLeft = ids'.map makeTrieLeft :=
    iterate_level_inj hdistinct hdistinct' hbinding (congrArg (List.map makeTrieLeft) hroot)
  refine ⟨?_, fun i x y hx hy ↦ ?_⟩
  · have hlength := congrArg List.length hkeys
    rwa [List.length_map, List.length_map] at hlength
  · have hi := congrArg (fun l ↦ l[i]?) hkeys
    simp only [List.getElem?_map, hx, hy, Option.map_some, Option.some.injEq] at hi
    exact hi

theorem merklePairs_pair (x y : H256) :
    merklePairs sha3 [x, y] = [(makeTrieLeft x, makeTrieRight y)] := by
  have hdepth : Nat.clog 2 [x, y].length = 1 := by
    rw [← clog_length_level (hashPair sha3) (le_refl 2)]
    rfl
  unfold merklePairs
  rw [hdepth]
  rfl

/-- Two ids, the second with and without its first bit. -/
theorem merkle_binds_two :
    [(1 : H256), 2].length = [(1 : H256), makeTrieRight 2].length ∧
      ∀ (i : ℕ) x y, [(1 : H256), 2][i]? = some x → [(1 : H256), makeTrieRight 2][i]? = some y →
        makeTrieLeft x = makeTrieLeft y := by
  let sha3 : Bytes → H256 := fun data ↦ BitVec.ofNat 256 (Foundation.BigEndian.fromBigEndian data)
  have hright : makeTrieRight (makeTrieRight 2) = makeTrieRight 2 := by decide
  have hpairs : ∀ p ∈ merklePairs sha3 [1, 2] ++ merklePairs sha3 [1, makeTrieRight 2],
      p = (makeTrieLeft 1, makeTrieRight 2) := by
    intro p hp
    rw [merklePairs_pair, merklePairs_pair, hright] at hp
    simpa using hp
  have hroot : merkle sha3 [1, 2] = merkle sha3 [1, makeTrieRight 2] := by
    change hashPair sha3 1 2 = hashPair sha3 1 (makeTrieRight 2)
    unfold hashPair
    rw [hright]
  refine merkle_binds (by simp) (by simp) (by decide) (by decide) rfl ?_ hroot
  intro p hp q hq _
  rw [hpairs p hp, hpairs q hq]

end GseNetwork.Core.Trie
