import Mathlib

namespace GseNetwork.Foundation.BigEndian

abbrev Bytes := List UInt8

def bytesRequired (n : ℕ) : ℕ := if n = 0 then 0 else Nat.log2 n / 8 + 1

def toBigEndian : ℕ → ℕ → Bytes
  | 0, _ => []
  | w + 1, n => toBigEndian w (n / 256) ++ [UInt8.ofNat n]

def fromBigEndian (b : Bytes) : ℕ := b.foldl (fun r x ↦ r * 256 + x.toNat) 0

@[simp] theorem bytesRequired_zero : bytesRequired 0 = 0 := rfl

theorem bytesRequired_pos {n : ℕ} (h : n ≠ 0) : 0 < bytesRequired n := by
  simp only [bytesRequired, if_neg h]
  omega

theorem lt_pow_bytesRequired (n : ℕ) : n < 256 ^ bytesRequired n := by
  by_cases h : n = 0
  · subst h
    simp
  have hlog : n < 2 ^ (Nat.log2 n + 1) := Nat.lt_log2_self
  have hexp : Nat.log2 n + 1 ≤ 8 * (Nat.log2 n / 8 + 1) := by omega
  calc
    n < 2 ^ (Nat.log2 n + 1) := hlog
    _ ≤ 2 ^ (8 * (Nat.log2 n / 8 + 1)) := Nat.pow_le_pow_right (by decide) hexp
    _ = 256 ^ bytesRequired n := by simp only [bytesRequired, if_neg h, pow_mul]; norm_num

theorem pow_le_of_bytesRequired {n : ℕ} (h : n ≠ 0) : 256 ^ (bytesRequired n - 1) ≤ n := by
  have hlog : 2 ^ Nat.log2 n ≤ n := Nat.log2_self_le h
  calc
    256 ^ (bytesRequired n - 1) = 2 ^ (8 * (Nat.log2 n / 8)) := by
      simp only [bytesRequired, if_neg h, pow_mul, Nat.add_sub_cancel]; norm_num
    _ ≤ 2 ^ Nat.log2 n := Nat.pow_le_pow_right (by decide) (Nat.mul_div_le _ _)
    _ ≤ n := hlog

theorem bytesRequired_le {n w : ℕ} (h : n < 256 ^ w) : bytesRequired n ≤ w := by
  by_cases hn : n = 0
  · subst hn
    exact Nat.zero_le _
  have hlow := pow_le_of_bytesRequired hn
  have hlt : 256 ^ (bytesRequired n - 1) < 256 ^ w := hlow.trans_lt h
  have := (Nat.pow_lt_pow_iff_right (by decide : 1 < 256)).mp hlt
  omega

@[simp] theorem length_toBigEndian (w n : ℕ) : (toBigEndian w n).length = w := by
  induction w generalizing n with
  | zero => rfl
  | succ w ih => simp [toBigEndian, ih]

@[simp] theorem fromBigEndian_nil : fromBigEndian [] = 0 := rfl

@[simp] theorem fromBigEndian_append_singleton (b : Bytes) (x : UInt8) :
    fromBigEndian (b ++ [x]) = fromBigEndian b * 256 + x.toNat := by
  simp [fromBigEndian]

theorem fromBigEndian_toBigEndian (w n : ℕ) :
    fromBigEndian (toBigEndian w n) = n % 256 ^ w := by
  induction w generalizing n with
  | zero => simp [toBigEndian, Nat.mod_one]
  | succ w ih =>
    have hbyte : (UInt8.ofNat n).toNat = n % 256 := by simp
    rw [toBigEndian, fromBigEndian_append_singleton, ih, hbyte, pow_succ', Nat.mod_mul]
    ring

theorem fromBigEndian_toBigEndian_of_lt {w n : ℕ} (h : n < 256 ^ w) :
    fromBigEndian (toBigEndian w n) = n := by
  rw [fromBigEndian_toBigEndian, Nat.mod_eq_of_lt h]

theorem toNat_lt_pow {size : ℕ} (h : BitVec (8 * size)) : h.toNat < 256 ^ size := by
  have hlt := h.isLt
  rwa [pow_mul] at hlt

theorem ofNat_fromBigEndian_toBigEndian (size : ℕ) (h : BitVec (8 * size)) :
    BitVec.ofNat (8 * size) (fromBigEndian (toBigEndian size h.toNat)) = h := by
  rw [fromBigEndian_toBigEndian_of_lt (toNat_lt_pow h), BitVec.ofNat_toNat, BitVec.setWidth_eq]

theorem toBigEndian_injOn {w m n : ℕ} (hm : m < 256 ^ w) (hn : n < 256 ^ w)
    (h : toBigEndian w m = toBigEndian w n) : m = n := by
  rw [← fromBigEndian_toBigEndian_of_lt hm, h, fromBigEndian_toBigEndian_of_lt hn]

theorem toBigEndian_succ (w n : ℕ) :
    toBigEndian (w + 1) n = UInt8.ofNat (n / 256 ^ w) :: toBigEndian w n := by
  induction w generalizing n with
  | zero => simp [toBigEndian]
  | succ w ih =>
    rw [toBigEndian, ih, toBigEndian, List.cons_append, Nat.div_div_eq_div_mul, pow_succ']

/-- The compact big-endian form of a positive number has no leading zero. -/
theorem toBigEndian_bytesRequired {n : ℕ} (h : n ≠ 0) :
    ∃ x t, toBigEndian (bytesRequired n) n = x :: t ∧ x ≠ 0 := by
  have hpos := bytesRequired_pos h
  obtain ⟨w, hw⟩ : ∃ w, bytesRequired n = w + 1 := ⟨bytesRequired n - 1, by omega⟩
  have hlow := pow_le_of_bytesRequired h
  have hhigh := lt_pow_bytesRequired n
  rw [hw] at hlow hhigh
  rw [hw, toBigEndian_succ]
  refine ⟨_, _, rfl, ?_⟩
  have hq : 0 < n / 256 ^ w := Nat.div_pos (by simpa using hlow) (by positivity)
  have hq' : n / 256 ^ w < 256 := Nat.div_lt_of_lt_mul (by rwa [pow_succ] at hhigh)
  intro hzero
  have := congrArg UInt8.toNat hzero
  simp at this
  omega

theorem fromBigEndian_lt (b : Bytes) : fromBigEndian b < 256 ^ b.length := by
  induction b using List.reverseRecOn with
  | nil => simp
  | append_singleton b x ih =>
    have hx : x.toNat < 256 := x.toNat_lt
    rw [fromBigEndian_append_singleton, List.length_append, List.length_singleton, pow_succ]
    omega

theorem toBigEndian_fromBigEndian (b : Bytes) : toBigEndian b.length (fromBigEndian b) = b := by
  induction b using List.reverseRecOn with
  | nil => rfl
  | append_singleton b x ih =>
    have hx := x.toNat_lt
    have hdiv : (fromBigEndian b * 256 + x.toNat) / 256 = fromBigEndian b := by omega
    have hlow : UInt8.ofNat (fromBigEndian b * 256 + x.toNat) = x := by
      apply UInt8.toNat_inj.mp
      simp only [UInt8.toNat_ofNat']
      omega
    rw [fromBigEndian_append_singleton, List.length_append, List.length_singleton, toBigEndian,
      hdiv, ih, hlow]

theorem fromBigEndian_append (a b : Bytes) :
    fromBigEndian (a ++ b) = fromBigEndian a * 256 ^ b.length + fromBigEndian b := by
  induction b using List.reverseRecOn with
  | nil => simp
  | append_singleton b y ih =>
    rw [← List.append_assoc, fromBigEndian_append_singleton, ih, fromBigEndian_append_singleton,
      List.length_append, List.length_singleton, pow_succ]
    ring

theorem fromBigEndian_cons (x : UInt8) (b : Bytes) :
    fromBigEndian (x :: b) = x.toNat * 256 ^ b.length + fromBigEndian b := by
  have hsingle : fromBigEndian [x] = x.toNat := by simp [fromBigEndian]
  rw [← List.singleton_append, fromBigEndian_append, hsingle]

theorem bytesRequired_fromBigEndian {x : UInt8} (b : Bytes) (hx : x ≠ 0) :
    bytesRequired (fromBigEndian (x :: b)) = b.length + 1 := by
  have hpos : 0 < x.toNat := Nat.pos_of_ne_zero fun h ↦ hx (UInt8.toNat_inj.mp h)
  have hlow : 256 ^ b.length ≤ fromBigEndian (x :: b) := by
    rw [fromBigEndian_cons]
    have hmul := Nat.le_mul_of_pos_left (256 ^ b.length) hpos
    omega
  have hle : bytesRequired (fromBigEndian (x :: b)) ≤ b.length + 1 :=
    bytesRequired_le (fromBigEndian_lt (x :: b))
  refine le_antisymm hle (Nat.lt_of_not_le fun hge ↦ ?_)
  have hlt := lt_pow_bytesRequired (fromBigEndian (x :: b))
  have hmono : 256 ^ bytesRequired (fromBigEndian (x :: b)) ≤ 256 ^ b.length :=
    Nat.pow_le_pow_right (by decide) hge
  omega

end GseNetwork.Foundation.BigEndian
