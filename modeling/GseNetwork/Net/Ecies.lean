import GseNetwork.Net.SecureCoder

namespace GseNetwork.Net

open GseNetwork.Core GseNetwork.Foundation.BigEndian GseNetwork.Foundation.KeyStream

section Ecies

variable (p : Primitives)

/-- The loop of `ecies::kdf`: the hashes of a counter, the secret and `s1`. -/
def kdfLoop (z : Secret) (s1 : Bytes) : ℕ → UInt32 → Bytes
  | 0, _ => []
  | reps + 1, ctr =>
    toBigEndian 32 (p.sha256 (toBigEndian 4 ctr.toNat ++ toBigEndian 32 z.toNat ++ s1)).toNat ++
      kdfLoop z s1 reps (ctr + 1)

def kdf (z : Secret) (s1 : Bytes) (kdByteLen : ℕ) : Bytes :=
  let reps := (kdByteLen + 7) * 8 / 512
  let k := kdfLoop p z s1 (reps + 1) 1
  (k ++ List.replicate kdByteLen 0).take kdByteLen

/-- `encryptAES128CTR`, and `decryptAES128CTR`, which does the same. -/
def aes128CTR (k : Bytes) (iv : H128) (text : Bytes) : Bytes :=
  if k.length ≠ 16 ∧ k.length ≠ 24 ∧ k.length ≠ 32 then []
  else (Ctr.processData p { key := k, iv := iv } text).1

def eciesKeys (key : Bytes) : Bytes × Bytes :=
  (key.take 16, toBigEndian 32 (p.sha256 ((key.drop 16).take 16)).toNat)

/-- `encryptECIES`, with the random key pair and the random vector it draws. The result of `agree`
is not looked at, and an empty text is left as it is. -/
def encryptECIES (k : Public) (sharedMacData : Bytes) (r : Secret) (iv : H128) (plain : Bytes) :
    Bytes :=
  let z := (p.agree r k).getD 0
  let (eKey, mKey) := eciesKeys p (kdf p z [] 32)
  let cipherText := aes128CTR p eKey iv plain
  if cipherText.isEmpty then plain
  else
    let cipherWithIV := toBigEndian 16 iv.toNat ++ cipherText
    0x04 :: toBigEndian 64 (p.toPublic r).toNat ++ cipherWithIV ++
      toBigEndian 32 (p.hmac mKey (cipherWithIV ++ sharedMacData)).toNat

def eciesOverhead : ℕ := 1 + 64 + 16 + 32

def decryptECIES (k : Secret) (sharedMacData : Bytes) (text : Bytes) : Option Bytes :=
  if text.isEmpty ∨ RLP.byteAt text 0 < 2 ∨ 4 < RLP.byteAt text 0 then none
  else if text.length < 1 + 64 + 16 + 1 + 32 then none
  else do
    let z ← p.agree k (BitVec.ofNat 512 (fromBigEndian ((text.drop 1).take 64)))
    let (eKey, mKey) := eciesKeys p (kdf p z [] 64)
    let cipherLen := text.length - 1 - 64 - 16 - 32
    let cipherWithIV := (text.drop 65).take (16 + cipherLen)
    let cipherIV := cipherWithIV.take 16
    let cipherNoIV := cipherWithIV.drop 16
    let msgMac := text.drop (65 + 16 + cipherLen)
    if msgMac ≠ toBigEndian 32 (p.hmac mKey (cipherWithIV ++ sharedMacData)).toNat then none
    else return aes128CTR p eKey (BitVec.ofNat 128 (fromBigEndian cipherIV)) cipherNoIV

end Ecies

section RoundTrip

variable {p : Primitives} {stream : Bytes → H128 → ℕ → UInt8}

theorem kdfLoop_succ (z : Secret) (s1 : Bytes) (reps : ℕ) (ctr : UInt32) :
    ∃ rest, kdfLoop p z s1 (reps + 1) ctr = kdfLoop p z s1 1 ctr ++ rest :=
  ⟨_, by simp only [kdfLoop, List.append_nil]; rfl⟩

theorem length_kdfLoop (z : Secret) (s1 : Bytes) (reps : ℕ) (ctr : UInt32) :
    (kdfLoop p z s1 reps ctr).length = 32 * reps := by
  induction reps generalizing ctr with
  | zero => rfl
  | succ reps ih =>
    rw [kdfLoop, List.length_append, length_toBigEndian, ih]
    omega

/-- The sender asks for 32 bytes and the receiver for 64, of which the first are the same. -/
theorem kdf_take (z : Secret) : (kdf p z [] 64).take 32 = kdf p z [] 32 := by
  obtain ⟨rest, hrest⟩ := kdfLoop_succ (p := p) z [] 1 1
  have hlen : (kdfLoop p z [] 1 1).length = 32 := length_kdfLoop _ _ _ _
  have h64 : kdf p z [] 64 = (kdfLoop p z [] 2 1 ++ List.replicate 64 0).take 64 := rfl
  have h32 : kdf p z [] 32 = (kdfLoop p z [] 1 1 ++ List.replicate 32 0).take 32 := rfl
  rw [h64, h32, hrest, List.take_take, List.append_assoc, List.take_left' hlen]
  exact List.take_left' hlen

theorem eciesKeys_kdf (z : Secret) : eciesKeys p (kdf p z [] 64) = eciesKeys p (kdf p z [] 32) := by
  rw [← kdf_take]
  simp only [eciesKeys, List.take_take, List.drop_take]
  rfl

theorem length_kdf (z : Secret) (n : ℕ) : (kdf p z [] n).length = n := by
  simp [kdf]

theorem aes128CTR_eq (hctr : p.CounterMode stream) {k : Bytes} (h : k.length = 16) (iv : H128)
    (text : Bytes) : aes128CTR p k iv text = mask (stream k iv) 0 text := by
  rw [aes128CTR, if_neg (by omega)]
  exact hctr k iv 0 text

theorem length_eKey (z : Secret) : (eciesKeys p (kdf p z [] 32)).1.length = 16 := by
  rw [eciesKeys, List.length_take, length_kdf]
  rfl

theorem encryptECIES_eq (hctr : p.CounterMode stream) (k : Public) (shared : Bytes) (r : Secret)
    (iv : H128) {plain : Bytes} (h : plain ≠ []) :
    let keys := eciesKeys p (kdf p ((p.agree r k).getD 0) [] 32)
    let cipherWithIV := toBigEndian 16 iv.toNat ++ mask (stream keys.1 iv) 0 plain
    encryptECIES p k shared r iv plain =
      0x04 :: toBigEndian 64 (p.toPublic r).toNat ++ cipherWithIV ++
        toBigEndian 32 (p.hmac keys.2 (cipherWithIV ++ shared)).toNat := by
  intro keys cipherWithIV
  have htext : aes128CTR p keys.1 iv plain = mask (stream keys.1 iv) 0 plain :=
    aes128CTR_eq hctr (length_eKey _) iv plain
  have hne : (mask (stream keys.1 iv) 0 plain).isEmpty = false := by
    rw [List.isEmpty_eq_false_iff, ← List.length_pos_iff, length_mask]
    exact List.length_pos_iff.mpr h
  unfold encryptECIES
  simp only [htext, hne, keys, cipherWithIV, Bool.false_eq_true, if_false]

theorem length_encryptECIES (hctr : p.CounterMode stream) (k : Public) (shared : Bytes) (r : Secret)
    (iv : H128) {plain : Bytes} (h : plain ≠ []) :
    (encryptECIES p k shared r iv plain).length = plain.length + eciesOverhead := by
  rw [encryptECIES_eq hctr k shared r iv h]
  simp only [List.length_append, List.length_cons, length_toBigEndian, length_mask, eciesOverhead]
  omega

theorem decryptECIES_parts {k z : Secret} {shared key cipherWithIV tag : Bytes}
    (hkey : key.length = 64) (hcipher : 16 < cipherWithIV.length) (htag : tag.length = 32)
    (hz : p.agree k (BitVec.ofNat 512 (fromBigEndian key)) = some z)
    (hmac : tag = toBigEndian 32
      (p.hmac (eciesKeys p (kdf p z [] 64)).2 (cipherWithIV ++ shared)).toNat) :
    decryptECIES p k shared (0x04 :: (key ++ (cipherWithIV ++ tag))) =
      some (aes128CTR p (eciesKeys p (kdf p z [] 64)).1
        (BitVec.ofNat 128 (fromBigEndian (cipherWithIV.take 16))) (cipherWithIV.drop 16)) := by
  generalize htext : (0x04 :: (key ++ (cipherWithIV ++ tag)) : Bytes) = text
  have hfirst : RLP.byteAt text 0 = 4 := by
    rw [← htext]
    rfl
  have hne : text.isEmpty = false := by
    rw [← htext]
    rfl
  have hlen : text.length = 97 + cipherWithIV.length := by
    rw [← htext, List.length_cons, List.length_append, List.length_append, hkey, htag]
    omega
  have hrest : text.drop 1 = key ++ (cipherWithIV ++ tag) := by
    rw [← htext]
    rfl
  have hpublic : (text.drop 1).take 64 = key := by rw [hrest, List.take_left' hkey]
  have hafter : text.drop 65 = cipherWithIV ++ tag := by
    rw [show 65 = 1 + 64 from rfl, ← List.drop_drop, hrest, List.drop_left' hkey]
  have hcipherLen : 16 + (text.length - 1 - 64 - 16 - 32) = cipherWithIV.length := by omega
  have hmacAt : text.drop (65 + 16 + (text.length - 1 - 64 - 16 - 32)) = tag := by
    rw [Nat.add_assoc, hcipherLen, ← List.drop_drop, hafter, List.drop_left' rfl]
  unfold decryptECIES
  rw [if_neg (by rw [hne, hfirst]; decide), if_neg (by omega), hpublic, hz]
  simp only [hafter, hcipherLen, hmacAt, List.take_left' rfl]
  change (if tag ≠ _ then none else some _) = _
  rw [if_neg (not_not.mpr hmac)]

theorem decryptECIES_encryptECIES (hctr : p.CounterMode stream) {k r z : Secret}
    (hz : p.agree r (p.toPublic k) = some z) (hz' : p.agree k (p.toPublic r) = some z)
    (shared : Bytes) (iv : H128) {plain : Bytes} (h : plain ≠ []) :
    decryptECIES p k shared (encryptECIES p (p.toPublic k) shared r iv plain) = some plain := by
  have hpublic : BitVec.ofNat 512 (fromBigEndian (toBigEndian 64 (p.toPublic r).toNat)) =
      p.toPublic r :=
    ofNat_fromBigEndian_toBigEndian 64 (p.toPublic r)
  have hiv : BitVec.ofNat 128 (fromBigEndian (toBigEndian 16 iv.toNat)) = iv :=
    ofNat_fromBigEndian_toBigEndian 16 iv
  rw [encryptECIES_eq hctr (p.toPublic k) shared r iv h, hz]
  simp only [Option.getD_some, List.cons_append, List.append_assoc]
  rw [← List.append_assoc (toBigEndian 16 iv.toNat)]
  rw [decryptECIES_parts (z := z) (length_toBigEndian _ _)
    (by simpa using List.length_pos_iff.mpr h) (length_toBigEndian _ _)
    (by rw [hpublic]; exact hz') (by rw [eciesKeys_kdf]; simp),
    List.take_left' (length_toBigEndian _ _), List.drop_left' (length_toBigEndian _ _), hiv,
    eciesKeys_kdf, aes128CTR_eq hctr (length_eKey z), mask_mask]

end RoundTrip

end GseNetwork.Net
