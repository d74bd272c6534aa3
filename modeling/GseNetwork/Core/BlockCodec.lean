import GseNetwork.Core.Block
import GseNetwork.Core.RlpReading

namespace GseNetwork.Core

open Foundation.BigEndian Foundation.SelfDelimiting RLP

section Items

variable {x y : Bytes} {xs ys : List Bytes} {size : ℕ}

theorem delimited_encodeHash (hsize : size < maxLength) (h : BitVec (8 * size)) :
    Delimited sizeAsEncoded (encodeHash size h) :=
  delimited_encodeBytes (by rwa [length_toBigEndian])

theorem delimited_encodeInt (n : UInt64) : Delimited sizeAsEncoded (encodeInt n.toNat) := by
  rw [encodeInt_natCast]
  have hle := bytesRequired_uint64 n
  refine delimited_encodeBytes ?_
  rw [length_toBigEndian]
  exact hle.trans_lt (by decide)

theorem encodeBytes_inj (hx : x.length < maxLength) (hy : y.length < maxLength)
    (h : encodeBytes x = encodeBytes y) : x = y := by
  obtain ⟨_, hframex⟩ := framed_encodeBytes hx
  obtain ⟨_, hframey⟩ := framed_encodeBytes hy
  have hpayload := hframex.payload_eq
  rw [h, hframey.payload_eq] at hpayload
  exact (Except.ok.inj hpayload).symm

theorem encodeHash_inj (hsize : size < maxLength) {h k : BitVec (8 * size)}
    (heq : encodeHash size h = encodeHash size k) : h = k := by
  have hread := toHash_encodeHash hsize h
  rw [heq, toHash_encodeHash hsize k] at hread
  exact (Except.ok.inj hread).symm

theorem bytesRequired_mono {m n : ℕ} (h : m ≤ n) : bytesRequired m ≤ bytesRequired n :=
  bytesRequired_le (h.trans_lt (lt_pow_bytesRequired n))

theorem length_listHead (n : ℕ) : (RLPStream.listHead n).length =
    if n < rlpListImmLenCount then 1 else 1 + bytesRequired n := by
  unfold RLPStream.listHead
  split
  · rfl
  · rw [RLPStream.pushCount, List.length_cons, length_toBigEndian, Nat.add_comm]

theorem listHead_strict {m n : ℕ} (h : m < n) :
    (RLPStream.listHead m).length + m < (RLPStream.listHead n).length + n := by
  have hmono := bytesRequired_mono h.le
  rw [length_listHead, length_listHead]
  split_ifs <;> omega

theorem flatten_eq_of_encodeList (h : encodeList xs = encodeList ys) :
    xs.flatten = ys.flatten := by
  unfold encodeList at h
  have hsum := congrArg List.length h
  rw [List.length_append, List.length_append] at hsum
  have hlen : xs.flatten.length = ys.flatten.length := by
    rcases Nat.lt_trichotomy xs.flatten.length ys.flatten.length with hlt | heq | hgt
    · have := listHead_strict hlt
      omega
    · exact heq
    · have := listHead_strict hgt
      omega
  exact (List.append_inj' h hlen).2

/-- The first items of two concatenations that agree are the same, and so is the rest. -/
theorem peel (hx : Delimited sizeAsEncoded x) (hy : Delimited sizeAsEncoded y)
    (h : (x :: xs).flatten = (y :: ys).flatten) : x = y ∧ xs.flatten = ys.flatten := by
  rw [List.flatten_cons, List.flatten_cons] at h
  exact hx.append_inj hy h

end Items

namespace BlockHeader

variable {x y : BlockHeader}

def fields (x : BlockHeader) : List Bytes :=
  [encodeInt x.chainID.toNat, encodeHash 20 x.producer, encodeHash 32 x.parentHash,
    encodeHash 32 x.mklRoot, encodeHash 32 x.transactionsRoot, encodeHash 32 x.receiptRoot,
    encodeInt x.number.toNat, encodeInt x.timestamp.toInt, encodeBytes x.extra]

def content (x : BlockHeader) : Bytes := (x.streamRLPContent {}).out

theorem content_eq (x : BlockHeader) : x.content = encodeList x.fields := by
  have h := RLPStream.appendList_items {} x.fields
  simp only [fields, List.foldl_cons, List.foldl_nil, List.length_cons, List.length_nil] at h
  rw [content, streamRLPContent, RLPStream.append_eq, RLPStream.appendInt_eq,
    RLPStream.appendInt_eq, RLPStream.appendHash_eq, RLPStream.appendHash_eq,
    RLPStream.appendHash_eq, RLPStream.appendHash_eq, RLPStream.appendHash_eq,
    RLPStream.appendInt_eq, h, RLPStream.out_appendRaw]
  rfl

/-- What the hashed content of a header determines without regard to the sign of the time. -/
theorem eq_of_content (h : x.content = y.content) :
    x.parentHash = y.parentHash ∧ x.mklRoot = y.mklRoot ∧
      x.transactionsRoot = y.transactionsRoot ∧ x.receiptRoot = y.receiptRoot := by
  rw [content_eq, content_eq] at h
  have h20 : 20 < maxLength := by decide
  have h32 : 32 < maxLength := by decide
  have hhash : ∀ k : H256, Delimited sizeAsEncoded (encodeHash 32 k) := delimited_encodeHash h32
  have hflat := flatten_eq_of_encodeList h
  obtain ⟨-, hflat⟩ := peel (delimited_encodeInt x.chainID) (delimited_encodeInt y.chainID) hflat
  obtain ⟨-, hflat⟩ := peel (delimited_encodeHash h20 x.producer)
    (delimited_encodeHash h20 y.producer) hflat
  obtain ⟨hparent, hflat⟩ := peel (hhash x.parentHash) (hhash y.parentHash) hflat
  obtain ⟨hmkl, hflat⟩ := peel (hhash x.mklRoot) (hhash y.mklRoot) hflat
  obtain ⟨htransactions, hflat⟩ := peel (hhash x.transactionsRoot) (hhash y.transactionsRoot) hflat
  obtain ⟨hreceipt, -⟩ := peel (hhash x.receiptRoot) (hhash y.receiptRoot) hflat
  exact ⟨encodeHash_inj h32 hparent, encodeHash_inj h32 hmkl, encodeHash_inj h32 htransactions,
    encodeHash_inj h32 hreceipt⟩

end BlockHeader

end GseNetwork.Core
