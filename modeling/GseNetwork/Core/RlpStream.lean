import GseNetwork.Core.Rlp

namespace GseNetwork.Core

open Foundation.BigEndian

/-- The writer: bytes written so far, and for every list still open, innermost first, the
number of items it waits for and the position its payload starts at. -/
structure RLPStream where
  out : Bytes := []
  listStack : List (ℕ × ℕ) := []
  deriving DecidableEq, Repr

namespace RLPStream

def pushCount (count : ℕ) (base : UInt8) : Bytes :=
  (base + UInt8.ofNat (bytesRequired count)) :: toBigEndian (bytesRequired count) count

def dataHead (size : ℕ) : Bytes :=
  if size < rlpDataImmLenCount then [rlpDataImmLenStart + UInt8.ofNat size]
  else pushCount size rlpDataIndLenZero

def listHead (size : ℕ) : Bytes :=
  if size < rlpListImmLenCount then [rlpListStart + UInt8.ofNat size]
  else pushCount size rlpListIndLenZero

/-- The loop of `noteAppended`: a list that is complete gets its head, and counts as one item
of the list around it. -/
def closeLists : Bytes → List (ℕ × ℕ) → ℕ → RLPStream
  | out, [], _ => ⟨out, []⟩
  | out, (remaining, p) :: rest, itemCount =>
    if remaining - itemCount ≠ 0 then ⟨out, (remaining - itemCount, p) :: rest⟩
    else closeLists (out.take p ++ listHead (out.length - p) ++ out.drop p) rest 1

def noteAppended (s : RLPStream) (itemCount : ℕ) : RLPStream :=
  if itemCount = 0 then s else closeLists s.out s.listStack itemCount

def appendRaw (s : RLPStream) (rlp : Bytes) (itemCount : ℕ := 1) : RLPStream :=
  noteAppended { s with out := s.out ++ rlp } itemCount

def appendList (s : RLPStream) (items : ℕ) : RLPStream :=
  if items ≠ 0 then { s with listStack := (items, s.out.length) :: s.listStack }
  else appendRaw { s with out := s.out ++ listHead 0 } []

def append (s : RLPStream) (b : Bytes) : RLPStream :=
  if b.length = 1 ∧ b.getD 0 0 < rlpDataImmLenStart then
    noteAppended { s with out := s.out ++ b } 1
  else noteAppended (appendRaw { s with out := s.out ++ dataHead b.length } b 0) 1

/-- `append(bigint)`. A negative number takes the branch of the small ones, which pushes its
low byte. -/
def appendInt (s : RLPStream) (i : ℤ) : RLPStream :=
  if i = 0 then noteAppended { s with out := s.out ++ [rlpDataImmLenStart] } 1
  else if i < 0x80 then noteAppended { s with out := s.out ++ [UInt8.ofNat (i % 256).toNat] } 1
  else
    let br := bytesRequired i.toNat
    noteAppended { s with out := s.out ++ dataHead br ++ toBigEndian br i.toNat } 1

def appendHash (size : ℕ) (s : RLPStream) (h : BitVec (8 * size)) : RLPStream :=
  append s (toBigEndian size h.toNat)

end RLPStream

def encodeBytes (b : Bytes) : Bytes :=
  if b.length = 1 ∧ b.getD 0 0 < rlpDataImmLenStart then b
  else RLPStream.dataHead b.length ++ b

def encodeInt (i : ℤ) : Bytes :=
  if i = 0 then [rlpDataImmLenStart]
  else if i < 0x80 then [UInt8.ofNat (i % 256).toNat]
  else RLPStream.dataHead (bytesRequired i.toNat) ++ toBigEndian (bytesRequired i.toNat) i.toNat

def encodeHash (size : ℕ) (h : BitVec (8 * size)) : Bytes := encodeBytes (toBigEndian size h.toNat)

def encodeList (items : List Bytes) : Bytes :=
  RLPStream.listHead items.flatten.length ++ items.flatten

namespace RLPStream

theorem append_eq (s : RLPStream) (b : Bytes) : s.append b = s.appendRaw (encodeBytes b) := by
  unfold append encodeBytes appendRaw
  split
  · rfl
  · simp [noteAppended, List.append_assoc]

theorem appendInt_eq (s : RLPStream) (i : ℤ) : s.appendInt i = s.appendRaw (encodeInt i) := by
  unfold appendInt encodeInt appendRaw
  split
  · rfl
  · split
    · rfl
    · simp [List.append_assoc]

theorem appendHash_eq (size : ℕ) (s : RLPStream) (h : BitVec (8 * size)) :
    s.appendHash size h = s.appendRaw (encodeHash size h) :=
  append_eq s _

/-- Appending the announced number of items closes the list, which then counts as one item. -/
theorem foldl_appendRaw_closes (out written : Bytes) (stack : List (ℕ × ℕ)) (items : List Bytes)
    (h : items ≠ []) :
    items.foldl (fun s x ↦ s.appendRaw x)
        ⟨out ++ written, (items.length, out.length) :: stack⟩ =
      closeLists (out ++ listHead (written ++ items.flatten).length ++
        (written ++ items.flatten)) stack 1 := by
  induction items generalizing written with
  | nil => exact absurd rfl h
  | cons x xs ih =>
    cases xs with
    | nil =>
      simp only [List.foldl_cons, List.foldl_nil, appendRaw, noteAppended, Nat.one_ne_zero,
        if_false, closeLists, List.length_singleton, Nat.sub_self, ne_eq, not_true_eq_false,
        List.flatten_cons, List.flatten_nil, List.append_nil, List.append_assoc,
        List.take_left, List.drop_left, List.length_append]
      congr 4
      omega
    | cons y ys =>
      have hstep : (⟨out ++ written, ((x :: y :: ys).length, out.length) :: stack⟩ :
          RLPStream).appendRaw x =
          ⟨out ++ (written ++ x), ((y :: ys).length, out.length) :: stack⟩ := by
        simp [appendRaw, noteAppended, closeLists, List.append_assoc]
      rw [List.foldl_cons, hstep, ih (written ++ x) (by simp)]
      simp [List.append_assoc]

/-- A list of items, announced and appended one by one, is written as one item. -/
theorem appendList_items (s : RLPStream) (items : List Bytes) :
    items.foldl (fun s x ↦ s.appendRaw x) (s.appendList items.length) =
      s.appendRaw (encodeList items) := by
  cases items with
  | nil => simp [appendList, appendRaw, noteAppended, encodeList]
  | cons x xs =>
    have h := foldl_appendRaw_closes s.out [] s.listStack (x :: xs) (by simp)
    simp only [List.append_nil, List.nil_append] at h
    simp only [appendList, List.length_cons, ne_eq, Nat.add_eq_zero_iff, one_ne_zero, and_false,
      not_false_eq_true, if_true] at h ⊢
    rw [h]
    simp [appendRaw, noteAppended, encodeList, List.append_assoc]

@[simp] theorem out_appendRaw (b : Bytes) : (appendRaw {} b).out = b := by
  simp [appendRaw, noteAppended, closeLists]

end RLPStream

end GseNetwork.Core
