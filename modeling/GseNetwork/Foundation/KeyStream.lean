import Mathlib

namespace GseNetwork.Foundation.KeyStream

/-- The bytes XORed with a key stream from byte `offset` of it on. -/
def mask (stream : ℕ → UInt8) : ℕ → List UInt8 → List UInt8
  | _, [] => []
  | offset, x :: xs => (x ^^^ stream offset) :: mask stream (offset + 1) xs

variable (stream : ℕ → UInt8) (offset : ℕ)

@[simp] theorem length_mask (b : List UInt8) : (mask stream offset b).length = b.length := by
  induction b generalizing offset with
  | nil => rfl
  | cons x b ih => rw [mask, List.length_cons, ih, List.length_cons]

theorem mask_append (a b : List UInt8) :
    mask stream offset (a ++ b) = mask stream offset a ++ mask stream (offset + a.length) b := by
  induction a generalizing offset with
  | nil => rfl
  | cons x a ih =>
    rw [List.cons_append, mask, ih, mask, List.cons_append, List.length_cons, Nat.add_assoc,
      Nat.add_comm 1]

@[simp] theorem mask_mask (b : List UInt8) : mask stream offset (mask stream offset b) = b := by
  induction b generalizing offset with
  | nil => rfl
  | cons x b ih => rw [mask, mask, ih, UInt8.xor_assoc, UInt8.xor_self, UInt8.xor_zero]

theorem zipWith_mask (a b : List UInt8) :
    List.zipWith (· ^^^ ·) (mask stream offset a) (mask stream offset b) =
      List.zipWith (· ^^^ ·) a b := by
  induction a generalizing offset b with
  | nil => rfl
  | cons x a ih =>
    cases b with
    | nil => rfl
    | cons y b =>
      have hxy : x ^^^ stream offset ^^^ (y ^^^ stream offset) = x ^^^ y := by
        rw [UInt8.xor_assoc, ← UInt8.xor_assoc (stream offset), UInt8.xor_comm (stream offset),
          UInt8.xor_assoc y, UInt8.xor_self, UInt8.xor_zero]
      rw [mask, mask, List.zipWith_cons_cons, List.zipWith_cons_cons, hxy, ih]

end GseNetwork.Foundation.KeyStream
