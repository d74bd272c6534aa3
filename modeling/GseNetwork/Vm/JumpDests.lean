import GseNetwork.Vm.Machine

namespace GseNetwork.Vm

open GseNetwork.Core GseNetwork.Foundation GseNetwork.Foundation.BinarySearch

namespace Instruction

def operandSize : Instruction → ℕ
  | .PUSH n => n + 1
  | _ => 0

theorem operandSize_eq_zero {op : Instruction} (h : ∀ n, op ≠ .PUSH n) : op.operandSize = 0 := by
  unfold operandSize
  split
  · exact absurd rfl (h _)
  · rfl

def isJumpdest : Instruction → Bool
  | .JUMPDEST => true
  | _ => false

theorem isJumpdest_ofNat :
    ∀ n : Fin 256, (ofByte (UInt8.ofNat n)).isJumpdest = true → n = 0x5b := by
  decide +kernel

theorem eq_of_ofByte_jumpdest {byte : UInt8} (h : ofByte byte = .JUMPDEST) : byte = 0x5b := by
  have hbyte := isJumpdest_ofNat ⟨byte.toNat, byte.toNat_lt⟩
  rw [UInt8.ofNat_toNat, h] at hbyte
  exact UInt8.toNat_inj.mp (congrArg Fin.val (hbyte rfl))

end Instruction

section Starts

inductive Start (code : Bytes) : ℕ → Prop
  | zero : Start code 0
  | next {pc : ℕ} (h : Start code pc) (hpc : pc < code.length) :
      Start code (pc + (Instruction.ofByte (code.getD pc 0)).operandSize + 1)

def PushData (code : Bytes) (i : ℕ) : Prop :=
  ∃ pc, Start code pc ∧ pc < code.length ∧ pc < i ∧
    i ≤ pc + (Instruction.ofByte (code.getD pc 0)).operandSize

variable {code : Bytes}

theorem Start.operand_lt {p q : ℕ} (hq : Start code q) (hp : Start code p) (hlt : p < q) :
    p + (Instruction.ofByte (code.getD p 0)).operandSize < q := by
  induction q using Nat.strong_induction_on generalizing p with
  | _ q ih =>
    cases hq with
    | zero => omega
    | @next r hr hlength =>
      rcases lt_trichotomy p r with hpr | rfl | hrp
      · have := ih r (by omega) hr hp hpr
        omega
      · omega
      -- an instruction that starts within this operand would do so before `q`
      · have := ih p hlt hp hr hrp
        omega

theorem Start.not_pushData {d : ℕ} (h : Start code d) : ¬ PushData code d := by
  rintro ⟨pc, hpc, -, hlt, hle⟩
  have := h.operand_lt hpc hlt
  omega

/-- A jump may lead there: a `JUMPDEST` byte that is not part of an operand. -/
structure JumpTarget (code : Bytes) (d : ℕ) : Prop where
  inside : d < code.length
  byte : code.getD d 0 = 0x5b
  notData : ¬ PushData code d

end Starts

namespace VM

section Scan

variable (original : Bytes)

/-- The state of `optimize` at a place of the code: what lies ahead and the zeros behind the end are
unchanged, and the destinations found are in order. -/
structure Scanned (pc : ℕ) (code : Bytes) (jumpDests : List ℕ) : Prop where
  length : code.length = original.length + 33
  ahead : ∀ i, pc ≤ i → code.getD i 0 = original.getD i 0
  behind : ∀ i, original.length ≤ i → code.getD i 0 = 0
  sorted : jumpDests.Pairwise (· < ·)
  found : ∀ d ∈ jumpDests, d < pc ∧ JumpTarget original d ∧ code.getD d 0 = 0x5b

variable {original} {pc pc' : ℕ} {code : Bytes} {jumpDests : List ℕ}

theorem Scanned.skip (h : Scanned original pc code jumpDests) (hle : pc ≤ pc') :
    Scanned original pc' code jumpDests where
  length := h.length
  ahead i hi := h.ahead i (hle.trans hi)
  behind := h.behind
  sorted := h.sorted
  found d hd := ⟨(h.found d hd).1.trans_le hle, (h.found d hd).2⟩

theorem Scanned.overwrite (h : Scanned original pc code jumpDests) (hpc : pc < original.length)
    (byte : UInt8) : Scanned original (pc + 1) (code.set pc byte) jumpDests where
  length := by rw [List.length_set, h.length]
  ahead i hi := by
    rw [List.getD_eq_getElem?_getD, List.getElem?_set_ne (by omega), ← List.getD_eq_getElem?_getD]
    exact h.ahead i (by omega)
  behind i hi := by
    rw [List.getD_eq_getElem?_getD, List.getElem?_set_ne (by omega), ← List.getD_eq_getElem?_getD]
    exact h.behind i hi
  sorted := h.sorted
  found d hd := by
    obtain ⟨hlt, htarget, hbyte⟩ := h.found d hd
    refine ⟨by omega, htarget, ?_⟩
    rwa [List.getD_eq_getElem?_getD, List.getElem?_set_ne (by omega), ← List.getD_eq_getElem?_getD]

theorem Scanned.collect (h : Scanned original pc code jumpDests) (hpc : pc < original.length)
    (hstart : Start original pc) (hbyte : code.getD pc 0 = 0x5b) :
    Scanned original (pc + 1) code (jumpDests ++ [pc]) where
  length := h.length
  ahead i hi := h.ahead i (by omega)
  behind := h.behind
  sorted := by
    refine List.pairwise_append.mpr ⟨h.sorted, List.pairwise_singleton _ _, fun d hd e he ↦ ?_⟩
    rw [List.mem_singleton.mp he]
    exact (h.found d hd).1
  found d hd := by
    rcases List.mem_append.mp hd with hd | hd
    · obtain ⟨hlt, hrest⟩ := h.found d hd
      exact ⟨by omega, hrest⟩
    · obtain rfl := List.mem_singleton.mp hd
      exact ⟨by omega, ⟨hpc, (h.ahead d le_rfl).symm.trans hbyte, hstart.not_pushData⟩, hbyte⟩

theorem scanLoop_scanned (fuel : ℕ) (hstart : Start original pc)
    (h : Scanned original pc code jumpDests) :
    ∃ last, Scanned original last (scanLoop original.length fuel pc (code, jumpDests)).1
      (scanLoop original.length fuel pc (code, jumpDests)).2 := by
  induction fuel generalizing pc code jumpDests with
  | zero => exact ⟨pc, h⟩
  | succ fuel ih =>
    unfold scanLoop
    by_cases hpc : pc < original.length
    · have hnext := hstart.next hpc
      rw [← h.ahead pc le_rfl] at hnext
      rw [if_pos hpc]
      split
      case h_1 hop | h_2 hop | h_3 hop =>
        rw [hop] at hnext
        exact ih hnext (h.overwrite hpc 0xfe)
      case h_4 hop =>
        rw [hop] at hnext
        exact ih hnext (h.collect hpc hstart (Instruction.eq_of_ofByte_jumpdest hop))
      case h_5 n hop =>
        rw [hop] at hnext
        exact ih hnext (h.skip (by omega))
      case h_6 hpush =>
        rw [Instruction.operandSize_eq_zero hpush] at hnext
        exact ih hnext (h.skip (by omega))
    · rw [if_neg hpc]
      exact ⟨pc, h⟩

theorem optimize_scanned {σ : Type} (host : Host σ) {s : VM σ} (hs : s.jumpDests = []) :
    ∃ last, Scanned host.code last (optimize host s).code (optimize host s).jumpDests := by
  refine scanLoop_scanned host.code.length Start.zero ?_
  rw [show (copyCode host 33 s).jumpDests = [] from hs]
  exact {
    length := by rw [copyCode, List.length_append, List.length_replicate]
    ahead := fun i _ ↦ getD_append_zeros host.code 33 i
    behind := fun i hi ↦ (getD_append_zeros host.code 33 i).trans
      (List.getD_eq_default _ _ hi)
    sorted := List.Pairwise.nil
    found := fun d hd ↦ absurd hd List.not_mem_nil }

theorem verifyJumpDest_ok {σ : Type} {s t : VM σ} {dest : U256} {pc : ℕ}
    (hsorted : s.jumpDests.Pairwise (· < ·)) (h : verifyJumpDest dest s = (.ok pc, t)) :
    pc ∈ s.jumpDests ∧ t = s := by
  unfold verifyJumpDest at h
  rw [Eff.get_bind_apply] at h
  split_ifs at h with hfound
  · cases h
    have hle := hsorted.imp fun hlt ↦ le_of_lt hlt
    exact ⟨(binarySearch_iff hle).mp hfound.2, rfl⟩
  · cases h

end Scan

end VM

end GseNetwork.Vm
