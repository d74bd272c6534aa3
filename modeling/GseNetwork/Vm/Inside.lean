import GseNetwork.Foundation.Triple
import GseNetwork.Vm.Control
import GseNetwork.Vm.JumpDests

namespace GseNetwork.Vm

open GseNetwork.Core GseNetwork.Foundation GseNetwork.Foundation.Eff

namespace VM

variable {σ α : Type}

def IsException (f : Failure) : Prop := ∃ e, f = .exception e

/-- What `adjustStack` has made sure of when an instruction begins. -/
structure Fetched (args ret : ℕ) (s : VM σ) : Prop where
  low : 0 ≤ s.SP
  high : s.SP + args ≤ 1024
  result : s.SPP = s.SP + args - ret
  room : 0 ≤ s.SPP

structure At (s : VM σ) (pc : ℕ) (t : VM σ) : Prop where
  code : t.code = s.code
  jumpDests : t.jumpDests = s.jumpDests
  SP : t.SP = s.SP
  SPP : t.SPP = s.SPP
  OP : t.OP = s.OP
  PC : t.PC = pc

structure Moved (s : VM σ) (pc : ℕ) (t : VM σ) : Prop where
  code : t.code = s.code
  jumpDests : t.jumpDests = s.jumpDests
  SPP : t.SPP = s.SPP
  PC : t.PC = pc

theorem At.moved {s t : VM σ} {pc : ℕ} (h : At s pc t) : Moved s pc t :=
  ⟨h.code, h.jumpDests, h.SPP, h.PC⟩

theorem At.refl (s : VM σ) : At s s.PC s := ⟨rfl, rfl, rfl, rfl, rfl, rfl⟩

variable (host : Host σ) {s : VM σ} {args ret pc : ℕ}

/-- A part of an instruction that began in `s`: it changes neither pointers nor code and makes no
access outside. -/
abbrev Inside (s : VM σ) (pc : ℕ) (m : VmM σ α) : Prop := Stays IsException (At s pc) m

abbrev Ends (s : VM σ) (pc next : ℕ) (m : VmM σ α) : Prop :=
  Triple IsException (At s pc) m fun _ ↦ Moved s next

section Parts

theorem throws_throwException {P : VM σ → Prop} {Q : α → VM σ → Prop} (type : ExceptionType) :
    Triple IsException P (throwException type : VmM σ α) Q :=
  triple_throw ⟨_, rfl⟩

theorem stays_ext {I : VM σ → Prop} (hI : ∀ t x, I t → I { t with extVM := x })
    (m : Eff σ VmException α) : Stays IsException I (ext m) := by
  intro t ht
  unfold ext
  rcases m t.extVM with ⟨e | a, x⟩
  · exact ⟨e, rfl⟩
  · exact hI t x ht

theorem stays_onOperation {I : VM σ → Prop}
    (hI : ∀ t x n, I t → I { t with extVM := x, steps := n }) :
    Stays IsException I (onOperation host) := by
  unfold onOperation
  split
  · exact stays_pure ()
  · refine (stays_modify fun t ht ↦ hI t t.extVM (t.steps + 1) ht).bind fun _ ↦ ?_
    exact stays_get.bind fun t ↦ stays_ext (fun t x ht ↦ hI t x t.steps ht) _

theorem inside_ext (m : Eff σ VmException α) : Inside s pc (ext m) :=
  stays_ext (fun _ _ ht ↦ ⟨ht.code, ht.jumpDests, ht.SP, ht.SPP, ht.OP, ht.PC⟩) m

theorem inside_onOperation : Inside s pc (onOperation host) :=
  stays_onOperation host fun _ _ _ ht ↦ ⟨ht.code, ht.jumpDests, ht.SP, ht.SPP, ht.OP, ht.PC⟩

theorem inside_readStack {place : ℤ} (hplace : 0 ≤ place ∧ place < 1024) :
    Inside s pc (readStack place) := by
  intro t ht
  unfold readStack
  rw [if_pos hplace]
  exact ht

theorem inside_writeStack {place : ℤ} (hplace : 0 ≤ place ∧ place < 1024) (x : U256) :
    Inside s pc (writeStack place x) := by
  intro t ht
  unfold writeStack
  rw [if_pos hplace]
  exact ⟨ht.code, ht.jumpDests, ht.SP, ht.SPP, ht.OP, ht.PC⟩

theorem readCode_of_lt {t : VM σ} (h : pc < t.code.length) :
    readCode pc t = (.ok (t.code.getD pc 0), t) := by
  unfold readCode
  rw [List.getD_eq_getElem _ _ h, List.getElem?_eq_getElem h]

theorem Fetched.place (h : Fetched args ret s) {i : ℕ} (hi : i < args) :
    0 ≤ s.SP + i ∧ s.SP + i < 1024 := by
  have := h.low
  have := h.high
  omega

theorem Fetched.resultPlace (h : Fetched args ret s) (hret : 0 < ret) :
    0 ≤ s.SPP ∧ s.SPP < 1024 := by
  have := h.high
  have := h.result
  have := h.room
  omega

theorem Fetched.inside_sp (h : Fetched args ret s) {i : ℕ} (hi : i < args) :
    Inside s pc (sp i) := by
  intro t ht
  have hread := inside_readStack (h.place hi) t ht
  unfold sp
  rwa [ht.SP]

theorem Fetched.inside_setSp (h : Fetched args ret s) {i : ℕ} (hi : i < args) (x : U256) :
    Inside s pc (setSp i x) := by
  intro t ht
  have hwrite := inside_writeStack (h.place hi) x t ht
  unfold setSp
  rwa [ht.SP]

theorem Fetched.inside_setSpp (h : Fetched args ret s) (hret : 0 < ret) (x : U256) :
    Inside s pc (setSpp x) := by
  intro t ht
  have hwrite := inside_writeStack (h.resultPlace hret) x t ht
  unfold setSpp
  rwa [ht.SPP]

theorem inside_toInt63 (n : ℕ) : Inside s pc (toInt63 n) :=
  stays_ite (throws_throwException _) (stays_pure n)

theorem inside_memNeed (offset size : U256) : Inside s pc (memNeed offset size) :=
  inside_toInt63 _

theorem inside_modify {f : VM σ → VM σ} (hf : ∀ t, At t t.PC (f t)) :
    Inside s pc (Eff.modify f) :=
  stays_modify fun t ht ↦ ⟨(hf t).code.trans ht.code, (hf t).jumpDests.trans ht.jumpDests,
    (hf t).SP.trans ht.SP, (hf t).SPP.trans ht.SPP, (hf t).OP.trans ht.OP,
    (hf t).PC.trans ht.PC⟩

theorem inside_updateMem (n : ℕ) : Inside s pc (updateMem host n) := by
  unfold updateMem
  refine Stays.bind (inside_modify fun t ↦ by exact ⟨rfl, rfl, rfl, rfl, rfl, rfl⟩) fun _ ↦ ?_
  refine stays_get.bind fun t ↦ ?_
  refine stays_ite (stays_ite ?_ (stays_throw ⟨_, rfl⟩)) (stays_pure ())
  exact inside_modify fun t ↦ ⟨rfl, rfl, rfl, rfl, rfl, rfl⟩

theorem Fetched.inside_copyToMemory (h : Fetched args ret s) {k : ℕ} (hk : k + 2 < args)
    (data : Bytes) : Inside s pc (copyToMemory data k) := by
  unfold copyToMemory
  refine (h.inside_sp (by omega)).bind fun _ ↦ (h.inside_sp (by omega)).bind fun _ ↦ ?_
  refine (h.inside_sp hk).bind fun _ ↦ ?_
  exact inside_modify fun t ↦ ⟨rfl, rfl, rfl, rfl, rfl, rfl⟩

theorem inside_setNext (next : Option Entry) : Inside s pc (setNext next) :=
  inside_modify fun _ ↦ ⟨rfl, rfl, rfl, rfl, rfl, rfl⟩

theorem inside_require (flag : Bool) : Inside s pc (require flag) :=
  stays_ite (stays_pure ()) (throws_throwException _)

theorem inside_requireNonStatic : Inside s pc (requireNonStatic host) :=
  stays_ite (throws_throwException _) (stays_pure ())

theorem ends_BREAK : Ends s pc pc (BREAK : VmM σ Leave) := fun _ ht ↦ ht.moved

theorem ends_NEXT : Ends s pc (pc + 1) (NEXT : VmM σ Leave) :=
  fun _ ht ↦ ⟨ht.code, ht.jumpDests, ht.SPP, congrArg (· + 1) ht.PC⟩

theorem ends_backSP : Ends s pc (pc + 1) (do backSP; NEXT : VmM σ Leave) :=
  fun _ ht ↦ ⟨ht.code, ht.jumpDests, ht.SPP, congrArg (· + 1) ht.PC⟩

end Parts

section Families

theorem Fetched.ends_pushes (h : Fetched args ret s) (hret : 0 < ret) {value : VmM σ U256}
    (hvalue : Inside s pc value) : Ends s pc (pc + 1) (pushes host value) :=
  (inside_onOperation host).bind fun _ ↦ hvalue.bind fun _ ↦
    (h.inside_setSpp hret _).bind fun _ ↦ ends_NEXT

theorem Fetched.ends_unary (h : Fetched args ret s) (hret : 0 < ret) (hargs : 0 < args)
    {f : U256 → VmM σ U256} (hf : ∀ x, Inside s pc (f x)) : Ends s pc (pc + 1) (unary host f) :=
  h.ends_pushes host hret ((h.inside_sp hargs).bind hf)

theorem Fetched.ends_binary (h : Fetched args ret s) (hret : 0 < ret) (hargs : 1 < args)
    (f : U256 → U256 → U256) : Ends s pc (pc + 1) (binary host f) :=
  h.ends_pushes host hret ((h.inside_sp (by omega)).bind fun _ ↦
    (h.inside_sp hargs).bind fun _ ↦ stays_pure _)

theorem Fetched.ends_ternary (h : Fetched args ret s) (hret : 0 < ret) (hargs : 2 < args)
    (f : U256 → U256 → U256 → U256) : Ends s pc (pc + 1) (ternary host f) :=
  h.ends_pushes host hret ((h.inside_sp (by omega)).bind fun _ ↦
    (h.inside_sp (by omega)).bind fun _ ↦ (h.inside_sp hargs).bind fun _ ↦ stays_pure _)

theorem Fetched.ends_pushesState (h : Fetched args ret s) (hret : 0 < ret) (f : VM σ → U256) :
    Ends s pc (pc + 1) (pushesState host f) :=
  h.ends_pushes host hret (stays_get.bind fun _ ↦ stays_pure _)

theorem Fetched.ends_copies (h : Fetched args ret s) {k : ℕ} (hk : k + 2 < args)
    {data : VmM σ Bytes} (hdata : Inside s pc data) : Ends s pc (pc + 1) (copies host k data) := by
  unfold copies
  refine (h.inside_sp hk).bind fun _ ↦ (inside_toInt63 _).bind fun _ ↦ ?_
  refine Stays.bind (inside_modify fun t ↦ by exact ⟨rfl, rfl, rfl, rfl, rfl, rfl⟩) fun _ ↦ ?_
  refine (h.inside_sp (by omega)).bind fun _ ↦ (h.inside_sp hk).bind fun _ ↦ ?_
  refine (inside_memNeed _ _).bind fun _ ↦ (inside_updateMem host _).bind fun _ ↦ ?_
  exact hdata.bind fun _ ↦ (h.inside_copyToMemory hk _).bind fun _ ↦ ends_NEXT

theorem ends_logs : Ends s pc (pc + 1) (logs host) :=
  (inside_onOperation host).bind fun _ ↦ (inside_requireNonStatic host).bind fun _ ↦ ends_NEXT

end Families

section Cases

theorem Fetched.ends_mload (h : Fetched 1 1 s) : Ends s pc (pc + 1) (mload host) := by
  unfold mload
  refine (inside_onOperation host).bind fun _ ↦ (h.inside_sp one_pos).bind fun _ ↦ ?_
  refine (inside_toInt63 _).bind fun _ ↦ (inside_updateMem host _).bind fun _ ↦ ?_
  refine (h.inside_sp one_pos).bind fun _ ↦ stays_get.bind fun t ↦ ?_
  exact (h.inside_setSpp one_pos _).bind fun _ ↦ ends_NEXT

theorem Fetched.ends_stores (h : Fetched 2 0 s) (size : ℕ) (data : U256 → Bytes) :
    Ends s pc (pc + 1) (stores host size data) := by
  unfold stores
  refine (inside_onOperation host).bind fun _ ↦ (h.inside_sp two_pos).bind fun _ ↦ ?_
  refine (inside_toInt63 _).bind fun _ ↦ (inside_updateMem host _).bind fun _ ↦ ?_
  refine (h.inside_sp two_pos).bind fun _ ↦ (h.inside_sp one_lt_two).bind fun _ ↦ ?_
  exact Stays.bind (inside_modify fun t ↦ by exact ⟨rfl, rfl, rfl, rfl, rfl, rfl⟩) fun _ ↦ ends_NEXT

theorem Fetched.ends_returns (h : Fetched 2 0 s) : Ends s pc pc (returns host) := by
  unfold returns
  refine (inside_onOperation host).bind fun _ ↦ ?_
  refine Stays.bind (inside_modify fun t ↦ by exact ⟨rfl, rfl, rfl, rfl, rfl, rfl⟩) fun _ ↦ ?_
  refine (h.inside_sp two_pos).bind fun _ ↦ (h.inside_sp one_lt_two).bind fun _ ↦ ?_
  refine (inside_memNeed _ _).bind fun _ ↦ (inside_updateMem host _).bind fun _ ↦ ?_
  refine (h.inside_sp two_pos).bind fun _ ↦ (h.inside_sp one_lt_two).bind fun _ ↦ ?_
  refine Stays.bind (inside_modify fun t ↦ by exact ⟨rfl, rfl, rfl, rfl, rfl, rfl⟩) fun _ ↦ ?_
  exact (inside_setNext none).bind fun _ ↦ ends_BREAK

theorem Fetched.ends_reverts (h : Fetched 2 0 s) : Ends s pc pc (reverts host) := by
  unfold reverts
  refine (inside_require _).bind fun _ ↦ (inside_onOperation host).bind fun _ ↦ ?_
  refine Stays.bind (inside_modify fun t ↦ by exact ⟨rfl, rfl, rfl, rfl, rfl, rfl⟩) fun _ ↦ ?_
  refine (h.inside_sp two_pos).bind fun _ ↦ (h.inside_sp one_lt_two).bind fun _ ↦ ?_
  refine (inside_memNeed _ _).bind fun _ ↦ (inside_updateMem host _).bind fun _ ↦ ?_
  refine (h.inside_sp two_pos).bind fun _ ↦ (h.inside_sp one_lt_two).bind fun _ ↦ ?_
  refine Stays.bind (inside_modify fun t ↦ by exact ⟨rfl, rfl, rfl, rfl, rfl, rfl⟩) fun _ ↦ ?_
  exact throws_throwException _

theorem Fetched.ends_suicides (h : Fetched 1 0 s) : Ends s pc pc (suicides host) := by
  unfold suicides
  refine (inside_onOperation host).bind fun _ ↦ (inside_requireNonStatic host).bind fun _ ↦ ?_
  refine (h.inside_sp one_pos).bind fun x ↦ (inside_ext _).bind fun balance ↦ ?_
  have hrest : Ends s pc pc (do ext (host.suicide (asAddress x)); setNext none; BREAK) :=
    (inside_ext _).bind fun _ ↦ (inside_setNext none).bind fun _ ↦ ends_BREAK
  dsimp only
  split_ifs
  · exact (inside_ext _).bind fun _ ↦ hrest
  · exact hrest
  · exact hrest

theorem Fetched.ends_calls (h : Fetched args ret s) (op : Instruction)
    (hcall : op = .CALL → 2 < args) : Ends s pc pc (calls host op) := by
  unfold calls
  refine (inside_onOperation host).bind fun _ ↦ ?_
  have hrest : Ends s pc pc (do setNext (some .call); BREAK : VmM σ Leave) :=
    (inside_setNext _).bind fun _ ↦ ends_BREAK
  dsimp only
  split
  · exact (inside_require _).bind fun _ ↦ hrest
  · exact (inside_require _).bind fun _ ↦ hrest
  · split_ifs
    · refine (h.inside_sp (hcall rfl)).bind fun value ↦ ?_
      split_ifs
      · exact (throws_throwException _).bind fun _ ↦ hrest
      · exact hrest
    · exact hrest
  · exact hrest

theorem Fetched.ends_sha3 (h : Fetched 2 1 s) : Ends s pc (pc + 1) (sha3 host) := by
  unfold sha3
  refine (inside_onOperation host).bind fun _ ↦ ?_
  refine (h.inside_sp two_pos).bind fun _ ↦ (h.inside_sp one_lt_two).bind fun _ ↦ ?_
  refine (inside_memNeed _ _).bind fun _ ↦ (inside_updateMem host _).bind fun _ ↦ ?_
  refine (h.inside_sp two_pos).bind fun _ ↦ (h.inside_sp one_lt_two).bind fun _ ↦ ?_
  exact stays_get.bind fun t ↦ (h.inside_setSpp one_pos _).bind fun _ ↦ ends_NEXT

theorem Fetched.ends_signextend (h : Fetched 2 1 s) : Ends s pc (pc + 1) (signextend host) := by
  unfold signextend
  refine (inside_onOperation host).bind fun _ ↦ (h.inside_sp two_pos).bind fun x ↦ ?_
  dsimp only
  split_ifs
  · refine (h.inside_sp one_lt_two).bind fun number ↦ ?_
    exact (h.inside_setSp one_lt_two _).bind fun _ ↦ ends_NEXT
  · exact ends_NEXT

theorem Fetched.ends_calldataload (h : Fetched 1 1 s) :
    Ends s pc (pc + 1) (calldataload host) := by
  unfold calldataload
  refine (inside_onOperation host).bind fun _ ↦ (h.inside_sp one_pos).bind fun x ↦ ?_
  exact (h.inside_setSp one_pos _).bind fun _ ↦ ends_NEXT

theorem Fetched.ends_returndatacopy (h : Fetched 3 0 s) :
    Ends s pc (pc + 1) (returndatacopy host) := by
  unfold returndatacopy
  refine (inside_onOperation host).bind fun _ ↦ (inside_require _).bind fun _ ↦ ?_
  refine (h.inside_sp (by omega)).bind fun _ ↦ (h.inside_sp (by omega)).bind fun _ ↦ ?_
  refine stays_get.bind fun t ↦ ?_
  split_ifs
  · exact throws_throwException _
  · exact h.ends_copies host (by omega) (stays_get.bind fun _ ↦ stays_pure _)

theorem triple_pushBytes (n : ℕ) (x : U256) (hcode : pc + n ≤ s.code.length) :
    Triple IsException (At s pc) (pushBytes n x : VmM σ U256) fun _ ↦ At s (pc + n) := by
  induction n generalizing pc x with
  | zero => exact stays_pure x
  | succ n ih =>
    intro t ht
    have hpc : t.PC < t.code.length := by
      rw [ht.code, ht.PC]
      omega
    rw [pushBytes, Eff.get_bind_apply, Eff.bind_ok (readCode_of_lt hpc), Eff.modify_bind_apply]
    have hrest := ih ((x <<< 8) ||| BitVec.ofNat 256 (t.code.getD t.PC 0).toNat)
      (show pc + 1 + n ≤ s.code.length by omega)
    rw [Nat.add_right_comm] at hrest
    exact hrest _ ⟨ht.code, ht.jumpDests, ht.SP, ht.SPP, ht.OP, congrArg (· + 1) ht.PC⟩

theorem Fetched.ends_push (h : Fetched 0 1 s) (n : Fin 32) (hcode : pc + n + 2 ≤ s.code.length) :
    Ends s pc (pc + n + 2) (push host n) := by
  unfold push
  refine (inside_onOperation host).bind fun _ ↦ (h.inside_setSpp one_pos _).bind fun _ ↦ ?_
  have hstep : Triple IsException (At s pc) (Eff.modify fun t : VM σ ↦ { t with PC := t.PC + 1 })
      fun _ ↦ At s (pc + 1) :=
    triple_modify fun t ht ↦ ⟨ht.code, ht.jumpDests, ht.SP, ht.SPP, ht.OP, congrArg (· + 1) ht.PC⟩
  refine hstep.bind fun _ ↦ (triple_pushBytes (n + 1) 0 (by omega)).bind fun x ↦ ?_
  refine Stays.bind (h.inside_setSpp one_pos x) fun _ t ht ↦ ?_
  have hmoved := ht.moved
  rwa [show pc + 1 + (n + 1) = pc + n + 2 by omega] at hmoved

theorem triple_verifyJumpDest (hsorted : s.jumpDests.Pairwise (· < ·)) (dest : U256) :
    Triple IsException (At s pc) (verifyJumpDest dest : VmM σ ℕ)
      fun d t ↦ d ∈ s.jumpDests ∧ At s pc t := by
  intro t ht
  rcases hrun : verifyJumpDest dest t with ⟨f | d, u⟩
  · unfold verifyJumpDest at hrun
    rw [Eff.get_bind_apply] at hrun
    split_ifs at hrun
    · cases hrun
    · cases hrun
      exact ⟨_, rfl⟩
  · obtain ⟨hd, rfl⟩ := verifyJumpDest_ok (by rwa [ht.jumpDests]) hrun
    rw [ht.jumpDests] at hd
    exact ⟨hd, ht⟩

def Jumped (s t : VM σ) : Prop := ∃ d ∈ s.jumpDests, Moved s d t

theorem jumps (hsorted : s.jumpDests.Pairwise (· < ·)) (dest : U256) :
    Triple IsException (At s pc) (do
      let d ← verifyJumpDest dest
      Eff.modify fun t ↦ { t with PC := d }
      CONTINUE : VmM σ Leave) fun _ ↦ Jumped s :=
  (triple_verifyJumpDest hsorted dest).bind fun d _ ⟨hd, ht⟩ ↦
    ⟨d, hd, ht.code, ht.jumpDests, ht.SPP, rfl⟩

theorem Fetched.triple_jump (h : Fetched 1 0 s) (hsorted : s.jumpDests.Pairwise (· < ·)) :
    Triple IsException (At s pc) (jump host) fun _ ↦ Jumped s :=
  (inside_onOperation host).bind fun _ ↦ (h.inside_sp one_pos).bind fun dest ↦ jumps hsorted dest

def item (s : VM σ) (i : ℕ) : U256 := (s.stack[(s.SP + i).toNat]?).getD 0

theorem Fetched.triple_jumpi (h : Fetched 2 0 s) (hsorted : s.jumpDests.Pairwise (· < ·)) :
    Triple IsException (fun t ↦ t.stack = s.stack ∧ At s s.PC t) (jumpi host)
      fun _ t ↦ Jumped s t ∨ item s 1 = 0 ∧ Moved s (s.PC + 1) t := by
  unfold jumpi
  refine Stays.bind (stays_onOperation host fun t x n ht ↦ ?_) fun _ ↦ ?_
  · exact ⟨ht.1, ht.2.code, ht.2.jumpDests, ht.2.SP, ht.2.SPP, ht.2.OP, ht.2.PC⟩
  intro t ⟨hstack, ht⟩
  have hcond : sp 1 t = (.ok (item s 1), t) := by
    unfold sp readStack item
    rw [ht.SP, hstack, if_pos (h.place one_lt_two)]
  rw [Eff.bind_ok hcond]
  by_cases hzero : item s 1 = 0
  · rw [if_neg (not_not.mpr hzero)]
    exact Or.inr ⟨hzero, ht.code, ht.jumpDests, ht.SPP, congrArg (· + 1) ht.PC⟩
  · rw [if_pos hzero]
    have hjump : Triple IsException (At s s.PC) _ fun _ ↦ Jumped s :=
      (h.inside_sp two_pos).bind fun dest ↦ jumps hsorted dest
    exact hjump.mono (fun _ _ ↦ Or.inl) t ht

theorem Fetched.ends_swap {n : Fin 16} (h : Fetched (n + 2) ret s) :
    Ends s pc (pc + 1) (swap host n) := by
  unfold swap
  refine (inside_onOperation host).bind fun _ ↦ (h.inside_sp (by omega)).bind fun x ↦ ?_
  refine (h.inside_sp (by omega)).bind fun y ↦ (h.inside_setSp (by omega) y).bind fun _ ↦ ?_
  exact (h.inside_setSp (by omega) x).bind fun _ ↦ ends_NEXT

/-- Where an instruction that began in `s` leaves the machine. -/
def After (op : Instruction) (s t : VM σ) : Prop :=
  match op with
  | .PUSH n => Moved s (s.PC + n + 2) t
  | .JUMP => Jumped s t
  | .JUMPI => Jumped s t ∨ item s 1 = 0 ∧ Moved s (s.PC + 1) t
  | .STOP => Moved s s.PC t
  | _ => Moved s s.PC t ∨ Moved s (s.PC + 1) t

/-- Every case of the `switch` touches only what the table grants its instruction. -/
theorem triple_interpretCase (op : Instruction) (h : Fetched op.args op.ret s)
    (hsorted : s.jumpDests.Pairwise (· < ·))
    (hcode : s.PC + op.operandSize < s.code.length) :
    Triple IsException (fun t ↦ t = s) (interpretCase host op) fun _ ↦ After op s := by
  intro t ht
  rw [ht]
  have hnext : ∀ {m : VmM σ Leave}, Ends s s.PC (s.PC + 1) m →
      Triple IsException (At s s.PC) m fun _ t ↦ Moved s s.PC t ∨ Moved s (s.PC + 1) t :=
    fun hm ↦ hm.mono fun _ _ ↦ Or.inr
  have hbreak : ∀ {m : VmM σ Leave}, Ends s s.PC s.PC m →
      Triple IsException (At s s.PC) m fun _ t ↦ Moved s s.PC t ∨ Moved s (s.PC + 1) t :=
    fun hm ↦ hm.mono fun _ _ ↦ Or.inl
  have hs := At.refl s
  cases op with
  | STOP =>
    exact ((inside_onOperation host).bind fun _ ↦
      (inside_setNext none).bind fun _ ↦ ends_BREAK) s hs
  | PUSH n => exact h.ends_push host n (by change _ + (n.val + 1) < _ at hcode; omega) s hs
  | JUMP => exact h.triple_jump host hsorted s hs
  | JUMPI => exact h.triple_jumpi host hsorted s ⟨rfl, hs⟩
  | CREATE2 =>
    exact hbreak ((inside_onOperation host).bind fun _ ↦ (inside_require _).bind fun _ ↦
      (inside_requireNonStatic host).bind fun _ ↦ (inside_setNext _).bind fun _ ↦ ends_BREAK) s hs
  | CREATE =>
    exact hbreak ((inside_onOperation host).bind fun _ ↦
      (inside_requireNonStatic host).bind fun _ ↦ (inside_setNext _).bind fun _ ↦ ends_BREAK) s hs
  | DELEGATECALL => exact hbreak (h.ends_calls host .DELEGATECALL nofun) s hs
  | STATICCALL => exact hbreak (h.ends_calls host .STATICCALL nofun) s hs
  | CALLCODE => exact hbreak (h.ends_calls host .CALLCODE nofun) s hs
  | CALL => exact hbreak (h.ends_calls host .CALL fun _ ↦ by decide) s hs
  | RETURN => exact hbreak (h.ends_returns host) s hs
  | REVERT => exact hbreak (h.ends_reverts host) s hs
  | SUICIDE => exact hbreak (h.ends_suicides host) s hs
  | MLOAD => exact hnext (h.ends_mload host) s hs
  | MSTORE | MSTORE8 => exact hnext (h.ends_stores host _ _) s hs
  | SHA3 => exact hnext (h.ends_sha3 host) s hs
  | LOG n => exact hnext (ends_logs host) s hs
  | EXP | ADD | MUL | SUB | DIV | MOD | SMOD | LT | GT | SLT | SGT | EQ | AND | OR | XOR | BYTE =>
    exact hnext (h.ends_binary host one_pos one_lt_two _) s hs
  | SHL | SHR | SAR =>
    exact hnext ((inside_require _).bind fun _ ↦ h.ends_binary host one_pos one_lt_two _) s hs
  | SDIV =>
    exact hnext ((inside_onOperation host).bind fun _ ↦ (h.inside_sp two_pos).bind fun _ ↦
      (h.inside_sp one_lt_two).bind fun _ ↦ (h.inside_setSpp one_pos _).bind fun _ ↦
        ends_backSP) s hs
  | POP => exact hnext ((inside_onOperation host).bind fun _ ↦ ends_backSP) s hs
  | NOT | ISZERO =>
    exact hnext (h.ends_unary host one_pos one_pos fun _ ↦ stays_pure _) s hs
  | BALANCE | BLOCKHASH | SLOAD =>
    exact hnext (h.ends_unary host one_pos one_pos fun _ ↦ inside_ext _) s hs
  | EXTCODESIZE =>
    exact hnext (h.ends_unary host one_pos one_pos fun _ ↦
      (inside_ext _).bind fun _ ↦ stays_pure _) s hs
  | ADDMOD | MULMOD => exact hnext (h.ends_ternary host one_pos (by decide) _) s hs
  | SIGNEXTEND => exact hnext (h.ends_signextend host) s hs
  | ADDRESS | ORIGIN | CALLER | CALLVALUE | CALLDATASIZE | CODESIZE | GASPRICE | DIFFICULTY
  | GASLIMIT | GAS | COINBASE | TIMESTAMP | NUMBER | PC | MSIZE =>
    exact hnext (h.ends_pushesState host one_pos _) s hs
  | RETURNDATASIZE =>
    exact hnext ((inside_require _).bind fun _ ↦ h.ends_pushesState host one_pos _) s hs
  | CALLDATALOAD => exact hnext (h.ends_calldataload host) s hs
  | CALLDATACOPY | CODECOPY =>
    exact hnext ((inside_onOperation host).bind fun _ ↦
      h.ends_copies host (by decide) (stays_pure _)) s hs
  | EXTCODECOPY =>
    exact hnext ((inside_onOperation host).bind fun _ ↦ h.ends_copies host (by decide)
      ((h.inside_sp (by decide)).bind fun _ ↦ inside_ext _)) s hs
  | RETURNDATACOPY => exact hnext (h.ends_returndatacopy host) s hs
  | EXTCODEHASH =>
    exact hnext ((inside_onOperation host).bind fun _ ↦ (inside_require _).bind fun _ ↦
      (h.inside_sp one_pos).bind fun _ ↦ (inside_ext _).bind fun _ ↦
        (h.inside_setSpp one_pos _).bind fun _ ↦ ends_NEXT) s hs
  | DUP n =>
    exact hnext (h.ends_pushes host (Nat.succ_pos _) (h.inside_sp (Nat.lt_succ_self _))) s hs
  | SWAP n => exact hnext (h.ends_swap host) s hs
  | SSTORE =>
    exact hnext ((inside_onOperation host).bind fun _ ↦ (inside_requireNonStatic host).bind fun _ ↦
      (h.inside_sp two_pos).bind fun _ ↦ (h.inside_sp one_lt_two).bind fun _ ↦
        (inside_ext _).bind fun _ ↦ ends_NEXT) s hs
  | JUMPDEST => exact hnext ((inside_onOperation host).bind fun _ ↦ ends_NEXT) s hs
  | _ => exact ⟨_, rfl⟩

end Cases

section CallOuts

theorem ends_advance : Ends s pc (pc + 1)
    (Eff.modify fun t : VM σ ↦ { t with PC := t.PC + 1 }) :=
  fun _ ht ↦ ⟨ht.code, ht.jumpDests, ht.SPP, congrArg (· + 1) ht.PC⟩

theorem Fetched.ends_create (h : Fetched args ret s) (hret : 0 < ret) (hargs : 2 < args)
    (hcreate2 : s.OP = .CREATE2 → 3 < args) : Ends s pc (pc + 1) (create host) := by
  unfold create
  refine (inside_setNext _).bind fun _ ↦ (h.inside_sp (by omega)).bind fun endowment ↦ ?_
  refine (h.inside_sp (by omega)).bind fun initOff ↦ (h.inside_sp hargs).bind fun initSize ↦ ?_
  refine triple_get_bind fun t ht ↦ ?_
  extract_lets advance rest
  have hrest : ∀ salt, Ends s pc (pc + 1) (rest salt) := by
    intro salt
    refine (inside_memNeed _ _).bind fun _ ↦ (inside_updateMem host _).bind fun _ ↦ ?_
    refine Stays.bind (inside_modify fun t ↦ by exact ⟨rfl, rfl, rfl, rfl, rfl, rfl⟩) fun _ ↦ ?_
    refine (inside_ext _).bind fun balance ↦ ?_
    dsimp only
    split_ifs
    · refine stays_get.bind fun t ↦ (inside_ext _).bind fun (output, address) ↦ ?_
      refine (h.inside_setSpp hret _).bind fun _ ↦ ?_
      exact Stays.bind (inside_modify fun t ↦ by exact ⟨rfl, rfl, rfl, rfl, rfl, rfl⟩)
        fun _ ↦ ends_advance
    · exact (h.inside_setSpp hret _).bind fun _ ↦ ends_advance
  split
  case h_1 hop => exact (h.inside_sp (hcreate2 (ht.OP ▸ hop))).bind hrest
  case h_2 => exact (stays_pure 0).bind hrest

theorem Fetched.inside_callSetup (h : Fetched args ret s) (op : Instruction) (hargs : 5 < args)
    (hvalue : op = .CALL ∨ op = .CALLCODE → 6 < args) : Inside s pc (callSetup host op) := by
  unfold callSetup
  extract_lets haveValueArg sizesOffset
  have hvalueArg : haveValueArg = true → 6 < args := by
    intro harg
    dsimp only [haveValueArg] at harg
    split at harg
    · exact hvalue (Or.inl rfl)
    · exact hvalue (Or.inr rfl)
    · cases harg
  have hsizes : sizesOffset + 3 < args := by
    dsimp only [sizesOffset]
    split_ifs with harg
    · exact hvalueArg harg
    · exact hargs
  refine (h.inside_sp (by omega)).bind fun dest ↦ ?_
  extract_lets destinationAddr tail rest
  have htail : ∀ value, Inside s pc (tail value) := by
    intro value
    refine (h.inside_sp (by omega)).bind fun _ ↦ (h.inside_sp (by omega)).bind fun _ ↦ ?_
    refine (h.inside_sp (by omega)).bind fun _ ↦ (h.inside_sp hsizes).bind fun _ ↦ ?_
    refine (inside_memNeed _ _).bind fun _ ↦ (inside_memNeed _ _).bind fun _ ↦ ?_
    refine Stays.bind (inside_modify fun t ↦ by exact ⟨rfl, rfl, rfl, rfl, rfl, rfl⟩) fun _ ↦ ?_
    refine (inside_updateMem host _).bind fun _ ↦ (inside_ext _).bind fun balance ↦ ?_
    exact stays_ite (stays_get.bind fun _ ↦ stays_pure _) (stays_pure none)
  have hrest : ∀ u, Inside s pc (rest u) := by
    intro u
    refine (?_ : Inside s pc (if haveValueArg = true then _ else _))
    split_ifs with harg
    · exact (h.inside_sp (by omega)).bind htail
    · exact (stays_pure 0).bind htail
  split
  · refine (inside_ext _).bind fun exist ↦ ?_
    split_ifs
    · exact (h.inside_sp (by omega)).bind fun _ ↦ hrest ()
    · exact hrest ()
  · exact hrest ()

theorem Fetched.ends_call (h : Fetched args ret s) (hret : 0 < ret) (hargs : 5 < args)
    (hvalue : s.OP = .CALL ∨ s.OP = .CALLCODE → 6 < args) :
    Ends s pc (pc + 1) (call host) := by
  unfold call
  refine (inside_setNext _).bind fun _ ↦ ?_
  refine Stays.bind (inside_modify fun t ↦ by exact ⟨rfl, rfl, rfl, rfl, rfl, rfl⟩) fun _ ↦ ?_
  refine triple_get_bind fun t ht ↦ ?_
  refine (h.inside_callSetup host t.OP hargs (ht.OP ▸ hvalue)).bind fun setup ↦ ?_
  dsimp only
  split
  · refine (inside_ext _).bind fun success ↦ ?_
    refine Stays.bind (inside_modify fun t ↦ by exact ⟨rfl, rfl, rfl, rfl, rfl, rfl⟩) fun _ ↦ ?_
    exact (h.inside_setSpp hret _).bind fun _ ↦ ends_advance
  · exact (h.inside_setSpp hret _).bind fun _ ↦ ends_advance

end CallOuts

end VM

end GseNetwork.Vm
