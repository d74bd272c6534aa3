import GseNetwork.Vm.Inside

namespace GseNetwork.Vm

open GseNetwork.Core GseNetwork.Foundation GseNetwork.Foundation.Eff

namespace VM

variable {σ : Type} (host : Host σ) {s : VM σ}

section Rounds

/-- The state in which the instruction fetched from `s` begins. -/
structure Entered (s t : VM σ) : Prop where
  op : t.OP = Instruction.ofByte (s.code.getD s.PC 0)
  fetched : Fetched t.OP.args t.OP.ret t
  code : t.code = s.code
  jumpDests : t.jumpDests = s.jumpDests
  PC : t.PC = s.PC

theorem triple_adjustStack (op : Instruction) (hlow : 0 ≤ s.SPP)
    (hop : op = Instruction.ofByte (s.code.getD s.PC 0)) :
    Triple IsException (fun t ↦ t = { s with OP := op }) (adjustStack op.args op.ret : VmM σ Unit)
      fun _ ↦ Entered s := by
  intro t ht
  rw [ht]
  unfold adjustStack
  rw [Eff.modify_bind_apply, Eff.get_bind_apply]
  by_cases hhigh : 1024 < s.SPP + op.args
  · rw [if_pos hhigh]
    exact ⟨_, rfl⟩
  rw [if_neg hhigh, Eff.modify_bind_apply, Eff.get_bind_apply]
  by_cases hroom : s.SPP + op.args - op.ret < 0
  · rw [if_pos hroom]
    exact ⟨_, rfl⟩
  rw [if_neg hroom]
  exact ⟨hop, ⟨hlow, not_lt.mp hhigh, rfl, not_lt.mp hroom⟩, rfl, rfl, rfl⟩

theorem triple_fetchInstruction (hpc : s.PC < s.code.length) (hlow : 0 ≤ s.SPP) :
    Triple IsException (fun t ↦ t = s) (fetchInstruction : VmM σ Unit) fun _ ↦ Entered s := by
  intro t ht
  rw [ht]
  unfold fetchInstruction
  rw [Eff.get_bind_apply, Eff.bind_ok (readCode_of_lt hpc), Eff.modify_bind_apply]
  have hrest := (triple_adjustStack _ hlow rfl).bind fun _ ↦
    triple_modify (E := IsException) (f := fun t : VM σ ↦
      { t with newMemSize := t.memory.length, copyMemSize := 0 }) (Q := fun _ ↦ Entered s)
      fun t ht ↦ ⟨ht.op, ⟨ht.fetched.low, ht.fetched.high, ht.fetched.result, ht.fetched.room⟩,
        ht.code, ht.jumpDests, ht.PC⟩
  exact hrest _ rfl

structure Ready (s : VM σ) : Prop where
  scanned : ∃ last, Scanned host.code last s.code s.jumpDests
  low : 0 ≤ s.SPP
  high : s.SPP ≤ 1024
  PC : s.PC ≤ host.code.length + 32

variable {host}

theorem Ready.pc_lt (h : Ready host s) : s.PC < s.code.length := by
  obtain ⟨last, hscanned⟩ := h.scanned
  have := hscanned.length
  have := h.PC
  omega

theorem Ready.op_behind (h : Ready host s) (hpc : host.code.length ≤ s.PC) :
    Instruction.ofByte (s.code.getD s.PC 0) = .STOP := by
  obtain ⟨last, hscanned⟩ := h.scanned
  rw [hscanned.behind s.PC hpc]
  rfl

theorem operandSize_le (op : Instruction) : op.operandSize ≤ 32 := by
  unfold Instruction.operandSize
  split
  · omega
  · omega

theorem Ready.operand (h : Ready host s) {t : VM σ} (ht : Entered s t) :
    t.PC + t.OP.operandSize < t.code.length := by
  have hlt := h.pc_lt
  obtain ⟨last, hscanned⟩ := h.scanned
  have hlength := hscanned.length
  rw [ht.code, ht.PC]
  rcases lt_or_ge s.PC host.code.length with hpc | hpc
  · have := operandSize_le t.OP
    omega
  · rw [ht.op, h.op_behind hpc]
    exact hlt

theorem Moved.ready (h : Ready host s) {t u : VM σ} {next : ℕ} (ht : Entered s t)
    (hu : Moved t next u) (hnext : next ≤ host.code.length + 32) : Ready host u where
  scanned := by
    rw [hu.code, hu.jumpDests, ht.code, ht.jumpDests]
    exact h.scanned
  low := by
    rw [hu.SPP]
    exact ht.fetched.room
  high := by
    have := ht.fetched.result
    have := ht.fetched.high
    rw [hu.SPP]
    omega
  PC := hu.PC ▸ hnext

theorem After.moved {op : Instruction} {t : VM σ} (h : After op s t) :
    ∃ next, Moved s next t ∧ (next ≤ s.PC + 33 ∨ next ∈ s.jumpDests) := by
  unfold After at h
  split at h
  · exact ⟨_, h, Or.inl (by omega)⟩
  · obtain ⟨d, hd, hmoved⟩ := h
    exact ⟨d, hmoved, Or.inr hd⟩
  · rcases h with ⟨d, hd, hmoved⟩ | ⟨-, hmoved⟩
    · exact ⟨d, hmoved, Or.inr hd⟩
    · exact ⟨_, hmoved, Or.inl (by omega)⟩
  · exact ⟨_, h, Or.inl (by omega)⟩
  · rcases h with hmoved | hmoved
    · exact ⟨_, hmoved, Or.inl (by omega)⟩
    · exact ⟨_, hmoved, Or.inl (by omega)⟩

/-- One round leads to the next fetch: a place behind the end is reached only from within the
bytecode, and left by no instruction. -/
theorem After.ready (h : Ready host s) {t u : VM σ} (ht : Entered s t) (hu : After t.OP t u) :
    Ready host u := by
  rcases lt_or_ge s.PC host.code.length with hpc | hpc
  · obtain ⟨next, hmoved, hnext⟩ := hu.moved
    refine hmoved.ready h ht ?_
    rcases hnext with hnext | hnext
    · have := ht.PC
      omega
    · obtain ⟨last, hscanned⟩ := h.scanned
      rw [ht.jumpDests] at hnext
      have := (hscanned.found next hnext).2.1.inside
      omega
  · rw [ht.op, h.op_behind hpc] at hu
    exact Moved.ready h ht hu (ht.PC ▸ h.PC)

theorem Ready.triple_round (h : Ready host s) :
    Triple IsException (fun t ↦ t = s) (round host) fun _ u ↦
      ∃ t, fetchInstruction s = (.ok (), t) ∧ Entered s t ∧ After t.OP t u := by
  intro _ ht
  rw [ht]
  unfold round
  have hfetch := triple_fetchInstruction h.pc_lt h.low
  rcases hrun : fetchInstruction s with ⟨f | ⟨⟨⟩⟩, t⟩
  · rw [Eff.bind_error hrun]
    exact hfetch.error rfl hrun
  · have hentered := hfetch.ok rfl hrun
    obtain ⟨last, hscanned⟩ := h.scanned
    have hsorted : t.jumpDests.Pairwise (· < ·) := hentered.jumpDests ▸ hscanned.sorted
    have hcase := triple_interpretCase host t.OP hentered.fetched hsorted (h.operand hentered)
    rw [Eff.bind_ok hrun, Eff.get_bind_apply]
    refine (hcase.bind (R := fun _ u ↦ ∃ t, _ ∧ Entered s t ∧ After t.OP t u) fun l ↦ ?_) t rfl
    intro u hu
    cases l with
    | «break» => exact ⟨t, rfl, hentered, hu⟩
    | «continue» => exact ⟨t, rfl, hentered, hu⟩

end Rounds

end VM

namespace Machine

open VM

variable {σ : Type} {host : Host σ} {extVM : σ}

theorem inside_run (n : ℕ) :
    Fetches (run host extVM (n + 2)) ∧ Ready host (run host extVM (n + 2)).vm ∨
      ∃ f, (run host extVM (n + 2)).control = .failed f ∧ IsException f := by
  induction n with
  | zero =>
    have hscanned := optimize_scanned host (s := { extVM := extVM, next := some .interpret }) rfl
    have hSPP : (run host extVM 2).vm.SPP = 1024 := rfl
    exact Or.inl ⟨rfl, hscanned, by rw [hSPP]; decide, by rw [hSPP], Nat.zero_le _⟩
  | succ n ih =>
    rw [show n + 1 + 2 = n + 2 + 1 from rfl, run_succ]
    generalize run host extVM (n + 2) = m at ih ⊢
    rcases ih with ⟨hfetches, hready⟩ | ⟨f, hfailed, hexception⟩
    · have hround := hready.triple_round
      unfold Machine.step
      rw [show m.control = .loop from hfetches]
      dsimp only
      rcases hrun : round host m.vm with ⟨f | ⟨⟨⟩⟩, u⟩
      · exact Or.inr ⟨f, rfl, hround.error rfl hrun⟩
      · obtain ⟨t, -, ht, hu⟩ := hround.ok rfl hrun
        exact Or.inl ⟨rfl, hu.ready hready ht⟩
    · exact Or.inr ⟨f, step_failed hfailed, hexception⟩

theorem ready_of_fetches {n : ℕ} (h : Fetches (run host extVM n)) :
    Ready host (run host extVM n).vm := by
  match n with
  | 0 => cases h
  | 1 => cases h
  | n + 2 =>
    rcases inside_run n with ⟨-, hready⟩ | ⟨f, hfailed, -⟩
    · exact hready
    · cases h.symm.trans hfailed

/-- The instruction that begins in the state jumps: `JUMP`, or `JUMPI` with a condition. -/
def TakesJump (s : VM σ) : Prop := s.OP = .JUMP ∨ s.OP = .JUMPI ∧ item s 1 ≠ 0

theorem jumped_of_takesJump {t u : VM σ} (hjump : TakesJump t) (hu : After t.OP t u) :
    Jumped t u := by
  rcases hjump with hop | ⟨hop, hcond⟩
  · rw [hop] at hu
    exact hu
  · rw [hop] at hu
    exact hu.resolve_right fun h ↦ hcond h.1

variable (host extVM) in
/-- An execution stays inside code and stack. An access outside ends it with a failure that is no
exception, so that `access` speaks of every byte of `m_code` and every item of `m_stack` that is
read or written; `callOut` speaks of the functions that instructions are to have called. -/
structure StaysInside : Prop where
  fetch : ∀ n, Fetches (run host extVM n) →
    (run host extVM n).vm.PC < (run host extVM n).vm.code.length
  access : ∀ n f, (run host extVM n).control = .failed f → IsException f
  jump : ∀ n t, Fetches (run host extVM n) → fetchInstruction (run host extVM n).vm = (.ok (), t) →
    TakesJump t → (∀ f, (run host extVM (n + 1)).control ≠ .failed f) →
      JumpTarget host.code (run host extVM (n + 1)).vm.PC ∧
        (run host extVM (n + 1)).vm.code.getD (run host extVM (n + 1)).vm.PC 0 = 0x5b
  callOut : ∀ n t u, Fetches (run host extVM n) →
    fetchInstruction (run host extVM n).vm = (.ok (), t) → At t t.PC u → ∀ f v,
      t.OP.callsOut = some .create ∧ create host u = (.error f, v) ∨
        t.OP.callsOut = some .call ∧ call host u = (.error f, v) → IsException f

theorem callsOut_create {op : Instruction} (h : op.callsOut = some .create) :
    0 < op.ret ∧ 2 < op.args ∧ (op = .CREATE2 → 3 < op.args) := by
  unfold Instruction.callsOut at h
  split at h
  · exact ⟨by decide, by decide, nofun⟩
  · exact ⟨by decide, by decide, fun _ ↦ by decide⟩
  all_goals cases h

theorem callsOut_call {op : Instruction} (h : op.callsOut = some .call) :
    0 < op.ret ∧ 5 < op.args ∧ (op = .CALL ∨ op = .CALLCODE → 6 < op.args) := by
  unfold Instruction.callsOut at h
  split at h
  · cases h
  · cases h
  · exact ⟨by decide, by decide, fun _ ↦ by decide⟩
  · exact ⟨by decide, by decide, fun _ ↦ by decide⟩
  · exact ⟨by decide, by decide, fun hop ↦ by rcases hop with hop | hop <;> cases hop⟩
  · exact ⟨by decide, by decide, fun hop ↦ by rcases hop with hop | hop <;> cases hop⟩
  · cases h

/-- For every bytecode, host and execution: fetches and operands are read inside the code, jumps
lead to instructions `JUMPDEST`, and the stack is accessed between its ends. -/
theorem stays_inside (host : Host σ) (extVM : σ) : StaysInside host extVM where
  fetch n h := (ready_of_fetches h).pc_lt
  access n f h := by
    match n with
    | 0 => cases h
    | 1 => cases h
    | n + 2 =>
      rcases (inside_run n : Fetches (run host extVM _) ∧ _ ∨ _) with
        ⟨hfetches, -⟩ | ⟨e, hfailed, he⟩
      · cases h.symm.trans hfetches
      · cases h.symm.trans hfailed
        exact he
  jump n t hfetches hfetch hjump hpass := by
    have hready := ready_of_fetches hfetches
    obtain ⟨last, hscanned⟩ := hready.scanned
    rw [run_succ] at hpass ⊢
    generalize run host extVM n = m at *
    unfold Machine.step at hpass ⊢
    rw [show m.control = .loop from hfetches] at hpass ⊢
    dsimp only at hpass ⊢
    rcases hrun : round host m.vm with ⟨f | ⟨⟨⟩⟩, u⟩
    · rw [hrun] at hpass
      exact absurd rfl (hpass f)
    · obtain ⟨t', hfetch', ht, hu⟩ := hready.triple_round.ok rfl hrun
      cases hfetch.symm.trans hfetch'
      obtain ⟨d, hd, hmoved⟩ := jumped_of_takesJump hjump hu
      rw [ht.jumpDests] at hd
      obtain ⟨-, htarget, hbyte⟩ := hscanned.found d hd
      change JumpTarget host.code u.PC ∧ u.code.getD u.PC 0 = 0x5b
      rw [hmoved.PC, hmoved.code, ht.code]
      exact ⟨htarget, hbyte⟩
  callOut n t u hfetches hfetch hu f v hrun := by
    have hready := ready_of_fetches hfetches
    have ht := (triple_fetchInstruction hready.pc_lt hready.low).ok rfl hfetch
    rcases hrun with ⟨hcalls, hrun⟩ | ⟨hcalls, hrun⟩
    · obtain ⟨hret, hargs, hcreate2⟩ := callsOut_create hcalls
      exact (ht.fetched.ends_create host hret hargs hcreate2).error hu hrun
    · obtain ⟨hret, hargs, hvalue⟩ := callsOut_call hcalls
      exact (ht.fetched.ends_call host hret hargs hvalue).error hu hrun

end Machine

end GseNetwork.Vm
