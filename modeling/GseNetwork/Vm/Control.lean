import GseNetwork.Vm.Interpret

namespace GseNetwork.Vm

open GseNetwork.Core GseNetwork.Foundation

namespace Instruction

def halts : Instruction → Bool
  | .STOP | .RETURN | .SUICIDE => true
  | _ => false

/-- The function of `VM` that an instruction is to have called. -/
def callsOut : Instruction → Option Entry
  | .CREATE | .CREATE2 => some .create
  | .CALL | .CALLCODE | .DELEGATECALL | .STATICCALL => some .call
  | _ => none

end Instruction

namespace Machine

variable {σ : Type} (host : Host σ) (extVM : σ)

def Fetches (m : Machine σ) : Prop := m.control = .loop

def Invokes (entry : Entry) (m : Machine σ) : Prop :=
  m.control = .entry ∧ m.vm.next = some entry

def Executes (op : Instruction) (m : Machine σ) : Prop :=
  Fetches m ∧ (step host m).vm.OP = op ∧ ∀ f, (step host m).control ≠ .failed f

/-- After a halting instruction `exec` returns before anything else is fetched; after one that
calls out, the function is called exactly once before the next fetch. -/
structure Obeys : Prop where
  halting : ∀ n op, Executes host op (run host extVM n) → op.halts = true →
    ∃ k, (run host extVM (n + 1 + k)).control = .returned ∧
      ∀ j < k, ¬ Fetches (run host extVM (n + 1 + j))
  calling : ∀ n op entry, Executes host op (run host extVM n) → op.callsOut = some entry →
    ∃! k, Invokes entry (run host extVM (n + 1 + k)) ∧
      ∀ j ≤ k, ¬ Fetches (run host extVM (n + 1 + j))

variable {host extVM}

theorem run_succ (n : ℕ) : run host extVM (n + 1) = step host (run host extVM n) :=
  Function.iterate_succ_apply' (step host) n (exec extVM)

/-- A round of `interpret` that ends leads to the next fetch, whatever `m_next` is. -/
theorem fetches_step {m : Machine σ} (h : Fetches m)
    (hpass : ∀ f, (step host m).control ≠ .failed f) : Fetches (step host m) := by
  unfold Fetches at h
  unfold step at hpass ⊢
  rw [h] at hpass ⊢
  dsimp only at hpass ⊢
  rcases hround : VM.round host m.vm with ⟨f | ⟨⟨⟩⟩, s⟩
  · rw [hround] at hpass
    exact absurd rfl (hpass f)
  · rfl

theorem Executes.fetches_next {n : ℕ} {op : Instruction}
    (h : Executes host op (run host extVM n)) : Fetches (run host extVM (n + 1)) := by
  rw [run_succ]
  exact fetches_step h.1 h.2.2

theorem step_failed {m : Machine σ} {f : Failure} (h : m.control = .failed f) :
    (step host m).control = .failed f := by
  unfold step
  rw [h]
  exact h

/-- What an execution goes through: once `interpret` has begun, only an exception ends it. -/
theorem control_run (n : ℕ) :
    (run host extVM n).control = .entry ∧ n ≤ 1 ∨ Fetches (run host extVM n) ∨
      ∃ f, (run host extVM n).control = .failed f := by
  induction n with
  | zero => exact Or.inl ⟨rfl, Nat.zero_le 1⟩
  | succ n ih =>
    rw [run_succ]
    rcases ih with ⟨hentry, hn⟩ | hloop | ⟨f, hfailed⟩
    · obtain rfl | rfl : n = 0 ∨ n = 1 := by omega
      · exact Or.inl ⟨rfl, le_refl 1⟩
      · exact Or.inr (Or.inl rfl)
    · right
      by_cases hpass : ∀ f, (step host (run host extVM n)).control ≠ .failed f
      · exact Or.inl (fetches_step hloop hpass)
      · push Not at hpass
        exact Or.inr hpass
    · exact Or.inr (Or.inr ⟨f, step_failed hfailed⟩)

theorem exec_never_returns (n : ℕ) : (run host extVM n).control ≠ .returned := by
  rcases control_run n with ⟨h, -⟩ | h | ⟨f, h⟩
  · rw [h]
    exact fun heq ↦ by cases heq
  · rw [show (run host extVM n).control = .loop from h]
    exact fun heq ↦ by cases heq
  · rw [h]
    exact fun heq ↦ by cases heq

/-- For every bytecode, host and schedule: the interpreter obeys the instructions that halt or call
out exactly as long as it executes none of them. -/
theorem obeys_iff (host : Host σ) (extVM : σ) :
    Obeys host extVM ↔ ∀ n op, Executes host op (run host extVM n) →
      op.halts = false ∧ op.callsOut = none := by
  constructor
  · intro h n op hexec
    have hnext := hexec.fetches_next
    constructor
    · by_contra hhalts
      obtain ⟨k, hreturned, -⟩ := h.halting n op hexec (by simpa using hhalts)
      exact exec_never_returns _ hreturned
    · by_contra hcalls
      obtain ⟨entry, hentry⟩ := Option.ne_none_iff_exists'.mp hcalls
      obtain ⟨k, ⟨-, hbefore⟩, -⟩ := h.calling n op entry hexec hentry
      exact hbefore 0 (Nat.zero_le k) hnext
  · intro h
    refine ⟨fun n op hexec hhalts ↦ ?_, fun n op entry hexec hentry ↦ ?_⟩
    · rw [(h n op hexec).1] at hhalts
      cases hhalts
    · rw [(h n op hexec).2] at hentry
      cases hentry

end Machine

def plainHost (code : Bytes) : Host Unit where
  schedule := {
    haveBitwiseShifting := true, haveRevert := true, haveReturnData := true
    haveStaticCall := true, haveCreate2 := true, haveExtcodehash := true }
  sha3 _ := 0
  allocates _ := true
  contract := 0
  caller := 0
  origin := 0
  value := 0
  data := []
  code := code
  depth := 0
  staticCall := false
  author := 0
  timestamp := 0
  number := 0
  store _ := pure 0
  setStore _ _ := pure ()
  balance _ := pure 0
  codeAt _ := pure []
  codeSizeAt _ := pure 0
  codeHashAt _ := pure 0
  exist _ := pure false
  suicide _ := pure ()
  create _ _ _ _ := pure ([], 0)
  call _ := pure true
  blockHash _ := pure 0
  onOp := none

namespace Machine

/-- An invalid instruction ends the execution with an exception. -/
theorem obeys_iff_invalid :
    (run (plainHost [0xfe]) () 3).control =
        .failed (.exception (.badInstruction "BadInstruction")) ∧
      Obeys (plainHost [0xfe]) () := by
  have hfailed : ∀ n, (run (plainHost [0xfe]) () (n + 3)).control =
      .failed (.exception (.badInstruction "BadInstruction")) := by
    intro n
    induction n with
    | zero => rfl
    | succ n ih =>
      rw [show n + 1 + 3 = n + 3 + 1 from rfl, run_succ, step_failed ih]
  refine ⟨hfailed 0, (obeys_iff (plainHost [0xfe]) ()).mpr fun n op hexec ↦ ?_⟩
  rcases n with _ | _ | _ | n
  · cases hexec.1
  · cases hexec.1
  · exact absurd rfl (hexec.2.2 _)
  · have hfetch : Control.loop = _ := hexec.1.symm.trans (hfailed n)
    cases hfetch

/-- The state in which the code of a single `STOP` is executed over and over. -/
def AtStop (m : Machine Unit) : Prop :=
  m.control = .loop ∧ m.vm.code = List.replicate 34 0 ∧ m.vm.PC = 0 ∧ m.vm.SPP = 1024

theorem AtStop.step {m : Machine Unit} (h : AtStop m) :
    AtStop (step (plainHost [0]) m) ∧ (Machine.step (plainHost [0]) m).vm.OP = .STOP := by
  obtain ⟨⟨extVM, code, jumpDests, memory, stack, SP, SPP, returnResult, output, OP, PC, newMemSize,
    copyMemSize, steps, next⟩, control⟩ := m
  obtain ⟨hcontrol, hcode, hPC, hSPP⟩ := h
  dsimp only at hcontrol hcode hPC hSPP
  subst hcontrol hcode hPC hSPP
  exact ⟨⟨rfl, rfl, rfl, rfl⟩, rfl⟩

theorem atStop_run (n : ℕ) : AtStop (run (plainHost [0]) () (n + 2)) := by
  induction n with
  | zero => exact ⟨rfl, rfl, rfl, rfl⟩
  | succ n ih =>
    rw [show n + 1 + 2 = n + 2 + 1 from rfl, run_succ]
    exact ih.step.1

/-- The code of a single `STOP` is fetched and executed in every step, without an end. -/
theorem stop_never_stops :
    (∀ n, Executes (plainHost [0]) .STOP (run (plainHost [0]) () (n + 2)) ∧
      Fetches (run (plainHost [0]) () (n + 2 + 1))) ∧
      ¬ Obeys (plainHost [0]) () := by
  have hexec : ∀ n, Executes (plainHost [0]) .STOP (run (plainHost [0]) () (n + 2)) := by
    intro n
    obtain ⟨hstep, hop⟩ := (atStop_run n).step
    refine ⟨(atStop_run n).1, hop, fun f ↦ ?_⟩
    rw [hstep.1]
    exact fun heq ↦ by cases heq
  refine ⟨fun n ↦ ⟨hexec n, (hexec n).fetches_next⟩, fun h ↦ ?_⟩
  obtain ⟨k, hreturned, -⟩ := h.halting 2 .STOP (hexec 0) rfl
  exact exec_never_returns _ hreturned

end Machine

end GseNetwork.Vm
