import Mathlib

namespace GseNetwork.Foundation.Duplex

open Relation (ReflTransGen)

variable {α σ τ : Type}

inductive Wait (α : Type)
  | idle
  | write (data : List α)
  | read (n : ℕ)

/-- A party at one end of a connection: what it waits for in each state, how it goes on from there
with what it has read, and how it gives up. -/
structure Party (α σ : Type) where
  wait : σ → Wait α
  resume : σ → List α → σ
  fail : σ → σ

section Runs

inductive Act (P : Party α σ) : σ → List α → σ → List α → List α → Prop
  | write {s : σ} {data incoming : List α} : P.wait s = .write data →
      Act P s incoming (P.resume s []) incoming data
  | read {s : σ} {n : ℕ} {incoming : List α} : P.wait s = .read n → n ≤ incoming.length →
      Act P s incoming (P.resume s (incoming.take n)) (incoming.drop n) []

structure Link (α σ τ : Type) where
  left : σ
  right : τ
  forth : List α := []
  back : List α := []

inductive Step (P : Party α σ) (Q : Party α τ) : Link α σ τ → Link α σ τ → Prop
  | left {s : Link α σ τ} {next : σ} {back out : List α} : Act P s.left s.back next back out →
      Step P Q s { s with left := next, forth := s.forth ++ out, back := back }
  | right {s : Link α σ τ} {next : τ} {forth out : List α} : Act Q s.right s.forth next forth out →
      Step P Q s { s with right := next, back := s.back ++ out, forth := forth }

inductive Move (P : Party α σ) (Q : Party α τ) : Link α σ τ → Link α σ τ → Prop
  | step {s t : Link α σ τ} : Step P Q s t → Move P Q s t
  | failLeft {s : Link α σ τ} : Move P Q s { s with left := P.fail s.left }
  | failRight {s : Link α σ τ} : Move P Q s { s with right := Q.fail s.right }

end Runs

section Scripts

inductive Op (α : Type)
  | write (data : List α)
  | read (data : List α)

def written : List (Op α) → List α
  | [] => []
  | .write data :: ops => data ++ written ops
  | .read _ :: ops => written ops

def taken : List (Op α) → List α
  | [] => []
  | .write _ :: ops => taken ops
  | .read data :: ops => data ++ taken ops

/-- Given what the script has it read, the party does what the script has it do, and is always in
a state of `I`. -/
def Follows (P : Party α σ) (I : σ → Prop) : σ → List (Op α) → Prop
  | s, [] => I s ∧ P.wait s = .idle
  | s, .write data :: ops => I s ∧ P.wait s = .write data ∧ Follows P I (P.resume s []) ops
  | s, .read data :: ops =>
    I s ∧ P.wait s = .read data.length ∧ Follows P I (P.resume s data) ops

variable {P : Party α σ} {I : σ → Prop} {s t : σ} {ops : List (Op α)}

theorem Follows.holds (h : Follows P I s ops) : I s := by
  cases ops with
  | nil => exact h.1
  | cons op ops =>
    cases op with
    | write data => exact h.1
    | read data => exact h.1

theorem Follows.mono {J : σ → Prop} (h : Follows P I s ops) (hIJ : ∀ s, I s → J s) :
    Follows P J s ops := by
  induction ops generalizing s with
  | nil => exact ⟨hIJ s h.1, h.2⟩
  | cons op ops ih =>
    cases op with
    | write data => exact ⟨hIJ s h.1, h.2.1, ih h.2.2⟩
    | read data => exact ⟨hIJ s h.1, h.2.1, ih h.2.2⟩

/-- A party that follows a script goes on as the script has it, if what comes is what the script
has it read. -/
theorem Follows.act {incoming incoming' out later : List α} (h : Follows P I s ops)
    (hact : Act P s incoming t incoming' out) (hcome : incoming ++ later = taken ops) :
    ∃ ops', Follows P I t ops' ∧ incoming' ++ later = taken ops' ∧
      written ops = out ++ written ops' := by
  cases ops with
  | nil =>
    cases hact with
    | write hwait => cases hwait.symm.trans h.2
    | read hwait => cases hwait.symm.trans h.2
  | cons op ops =>
    cases op with
    | write data =>
      obtain ⟨-, hwait, hnext⟩ := h
      cases hact with
      | write hwait' =>
        obtain rfl := Wait.write.inj (hwait.symm.trans hwait')
        exact ⟨ops, hnext, hcome, rfl⟩
      | read hwait' => cases hwait.symm.trans hwait'
    | read data =>
      obtain ⟨-, hwait, hnext⟩ := h
      cases hact with
      | write hwait' => cases hwait.symm.trans hwait'
      | read hwait' hlen =>
        obtain rfl := Wait.read.inj (hwait.symm.trans hwait')
        -- As much as the script reads has come, so it is what the script reads.
        have htake : incoming.take data.length = data := by
          have hboth := congrArg (List.take data.length) hcome
          rwa [List.take_append_of_le_length hlen, taken, List.take_left' rfl] at hboth
        refine ⟨ops, by rwa [htake], ?_, rfl⟩
        have hboth := congrArg (List.drop data.length) hcome
        rwa [List.drop_append_of_le_length hlen, taken, List.drop_left' rfl] at hboth

end Scripts

section Safety

variable {P : Party α σ} {Q : Party α τ} {I : σ → Prop} {J : τ → Prop} {s t : Link α σ τ}

def FollowsOrFailed (P : Party α σ) (I : σ → Prop) (s : σ) (ops : List (Op α)) : Prop :=
  Follows P I s ops ∨ (I s ∧ P.wait s = .idle)

theorem FollowsOrFailed.act {s t : σ} {ops : List (Op α)} {incoming incoming' out later : List α}
    (h : FollowsOrFailed P I s ops) (hact : Act P s incoming t incoming' out)
    (hcome : incoming ++ later = taken ops) :
    ∃ ops', FollowsOrFailed P I t ops' ∧ incoming' ++ later = taken ops' ∧
      written ops = out ++ written ops' := by
  rcases h with h | ⟨-, hidle⟩
  · obtain ⟨ops', h', hcome', hout⟩ := h.act hact hcome
    exact ⟨ops', .inl h', hcome', hout⟩
  · cases hact with
    | write hwait => cases hwait.symm.trans hidle
    | read hwait => cases hwait.symm.trans hidle

/-- Each party follows its script, and what is under way is what the one has written and the other
has still to read. -/
structure Matched (P : Party α σ) (Q : Party α τ) (I : σ → Prop) (J : τ → Prop)
    (s : Link α σ τ) (opsL opsR : List (Op α)) : Prop where
  left : FollowsOrFailed P I s.left opsL
  right : FollowsOrFailed Q J s.right opsR
  forth : s.forth ++ written opsL = taken opsR
  back : s.back ++ written opsR = taken opsL

variable (hI : ∀ s, I s → I (P.fail s) ∧ P.wait (P.fail s) = .idle)
  (hJ : ∀ s, J s → J (Q.fail s) ∧ Q.wait (Q.fail s) = .idle)

theorem FollowsOrFailed.holds {s : σ} {ops : List (Op α)} (h : FollowsOrFailed P I s ops) :
    I s := by
  rcases h with h | h
  · exact h.holds
  · exact h.1

include hI hJ in
theorem Matched.move {opsL opsR : List (Op α)} (h : Matched P Q I J s opsL opsR)
    (hmove : Move P Q s t) : ∃ opsL' opsR', Matched P Q I J t opsL' opsR' := by
  cases hmove with
  | step hstep =>
    cases hstep with
    | left hact =>
      obtain ⟨opsL', hleft, hback, hout⟩ := h.left.act hact h.back
      refine ⟨opsL', opsR, hleft, h.right, ?_, hback⟩
      rw [List.append_assoc, ← hout]
      exact h.forth
    | right hact =>
      obtain ⟨opsR', hright, hforth, hout⟩ := h.right.act hact h.forth
      refine ⟨opsL, opsR', h.left, hright, hforth, ?_⟩
      rw [List.append_assoc, ← hout]
      exact h.back
  | failLeft => exact ⟨opsL, opsR, .inr (hI _ h.left.holds), h.right, h.forth, h.back⟩
  | failRight => exact ⟨opsL, opsR, h.left, .inr (hJ _ h.right.holds), h.forth, h.back⟩

include hI hJ in
/-- Two parties whose scripts match are in states of `I` and `J` at every time, in whatever order
they go on or give up. -/
theorem safety {opsL opsR : List (Op α)} (h : Matched P Q I J s opsL opsR)
    (hrun : ReflTransGen (Move P Q) s t) : I t.left ∧ J t.right := by
  have hmatched : ∃ opsL' opsR', Matched P Q I J t opsL' opsR' := by
    induction hrun with
    | refl => exact ⟨opsL, opsR, h⟩
    | tail _ hmove ih =>
      obtain ⟨opsL', opsR', h'⟩ := ih
      exact h'.move hI hJ hmove
  obtain ⟨opsL', opsR', h'⟩ := hmatched
  exact ⟨h'.left.holds, h'.right.holds⟩

end Safety

section Completion

variable {P : Party α σ} {Q : Party α τ} {s t u : Link α σ τ}

theorem act_unique {s t t' : σ} {incoming rest rest' out out' : List α}
    (h : Act P s incoming t rest out) (h' : Act P s incoming t' rest' out') :
    t = t' ∧ rest = rest' ∧ out = out' := by
  cases h with
  | write hwait =>
    cases h' with
    | write hwait' =>
      obtain rfl := Wait.write.inj (hwait.symm.trans hwait')
      exact ⟨rfl, rfl, rfl⟩
    | read hwait' => cases hwait.symm.trans hwait'
  | read hwait =>
    cases h' with
    | write hwait' => cases hwait.symm.trans hwait'
    | read hwait' =>
      obtain rfl := Wait.read.inj (hwait.symm.trans hwait')
      exact ⟨rfl, rfl, rfl⟩

theorem Act.append {s t : σ} {incoming rest out : List α} (h : Act P s incoming t rest out)
    (more : List α) : Act P s (incoming ++ more) t (rest ++ more) out := by
  cases h with
  | write hwait => exact .write hwait
  | @read n _ hwait hlen =>
    have hact : Act P s (incoming ++ more) _ _ _ := .read hwait (hlen.trans (by simp))
    rwa [List.take_append_of_le_length hlen, List.drop_append_of_le_length hlen] at hact

theorem Step.diamond (h : Step P Q s t) (h' : Step P Q s u) :
    t = u ∨ ∃ v, Step P Q t v ∧ Step P Q u v := by
  cases h with
  | left hact =>
    cases h' with
    | left hact' =>
      obtain ⟨rfl, rfl, rfl⟩ := act_unique hact hact'
      exact .inl rfl
    | right hact' =>
      exact .inr ⟨_, .right (hact'.append _), .left (hact.append _)⟩
  | right hact =>
    cases h' with
    | left hact' =>
      exact .inr ⟨_, .left (hact'.append _), .right (hact.append _)⟩
    | right hact' =>
      obtain ⟨rfl, rfl, rfl⟩ := act_unique hact hact'
      exact .inl rfl

def Done (P : Party α σ) (Q : Party α τ) (s : Link α σ τ) : Prop :=
  P.wait s.left = .idle ∧ Q.wait s.right = .idle

theorem Done.not_step (h : Done P Q s) : ¬ Step P Q s t := by
  intro hstep
  cases hstep with
  | left hact =>
    cases hact with
    | write hwait => cases hwait.symm.trans h.1
    | read hwait => cases hwait.symm.trans h.1
  | right hact =>
    cases hact with
    | write hwait => cases hwait.symm.trans h.2
    | read hwait => cases hwait.symm.trans h.2

theorem completes_of_step (hrun : ReflTransGen (Step P Q) s t) (hdone : Done P Q t)
    (hstep : Step P Q s u) : ReflTransGen (Step P Q) u t := by
  induction hrun using ReflTransGen.head_induction_on generalizing u with
  | refl => exact absurd hstep hdone.not_step
  | head hfirst hrest ih =>
    rcases hfirst.diamond hstep with rfl | ⟨v, hv, hv'⟩
    · exact hrest
    · exact .head hv' (ih hv)

/-- If the parties can come to an end, they do so in every order, and to the same one. -/
theorem completes (hrun : ReflTransGen (Step P Q) s t) (hdone : Done P Q t)
    (hrun' : ReflTransGen (Step P Q) s u) : ReflTransGen (Step P Q) u t := by
  induction hrun' with
  | refl => exact hrun
  | tail _ hstep ih => exact completes_of_step ih hdone hstep

inductive Schedule : List α → List α → List (Op α) → List (Op α) → Prop
  | done : Schedule [] [] [] []
  | writeLeft {forth back data : List α} {opsL opsR : List (Op α)} :
      Schedule (forth ++ data) back opsL opsR → Schedule forth back (.write data :: opsL) opsR
  | readLeft {forth back data rest : List α} {opsL opsR : List (Op α)} : back = data ++ rest →
      Schedule forth rest opsL opsR → Schedule forth back (.read data :: opsL) opsR
  | writeRight {forth back data : List α} {opsL opsR : List (Op α)} :
      Schedule forth (back ++ data) opsL opsR → Schedule forth back opsL (.write data :: opsR)
  | readRight {forth back data rest : List α} {opsL opsR : List (Op α)} : forth = data ++ rest →
      Schedule rest back opsL opsR → Schedule forth back opsL (.read data :: opsR)

theorem Schedule.flow {forth back : List α} {opsL opsR : List (Op α)}
    (h : Schedule forth back opsL opsR) :
    forth ++ written opsL = taken opsR ∧ back ++ written opsR = taken opsL := by
  induction h with
  | done => exact ⟨rfl, rfl⟩
  | writeLeft _ ih => exact ⟨by rw [written, ← List.append_assoc]; exact ih.1, ih.2⟩
  | readLeft hback _ ih => exact ⟨ih.1, by rw [hback, taken, List.append_assoc, ih.2]⟩
  | writeRight _ ih => exact ⟨ih.1, by rw [written, ← List.append_assoc]; exact ih.2⟩
  | readRight hforth _ ih => exact ⟨by rw [hforth, taken, List.append_assoc, ih.1], ih.2⟩

theorem act_read {s : σ} {data incoming : List α} (h : P.wait s = .read data.length) :
    Act P s (data ++ incoming) (P.resume s data) incoming [] := by
  have hact : Act P s (data ++ incoming) _ _ [] := .read h (by simp)
  rwa [List.take_left' rfl, List.drop_left' rfl] at hact

/-- Parties that follow their scripts carry them out in the order of a schedule. -/
theorem Schedule.run {I : σ → Prop} {J : τ → Prop} {forth back : List α} {opsL opsR : List (Op α)}
    (h : Schedule forth back opsL opsR) {x : σ} {y : τ} (hleft : Follows P I x opsL)
    (hright : Follows Q J y opsR) :
    ∃ x' y', ReflTransGen (Step P Q) ⟨x, y, forth, back⟩ ⟨x', y', [], []⟩ ∧
      (I x' ∧ P.wait x' = .idle) ∧ (J y' ∧ Q.wait y' = .idle) := by
  induction h generalizing x y with
  | done => exact ⟨x, y, .refl, hleft, hright⟩
  | writeLeft _ ih =>
    obtain ⟨-, hwait, hnext⟩ := hleft
    obtain ⟨x', y', hrun, hdone⟩ := ih hnext hright
    exact ⟨x', y', .head (.left (.write hwait)) hrun, hdone⟩
  | readLeft hback _ ih =>
    subst hback
    obtain ⟨-, hwait, hnext⟩ := hleft
    obtain ⟨x', y', hrun, hdone⟩ := ih hnext hright
    refine ⟨x', y', .head (.left (act_read hwait)) ?_, hdone⟩
    rwa [List.append_nil]
  | writeRight _ ih =>
    obtain ⟨-, hwait, hnext⟩ := hright
    obtain ⟨x', y', hrun, hdone⟩ := ih hleft hnext
    exact ⟨x', y', .head (.right (.write hwait)) hrun, hdone⟩
  | readRight hforth _ ih =>
    subst hforth
    obtain ⟨-, hwait, hnext⟩ := hright
    obtain ⟨x', y', hrun, hdone⟩ := ih hleft hnext
    refine ⟨x', y', .head (.right (act_read hwait)) ?_, hdone⟩
    rwa [List.append_nil]

end Completion

end GseNetwork.Foundation.Duplex
