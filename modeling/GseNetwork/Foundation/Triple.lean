import GseNetwork.Foundation.Effect

namespace GseNetwork.Foundation.Eff

variable {σ ε α β : Type}

/-- From a state in `P` the computation ends in `Q`, or stops with an exception in `E`. -/
def Triple (E : ε → Prop) (P : σ → Prop) (m : Eff σ ε α) (Q : α → σ → Prop) : Prop :=
  ∀ s, P s → match m s with
    | (.ok a, t) => Q a t
    | (.error e, _) => E e

/-- The computation keeps `I`, or stops with an exception in `E`. -/
def Stays (E : ε → Prop) (I : σ → Prop) (m : Eff σ ε α) : Prop := Triple E I m fun _ ↦ I

variable {E : ε → Prop} {P I : σ → Prop} {Q : α → σ → Prop} {R : β → σ → Prop}

theorem Triple.ok {m : Eff σ ε α} (h : Triple E P m Q) {s t : σ} {a : α} (hs : P s)
    (hrun : m s = (.ok a, t)) : Q a t := by
  have hpost := h s hs
  rwa [hrun] at hpost

theorem Triple.error {m : Eff σ ε α} (h : Triple E P m Q) {s t : σ} {e : ε} (hs : P s)
    (hrun : m s = (.error e, t)) : E e := by
  have hpost := h s hs
  rwa [hrun] at hpost

theorem Triple.mono {m : Eff σ ε α} {Q' : α → σ → Prop} (h : Triple E P m Q)
    (hpost : ∀ a s, Q a s → Q' a s) : Triple E P m Q' := by
  intro s hs
  have hm := h s hs
  rcases hrun : m s with ⟨e | a, t⟩
  · rwa [hrun] at hm
  · rw [hrun] at hm
    exact hpost a t hm

theorem Triple.bind {m : Eff σ ε α} {f : α → Eff σ ε β} (hm : Triple E P m Q)
    (hf : ∀ a, Triple E (Q a) (f a) R) : Triple E P (m >>= f) R := by
  intro s hs
  have h := hm s hs
  rcases hrun : m s with ⟨e | a, t⟩
  · rw [hrun] at h
    rw [bind_error hrun]
    exact h
  · rw [hrun] at h
    rw [bind_ok hrun]
    exact hf a t h

theorem triple_throw {e : ε} (h : E e) : Triple E P (throw e : Eff σ ε α) Q := fun _ _ ↦ h

theorem triple_modify {f : σ → σ} {Q : Unit → σ → Prop} (h : ∀ s, P s → Q () (f s)) :
    Triple E P (modify f : Eff σ ε Unit) Q := h

theorem Stays.bind {m : Eff σ ε α} {f : α → Eff σ ε β} (hm : Stays E I m)
    (hf : ∀ a, Triple E I (f a) R) : Triple E I (m >>= f) R :=
  Triple.bind hm hf

theorem stays_pure (a : α) : Stays E I (pure a : Eff σ ε α) := fun _ hs ↦ hs

theorem stays_get : Stays E I (get : Eff σ ε σ) := fun _ hs ↦ hs

theorem triple_get_bind {f : σ → Eff σ ε β} (h : ∀ t, P t → Triple E P (f t) R) :
    Triple E P (get >>= f) R :=
  fun s hs ↦ h s hs s hs

theorem stays_throw {e : ε} (h : E e) : Stays E I (throw e : Eff σ ε α) := fun _ _ ↦ h

theorem stays_modify {f : σ → σ} (h : ∀ s, I s → I (f s)) :
    Stays E I (modify f : Eff σ ε Unit) := h

theorem stays_ite {c : Prop} [Decidable c] {m n : Eff σ ε α} (hm : Stays E I m)
    (hn : Stays E I n) : Stays E I (if c then m else n) := by
  split_ifs
  · exact hm
  · exact hn

end GseNetwork.Foundation.Eff
