import GseNetwork.Foundation.Effect

namespace GseNetwork.Foundation.Eff

variable {σ τ ε α β α' β' γ : Type}

/-- Whenever `m` succeeds, so does `m'` from a related state, with a related result in a related
state. -/
def Lockstep (R : σ → τ → Prop) (Q : α → α' → Prop) (m : Eff σ ε α) (m' : Eff τ ε α') : Prop :=
  ∀ s t, R s t → ∀ a u, m s = (.ok a, u) → ∃ a' u', m' t = (.ok a', u') ∧ Q a a' ∧ R u u'

variable {R : σ → τ → Prop} {Q : α → α' → Prop} {Q' : β → β' → Prop}

theorem lockstep_pure {a : α} {a' : α'} (h : Q a a') :
    Lockstep R Q (pure a : Eff σ ε α) (pure a' : Eff τ ε α') := by
  intro s t hst b u hrun
  obtain ⟨hb, rfl⟩ := Prod.mk.inj hrun
  obtain rfl := Except.ok.inj hb
  exact ⟨a', t, rfl, h, hst⟩

theorem lockstep_throw (e : ε) (m' : Eff τ ε α') : Lockstep R Q (throw e : Eff σ ε α) m' := by
  intro s t _ a u hrun
  cases (Prod.mk.inj hrun).1

theorem lockstep_ofExcept {x : Except ε α} {x' : Except ε α'}
    (h : ∀ a, x = .ok a → ∃ a', x' = .ok a' ∧ Q a a') :
    Lockstep R Q (ofExcept x : Eff σ ε α) (ofExcept x' : Eff τ ε α') := by
  intro s t hst a u hrun
  obtain ⟨hx, rfl⟩ := Prod.mk.inj hrun
  obtain ⟨a', rfl, ha⟩ := h a hx
  exact ⟨a', t, rfl, ha, hst⟩

theorem Lockstep.bind {m : Eff σ ε α} {m' : Eff τ ε α'} {f : α → Eff σ ε β} {f' : α' → Eff τ ε β'}
    (hm : Lockstep R Q m m') (hf : ∀ a a', Q a a' → Lockstep R Q' (f a) (f' a')) :
    Lockstep R Q' (m >>= f) (m' >>= f') := by
  intro s t hst b u hrun
  obtain ⟨a, v, hv, hrest⟩ := bind_eq_ok.mp hrun
  obtain ⟨a', v', hv', ha, hR⟩ := hm s t hst a v hv
  obtain ⟨b', u', hu', hb, hR'⟩ := hf a a' ha v v' hR b u hrest
  exact ⟨b', u', bind_eq_ok.mpr ⟨a', v', hv', hu'⟩, hb, hR'⟩

theorem lockstep_ite {p p' : Prop} [Decidable p] [Decidable p'] (hp : p ↔ p')
    {m n : Eff σ ε α} {m' n' : Eff τ ε α'} (hm : p → Lockstep R Q m m')
    (hn : ¬ p → Lockstep R Q n n') :
    Lockstep R Q (if p then m else n) (if p' then m' else n') := by
  by_cases h : p
  · rw [if_pos h, if_pos (hp.mp h)]
    exact hm h
  · rw [if_neg h, if_neg (mt hp.mpr h)]
    exact hn h

theorem lockstep_forEach {f : γ → Eff σ ε Unit} {f' : γ → Eff τ ε Unit} (xs : List γ)
    (h : ∀ x ∈ xs, Lockstep R (fun _ _ ↦ True) (f x) (f' x)) :
    Lockstep R (fun _ _ ↦ True) (forEach xs f) (forEach xs f') := by
  induction xs with
  | nil => exact lockstep_pure trivial
  | cons x xs ih =>
    exact (h x List.mem_cons_self).bind fun _ _ _ ↦ ih fun y hy ↦ h y (List.mem_cons_of_mem x hy)

section Succeeds

/-- From every state with `I` the computation succeeds, in a state with `I` and with a result
with `P`. -/
def Succeeds (I : σ → Prop) (m : Eff σ ε α) (P : α → Prop) : Prop :=
  ∀ s, I s → ∃ a t, m s = (.ok a, t) ∧ I t ∧ P a

variable {I : σ → Prop} {P : α → Prop} {P' : β → Prop}

theorem Succeeds.bind {m : Eff σ ε α} {f : α → Eff σ ε β} (hm : Succeeds I m P)
    (hf : ∀ a, P a → Succeeds I (f a) P') : Succeeds I (m >>= f) P' := by
  intro s hs
  obtain ⟨a, t, ht, hI, ha⟩ := hm s hs
  obtain ⟨b, u, hu, hI', hb⟩ := hf a ha t hI
  exact ⟨b, u, bind_eq_ok.mpr ⟨a, t, ht, hu⟩, hI', hb⟩

theorem succeeds_get : Succeeds I (get : Eff σ ε σ) I := fun s hs ↦ ⟨s, s, rfl, hs, hs⟩

theorem succeeds_modify {f : σ → σ} (hf : ∀ s, I s → I (f s)) :
    Succeeds I (modify f : Eff σ ε Unit) fun _ ↦ True :=
  fun s hs ↦ ⟨(), f s, rfl, hf s hs, trivial⟩

theorem succeeds_ofExcept {x : Except ε α} (hx : ∃ a, x = .ok a) :
    Succeeds I (ofExcept x : Eff σ ε α) fun _ ↦ True := by
  obtain ⟨a, rfl⟩ := hx
  exact fun s hs ↦ ⟨a, s, rfl, hs, trivial⟩

end Succeeds

end GseNetwork.Foundation.Eff
