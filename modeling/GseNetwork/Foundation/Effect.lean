import Mathlib

namespace GseNetwork.Foundation

def Eff (σ ε α : Type) := σ → Except ε α × σ

namespace Eff

variable {σ τ ε α β : Type}

instance : Monad (Eff σ ε) where
  pure a := fun s ↦ (.ok a, s)
  bind m f := fun s ↦ match m s with
    | (.ok a, s') => f a s'
    | (.error e, s') => (.error e, s')

def get : Eff σ ε σ := fun s ↦ (.ok s, s)

def modify (f : σ → σ) : Eff σ ε Unit := fun s ↦ (.ok (), f s)

def throw (e : ε) : Eff σ ε α := fun s ↦ (.error e, s)

def ofExcept (x : Except ε α) : Eff σ ε α := fun s ↦ (x, s)

def zoom (proj : σ → τ) (put : τ → σ → σ) (m : Eff τ ε α) : Eff σ ε α := fun s ↦
  ((m (proj s)).1, put (m (proj s)).2 s)

def tryCatch (m : Eff σ ε α) (handle : ε → Eff σ ε α) : Eff σ ε α := fun s ↦
  match m s with
  | (.ok a, s') => (.ok a, s')
  | (.error e, s') => handle e s'

def forEach : List β → (β → Eff σ ε Unit) → Eff σ ε Unit
  | [], _ => pure ()
  | x :: xs, f => do
    f x
    forEach xs f

@[simp] theorem pure_apply (a : α) (s : σ) : (pure a : Eff σ ε α) s = (.ok a, s) := rfl

@[simp] theorem get_apply (s : σ) : (get : Eff σ ε σ) s = (.ok s, s) := rfl

@[simp] theorem modify_apply (f : σ → σ) (s : σ) :
    (modify f : Eff σ ε Unit) s = (.ok (), f s) := rfl

@[simp] theorem throw_apply (e : ε) (s : σ) : (throw e : Eff σ ε α) s = (.error e, s) := rfl

@[simp] theorem ofExcept_apply (x : Except ε α) (s : σ) :
    (ofExcept x : Eff σ ε α) s = (x, s) := rfl

@[simp] theorem zoom_apply (proj : σ → τ) (put : τ → σ → σ) (m : Eff τ ε α) (s : σ) :
    zoom proj put m s = ((m (proj s)).1, put (m (proj s)).2 s) := rfl

theorem bind_apply (m : Eff σ ε α) (f : α → Eff σ ε β) (s : σ) :
    (m >>= f) s = match m s with
      | (.ok a, s') => f a s'
      | (.error e, s') => (.error e, s') := rfl

theorem bind_ok {m : Eff σ ε α} {f : α → Eff σ ε β} {s s' : σ} {a : α}
    (h : m s = (.ok a, s')) : (m >>= f) s = f a s' := by
  rw [bind_apply, h]

theorem bind_error {m : Eff σ ε α} {f : α → Eff σ ε β} {s s' : σ} {e : ε}
    (h : m s = (.error e, s')) : (m >>= f) s = (.error e, s') := by
  rw [bind_apply, h]

@[simp] theorem pure_bind_apply (a : α) (f : α → Eff σ ε β) (s : σ) :
    ((pure a : Eff σ ε α) >>= f) s = f a s := rfl

@[simp] theorem get_bind_apply (f : σ → Eff σ ε β) (s : σ) :
    ((get : Eff σ ε σ) >>= f) s = f s s := rfl

@[simp] theorem modify_bind_apply (g : σ → σ) (f : Unit → Eff σ ε β) (s : σ) :
    ((modify g : Eff σ ε Unit) >>= f) s = f () (g s) := rfl

@[simp] theorem ofExcept_ok_bind (a : α) (f : α → Eff σ ε β) (s : σ) :
    ((ofExcept (.ok a) : Eff σ ε α) >>= f) s = f a s := rfl

@[simp] theorem throw_bind_apply (e : ε) (f : α → Eff σ ε β) (s : σ) :
    ((throw e : Eff σ ε α) >>= f) s = (.error e, s) := rfl

theorem tryCatch_ok {m : Eff σ ε α} {f : ε → Eff σ ε α} {s s' : σ} {a : α}
    (h : m s = (.ok a, s')) : tryCatch m f s = (.ok a, s') := by
  unfold tryCatch
  rw [h]

theorem tryCatch_error {m : Eff σ ε α} {f : ε → Eff σ ε α} {s s' : σ} {e : ε}
    (h : m s = (.error e, s')) : tryCatch m f s = f e s' := by
  unfold tryCatch
  rw [h]

theorem bind_eq_ok {m : Eff σ ε α} {f : α → Eff σ ε β} {s s' : σ} {b : β} :
    (m >>= f) s = (.ok b, s') ↔ ∃ a t, m s = (.ok a, t) ∧ f a t = (.ok b, s') := by
  constructor
  · intro h
    rcases hm : m s with ⟨_ | a, t⟩
    · rw [bind_error hm] at h
      simp at h
    · exact ⟨a, t, rfl, (bind_ok hm).symm.trans h⟩
  · rintro ⟨a, t, hm, hf⟩
    rw [bind_ok hm, hf]

theorem eq_ok_of_isOk {m : Eff σ ε Unit} {s : σ} (h : (m s).1.isOk = true) :
    m s = (.ok (), (m s).2) := by
  rcases hm : m s with ⟨_ | ⟨⟨⟩⟩, t⟩
  · simp [hm, Except.isOk, Except.toBool] at h
  · rfl

theorem eq_ok_of_toOption {m : Eff σ ε α} {s : σ} {a : α}
    (h : (m s).1.toOption = some a) : m s = (.ok a, (m s).2) := by
  rcases hm : m s with ⟨_ | b, t⟩
  · simp [hm, Except.toOption] at h
  · rw [hm] at h
    rw [Option.some.inj h]

theorem forEach_nil (f : β → Eff σ ε Unit) (s : σ) : forEach [] f s = (.ok (), s) := rfl

theorem forEach_cons_eq_ok {x : β} {xs : List β} {f : β → Eff σ ε Unit} {s s' : σ} :
    forEach (x :: xs) f s = (.ok (), s') ↔
      ∃ t, f x s = (.ok (), t) ∧ forEach xs f t = (.ok (), s') := by
  rw [forEach, bind_eq_ok]
  constructor
  · rintro ⟨⟨⟩, t, hx, hxs⟩
    exact ⟨t, hx, hxs⟩
  · rintro ⟨t, hx, hxs⟩
    exact ⟨(), t, hx, hxs⟩

theorem forEach_append_eq_ok {xs ys : List β} {f : β → Eff σ ε Unit} {s s' : σ} :
    forEach (xs ++ ys) f s = (.ok (), s') ↔
      ∃ t, forEach xs f s = (.ok (), t) ∧ forEach ys f t = (.ok (), s') := by
  induction xs generalizing s with
  | nil => simp [forEach_nil]
  | cons x xs ih =>
    rw [List.cons_append, forEach_cons_eq_ok]
    constructor
    · rintro ⟨u, hx, hxs⟩
      obtain ⟨t, hxs, hys⟩ := ih.mp hxs
      exact ⟨t, forEach_cons_eq_ok.mpr ⟨u, hx, hxs⟩, hys⟩
    · rintro ⟨t, hxs, hys⟩
      obtain ⟨u, hx, hxs⟩ := forEach_cons_eq_ok.mp hxs
      exact ⟨u, hx, ih.mpr ⟨t, hxs, hys⟩⟩

/-- The invariant rule for loops that end without an exception; the invariant may mention the
elements still to come. -/
theorem forEach_invariant {f : β → Eff σ ε Unit} {I : List β → σ → Prop}
    (hstep : ∀ x xs s t, I (x :: xs) s → f x s = (.ok (), t) → I xs t) {xs : List β} {s s' : σ}
    (hrun : forEach xs f s = (.ok (), s')) (hs : I xs s) : I [] s' := by
  induction xs generalizing s with
  | nil =>
    obtain ⟨-, rfl⟩ := Prod.mk.inj hrun
    exact hs
  | cons x xs ih =>
    obtain ⟨t, hx, hxs⟩ := forEach_cons_eq_ok.mp hrun
    exact ih hxs (hstep x xs s t hs hx)

/-- Every run of `m`, also one that stops with an exception, relates the states before and
after it by `R`. -/
def Keeps (R : σ → σ → Prop) (m : Eff σ ε α) : Prop := ∀ s, R s (m s).2

section Keeps

variable {R : σ → σ → Prop}

theorem keeps_pure (hrefl : ∀ s, R s s) (a : α) : Keeps R (pure a : Eff σ ε α) :=
  fun s ↦ hrefl s

theorem keeps_throw (hrefl : ∀ s, R s s) (e : ε) : Keeps R (throw e : Eff σ ε α) :=
  fun s ↦ hrefl s

theorem Keeps.bind (htrans : ∀ s t u, R s t → R t u → R s u) {m : Eff σ ε α}
    {f : α → Eff σ ε β} (hm : Keeps R m) (hf : ∀ a, Keeps R (f a)) : Keeps R (m >>= f) := by
  intro s
  have h := hm s
  rcases hms : m s with ⟨_ | a, t⟩
  · rw [bind_error hms]
    rwa [hms] at h
  · rw [bind_ok hms]
    rw [hms] at h
    exact htrans _ _ _ h (hf a t)

theorem keeps_forEach (hrefl : ∀ s, R s s) (htrans : ∀ s t u, R s t → R t u → R s u)
    {f : β → Eff σ ε Unit} (xs : List β) (hf : ∀ x ∈ xs, Keeps R (f x)) :
    Keeps R (forEach xs f) := by
  induction xs with
  | nil => exact keeps_pure hrefl ()
  | cons x xs ih =>
    exact Keeps.bind htrans (hf x (by simp)) fun _ ↦ ih fun y hy ↦ hf y (by simp [hy])

end Keeps

/-- Every run of `m` from `I` that ends without an exception ends in `I` again, with a result
that meets `Q`. -/
def Ensures (I : σ → Prop) (m : Eff σ ε α) (Q : α → Prop) : Prop :=
  ∀ s a t, I s → m s = (.ok a, t) → I t ∧ Q a

section Ensures

variable {I : σ → Prop} {P : α → Prop} {Q : β → Prop}

theorem ensures_pure {a : α} (h : P a) : Ensures I (pure a : Eff σ ε α) P := by
  intro s b t hs hrun
  obtain ⟨hab, rfl⟩ := Prod.mk.inj hrun
  exact ⟨hs, Except.ok.inj hab ▸ h⟩

theorem ensures_throw (e : ε) : Ensures I (throw e : Eff σ ε α) P := by
  intro s b t hs hrun
  simp at hrun

theorem Ensures.bind {m : Eff σ ε α} {f : α → Eff σ ε β} (hm : Ensures I m P)
    (hf : ∀ a, P a → Ensures I (f a) Q) : Ensures I (m >>= f) Q := by
  intro s b u hs hrun
  obtain ⟨a, t, hms, hfa⟩ := bind_eq_ok.mp hrun
  obtain ⟨ht, ha⟩ := hm s a t hs hms
  exact hf a ha t b u ht hfa

theorem ensures_forEach {f : β → Eff σ ε Unit} {xs : List β}
    (hf : ∀ x ∈ xs, Ensures I (f x) fun _ ↦ True) :
    Ensures I (forEach xs f) fun _ ↦ True := by
  induction xs with
  | nil => exact ensures_pure trivial
  | cons x xs ih =>
    exact (hf x (by simp)).bind fun _ _ ↦ ih fun y hy ↦ hf y (by simp [hy])

end Ensures

end Eff

end GseNetwork.Foundation
