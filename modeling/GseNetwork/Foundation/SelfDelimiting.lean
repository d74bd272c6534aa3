import GseNetwork.Foundation.BigEndian

namespace GseNetwork.Foundation.SelfDelimiting

variable {α ε : Type} (size : List α → Except ε ℕ)

/-- A word whose length is announced by its own first letters: whatever follows it, `size`
reads off exactly the letters of the word. -/
structure Delimited (x : List α) : Prop where
  ne_nil : x ≠ []
  size_append : ∀ r, size (x ++ r) = .ok x.length

variable {size}

theorem Delimited.size_eq {x : List α} (h : Delimited size x) : size x = .ok x.length := by
  simpa using h.size_append []

theorem Delimited.length_pos {x : List α} (h : Delimited size x) : 0 < x.length :=
  List.length_pos_iff.mpr h.ne_nil

theorem Delimited.append_inj {x y r s : List α} (hx : Delimited size x) (hy : Delimited size y)
    (h : x ++ r = y ++ s) : x = y ∧ r = s := by
  have hlen : x.length = y.length := by
    have hsize : Except.ok (ε := ε) x.length = .ok y.length := by
      rw [← hx.size_append r, h, hy.size_append s]
    exact Except.ok.inj hsize
  exact List.append_inj h hlen

theorem flatten_inj {xs ys : List (List α)} (hxs : ∀ x ∈ xs, Delimited size x)
    (hys : ∀ y ∈ ys, Delimited size y) (h : xs.flatten = ys.flatten) : xs = ys := by
  induction xs generalizing ys with
  | nil =>
    cases ys with
    | nil => rfl
    | cons y ys =>
      have hnil : y ++ ys.flatten = [] := by simpa using h.symm
      exact absurd (List.append_eq_nil_iff.mp hnil).1 (hys y (by simp)).ne_nil
  | cons x xs ih =>
    cases ys with
    | nil =>
      have hnil : x ++ xs.flatten = [] := by simpa using h
      exact absurd (List.append_eq_nil_iff.mp hnil).1 (hxs x (by simp)).ne_nil
    | cons y ys =>
      obtain ⟨hxy, hrest⟩ :=
        (hxs x (by simp)).append_inj (hys y (by simp)) (by simpa using h)
      have htail := ih (fun z hz ↦ hxs z (by simp [hz])) (fun z hz ↦ hys z (by simp [hz])) hrest
      rw [hxy, htail]

/-- Splits a sequence of words; `fuel` bounds the number of letters. -/
def split (size : List α → Except ε ℕ) : ℕ → List α → Except ε (List (List α))
  | 0, _ => .ok []
  | fuel + 1, b =>
    if b.isEmpty then .ok []
    else match size b with
      | .error e => .error e
      | .ok n => match split size fuel (b.drop n) with
        | .error e => .error e
        | .ok xs => .ok (b.take n :: xs)

theorem split_flatten {xs : List (List α)} (hxs : ∀ x ∈ xs, Delimited size x) {fuel : ℕ}
    (hfuel : xs.length ≤ fuel) : split size fuel xs.flatten = .ok xs := by
  induction xs generalizing fuel with
  | nil => cases fuel <;> simp [split]
  | cons x xs ih =>
    obtain ⟨fuel, rfl⟩ : ∃ k, fuel = k + 1 :=
      ⟨fuel - 1, by simp only [List.length_cons] at hfuel; omega⟩
    have hx := hxs x (by simp)
    have hne : (x ++ xs.flatten).isEmpty = false := by
      simp [hx.ne_nil]
    have htail := ih (fun z hz ↦ hxs z (by simp [hz])) (by simpa using hfuel)
    simp only [split, List.flatten_cons, hne, hx.size_append, List.drop_left, List.take_left,
      htail, Bool.false_eq_true, if_false]

end GseNetwork.Foundation.SelfDelimiting
