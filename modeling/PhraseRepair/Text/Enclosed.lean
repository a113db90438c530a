import PhraseRepair.Text.Scan

/-!
# Text between two delimiters

`enclosed? o c inside` reads an opening delimiter `o`, the longest run of characters that satisfy
`inside`, and the closing delimiter `c`. There is no backtracking: the closing delimiter has to
follow the whole run. Where the closing delimiter cannot stand inside the run, this reads exactly
the enclosed runs (`enclosed?_eq_some_iff`).
-/

namespace PhraseRepair.Text

/-- The run between the delimiters, if the text starts with such an enclosed run. -/
def enclosed? (o c : Char) (inside : Char → Bool) : Text → Option Text
  | [] => none
  | d :: t =>
    if d = o ∧ (t.dropWhile inside).head? = some c then some (t.takeWhile inside) else none

/-- The text from the opening to the closing delimiter. -/
def enclose (o c : Char) (body : Text) : Text := o :: body ++ [c]

theorem enclose_ne_nil (o c : Char) (body : Text) : enclose o c body ≠ [] := by
  simp [enclose]

/-- What is read is the enclosed run at the head of the text. -/
theorem enclose_isPrefix {o c : Char} {inside : Char → Bool} {t body : Text}
    (h : enclosed? o c inside t = some body) : enclose o c body <+: t := by
  cases t with
  | nil => simp [enclosed?] at h
  | cons d t =>
    simp only [enclosed?, Option.ite_none_right_eq_some, Option.some.injEq] at h
    obtain ⟨⟨rfl, hclose⟩, rfl⟩ := h
    obtain ⟨rest, hrest⟩ := List.head?_eq_some_iff.mp hclose
    exact ⟨rest, by simp [enclose, ← hrest]⟩

/-- A run is read exactly where a text starts with it between the delimiters. -/
theorem enclosed?_eq_some_iff {o c : Char} {inside : Char → Bool} (hc : inside c = false)
    {t body : Text} :
    enclosed? o c inside t = some body ↔
      enclose o c body <+: t ∧ ∀ d ∈ body, inside d = true := by
  constructor
  · intro h
    refine ⟨enclose_isPrefix h, ?_⟩
    cases t with
    | nil => simp [enclosed?] at h
    | cons d t =>
      simp only [enclosed?, Option.ite_none_right_eq_some, Option.some.injEq] at h
      obtain ⟨-, rfl⟩ := h
      exact fun d hd ↦ List.all_eq_true.mp List.all_takeWhile d hd
  · rintro ⟨⟨rest, rfl⟩, hbody⟩
    have htake : (body ++ c :: rest).takeWhile inside = body := by
      rw [List.takeWhile_append_of_pos hbody]
      simp [hc]
    have hdrop : (body ++ c :: rest).dropWhile inside = c :: rest := by
      rw [List.dropWhile_append_of_pos hbody]
      simp [hc]
    simp [enclose, enclosed?, htake, hdrop]

end PhraseRepair.Text
