import PhraseRepair.Proofs.Reports
import PhraseRepair.Proofs.Respacing

/-!
# Reserved characters that are listed again

Reserved characters are isolated one after the other, each in what the ones before it have left. A
quote or a space cannot be reserved, so no character is isolated in what has been written around
another one. But a character that is listed again is isolated again, inside the quotes that it has
already (`isolateAll_eq_flatMap_setApart`).

So the order in which characters are listed does not matter, and how often each of them is listed
does. Isolating is done in one pass exactly if no reserved character of the phrase is listed again
(`isolateReserved_in_one_pass`).
-/

namespace PhraseRepair

/-! ## Setting apart -/

/-- A text in `n` pairs of quotes, with spaces around each pair. -/
def Text.setApart : Nat → Text → Text
  | 0, t => t
  | n + 1, t => [' ', '"'] ++ setApart n t ++ ['"', ' ']

theorem Text.length_setApart (n : Nat) (t : Text) : (setApart n t).length = t.length + 4 * n := by
  induction n with
  | zero => rfl
  | succ n ih =>
    simp only [setApart, List.length_append, List.length_cons, List.length_nil, ih]
    omega

theorem Text.setApart_inj {m n : Nat} {t : Text} : setApart m t = setApart n t ↔ m = n := by
  refine ⟨fun h ↦ ?_, fun h ↦ h ▸ rfl⟩
  have hlength := congrArg List.length h
  rw [length_setApart, length_setApart] at hlength
  omega

theorem isolateChar_eq_setApart (cs : List Char) (c : Char) :
    Cql.isolateChar cs c = Text.setApart (min (cs.count c) 1) [c] := by
  by_cases hc : c ∈ cs
  · rw [Cql.isolateChar, if_pos hc, Nat.min_eq_right (List.count_pos_iff.mpr hc)]
    rfl
  · rw [Cql.isolateChar_of_notMem hc, List.count_eq_zero_of_not_mem hc]
    rfl

/-! ## One character after the other

What is isolated next may stand inside what has been written before, so the pass for one character
is not a map over the characters of the phrase. It is one over those of the original phrase all the
same, since what is written around a character consists of spaces and quotes, and neither is on the
list. -/

section Isolating

variable {cs : List Char} (hspace : ' ' ∉ cs) (hquote : '"' ∉ cs)

include hspace hquote

/-- **Isolating one after the other.** Every character in sight is set apart as often as it is
listed. -/
theorem isolateAll_eq_flatMap_setApart {α : Type} (s : Veiled α) :
    isolateAll cs s = s.flatMap fun
      | .plain c => Veiled.ofText (Text.setApart (cs.count c) [c])
      | .hidden a => [.hidden a] := by
  induction cs generalizing s with
  | nil =>
    refine Eq.symm (Eq.trans (List.flatMap_congr fun a _ ↦ ?_) (List.flatMap_singleton' s))
    rcases a with c | a <;> rfl
  | cons c cs ih =>
    rw [List.mem_cons, not_or] at hspace hquote
    rw [isolateAll, List.foldl_cons, ← isolateAll, ih hspace.2 hquote.2, Outline.isolate,
      List.flatMap_assoc]
    refine List.flatMap_congr fun a _ ↦ ?_
    rcases a with d | a
    · by_cases hd : d = c
      · -- What is written around the character stays as it is.
        have hspaces := List.count_eq_zero_of_not_mem hspace.2
        have hquotes := List.count_eq_zero_of_not_mem hquote.2
        simp [hd, Veiled.ofText, Text.setApart, hspaces, hquotes]
      · simp [hd, Veiled.ofText, List.count_cons_of_ne (Ne.symm hd)]
    · rfl

theorem foldl_isolate_eq (t : Text) :
    cs.foldl (fun t c ↦ MaskedPhrase.isolate c t) t
      = t.flatMap fun c ↦ Text.setApart (cs.count c) [c] := by
  have hsight : ∀ c ∈ cs, ∀ a : Empty, c ∉ (a.elim : Text) := fun _ _ a ↦ a.elim
  have hfold := Outline.foldl_isolate_fill hsight (Veiled.ofText t)
  rw [Veiled.fill_ofText, ← isolateAll, isolateAll_eq_flatMap_setApart hspace hquote] at hfold
  rw [hfold, Veiled.fill, List.flatMap_assoc, Veiled.ofText, List.flatMap_map]
  exact List.flatMap_congr fun c _ ↦ Veiled.fill_ofText _ _

end Isolating

private theorem length_flatMap_le {f g : Char → Text} (h : ∀ c, (g c).length ≤ (f c).length)
    (t : Text) : (t.flatMap g).length ≤ (t.flatMap f).length := by
  induction t with
  | nil => exact Nat.le_refl 0
  | cons c t ih =>
    rw [List.flatMap_cons, List.flatMap_cons, List.length_append, List.length_append]
    exact Nat.add_le_add (h c) ih

private theorem flatMap_eq_flatMap_iff {f g : Char → Text} {t : Text}
    (h : ∀ c, (g c).length ≤ (f c).length) :
    t.flatMap f = t.flatMap g ↔ ∀ c ∈ t, f c = g c := by
  refine ⟨fun heq ↦ ?_, List.flatMap_congr⟩
  induction t with
  | nil => exact List.forall_mem_nil _
  | cons c t ih =>
    have hhead := h c
    have htail := length_flatMap_le h t
    have hlength := congrArg List.length heq
    rw [List.flatMap_cons, List.flatMap_cons, List.length_append, List.length_append] at hlength
    obtain ⟨hc, ht⟩ := List.append_inj heq (by omega)
    exact List.forall_mem_cons.mpr ⟨hc, ih ht⟩

/-! ## The theorem

Two texts that are written character by character can be equal although they differ at some
characters, if one of them writes more where the other writes less. That is ruled out here, since
one pass never writes more than isolating one character after the other does. -/

theorem Settings.notMem_of_reservable {cs : List Char}
    (hcs : ∀ c ∈ cs, Settings.reservable c = true) {c : Char}
    (hc : Settings.reservable c = false) : c ∉ cs := fun hmem ↦
  absurd ((hcs c hmem).symm.trans hc) (by decide)

theorem MaskedPhrase.isolateReserved_eq {cs : List Char}
    (hcs : ∀ c ∈ cs, Settings.reservable c = true) (m : MaskedPhrase) :
    m.isolateReserved cs
      = { m with phrase := m.phrase.flatMap fun c ↦ Text.setApart (cs.count c) [c] } := by
  have hspace : ' ' ∉ cs := Settings.notMem_of_reservable hcs (by decide +kernel)
  have hquote : '"' ∉ cs := Settings.notMem_of_reservable hcs (by decide +kernel)
  rw [isolateReserved, foldl_isolate_eq hspace hquote]

/-- **Isolating reserved characters.** Whatever characters are reserved, each of them is set apart
in the phrase as often as it is listed, so the order of the list does not matter. This is isolating
them all in one pass exactly if no character of the phrase is listed more than once. -/
theorem isolateReserved_in_one_pass {reserved : List Char}
    (hreserved : ∀ c ∈ reserved, Settings.reservable c = true) (m : MaskedPhrase) :
    m.isolateReserved reserved
        = { m with phrase := m.phrase.flatMap fun c ↦ Text.setApart (reserved.count c) [c] } ∧
      (m.isolateReserved reserved
          = { m with phrase := m.phrase.flatMap (Cql.isolateChar reserved) } ↔
        ∀ c ∈ m.phrase, reserved.count c ≤ 1) ∧
      ∀ reserved', reserved'.Perm reserved →
        m.isolateReserved reserved' = m.isolateReserved reserved := by
  have heq := m.isolateReserved_eq hreserved
  refine ⟨heq, ?_, fun reserved' hperm ↦ ?_⟩
  · have hle : ∀ c, (Cql.isolateChar reserved c).length
        ≤ (Text.setApart (reserved.count c) [c]).length := by
      intro c
      rw [isolateChar_eq_setApart, Text.length_setApart, Text.length_setApart]
      omega
    -- Both are maps over characters, and one is never shorter, so they agree at each character.
    rw [heq, MaskedPhrase.mk.injEq]
    simp only [true_and, and_true]
    rw [flatMap_eq_flatMap_iff hle]
    refine forall₂_congr fun c _ ↦ ?_
    rw [isolateChar_eq_setApart, Text.setApart_inj]
    omega
  · rw [heq, m.isolateReserved_eq fun c hc ↦ hreserved c (hperm.mem_iff.mp hc)]
    simp only [hperm.count_eq]

/-- A slash and a hyphen, in whichever order they are listed. -/
theorem isolateReserved_in_one_pass_of_two :
    (MaskedPhrase.start "zxcv".toList {} "1/2-3".toList).isolateReserved ['-', '/']
      = (MaskedPhrase.start "zxcv".toList {} "1/2-3".toList).isolateReserved ['/', '-'] ∧
    ((MaskedPhrase.start "zxcv".toList {} "1/2-3".toList).isolateReserved ['/', '-']).phrase
      = "1 \"/\" 2 \"-\" 3".toList := by
  have hreserved : ['/', '-'].all Settings.reservable = true := by decide +kernel
  have hnodup : ['/', '-'].Nodup := by decide
  have h := isolateReserved_in_one_pass (List.all_eq_true.mp hreserved)
    (MaskedPhrase.start "zxcv".toList {} "1/2-3".toList)
  refine ⟨h.2.2 _ (List.Perm.swap _ _ _), ?_⟩
  rw [h.2.1.mpr fun c _ ↦ List.nodup_iff_count_le_one.mp hnodup c]
  decide +kernel

/-- A slash that is listed twice is no token of its own any more. -/
theorem isolateReserved_twice :
    ({ reserved := ['/', '/'] } : Settings).fault? = none ∧
      ((MaskedPhrase.start "zxcv".toList {} "1/2".toList).isolateReserved ['/', '/']).phrase
        = "1 \" \"/\" \" 2".toList ∧
      "1/2".toList.flatMap (Cql.isolateChar ['/', '/']) = "1 \"/\" 2".toList ∧
      ((MaskedPhrase.start "zxcv".toList {} "1/2".toList).isolateReserved ['/']).phrase
        = "1 \"/\" 2".toList := by
  decide +kernel

end PhraseRepair
