import PhraseRepair.Text.Scan

/-!
# Taking a scan apart

A scan passes a character over or takes a match, so a proof about it follows these two cases
(`scan_induction`). A scan of two texts joined is the scan of the first and the scan of the second
where no match reaches across the joint (`scan_append`), and every text is either passed over as a
whole or can be cut at its first match (`scan_eq_map_plain_or_exists_first_hit`).
-/

namespace PhraseRepair.Recognizer

variable (r : Recognizer)

/-! ## Following a scan

The scan is defined with a counter for the characters of a match that are still to be skipped.
Proofs do not see the counter: a match is taken whole. -/

theorem scan_match_append {m : Match} {t : Text} (h : r.read (m.text ++ t) = some m) :
    r.scan (m.text ++ t) = .hit m :: r.scan t := by
  rw [r.scan_of_read h, List.drop_left]

/-- **Induction along a scan.** A text is empty, or its first character is passed over, or it starts
with a match. -/
@[elab_as_elim]
theorem scan_induction {motive : Text → Prop} (nil : motive [])
    (plain : ∀ c t, r.read (c :: t) = none → motive t → motive (c :: t))
    (hit : ∀ m t, r.read (m.text ++ t) = some m → motive t → motive (m.text ++ t)) (t : Text) :
    motive t := by
  induction hn : t.length using Nat.strongRecOn generalizing t with
  | ind n ih =>
    cases t with
    | nil => exact nil
    | cons c t =>
      cases h : r.read (c :: t) with
      | none => exact plain c t h (ih t.length (by rw [← hn]; exact Nat.lt_succ_self _) t rfl)
      | some m =>
        obtain ⟨rest, hrest⟩ := r.isPrefix h
        have hpos := List.length_pos_iff.mpr (r.ne_nil h)
        have hlen := congrArg List.length hrest
        rw [List.length_append, hn] at hlen
        rw [← hrest] at h ⊢
        exact hit m rest h (ih rest.length (by omega) rest rfl)

/-! ## Joining texts

The premise is about every place of the first text, also those within its matches, at which the scan
never looks. Those that it does look at would be enough, but they are harder to talk about than all
of them. -/

/-- A scan falls apart where no match is different for what follows. -/
theorem scan_append {s t : Text}
    (h : ∀ u, u <:+ s → u ≠ [] → r.read (u ++ t) = r.read u) :
    r.scan (s ++ t) = r.scan s ++ r.scan t := by
  induction s using r.scan_induction with
  | nil => rfl
  | plain c s hread ih =>
    have hc := h (c :: s) (List.suffix_refl _) (by simp)
    rw [hread, List.cons_append] at hc
    rw [List.cons_append, r.scan_of_read_none hc, r.scan_of_read_none hread,
      ih fun u hu ↦ h u (hu.trans (List.suffix_cons c s)), List.cons_append]
  | hit m s hread ih =>
    have hm := h (m.text ++ s) (List.suffix_refl _) fun h ↦ r.ne_nil hread (by simp_all)
    rw [hread, List.append_assoc] at hm
    rw [List.append_assoc, r.scan_match_append hm, r.scan_match_append hread,
      ih fun u hu ↦ h u (hu.trans (List.suffix_append _ _)), List.cons_append]

theorem scan_append_of_read_none {s t : Text}
    (h : ∀ u, u <:+ s → u ≠ [] → r.read (u ++ t) = none) :
    r.scan (s ++ t) = s.map .plain ++ r.scan t := by
  induction s with
  | nil => rfl
  | cons c s ih =>
    have hc := h (c :: s) (List.suffix_refl _) (by simp)
    rw [List.cons_append] at hc
    rw [List.cons_append, r.scan_of_read_none hc,
      ih fun u hu ↦ h u (hu.trans (List.suffix_cons c s)), List.map_cons, List.cons_append]

/-! ## The first match

A text is passed over as a whole, or there is a first match, and then nothing before it plays a
part. -/

/-- A text is passed over as a whole, or it can be cut at its first match. -/
theorem scan_eq_map_plain_or_exists_first_hit (t : Text) :
    r.scan t = t.map .plain ∨
      ∃ s m u, t = s ++ (m.text ++ u) ∧ r.read (m.text ++ u) = some m ∧
        r.scan t = s.map .plain ++ .hit m :: r.scan u := by
  induction t using r.scan_induction with
  | nil => exact Or.inl rfl
  | plain c t hread ih =>
    rw [r.scan_of_read_none hread]
    rcases ih with h | ⟨s, m, u, rfl, hm, h⟩
    · exact Or.inl (by rw [h, List.map_cons])
    · exact Or.inr ⟨c :: s, m, u, rfl, hm, by rw [h, List.map_cons, List.cons_append]⟩
  | hit m t hread ih =>
    exact Or.inr ⟨[], m, t, rfl, hread, by rw [r.scan_match_append hread]; rfl⟩

theorem matchesIn_eq_false_iff {t : Text} :
    r.matchesIn t = false ↔ ∀ u, u <:+ t → r.read u = none := by
  constructor
  · intro h
    induction t using r.scan_induction with
    | nil =>
      rintro u hu
      rw [List.suffix_nil.mp hu, Option.eq_none_iff_forall_not_mem]
      exact fun m hm ↦ r.ne_nil hm (List.prefix_nil.mp (r.isPrefix hm))
    | plain c t hread ih =>
      intro u hu
      rw [matchesIn, r.scan_of_read_none hread] at h
      rcases List.suffix_cons_iff.mp hu with rfl | hu
      · exact hread
      · exact ih (by simpa [matchesIn, Item.isHit] using h) u hu
    | hit m t hread _ =>
      rw [matchesIn, r.scan_match_append hread] at h
      exact absurd h (by simp [Item.isHit])
  · intro h
    induction t with
    | nil => rfl
    | cons c t ih =>
      rw [matchesIn, r.scan_of_read_none (h _ (List.suffix_refl _))]
      have ih := ih fun u hu ↦ h u (hu.trans (List.suffix_cons c t))
      simpa [matchesIn, Item.isHit] using ih

end PhraseRepair.Recognizer
