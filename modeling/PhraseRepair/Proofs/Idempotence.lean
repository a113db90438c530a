import PhraseRepair.Proofs.Gathering
import PhraseRepair.Proofs.Respacing

/-!
# Repairing a repaired phrase

A repaired phrase is left as it is by every further repair (`repair_idempotent`), where the quotes
of the phrase are paired, no group that was quoted holds a quoted run, and the reserved characters
are distinct and no parentheses.

The second repair sees the gathered words of the first one. Its quoted runs are the ones that were
written, its groups are those that were kept and those that have become innermost, and closing all
of them leaves the settled sides of the parts (`closeGroups_reread`), which can be read: joined by
`and`, whatever they are, and joined by spaces because the phrase was a query before. That they can
be read makes the new groups stand as CQL. None of them is bare, since a pair of parentheses with
nothing hidden in between was an innermost group from the beginning (`marks_parts`).
-/

namespace PhraseRepair

open Cql (isParen innermostGroup closeGroups closed)

/-! ## Groups that are read again

What is read in place of a kept group is the group, and what is settled of it is the group once it
is closed. Everything else is the same on both sides. Closing the groups of either gives the same
text, since a closed group is closed to itself. The text before the parts is arbitrary in these
statements: the induction takes one part after the other into it. -/

private theorem shape_reread (cs : List Char) {p : Part} (hp : ∀ body, p ≠ .kept body) :
    Veiled.shape (p.reread cs) = p.settled cs := by
  rcases p with a | body | body
  · rcases a with c | run
    · by_cases hc : c ∈ cs <;> simp [Part.reread, Part.settled, hc, Symbol.shape]
    · rfl
  · exact absurd rfl (hp body)
  · rfl

private theorem shape_reread_kept (cs : List Char) (body : Veiled Text) :
    Veiled.shape ((Part.kept body).reread cs) = Text.enclose '(' ')' (Veiled.shape body) := by
  simp [Part.reread, Text.enclose, Symbol.shape]

private theorem settled_kept (cs : List Char) (body : Veiled Text) :
    (Part.kept body).settled cs = closed (Veiled.shape body) := Part.shape_masked_kept body

private theorem exists_closed (body : Text) : ∃ b, (∀ c ∈ b, isParen c = false) ∧
    closed body = Text.enclose '(' ')' b ∧ closed b = closed body := by
  rcases body with _ | ⟨c, body⟩
  · exact ⟨[], by simp, rfl, rfl⟩
  · exact ⟨[Placeholder.opening], by simp [isParen, Placeholder.opening], rfl, rfl⟩

section Groups

variable {cs : List Char} {ps : List Part}
  (hfree : ∀ body, .kept body ∈ ps → ∀ c ∈ Veiled.shape body, isParen c = false)

include hfree

/-- Closing the groups of what is read again leaves what is settled. -/
theorem closeGroups_reread (x : Text) :
    closeGroups (x ++ Veiled.shape (ps.flatMap (Part.reread cs)))
      = closeGroups (x ++ ps.flatMap (Part.settled cs)) := by
  induction ps generalizing x with
  | nil => rfl
  | cons p ps ih =>
    have ih := ih fun body hbody ↦ hfree body (List.mem_cons_of_mem _ hbody)
    rw [List.flatMap_cons, List.flatMap_cons, Veiled.shape_append]
    by_cases hp : ∃ body, p = .kept body
    · obtain ⟨body, rfl⟩ := hp
      obtain ⟨b, hb, hclosed, hsame⟩ := exists_closed (Veiled.shape body)
      have ih := ih []
      rw [List.nil_append, List.nil_append] at ih
      rw [shape_reread_kept, Cql.closeGroups_append_group (hfree body List.mem_cons_self),
        settled_kept, hclosed, Cql.closeGroups_append_group hb, hsame, ← hclosed, ih]
    · rw [shape_reread cs fun body h ↦ hp ⟨body, h⟩, ← List.append_assoc, ← List.append_assoc]
      exact ih _

/-- A group that is read again was kept, or is a group of what is settled. -/
theorem hit_reread {x : Text} {m : Match}
    (hm : .hit m ∈ innermostGroup.scan (x ++ Veiled.shape (ps.flatMap (Part.reread cs)))) :
    (∃ body, .kept body ∈ ps ∧ m.value = Veiled.shape body) ∨
      .hit m ∈ innermostGroup.scan (x ++ ps.flatMap (Part.settled cs)) := by
  induction ps generalizing x with
  | nil => exact Or.inr hm
  | cons p ps ih =>
    have ih := fun {x} ↦ ih (fun body hbody ↦ hfree body (List.mem_cons_of_mem _ hbody)) (x := x)
    have hkept : (∃ body, .kept body ∈ ps ∧ m.value = Veiled.shape body) →
        ∃ body, .kept body ∈ p :: ps ∧ m.value = Veiled.shape body := by
      rintro ⟨body, hbody, hvalue⟩
      exact ⟨body, List.mem_cons_of_mem _ hbody, hvalue⟩
    rw [List.flatMap_cons, Veiled.shape_append] at hm
    rw [List.flatMap_cons]
    by_cases hp : ∃ body, p = .kept body
    · obtain ⟨body, rfl⟩ := hp
      -- Settled, the group has another body, and is a group all the same.
      obtain ⟨b, hb, hclosed, -⟩ := exists_closed (Veiled.shape body)
      rw [shape_reread_kept, Cql.scan_append_group (hfree body List.mem_cons_self), List.mem_append,
        List.mem_cons] at hm
      rw [settled_kept, hclosed, Cql.scan_append_group hb, List.mem_append, List.mem_cons]
      rcases hm with hm | hm | hm
      · exact Or.inr (Or.inl hm)
      · exact Or.inl ⟨body, List.mem_cons_self, by rw [Item.hit.inj hm]⟩
      · rcases ih (x := []) hm with hm | hm
        · exact Or.inl (hkept hm)
        · exact Or.inr (Or.inr (Or.inr hm))
    · rw [shape_reread cs fun body h ↦ hp ⟨body, h⟩, ← List.append_assoc] at hm
      rw [← List.append_assoc]
      exact (ih hm).imp_left hkept

end Groups

/-! ## Bare groups

With bare groups quoted, a group that is left has a fragment in it, and so it keeps its grouping as
soon as it can be read. That none of the new groups is bare is a fact about the parentheses and the
hidden fragments of a text, the other characters being left out (`marks`). The invariant of
`marks_parts` is about the end of a text that has not been looked at yet: if the first mark in it
closes, then nothing before that parenthesis opens, and so a parenthesis in front of it would have
been read as a group together with it. -/

/-- The parentheses and the hidden fragments of a text. -/
def marks (t : Text) : Text := t.filter fun c ↦ isParen c || c = Placeholder.opening

theorem marks_append (x y : Text) : marks (x ++ y) = marks x ++ marks y := List.filter_append _ _

theorem marks_flatMap {α : Type} (g : α → Text) (s : List α) :
    marks (s.flatMap g) = s.flatMap fun a ↦ marks (g a) := List.filter_flatMap

theorem hasSentinel_of_hit {t : Text} (ht : ¬ ['(', ')'] <:+: marks t) {m : Match}
    (hm : .hit m ∈ innermostGroup.scan t) : Placeholder.hasSentinel m.value = true := by
  induction t using innermostGroup.scan_induction with
  | nil => exact absurd hm List.not_mem_nil
  | plain c t hread ih =>
    rw [innermostGroup.scan_of_read_none hread, List.mem_cons] at hm
    rw [show c :: t = [c] ++ t from rfl, marks_append] at ht
    exact ih (fun h ↦ ht (h.trans (List.suffix_append _ _).isInfix)) (hm.resolve_left (by simp))
  | hit n t hread ih =>
    rw [innermostGroup.scan_match_append hread, List.mem_cons] at hm
    rw [marks_append] at ht
    rcases hm with hm | hm
    · obtain rfl := Item.hit.inj hm
      obtain ⟨body, hbody, -, rfl⟩ := Cql.read_innermostGroup_eq_some_iff.mp hread
      refine Bool.not_eq_false _ |>.mp fun hsentinel ↦ ht ?_
      -- Nothing is left of the body of a group in which nothing is hidden.
      have hnil : marks body = [] := by
        refine List.filter_eq_nil_iff.mpr fun c hc ↦ ?_
        have hne : c ≠ Placeholder.opening := by
          rintro rfl
          exact absurd (Placeholder.hasSentinel_eq_false_iff.mp hsentinel _ hc) (by decide)
        simp [hbody c hc, hne]
      have hgroup : marks (Text.enclose '(' ')' body) = ['(', ')'] := by
        rw [Text.enclose, marks_append, show '(' :: body = ['('] ++ body from rfl, marks_append,
          hnil]
        rfl
      exact ⟨[], marks t, by rw [hgroup]; rfl⟩
    · exact ih (fun h ↦ ht (h.trans (List.suffix_append _ _).isInfix)) hm

private theorem not_bare_cons {c : Char} {w : Text} (hw : ¬ ['(', ')'] <:+: w)
    (hc : c = '(' → ∀ z, w ≠ ')' :: z) : ¬ ['(', ')'] <:+: c :: w := by
  intro h
  rcases List.infix_cons_iff.mp h with hpre | hinfix
  · obtain ⟨hopen, z, rfl⟩ := List.cons_prefix_cons.mp hpre
    exact hc hopen.symm z rfl
  · exact hw hinfix

private theorem opening_cons_ne (w z : Text) : Placeholder.opening :: w ≠ ')' :: z :=
  fun h ↦ absurd (List.cons.inj h).1 (by decide)

private theorem marks_settled_plain (cs : List Char) (a : Symbol Text) :
    marks ((Part.plain a).settled cs) = [Placeholder.opening] ∨
    (isParen a.shape = true ∧ marks ((Part.plain a).settled cs) = [a.shape]) ∨
    (isParen a.shape = false ∧ marks ((Part.plain a).settled cs) = []) := by
  rcases a with c | run
  · by_cases hc : c ∈ cs
    · exact Or.inl (by rw [Part.settled, if_pos hc]; rfl)
    · rw [Part.settled, if_neg hc]
      by_cases hparen : isParen c = true
      · exact Or.inr (Or.inl ⟨hparen, by simp [marks, hparen, Symbol.shape]⟩)
      · by_cases hopening : c = Placeholder.opening
        · exact Or.inl (by rw [hopening]; rfl)
        · exact Or.inr (Or.inr ⟨Bool.eq_false_iff.mpr hparen, by simp [marks, hparen, hopening]⟩)
  · exact Or.inl rfl

private theorem marks_settled_hit (cs : List Char) (u : Veiled Text) :
    marks ((Part.ofCell true (.hit u)).settled cs) = [Placeholder.opening] ∨
      marks ((Part.ofCell true (.hit u)).settled cs) = ['(', Placeholder.opening, ')'] := by
  rw [Part.ofCell]
  split
  · next hkeeps =>
    rw [settled_kept, closed]
    split
    · next hempty =>
      rw [List.isEmpty_iff.mp hempty] at hkeeps
      exact absurd hkeeps (by decide)
    · exact Or.inr rfl
  · exact Or.inl rfl

/-- No group of what is settled is bare, with bare groups quoted: a pair of parentheses with nothing
hidden in between has been read as a group. -/
theorem marks_parts {cs : List Char} (s : Veiled Text) {w : Text}
    (hw : ((innermostGroup.cells s).map (Part.ofCell true)).flatMap
      (fun p ↦ marks (p.settled cs)) = w) :
    ¬ ['(', ')'] <:+: w ∧ ∀ z, w = ')' :: z →
      ∃ x y, Veiled.shape s = x ++ ')' :: y ∧ ∀ c ∈ x, isParen c = false := by
  induction s using innermostGroup.cells_induction generalizing w with
  | nil =>
    subst hw
    exact ⟨by simp, fun z hz ↦ absurd hz (by simp)⟩
  | plain a s hread ih =>
    rw [innermostGroup.cells_of_read_none hread, List.map_cons, List.flatMap_cons] at hw
    obtain ⟨hbare, hclosing⟩ := ih rfl
    generalize ((innermostGroup.cells s).map (Part.ofCell true)).flatMap
      (fun p ↦ marks (p.settled cs)) = v at hw hbare hclosing
    subst hw
    rw [Veiled.shape_cons] at hread ⊢
    rw [Part.ofCell]
    rcases marks_settled_plain cs a with h | ⟨hparen, h⟩ | ⟨hparen, h⟩ <;> rw [h]
    · exact ⟨not_bare_cons hbare fun h ↦ absurd h (by decide),
        fun z hz ↦ absurd hz (opening_cons_ne _ z)⟩
    · refine ⟨not_bare_cons hbare fun hopen z hz ↦ ?_,
        fun z hz ↦ ⟨[], Veiled.shape s, ?_, by simp⟩⟩
      · -- The two parentheses would have been read as a group.
        obtain ⟨x, y, hshape, hx⟩ := hclosing z hz
        have hgroup := Cql.read_group hx y
        rw [Text.enclose, List.append_assoc, List.singleton_append, List.cons_append, ← hshape,
          ← hopen, hread] at hgroup
        exact absurd hgroup (by simp)
      · rw [(List.cons.inj hz).1]
        rfl
    · refine ⟨hbare, fun z hz ↦ ?_⟩
      obtain ⟨x, y, hshape, hx⟩ := hclosing z hz
      exact ⟨a.shape :: x, y, by rw [hshape]; rfl, List.forall_mem_cons.mpr ⟨hparen, hx⟩⟩
  | hit u t m hread hu ih =>
    rw [innermostGroup.cells_append hread hu, List.map_cons, List.flatMap_cons] at hw
    -- With the mark of what it holds in between, the two parentheses of a group are not bare.
    obtain ⟨hbare, -⟩ := ih rfl
    subst hw
    rcases marks_settled_hit cs u with h | h <;> rw [h]
    · exact ⟨not_bare_cons hbare fun h ↦ absurd h (by decide),
        fun z hz ↦ absurd hz (opening_cons_ne _ z)⟩
    · refine ⟨?_, fun z hz ↦ absurd (List.cons.inj hz).1 (by decide)⟩
      have hclose := not_bare_cons (c := ')') hbare fun h ↦ absurd h (by decide)
      have hmark := not_bare_cons (c := Placeholder.opening) hclose fun h ↦ absurd h (by decide)
      exact not_bare_cons hmark fun _ z ↦ opening_cons_ne _ z

/-! ## Fragments that are hidden again

The second repair needs numbers for its own fragments, and the output may be much longer than the
phrase, with an `and` between any two words. But the separator has no fragments, and a part gives
rise to no more of them than it has characters. So the bound on the length of the phrase is enough
for its output as well. -/

private theorem countP_startsFragment_le {s : Veiled Text} (hs : ∀ a ∈ s, a.Paired) :
    s.countP Symbol.startsFragment ≤ (Veiled.fill id s).length := by
  induction s with
  | nil => exact Nat.le_refl 0
  | cons a s ih =>
    have ih := ih fun b hb ↦ hs b (List.mem_cons_of_mem _ hb)
    have hone : 1 ≤ (a.write id).length := by
      have ha := hs a List.mem_cons_self
      rcases a with c | run
      · exact Nat.le_refl 1
      · obtain ⟨body, rfl, -⟩ := ha
        exact List.length_pos_iff.mpr (Text.enclose_ne_nil _ _ _)
    rw [List.countP_cons, Veiled.fill_cons, List.length_append]
    split <;> omega

theorem Part.Tidy.countP_reread_le {p : Part} (hp : p.Tidy) {cs : List Char} (hquote : '"' ∉ cs) :
    (p.reread cs).countP Symbol.startsFragment ≤ p.source.length := by
  have hle := countP_startsFragment_le (hp.paired_reread hquote)
  rcases p with a | body | body
  · rcases a with c | run
    · rw [reread] at hle ⊢
      split
      · exact Nat.le_refl 1
      · next hc =>
        rw [if_neg hc] at hle
        exact hle
    · simpa [reread, source, Symbol.write] using hle
  · simpa [reread, source, group, Text.enclose] using hle
  · exact List.length_pos_iff.mpr (Text.enclose_ne_nil _ _ _)

/-- The output gives rise to no more fragments than the phrase has characters. -/
theorem countP_gather_le {cs : List Char} (hcs : Isolable cs) (isQuery : Bool) {ps : List Part}
    (hps : ∀ p ∈ ps, p.Tidy) :
    ((gather isQuery cs ps).flatMap (Part.reread cs)).countP Symbol.startsFragment
      ≤ (ps.flatMap Part.source).length := by
  have hquote := hcs.quote_notMem
  rw [List.countP_eq_length_filter, List.filter_flatMap, flatMap_gather_of_eq_nil]
  · induction ps with
    | nil => exact Nat.le_refl 0
    | cons p ps ih =>
      have hle := (hps p List.mem_cons_self).countP_reread_le hquote
      have ih := ih fun q hq ↦ hps q (List.mem_cons_of_mem _ hq)
      rw [List.countP_eq_length_filter] at hle
      rw [List.flatMap_cons, List.flatMap_cons, List.length_append, List.length_append]
      omega
  · intro c hc
    have hparen := (plain_of_mem_separator isQuery c hc).2.2.1
    have hne : c ≠ '(' := by
      rintro rfl
      exact absurd hparen (by decide)
    simp [Part.reread, hcs.notMem_of_mem_separator hc, Symbol.startsFragment, Symbol.isHidden,
      Symbol.isOpening, hne]
  · rw [Part.reread, if_neg hcs.space_notMem]
    rfl

/-! ## What is left in sight

Joined by spaces, the words of the output have lost some spaces that were in the phrase when it was
judged, namely those that are left over around isolated characters. The text that was judged has
them still, with the isolated characters in quotes. So what is settled is compared with that text,
by `Cql.outcome_normalizeSpace`. -/

section Settled

variable {cs : List Char} (hcs : Isolable cs)

include hcs

theorem marks_gather {quoteBare isQuery : Bool} {t : Text} :
    marks ((gather isQuery cs (parts quoteBare t)).flatMap (Part.settled cs))
      = (parts quoteBare t).flatMap fun p ↦ marks (p.settled cs) := by
  rw [marks_flatMap, flatMap_gather_of_eq_nil]
  · intro c hc
    obtain ⟨-, hsentinel, hparen, -⟩ := plain_of_mem_separator isQuery c hc
    have hopening : c ≠ Placeholder.opening := by
      rintro rfl
      exact absurd hsentinel (by decide)
    rw [Part.settled, if_neg (hcs.notMem_of_mem_separator hc)]
    simp [marks, hopening, hparen]
  · rw [Part.settled, if_neg hcs.space_notMem]
    rfl

omit hcs in
theorem mem_settled {p : Part} {c : Char} (hc : c ∈ p.settled cs) :
    c = Placeholder.opening ∨ isParen c = true ∨ (p = .plain (.plain c) ∧ c ∉ cs) := by
  rcases p with a | body | body
  · rcases a with d | run
    · rw [Part.settled] at hc
      split at hc
      · exact Or.inl (List.mem_singleton.mp hc)
      · next hd =>
        rw [List.mem_singleton.mp hc]
        exact Or.inr (Or.inr ⟨rfl, hd⟩)
    · exact Or.inl (List.mem_singleton.mp hc)
  · rw [settled_kept] at hc
    exact (Cql.mem_closed hc).imp_right Or.inl
  · exact Or.inl (List.mem_singleton.mp hc)

theorem notMem_closeGroups_settled {ps : List Part} {c : Char} (hc : c ∈ cs) :
    c ∉ closeGroups (ps.flatMap (Part.settled cs)) := by
  intro hmem
  have hopening : c ≠ Placeholder.opening := by
    rintro rfl
    exact hcs.opening_notMem hc
  have hparen : isParen c ≠ true := by
    rw [hcs.paren c hc]
    decide
  rcases Cql.mem_of_mem_closeGroups hmem with hmem | h | h
  · obtain ⟨p, -, hmem⟩ := List.mem_flatMap.mp hmem
    rcases mem_settled hmem with h | h | ⟨-, h⟩
    · exact hopening h
    · exact hparen h
    · exact h hc
  · exact hopening h
  · exact hparen h

private theorem flatMap_concealChar (ps : List Part) :
    (Veiled.shape (maskedParts ps)).flatMap (Cql.concealChar cs)
      = (ps.flatMap (Part.spread cs)).flatMap (Part.settled cs) := by
  have hspace := hcs.space_notMem
  have hopening := hcs.opening_notMem
  have hopen : '(' ∉ cs := hcs.notMem (by decide +kernel)
  have hclose : ')' ∉ cs := hcs.notMem (by decide +kernel)
  rw [Veiled.shape, maskedParts, List.map_flatMap, List.flatMap_assoc, List.flatMap_assoc]
  refine List.flatMap_congr fun p _ ↦ ?_
  rcases p with a | body | body
  · rcases a with c | run
    · by_cases hc : c ∈ cs <;>
        simp [Part.masked, Part.spread, Part.settled, Cql.concealChar, Symbol.shape, hc, hspace]
    · simp [Part.masked, Part.spread, Part.settled, Cql.concealChar, Symbol.shape, hopening]
  · rw [Part.masked]
    split <;> simp_all [Part.masked, Part.spread, Part.settled, Cql.concealChar, Symbol.shape]
  · simp [Part.masked, Part.spread, Part.settled, Cql.concealChar, Symbol.shape, hopening]

private theorem shape_isolateAll {α : Type} (s : Veiled α) :
    Veiled.shape (isolateAll cs s) = (Veiled.shape s).flatMap (Cql.isolateChar cs) := by
  rw [isolateAll_eq_flatMap hcs.nodup hcs.space_notMem hcs.quote_notMem, Veiled.shape,
    Veiled.shape, List.map_flatMap, List.flatMap_map]
  refine List.flatMap_congr fun a _ ↦ ?_
  rcases a with c | a
  · exact Veiled.shape_ofText (α := α) _
  · exact (if_neg hcs.opening_notMem).symm

omit hcs in
theorem separated_shape {α : Type} (s : Veiled α) (fresh : Bool) :
    Text.separated (· == ' ') fresh (Veiled.shape s) = Text.separated Symbol.isSpace fresh s := by
  induction s generalizing fresh with
  | nil => rfl
  | cons a s ih =>
    have ha : (a.shape == ' ') = a.isSpace := by
      rcases a with c | a
      · exact Bool.eq_iff_iff.mpr (by simp [Symbol.shape, Symbol.isSpace])
      · rfl
    rw [Veiled.shape_cons, Text.separated, Text.separated, ha, ih, ih]

omit hcs in
private theorem settled_nil (p : Part) : p.settled [] = Veiled.shape p.masked := by
  rcases p with a | body | body
  · rcases a with c | run <;> rfl
  · rfl
  · rfl

omit hcs in
theorem spaced_shape_maskedParts {quoteBare : Bool} {t : Text} (ht : Text.Spaced t) :
    Text.Spaced (Veiled.shape (maskedParts (parts quoteBare t))) := by
  have hsource := flatMap_source_parts quoteBare t
  refine ⟨fun c hc hblank ↦ ?_, ?_⟩
  · rw [maskedParts, Veiled.shape, List.map_flatMap] at hc
    obtain ⟨p, hp, hc⟩ := List.mem_flatMap.mp hc
    rw [← Veiled.shape, ← settled_nil] at hc
    rcases mem_settled hc with rfl | hparen | ⟨rfl, -⟩
    · exact absurd hblank (by decide)
    · rcases Cql.eq_of_isParen hparen with rfl | rfl <;> exact absurd hblank (by decide)
    · exact ht.1 c (hsource ▸ List.mem_flatMap.mpr ⟨_, hp, List.mem_singleton.mpr rfl⟩) hblank
  · rcases eq_nil_or_separated_maskedParts quoteBare ht with hnil | hseparated
    · exact Or.inl (by rw [hnil]; rfl)
    · exact Or.inr (by rwa [separated_shape])

omit hcs in
private theorem settled_ne_nil (p : Part) : p.settled cs ≠ [] := by
  rcases p with a | body | body
  · rcases a with c | run
    · by_cases hc : c ∈ cs <;> simp [Part.settled, hc]
    · simp [Part.settled, Part.masked]
  · obtain ⟨b, -, hclosed, -⟩ := exists_closed (Veiled.shape body)
    rw [settled_kept, hclosed]
    exact Text.enclose_ne_nil _ _ _
  · simp [Part.settled, Part.masked]

private theorem words_settled {ps : List Part}
    (hblank : ∀ c ∈ ps.flatMap Part.source, Text.isBlank c = true → c = ' ') :
    Text.words ((ps.flatMap (Part.spread cs)).flatMap (Part.settled cs))
      = (partWords cs ps).map fun w ↦ w.flatMap (Part.settled cs) := by
  have hpieces := Text.splitOnP_flatMap (s := ps.flatMap (Part.spread cs)) (g := Part.settled cs)
    (q := Text.isBlank) (p := Part.isSpace)
    (fun p _ hp ↦ ⟨' ', by rw [eq_of_isSpace hp, Part.settled, if_neg hcs.space_notMem], rfl⟩)
    fun p hp hspace c hc ↦ by
      rcases mem_settled hc with rfl | hparen | ⟨rfl, -⟩
      · rfl
      · rcases Cql.eq_of_isParen hparen with rfl | rfl <;> rfl
      · have hmem : c ∈ ps.flatMap Part.source := List.mem_flatMap.mpr
          ⟨_, mem_of_mem_spread hp hspace, List.mem_singleton.mpr rfl⟩
        refine Bool.eq_false_iff.mpr fun hc ↦ ?_
        rw [hblank c hmem hc] at hspace
        exact absurd hspace (by decide)
  rw [Text.words, hpieces]
  refine filter_map_pieces rfl fun p w _ _ ↦ ?_
  rw [List.flatMap_cons]
  exact List.append_ne_nil_of_left_ne_nil (settled_ne_nil p) _

/-- **Reading again.** What is settled of a repaired phrase can be read. -/
theorem outcome_settled {quoteBare isQuery : Bool} {t : Text} (ht : Text.Spaced t)
    (hquery : isQuery = true → Cql.outcome .blank
      (Veiled.shape (isolateAll cs (maskedParts (parts quoteBare t)))) ≠ .broken) :
    Cql.outcome .blank ((gather isQuery cs (parts quoteBare t)).flatMap (Part.settled cs))
      ≠ .broken := by
  have hsource := flatMap_source_parts quoteBare t
  have hwords := words_settled hcs (hsource.symm ▸ ht.1)
  rw [← flatMap_concealChar hcs] at hwords
  rw [flatMap_gather_of_notMem hcs isQuery (f := fun c ↦ [c])
    (fun c hc ↦ by rw [Part.settled, if_neg hc]), ← hwords, List.flatMap_singleton',
    ← Text.joinWith]
  cases isQuery with
  | false =>
    refine Cql.outcome_joinWith_and (fun w hw c hc ↦ ?_) (Or.inl rfl)
    exact Text.eq_false_of_mem_of_mem_splitOnP (List.mem_filter.mp hw).1 hc
  | true =>
    have hquery := hquery rfl
    rw [shape_isolateAll hcs] at hquery
    refine Cql.outcome_normalizeSpace (fun c hc ↦ ⟨?_, ?_⟩) (spaced_shape_maskedParts ht) hquery
    · rintro rfl
      exact hcs.space_notMem hc
    · simpa [isParen] using hcs.paren c hc

end Settled

/-! ## The output -/

theorem of_kept_mem_parts {quoteBare : Bool} {t : Text} {body : Veiled Text}
    (h : .kept body ∈ parts quoteBare t) : (∀ c ∈ Veiled.shape body, isParen c = false) ∧
      keepsGrouping quoteBare (Veiled.shape body) = true := by
  obtain ⟨cell, hcell, hpart⟩ := List.mem_map.mp h
  rcases cell with a | u
  · exact absurd hpart (by simp [Part.ofCell])
  · obtain ⟨v, rfl, hv⟩ := Cql.exists_of_hit_mem_cells_innermostGroup hcell
    rw [Part.ofCell, Cql.inner_cons_append] at hpart
    split at hpart
    · next hkeeps =>
      rw [← Part.kept.inj hpart]
      exact ⟨hv, hkeeps⟩
    · exact absurd hpart (by simp)

theorem of_kept_mem_gather {quoteBare isQuery : Bool} {cs : List Char} {t : Text}
    {body : Veiled Text} (h : .kept body ∈ gather isQuery cs (parts quoteBare t)) :
    (∀ c ∈ Veiled.shape body, isParen c = false) ∧
      keepsGrouping quoteBare (Veiled.shape body) = true := by
  rcases mem_of_mem_gather h with ⟨c, -, hc⟩ | ⟨h, -⟩
  · exact absurd hc (by simp)
  · exact of_kept_mem_parts h

section Output

variable {quoteBare isQuery : Bool} {cs : List Char} {t : Text} (hcs : Isolable cs)
  (htidy : ∀ p ∈ parts quoteBare t, p.Tidy)

include hcs htidy

/-- The output with its groups closed is what is settled, with its groups closed. -/
theorem closeGroups_visible_written :
    closeGroups (visible (written isQuery cs (parts quoteBare t)))
      = closeGroups ((gather isQuery cs (parts quoteBare t)).flatMap (Part.settled cs)) := by
  rw [visible, hideRuns_written hcs isQuery htidy, ← List.nil_append (Veiled.shape _),
    closeGroups_reread (fun _ hbody ↦ (of_kept_mem_gather hbody).1), List.nil_append]

variable (haccepted : Cql.outcome .blank ((gather isQuery cs (parts quoteBare t)).flatMap
  (Part.settled cs)) ≠ .broken)

include haccepted

/-- Every group of the output keeps its grouping. -/
theorem keepsGrouping_of_hit_written {m : Match}
    (hm : .hit m ∈ innermostGroup.scan (visible (written isQuery cs (parts quoteBare t)))) :
    keepsGrouping quoteBare m.value = true := by
  rw [visible, hideRuns_written hcs isQuery htidy, ← List.nil_append (Veiled.shape _)] at hm
  rcases hit_reread (fun _ hbody ↦ (of_kept_mem_gather hbody).1) hm with
    ⟨body, hbody, hvalue⟩ | hm
  · rw [hvalue]
    exact (of_kept_mem_gather hbody).2
  · rw [List.nil_append] at hm
    have hcql := (Cql.outcome_closeGroups haccepted).2 m hm
    rw [keepsGrouping]
    split
    · next hbare =>
      -- A group that has become innermost holds a hidden fragment.
      obtain ⟨hquoteBare, hsentinel⟩ := Bool.and_eq_true_iff.mp hbare
      subst hquoteBare
      have hmarks : ¬ ['(', ')'] <:+: marks ((gather isQuery cs (parts true t)).flatMap
          (Part.settled cs)) := by
        rw [marks_gather hcs]
        exact (marks_parts (hideRuns t) rfl).1
      rw [hasSentinel_of_hit hmarks hm] at hsentinel
      exact absurd hsentinel (by decide)
    · exact hcql

theorem unchanged_written {r : Repairer} (supply : KeySupply) (ht : Text.Spaced t)
    (hsentinel : Placeholder.hasSentinel t = false) (hlen : t.length ≤ 2 ^ 64)
    (hbare : r.settings.quoteBareGroups = quoteBare) (hreserved : r.settings.reserved = cs) :
    Unchanged r supply (written isQuery cs (parts quoteBare t)) := by
  have hsource := flatMap_source_parts quoteBare t
  have hnone : Placeholder.hasSentinel (written isQuery cs (parts quoteBare t)) = false :=
    hasSentinel_written (hsource.symm ▸ hsentinel)
  have hcount := countP_gather_le hcs isQuery htidy
  rw [← hideRuns_written hcs isQuery htidy, hsource] at hcount
  refine unchanged_of_accepted supply (spaced_written hcs isQuery htidy (hsource.symm ▸ ht.1)) hnone
    ?_ ?_ ?_ ?_
  · exact Nat.le_trans (Outline.length_hidden_run_le_countP hnone _) (Nat.le_trans hcount hlen)
  · rw [hbare]
    exact fun m hm ↦ keepsGrouping_of_hit_written hcs htidy haccepted hm
  · rw [hreserved, closeGroups_visible_written hcs htidy]
    exact fun c hc ↦ notMem_closeGroups_settled hcs hc
  · rw [closeGroups_visible_written hcs htidy]
    exact (Cql.outcome_closeGroups haccepted).1

end Output

/-! ## The theorem -/

section Idempotence

variable (r : Repairer) (supply : KeySupply) {input : Text}

/-- The output of a repair is what is written of the parts of the phrase. -/
theorem output_repair_eq (hcs : Isolable r.settings.reserved)
    (hcount : (r.outline (normalize input)).hidden.length ≤ 2 ^ 64)
    (htidy : ∀ p ∈ r.parts input, p.Tidy) : (r.repair supply input).output
      = written (r.repair supply input).valid r.settings.reserved (r.parts input) := by
  rw [Report.output, r.tokens_repair supply hcount, Repairer.maskedPhrase,
    tokens_maskedParts hcs htidy, ← written_eq_joinTokens hcs]

/-- **Repairing is idempotent.** Where the quotes of a phrase are paired, no group that comes back
between quotes holds a quote, and the reserved characters are distinct and no parentheses, the
output of a repair is left as it is by another one, whatever numbers its placeholders start from.
The placeholder numbers last for every phrase that fits in memory. -/
theorem repair_idempotent (hlen : input.length < 2 ^ 64) (hnodup : r.settings.reserved.Nodup)
    (hparen : '(' ∉ r.settings.reserved ∧ ')' ∉ r.settings.reserved)
    (hquotes : (normalize input).count '"' % 2 = 0)
    (hliteral : ∀ f ∈ (r.repair supply input).masked.literalized,
      '"' ∉ (r.repair supply input).masked.table.resolve f.content) (supply' : KeySupply) :
    Unchanged r supply' (r.repair supply input).output := by
  have hcs : Isolable r.settings.reserved :=
    ⟨hnodup, r.valid.2.2, fun c ↦ Cql.isParen_of_mem hparen⟩
  have hcount := r.length_hidden_outline_le hlen
  have hspaced := spaced_normalize input
  have htidy : ∀ p ∈ r.parts input, p.Tidy := fun p hp ↦ by
    refine tidy_of_mem_parts hspaced hquotes (fun g hg ↦ ?_) hp
    rw [← Repairer.parts, ← r.literalized_repair supply hcount] at hg
    obtain ⟨f, hf, rfl⟩ := List.mem_map.mp hg
    exact hliteral f hf
  have hquery : (r.repair supply input).valid = true → Cql.outcome .blank
      (Veiled.shape (isolateAll r.settings.reserved (maskedParts (r.parts input)))) ≠ .broken := by
    rw [r.valid_repair]
    exact Cql.phraseIsCql_iff.mp
  rw [output_repair_eq r supply hcs hcount htidy]
  exact unchanged_written hcs htidy (outcome_settled hcs hspaced hquery) supply' hspaced
    (hasSentinel_normalize input)
    (Nat.le_trans (length_normalize_le input) (Nat.le_of_lt hlen)) rfl rfl

end Idempotence

/-- A phrase that is no query, with a reserved character and with a group that is quoted inside one
that is not, is repaired to a query whose outer group has become innermost. -/
theorem repair_idempotent_of_nested_groups :
    Unchanged {} {} "x and (a and \"/\" and \"(b c)\")".toList := by
  have h : Unchanged {} {} (({} : Repairer).repair {} "x (a / (b c))".toList).output :=
    repair_idempotent {} {} (by decide +kernel) (by decide +kernel) (by decide +kernel)
      (by decide +kernel) (by decide +kernel) {}
  rwa [show (({} : Repairer).repair {} "x (a / (b c))".toList).output
    = "x and (a and \"/\" and \"(b c)\")".toList from by decide +kernel] at h

end PhraseRepair
