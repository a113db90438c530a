import PhraseRepair.Proofs.Scanning

/-!
# Matches and their places

A scan reports where a match starts and where it stops, counted in bytes of the UTF-8 form. Such an
offset is of use only between two characters, so a text is cut at an offset where one character ends
and the next one starts (`Text.cut?`), and what stands from one offset to another is had by cutting
twice (`Text.slice?`).

Whatever is scanned for, the spans of the matches are in order and do not overlap, and each of them
is the place of its match (`slice?_of_mem_spans`). No match is missed either: where one could be
read, there is a span that starts there or reaches across (`exists_span_of_read`). What is left are
the gaps between the spans, in which nothing can be read, and the segments are what stands in them.
-/

namespace PhraseRepair

namespace Text

/-! ## Cutting at byte offsets

Of two ways to cut a text, the one that cuts at the larger offset has the longer first part, since
every character has one byte at least. So places are compared as numbers, and what they cut off as
texts. -/

theorem utf8Size_eq_zero_iff {t : Text} : utf8Size t = 0 ↔ t = [] := by
  cases t with
  | nil => exact iff_of_true rfl rfl
  | cons c t =>
    have hpos := c.utf8Size_pos
    rw [utf8Size_cons]
    exact iff_of_false (by omega) (List.cons_ne_nil c t)

theorem exists_append_of_utf8Size_le {a b c d : Text} (h : a ++ b = c ++ d)
    (hle : utf8Size a ≤ utf8Size c) : ∃ w, c = a ++ w ∧ b = w ++ d := by
  rcases List.append_eq_append_iff.mp h with ⟨w, hc, hb⟩ | ⟨w, ha, hd⟩
  · exact ⟨w, hc, hb⟩
  · have hw : w = [] := by
      rw [ha, utf8Size_append] at hle
      exact utf8Size_eq_zero_iff.mp (by omega)
    subst hw
    exact ⟨[], by simpa using ha.symm, by simpa using hd.symm⟩

/-- The text before and behind a byte offset, if that is no offset within a character. -/
def cut? : Nat → Text → Option (Text × Text)
  | 0, t => some ([], t)
  | _ + 1, [] => none
  | n + 1, c :: t =>
    if c.utf8Size ≤ n + 1 then (cut? (n + 1 - c.utf8Size) t).map fun p ↦ (c :: p.1, p.2) else none

theorem cut?_append (s t : Text) : cut? (utf8Size s) (s ++ t) = some (s, t) := by
  induction s with
  | nil => cases t <;> rfl
  | cons c s ih =>
    have hpos := c.utf8Size_pos
    obtain ⟨n, hn⟩ : ∃ n, utf8Size (c :: s) = n + 1 :=
      Nat.exists_eq_succ_of_ne_zero (mt utf8Size_eq_zero_iff.mp (List.cons_ne_nil c s))
    rw [utf8Size_cons] at hn
    rw [utf8Size_cons, hn, List.cons_append, cut?, if_pos (by omega),
      show n + 1 - c.utf8Size = utf8Size s by omega, ih]
    rfl

theorem cut?_eq_some_iff {n : Nat} {t a b : Text} :
    cut? n t = some (a, b) ↔ t = a ++ b ∧ utf8Size a = n := by
  refine ⟨fun h ↦ ?_, ?_⟩
  · induction t generalizing n a with
    | nil =>
      cases n with
      | zero =>
        obtain ⟨rfl, rfl⟩ := Prod.mk.inj (Option.some.inj h)
        exact ⟨rfl, rfl⟩
      | succ n => exact absurd h (by simp [cut?])
    | cons c t ih =>
      cases n with
      | zero =>
        obtain ⟨rfl, rfl⟩ := Prod.mk.inj (Option.some.inj h)
        exact ⟨rfl, rfl⟩
      | succ n =>
        rw [cut?, Option.ite_none_right_eq_some] at h
        obtain ⟨hle, h⟩ := h
        obtain ⟨⟨a', b'⟩, hcut, heq⟩ := Option.map_eq_some_iff.mp h
        obtain ⟨rfl, rfl⟩ := Prod.mk.inj heq
        obtain ⟨rfl, hsize⟩ := ih hcut
        refine ⟨rfl, ?_⟩
        rw [utf8Size_cons, hsize]
        omega
  · rintro ⟨rfl, rfl⟩
    exact cut?_append a b

/-- The text from one byte offset to another, if neither is an offset within a character. -/
def slice? (start stop : Nat) (t : Text) : Option Text :=
  (cut? start t).bind fun p ↦
    if start ≤ stop then (cut? (stop - start) p.2).map Prod.fst else none

/-- **Slices.** A slice is what stands between two offsets of the text. -/
theorem slice?_eq_some_iff {start stop : Nat} {t u : Text} :
    slice? start stop t = some u ↔ ∃ before after, t = before ++ u ++ after ∧
      utf8Size before = start ∧ start + utf8Size u = stop := by
  constructor
  · intro h
    obtain ⟨⟨before, rest⟩, hbefore, h⟩ := Option.bind_eq_some_iff.mp h
    obtain ⟨hle, h⟩ := Option.ite_none_right_eq_some.mp h
    obtain ⟨⟨u', after⟩, hu, hfst⟩ := Option.map_eq_some_iff.mp h
    obtain rfl : u' = u := hfst
    obtain ⟨rfl, hstart⟩ := cut?_eq_some_iff.mp hbefore
    obtain ⟨hrest, hsize⟩ := cut?_eq_some_iff.mp hu
    obtain rfl : rest = u' ++ after := hrest
    exact ⟨before, after, (List.append_assoc _ _ _).symm, hstart, by omega⟩
  · rintro ⟨before, after, rfl, rfl, rfl⟩
    rw [slice?, List.append_assoc, cut?_append, Option.bind_some, if_pos (Nat.le_add_right _ _),
      Nat.add_sub_cancel_left, cut?_append]
    rfl

theorem slice?_append (before u after : Text) :
    slice? (utf8Size before) (utf8Size before + utf8Size u) (before ++ u ++ after) = some u :=
  slice?_eq_some_iff.mpr ⟨before, after, rfl, rfl, rfl⟩

/-- Texts with texts between them, written one after the other. -/
def interleave : List Text → List Text → Text
  | u :: us, v :: vs => u ++ v ++ interleave us vs
  | us, _ => us.flatten

end Text

namespace Recognizer

open Text (utf8Size slice?)

variable (r : Recognizer)

/-! ## Spans

Spans are collected with an offset that runs along, and the lemmas are proved for any offset, since
what is left behind an item starts at another one. That no match is missed cannot say that every
match is found: two may overlap, and the scan takes the one that starts first. -/

theorem length_spansFrom (offset : Nat) (items : List Item) :
    (spansFrom offset items).length = items.countP Item.isHit := by
  induction items generalizing offset with
  | nil => rfl
  | cons item items ih => cases item <;> simp [spansFrom, Item.isHit, List.countP_cons, ih]

theorem le_start_of_mem_spansFrom {offset : Nat} {items : List Item} {s : Span}
    (hs : s ∈ spansFrom offset items) : offset ≤ s.start ∧ s.start ≤ s.stop := by
  induction items generalizing offset with
  | nil => exact absurd hs List.not_mem_nil
  | cons item items ih =>
    cases item with
    | plain c =>
      obtain ⟨hstart, hstop⟩ := ih hs
      exact ⟨by omega, hstop⟩
    | hit m =>
      rcases List.mem_cons.mp hs with rfl | hs
      · exact ⟨Nat.le_refl _, Nat.le_add_right _ _⟩
      · obtain ⟨hstart, hstop⟩ := ih hs
        exact ⟨by omega, hstop⟩

private theorem pairwise_spansFrom (offset : Nat) (items : List Item) :
    (spansFrom offset items).Pairwise fun s s' ↦ s.stop ≤ s'.start := by
  induction items generalizing offset with
  | nil => exact List.Pairwise.nil
  | cons item items ih =>
    cases item with
    | plain c => exact ih _
    | hit m =>
      refine List.pairwise_cons.mpr ⟨fun s' hs' ↦ ?_, ih _⟩
      exact (le_start_of_mem_spansFrom hs').1

/-- **Order.** A match stops before the next one starts. -/
theorem pairwise_spans (t : Text) : (r.spans t).Pairwise fun s s' ↦ s.stop ≤ s'.start :=
  pairwise_spansFrom 0 _

private theorem exists_read_of_mem_spansFrom {offset : Nat} {t : Text} {s : Span}
    (hs : s ∈ spansFrom offset (r.scan t)) : ∃ before rest, t = before ++ (s.found.text ++ rest) ∧
      r.read (s.found.text ++ rest) = some s.found ∧ s.start = offset + utf8Size before ∧
      s.stop = s.start + utf8Size s.found.text := by
  induction t using r.scan_induction generalizing offset with
  | nil => exact absurd hs List.not_mem_nil
  | plain c t hread ih =>
    rw [r.scan_of_read_none hread] at hs
    obtain ⟨before, rest, rfl, hfound, hstart, hstop⟩ := ih hs
    refine ⟨c :: before, rest, rfl, hfound, ?_, hstop⟩
    rw [hstart, Text.utf8Size_cons, Nat.add_assoc]
  | hit m t hread ih =>
    rw [r.scan_match_append hread] at hs
    rcases List.mem_cons.mp hs with rfl | hs
    · exact ⟨[], t, rfl, hread, rfl, rfl⟩
    · obtain ⟨before, rest, rfl, hfound, hstart, hstop⟩ := ih hs
      refine ⟨m.text ++ before, rest, (List.append_assoc _ _ _).symm, hfound, ?_, hstop⟩
      rw [hstart, Text.utf8Size_append, Nat.add_assoc]

theorem exists_read_of_mem_spans {t : Text} {s : Span} (hs : s ∈ r.spans t) :
    ∃ before rest, t = before ++ (s.found.text ++ rest) ∧
      r.read (s.found.text ++ rest) = some s.found ∧ s.start = utf8Size before ∧
      s.stop = s.start + utf8Size s.found.text := by
  obtain ⟨before, rest, ht, hread, hstart, hstop⟩ := r.exists_read_of_mem_spansFrom hs
  exact ⟨before, rest, ht, hread, by rw [hstart, Nat.zero_add], hstop⟩

/-- From its start to its stop, a span holds its match. -/
theorem slice?_of_mem_spans {t : Text} {s : Span} (hs : s ∈ r.spans t) :
    slice? s.start s.stop t = some s.found.text := by
  obtain ⟨before, rest, rfl, -, hstart, hstop⟩ := r.exists_read_of_mem_spans hs
  rw [hstop, hstart, ← List.append_assoc]
  exact Text.slice?_append _ _ _

private theorem exists_spanFrom_of_read (before : Text) {u : Text} {m : Match}
    (h : r.read u = some m) (offset : Nat) : ∃ s ∈ spansFrom offset (r.scan (before ++ u)),
      s.start ≤ offset + utf8Size before ∧ offset + utf8Size before < s.stop := by
  generalize ht : before ++ u = t
  induction t using r.scan_induction generalizing before offset with
  | nil =>
    rw [(List.append_eq_nil_iff.mp ht).2] at h
    exact absurd (List.prefix_nil.mp (r.isPrefix h)) (r.ne_nil h)
  | plain c t hread ih =>
    rcases List.append_eq_cons_iff.mp ht with ⟨rfl, rfl⟩ | ⟨before, rfl, rfl⟩
    · rw [hread] at h
      exact absurd h (by simp)
    · obtain ⟨s, hs, hstart, hstop⟩ := ih before (offset + c.utf8Size) rfl
      rw [Nat.add_assoc] at hstart hstop
      rw [r.scan_of_read_none hread]
      exact ⟨s, hs, hstart, hstop⟩
  | hit m' t hread ih =>
    rw [r.scan_match_append hread]
    by_cases hlt : utf8Size before < utf8Size m'.text
    · exact ⟨_, List.mem_cons_self, Nat.le_add_right _ _, Nat.add_lt_add_left hlt _⟩
    · -- The place is behind the match that the scan takes, maybe right behind it.
      obtain ⟨w, rfl, rfl⟩ := Text.exists_append_of_utf8Size_le ht.symm (Nat.le_of_not_lt hlt)
      obtain ⟨s, hs, hstart, hstop⟩ := ih w (offset + utf8Size m'.text) rfl
      rw [Nat.add_assoc, ← Text.utf8Size_append] at hstart hstop
      exact ⟨s, List.mem_cons_of_mem _ hs, hstart, hstop⟩

/-- **No match is missed.** Where a match can be read, the scan has one that starts there or reaches
across. -/
theorem exists_span_of_read (before : Text) {u : Text} {m : Match} (h : r.read u = some m) :
    ∃ s ∈ r.spans (before ++ u), s.start ≤ utf8Size before ∧ utf8Size before < s.stop := by
  obtain ⟨s, hs, hstart, hstop⟩ := r.exists_spanFrom_of_read before h 0
  rw [Nat.zero_add] at hstart hstop
  exact ⟨s, hs, hstart, hstop⟩

/-! ## Gaps

A gap lies between the end of one match and the start of the next, and it may be empty. A place
where one match ends and another one starts belongs to no gap. -/

/-- The places between spans, from the end of one to the start of the next, in a text of the given
size from a given offset on. -/
def gapsFrom (size : Nat) : Nat → List Span → List (Nat × Nat)
  | last, [] => [(last, size)]
  | last, s :: spans => (last, s.start) :: gapsFrom size s.stop spans

/-- The places of a text before, between and behind its matches. -/
def gaps (t : Text) : List (Nat × Nat) := gapsFrom (utf8Size t) 0 (r.spans t)

private theorem modifyHead_nil_append (us : List Text) : us.modifyHead ([] ++ ·) = us := by
  cases us <;> rfl

private theorem map_some_between (items : List Item) (before passed : Text) :
    ((between items).modifyHead (passed ++ ·)).map some
      = (gapsFrom (utf8Size (before ++ passed ++ items.flatMap Item.text)) (utf8Size before)
          (spansFrom (utf8Size (before ++ passed)) items)).map
            fun g ↦ slice? g.1 g.2 (before ++ passed ++ items.flatMap Item.text) := by
  induction items generalizing before passed with
  | nil =>
    -- The last segment is what has been passed over since the last match.
    have hslice := Text.slice?_append before passed []
    rw [← Text.utf8Size_append] at hslice
    simpa [between, spansFrom, gapsFrom] using hslice.symm
  | cons item items ih =>
    cases item with
    | plain c =>
      have ih := ih before (passed ++ [c])
      have hhead : ∀ us : List Text, (us.modifyHead (c :: ·)).modifyHead (passed ++ ·)
          = us.modifyHead (passed ++ [c] ++ ·) := fun us ↦ by cases us <;> simp
      have htext : before ++ passed ++ (c :: items.flatMap Item.text)
          = before ++ (passed ++ [c]) ++ items.flatMap Item.text := by simp
      have hoffset : utf8Size (before ++ passed) + c.utf8Size
          = utf8Size (before ++ (passed ++ [c])) := by simp [Nat.add_assoc]
      rw [between, hhead, spansFrom, List.flatMap_cons, Item.text, List.singleton_append, htext,
        hoffset]
      exact ih
    | hit m =>
      have ih := ih (before ++ passed ++ m.text) []
      have hslice := Text.slice?_append before passed (m.text ++ items.flatMap Item.text)
      rw [modifyHead_nil_append, List.append_nil, List.append_assoc (before ++ passed)] at ih
      rw [← Text.utf8Size_append] at hslice
      rw [between, List.modifyHead_cons, List.append_nil, List.map_cons, spansFrom, gapsFrom,
        List.map_cons, List.flatMap_cons, Item.text, hslice, ih, Text.utf8Size_append _ m.text]

/-- The segments of a text are what stands in its gaps. -/
theorem segments_eq_slices (t : Text) :
    (r.segments t).map some = (r.gaps t).map fun g ↦ slice? g.1 g.2 t := by
  have h := map_some_between (r.scan t) [] []
  rw [modifyHead_nil_append, List.nil_append, List.nil_append, r.flatMap_text_scan] at h
  exact h

private theorem beside_of_mem_gapsFrom {size last : Nat} {spans : List Span} {g : Nat × Nat}
    (hle : ∀ s ∈ spans, last ≤ s.start ∧ s.start ≤ s.stop)
    (hspans : spans.Pairwise fun s s' ↦ s.stop ≤ s'.start) (hg : g ∈ gapsFrom size last spans) :
    last ≤ g.1 ∧ ∀ s ∈ spans, g.2 ≤ s.start ∨ s.stop ≤ g.1 := by
  induction spans generalizing last with
  | nil =>
    rw [List.mem_singleton.mp hg]
    exact ⟨Nat.le_refl _, fun s hs ↦ absurd hs List.not_mem_nil⟩
  | cons s spans ih =>
    obtain ⟨hhead, htail⟩ := List.pairwise_cons.mp hspans
    obtain ⟨hlast, hsize⟩ := hle s List.mem_cons_self
    have hle : ∀ s' ∈ spans, s.stop ≤ s'.start ∧ s'.start ≤ s'.stop := fun s' hs' ↦
      ⟨hhead s' hs', (hle s' (List.mem_cons_of_mem _ hs')).2⟩
    rcases List.mem_cons.mp hg with rfl | hg
    · refine ⟨Nat.le_refl _, fun s' hs' ↦ Or.inl ?_⟩
      rcases List.mem_cons.mp hs' with rfl | hs'
      · exact Nat.le_refl _
      · exact Nat.le_trans hsize (hle s' hs').1
    · obtain ⟨hfirst, hbeside⟩ := ih hle htail hg
      refine ⟨by omega, fun s' hs' ↦ ?_⟩
      rcases List.mem_cons.mp hs' with rfl | hs'
      · exact Or.inr hfirst
      · exact hbeside s' hs'

/-- **Nothing is left in a gap.** No match can be read at a place within a gap. -/
theorem read_eq_none_of_mem_gaps {before u : Text} {g : Nat × Nat}
    (hg : g ∈ r.gaps (before ++ u)) (hfirst : g.1 ≤ utf8Size before)
    (hlast : utf8Size before < g.2) : r.read u = none := by
  have hbeside := beside_of_mem_gapsFrom (fun s hs ↦ le_start_of_mem_spansFrom hs)
    (r.pairwise_spans _) hg
  rw [Option.eq_none_iff_forall_ne_some]
  intro m hm
  obtain ⟨s, hs, hstart, hstop⟩ := r.exists_span_of_read before hm
  rcases hbeside.2 s hs with h | h <;> omega

private theorem interleave_between (offset : Nat) (items : List Item) :
    Text.interleave (between items) ((spansFrom offset items).map (·.found.text))
      = items.flatMap Item.text := by
  induction items generalizing offset with
  | nil => rfl
  | cons item items ih =>
    cases item with
    | plain c =>
      have hcons : ∀ us vs : List Text, us ≠ [] →
          Text.interleave (us.modifyHead (c :: ·)) vs = c :: Text.interleave us vs := by
        intro us vs hus
        obtain ⟨u, us, rfl⟩ := List.exists_cons_of_ne_nil hus
        cases vs <;> rfl
      have hne : between items ≠ [] := by
        rw [← List.length_pos_iff, length_between]
        exact Nat.succ_pos _
      rw [between, hcons _ _ hne, spansFrom, ih, List.flatMap_cons]
      rfl
    | hit m =>
      rw [between, spansFrom, List.map_cons, Text.interleave, ih, List.flatMap_cons]
      rfl

/-- A text is its segments with its matches between them. -/
theorem interleave_segments (t : Text) :
    Text.interleave (r.segments t) ((r.spans t).map (·.found.text)) = t := by
  rw [segments, spans, interleave_between, r.flatMap_text_scan]

end Recognizer

end PhraseRepair
