import PhraseRepair.Proofs.Blindness
import PhraseRepair.Proofs.Numbering
import PhraseRepair.Proofs.Spans

/-!
# Which delimiters belong together

The scans for fragments take the delimiters of a text in pairs. A parenthesis belongs to the next
one if it opens and the next one closes, wherever that is in the text, and all such pairs are found.
Double quotes are counted from the left: the first one belongs to the second, the third one to the
fourth, and an odd one at the end belongs to none.

Both are stated by the places of the fragments, in bytes (`spans_innermostGroup_iff`,
`getElem?_spans_quotedRun_eq_some_iff`).
-/

namespace PhraseRepair.Cql

open Text (utf8Size slice? enclose)

/-! ## Parentheses

A scan could miss a match that starts within an earlier one. Groups are not missed, because a group
has no parenthesis in its body: a match that reaches across the beginning of a group has to be the
group itself. -/

/-- The place of a pair of parentheses in a text, with no parenthesis between the two. -/
def IsGroupAt (t : Text) (s : Span) : Prop :=
  ∃ body, (∀ c ∈ body, isParen c = false) ∧
    slice? s.start s.stop t = some (enclose '(' ')' body) ∧ s.found = ⟨enclose '(' ')' body, body⟩

private theorem read_innermostGroup_inside {x y rest : Text} {m : Match}
    (h : innermostGroup.read (x ++ (y ++ rest)) = some m) (htext : m.text = x ++ y) (hx : x ≠ [])
    (hy : y ≠ []) : innermostGroup.read (y ++ rest) = none := by
  obtain ⟨body, hbody, -, rfl⟩ := read_innermostGroup_eq_some_iff.mp h
  obtain ⟨c, x, rfl⟩ := List.exists_cons_of_ne_nil hx
  obtain ⟨d, y, rfl⟩ := List.exists_cons_of_ne_nil hy
  have htail : body ++ [')'] = x ++ d :: y := (List.cons.inj htext).2
  have hmem : d ∈ body ++ [')'] := htail ▸ List.mem_append_right _ List.mem_cons_self
  rw [Option.eq_none_iff_forall_ne_some]
  intro m' hm'
  obtain ⟨body', -, hpre, -⟩ := read_innermostGroup_eq_some_iff.mp hm'
  obtain rfl : '(' = d := (List.cons_prefix_cons.mp hpre).1
  rcases List.mem_append.mp hmem with h | h
  · exact absurd (hbody _ h) (by decide)
  · exact absurd h (by decide)

private theorem mem_spans_of_read (before : Text) {u : Text} {m : Match}
    (h : innermostGroup.read u = some m) :
    ⟨utf8Size before, utf8Size before + utf8Size m.text, m⟩
      ∈ innermostGroup.spans (before ++ u) := by
  obtain ⟨s, hs, hstart, hstop⟩ := innermostGroup.exists_span_of_read before h
  obtain ⟨before', rest, ht, hread, hfirst, hlast⟩ := innermostGroup.exists_read_of_mem_spans hs
  obtain ⟨w, rfl, hw⟩ := Text.exists_append_of_utf8Size_le ht.symm (by omega)
  rw [hlast, hfirst, Text.utf8Size_append] at hstop
  obtain ⟨y, htext, rfl⟩ := Text.exists_append_of_utf8Size_le hw.symm (by omega)
  have hy : y ≠ [] := by
    rintro rfl
    rw [htext, List.append_nil] at hstop
    omega
  -- The match that was found starts where the group is read, for none starts within another one.
  have hnil : w = [] := by
    by_contra hne
    rw [htext, List.append_assoc] at hread
    rw [read_innermostGroup_inside hread htext hne hy] at h
    exact absurd h (by simp)
  subst hnil
  rw [htext, List.nil_append, h] at hread
  obtain rfl : m = s.found := Option.some.inj hread
  rw [List.append_nil] at hs ⊢
  rw [← hfirst, ← hlast]
  exact hs

/-- **Groups.** The scan finds the pairs of parentheses with none between them, and no others. -/
theorem spans_innermostGroup_iff {t : Text} {s : Span} :
    s ∈ innermostGroup.spans t ↔ IsGroupAt t s := by
  constructor
  · intro hs
    obtain ⟨before, rest, rfl, hread, -⟩ := innermostGroup.exists_read_of_mem_spans hs
    obtain ⟨body, hbody, -, hfound⟩ := read_innermostGroup_eq_some_iff.mp hread
    refine ⟨body, hbody, ?_, hfound⟩
    rw [innermostGroup.slice?_of_mem_spans hs, hfound]
  · rintro ⟨body, hbody, hslice, hfound⟩
    obtain ⟨before, after, rfl, hstart, hstop⟩ := Text.slice?_eq_some_iff.mp hslice
    have hs := mem_spans_of_read before (read_group hbody after)
    rw [← List.append_assoc, hstart, hstop, ← hfound] at hs
    exact hs

/-! ## Quotes

For quotes the order matters. What stands between the second and the third quote of a text looks
just like a quoted run, and is none. So a run is told by the number of quotes before it. -/

/-- The place of the pair of quotes in a text that `k` pairs come before, with no quote between the
two. -/
def IsRunAt (t : Text) (k : Nat) (s : Span) : Prop :=
  (∃ before, slice? 0 s.start t = some before ∧ before.count '"' = 2 * k) ∧
    ∃ body, '"' ∉ body ∧ slice? s.start s.stop t = some (enclose '"' '"' body) ∧
      s.found = ⟨enclose '"' '"' body, enclose '"' '"' body⟩

private theorem count_before_run {t : Text} {k offset : Nat} {s : Span}
    (hs : (Recognizer.spansFrom offset (quotedRun.scan t))[k]? = some s) :
    ∃ before rest, t = before ++ rest ∧ s.start = offset + utf8Size before ∧
      before.count '"' = 2 * k := by
  induction t using quotedRun.scan_induction generalizing offset k with
  | nil => exact absurd hs (by simp [Recognizer.spansFrom])
  | plain c t hread ih =>
    rw [quotedRun.scan_of_read_none hread, Recognizer.spansFrom] at hs
    obtain ⟨before, rest, rfl, hstart, hcount⟩ := ih hs
    have hne : c ≠ '"' := by
      -- A quote that is passed over is the last one, so nothing could be found behind it.
      rintro rfl
      have hlt := (List.getElem?_eq_some_iff.mp hs).1
      rw [Recognizer.length_spansFrom, countP_scan_quotedRun,
        List.count_eq_zero_of_not_mem (quote_notMem_of_read_none hread)] at hlt
      exact absurd hlt (Nat.not_lt_zero k)
    refine ⟨c :: before, rest, rfl, ?_, ?_⟩
    · rw [hstart, Text.utf8Size_cons, Nat.add_assoc]
    · rw [List.count_cons_of_ne hne, hcount]
  | hit m t hread ih =>
    rw [quotedRun.scan_match_append hread] at hs
    cases k with
    | zero =>
      obtain rfl := Option.some.inj hs
      exact ⟨[], _, rfl, rfl, rfl⟩
    | succ k =>
      obtain ⟨before, rest, rfl, hstart, hcount⟩ := ih hs
      obtain ⟨body, hbody, -, rfl⟩ := read_quotedRun_eq_some_iff.mp hread
      refine ⟨enclose '"' '"' body ++ before, rest, (List.append_assoc _ _ _).symm, ?_, ?_⟩
      · rw [hstart, Text.utf8Size_append, Nat.add_assoc]
      · rw [List.count_append, Text.count_enclose_quotes, List.count_eq_zero_of_not_mem hbody,
          hcount]
        omega

theorem length_spans_quotedRun (t : Text) :
    (quotedRun.spans t).length = t.count '"' / 2 := by
  rw [Recognizer.spans, Recognizer.length_spansFrom, countP_scan_quotedRun]

theorem isRunAt_of_getElem? {t : Text} {k : Nat} {s : Span}
    (hs : (quotedRun.spans t)[k]? = some s) : IsRunAt t k s := by
  have hmem := List.mem_of_getElem? hs
  obtain ⟨before, rest, rfl, hstart, hcount⟩ := count_before_run hs
  refine ⟨⟨before, ?_, hcount⟩, ?_⟩
  · rw [hstart, Nat.zero_add]
    exact Text.slice?_eq_some_iff.mpr ⟨[], rest, rfl, rfl, Nat.zero_add _⟩
  · obtain ⟨-, rest', -, hread, -⟩ := quotedRun.exists_read_of_mem_spans hmem
    obtain ⟨body, hbody, -, hfound⟩ := read_quotedRun_eq_some_iff.mp hread
    refine ⟨body, hbody, ?_, hfound⟩
    rw [quotedRun.slice?_of_mem_spans hmem, hfound]

/-- The span of a run with its quotes behind a text. -/
private def runSpan (before body : Text) : Span :=
  ⟨utf8Size before, utf8Size before + utf8Size (enclose '"' '"' body),
    ⟨enclose '"' '"' body, enclose '"' '"' body⟩⟩

private theorem exists_of_isRunAt {t : Text} {k : Nat} {s : Span} (h : IsRunAt t k s) :
    ∃ before body after, t = before ++ '"' :: (body ++ '"' :: after) ∧ '"' ∉ body ∧
      before.count '"' = 2 * k ∧ s = runSpan before body := by
  obtain ⟨start, stop, found⟩ := s
  obtain ⟨⟨before, hbefore, hcount⟩, body, hbody, hslice, hfound⟩ := h
  dsimp only at hbefore hslice hfound
  obtain ⟨front, rest, ht, hfront, hstart⟩ := Text.slice?_eq_some_iff.mp hbefore
  obtain ⟨before', after, rfl, hbefore', hstop⟩ := Text.slice?_eq_some_iff.mp hslice
  obtain rfl := Text.utf8Size_eq_zero_iff.mp hfront
  rw [List.append_assoc, List.nil_append] at ht
  obtain ⟨w, rfl, -⟩ := Text.exists_append_of_utf8Size_le ht.symm (by omega)
  have hw : w = [] := by
    rw [Text.utf8Size_append] at hbefore'
    exact Text.utf8Size_eq_zero_iff.mp (by omega)
  subst hw
  refine ⟨before, body, after, ?_, hbody, hcount, ?_⟩
  · simp [enclose]
  · rw [runSpan, Span.mk.injEq]
    exact ⟨by omega, by omega, hfound⟩

private theorem length_le_of_count_eq {a b x y : Text} (h : a ++ '"' :: x = b ++ y)
    (hcount : a.count '"' = b.count '"') : b.length ≤ a.length := by
  rcases List.append_eq_append_iff.mp h with ⟨w, rfl, hw⟩ | ⟨w, rfl, -⟩
  · cases w with
    | nil => simp
    | cons c w =>
      obtain rfl : '"' = c := (List.cons.inj hw).1
      rw [List.count_append, List.count_cons_self] at hcount
      omega
  · simp

private theorem eq_of_count_eq {a b x y : Text} (h : a ++ '"' :: x = b ++ '"' :: y)
    (hcount : a.count '"' = b.count '"') : a = b ∧ '"' :: x = '"' :: y :=
  List.append_inj h
    (Nat.le_antisymm (length_le_of_count_eq h.symm hcount.symm) (length_le_of_count_eq h hcount))

private theorem isRunAt_unique {t : Text} {k : Nat} {s s' : Span} (h : IsRunAt t k s)
    (h' : IsRunAt t k s') : s = s' := by
  obtain ⟨before, body, after, rfl, hbody, hcount, rfl⟩ := exists_of_isRunAt h
  obtain ⟨before', body', after', ht, hbody', hcount', rfl⟩ := exists_of_isRunAt h'
  obtain ⟨rfl, hrest⟩ := eq_of_count_eq ht (hcount.trans hcount'.symm)
  have hcounts : body.count '"' = body'.count '"' := by
    rw [List.count_eq_zero_of_not_mem hbody, List.count_eq_zero_of_not_mem hbody']
  obtain ⟨rfl, -⟩ := eq_of_count_eq (List.cons.inj hrest).2 hcounts
  rfl

/-- **Quoted runs.** The quotes of a text are paired from the left, and the scan finds the pairs in
that order. -/
theorem getElem?_spans_quotedRun_eq_some_iff {t : Text} {k : Nat} {s : Span} :
    (quotedRun.spans t)[k]? = some s ↔ IsRunAt t k s := by
  refine ⟨isRunAt_of_getElem?, fun h ↦ ?_⟩
  have hlt : k < (quotedRun.spans t).length := by
    obtain ⟨before, body, after, rfl, -, hcount, -⟩ := exists_of_isRunAt h
    rw [length_spans_quotedRun, List.count_append, List.count_cons_self, List.count_append,
      List.count_cons_self, hcount]
    omega
  have hget := List.getElem?_eq_getElem hlt
  rw [hget, isRunAt_unique h (isRunAt_of_getElem? hget)]

/-- **Fragments are found, all of them and in order.** The groups are the pairs of parentheses with
no parenthesis in between. The runs are the pairs of quotes, counted from the left, as many as half
the quotes. Of either kind, each stands in the text at its place, behind the one before it. -/
theorem fragments_found (t : Text) :
    ((∀ s, s ∈ innermostGroup.spans t ↔ IsGroupAt t s) ∧
      (innermostGroup.spans t).Pairwise fun s s' ↦ s.stop ≤ s'.start) ∧
    (quotedRun.spans t).length = t.count '"' / 2 ∧
      (∀ k s, (quotedRun.spans t)[k]? = some s ↔ IsRunAt t k s) ∧
      (quotedRun.spans t).Pairwise fun s s' ↦ s.stop ≤ s'.start := by
  refine ⟨⟨fun s ↦ spans_innermostGroup_iff, innermostGroup.pairwise_spans t⟩, ?_, ?_, ?_⟩
  · exact length_spans_quotedRun t
  · exact fun k s ↦ getElem?_spans_quotedRun_eq_some_iff
  · exact quotedRun.pairwise_spans t

/-- Offsets count bytes, and a parenthesis that is passed over hides no group. -/
example : innermostGroup.spans "((æ) å)".toList = [⟨1, 5, ⟨"(æ)".toList, "æ".toList⟩⟩] := by
  decide

end PhraseRepair.Cql
