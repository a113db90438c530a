import PhraseRepair.Proofs.References
import PhraseRepair.Proofs.Scanning

/-!
# Decoding escaped text

A reader that puts the characters that have a meaning in markup back in place of their references
gets the same from a text and from its escaped form. In particular it gets the text back if this
spells no references (`decode_escape`).

Escaping and decoding do not cut a text into the same pieces. Escaping keeps any reference, which
may be one that decoding passes over, and for a character that it replaces it looks as far as the
next semicolon. But no reference goes beyond a semicolon, and so decoding falls apart behind each
(`decode_append_semicolon`), which is where `reference_induction` cuts the text.
-/

namespace PhraseRepair.Xml

/-! ## Decoding

Nothing behind a semicolon can be part of a match that starts before it, as a match ends with the
only semicolon that it has. An ampersand is no such place: `&amp` at the end of a text becomes a
reference by what follows it. -/

/-- The references that escaping writes, with the characters that they stand for. -/
def entities : List Match := characterReferences.map fun r ↦ ⟨reference r.2, [r.1]⟩

/-- Reads a reference that stands for a character which has a meaning in markup. -/
def characterReference : Recognizer where
  read t := entities.find? (·.text.isPrefixOf t)
  ne_nil h := by
    obtain ⟨r, -, rfl⟩ := List.mem_map.mp (List.mem_of_find?_eq_some h)
    exact List.cons_ne_nil _ _
  isPrefix h := by simpa using List.find?_some h

/-- The text with characters in place of their references, and everything else as it is. -/
def decode (t : Text) : Text := characterReference.substitute Match.value t

theorem decode_cons {c : Char} {t : Text} (h : characterReference.read (c :: t) = none) :
    decode (c :: t) = c :: decode t := by
  rw [decode, Recognizer.substitute, characterReference.scan_of_read_none h]
  rfl

theorem semicolon_notMem_dropLast_text {m : Match} (h : m ∈ entities) : ';' ∉ m.text.dropLast := by
  have hall : entities.all (! ·.text.dropLast.contains ';') := by decide
  simpa using List.all_eq_true.mp hall m h

theorem read_append_semicolon (s t : Text) :
    characterReference.read (s ++ [';'] ++ t) = characterReference.read (s ++ [';']) := by
  have hread : ∀ u, characterReference.read u = (entities.filter (·.text.isPrefixOf u)).head? :=
    fun u ↦ List.head?_filter.symm
  rw [hread, hread]
  refine congrArg List.head? (List.filter_congr fun m hm ↦ ?_)
  rw [Bool.eq_iff_iff, List.isPrefixOf_iff_prefix, List.isPrefixOf_iff_prefix]
  refine ⟨fun h ↦ ?_, fun h ↦ h.trans (List.prefix_append _ t)⟩
  rcases List.prefix_or_prefix_of_prefix h (List.prefix_append _ t) with h | ⟨w, hw⟩
  · exact h
  · cases w with
    | nil => exact ⟨[], by rw [List.append_nil, ← hw, List.append_nil]⟩
    | cons c w =>
      -- A reference that goes on behind the semicolon would have it before its end.
      refine absurd ?_ (semicolon_notMem_dropLast_text hm)
      rw [← hw, List.dropLast_append_of_ne_nil (List.cons_ne_nil c w)]
      simp

/-- Decoding falls apart behind a semicolon. -/
theorem decode_append_semicolon (s t : Text) :
    decode (s ++ [';'] ++ t) = decode (s ++ [';']) ++ decode t := by
  have hscan : characterReference.scan (s ++ [';'] ++ t)
      = characterReference.scan (s ++ [';']) ++ characterReference.scan t := by
    refine characterReference.scan_append fun u hu hne ↦ ?_
    obtain ⟨before, rfl, -⟩ := (List.suffix_concat_iff.mp hu).resolve_left hne
    exact read_append_semicolon before t
  rw [decode, Recognizer.substitute, hscan, List.flatMap_append]
  rfl

theorem decode_reference_append (body t : Text) :
    decode (reference body ++ t) = decode (reference body) ++ decode t :=
  decode_append_semicolon ('&' :: body) t

theorem decode_reference {c : Char} {body : Text} (h : (c, body) ∈ characterReferences) :
    decode (reference body) = [c] := by
  have hall : characterReferences.all fun r ↦ decode (reference r.2) = [r.1] := by decide
  exact of_decide_eq_true (List.all_eq_true.mp hall _ h)

theorem read_eq_none {c : Char} {t : Text} (h : c = '&' → completesReference t = false) :
    characterReference.read (c :: t) = none := by
  refine List.find?_eq_none.mpr fun m hm hprefix ↦ ?_
  obtain ⟨⟨d, body⟩, hmem, rfl⟩ := List.mem_map.mp hm
  obtain ⟨rest, hrest⟩ := List.isPrefixOf_iff_prefix.mp hprefix
  have hbody := isReferenceBody_of_isStandardBody (isStandardBody_of_mem_characterReferences hmem)
  obtain ⟨rfl, rfl⟩ := List.cons.inj ((reference_append body rest).symm.trans hrest)
  have hcompletes := completes_of_isReferenceBody hbody isReferenceBody rest
  rw [← completesReference_eq, h rfl, hbody] at hcompletes
  exact Bool.false_ne_true hcompletes

/-! ## Escaping and decoding

A reference that is kept ends with a semicolon, so decoding it is the same in both texts even where
it is none of those that decoding knows. -/

theorem decode_eq_self {t : Text} (h : AfterAmpersands (completesReference · = false) t) :
    decode t = t := by
  induction t with
  | nil => rfl
  | cons c t ih =>
    obtain ⟨hc, ht⟩ := afterAmpersands_cons.mp h
    rw [decode_cons (read_eq_none hc), ih ht]

/-- Decoding does not tell an escaped text from the text itself. -/
theorem decode_escape_eq (t : Text) : decode (escape t) = decode t := by
  refine escape_induction (motive := fun t e ↦ decode e = decode t) rfl ?_ ?_ ?_ t
  · intro body t _ ih
    rw [decode_reference_append, decode_reference_append, ih]
  · intro c t hc ih
    have hnone : ∀ u, characterReference.read (c :: u) = none :=
      fun u ↦ read_eq_none fun heq ↦ absurd heq hc
    rw [decode_cons (hnone _), decode_cons (hnone _), ih]
  · intro c body t hmem hc ih
    rw [decode_reference_append, decode_reference hmem, decode_cons (read_eq_none hc), ih]
    rfl

/-- **Escaping is safe and keeps the meaning.** An escaped text has no character that delimits tags
or attribute values. It decodes to the same as the text does, and this is the text itself if no
ampersand in it begins a reference. -/
theorem decode_escape (t : Text) :
    (∀ c ∈ ['<', '>', '"', '\''], c ∉ escape t) ∧ decode (escape t) = decode t ∧
      (AfterAmpersands (completesReference · = false) t → decode (escape t) = t) :=
  ⟨fun _ hc ↦ notMem_escape hc t, decode_escape_eq t,
    fun h ↦ (decode_escape_eq t).trans (decode_eq_self h)⟩

/-- Ampersands and semicolons that make no reference. -/
theorem decode_escape_of_no_reference :
    decode (escape "R&D <&&amp 'x;y'>;".toList) = "R&D <&&amp 'x;y'>;".toList :=
  (decode_escape _).2.2 (by decide)

/-- A reference is decoded although it was in the text. -/
example : decode (escape "a &lt; &foo; b".toList) = "a < &foo; b".toList := by decide

end PhraseRepair.Xml
