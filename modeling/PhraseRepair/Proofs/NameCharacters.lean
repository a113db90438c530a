import PhraseRepair.Proofs.Documents

/-!
# The characters of element names

A name is checked by the letters and numbers of the whole of Unicode. XML has a table of its own
for what may stand in a name, the production `Name` of XML 1.0 in its fifth edition, and the two do
not agree: a few letters and numbers are missing from that table. They are listed here as *strays*,
those that are accepted at the beginning of a name and those that are accepted further on, and the
lists are exact (`inRanges_strayStarts`, `inRanges_strayParts`). So an accepted name, whether it is
the name of an element or a prefix, is one by the production unless there is a stray in it
(`production_of_accepted`).

All tables are lists of ranges, so a table is compared with another one range by range.
-/

namespace PhraseRepair

namespace Unicode

/-! ## Comparing tables

Going through all code points to compare two tables takes too long. That a range is covered by a
table is checked by going through the table once, and that two ranges are apart by looking at their
ends. Both checks are sound for any tables, in order or not, so nothing has to be proved about the
tables themselves. -/

/-- Whether the ranges, passed in order, leave out no code point from a first to a last one. -/
def covers : List CodeRange → Nat → Nat → Bool
  | [], first, last => last.blt first
  | r :: ranges, first, last =>
    bif r.1.ble first && first.ble r.2 then covers ranges (r.2 + 1) last
    else covers ranges first last

theorem exists_mem_of_covers {ranges : List CodeRange} {first last n : Nat}
    (h : covers ranges first last = true) (hfirst : first ≤ n) (hlast : n ≤ last) :
    ∃ r ∈ ranges, r.1 ≤ n ∧ n ≤ r.2 := by
  induction ranges generalizing first with
  | nil =>
    have hlt : last < first := Nat.ble_eq.mp h
    omega
  | cons r ranges ih =>
    rw [covers, Bool.cond_eq_ite] at h
    split at h
    · -- The first code point lies in this range, and those up to its end need no other one.
      next hmem =>
      have hle : r.1 ≤ first := Nat.ble_eq.mp (Bool.and_eq_true_iff.mp hmem).1
      by_cases hn : n ≤ r.2
      · exact ⟨r, List.mem_cons_self, by omega, hn⟩
      · obtain ⟨r', hr', hmem⟩ := ih h (by omega)
        exact ⟨r', List.mem_cons_of_mem _ hr', hmem⟩
    · obtain ⟨r', hr', hmem⟩ := ih h hfirst
      exact ⟨r', List.mem_cons_of_mem _ hr', hmem⟩

theorem inRanges_of_covers {ranges inner : List CodeRange}
    (h : ∀ r ∈ inner, covers ranges r.1 r.2 = true) {c : Char} (hc : inRanges inner c = true) :
    inRanges ranges c = true := by
  obtain ⟨r, hr, hfirst, hlast⟩ := inRanges_iff.mp hc
  exact inRanges_iff.mpr (exists_mem_of_covers (h r hr) hfirst hlast)

theorem inRanges_append (ranges ranges' : List CodeRange) (c : Char) :
    inRanges (ranges ++ ranges') c = (inRanges ranges c || inRanges ranges' c) :=
  List.any_append

theorem inRanges_singleton (d c : Char) : inRanges [(d.toNat, d.toNat)] c = decide (c = d) := by
  rw [Bool.eq_iff_iff, inRanges_iff, decide_eq_true_iff, ← Char.toNat_inj]
  constructor
  · rintro ⟨r, hr, hfirst, hlast⟩
    rw [List.mem_singleton.mp hr] at hfirst hlast
    exact Nat.le_antisymm hlast hfirst
  · intro h
    exact ⟨_, List.mem_singleton_self _, Nat.le_of_eq h.symm, Nat.le_of_eq h⟩

/-- What one table has and another one lacks. The first is covered by the second and the rest, and
the rest belongs to the first and is apart from the second. -/
theorem inRanges_eq_and_not {rest first second : List CodeRange}
    (hcovers : ∀ r ∈ first, covers (rest ++ second) r.1 r.2 = true)
    (hrest : ∀ r ∈ rest, covers first r.1 r.2 = true)
    (hapart : ∀ r ∈ rest, ∀ r' ∈ second, r.2 < r'.1 ∨ r'.2 < r.1) (c : Char) :
    inRanges rest c = (inRanges first c && !inRanges second c) := by
  rw [Bool.eq_iff_iff, Bool.and_eq_true, Bool.not_eq_true']
  constructor
  · intro hc
    refine ⟨inRanges_of_covers hrest hc, ?_⟩
    rw [Bool.eq_false_iff]
    intro hc'
    obtain ⟨r, hr, hfirst, hlast⟩ := inRanges_iff.mp hc
    obtain ⟨r', hr', hfirst', hlast'⟩ := inRanges_iff.mp hc'
    have := hapart r hr r' hr'
    omega
  · rintro ⟨hfirst, hsecond⟩
    have hc := inRanges_of_covers hcovers hfirst
    rw [inRanges_append, hsecond, Bool.or_false] at hc
    exact hc

end Unicode

namespace Xml

open Unicode (CodeRange inRanges)

/-! ## The production -/

namespace Production

/-- The code points of `NameStartChar`. -/
def startRanges : List CodeRange :=
  [(0x3A, 0x3A), (0x41, 0x5A), (0x5F, 0x5F), (0x61, 0x7A), (0xC0, 0xD6), (0xD8, 0xF6),
   (0xF8, 0x2FF), (0x370, 0x37D), (0x37F, 0x1FFF), (0x200C, 0x200D), (0x2070, 0x218F),
   (0x2C00, 0x2FEF), (0x3001, 0xD7FF), (0xF900, 0xFDCF), (0xFDF0, 0xFFFD), (0x10000, 0xEFFFF)]

/-- The code points of `NameChar`: those of `NameStartChar`, the hyphen, the full stop, the digits
and some marks. -/
def partRanges : List CodeRange :=
  [(0x2D, 0x2D), (0x2E, 0x2E), (0x30, 0x39), (0xB7, 0xB7), (0x300, 0x36F), (0x203F, 0x2040)]
    ++ startRanges

/-- Whether a text is a `Name`: a `NameStartChar` and then any number of `NameChar`s. -/
def isName : Text → Bool
  | [] => false
  | c :: t => inRanges startRanges c && t.all (inRanges partRanges)

end Production

/-! ## The accepted characters as a table -/

private theorem isNameStart_eq (c : Char) :
    isNameStart c = inRanges (Unicode.alphabeticRanges ++ [(0x5F, 0x5F)]) c := by
  rw [Unicode.inRanges_append]
  exact congrArg _ (Unicode.inRanges_singleton '_' c).symm

private theorem isNamePart_eq (c : Char) :
    isNamePart c = inRanges (Unicode.alphabeticRanges ++ Unicode.numericRanges
      ++ [(0x5F, 0x5F)] ++ [(0x2D, 0x2D)] ++ [(0x2E, 0x2E)] ++ [(0x3A, 0x3A)]) c := by
  simp only [Unicode.inRanges_append]
  rw [show inRanges [(0x5F, 0x5F)] c = decide (c = '_') from Unicode.inRanges_singleton '_' c,
    show inRanges [(0x2D, 0x2D)] c = decide (c = '-') from Unicode.inRanges_singleton '-' c,
    show inRanges [(0x2E, 0x2E)] c = decide (c = '.') from Unicode.inRanges_singleton '.' c,
    show inRanges [(0x3A, 0x3A)] c = decide (c = ':') from Unicode.inRanges_singleton ':' c]
  rfl

/-! ## Strays

The strays are what is left of one table without the other. In the other direction nothing has to be
said: a name with a character of the production that is not accepted here is refused and never
written. -/

/-- The characters that a name may start with here and not by the production: ordinal indicators,
the micro sign, combining marks that count as letters, and letters in circles. -/
def strayStarts : List CodeRange :=
  [(0xAA, 0xAA), (0xB5, 0xB5), (0xBA, 0xBA), (0x345, 0x345), (0x363, 0x36F), (0x24B6, 0x24E9)]

/-- The characters that a name may go on with here and not by the production: ordinal indicators,
the micro sign, superscript digits, fractions, and letters and numbers in circles and the like. -/
def strayParts : List CodeRange :=
  [(0xAA, 0xAA), (0xB2, 0xB3), (0xB5, 0xB5), (0xB9, 0xB9), (0xBA, 0xBA), (0xBC, 0xBE),
   (0x2460, 0x249B), (0x24B6, 0x24FF), (0x2776, 0x2793)]

theorem inRanges_strayStarts (c : Char) :
    inRanges strayStarts c = (isNameStart c && !inRanges Production.startRanges c) := by
  rw [isNameStart_eq]
  exact Unicode.inRanges_eq_and_not (by decide +kernel) (by decide +kernel) (by decide +kernel) c

theorem inRanges_strayParts (c : Char) :
    inRanges strayParts c = (isNamePart c && !inRanges Production.partRanges c) := by
  rw [isNamePart_eq]
  exact Unicode.inRanges_eq_and_not (by decide +kernel) (by decide +kernel) (by decide +kernel) c

/-- Whether a text starts or goes on with a stray. -/
def hasStray : Text → Bool
  | [] => false
  | c :: t => inRanges strayStarts c || t.any (inRanges strayParts)

/-- An accepted name is one by the production unless it has a stray. -/
theorem production_isName_eq {t : Text} (h : isName t = true) :
    Production.isName t = !hasStray t := by
  cases t with
  | nil => exact absurd h (by decide)
  | cons c t =>
    obtain ⟨hstart, hparts⟩ := Bool.and_eq_true_iff.mp h
    have hc : inRanges Production.startRanges c = !inRanges strayStarts c := by
      rw [inRanges_strayStarts, hstart, Bool.true_and, Bool.not_not]
    have ht : t.all (inRanges Production.partRanges) = t.all fun d ↦ !inRanges strayParts d := by
      rw [Bool.eq_iff_iff, List.all_eq_true, List.all_eq_true]
      refine forall₂_congr fun d hd ↦ ?_
      rw [inRanges_strayParts, List.all_eq_true.mp hparts d hd, Bool.true_and, Bool.not_not]
    rw [Production.isName, hasStray, hc, ht, Bool.not_or, List.not_any_eq_all_not]

end Xml

namespace Soap

/-- The texts that are taken for names: by the check itself, as the name of an element in what is
rendered, and as a prefix in settings that can be built. -/
inductive Accepted : Text → Prop
  | checked {t : Text} (h : Xml.isName t = true) : Accepted t
  | rendered {name payload t : Text} {v : Value} (h : v.render name = .ok payload)
      (ht : t ∈ name :: v.keys) : Accepted t
  | declared {choices : List ClientSettings.Choice} {settings : ClientSettings} {b : Binding}
      (h : ClientSettings.build choices = .ok settings) (hb : b ∈ settings.bindings)
      (hlabel : b.label ≠ []) : Accepted b.label

theorem isName_of_accepted {t : Text} (h : Accepted t) : Xml.isName t = true := by
  cases h with
  | checked h => exact h
  | rendered h ht => exact Value.isName_of_render_eq_ok h t ht
  | declared h hb hlabel =>
    have husable := Bool.or_eq_true_iff.mp (ClientSettings.usableLabel_of_build_eq_ok h _ hb)
    exact husable.resolve_left (mt List.isEmpty_iff.mp hlabel)

/-- **Names and the production.** What is accepted as the name of an element or as a prefix is a
`Name` exactly if it has no stray. -/
theorem production_of_accepted {t : Text} (h : Accepted t) :
    Xml.Production.isName t = true ↔ Xml.hasStray t = false := by
  rw [Xml.production_isName_eq (isName_of_accepted h), Bool.not_eq_true']

/-- An element and a prefix with a letter outside ASCII. -/
theorem production_of_accepted_danish :
    Xml.Production.isName "år".toList = true ∧ Xml.Production.isName "bøg".toList = true := by
  have hrender := (Value.render_eq "søg".toList (.fields [("år".toList, .text "1939".toList)])).trans
    (Value.checked_of_forall_isName (by decide +kernel) _)
  have hbuild : ClientSettings.build [.binding ⟨"bøg".toList, "urn:b".toList⟩] = .ok ⟨_, _⟩ := rfl
  constructor
  · exact (production_of_accepted (.rendered hrender (by decide))).mpr (by decide +kernel)
  · exact (production_of_accepted (.declared hbuild List.mem_cons_self (by decide))).mpr
      (by decide +kernel)

/-- The feminine ordinal indicator is accepted as the name of an element and written. -/
theorem accepted_outside_production :
    Xml.isName ['ª'] = true ∧ Xml.Production.isName ['ª'] = false ∧
      Value.render ['ª'] (.text "x".toList) = .ok "<ª>x</ª>".toList :=
  ⟨by decide +kernel, by decide +kernel, rfl⟩

end Soap

end PhraseRepair
