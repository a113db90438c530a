import PhraseRepair.Proofs.Operators
import PhraseRepair.Proofs.Spans

/-!
# Keywords in any lettercase

A keyword may be compared with a text by the lower-case forms of all of Unicode: character by
character as far as both of them go, provided that the text has as many bytes as the keyword, and
what is read are then that many bytes of the text (`Lowering.keyword?`). Which characters have which
lower-case form is left open here but for what decides about ASCII characters: they are lowered as
usual, and besides them only the Kelvin sign has a single ASCII character for its lower-case form.
That one is `k`, which is in no keyword.

So characters that agree with a keyword are ASCII characters, the bytes that are read are as many
characters, and reading in this way finds the same operators as comparing letters of ASCII
(`Lowering.operator?_eq`).
-/

namespace PhraseRepair.Cql

open Text (utf8Size cut?)

/-! ## Reading by lower-case forms -/

/-- A way to write characters in lower case. -/
structure Lowering where
  /-- The lower-case form of a character, which may have more than one character. -/
  lower : Char → Text
  /-- ASCII characters have the lower-case forms of ASCII. -/
  ascii : ∀ c, c.toNat < 128 → lower c = [c.toLower]
  /-- The lower-case form of the Kelvin sign is an ASCII letter. -/
  kelvin : lower '\u212A' = ['k']
  /-- No other lower-case form is that of an ASCII character. -/
  foreign : ∀ c d, 128 ≤ c.toNat → c ≠ '\u212A' → d.toNat < 128 → lower c ≠ [d]

/-- The operators whose letters may be in upper case. -/
def keywordTags : List Text := operators.take 6

/-- The operators without letters. -/
def signTags : List Text := operators.drop 6

/-- An operator that is read as it is. -/
def sign? (tag t : Text) : Option Text := if tag.isPrefixOf t then some tag else none

namespace Lowering

variable (l : Lowering)

/-- Whether a text starts with a keyword up to the case of letters. Past the end of the shorter one
nothing is compared, but the text has to have enough bytes. -/
def startsWith (tag t : Text) : Bool :=
  ((t.zip tag).all fun p ↦ l.lower p.1 = l.lower p.2) && decide (utf8Size tag ≤ utf8Size t)

/-- A keyword at the head of a text: as many bytes as the keyword has, if these are whole
characters. -/
def keyword? (tag t : Text) : Option Text :=
  if l.startsWith tag t then (cut? (utf8Size tag) t).map Prod.fst else none

/-- The operator at the head of a text. -/
def operator? (t : Text) : Option Text :=
  (keywordTags.findSome? (l.keyword? · t)).or (signTags.findSome? (sign? · t))

end Lowering

/-! ## The letters of keywords

The keywords are lower-case ASCII without the letter `k`, so that each of their letters is the
lower-case form of itself and of one upper-case letter, and of nothing else in Unicode. From this
everything follows letter by letter. -/

/-- The ASCII characters that are in lower case, if they have a case, but for `k`. -/
def isTagLetter (d : Char) : Bool := decide (d.toNat < 128) && d.toLower = d && d ≠ 'k'

private theorem all_isTagLetter : ∀ tag ∈ keywordTags, tag.all isTagLetter = true := by
  decide +kernel

private theorem toNat_lt_of_isTagLetter {d : Char} (h : isTagLetter d = true) : d.toNat < 128 := by
  simp only [isTagLetter, Bool.and_eq_true, decide_eq_true_eq] at h
  exact h.1.1

private theorem toNat_lt_of_toLower_lt {c : Char} (h : c.toLower.toNat < 128) : c.toNat < 128 := by
  by_cases hc : c.val ≥ 'A'.val ∧ c.val ≤ 'Z'.val
  · have hZ := UInt32.le_iff_toNat_le.mp hc.2
    exact Nat.lt_of_le_of_lt hZ (by decide)
  · rwa [show c.toLower = c from dif_neg hc] at h

private theorem utf8Size_eq_one {c : Char} (h : c.toNat < 128) : c.utf8Size = 1 := by
  rw [Char.utf8Size_eq_one_iff, UInt32.le_iff_toNat_le]
  exact Nat.le_of_lt_succ h

private theorem utf8Size_eq_length {t : Text} (h : ∀ c ∈ t, c.toNat < 128) :
    utf8Size t = t.length := by
  induction t with
  | nil => rfl
  | cons c t ih =>
    obtain ⟨hc, ht⟩ := List.forall_mem_cons.mp h
    rw [Text.utf8Size_cons, utf8Size_eq_one hc, ih ht, List.length_cons, Nat.add_comm]

namespace Lowering

variable (l : Lowering)

/-- With a character of a keyword, only its upper-case and lower-case letter agree. -/
theorem lower_eq_iff {c d : Char} (hd : isTagLetter d = true) :
    l.lower c = l.lower d ↔ c.toLower = d := by
  simp only [isTagLetter, Bool.and_eq_true, decide_eq_true_eq] at hd
  obtain ⟨⟨hascii, hlower⟩, hk⟩ := hd
  rw [l.ascii d hascii, hlower]
  constructor
  · intro h
    by_cases hc : c.toNat < 128
    · rw [l.ascii c hc] at h
      exact (List.cons.inj h).1
    · -- Outside ASCII only the Kelvin sign could agree, but its `k` is in no keyword.
      by_cases hkelvin : c = '\u212A'
      · rw [hkelvin, l.kelvin] at h
        exact absurd (List.cons.inj h).1.symm hk
      · exact absurd h (l.foreign c d (Nat.le_of_not_lt hc) hkelvin hascii)
  · rintro rfl
    rw [l.ascii c (toNat_lt_of_toLower_lt hascii)]

theorem startsWith_iff {tag : Text} (htag : tag.all isTagLetter = true) (t : Text) :
    l.startsWith tag t = true ↔ (t.take tag.length).map Char.toLower = tag := by
  induction tag generalizing t with
  | nil => simp [startsWith]
  | cons d tag ih =>
    obtain ⟨hd, htag⟩ := Bool.and_eq_true_iff.mp htag
    have hascii := toNat_lt_of_isTagLetter hd
    cases t with
    | nil =>
      have hpos := d.utf8Size_pos
      refine iff_of_false ?_ (by simp)
      rw [startsWith, Bool.and_eq_true, decide_eq_true_eq, Text.utf8Size_cons, Text.utf8Size_nil]
      omega
    | cons c t =>
      have ih := ih htag t
      simp only [startsWith, Bool.and_eq_true, decide_eq_true_eq, List.zip_cons_cons,
        List.all_cons] at ih ⊢
      rw [l.lower_eq_iff hd, List.length_cons, List.take_succ_cons, List.map_cons,
        List.cons.injEq, ← ih, and_assoc]
      -- Two characters that agree have one byte each, so the bytes behind them decide.
      refine and_congr_right fun hc ↦ and_congr_right fun _ ↦ ?_
      have hsize : c.utf8Size = d.utf8Size := by
        rw [utf8Size_eq_one hascii, utf8Size_eq_one (toNat_lt_of_toLower_lt (hc ▸ hascii))]
      rw [Text.utf8Size_cons, Text.utf8Size_cons, hsize, Nat.add_le_add_iff_left]

/-- As many bytes as the keyword has are as many characters. -/
theorem cut?_of_startsWith {tag : Text} (htag : tag.all isTagLetter = true) {t : Text}
    (h : l.startsWith tag t = true) :
    cut? (utf8Size tag) t = some (t.take tag.length, t.drop tag.length) := by
  have hlower := (l.startsWith_iff htag t).mp h
  have htagAscii : ∀ d ∈ tag, d.toNat < 128 := fun d hd ↦
    toNat_lt_of_isTagLetter (List.all_eq_true.mp htag d hd)
  have hascii : ∀ c ∈ t.take tag.length, c.toNat < 128 := by
    intro c hc
    refine toNat_lt_of_toLower_lt (htagAscii _ ?_)
    rw [← hlower]
    exact List.mem_map_of_mem hc
  have hlength : (t.take tag.length).length = tag.length := by
    rw [← List.length_map Char.toLower, hlower]
  have hsize : utf8Size tag = utf8Size (t.take tag.length) := by
    rw [utf8Size_eq_length hascii, hlength, utf8Size_eq_length htagAscii]
  have hcut := Text.cut?_append (t.take tag.length) (t.drop tag.length)
  rwa [← hsize, List.take_append_drop] at hcut

theorem keyword?_eq {tag : Text} (htag : tag.all isTagLetter = true) (t : Text) :
    l.keyword? tag t = spelling? tag t := by
  rw [keyword?, spelling?]
  by_cases h : l.startsWith tag t = true
  · rw [if_pos h, if_pos ((l.startsWith_iff htag t).mp h), l.cut?_of_startsWith htag h]
    rfl
  · rw [if_neg h, if_neg (mt (l.startsWith_iff htag t).mpr h)]

end Lowering

private theorem of_mem_signTags : ∀ tag ∈ signTags,
    tag.length = 1 ∧ (tag.all fun c ↦ c.toLower = c && !c.isLower) = true := by
  decide

private theorem sign?_eq {tag : Text} (htag : tag ∈ signTags) (t : Text) :
    sign? tag t = spelling? tag t := by
  obtain ⟨hlength, hcase⟩ := of_mem_signTags tag htag
  obtain ⟨c, rfl⟩ := List.length_eq_one_iff.mp hlength
  have hcase := List.all_eq_true.mp hcase c List.mem_cons_self
  rw [Bool.and_eq_true, decide_eq_true_eq, Bool.not_eq_true'] at hcase
  obtain ⟨hc, hlower⟩ := hcase
  cases t with
  | nil => rfl
  | cons d t =>
    by_cases hd : c = d
    · subst hd
      simp [sign?, spelling?, hc]
    · have hne : d.toLower ≠ c := fun h ↦ hd (eq_of_toLower_eq h hlower).symm
      simp [sign?, spelling?, hd, hne]

private theorem findSome?_congr {α β : Type} {f g : α → Option β} {xs : List α}
    (h : ∀ x ∈ xs, f x = g x) : xs.findSome? f = xs.findSome? g := by
  induction xs with
  | nil => rfl
  | cons x xs ih =>
    obtain ⟨hx, hxs⟩ := List.forall_mem_cons.mp h
    rw [List.findSome?_cons, List.findSome?_cons, hx, ih hxs]

/-- **Any lettercase.** Reading keywords by the lower-case forms of Unicode finds the operators that
reading them by those of ASCII finds. -/
theorem Lowering.operator?_eq (l : Lowering) (t : Text) : l.operator? t = Cql.operator? t := by
  have hkeywords : keywordTags.findSome? (l.keyword? · t) = keywordTags.findSome? (spelling? · t) :=
    findSome?_congr fun tag htag ↦ l.keyword?_eq (all_isTagLetter tag htag) t
  have hsigns : signTags.findSome? (sign? · t) = signTags.findSome? (spelling? · t) :=
    findSome?_congr fun tag htag ↦ sign?_eq htag t
  rw [Lowering.operator?, hkeywords, hsigns, ← List.findSome?_append, keywordTags, signTags,
    List.take_append_drop]
  rfl

/-- A keyword that agrees with a text ends between two of its characters. -/
theorem Lowering.isSome_cut?_of_startsWith (l : Lowering) {tag t : Text} (htag : tag ∈ keywordTags)
    (h : l.startsWith tag t = true) : (cut? (utf8Size tag) t).isSome = true := by
  rw [l.cut?_of_startsWith (all_isTagLetter tag htag) h]
  rfl

/-- The lower-case forms of ASCII, and of the two other characters whose lower-case form begins with
an ASCII character. -/
def Lowering.basic : Lowering where
  lower c := if c = '\u212A' then ['k'] else if c = '\u0130' then ['i', '\u0307'] else [c.toLower]
  ascii c hc := by
    rw [if_neg, if_neg]
    · rintro rfl
      exact absurd hc (by decide)
    · rintro rfl
      exact absurd hc (by decide)
  kelvin := rfl
  foreign c d hc hkelvin hd h := by
    rw [if_neg hkelvin] at h
    split at h
    · exact absurd h (by simp)
    · have hlower : c.toLower = d := (List.cons.inj h).1
      have hlt := toNat_lt_of_toLower_lt (hlower ▸ hd)
      omega

end PhraseRepair.Cql
