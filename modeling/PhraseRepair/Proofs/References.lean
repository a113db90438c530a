import PhraseRepair.Proofs.Reading

/-!
# References in escaped text

Every ampersand in an escaped text begins a reference (`onlyReferences_escape`), and escaping itself
writes only references that need no declaration (`escapeChar_eq_or_exists`). A reference that the
text spells on its own is kept for its form. So the references of an escaped text that need a
declaration are those that the text spells, one by one (`undeclared_escape`). Nor is there anything
left in an escaped text that would be escaped again (`escape_escape`).

## How proofs go through a text

A reference is recognised by looking ahead to the next semicolon, so a proof that takes one
character after the other would have to remember in which reference it is. Instead a text is cut
where its references begin and end (`reference_induction`). No reference begins inside another one,
since the characters of a body have no other part in a reference (`isBodyPart`). What a character
that begins no reference is escaped to is again a reference or has no ampersand, and so the pieces
of a text and of its escaped form correspond (`escape_induction`).
-/

namespace PhraseRepair

namespace Xml

/-! ## The form of a reference -/

/-- A reference as it is written. -/
def reference (body : Text) : Text := '&' :: body ++ [';']

/-- Whether a text has the form of what stands between the ampersand and the semicolon of a
reference that needs no declaration: a hexadecimal number behind a small `x`, a decimal number, or
one of the predefined names. -/
def isStandardBody : Text → Bool
  | '#' :: 'x' :: digits => !digits.isEmpty && digits.all isHexDigit
  | '#' :: digits => !digits.isEmpty && digits.all Char.isDigit
  | name => ["amp", "lt", "gt", "quot", "apos"].any (·.toList = name)

/-- Whether the text behind an ampersand completes a reference with a body of the given kind. -/
def completes (isBody : Text → Bool) (t : Text) : Bool :=
  t.contains ';' && isBody (t.takeWhile (· ≠ ';'))

theorem completesReference_eq (t : Text) :
    completesReference t = completes isReferenceBody t := rfl

theorem reference_append (body t : Text) : reference body ++ t = '&' :: (body ++ ';' :: t) := by
  rw [reference, List.append_assoc]
  rfl

theorem takeWhile_append_cons {body : Text} (h : ';' ∉ body) (t : Text) :
    (body ++ ';' :: t).takeWhile (· ≠ ';') = body := by
  rw [List.takeWhile_append_of_pos fun c hc ↦ by simpa using fun heq : c = ';' ↦ h (heq ▸ hc),
    List.takeWhile_cons_of_neg (by decide), List.append_nil]

theorem completes_append_cons (isBody : Text → Bool) {body : Text} (h : ';' ∉ body) (t : Text) :
    completes isBody (body ++ ';' :: t) = isBody body := by
  rw [completes, takeWhile_append_cons h, List.contains_iff_mem.mpr (by simp), Bool.true_and]

theorem mem_of_completes {isBody : Text → Bool} {t : Text} (h : completes isBody t = true) :
    ';' ∈ t :=
  List.contains_iff_mem.mp ((Bool.and_eq_true _ _).mp h).1

/-- What completes a reference is its body with a semicolon and anything behind it. -/
theorem exists_of_completes {isBody : Text → Bool} {t : Text} (h : completes isBody t = true) :
    ∃ body rest, t = body ++ ';' :: rest ∧ ';' ∉ body ∧ isBody body = true := by
  obtain ⟨body, rest, rfl, hbody⟩ := List.eq_append_cons_of_mem (mem_of_completes h)
  exact ⟨body, rest, rfl, hbody, (completes_append_cons isBody hbody rest).symm.trans h⟩

/-! ## Bodies -/

/-- Whether a character can stand in the body of a reference. -/
def isBodyPart (c : Char) : Bool := c = '#' || c.isAlphanum || isHexDigit c

/-- A body is made of a number sign, letters and digits. -/
theorem isBodyPart_of_isReferenceBody {body : Text} (h : isReferenceBody body = true) :
    ∀ c ∈ body, isBodyPart c = true := by
  have hdigits : ∀ {p : Char → Bool} {digits : Text}, (∀ c, p c = true → isBodyPart c = true) →
      (!digits.isEmpty && digits.all p) = true → ∀ c ∈ digits, isBodyPart c = true :=
    fun hp h c hc ↦ hp c (List.all_eq_true.mp ((Bool.and_eq_true _ _).mp h).2 c hc)
  unfold isReferenceBody at h
  split at h
  · exact List.forall_mem_cons.mpr ⟨rfl, List.forall_mem_cons.mpr
      ⟨rfl, hdigits (fun c hc ↦ by simp [isBodyPart, hc]) h⟩⟩
  · exact List.forall_mem_cons.mpr ⟨rfl, List.forall_mem_cons.mpr
      ⟨rfl, hdigits (fun c hc ↦ by simp [isBodyPart, hc]) h⟩⟩
  · exact List.forall_mem_cons.mpr
      ⟨rfl, hdigits (fun c hc ↦ by simp [isBodyPart, Char.isAlphanum, hc]) h⟩
  · exact hdigits (fun c hc ↦ by simp [isBodyPart, hc]) h

theorem notMem_of_isReferenceBody {body : Text} (h : isReferenceBody body = true) {c : Char}
    (hc : isBodyPart c = false) : c ∉ body := fun hmem ↦
  Bool.false_ne_true (hc.symm.trans (isBodyPart_of_isReferenceBody h c hmem))

/-- A reference that needs no declaration has the form of one. -/
theorem isReferenceBody_of_isStandardBody {body : Text} (h : isStandardBody body = true) :
    isReferenceBody body = true := by
  unfold isStandardBody at h
  split at h
  · exact h
  · next digits hx =>
    rw [isReferenceBody]
    · exact h
    · rintro digits' rfl
      exact absurd h (by simp)
    · rintro digits' rfl
      exact absurd h (by simp [Char.isDigit])
  · obtain ⟨name, hname, heq⟩ := List.any_eq_true.mp h
    have hall : ["amp", "lt", "gt", "quot", "apos"].all (isReferenceBody ·.toList) := by decide
    exact of_decide_eq_true heq ▸ List.all_eq_true.mp hall name hname

/-- A body with a semicolon behind it completes a reference of its own kind. -/
theorem completes_of_isReferenceBody {body : Text} (h : isReferenceBody body = true)
    (isBody : Text → Bool) (t : Text) : completes isBody (body ++ ';' :: t) = isBody body :=
  completes_append_cons isBody (notMem_of_isReferenceBody h (by decide)) t

/-! ## Cutting a text at its references -/

/-- **Induction along the references of a text.** A text is empty, or it starts with a reference, or
with a character that begins none. -/
@[elab_as_elim]
theorem reference_induction {motive : Text → Prop} (nil : motive [])
    (reference : ∀ body t, isReferenceBody body = true → motive t → motive (reference body ++ t))
    (char : ∀ c t, (c = '&' → completesReference t = false) → motive t → motive (c :: t))
    (t : Text) : motive t := by
  induction hn : t.length using Nat.strongRecOn generalizing t with
  | ind n ih =>
    cases t with
    | nil => exact nil
    | cons c t =>
      by_cases h : c = '&' ∧ completesReference t = true
      · obtain ⟨rfl, hcompletes⟩ := h
        obtain ⟨body, rest, rfl, -, hbody⟩ := exists_of_completes hcompletes
        rw [← reference_append]
        refine reference body rest hbody (ih rest.length ?_ rest rfl)
        rw [← hn, List.length_cons, List.length_append, List.length_cons]
        omega
      · refine char c t (fun hc ↦ ?_) (ih t.length (by rw [← hn]; exact Nat.lt_succ_self _) t rfl)
        exact Bool.eq_false_iff.mpr fun hcompletes ↦ h ⟨hc, hcompletes⟩

/-! ## The references of a text

A text spells a reference where one begins at an ampersand. The list of their bodies says which they
are, how often each of them is spelled, and in which order. Which of them need a declaration is told
from the bodies alone. -/

/-- The bodies of the references that a text spells, in order. -/
def references : Text → List Text
  | [] => []
  | c :: t =>
    if c = '&' ∧ completesReference t = true then t.takeWhile (· ≠ ';') :: references t
    else references t

/-- The bodies of the references in a text that need a declaration, in order. -/
def undeclared (t : Text) : List Text := (references t).filter (! isStandardBody ·)

theorem references_cons {c : Char} {t : Text} (h : c = '&' → completesReference t = false) :
    references (c :: t) = references t :=
  if_neg fun hc ↦ Bool.false_ne_true ((h hc.1).symm.trans hc.2)

theorem references_cons_of_ne {c : Char} (h : c ≠ '&') (t : Text) :
    references (c :: t) = references t :=
  references_cons fun heq ↦ absurd heq h

theorem references_append_of_notMem {s : Text} (h : '&' ∉ s) (t : Text) :
    references (s ++ t) = references t := by
  induction s with
  | nil => rfl
  | cons c s ih =>
    obtain ⟨hc, hs⟩ := List.ne_and_not_mem_of_not_mem_cons h
    rw [List.cons_append, references_cons_of_ne hc.symm, ih hs]

theorem references_reference_append {body : Text} (h : isReferenceBody body = true) (t : Text) :
    references (reference body ++ t) = body :: references t := by
  have hsemicolon : ';' ∉ body := notMem_of_isReferenceBody h (by decide)
  have hampersand : '&' ∉ body ++ [';'] :=
    List.not_mem_append (notMem_of_isReferenceBody h (by decide)) (by decide)
  have hcompletes := completes_of_isReferenceBody h isReferenceBody t
  rw [reference_append, references, completesReference_eq, hcompletes,
    if_pos ⟨rfl, h⟩, takeWhile_append_cons hsemicolon, List.append_cons,
    references_append_of_notMem hampersand]

theorem undeclared_cons {c : Char} {t : Text} (h : c = '&' → completesReference t = false) :
    undeclared (c :: t) = undeclared t := by
  rw [undeclared, references_cons h, ← undeclared]

theorem undeclared_cons_of_ne {c : Char} (h : c ≠ '&') (t : Text) :
    undeclared (c :: t) = undeclared t :=
  undeclared_cons fun heq ↦ absurd heq h

theorem undeclared_reference_append {body : Text} (h : isReferenceBody body = true) (t : Text) :
    undeclared (reference body ++ t)
      = [body].filter (! isStandardBody ·) ++ undeclared t := by
  rw [undeclared, references_reference_append h, ← List.singleton_append, List.filter_append,
    ← undeclared]

theorem references_suffix {s t : Text} (h : s <:+ t) : references s <:+ references t := by
  induction t with
  | nil =>
    obtain rfl := List.suffix_nil.mp h
    exact List.suffix_rfl
  | cons c t ih =>
    rcases List.suffix_cons_iff.mp h with rfl | h
    · exact List.suffix_rfl
    · refine (ih h).trans ?_
      rw [references]
      split
      · exact List.suffix_cons _ _
      · exact List.suffix_rfl

theorem mem_references_iff {body t : Text} :
    body ∈ references t ↔ isReferenceBody body = true ∧ reference body <:+: t := by
  constructor
  · intro h
    induction t using reference_induction with
    | nil => exact absurd h List.not_mem_nil
    | reference first t hfirst ih =>
      rw [references_reference_append hfirst] at h
      rcases List.mem_cons.mp h with rfl | h
      · exact ⟨hfirst, (List.prefix_append _ t).isInfix⟩
      · exact ⟨(ih h).1, (ih h).2.trans (List.suffix_append _ t).isInfix⟩
    | char c t hc ih =>
      rw [references_cons hc] at h
      exact ⟨(ih h).1, (ih h).2.trans (List.suffix_cons c t).isInfix⟩
  · rintro ⟨hbody, before, behind, rfl⟩
    rw [List.append_assoc]
    refine (references_suffix (List.suffix_append before _)).subset ?_
    rw [references_reference_append hbody]
    exact List.mem_cons_self

/-! ## What follows the ampersands of a text -/

/-- What follows any ampersand of a text is as given. -/
def AfterAmpersands (P : Text → Prop) (t : Text) : Prop := ∀ rest, '&' :: rest <:+ t → P rest

section AfterAmpersands

variable {P : Text → Prop}

theorem afterAmpersands_nil : AfterAmpersands P [] :=
  fun rest h ↦ absurd (List.suffix_nil.mp h) (List.cons_ne_nil '&' rest)

theorem afterAmpersands_cons {c : Char} {t : Text} :
    AfterAmpersands P (c :: t) ↔ (c = '&' → P t) ∧ AfterAmpersands P t := by
  constructor
  · intro h
    refine ⟨?_, fun rest hrest ↦ h rest (hrest.trans (List.suffix_cons c t))⟩
    rintro rfl
    exact h t (List.suffix_refl _)
  · rintro ⟨hc, ht⟩ rest hrest
    rcases List.suffix_cons_iff.mp hrest with heq | hrest
    · obtain ⟨rfl, rfl⟩ := List.cons.inj heq
      exact hc rfl
    · exact ht rest hrest

instance decidableAfterAmpersands [DecidablePred P] : DecidablePred (AfterAmpersands P)
  | [] => .isTrue afterAmpersands_nil
  | _ :: t =>
    have := decidableAfterAmpersands t
    decidable_of_iff' _ afterAmpersands_cons

theorem afterAmpersands_append_of_notMem {s : Text} (h : '&' ∉ s) (t : Text) :
    AfterAmpersands P (s ++ t) ↔ AfterAmpersands P t := by
  induction s with
  | nil => rfl
  | cons c s ih =>
    obtain ⟨hc, hs⟩ := List.ne_and_not_mem_of_not_mem_cons h
    rw [List.cons_append, afterAmpersands_cons, ih hs]
    exact and_iff_right fun heq ↦ absurd heq.symm hc

/-- The only ampersand of a reference is the one that it begins with. -/
theorem afterAmpersands_reference_append {body : Text} (h : isReferenceBody body = true)
    (t : Text) :
    AfterAmpersands P (reference body ++ t) ↔ P (body ++ ';' :: t) ∧ AfterAmpersands P t := by
  have hnone : '&' ∉ body ++ [';'] :=
    List.not_mem_append (notMem_of_isReferenceBody h (by decide)) (by decide)
  have hrest : AfterAmpersands P (body ++ ';' :: t) ↔ AfterAmpersands P t := by
    rw [List.append_cons, afterAmpersands_append_of_notMem hnone]
  rw [reference_append, afterAmpersands_cons, forall_prop_of_true rfl, hrest]

end AfterAmpersands

/-- Every ampersand of a text begins a reference with a body of the given kind. -/
def OnlyReferences (isBody : Text → Bool) : Text → Prop :=
  AfterAmpersands (completes isBody · = true)

/-- Every ampersand of a text begins a reference that needs no declaration, or one with a body among
the given ones. -/
def StandardBut (bodies : List Text) : Text → Prop :=
  AfterAmpersands fun rest ↦ ∃ body behind, rest = body ++ ';' :: behind ∧
    (isStandardBody body = true ∨ body ∈ bodies)

instance (isBody : Text → Bool) : DecidablePred (OnlyReferences isBody) :=
  inferInstanceAs (DecidablePred (AfterAmpersands _))

theorem onlyReferences_nil {isBody : Text → Bool} : OnlyReferences isBody [] := afterAmpersands_nil

theorem OnlyReferences.cons {isBody : Text → Bool} {c : Char} {t : Text} (hc : c ≠ '&')
    (h : OnlyReferences isBody t) : OnlyReferences isBody (c :: t) :=
  afterAmpersands_cons.mpr ⟨fun heq ↦ absurd heq hc, h⟩

theorem OnlyReferences.reference_append {body t : Text} (hbody : isReferenceBody body = true)
    (h : OnlyReferences isReferenceBody t) :
    OnlyReferences isReferenceBody (reference body ++ t) :=
  (afterAmpersands_reference_append hbody t).mpr
    ⟨(completes_of_isReferenceBody hbody isReferenceBody t).trans hbody, h⟩

/-- **Induction along a text of references.** In a text every ampersand of which begins a reference,
no other character is an ampersand. -/
@[elab_as_elim]
theorem OnlyReferences.induction {motive : (t : Text) → OnlyReferences isReferenceBody t → Prop}
    (nil : motive [] onlyReferences_nil)
    (reference : ∀ body t (hbody : isReferenceBody body = true)
      (ht : OnlyReferences isReferenceBody t), motive t ht →
        motive (reference body ++ t) (ht.reference_append hbody))
    (char : ∀ c t (hc : c ≠ '&') (ht : OnlyReferences isReferenceBody t), motive t ht →
      motive (c :: t) (ht.cons hc))
    {t : Text} (h : OnlyReferences isReferenceBody t) : motive t h := by
  induction t using reference_induction with
  | nil => exact nil
  | reference body t hbody ih =>
    exact reference body t hbody _ (ih ((afterAmpersands_reference_append hbody t).mp h).2)
  | char c t hc ih =>
    obtain ⟨hcompletes, ht⟩ := afterAmpersands_cons.mp h
    refine char c t (fun heq ↦ ?_) ht (ih ht)
    exact Bool.false_ne_true ((hc heq).symm.trans (hcompletes heq))

theorem OnlyReferences.append {s t : Text} (hs : OnlyReferences isReferenceBody s)
    (ht : OnlyReferences isReferenceBody t) : OnlyReferences isReferenceBody (s ++ t) := by
  induction hs using OnlyReferences.induction with
  | nil => exact ht
  | reference body s hbody _ ih =>
    rw [List.append_assoc]
    exact ih.reference_append hbody
  | char c s hc _ ih => exact ih.cons hc

/-- A text without open references spells its references whatever stands behind it. -/
theorem undeclared_append {s : Text} (hs : OnlyReferences isReferenceBody s) (t : Text) :
    undeclared (s ++ t) = undeclared s ++ undeclared t := by
  induction hs using OnlyReferences.induction with
  | nil => rfl
  | reference body s hbody _ ih =>
    rw [List.append_assoc, undeclared_reference_append hbody, undeclared_reference_append hbody,
      ih, List.append_assoc]
  | char c s hc _ ih =>
    rw [List.cons_append, undeclared_cons_of_ne hc, undeclared_cons_of_ne hc, ih]

theorem OnlyReferences.standardBut {s : Text} {bodies : List Text}
    (hs : OnlyReferences isReferenceBody s) (h : ∀ body ∈ undeclared s, body ∈ bodies) :
    StandardBut bodies s := by
  intro rest hrest
  obtain ⟨body, behind, rfl, -, hbody⟩ := exists_of_completes (hs rest hrest)
  refine ⟨body, behind, rfl, ?_⟩
  cases hstandard : isStandardBody body with
  | true => exact Or.inl rfl
  | false =>
    rw [← Xml.reference_append] at hrest
    have hmem := mem_references_iff.mpr ⟨hbody, (List.prefix_append _ _).isInfix.trans hrest.isInfix⟩
    exact Or.inr (h body (List.mem_filter.mpr ⟨hmem, by rw [hstandard]; rfl⟩))

/-- Every ampersand begins a reference that needs no declaration exactly if none is spelled that
needs one. -/
theorem onlyReferences_isStandardBody_iff {s : Text} (hs : OnlyReferences isReferenceBody s) :
    OnlyReferences isStandardBody s ↔ undeclared s = [] := by
  induction hs using OnlyReferences.induction with
  | nil => exact iff_of_true onlyReferences_nil rfl
  | reference body s hbody _ ih =>
    rw [undeclared_reference_append hbody, List.append_eq_nil_iff, ← ih]
    refine (afterAmpersands_reference_append hbody s).trans (and_congr ?_ Iff.rfl)
    rw [completes_of_isReferenceBody hbody]
    simp
  | char c s hc _ ih =>
    rw [undeclared_cons_of_ne hc, ← ih]
    exact afterAmpersands_cons.trans (and_iff_right fun heq ↦ absurd heq hc)

/-! ## Escaping -/

/-- The bodies of the references that escaping writes, by the characters that they stand for. -/
def characterReferences : List (Char × Text) :=
  [('&', "amp".toList), ('<', "lt".toList), ('>', "gt".toList), ('"', "quot".toList),
    ('\'', "#039".toList)]

theorem isStandardBody_of_mem_characterReferences {c : Char} {body : Text}
    (h : (c, body) ∈ characterReferences) : isStandardBody body = true := by
  have hall : characterReferences.all (isStandardBody ·.2) := by decide
  exact List.all_eq_true.mp hall _ h

/-- A character that begins no reference is written as it is or as the reference that stands for
it. -/
theorem escapeChar_eq_or_exists {c : Char} {rest : Text}
    (h : c = '&' → completesReference rest = false) :
    (c ≠ '&' ∧ escapeChar c rest = [c]) ∨
      ∃ body, (c, body) ∈ characterReferences ∧ escapeChar c rest = reference body := by
  unfold escapeChar
  repeat' split
  · next heq hcompletes => exact absurd hcompletes (Bool.eq_false_iff.mp (h heq))
  · next heq _ => exact Or.inr ⟨"amp".toList, heq ▸ by decide, rfl⟩
  · next heq => exact Or.inr ⟨"lt".toList, heq ▸ by decide, rfl⟩
  · next heq => exact Or.inr ⟨"gt".toList, heq ▸ by decide, rfl⟩
  · next heq => exact Or.inr ⟨"quot".toList, heq ▸ by decide, rfl⟩
  · next heq => exact Or.inr ⟨"#039".toList, heq ▸ by decide, rfl⟩
  · next hne _ _ _ _ => exact Or.inl ⟨hne, rfl⟩

/-- A reference that a text spells is kept. -/
theorem escape_reference_append {body : Text} (h : isReferenceBody body = true) (t : Text) :
    escape (reference body ++ t) = reference body ++ escape t := by
  have hplain : isPlain (body ++ [';']) = true := by
    rw [isPlain, Bool.not_eq_true', List.any_eq_false]
    intro c hc hmarkup
    have hpart : isBodyPart c = false ∧ c ≠ ';' := by
      simp only [isMarkup, Bool.or_eq_true, decide_eq_true_eq] at hmarkup
      rcases hmarkup with (((rfl | rfl) | rfl) | rfl) | rfl <;> decide
    rcases List.mem_append.mp hc with hc | hc
    · exact notMem_of_isReferenceBody h hpart.1 hc
    · exact hpart.2 (List.mem_singleton.mp hc)
  have hcompletes := completes_of_isReferenceBody h isReferenceBody t
  rw [reference_append, escape, escapeChar, if_pos rfl, completesReference_eq, hcompletes,
    if_pos h, List.append_cons, escape_append_of_isPlain hplain]
  rfl

/-- **Induction along an escaped text.** A reference and a character without a meaning are written
as they are, and any other character as the reference that stands for it. -/
theorem escape_induction {motive : Text → Text → Prop} (nil : motive [] [])
    (reference : ∀ body t, isReferenceBody body = true → motive t (escape t) →
      motive (reference body ++ t) (reference body ++ escape t))
    (char : ∀ c t, c ≠ '&' → motive t (escape t) → motive (c :: t) (c :: escape t))
    (replaced : ∀ c body t, (c, body) ∈ characterReferences →
      (c = '&' → completesReference t = false) → motive t (escape t) →
      motive (c :: t) (Xml.reference body ++ escape t))
    (t : Text) : motive t (escape t) := by
  induction t using reference_induction with
  | nil => exact nil
  | reference body t hbody ih =>
    rw [escape_reference_append hbody]
    exact reference body t hbody ih
  | char c t hc ih =>
    rw [escape]
    rcases escapeChar_eq_or_exists hc with ⟨hne, hwritten⟩ | ⟨body, hmem, hwritten⟩
    · rw [hwritten]
      exact char c t hne ih
    · rw [hwritten]
      exact replaced c body t hmem hc ih

theorem isReferenceBody_of_mem_characterReferences {c : Char} {body : Text}
    (h : (c, body) ∈ characterReferences) : isReferenceBody body = true :=
  isReferenceBody_of_isStandardBody (isStandardBody_of_mem_characterReferences h)

/-- Every ampersand of an escaped text begins a reference. -/
theorem onlyReferences_escape (t : Text) : OnlyReferences isReferenceBody (escape t) := by
  refine escape_induction (motive := fun _ e ↦ OnlyReferences isReferenceBody e)
    onlyReferences_nil ?_ ?_ ?_ t
  · exact fun body t hbody ih ↦ ih.reference_append hbody
  · exact fun c t hc ih ↦ ih.cons hc
  · exact fun c body t hmem _ ih ↦
      ih.reference_append (isReferenceBody_of_mem_characterReferences hmem)

/-- **References that need a declaration.** Escaping keeps those that the text spells and adds
none. -/
theorem undeclared_escape (t : Text) : undeclared (escape t) = undeclared t := by
  refine escape_induction (motive := fun t e ↦ undeclared e = undeclared t) rfl ?_ ?_ ?_ t
  · intro body t hbody ih
    rw [undeclared_reference_append hbody, undeclared_reference_append hbody, ih]
  · intro c t hc ih
    rw [undeclared_cons_of_ne hc, undeclared_cons_of_ne hc, ih]
  · -- The text spells no reference here, and the one that is written needs no declaration.
    intro c body t hmem hc ih
    have hstandard := isStandardBody_of_mem_characterReferences hmem
    rw [undeclared_reference_append (isReferenceBody_of_isStandardBody hstandard),
      List.filter_cons_of_neg (by simp [hstandard]), List.filter_nil, List.nil_append, ih,
      undeclared_cons hc]

/-- Escaping leaves alone the texts without delimiters in which every ampersand begins a reference,
and no others. -/
theorem escape_eq_self_iff {t : Text} :
    escape t = t ↔ (∀ c ∈ ['<', '>', '"', '\''], c ∉ t) ∧ OnlyReferences isReferenceBody t := by
  constructor
  · intro h
    rw [← h]
    exact ⟨fun _ hc ↦ notMem_escape hc t, onlyReferences_escape t⟩
  · rintro ⟨hnone, honly⟩
    induction t with
    | nil => rfl
    | cons c t ih =>
      obtain ⟨hc, ht⟩ := afterAmpersands_cons.mp honly
      have hwritten : escapeChar c t = [c] := by
        by_cases heq : c = '&'
        · rw [escapeChar, if_pos heq, completesReference_eq, if_pos (hc heq), heq]
        · have hne : ∀ d ∈ ['<', '>', '"', '\''], c ≠ d := fun d hd ↦
            (List.ne_of_not_mem_cons (hnone d hd)).symm
          simp only [List.forall_mem_cons] at hne
          simp [escapeChar, heq, hne]
      rw [escape, hwritten, ih (fun d hd ↦ List.not_mem_of_not_mem_cons (hnone d hd)) ht]
      rfl

/-- **Escaping twice is escaping once.** What has been escaped has no delimiters left, and its
ampersands begin the references that the text spelled or that escaping wrote. So there is nothing in
it that would be escaped again. -/
theorem escape_escape (t : Text) : escape (escape t) = escape t :=
  escape_eq_self_iff.mpr ⟨fun _ hc ↦ notMem_escape hc t, onlyReferences_escape t⟩

/-- The semicolon that an apostrophe brings in completes no reference for the ampersand before
it. -/
example : escape "&a'b;".toList = "&amp;a&#039;b;".toList := by decide

end Xml

end PhraseRepair
