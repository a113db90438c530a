import PhraseRepair.Proofs.Veiled
import PhraseRepair.Settings
import PhraseRepair.Table

/-!
# Keys in context

A key opens with a sentinel and goes on with letters, digits and the other sentinel, none of which
has a meaning in a query. The closing sentinel ends the digits, so the number can be read off the
beginning of any text that starts with a key. Where all other characters in sight are no sentinels,
a key therefore occurs exactly where it was written, whatever stands around it.

Main statements: `fill_eq_append_iff` finds the occurrences of a key in a veiled phrase filled with
keys, `replaceAll_fill` says what replacing it does, and `eq_of_fill_text_eq` reads the phrase back.
-/

namespace PhraseRepair

/-! ## Characters without a meaning -/

/-- A character that is neither a blank nor a quote nor part of an operator sign. -/
def Cql.isInert (c : Char) : Bool :=
  !(Text.isBlank c || c = '"' || c = '(' || c = ')' || c = '=')

/-- A text that can stand for a hidden fragment unnoticed: a sentinel, followed by characters
without a meaning of their own. -/
def IsVeil (x : Text) : Prop :=
  ∃ rest, x = Placeholder.opening :: rest ∧ ∀ c ∈ rest, Cql.isInert c = true

namespace Placeholder

theorem isInert_opening : Cql.isInert opening = true := by decide

theorem isVeil_opening : IsVeil [opening] := ⟨[], rfl, by simp⟩

/-- The characters that are not inert, one by one. -/
private def meaningful : Text := [' ', '\t', '\n', '\x0c', '\x0d', '"', '(', ')', '=']

private theorem isInert_of_notMem {c : Char} (h : c ∉ meaningful) : Cql.isInert c = true := by
  rw [Cql.isInert, Bool.not_eq_true']
  simpa [meaningful, Text.isBlank, and_assoc] using h

private theorem isInert_of_class {p : Char → Bool} (hp : meaningful.any p = false) {c : Char}
    (hc : p c = true) : Cql.isInert c = true :=
  isInert_of_notMem fun hmem ↦ List.any_eq_false.mp hp c hmem hc

/-! ## The characters of a key

A key with its first character taken off holds no opening sentinel. This is why two occurrences of
keys never overlap, and why replacing one leaves nothing behind that could be part of another. -/

/-- The characters of a key behind its opening sentinel. -/
private def textTail (letters : Text) (n : UInt64) : Text :=
  letters ++ Nat.toDigits 10 n.toNat ++ [closing]

private theorem text_append (letters : Text) (n : UInt64) (t : Text) :
    text letters n ++ t = opening :: (textTail letters n ++ t) := rfl

private theorem mem_textTail {letters : Text} {n : UInt64} {c : Char}
    (h : c ∈ textTail letters n) : c ∈ letters ∨ c.isDigit = true ∨ c = closing := by
  rw [textTail, List.mem_append, List.mem_append, List.mem_singleton] at h
  rcases h with (h | h) | h
  · exact Or.inl h
  · exact Or.inr (Or.inl (Nat.isDigit_of_mem_toDigits (by decide) (by decide) h))
  · exact Or.inr (Or.inr h)

variable {letters : Text}

section Letters

variable (hletters : ∀ c ∈ letters, c.isAlpha = true)

include hletters

theorem isVeil_text (n : UInt64) : IsVeil (text letters n) := by
  refine ⟨textTail letters n, rfl, fun c hc ↦ ?_⟩
  rcases mem_textTail hc with h | h | rfl
  · exact isInert_of_class (by decide) (hletters c h)
  · exact isInert_of_class (by decide) h
  · decide

private theorem opening_notMem_textTail (n : UInt64) :
    opening ∉ textTail letters n := by
  intro h
  rcases mem_textTail h with h | h | h
  · exact absurd (hletters _ h) (by decide)
  · exact absurd h (by decide)
  · exact absurd h (by decide)

theorem notMem_text_of_reservable {c : Char} (hc : Settings.reservable c = true) (n : UInt64) :
    c ∉ text letters n := by
  simp only [Settings.reservable, isSentinel, Bool.not_eq_true', Bool.or_eq_false_iff] at hc
  obtain ⟨⟨⟨⟨-, halpha⟩, hnum⟩, -⟩, hopen, hclose⟩ := hc
  rw [← List.append_nil (text letters n), text_append, List.append_nil, List.mem_cons, not_or]
  refine ⟨by simpa using hopen, fun h ↦ ?_⟩
  rcases mem_textTail h with h | h | h
  · rw [Unicode.isAlphabetic_of_isAlpha (hletters c h)] at halpha
    exact absurd halpha (by decide)
  · rw [Unicode.isNumeric_of_isDigit h] at hnum
    exact absurd hnum (by decide)
  · rw [h] at hclose
    exact absurd hclose (by decide)

end Letters

/-! ## Reading a number back

Numbers are written without leading zeros and differ in length, so the key of 1 would be the
beginning of that of 10 if it ended with its digits. The closing sentinel is what keeps them apart,
as it is neither a letter nor a digit. -/

theorem toDigits_injective {m n : Nat} (h : Nat.toDigits 10 m = Nat.toDigits 10 n) : m = n := by
  rw [← Nat.ofDigitChars_ten_toDigits (n := m), h, Nat.ofDigitChars_ten_toDigits]

private theorem eq_of_prefix_until {x y t : Text} {c : Char} (hx : c ∉ x) (hy : c ∉ y)
    (h : x ++ [c] <+: y ++ c :: t) : x = y := by
  have htake : ∀ {z u : Text}, c ∉ z → (z ++ c :: u).takeWhile (· ≠ c) = z := by
    intro z u hz
    rw [List.takeWhile_append_of_pos fun d hd ↦ by simpa using fun hdc : d = c ↦ hz (hdc ▸ hd)]
    simp
  obtain ⟨u, hu⟩ := h
  rw [List.append_assoc, List.singleton_append] at hu
  rw [← htake hx (u := u), hu, htake hy]

private theorem closing_notMem_toDigits (n : Nat) : closing ∉ Nat.toDigits 10 n := fun h ↦
  absurd (Nat.isDigit_of_mem_toDigits (by decide) (by decide) h) (by decide)

/-- **Unique reading.** A text that starts with a key starts with no other key. -/
theorem eq_of_text_prefix_append {m n : UInt64} {t : Text}
    (h : text letters m <+: text letters n ++ t) : m = n := by
  simp only [text, List.cons_append, List.cons_prefix_cons, true_and, List.append_assoc,
    List.prefix_append_right_inj, List.nil_append] at h
  exact UInt64.toNat_inj.mp (toDigits_injective
    (eq_of_prefix_until (closing_notMem_toDigits _) (closing_notMem_toDigits _) h))

theorem text_injective : Function.Injective (text letters) := by
  intro m n h
  have hpre : text letters m <+: text letters n ++ [] := by simp [h]
  exact eq_of_text_prefix_append hpre

/-! ## Occurrences

The phrases here are filled with keys by a function `ν` that numbers the hidden fragments. Fragments
with the same number have the same key, and so replacing a key may change several places. Nothing is
asked of `ν` until it matters that fragments can be told apart. -/

section Occurrences

variable {α : Type} (ν : α → UInt64)

/-- A veiled phrase filled with keys starts with a key where a fragment with its number is hidden
there. -/
theorem text_prefix_fill_iff {n : UInt64} {s : Veiled α} (hs : s.Clean) :
    text letters n <+: Veiled.fill (fun a ↦ text letters (ν a)) s ↔
      ∃ a t, s = .hidden a :: t ∧ ν a = n := by
  constructor
  · intro h
    cases s with
    | nil => exact absurd (List.prefix_nil.mp h) (text_ne_nil letters n)
    | cons x s =>
      cases x with
      | plain c =>
        rw [Veiled.fill_plain, text, List.cons_append, List.cons_append,
          List.cons_prefix_cons] at h
        have hc := hs c List.mem_cons_self
        rw [← h.1] at hc
        exact absurd hc (by decide)
      | hidden a =>
        rw [Veiled.fill_hidden] at h
        exact ⟨a, s, rfl, (eq_of_text_prefix_append h).symm⟩
  · rintro ⟨a, t, rfl, rfl⟩
    exact List.prefix_append _ _

private theorem not_text_prefix_of_ne_opening {n : UInt64} {c : Char} {t : Text}
    (hc : c ≠ opening) : ¬ text letters n <+: c :: t := by
  intro h
  rw [text, List.cons_append, List.cons_append, List.cons_prefix_cons] at h
  exact hc h.1.symm

private theorem replaceAll_append_of_opening_notMem {n : UInt64} (new : Text) {u : Text} (t : Text)
    (hu : opening ∉ u) :
    Text.replaceAll (text letters n) new (u ++ t)
      = u ++ Text.replaceAll (text letters n) new t := by
  induction u with
  | nil => rfl
  | cons c u ih =>
    rw [List.mem_cons, not_or] at hu
    rw [List.cons_append, Text.replaceAll_cons (not_text_prefix_of_ne_opening (Ne.symm hu.1)),
      ih hu.2, List.cons_append]

variable (hletters : ∀ c ∈ letters, c.isAlpha = true)

include hletters

/-- **Occurrences.** Where a key stands in a veiled phrase filled with keys, a fragment with its
number is hidden, and what stands around the key is written around that fragment. -/
theorem fill_eq_append_iff {n : UInt64} {s : Veiled α} (hs : s.Clean) {u v : Text} :
    Veiled.fill (fun a ↦ text letters (ν a)) s = u ++ text letters n ++ v ↔
      ∃ p a q, s = p ++ .hidden a :: q ∧ ν a = n ∧
        Veiled.fill (fun a ↦ text letters (ν a)) p = u ∧
        Veiled.fill (fun a ↦ text letters (ν a)) q = v := by
  constructor
  · intro h
    induction s generalizing u with
    | nil => exact absurd h.symm (by simp [text_ne_nil])
    | cons x s ih =>
      have ih := fun u ↦ ih (u := u) fun c hc ↦ hs c (List.mem_cons_of_mem _ hc)
      cases u with
      | nil =>
        rw [List.nil_append] at h
        obtain ⟨a, t, hat, rfl⟩ := (text_prefix_fill_iff ν hs).mp ⟨v, h.symm⟩
        rw [hat, Veiled.fill_hidden, List.append_cancel_left_eq] at h
        exact ⟨[], a, t, hat, rfl, rfl, h⟩
      | cons d u =>
        cases x with
        | plain c =>
          rw [Veiled.fill_plain, List.cons_append, List.cons_append, List.cons.injEq] at h
          obtain ⟨p, a, q, rfl, hn, rfl, hq⟩ := ih u h.2
          exact ⟨.plain c :: p, a, q, rfl, hn, by rw [Veiled.fill_plain, h.1], hq⟩
        | hidden b =>
          -- The key of `b` is passed over whole, since nothing starts behind its head.
          rw [Veiled.fill_hidden, text_append, List.cons_append, List.cons_append,
            List.cons.injEq, List.append_assoc] at h
          obtain ⟨rfl, h⟩ := h
          obtain ⟨u', rfl, htail⟩ :=
            Text.exists_of_append_eq_append_cons (opening_notMem_textTail hletters (ν b)) h
          obtain ⟨p, a, q, rfl, hn, rfl, hq⟩ := ih u' (by rw [List.append_assoc]; exact htail)
          exact ⟨.hidden b :: p, a, q, rfl, hn, rfl, hq⟩
  · rintro ⟨p, a, q, rfl, rfl, rfl, rfl⟩
    rw [Veiled.fill_append, Veiled.fill_hidden, List.append_assoc]

theorem text_infix_fill_iff {n : UInt64} {s : Veiled α} (hs : s.Clean) :
    text letters n <:+: Veiled.fill (fun a ↦ text letters (ν a)) s ↔
      ∃ a, .hidden a ∈ s ∧ ν a = n := by
  constructor
  · rintro ⟨u, v, h⟩
    obtain ⟨p, a, q, rfl, hn, -, -⟩ := (fill_eq_append_iff ν hletters hs).mp h.symm
    exact ⟨a, List.mem_append_right p List.mem_cons_self, hn⟩
  · rintro ⟨a, ha, hn⟩
    obtain ⟨p, q, rfl⟩ := List.append_of_mem ha
    exact ⟨_, _, ((fill_eq_append_iff ν hletters hs).mpr ⟨p, a, q, rfl, hn, rfl, rfl⟩).symm⟩

/-- **Replacement.** Replacing a key fills the places of the fragments with its number with the new
text, and changes nothing else. -/
theorem replaceAll_fill (n : UInt64) (new : Text) {s : Veiled α} (hs : s.Clean) :
    Text.replaceAll (text letters n) new (Veiled.fill (fun a ↦ text letters (ν a)) s)
      = Veiled.fill (fun a ↦ if ν a = n then new else text letters (ν a)) s := by
  induction s with
  | nil => rfl
  | cons x s ih =>
    have ih := ih fun c hc ↦ hs c (List.mem_cons_of_mem _ hc)
    cases x with
    | plain c =>
      have hhead : ¬ text letters n <+: c :: Veiled.fill (fun a ↦ text letters (ν a)) s := by
        refine not_text_prefix_of_ne_opening ?_
        rintro rfl
        exact absurd (hs _ List.mem_cons_self) (by decide)
      rw [Veiled.fill_plain, Veiled.fill_plain, Text.replaceAll_cons hhead, ih]
    | hidden a =>
      rw [Veiled.fill_hidden, Veiled.fill_hidden]
      by_cases hn : ν a = n
      · rw [if_pos hn, hn, Text.replaceAll_append (text_ne_nil _ _), ih]
      · have hhead : ¬ text letters n <+: text letters (ν a)
            ++ Veiled.fill (fun a ↦ text letters (ν a)) s :=
          fun hpre ↦ hn (eq_of_text_prefix_append hpre).symm
        -- Of the key that stays only the first character could begin another one, and it does not.
        rw [text_append] at hhead
        rw [if_neg hn, ← ih, text_append, text_append]
        rw [Text.replaceAll_cons hhead,
          replaceAll_append_of_opening_notMem _ _ (opening_notMem_textTail hletters _)]

end Occurrences

/-! ## Reading a whole phrase back -/

/-- A text of keys and characters in sight can be read in one way only. -/
theorem eq_of_fill_text_eq {s t : Veiled UInt64} (hs : s.Clean) (ht : t.Clean)
    (h : Veiled.fill (text letters) s = Veiled.fill (text letters) t) : s = t := by
  induction s generalizing t with
  | nil =>
    cases t with
    | nil => rfl
    | cons y t => cases y <;> exact absurd h.symm (by simp [text])
  | cons x s ih =>
    have ih := fun t ↦ ih (t := t) fun c hc ↦ hs c (List.mem_cons_of_mem _ hc)
    cases x with
    | plain c =>
      cases t with
      | nil => exact absurd h (by simp)
      | cons y t =>
        cases y with
        | plain d =>
          rw [Veiled.fill_plain, Veiled.fill_plain, List.cons.injEq] at h
          rw [h.1, ih t (fun e he ↦ ht e (List.mem_cons_of_mem _ he)) h.2]
        | hidden m =>
          rw [Veiled.fill_plain, Veiled.fill_hidden, text_append, List.cons.injEq] at h
          exact absurd (h.1 ▸ hs c List.mem_cons_self) (by decide)
    | hidden n =>
      rw [Veiled.fill_hidden] at h
      obtain ⟨m, u, rfl, rfl⟩ := (text_prefix_fill_iff (fun n ↦ n) ht).mp ⟨_, h⟩
      rw [Veiled.fill_hidden, List.append_cancel_left_eq] at h
      rw [ih u (fun e he ↦ ht e (List.mem_cons_of_mem _ he)) h]

/-- **Keys in context.** Whatever keys stand in a text, and whatever stands around them, as long as
it holds no sentinels: a key occurs in the text where it was written and nowhere else. So it is
found exactly if it was written, and replacing it changes the text exactly where it was written. No
other keys and characters spell the same text. -/
theorem occurs_where_written (hletters : ∀ c ∈ letters, c.isAlpha = true) {s : Veiled UInt64}
    (hs : s.Clean) (n : UInt64) :
    (∀ u v, Veiled.fill (text letters) s = u ++ text letters n ++ v ↔
        ∃ p q, s = p ++ .hidden n :: q ∧
          Veiled.fill (text letters) p = u ∧ Veiled.fill (text letters) q = v) ∧
      (Text.occursIn (text letters n) (Veiled.fill (text letters) s) = true ↔ .hidden n ∈ s) ∧
      (∀ new, Text.replaceAll (text letters n) new (Veiled.fill (text letters) s)
        = Veiled.fill (fun m ↦ if m = n then new else text letters m) s) ∧
      ∀ t : Veiled UInt64, t.Clean →
        Veiled.fill (text letters) t = Veiled.fill (text letters) s → t = s := by
  refine ⟨fun u v ↦ ?_, ?_, fun new ↦ replaceAll_fill (fun n ↦ n) hletters n new hs,
    fun t ht h ↦ eq_of_fill_text_eq ht hs h⟩
  · rw [fill_eq_append_iff (fun n ↦ n) hletters hs]
    constructor
    · rintro ⟨p, a, q, hpq, rfl, hu, hv⟩
      exact ⟨p, q, hpq, hu, hv⟩
    · rintro ⟨p, q, hpq, hu, hv⟩
      exact ⟨p, n, q, hpq, rfl, hu, hv⟩
  · rw [Text.occursIn_iff, text_infix_fill_iff (fun n ↦ n) hletters hs]
    constructor
    · rintro ⟨a, ha, rfl⟩
      exact ha
    · exact fun h ↦ ⟨n, h, rfl⟩

/-- The keys of 1, 10 and 100 side by side, among letters and digits that could belong to them. -/
theorem occurs_where_written_among_alike_keys :
    Text.replaceAll (text "zx".toList 1) "new".toList
        "zx1\ue000zx10\ue001\ue000zx1\ue001\ue000zx100\ue0010zx\ue000zx1\ue0011".toList
      = "zx1\ue000zx10\ue001new\ue000zx100\ue0010zxnew1".toList := by
  have hfill : "zx1\ue000zx10\ue001\ue000zx1\ue001\ue000zx100\ue0010zx\ue000zx1\ue0011".toList
      = Veiled.fill (text "zx".toList) (Veiled.ofText "zx1".toList
          ++ [.hidden 10, .hidden 1, .hidden 100] ++ Veiled.ofText "0zx".toList
          ++ [.hidden 1, .plain '1']) := by decide +kernel
  rw [hfill, (occurs_where_written (List.all_eq_true.mp (by decide)) (by decide) 1).2.2.1]
  decide +kernel

end Placeholder

end PhraseRepair
