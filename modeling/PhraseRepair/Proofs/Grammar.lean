import PhraseRepair.Proofs.Closing

/-!
# Queries

A grammar of queries: words and quoted terms, relations between two terms, groups in parentheses to
any depth, and queries joined by booleans. A query of this grammar is left as it is by a repair with
the default settings (`repair_query`).

The grammar takes its terms as a parameter, since it is used for two kinds of texts. With the quoted
terms of a query out of sight, what is visible is a query whose terms are words and hidden
fragments; and closing its innermost groups gives such a query again. So reading is proved once, for
queries of the second kind.
-/

namespace PhraseRepair

namespace Cql

/-! ## The grammar -/

/-- The keywords that join queries, in lower case. -/
def booleans : List Text := ["and".toList, "or".toList, "not".toList]

/-- The keywords that relate two terms, in lower case. -/
def relations : List Text := ["any".toList, "all".toList, "adj".toList]

/-- The keywords of the operators, in lower case. -/
def keywords : List Text := booleans ++ relations

/-- A keyword from a list, in any mixture of upper and lower case, between two spaces. -/
def IsKeyword (ks : List Text) (op : Text) : Prop :=
  ∃ k, op = ' ' :: k ++ [' '] ∧ k.map Char.toLower ∈ ks

/-- A character that a word may hold. -/
def isWordChar (c : Char) : Bool :=
  !(Text.isBlank c || Placeholder.isSentinel c || c = '"' || c = '(' || c = ')' || c = '='
    || c = '/')

/-- A word: not empty, without blanks and special characters, and no keyword. -/
structure Word (w : Text) : Prop where
  /-- A word has at least one character. -/
  ne_nil : w ≠ []
  /-- All characters are such that a word may hold. -/
  chars : ∀ c ∈ w, isWordChar c = true
  /-- A word is no keyword, in any mixture of upper and lower case. -/
  notKeyword : w.map Char.toLower ∉ keywords

/-- A quoted term: no quote and no sentinel inside, and no blanks but single spaces. -/
structure QuotedTerm (body : Text) : Prop where
  /-- No quote stands inside. -/
  notMem_quote : '"' ∉ body
  /-- No sentinel stands inside. -/
  hasSentinel : Placeholder.hasSentinel body = false
  /-- Its blanks are spaces. -/
  eq_space : ∀ c ∈ body, Text.isBlank c = true → c = ' '
  /-- No two spaces stand side by side. -/
  single : ¬ [' ', ' '] <:+: body

/-- A term as it is written. -/
def IsTerm (x : Text) : Prop := Word x ∨ ∃ body, QuotedTerm body ∧ x = Text.enclose '"' '"' body

/-- What relates two terms: an equals sign, with or without a space on both sides, or a keyword. -/
def IsRelation (op : Text) : Prop := op = ['='] ∨ op = " = ".toList ∨ IsKeyword relations op

/-- **Queries** over the given terms: a term, a relation between two terms, a group around a query
that is not just one bare word, or queries joined by a boolean. -/
inductive Query (Term : Text → Prop) : Text → Prop
  | term {x : Text} (hx : Term x) : Query Term x
  | relation {x op y : Text} (hx : Term x) (hop : IsRelation op) (hy : Term y) :
      Query Term (x ++ op ++ y)
  | group {q : Text} (hq : Query Term q) (hbare : ¬ Word q) : Query Term (Text.enclose '(' ')' q)
  | join {p op q : Text} (hp : Query Term p) (hop : IsKeyword booleans op) (hq : Query Term q) :
      Query Term (p ++ op ++ q)

/-- A term as it is seen when quoted terms are out of sight. -/
def IsVisibleTerm (x : Text) : Prop := Word x ∨ x = [Placeholder.opening]

/-! ## Keywords

A keyword can be read at a space only, and only if it ends at another one. So at a space it is
enough to look at the text up to the next space, and where that is no keyword, none is read. -/

theorem IsKeyword.mono {ks ks' : List Text} (h : ks ⊆ ks') {op : Text} (hop : IsKeyword ks op) :
    IsKeyword ks' op := by
  obtain ⟨k, hk, hmem⟩ := hop
  exact ⟨k, hk, h hmem⟩

theorem IsKeyword.of_booleans {op : Text} (hop : IsKeyword booleans op) : IsKeyword keywords op :=
  hop.mono (List.subset_append_left _ _)

theorem IsKeyword.of_relations {op : Text} (hop : IsKeyword relations op) :
    IsKeyword keywords op :=
  hop.mono (List.subset_append_right _ _)

private theorem enclose_mem_operators : ∀ k ∈ keywords, ' ' :: k ++ [' '] ∈ operators := by decide

theorem IsKeyword.mem_operators {op : Text} (hop : IsKeyword keywords op) :
    op.map Char.toLower ∈ operators := by
  obtain ⟨k, rfl, hk⟩ := hop
  have hmem := enclose_mem_operators _ hk
  rwa [List.map_append, List.map_cons, List.map_cons, show ' '.toLower = ' ' by decide]

private theorem isLower_of_mem_keywords : ∀ k ∈ keywords, ∀ c ∈ k, c.isLower = true := by
  have hall : (keywords.all fun k ↦ k.all Char.isLower) = true := by decide
  simpa using hall

theorem IsKeyword.eq_or_isLower {op : Text} (hop : IsKeyword keywords op) {c : Char}
    (hc : c ∈ op) : c = ' ' ∨ c.toLower.isLower = true := by
  obtain ⟨k, rfl, hk⟩ := hop
  rw [List.mem_append, List.mem_cons, List.mem_singleton] at hc
  rcases hc with (hc | hc) | hc
  · exact Or.inl hc
  · exact Or.inr (isLower_of_mem_keywords _ hk _ (List.mem_map_of_mem hc))
  · exact Or.inl hc

theorem IsKeyword.notMem {op : Text} (hop : IsKeyword keywords op) {c : Char} (hspace : c ≠ ' ')
    (hlower : c.toLower.isLower = false) : c ∉ op := by
  intro hc
  rcases hop.eq_or_isLower hc with h | h
  · exact hspace h
  · rw [hlower] at h
    exact absurd h (by decide)

private theorem exists_of_mem_operators :
    ∀ w ∈ operators, w.head? = some ' ' → ∃ k ∈ keywords, w = ' ' :: k ++ [' '] := by decide

/-- What is read at a space is a keyword between its spaces. -/
theorem read_operator_space_eq_none {t : Text}
    (h : ∀ k, k.map Char.toLower ∈ keywords → ¬ k ++ [' '] <+: t) :
    operator.read (' ' :: t) = none := by
  rw [read_operator_eq_none_iff]
  intro w hw hmem
  rcases w with _ | ⟨d, w⟩
  · exact absurd hmem (by decide)
  obtain ⟨rfl, hpre⟩ := List.cons_prefix_cons.mp hw
  obtain ⟨k, hk, hkeyword⟩ := exists_of_mem_operators _ hmem rfl
  rw [List.map_cons, List.cons_append, List.cons.injEq] at hkeyword
  obtain ⟨v, e, rfl, rfl, he⟩ := List.map_eq_append_iff.mp hkeyword.2
  obtain ⟨f, e, rfl, hf, he⟩ := List.map_eq_cons_iff.mp he
  rw [List.map_eq_nil_iff.mp he, eq_of_toLower_eq hf (by decide)] at hpre
  exact h v hk hpre

/-! ## Reading a query

Whether a keyword is read at the space before a term depends on what comes behind the term: `an` is
none, but with `d` and a space behind it, it is one. A term of a query is followed by the end of the
query, a sign, or a keyword with the space that it begins with. So the statements about terms and
queries allow any text behind them that does not begin with a letter, and the induction supplies one
of these. -/

theorem IsVisibleTerm.plain {x : Text} (hx : IsVisibleTerm x) {c : Char} (hc : c ∈ x) :
    opensOperator c = false ∧ Text.isBlank c = false ∧ c ≠ '/' := by
  rcases hx with hx | rfl
  · have hword := hx.chars c hc
    simp only [isWordChar, Bool.not_eq_true', Bool.or_eq_false_iff,
      decide_eq_false_iff_not] at hword
    obtain ⟨⟨⟨⟨⟨⟨hblank, -⟩, -⟩, hopen⟩, hclose⟩, heq⟩, hslash⟩ := hword
    have hspace : c ≠ ' ' := by
      rintro rfl
      exact absurd hblank (by decide)
    exact ⟨by simp [opensOperator, hspace, hopen, hclose, heq], hblank, hslash⟩
  · rw [List.mem_singleton.mp hc]
    decide

theorem IsVisibleTerm.ne_nil {x : Text} (hx : IsVisibleTerm x) : x ≠ [] := by
  rcases hx with hx | rfl
  · exact hx.ne_nil
  · simp

theorem IsVisibleTerm.notKeyword {x : Text} (hx : IsVisibleTerm x) :
    x.map Char.toLower ∉ keywords := by
  rcases hx with hx | rfl
  · exact hx.notKeyword
  · decide

theorem outcome_visibleTerm {x : Text} (hx : IsVisibleTerm x) (t : Text) :
    outcome .blank (x ++ t) = outcome .word t := by
  have hword : ∀ y : Text, y ⊆ x → outcome .word (y ++ t) = outcome .word t := by
    intro y hy
    induction y with
    | nil => rfl
    | cons c y ih =>
      obtain ⟨hopens, hblank, -⟩ := hx.plain (hy List.mem_cons_self)
      have hspace : c ≠ ' ' := by
        rintro rfl
        exact absurd hblank (by decide)
      rw [List.cons_append, outcome_cons hopens, Stage.feed, if_neg hspace,
        ih fun d hd ↦ hy (List.mem_cons_of_mem c hd)]
  obtain ⟨c, y, rfl⟩ := List.exists_cons_of_ne_nil hx.ne_nil
  obtain ⟨hopens, hblank, -⟩ := hx.plain (c := c) List.mem_cons_self
  rw [List.cons_append, outcome_cons hopens, Stage.feed, hblank]
  exact hword y (List.subset_cons_self c y)

/-- What follows does not go on with a letter. -/
def NoLetter (t : Text) : Prop := ∀ c, t.head? = some c → c.toLower.isLower = false

theorem noLetter_cons {c : Char} (hc : c.toLower.isLower = false) (t : Text) :
    NoLetter (c :: t) := by
  intro d hd
  obtain rfl : c = d := by simpa using hd
  exact hc

/-- No keyword is read before a term, since the term as a whole is none. -/
theorem read_operator_space_term {x : Text} (hx : IsVisibleTerm x) {t : Text} (ht : NoLetter t) :
    operator.read (' ' :: (x ++ t)) = none := by
  refine read_operator_space_eq_none fun k hk hpre ↦ ?_
  -- The keyword ends with a space, which the term does not hold.
  rcases List.prefix_or_prefix_of_prefix ((List.prefix_append k _).trans hpre)
    (List.prefix_append x t) with ⟨z, hz⟩ | ⟨z, hz⟩
  · rcases z with _ | ⟨c, z⟩
    · rw [List.append_nil] at hz
      exact hx.notKeyword (hz ▸ hk)
    · rw [← hz, List.append_assoc, List.prefix_append_right_inj, List.cons_append,
        List.cons_prefix_cons] at hpre
      have hmem : c ∈ x := hz ▸ List.mem_append_right k List.mem_cons_self
      rw [← hpre.1] at hmem
      exact absurd (hx.plain hmem).2.1 (by decide)
  · rcases z with _ | ⟨c, z⟩
    · rw [List.append_nil] at hz
      exact hx.notKeyword (hz ▸ hk)
    · -- The keyword would go on with a letter where the term ends.
      rw [← hz, List.append_assoc, List.prefix_append_right_inj] at hpre
      obtain ⟨rest, hrest⟩ := hpre
      have hhead := ht c (by rw [← hrest]; rfl)
      have hc : c.toLower ∈ k.map Char.toLower :=
        List.mem_map_of_mem (hz ▸ List.mem_append_right x List.mem_cons_self)
      rw [isLower_of_mem_keywords _ hk _ hc] at hhead
      exact absurd hhead (by decide)

theorem outcome_relation {op : Text} (hop : IsRelation op) {y : Text} (hy : IsVisibleTerm y)
    {t : Text} (ht : NoLetter t) : outcome .word (op ++ (y ++ t)) = outcome .word t := by
  have hsign : ∀ s u, outcome s ('=' :: u) = outcome s.reset u := fun s u ↦
    outcome_sign (Or.inl rfl) s u
  rcases hop with rfl | rfl | hop
  · rw [List.singleton_append, hsign]
    exact outcome_visibleTerm hy t
  · have hspace : operator.read (' ' :: '=' :: ' ' :: (y ++ t)) = none := by
      refine read_operator_space_eq_none fun k hk hpre ↦ ?_
      rcases k with _ | ⟨c, k⟩
      · exact absurd hk (by decide)
      · obtain ⟨rfl, -⟩ := List.cons_prefix_cons.mp hpre
        exact absurd (isLower_of_mem_keywords _ hk _ List.mem_cons_self) (by decide)
    show outcome .word (' ' :: '=' :: ' ' :: (y ++ t)) = outcome .word t
    rw [outcome_of_read_none hspace, hsign, outcome_of_read_none (read_operator_space_term hy ht)]
    exact outcome_visibleTerm hy t
  · rw [outcome_keyword hop.of_relations.mem_operators]
    exact outcome_visibleTerm hy t

private theorem noLetter_of_isKeyword {ks : List Text} {op : Text} (hop : IsKeyword ks op)
    (t : Text) : NoLetter (op ++ t) := by
  obtain ⟨k, rfl, -⟩ := hop
  exact noLetter_cons (by decide) _

/-- **Reading a query.** Between operators a query has terms, so it can be read, whatever follows it
that does not go on with a letter. -/
theorem outcome_query {q : Text} (hq : Query IsVisibleTerm q) :
    ∃ s, s ≠ .broken ∧ s.reset = .blank ∧
      ∀ t, NoLetter t → outcome .blank (q ++ t) = outcome s t := by
  induction hq with
  | term hx => exact ⟨.word, by decide, rfl, fun t _ ↦ outcome_visibleTerm hx t⟩
  | relation hx hop hy =>
    refine ⟨.word, by decide, rfl, fun t ht ↦ ?_⟩
    rw [List.append_assoc, List.append_assoc, outcome_visibleTerm hx, outcome_relation hop hy ht]
  | group _ _ ih =>
    obtain ⟨s, hs, hreset, hread⟩ := ih
    refine ⟨.blank, by decide, rfl, fun t _ ↦ ?_⟩
    rw [Text.enclose, List.append_assoc, List.cons_append, outcome_sign (Or.inr (Or.inl rfl)),
      List.singleton_append]
    refine (hread _ (noLetter_cons (by decide) t)).trans ?_
    rw [outcome_sign (Or.inr (Or.inr rfl)), hreset]
  | join _ hop _ ihp ihq =>
    obtain ⟨s, -, hreset, hread⟩ := ihp
    obtain ⟨s', hs', hreset', hread'⟩ := ihq
    refine ⟨s', hs', hreset', fun t ht ↦ ?_⟩
    rw [List.append_assoc, List.append_assoc, hread _ (noLetter_of_isKeyword hop _),
      outcome_keyword hop.of_booleans.mem_operators, hreset, hread' t ht]

/-! ## The groups of a query

An innermost group is closed to a group around a hidden fragment, which is a query of the same
grammar again, so what has been proved about reading a query holds of its closed form too. That a
group is not bare has to be carried along: a group around a single word is not of the grammar, and
closing must not make one. It does not, as what is closed becomes a fragment and not a word. -/

private theorem containsOperator_of_read {x y : Text} {m : Match} (h : operator.read y = some m) :
    containsOperator (x ++ y) = true := by
  rw [containsOperator, ← Bool.not_eq_false, operator.matchesIn_eq_false_iff]
  intro hnone
  rw [hnone y (List.suffix_append x y)] at h
  exact absurd h (by simp)

theorem containsOperator_query {q : Text} (hq : Query IsVisibleTerm q) :
    IsVisibleTerm q ∨ containsOperator q = true := by
  rcases hq with hx | ⟨_, hop, _⟩ | _ | ⟨_, hop, _⟩
  · exact Or.inl hx
  · right
    rw [List.append_assoc]
    rcases hop with rfl | rfl | hop
    · exact containsOperator_of_read (read_operator_sign (Or.inl rfl) _)
    · rw [show " = ".toList = [' '] ++ "= ".toList from rfl, List.append_assoc, ← List.append_assoc]
      exact containsOperator_of_read (read_operator_sign (Or.inl rfl) _)
    · exact containsOperator_of_read
        (read_operator_keyword hop.of_relations.mem_operators _)
  · exact Or.inr (containsOperator_of_read (x := []) (read_operator_sign (Or.inr (Or.inl rfl)) _))
  · right
    rw [List.append_assoc]
    exact containsOperator_of_read
      (read_operator_keyword hop.of_booleans.mem_operators _)

/-- A group around a query that is not just one bare word keeps its grouping. -/
theorem keepsGrouping_query {q : Text} (hq : Query IsVisibleTerm q) (hbare : ¬ Word q) :
    keepsGrouping true q = true := by
  rcases containsOperator_query hq with hx | hop
  · rcases hx with hx | rfl
    · exact absurd hx hbare
    · decide
  · rw [keepsGrouping, isCql, hop, Bool.or_true, ite_self]

/-- Whatever follows, closing the groups of `x` gives `x'`, and they keep their grouping. -/
structure Closes (x x' : Text) : Prop where
  /-- The groups keep their grouping. -/
  hits : ∀ t m, .hit m ∈ innermostGroup.scan (x ++ t) →
    keepsGrouping true m.value = true ∨ .hit m ∈ innermostGroup.scan t
  /-- Closing them gives `x'`. -/
  close : ∀ t, closeGroups (x ++ t) = x' ++ closeGroups t

theorem Closes.append {x x' y y' : Text} (hx : Closes x x') (hy : Closes y y') :
    Closes (x ++ y) (x' ++ y') := by
  constructor
  · intro t m hm
    rw [List.append_assoc] at hm
    rcases hx.hits _ m hm with h | h
    · exact Or.inl h
    · exact hy.hits t m h
  · intro t
    rw [List.append_assoc, hx.close, hy.close, List.append_assoc]

theorem closes_of_isParen_eq_false {x : Text} (hx : ∀ c ∈ x, isParen c = false) : Closes x x := by
  constructor
  · intro t m hm
    rw [scan_of_isParen_eq_false hx] at hm
    exact Or.inr (mem_of_mem_map_plain_append hm)
  · exact closeGroups_append hx

theorem closes_closing : Closes [')'] [')'] := by
  constructor
  · intro t m hm
    rw [List.singleton_append, scan_closing] at hm
    exact Or.inr ((List.mem_cons.mp hm).resolve_left (by simp))
  · exact closeGroups_closing

/-- A group whose first parenthesis opens another group stays. -/
theorem Closes.group {x y z : Text} (hx : ∀ c ∈ x, isParen c = false)
    (hclose : Closes (x ++ '(' :: y) z) :
    Closes (Text.enclose '(' ')' (x ++ '(' :: y)) (Text.enclose '(' ')' z) := by
  have hread : ∀ t, innermostGroup.read ('(' :: (x ++ '(' :: y ++ t)) = none := by
    intro t
    have hdrop : (x ++ '(' :: y ++ t).dropWhile (fun c ↦ c ≠ '(' && c ≠ ')') = '(' :: (y ++ t) := by
      rw [List.append_assoc,
        List.dropWhile_append_of_pos fun c hc ↦ by simpa [isParen] using hx c hc]
      simp
    simp only [innermostGroup, Text.enclosed?, hdrop]
    simp
  have hrest := hclose.append closes_closing
  constructor
  · intro t m hm
    rw [Text.enclose, List.append_assoc, List.cons_append,
      innermostGroup.scan_of_read_none (hread _)] at hm
    have hm := (List.mem_cons.mp hm).resolve_left (by simp)
    rw [← List.append_assoc] at hm
    exact hrest.hits t m hm
  · intro t
    rw [Text.enclose, List.append_assoc, List.cons_append, closeGroups_of_read_none (hread _),
      ← List.append_assoc, hrest.close]
    rfl

theorem closes_group {body : Text} (hbody : ∀ c ∈ body, isParen c = false) (hne : body ≠ [])
    (hkeeps : keepsGrouping true body = true) :
    Closes (Text.enclose '(' ')' body) (Text.enclose '(' ')' [Placeholder.opening]) := by
  constructor
  · intro t m hm
    rw [scan_group hbody] at hm
    rcases List.mem_cons.mp hm with hm | hm
    · obtain rfl := Item.hit.inj hm
      exact Or.inl hkeeps
    · exact Or.inr hm
  · intro t
    rw [closeGroups_group hbody, closed, List.isEmpty_eq_false_iff.mpr hne]
    rfl

theorem isParen_of_isVisibleTerm {x : Text} (hx : IsVisibleTerm x) :
    ∀ c ∈ x, isParen c = false := by
  intro c hc
  have hopens := (hx.plain hc).1
  simp only [opensOperator, Bool.or_eq_false_iff] at hopens
  simp [isParen, hopens]

private theorem isParen_of_isKeyword {op : Text} (hop : IsKeyword keywords op) :
    ∀ c ∈ op, isParen c = false := by
  intro c hc
  rw [isParen, Bool.or_eq_false_iff, decide_eq_false_iff_not, decide_eq_false_iff_not]
  constructor
  · rintro rfl
    exact hop.notMem (by decide) (by decide) hc
  · rintro rfl
    exact hop.notMem (by decide) (by decide) hc

private theorem isParen_of_isRelation {op : Text} (hop : IsRelation op) :
    ∀ c ∈ op, isParen c = false := by
  rcases hop with rfl | rfl | hop
  · simp [isParen]
  · simp [isParen]
  · exact isParen_of_isKeyword hop.of_relations

private theorem not_word_of_mem {x : Text} {c : Char} (hc : c ∈ x) (hchar : isWordChar c = false) :
    ¬ Word x := by
  intro hx
  rw [hx.chars c hc] at hchar
  exact absurd hchar (by decide)

/-- The first parenthesis of a query opens a group. -/
theorem first_paren_query {q : Text} (hq : Query IsVisibleTerm q) :
    (∀ c ∈ q, isParen c = false) ∨
      ∃ x y, q = x ++ '(' :: y ∧ ∀ c ∈ x, isParen c = false := by
  induction hq with
  | term hx => exact Or.inl (isParen_of_isVisibleTerm hx)
  | relation hx hop hy =>
    left
    intro c hc
    rcases List.mem_append.mp hc with hc | hc
    · rcases List.mem_append.mp hc with hc | hc
      · exact isParen_of_isVisibleTerm hx c hc
      · exact isParen_of_isRelation hop c hc
    · exact isParen_of_isVisibleTerm hy c hc
  | group => exact Or.inr ⟨[], _, rfl, by simp⟩
  | @join p op q _ hop _ ihp ihq =>
    have hop := isParen_of_isKeyword hop.of_booleans
    rcases ihp with hp | ⟨x, y, rfl, hx⟩
    · have hfront : ∀ c ∈ p ++ op, isParen c = false := fun c hc ↦
        (List.mem_append.mp hc).elim (hp c) (hop c)
      rcases ihq with hq | ⟨x, y, rfl, hx⟩
      · exact Or.inl fun c hc ↦ (List.mem_append.mp hc).elim (hfront c) (hq c)
      · exact Or.inr ⟨p ++ op ++ x, y, by simp,
          fun c hc ↦ (List.mem_append.mp hc).elim (hfront c) (hx c)⟩
    · exact Or.inr ⟨x, y ++ op ++ q, by simp, hx⟩

/-- **Closing a query.** The groups of a query keep their grouping, and closing the innermost ones
gives a query. -/
theorem exists_closes_query {q : Text} (hq : Query IsVisibleTerm q) :
    ∃ q', Closes q q' ∧ Query IsVisibleTerm q' ∧ (Word q' → Word q) := by
  induction hq with
  | term hx =>
    exact ⟨_, closes_of_isParen_eq_false (isParen_of_isVisibleTerm hx), .term hx, id⟩
  | relation hx hop hy =>
    refine ⟨_, ?_, .relation hx hop hy, id⟩
    exact ((closes_of_isParen_eq_false (isParen_of_isVisibleTerm hx)).append
      (closes_of_isParen_eq_false (isParen_of_isRelation hop))).append
      (closes_of_isParen_eq_false (isParen_of_isVisibleTerm hy))
  | @group q hq hbare ih =>
    obtain ⟨q', hclose, hq', hword⟩ := ih
    have hparen : ∀ {z : Text}, ¬ Word (Text.enclose '(' ')' z) := fun {z} ↦
      not_word_of_mem (c := '(') List.mem_cons_self (by decide)
    -- A group without groups inside is closed; any other one stays, with its body closed.
    rcases first_paren_query hq with hfree | ⟨x, y, rfl, hx⟩
    · have hne : q ≠ [] := by
        rintro rfl
        rcases containsOperator_query hq with hx | hop
        · exact hx.ne_nil rfl
        · exact absurd hop (by decide)
      exact ⟨_, closes_group hfree hne (keepsGrouping_query hq hbare),
        .group (.term (Or.inr rfl)) (not_word_of_mem List.mem_cons_self (by decide)),
        fun h ↦ absurd h hparen⟩
    · exact ⟨_, hclose.group hx, .group hq' fun h ↦ hbare (hword h), fun h ↦ absurd h hparen⟩
  | join _ hop _ ihp ihq =>
    obtain ⟨p', hclosep, hp', -⟩ := ihp
    obtain ⟨q', hcloseq, hq', -⟩ := ihq
    refine ⟨_, (hclosep.append (closes_of_isParen_eq_false (isParen_of_isKeyword
      hop.of_booleans))).append hcloseq, .join hp' hop hq', fun h ↦ ?_⟩
    obtain ⟨k, rfl, -⟩ := hop
    exact absurd h (not_word_of_mem (c := ' ') (by simp) (by decide))

/-! ## Queries as they are written

A query has to be its own normal form, or else a repair would not leave it as it is. This is a
property of its characters, of which there are no sentinels and no blanks but spaces, and of its
spaces, no two of which stand side by side. Keywords bring spaces at both ends, and terms have none
at theirs. -/

theorem Word.char {w : Text} (hw : Word w) {c : Char} (hc : c ∈ w) :
    Text.isBlank c = false ∧ Placeholder.isSentinel c = false ∧ c ≠ '"' := by
  have hword := hw.chars c hc
  simp only [isWordChar, Bool.not_eq_true', Bool.or_eq_false_iff, decide_eq_false_iff_not] at hword
  obtain ⟨⟨⟨⟨⟨⟨hblank, hsentinel⟩, hquote⟩, -⟩, -⟩, -⟩, -⟩ := hword
  exact ⟨hblank, hsentinel, hquote⟩

private theorem isLower_of_mem_keyword {k : Text} (hk : k.map Char.toLower ∈ keywords) {c : Char}
    (hc : c ∈ k) : c.toLower.isLower = true :=
  isLower_of_mem_keywords _ hk _ (List.mem_map_of_mem hc)

/-- A character of a query is no sentinel, and if it is a blank it is a space. -/
def IsProper (c : Char) : Prop :=
  Placeholder.isSentinel c = false ∧ (Text.isBlank c = true → c = ' ')

private theorem isProper_of_isLower {c : Char} (hc : c.toLower.isLower = true) : IsProper c := by
  constructor
  · rw [Placeholder.isSentinel, Bool.or_eq_false_iff, decide_eq_false_iff_not,
      decide_eq_false_iff_not]
    constructor <;> rintro rfl <;> exact absurd hc (by decide)
  · intro hblank
    rw [Text.isBlank, Bool.or_eq_true, Bool.or_eq_true, Bool.or_eq_true, Bool.or_eq_true,
      decide_eq_true_eq, decide_eq_true_eq, decide_eq_true_eq, decide_eq_true_eq,
      decide_eq_true_eq] at hblank
    rcases hblank with (((rfl | rfl) | rfl) | rfl) | rfl <;> exact absurd hc (by decide)

private theorem isProper_of_isKeyword {op : Text} (hop : IsKeyword keywords op) :
    ∀ c ∈ op, IsProper c := by
  intro c hc
  rcases hop.eq_or_isLower hc with rfl | hlower
  · exact ⟨by decide, fun _ ↦ rfl⟩
  · exact isProper_of_isLower hlower

private theorem isProper_of_isTerm {x : Text} (hx : IsTerm x) : ∀ c ∈ x, IsProper c := by
  intro c hc
  rcases hx with hx | ⟨body, hbody, rfl⟩
  · obtain ⟨hblank, hsentinel, -⟩ := hx.char hc
    exact ⟨hsentinel, fun h ↦ absurd h (by rw [hblank]; decide)⟩
  · rw [Text.enclose, List.mem_append, List.mem_cons, List.mem_singleton] at hc
    rcases hc with (rfl | hc) | rfl
    · exact ⟨by decide, by decide⟩
    · have hsentinel := Placeholder.hasSentinel_eq_false_iff.mp hbody.hasSentinel
      exact ⟨hsentinel c hc, hbody.eq_space c hc⟩
    · exact ⟨by decide, by decide⟩

theorem isProper_query {q : Text} (hq : Query IsTerm q) : ∀ c ∈ q, IsProper c := by
  have hsign : ∀ c, c = '=' ∨ c = '(' ∨ c = ')' → IsProper c := by
    rintro c (rfl | rfl | rfl) <;> exact ⟨by decide, by decide⟩
  induction hq with
  | term hx => exact isProper_of_isTerm hx
  | relation hx hop hy =>
    intro c hc
    rcases List.mem_append.mp hc with hc | hc
    · rcases List.mem_append.mp hc with hc | hc
      · exact isProper_of_isTerm hx c hc
      · rcases hop with rfl | rfl | hop
        · exact hsign c (Or.inl (List.mem_singleton.mp hc))
        · rcases (by simpa using hc : c = ' ' ∨ c = '=' ∨ c = ' ') with rfl | rfl | rfl
          · exact ⟨by decide, fun _ ↦ rfl⟩
          · exact hsign _ (Or.inl rfl)
          · exact ⟨by decide, fun _ ↦ rfl⟩
        · exact isProper_of_isKeyword hop.of_relations c hc
    · exact isProper_of_isTerm hy c hc
  | group _ _ ih =>
    intro c hc
    rw [Text.enclose, List.mem_append, List.mem_cons, List.mem_singleton] at hc
    rcases hc with (rfl | hc) | rfl
    · exact hsign _ (Or.inr (Or.inl rfl))
    · exact ih c hc
    · exact hsign _ (Or.inr (Or.inr rfl))
  | join _ hop _ ihp ihq =>
    intro c hc
    rcases List.mem_append.mp hc with hc | hc
    · rcases List.mem_append.mp hc with hc | hc
      · exact ihp c hc
      · exact isProper_of_isKeyword hop.of_booleans c hc
    · exact ihq c hc

private theorem solid_of_isTerm {x : Text} (hx : IsTerm x) : Text.Solid x := by
  rcases hx with hx | ⟨body, hbody, rfl⟩
  · refine Text.solid_of_forall_ne hx.ne_nil ?_
    rintro c hc rfl
    exact absurd (hx.char hc).1 (by decide)
  · exact Text.solid_of_single (by decide) (by decide) hbody.single

private theorem solid_keyword {x y op : Text} (hx : Text.Solid x) (hop : IsKeyword keywords op)
    (hy : Text.Solid y) : Text.Solid (x ++ op ++ y) := by
  obtain ⟨k, rfl, hk⟩ := hop
  have hsolid : Text.Solid k := by
    refine Text.solid_of_forall_ne ?_ ?_
    · rintro rfl
      exact absurd hk (by decide)
    · rintro c hc rfl
      exact absurd (isLower_of_mem_keyword hk hc) (by decide)
  have h := hx.space (hsolid.space hy)
  rwa [show x ++ (' ' :: k ++ [' ']) ++ y = x ++ ' ' :: (k ++ ' ' :: y) by simp]

/-- A query has single spaces, none of them at its ends. -/
theorem solid_query {q : Text} (hq : Query IsTerm q) : Text.Solid q := by
  induction hq with
  | term hx => exact solid_of_isTerm hx
  | @relation x op y hx hop hy =>
    have hx := solid_of_isTerm hx
    have hy := solid_of_isTerm hy
    have hequals : Text.Solid ['='] := Text.solid_of_forall_ne (by simp) (by simp)
    rcases hop with rfl | rfl | hop
    · exact (hx.append hequals).append hy
    · rw [show x ++ " = ".toList ++ y = x ++ ' ' :: (['='] ++ ' ' :: y) by simp]
      exact hx.space (hequals.space hy)
    · exact solid_keyword hx hop.of_relations hy
  | group _ _ ih => exact ih.enclose (by decide) (by decide)
  | join _ hop _ ihp ihq => exact solid_keyword ihp hop.of_booleans ihq

/-! ## What is visible of a query

With its quoted terms out of sight, a query is read as one whose terms are words and hidden
fragments. The fragment is no word, so a group around a quoted term alone is no bare group, neither
before nor after. -/

private theorem exists_visible_term {x : Text} (hx : IsTerm x) :
    ∃ x', IsVisibleTerm x' ∧ (∀ t, visible (x ++ t) = x' ++ visible t) ∧ (Word x' → Word x) := by
  rcases hx with hx | ⟨body, hbody, rfl⟩
  · exact ⟨x, Or.inl hx, visible_append fun h ↦ (hx.char h).2.2 rfl, id⟩
  · exact ⟨[Placeholder.opening], Or.inr rfl, visible_run hbody.notMem_quote,
      fun h ↦ absurd h (not_word_of_mem List.mem_cons_self (by decide))⟩

/-- With its quoted terms out of sight, a query is a query over words and hidden fragments. -/
theorem exists_visible_query {q : Text} (hq : Query IsTerm q) :
    ∃ q', Query IsVisibleTerm q' ∧ (∀ t, visible (q ++ t) = q' ++ visible t) ∧
      (Word q' → Word q) := by
  induction hq with
  | term hx =>
    obtain ⟨x', hx', hvisible, hword⟩ := exists_visible_term hx
    exact ⟨x', .term hx', hvisible, hword⟩
  | @relation _ op _ hx hop hy =>
    obtain ⟨x', hx', hvisible, -⟩ := exists_visible_term hx
    obtain ⟨y', hy', hvisible', -⟩ := exists_visible_term hy
    have hquote : '"' ∉ op ∧ ∃ c ∈ op, isWordChar c = false := by
      rcases hop with rfl | rfl | hop
      · exact ⟨by decide, '=', List.mem_cons_self, by decide⟩
      · exact ⟨by decide, ' ', List.mem_cons_self, by decide⟩
      · refine ⟨hop.of_relations.notMem (by decide) (by decide), ?_⟩
        obtain ⟨k, rfl, -⟩ := hop
        exact ⟨' ', List.mem_cons_self, by decide⟩
    -- A relation has a character that no word has, so it is no word itself.
    obtain ⟨hquote, c, hc, hchar⟩ := hquote
    refine ⟨_, .relation hx' hop hy', fun t ↦ ?_, fun h ↦ absurd h (not_word_of_mem
      (List.mem_append_left _ (List.mem_append_right _ hc)) hchar)⟩
    simp only [List.append_assoc, hvisible, visible_append hquote, hvisible']
  | @group q _ hbare ih =>
    obtain ⟨q', hq', hvisible, hword⟩ := ih
    refine ⟨_, .group hq' fun h ↦ hbare (hword h), fun t ↦ ?_,
      fun h ↦ absurd h (not_word_of_mem (c := '(') List.mem_cons_self (by decide))⟩
    rw [Text.enclose, List.append_assoc, List.cons_append, ← List.singleton_append,
      visible_append (by decide), hvisible, visible_append (by decide), Text.enclose]
    simp
  | @join _ op _ _ hop _ ihp ihq =>
    obtain ⟨p', hp', hvisible, -⟩ := ihp
    obtain ⟨q', hq', hvisible', -⟩ := ihq
    have hquote : '"' ∉ op :=
      hop.of_booleans.notMem (by decide) (by decide)
    refine ⟨_, .join hp' hop hq', fun t ↦ ?_, fun h ↦ ?_⟩
    · simp only [List.append_assoc, hvisible, visible_append hquote, hvisible']
    · obtain ⟨k, rfl, -⟩ := hop
      exact absurd h (not_word_of_mem (c := ' ') (by simp) (by decide))

theorem slash_notMem_query {q : Text} (hq : Query IsVisibleTerm q) : '/' ∉ q := by
  induction hq with
  | term hx => exact fun h ↦ (hx.plain h).2.2 rfl
  | relation hx hop hy =>
    rw [List.mem_append, List.mem_append, not_or, not_or]
    refine ⟨⟨fun h ↦ (hx.plain h).2.2 rfl, ?_⟩, fun h ↦ (hy.plain h).2.2 rfl⟩
    rcases hop with rfl | rfl | hop
    · decide
    · decide
    · exact hop.of_relations.notMem (by decide) (by decide)
  | group _ _ ih =>
    rw [Text.enclose, List.mem_append, List.mem_cons, List.mem_singleton, not_or, not_or]
    exact ⟨⟨by decide, ih⟩, by decide⟩
  | join _ hop _ ihp ihq =>
    rw [List.mem_append, List.mem_append, not_or, not_or]
    refine ⟨⟨ihp, ?_⟩, ihq⟩
    exact hop.of_booleans.notMem (by decide) (by decide)

end Cql

/-- **Queries are left as they are.** With the default settings, a repair returns every query of the
grammar unchanged. The placeholder numbers last for every query that fits in memory. -/
theorem repair_query (supply : KeySupply) {q : Text} (hq : Cql.Query Cql.IsTerm q)
    (hlen : q.length < 2 ^ 64) :
    (({} : Repairer).repair supply q).valid = true ∧
      (({} : Repairer).repair supply q).output = q := by
  obtain ⟨w, hw, hvisible, -⟩ := Cql.exists_visible_query hq
  obtain ⟨w', hcloses, hw', -⟩ := Cql.exists_closes_query hw
  obtain ⟨s, hs, -, hread⟩ := Cql.outcome_query hw'
  -- First the quoted runs go out of sight, then the groups are closed, and what is left is read.
  have hsight : visible q = w := by
    have h := hvisible []
    rwa [List.append_nil, show visible [] = [] from rfl, List.append_nil] at h
  have hclosed : Cql.closeGroups w = w' := by
    have h := hcloses.close []
    rwa [List.append_nil, show Cql.closeGroups [] = [] from rfl, List.append_nil] at h
  have hproper := Cql.isProper_query hq
  have hspaced := (Cql.solid_query hq).spaced fun c hc ↦ (hproper c hc).2
  have hsentinel : Placeholder.hasSentinel q = false := by
    rw [Placeholder.hasSentinel, List.any_eq_false]
    intro c hc
    rw [(hproper c hc).1]
    decide
  have hcount : (({} : Repairer).outline q).hidden.length ≤ 2 ^ 64 :=
    Nat.le_trans (Outline.length_hidden_run_le hsentinel _) (Nat.le_of_lt hlen)
  have hunchanged := unchanged_of_accepted (r := {}) supply hspaced hsentinel hcount
    (fun m hm ↦ by
      rw [hsight, ← List.append_nil w] at hm
      exact (hcloses.hits [] m hm).resolve_right (by simp))
    (fun c hc ↦ by
      obtain rfl : c = '/' := List.mem_singleton.mp hc
      rw [hsight, hclosed]
      exact Cql.slash_notMem_query hw')
    (by
      rw [hsight, hclosed, ← List.append_nil w', hread [] (by simp [Cql.NoLetter])]
      exact hs)
  exact ⟨hunchanged.valid, hunchanged.output⟩

/-- A group inside a group, with a quoted term in it. -/
theorem repair_query_nested :
    (({} : Repairer).repair {} "a AND ((b any \"c d\") or e = f)".toList).output
      = "a AND ((b any \"c d\") or e = f)".toList := by
  have hword : ∀ c ∈ "abef".toList, Cql.IsTerm [c] := by
    intro c hc
    rcases (by simpa using hc : c = 'a' ∨ c = 'b' ∨ c = 'e' ∨ c = 'f') with
      rfl | rfl | rfl | rfl <;> exact Or.inl ⟨by decide, List.all_eq_true.mp (by decide), by decide⟩
  have hquoted : Cql.IsTerm "\"c d\"".toList :=
    Or.inr ⟨"c d".toList, ⟨by decide, by decide, by simp [Text.isBlank], by decide⟩, rfl⟩
  have hany : Cql.IsRelation " any ".toList := Or.inr (Or.inr ⟨"any".toList, rfl, by decide⟩)
  have hequals : Cql.IsRelation " = ".toList := Or.inr (Or.inl rfl)
  have hor : Cql.IsKeyword Cql.booleans " or ".toList := ⟨"or".toList, rfl, by decide⟩
  have hand : Cql.IsKeyword Cql.booleans " AND ".toList := ⟨"AND".toList, rfl, by decide⟩
  have hinner : Cql.Query Cql.IsTerm "(b any \"c d\")".toList :=
    .group (.relation (hword 'b' (by decide)) hany hquoted) fun h ↦
      absurd (h.chars ' ' (by decide)) (by decide)
  have houter : Cql.Query Cql.IsTerm "((b any \"c d\") or e = f)".toList :=
    .group (.join hinner hor (.relation (hword 'e' (by decide)) hequals (hword 'f' (by decide))))
      fun h ↦ absurd (h.chars ' ' (by decide)) (by decide)
  exact (repair_query {} (.join (.term (hword 'a' (by decide))) hand houter) (by decide)).2

end PhraseRepair
