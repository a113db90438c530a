import PhraseRepair.Cql.Operator

/-!
# Reading an operator

No operator is the beginning of another one, so reading an operator is settled by the operators
alone and not by the order in which they are tried (`read_operator_eq_some_iff`). An operator starts
with a space or is a single sign, which leaves few places of a text to look at.
-/

namespace PhraseRepair.Cql

/-! ## The list of operators

There are nine operators, and what is used of them is checked on the list: that none begins another
one, and that each of them begins with a space or is a sign. Keywords are compared in lower case and
signs as they are. Since lowering changes upper-case letters only, a sign is compared with itself.
-/

theorem eq_of_toLower_eq {c d : Char} (h : c.toLower = d) (hd : d.isLower = false) : c = d := by
  by_cases hc : c.val ≥ 'A'.val ∧ c.val ≤ 'Z'.val
  · exfalso
    obtain rfl := (dif_pos hc : c.toLower = _).symm.trans h
    have hA := UInt32.le_iff_toNat_le.mp hc.1
    have hZ := UInt32.le_iff_toNat_le.mp hc.2
    rw [show 'A'.val.toNat = 65 from by decide] at hA
    rw [show 'Z'.val.toNat = 90 from by decide] at hZ
    have hval : (c.val + ('a'.val - 'A'.val)).toNat = c.val.toNat + 32 := by
      rw [UInt32.toNat_add, show ('a'.val - 'A'.val).toNat = 32 from by decide]
      omega
    change (decide (_ ≥ 'a'.val) && decide (_ ≤ 'z'.val)) = false at hd
    simp only [Bool.and_eq_false_iff, decide_eq_false_iff_not, ge_iff_le,
      UInt32.le_iff_toNat_le, hval] at hd
    rw [show 'a'.val.toNat = 97 from by decide, show 'z'.val.toNat = 122 from by decide] at hd
    omega
  · exact (dif_neg hc : c.toLower = c).symm.trans h

/-- The four characters at which an operator can start. -/
def opensOperator (c : Char) : Bool := c = ' ' || c = '=' || c = '(' || c = ')'

private theorem prefix_free : ∀ v ∈ operators, ∀ w ∈ operators, v <+: w → v = w := by
  decide +kernel

private theorem head_operators :
    ∀ w ∈ operators, (w.head?.any fun d ↦ opensOperator d && !d.isLower) = true := by
  decide

/-- **Reading an operator.** What is read is the beginning of the text that is one of the operators
in lower case. -/
theorem read_operator_eq_some_iff {t : Text} {m : Match} :
    operator.read t = some m ↔
      m.value = m.text ∧ m.text <+: t ∧ m.text.map Char.toLower ∈ operators := by
  constructor
  · intro h
    obtain ⟨head, hhead, rfl⟩ := Option.map_eq_some_iff.mp h
    obtain ⟨word, hword, hhead, hlower⟩ := operator?_eq_some hhead
    refine ⟨rfl, hhead ▸ List.take_prefix _ _, ?_⟩
    rw [hlower]
    exact hword
  · rintro ⟨hvalue, hpre, hword⟩
    have htake : t.take (m.text.map Char.toLower).length = m.text := by
      rw [List.length_map]
      exact (List.prefix_iff_eq_take.mp hpre).symm
    have hspell : spelling? (m.text.map Char.toLower) t = some m.text :=
      spelling?_eq_some.mpr ⟨htake.symm, rfl⟩
    -- Some operator is read, and it can be no other one.
    obtain ⟨head, hhead⟩ : ∃ head, operator? t = some head := by
      rw [← Option.isSome_iff_exists, operator?, List.findSome?_isSome_iff]
      exact ⟨_, hword, by rw [hspell]; rfl⟩
    obtain ⟨word, hword', hhead', hlower⟩ := operator?_eq_some hhead
    have heq : head = m.text := by
      have hpre' : head <+: t := hhead' ▸ List.take_prefix _ _
      rcases List.prefix_or_prefix_of_prefix hpre' hpre with h | h
      · refine h.eq_of_length ?_
        have hw := prefix_free _ (hlower ▸ hword') _ hword (h.map _)
        simpa using congrArg List.length hw
      · refine (h.eq_of_length ?_).symm
        have hw := prefix_free _ hword _ (hlower ▸ hword') (h.map _)
        simpa using congrArg List.length hw
    rw [show operator.read t = (operator? t).map fun head ↦ ⟨head, head⟩ from rfl, hhead, heq]
    cases m
    simp_all

theorem value_eq_text_of_read {t : Text} {m : Match} (h : operator.read t = some m) :
    m.value = m.text := (read_operator_eq_some_iff.mp h).1

theorem read_operator_eq_none_iff {t : Text} :
    operator.read t = none ↔ ∀ w, w <+: t → w.map Char.toLower ∉ operators := by
  rw [Option.eq_none_iff_forall_ne_some]
  constructor
  · intro h w hw hmem
    exact h ⟨w, w⟩ (read_operator_eq_some_iff.mpr ⟨rfl, hw, hmem⟩)
  · intro h m hm
    obtain ⟨-, hpre, hmem⟩ := read_operator_eq_some_iff.mp hm
    exact h _ hpre hmem

theorem read_operator_append {s : Text} {m : Match} (h : operator.read s = some m) (t : Text) :
    operator.read (s ++ t) = some m := by
  obtain ⟨hvalue, hpre, hmem⟩ := read_operator_eq_some_iff.mp h
  exact read_operator_eq_some_iff.mpr ⟨hvalue, hpre.trans (List.prefix_append _ _), hmem⟩

/-- No operator starts at an ordinary character. -/
theorem read_operator_cons_eq_none {c : Char} (hc : opensOperator c = false) (t : Text) :
    operator.read (c :: t) = none := by
  rw [read_operator_eq_none_iff]
  intro w hw hmem
  have hhead := head_operators _ hmem
  cases w with
  | nil => exact absurd hhead (by simp)
  | cons d w =>
    obtain ⟨rfl, -⟩ := List.cons_prefix_cons.mp hw
    simp only [List.map_cons, List.head?_cons, Option.any_some, Bool.and_eq_true,
      Bool.not_eq_true'] at hhead
    rw [← eq_of_toLower_eq rfl hhead.2, hc] at hhead
    exact absurd hhead.1 (by decide)

/-- The signs are operators wherever they stand. -/
theorem read_operator_sign {c : Char} (hc : c = '=' ∨ c = '(' ∨ c = ')') (t : Text) :
    operator.read (c :: t) = some ⟨[c], [c]⟩ := by
  refine read_operator_eq_some_iff.mpr ⟨rfl, ⟨t, rfl⟩, ?_⟩
  rcases hc with rfl | rfl | rfl <;> decide

theorem read_operator_keyword {w : Text} (hw : w.map Char.toLower ∈ operators) (t : Text) :
    operator.read (w ++ t) = some ⟨w, w⟩ :=
  read_operator_eq_some_iff.mpr ⟨rfl, List.prefix_append _ _, hw⟩

end PhraseRepair.Cql
