import Mathlib.Algebra.Group.Nat.Defs
import Mathlib.Data.Set.Function
import PhraseRepair.Proofs.Outline
import PhraseRepair.Restoration

/-!
# Resolving keys

Whatever order keys are resolved in, each step leaves unchanged what the token will read in the end:
the text with every hidden fragment written out, and the fragments in it, all the way down
(`meaning`). So restoring gives that text, as soon as resolving comes to an end.

The keys of a table may have any numbers, as long as no two fragments have the same one
(`numberedTable`). The keys of a spelt outline have the numbers that a supply gives out in turn,
which are different for the first `2 ^ 64` fragments (`injOn_number`).

## Why resolving ends

The step bound of `resolve` plays no part in where resolving stops. A step removes the earliest
fragment that occurs in the token, and brings in fragments that are earlier still. Written as a
binary number with one digit for every place, the set of the fragments in the token becomes smaller,
since a digit is cleared and only lower ones are set (`weight_reveal_lt`). For a table of `n`
entries it is below `2 ^ n`, which is below the bound.
-/

namespace PhraseRepair

/-- The loop that resolves a token comes to an end, with the given result: the earliest entry whose
key is left is applied until no key is left, without a bound on the number of steps. -/
inductive Table.ResolvesTo (table : Table) : Text → Text → Prop
  | done {t : Text} (h : table.firstMatch? t = none) : ResolvesTo table t t
  | step {t u : Text} {e : Entry} (h : table.firstMatch? t = some e)
      (rest : ResolvesTo table (e.apply t) u) : ResolvesTo table t u

namespace Table

theorem resolvesTo_resolveIn {table : Table} {k : Nat} {t : Text}
    (h : table.firstMatch? (table.resolveIn k t) = none) :
    table.ResolvesTo t (table.resolveIn k t) := by
  induction k generalizing t with
  | zero => exact .done h
  | succ k ih =>
    rw [resolveIn] at h ⊢
    split at h
    · next hmatch => exact .done hmatch
    · next e hmatch => exact .step hmatch (ih h)

theorem resolveIn_congr {table table' : Table} (h : ∀ t, table.firstMatch? t = table'.firstMatch? t)
    (k : Nat) (t : Text) : table.resolveIn k t = table'.resolveIn k t := by
  induction k generalizing t with
  | zero => rfl
  | succ k ih =>
    rw [resolveIn, resolveIn, h]
    cases table'.firstMatch? t with
    | none => rfl
    | some e => exact ih _

end Table

namespace Outline

/-! ## What a fragment reads in the end

The recursion goes down along the places and gives nothing for a place that is not lower. In a table
that masking has made there is none, and then the equation holds that one wants to have
(`meaning_eq`). -/

/-- The text that the fragment in place `i` is restored to. -/
def meaning (hs : List Hidden) (i : Nat) : Text :=
  match hs[i]? with
  | none => []
  | some h => Veiled.fill (fun j ↦ if j < i then meaning hs j else []) h.replacement
termination_by i

theorem meaning_eq {hs : List Hidden} {i : Nat} {h : Hidden} (hi : hs[i]? = some h)
    (hwithin : ∀ a ∈ h.replacement, Within i a) :
    meaning hs i = Veiled.fill (meaning hs) h.replacement := by
  rw [meaning, hi]
  exact Veiled.fill_congr fun j hj ↦ if_pos (hwithin _ hj)

theorem meaning_append {hs hs' : List Hidden} {i : Nat} (hi : i < hs.length) :
    meaning (hs ++ hs') i = meaning hs i := by
  induction i using Nat.strongRecOn with
  | ind i ih =>
    rw [meaning, meaning, List.getElem?_append_left hi]
    split
    · rfl
    · refine Veiled.fill_congr fun j _ ↦ ?_
      by_cases hj : j < i
      · rw [if_pos hj, if_pos hj, ih j hj (Nat.lt_trans hj hi)]
      · rw [if_neg hj, if_neg hj]

/-! ## Writing one fragment out -/

/-- The phrase with `r` in place of the fragment `i`. -/
def reveal (i : Nat) (r s : Veiled Nat) : Veiled Nat :=
  Veiled.expand (fun j ↦ if j = i then r else [.hidden j]) s

theorem hidden_mem_reveal_iff {i j : Nat} {r s : Veiled Nat} :
    .hidden j ∈ reveal i r s ↔ (.hidden j ∈ s ∧ j ≠ i) ∨ (.hidden i ∈ s ∧ .hidden j ∈ r) := by
  rw [reveal, Veiled.expand, List.mem_flatMap]
  constructor
  · rintro ⟨a, ha, hj⟩
    cases a with
    | plain c => simp at hj
    | hidden k =>
      by_cases hk : k = i
      · exact Or.inr ⟨hk ▸ ha, by simpa [hk] using hj⟩
      · obtain rfl : j = k := by simpa [hk] using hj
        exact Or.inl ⟨ha, hk⟩
  · rintro (⟨hj, hne⟩ | ⟨hi, hj⟩)
    · exact ⟨_, hj, by simp [hne]⟩
    · exact ⟨_, hi, by simpa using hj⟩

theorem within_expand {m n : Nat} {g : Nat → Veiled Nat} (hg : ∀ j < m, ∀ a ∈ g j, Within n a)
    {s : Veiled Nat} (hs : ∀ a ∈ s, Within m a) : ∀ a ∈ Veiled.expand g s, Within n a := by
  intro a ha
  obtain ⟨b, hb, hab⟩ := List.mem_flatMap.mp ha
  cases b with
  | plain c => exact List.mem_singleton.mp hab ▸ hs _ hb
  | hidden j => exact hg j (hs _ hb) a hab

theorem within_reveal {m n i : Nat} (hmn : ∀ j < m, j ≠ i → j < n) {r s : Veiled Nat}
    (hr : ∀ a ∈ r, Within n a) (hs : ∀ a ∈ s, Within m a) : ∀ a ∈ reveal i r s, Within n a := by
  refine within_expand (fun j hj a ha ↦ ?_) hs
  by_cases hji : j = i
  · exact hr a (by simpa [hji] using ha)
  · obtain rfl : a = .hidden j := by simpa [hji] using ha
    exact hmn j hj hji

/-! ## The weight of a token -/

/-- The fragments of a phrase among the first `n`, read as a binary number. -/
def weight (s : Veiled Nat) : Nat → Nat
  | 0 => 0
  | n + 1 => weight s n + if .hidden n ∈ s then 2 ^ n else 0

theorem weight_lt (s : Veiled Nat) (n : Nat) : weight s n < 2 ^ n := by
  induction n with
  | zero => exact Nat.one_pos
  | succ n ih =>
    rw [weight, Nat.pow_succ]
    split <;> omega

theorem weight_eq_zero {s : Veiled Nat} {n : Nat} (h : ∀ i < n, .hidden i ∉ s) :
    weight s n = 0 := by
  induction n with
  | zero => rfl
  | succ n ih =>
    rw [weight, ih fun i hi ↦ h i (Nat.lt_succ_of_lt hi), if_neg (h n (Nat.lt_succ_self n))]

/-- Writing out the earliest fragment makes the weight smaller. -/
theorem weight_reveal_lt {s r : Veiled Nat} {i n : Nat} (hin : i < n) (hi : .hidden i ∈ s)
    (hfirst : ∀ j < i, .hidden j ∉ s) (hr : ∀ a ∈ r, Within i a) :
    weight (reveal i r s) n < weight s n := by
  have hnotMem : ∀ j, i ≤ j → .hidden j ∉ r := fun j hij hj ↦
    Nat.not_lt_of_le hij (hr _ hj)
  induction n with
  | zero => omega
  | succ n ih =>
    rw [weight, weight]
    by_cases hn : n = i
    · -- The digit of the fragment is cleared, and all lower digits together do not make it up.
      subst hn
      have hnot : .hidden n ∉ reveal n r s := by
        rw [hidden_mem_reveal_iff]
        rintro (⟨-, hne⟩ | ⟨-, hmem⟩)
        · exact hne rfl
        · exact hnotMem n (Nat.le_refl n) hmem
      rw [if_neg hnot, if_pos hi, weight_eq_zero hfirst, Nat.add_zero, Nat.zero_add]
      exact weight_lt _ n
    · -- A higher digit stays as it is.
      have hiff : .hidden n ∈ reveal i r s ↔ .hidden n ∈ s := by
        rw [hidden_mem_reveal_iff]
        constructor
        · rintro (⟨h, -⟩ | ⟨-, h⟩)
          · exact h
          · exact absurd h (hnotMem n (by omega))
        · exact fun h ↦ Or.inl ⟨h, hn⟩
      have ih := ih (by omega)
      by_cases hmem : .hidden n ∈ s
      · rw [if_pos (hiff.mpr hmem), if_pos hmem]
        omega
      · rw [if_neg (fun h ↦ hmem (hiff.mp h)), if_neg hmem]
        omega

theorem weight_pos {s : Veiled Nat} {i n : Nat} (hin : i < n) (hi : .hidden i ∈ s) :
    0 < weight s n := by
  induction n with
  | zero => omega
  | succ n ih =>
    rw [weight]
    by_cases hn : n = i
    · rw [hn, if_pos hi]
      exact Nat.add_pos_right _ Nat.one_le_two_pow
    · exact Nat.add_pos_left (ih (by omega)) _

/-! ## Keys with any numbers

All that resolving asks of the numbers in the keys is that no two fragments have the same one.
-/

/-- The key of the fragment in place `i`, which has the number `ν i`. -/
def numbered (letters : Text) (ν : Nat → UInt64) (i : Nat) : Text := Placeholder.text letters (ν i)

/-- The table of fragments whose keys have the numbers `ν`. -/
def numberedTable (letters : Text) (ν : Nat → UInt64) (fs : List Hidden) : Table :=
  ⟨(spellHidden (numbered letters ν) 0 fs).map Fragment.entry⟩

/-- Every fragment holds only fragments before it. -/
def Layered (fs : List Hidden) : Prop :=
  ∀ i h, fs[i]? = some h → ∀ a ∈ h.replacement, Within i a

theorem layered_iff {fs : List Hidden} :
    Layered fs ↔ ∀ f ∈ fs.zipIdx, ∀ a ∈ f.1.replacement, Within f.2 a :=
  ⟨fun h f hf ↦ h f.2 f.1 (List.mem_zipIdx_iff_getElem?.mp hf),
    fun h i f hi ↦ h (f, i) (List.mem_zipIdx_iff_getElem?.mpr hi)⟩

instance (fs : List Hidden) : Decidable (Layered fs) := decidable_of_iff _ layered_iff.symm

theorem WellFormed.layered {o : Outline} (ho : o.WellFormed) : Layered o.hidden :=
  fun i h hi ↦ (ho.replacement i h hi).2

theorem getElem?_entries_numberedTable (letters : Text) (ν : Nat → UInt64) (fs : List Hidden)
    (i : Nat) : (numberedTable letters ν fs).entries[i]? = fs[i]?.map fun h ↦
      ⟨numbered letters ν i, Veiled.fill (numbered letters ν) h.replacement⟩ := by
  rw [numberedTable, List.getElem?_map, getElem?_spellHidden, Option.map_map, Nat.zero_add]
  rfl

theorem size_numberedTable (letters : Text) (ν : Nat → UInt64) (fs : List Hidden) :
    (numberedTable letters ν fs).size = fs.length := by
  rw [Table.size, numberedTable, List.length_map, length_spellHidden]

theorem firstMatch?_numberedTable_eq_none (letters : Text) (ν : Nat → UInt64) (fs : List Hidden)
    {t : Text} (ht : Placeholder.hasSentinel t = false) :
    (numberedTable letters ν fs).firstMatch? t = none := by
  refine Table.firstMatch?_eq_none_iff.mpr fun e he hinf ↦ ?_
  obtain ⟨i, hi⟩ := List.mem_iff_getElem?.mp he
  rw [getElem?_entries_numberedTable, Option.map_eq_some_iff] at hi
  obtain ⟨h, -, rfl⟩ := hi
  have hopening := Placeholder.hasSentinel_eq_false_iff.mp ht Placeholder.opening
    (hinf.subset List.mem_cons_self)
  exact absurd hopening (by decide)

/-! ### What is left unchanged

The invariant of resolving is the text that a token reads in the end. An entry replaces a key by its
replacement, and both read the same, so it does not matter for the invariant which entry is applied,
in which order, and how often. -/

theorem hasSentinel_fill_eq_false {f : Nat → Text} {n : Nat}
    (hf : ∀ i < n, Placeholder.hasSentinel (f i) = false) {s : Veiled Nat}
    (hs : ∀ a ∈ s, Within n a) : Placeholder.hasSentinel (Veiled.fill f s) = false := by
  rw [Placeholder.hasSentinel, Veiled.fill, List.any_flatMap, List.any_eq_false]
  intro a ha
  cases a with
  | plain c => simpa [Symbol.write] using show Placeholder.isSentinel c = false from hs _ ha
  | hidden i => simpa [Symbol.write, Placeholder.hasSentinel] using hf i (hs _ ha)

section Meaning

variable {fs : List Hidden} (hfs : Layered fs)

include hfs

theorem Layered.within {i : Nat} {h : Hidden} (hi : fs[i]? = some h) :
    ∀ a ∈ h.replacement, Within fs.length a := fun a ha ↦
  (hfs i h hi a ha).mono (Nat.le_of_lt (List.getElem?_eq_some_iff.mp hi).1)

theorem hasSentinel_meaning (i : Nat) : Placeholder.hasSentinel (meaning fs i) = false := by
  -- A replacement is written with earlier fragments only.
  induction i using Nat.strongRecOn with
  | ind i ih =>
    cases hi : fs[i]? with
    | none =>
      rw [meaning, hi]
      rfl
    | some h =>
      have hwithin := hfs i h hi
      rw [meaning_eq hi hwithin]
      exact hasSentinel_fill_eq_false ih hwithin

theorem hasSentinel_fill_meaning {s : Veiled Nat} (hs : ∀ a ∈ s, Within fs.length a) :
    Placeholder.hasSentinel (Veiled.fill (meaning fs) s) = false :=
  hasSentinel_fill_eq_false (fun i _ ↦ hasSentinel_meaning hfs i) hs

theorem fill_meaning_reveal {i : Nat} {h : Hidden} (hi : fs[i]? = some h) (s : Veiled Nat) :
    Veiled.fill (meaning fs) (reveal i h.replacement s) = Veiled.fill (meaning fs) s := by
  rw [reveal, Veiled.fill_expand]
  refine Veiled.fill_congr fun j _ ↦ ?_
  by_cases hj : j = i
  · rw [if_pos hj, hj, meaning_eq hi (hfs i h hi)]
  · rw [if_neg hj, Veiled.fill_hidden, Veiled.fill_nil, List.append_nil]

end Meaning

/-! ### Applying an entry

Replacing acts on texts, and what is known is known of symbols. A key that is found in a token is
the key of a hidden fragment, so replacing it in the text is revealing it among the symbols, and the
result is again a phrase filled with keys. -/

/-- The phrase with `r` in place of every fragment that has the number of the fragment `i`. -/
def revealNumber (ν : Nat → UInt64) (i : Nat) (r s : Veiled Nat) : Veiled Nat :=
  Veiled.expand (fun j ↦ if ν j = ν i then r else [.hidden j]) s

theorem within_revealNumber {ν : Nat → UInt64} {n i : Nat} {r s : Veiled Nat}
    (hr : ∀ a ∈ r, Within n a) (hs : ∀ a ∈ s, Within n a) :
    ∀ a ∈ revealNumber ν i r s, Within n a := by
  refine within_expand (fun j hj a ha ↦ ?_) hs
  split at ha
  · exact hr a ha
  · rw [List.mem_singleton.mp ha]
    exact hj

/-- Where no two fragments have the same number, a number reveals a single fragment. -/
theorem revealNumber_eq_reveal {ν : Nat → UInt64} {n i : Nat} (hν : Set.InjOn ν {i | i < n})
    (hi : i < n) (r : Veiled Nat) {s : Veiled Nat} (hs : ∀ a ∈ s, Within n a) :
    revealNumber ν i r s = reveal i r s := by
  refine List.flatMap_congr fun a ha ↦ ?_
  cases a with
  | plain c => rfl
  | hidden j => simp only [hν.eq_iff (hs _ ha : j < n) hi]

/-- A text that is written with numbered keys and, if no two fragments have the same number, reads
in the end as the symbols do. -/
def ReadsAs (letters : Text) (ν : Nat → UInt64) (fs : List Hidden) (s : Veiled Nat) (t : Text) :
    Prop :=
  ∃ s', t = Veiled.fill (numbered letters ν) s' ∧ (∀ a ∈ s', Within fs.length a) ∧
    (Set.InjOn ν {i | i < fs.length} →
      Veiled.fill (meaning fs) s' = Veiled.fill (meaning fs) s)

section Numbered

variable {letters : Text} (hletters : ∀ c ∈ letters, c.isAlpha = true) {ν : Nat → UInt64}

include hletters

/-- Replacing a key reveals all fragments that have its number. -/
theorem replaceAll_fill_numbered (i : Nat) (r : Veiled Nat) {s : Veiled Nat} (hs : s.Clean) :
    Text.replaceAll (numbered letters ν i) (Veiled.fill (numbered letters ν) r)
        (Veiled.fill (numbered letters ν) s)
      = Veiled.fill (numbered letters ν) (revealNumber ν i r s) := by
  have hreplace := Placeholder.replaceAll_fill ν hletters (ν i)
    (Veiled.fill (numbered letters ν) r) hs
  rw [numbered, show Veiled.fill (numbered letters ν) s
    = Veiled.fill (fun i ↦ Placeholder.text letters (ν i)) s from rfl, hreplace,
    revealNumber, Veiled.fill_expand]
  refine Veiled.fill_congr fun j _ ↦ ?_
  split
  · rfl
  · rw [Veiled.fill_hidden, Veiled.fill_nil, List.append_nil, numbered]

theorem pieces_fill_numbered (s : Veiled Nat) :
    Text.pieces (Veiled.fill (numbered letters ν) s)
      = (Veiled.pieces s).map (Veiled.fill (numbered letters ν)) :=
  Veiled.pieces_fill fun _ _ ↦ (Placeholder.isVeil_text hletters _).notMem (by decide)

section Round

variable {fs : List Hidden} (hfs : Layered fs)

include hfs

/-- Applying an entry does not change what a token reads in the end. -/
theorem readsAs_apply {e : Entry} (he : e ∈ (numberedTable letters ν fs).entries)
    {s : Veiled Nat} (hs : ∀ a ∈ s, Within fs.length a) :
    ReadsAs letters ν fs s (e.apply (Veiled.fill (numbered letters ν) s)) := by
  obtain ⟨i, hi⟩ := List.mem_iff_getElem?.mp he
  rw [getElem?_entries_numberedTable, Option.map_eq_some_iff] at hi
  obtain ⟨h, hi, rfl⟩ := hi
  refine ⟨revealNumber ν i h.replacement s, replaceAll_fill_numbered hletters i h.replacement
    (clean_of_within hs), within_revealNumber (hfs.within hi) hs, fun hν ↦ ?_⟩
  rw [revealNumber_eq_reveal hν (List.getElem?_eq_some_iff.mp hi).1 _ hs,
    fill_meaning_reveal hfs hi]

private theorem readsAs_foldl {es : List Entry}
    (hes : ∀ e ∈ es, e ∈ (numberedTable letters ν fs).entries) {s : Veiled Nat}
    (hs : ∀ a ∈ s, Within fs.length a) : ReadsAs letters ν fs s
      (es.foldl (fun t e ↦ e.apply t) (Veiled.fill (numbered letters ν) s)) := by
  induction es generalizing s with
  | nil => exact ⟨s, rfl, hs, fun _ ↦ rfl⟩
  | cons e es ih =>
    obtain ⟨s₁, happly, hs₁, hmeaning₁⟩ := readsAs_apply hletters hfs (hes e List.mem_cons_self) hs
    obtain ⟨s₂, hfold, hs₂, hmeaning₂⟩ := ih (fun d hd ↦ hes d (List.mem_cons_of_mem _ hd)) hs₁
    refine ⟨s₂, ?_, hs₂, fun h ↦ (hmeaning₂ h).trans (hmeaning₁ h)⟩
    rw [List.foldl_cons, happly, hfold]

theorem readsAs_apply_table {s : Veiled Nat} (hs : ∀ a ∈ s, Within fs.length a) :
    ReadsAs letters ν fs s
      ((numberedTable letters ν fs).apply (Veiled.fill (numbered letters ν) s)) :=
  readsAs_foldl hletters hfs (fun _ he ↦ he) hs

end Round

/-! ### Resolving -/

theorem numbered_infix_fill_iff {n : Nat} (hν : Set.InjOn ν {i | i < n}) {s : Veiled Nat}
    (hs : ∀ a ∈ s, Within n a) {i : Nat} (hi : i < n) :
    numbered letters ν i <:+: Veiled.fill (numbered letters ν) s ↔ .hidden i ∈ s := by
  have hiff := Placeholder.text_infix_fill_iff ν hletters (n := ν i) (clean_of_within hs)
  rw [numbered, show numbered letters ν = fun i ↦ Placeholder.text letters (ν i) from rfl, hiff]
  constructor
  · rintro ⟨j, hj, h⟩
    rwa [← hν (hs _ hj) hi h]
  · exact fun h ↦ ⟨i, h, rfl⟩

variable {fs : List Hidden} (hν : Set.InjOn ν {i | i < fs.length}) {s : Veiled Nat}

include hν

/-- The entry that resolving applies next is that of the earliest fragment in the token. -/
theorem exists_of_firstMatch?_eq_some (hs : ∀ a ∈ s, Within fs.length a) {e : Entry}
    (he : (numberedTable letters ν fs).firstMatch? (Veiled.fill (numbered letters ν) s)
      = some e) :
    ∃ i h, fs[i]? = some h ∧ .hidden i ∈ s ∧ (∀ j < i, .hidden j ∉ s) ∧
      e.apply (Veiled.fill (numbered letters ν) s)
        = Veiled.fill (numbered letters ν) (reveal i h.replacement s) := by
  obtain ⟨hoccurs, i, hlt, hi, hfirst⟩ := List.find?_eq_some_iff_getElem.mp he
  have hi' : (numberedTable letters ν fs).entries[i]? = some e :=
    List.getElem?_eq_some_iff.mpr ⟨hlt, hi⟩
  rw [← Table.size, size_numberedTable] at hlt
  rw [getElem?_entries_numberedTable, Option.map_eq_some_iff] at hi'
  obtain ⟨h, hh, rfl⟩ := hi'
  rw [Text.occursIn_iff, numbered_infix_fill_iff hletters hν hs hlt] at hoccurs
  refine ⟨i, h, hh, hoccurs, fun j hj hmem ↦ ?_, ?_⟩
  · have hj' : j < fs.length := Nat.lt_trans hj hlt
    have hkey := (numbered_infix_fill_iff hletters hν hs hj').mpr hmem
    have hentry := getElem?_entries_numberedTable letters ν fs j
    rw [List.getElem?_eq_getElem hj', Option.map_some, List.getElem?_eq_some_iff] at hentry
    obtain ⟨hj'', hentry⟩ := hentry
    have hnot := hfirst j hj
    rw [hentry, Bool.not_eq_true', ← Bool.not_eq_true, Text.occursIn_iff] at hnot
    exact hnot hkey
  · rw [← revealNumber_eq_reveal hν hlt _ hs]
    exact replaceAll_fill_numbered hletters i h.replacement (clean_of_within hs)

variable (hfs : Layered fs) (hs : ∀ a ∈ s, Within fs.length a)

include hfs hs

/-- **Resolving.** As many steps as the weight of the token are enough to resolve it. -/
theorem resolveIn_fill {k : Nat} (hk : weight s fs.length ≤ k) :
    (numberedTable letters ν fs).resolveIn k (Veiled.fill (numbered letters ν) s)
      = Veiled.fill (meaning fs) s := by
  have hnone : ∀ s : Veiled Nat, (∀ i, .hidden i ∉ s) →
      Veiled.fill (numbered letters ν) s = Veiled.fill (meaning fs) s :=
    fun s h ↦ Veiled.fill_of_forall_not_hidden h _ _
  induction k generalizing s with
  | zero =>
    -- Without weight, no fragment is left.
    rw [Table.resolveIn]
    refine hnone s fun i hi ↦ ?_
    have := weight_pos (hs _ hi) hi
    omega
  | succ k ih =>
    rw [Table.resolveIn]
    split
    · next hmatch =>
      refine hnone s fun i hi ↦ ?_
      have hlt : i < fs.length := hs _ hi
      have hentry := getElem?_entries_numberedTable letters ν fs i
      rw [List.getElem?_eq_getElem hlt, Option.map_some] at hentry
      exact Table.firstMatch?_eq_none_iff.mp hmatch _ (List.mem_of_getElem? hentry)
        ((numbered_infix_fill_iff hletters hν hs hlt).mpr hi)
    · next e hmatch =>
      obtain ⟨i, h, hh, hi, hfirst, happly⟩ :=
        exists_of_firstMatch?_eq_some hletters hν hs hmatch
      have hless := weight_reveal_lt (hs _ hi) hi hfirst (hfs i h hh)
      rw [happly, ih (within_reveal (fun _ hj _ ↦ hj) (hfs.within hh) hs) (by omega),
        fill_meaning_reveal hfs hh]

theorem resolve_fill_numbered :
    (numberedTable letters ν fs).resolve (Veiled.fill (numbered letters ν) s)
      = Veiled.fill (meaning fs) s := by
  refine resolveIn_fill hletters hν hfs hs (Nat.le_of_lt ?_)
  rw [Table.stepBound, size_numberedTable]
  exact Nat.lt_of_lt_of_le (weight_lt s _) (Nat.pow_le_pow_right Nat.two_pos (Nat.le_add_right _ _))

/-- What a token reads in the end is what resolving leaves of it after one round of the table. -/
theorem resolve_apply_fill_numbered :
    (numberedTable letters ν fs).resolve
        ((numberedTable letters ν fs).apply (Veiled.fill (numbered letters ν) s))
      = Veiled.fill (meaning fs) s := by
  obtain ⟨s', happly, hs', hmeaning⟩ := readsAs_apply_table hletters hfs hs
  rw [happly, resolve_fill_numbered hletters hν hfs hs', hmeaning hν]

/-- **Restoring.** The tokens of a phrase with numbered keys are its pieces with every fragment
written out, without the empty ones. -/
theorem restore_fill_numbered :
    (numberedTable letters ν fs).restore (Veiled.fill (numbered letters ν) s)
      = ((Veiled.pieces s).map (Veiled.fill (meaning fs))).filter (! ·.isEmpty) := by
  rw [Table.restore, Table.looseTokens, pieces_fill_numbered hletters, List.map_map, List.map_map]
  refine congrArg _ (List.map_congr_left fun p hp ↦ ?_)
  rw [Function.comp_apply, Function.comp_apply]
  exact resolve_apply_fill_numbered hletters hν hfs
    fun a ha ↦ hs a (Text.mem_of_mem_splitOnP hp ha)

end Numbered

/-! ## Keys from a supply -/

/-- The number that a supply gives out in place `i`. -/
def number (supply : KeySupply) (i : Nat) : UInt64 := (supply.advance i).next

theorem table_spell (letters : Text) (supply : KeySupply) (o : Outline) :
    (o.spell letters supply).table = numberedTable letters (number supply) o.hidden := rfl

theorem next_advance_eq_iff {supply : KeySupply} {i j : Nat} :
    (supply.advance i).next = (supply.advance j).next ↔ i % 2 ^ 64 = j % 2 ^ 64 := by
  rw [KeySupply.advance, KeySupply.advance, UInt64.add_right_inj, ← UInt64.toNat_inj,
    UInt64.toNat_ofNat', UInt64.toNat_ofNat']

/-- The numbers of a supply repeat only once all of them have been given out. -/
theorem next_advance_injective {supply : KeySupply} {i j : Nat} (hi : i < 2 ^ 64) (hj : j < 2 ^ 64)
    (h : (supply.advance i).next = (supply.advance j).next) : i = j := by
  rwa [next_advance_eq_iff, Nat.mod_eq_of_lt hi, Nat.mod_eq_of_lt hj] at h

theorem injOn_number (supply : KeySupply) {n : Nat} (hn : n ≤ 2 ^ 64) :
    Set.InjOn (number supply) {i | i < n} := fun _ hi _ hj h ↦
  next_advance_injective (Nat.lt_of_lt_of_le hi hn) (Nat.lt_of_lt_of_le hj hn) h

/-- The phrase with `r` in place of every fragment that has the key of the fragment `i`. -/
def revealKey (i : Nat) (r s : Veiled Nat) : Veiled Nat :=
  Veiled.expand (fun j ↦ if j % 2 ^ 64 = i % 2 ^ 64 then r else [.hidden j]) s

theorem revealNumber_number (supply : KeySupply) (i : Nat) (r s : Veiled Nat) :
    revealNumber (number supply) i r s = revealKey i r s := by
  simp only [revealNumber, number, next_advance_eq_iff, revealKey]

theorem within_revealKey {n i : Nat} {r s : Veiled Nat} (hr : ∀ a ∈ r, Within n a)
    (hs : ∀ a ∈ s, Within n a) : ∀ a ∈ revealKey i r s, Within n a :=
  revealNumber_number {} i r s ▸ within_revealNumber hr hs

theorem getElem?_entries_spell (letters : Text) (supply : KeySupply) (o : Outline) (i : Nat) :
    (o.spell letters supply).table.entries[i]? = o.hidden[i]?.map fun h ↦
      ⟨key letters supply i, Veiled.fill (key letters supply) h.replacement⟩ :=
  getElem?_entries_numberedTable letters (number supply) o.hidden i

section Supply

variable {letters : Text} (hletters : ∀ c ∈ letters, c.isAlpha = true) {supply : KeySupply}

include hletters

theorem replaceAll_fill_key (i : Nat) (r : Veiled Nat) {s : Veiled Nat} (hs : s.Clean) :
    Text.replaceAll (key letters supply i) (Veiled.fill (key letters supply) r)
        (Veiled.fill (key letters supply) s)
      = Veiled.fill (key letters supply) (revealKey i r s) := by
  have hreplace := replaceAll_fill_numbered hletters (ν := number supply) i r hs
  rwa [revealNumber_number] at hreplace

theorem key_infix_fill_iff {n : Nat} (hn : n ≤ 2 ^ 64) {s : Veiled Nat}
    (hs : ∀ a ∈ s, Within n a) {i : Nat} (hi : i < n) :
    key letters supply i <:+: Veiled.fill (key letters supply) s ↔ .hidden i ∈ s :=
  numbered_infix_fill_iff hletters (injOn_number _ hn) hs hi

variable {o : Outline} (hlen : o.hidden.length ≤ 2 ^ 64) (ho : o.WellFormed) {s : Veiled Nat}
  (hs : ∀ a ∈ s, Within o.hidden.length a)

include hlen ho hs

theorem resolve_fill :
    (o.spell letters supply).table.resolve (Veiled.fill (key letters supply) s)
      = Veiled.fill (meaning o.hidden) s :=
  resolve_fill_numbered hletters (injOn_number _ hlen) ho.layered hs

theorem restore_fill :
    (o.spell letters supply).table.restore (Veiled.fill (key letters supply) s)
      = ((Veiled.pieces s).map (Veiled.fill (meaning o.hidden))).filter (! ·.isEmpty) :=
  restore_fill_numbered hletters (injOn_number _ hlen) ho.layered hs

end Supply

/-! ## Keys that repeat

Once a supply has given out all of its numbers, keys repeat. Then the earliest entry with a key is
the only one that resolving ever applies, and dropping the others changes nothing.
-/

/-- The outline without the fragments whose keys already stand for earlier ones. -/
def distinct (o : Outline) : Outline where
  symbols := Veiled.rename (· % 2 ^ 64) o.symbols
  hidden := o.hidden.take (2 ^ 64)

theorem key_mod (letters : Text) (supply : KeySupply) (i : Nat) :
    key letters supply (i % 2 ^ 64) = key letters supply i := by
  rw [key, key, next_advance_eq_iff.mpr (Nat.mod_mod i (2 ^ 64))]

theorem fill_key_rename_mod (letters : Text) (supply : KeySupply) (s : Veiled Nat) :
    Veiled.fill (key letters supply) (Veiled.rename (· % 2 ^ 64) s)
      = Veiled.fill (key letters supply) s := by
  rw [Veiled.fill_rename]
  exact Veiled.fill_congr fun i _ ↦ key_mod letters supply i

theorem within_rename_mod {o : Outline} {s : Veiled Nat} (hs : ∀ a ∈ s, Within o.hidden.length a) :
    ∀ a ∈ Veiled.rename (· % 2 ^ 64) s, Within o.distinct.hidden.length a := by
  intro a ha
  obtain ⟨b, hb, rfl⟩ := List.mem_map.mp ha
  cases b with
  | plain c => exact hs _ hb
  | hidden i =>
    have hi : i < o.hidden.length := hs _ hb
    have hmod : i % 2 ^ 64 < 2 ^ 64 := Nat.mod_lt _ (Nat.two_pow_pos 64)
    rw [distinct, List.length_take]
    exact Nat.lt_min.mpr ⟨hmod, Nat.lt_of_le_of_lt (Nat.mod_le _ _) hi⟩

theorem wellFormed_distinct {o : Outline} (ho : o.WellFormed) : o.distinct.WellFormed := by
  refine ⟨within_rename_mod ho.symbols, fun i h hi ↦ ho.replacement i h ?_⟩
  rw [distinct, List.getElem?_take, Option.ite_none_right_eq_some] at hi
  exact hi.2

theorem entries_distinct (letters : Text) (supply : KeySupply) (o : Outline) :
    (o.distinct.spell letters supply).table.entries
      = (o.spell letters supply).table.entries.take (2 ^ 64) := by
  refine List.ext_getElem? fun i ↦ ?_
  rw [getElem?_entries_spell, distinct, List.getElem?_take, List.getElem?_take,
    getElem?_entries_spell]
  split <;> rfl

/-- The first match is the same without the repeated keys. -/
theorem firstMatch?_distinct (letters : Text) (supply : KeySupply) (o : Outline) (t : Text) :
    (o.spell letters supply).table.firstMatch? t
      = (o.distinct.spell letters supply).table.firstMatch? t := by
  rw [Table.firstMatch?, Table.firstMatch?, entries_distinct,
    ← List.take_append_drop (2 ^ 64) (o.spell letters supply).table.entries, List.find?_append,
    List.take_append_drop]
  cases hfirst : ((o.spell letters supply).table.entries.take (2 ^ 64)).find?
      fun e ↦ Text.occursIn e.key t with
  | some e => rfl
  | none =>
    rw [Option.none_or, List.find?_eq_none]
    rw [List.find?_eq_none] at hfirst
    intro e he hoccurs
    obtain ⟨i, hi⟩ := List.mem_iff_getElem?.mp he
    rw [List.getElem?_drop, getElem?_entries_spell, Option.map_eq_some_iff] at hi
    obtain ⟨h, hh, rfl⟩ := hi
    -- An entry with the same key stands among the first ones.
    have hmod : (2 ^ 64 + i) % 2 ^ 64 < 2 ^ 64 := Nat.mod_lt _ (Nat.two_pow_pos 64)
    have hlt : (2 ^ 64 + i) % 2 ^ 64 < o.hidden.length :=
      Nat.lt_of_le_of_lt (Nat.mod_le _ _) (List.getElem?_eq_some_iff.mp hh).1
    have hentry : ((o.spell letters supply).table.entries.take (2 ^ 64))[(2 ^ 64 + i) % 2 ^ 64]?
        = some ⟨key letters supply ((2 ^ 64 + i) % 2 ^ 64), Veiled.fill (key letters supply)
          o.hidden[(2 ^ 64 + i) % 2 ^ 64].replacement⟩ := by
      rw [List.getElem?_take, if_pos hmod, getElem?_entries_spell, List.getElem?_eq_getElem hlt,
        Option.map_some]
    refine hfirst _ (List.mem_of_getElem? hentry) ?_
    rw [key_mod]
    exact hoccurs

/-- Whether keys repeat or not, a token reads in the end what the first fragments with its keys
read. -/
theorem resolve_fill_distinct {letters : Text} (hletters : ∀ c ∈ letters, c.isAlpha = true)
    (supply : KeySupply) {o : Outline} (ho : o.WellFormed) {s : Veiled Nat}
    (hs : ∀ a ∈ s, Within o.hidden.length a) :
    (o.spell letters supply).table.resolve (Veiled.fill (key letters supply) s)
      = Veiled.fill (meaning o.distinct.hidden) (Veiled.rename (· % 2 ^ 64) s) := by
  have hlen : o.distinct.hidden.length ≤ 2 ^ 64 := by
    rw [distinct, List.length_take]
    exact Nat.min_le_left _ _
  rw [Table.resolve, Table.resolveIn_congr (firstMatch?_distinct letters supply o),
    ← fill_key_rename_mod]
  refine resolveIn_fill hletters (injOn_number _ hlen) (wellFormed_distinct ho).layered
    (within_rename_mod hs) (Nat.le_of_lt (Nat.lt_of_lt_of_le (weight_lt _ _) ?_))
  rw [Table.stepBound, table_spell, size_numberedTable, distinct, List.length_take]
  exact Nat.pow_le_pow_right Nat.two_pos
    (Nat.le_trans (Nat.min_le_right _ _) (Nat.le_add_right _ _))

/-- **Resolving ends.** The loop comes to its end for every token, whether keys repeat or not, and
leaves no sentinel. -/
theorem resolvesTo_resolve {letters : Text} (hletters : ∀ c ∈ letters, c.isAlpha = true)
    {supply : KeySupply} {o : Outline} (ho : o.WellFormed) {s : Veiled Nat}
    (hs : ∀ a ∈ s, Within o.hidden.length a) :
    (o.spell letters supply).table.ResolvesTo (Veiled.fill (key letters supply) s)
        ((o.spell letters supply).table.resolve (Veiled.fill (key letters supply) s)) ∧
      Placeholder.hasSentinel
        ((o.spell letters supply).table.resolve (Veiled.fill (key letters supply) s)) = false := by
  have hsentinel := hasSentinel_fill_meaning (wellFormed_distinct ho).layered (within_rename_mod hs)
  rw [← resolve_fill_distinct hletters supply ho hs] at hsentinel
  have hnone := firstMatch?_numberedTable_eq_none letters (number supply) o.hidden hsentinel
  exact ⟨Table.resolvesTo_resolveIn hnone, hsentinel⟩

end Outline

end PhraseRepair
