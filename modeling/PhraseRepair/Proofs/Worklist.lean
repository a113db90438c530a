import PhraseRepair.Proofs.Soundness

/-!
# One pass backwards

A masked phrase is restored in two stages. Every token has the table applied to it once, from the
first entry to the last, which leaves the keys that the replacements bring in. Then a worklist of
the tokens with a key is worked through: the token in front has the earliest entry applied to it
whose key is left, and stays in front until it holds none.

One pass over the table from the last entry to the first does the same in a single stage, as long as
a replacement holds keys of earlier entries only: when the turn of an entry comes, all replacements
that can bring its key in have been written out. Nothing else is asked of the table. Its keys may
have any numbers in any order, and a replacement may be empty or hold spaces.

Main statement: `Table.restore_backwards`.
-/

namespace PhraseRepair

namespace Table

/-! ## The worklist

The worklist is a relation and not a function, since nothing says in advance that working through it
comes to an end. It is deterministic, so if it ends, it ends with one result. No other token is
touched while the one in front is resolved, so it is enough that every token can be resolved by
itself. -/

/-- Working through the places that are pending turns the tokens into those in the end: the token in
front either holds no key, and is passed, or has the earliest entry applied to it whose key it
holds, and stays in front. -/
inductive Drains (table : Table) : List Text → List Nat → List Text → Prop
  | done {tokens : List Text} : Drains table tokens [] tokens
  | pass {tokens result : List Text} {i : Nat} {pending : List Nat} {t : Text}
      (ht : tokens[i]? = some t) (h : table.firstMatch? t = none)
      (rest : Drains table tokens pending result) : Drains table tokens (i :: pending) result
  | unnest {tokens result : List Text} {i : Nat} {pending : List Nat} {t : Text} {e : Entry}
      (ht : tokens[i]? = some t) (h : table.firstMatch? t = some e)
      (rest : Drains table (tokens.set i (e.apply t)) (i :: pending) result) :
      Drains table tokens (i :: pending) result

/-- The places of the tokens in which a key is left, counted from `i`. -/
def pendingFrom (table : Table) (i : Nat) (tokens : List Text) : List Nat :=
  ((tokens.zipIdx i).filter fun p ↦ (table.firstMatch? p.1).isSome).map Prod.snd

variable {table : Table}

theorem Drains.unique {tokens result result' : List Text} {pending : List Nat}
    (h : table.Drains tokens pending result) (h' : table.Drains tokens pending result') :
    result = result' := by
  induction h with
  | done =>
    cases h' with
    | done => rfl
  | pass ht hnone _ ih =>
    cases h' with
    | pass _ _ rest => exact ih rest
    | unnest ht' hsome _ =>
      obtain rfl := Option.some.inj (ht.symm.trans ht')
      exact absurd (hnone.symm.trans hsome) (by simp)
  | unnest ht hsome _ ih =>
    cases h' with
    | pass ht' hnone _ =>
      obtain rfl := Option.some.inj (ht.symm.trans ht')
      exact absurd (hnone.symm.trans hsome) (by simp)
    | unnest ht' hsome' rest =>
      obtain rfl := Option.some.inj (ht.symm.trans ht')
      obtain rfl := Option.some.inj (hsome.symm.trans hsome')
      exact ih rest

/-- The token in front is resolved before any other is looked at. -/
theorem ResolvesTo.drains {t u : Text} (h : table.ResolvesTo t u) {tokens result : List Text}
    {i : Nat} {pending : List Nat} (ht : tokens[i]? = some t)
    (rest : table.Drains (tokens.set i u) pending result) :
    table.Drains tokens (i :: pending) result := by
  induction h generalizing tokens with
  | done hnone =>
    obtain ⟨hi, rfl⟩ := List.getElem?_eq_some_iff.mp ht
    rw [List.set_getElem_self] at rest
    exact .pass ht hnone rest
  | step hsome _ ih =>
    have hi := (List.getElem?_eq_some_iff.mp ht).1
    refine .unnest ht hsome (ih (List.getElem?_set_self hi) ?_)
    rwa [List.set_set]

theorem ResolvesTo.eq_of_firstMatch?_eq_none {t u : Text} (h : table.ResolvesTo t u)
    (hnone : table.firstMatch? t = none) : u = t := by
  cases h with
  | done => rfl
  | step hsome _ => exact absurd (hnone.symm.trans hsome) (by simp)

theorem pendingFrom_cons_of_none {t : Text} (h : table.firstMatch? t = none) (i : Nat)
    (tokens : List Text) :
    table.pendingFrom i (t :: tokens) = table.pendingFrom (i + 1) tokens := by
  rw [pendingFrom, List.zipIdx_cons, List.filter_cons_of_neg (by simp [h]), ← pendingFrom]

theorem pendingFrom_cons_of_some {t : Text} {e : Entry} (h : table.firstMatch? t = some e)
    (i : Nat) (tokens : List Text) :
    table.pendingFrom i (t :: tokens) = i :: table.pendingFrom (i + 1) tokens := by
  rw [pendingFrom, List.zipIdx_cons, List.filter_cons_of_pos (by simp [h]), List.map_cons,
    ← pendingFrom]

private theorem drains_append {resolved : Text → Text} (before : List Text) {tokens : List Text}
    (h : ∀ t ∈ tokens, table.ResolvesTo t (resolved t)) :
    table.Drains (before ++ tokens) (table.pendingFrom before.length tokens)
      (before ++ tokens.map resolved) := by
  -- The tokens before the first pending one are as they will be in the end.
  induction tokens generalizing before with
  | nil => exact .done
  | cons t tokens ih =>
    obtain ⟨ht, htokens⟩ := List.forall_mem_cons.mp h
    have ih := ih (before ++ [resolved t]) htokens
    rw [List.append_assoc, List.append_assoc, List.length_append] at ih
    cases hmatch : table.firstMatch? t with
    | none =>
      rw [ht.eq_of_firstMatch?_eq_none hmatch] at ih
      rw [pendingFrom_cons_of_none hmatch, List.map_cons, ht.eq_of_firstMatch?_eq_none hmatch]
      exact ih
    | some e =>
      have hset : (before ++ t :: tokens).set before.length (resolved t)
          = before ++ ([resolved t] ++ tokens) := by simp
      rw [pendingFrom_cons_of_some hmatch]
      refine ht.drains (by simp) ?_
      rw [hset]
      exact ih

/-- Where every token can be resolved, the worklist resolves them all. -/
theorem drains_map {resolved : Text → Text} {tokens : List Text}
    (h : ∀ t ∈ tokens, table.ResolvesTo t (resolved t)) :
    table.Drains tokens (table.pendingFrom 0 tokens) (tokens.map resolved) :=
  drains_append [] h

end Table

/-! ## One pass

The induction goes down along the table. After the entries from a place on have been applied, the
phrase holds fragments before that place only: this is the invariant. -/

/-- The text after each entry has been applied once, from the last to the first. -/
def Table.applyBackwards (table : Table) (t : Text) : Text := table.entries.foldr Entry.apply t

namespace Outline

section Backwards

variable {letters : Text} (hletters : ∀ c ∈ letters, c.isAlpha = true) {ν : Nat → UInt64}
  {fs : List Hidden} (hν : Set.InjOn ν {i | i < fs.length}) (hfs : Layered fs)

include hletters hν hfs

/-- The first entries of a table, applied backwards, write out all fragments of a phrase that holds
no later ones. -/
theorem foldr_apply_fill {n : Nat} (hn : n ≤ fs.length) {s : Veiled Nat}
    (hs : ∀ a ∈ s, Within n a) :
    ((numberedTable letters ν fs).entries.take n).foldr Entry.apply
        (Veiled.fill (numbered letters ν) s)
      = Veiled.fill (meaning fs) s := by
  induction n generalizing s with
  | zero => exact Veiled.fill_of_forall_not_hidden (fun i hi ↦ Nat.not_lt_zero i (hs _ hi)) _ _
  | succ n ih =>
    have hi : fs[n]? = some fs[n] := List.getElem?_eq_getElem hn
    have hlast : ∀ a ∈ s, Within fs.length a := fun a ha ↦ (hs a ha).mono hn
    have happly := replaceAll_fill_numbered hletters (ν := ν) n fs[n].replacement
      (clean_of_within hs)
    rw [revealNumber_eq_reveal hν hn _ hlast] at happly
    -- No fragment from the place `n` on is left once the entry there has been applied.
    have hwithin : ∀ a ∈ reveal n fs[n].replacement s, Within n a :=
      within_reveal (fun j hj hne ↦ by omega) (hfs n _ hi) hs
    rw [List.take_add_one, getElem?_entries_numberedTable, hi, Option.map_some,
      Option.toList_some, List.foldr_append, List.foldr_cons, List.foldr_nil, Entry.apply, happly,
      ih (Nat.le_of_succ_le hn) hwithin, fill_meaning_reveal hfs hi]

theorem applyBackwards_fill {s : Veiled Nat} (hs : ∀ a ∈ s, Within fs.length a) :
    (numberedTable letters ν fs).applyBackwards (Veiled.fill (numbered letters ν) s)
      = Veiled.fill (meaning fs) s := by
  have hsize := size_numberedTable letters ν fs
  rw [← foldr_apply_fill hletters hν hfs (Nat.le_refl _) hs, Table.applyBackwards,
    List.take_of_length_le (Nat.le_of_eq hsize)]

/-- After one round of the table, resolving comes to an end with what one pass backwards gives. -/
theorem resolvesTo_applyBackwards {s : Veiled Nat} (hs : ∀ a ∈ s, Within fs.length a) :
    (numberedTable letters ν fs).resolve
        ((numberedTable letters ν fs).apply (Veiled.fill (numbered letters ν) s))
      = (numberedTable letters ν fs).applyBackwards (Veiled.fill (numbered letters ν) s) ∧
    (numberedTable letters ν fs).ResolvesTo
      ((numberedTable letters ν fs).apply (Veiled.fill (numbered letters ν) s))
      ((numberedTable letters ν fs).applyBackwards (Veiled.fill (numbered letters ν) s)) := by
  have hresolve := resolve_apply_fill_numbered hletters hν hfs hs
  have hsentinel := hasSentinel_fill_meaning hfs hs
  rw [← applyBackwards_fill hletters hν hfs hs] at hresolve hsentinel
  have hnone := firstMatch?_numberedTable_eq_none letters ν fs hsentinel
  rw [← hresolve, Table.resolve] at hnone
  refine ⟨hresolve, ?_⟩
  rw [← hresolve]
  exact Table.resolvesTo_resolveIn hnone

end Backwards

end Outline

/-! ## Tables with whole keys

A layered table is given by texts. They are read as symbols here: the keys have numbers, different
ones since the keys differ, and a replacement is a phrase filled with earlier keys. What the
fragments were taken out of is not known and not needed. -/

namespace Outline

theorem exists_fill_of_spelt {keys : List Text} {f : Nat → Text}
    (hf : ∀ i < keys.length, keys[i]? = some (f i)) {t : Text} (ht : Spelt keys t) :
    ∃ s, t = Veiled.fill f s ∧ ∀ a ∈ s, Within keys.length a := by
  induction ht with
  | nil => exact ⟨[], rfl, by simp⟩
  | plain hc _ ih =>
    obtain ⟨s, rfl, hs⟩ := ih
    exact ⟨.plain _ :: s, rfl, List.forall_mem_cons.mpr ⟨hc, hs⟩⟩
  | key hk _ ih =>
    obtain ⟨s, rfl, hs⟩ := ih
    obtain ⟨i, hi, rfl⟩ := List.mem_iff_getElem.mp hk
    have hkey := hf i hi
    rw [List.getElem?_eq_getElem hi, Option.some.injEq] at hkey
    exact ⟨.hidden i :: s, by rw [Veiled.fill_hidden, hkey], List.forall_mem_cons.mpr ⟨hi, hs⟩⟩

end Outline

namespace Table

open Outline (Hidden Within meaning numbered numberedTable)

section Whole

variable {letters : Text} {table : Table} (h : table.Layered letters)

include h

theorem Layered.exists_number :
    ∃ ν : Nat → UInt64, ∀ i < table.keys.length, table.keys[i]? = some (numbered letters ν i) := by
  have hnumber : ∀ i, ∃ n, i < table.keys.length →
      table.keys[i]? = some (Placeholder.text letters n) := by
    intro i
    by_cases hi : i < table.keys.length
    · obtain ⟨n, hn⟩ := h.key _ (List.getElem_mem hi)
      exact ⟨n, fun _ ↦ by rw [List.getElem?_eq_getElem hi, hn]⟩
    · exact ⟨0, fun hlt ↦ absurd hlt hi⟩
  choose ν hν using hnumber
  exact ⟨ν, hν⟩

theorem Layered.exists_replacement {ν : Nat → UInt64}
    (hν : ∀ i < table.keys.length, table.keys[i]? = some (numbered letters ν i)) :
    ∃ s : Nat → Veiled Nat, ∀ i e, table.entries[i]? = some e →
      e.replacement = Veiled.fill (numbered letters ν) (s i) ∧ ∀ a ∈ s i, Within i a := by
  have hreplacement : ∀ i, ∃ s : Veiled Nat, ∀ e, table.entries[i]? = some e →
      e.replacement = Veiled.fill (numbered letters ν) s ∧ ∀ a ∈ s, Within i a := by
    intro i
    cases hi : table.entries[i]? with
    | none => exact ⟨[], fun e he ↦ absurd he (by simp)⟩
    | some e =>
      have htake : ∀ j < (table.keys.take i).length,
          (table.keys.take i)[j]? = some (numbered letters ν j) := by
        intro j hj
        rw [List.length_take, Nat.lt_min] at hj
        rw [List.getElem?_take_of_lt hj.1, hν j hj.2]
      obtain ⟨s, hs, hwithin⟩ := Outline.exists_fill_of_spelt htake (h.replacement i e hi)
      refine ⟨s, fun d hd ↦ ⟨Option.some.inj hd ▸ hs, fun a ha ↦ (hwithin a ha).mono ?_⟩⟩
      exact List.length_take_le i table.keys
  choose s hs using hreplacement
  exact ⟨s, hs⟩

/-- A layered table is the table of fragments with numbers that are all different. -/
theorem Layered.exists_numberedTable :
    ∃ ν fs, table = numberedTable letters ν fs ∧ Set.InjOn ν {i | i < fs.length} ∧
      Outline.Layered fs := by
  obtain ⟨ν, hν⟩ := h.exists_number
  obtain ⟨s, hs⟩ := h.exists_replacement hν
  have hlength : table.keys.length = table.entries.length := List.length_map _
  refine ⟨ν, table.entries.mapIdx fun i _ ↦ ⟨[], s i⟩, ?_, fun i hi j hj hij ↦ ?_,
    fun i f hi ↦ ?_⟩
  · refine congrArg Table.mk (List.ext_getElem? fun i ↦ ?_)
    show table.entries[i]? = (numberedTable letters ν _).entries[i]?
    rw [Outline.getElem?_entries_numberedTable, List.getElem?_mapIdx]
    cases hi : table.entries[i]? with
    | none => rfl
    | some e =>
      have hkey := hν i (hlength ▸ (List.getElem?_eq_some_iff.mp hi).1)
      rw [keys, List.getElem?_map, hi, Option.map_some, Option.some.injEq] at hkey
      rw [Option.map_some, Option.map_some, ← hkey, ← (hs i e hi).1]
  · rw [Set.mem_ofPred_eq, List.length_mapIdx, ← hlength] at hi hj
    refine (List.getElem?_inj hi h.nodup).mp ?_
    rw [hν i hi, hν j hj, numbered, hij, numbered]
  · rw [List.getElem?_mapIdx, Option.map_eq_some_iff] at hi
    obtain ⟨e, he, rfl⟩ := hi
    exact (hs i e he).2

variable {phrase : Text} (hphrase : Spelt table.keys phrase)

include hphrase

theorem Layered.resolvesTo_applyBackwards {piece : Text} (hpiece : piece ∈ Text.pieces phrase) :
    table.resolve (table.apply piece) = table.applyBackwards piece ∧
      table.ResolvesTo (table.apply piece) (table.applyBackwards piece) := by
  obtain ⟨ν, fs, rfl, hν, hfs⟩ := h.exists_numberedTable
  have hkeys : ∀ i < (numberedTable letters ν fs).keys.length,
      (numberedTable letters ν fs).keys[i]? = some (numbered letters ν i) := by
    intro i hi
    rw [Outline.keys_numberedTable] at hi ⊢
    rw [List.length_map, List.length_range] at hi
    rw [List.getElem?_map, List.getElem?_range hi, Option.map_some]
  obtain ⟨s, rfl, hs⟩ := Outline.exists_fill_of_spelt hkeys hphrase
  rw [Outline.keys_numberedTable, List.length_map, List.length_range] at hs
  rw [Outline.pieces_fill_numbered h.isAlpha] at hpiece
  obtain ⟨p, hp, rfl⟩ := List.mem_map.mp hpiece
  exact Outline.resolvesTo_applyBackwards h.isAlpha hν hfs
    fun a ha ↦ hs a (Text.mem_of_mem_splitOnP hp ha)

end Whole

/-- **One pass backwards.** For every layered table and every phrase whose sentinels belong to its
keys, the worklist comes to its end, and leaves of every piece of the phrase what one pass over the
table from the last entry to the first makes of it. So these are the tokens that the phrase is
restored to, without the empty ones. -/
theorem restore_backwards {letters : Text} {table : Table} (h : table.Layered letters)
    {phrase : Text} (hphrase : Spelt table.keys phrase) :
    (∀ tokens, table.Drains (table.looseTokens phrase)
        (table.pendingFrom 0 (table.looseTokens phrase)) tokens ↔
      tokens = (Text.pieces phrase).map table.applyBackwards) ∧
    table.restore phrase
      = ((Text.pieces phrase).map table.applyBackwards).filter (! ·.isEmpty) := by
  have hresolve : (table.looseTokens phrase).map table.resolve
      = (Text.pieces phrase).map table.applyBackwards := by
    rw [looseTokens, List.map_map]
    refine List.map_congr_left fun piece hpiece ↦ ?_
    rw [Function.comp_apply, (h.resolvesTo_applyBackwards hphrase hpiece).1]
  have hends : ∀ token ∈ table.looseTokens phrase,
      table.ResolvesTo token (table.resolve token) := by
    intro token htoken
    obtain ⟨piece, hpiece, rfl⟩ := List.mem_map.mp htoken
    obtain ⟨heq, hend⟩ := h.resolvesTo_applyBackwards hphrase hpiece
    rwa [heq]
  have hdrains := drains_map hends
  rw [hresolve] at hdrains
  refine ⟨fun tokens ↦ ⟨fun htokens ↦ htokens.unique hdrains, ?_⟩, by rw [restore, hresolve]⟩
  rintro rfl
  exact hdrains

/-- A key that is resolved once more because a later one brings it in again, a replacement with a
space and an empty one, and numbers in no order. -/
theorem restore_backwards_of_nested_keys :
    ({ entries := [
        ⟨"\ue000z7\ue001".toList, "core".toList⟩,
        ⟨"\ue000z3\ue001".toList, "[\ue000z7\ue001 \ue000z7\ue001]".toList⟩,
        ⟨"\ue000z100\ue001".toList, []⟩,
        ⟨"\ue000z10\ue001".toList, "(\ue000z3\ue001\ue000z100\ue001\ue000z7\ue001)".toList⟩] }
      : Table).restore "a \ue000z10\ue001 \ue000z100\ue001 \ue000z3\ue001b".toList
      = ["a".toList, "([core core]core)".toList, "[core core]b".toList] := by
  have hlayered : (numberedTable "z".toList (fun i ↦ [7, 3, 100, 10].getD i 0)
      [⟨[], Veiled.ofText "core".toList⟩,
        ⟨[], [.plain '[', .hidden 0, .plain ' ', .hidden 0, .plain ']']⟩,
        ⟨[], []⟩,
        ⟨[], [.plain '(', .hidden 1, .hidden 2, .hidden 0, .plain ')']⟩]).Layered "z".toList := by
    have hnumbers : ∀ i < 4, ∀ j < 4,
        [7, 3, 100, 10].getD i (0 : UInt64) = [7, 3, 100, 10].getD j 0 → i = j := by decide
    exact Outline.layered_numberedTable (List.all_eq_true.mp (by decide))
      (fun i hi j hj ↦ hnumbers i hi j hj) (by decide)
  have hrestore := (restore_backwards hlayered (Outline.spelt_numbered (s := [.plain 'a',
    .plain ' ', .hidden 3, .plain ' ', .hidden 2, .plain ' ', .hidden 1, .plain 'b'])
      (by decide))).2
  exact hrestore.trans (by decide +kernel)

end Table

end PhraseRepair
