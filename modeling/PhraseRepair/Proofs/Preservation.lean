import PhraseRepair.Proofs.Undoing

/-!
# No text is lost

Spaces and double quotes are all that a repair adds to a phrase or takes from it. Without them, its
tokens one after the other are the normalized phrase (`repair_preserves_text`): nothing else is
lost, doubled, or moved, whatever mixture of quoted runs, groups and reserved characters the phrase
holds and whether or not its quotes and parentheses are paired.

Each stage is looked at for itself. Quoting a group adds quotes, isolating a character adds quotes
and spaces, and cutting a phrase into tokens takes spaces out.
-/

namespace PhraseRepair

/-- The text without its spaces and double quotes. -/
def Text.unspaced (t : Text) : Text := t.filter fun c ↦ c ≠ ' ' && c ≠ '"'

namespace Text

@[simp] theorem unspaced_append (s t : Text) : unspaced (s ++ t) = unspaced s ++ unspaced t :=
  List.filter_append s t

theorem unspaced_flatMap {α : Type} (g : α → Text) (s : List α) :
    unspaced (s.flatMap g) = s.flatMap fun a ↦ unspaced (g a) := List.filter_flatMap

@[simp] theorem unspaced_enclose_quotes (t : Text) : unspaced (enclose '"' '"' t) = unspaced t := by
  rw [enclose, unspaced_append, show '"' :: t = ['"'] ++ t from rfl, unspaced_append]
  exact List.append_nil _

end Text

namespace Veiled

variable {α : Type} (f : α → Text)

theorem flatten_tokens (s : Veiled α) :
    (tokens f s).flatten = s.flatMap fun a ↦ if a.isSpace then [] else a.write f := by
  rw [tokens, List.flatten_filter_not_isEmpty, ← Text.nil_intercalate]
  exact Text.intercalate_map_splitOnP Symbol.isSpace [] (Symbol.write f) s

/-- Cutting a phrase into tokens loses spaces only. -/
theorem unspaced_flatten_tokens (s : Veiled α) :
    Text.unspaced (tokens f s).flatten = Text.unspaced (fill f s) := by
  rw [flatten_tokens, fill, Text.unspaced_flatMap, Text.unspaced_flatMap]
  refine List.flatMap_congr fun a _ ↦ ?_
  split
  · next hspace =>
    rw [Symbol.eq_plain_of_isSpace hspace]
    rfl
  · rfl

theorem unspaced_fill_isolate (c : Char) (s : Veiled α) :
    Text.unspaced (fill f (Outline.isolate c s)) = Text.unspaced (fill f s) := by
  rw [Outline.isolate, fill, List.flatMap_assoc, fill, Text.unspaced_flatMap, Text.unspaced_flatMap]
  refine List.flatMap_congr fun a _ ↦ ?_
  rcases a with d | a
  · refine (congrArg Text.unspaced (fill_ofText f _)).trans ?_
    split
    · next hd =>
      -- Spaces and quotes are left out, and the character remains.
      rw [hd, show [' ', '"', c, '"', ' '] = [' ', '"'] ++ [c] ++ ['"', ' '] from rfl,
        Text.unspaced_append, Text.unspaced_append]
      exact List.append_nil _
    · rfl
  · exact congrArg Text.unspaced (List.append_nil (f a))

theorem unspaced_fill_isolateAll (cs : List Char) (s : Veiled α) :
    Text.unspaced (fill f (isolateAll cs s)) = Text.unspaced (fill f s) :=
  map_isolateAll_of_forall_eq (fun s ↦ Text.unspaced (fill f s)) (unspaced_fill_isolate f) cs s

end Veiled

theorem Part.unspaced_restored (p : Part) :
    Text.unspaced p.restored = Text.unspaced p.source := by
  rcases p with a | body | body
  · rfl
  · rfl
  · exact Text.unspaced_enclose_quotes _

section Preservation

variable (r : Repairer) (supply : KeySupply) {input : Text}

theorem unspaced_flatten_tokens_repair
    (hcount : (r.outline (normalize input)).hidden.length ≤ 2 ^ 64) :
    Text.unspaced (r.repair supply input).tokens.flatten = Text.unspaced (normalize input) := by
  have hparts : (r.parts input).flatMap Part.source = normalize input :=
    flatMap_source_parts r.settings.quoteBareGroups (normalize input)
  calc Text.unspaced (r.repair supply input).tokens.flatten
      = Text.unspaced (Veiled.fill (Veiled.fill id) (maskedParts (r.parts input))) := by
        rw [r.tokens_repair supply hcount, Veiled.unspaced_flatten_tokens, Repairer.maskedPhrase,
          Veiled.unspaced_fill_isolateAll]
    _ = Text.unspaced ((r.parts input).flatMap Part.source) := by
        rw [fill_maskedParts, Text.unspaced_flatMap, Text.unspaced_flatMap]
        exact List.flatMap_congr fun p _ ↦ p.unspaced_restored
    _ = Text.unspaced (normalize input) := by rw [hparts]

/-- **No text is lost, doubled or moved.** But for spaces and double quotes, the tokens of a repair
are the normalized phrase, one after the other. The output is these tokens with spaces between them
if the phrase is a query and with `and` between them if it is not, and no token is empty. The
placeholder numbers last for every phrase that fits in memory. -/
theorem repair_preserves_text (hlen : input.length < 2 ^ 64) :
    Text.unspaced (r.repair supply input).tokens.flatten = Text.unspaced (normalize input) ∧
      ((r.repair supply input).valid = true →
        (r.repair supply input).output = Text.joinWith [' '] (r.repair supply input).tokens) ∧
      ((r.repair supply input).valid = false →
        (r.repair supply input).output
          = Text.joinWith " and ".toList (r.repair supply input).tokens) ∧
      ∀ token ∈ (r.repair supply input).tokens, token ≠ [] := by
  refine ⟨unspaced_flatten_tokens_repair r supply (r.length_hidden_outline_le hlen),
    fun hvalid ↦ ?_, fun hvalid ↦ ?_, fun token ↦ Table.ne_nil_of_mem_restore⟩
  · rw [Report.output, hvalid, joinTokens, if_pos rfl]
  · rw [Report.output, hvalid, joinTokens, if_neg (by decide)]

end Preservation

/-- A quote and a parenthesis that are left open, around a reserved character and a quoted group. -/
theorem repair_preserves_text_unbalanced :
    Text.unspaced (({} : Repairer).repair {} "a/ (\"b c\" \"d\") (e \"".toList).tokens.flatten
      = "a/(bcd)(e".toList :=
  (repair_preserves_text {} {} (by decide +kernel)).1.trans (by decide +kernel)

end PhraseRepair
