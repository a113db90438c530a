import PhraseRepair.Proofs.Documents
import PhraseRepair.Proofs.Gathering
import PhraseRepair.Proofs.Preservation
import PhraseRepair.Proofs.References

/-!
# References in what is sent

A reference that needs a declaration makes a document malformed, since no envelope declares any. The
markup of an envelope holds no ampersand, so all references in a body stand in its escaped texts,
and those that need a declaration are spelled by the namespace URIs and by the texts of the
parameters, one by one and in order (`Client.carries_step`).

A search sends a phrase that has been repaired, and a repair writes quotes and spaces into a phrase
and takes spaces out. Neither makes a reference of what was none: it can only be that a reference of
the phrase is broken up (`references_output_repair`).

Main statement: `references_of_escape`.
-/

namespace PhraseRepair

/-! ## Texts that are broken up

Everything that a repair does to a phrase, in the order of its text, is to put in spaces and quotes
or to take spaces out. Putting in is a relation that is kept by appending, so it is proved part by
part.

Neither a space nor a quote is in a reference, so a reference of the broken text is one of the
original with nothing put in between. The converse fails, as a character of a reference may be
reserved. -/

/-- The second text is the first one with spaces and double quotes put in. -/
inductive Text.BrokenUp : Text → Text → Prop
  | nil : BrokenUp [] []
  | keep (c : Char) {s t : Text} (h : BrokenUp t s) : BrokenUp (c :: t) (c :: s)
  | put {c : Char} (hc : c = ' ' ∨ c = '"') {s t : Text} (h : BrokenUp t s) : BrokenUp t (c :: s)

namespace Text.BrokenUp

theorem refl (t : Text) : BrokenUp t t := by
  induction t with
  | nil => exact .nil
  | cons c t ih => exact .keep c ih

theorem trans {s t u : Text} (h : BrokenUp t s) (h' : BrokenUp s u) : BrokenUp t u := by
  induction h' generalizing t with
  | nil => exact h
  | keep c _ ih =>
    cases h with
    | keep _ h => exact .keep c (ih h)
    | put hc h => exact .put hc (ih h)
  | put hc _ ih => exact .put hc (ih h)

theorem append {s s' t t' : Text} (h : BrokenUp t s) (h' : BrokenUp t' s') :
    BrokenUp (t ++ t') (s ++ s') := by
  induction h with
  | nil => exact h'
  | keep c _ ih => exact .keep c ih
  | put hc _ ih => exact .put hc ih

theorem flatMap {β : Type} {f g : β → Text} {l : List β} (h : ∀ b ∈ l, BrokenUp (f b) (g b)) :
    BrokenUp (l.flatMap f) (l.flatMap g) := by
  induction l with
  | nil => exact .nil
  | cons b l ih =>
    obtain ⟨hb, hl⟩ := List.forall_mem_cons.mp h
    exact hb.append (ih hl)

theorem enclose_quotes (t : Text) : BrokenUp t (enclose '"' '"' t) := by
  have hquote : BrokenUp [] ['"'] := .put (Or.inr rfl) .nil
  have happend := (hquote.append (refl t)).append hquote
  rwa [List.append_nil] at happend

theorem of_append {s w : Text} (hw : ∀ c ∈ w, c ≠ ' ' ∧ c ≠ '"') {t : Text}
    (h : BrokenUp t (w ++ s)) : ∃ t', t = w ++ t' ∧ BrokenUp t' s := by
  induction w generalizing t with
  | nil => exact ⟨t, rfl, h⟩
  | cons c w ih =>
    obtain ⟨hc, hw⟩ := List.forall_mem_cons.mp hw
    cases h with
    | keep _ h =>
      obtain ⟨t', rfl, ht'⟩ := ih hw h
      exact ⟨t', rfl, ht'⟩
    | put hput _ => exact absurd hput (not_or.mpr hc)

end Text.BrokenUp

namespace Xml

/-- Breaking a text up can take references from it, and adds none. -/
theorem references_sublist {s t : Text} (h : Text.BrokenUp t s) :
    (references s).Sublist (references t) := by
  induction s using reference_induction generalizing t with
  | nil => exact List.nil_sublist _
  | reference body s hbody ih =>
    have hpart : ∀ c ∈ reference body, c ≠ ' ' ∧ c ≠ '"' := by
      intro c hc
      rw [reference, List.cons_append, List.mem_cons, List.mem_append, List.mem_singleton] at hc
      rcases hc with rfl | hc | rfl
      · decide
      · have hbodyPart := isBodyPart_of_isReferenceBody hbody c hc
        constructor <;> (rintro rfl; exact absurd hbodyPart (by decide))
      · decide
    -- Nothing has been put into the reference, so it stands in `t` as it is.
    obtain ⟨t', rfl, ht'⟩ := h.of_append hpart
    rw [references_reference_append hbody, references_reference_append hbody]
    exact (ih ht').cons_cons body
  | char c s hc ih =>
    rw [references_cons hc]
    cases h with
    | keep _ h => exact (ih h).trans (references_suffix (List.suffix_cons c _)).sublist
    | put _ h => exact ih h

/-- A character that no body holds cuts the references of a text apart. -/
theorem references_append_cons {c : Char} (hc : isBodyPart c = false) (hne : c ≠ ';')
    (s t : Text) : references (s ++ c :: t) = references s ++ references (c :: t) := by
  induction s using reference_induction with
  | nil => rfl
  | reference body s hbody ih =>
    rw [List.append_assoc, references_reference_append hbody, references_reference_append hbody, ih]
    rfl
  | char d s hd ih =>
    have hopen : d = '&' → completesReference (s ++ c :: t) = false := by
      refine fun heq ↦ Bool.eq_false_iff.mpr fun hcompletes ↦ ?_
      obtain ⟨body, rest, heq', -, hbody⟩ := exists_of_completes hcompletes
      -- The reference would have to end before the character, and so in `s`.
      have hnone : c ∉ body ++ [';'] := List.not_mem_append (notMem_of_isReferenceBody hbody hc)
        (by simpa using hne)
      rw [List.append_cons body] at heq'
      obtain ⟨w, rfl, -⟩ := Text.exists_of_append_eq_append_cons hnone heq'.symm
      rw [List.append_assoc] at hd
      exact Bool.false_ne_true ((hd heq).symm.trans
        ((completes_of_isReferenceBody hbody isReferenceBody w).trans hbody))
    rw [List.cons_append, references_cons hopen, references_cons hd, ih]

theorem references_joinWith {behind : Text} (hbehind : '&' ∉ behind) (ts : List Text) :
    references (Text.joinWith (' ' :: behind) ts) = ts.flatMap references := by
  induction ts with
  | nil => rfl
  | cons t ts ih =>
    cases ts with
    | nil => rw [Text.joinWith, List.intercalate_singleton, List.flatMap_singleton]
    | cons u ts =>
      rw [Text.joinWith] at ih
      rw [Text.joinWith, List.intercalate_cons_cons, List.append_assoc, List.cons_append,
        references_append_cons (by decide) (by decide), references_cons_of_ne (by decide),
        references_append_of_notMem hbehind, ih, ← List.flatMap_cons]

end Xml

/-! ## Repaired phrases

Both joiners begin with a space, and a space separates the references on its two sides. So joining
tokens gives their references one after the other, and these are the references of the phrase before
it was cut. -/

open Xml (references)

theorem references_joinTokens {α : Type} (isQuery : Bool) (f : α → Text) (s : Veiled α) :
    references (joinTokens isQuery (Veiled.tokens f s)) = references (Veiled.fill f s) := by
  have hjoin : ∀ ts, references (joinTokens isQuery ts) = ts.flatMap references := by
    intro ts
    cases isQuery with
    | true => exact Xml.references_joinWith List.not_mem_nil ts
    | false =>
      have hand : '&' ∉ "and ".toList := by decide
      exact Xml.references_joinWith hand ts
  have hempty : ∀ ts : List Text, (ts.filter (! ·.isEmpty)).flatMap references
      = ts.flatMap references := by
    intro ts
    induction ts with
    | nil => rfl
    | cons t ts ih => cases t <;> simp [ih, references]
  rw [hjoin, Veiled.tokens, hempty,
    ← Xml.references_joinWith List.not_mem_nil, ← Veiled.joinWith_pieces]

theorem Veiled.brokenUp_fill_isolate {α : Type} (f : α → Text) (c : Char) (s : Veiled α) :
    Text.BrokenUp (fill f s) (fill f (Outline.isolate c s)) := by
  rw [Outline.isolate, fill, fill, List.flatMap_assoc]
  refine .flatMap fun a _ ↦ ?_
  cases a with
  | plain d =>
    refine (congrArg (Text.BrokenUp [d]) (fill_ofText f _)).mpr ?_
    split
    · next hd =>
      rw [hd]
      exact .put (Or.inl rfl) (.put (Or.inr rfl) (.keep c (.put (Or.inr rfl)
        (.put (Or.inl rfl) .nil))))
    · exact .refl [d]
  | hidden a => exact (congrArg (Text.BrokenUp (f a)) (List.append_nil (f a))).mpr (.refl (f a))

theorem Veiled.brokenUp_fill_isolateAll {α : Type} (f : α → Text) (cs : List Char)
    (s : Veiled α) : Text.BrokenUp (fill f s) (fill f (isolateAll cs s)) :=
  List.foldlRecOn (motive := fun u ↦ Text.BrokenUp (fill f s) (fill f u)) cs
    (fun u c ↦ Outline.isolate c u) (.refl _) fun u hu c _ ↦ hu.trans (brokenUp_fill_isolate f c u)

theorem Part.brokenUp_restored (p : Part) : Text.BrokenUp p.source p.restored := by
  cases p with
  | plain a => exact .refl _
  | kept body => exact .refl _
  | quoted body => exact .enclose_quotes _

/-- **References in repaired phrases.** What a repair makes of a phrase spells references of the
normalized phrase only, each as often and in the same order. The placeholder numbers last for every
phrase that fits in memory. -/
theorem references_output_repair (r : Repairer) (supply : KeySupply) {input : Text}
    (hlen : input.length < 2 ^ 64) :
    (references (r.repair supply input).output).Sublist (references (normalize input)) := by
  have hmasked : Text.BrokenUp (Veiled.fill (Veiled.fill id) (maskedParts (r.parts input)))
      (Veiled.fill (Veiled.fill id) (r.maskedPhrase input)) :=
    Veiled.brokenUp_fill_isolateAll _ _ _
  have hparts : Text.BrokenUp (normalize input)
      (Veiled.fill (Veiled.fill id) (maskedParts (r.parts input))) := by
    have hrestored : Text.BrokenUp ((r.parts input).flatMap Part.source)
        ((r.parts input).flatMap Part.restored) := .flatMap fun p _ ↦ p.brokenUp_restored
    rwa [Repairer.parts, flatMap_source_parts, ← fill_maskedParts] at hrestored
  rw [Report.output, r.tokens_repair supply (r.length_hidden_outline_le hlen),
    references_joinTokens]
  exact Xml.references_sublist (hparts.trans hmasked)

/-! ## Putting texts together

The references of a text that is put together need not be those of what it is put together from:
`&a` and `mp;` have none. They are if every ampersand of the first text begins a reference in it,
and for escaped texts this is so. Hence the two halves of `Carries` belong together: the first is
what makes the second one additive. -/

namespace Xml

/-- Every ampersand of a text begins a reference, and of the references that need a declaration it
spells those that the given texts spell. -/
structure Carries (s : Text) (ts : List Text) : Prop where
  /-- Every ampersand begins a reference. -/
  isReference : OnlyReferences isReferenceBody s
  /-- The references that need a declaration are those of the given texts, in order. -/
  undeclared_eq : undeclared s = ts.flatMap undeclared

theorem carries_escape (t : Text) : Carries (escape t) [t] :=
  ⟨onlyReferences_escape t, (undeclared_escape t).trans (List.flatMap_singleton ..).symm⟩

theorem carries_of_notMem {s : Text} (h : '&' ∉ s) : Carries s [] := by
  refine ⟨fun rest hrest ↦ absurd (hrest.subset List.mem_cons_self) h, ?_⟩
  rw [undeclared, ← List.append_nil s, references_append_of_notMem h]
  rfl

theorem Carries.append {s s' : Text} {ts ts' : List Text} (hs : Carries s ts)
    (hs' : Carries s' ts') : Carries (s ++ s') (ts ++ ts') := by
  refine ⟨hs.isReference.append hs'.isReference, ?_⟩
  rw [undeclared_append hs.isReference, hs.undeclared_eq, hs'.undeclared_eq, List.flatMap_append]

/-- Text around another one that has no references itself. -/
theorem Carries.enclose {s : Text} {ts : List Text} (hs : Carries s ts) {before behind : Text}
    (hbefore : '&' ∉ before) (hbehind : '&' ∉ behind) : Carries (before ++ s ++ behind) ts := by
  have hall := ((carries_of_notMem hbefore).append hs).append (carries_of_notMem hbehind)
  rwa [List.nil_append, List.append_nil] at hall

theorem IsReadable.ampersand_notMem {name : Text} (h : IsReadable name) : '&' ∉ name :=
  fun hmem ↦ h.ne hmem (by decide) rfl

theorem carries_assignment {a : Text × Text} {ts : List Text} (hname : IsReadable a.1)
    (hvalue : Carries a.2 ts) : Carries (assignment a) ts := by
  have hwritten : assignment a = ' ' :: a.1 ++ ['=', '"'] ++ a.2 ++ ['"'] := by simp [assignment]
  have hnone := hname.ampersand_notMem
  rw [hwritten]
  exact hvalue.enclose (by simp [hnone]) (by decide)

end Xml

namespace Soap

open Xml (Carries carries_escape carries_of_notMem)

namespace Value

mutual

/-- The texts in a value, in order. -/
def texts : Value → List Text
  | .text content => [content]
  | .list items => textsOfItems items
  | .fields entries => textsOfFields entries

/-- The texts in the values of a list. -/
def textsOfItems : List Value → List Text
  | [] => []
  | v :: items => texts v ++ textsOfItems items

/-- The texts in named values. -/
def textsOfFields : List (Text × Value) → List Text
  | [] => []
  | (_, v) :: entries => texts v ++ textsOfFields entries

end

theorem notMem_of_isName {name : Text} (h : Xml.isName name = true) : '&' ∉ name :=
  (Xml.isReadable_of_isName h).ampersand_notMem

theorem carries_element {name content : Text} {ts : List Text} (hname : Xml.isName name = true)
    (h : Carries content ts) : Carries (element name content) ts := by
  have hnone := notMem_of_isName hname
  rw [element, List.append_assoc _ _ ['>'], List.append_assoc _ "</".toList]
  exact h.enclose (by simp [hnone]) (by simp [hnone])

theorem carries_emptyElement {name : Text} (hname : Xml.isName name = true) :
    Carries (emptyElement name) [] := by
  have hnone := notMem_of_isName hname
  exact carries_of_notMem (by simp [emptyElement, hnone])

/-- The references of a written value are those of its texts. -/
theorem carries_write {name : Text} {v : Value}
    (h : ∀ key ∈ name :: v.keys, Xml.isName key = true) : Carries (v.write name) v.texts := by
  refine write_induction (fun name v ↦ Carries (v.write name) v.texts)
    (fun name vs ↦ Carries (writeItems name vs) (textsOfItems vs))
    (fun entries ↦ Carries (writeFields entries) (textsOfFields entries))
    (fun name content hname ↦ ?_) (fun name vs hvs ↦ ?_) (fun name entries hname hentries ↦ ?_)
    (fun _ ↦ carries_of_notMem List.not_mem_nil) (fun _ _ _ ↦ Carries.append)
    (carries_of_notMem List.not_mem_nil) (fun _ _ _ ↦ Carries.append) h
  · rw [write, texts]
    split
    · next hempty =>
      have hnothing := (carries_emptyElement hname).append (carries_escape [])
      rw [List.isEmpty_iff.mp hempty]
      rwa [Xml.escape, List.append_nil] at hnothing
    · exact carries_element hname (carries_escape content)
  · rwa [write, texts]
  · rw [write.eq_def, texts]
    cases entries with
    | nil => exact carries_emptyElement hname
    | cons entry entries => exact carries_element hname hentries

end Value

/-! ## Envelopes -/

theorem carries_declarations {bindings : List Binding}
    (hlabels : ∀ b ∈ bindings, ClientSettings.usableLabel b.label = true) :
    Carries ((bindings.map Binding.attribute).flatMap Xml.assignment)
      (bindings.map Binding.uri) := by
  induction bindings with
  | nil => exact carries_of_notMem List.not_mem_nil
  | cons b bindings ih =>
    obtain ⟨hb, hbindings⟩ := List.forall_mem_cons.mp hlabels
    have hattribute := Xml.carries_assignment (isReadableAttribute_attribute hb).name
      (carries_escape b.uri)
    exact hattribute.append (ih hbindings)

theorem carries_envelope {bindings : List Binding}
    (hlabels : ∀ b ∈ bindings, ClientSettings.usableLabel b.label = true) {payload : Text}
    {ts : List Text} (h : Carries payload ts) :
    Carries (envelope bindings payload) (bindings.map Binding.uri ++ ts) := by
  have hbreak : '&' ∉ ['\n'] := by decide
  have hname : '&' ∉ (rootTag bindings).name :=
    (isReadable_rootTag bindings).ampersand_notMem
  have hopening : Carries (rootTag bindings).opening (bindings.map Binding.uri) :=
    (carries_declarations hlabels).enclose (by simp [hname]) (by decide)
  have hbody := (h.enclose hbreak hbreak).enclose (show '&' ∉ bodyTag.opening by decide)
    (show '&' ∉ bodyTag.closing by decide)
  have hroot := hopening.append (hbody.enclose hbreak hbreak)
  have hheading := carries_of_notMem (show '&' ∉ xmlDeclaration ++ ['\n'] by decide)
  have hclosing := carries_of_notMem
    (show '&' ∉ (rootTag bindings).closing by simp [Xml.Tag.closing, hname])
  rw [envelope_eq, ← List.append_nil (bindings.map Binding.uri ++ ts)]
  exact hheading.append (hroot.append hclosing)

/-! ## Calls -/

/-- A call or a search that sends anything sends a body with the references of its URIs and
texts. -/
theorem Client.carries_step (client : Client) {choices : List ClientSettings.Choice}
    (hsettings : ClientSettings.build choices = .ok client.settings) {s : State} {step : Step}
    {action : Text} {parameters : Value} (hcalled : step.called? s = some (action, parameters))
    {exchange : Exchange} (hexchange : (client.step s step).1.exchange = some exchange) :
    ∃ body, exchange.request.body = some body ∧
      Carries body (client.settings.bindings.map Binding.uri ++ parameters.texts) := by
  obtain ⟨hsends, hrefuses⟩ := client.calls_step hcalled
  rcases Value.forall_isName_or_exists (action :: parameters.keys) with hnames | hbad
  · obtain ⟨body, request, hbody, -, -, hrequest, -, hsent⟩ := hsends hnames
    rw [client.callEnvelope_of_forall_isName hnames] at hbody
    obtain rfl := Except.ok.inj hbody
    obtain rfl := Option.some.inj (hsent.exchange.symm.trans hexchange)
    exact ⟨_, hrequest, carries_envelope (ClientSettings.usableLabel_of_build_eq_ok hsettings)
      (Value.carries_write hnames)⟩
  · rw [(hrefuses hbad).2.exchange] at hexchange
    exact absurd hexchange (by simp)

/-- **References.** Every ampersand in an escaped text begins a reference that needs no declaration
or one that the text spells, and of those that need a declaration the escaped text spells just the
ones that the text does, in order. So all of its references need none exactly if the text spells
none that does. Repairing a phrase adds none either. The same goes for what a call or a search
sends, and for the URIs and the texts of the parameters that it was put together from. -/
theorem references_of_escape :
    (∀ t, Xml.StandardBut (Xml.undeclared t) (Xml.escape t) ∧
      Xml.undeclared (Xml.escape t) = Xml.undeclared t ∧
      (Xml.OnlyReferences Xml.isStandardBody (Xml.escape t) ↔ Xml.undeclared t = [])) ∧
    (∀ (r : Repairer) (supply : KeySupply) (phrase : Text), phrase.length < 2 ^ 64 →
      (Xml.undeclared (r.repair supply phrase).output).Sublist
        (Xml.undeclared (normalize phrase))) ∧
    ∀ (client : Client) (choices : List ClientSettings.Choice),
      ClientSettings.build choices = .ok client.settings →
      ∀ (s : Client.State) (step : Client.Step) (action : Text) (parameters : Value),
        step.called? s = some (action, parameters) →
      ∀ exchange, (client.step s step).1.exchange = some exchange →
      ∃ body, exchange.request.body = some body ∧
        Xml.StandardBut ((client.settings.bindings.map Binding.uri ++ parameters.texts).flatMap
          Xml.undeclared) body ∧
        Xml.undeclared body = (client.settings.bindings.map Binding.uri
          ++ parameters.texts).flatMap Xml.undeclared ∧
        (Xml.OnlyReferences Xml.isStandardBody body
          ↔ ∀ t ∈ client.settings.bindings.map Binding.uri ++ parameters.texts,
            Xml.undeclared t = []) := by
  refine ⟨fun t ↦ ⟨?_, Xml.undeclared_escape t, ?_⟩, fun r supply phrase hlen ↦ ?_, ?_⟩
  · refine (Xml.onlyReferences_escape t).standardBut fun body hbody ↦ ?_
    rwa [Xml.undeclared_escape] at hbody
  · rw [Xml.onlyReferences_isStandardBody_iff (Xml.onlyReferences_escape t),
      Xml.undeclared_escape]
  · exact (references_output_repair r supply hlen).filter _
  · intro client choices hsettings s step action parameters hcalled exchange hexchange
    obtain ⟨body, hbody, hreference, hundeclared⟩ :=
      client.carries_step hsettings hcalled hexchange
    refine ⟨body, hbody, hreference.standardBut fun t ht ↦ hundeclared ▸ ht, hundeclared, ?_⟩
    rw [Xml.onlyReferences_isStandardBody_iff hreference, hundeclared, List.flatMap_eq_nil_iff]

/-- A search for an ampersand of its own, a reference that needs no declaration and two that do, one
of which is broken up since it holds a reserved character. -/
theorem references_of_escape_of_search :
    ∃ r : Repairer, r.settings.reserved = ['#'] ∧
      (Xml.undeclared (r.repair {} "R&D &lt; &foo; &#X41;".toList).output).Sublist
        ["foo".toList, "#X41".toList] ∧
      ∃ exchange body, (Client.step ⟨"http://x/".toList, {}, fun _ _ ↦ .ok []⟩ {}
          (.search "find".toList r "R&D &lt; &foo; &#X41;".toList [])).1.exchange = some exchange ∧
        exchange.request.body = some body ∧ Xml.undeclared body = ["foo".toList] ∧
        ¬ Xml.OnlyReferences Xml.isStandardBody body := by
  let r : Repairer := ⟨{ reserved := ['#'] }, Settings.fault?_eq_none_iff.mp (by decide +kernel)⟩
  have hrepaired : (r.repair {} "R&D &lt; &foo; &#X41;".toList).output
      = "R&D and &lt; and &foo; and & and \"#\" and X41;".toList := by decide +kernel
  have hcalled : Client.Step.called? {} (.search "find".toList r "R&D &lt; &foo; &#X41;".toList [])
      = some ("find".toList,
        Client.searchParameters "R&D and &lt; and &foo; and & and \"#\" and X41;".toList []) := by
    rw [Client.Step.called?, hrepaired]
  obtain ⟨_, _, -, -, -, -, -, hsends⟩ := (Client.calls_step
    ⟨"http://x/".toList, {}, fun _ _ ↦ .ok []⟩ hcalled).sends (by decide +kernel)
  obtain ⟨body, hbody, -, hundeclared, hstandard⟩ := references_of_escape.2.2
    ⟨"http://x/".toList, {}, fun _ _ ↦ .ok []⟩ [] rfl {} _ _ _ hcalled _ hsends.exchange
  have hfoo : Xml.undeclared body = ["foo".toList] := hundeclared.trans (by decide +kernel)
  refine ⟨r, rfl, ?_, _, body, hsends.exchange, hbody, hfoo, fun h ↦ ?_⟩
  · have hrepair := references_of_escape.2.1 r {} "R&D &lt; &foo; &#X41;".toList (by decide +kernel)
    have hphrase : Xml.undeclared (normalize "R&D &lt; &foo; &#X41;".toList)
        = ["foo".toList, "#X41".toList] := by decide +kernel
    rwa [hphrase] at hrepair
  · exact absurd (hstandard.mp h _ (List.mem_append_right _ List.mem_cons_self)) (by decide)

/-- A name that needs a declaration is kept, and so is a hexadecimal number behind a large `X`. -/
theorem references_kept_by_escape :
    ¬ Xml.OnlyReferences Xml.isStandardBody (Xml.escape "&foo;".toList) ∧
      ¬ Xml.OnlyReferences Xml.isStandardBody (Xml.escape "&#X41;".toList) := by
  decide

end Soap

end PhraseRepair
