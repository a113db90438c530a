import PhraseRepair.Text.Basic

/-!
# Reading markup

A reader goes through a document one character after the other and builds the tree of its elements.
It knows start tags with attributes, end tags, empty-element tags, and processing instructions,
which it passes over. Everything else is text, up to the next `<`. It makes no allowances: an end
tag has to have the name of the innermost open element, an attribute needs a blank before it and
quotes around its value, and no `<` stands anywhere but at the beginning of a tag.

References are not resolved: text and values are read as they are written. A name is any run of
characters that have no meaning in a tag.

The content of an element is a list of characters and elements, so there is nothing to be said about
where a text begins and ends.
-/

namespace PhraseRepair.Xml

/-- What a start tag says: the name of an element, and names and values of its attributes. -/
structure Tag where
  /-- The name of the element. -/
  name : Text
  /-- The names of the attributes with their values, in order. -/
  attributes : List (Text × Text) := []
  deriving DecidableEq, Repr

/-- A character of a text, or an element. -/
inductive Node
  | char (c : Char)
  | element (tag : Tag) (content : List Node)
  deriving Repr

/-- A text as content. -/
def Node.text (t : Text) : List Node := t.map char

/-- Space, tab, line feed or carriage return. -/
def isSpace (c : Char) : Bool := [' ', '\t', '\n', '\x0d'].contains c

/-- Whether a character has a meaning in a tag, so that no name goes on with it. -/
def endsName (c : Char) : Bool :=
  isSpace c || ['<', '>', '/', '=', '"', '\'', '&', '?', '!'].contains c

/-- Where in the markup a reader is. -/
inductive Place
  /-- In the content of an element, or between elements. -/
  | content
  /-- Behind the `<` of a tag. -/
  | tag
  /-- In the name of a start tag. -/
  | startName (name : Text)
  /-- Behind the name or an attribute of a start tag, perhaps with spaces after it. -/
  | startTag (tag : Tag) (spaced : Bool)
  /-- In the name of an attribute. -/
  | label (tag : Tag) (label : Text)
  /-- Behind the `=` of an attribute. -/
  | equals (tag : Tag) (label : Text)
  /-- In the value of an attribute. -/
  | value (tag : Tag) (label : Text) (delimiter : Char) (value : Text)
  /-- Behind the `/` of an empty-element tag. -/
  | emptyTag (tag : Tag)
  /-- In an end tag. -/
  | endTag (name : Text)
  /-- In a processing instruction, perhaps behind a `?`. -/
  | instruction (mark : Bool)
  deriving DecidableEq, Repr

/-- An element whose end tag is still to come, and what stands before it on its own level. -/
structure OpenElement where
  /-- Its start tag. -/
  tag : Tag
  /-- What stands before it. -/
  before : List Node
  deriving Repr

/-- A reader on its way through a document. -/
structure Reader where
  /-- Where it is. -/
  place : Place := .content
  /-- What it has read of the innermost open element, or of the document if no element is open. -/
  content : List Node := []
  /-- The open elements, the innermost one first. -/
  pending : List OpenElement := []
  deriving Repr

namespace Reader

/-- The reader somewhere else. -/
def goto (r : Reader) (place : Place) : Reader := { r with place }

/-- The reader behind an element that it has read. -/
def add (r : Reader) (tag : Tag) (content : List Node) : Reader :=
  ⟨.content, r.content ++ [.element tag content], r.pending⟩

/-- The reader behind a start tag. -/
def enter (r : Reader) (tag : Tag) : Reader := ⟨.content, [], ⟨tag, r.content⟩ :: r.pending⟩

/-- The reader behind an end tag, if it is that of the innermost open element. -/
def leave (r : Reader) (name : Text) : Option Reader := match r.pending with
  | [] => none
  | e :: pending =>
    if e.tag.name = name then
      some ⟨.content, e.before ++ [.element e.tag r.content], pending⟩
    else none

/-- Reads a character behind the name or an attribute of a start tag. -/
def stepTag (r : Reader) (tag : Tag) (spaced : Bool) (c : Char) : Option Reader :=
  if isSpace c then some (r.goto (.startTag tag true))
  else if c = '>' then some (r.enter tag)
  else if c = '/' then some (r.goto (.emptyTag tag))
  else if spaced && !endsName c then some (r.goto (.label tag [c]))
  else none

/-- Reads a character. -/
def step (r : Reader) (c : Char) : Option Reader := match r.place with
  | .content =>
    if c = '<' then some (r.goto .tag) else some { r with content := r.content ++ [.char c] }
  | .tag =>
    if c = '/' then some (r.goto (.endTag []))
    else if c = '?' then some (r.goto (.instruction false))
    else if endsName c then none
    else some (r.goto (.startName [c]))
  | .startName name =>
    if endsName c then r.stepTag ⟨name, []⟩ false c else some (r.goto (.startName (name ++ [c])))
  | .startTag tag spaced => r.stepTag tag spaced c
  | .label tag label =>
    if c = '=' then some (r.goto (.equals tag label))
    else if endsName c then none
    else some (r.goto (.label tag (label ++ [c])))
  | .equals tag label =>
    if c = '"' ∨ c = '\'' then some (r.goto (.value tag label c [])) else none
  | .value tag label delimiter value =>
    if c = delimiter then
      some (r.goto (.startTag ⟨tag.name, tag.attributes ++ [(label, value)]⟩ false))
    else if c = '<' then none
    else some (r.goto (.value tag label delimiter (value ++ [c])))
  | .emptyTag tag => if c = '>' then some (r.add tag []) else none
  | .endTag name =>
    if c = '>' then r.leave name
    else if endsName c then none
    else some (r.goto (.endTag (name ++ [c])))
  | .instruction mark =>
    if mark ∧ c = '>' then some (r.goto .content) else some (r.goto (.instruction (c = '?')))

/-- Reads a text, one character after the other. -/
def run (r : Reader) (t : Text) : Option Reader := t.foldlM step r

end Reader

/-- The content of a document, if it can be read to its end with no tag or element left open. -/
def read? (t : Text) : Option (List Node) := match Reader.run {} t with
  | some ⟨.content, content, []⟩ => some content
  | _ => none

example : read? "<a b=\"c\">d<e/></a>".toList
    = some [.element ⟨"a".toList, [("b".toList, "c".toList)]⟩
      [.char 'd', .element ⟨"e".toList, []⟩ []]] := rfl

/-- An end tag closes nothing but the innermost open element. -/
example : read? "<a><b></a></b>".toList = none := rfl

end PhraseRepair.Xml
