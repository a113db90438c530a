/-!
# Texts

A text is the list of its Unicode scalar values, so every function on texts is a recursion on a
list and every law about them an induction. The size in bytes of the UTF-8 form is kept as a
function beside it, for the offsets that scanning reports and the lengths that events show.
-/

namespace PhraseRepair

/-- A text: its Unicode scalar values in order. -/
abbrev Text := List Char

namespace Text

/-! ## Size in bytes -/

/-- The number of bytes of the UTF-8 form of a text. -/
def utf8Size : Text → Nat
  | [] => 0
  | c :: t => c.utf8Size + utf8Size t

@[simp] theorem utf8Size_nil : utf8Size [] = 0 := rfl

@[simp] theorem utf8Size_cons (c : Char) (t : Text) :
    utf8Size (c :: t) = c.utf8Size + utf8Size t := rfl

@[simp] theorem utf8Size_append (s t : Text) :
    utf8Size (s ++ t) = utf8Size s + utf8Size t := by
  induction s with
  | nil => simp
  | cons c s ih => simp [ih, Nat.add_assoc]

/-! ## Searching -/

/-- Whether `key` occurs somewhere in a text as a run of consecutive characters. -/
def occursIn (key : Text) : Text → Bool
  | [] => key.isEmpty
  | c :: t => key.isPrefixOf (c :: t) || occursIn key t

theorem occursIn_iff {key t : Text} : occursIn key t = true ↔ key <:+: t := by
  induction t with
  | nil => simp [occursIn]
  | cons c t ih => simp [occursIn, List.infix_cons_iff, ih]

end Text

end PhraseRepair
