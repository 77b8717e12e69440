import LispShell.Text.Quoted
import LispShell.Text.Utf8

/-! # Character sets
The outputs of the shell and the operating system take texts in a character set, which need not hold
every character. The characters that it holds have the codes of `Text.encodeChar`. -/

namespace LispShell

/-- A set of characters that texts are taken in, with all of ASCII among them. -/
structure CharacterSet where
  /-- Whether a character is in the set. -/
  holds : Char → Bool
  /-- A character of ASCII is in the set. -/
  holds_ascii {c : Char} : c.toNat < 0x80 → holds c = true
  /-- The report on a text with a character that is not in the set. -/
  report : String → String

namespace CharacterSet

/-- The set of all characters. -/
def full : CharacterSet where
  holds _ := true
  holds_ascii _ := rfl
  report _ := ""

/-- Whether all characters of a text are in the set. -/
def covers (set : CharacterSet) (text : String) : Bool :=
  text.toList.all set.holds

/-- A text of ASCII is covered by every set. -/
theorem covers_of_ascii (set : CharacterSet) {text : String}
    (isAscii : ∀ c ∈ text.toList, c.toNat < 0x80) : set.covers text = true :=
  List.all_eq_true.mpr fun c isIn => set.holds_ascii (isAscii c isIn)

/-- Refuses a text that the set does not cover. -/
def check (set : CharacterSet) (text : String) : Except String Unit :=
  if set.covers text then .ok () else .error (set.report text)

/-- The text with an escape in place of every character that is not in the set. -/
def escape (set : CharacterSet) (text : String) : String :=
  String.ofList (text.toList.flatMap fun c =>
    if set.holds c then [c] else Text.numberedEscape c)

end CharacterSet

end LispShell
