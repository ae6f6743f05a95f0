import LiveTree.Text.Quoted.Table

/-!
# Quoted text

A text between double quotes, as summaries show it: what would end the text, break the line or not
show on its own is escaped.
-/

namespace LiveTree.Text.Quoted

/-- Whether `c` would not show on its own. -/
def isHidden (c : Char) : Bool :=
  c.toNat < 0x20 || (0x7F ≤ c.toNat && c.toNat < 0xA0) ||
    (0xA0 ≤ c.toNat &&
      hiddenTable.any (·.any fun (first, last) => first ≤ c.toNat && c.toNat ≤ last))

/-- A character in its place between the quotes. -/
def escape (c : Char) : List Char :=
  match c with
  | '"' => ['\\', '"']
  | '\\' => ['\\', '\\']
  | '\t' => ['\\', 't']
  | '\n' => ['\\', 'n']
  | '\r' => ['\\', 'r']
  | '\x00' => ['\\', '0']
  | c =>
    if isHidden c then ['\\', 'u', '\x7b'] ++ Nat.toDigits 16 c.toNat ++ ['\x7d']
    else [c]

/-- The text between quotes. -/
def encode (text : String) : String :=
  String.ofList ('"' :: (text.toList.flatMap escape ++ ['"']))

end LiveTree.Text.Quoted
