import AbbrevSite.Text.CharClass

/-! Quoted text: what is written for a text so that it stays on one line and shows no invisible
character. -/
namespace AbbrevSite.Quoted

/-- A code point in lowercase hexadecimal digits. -/
def hex (n : Nat) : List Char := Nat.toDigits 16 n

def encodeChar (c : Char) : List Char :=
  match c with
  | '\x00' => ['\\', '0']
  | '\t' => ['\\', 't']
  | '\r' => ['\\', 'r']
  | '\n' => ['\\', 'n']
  | '\\' => ['\\', '\\']
  | '"' => ['\\', '"']
  | c => if CharClass.isShown c then [c] else '\\' :: 'u' :: '{' :: hex c.toNat ++ ['}']

/-- A text between double quotes, with escapes for what would not show. -/
def encode (s : String) : String := String.ofList ('"' :: s.toList.flatMap encodeChar ++ ['"'])

end AbbrevSite.Quoted
