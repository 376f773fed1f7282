import LivePath.Text.Unshowable

/-!
# Quoted text

Text in quotation marks on one line, every character of it visible.
-/

namespace LivePath

/-- A character between quotation marks: escaped if it would end the text or the line, or cannot be
shown. -/
def quotedChar (c : Char) : List Char :=
  match c with
  | '"' => ['\\', '"']
  | '\\' => ['\\', '\\']
  | '\n' => ['\\', 'n']
  | '\r' => ['\\', 'r']
  | '\t' => ['\\', 't']
  | '\x00' => ['\\', '0']
  | c => if isUnshowable c then ['\\', 'u', '\x7b'] ++ Nat.toDigits 16 c.toNat ++ ['\x7d'] else [c]

/-- Text in quotation marks. -/
def quoted (s : String) : String :=
  "\"" ++ String.ofList (s.toList.flatMap quotedChar) ++ "\""

end LivePath
