import Cam.Text.Visible

/-!
# Text/Quoted — a text between double quotes, fit to be read on one line

The quote and the backslash are escaped by a backslash, four control characters have a letter of
their own, and every other character that would not show is written by its code point.
-/

namespace Cam.Text

/-- The spelling of one character inside quotes. -/
def quotedChar (c : Char) : String :=
  match c with
  | '"' => "\\\""
  | '\\' => "\\\\"
  | '\t' => "\\t"
  | '\r' => "\\r"
  | '\n' => "\\n"
  | '\x00' => "\\0"
  | c =>
    if isVisible c then c.toString
    else "\\u\x7b" ++ String.ofList (Nat.toDigits 16 c.toNat) ++ "\x7d"

/-- The text between double quotes, with everything in it visible. -/
def quoted (text : String) : String :=
  "\"" ++ text.toList.foldl (fun out c => out ++ quotedChar c) "" ++ "\""

end Cam.Text
