import Highlighter.Text
import Highlighter.Unicode.GraphemeExtend
import Highlighter.Unicode.Printable

/-!
Text in double quotes, on one line: quotes, backslashes and all characters that would not show
as themselves are escaped.
-/
namespace Highlighter.Text

/-- A code point in lower-case hexadecimal, as in `\u{1b}`. -/
def codePointEscape (c : Char) : Text :=
  "\\u\x7b" ++ Nat.toDigits 16 c.toNat ++ "\x7d"

/-- What stands for `c` between double quotes. -/
def quotedChar (c : Char) : Text :=
  if c = '"' then "\\\""
  else if c = '\\' then "\\\\"
  else if c = '\n' then "\\n"
  else if c = '\r' then "\\r"
  else if c = '\t' then "\\t"
  else if c = '\x00' then "\\0"
  else if Unicode.isGraphemeExtend c || !Unicode.isPrintable c then codePointEscape c
  else [c]

/-- The text in double quotes. -/
def quoted (t : Text) : Text := "\"" ++ t.flatMap quotedChar ++ "\""

end Highlighter.Text
