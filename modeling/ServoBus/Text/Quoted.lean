import ServoBus.Text.Hidden
import ServoBus.Text.Numeral

/-!
# Quoted text

Text taken from a configuration is quoted when it appears in a message, so that
its ends and every character that does not show can be seen. A quote and a
backslash stand behind a backslash; line feed, carriage return, tab and the null
character have a letter of their own; any other hidden character is given by its
code point in hexadecimal.
-/

namespace ServoBus.Text

/-- The form of one character inside quotes. -/
def escape : Char → List Char
  | '"' => ['\\', '"']
  | '\\' => ['\\', '\\']
  | '\n' => ['\\', 'n']
  | '\r' => ['\\', 'r']
  | '\t' => ['\\', 't']
  | '\x00' => ['\\', '0']
  | c =>
    if isHidden c then "\\u\x7b".toList ++ (hex 1 c.toNat).toList ++ ['\x7d'] else [c]

def quote (s : String) : String :=
  String.ofList ('"' :: (s.toList.flatMap escape ++ ['"']))

end ServoBus.Text
