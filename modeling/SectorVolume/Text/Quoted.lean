import SectorVolume.Text.Undrawn

/-!
Text in double quotes. A quote and a backslash are escaped, the usual controls have letters, and
any other character that would not show as itself is spelled out by its number.
-/

namespace SectorVolume.Text

/-- A number in hexadecimal digits, lower case, without leading zeros. -/
def hex (n : Nat) : String := String.ofList (Nat.toDigits 16 n)

def escape (c : Char) : String :=
  match c with
  | '"' => "\\\""
  | '\\' => "\\\\"
  | '\t' => "\\t"
  | '\r' => "\\r"
  | '\n' => "\\n"
  | c =>
    if c.toNat = 0 then "\\0"
    else if isUndrawn c || isMark c then "\\u\x7b" ++ hex c.toNat ++ "\x7d"
    else c.toString

def quoted (s : String) : String := "\"" ++ String.join (s.toList.map escape) ++ "\""

end SectorVolume.Text
