import KWayMerge.Text.Shown

/-!
# Quoted text

Text is quoted for a message between double quotes, with a backslash in front of what would end
or confuse it. A character that is not shown as it is stands as its number.
-/

namespace KWayMerge.Text

/-- A character as it stands between quotes. -/
def quotedChar (c : Char) : String :=
  match c with
  | '"' => "\\\""
  | '\\' => "\\\\"
  | '\t' => "\\t"
  | '\n' => "\\n"
  | '\r' => "\\r"
  | '\x00' => "\\0"
  | _ =>
      if isShown c then
        c.toString
      else
        "\\u\x7b" ++ String.ofList (Nat.toDigits 16 c.toNat) ++ "\x7d"

def quoted (text : String) : String :=
  "\"" ++ String.join (text.toList.map quotedChar) ++ "\""

end KWayMerge.Text
