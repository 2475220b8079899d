import Heritage.Text.Unseen

/-!
# Quoted text

Text as a log shows it inside a list: between double quotes, with a backslash
before a quote and a backslash, short escapes for the common controls, and the
code point in hexadecimal for every other character that could not be seen.
-/

namespace Heritage.Text

/-- A character by its code point. -/
def byNumber (c : Char) : String :=
  "\\u\x7b" ++ String.ofList (Nat.toDigits 16 c.toNat) ++ "\x7d"

/-- A character inside quotes. -/
def escape (c : Char) : String :=
  if c = '\x00' then "\\0"
  else if c = '\t' then "\\t"
  else if c = '\r' then "\\r"
  else if c = '\n' then "\\n"
  else if c = '\"' then "\\\""
  else if c = '\\' then "\\\\"
  else if isUnseen c then byNumber c
  else c.toString

/-- **A text between quotes.** -/
def quote (s : String) : String :=
  "\"" ++ String.join (s.toList.map escape) ++ "\""

/-- A list of texts, each between quotes. -/
def quoteList (ss : List String) : String :=
  "[" ++ ", ".intercalate (ss.map quote) ++ "]"

end Heritage.Text
