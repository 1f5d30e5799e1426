import AllowList.Text.Hex
import AllowList.Text.Unprintable

/-!
# Quoted text

A text put between double quotes inside a message or a log record, so that it
stays on one line and every character can be told. A quote, a backslash, the
common controls and NUL have short escapes, any other character that does not
print is named by its code point, and the rest stands as it is.
-/

namespace AllowList.Text

/-- One character as it stands between quotes. -/
def quoteChar (c : Char) : List Char :=
  if c = '"' then ['\\', '"']
  else if c = '\\' then ['\\', '\\']
  else if c = '\n' then ['\\', 'n']
  else if c = '\r' then ['\\', 'r']
  else if c = '\t' then ['\\', 't']
  else if c.toNat = 0 then ['\\', '0']
  else if isUnprintable c then "\\u\x7b".toList ++ hexDigits c.toNat ++ ['}']
  else [c]

/-- A text between double quotes. -/
def quoted (text : String) : String :=
  String.ofList ('"' :: text.toList.flatMap quoteChar ++ ['"'])

end AllowList.Text
