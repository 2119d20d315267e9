import PugTemplate.Text.Shown

/-!
# Texts as literals

A text is shown in a listing as a literal between double quotes, with escapes for the quote, the
backslash and every character that cannot be shown as itself.
-/

namespace PugTemplate.Text

def codeEscape (c : Char) : List Char :=
  ['\\', 'u', '{'] ++ Nat.toDigits 16 c.toNat ++ ['}']

def literalChar (c : Char) : List Char :=
  if c == '\x00' then ['\\', '0']
  else if c == '\t' then ['\\', 't']
  else if c == '\r' then ['\\', 'r']
  else if c == '\n' then ['\\', 'n']
  else if c == '\\' || c == '"' then ['\\', c]
  else if isShown c then [c]
  else codeEscape c

def literal (text : String) : String :=
  String.ofList ('"' :: text.toList.flatMap literalChar ++ ['"'])

end PugTemplate.Text
