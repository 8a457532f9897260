import LexicalRuns.Text.Hex
import LexicalRuns.Text.Unprintable

/-! Quoted text, as messages show it: in double quotes, with the quote, the backslash and four
controls escaped by a letter, and unprintable characters by their number. -/
namespace LexicalRuns.Text

def escape (c : Char) : List Char :=
  if c = '"' then ['\\', '"']
  else if c = '\\' then ['\\', '\\']
  else if c = '\t' then ['\\', 't']
  else if c = '\r' then ['\\', 'r']
  else if c = '\n' then ['\\', 'n']
  else if c = '\x00' then ['\\', '0']
  else if isUnprintable c then
    ['\\', 'u', '\x7b'] ++ (Hex.lower 1 c.toNat).toList ++ ['\x7d']
  else [c]

def quote (text : String) : String :=
  String.ofList ('"' :: text.toList.flatMap escape ++ ['"'])

end LexicalRuns.Text
