import RuleGraph.Text.Invisible

/-!
# Strings in messages

A string that a message shows stands between quotes, with everything escaped that a reader could
not see or would take for something else.
-/

namespace RuleGraph.Text

/-- A character of a shown string. -/
def visibleChar (c : Char) : List Char :=
  if c = '\x00' then ['\\', '0']
  else if c = '\t' then ['\\', 't']
  else if c = '\n' then ['\\', 'n']
  else if c = '\r' then ['\\', 'r']
  else if c = '"' then ['\\', '"']
  else if c = '\\' then ['\\', '\\']
  else if isInvisible c then '\\' :: 'u' :: '\x7b' :: (Nat.toDigits 16 c.toNat ++ ['\x7d'])
  else [c]

/-- A string as messages show it. -/
def visible (s : String) : String :=
  String.ofList ('"' :: (s.toList.flatMap visibleChar ++ ['"']))

end RuleGraph.Text
