import ChipChain.Bytes
import ChipChain.Text.Invisible

/-!
# Quoted text

Text between double quotes in which quotes, backslashes and every character
that leaves no mark stand as escapes.
-/

namespace ChipChain.Quoted

def escape (c : Char) : List Char :=
  if c = '"' || c = '\\' then ['\\', c]
  else if c = '\n' then ['\\', 'n']
  else if c = '\t' then ['\\', 't']
  else if c = '\r' then ['\\', 'r']
  else if c = '\x00' then ['\\', '0']
  else if Invisible.isInvisible c then
    "\\u\x7b".toList ++ Bytes.hexDigits (Bytes.hexWidth c.toNat) c.toNat ++ ['\x7d']
  else [c]

def text (s : String) : String :=
  "\"" ++ String.ofList (s.toList.flatMap escape) ++ "\""

end ChipChain.Quoted
