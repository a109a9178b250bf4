import DocumentPipeline.Text.Shown

/-! # Quoted text for diagnostics

A text between double quotes in which everything that does not print is spelled
out, so that a message quotes it faithfully on one line.
-/
namespace DocumentPipeline

namespace Quoted

/-- Digits of a number in base sixteen, in lower case. -/
def hexText (n : Nat) : List Char := Nat.toDigits 16 n

/-- One character as it stands between the quotes. -/
def escape (c : Char) : List Char :=
  if c = '"' then ['\\', '"']
  else if c = '\\' then ['\\', '\\']
  else if c = '\n' then ['\\', 'n']
  else if c = '\r' then ['\\', 'r']
  else if c = '\t' then ['\\', 't']
  else if c = '\x00' then ['\\', '0']
  else if isShown c then [c]
  else '\\' :: 'u' :: '\x7b' :: hexText c.toNat ++ ['\x7d']

end Quoted

/-- A text between quotes, with everything that does not print spelled out. -/
def quoted (s : String) : String :=
  String.ofList ('"' :: s.toList.flatMap Quoted.escape ++ ['"'])

end DocumentPipeline
