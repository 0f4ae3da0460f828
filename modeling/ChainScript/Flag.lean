import ChainScript.Text.Blank

/-!
# Flags

A flag is switched on or off by a word, in any case and with blanks around it. The empty word is
off.
-/

namespace ChainScript.Flag

/-- The words that switch a flag on. -/
def onWords : List String := ["1", "true", "yes", "on"]

/-- The words that switch a flag off. -/
def offWords : List String := ["", "0", "false", "no", "off"]

/-- Reads a flag. -/
def read? (raw : String) : Option Bool :=
  let word := String.ofList ((strip raw).toList.map Char.toLower)
  if onWords.contains word then some true
  else if offWords.contains word then some false
  else none

end ChainScript.Flag
