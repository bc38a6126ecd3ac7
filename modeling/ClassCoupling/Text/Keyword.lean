/-!
# Keywords in any letter case

Keywords are lower-case ASCII words. Apart from the ASCII capitals, the Kelvin sign is the only
character whose lower-case form is a single ASCII letter.
-/

namespace ClassCoupling.Text

def lowerCase (c : Char) : Char :=
  if c = '\u212a' then 'k' else c.toLower

/-- `s` spells the lower-case ASCII word `keyword`, in any mixture of cases. -/
def isKeyword (keyword s : String) : Bool :=
  s.toList.map lowerCase == keyword.toList

end ClassCoupling.Text
