/-!
# Blank characters

White space is the set of characters with the `White_Space` property. Texts are trimmed at both
ends by it and cut into words at its runs. The functions work on lists of characters, and `trim`
is their form on strings.
-/

namespace Agenda
namespace Text

/-- The characters with the `White_Space` property. -/
def isBlank (c : Char) : Bool :=
  let n := c.toNat
  (0x09 ≤ n && n ≤ 0x0D) || n == 0x20 || n == 0x85 || n == 0xA0 || n == 0x1680 ||
    (0x2000 ≤ n && n ≤ 0x200A) || n == 0x2028 || n == 0x2029 || n == 0x202F || n == 0x205F ||
    n == 0x3000

/-- The text without the blank characters at its two ends. -/
def trimmed (s : List Char) : List Char :=
  ((s.dropWhile isBlank).reverse.dropWhile isBlank).reverse

def trim (s : String) : String := String.ofList (trimmed s.toList)

@[simp] theorem toList_trim (s : String) : (trim s).toList = trimmed s.toList :=
  String.toList_ofList

/-- The runs of characters that are not blank, from left to right. -/
def words (s : List Char) : List (List Char) :=
  (s.splitOnP isBlank).filter fun w => !w.isEmpty

end Text
end Agenda
