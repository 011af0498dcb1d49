/-!
# Text/Trim — characters taken off both ends of a text

One operation, used with two classes of characters: a string literal sheds the quotes at its ends,
and a line of input sheds its blanks before it is tried as an integer.
-/

namespace Cam.Text

/-- The text without the longest runs of `p`-characters at its start and at its end. -/
def trim (p : Char → Bool) (cs : List Char) : List Char :=
  ((cs.dropWhile p).reverse.dropWhile p).reverse

@[simp] theorem trim_nil (p : Char → Bool) : trim p [] = [] := rfl

end Cam.Text
