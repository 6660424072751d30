/-!
# Columns

`padRight` fills a text with spaces up to the width of its column, counted in characters; a longer
text stays as it is.
-/

namespace Bringup.Text

/-- The text, filled with spaces up to `width` characters. -/
def padRight (width : Nat) (s : String) : String :=
  s ++ String.ofList (List.replicate (width - s.length) ' ')

end Bringup.Text
