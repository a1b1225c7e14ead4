/-!
# Trimmed text

A name may be given in double quotes; `unquoted` takes all quotes off both its ends and leaves those inside.
-/

namespace DocStore.Text

/-- A text without the double quotes at its ends. -/
def unquoted (s : String) : String :=
  String.ofList ((s.toList.dropWhile (· == '"')).reverse.dropWhile (· == '"')).reverse

end DocStore.Text
