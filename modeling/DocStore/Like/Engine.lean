import DocStore.Error

/-!
# Engines for patterns

A pattern is handed to an engine that is no part of the store. Which texts match a pattern does not depend on the engine,
but it may refuse to take one, as when its matcher would grow too large. Everything that reads patterns has the engine as a
parameter.
-/

namespace DocStore.Like

/-- An engine for patterns. -/
class Engine where
  /-- Why a text is refused as a pattern, if it is. -/
  refusal : String → Option PatternError

namespace Sized

/-- An engine whose matchers take ten mebibytes at most. A matcher takes eleven bytes and more for every character, so texts of
a million characters are refused. -/
scoped instance engine : Engine where
  refusal pattern := if 1000000 ≤ pattern.length then some (.tooLarge 10485760) else none

end Sized

end DocStore.Like
