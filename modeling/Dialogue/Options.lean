/-!
The settings of a compilation.
-/

set_option autoImplicit false
set_option relaxedAutoImplicit false

namespace Dialogue

structure Options where
  defaultLocale : String := "en"
  locales : List String := []
  playerName : String := "Player"
  defaultActorName : String := "NPC"
deriving DecidableEq, Repr, Inhabited

end Dialogue
