import ChainTypings.Spelling.Alias
import ChainTypings.Spelling.Box
import ChainTypings.Spelling.Decoration

/-!
# The normal spelling of a type

A type text as it comes from source code is brought to the spelling that registries use:
decorations and blanks are removed, boxes opened, texts and byte sequences named, and parentheses
around one element dropped, in this order.
-/

namespace ChainTypings.Spelling

/-- The normal spelling of a type text. -/
def normalize (cs : List Char) : List Char :=
  let bare := reference.apply (path.apply (projection.apply cs))
  let packed := unbox (bare.filter (!Text.isBlank ·))
  flatten (bytesAlias.apply (textAlias.apply packed))

/-- The normal spelling of a type text. -/
def normal (s : String) : String := String.ofList (normalize s.toList)

end ChainTypings.Spelling
