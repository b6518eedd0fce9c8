/-!
# Fragments of a text
-/

namespace Sharding

/-- Whether a text contains a fragment.  The empty fragment is in every text. -/
def occursIn (fragment : List Char) : List Char → Bool
  | [] => fragment.isEmpty
  | c :: rest => fragment.isPrefixOf (c :: rest) || occursIn fragment rest

end Sharding
