import Mathlib.Data.List.Basic
import Mathlib.Data.List.TakeWhile

/-!
# Absolute links

An absolute link of a given scheme, cut into authority, path and query, and the link
that a reference of one segment stands for. Nothing is decoded here.
-/

namespace Lib

namespace Url

end Url

end Lib
