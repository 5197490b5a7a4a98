/-!
# `Text.Order`: the code-point order of texts

Texts are ordered as their sequences of code points are. Of two different texts one precedes the
other.
-/

namespace ActionBook.Text

/-- Of two different texts one precedes the other. -/
theorem lt_of_not_lt_of_ne {x y : String} (h : ¬ x < y) (hne : x ≠ y) : y < x := by
  rcases String.le_total x y with hle | hle
  · exact absurd (String.le_antisymm hle (String.not_lt.1 h)) hne
  · exact Classical.byContradiction fun hn =>
      hne (String.le_antisymm (String.not_lt.1 hn) (String.not_lt.1 h))

end ActionBook.Text
