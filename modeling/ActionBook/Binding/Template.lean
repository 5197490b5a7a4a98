import ActionBook.Binding.Segment
import ActionBook.TextSet

/-!
# `Binding.Template`: keys and values of a template

`keys` lists what a template asks for, `render` puts values in place of the bindings. Both look at
the same segments. Values are put in as they are and not looked at again.
-/

namespace ActionBook.Binding

/-- Values by key. -/
abbrev Values := String → Option String

/-- The keys of a template, in order of appearance and as often as they appear. -/
def keys (template : String) : List String :=
  (segments template.toList).filterMap Segment.key?

/-- The text that a segment becomes, or the key that has no value. -/
def Segment.value (values : Values) (s : Segment) : Except String (List Char) :=
  match s with
  | .literal text => .ok text
  | .binding _ inner =>
    let key := String.ofList (Text.trim inner)
    match values key with
    | some v => .ok v.toList
    | none => .error key

/-- The text with all bindings replaced, or the set of all keys without a value. -/
def render (values : Values) (template : String) : Except TextSet String :=
  let parts := (segments template.toList).map (Segment.value values)
  let missing := TextSet.ofList (parts.filterMap fun | .error key => some key | .ok _ => none)
  if missing.isEmpty then
    .ok (String.ofList (parts.flatMap fun | .ok text => text | .error _ => []))
  else .error missing

end ActionBook.Binding
