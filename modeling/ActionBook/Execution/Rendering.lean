import ActionBook.Action.Derived
import ActionBook.Execution.Basic

/-!
# `Execution.Rendering`: templates with values

Rendering a template renders its path, its header and query values and its body, each on its own. A
key without a value does not stop it: the keys that are missing anywhere are reported together.
-/

namespace ActionBook

open Binding (Values)

/-! ## Outcomes that report together -/

/-- Both of two outcomes; if not, everything that is missing for either. -/
def bothPresent {α β : Type} : Except TextSet α → Except TextSet β → Except TextSet (α × β)
  | .ok x, .ok y => .ok (x, y)
  | .ok _, .error missing => .error missing
  | .error missing, .ok _ => .error missing
  | .error missing, .error others => .error (missing.union others)

/-- All outcomes of a list; if not, everything that is missing for any. -/
def allPresent {α β : Type} (f : α → Except TextSet β) : List α → Except TextSet (List β)
  | [] => .ok []
  | x :: xs => (bothPresent (f x) (allPresent f xs)).map fun (y, ys) => y :: ys

/-- The outcome for a value, if there is one to look at. -/
def optionalPresent {α β : Type} (f : α → Except TextSet β) :
    Option α → Except TextSet (Option β)
  | none => .ok none
  | some x => (f x).map some

/-! ## Rendering -/

/-- The property with its value rendered; its key is no template. -/
def Property.rendered (values : Values) (p : Property) : Except TextSet Property :=
  (Binding.render values p.value).map fun value => { p with value }

/-- The template with all bindings replaced, or the set of all keys without a value. Method and
timeout stay as they are. -/
def RequestTemplate.rendered (values : Values) (t : RequestTemplate) :
    Except TextSet RequestTemplate :=
  let path := Binding.render values t.path
  let headers := allPresent (Property.rendered values) t.headers
  let query := allPresent (Property.rendered values) t.query
  let body := optionalPresent (Binding.render values) t.body
  (bothPresent path (bothPresent headers (bothPresent query body))).map
    fun (path, headers, query, body) => { t with path, headers, query, body }

end ActionBook
