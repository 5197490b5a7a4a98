import ActionBook.Service.Basic

/-!
# `Service.Lookup`: operations that only read the store
-/

namespace ActionBook.Service

open Operation

/-- The action stored under an id. -/
def getById (id : ActionId) : Operation Action := do
  orFail (.unknownId id) (← ofCall (Repository.findById id))

/-- All actions, in the order of their names. -/
def getAll : Operation (List Action) := ofCall Repository.findAll

/-- The action with a name, if there is one. -/
def findByName (name : String) : Operation (Option Action) := ofCall (Repository.findByName name)

/-- The actions with an id that no action before has. -/
def distinctById (seen : List (Option ActionId)) : List Action → List Action
  | [] => []
  | a :: rest =>
    if a.id ∈ seen then distinctById seen rest else a :: distinctById (a.id :: seen) rest

/-- The actions with one of the given names, in the order of their names, each once. -/
def findDistinct (names : TextSet) : Operation (List Action) := do
  let found ← ofCall (Repository.findByNames names)
  return distinctById [] (found.filter fun a => a.name ∈ names)

end ActionBook.Service
