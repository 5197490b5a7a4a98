import ActionBook.Action.Basic
import ActionBook.Text.Quoted

/-!
# `Failure`: why an operation on actions fails

Every failure has a message for people and a description that shows its kind and its data.
-/

namespace ActionBook

/-- Why an operation on actions fails. -/
inductive ActionError where
  /-- There is no such action. -/
  | notFound (what : String)
  /-- Another action has the name. -/
  | duplicateName (name : String)
  /-- What was asked for makes no sense. -/
  | invalidParameter (reason : String)
  /-- The action cannot be run, for the given reasons. -/
  | invalidAction (name : String) (invalids : TextSet)
  /-- Nothing runs actions of that plugin. -/
  | pluginNotFound (plugin : String)
  /-- Keys have no value. -/
  | unresolvedBindings (keys : TextSet)
  /-- The store did not answer. -/
  | storage (reason : String)
deriving DecidableEq

namespace ActionError

/-- The failure to find an id. -/
def unknownId (id : ActionId) : ActionError := .notFound s!"id {id.text}"

/-- The message of a failure. -/
def message : ActionError → String
  | .notFound what => s!"action not found: {what}"
  | .duplicateName name => s!"an action named '{name}' already exists"
  | .invalidParameter reason => s!"invalid parameter: {reason}"
  | .invalidAction name invalids =>
    s!"action '{name}' cannot be executed: " ++ invalids.joined ", "
  | .pluginNotFound plugin => s!"no executor registered for plugin '{plugin}'"
  | .unresolvedBindings keys => "missing values for bindings: " ++ keys.joined ", "
  | .storage reason => s!"storage error: {reason}"

/-- The name of the kind of a failure. -/
def kind : ActionError → String
  | .notFound _ => "NotFound"
  | .duplicateName _ => "DuplicateName"
  | .invalidParameter _ => "InvalidParameter"
  | .invalidAction _ _ => "InvalidAction"
  | .pluginNotFound _ => "PluginNotFound"
  | .unresolvedBindings _ => "UnresolvedBindings"
  | .storage _ => "Storage"

/-- The data of a failure, with texts in quotes. -/
def details : ActionError → String
  | .notFound text | .duplicateName text | .invalidParameter text | .pluginNotFound text
  | .storage text => "(" ++ Text.quoted text ++ ")"
  | .invalidAction name invalids =>
    " \x7b name: " ++ Text.quoted name ++ ", invalids: " ++ Text.quotedSet invalids.toList ++
      " \x7d"
  | .unresolvedBindings keys => "(" ++ Text.quotedSet keys.toList ++ ")"

/-- The kind of a failure and its data. -/
def description (e : ActionError) : String := e.kind ++ e.details

end ActionError

end ActionBook
