import ActionBook.Action.Basic
import ActionBook.Binding.Template

/-!
# `Action.Derived`: fields that follow from others

The binding keys of an action and the reasons why it cannot be run follow from its plugin,
datasource and template. `Action.refreshed` computes them anew and looks at nothing else.
-/

namespace ActionBook

namespace RequestTemplate

/-- All texts of the template that can have bindings: path, header values, query values, body. -/
def texts (t : RequestTemplate) : List String :=
  t.path :: t.headers.map Property.value ++ t.query.map Property.value ++ t.body.toList

/-- The keys of all bindings. -/
def bindingKeys (t : RequestTemplate) : TextSet := .ofList (t.texts.flatMap Binding.keys)

end RequestTemplate

/-- Why an action cannot be run. -/
inductive Defect where
  | missingPlugin
  | missingDatasource
  | missingUrl
  | missingMethod
deriving DecidableEq, Repr

/-- The text of a reason. -/
def Defect.text : Defect → String
  | .missingPlugin => "Missing plugin id"
  | .missingDatasource => "Missing datasource"
  | .missingUrl => "Missing datasource url"
  | .missingMethod => "Missing HTTP method"

namespace Action

/-- Whether a reason not to run an action applies. A text that is blank is missing. -/
def hasDefect (a : Action) : Defect → Bool
  | .missingPlugin => Text.isBlankText a.plugin
  | .missingDatasource => a.datasource.isNone
  | .missingUrl => a.datasource.any fun d => Text.isBlankText d.url
  | .missingMethod => Text.isBlankText a.template.method

/-- All reasons that apply. -/
def defects (a : Action) : List Defect :=
  [.missingPlugin, .missingDatasource, .missingUrl, .missingMethod].filter a.hasDefect

/-- The action with its derived fields computed anew. -/
def refreshed (a : Action) : Action :=
  { a with
    bindingKeys := a.template.bindingKeys
    isValid := a.defects.isEmpty
    invalids := .ofList (a.defects.map Defect.text) }

end Action

end ActionBook
