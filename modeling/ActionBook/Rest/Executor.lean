import ActionBook.Rest.Request
import ActionBook.Rest.Response

/-!
# `Rest.Executor`: running actions over HTTP
-/

namespace ActionBook.Rest

/-- The name of the plugin. -/
def pluginName : String := "restapi-plugin"

/-- How many milliseconds an exchange takes at least. -/
def exchangeTime : Nat := 1

/-- Makes the request of a template and gives the result of the response. What cannot be sent is
known at once; everything else takes its time. -/
def executor [Url.Idna] : Executor Http.Network := fun d t network =>
  match request d t with
  | .error e => ({ outcome := .error e, delay := some 0 }, network)
  | .ok (outgoing, sent) =>
    match Http.send outgoing network Http.redirectionLimit with
    | (.response r, network) =>
      ({ outcome := .ok (result r sent), delay := some exchangeTime }, network)
    | (.failed e, network) => ({ outcome := .error e, delay := some exchangeTime }, network)
    | (.silent, network) =>
      ({ outcome := .error (Http.sendFault outgoing.url), delay := none }, network)

end ActionBook.Rest
