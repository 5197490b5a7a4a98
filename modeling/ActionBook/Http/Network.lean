import ActionBook.Http.Message

/-!
# `Http.Network`: the world that requests go to

All requests go to one server, which answers as a script says and keeps what it has seen; or nothing
can be reached at all.
-/

namespace ActionBook.Http

/-- Who answers. -/
inductive Server where
  /-- Nothing can be reached. -/
  | unreachable
  /-- A server that goes through a list of answers and repeats the last one. -/
  | scripted (answers : List Exchange)
deriving DecidableEq, Repr

/-- The world that requests go to. -/
structure Network where
  server : Server
  /-- The requests that have arrived, the first one first. -/
  seen : List Request := []
deriving DecidableEq, Repr

namespace Network

/-- A network where nothing can be reached. -/
def offline : Network := { server := .unreachable }

/-- A network with a server that follows a script. -/
def scripted (answers : List Exchange) : Network := { server := .scripted answers }

/-- Sends a request. A script without answers gives empty responses. -/
def exchange (n : Network) (r : Request) : Exchange × Network :=
  match n.server with
  | .unreachable => (.dropped, n)
  | .scripted answers =>
    let seen := n.seen ++ [r]
    match answers with
    | [] => (.answered {}, { n with seen })
    | [last] => (last, { n with seen })
    | next :: rest => (next, { server := .scripted rest, seen })

end Network

end ActionBook.Http
