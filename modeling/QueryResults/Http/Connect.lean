import QueryResults.Http.ObjectStore
import QueryResults.Http.QueryService
import QueryResults.Session

/-!
# Sessions over HTTP

The settings name the endpoint of the query service, and that of the object store if there is one.

## Main definitions

* `Http.connect`: the session and the connections that all settings together describe.
-/

namespace QueryResults.Http

open QueryService (Mailbox)

variable {σ : Type}

/-- An object store that works on the outside. -/
def outsideStore (store : Store σ) : Store (World (Mailbox σ)) where
  get r := World.run (Mailbox.run (store.get r))
  lapse := World.run (Mailbox.run store.lapse)

/-- A query service that works on the outside. -/
def outsideService (service : Service (Mailbox σ)) : Service (World (Mailbox σ)) where
  submit x := World.run (service.submit x)
  status handle := World.run (service.status handle)
  stop handle := World.run (service.stop handle)
  request r := World.run (service.request r)
  receive ticket := World.run (service.receive ticket)
  abandon ticket w := { w with outside := service.abandon ticket w.outside }

/-- How the application is named in every request. -/
def agentText (s : Settings) : String := s.transport.userAgent.getD s.agent.text

/-- The session and its connections under given settings. -/
def connect (s : Settings) (transport : Transport σ) (newToken : σ → String × σ) :
    Except Failure (Session × Connections (Mailbox σ)) :=
  match s.endpoint with
  | none => .error (.invalidArgument "athena.endpoint is required")
  | some endpoint =>
    let transport := transport.named (agentText s)
    let service : QueryService σ := { settings := s.transport, transport, endpoint, newToken }
    .ok
      (.ofSettings s,
        { service := outsideService service.service
          store := s.storeEndpoint.map fun e =>
            outsideStore (objectStore s.transport transport e) })

end QueryResults.Http
