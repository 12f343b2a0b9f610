import NamingDirectory.Ldap.Wire

/-!
# Sessions

Every operation on a directory opens a connection of its own and closes it. Faults of the directory
protocol leave a session as refusals.
-/

namespace NamingDirectory.Ldap

def connection (d : Directory) : Connection :=
  { endpoint := d.endpoint, timeout := d.timeout
    user := d.settings.principal.orElse .null, password := d.settings.password.orElse .null
    validate := !d.settings.validateTls.isVoid }

/-- A fault of the directory protocol as the refusal that the caller sees; any other is left alone. -/
def asRefusal (e : Fault) : Fault :=
  if e.isProtocol then
    .refusal .general (.text ("LDAP error: " ++ e.plain)) .null (some e)
  else e

def openConnection (d : Directory) : Op Unit := do
  let _ ← call .open
  if !d.settings.startTls.isVoid then
    let _ ← call .startTls

def authenticate : Op Unit := do
  let reply ← ExceptT.adapt Fault.contained (call .bind)
  if !reply.ok then
    let outcome ← lift reply.outcome
    throw (.refuse .general ("LDAP bind failed: " ++ outcome.text) .null)

/-- Closes the connection. A fault of the protocol is only noted; any other takes the place of the
result. -/
def close {α : Type} (result : Except Fault α) : Op α :=
  ExceptT.mk <| .ask .unbind fun reply =>
    match reply.raised with
    | none => .done result
    | some e =>
      if e.isProtocol then .note (.unbindFailed e) (.done result)
      else .done (.error e.contained)

/-- Does something on a connection of its own. The connection is closed whatever comes of it, once it has
been opened, and secured where that is set. -/
def session {α : Type} (d : Directory) (body : Op α) : Op α :=
  ExceptT.mk <| .note (.connect (connection d)) <|
    (openConnection d).run.bind fun
      | .error e => .done (.error (asRefusal e).contained)
      | .ok () => (authenticate >>= fun _ => body).run.bind fun result =>
          (close (result.mapError asRefusal)).run

end NamingDirectory.Ldap
