import BlocTrust.Identity.PasskeyService

/-!
Any number of calls of `SessionService` and of authenticated calls of `PasskeyService`,
interleaved statement by statement over one database.  A passkey endpoint authenticates its
access token first.
-/
namespace BlocTrust.Identity

open ReadCommitted

inductive Op
  | create (userId organizationId : Id) (metadata : RequestMetadata)
  | authenticate (accessToken : Text)
  | rotate (refreshToken : Nat) (metadata : RequestMetadata)
  | revoke (sessionId : Id)
  | revokeAll (userId : Id)
  | registrationOptions (accessToken : Text)
  | verifyRegistration (accessToken : Text) (response : RegistrationResponse)
      (deviceName : Option Text)
  | stepUpOptions (accessToken : Text)
  | verifyStepUp (accessToken : Text) (response : AuthenticationResponse)

inductive Response
  | session (bundle : SessionBundle)
  | context (auth : AuthContext)
  | registration (options : PasskeyService.RegistrationOptions)
  | authentication (options : PasskeyService.AuthenticationOptions)
  | credential (credentialId : Text) (deviceName : Option Text)
  | verified (at_ : Time)
  | done

variable (cfg : Config)

/-- `SessionAuthGuard` in front of a handler. -/
def authenticated (accessToken : Text) (handler : AuthContext → Program Response) :
    Program Response :=
  SessionService.authenticateAccessToken cfg accessToken >>= handler

def program : Op → Program Response
  | .create userId organizationId metadata =>
      SessionService.create cfg userId organizationId metadata >>= fun b => pure (.session b)
  | .authenticate accessToken =>
      SessionService.authenticateAccessToken cfg accessToken >>= fun a => pure (.context a)
  | .rotate refreshToken metadata =>
      SessionService.rotate cfg refreshToken metadata >>= fun b => pure (.session b)
  | .revoke sessionId => SessionService.revoke sessionId >>= fun _ => pure .done
  | .revokeAll userId => SessionService.revokeAll userId >>= fun _ => pure .done
  | .registrationOptions accessToken =>
      authenticated cfg accessToken fun auth =>
        PasskeyService.registrationOptions auth >>= fun o => pure (.registration o)
  | .verifyRegistration accessToken response deviceName =>
      authenticated cfg accessToken fun auth =>
        PasskeyService.verifyRegistration cfg auth response deviceName >>= fun c =>
          pure (.credential c.1 c.2)
  | .stepUpOptions accessToken =>
      authenticated cfg accessToken fun auth =>
        PasskeyService.stepUpOptions auth >>= fun o => pure (.authentication o)
  | .verifyStepUp accessToken response =>
      authenticated cfg accessToken fun auth =>
        PasskeyService.verifyStepUp cfg auth response >>= fun t => pure (.verified t)

def machine : Machine Val Out Failure Response Op := tables.machine client (program cfg)

abbrev Process := Proc Val Out Failure Response Op
abbrev System := Sys Val Out Failure Response Op
abbrev SystemAction := Action Val Failure Op

abbrev Legal : Transition Val := tables.Legal

end BlocTrust.Identity
