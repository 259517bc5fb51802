import ATape.Authentication.CLI
import ATape.Authentication.Federated

/-! Calls of the authentication module. A call makes attempts at one transaction or at two; what it
replies comes with the attempts of each. -/
namespace ATape.Authentication
open Foundation

abbrev Tries := List (Attempt Database)

abbrev Trace := List (List (Ended Database Write))

def inTransaction {α : Type} (checked : Except Error (Transaction α)) (tries : Tries) : Reply Error α × Trace :=
  match checked with
  | .error error => (.domain error,[])
  | .ok x =>
    let (reply,ended) := withTransaction x tries
    (reply,[ended])

namespace Module
variable (m : Module)

/-- Behind a claim the provider answers, and the login fails or is completed. A failure that is not
recorded is reported all the same. -/
def completeFederatedLogin (input : CompleteFederatedLoginInput) (claiming : Tries)
    (answer : ClaimedFederatedLogin → Except ProviderFailure VerifiedExternalIdentity) (ending : Tries) :
    Reply Error WebSessionGrant × Trace :=
  match inputError input with
  | some code => (.domain (domainError code),[])
  | none => match withTransaction (m.claimInTransaction input) claiming with
    | (.ok claimed,ended) => match m.providerAnswer claimed (answer claimed) with
      | .error code =>
        (.domain (domainError code),[ended,(withTransaction (recordFederatedFailure claimed code input.requestID) ending).2])
      | .ok identity =>
        let (reply,completed) := withTransaction (m.completeInTransaction input.state input.requestID claimed identity) ending
        (reply,[ended,completed])
    | (.domain error,ended) => (.domain error,[ended])
    | (.uncertain _,ended) => (.uncertain none,[ended])
    | (.failed,ended) => (.failed,[ended])

def resolved : Reply Error Resolved → Reply Error CLIAuthorizationView
  | .ok (.ok view) => .ok view
  | .ok (.error error) => .domain error
  | .domain error => .domain error
  | .uncertain _ => .uncertain none
  | .failed => .failed

/-- What a device is told. Of an uncertain claim it is told what the database shows later. -/
def polled (later : Option Database) : Reply Error IssuedCredentialAttempt → Reply Error CLICredentialGrant
  | .ok issued => .ok issued.grant
  | .domain error => .domain error
  | .uncertain (some issued) => match later.bind fun db => m.reconcileCLICredentialClaim db issued with
    | some grant => .ok grant
    | none => .domain (domainError .outcomeUnknown)
  | .uncertain none => .uncertain none
  | .failed => .failed

end Module

inductive Call
  | authenticateWeb (secret : String) (requireFresh : Bool) (tries : Tries)
  | completeFederatedLogin (input : Module.CompleteFederatedLoginInput) (claiming : Tries)
      (answer : ClaimedFederatedLogin → Except ProviderFailure VerifiedExternalIdentity) (ending : Tries)
  | resolveCLIDeviceAuthorization (caller : Principal) (userCode requestID : String) (tries : Tries)
  | decideCLIDeviceAuthorization (caller : Principal) (id requestID : String) (decision : Option Module.CLIDecision)
      (tries : Tries)
  | pollCLIDeviceAuthorization (deviceCode requestID : String) (tries : Tries) (later : Option Database)

def Call.tries : Call → Tries
  | .authenticateWeb _ _ tries => tries
  | .completeFederatedLogin _ claiming _ ending => claiming++ending
  | .resolveCLIDeviceAuthorization _ _ _ tries => tries
  | .decideCLIDeviceAuthorization _ _ _ _ tries => tries
  | .pollCLIDeviceAuthorization _ _ tries _ => tries

def reported {α : Type} : Reply Error α → Option Error
  | .domain error => some error
  | _ => none

def Call.answer (m : Module) : Call → Option Error × Trace
  | .authenticateWeb secret requireFresh tries =>
    let (reply,trace) := inTransaction (m.authenticateWeb secret requireFresh) tries
    (reported reply,trace)
  | .completeFederatedLogin input claiming answer ending =>
    let (reply,trace) := m.completeFederatedLogin input claiming answer ending
    (reported reply,trace)
  | .resolveCLIDeviceAuthorization caller userCode requestID tries =>
    let (reply,trace) := inTransaction (m.resolveCLIDeviceAuthorization caller userCode requestID) tries
    (reported (Module.resolved reply),trace)
  | .decideCLIDeviceAuthorization caller id requestID decision tries =>
    let (reply,trace) := inTransaction (m.decideCLIDeviceAuthorization caller id requestID decision) tries
    (reported reply,trace)
  | .pollCLIDeviceAuthorization deviceCode requestID tries later =>
    let (reply,trace) := inTransaction (m.pollCLIDeviceAuthorization deviceCode requestID) tries
    (reported (m.polled later reply),trace)

end ATape.Authentication
