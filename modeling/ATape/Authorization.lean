import Mathlib.Algebra.Order.Ring.Int
import Mathlib.Data.List.Sort
import Mathlib.Data.Prod.Lex
import Mathlib.Tactic.Ring

/-! The closed authorization policy: a catalog of actions, each with the kind of
resource it acts on, the credentials it accepts and the role it requires. -/
namespace ATape.Authorization

inductive AuthenticationMethod
  | webAuthentication
  | cliAuthentication
  | other
deriving DecidableEq

structure Principal where
  userID : String
  method : AuthenticationMethod
  fresh : Bool
deriving DecidableEq

inductive Action
  | workspaceListVisible | teamCreate | userReadSelf | userUpdateProfile | externalIdentityList
  | externalIdentityBind | webSessionList | webSessionRevokeOne | webSessionRevokeAll
  | cliCredentialList | cliCredentialRevokeOne | cliCredentialRevokeAll | cliCredentialReadCurrent
  | cliCredentialRevokeCurrent | teamJoinWithCode | teamReadMetadata | projectListMetadata
  | projectReadMetadata | projectMatch | membershipList | teamUpdateDisplayProfile
  | membershipPromoteToOwner | membershipDemoteOwner | membershipRemoveMember
  | membershipRemoveOwner | membershipLeaveSelf | teamJoinCodeReadStatus | teamJoinCodeRotate
  | teamJoinCodeDisable | projectCreate | folderProjectRename | gitProjectRelinkRepository
  | projectArchive | projectDelete | projectMemoryRead | conversationRead | projectSearchQuery
  | rawSessionList | rawObjectRead | canonicalIngest | rawIngest | capturedSessionDeleteOwn
  | capturedSessionDeleteAny | teamUpdateRawCapture | userUpdateRawCapture
deriving DecidableEq

inductive ResourceKind
  | instance_ | user | team | membership | teamJoinCode | project | conversation | rawObject
  | capturedSession
deriving DecidableEq

inductive MembershipRole
  | none | member | owner
deriving DecidableEq

/-- A removed or missing membership is not active. -/
structure MembershipFacts where
  teamID : String
  userID : String
  role : MembershipRole
  active : Bool
deriving DecidableEq

def MembershipFacts.missing : MembershipFacts := ⟨"","",.none,false⟩

structure ResourceFacts where
  kind : ResourceKind
  ownerUserID : String
  teamID : String
  capturedByUserID : String
deriving DecidableEq

def ResourceFacts.of (kind : ResourceKind) : ResourceFacts := ⟨kind,"","",""⟩

inductive Decision
  | forbid | conceal | allow
deriving DecidableEq

inductive Denial
  | none | policyDenied | resourceConcealed | credentialCapabilityDenied | membershipRoleDenied
  | freshAuthenticationRequired
deriving DecidableEq

structure Outcome where
  decision : Decision
  denial : Denial
deriving DecidableEq

structure Input where
  principal : Principal
  action : Action
  resource : ResourceFacts
  membership : MembershipFacts

inductive RoleRequirement
  | irrelevant | activeMember | activeOwner
deriving DecidableEq

inductive Media
  | web | cli | any
deriving DecidableEq

structure Rule where
  resource : ResourceKind
  media : Media
  role : RoleRequirement
  fresh : Bool

def catalog : Action → Rule
  | .workspaceListVisible => ⟨.instance_,.any,.irrelevant,false⟩
  | .teamCreate => ⟨.instance_,.web,.irrelevant,false⟩
  | .userReadSelf => ⟨.user,.any,.irrelevant,false⟩
  | .userUpdateProfile => ⟨.user,.web,.irrelevant,false⟩
  | .externalIdentityList => ⟨.user,.web,.irrelevant,false⟩
  | .externalIdentityBind => ⟨.user,.web,.irrelevant,true⟩
  | .webSessionList => ⟨.user,.web,.irrelevant,false⟩
  | .webSessionRevokeOne => ⟨.user,.web,.irrelevant,false⟩
  | .webSessionRevokeAll => ⟨.user,.web,.irrelevant,false⟩
  | .cliCredentialList => ⟨.user,.web,.irrelevant,false⟩
  | .cliCredentialRevokeOne => ⟨.user,.web,.irrelevant,false⟩
  | .cliCredentialRevokeAll => ⟨.user,.web,.irrelevant,false⟩
  | .cliCredentialReadCurrent => ⟨.user,.cli,.irrelevant,false⟩
  | .cliCredentialRevokeCurrent => ⟨.user,.cli,.irrelevant,false⟩
  | .teamJoinWithCode => ⟨.instance_,.web,.irrelevant,false⟩
  | .teamReadMetadata => ⟨.team,.any,.activeMember,false⟩
  | .projectListMetadata => ⟨.team,.any,.activeMember,false⟩
  | .projectReadMetadata => ⟨.project,.any,.activeMember,false⟩
  | .projectMatch => ⟨.team,.cli,.activeMember,false⟩
  | .membershipList => ⟨.team,.web,.activeMember,false⟩
  | .teamUpdateDisplayProfile => ⟨.team,.web,.activeOwner,false⟩
  | .membershipPromoteToOwner => ⟨.membership,.web,.activeOwner,true⟩
  | .membershipDemoteOwner => ⟨.membership,.web,.activeOwner,true⟩
  | .membershipRemoveMember => ⟨.membership,.web,.activeOwner,false⟩
  | .membershipRemoveOwner => ⟨.membership,.web,.activeOwner,true⟩
  | .membershipLeaveSelf => ⟨.membership,.web,.activeMember,false⟩
  | .teamJoinCodeReadStatus => ⟨.teamJoinCode,.web,.activeOwner,false⟩
  | .teamJoinCodeRotate => ⟨.teamJoinCode,.web,.activeOwner,true⟩
  | .teamJoinCodeDisable => ⟨.teamJoinCode,.web,.activeOwner,false⟩
  | .projectCreate => ⟨.team,.any,.activeMember,false⟩
  | .folderProjectRename => ⟨.project,.web,.activeOwner,false⟩
  | .gitProjectRelinkRepository => ⟨.project,.web,.activeOwner,true⟩
  | .projectArchive => ⟨.project,.web,.activeOwner,false⟩
  | .projectDelete => ⟨.project,.web,.activeOwner,true⟩
  | .projectMemoryRead => ⟨.project,.web,.activeMember,false⟩
  | .conversationRead => ⟨.conversation,.web,.activeMember,false⟩
  | .projectSearchQuery => ⟨.project,.web,.activeMember,false⟩
  | .rawSessionList => ⟨.conversation,.web,.activeMember,false⟩
  | .rawObjectRead => ⟨.rawObject,.web,.activeMember,false⟩
  | .canonicalIngest => ⟨.project,.cli,.activeMember,false⟩
  | .rawIngest => ⟨.conversation,.cli,.activeMember,false⟩
  | .capturedSessionDeleteOwn => ⟨.capturedSession,.web,.activeMember,false⟩
  | .capturedSessionDeleteAny => ⟨.capturedSession,.web,.activeOwner,true⟩
  | .teamUpdateRawCapture => ⟨.team,.web,.activeOwner,false⟩
  | .userUpdateRawCapture => ⟨.user,.web,.irrelevant,false⟩

def denied (reason : Denial) : Outcome := ⟨.forbid,reason⟩

def visible (input : Input) : Bool :=
  if input.principal.userID = "" then false
  else
    match input.resource.kind with
    | .instance_ => true
    | .user => input.resource.ownerUserID ≠ "" && input.resource.ownerUserID = input.principal.userID
    | _ =>
      input.resource.teamID ≠ "" && input.membership.active &&
        input.membership.teamID = input.resource.teamID &&
        input.membership.userID = input.principal.userID &&
        (input.membership.role = .member || input.membership.role = .owner)

def Media.accepts : Media → AuthenticationMethod → Bool
  | .web,.webAuthentication => true
  | .cli,.cliAuthentication => true
  | .any,.webAuthentication => true
  | .any,.cliAuthentication => true
  | _,_ => false

/-- Only the team's members learn that a resource exists, so visibility is
decided before the credential and the role. -/
def evaluate (input : Input) : Outcome :=
  let rule := catalog input.action
  if rule.resource ≠ input.resource.kind then denied .policyDenied
  else if !visible input then ⟨.conceal,.resourceConcealed⟩
  else if !rule.media.accepts input.principal.method then denied .credentialCapabilityDenied
  else if rule.role = .activeOwner && input.membership.role ≠ .owner then denied .membershipRoleDenied
  else if rule.fresh && !input.principal.fresh then denied .freshAuthenticationRequired
  else if input.action = .capturedSessionDeleteOwn &&
      input.resource.capturedByUserID ≠ input.principal.userID then denied .membershipRoleDenied
  else if input.action = .rawIngest &&
      input.resource.capturedByUserID ≠ input.principal.userID then denied .membershipRoleDenied
  else ⟨.allow,.none⟩

/-- The denial that a use case reports, if the outcome does not allow it. -/
def enforce (outcome : Outcome) : Except Outcome Unit :=
  if outcome.decision = .allow then .ok () else .error outcome

theorem evaluate_hidden {input : Input} (kind : (catalog input.action).resource = input.resource.kind)
    (hidden : visible input = false) : evaluate input = ⟨.conceal,.resourceConcealed⟩ := by
  unfold evaluate
  simp [kind,hidden]

end ATape.Authorization
