import AdWiki.Access.Authority
import AdWiki.Access.Target
import AdWiki.Lib.Levels

/-!
# The evaluation of access to a resource

`ResourceAccessService`: without the global permission an access is denied; a note outside the spaces belongs to its
owner and those it is shared with; everywhere else the path of the target is searched from the target up to its space
for a rule or a boundary. `evaluate` asks for one target, `evaluateMany` for many targets of one type, for which it
loads the rules and the boundaries of all paths at once.
-/

namespace AdWiki.Access

open Wiki

inductive ResourceAclEffect
  | allow
  | deny
  deriving DecidableEq, Repr

/-- A user or a group: an entry has exactly one of the two. -/
inductive Recipient
  | user (id : String)
  | group (id : String)
  deriving DecidableEq, Repr

structure ResourceAclEntry where
  id : String
  recipient : Recipient
  targetKey : String
  action : String
  effect : ResourceAclEffect
  inheritToChildren : Bool
  deriving DecidableEq, Repr

namespace ResourceAclEntry

variable (entry : ResourceAclEntry)

def userId : Option String :=
  match entry.recipient with
  | .user id => some id
  | .group _ => none

def groupId : Option String :=
  match entry.recipient with
  | .user _ => none
  | .group id => some id

def recipientKey : String :=
  match entry.recipient with
  | .user id => "user:" ++ id
  | .group id => "group:" ++ id

/-- `@@unique([recipientKey, targetKey, action])`. -/
def key : String × String × String := (entry.recipientKey, entry.targetKey, entry.action)

end ResourceAclEntry

structure ResourceAclBoundary where
  targetKey : String
  action : String
  deriving DecidableEq, Repr

/-- `@@unique([targetKey, action])`. -/
def ResourceAclBoundary.key (row : ResourceAclBoundary) : String × String := (row.targetKey, row.action)

structure GroupMembership where
  groupId : String
  userId : String
  deriving DecidableEq, Repr

/-- `@@unique([groupId, userId])`. -/
def GroupMembership.key (row : GroupMembership) : String × String := (row.groupId, row.userId)

structure Database where
  directory : Directory
  knowledge : KnowledgeBase
  groupMemberships : Table GroupMembership.key
  resourceAclEntries : Table ResourceAclEntry.key
  resourceAclBoundaries : Table ResourceAclBoundary.key

inductive ResourceAccessReason
  | globalDenied
  | directUserAllow
  | directUserDeny
  | directGroupAllow
  | directGroupDeny
  | inheritedUserAllow
  | inheritedUserDeny
  | inheritedGroupAllow
  | inheritedGroupDeny
  | inheritanceBoundaryOpen
  | inheritanceBoundaryRestricted
  | spaceOpen
  | spaceRestricted
  | personalOwner
  | personalShare
  | personalDenied
  deriving DecidableEq, Repr

structure ResourceAclTargetRef where
  type : TargetType
  id : String
  label : String
  deriving DecidableEq, Repr

structure ResourceAccessDecision where
  allowed : Bool
  reason : ResourceAccessReason
  globalAllowed : Bool
  ruleId : Option String
  sourceTarget : Option ResolvedResourceTarget
  evaluatedPath : List ResourceAclTargetRef
  groupIds : List String
  deriving DecidableEq, Repr

structure AccessRequest where
  resource : Resource
  action : Action
  targetType : TargetType
  targetId : String
  deriving DecidableEq, Repr

structure BatchAccessRequest where
  resource : Resource
  action : Action
  targetType : TargetType
  targetIds : List String
  deriving DecidableEq, Repr

/-- The request for one target of a batch. -/
def BatchAccessRequest.single (request : BatchAccessRequest) (id : String) : AccessRequest :=
  ⟨request.resource, request.action, request.targetType, id⟩

/-! ## Decisions -/

def decision (allowed : Bool) (reason : ResourceAccessReason) (globalAllowed : Bool) (ruleId : Option String)
    (sourceTarget : Option ResolvedResourceTarget) (evaluatedPath : List ResolvedResourceTarget)
    (groupIds : List String) : ResourceAccessDecision where
  allowed := allowed
  reason := reason
  globalAllowed := globalAllowed
  ruleId := ruleId
  sourceTarget := sourceTarget
  evaluatedPath := evaluatedPath.map fun target => ⟨target.type, target.id, target.label⟩
  groupIds := groupIds

def globalDenied : ResourceAccessDecision := decision false .globalDenied false none none [] []

inductive RecipientKind
  | user
  | group
  deriving DecidableEq, Repr

def ruleReason (pathIndex : Nat) (recipient : RecipientKind) (allowed : Bool) : ResourceAccessReason :=
  match recipient, pathIndex == 0, allowed with
  | .user, true, true => .directUserAllow
  | .user, true, false => .directUserDeny
  | .user, false, true => .inheritedUserAllow
  | .user, false, false => .inheritedUserDeny
  | .group, true, true => .directGroupAllow
  | .group, true, false => .directGroupDeny
  | .group, false, true => .inheritedGroupAllow
  | .group, false, false => .inheritedGroupDeny

/-- The decision by a rule at a level of the path. -/
def ruleDecision (hierarchy : ResolvedTargetHierarchy) (groupIds : List String) (index : Nat)
    (target : ResolvedResourceTarget) (recipient : RecipientKind) (rule : ResourceAclEntry) : ResourceAccessDecision :=
  let allowed := rule.effect == .allow
  decision allowed (ruleReason index recipient allowed) true (some rule.id) (some target) hierarchy.path groupIds

def visibilityDecision (hierarchy : ResolvedTargetHierarchy) (boundaryTarget : Option ResolvedResourceTarget)
    (groupIds : List String) (boundary : Bool) : ResourceAccessDecision :=
  let allowed := hierarchy.spaceVisibility == some .opened
  let reason := match boundary, allowed with
    | true, true => .inheritanceBoundaryOpen
    | true, false => .inheritanceBoundaryRestricted
    | false, true => .spaceOpen
    | false, false => .spaceRestricted
  let spaceTarget := hierarchy.path.find? fun target => target.type == .space
  decision allowed reason true none (boundaryTarget.or spaceTarget) hierarchy.path groupIds

def evaluatePersonalNote (actor : AuthenticatedUser) (action : Action) (hierarchy : ResolvedTargetHierarchy)
    (personal : PersonalNote) : ResourceAccessDecision :=
  let answer := fun allowed reason => decision allowed reason true none hierarchy.path.head? hierarchy.path []
  if personal.ownerId = actor.id then answer true .personalOwner
  else
    match personal.shares.find? fun entry => entry.userId == actor.id with
    | some share =>
      if action = .read ∨ action = .update ∧ share.permission = .edit then answer true .personalShare
      else answer false .personalDenied
    | none => answer false .personalDenied

/-! ## The path -/

/-- What is loaded for an actor before the path is searched. -/
structure LoadedRules where
  groupIds : List String
  entries : List ResourceAclEntry
  boundaryKeys : List String

/-- One turn of the loop over the path, which `evaluate` and `evaluateLoadedHierarchy` have in the same words. -/
def levelDecision (actor : AuthenticatedUser) (hierarchy : ResolvedTargetHierarchy) (loaded : LoadedRules)
    (index : Nat) (target : ResolvedResourceTarget) : Option ResourceAccessDecision :=
  let applicable := loaded.entries.filter fun entry =>
    entry.targetKey == target.key && (index == 0 || entry.inheritToChildren)
  match applicable.find? fun entry => entry.userId == some actor.id with
  | some userEntry => some (ruleDecision hierarchy loaded.groupIds index target .user userEntry)
  | none =>
    let groupEntries := applicable.filter fun entry => entry.groupId.any loaded.groupIds.contains
    let groupDeny := groupEntries.find? fun entry => entry.effect == .deny
    match groupDeny.or groupEntries.head? with
    | some groupRule => some (ruleDecision hierarchy loaded.groupIds index target .group groupRule)
    | none =>
      if loaded.boundaryKeys.contains target.key then
        some (visibilityDecision hierarchy (some target) loaded.groupIds true)
      else none

/-- The loop over the path, and what follows it. -/
def pathDecision (actor : AuthenticatedUser) (hierarchy : ResolvedTargetHierarchy) (loaded : LoadedRules) :
    ResourceAccessDecision :=
  (Levels.nearest (levelDecision actor hierarchy loaded) hierarchy.path).getD
    (visibilityDecision hierarchy none loaded.groupIds false)

def evaluateLoadedHierarchy (actor : AuthenticatedUser) (action : Action) (hierarchy : ResolvedTargetHierarchy)
    (loaded : LoadedRules) : ResourceAccessDecision :=
  match hierarchy.personalNote with
  | some personal => evaluatePersonalNote actor action hierarchy personal
  | none => pathDecision actor hierarchy loaded

/-! ## The service -/

def unsupportedPair : HttpError := .badRequest "Diese Kombination aus Ressource und Aktion wird nicht unterstützt."

/-- The two assertions about the requested target, the first of its path. -/
def assertTarget (hierarchy : ResolvedTargetHierarchy) (resource : Resource) (action : Action) :
    Except HttpError Unit := do
  let first ← required hierarchy.path.head?
  assertResourceMatches first resource
  assertActionSupported first action

namespace Database

variable (order : RowOrder) (db : Database)

/-- The groups of a user, by ascending id. -/
def groupIdsOf (userId : String) : List String :=
  ((db.groupMemberships.rows.filter fun row => row.userId == userId).map GroupMembership.groupId).insertionSort (· ≤ ·)

/-- The three queries for the rules of an actor on the targets with the given keys. -/
def loadRules (userId : String) (action : Action) (targetKeys : List String) : LoadedRules :=
  let groupIds := db.groupIdsOf userId
  { groupIds := groupIds
    entries := db.resourceAclEntries.findMany order fun entry =>
      entry.action == action.text && targetKeys.contains entry.targetKey &&
        (entry.userId == some userId || entry.groupId.any groupIds.contains)
    boundaryKeys := Js.distinct <|
      (db.resourceAclBoundaries.findMany order fun row =>
        row.action == action.text && targetKeys.contains row.targetKey).map ResourceAclBoundary.targetKey }

def evaluate (actor : AuthenticatedUser) (request : AccessRequest) : Except HttpError ResourceAccessDecision :=
  if ¬isPermissionSupported ⟨request.resource, request.action⟩ then .error unsupportedPair
  else if ¬db.directory.isAllowed actor ⟨request.resource, request.action⟩ then .ok globalDenied
  else do
    let hierarchy ← resolveHierarchy order db.knowledge request.targetType request.targetId
    assertTarget hierarchy request.resource request.action
    match hierarchy.personalNote with
    | some personal => pure (evaluatePersonalNote actor request.action hierarchy personal)
    | none =>
      let targetKeys := hierarchy.path.map ResolvedResourceTarget.key
      pure (pathDecision actor hierarchy (db.loadRules order actor.id request.action targetKeys))

def evaluateMany (actor : AuthenticatedUser) (request : BatchAccessRequest) :
    Except HttpError (OrderedMap String ResourceAccessDecision) :=
  let uniqueIds := Js.distinct request.targetIds
  if ¬isPermissionSupported ⟨request.resource, request.action⟩ then .error unsupportedPair
  else if uniqueIds = [] then .ok OrderedMap.empty
  else if ¬db.directory.isAllowed actor ⟨request.resource, request.action⟩ then
    .ok (OrderedMap.empty.setAll (uniqueIds.map fun id => (id, globalDenied)))
  else do
    let hierarchies ← resolveHierarchies order db.knowledge request.targetType uniqueIds
    forM hierarchies.values fun hierarchy => assertTarget hierarchy request.resource request.action
    let targetKeys := Js.distinct (hierarchies.values.flatMap fun hierarchy =>
      hierarchy.path.map ResolvedResourceTarget.key)
    let loaded := db.loadRules order actor.id request.action targetKeys
    pure (OrderedMap.empty.setAll (hierarchies.entries.map fun entry =>
      (entry.1, evaluateLoadedHierarchy actor request.action entry.2 loaded)))

def allowedTargetIds (actor : AuthenticatedUser) (request : BatchAccessRequest) : Except HttpError (List String) := do
  let decisions ← db.evaluateMany order actor request
  pure (request.targetIds.filter fun id => (decisions.get? id).any ResourceAccessDecision.allowed)

/-- Hides a denied target like one that does not exist. -/
def assertAllowed (actor : AuthenticatedUser) (request : AccessRequest)
    (notFoundMessage : Option String) : Except HttpError ResourceAccessDecision := do
  let decision ← db.evaluate order actor request
  if decision.allowed then pure decision else .error (.notFound (notFoundMessage.getD "Inhalt wurde nicht gefunden."))

/-- The preview for administrators. -/
def evaluateForUser (userId : String) (request : AccessRequest) : Except HttpError ResourceAccessDecision := do
  let actor ← db.directory.inspectedActor userId
  db.evaluate order actor request

end Database

end AdWiki.Access
