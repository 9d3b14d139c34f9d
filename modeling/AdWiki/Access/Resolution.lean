import AdWiki.Access.ResourceAccess

/-!
# The resolution rule

`Resolves` says which decision a path leads to: the one of the nearest level that has a rule for the user, unless a
boundary comes before it; without a rule the visibility of the space decides. At one level the rule of the user wins over
those of groups, and a denying group over an allowing one (`WinsAt`). The loop over the path follows it
(`pathDecision_resolves`), and what it answers does not depend on what else has been loaded, up to which of two groups of
equal rank is named (`pathDecision_same`).
-/

namespace AdWiki.Access

variable {db : Database} {userId : String} {action : Action} {hierarchy : ResolvedTargetHierarchy} {index : Nat}
  {target : ResolvedResourceTarget} {e e' : ResourceAclEntry} {kind kind' : RecipientKind} {order order' : RowOrder}

/-- The entry is a rule for the user and the action at a level of a path: it is on the target of the level, and above
the requested target it is inherited. -/
structure RuleAt (db : Database) (userId : String) (action : Action) (index : Nat) (target : ResolvedResourceTarget)
    (e : ResourceAclEntry) : Prop where
  mem : e ∈ db.resourceAclEntries
  action : e.action = action.text
  target : e.targetKey = target.key
  reaches : index = 0 ∨ e.inheritToChildren = true
  recipient : e.recipient = .user userId ∨
    ∃ groupId, e.recipient = .group groupId ∧ ⟨groupId, userId⟩ ∈ db.groupMemberships

def BoundaryAt (db : Database) (action : Action) (target : ResolvedResourceTarget) : Prop :=
  ⟨target.key, action.text⟩ ∈ db.resourceAclBoundaries

/-- The rule that decides at a level. -/
inductive WinsAt (db : Database) (userId : String) (action : Action) (index : Nat) (target : ResolvedResourceTarget) :
    RecipientKind → ResourceAclEntry → Prop
  | user {e : ResourceAclEntry} : RuleAt db userId action index target e → e.recipient = .user userId →
    WinsAt db userId action index target .user e
  | group {e : ResourceAclEntry} : RuleAt db userId action index target e →
    (∀ e', RuleAt db userId action index target e' → e'.recipient ≠ .user userId) →
    (e.effect = .allow → ∀ e', RuleAt db userId action index target e' → e'.effect = .allow) →
    WinsAt db userId action index target .group e

/-- The level has neither a rule nor a boundary. -/
structure ClearAt (db : Database) (userId : String) (action : Action) (index : Nat) (target : ResolvedResourceTarget) :
    Prop where
  rule : ∀ e, ¬RuleAt db userId action index target e
  boundary : ¬BoundaryAt db action target

/-- Every level below the given one is clear. -/
def ClearBefore (db : Database) (userId : String) (action : Action) (path : List ResolvedResourceTarget)
    (index : Nat) : Prop :=
  ∀ (i : Nat) (target : ResolvedResourceTarget), i < index → path[i]? = some target → ClearAt db userId action i target

/-- The decision that the path leads to. -/
inductive Resolves (db : Database) (userId : String) (action : Action) (hierarchy : ResolvedTargetHierarchy) :
    ResourceAccessDecision → Prop
  | rule {index : Nat} {target : ResolvedResourceTarget} {kind : RecipientKind} {e : ResourceAclEntry} :
    hierarchy.path[index]? = some target → ClearBefore db userId action hierarchy.path index →
    WinsAt db userId action index target kind e →
    Resolves db userId action hierarchy (ruleDecision hierarchy (db.groupIdsOf userId) index target kind e)
  | boundary {index : Nat} {target : ResolvedResourceTarget} : hierarchy.path[index]? = some target →
    ClearBefore db userId action hierarchy.path index → (∀ e, ¬RuleAt db userId action index target e) →
    BoundaryAt db action target →
    Resolves db userId action hierarchy (visibilityDecision hierarchy (some target) (db.groupIdsOf userId) true)
  | visibility : ClearBefore db userId action hierarchy.path hierarchy.path.length →
    Resolves db userId action hierarchy (visibilityDecision hierarchy none (db.groupIdsOf userId) false)

/-- Rules of groups on one target that decide alike. -/
structure EquallyRanked (e e' : ResourceAclEntry) : Prop where
  group : e.groupId.isSome = true
  group' : e'.groupId.isSome = true
  target : e.targetKey = e'.targetKey
  action : e.action = e'.action
  effect : e.effect = e'.effect

/-- The decisions differ at most in which of two rules of equal rank is named. -/
structure SameDecision (db : Database) (d d' : ResourceAccessDecision) : Prop where
  allowed : d.allowed = d'.allowed
  reason : d.reason = d'.reason
  globalAllowed : d.globalAllowed = d'.globalAllowed
  sourceTarget : d.sourceTarget = d'.sourceTarget
  evaluatedPath : d.evaluatedPath = d'.evaluatedPath
  groupIds : d.groupIds = d'.groupIds
  rule : d.ruleId = d'.ruleId ∨ ∃ e ∈ db.resourceAclEntries, ∃ e' ∈ db.resourceAclEntries,
    d.ruleId = some e.id ∧ d'.ruleId = some e'.id ∧ EquallyRanked e e'

theorem SameDecision.refl (d : ResourceAccessDecision) : SameDecision db d d :=
  ⟨rfl, rfl, rfl, rfl, rfl, rfl, Or.inl rfl⟩

/-! ## Recipients -/

theorem ResourceAclEntry.userId_eq_some : e.userId = some userId ↔ e.recipient = .user userId := by
  unfold ResourceAclEntry.userId
  cases e.recipient <;> simp

theorem ResourceAclEntry.groupId_eq_some {groupId : String} :
    e.groupId = some groupId ↔ e.recipient = .group groupId := by
  unfold ResourceAclEntry.groupId
  cases e.recipient <;> simp

theorem Database.mem_groupIdsOf {groupId : String} :
    groupId ∈ db.groupIdsOf userId ↔ ⟨groupId, userId⟩ ∈ db.groupMemberships := by
  simp only [Database.groupIdsOf, List.mem_insertionSort, List.mem_map, List.mem_filter, beq_iff_eq]
  constructor
  · rintro ⟨row, ⟨hrow, rfl⟩, rfl⟩
    exact hrow
  · intro h
    exact ⟨⟨groupId, userId⟩, ⟨h, rfl⟩, rfl⟩

/-- The recipients of the query: the user and the groups of the user. -/
theorem Database.recipients_iff : e.userId = some userId ∨ (∃ g, e.groupId = some g ∧ g ∈ db.groupIdsOf userId) ↔
    e.recipient = .user userId ∨ ∃ groupId, e.recipient = .group groupId ∧ ⟨groupId, userId⟩ ∈ db.groupMemberships := by
  simp only [ResourceAclEntry.userId_eq_some, ResourceAclEntry.groupId_eq_some, Database.mem_groupIdsOf]

/-- A user has one rule for an action on a target. -/
theorem RuleAt.eq_of_user (h : RuleAt db userId action index target e) (h' : RuleAt db userId action index target e')
    (hu : e.recipient = .user userId) (hu' : e'.recipient = .user userId) : e = e' := by
  refine Rows.eq_of_key db.resourceAclEntries.unique h.mem h'.mem ?_
  simp only [ResourceAclEntry.key, ResourceAclEntry.recipientKey, hu, hu', h.target, h'.target, h.action, h'.action]

/-! ## One level -/

section Level

variable {keys : List String}

theorem mem_loadRules_entries : e ∈ (db.loadRules order userId action keys).entries ↔
    e ∈ db.resourceAclEntries ∧ e.action = action.text ∧ e.targetKey ∈ keys ∧
      (e.recipient = .user userId ∨ ∃ groupId, e.recipient = .group groupId ∧
        ⟨groupId, userId⟩ ∈ db.groupMemberships) := by
  rw [← Database.recipients_iff]
  simp only [Database.loadRules, Table.mem_findMany, Bool.and_eq_true, Bool.or_eq_true, beq_iff_eq,
    List.contains_iff_mem, Option.any_eq_true, and_assoc]

theorem mem_loadRules_boundaryKeys (hkey : target.key ∈ keys) :
    target.key ∈ (db.loadRules order userId action keys).boundaryKeys ↔ BoundaryAt db action target := by
  simp only [Database.loadRules, Js.mem_distinct, List.mem_map, Table.mem_findMany, Bool.and_eq_true, beq_iff_eq,
    List.contains_iff_mem]
  constructor
  · rintro ⟨row, ⟨hrow, haction, -⟩, htarget⟩
    unfold BoundaryAt
    rwa [← haction, ← htarget]
  · intro h
    exact ⟨⟨target.key, action.text⟩, ⟨h, rfl, hkey⟩, rfl⟩

/-- The applicable entries at a level of a path whose rules have been loaded. -/
theorem mem_applicable (hkey : target.key ∈ keys) :
    e ∈ ((db.loadRules order userId action keys).entries.filter fun entry =>
      entry.targetKey == target.key && (index == 0 || entry.inheritToChildren)) ↔
      RuleAt db userId action index target e := by
  simp only [List.mem_filter, mem_loadRules_entries, Bool.and_eq_true, Bool.or_eq_true, beq_iff_eq]
  constructor
  · rintro ⟨⟨hmem, haction, -, hrecipient⟩, htarget, hreaches⟩
    exact ⟨hmem, haction, htarget, hreaches, hrecipient⟩
  · rintro ⟨hmem, haction, htarget, hreaches, hrecipient⟩
    exact ⟨⟨hmem, haction, htarget ▸ hkey, hrecipient⟩, htarget, hreaches⟩

/-- What the resolution rule says about one level. -/
inductive LevelResolves (db : Database) (userId : String) (action : Action) (hierarchy : ResolvedTargetHierarchy)
    (index : Nat) (target : ResolvedResourceTarget) : Option ResourceAccessDecision → Prop
  | rule {kind : RecipientKind} {e : ResourceAclEntry} : WinsAt db userId action index target kind e →
    LevelResolves db userId action hierarchy index target
      (some (ruleDecision hierarchy (db.groupIdsOf userId) index target kind e))
  | boundary : (∀ e, ¬RuleAt db userId action index target e) → BoundaryAt db action target →
    LevelResolves db userId action hierarchy index target
      (some (visibilityDecision hierarchy (some target) (db.groupIdsOf userId) true))
  | clear : ClearAt db userId action index target → LevelResolves db userId action hierarchy index target none

/-- The choice of a group's rule: a denying one if there is one, else the first. -/
theorem groupRule_cases {l : List ResourceAclEntry} :
    ((l.find? fun entry => entry.effect == .deny).or l.head? = none ∧ l = []) ∨
      ∃ a ∈ l, (l.find? fun entry => entry.effect == .deny).or l.head? = some a ∧
        (a.effect = .allow → ∀ b ∈ l, b.effect = .allow) := by
  cases hdeny : l.find? fun entry => entry.effect == .deny with
  | some a =>
    have ha : a.effect = .deny := by simpa using List.find?_some hdeny
    refine Or.inr ⟨a, List.mem_of_find?_eq_some hdeny, rfl, fun hallow => ?_⟩
    rw [ha] at hallow
    cases hallow
  | none =>
    cases l with
    | nil => exact Or.inl ⟨rfl, rfl⟩
    | cons a l =>
      refine Or.inr ⟨a, List.mem_cons_self, rfl, fun _ b hb => ?_⟩
      have hb' : ¬(b.effect == .deny) = true := List.find?_eq_none.mp hdeny b hb
      cases h : b.effect with
      | allow => rfl
      | deny => exact absurd (beq_iff_eq.mpr h) hb'

/-- One turn of the loop follows the resolution rule. -/
theorem levelDecision_resolves {actor : AuthenticatedUser} (hkey : target.key ∈ keys) :
    LevelResolves db actor.id action hierarchy index target
      (levelDecision actor hierarchy (db.loadRules order actor.id action keys) index target) := by
  have hgroups : (db.loadRules order actor.id action keys).groupIds = db.groupIdsOf actor.id := rfl
  have happlicable : ∀ e, e ∈ ((db.loadRules order actor.id action keys).entries.filter fun entry =>
      entry.targetKey == target.key && (index == 0 || entry.inheritToChildren)) ↔
      RuleAt db actor.id action index target e := fun e => mem_applicable hkey
  have hboundary : target.key ∈ (db.loadRules order actor.id action keys).boundaryKeys ↔ BoundaryAt db action target :=
    mem_loadRules_boundaryKeys hkey
  unfold levelDecision
  simp only [hgroups]
  generalize (db.loadRules order actor.id action keys).entries.filter (fun entry =>
    entry.targetKey == target.key && (index == 0 || entry.inheritToChildren)) = applicable at happlicable
  cases huser : applicable.find? fun entry => entry.userId == some actor.id with
  | some userEntry =>
    have hown : userEntry.userId = some actor.id := by simpa using List.find?_some huser
    exact .rule (.user ((happlicable _).mp (List.mem_of_find?_eq_some huser)) (ResourceAclEntry.userId_eq_some.mp hown))
  | none =>
    have hnot : ∀ e, RuleAt db actor.id action index target e → e.recipient ≠ .user actor.id := by
      intro e he hown
      have hfalse := List.find?_eq_none.mp huser e ((happlicable e).mpr he)
      exact hfalse (beq_iff_eq.mpr (ResourceAclEntry.userId_eq_some.mpr hown))
    have hgroup : ∀ e, e ∈ (applicable.filter fun entry => entry.groupId.any (db.groupIdsOf actor.id).contains) ↔
        RuleAt db actor.id action index target e := by
      intro e
      rw [List.mem_filter, happlicable]
      refine ⟨fun h => h.1, fun h => ⟨h, ?_⟩⟩
      rcases h.recipient with hown | ⟨g, hg, hmember⟩
      · exact absurd hown (hnot e h)
      · rw [ResourceAclEntry.groupId_eq_some.mpr hg, Option.any_some, List.contains_iff_mem]
        exact Database.mem_groupIdsOf.mpr hmember
    generalize (applicable.filter fun entry => entry.groupId.any (db.groupIdsOf actor.id).contains) = groupEntries
      at hgroup
    rcases groupRule_cases (l := groupEntries) with ⟨hchoice, hempty⟩ | ⟨a, ha, hchoice, hallow⟩
    · have hnone : ∀ e, ¬RuleAt db actor.id action index target e := by
        intro e he
        have hmem := (hgroup e).mpr he
        rw [hempty] at hmem
        exact absurd hmem List.not_mem_nil
      simp only [hchoice]
      split
      · next hb => exact .boundary hnone (hboundary.mp (List.contains_iff_mem.mp hb))
      · next hb => exact .clear ⟨hnone, fun h => hb (List.contains_iff_mem.mpr (hboundary.mpr h))⟩
    · simp only [hchoice]
      exact .rule (.group ((hgroup a).mp ha) hnot fun h e he => hallow h e ((hgroup e).mpr he))

/-- The rules that decide at a level, in two readings of the tables, are of equal rank. -/
theorem WinsAt.same (h : WinsAt db userId action index target kind e)
    (h' : WinsAt db userId action index target kind' e') :
    kind = kind' ∧ e.effect = e'.effect ∧ (e = e' ∨ EquallyRanked e e') := by
  cases h with
  | user hrule hown =>
    cases h' with
    | user hrule' hown' =>
      obtain rfl := hrule.eq_of_user hrule' hown hown'
      exact ⟨rfl, rfl, Or.inl rfl⟩
    | group hrule' hnot' hallow' => exact absurd hown (hnot' e hrule)
  | group hrule hnot hallow =>
    cases h' with
    | user hrule' hown' => exact absurd hown' (hnot e' hrule')
    | group hrule' hnot' hallow' =>
      have heffect : e.effect = e'.effect := by
        cases he : e.effect with
        | allow => exact (hallow he e' hrule').symm
        | deny =>
          cases he' : e'.effect with
          | allow => rw [hallow' he' e hrule] at he; cases he
          | deny => rfl
      have hgroupId : ∀ {a}, RuleAt db userId action index target a → a.groupId.isSome = true := by
        intro a ha
        rcases ha.recipient with hown | ⟨g, hg, -⟩
        · exact absurd hown (hnot a ha)
        · rw [ResourceAclEntry.groupId_eq_some.mpr hg]
          rfl
      refine ⟨rfl, heffect, Or.inr ⟨hgroupId hrule, hgroupId hrule', ?_, ?_, heffect⟩⟩
      · rw [hrule.target, hrule'.target]
      · rw [hrule.action, hrule'.action]

theorem WinsAt.ruleAt (h : WinsAt db userId action index target kind e) : RuleAt db userId action index target e := by
  cases h with
  | user hrule _ => exact hrule
  | group hrule _ _ => exact hrule

/-- The decisions by rules of equal rank. -/
theorem WinsAt.sameDecision {groupIds : List String} (h : WinsAt db userId action index target kind e)
    (h' : WinsAt db userId action index target kind' e') :
    SameDecision db (ruleDecision hierarchy groupIds index target kind e)
      (ruleDecision hierarchy groupIds index target kind' e') := by
  obtain ⟨rfl, heffect, hrank⟩ := h.same h'
  refine ⟨?_, ?_, rfl, rfl, rfl, rfl, ?_⟩
  · simp only [ruleDecision, decision, heffect]
  · simp only [ruleDecision, decision, heffect]
  · rcases hrank with rfl | hrank
    · exact Or.inl rfl
    · exact Or.inr ⟨e, h.ruleAt.mem, e', h'.ruleAt.mem, rfl, rfl, hrank⟩

/-- The resolution rule leaves no choice at a level but that between rules of equal rank. -/
theorem LevelResolves.same {x y : Option ResourceAccessDecision}
    (h : LevelResolves db userId action hierarchy index target x)
    (h' : LevelResolves db userId action hierarchy index target y) : Option.Rel (SameDecision db) x y := by
  cases h with
  | rule hwins =>
    cases h' with
    | rule hwins' => exact .some (hwins.sameDecision hwins')
    | boundary hnone _ => exact absurd hwins.ruleAt (hnone _)
    | clear hclear => exact absurd hwins.ruleAt (hclear.rule _)
  | boundary hnone hboundary =>
    cases h' with
    | rule hwins' => exact absurd hwins'.ruleAt (hnone _)
    | boundary _ _ => exact .some (.refl _)
    | clear hclear => exact absurd hboundary hclear.boundary
  | clear hclear =>
    cases h' with
    | rule hwins' => exact absurd hwins'.ruleAt (hclear.rule _)
    | boundary _ hboundary => exact absurd hboundary hclear.boundary
    | clear _ => exact .none

end Level

/-! ## The path -/

section Path

variable {actor : AuthenticatedUser} {keys keys' : List String}

/-- A level is clear where the loop does not stop. -/
theorem clearAt_of_levelDecision (hkey : target.key ∈ keys)
    (h : levelDecision actor hierarchy (db.loadRules order actor.id action keys) index target = none) :
    ClearAt db actor.id action index target := by
  have hlevel : LevelResolves db actor.id action hierarchy index target
      (levelDecision actor hierarchy (db.loadRules order actor.id action keys) index target) :=
        levelDecision_resolves hkey
  rw [h] at hlevel
  cases hlevel with
  | clear hclear => exact hclear

/-- The loop over the path follows the resolution rule. -/
theorem pathDecision_resolves (hkeys : ∀ target ∈ hierarchy.path, target.key ∈ keys) :
    Resolves db actor.id action hierarchy
      (pathDecision actor hierarchy (db.loadRules order actor.id action keys)) := by
  have hkey : ∀ {i : Nat} {target}, hierarchy.path[i]? = some target → target.key ∈ keys := fun h =>
    hkeys _ (List.mem_of_getElem? h)
  unfold pathDecision
  cases hnearest : Levels.nearest (levelDecision actor hierarchy (db.loadRules order actor.id action keys))
      hierarchy.path with
  | none =>
    refine .visibility fun i target hi htarget => ?_
    exact clearAt_of_levelDecision (hkey htarget) (Levels.nearest_eq_none.mp hnearest i target htarget)
  | some d =>
    obtain ⟨i, target, htarget, hd, hbefore⟩ := Levels.nearest_eq_some.mp hnearest
    have hclear : ClearBefore db actor.id action hierarchy.path i := fun j a hj ha =>
      clearAt_of_levelDecision (hkey ha) (hbefore j a hj ha)
    have hlevel : LevelResolves db actor.id action hierarchy i target
        (levelDecision actor hierarchy (db.loadRules order actor.id action keys) i target) :=
      levelDecision_resolves (hkey htarget)
    rw [hd] at hlevel
    cases hlevel with
    | rule hwins => exact .rule htarget hclear hwins
    | boundary hnone hboundary => exact .boundary htarget hclear hnone hboundary

/-- The answer does not depend on the other rules that have been loaded, nor on the order of the rows. -/
theorem pathDecision_same (hkeys : ∀ target ∈ hierarchy.path, target.key ∈ keys)
    (hkeys' : ∀ target ∈ hierarchy.path, target.key ∈ keys') :
    SameDecision db (pathDecision actor hierarchy (db.loadRules order actor.id action keys))
      (pathDecision actor hierarchy (db.loadRules order' actor.id action keys')) := by
  have hrel : Option.Rel (SameDecision db)
      (Levels.nearest (levelDecision actor hierarchy (db.loadRules order actor.id action keys)) hierarchy.path)
      (Levels.nearest (levelDecision actor hierarchy (db.loadRules order' actor.id action keys')) hierarchy.path) := by
    refine Levels.nearest_rel fun i target htarget => ?_
    have hmem := List.mem_of_getElem? htarget
    exact (levelDecision_resolves (hkeys target hmem)).same (levelDecision_resolves (hkeys' target hmem))
  unfold pathDecision
  revert hrel
  generalize Levels.nearest (levelDecision actor hierarchy (db.loadRules order actor.id action keys)) hierarchy.path = x
  generalize Levels.nearest (levelDecision actor hierarchy (db.loadRules order' actor.id action keys')) hierarchy.path = y
  intro hrel
  cases hrel with
  | none => exact .refl _
  | some hsame => exact hsame

end Path

end AdWiki.Access
