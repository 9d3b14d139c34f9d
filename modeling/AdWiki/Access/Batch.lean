import AdWiki.Access.Hierarchy
import AdWiki.Access.Resolution

/-!
# Many targets at once

`evaluateMany` answers for each target of a batch as `evaluate` does for that target alone (`BatchAgrees`), whichever
order the data store returns its rows in. Both assert that the requested resource is one that the target is for (`Fits`),
`evaluateMany` for the whole batch: a category of notes makes it refuse a batch about wiki categories
(`mixed_batch_refused`).
-/

namespace AdWiki.Access

open Wiki Ancestors

variable {db : Database} {kb : KnowledgeBase} {type : TargetType} {id : String} {r r' : ResolvedTargetHierarchy}
  {actor : AuthenticatedUser} {resource : Resource} {action : Action} {order order' : RowOrder}

/-- The requested resource is one that the target is for. -/
def Fits (kb : KnowledgeBase) (type : TargetType) (id : String) (resource : Resource) : Prop :=
  ∀ r, IsHierarchy kb type id r → ∃ first, r.path.head? = some first ∧ resource ∈ first.allowedResources

/-! ## Two readings of a hierarchy -/

/-- A note is shared with a user once. -/
theorem nodup_recipients (shares : Table NoteShare.key) (noteId : String) :
    ((shares.rows.filter fun share => share.noteId == noteId).map NoteShare.userId).Nodup := by
  have hunique := shares.unique
  rw [List.Nodup, List.pairwise_map] at hunique ⊢
  refine List.pairwise_filter.mpr (hunique.imp fun {a b} hne ha hb huser => hne ?_)
  simp only [NoteShare.key, beq_iff_eq.mp ha, beq_iff_eq.mp hb, huser]

/-- A note outside the spaces, with its shares in some order. -/
def personalHierarchy (note : Note) (shares : List NoteShare) : ResolvedTargetHierarchy :=
  ⟨[noteTarget note], none, some ⟨note.ownerId, shares⟩⟩

/-- A target has one hierarchy, up to the order of the shares of a personal note. -/
theorem IsHierarchy.same (h : IsHierarchy kb type id r) (h' : IsHierarchy kb type id r') :
    r.personalNote = none ∧ r' = r ∨ ∃ note shares shares', r = personalHierarchy note shares ∧
      r' = personalHierarchy note shares' ∧ shares.Perm shares' ∧ (shares.map NoteShare.userId).Nodup := by
  cases h with
  | space hfind =>
    cases h' with
    | space hfind' =>
      rw [hfind] at hfind'
      cases hfind'
      exact Or.inl ⟨rfl, rfl⟩
  | category hfind hspace =>
    cases h' with
    | category hfind' hspace' =>
      rw [hfind] at hfind'
      cases hfind'
      rw [hspace] at hspace'
      cases hspace'
      exact Or.inl ⟨rfl, rfl⟩
  | page hfind hl hspace =>
    cases h' with
    | page hfind' hl' hspace' =>
      rw [hfind] at hfind'
      cases hfind'
      rw [hspace] at hspace'
      cases hspace'
      rw [hl'.chain.unique hl.chain]
      exact Or.inl ⟨rfl, rfl⟩
  | personalNote hfind hnone hshares =>
    cases h' with
    | personalNote hfind' hnone' hshares' =>
      rw [hfind] at hfind'
      cases hfind'
      refine Or.inr ⟨_, _, _, rfl, rfl, hshares.trans hshares'.symm, ?_⟩
      rw [(hshares.map _).nodup_iff]
      exact nodup_recipients kb.noteShares _
    | note hfind' hsome' _ _ =>
      rw [hfind] at hfind'
      cases hfind'
      rw [hnone] at hsome'
      cases hsome'
  | note hfind hsome hspace hcategory =>
    cases h' with
    | personalNote hfind' hnone' _ =>
      rw [hfind] at hfind'
      cases hfind'
      rw [hnone'] at hsome
      cases hsome
    | note hfind' hsome' hspace' _ =>
      rw [hfind] at hfind'
      cases hfind'
      rw [hsome] at hsome'
      cases hsome'
      rw [hspace] at hspace'
      cases hspace'
      exact Or.inl ⟨rfl, rfl⟩
  | standard hfind hspace hcategory =>
    cases h' with
    | standard hfind' hspace' _ =>
      rw [hfind] at hfind'
      cases hfind'
      rw [hspace] at hspace'
      cases hspace'
      exact Or.inl ⟨rfl, rfl⟩

theorem IsHierarchy.same_path (h : IsHierarchy kb type id r) (h' : IsHierarchy kb type id r') : r.path = r'.path := by
  rcases h.same h' with ⟨-, rfl⟩ | ⟨note, shares, shares', rfl, rfl, -, -⟩ <;> rfl

theorem IsHierarchy.path_head (h : IsHierarchy kb type id r) : ∃ first, r.path.head? = some first := by
  cases h with
  | space | category | personalNote | note | standard => exact ⟨_, rfl⟩
  | page hfind hl hspace =>
    obtain ⟨a, tl, -, rfl⟩ := hl.chain.head
    exact ⟨_, rfl⟩

/-- The order of the shares does not matter. -/
theorem evaluatePersonalNote_perm {hierarchy hierarchy' : ResolvedTargetHierarchy} {ownerId : String}
    {shares shares' : List NoteShare} (hpath : hierarchy.path = hierarchy'.path) (hperm : shares.Perm shares')
    (hunique : (shares.map NoteShare.userId).Nodup) :
    evaluatePersonalNote actor action hierarchy ⟨ownerId, shares⟩ =
      evaluatePersonalNote actor action hierarchy' ⟨ownerId, shares'⟩ := by
  have hfind : (shares.find? fun share => share.userId == actor.id) =
      shares'.find? fun share => share.userId == actor.id := by
    refine Option.ext fun share => ?_
    rw [Rows.find?_key hunique, Rows.find?_key ((hperm.map _).nodup_iff.mp hunique), hperm.mem_iff]
  simp only [evaluatePersonalNote, hpath, hfind]

/-- The evaluation of a loaded hierarchy, in two readings of the tables. -/
theorem evaluateLoadedHierarchy_same {keys keys' : List String} (h : IsHierarchy db.knowledge type id r)
    (h' : IsHierarchy db.knowledge type id r') (hkeys : ∀ target ∈ r.path, target.key ∈ keys)
    (hkeys' : ∀ target ∈ r'.path, target.key ∈ keys') :
    SameDecision db (evaluateLoadedHierarchy actor action r (db.loadRules order actor.id action keys))
      (evaluateLoadedHierarchy actor action r' (db.loadRules order' actor.id action keys')) := by
  rcases h.same h' with ⟨hnone, rfl⟩ | ⟨note, shares, shares', rfl, rfl, hperm, hunique⟩
  · simp only [evaluateLoadedHierarchy, hnone]
    exact pathDecision_same hkeys hkeys'
  · have hsame : evaluatePersonalNote actor action (personalHierarchy note shares) ⟨note.ownerId, shares⟩ =
        evaluatePersonalNote actor action (personalHierarchy note shares') ⟨note.ownerId, shares'⟩ :=
      evaluatePersonalNote_perm rfl hperm hunique
    show SameDecision db (evaluatePersonalNote actor action (personalHierarchy note shares) ⟨note.ownerId, shares⟩)
      (evaluatePersonalNote actor action (personalHierarchy note shares') ⟨note.ownerId, shares'⟩)
    rw [hsame]
    exact .refl _

/-! ## The assertions -/

theorem assertTarget_eq {first : ResolvedResourceTarget} (hfirst : r.path.head? = some first)
    (hsupported : isPermissionSupported ⟨resource, action⟩ = true) :
    assertTarget r resource action = assertResourceMatches first resource := by
  simp only [assertTarget, hfirst, required]
  show (do assertResourceMatches first resource; assertActionSupported first action) = _
  unfold assertResourceMatches
  split
  · next hmatch =>
    show assertActionSupported first action = _
    rw [assertActionSupported, if_pos]
    exact List.any_eq_true.mpr ⟨resource, List.contains_iff_mem.mp hmatch, hsupported⟩
  · rfl

/-- The assertions hold where the resource fits. -/
theorem assertTarget_ok (h : IsHierarchy kb type id r) (hsupported : isPermissionSupported ⟨resource, action⟩ = true) :
    assertTarget r resource action = .ok () ↔ Fits kb type id resource := by
  obtain ⟨first, hfirst⟩ := h.path_head
  rw [assertTarget_eq hfirst hsupported, assertResourceMatches, ite_eq_left_iff]
  constructor
  · intro hmatch r' h'
    refine ⟨first, h.same_path h' ▸ hfirst, ?_⟩
    by_contra hnot
    exact absurd (hmatch fun hc => hnot (List.contains_iff_mem.mp hc)) (by simp)
  · intro hfits hnot
    obtain ⟨first', hfirst', hmem⟩ := hfits r h
    rw [hfirst] at hfirst'
    cases hfirst'
    exact absurd (List.contains_iff_mem.mpr hmem) hnot

/-- A failed assertion is the same in two readings of the hierarchy. -/
theorem assertTarget_same (h : IsHierarchy kb type id r) (h' : IsHierarchy kb type id r') :
    assertTarget r resource action = assertTarget r' resource action := by
  simp only [assertTarget, h.same_path h']

/-! ## One target -/

section Single

variable {q : AccessRequest}

/-- The evaluation after the hierarchy has been resolved, with the rules of its own path. -/
theorem evaluate_eq (hsupported : isPermissionSupported ⟨q.resource, q.action⟩ = true)
    (hgranted : db.directory.isAllowed actor ⟨q.resource, q.action⟩ = true)
    (hr : resolveHierarchy order db.knowledge q.targetType q.targetId = .ok r) :
    db.evaluate order actor q = (do
      assertTarget r q.resource q.action
      pure (evaluateLoadedHierarchy actor q.action r
        (db.loadRules order actor.id q.action (r.path.map ResolvedResourceTarget.key)))) := by
  unfold Database.evaluate evaluateLoadedHierarchy
  rw [if_neg (by simp [hsupported]), if_neg (by simp [hgranted]), hr]
  cases hpersonal : r.personalNote with
  | none => simp only [Except.bind, bind, hpersonal]
  | some personal => simp only [Except.bind, bind, hpersonal]

/-- The evaluation of a target that the resource fits. -/
theorem evaluate_ok (hsupported : isPermissionSupported ⟨q.resource, q.action⟩ = true)
    (hgranted : db.directory.isAllowed actor ⟨q.resource, q.action⟩ = true)
    (hformed : WellFormed db.knowledge q.targetType q.targetId)
    (hfits : Fits db.knowledge q.targetType q.targetId q.resource) :
    ∃ r, IsHierarchy db.knowledge q.targetType q.targetId r ∧
      db.evaluate order actor q = .ok (evaluateLoadedHierarchy actor q.action r
        (db.loadRules order actor.id q.action (r.path.map ResolvedResourceTarget.key))) := by
  obtain ⟨r, hr, hhierarchy⟩ := resolveHierarchy_ok order hformed
  refine ⟨r, hhierarchy, ?_⟩
  rw [evaluate_eq hsupported hgranted hr, (assertTarget_ok hhierarchy hsupported).mpr hfits]
  rfl

/-- The evaluation of a target that the resource does not fit. -/
theorem evaluate_error {e : HttpError} (hsupported : isPermissionSupported ⟨q.resource, q.action⟩ = true)
    (hgranted : db.directory.isAllowed actor ⟨q.resource, q.action⟩ = true)
    (hr : IsHierarchy db.knowledge q.targetType q.targetId r)
    (hassert : assertTarget r q.resource q.action = .error e) :
    db.evaluate order actor q = .error e := by
  obtain ⟨r', hr', hhierarchy⟩ := resolveHierarchy_ok order ⟨r, hr⟩
  rw [evaluate_eq hsupported hgranted hr', assertTarget_same hhierarchy hr, hassert]
  rfl

end Single

/-! ## A batch -/

section Many

variable {request : BatchAccessRequest}

def BatchAccessRequest.permission (request : BatchAccessRequest) : Permission := ⟨request.resource, request.action⟩

/-- The keys of all paths of a batch. -/
def batchKeys (hierarchies : Hierarchies) : List String :=
  Js.distinct (hierarchies.values.flatMap fun hierarchy => hierarchy.path.map ResolvedResourceTarget.key)

theorem mem_batchKeys {hierarchies : Hierarchies} (h : hierarchies.get? id = some r) :
    ∀ target ∈ r.path, target.key ∈ batchKeys hierarchies := by
  intro target htarget
  refine Js.mem_distinct.mpr (List.mem_flatMap.mpr ⟨r, OrderedMap.mem_values.mpr ⟨id, h⟩, ?_⟩)
  exact List.mem_map_of_mem htarget

/-- The batch after the hierarchies have been resolved, with the rules of all paths. -/
theorem evaluateMany_eq {hierarchies : Hierarchies} (hsupported : isPermissionSupported request.permission = true)
    (hgranted : db.directory.isAllowed actor request.permission = true) (hids : Js.distinct request.targetIds ≠ [])
    (hr : resolveHierarchies order db.knowledge request.targetType (Js.distinct request.targetIds) = .ok hierarchies) :
    db.evaluateMany order actor request = (do
      forM hierarchies.values fun hierarchy => assertTarget hierarchy request.resource request.action
      pure (OrderedMap.empty.setAll (hierarchies.entries.map fun entry =>
        (entry.1, evaluateLoadedHierarchy actor request.action entry.2
          (db.loadRules order actor.id request.action (batchKeys hierarchies)))))) := by
  unfold Database.evaluateMany
  simp only [BatchAccessRequest.permission] at hsupported hgranted
  rw [if_neg (by simp [hsupported]), if_neg hids, if_neg (by simp [hgranted]), hr]
  rfl

theorem evaluateMany_nil (hsupported : isPermissionSupported request.permission = true)
    (hids : Js.distinct request.targetIds = []) : db.evaluateMany order actor request = .ok OrderedMap.empty := by
  unfold Database.evaluateMany
  simp only [BatchAccessRequest.permission] at hsupported
  rw [if_neg (by simp [hsupported]), if_pos hids]

/-- What a batch of well-formed targets leads to: each hierarchy evaluated with the rules of all paths, or the error of
a target that the resource does not fit. -/
theorem evaluateMany_cases (order : RowOrder) (hsupported : isPermissionSupported request.permission = true)
    (hgranted : db.directory.isAllowed actor request.permission = true)
    (hformed : ∀ id ∈ request.targetIds, WellFormed db.knowledge request.targetType id) :
    (∃ decisions, db.evaluateMany order actor request = .ok decisions ∧
        (∀ id, (decisions.get? id).isSome ↔ id ∈ request.targetIds) ∧
        ∀ id d, decisions.get? id = some d → Fits db.knowledge request.targetType id request.resource ∧
          ∃ r keys, IsHierarchy db.knowledge request.targetType id r ∧ (∀ target ∈ r.path, target.key ∈ keys) ∧
            d = evaluateLoadedHierarchy actor request.action r (db.loadRules order actor.id request.action keys)) ∨
      ∃ id ∈ request.targetIds, ∃ r e, IsHierarchy db.knowledge request.targetType id r ∧
        assertTarget r request.resource request.action = .error e ∧ db.evaluateMany order actor request = .error e := by
  by_cases hids : Js.distinct request.targetIds = []
  · refine Or.inl ⟨OrderedMap.empty, evaluateMany_nil hsupported hids, fun id => ?_, fun id d hd => ?_⟩
    · rw [← Js.mem_distinct (l := request.targetIds), hids]
      simp
    · cases hd
  · have hdistinct : ∀ id ∈ Js.distinct request.targetIds, WellFormed db.knowledge request.targetType id := fun id hid =>
      hformed id (Js.mem_distinct.mp hid)
    obtain ⟨hierarchies, hr, hright, hentry⟩ := resolveHierarchies_ok order hdistinct
    have hget : ∀ id, (OrderedMap.empty.setAll (hierarchies.entries.map fun entry =>
        (entry.1, evaluateLoadedHierarchy actor request.action entry.2
          (db.loadRules order actor.id request.action (batchKeys hierarchies))))).get? id =
        (hierarchies.get? id).map fun r => evaluateLoadedHierarchy actor request.action r
          (db.loadRules order actor.id request.action (batchKeys hierarchies)) := fun id =>
      OrderedMap.get?_setAll_map (g := fun r => evaluateLoadedHierarchy actor request.action r
        (db.loadRules order actor.id request.action (batchKeys hierarchies)))
    rw [evaluateMany_eq hsupported hgranted hids hr]
    rcases Fallible.forM_cases (fun hierarchy => assertTarget hierarchy request.resource request.action)
      hierarchies.values with ⟨hloop, hall⟩ | ⟨r, hmem, e, hfail, hloop⟩
    · refine Or.inl ⟨_, by rw [hloop]; rfl, fun id => ?_, fun id d hd => ?_⟩
      · rw [hget, Option.isSome_map]
        refine ⟨fun hsome => ?_, fun hid => hentry id (Js.mem_distinct.mpr hid)⟩
        obtain ⟨r, hfound⟩ := Option.isSome_iff_exists.mp hsome
        exact Js.mem_distinct.mp (hright id r hfound).2
      · rw [hget] at hd
        obtain ⟨r, hfound, rfl⟩ := Option.map_eq_some_iff.mp hd
        have hhierarchy := (hright id r hfound).1
        refine ⟨?_, r, batchKeys hierarchies, hhierarchy, mem_batchKeys hfound, rfl⟩
        exact (assertTarget_ok hhierarchy hsupported).mp (hall r (OrderedMap.mem_values.mpr ⟨id, hfound⟩))
    · obtain ⟨id, hfound⟩ := OrderedMap.mem_values.mp hmem
      obtain ⟨hhierarchy, hid⟩ := hright id r hfound
      exact Or.inr ⟨id, Js.mem_distinct.mp hid, r, e, hhierarchy, hfail, by rw [hloop]; rfl⟩

/-- Without the global permission every target of a batch is denied. -/
theorem evaluateMany_denied (order : RowOrder) (hsupported : isPermissionSupported request.permission = true)
    (hdenied : db.directory.isAllowed actor request.permission = false) :
    ∃ decisions, db.evaluateMany order actor request = .ok decisions ∧
      ∀ id, decisions.get? id = if id ∈ request.targetIds then some globalDenied else none := by
  by_cases hids : Js.distinct request.targetIds = []
  · refine ⟨OrderedMap.empty, evaluateMany_nil hsupported hids, fun id => ?_⟩
    rw [if_neg, OrderedMap.get?_empty]
    rw [← Js.mem_distinct, hids]
    exact List.not_mem_nil
  · refine ⟨OrderedMap.empty.setAll ((Js.distinct request.targetIds).map fun id => (id, globalDenied)), ?_, fun id => ?_⟩
    · unfold Database.evaluateMany
      simp only [BatchAccessRequest.permission] at hsupported hdenied
      rw [if_neg (by simp [hsupported]), if_neg hids, if_pos (by simp [hdenied])]
    · rw [OrderedMap.get?_setAll_const, OrderedMap.get?_empty]
      simp only [Js.mem_distinct]

end Many

/-! ## Batches and single targets agree -/

/-- What a batch and the separate evaluations of its targets have to do with each other, `order` being the order of rows
for the batch and `order'` that for the single targets. -/
structure BatchAgrees (order order' : RowOrder) (db : Database) (actor : AuthenticatedUser)
    (request : BatchAccessRequest) : Prop where
  unsupported : isPermissionSupported request.permission = false →
    db.evaluateMany order actor request = .error unsupportedPair ∧
      ∀ id, db.evaluate order' actor (request.single id) = .error unsupportedPair
  agrees : isPermissionSupported request.permission = true →
    (db.directory.isAllowed actor request.permission = true →
      ∀ id ∈ request.targetIds, Fits db.knowledge request.targetType id request.resource) →
    ∃ decisions, db.evaluateMany order actor request = .ok decisions ∧
      (∀ id, (decisions.get? id).isSome ↔ id ∈ request.targetIds) ∧
      ∀ id d, decisions.get? id = some d →
        ∃ d', db.evaluate order' actor (request.single id) = .ok d' ∧ SameDecision db d d'
  misfit : isPermissionSupported request.permission = true → db.directory.isAllowed actor request.permission = true →
    (∃ id ∈ request.targetIds, ¬Fits db.knowledge request.targetType id request.resource) →
    ∃ id ∈ request.targetIds, ¬Fits db.knowledge request.targetType id request.resource ∧
      ∃ e, db.evaluateMany order actor request = .error e ∧ db.evaluate order' actor (request.single id) = .error e
  rule : isPermissionSupported request.permission = true → db.directory.isAllowed actor request.permission = true →
    ∀ id ∈ request.targetIds, Fits db.knowledge request.targetType id request.resource →
      ∀ r, IsHierarchy db.knowledge request.targetType id r → r.personalNote = none →
        (∃ d', db.evaluate order' actor (request.single id) = .ok d' ∧ Resolves db actor.id request.action r d') ∧
          ∀ decisions d, db.evaluateMany order actor request = .ok decisions → decisions.get? id = some d →
            Resolves db actor.id request.action r d

theorem evaluate_denied {request : AccessRequest}
    (hsupported : isPermissionSupported ⟨request.resource, request.action⟩ = true)
    (hdenied : db.directory.isAllowed actor ⟨request.resource, request.action⟩ = false) :
    db.evaluate order actor request = .ok globalDenied := by
  unfold Database.evaluate
  rw [if_neg (by simp [hsupported]), if_pos (by simp [hdenied])]

/-- The decision about a hierarchy that is not that of a personal note follows the resolution rule. -/
theorem evaluateLoadedHierarchy_resolves {keys : List String} (h : IsHierarchy kb type id r)
    (h' : IsHierarchy kb type id r') (hnone : r.personalNote = none) (hkeys : ∀ target ∈ r'.path, target.key ∈ keys) :
    Resolves db actor.id action r
      (evaluateLoadedHierarchy actor action r' (db.loadRules order actor.id action keys)) := by
  rcases h.same h' with ⟨-, rfl⟩ | ⟨note, shares, shares', rfl, -, -, -⟩
  · simp only [evaluateLoadedHierarchy, hnone]
    exact pathDecision_resolves hkeys
  · cases hnone

section Agreement

variable {request : BatchAccessRequest}
  (hformed : ∀ id ∈ request.targetIds, WellFormed db.knowledge request.targetType id)
include hformed

/-- A batch that the resource fits, or that is denied as a whole, answers like its targets one by one. -/
theorem evaluateMany_same (order order' : RowOrder) (hsupported : isPermissionSupported request.permission = true)
    (hfits : db.directory.isAllowed actor request.permission = true →
      ∀ id ∈ request.targetIds, Fits db.knowledge request.targetType id request.resource) :
    ∃ decisions, db.evaluateMany order actor request = .ok decisions ∧
      (∀ id, (decisions.get? id).isSome ↔ id ∈ request.targetIds) ∧
      ∀ id d, decisions.get? id = some d →
        ∃ d', db.evaluate order' actor (request.single id) = .ok d' ∧ SameDecision db d d' := by
  cases hgranted : db.directory.isAllowed actor request.permission with
  | false =>
    obtain ⟨decisions, hok, hget⟩ := evaluateMany_denied order hsupported hgranted
    refine ⟨decisions, hok, fun id => ?_, fun id d hd => ⟨globalDenied, evaluate_denied hsupported hgranted, ?_⟩⟩
    · rw [hget]
      split <;> simp_all
    · rw [hget] at hd
      split at hd
      · cases hd
        exact .refl _
      · cases hd
  | true =>
    rcases evaluateMany_cases order hsupported hgranted hformed with
      ⟨decisions, hok, hids, hright⟩ | ⟨id, hid, r, e, hr, hfail, -⟩
    · refine ⟨decisions, hok, hids, fun id d hd => ?_⟩
      obtain ⟨hfit, r, keys, hr, hkeys, rfl⟩ := hright id d hd
      have hsingle : ∃ r', IsHierarchy db.knowledge request.targetType id r' ∧
          db.evaluate order' actor (request.single id) = .ok (evaluateLoadedHierarchy actor request.action r'
            (db.loadRules order' actor.id request.action (r'.path.map ResolvedResourceTarget.key))) :=
        evaluate_ok (q := request.single id) hsupported hgranted ⟨r, hr⟩ hfit
      obtain ⟨r', hr', heval⟩ := hsingle
      exact ⟨_, heval, evaluateLoadedHierarchy_same hr hr' hkeys fun target ht => List.mem_map_of_mem ht⟩
    · rw [(assertTarget_ok hr hsupported).mpr (hfits hgranted id hid)] at hfail
      cases hfail

/-- A batch that the resource does not fit fails like one of its targets. -/
theorem evaluateMany_misfit (order order' : RowOrder) (hsupported : isPermissionSupported request.permission = true)
    (hgranted : db.directory.isAllowed actor request.permission = true)
    (hmisfit : ∃ id ∈ request.targetIds, ¬Fits db.knowledge request.targetType id request.resource) :
    ∃ id ∈ request.targetIds, ¬Fits db.knowledge request.targetType id request.resource ∧
      ∃ e, db.evaluateMany order actor request = .error e ∧ db.evaluate order' actor (request.single id) = .error e := by
  rcases evaluateMany_cases order hsupported hgranted hformed with
    ⟨decisions, hok, hids, hright⟩ | ⟨id, hid, r, e, hr, hfail, herror⟩
  · obtain ⟨id, hid, hnot⟩ := hmisfit
    obtain ⟨d, hd⟩ := Option.isSome_iff_exists.mp ((hids id).mpr hid)
    exact absurd (hright id d hd).1 hnot
  · refine ⟨id, hid, fun hfit => ?_, e, herror, evaluate_error hsupported hgranted hr hfail⟩
    rw [(assertTarget_ok hr hsupported).mpr hfit] at hfail
    cases hfail

/-- The decisions of a batch follow the resolution rule. -/
theorem evaluateMany_resolves {id : String} {d : ResourceAccessDecision}
    {decisions : OrderedMap String ResourceAccessDecision} (hsupported : isPermissionSupported request.permission = true)
    (hgranted : db.directory.isAllowed actor request.permission = true)
    (hr : IsHierarchy db.knowledge request.targetType id r) (hnone : r.personalNote = none)
    (hok : db.evaluateMany order actor request = .ok decisions) (hd : decisions.get? id = some d) :
    Resolves db actor.id request.action r d := by
  rcases evaluateMany_cases order hsupported hgranted hformed with
    ⟨decisions', hok', -, hright⟩ | ⟨_, _, _, e, -, -, herror⟩
  · rw [hok] at hok'
    cases hok'
    obtain ⟨-, r', keys, hr', hkeys, rfl⟩ := hright id d hd
    exact evaluateLoadedHierarchy_resolves hr hr' hnone hkeys
  · rw [hok] at herror
    cases herror

/-- The lists of the application show the targets that are allowed one by one. -/
theorem mem_allowedTargetIds {ids : List String} (hsupported : isPermissionSupported request.permission = true)
    (h : db.allowedTargetIds order actor request = .ok ids) :
    id ∈ ids ↔ id ∈ request.targetIds ∧ ∃ d, db.evaluate order' actor (request.single id) = .ok d ∧ d.allowed = true := by
  obtain ⟨decisions, hok, hids⟩ := Fallible.bind_eq_ok.mp h
  have hfits : db.directory.isAllowed actor request.permission = true →
      ∀ id ∈ request.targetIds, Fits db.knowledge request.targetType id request.resource := by
    intro hgranted
    by_contra hmisfit
    obtain ⟨_, _, _, e, herror, -⟩ := evaluateMany_misfit hformed order order hsupported hgranted
      (by simpa using hmisfit)
    rw [hok] at herror
    cases herror
  obtain ⟨decisions', hok', hmem, hsame⟩ := evaluateMany_same hformed order order' hsupported hfits
  rw [hok] at hok'
  cases hok'
  rw [← Fallible.pure_eq_ok.mp hids, List.mem_filter, Option.any_eq_true]
  constructor
  · rintro ⟨hid, d, hd, hallowed⟩
    obtain ⟨d', heval, hdd⟩ := hsame id d hd
    exact ⟨hid, d', heval, hdd.allowed ▸ hallowed⟩
  · rintro ⟨hid, d', heval, hallowed⟩
    obtain ⟨d, hd⟩ := Option.isSome_iff_exists.mp ((hmem id).mpr hid)
    obtain ⟨d'', heval', hdd⟩ := hsame id d hd
    rw [heval] at heval'
    cases heval'
    exact ⟨hid, d, hd, hdd.allowed.trans hallowed⟩

end Agreement

/-- **A batch answers like its targets one by one.** -/
theorem evaluateMany_agrees (order order' : RowOrder) (db : Database) (actor : AuthenticatedUser)
    (request : BatchAccessRequest)
    (hformed : ∀ id ∈ request.targetIds, WellFormed db.knowledge request.targetType id) :
    BatchAgrees order order' db actor request where
  unsupported hunsupported := by
    have hnot : ¬isPermissionSupported ⟨request.resource, request.action⟩ = true := by
      rw [← Bool.not_eq_true] at hunsupported
      exact hunsupported
    refine ⟨?_, fun id => ?_⟩
    · rw [Database.evaluateMany, if_pos hnot]
    · rw [Database.evaluate, BatchAccessRequest.single, if_pos hnot]
  agrees hsupported hfits := evaluateMany_same hformed order order' hsupported hfits
  misfit hsupported hgranted hmisfit := evaluateMany_misfit hformed order order' hsupported hgranted hmisfit
  rule hsupported hgranted id hid hfits r hr hnone := by
    have hsingle : ∃ r', IsHierarchy db.knowledge request.targetType id r' ∧
        db.evaluate order' actor (request.single id) = .ok (evaluateLoadedHierarchy actor request.action r'
          (db.loadRules order' actor.id request.action (r'.path.map ResolvedResourceTarget.key))) :=
      evaluate_ok (q := request.single id) hsupported hgranted ⟨r, hr⟩ hfits
    obtain ⟨r', hr', heval⟩ := hsingle
    refine ⟨⟨_, heval, ?_⟩, fun decisions d hok hd => ?_⟩
    · exact evaluateLoadedHierarchy_resolves hr hr' hnone fun target ht => List.mem_map_of_mem ht
    · exact evaluateMany_resolves hformed hsupported hgranted hr hnone hok hd

namespace BatchDemo

def space : KnowledgeSpace := ⟨"space", "Handbook", .restricted, [.wiki, .note]⟩

def guides : Category := ⟨"guides", "Guides", "guides", .wiki, none, none, 0, "space"⟩

def memos : Category := ⟨"memos", "Memos", "memos", .note, none, none, 0, "space"⟩

def folder : Page :=
  ⟨"folder", "Folder", "folder", .folder, "", none, .published, false, true, 1, 0, none, none, "space",
    "user", none, none⟩

def page : Page :=
  ⟨"page", "Page", "page", .page, "", none, .published, false, true, 1, 0, none, none, "space", "user", none,
    some "folder"⟩

/-- A viewer may read everything in the folder through a group. -/
def wiki : Database where
  directory :=
    { roles := .single ⟨"viewer", "viewer"⟩
      users := .single ⟨"user", "user@wiki", "user", "User", "", "viewer", true, false, true⟩
      acls := .single ⟨"viewer", "pages", "read", true⟩
      permissions := .empty
      providers := .empty
      roleMappings := .empty
      externalIdentities := .empty
      externalRoleGrants := .empty }
  knowledge :=
    { spaces := .single space
      categories := ⟨[guides, memos], by decide⟩
      pages := ⟨[folder, page], by decide⟩
      notes := .empty
      noteShares := .empty
      standards := .empty }
  groupMemberships := .single ⟨"group", "user"⟩
  resourceAclEntries := .single ⟨"rule", .group "group", "page:folder", "read", .allow, true⟩
  resourceAclBoundaries := .empty

def viewer : AuthenticatedUser :=
  ⟨"user", "user@wiki", "user", "User", "viewer", "viewer", true, none, some false, some .jwt, none, none⟩

theorem folder_wellFormed : WellFormed wiki.knowledge .page "folder" := by
  have hfind : wiki.knowledge.pages.find "folder" = some folder := by decide +kernel
  have hspace : wiki.knowledge.spaces.find "space" = some space := by decide +kernel
  refine ⟨_, .page hfind ⟨.root hfind rfl, by decide, by decide, by decide, ?_⟩ hspace⟩
  intro id h
  cases h

theorem page_wellFormed : WellFormed wiki.knowledge .page "page" := by
  have hfind : wiki.knowledge.pages.find "page" = some page := by decide +kernel
  have hparent : wiki.knowledge.pages.find "folder" = some folder := by decide +kernel
  have hspace : wiki.knowledge.spaces.find "space" = some space := by decide +kernel
  refine ⟨_, .page hfind ⟨.child hfind rfl (.root hparent rfl), by decide, by decide, by decide, ?_⟩ hspace⟩
  intro id h
  cases h

end BatchDemo

/-- A page and its folder in one batch. -/
theorem evaluateMany_agrees_folder :
    BatchAgrees .stored .stored BatchDemo.wiki BatchDemo.viewer ⟨.pages, .read, .page, ["page", "folder"]⟩ := by
  refine evaluateMany_agrees .stored .stored BatchDemo.wiki BatchDemo.viewer _ fun id hid => ?_
  rcases List.mem_pair.mp hid with rfl | rfl
  · exact BatchDemo.page_wellFormed
  · exact BatchDemo.folder_wellFormed

/-- A category of pages may be seen on its own, but not in a batch with a category of notes. -/
theorem mixed_batch_refused :
    (∀ id ∈ ["guides", "memos"], WellFormed BatchDemo.wiki.knowledge .category id) ∧
      (∃ d, BatchDemo.wiki.evaluate .stored BatchDemo.viewer ⟨.pages, .read, .category, "guides"⟩ = .ok d) ∧
      ¬∃ decisions, BatchDemo.wiki.evaluateMany .stored BatchDemo.viewer ⟨.pages, .read, .category, ["guides", "memos"]⟩ =
        .ok decisions := by
  have hguides : BatchDemo.wiki.knowledge.categories.find "guides" = some BatchDemo.guides := by decide +kernel
  have hmemos : BatchDemo.wiki.knowledge.categories.find "memos" = some BatchDemo.memos := by decide +kernel
  have hspace : BatchDemo.wiki.knowledge.spaces.find "space" = some BatchDemo.space := by decide +kernel
  refine ⟨fun id hid => ?_, ?_, ?_⟩
  · rcases List.mem_pair.mp hid with rfl | rfl
    · exact ⟨_, .category hguides hspace⟩
    · exact ⟨_, .category hmemos hspace⟩
  · have hrun :
      (BatchDemo.wiki.evaluate .stored BatchDemo.viewer ⟨.pages, .read, .category, "guides"⟩).toOption.isSome := by
      decide +kernel
    cases h : BatchDemo.wiki.evaluate .stored BatchDemo.viewer ⟨.pages, .read, .category, "guides"⟩ with
    | ok d => exact ⟨d, rfl⟩
    | error e =>
      rw [h] at hrun
      cases hrun
  · rintro ⟨decisions, h⟩
    have hrun : (BatchDemo.wiki.evaluateMany .stored BatchDemo.viewer
        ⟨.pages, .read, .category, ["guides", "memos"]⟩).toOption.isNone := by decide +kernel
    rw [h] at hrun
    cases hrun

end AdWiki.Access
