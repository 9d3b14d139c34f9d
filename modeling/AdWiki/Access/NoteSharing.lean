import AdWiki.Access.ResourceAccess
import AdWiki.Lib.Fallible

/-!
# Shares of a note

`NotesService.share` and `unshare`: the access is checked, the share is written, and the note is read again for the
answer. The second read is not given the actor, so that it answers only the owner and those the note is shared with.

* `find_upsert`: what an upsert leaves under a key.
* `share_cases`, `unshare_cases`: what a call does.
* `sharing_allOrNothing_iff`: the calls that answer with what they wrote, or fail without having written.
-/

namespace AdWiki.Access.NoteSharing

open Wiki

structure NoteShareRow extends NoteShare where
  sharedById : String
  sharedAt : Time
  deriving DecidableEq, Repr

/-- `@@id([noteId, userId])`. -/
def NoteShareRow.key (row : NoteShareRow) : String × String := row.toNoteShare.key

/-- The rows of `noteShares` with all columns take the place of the shares in `base`. -/
structure Store where
  base : Database
  deletedAt : String → Option Time
  noteShares : Table NoteShareRow.key

/-- The tables that an access is evaluated on. -/
def Store.database (s : Store) : Database :=
  { s.base with
    knowledge :=
      { s.base.knowledge with
        noteShares := ⟨s.noteShares.rows.map NoteShareRow.toNoteShare, by
          rw [List.map_map]
          exact s.noteShares.unique⟩ } }

structure ShareNoteInput where
  userId : String
  permission : NoteSharePermission
  deriving DecidableEq, Repr

structure ApiNoteShare where
  userId : String
  permission : NoteSharePermission
  sharedAt : Time
  deriving DecidableEq, Repr

structure ApiNote where
  note : Note
  shares : List ApiNoteShare
  isOwner : Bool
  sharePermission : Option NoteSharePermission
  deriving DecidableEq, Repr

variable (order : RowOrder)

/-- The relation `shares` of a note, by ascending time. -/
def sharesOf (s : Store) (id : String) : List NoteShareRow :=
  (s.noteShares.findMany order fun row => row.noteId == id).insertionSort fun left right => left.sharedAt ≤ right.sharedAt

def toApi (note : Note) (shares : List NoteShareRow) (userId : String) : ApiNote where
  note := note
  shares := shares.map fun row => ⟨row.userId, row.permission, row.sharedAt⟩
  isOwner := note.ownerId == userId
  sharePermission := (shares.find? fun row => row.userId == userId).map fun row => row.permission

/-- `findFirst` for a note that is deleted or not. -/
def findNote (s : Store) (id : String) (deleted : Bool) (p : Note → Bool) : Option Note :=
  (s.base.knowledge.notes.find id).filter fun note => p note && (s.deletedAt id).isSome == deleted

def notFoundMessage : String := "Notiz wurde nicht gefunden."

/-- The actor is there if both the actor and the access service are. -/
def findOne (s : Store) (id userId : String) (actor : Option AuthenticatedUser) : Except HttpError ApiNote :=
  match findNote s id false fun _ => true with
  | none => .error (.notFound notFoundMessage)
  | some note =>
    match actor with
    | some actor => do
      let _ ← s.database.assertAllowed order actor ⟨.notes, .read, .note, id⟩ (some notFoundMessage)
      pure (toApi note (sharesOf order s id) userId)
    | none =>
      if note.ownerId ≠ userId ∧ ¬(sharesOf order s id).any fun row => row.userId == userId then
        .error (.notFound notFoundMessage)
      else .ok (toApi note (sharesOf order s id) userId)

def findForAction (s : Store) (id userId : String) (deleted : Bool) (action : Action) (actor : Option AuthenticatedUser) :
    Except HttpError Note :=
  match findNote s id deleted fun note => actor.isSome || note.ownerId == userId with
  | none => .error (.notFound "Eigene Notiz wurde nicht gefunden.")
  | some note =>
    match actor with
    | some actor => do
      let _ ← s.database.assertAllowed order actor ⟨.notes, action, .note, id⟩ (some notFoundMessage)
      pure note
    | none => .ok note

def findTarget (s : Store) (userId : String) : Option User := (s.base.directory.users.find userId).filter User.isActive

/-- `upsert` on the key of the row. -/
def upsert (shares : Table NoteShareRow.key) (row : NoteShareRow) : Table NoteShareRow.key :=
  match shares.find row.key with
  | some _ => shares.put row
  | none => (shares.createMany [row]).getD shares

def share (s : Store) (id : String) (input : ShareNoteInput) (userId : String) (actor : Option AuthenticatedUser)
    (now : Time) :
    Store × Except HttpError ApiNote :=
  match findForAction order s id userId false .share actor with
  | .error e => (s, .error e)
  | .ok note =>
    if input.userId = userId then
      (s, .error (.forbidden "Eigene Notizen mÃ¼ssen nicht mit dir selbst geteilt werden."))
    else
      match findTarget s input.userId with
      | none => (s, .error (.notFound "Benutzer wurde nicht gefunden."))
      | some _ =>
        let s := { s with noteShares := upsert s.noteShares ⟨⟨id, input.userId, input.permission⟩, userId, now⟩ }
        (s, findOne order s note.id userId none)

def unshare (s : Store) (id targetUserId userId : String) (actor : Option AuthenticatedUser) :
    Store × Except HttpError ApiNote :=
  match findForAction order s id userId false .share actor with
  | .error e => (s, .error e)
  | .ok _ =>
    let s := { s with noteShares := s.noteShares.deleteMany fun row => row.noteId == id && row.userId == targetUserId }
    (s, findOne order s id userId none)

variable {order} {s s' : Store} {id userId target : String} {actor : Option AuthenticatedUser} {note : Note} {now : Time}
  {input : ShareNoteInput} {after : Option NoteShareRow}

/-! ## What is written -/

theorem find_upsert {shares : Table NoteShareRow.key} {row : NoteShareRow} {x : String × String} :
    (upsert shares row).find x = if x = row.key then some row else shares.find x := by
  unfold upsert
  cases hfind : shares.find row.key with
  | some old =>
    rw [Table.put, Table.find_updateMany]
    by_cases hx : x = row.key
    · subst hx
      simp [hfind, (Table.find_eq_some.mp hfind).2]
    · rw [if_neg hx]
      cases hother : shares.find x with
      | none => rfl
      | some other =>
        have hkey : other.key ≠ row.key := fun h => hx ((Table.find_eq_some.mp hother).2.symm.trans h)
        simp [hkey]
  | none =>
    obtain ⟨shares', hcreate⟩ := shares.createMany_isSome (l := [row]) (by simp) (by
      intro a ha b hb
      rw [List.mem_singleton.mp hb]
      exact Table.find_eq_none.mp hfind a ha)
    rw [hcreate, Option.getD_some, Table.find_createMany hcreate]
    by_cases hx : x = row.key
    · subst hx
      simp [hfind]
    · rw [if_neg hx]
      simp [Ne.symm hx]

theorem find_deleteShare {shares : Table NoteShareRow.key} {x : String × String} :
    (shares.deleteMany fun row => row.noteId == id && row.userId == target).find x =
      if x = (id, target) then none else shares.find x := by
  rw [Table.find_deleteMany]
  cases hfind : shares.find x with
  | none => simp
  | some row =>
    have hkey : (row.noteId, row.userId) = x := (Table.find_eq_some.mp hfind).2
    subst hkey
    by_cases hx : (row.noteId, row.userId) = (id, target)
    · obtain ⟨rfl, rfl⟩ := Prod.mk.inj hx
      simp
    · rw [if_neg hx]
      have hne : ¬row.noteId = id ∨ ¬row.userId = target := not_and_or.mp fun h => hx (Prod.ext h.1 h.2)
      simpa using hne

/-- The share of the target is as given, and everything else is as before. -/
structure Written (s : Store) (id target : String) (after : Option NoteShareRow) (s' : Store) : Prop where
  base : s'.base = s.base
  deletedAt : s'.deletedAt = s.deletedAt
  find : ∀ x, s'.noteShares.find x = if x = (id, target) then after else s.noteShares.find x

/-! ## What is read -/

def HasShare (s : Store) (id userId : String) : Prop := (s.noteShares.find (id, userId)).isSome = true

theorem any_sharesOf : ((sharesOf order s id).any fun row => row.userId == userId) = true ↔ HasShare s id userId := by
  rw [HasShare, List.any_eq_true, Option.isSome_iff_exists]
  constructor
  · rintro ⟨row, hrow, huser⟩
    obtain ⟨hmem, hid⟩ := Table.mem_findMany.mp ((List.perm_insertionSort _ _).mem_iff.mp hrow)
    refine ⟨row, Table.find_eq_some.mpr ⟨hmem, ?_⟩⟩
    rw [NoteShareRow.key, NoteShare.key, beq_iff_eq.mp hid, beq_iff_eq.mp huser]
  · rintro ⟨row, hfind⟩
    obtain ⟨hmem, hkey⟩ := Table.find_eq_some.mp hfind
    obtain ⟨hid, huser⟩ := Prod.mk.inj hkey
    exact ⟨row, (List.perm_insertionSort _ _).mem_iff.mpr (Table.mem_findMany.mpr ⟨hmem, beq_iff_eq.mpr hid⟩),
      beq_iff_eq.mpr huser⟩

/-- The note is there, and not deleted. -/
def Found (s : Store) (id : String) (note : Note) : Prop :=
  s.base.knowledge.notes.find id = some note ∧ s.deletedAt id = none

theorem findNote_eq_some {p : Note → Bool} : findNote s id false p = some note ↔ Found s id note ∧ p note = true := by
  unfold findNote Found
  rw [Option.filter_eq_some_iff]
  simp
  tauto

theorem findOne_of_found (h : Found s id note) :
    (note.ownerId = userId ∨ HasShare s id userId) ∧
      findOne order s id userId none = .ok (toApi note (sharesOf order s id) userId) ∨
      ¬(note.ownerId = userId ∨ HasShare s id userId) ∧
        findOne order s id userId none = .error (.notFound notFoundMessage) := by
  unfold findOne
  rw [findNote_eq_some.mpr ⟨h, rfl⟩]
  by_cases hreader : note.ownerId = userId ∨ HasShare s id userId
  · refine Or.inl ⟨hreader, if_neg ?_⟩
    rintro ⟨howner, hshare⟩
    exact hreader.elim howner fun h => hshare (any_sharesOf.mpr h)
  · obtain ⟨howner, hshare⟩ := not_or.mp hreader
    exact Or.inr ⟨hreader, if_pos ⟨howner, fun h => hshare (any_sharesOf.mp h)⟩⟩

/-- Who may share a note: whom the access service allows it, and the owner where it is not asked. -/
def MayShare (order : RowOrder) (s : Store) (id userId : String) (actor : Option AuthenticatedUser)
    (note : Note) : Prop :=
  Found s id note ∧
    match actor with
    | some actor => ∃ d, s.database.evaluate order actor ⟨.notes, .share, .note, id⟩ = .ok d ∧ d.allowed = true
    | none => note.ownerId = userId

theorem assertAllowed_eq_ok {db : Database} {actor : AuthenticatedUser} {request : AccessRequest}
    {message : Option String} {d : ResourceAccessDecision} : db.assertAllowed order actor request message = .ok d ↔
      db.evaluate order actor request = .ok d ∧ d.allowed = true := by
  unfold Database.assertAllowed
  rw [Fallible.bind_eq_ok]
  constructor
  · rintro ⟨d', heval, hif⟩
    by_cases hallowed : d'.allowed = true
    · rw [if_pos hallowed] at hif
      cases Fallible.pure_eq_ok.mp hif
      exact ⟨heval, hallowed⟩
    · rw [if_neg hallowed] at hif
      cases hif
  · rintro ⟨heval, hallowed⟩
    exact ⟨d, heval, by rw [if_pos hallowed]; rfl⟩

theorem findForAction_eq_ok : findForAction order s id userId false .share actor = .ok note ↔
    MayShare order s id userId actor note := by
  unfold findForAction MayShare
  cases hfind : findNote s id false fun note => actor.isSome || note.ownerId == userId with
  | none =>
    refine ⟨nofun, ?_⟩
    rintro ⟨hfound, hactor⟩
    have hp : (actor.isSome || note.ownerId == userId) = true := by
      cases actor with
      | some actor => rfl
      | none => simpa using hactor
    cases hfind.symm.trans (findNote_eq_some.mpr ⟨hfound, hp⟩)
  | some found =>
    obtain ⟨hfound, hp⟩ := findNote_eq_some.mp hfind
    have heq : Found s id note ↔ found = note := by
      refine ⟨fun h => Option.some.inj (hfound.1.symm.trans h.1), ?_⟩
      rintro rfl
      exact hfound
    rw [heq]
    cases actor with
    | none =>
      have howner : found.ownerId = userId := by simpa using hp
      constructor
      · rintro ⟨⟩
        exact ⟨rfl, howner⟩
      · rintro ⟨rfl, -⟩
        rfl
    | some actor =>
      simp only [Fallible.bind_eq_ok, Fallible.pure_eq_ok, assertAllowed_eq_ok]
      constructor
      · rintro ⟨d, hd, rfl⟩
        exact ⟨rfl, d, hd⟩
      · rintro ⟨rfl, d, hd⟩
        exact ⟨d, hd, rfl⟩

/-! ## The calls -/

/-- Either the call answers with the note, and the share of the target is as given and everything else as before, or it
fails and the shares of the note are as before. -/
structure AllOrNothing (order : RowOrder) (s : Store) (id userId target : String) (after : Option NoteShareRow)
    (r : Store × Except HttpError ApiNote) : Prop where
  all : ∀ answer, r.2 = .ok answer → Written s id target after r.1 ∧
    ∃ note, r.1.base.knowledge.notes.find id = some note ∧ answer = toApi note (sharesOf order r.1 id) userId
  nothing : ∀ e, r.2 = .error e → ∀ user, r.1.noteShares.find (id, user) = s.noteShares.find (id, user)

theorem allOrNothing_refused {e : HttpError} : AllOrNothing order s id userId target after (s, .error e) := by
  constructor
  · intro answer h
    cases h
  · intro e' _ user
    rfl

/-- After the write the answer depends on whether the actor may read the note as its owner or through a share. -/
theorem allOrNothing_written (hfound : Found s id note) (h : Written s id target after s') :
    AllOrNothing order s id userId target after (s', findOne order s' id userId none) ↔
      (note.ownerId = userId ∨ HasShare s' id userId) ∨ s.noteShares.find (id, target) = after := by
  have hfound' : Found s' id note := by
    rw [Found, h.base, h.deletedAt]
    exact hfound
  rcases @findOne_of_found order _ _ userId _ hfound' with ⟨hreader, hread⟩ | ⟨hreader, hread⟩
  · rw [hread]
    refine iff_of_true ⟨?_, nofun⟩ (Or.inl hreader)
    rintro answer ⟨⟩
    exact ⟨h, note, hfound'.1, rfl⟩
  · rw [hread, or_iff_right hreader]
    constructor
    · rintro ⟨-, hnothing⟩
      rw [← hnothing _ rfl target, h.find, if_pos rfl]
    · intro hsame
      refine ⟨nofun, fun e _ user => ?_⟩
      rw [h.find]
      by_cases huser : (id, user) = (id, target)
      · rw [if_pos huser, huser, hsame]
      · rw [if_neg huser]

def shareRow (id userId : String) (input : ShareNoteInput) (now : Time) : NoteShareRow :=
  ⟨⟨id, input.userId, input.permission⟩, userId, now⟩

theorem written_upsert (s : Store) (id userId : String) (input : ShareNoteInput) (now : Time) :
    Written s id input.userId (some (shareRow id userId input now))
      { s with noteShares := upsert s.noteShares (shareRow id userId input now) } :=
  ⟨rfl, rfl, fun _ => find_upsert⟩

theorem written_deleteShare (s : Store) (id target : String) :
    Written s id target none
      { s with noteShares := s.noteShares.deleteMany fun row => row.noteId == id && row.userId == target } :=
  ⟨rfl, rfl, fun _ => find_deleteShare⟩

theorem share_cases (order : RowOrder) (s : Store) (id : String) (input : ShareNoteInput) (userId : String)
    (actor : Option AuthenticatedUser) (now : Time) :
    (∃ e, share order s id input userId actor now = (s, .error e)) ∧
        ¬((∃ note, MayShare order s id userId actor note) ∧ input.userId ≠ userId ∧
          (findTarget s input.userId).isSome = true) ∨
      ∃ note, MayShare order s id userId actor note ∧ input.userId ≠ userId ∧ (findTarget s input.userId).isSome = true ∧
        share order s id input userId actor now =
          ({ s with noteShares := upsert s.noteShares (shareRow id userId input now) },
            findOne order { s with noteShares := upsert s.noteShares (shareRow id userId input now) } id
              userId none) := by
  unfold share
  cases hfind : findForAction order s id userId false .share actor with
  | error e =>
    refine Or.inl ⟨⟨e, rfl⟩, ?_⟩
    rintro ⟨⟨note, hnote⟩, -⟩
    cases hfind.symm.trans (findForAction_eq_ok.mpr hnote)
  | ok note =>
    have hnote := findForAction_eq_ok.mp hfind
    dsimp only
    by_cases hself : input.userId = userId
    · rw [if_pos hself]
      exact Or.inl ⟨⟨_, rfl⟩, fun h => h.2.1 hself⟩
    · rw [if_neg hself]
      cases htarget : findTarget s input.userId with
      | none =>
        refine Or.inl ⟨⟨_, rfl⟩, ?_⟩
        rintro ⟨-, -, hsome⟩
        cases hsome
      | some user =>
        have hid : note.id = id := (Table.find_eq_some.mp hnote.1.1).2
        refine Or.inr ⟨note, hnote, hself, rfl, ?_⟩
        dsimp only
        rw [hid]
        rfl

theorem unshare_cases (order : RowOrder) (s : Store) (id target userId : String) (actor : Option AuthenticatedUser) :
    (∃ e, unshare order s id target userId actor = (s, .error e)) ∧ ¬(∃ note, MayShare order s id userId actor note) ∨
      ∃ note, MayShare order s id userId actor note ∧
        unshare order s id target userId actor =
          ({ s with noteShares := s.noteShares.deleteMany fun row => row.noteId == id && row.userId == target },
            findOne order
              { s with noteShares := s.noteShares.deleteMany fun row => row.noteId == id && row.userId == target }
              id userId none) := by
  unfold unshare
  cases hfind : findForAction order s id userId false .share actor with
  | error e =>
    refine Or.inl ⟨⟨e, rfl⟩, ?_⟩
    rintro ⟨note, hnote⟩
    cases hfind.symm.trans (findForAction_eq_ok.mpr hnote)
  | ok note => exact Or.inr ⟨note, findForAction_eq_ok.mp hfind, rfl⟩

/-- The actor owns the note. -/
def Owns (s : Store) (id userId : String) : Prop :=
  ∃ note, s.base.knowledge.notes.find id = some note ∧ note.ownerId = userId

theorem owns_iff (h : Found s id note) : Owns s id userId ↔ note.ownerId = userId := by
  constructor
  · rintro ⟨other, hother, howner⟩
    cases h.1.symm.trans hother
    exact howner
  · exact fun howner => ⟨note, h.1, howner⟩

theorem share_allOrNothing_iff :
    AllOrNothing order s id userId input.userId (some (shareRow id userId input now))
      (share order s id input userId actor now) ↔
      ((∃ note, MayShare order s id userId actor note) ∧ input.userId ≠ userId ∧
        (findTarget s input.userId).isSome = true →
        Owns s id userId ∨ HasShare s id userId ∨
          s.noteShares.find (id, input.userId) = some (shareRow id userId input now)) := by
  rcases share_cases order s id input userId actor now with ⟨⟨e, he⟩, hrefused⟩ | ⟨note, hnote, hself, htarget, hrun⟩
  · rw [he]
    exact iff_of_true allOrNothing_refused fun h => absurd h hrefused
  · have hwritten := written_upsert s id userId input now
    have hother : (id, userId) ≠ (id, input.userId) := fun h => hself (Prod.mk.inj h).2.symm
    rw [hrun, allOrNothing_written hnote.1 hwritten, HasShare, hwritten.find, if_neg hother, owns_iff hnote.1, or_assoc]
    exact ⟨fun h _ => h, fun h => h ⟨⟨note, hnote⟩, hself, htarget⟩⟩

theorem unshare_allOrNothing_iff :
    AllOrNothing order s id userId target none (unshare order s id target userId actor) ↔
      ((∃ note, MayShare order s id userId actor note) →
        Owns s id userId ∨ HasShare s id userId ∧ target ≠ userId ∨ s.noteShares.find (id, target) = none) := by
  rcases unshare_cases order s id target userId actor with ⟨⟨e, he⟩, hrefused⟩ | ⟨note, hnote, hrun⟩
  · rw [he]
    exact iff_of_true allOrNothing_refused fun h => absurd h hrefused
  · have hwritten := written_deleteShare s id target
    have hshare :
      HasShare
        { s with noteShares := s.noteShares.deleteMany fun row => row.noteId == id && row.userId == target } id userId ↔
        HasShare s id userId ∧ target ≠ userId := by
      rw [HasShare, hwritten.find]
      by_cases htarget : target = userId
      · simp [htarget]
      · rw [if_neg fun h => htarget (Prod.mk.inj h).2.symm]
        exact (and_iff_left htarget).symm
    rw [hrun, allOrNothing_written hnote.1 hwritten, hshare, owns_iff hnote.1, or_assoc]
    exact ⟨fun h _ => h, fun h => h ⟨note, hnote⟩⟩

/-- **Which calls are all or nothing**: those that are refused before the write, those of the owner and of an actor with
whom the note is shared (and still is after the call), and those whose write changes nothing. -/
theorem sharing_allOrNothing_iff (order : RowOrder) (s : Store) (id userId : String) (actor : Option AuthenticatedUser) :
    (∀ (input : ShareNoteInput) (now : Time),
      AllOrNothing order s id userId input.userId (some (shareRow id userId input now))
        (share order s id input userId actor now) ↔
        ((∃ note, MayShare order s id userId actor note) ∧ input.userId ≠ userId ∧
          (findTarget s input.userId).isSome = true →
          Owns s id userId ∨ HasShare s id userId ∨
            s.noteShares.find (id, input.userId) = some (shareRow id userId input now))) ∧
    ∀ target, AllOrNothing order s id userId target none (unshare order s id target userId actor) ↔
      ((∃ note, MayShare order s id userId actor note) →
        Owns s id userId ∨ HasShare s id userId ∧ target ≠ userId ∨ s.noteShares.find (id, target) = none) :=
  ⟨fun _ _ => share_allOrNothing_iff, fun _ => unshare_allOrNothing_iff⟩

namespace Demo

/-- A note of Anna in an open space. -/
def store : Store where
  base :=
    { directory :=
        { roles := .single ⟨"editor", "editor"⟩
          users := ⟨[⟨"anna", "anna@wiki", "anna", "Anna", "", "editor", true, false, true⟩,
            ⟨"ben", "ben@wiki", "ben", "Ben", "", "editor", true, false, true⟩,
            ⟨"cleo", "cleo@wiki", "cleo", "Cleo", "", "editor", true, false, true⟩], by decide⟩
          acls := .single ⟨"editor", "notes", "share", true⟩
          permissions := .empty
          providers := .empty
          roleMappings := .empty
          externalIdentities := .empty
          externalRoleGrants := .empty }
      knowledge :=
        { spaces := .single ⟨"space", "Handbook", .opened, [.wiki, .note]⟩
          categories := .empty
          pages := .empty
          notes := .single ⟨"note", some "Backup", some "space", "anna", none⟩
          noteShares := .empty
          standards := .empty }
      groupMemberships := .empty
      resourceAclEntries := .empty
      resourceAclBoundaries := .empty }
  deletedAt := fun _ => none
  noteShares := .empty

def ben : AuthenticatedUser :=
  ⟨"ben", "ben@wiki", "ben", "Ben", "editor", "editor", true, none, some false, some .jwt, none, none⟩

end Demo

/-- Ben may share the notes of the space. His call to share Anna's note with Cleo fails, and the note is shared. -/
theorem shared_and_refused :
    (share .stored Demo.store "note" ⟨"cleo", .view⟩ "ben" (some Demo.ben) 7).2 = .error (.notFound notFoundMessage) ∧
      ¬AllOrNothing .stored Demo.store "note" "ben" "cleo" (some (shareRow "note" "ben" ⟨"cleo", .view⟩ 7))
        (share .stored Demo.store "note" ⟨"cleo", .view⟩ "ben" (some Demo.ben) 7) := by
  have hrun : (share .stored Demo.store "note" ⟨"cleo", .view⟩ "ben" (some Demo.ben) 7).2 =
      .error (.notFound notFoundMessage) := by
    decide +kernel
  refine ⟨hrun, fun h => ?_⟩
  have hsame := h.nothing _ hrun "cleo"
  have hshared :
    (share .stored Demo.store "note" ⟨"cleo", .view⟩ "ben" (some Demo.ben) 7).1.noteShares.find ("note", "cleo") ≠
      Demo.store.noteShares.find ("note", "cleo") := by decide +kernel
  exact hshared hsame

end AdWiki.Access.NoteSharing
