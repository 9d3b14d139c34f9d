import AdWiki.Lib.Containers
import AdWiki.Wiki.PagePatches

/-!
# The tree in the sidebar

The state that the sidebar builds from the categories it has loaded, what dragging an item and dropping it makes of it,
and the requests that write the difference to the server. Where the pointer is (`isBelow`) and `arrayMove`, which a
library has, come from outside. The key of a container is a constructor with the id that the key ends in.
-/

namespace AdWiki.Web

open Wiki Containers

inductive Container
  | catFolders (catId : String)
  | catPages (catId : String)
  | folderBox (folderId : String)
  deriving DecidableEq, Repr

inductive ItemType
  | folder
  | page
  deriving DecidableEq, Repr

def uncategorizedId : String := "__uncategorized__"

structure SidebarPage where
  id : String
  sortOrder : Int
  parentId : Option String
  categoryId : Option String
  deriving DecidableEq, Repr

structure SidebarFolder where
  id : String
  sortOrder : Int
  categoryId : Option String
  pages : List SidebarPage
  deriving DecidableEq, Repr

structure SidebarCategory where
  id : String
  folders : List SidebarFolder
  pages : List SidebarPage
  deriving DecidableEq, Repr

abbrev Items := OrderedMap Container (List String)

/-- What the sidebar holds; `server` is what it believes the server to have. -/
structure BuiltState where
  items : Items
  itemMeta : OrderedMap String ItemType
  server : OrderedMap String ServerFields

/-! ## The state -/

def SidebarPage.fields (page : SidebarPage) : ServerFields := ⟨page.sortOrder, page.parentId, page.categoryId⟩

def SidebarFolder.fields (folder : SidebarFolder) : ServerFields := ⟨folder.sortOrder, none, folder.categoryId⟩

def SidebarFolder.entries (folder : SidebarFolder) : List (Container × List String) :=
  [(.folderBox folder.id, folder.pages.map SidebarPage.id)]

def SidebarCategory.entries (cat : SidebarCategory) : List (Container × List String) :=
  [(.catFolders cat.id, cat.folders.map SidebarFolder.id), (.catPages cat.id, cat.pages.map SidebarPage.id)] ++
    cat.folders.flatMap SidebarFolder.entries

/-- The items in the order in which the loops come to them: a folder, what is in it, and last the pages of the category.
-/
def SidebarCategory.shown (cat : SidebarCategory) : List (String × ItemType × ServerFields) :=
  (cat.folders.flatMap fun folder =>
    (folder.id, .folder, folder.fields) :: folder.pages.map fun page => (page.id, .page, page.fields)) ++
  cat.pages.map fun page => (page.id, .page, page.fields)

def buildState (cats : List SidebarCategory) : BuiltState where
  items := OrderedMap.empty.setAll (cats.flatMap SidebarCategory.entries)
  itemMeta := OrderedMap.empty.setAll ((cats.flatMap SidebarCategory.shown).map fun e => (e.1, e.2.1))
  server := OrderedMap.empty.setAll ((cats.flatMap SidebarCategory.shown).map fun e => (e.1, e.2.2))

/-! ## Dragging -/

/-- What the pointer is over: the area of a container, or an item. -/
inductive Over
  | container (c : Container)
  | item (id : String)
  deriving DecidableEq, Repr

def findContainer (items : Items) : Over → Option Container
  | .container c => if (items.get? c).isSome then some c else none
  | .item id => containerOf items id

def isValidTarget : Option ItemType → Container → Bool
  | some .folder, .catFolders _ => true
  | some .page, .catPages _ => true
  | some .page, .folderBox _ => true
  | _, _ => false

/-- Where the item goes in the list that it is dragged over. -/
def dropIndex (overItems : List String) (isBelow : Bool) : Over → Nat
  | .container _ => overItems.length
  | .item id =>
    match overItems.idxOf? id with
    | some overIndex => overIndex + if isBelow then 1 else 0
    | none => overItems.length

def handleDragOver (state : BuiltState) (activeItem : String) (target : Option Over) (isBelow : Bool) : BuiltState :=
  match target with
  | none => state
  | some target =>
    match findContainer state.items (.item activeItem), findContainer state.items target with
    | some activeContainer, some overContainer =>
      if isValidTarget (state.itemMeta.get? activeItem) overContainer ∧ activeContainer ≠ overContainer then
        let newIndex := dropIndex ((state.items.get? overContainer).getD []) isBelow target
        { state with items := move state.items activeItem activeContainer overContainer newIndex }
      else state
    | _, _ => state

/-- The events between the start and the end of a drag. -/
def drag (state : BuiltState) (activeItem : String) (overs : List (Option Over × Bool)) : BuiltState :=
  overs.foldl (fun state target => handleDragOver state activeItem target.1 target.2) state

/-- `list.indexOf(id)`. -/
def indexOf (list : List String) (id : String) : Int := (list.idxOf? id).elim (-1) Int.ofNat

/-- Where the item goes in its own list when it is dropped. -/
def endIndex (list : List String) : Over → Int
  | .container _ => list.length - 1
  | .item overId => indexOf list overId

/-- The items that are shown and persisted in the end; `none` where the drop is not accepted. -/
def handleDragEnd (arrayMove : List String → Int → Int → List String) (state : BuiltState) (activeItem : String)
    (target : Option Over) : Option Items :=
  match target with
  | none => none
  | some target =>
    match findContainer state.items target, findContainer state.items (.item activeItem) with
    | some overContainer, some activeContainer =>
      if ¬isValidTarget (state.itemMeta.get? activeItem) overContainer then none
      else if activeContainer = overContainer then
        let list := (state.items.get? overContainer).getD []
        let oldIndex := indexOf list activeItem
        let newIndex := endIndex list target
        if oldIndex ≠ newIndex ∧ 0 ≤ newIndex then some (state.items.set overContainer (arrayMove list oldIndex newIndex))
        else some state.items
      else some state.items
    | _, _ => none

/-! ## The requests -/

/-- The group of the pages without a category stands for none. -/
def realCategory (id : String) : Option String := if id = uncategorizedId then none else some id

def categoryOfFolder (items : Items) (folderId : String) : Option String :=
  match findContainer items (.item folderId) with
  | some (.catFolders id) => realCategory id
  | _ => none

/-- The parent and the category of what is in the container. -/
def containerAttrs (items : Items) : Container → Option String × Option String
  | .folderBox id => (some id, categoryOfFolder items id)
  | .catFolders id => (none, realCategory id)
  | .catPages id => (none, realCategory id)

/-- What the server should have for the item at a place of the container. -/
def desired (items : Items) (containerId : Container) (index : Nat) : ServerFields :=
  ⟨index, (containerAttrs items containerId).1, (containerAttrs items containerId).2⟩

/-- The requests of `persist`: one for each item whose fields on the server are others. -/
def persist (server : OrderedMap String ServerFields) (finalItems : Items) : List Patch :=
  finalItems.entries.flatMap fun (containerId, list) =>
    list.zipIdx.filterMap fun (itemId, index) =>
      if server.get? itemId = some (desired finalItems containerId index) then none
      else some ⟨itemId, desired finalItems containerId index⟩

/-- The sidebar after all requests have succeeded. -/
def BuiltState.saved (state : BuiltState) (finalItems : Items) : BuiltState :=
  { state with
    items := finalItems
    server := state.server.setAll ((persist state.server finalItems).map fun p => (p.id, p.data)) }

end AdWiki.Web
