import Phrasebook.Catalogue.Load
import Phrasebook.Catalogue.Storage
import Phrasebook.Config.Settings
import Phrasebook.Extraction
import Phrasebook.Scan.Run

namespace Phrasebook

structure Workspace where
  directory : String
  tree : Entry

inductive Failure
  | settings (path : String) (cause : SettingError)
  | directory (path catalogue : String) (cause : FileFault)
  | opening (path : String) (cause : CatalogueError)
  | scanning (cause : DatabaseError)
  | loading (locale group : String) (cause : DatabaseError)

def Failure.context : Failure → String
  | .settings path _ => s!"failed to load {path}"
  | .directory path .. => s!"failed to create {path}"
  | .opening path _ => s!"failed to open catalog {path}"
  | .scanning _ => "scan failed"
  | .loading locale group _ => s!"failed to load {locale}/{group}"

def Content.toBytes : Content → List UInt8
  | .bytes raw => raw
  | .catalogue db => Storage.encode db

namespace Workspace

/-- A path seen from the directory of the workspace, if it leads into it. -/
def relative? (workspace : Workspace) (path : String) : Option String :=
  let lead := (Path.join workspace.directory "").toList
  if path = workspace.directory then some ""
  else if begins lead path.toList then some (String.ofList (path.toList.drop lead.length))
  else if Path.isAbsolute path then none
  else some path

def steps (workspace : Workspace) (path : String) : Except FileFault (List String) :=
  match workspace.relative? path with
  | some relative => .ok (Path.steps relative)
  | none => .error .notFound

def readBytes (workspace : Workspace) (path : String) : Except FileFault (List UInt8) := do
  return (← workspace.tree.read (← workspace.steps path)).toBytes

def settingsFile (workspace : Workspace) (path : String) : FileText :=
  match workspace.steps path with
  | .error _ => .absent
  | .ok steps =>
    if workspace.tree.exists? steps then
      match workspace.readBytes path with
      | .ok bytes => .bytes bytes
      | .error fault => .unreadable fault.message
    else .absent

def settings (workspace : Workspace) (project : String) (environment : Environment) :
    Except SettingError Settings :=
  let path := Path.join project Settings.path
  Settings.load path (workspace.settingsFile path) environment

def extractFile (workspace : Workspace) (compiler : TemplateCompiler) (table : FunctionTable)
    (path : String) : Except ExtractionError (List Occurrence) :=
  match FileKind.ofPath? path with
  | none => .ok []
  | some kind =>
    match workspace.readBytes path with
    | .error fault => .error (.unreadable path fault.message)
    | .ok bytes => extract compiler table kind (String.ofList (Utf8.decodeLossy bytes))

def extractOrSkip (workspace : Workspace) (compiler : TemplateCompiler) (table : FunctionTable)
    (path : String) : List Occurrence :=
  match workspace.extractFile compiler table path with
  | .ok occurrences => occurrences
  | .error _ => []

def catalogueFile (tree : Entry) (steps : List String) (path : String) :
    Except DatabaseError Database :=
  match tree.read steps with
  | .ok (.catalogue db) => .ok db
  | .ok (.bytes bytes) => if bytes.isEmpty then .ok .empty else .error .notDatabase
  | .error .notFound => .ok .empty
  | .error _ => .error (.cannotOpen path)

/-- Opens the catalogue in the file at a path whose directory is there. The file is left with what opening it
has made of it. -/
def openFile (workspace : Workspace) (names : TableNames) (path : String) :
    Workspace × Except CatalogueError Catalogue :=
  let steps := ((workspace.relative? path).map Path.components).getD [".."]
  match names.validate, catalogueFile workspace.tree steps path with
  | .error cause, _ => (workspace, .error (.setting cause))
  | .ok (), .error cause => (workspace, .error (.database cause))
  | .ok (), .ok db =>
    let (db, result) := Catalogue.openWith names db
    match workspace.tree.write steps (.catalogue db) with
    | .ok tree => ({ workspace with tree }, result)
    | .error _ => (workspace, .error (.database (.cannotOpen path)))

def openCatalogue (workspace : Workspace) (project : String) (settings : Settings) :
    Workspace × Except Failure Catalogue :=
  let path := settings.databasePath project
  let parent := Path.parent path
  match (workspace.steps parent).bind workspace.tree.makeDirectories with
  | .error fault => (workspace, .error (.directory parent path fault))
  | .ok tree =>
    match openFile { workspace with tree } settings.tables path with
    | (workspace, .ok catalogue) => (workspace, .ok catalogue)
    | (workspace, .error cause) => (workspace, .error (.opening path cause))

def saveCatalogue (workspace : Workspace) (project : String) (settings : Settings)
    (catalogue : Catalogue) : Workspace :=
  let steps := ((workspace.relative? (settings.databasePath project)).map Path.components).getD []
  match workspace.tree.write steps (.catalogue catalogue.database) with
  | .ok tree => { workspace with tree }
  | .error _ => workspace

def withCatalogue {α : Type} (workspace : Workspace) (project : String) (environment : Environment)
    (action : Settings → Workspace → Catalogue → Catalogue × α) : Workspace × Except Failure α :=
  match workspace.settings project environment with
  | .error cause => (workspace, .error (.settings (Path.join project Settings.path) cause))
  | .ok settings =>
    match workspace.openCatalogue project settings with
    | (workspace, .error failure) => (workspace, .error failure)
    | (workspace, .ok catalogue) =>
      let (catalogue, result) := action settings workspace catalogue
      (workspace.saveCatalogue project settings catalogue, .ok result)

structure ScanRequest where
  roots : List String
  delete? : Option Bool
  mark? : Option Bool
  now : Instant

def listRoots (workspace : Workspace) (roots : List String) : List FilePath :=
  workspace.tree.listRoots (roots.filterMap workspace.relative?)

/-- Scans with an open catalogue; `order` gives the order in which the files are finished. -/
def scanWith (workspace : Workspace) (project : String) (request : ScanRequest)
    (order : List FilePath → List FilePath) (settings : Settings) (catalogue : Catalogue) :
    ScanState Catalogue × Except DatabaseError Summary :=
  let files := workspace.listRoots (settings.roots project request.roots)
  let table := (settings.functionTable.toOption).getD .standard
  let extract (path : FilePath) :=
    workspace.extractOrSkip Template.compile table ("/".intercalate path)
  let job : ScanJob :=
    { table, locale := settings.sourceLocale, files, schedule := order files
      policy := settings.policy request.delete? request.mark?, now := request.now }
  Scan.run Catalogue.store extract job ⟨catalogue, .empty, []⟩

def scan (workspace : Workspace) (project : String) (environment : Environment) (request : ScanRequest)
    (order : List FilePath → List FilePath) :
    Workspace × Except Failure (ScanState Catalogue × Summary) :=
  let action (settings : Settings) (workspace : Workspace) (catalogue : Catalogue) :
      Catalogue × Except DatabaseError (ScanState Catalogue × Summary) :=
    let (state, result) := scanWith workspace project request order settings catalogue
    (state.store, result.map fun summary => (state, summary))
  match workspace.withCatalogue project environment action with
  | (workspace, .error failure) => (workspace, .error failure)
  | (workspace, .ok (.error cause)) => (workspace, .error (.scanning cause))
  | (workspace, .ok (.ok result)) => (workspace, .ok result)

end Workspace

end Phrasebook
