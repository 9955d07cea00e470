import Phrasebook.Proofs.Catalogue.Planning
import Phrasebook.Proofs.Files.Contents
import Phrasebook.Proofs.Scan.Idempotence
import Phrasebook.Proofs.Scan.Workers

namespace Phrasebook

theorem Found.mem_ofOccurrences {table : FunctionTable} {occurrences : List Occurrence} {value : String}
    {kind : SourceKind} :
    ⟨value, kind⟩ ∈ ofOccurrences table occurrences ↔
      ∃ occurrence ∈ occurrences, occurrence.value = value ∧ table.kind? occurrence.function = some kind := by
  simp only [ofOccurrences, mem_firsts, List.mem_filterMap, ofOccurrence?, Option.map_eq_some_iff,
    List.not_mem_nil, not_false_eq_true, and_true]
  constructor
  · rintro ⟨occurrence, member, kind', known, same⟩
    cases same
    exact ⟨occurrence, member, rfl, known⟩
  · rintro ⟨occurrence, member, rfl, known⟩
    exact ⟨occurrence, member, kind, known, rfl⟩

theorem occurrences_parse_nil (table : FunctionTable) : occurrences table (Php.parse []) = [] := by
  have calls : ((Php.parse []).preorder.all fun node => (Php.callParts? node).isNone) = true := by decide +kernel
  refine List.filterMap_eq_nil_iff.2 fun node member => ?_
  have none := List.all_eq_true.1 calls node member
  rw [occurrence?, Option.isNone_iff_eq_none.1 none]
  rfl

theorem extract_empty (table : FunctionTable) (kind : FileKind) :
    extract Template.compile table kind "" = .ok [] := by
  have code : (kind.toCode Template.compile "").toList = [] := by cases kind <;> decide +kernel
  have faultless : (Php.parse []).firstFault?.isSome = false := by decide +kernel
  rw [extract, code]
  simp [faultless, occurrences_parse_nil]

example : extract Template.compile .standard .code "<?php echo trans('a.b'" = .error .malformed := by
  decide +kernel

namespace Workspace

variable {workspace : Workspace} {roots : List String} {table : FunctionTable}

def extractAt (workspace : Workspace) (table : FunctionTable) (path : FilePath) :
    Except ExtractionError (List Occurrence) :=
  workspace.extractFile Template.compile table ("/".intercalate path)

def extractor (workspace : Workspace) (table : FunctionTable) (path : FilePath) : List Occurrence :=
  workspace.extractOrSkip Template.compile table ("/".intercalate path)

def job (workspace : Workspace) (roots : List String) (table : FunctionTable) (policy : MissingPolicy)
    (locale : String) (order : List FilePath → List FilePath) (now : Instant) : ScanJob :=
  let files := workspace.listRoots roots
  { table, locale, files, schedule := order files, policy, now }

theorem mem_extractor {path : FilePath} {occurrence : Occurrence} :
    occurrence ∈ workspace.extractor table path ↔
      ∃ occurrences, workspace.extractAt table path = .ok occurrences ∧ occurrence ∈ occurrences := by
  rw [extractor, extractOrSkip, ← extractAt]
  rcases workspace.extractAt table path with fault | occurrences <;> simp

def placeOf (workspace : Workspace) (path : FilePath) : Except FileFault (List String) :=
  (workspace.steps ("/".intercalate path)).bind workspace.tree.locate

/-- Whether a file is listed and has a syntax error, by whatever path it is listed. -/
def broken (workspace : Workspace) (roots : List String) (table : FunctionTable) (place : List String) : Bool :=
  let paths := (workspace.listRoots roots).filter fun path => workspace.placeOf path = .ok place
  !paths.isEmpty && paths.all fun path => workspace.extractAt table path = .error .malformed

theorem broken_iff {place : List String} :
    workspace.broken roots table place = true ↔
      (∃ path ∈ workspace.listRoots roots, workspace.placeOf path = .ok place) ∧
        ∀ path ∈ workspace.listRoots roots, workspace.placeOf path = .ok place →
          workspace.extractAt table path = .error .malformed := by
  simp [broken, List.eq_nil_iff_forall_not_mem, imp_iff_not_or]

def mapFiles (f : List String → Content → Content) (workspace : Workspace) : Workspace :=
  { workspace with tree := workspace.tree.mapFiles f [] }

/-- The workspace with every file emptied that is broken. -/
def emptied (workspace : Workspace) (roots : List String) (table : FunctionTable) : Workspace :=
  workspace.mapFiles fun place content => if workspace.broken roots table place then .bytes [] else content

theorem listRoots_mapFiles (f : List String → Content → Content) (workspace : Workspace)
    (roots : List String) : (workspace.mapFiles f).listRoots roots = workspace.listRoots roots :=
  Entry.listRoots_mapFiles ..

def contentAt (workspace : Workspace) (path : FilePath) : Except FileFault Content :=
  (workspace.steps ("/".intercalate path)).bind workspace.tree.read

theorem readBytes_eq (workspace : Workspace) (path : FilePath) :
    workspace.readBytes ("/".intercalate path) = (workspace.contentAt path).map (·.toBytes) := by
  simp only [readBytes, contentAt, bind]
  rcases workspace.steps ("/".intercalate path) with fault | steps
  · rfl
  · simp only [Except.bind]
    cases workspace.tree.read steps <;> rfl

theorem contentAt_mapFiles (f : List String → Content → Content) (workspace : Workspace) (path : FilePath) :
    (workspace.mapFiles f).contentAt path =
      (workspace.placeOf path).bind fun place => (workspace.contentAt path).map (f place) := by
  have same : (workspace.mapFiles f).steps ("/".intercalate path) =
      workspace.steps ("/".intercalate path) := rfl
  rw [contentAt, same, contentAt, placeOf]
  rcases workspace.steps ("/".intercalate path) with fault | steps
  · rfl
  · exact Entry.read_mapFiles workspace.tree steps

theorem contentAt_of_lost {path : FilePath} {fault : FileFault} (lost : workspace.placeOf path = .error fault) :
    workspace.contentAt path = .error fault := by
  rcases stepped : workspace.steps ("/".intercalate path) with fault' | steps
  · rw [placeOf, stepped] at lost
    cases lost
    rw [contentAt, stepped]
    rfl
  · rw [placeOf, stepped] at lost
    have nowhere : workspace.tree.locate steps = .error fault := lost
    rw [contentAt, stepped]
    simp only [Except.bind, Entry.read, Entry.find, nowhere, bind]

theorem extractAt_congr {other : Workspace} {path : FilePath}
    (same : other.contentAt path = workspace.contentAt path) :
    other.extractAt table path = workspace.extractAt table path := by
  rw [extractAt, extractAt, extractFile, extractFile, readBytes_eq, readBytes_eq, same]

theorem extractAt_of_empty {path : FilePath} (empty : workspace.contentAt path = .ok (.bytes [])) :
    workspace.extractAt table path = .ok [] := by
  rw [extractAt, extractFile, readBytes_eq, empty]
  cases FileKind.ofPath? ("/".intercalate path) with
  | none => rfl
  | some kind =>
      have text : String.ofList (Utf8.decodeLossy (Content.bytes []).toBytes) = "" := by
        rw [Content.toBytes, Utf8.decodeLossy]
      simp only [Except.map, text]
      exact extract_empty table kind

theorem contentAt_of_malformed {path : FilePath}
    (malformed : workspace.extractAt table path = .error .malformed) :
    ∃ content, workspace.contentAt path = .ok content := by
  rcases held : workspace.contentAt path with fault | content
  · rw [extractAt, extractFile, readBytes_eq, held] at malformed
    split at malformed <;> cases malformed
  · exact ⟨content, rfl⟩

theorem extractAt_emptied (table : FunctionTable) {path : FilePath} (listed : path ∈ workspace.listRoots roots) :
    (workspace.emptied roots table).extractAt table path = workspace.extractAt table path ∨
      workspace.extractAt table path = .error .malformed ∧
        (workspace.emptied roots table).extractAt table path = .ok [] := by
  -- A path that leads nowhere reads the same fault; one that leads to a file reads what this file has become.
  have after := contentAt_mapFiles
    (fun place content => if workspace.broken roots table place then .bytes [] else content) workspace path
  rcases placed : workspace.placeOf path with fault | place
  · left
    refine extractAt_congr (after.trans ?_)
    rw [placed, contentAt_of_lost placed]
    rfl
  · by_cases broken : workspace.broken roots table place = true
    · right
      have malformed := (broken_iff.1 broken).2 path listed placed
      obtain ⟨content, held⟩ := contentAt_of_malformed malformed
      refine ⟨malformed, extractAt_of_empty (after.trans ?_)⟩
      simp [placed, held, Except.bind, Except.map, broken]
    · left
      refine extractAt_congr (after.trans ?_)
      simp only [placed, Except.bind, if_neg broken]
      exact congrFun Except.map_id _

theorem extractor_emptied {path : FilePath} (listed : path ∈ workspace.listRoots roots) :
    (workspace.emptied roots table).extractor table path = workspace.extractor table path := by
  rw [extractor, extractor, extractOrSkip, extractOrSkip, ← extractAt, ← extractAt]
  rcases extractAt_emptied table listed with same | ⟨malformed, empty⟩
  · rw [same]
  · rw [malformed, empty]

theorem job_emptied (workspace : Workspace) (roots : List String) (table : FunctionTable)
    (policy : MissingPolicy) (locale : String) (order : List FilePath → List FilePath) (now : Instant) :
    (workspace.emptied roots table).job roots table policy locale order now =
      workspace.job roots table policy locale order now := by
  rw [job, job, emptied, listRoots_mapFiles]

theorem mem_foundIn {policy : MissingPolicy} {locale : String} {order : List FilePath → List FilePath}
    {now : Instant} {value : String} {kind : SourceKind} :
    ⟨value, kind⟩ ∈ Scan.foundIn (workspace.extractor table)
        (workspace.job roots table policy locale order now) ↔
      ∃ path ∈ workspace.listRoots roots, ∃ occurrences, workspace.extractAt table path = .ok occurrences ∧
        ∃ occurrence ∈ occurrences, occurrence.value = value ∧ table.kind? occurrence.function = some kind := by
  simp only [Scan.foundIn, Found.mem_ofOccurrences, List.mem_flatMap, mem_extractor, job]
  constructor
  · rintro ⟨occurrence, ⟨path, listed, occurrences, extracted, member⟩, value, kind⟩
    exact ⟨path, listed, occurrences, extracted, occurrence, member, value, kind⟩
  · rintro ⟨path, listed, occurrences, extracted, occurrence, member, value, kind⟩
    exact ⟨occurrence, ⟨path, listed, occurrences, extracted, member⟩, value, kind⟩

section Emptied

variable {σ ε : Type} (workspace : Workspace) (roots : List String) (table : FunctionTable)
  (policy : MissingPolicy) (locale : String) (order : List FilePath → List FilePath) (now : Instant)

theorem foundIn_emptied :
    Scan.foundIn ((workspace.emptied roots table).extractor table)
        ((workspace.emptied roots table).job roots table policy locale order now) =
      Scan.foundIn (workspace.extractor table) (workspace.job roots table policy locale order now) := by
  rw [job_emptied]
  exact congrArg (Found.ofOccurrences table) (List.flatMap_congr fun _ listed => extractor_emptied listed)

theorem phases_emptied (store : Store σ ε) (state : ScanState σ) :
    Scan.phases store ((workspace.emptied roots table).extractor table)
        ((workspace.emptied roots table).job roots table policy locale order now) state =
      Scan.phases store (workspace.extractor table) (workspace.job roots table policy locale order now) state := by
  rw [Scan.phases, foundIn_emptied, job_emptied, Scan.phases]

theorem run_emptied (store : Store σ ε) (state : ScanState σ) :
    Scan.run store ((workspace.emptied roots table).extractor table)
        ((workspace.emptied roots table).job roots table policy locale order now) state =
      Scan.run store (workspace.extractor table) (workspace.job roots table policy locale order now) state := by
  rw [Scan.run, phases_emptied, Scan.run]

/-- What is found is what the files that are listed give, each by itself; and with the broken files emptied a scan
with any store and any policy finds the same in the same order, keeps the same snapshots and plans, and has the same
events, store and result. -/
theorem files_independent (store : Store σ ε) (state : ScanState σ) :
    let job := workspace.job roots table policy locale order now
    let emptied := workspace.emptied roots table
    let job' := emptied.job roots table policy locale order now
    (∀ value kind, ⟨value, kind⟩ ∈ Scan.foundIn (workspace.extractor table) job ↔
      ∃ path ∈ workspace.listRoots roots, ∃ occurrences, workspace.extractAt table path = .ok occurrences ∧
        ∃ occurrence ∈ occurrences, occurrence.value = value ∧ table.kind? occurrence.function = some kind) ∧
    Scan.foundIn (emptied.extractor table) job' = Scan.foundIn (workspace.extractor table) job ∧
    Scan.phases store (emptied.extractor table) job' state =
      Scan.phases store (workspace.extractor table) job state ∧
    Scan.run store (emptied.extractor table) job' state = Scan.run store (workspace.extractor table) job state :=
  ⟨fun _ _ => mem_foundIn, foundIn_emptied workspace roots table policy locale order now,
    phases_emptied workspace roots table policy locale order now store state,
    run_emptied workspace roots table policy locale order now store state⟩

end Emptied

end Workspace

end Phrasebook
