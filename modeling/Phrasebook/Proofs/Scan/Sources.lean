import Phrasebook.Proofs.Catalogue.Partition
import Phrasebook.Proofs.Php.Sites
import Phrasebook.Proofs.Scan.Independence
import Phrasebook.Proofs.Scan.Protocol

namespace Phrasebook

open scoped List

def extractAll (compiler : TemplateCompiler) (table : FunctionTable) (sources : List (FileKind × String)) :
    List Occurrence :=
  sources.flatMap fun (kind, source) => (extract compiler table kind source).toOption.getD []

/-- A source without a syntax error has a call of a function of the table, and its argument at the index of the function
is a literal for a value. -/
def Writes (compiler : TemplateCompiler) (table : FunctionTable) (source : FileKind × String) (name value : String) :
    Prop :=
  let root := Php.parse (source.1.toCode compiler source.2).toList
  root.firstFault? = none ∧ ∃ address call literal, root.at? address = some call ∧
    Php.Requests table call name literal ∧ Php.literal? literal = some value.toList

section Extract

variable {compiler : TemplateCompiler} {table : FunctionTable} {sources : List (FileKind × String)}

theorem mem_extract {source : FileKind × String} {occurrence : Occurrence} :
    occurrence ∈ (extract compiler table source.1 source.2).toOption.getD [] ↔
      Writes compiler table source occurrence.function occurrence.value := by
  -- Without a function no source is parsed, and no call requests anything.
  cases functions : table.isEmpty with
  | true =>
      refine iff_of_false (by simp [extract, functions, Except.toOption]) fun ⟨_, _, _, _, _, requests, _⟩ => ?_
      obtain ⟨function, mem, _⟩ := requests.known
      rw [List.isEmpty_iff.1 functions] at mem
      cases mem
  | false =>
      cases fault : (Php.parse (source.1.toCode compiler source.2).toList).firstFault? with
      | none =>
          rw [Php.extract_of_faultless functions fault]
          exact Php.mem_occurrences.trans (and_iff_right fault).symm
      | some =>
          refine iff_of_false ?_ fun writes => by rw [writes.1] at fault; cases fault
          simp [extract, functions, fault, Except.toOption]

theorem mem_extractAll {occurrence : Occurrence} : occurrence ∈ extractAll compiler table sources ↔
    ∃ source ∈ sources, Writes compiler table source occurrence.function occurrence.value := by
  rw [extractAll, List.mem_flatMap]
  exact exists_congr fun source => and_congr_right fun _ => mem_extract

end Extract

namespace Found

/-- What the sources found are to the occurrences. -/
structure Collects (table : FunctionTable) (occurrences : List Occurrence) (found : List Found) : Prop where
  known : ∀ occurrence ∈ occurrences, ∃ function ∈ table.functions, function.name = occurrence.function ∧
    ofOccurrence? table occurrence = some ⟨occurrence.value, function.kind⟩
  distinct : found.Nodup
  mem : ∀ value kind, ⟨value, kind⟩ ∈ found ↔
    ∃ occurrence ∈ occurrences, occurrence.value = value ∧ table.kind? occurrence.function = some kind
  inOrder : InOrder (occurrences.filterMap (ofOccurrence? table)) found
  stable : ∀ more, (∀ source ∈ more.filterMap (ofOccurrence? table), source ∈ found) →
    ofOccurrences table (occurrences ++ more) = found

section Collect

variable {table : FunctionTable} {occurrences : List Occurrence}

theorem ofOccurrences_append_of_known {more : List Occurrence}
    (known : ∀ source ∈ more.filterMap (ofOccurrence? table), source ∈ ofOccurrences table occurrences) :
    ofOccurrences table (occurrences ++ more) = ofOccurrences table occurrences := by
  have nothing : firsts (occurrences.filterMap (ofOccurrence? table) ++ [])
      (more.filterMap (ofOccurrence? table)) = [] := by
    rw [List.append_nil, firsts_eq_filter, List.filter_eq_nil_iff]
    intro source mem
    have earlier := (mem_firsts.1 (known source (mem_firsts.1 mem).1)).1
    simpa using earlier
  rw [ofOccurrences, List.filterMap_append, firsts_append, nothing, List.append_nil, ofOccurrences]

theorem collects_of_known (known : ∀ occurrence ∈ occurrences, ∃ function ∈ table.functions,
    function.name = occurrence.function) : Collects table occurrences (ofOccurrences table occurrences) where
  known := by
    intro occurrence mem
    obtain ⟨function, function_mem, same⟩ := known occurrence mem
    have function? : table.get? occurrence.function = some function := same ▸ FunctionTable.get?_name function_mem
    exact ⟨function, function_mem, same, by simp [ofOccurrence?, FunctionTable.kind?, function?]⟩
  distinct := firsts_nodup [] _
  mem _ _ := mem_ofOccurrences
  inOrder := firsts_inOrder [] _
  stable _ := ofOccurrences_append_of_known

end Collect

structure Divides (found : List Found) (given : SourceKind → List String) : Prop where
  inOrder : ∀ kind, ((given kind).map (⟨·, kind⟩)).Sublist found
  whole : (SourceKind.all.flatMap fun kind => (given kind).map (⟨·, kind⟩)) ~ found
  counted : (given .grouped).length + (given .text).length = found.length

theorem map_values (kind : SourceKind) (found : List Found) :
    (values kind found).map (⟨·, kind⟩) = found.filter (·.kind == kind) := by
  have back : ∀ source ∈ found.filter (·.kind == kind), (⟨source.value, kind⟩ : Found) = source := by
    intro source mem
    rw [← beq_iff_eq.1 (List.mem_filter.1 mem).2]
  rw [values, List.map_map]
  exact (List.map_congr_left back).trans (List.map_id _)

theorem divides_values (found : List Found) : Divides found fun kind => values kind found where
  inOrder kind := by
    rw [map_values]
    exact List.filter_sublist
  whole := by
    have text : ∀ source : Found, (source.kind == .text) = !(source.kind == .grouped) := by
      rintro ⟨value, _ | _⟩ <;> rfl
    simp only [SourceKind.all, List.flatMap_cons, List.flatMap_nil, List.append_nil, map_values, text]
    exact List.filter_append_perm _ found
  counted := length_values found

end Found

namespace Scan

variable {σ ε : Type} {store : Store σ ε} {job : ScanJob} {found : List Found} {kept left : σ}

structure Uses (given : SourceKind → List String) (emitted : List ScanEvent) (working : Working)
    (result : Except ε Summary) : Prop where
  announced : ∀ count, .sourcesFound count ∈ emitted → count = (given .grouped).length + (given .text).length
  planned : ∀ kind plan, (kind, plan) ∈ working.plans →
    ∃ snapshot, (kind, snapshot) ∈ working.snapshots ∧ plan = Plan.make snapshot (given kind)
  summed : ∀ summary, result = .ok summary → working.plans.map Prod.fst = SourceKind.all ∧
    summary.sourcesFound = (given .grouped).length + (given .text).length

theorem Course.uses {events : List ScanEvent} {working : Working} {result : Except ε Summary}
    (course : Course store job found kept events left working result) (scanned : List FilePath) :
    Uses (Found.values · found) (opening job scanned found ++ events) working result where
  announced := by
    intro count mem
    have opened : .sourcesFound count ∈ opening job scanned found := by
      refine (List.mem_append.1 mem).resolve_right fun later => ?_
      cases course <;> simp [processing] at later
    rw [Found.length_values]
    simpa [opening] using opened
  planned := by
    intro kind plan mem
    cases course with
    | groupedUnread | textUnread | groupedFails => cases mem
    | textFails =>
        obtain ⟨rfl, rfl⟩ := Prod.mk.inj (List.mem_singleton.1 mem)
        exact ⟨_, List.mem_cons_self .., rfl⟩
    | succeeds =>
        rcases List.mem_pair.1 mem with same | same
        all_goals obtain ⟨rfl, rfl⟩ := Prod.mk.inj same
        · exact ⟨_, List.mem_cons_self .., rfl⟩
        · exact ⟨_, List.mem_cons_of_mem _ (List.mem_cons_self ..), rfl⟩
  summed := by
    rintro summary rfl
    cases course with
    | succeeds => exact ⟨rfl, (Found.length_values found).symm⟩

theorem uses_phases (store : Store σ ε) (extractor : FilePath → List Occurrence) (job : ScanJob)
    (before : ScanState σ) : ∃ emitted,
      (phases store extractor job before.reset).1.events = before.events ++ emitted ∧
        Uses (Found.values · (foundIn extractor job)) emitted (phases store extractor job before.reset).1.working
          (phases store extractor job before.reset).2 := by
  obtain ⟨events, left, working, result, course⟩ := exists_course store job (foundIn extractor job) before.store
  have ran : phases store extractor job before.reset =
      (⟨left, working, before.events ++ opening job job.schedule (foundIn extractor job) ++ events⟩, result) := by
    exact course.proceed _
  rw [ran]
  exact ⟨_, List.append_assoc .., course.uses job.schedule⟩

end Scan

namespace Workspace

end Workspace

/-- Each pair of a value and a kind that some sources write is found once, in the order of the occurrences, none of which
is lost; and a scan that finds these divides them between the kinds. -/
theorem Found.collects_extractAll (compiler : TemplateCompiler) (table : FunctionTable)
    (sources : List (FileKind × String)) :
    let occurrences := extractAll compiler table sources
    let found := Found.ofOccurrences table occurrences
    Found.Collects table occurrences found ∧
    (∀ value kind, ⟨value, kind⟩ ∈ found ↔
      ∃ source ∈ sources, ∃ name, table.kind? name = some kind ∧ Writes compiler table source name value) ∧
    Found.Divides found (Found.values · found) ∧
    ∀ {σ ε : Type} (store : Store σ ε) (extractor : FilePath → List Occurrence) (job : ScanJob) (before : ScanState σ),
      Scan.foundIn extractor job = found → ∃ emitted,
        (Scan.phases store extractor job before.reset).1.events = before.events ++ emitted ∧
        Scan.Uses (Found.values · found) emitted (Scan.phases store extractor job before.reset).1.working
          (Scan.phases store extractor job before.reset).2 := by
  refine ⟨Found.collects_of_known fun occurrence mem => ?_, fun value kind => ?_, Found.divides_values _, ?_⟩
  · obtain ⟨source, _, _, _, _, _, _, requests, _⟩ := mem_extractAll.1 mem
    obtain ⟨function, function_mem, same, _⟩ := requests.known
    exact ⟨function, function_mem, same⟩
  · rw [Found.mem_ofOccurrences]
    constructor
    · rintro ⟨occurrence, mem, rfl, known⟩
      obtain ⟨source, source_mem, writes⟩ := mem_extractAll.1 mem
      exact ⟨source, source_mem, occurrence.function, known, writes⟩
    · rintro ⟨source, source_mem, name, known, writes⟩
      exact ⟨⟨name, value⟩, mem_extractAll.2 ⟨source, source_mem, writes⟩, rfl, known⟩
  · intro σ ε store extractor job before same
    rw [← same]
    exact Scan.uses_phases store extractor job before

def threeSources : List (FileKind × String) :=
  [(.code, "<?php \\__('a'); trans('a');"), (.code, "<?php __('b'"), (.template, "\x7b\x7b __('a') \x7d\x7d")]

def threeFiles : ScanJob := ⟨.standard, "en", [["a.php"], ["b.php"], ["c.blade.php"]], [], .mark, ⟨0, 0⟩⟩

def threeExtractor (path : FilePath) : List Occurrence :=
  extractAll Template.compile .standard
    ((threeSources.zip threeFiles.files).filterMap fun (source, file) => if file = path then some source else none)

def idleStore : Store Unit Unit := ⟨fun _ _ => .ok [], fun _ _ _ _ _ _ => ((), .ok .zero)⟩

def threeScanned : ScanState Unit × Except Unit Summary :=
  Scan.phases idleStore threeExtractor threeFiles ⟨(), .empty, []⟩

theorem Found.collects_threeSources :
    Found.Collects .standard [⟨"__", "a"⟩, ⟨"trans", "a"⟩, ⟨"__", "a"⟩] [⟨"a", .text⟩, ⟨"a", .grouped⟩] ∧
    Scan.foundIn threeExtractor threeFiles = [⟨"a", .text⟩, ⟨"a", .grouped⟩] ∧
    threeScanned.2 = .ok ⟨3, 2, .zero, .mark⟩ ∧
    Scan.Uses (Found.values · [⟨"a", .text⟩, ⟨"a", .grouped⟩]) threeScanned.1.events threeScanned.1.working
      threeScanned.2 := by
  have extracted : extractAll Template.compile .standard threeSources =
      [⟨"__", "a"⟩, ⟨"trans", "a"⟩, ⟨"__", "a"⟩] := by decide +kernel
  have found : Found.ofOccurrences .standard [⟨"__", "a"⟩, ⟨"trans", "a"⟩, ⟨"__", "a"⟩] =
      [⟨"a", .text⟩, ⟨"a", .grouped⟩] := by decide
  have scanned : Scan.foundIn threeExtractor threeFiles = [⟨"a", .text⟩, ⟨"a", .grouped⟩] := by decide +kernel
  have summary : threeScanned.2 = .ok ⟨3, 2, .zero, .mark⟩ := by decide +kernel
  obtain ⟨collects, -, -, scans⟩ := Found.collects_extractAll Template.compile .standard threeSources
  rw [extracted, found] at collects
  obtain ⟨emitted, events, uses⟩ := scans idleStore threeExtractor threeFiles ⟨(), .empty, []⟩
    (by rw [scanned, extracted, found])
  rw [List.nil_append] at events
  rw [extracted, found, ← events] at uses
  exact ⟨collects, scanned, summary, uses⟩

end Phrasebook
