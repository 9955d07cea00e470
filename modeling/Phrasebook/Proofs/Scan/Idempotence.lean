import Phrasebook.Proofs.Catalogue.Round
import Phrasebook.Workspace

/-!
# Scanning again

A row is settled for what was found and a policy when no further round changes it (`SourceRow.Settled`), and a
table when its rows are and no value is lacking. A round leaves the table of its kind settled, and a scan
leaves those of both kinds so.

* `Table.reconciled_settled`, `Table.Settled.reconciled_eq`: one round settles a table, and a settled table is
  a fixed point.
* `Scan.run_settles`, `Scan.run_settled`: the same for a whole scan of a sound catalogue.
* `Workspace.scanRoots_again`: a second scan of the same files succeeds and changes nothing.
-/

namespace Phrasebook

open Function (update)

/-! ## Settled rows -/

namespace SourceRow

variable {found : List String} {policy : MissingPolicy} {row : SourceRow}

/-- Whether a round leaves a row as it is, whenever it takes place. -/
def Settled (found : List String) (policy : MissingPolicy) (row : SourceRow) : Prop :=
  ∀ now, row.reconciled found policy now = some row

theorem settled_of_reconciled {left : SourceRow} {now : Instant}
    (kept : row.reconciled found policy now = some left) : left.Settled found policy := by
  intro later
  -- The cases of a round; what each of them leaves falls under a case that leaves it alone.
  unfold reconciled at kept
  split at kept
  · rename_i namespaced
    cases kept
    exact reconciled_of_namespaced namespaced
  · rename_i scope
    rw [not_not] at scope
    split at kept
    · rename_i listed
      cases kept
      simp [reconciled, scope, listed]
    · rename_i unlisted
      cases policy with
      | keep =>
          cases kept
          simp [reconciled, scope, unlisted]
      | delete => cases kept
      | mark =>
          by_cases missing : row.missing = true
          · rw [if_pos missing] at kept
            cases kept
            simp [reconciled, scope, unlisted, missing]
          · rw [if_neg missing] at kept
            cases kept
            simp [reconciled, scope, unlisted]

theorem settled_of_new {locale : String} {now : Instant} {last : Int}
    (new : Table.New locale now last row) (listed : row.source ∈ found) : row.Settled found policy := by
  intro later
  unfold reconciled
  rw [if_neg (not_not.2 new.unscoped), if_pos listed, renew_active new.active new.unmarked]

theorem Settled.active (settled : row.Settled found policy) (scope : row.scope? = none)
    (listed : row.source ∈ found) : row.missing = false := by
  have same := settled ⟨0, 0⟩
  unfold reconciled at same
  rw [if_neg (not_not.2 scope), if_pos listed, Option.some.injEq] at same
  rw [← same]

theorem Settled.not_delete (settled : row.Settled found .delete) (scope : row.scope? = none) :
    row.source ∈ found := by
  by_contra unlisted
  have same := settled ⟨0, 0⟩
  unfold reconciled at same
  rw [if_neg (not_not.2 scope), if_neg unlisted] at same
  cases same

theorem Settled.marked (settled : row.Settled found .mark) (scope : row.scope? = none)
    (unlisted : row.source ∉ found) : row.missing = true := by
  by_contra active
  have same := settled ⟨0, 0⟩
  simp only [reconciled, if_neg (not_not.2 scope), if_neg unlisted, if_neg active, Option.some.injEq] at same
  exact active (same ▸ rfl)

end SourceRow

/-! ## Settled tables -/

namespace Table

variable {kind : SourceKind} {table : Table} {found : List String} {policy : MissingPolicy}
  {locale : String} {now : Instant}

structure Settled (found : List String) (policy : MissingPolicy) (table : Table) : Prop where
  rows : ∀ row ∈ table.sources, row.Settled found policy
  lacked : table.lacked found = []

theorem reconciled_settled (sound : (table.reconciled found policy locale now).Sound kind) :
    (table.reconciled found policy locale now).Settled found policy where
  rows := by
    intro row member
    rcases List.mem_append.1 member with old | new
    · obtain ⟨before, -, kept⟩ := List.mem_filterMap.1 old
      exact SourceRow.settled_of_reconciled kept
    · have value : row.source ∈ table.lacked found := by
        rw [← newRows_sources locale now table.lastId (table.lacked found)]
        exact List.mem_map_of_mem new
      exact SourceRow.settled_of_new (new_of_mem_newRows new)
        (mem_firsts.1 (List.mem_filter.1 value).1).1
  lacked := by
    refine List.filter_eq_nil_iff.2 fun value listed => ?_
    obtain ⟨row, global, source, -⟩ := reconciled_active sound (mem_firsts.1 listed).1
    simpa using holds_none_iff.2 ⟨row, global, source⟩

namespace Settled

theorem reconciled_eq (settled : table.Settled found policy) (locale : String) (now : Instant) :
    table.reconciled found policy locale now = table := by
  have kept : table.sources.filterMap (·.reconciled found policy now) = table.sources := by
    rw [List.filterMap_congr fun row stored => settled.rows row stored now]
    exact List.filterMap_some
  simp [reconciled, kept, settled.lacked, newRows]

theorem counted_eq (settled : table.Settled found policy) : table.counted found policy = .zero := by
  have global : ∀ row ∈ globalRows table.sources, row.scope? = none ∧ row.Settled found policy :=
    fun row member => ⟨(mem_globalRows.1 member).2, settled.rows row (mem_globalRows.1 member).1⟩
  have renewed : ((globalRows table.sources).countP fun row => row.missing = true ∧ row.source ∈ found) = 0 := by
    refine List.countP_eq_zero.2 fun row member => ?_
    obtain ⟨scope, same⟩ := global row member
    by_cases listed : row.source ∈ found
    · simp [same.active scope listed]
    · simp [listed]
  have acted : missed policy found (globalRows table.sources) = 0 := by
    cases policy with
    | keep => rfl
    | delete =>
        refine List.countP_eq_zero.2 fun row member => ?_
        obtain ⟨scope, same⟩ := global row member
        simp [same.not_delete scope]
    | mark =>
        refine List.countP_eq_zero.2 fun row member => ?_
        obtain ⟨scope, same⟩ := global row member
        by_cases listed : row.source ∈ found
        · simp [listed]
        · simp [same.marked scope listed]
  rw [counted, settled.lacked, renewed, acted]
  rfl

theorem spared_eq (settled : table.Settled found policy) (messages : Table) (kind : SourceKind) :
    messages.spared table kind found policy = messages := by
  by_cases delete : policy = .delete
  · subst delete
    have none : table.unfound found = [] := by
      rw [unfound, List.filter_eq_nil_iff.2, List.map_nil]
      intro row member
      obtain ⟨stored, scope⟩ := mem_globalRows.1 member
      simp [(settled.rows row stored).not_delete scope]
    simp [spared, none, forget]
  · simp [spared, delete]

end Settled

end Table

/-! ## One kind in a scan -/

namespace Scan

variable {c : Catalogue} {sources : SourceKind → Table} {messages : Table}

def Taken (sources : SourceKind → Table) (kinds : List SourceKind) (state : ScanState Catalogue) : Prop :=
  ∀ kind ∈ kinds,
    state.working.snapshots.lookup kind = some ((globalRows (sources kind).sources).map .ofRow)

theorem reconcileKind_eq (sound : c.Sound sources messages) (apart : c.names.Apart) (job : ScanJob)
    (found : List Found) (state : ScanState Catalogue) (here : state.store = c) {kind : SourceKind}
    (taken : state.working.snapshots.lookup kind = some ((globalRows (sources kind).sources).map .ofRow)) :
    ∃ state', reconcileKind Catalogue.store job found state kind =
        (state', .ok ((sources kind).counted (Found.values kind found) job.policy)) ∧
      state'.store = c.withTables
        (update sources kind
          ((sources kind).reconciled (Found.values kind found) job.policy job.locale job.now))
        (messages.spared (sources kind) kind (Found.values kind found) job.policy) ∧
      state'.working.snapshots = state.working.snapshots := by
  have applied := sound.apply_planned apart kind (Found.values kind found) job.policy job.locale job.now
  have planned : Plan.make ((state.working.snapshots.lookup kind).getD []) (Found.values kind found) =
      (sources kind).planned (Found.values kind found) := by rw [taken, Option.getD_some, Table.planned]
  simp only [reconcileKind, planned, ScanState.emit, Catalogue.store, here, applied]
  exact ⟨_, rfl, rfl, rfl⟩

theorem reconcileKinds_settles (sound : c.Sound sources messages) (apart : c.names.Apart) (job : ScanJob)
    (found : List Found) (state : ScanState Catalogue) (here : state.store = c) {kinds : List SourceKind}
    (nodup : kinds.Nodup) (taken : Taken sources kinds state) (total : Outcome) :
    ∃ state' outcome sources' messages',
      reconcileKinds Catalogue.store job found state total kinds = (state', .ok outcome) ∧
        state'.store.Sound sources' messages' ∧ state'.store.names = c.names ∧
        (∀ kind ∈ kinds, (sources' kind).Settled (Found.values kind found) job.policy) ∧
        ∀ kind ∉ kinds, sources' kind = sources kind := by
  -- The catalogue and its tables vary: each kind is reconciled in what the kinds before have left.
  induction kinds generalizing c sources messages state total with
  | nil => exact ⟨state, total, sources, messages, rfl, here ▸ sound, by rw [here], by simp, fun _ _ => rfl⟩
  | cons kind kinds ih =>
      obtain ⟨fresh, rest⟩ := List.nodup_cons.1 nodup
      obtain ⟨state₁, ran, store, snapshots⟩ := reconcileKind_eq sound apart job found state here
        (taken kind (List.mem_cons_self ..))
      have sound₁ := sound.reconciled kind (Found.values kind found) job.policy job.locale job.now
      obtain ⟨state₂, outcome, sources', messages', ran₂, sound₂, names, settled, others⟩ :=
        ih sound₁ apart (state₁.emit [.kindReconciled kind _]) store rest
          (fun other member => by
            have apart : other ≠ kind := fun same => fresh (same ▸ member)
            rw [Function.update_of_ne apart]
            exact (congrArg (List.lookup other) snapshots).trans (taken other (List.mem_cons_of_mem _ member)))
          (total.add ((sources kind).counted (Found.values kind found) job.policy))
      refine ⟨state₂, outcome, sources', messages', ?_, sound₂, names, ?_, ?_⟩
      · simp only [reconcileKinds, ran]
        exact ran₂
      · refine List.forall_mem_cons.2 ⟨?_, settled⟩
        rw [others kind fresh, Function.update_self]
        have kept := sound₁.sound kind
        rw [Function.update_self] at kept
        exact Table.reconciled_settled kept
      · intro other away
        rw [List.mem_cons, not_or] at away
        rw [others other away.2, Function.update_of_ne away.1]

theorem reconcileKinds_settled (sound : c.Sound sources messages) (apart : c.names.Apart) (job : ScanJob)
    (found : List Found) (state : ScanState Catalogue) (here : state.store = c) {kinds : List SourceKind}
    (taken : Taken sources kinds state)
    (settled : ∀ kind ∈ kinds, (sources kind).Settled (Found.values kind found) job.policy) (total : Outcome) :
    ∃ state', reconcileKinds Catalogue.store job found state total kinds = (state', .ok total) ∧
      state'.store = c := by
  induction kinds generalizing state total with
  | nil => exact ⟨state, rfl, here⟩
  | cons kind kinds ih =>
      obtain ⟨first, rest⟩ := List.forall_mem_cons.1 settled
      obtain ⟨state₁, ran, store, snapshots⟩ := reconcileKind_eq sound apart job found state here
        (taken kind (List.mem_cons_self ..))
      rw [first.reconciled_eq, first.spared_eq, Function.update_eq_self] at store
      have same : c.withTables sources messages = c := by
        rw [Catalogue.withTables, sound.laid.withTables_self]
      obtain ⟨state₂, ran₂, store₂⟩ := ih
        (state₁.emit [.kindReconciled kind .zero]) (store.trans same)
        (fun other member => (congrArg (List.lookup other) snapshots).trans
          (taken other (List.mem_cons_of_mem _ member))) rest total
      refine ⟨state₂, ?_, store₂⟩
      simp only [reconcileKinds, ran, first.counted_eq]
      exact ran₂

/-! ## A whole scan -/

theorem takeSnapshots_eq (sound : c.Sound sources messages) (apart : c.names.Apart)
    (state : ScanState Catalogue) (here : state.store = c) (kinds : List SourceKind) :
    takeSnapshots Catalogue.store state kinds =
      ({ state with working := { state.working with
          snapshots := state.working.snapshots ++
            kinds.map fun kind => (kind, (globalRows (sources kind).sources).map .ofRow) } }, .ok ()) := by
  induction kinds generalizing state with
  | nil => simp [takeSnapshots]
  | cons kind kinds ih =>
      have answered : Catalogue.store.snapshot state.store kind =
          .ok ((globalRows (sources kind).sources).map .ofRow) := by
        rw [here]
        exact sound.snapshot_eq apart kind
      simp only [takeSnapshots, answered]
      rw [ih _ (by exact here)]
      simp

theorem lookup_of_mem {β : Type} (f : SourceKind → β) {kinds : List SourceKind} {kind : SourceKind}
    (member : kind ∈ kinds) : (kinds.map fun kind => (kind, f kind)).lookup kind = some (f kind) := by
  induction kinds with
  | nil => cases member
  | cons head tail ih =>
      by_cases same : kind = head
      · subst same
        simp
      · have differ : (kind == head) = false := by simpa using same
        rw [List.map_cons, List.lookup_cons, differ]
        exact ih ((List.mem_cons.1 member).resolve_left same)

theorem all_nodup : SourceKind.all.Nodup := by decide

theorem run_of_reconcileKinds (sound : c.Sound sources messages) (apart : c.names.Apart)
    (extract : FilePath → List Occurrence) (job : ScanJob) (state : ScanState Catalogue)
    (here : state.store = c) {Q : Catalogue → Outcome → Prop}
    (kinds : ∀ start : ScanState Catalogue, start.store = c → Taken sources SourceKind.all start →
      ∃ state' outcome, reconcileKinds Catalogue.store job (foundIn extract job) start .zero SourceKind.all =
        (state', .ok outcome) ∧ Q state'.store outcome) :
    ∃ state' outcome, run Catalogue.store extract job state =
        (state', .ok ⟨job.files.length, (foundIn extract job).length, outcome, job.policy⟩) ∧
      Q state'.store outcome := by
  let started := state.reset.emit (opening job job.schedule (foundIn extract job))
  have snapshots := takeSnapshots_eq sound apart started here SourceKind.all
  obtain ⟨state', outcome, ran, reached⟩ := kinds
    { started with working := { started.working with
        snapshots := started.working.snapshots ++
          SourceKind.all.map fun kind => (kind, (globalRows (sources kind).sources).map .ofRow) } } here
    (fun kind member => lookup_of_mem _ member)
  refine ⟨state'.reset.emit [.finished ⟨job.files.length, (foundIn extract job).length, outcome, job.policy⟩],
    outcome, ?_, reached⟩
  rw [run, phases, proceed, snapshots]
  dsimp only
  rw [ran, close]

theorem run_settles (sound : c.Sound sources messages) (apart : c.names.Apart)
    (extract : FilePath → List Occurrence) (job : ScanJob) (state : ScanState Catalogue)
    (here : state.store = c) :
    ∃ state' outcome, run Catalogue.store extract job state =
        (state', .ok ⟨job.files.length, (foundIn extract job).length, outcome, job.policy⟩) ∧
      ∃ sources' messages', state'.store.Sound sources' messages' ∧ state'.store.names = c.names ∧
        ∀ kind, (sources' kind).Settled (Found.values kind (foundIn extract job)) job.policy :=
  run_of_reconcileKinds sound apart extract job state here (Q := fun after _ => ∃ sources' messages',
    after.Sound sources' messages' ∧ after.names = c.names ∧
      ∀ kind, (sources' kind).Settled (Found.values kind (foundIn extract job)) job.policy)
    fun start here taken => by
      obtain ⟨state', outcome, sources', messages', ran, kept, names, settled, -⟩ :=
        reconcileKinds_settles sound apart job (foundIn extract job) start here all_nodup taken .zero
      exact ⟨state', outcome, ran, sources', messages', kept, names,
        fun kind => settled kind kind.mem_all⟩

theorem run_settled (sound : c.Sound sources messages) (apart : c.names.Apart)
    (extract : FilePath → List Occurrence) (job : ScanJob) (state : ScanState Catalogue)
    (here : state.store = c)
    (settled : ∀ kind, (sources kind).Settled (Found.values kind (foundIn extract job)) job.policy) :
    ∃ state', run Catalogue.store extract job state =
        (state', .ok ⟨job.files.length, (foundIn extract job).length, .zero, job.policy⟩) ∧
      state'.store = c := by
  obtain ⟨state', outcome, ran, store, rfl⟩ := run_of_reconcileKinds sound apart extract job state here
    (Q := fun after outcome => after = c ∧ outcome = .zero) fun start here taken => by
      obtain ⟨state', ran, store⟩ := reconcileKinds_settled sound apart job (foundIn extract job) start here
        taken (fun kind _ => settled kind) .zero
      exact ⟨state', .zero, ran, store, rfl⟩
  exact ⟨state', ran, store⟩

end Scan

/-! ## Scanning a workspace -/

namespace Workspace

def scanRoots (workspace : Workspace) (roots : List String) (table : FunctionTable) (policy : MissingPolicy)
    (locale : String) (order : List FilePath → List FilePath) (now : Instant) (state : ScanState Catalogue) :
    ScanState Catalogue × Except DatabaseError Summary :=
  let files := workspace.listRoots roots
  Scan.run Catalogue.store
    (fun path => workspace.extractOrSkip Template.compile table ("/".intercalate path))
    { table, locale, files, schedule := order files, policy, now } state

/-- A scan of a catalogue that operations lead to succeeds. A second scan of the same files with the same
functions and policy, whenever and in whatever order it goes through the files, succeeds too, finds as much,
changes no row, and leaves the catalogue as it is. -/
theorem scanRoots_again {names : TableNames} (apart : names.Apart) {db : Database} {c : Catalogue}
    (opened : Catalogue.openWith names .empty = (db, .ok c)) (operations : List Operation)
    (workspace : Workspace) (roots : List String) (table : FunctionTable) (policy : MissingPolicy)
    (locale : String) (order : List FilePath → List FilePath) (now : Instant) (working : Working)
    (events : List ScanEvent) :
    ∃ first summary rows messages,
      workspace.scanRoots roots table policy locale order now ⟨c.performAll operations, working, events⟩ =
        (first, .ok summary) ∧
      first.store.Consistent rows messages ∧
      ∀ locale' order' now' working' events', ∃ second,
        workspace.scanRoots roots table policy locale' order' now' ⟨first.store, working', events'⟩ =
          (second, .ok { summary with outcome := .zero }) ∧
        second.store = first.store ∧ second.store.Consistent rows messages := by
  obtain ⟨sameNames, sources, messages, sound⟩ := Catalogue.performAll_sound apart opened operations
  have apart' : (c.performAll operations).names.Apart := by rwa [sameNames]
  obtain ⟨first, outcome, ran, sources', messages', sound', names', settled⟩ := Scan.run_settles sound apart'
    (fun path => workspace.extractOrSkip Template.compile table ("/".intercalate path))
    { table, locale, files := workspace.listRoots roots, schedule := order (workspace.listRoots roots), policy, now }
    ⟨c.performAll operations, working, events⟩ rfl
  have apart₂ : first.store.names.Apart := by rwa [names']
  refine ⟨first, _, _, _, ran, sound'.consistent apart₂, fun locale' order' now' working' events' => ?_⟩
  obtain ⟨second, ran₂, same⟩ := Scan.run_settled sound' apart₂
    (fun path => workspace.extractOrSkip Template.compile table ("/".intercalate path))
    { table, locale := locale', files := workspace.listRoots roots
      schedule := order' (workspace.listRoots roots), policy, now := now' }
    ⟨first.store, working', events'⟩ rfl settled
  exact ⟨second, ran₂, same, same ▸ sound'.consistent apart₂⟩

theorem scanRoots_again_of_stale :
    let workspace : Workspace := ⟨"/shop", .directory [("app", .directory
      [("cart.php", .file (.bytes (Utf8.encode "<?php echo trans('cart.title');".toList)))])]⟩
    TableNames.standard.Apart ∧ ∃ db c, Catalogue.openWith .standard .empty = (db, .ok c) ∧
      ∃ first second summary rows messages,
        workspace.scanRoots ["app", "views"] .standard .mark "en" id ⟨30, 0⟩
          ⟨c.performAll [.insertSource .grouped (some "app") "a" "en" ⟨10, 0⟩,
            .insertSource .grouped none "a" "en" ⟨20, 0⟩], .empty, []⟩ = (first, .ok summary) ∧
        workspace.scanRoots ["app", "views"] .standard .mark "de" List.reverse ⟨40, 0⟩ first =
          (second, .ok { summary with outcome := .zero }) ∧
        first.store.Consistent rows messages ∧ second.store.Consistent rows messages := by
  intro workspace
  obtain ⟨db, c, opened⟩ := standard_opens
  obtain ⟨first, summary, rows, messages, ran, consistent, again⟩ :=
    scanRoots_again standard_apart opened
      [.insertSource .grouped (some "app") "a" "en" ⟨10, 0⟩, .insertSource .grouped none "a" "en" ⟨20, 0⟩]
      workspace ["app", "views"] .standard .mark "en" id ⟨30, 0⟩ .empty []
  obtain ⟨second, ran₂, -, consistent₂⟩ := again "de" List.reverse ⟨40, 0⟩ first.working first.events
  exact ⟨standard_apart, db, c, opened, first, second, summary, rows, messages, ran, ran₂, consistent,
    consistent₂⟩

end Workspace

end Phrasebook
