import Mathlib.Data.List.Lex
import Mathlib.Data.List.Sort
import Mathlib.Data.String.Basic
import Phrasebook.Files.Discovery
import Phrasebook.Proofs.Catalogue.Planning

/-!
# Which files are found

The files of a root are those that the tree has at or below it, none of them left out, in the order of their
paths, name by name. The order in which directories list their entries has no bearing on it.
-/

namespace Phrasebook

theorem lookup_eq_some_iff_mem {β : Type} {entries : List (String × β)} (differ : (entries.map (·.1)).Nodup)
    {name : String} {entry : β} : entries.lookup name = some entry ↔ (name, entry) ∈ entries := by
  induction entries with
  | nil => simp
  | cons first entries ih =>
      obtain ⟨head, here⟩ := first
      obtain ⟨once, others⟩ := List.nodup_cons.1 differ
      rw [List.lookup_cons, List.mem_cons, ← ih others]
      by_cases same : name = head
      · subst same
        have gone : entries.lookup name ≠ some entry := fun found =>
          once (List.mem_map.2 ⟨_, (ih others).1 found, rfl⟩)
        simp [gone, eq_comm]
      · simp [same, beq_false_of_ne same]

namespace Entry

/-! ## Trees -/

mutual

def NamesDiffer : Entry → Prop
  | .directory entries => (entries.map (·.1)).Nodup ∧ NamesDifferIn entries
  | _ => True

def NamesDifferIn : List (String × Entry) → Prop
  | [] => True
  | (_, entry) :: entries => entry.NamesDiffer ∧ NamesDifferIn entries

end

/-- The same tree, but for the order in which some of its directories list their entries. -/
inductive Reordered : Entry → Entry → Prop
  | directory {entries others : List (String × Entry)} :
      entries.Perm others → Reordered (.directory entries) (.directory others)
  | inside {entry other : Entry} {earlier later : List (String × Entry)} {name : String} :
      Reordered entry other →
      Reordered (.directory (earlier ++ (name, entry) :: later)) (.directory (earlier ++ (name, other) :: later))
  | trans {first second third : Entry} : Reordered first second → Reordered second third → Reordered first third

theorem namesDifferIn_iff {entries : List (String × Entry)} :
    NamesDifferIn entries ↔ ∀ item ∈ entries, item.2.NamesDiffer := by
  induction entries with
  | nil => simp [NamesDifferIn]
  | cons first entries ih => simp [NamesDifferIn, ih]

theorem NamesDiffer.inside {entries : List (String × Entry)} (differ : (directory entries).NamesDiffer)
    {name : String} {entry : Entry} (found : entries.lookup name = some entry) : entry.NamesDiffer := by
  rw [NamesDiffer] at differ
  exact namesDifferIn_iff.1 differ.2 _ ((lookup_eq_some_iff_mem differ.1).1 found)

theorem at?_cons {entry : Entry} {name : String} {below : List String} {found : Entry} :
    entry.at? (name :: below) = some found ↔
      ∃ entries inner, entry = .directory entries ∧ entries.lookup name = some inner ∧
        inner.at? below = some found := by
  rw [at?, Option.bind_eq_some_iff]
  cases entry with
  | directory entries =>
      constructor
      · rintro ⟨inner, here, found⟩
        exact ⟨entries, inner, rfl, here, found⟩
      · rintro ⟨_, inner, same, here, found⟩
        cases same
        exact ⟨inner, here, found⟩
  | file | link => simp [entries]

theorem at?_append (tree : Entry) (place below : List String) :
    tree.at? (place ++ below) = (tree.at? place).bind (·.at? below) := by
  induction place generalizing tree with
  | nil => rfl
  | cons name place ih =>
      rw [List.cons_append, at?, at?, Option.bind_assoc]
      exact Option.bind_congr fun inner _ => ih inner

theorem NamesDiffer.at? {tree : Entry} (differ : tree.NamesDiffer) {place : List String} {entry : Entry}
    (found : tree.at? place = some entry) : entry.NamesDiffer := by
  induction place generalizing tree with
  | nil =>
      cases found
      exact differ
  | cons name place ih =>
      obtain ⟨entries, inner, rfl, here, found⟩ := at?_cons.1 found
      exact ih (differ.inside here) found

/-! ## The walk -/

/-- A file in an entry, with no hidden name on the way and with a name of a known kind. The path of the entry
itself is `path`. -/
def Holds (entry : Entry) (path found : FilePath) : Prop :=
  ∃ below content, found = path ++ below ∧ entry.at? below = some (.file content) ∧
    (∀ name ∈ below, isHidden name = false) ∧ found.getLast?.any isScanned = true

mutual

theorem holds_of_mem_files : ∀ (entry : Entry) (path : FilePath), entry.NamesDiffer →
    ∀ found ∈ files path entry, entry.Holds path found
  | .file content, path, _, found, member => by
    rw [files] at member
    split at member
    · rename_i scanned
      cases List.mem_singleton.1 member
      exact ⟨[], content, (List.append_nil _).symm, rfl, by simp, scanned⟩
    · cases member
  | .link _, _, _, _, member => by
    rw [files] at member
    cases member
  | .directory entries, path, differ, found, member => by
    rw [files] at member
    rw [NamesDiffer] at differ
    obtain ⟨name, entry, held, seen, below, content, same, there, plain, scanned⟩ :=
      holds_of_mem_filesIn entries path differ.2 found member
    refine ⟨name :: below, content, by simpa using same, ?_, List.forall_mem_cons.2 ⟨seen, plain⟩, scanned⟩
    exact at?_cons.2 ⟨entries, entry, rfl, (lookup_eq_some_iff_mem differ.1).2 held, there⟩

theorem holds_of_mem_filesIn : ∀ (entries : List (String × Entry)) (path : FilePath), NamesDifferIn entries →
    ∀ found ∈ filesIn path entries, ∃ name entry, (name, entry) ∈ entries ∧ isHidden name = false ∧
      entry.Holds (path ++ [name]) found
  | [], _, _, _, member => by
    rw [filesIn] at member
    cases member
  | (name, entry) :: entries, path, differ, found, member => by
    rw [NamesDifferIn] at differ
    rw [filesIn, List.mem_append] at member
    rcases member with member | member
    · split at member
      · cases member
      · rename_i seen
        exact ⟨name, entry, List.mem_cons_self .., by simpa using seen,
          holds_of_mem_files entry (path ++ [name]) differ.1 found member⟩
    · obtain ⟨other, inner, held, rest⟩ := holds_of_mem_filesIn entries path differ.2 found member
      exact ⟨other, inner, List.mem_cons_of_mem _ held, rest⟩

end

theorem mem_filesIn_of_mem {entries : List (String × Entry)} {path found : FilePath} {name : String}
    {entry : Entry} (held : (name, entry) ∈ entries) (seen : isHidden name = false)
    (member : found ∈ files (path ++ [name]) entry) : found ∈ filesIn path entries := by
  induction entries with
  | nil => cases held
  | cons first entries ih =>
      rw [filesIn, List.mem_append]
      rcases List.mem_cons.1 held with rfl | held
      · simp [seen, member]
      · exact Or.inr (ih held)

theorem mem_files_of_holds {entry : Entry} {path found : FilePath} (differ : entry.NamesDiffer)
    (holds : entry.Holds path found) : found ∈ files path entry := by
  obtain ⟨below, content, same, there, plain, scanned⟩ := holds
  -- Along the names below the entry; each leads to the one entry of this name.
  induction below generalizing entry path with
  | nil =>
      cases there
      rw [List.append_nil] at same
      subst same
      simp [files, scanned]
  | cons name below ih =>
      obtain ⟨entries, inner, rfl, here, there⟩ := at?_cons.1 there
      obtain ⟨seen, plain⟩ := List.forall_mem_cons.1 plain
      rw [files]
      refine mem_filesIn_of_mem ?_ seen (ih (differ.inside here) (by simpa using same) there plain)
      rw [NamesDiffer] at differ
      exact (lookup_eq_some_iff_mem differ.1).1 here

theorem mem_files {entry : Entry} {path found : FilePath} (differ : entry.NamesDiffer) :
    found ∈ files path entry ↔ entry.Holds path found :=
  ⟨holds_of_mem_files entry path differ found, mem_files_of_holds differ⟩

mutual

theorem files_nodup : ∀ (entry : Entry) (path : FilePath), entry.NamesDiffer → (files path entry).Nodup
  | .file _, path, _ => by
    rw [files]
    split <;> simp
  | .link _, _, _ => by
    rw [files]
    exact .nil
  | .directory entries, path, differ => by
    rw [NamesDiffer] at differ
    rw [files]
    exact filesIn_nodup entries path differ.1 differ.2

theorem filesIn_nodup : ∀ (entries : List (String × Entry)) (path : FilePath), (entries.map (·.1)).Nodup →
    NamesDifferIn entries → (filesIn path entries).Nodup
  | [], _, _, _ => by
    rw [filesIn]
    exact .nil
  | (name, entry) :: entries, path, differ, below => by
    rw [NamesDifferIn] at below
    obtain ⟨once, differ⟩ := List.nodup_cons.1 differ
    rw [filesIn, List.nodup_append']
    refine ⟨?_, filesIn_nodup entries path differ below.2, fun found first later => ?_⟩
    · split
      · exact .nil
      · exact files_nodup entry (path ++ [name]) below.1
    · -- The name after the path tells in which entry a file is.
      split at first
      · cases first
      · obtain ⟨_, _, same, -⟩ := holds_of_mem_files entry (path ++ [name]) below.1 found first
        obtain ⟨other, inner, held, -, _, _, same', -⟩ := holds_of_mem_filesIn entries path below.2 found later
        rw [same, List.append_assoc, List.append_assoc] at same'
        have names : name = other := (List.cons.inj (List.append_cancel_left same')).1
        exact once (List.mem_map.2 ⟨_, held, names.symm⟩)

end

/-! ## The order of paths -/

theorem inOrder_iff (first second : FilePath) : inOrder first second = true ↔ first ≤ second := by
  rw [← not_lt]
  induction first generalizing second with
  | nil => simp [inOrder]
  | cons name first ih =>
      cases second with
      | nil => simp [inOrder]
      | cons other second =>
          simp only [inOrder, Bool.or_eq_true, Bool.and_eq_true, decide_eq_true_eq, beq_iff_eq, ih,
            List.cons_lt_cons_iff]
          grind

theorem sorted_ascending {files : List FilePath} (nodup : files.Nodup) :
    (files.mergeSort inOrder).Pairwise (· < ·) := by
  have ordered : (files.mergeSort inOrder).Pairwise (inOrder · · = true) := by
    apply List.pairwise_mergeSort
    · intro first second third
      simp only [inOrder_iff]
      exact le_trans
    · intro first second
      rw [Bool.or_eq_true, inOrder_iff, inOrder_iff]
      exact le_total first second
  have apart : (files.mergeSort inOrder).Nodup := (List.mergeSort_perm files inOrder).nodup_iff.2 nodup
  exact (ordered.and apart).imp fun both => lt_of_le_of_ne ((inOrder_iff _ _).1 both.1) both.2

theorem mergeSort_inOrder {files sorted : List FilePath} (perm : files.Perm sorted)
    (ascending : sorted.Pairwise (· < ·)) : files.mergeSort inOrder = sorted := by
  have nodup : files.Nodup := perm.nodup_iff.2 (ascending.imp ne_of_lt)
  exact (sorted_ascending nodup).eq_of_mem_iff ascending fun path => by rw [List.mem_mergeSort, perm.mem_iff]

/-! ## Roots -/

def IsDirect (tree : Entry) (root : String) : Prop := ∀ target, tree.named? (Path.steps root) ≠ some (.link target)

def Lists (tree : Entry) (root : String) (path : FilePath) : Prop :=
  ∃ place below content, tree.locate (Path.steps root) = .ok place ∧ path = Path.names root ++ below ∧
    tree.at? (place ++ below) = some (.file content) ∧ (∀ name ∈ below, isHidden name = false) ∧
    ∃ name kind, path.getLast? = some name ∧ FileKind.ofName? name = some kind

theorem any_isScanned {path : FilePath} : path.getLast?.any isScanned = true ↔
    ∃ name kind, path.getLast? = some name ∧ FileKind.ofName? name = some kind := by
  simp [Option.any_eq_true, isScanned, Option.isSome_iff_exists]

theorem exists_follow_of_append {tree : Entry} {links : Nat} {here steps more place : List String}
    (found : tree.follow links here (steps ++ more) = .ok place) :
    ∃ links' here', tree.follow links here steps = .ok here' ∧ tree.follow links' here' more = .ok place := by
  -- Case by case of `follow`: a link puts the names of its target before the rest, so the beginning grows with it.
  induction links, here, steps using follow.induct tree with
  | case1 links here => exact ⟨links, here, by rw [follow], found⟩
  | case2 links here steps ih =>
      rw [List.cons_append, follow, if_pos rfl] at found
      obtain ⟨links', here', front, back⟩ := ih found
      exact ⟨links', here', by rw [follow, if_pos rfl, front], back⟩
  | case3 links steps up => simp [follow] at found
  | case4 links here steps below up ih =>
      simp only [List.cons_append, follow, below, up, if_false, if_true] at found
      obtain ⟨links', here', front, back⟩ := ih found
      exact ⟨links', here', by simp [follow, below, front], back⟩
  | case5 links here name steps stay up none => simp [follow, stay, up, none] at found
  | case6 links here name steps stay up entries directory ih =>
      simp only [List.cons_append, follow, stay, up, if_false, directory] at found
      obtain ⟨links', here', front, back⟩ := ih found
      exact ⟨links', here', by simp [follow, stay, up, directory, front], back⟩
  | case7 links here name stay up content file =>
      simp only [List.cons_append, List.nil_append, follow, stay, up, if_false, file] at found
      split at found
      · rename_i last
        subst last
        exact ⟨links, here ++ [name], by simp [follow, stay, up, file], by rw [follow, found]⟩
      · cases found
  | case8 links here name steps stay up content file further =>
      simp [follow, stay, up, file, further] at found
  | case9 here name steps stay up target link => simp [follow, stay, up, link] at found
  | case10 here name steps stay up target link links away =>
      simp [follow, stay, up, link, away] at found
  | case11 here name steps stay up target link links near ih =>
      simp only [List.cons_append, follow, stay, up, if_false, link, near] at found
      obtain ⟨links', here', front, back⟩ := ih (by simpa using found)
      exact ⟨links', here', by simpa [follow, stay, up, link, near] using front, back⟩

theorem find_eq (tree : Entry) (steps : List String) : tree.find steps =
    (tree.locate steps).bind fun place => ((tree.at? place).map Except.ok).getD (.error .notFound) := by
  simp only [find, bind]
  rcases tree.locate steps with fault | place
  · rfl
  · simp only [Except.bind]
    cases tree.at? place <;> rfl

theorem find_eq_ok_iff {tree entry : Entry} {steps : List String} : tree.find steps = .ok entry ↔
    ∃ place, tree.locate steps = .ok place ∧ tree.at? place = some entry := by
  rw [find_eq]
  rcases tree.locate steps with fault | place
  · simp [Except.bind]
  · cases there : tree.at? place <;> simp [Except.bind, there]

theorem named?_of_file {tree : Entry} {steps : List String} {content : Content}
    (found : tree.find steps = .ok (.file content)) :
    tree.named? steps = some (.file content) ∨ ∃ target, tree.named? steps = some (.link target) := by
  obtain ⟨place, located, there⟩ := find_eq_ok_iff.1 found
  unfold named?
  cases last : steps.getLast? with
  | none =>
      cases List.getLast?_eq_none_iff.1 last
      rw [locate, follow] at located
      cases located
      exact Or.inl there
  | some name =>
      dsimp only
      split
      · exact Or.inl (by rw [found]; rfl)
      · rename_i plain
        obtain ⟨stay, up⟩ := not_or.1 plain
        have split : steps = steps.dropLast ++ [name] :=
          (List.dropLast_append_getLast? name (by simp [last])).symm
        rw [locate, split] at located
        obtain ⟨links, here, front, back⟩ := exists_follow_of_append located
        rw [locate, front]
        dsimp only
        simp only [follow, stay, up, if_false] at back
        cases named : tree.at? (here ++ [name]) with
        | none => simp [named] at back
        | some entry =>
            cases entry with
            | file content' =>
                simp only [named, if_true, Except.ok.injEq] at back
                rw [back, there] at named
                cases named
                exact Or.inl rfl
            | link target => exact Or.inr ⟨target, rfl⟩
            | directory entries =>
                simp only [named, Except.ok.injEq] at back
                rw [← back, named] at there
                cases there

theorem listFiles_eq {tree : Entry} {root : String} (direct : tree.IsDirect root) {entry : Entry}
    (found : tree.find (Path.steps root) = .ok entry) :
    tree.listFiles root = (files (Path.names root) entry).mergeSort inOrder := by
  rw [listFiles, found]
  cases entry with
  | directory entries => rw [files]
  | link target => simp [files]
  | file content =>
      rcases named?_of_file found with named | ⟨target, named⟩
      · simp only [named, files]
        split <;> simp
      · exact absurd named (direct target)

theorem listFiles_of_missing {tree : Entry} {root : String} (missing : tree.exists? (Path.steps root) = false) :
    tree.listFiles root = [] := by
  rw [exists?] at missing
  rw [listFiles]
  cases found : tree.find (Path.steps root) with
  | error fault => rfl
  | ok entry =>
      rw [found] at missing
      cases missing

theorem mem_listFiles {tree : Entry} (differ : tree.NamesDiffer) {root : String} (direct : tree.IsDirect root)
    (path : FilePath) : path ∈ tree.listFiles root ↔ tree.Lists root path := by
  constructor
  · intro member
    rcases found : tree.find (Path.steps root) with fault | entry
    · rw [listFiles_of_missing (by rw [exists?, found]; rfl)] at member
      cases member
    · obtain ⟨place, located, there⟩ := find_eq_ok_iff.1 found
      rw [listFiles_eq direct found, List.mem_mergeSort, mem_files (differ.at? there)] at member
      obtain ⟨below, content, same, held, plain, scanned⟩ := member
      exact ⟨place, below, content, located, same, by rw [at?_append, there]; exact held, plain,
        any_isScanned.1 scanned⟩
  · rintro ⟨place, below, content, located, same, held, plain, scanned⟩
    rw [at?_append, Option.bind_eq_some_iff] at held
    obtain ⟨entry, there, held⟩ := held
    rw [listFiles_eq direct (find_eq_ok_iff.2 ⟨place, located, there⟩), List.mem_mergeSort,
      mem_files (differ.at? there)]
    exact ⟨below, content, same, held, plain, any_isScanned.2 scanned⟩

theorem listFiles_ascending {tree : Entry} (differ : tree.NamesDiffer) (root : String) :
    (tree.listFiles root).Pairwise (· < ·) := by
  rw [listFiles]
  split
  · rename_i entries found
    obtain ⟨place, -, there⟩ := find_eq_ok_iff.1 found
    have differ := differ.at? there
    rw [NamesDiffer] at differ
    exact sorted_ascending (filesIn_nodup entries _ differ.1 differ.2)
  · rw [files]
    split <;> simp
  · exact .nil

/-! ## Entries in another order -/

def bare : Entry → Entry
  | .directory _ => .directory []
  | entry => entry

/-- At each place both trees have the same, but for what is in a directory. -/
def Alike (tree other : Entry) : Prop := ∀ place, (other.at? place).map bare = (tree.at? place).map bare

theorem lookup_of_perm {entries others : List (String × Entry)} (differ : (entries.map (·.1)).Nodup)
    (perm : entries.Perm others) (name : String) : others.lookup name = entries.lookup name := by
  have differ' : (others.map (·.1)).Nodup := (perm.map _).nodup_iff.1 differ
  refine Option.ext fun entry => ?_
  rw [lookup_eq_some_iff_mem differ, lookup_eq_some_iff_mem differ', perm.mem_iff]

theorem at?_inside (earlier later : List (String × Entry)) (name : String) {entry other : Entry}
    (alike : entry.Alike other) :
    (directory (earlier ++ (name, entry) :: later)).Alike (.directory (earlier ++ (name, other) :: later)) := by
  intro place
  cases place with
  | nil => rfl
  | cons head place =>
      simp only [at?, entries, List.lookup_append, List.lookup_cons]
      cases earlier.lookup head with
      | some inner => rfl
      | none =>
          cases head == name with
          | false => rfl
          | true => exact alike place

theorem Reordered.keeps {tree other : Entry} (reordered : tree.Reordered other) (differ : tree.NamesDiffer) :
    other.NamesDiffer ∧ tree.Alike other := by
  induction reordered with
  | directory perm =>
      rw [NamesDiffer] at differ
      refine ⟨?_, fun place => ?_⟩
      · rw [NamesDiffer]
        exact ⟨(perm.map _).nodup_iff.1 differ.1,
          namesDifferIn_iff.2 fun item member => namesDifferIn_iff.1 differ.2 item (perm.mem_iff.2 member)⟩
      · cases place with
        | nil => rfl
        | cons name place => simp only [at?, entries, lookup_of_perm differ.1 perm name]
  | @inside entry other earlier later name _ ih =>
      rw [NamesDiffer, namesDifferIn_iff] at differ
      obtain ⟨differ', alike⟩ := ih (differ.2 _ (List.mem_append_right _ (List.mem_cons_self ..)))
      refine ⟨?_, at?_inside earlier later name alike⟩
      rw [NamesDiffer, namesDifferIn_iff]
      refine ⟨by simpa using differ.1, fun item member => ?_⟩
      rcases List.mem_append.1 member with before | after
      · exact differ.2 item (List.mem_append_left _ before)
      · rcases List.mem_cons.1 after with rfl | after
        · exact differ'
        · exact differ.2 item (List.mem_append_right _ (List.mem_cons_of_mem _ after))
  | trans _ _ ih₁ ih₂ =>
      obtain ⟨differ', alike⟩ := ih₁ differ
      obtain ⟨differ'', alike'⟩ := ih₂ differ'
      exact ⟨differ'', fun place => (alike' place).trans (alike place)⟩

namespace Alike

variable {tree other : Entry} {place : List String}

theorem none (alike : tree.Alike other) (there : tree.at? place = .none) : other.at? place = .none := by
  simpa [there] using alike place

theorem file (alike : tree.Alike other) {content : Content} (there : tree.at? place = some (.file content)) :
    other.at? place = some (.file content) := by
  have same := alike place
  rw [there] at same
  rcases found : other.at? place with _ | _ | _ | _ <;> simp_all [bare]

theorem link (alike : tree.Alike other) {target : String} (there : tree.at? place = some (.link target)) :
    other.at? place = some (.link target) := by
  have same := alike place
  rw [there] at same
  rcases found : other.at? place with _ | _ | _ | _ <;> simp_all [bare]

theorem directory (alike : tree.Alike other) {entries : List (String × Entry)}
    (there : tree.at? place = some (.directory entries)) :
    ∃ others, other.at? place = some (.directory others) := by
  have same := alike place
  rw [there] at same
  rcases found : other.at? place with _ | _ | _ | _ <;> simp_all [bare]

theorem symm (alike : tree.Alike other) : other.Alike tree := fun place => (alike place).symm

theorem follow (alike : tree.Alike other) (links : Nat) (here steps : List String) :
    other.follow links here steps = tree.follow links here steps := by
  induction links, here, steps using Entry.follow.induct tree with
  | case1 links here => rw [Entry.follow, Entry.follow]
  | case2 links here steps ih => simpa [Entry.follow] using ih
  | case3 links steps up => simp [Entry.follow]
  | case4 links here steps below up ih => simpa [Entry.follow, below, up] using ih
  | case5 links here name steps stay up none => simp [Entry.follow, stay, up, none, alike.none none]
  | case6 links here name steps stay up entries directory ih =>
      obtain ⟨others, directory'⟩ := alike.directory directory
      simpa [Entry.follow, stay, up, directory, directory'] using ih
  | case7 links here name stay up content file => simp [Entry.follow, stay, up, file, alike.file file]
  | case8 links here name steps stay up content file further =>
      simp [Entry.follow, stay, up, file, alike.file file, further]
  | case9 here name steps stay up target link => simp [Entry.follow, stay, up, link, alike.link link]
  | case10 here name steps stay up target link links away =>
      simp [Entry.follow, stay, up, link, alike.link link, away]
  | case11 here name steps stay up target link links near ih =>
      simpa [Entry.follow, stay, up, link, alike.link link, near] using ih

theorem locate (alike : tree.Alike other) (steps : List String) : other.locate steps = tree.locate steps :=
  alike.follow linkLimit [] steps

theorem named?_link (alike : tree.Alike other) {steps : List String} {target : String}
    (named : other.named? steps = some (.link target)) : tree.named? steps = some (.link target) := by
  unfold named? at named ⊢
  cases last : steps.getLast? with
  | none =>
      simp only [last] at named
      have root : other.at? [] = some (.link target) := named
      exact alike.symm.link root
  | some name =>
      rw [last] at named
      dsimp only at named ⊢
      split at named
      · rename_i special
        rw [if_pos special]
        rcases found : other.find steps with fault | entry
        · rw [found] at named
          cases named
        · rw [found] at named
          cases named
          obtain ⟨place, located, there⟩ := find_eq_ok_iff.1 found
          rw [find_eq_ok_iff.2 ⟨place, (alike.locate steps).symm.trans located, alike.symm.link there⟩]
          rfl
      · rename_i plain
        rw [if_neg plain, ← alike.locate]
        rcases located : other.locate steps.dropLast with fault | place
        · rw [located] at named
          cases named
        · rw [located] at named
          exact alike.symm.link named

theorem lists (alike : tree.Alike other) {root : String} {path : FilePath} (lists : tree.Lists root path) :
    other.Lists root path := by
  obtain ⟨place, below, content, located, same, held, rest⟩ := lists
  exact ⟨place, below, content, (alike.locate _).trans located, same, alike.file held, rest⟩

end Alike

theorem listFiles_reordered {tree other : Entry} (differ : tree.NamesDiffer) {root : String}
    (direct : tree.IsDirect root) (reordered : tree.Reordered other) :
    other.listFiles root = tree.listFiles root := by
  obtain ⟨differ', alike⟩ := reordered.keeps differ
  have direct' : other.IsDirect root := fun target named => direct target (alike.named?_link named)
  refine (listFiles_ascending differ' root).eq_of_mem_iff (listFiles_ascending differ root) fun path => ?_
  rw [mem_listFiles differ' direct', mem_listFiles differ direct]
  exact ⟨alike.symm.lists, alike.lists⟩

/-! ## Several roots -/

theorem mem_listRoots {tree : Entry} {roots : List String} {path : FilePath} :
    path ∈ tree.listRoots roots ↔ ∃ root ∈ roots, path ∈ tree.listFiles root := by
  simp [listRoots, mem_firsts]

theorem listRoots_append (tree : Entry) (roots others : List String) :
    tree.listRoots (roots ++ others) =
      tree.listRoots roots ++ (tree.listRoots others).filter (· ∉ tree.listRoots roots) := by
  rw [listRoots, List.flatMap_append, firsts_append, List.append_nil,
    firsts_eq_filter (roots.flatMap tree.listFiles), listRoots, listRoots]
  congr 1
  refine List.filter_congr fun path _ => ?_
  simp [mem_firsts]

theorem listRoots_single {tree : Entry} (differ : tree.NamesDiffer) (root : String) :
    tree.listRoots [root] = tree.listFiles root := by
  have nodup : (tree.listFiles root).Nodup := (listFiles_ascending differ root).imp ne_of_lt
  rw [listRoots, List.flatMap_singleton, firsts_of_nodup nodup (fun _ _ => List.not_mem_nil)]

/-! ## Discovery -/

structure Listing (tree : Entry) (root : String) (files : List FilePath) : Prop where
  ascending : files.Pairwise (· < ·)
  whole : ∀ path, path ∈ files ↔ tree.Lists root path
  reordered : ∀ other, tree.Reordered other → other.listFiles root = files

/-- What some files are to several roots: each once, where the first root that lists it has it. -/
structure JointListing (tree : Entry) (roots : List String) (files : List FilePath) : Prop where
  nodup : files.Nodup
  whole : ∀ path, path ∈ files ↔ ∃ root ∈ roots, path ∈ tree.listFiles root
  placed : ∀ earlier root later, roots = earlier ++ root :: later →
    tree.listRoots earlier ++ (tree.listFiles root).filter (· ∉ tree.listRoots earlier) <+: files
  absorbs : ∀ root, (∀ path ∈ tree.listFiles root, path ∈ files) → tree.listRoots (roots ++ [root]) = files

theorem discovery {tree : Entry} (differ : tree.NamesDiffer) :
    (∀ root, tree.IsDirect root → tree.Listing root (tree.listFiles root)) ∧
    (∀ root, tree.exists? (Path.steps root) = false → tree.listFiles root = []) ∧
    ∀ roots, tree.JointListing roots (tree.listRoots roots) := by
  refine ⟨fun root direct => ?_, fun root => listFiles_of_missing, fun roots => ?_⟩
  · exact ⟨listFiles_ascending differ root, mem_listFiles differ direct,
      fun other reordered => listFiles_reordered differ direct reordered⟩
  · refine ⟨firsts_nodup _ _, fun path => mem_listRoots, ?_, ?_⟩
    · rintro earlier root later rfl
      rw [← List.singleton_append, ← List.append_assoc, listRoots_append tree (earlier ++ [root]),
        listRoots_append, listRoots_single differ]
      exact List.prefix_append _ _
    · intro root listed
      rw [listRoots_append, listRoots_single differ, List.filter_eq_nil_iff.2, List.append_nil]
      intro path member
      simp [listed path member]

def views : List (String × Entry) :=
  [("a-b.php", .file (.bytes [])), ("notes.txt", .file (.bytes [])),
    ("a", .directory [("b.blade.php", .file (.bytes []))]), (".git", .directory [("c.php", .file (.bytes []))]),
    ("d.php", .link "a-b.php")]

def pages : Entry := .directory [("views", .directory views)]

theorem discovery_pages :
    pages.NamesDiffer ∧ pages.IsDirect "views" ∧
      pages.Listing "views" [["views", "a", "b.blade.php"], ["views", "a-b.php"]] ∧
      pages.JointListing ["views/a", "views"] [["views", "a", "b.blade.php"], ["views", "a-b.php"]] := by
  have differ : pages.NamesDiffer := by simp [pages, views, NamesDiffer, NamesDifferIn]
  have outer : Path.steps "views" = ["views"] := by decide +kernel
  have inner : Path.steps "views/a" = ["views", "a"] := by decide +kernel
  have direct : pages.IsDirect "views" := by
    simp [IsDirect, outer, named?, locate, follow, pages, at?, entries]
  have listed : pages.listFiles "views" = [["views", "a", "b.blade.php"], ["views", "a-b.php"]] := by
    have found : pages.find ["views"] = .ok (.directory views) := by
      simp [find_eq, locate, linkLimit, follow, pages, at?, entries, Except.bind]
    simp only [listFiles, outer, found]
    exact mergeSort_inOrder (.swap ..) (by decide)
  have below : pages.listFiles "views/a" = [["views", "a", "b.blade.php"]] := by
    have held : views.lookup "a" = some (.directory [("b.blade.php", .file (.bytes []))]) := rfl
    have found : pages.find ["views", "a"] = .ok (.directory [("b.blade.php", .file (.bytes []))]) := by
      simp [find_eq, locate, linkLimit, follow, pages, at?, entries, held, Except.bind]
    simp only [listFiles, inner, found]
    exact mergeSort_inOrder (.refl _) (by decide)
  obtain ⟨one, -, joint⟩ := discovery differ
  refine ⟨differ, direct, listed ▸ one "views" direct, ?_⟩
  have together : pages.listRoots ["views/a", "views"] =
      [["views", "a", "b.blade.php"], ["views", "a-b.php"]] := by
    simp only [listRoots, List.flatMap_cons, List.flatMap_nil, listed, below]
    decide
  exact together ▸ joint ["views/a", "views"]

end Entry

end Phrasebook
