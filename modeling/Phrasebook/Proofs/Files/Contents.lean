import Phrasebook.Files.Discovery

namespace Phrasebook

namespace Entry

mutual

def mapFiles (f : List String → Content → Content) (place : List String) : Entry → Entry
  | .file content => .file (f place content)
  | .link target => .link target
  | .directory entries => .directory (mapFilesIn f place entries)

def mapFilesIn (f : List String → Content → Content) (place : List String) :
    List (String × Entry) → List (String × Entry)
  | [] => []
  | (name, entry) :: entries => (name, mapFiles f (place ++ [name]) entry) :: mapFilesIn f place entries

end

variable {f : List String → Content → Content}

theorem entries_mapFiles (place : List String) (entry : Entry) :
    (entry.mapFiles f place).entries = mapFilesIn f place entry.entries := by
  cases entry <;> simp [mapFiles, entries, mapFilesIn]

theorem lookup_mapFilesIn (place : List String) (name : String) (entries : List (String × Entry)) :
    (mapFilesIn f place entries).lookup name = (entries.lookup name).map (mapFiles f (place ++ [name])) := by
  induction entries with
  | nil => rfl
  | cons first entries ih =>
      obtain ⟨head, entry⟩ := first
      rw [mapFilesIn, List.lookup_cons, List.lookup_cons]
      by_cases same : name = head
      · subst same
        simp
      · rw [beq_false_of_ne same]
        exact ih

theorem at?_mapFiles (place steps : List String) (root : Entry) :
    (root.mapFiles f place).at? steps = (root.at? steps).map (mapFiles f (place ++ steps)) := by
  induction steps generalizing root place with
  | nil => simp [at?]
  | cons name steps ih =>
      rw [at?, at?, entries_mapFiles, lookup_mapFilesIn]
      cases root.entries.lookup name with
      | none => rfl
      | some entry => simpa using ih (place ++ [name]) entry

theorem follow_mapFiles (root : Entry) (links : Nat) (here steps : List String) :
    (root.mapFiles f []).follow links here steps = root.follow links here steps := by
  have seen (place : List String) := at?_mapFiles (f := f) [] place root
  induction links, here, steps using follow.induct root with
  | case1 links here => rw [follow, follow]
  | case2 links here steps ih => simpa [follow] using ih
  | case3 links steps up => simp [follow]
  | case4 links here steps below up ih => simpa [follow, below] using ih
  | case5 links here name steps stay up none => simp [follow, stay, up, seen, none]
  | case6 links here name steps stay up entries directory ih =>
      simpa [follow, stay, up, seen, directory, mapFiles] using ih
  | case7 links here name stay up content file => simp [follow, stay, up, seen, file, mapFiles]
  | case8 links here name steps stay up content file further =>
      simp [follow, stay, up, seen, file, mapFiles, further]
  | case9 here name steps stay up target link => simp [follow, stay, up, seen, link, mapFiles]
  | case10 here name steps stay up target link links away =>
      simp [follow, stay, up, seen, link, mapFiles, away]
  | case11 here name steps stay up target link links near ih =>
      simpa [follow, stay, up, seen, link, mapFiles, near] using ih

theorem locate_mapFiles (root : Entry) (steps : List String) :
    (root.mapFiles f []).locate steps = root.locate steps := follow_mapFiles root linkLimit [] steps

theorem find_mapFiles (root : Entry) (steps : List String) :
    (root.mapFiles f []).find steps =
      (root.locate steps).bind fun place => (root.find steps).map (mapFiles f place) := by
  simp only [find, locate_mapFiles, bind]
  rcases root.locate steps with fault | place
  · rfl
  · simp only [Except.bind, at?_mapFiles, List.nil_append]
    cases root.at? place <;> rfl

theorem read_mapFiles (root : Entry) (steps : List String) :
    (root.mapFiles f []).read steps =
      (root.locate steps).bind fun place => (root.read steps).map (f place) := by
  simp only [read, find_mapFiles, bind]
  rcases root.locate steps with fault | place
  · rfl
  · rcases root.find steps with fault | _ | _ | _ <;> rfl

theorem named?_mapFiles (root : Entry) (steps : List String) :
    ∃ place, (root.mapFiles f []).named? steps = (root.named? steps).map (mapFiles f place) := by
  unfold named?
  cases steps.getLast? with
  | none => exact ⟨[], rfl⟩
  | some name =>
      dsimp only
      split
      · rw [find_mapFiles]
        rcases located : root.locate steps with fault | place
        · exact ⟨[], by simp [find, located, bind, Except.bind, Except.toOption]⟩
        · exact ⟨place, by cases root.find steps <;> rfl⟩
      · rw [locate_mapFiles]
        rcases root.locate steps.dropLast with fault | place
        · exact ⟨[], rfl⟩
        · exact ⟨place ++ [name], at?_mapFiles [] _ root⟩

mutual

theorem files_mapFiles (place : List String) (path : FilePath) :
    ∀ entry : Entry, files path (entry.mapFiles f place) = files path entry
  | .file _ => by simp only [mapFiles, files]
  | .link _ => by simp only [mapFiles, files]
  | .directory entries => by simp only [mapFiles, files, filesIn_mapFilesIn place path entries]

theorem filesIn_mapFilesIn (place : List String) (path : FilePath) :
    ∀ entries : List (String × Entry), filesIn path (mapFilesIn f place entries) = filesIn path entries
  | [] => rfl
  | (name, entry) :: entries => by
    simp only [mapFilesIn, filesIn, files_mapFiles (place ++ [name]) (path ++ [name]) entry,
      filesIn_mapFilesIn place path entries]

end

theorem listFiles_mapFiles (root : Entry) (top : String) :
    (root.mapFiles f []).listFiles top = root.listFiles top := by
  obtain ⟨place', named⟩ := named?_mapFiles (f := f) root (Path.steps top)
  simp only [listFiles, find_mapFiles, named]
  rcases located : root.locate (Path.steps top) with fault | place
  · simp [find, located, bind, Except.bind]
  · rcases root.find (Path.steps top) with fault | content | target | entries
    · rfl
    · rcases root.named? (Path.steps top) with _ | _ | _ | _ <;>
        simp [Except.bind, Except.map, mapFiles, files]
    · rfl
    · simp [Except.bind, Except.map, mapFiles, filesIn_mapFilesIn]

theorem listRoots_mapFiles (root : Entry) (tops : List String) :
    (root.mapFiles f []).listRoots tops = root.listRoots tops := by
  rw [listRoots, listRoots, funext (listFiles_mapFiles (f := f) root)]

end Entry

end Phrasebook
