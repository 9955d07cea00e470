import Phrasebook.Source.Kind

namespace Phrasebook

structure TranslationFunction where
  name : String
  argument : Nat
  kind : SourceKind
  deriving DecidableEq, Repr

def firstRepeated? (seen : List String) : List String → Option String
  | [] => none
  | name :: names => if name ∈ seen then some name else firstRepeated? (name :: seen) names

theorem nodup_of_firstRepeated?_eq_none {seen names : List String}
    (h : firstRepeated? seen names = none) : names.Nodup ∧ ∀ name ∈ names, name ∉ seen := by
  induction names generalizing seen with
  | nil => simp
  | cons name names ih =>
    unfold firstRepeated? at h
    split at h
    · cases h
    · next fresh =>
      obtain ⟨nodup, apart⟩ := ih h
      refine ⟨List.nodup_cons.2 ⟨fun mem => apart name mem (List.mem_cons_self ..), nodup⟩, ?_⟩
      intro other mem
      rcases List.mem_cons.1 mem with rfl | mem
      · exact fresh
      · exact fun seenOther => apart other mem (List.mem_cons_of_mem _ seenOther)

structure FunctionTable where
  functions : List TranslationFunction
  nodup : (functions.map (·.name)).Nodup

namespace FunctionTable

def ofList (functions : List TranslationFunction) : Except SettingError FunctionTable :=
  match h : firstRepeated? [] (functions.map (·.name)) with
  | some name => .error (.duplicateFunction name)
  | none => .ok ⟨functions, (nodup_of_firstRepeated?_eq_none h).1⟩

def get? (table : FunctionTable) (name : String) : Option TranslationFunction :=
  table.functions.find? (·.name == name)

def kind? (table : FunctionTable) (name : String) : Option SourceKind :=
  (table.get? name).map (·.kind)

def size (table : FunctionTable) : Nat := table.functions.length

def isEmpty (table : FunctionTable) : Bool := table.functions.isEmpty

def standardFunctions : List TranslationFunction :=
  [⟨"__", 0, .text⟩, ⟨"trans", 0, .grouped⟩, ⟨"trans_choice", 0, .grouped⟩]

def standard : FunctionTable := ⟨standardFunctions, by decide⟩

theorem get?_name {table : FunctionTable} {function : TranslationFunction}
    (mem : function ∈ table.functions) : table.get? function.name = some function := by
  obtain ⟨functions, nodup⟩ := table
  simp only [get?] at *
  induction functions with
  | nil => cases mem
  | cons head tail ih =>
    simp only [List.map_cons, List.nodup_cons] at nodup
    rcases List.mem_cons.1 mem with rfl | mem
    · simp
    · have differ : head.name ≠ function.name := fun same =>
        nodup.1 (same ▸ List.mem_map_of_mem mem)
      simp [differ, ih nodup.2 mem]

end FunctionTable

end Phrasebook
