import Mathlib.Control.Monad.Basic
import Phrasebook.Program

/-!
# Command lines and settings that are rejected

The command line is read, and then the settings, before anything is created or opened. Whatever is wrong with either
leaves the workspace as it was.
-/

namespace Phrasebook

namespace CommandLine

variable {specs : List OptionSpec} {rest rest' : List String} {halt : Halt}

/-! ## Reading one argument -/

def AsksHelp (text : String) : Prop := text = "--help" ∨ ∃ more, text.toList = '-' :: 'h' :: more

def LeftBy (texts rest : List String) : Prop := rest = texts ∨ ∃ value, texts = value :: rest ∧ isValue value = true

theorem takeValue_error {arity : Arity} {joined? : Option String}
    (failed : takeValue arity joined? rest = .error halt) : halt = .refused := by
  revert failed
  fun_cases takeValue arity joined? rest <;> rintro ⟨⟩ <;> rfl

theorem takeValue_ok {arity : Arity} {joined? value? : Option String}
    (taken : takeValue arity joined? rest = .ok (value?, rest')) : LeftBy rest rest' := by
  revert taken
  fun_cases takeValue arity joined? rest <;> rintro ⟨⟩
  · exact .inl rfl
  · exact .inr ⟨_, rfl, ‹_›⟩
  · exact .inr ⟨_, rfl, ‹_›⟩
  · exact .inl rfl
  · exact .inl rfl

def ReadsOption (text : String) (rest : List String) : Except Halt (Argument × List String) → Prop
  | .error halt => halt = .help → AsksHelp text
  | .ok (.option _ _, rest') => LeftBy rest rest'
  | .ok (.word _, _) => False

theorem readsOption_takeValue (text long : String) (arity : Arity) (joined? : Option String) :
    ReadsOption text rest
      ((takeValue arity joined? rest).map fun (value?, rest) => (.option long value?, rest)) := by
  cases taken : takeValue arity joined? rest with
  | error halt =>
      intro help
      cases (takeValue_error taken).symm.trans help
  | ok given => exact takeValue_ok taken

theorem eq_help_of_joinedLong? {name : List Char} (help : name.takeWhile (· != '=') = "help".toList)
    (alone : joinedLong? (name.drop (name.takeWhile (· != '=')).length) = none) : name = "help".toList := by
  have split : name.takeWhile (· != '=') ++ name.dropWhile (· != '=') = name := List.takeWhile_append_dropWhile
  have gone : (name.takeWhile (· != '=') ++ name.dropWhile (· != '=')).drop (name.takeWhile (· != '=')).length =
      name.dropWhile (· != '=') := List.drop_left
  rw [split] at gone
  rw [gone] at alone
  cases behind : name.dropWhile (· != '=') with
  | nil => rw [← split, help, behind, List.append_nil]
  | cons c more =>
      have stop := List.head?_dropWhile_not (· != '=') name
      rw [behind] at stop alone
      have equals : c = '=' := by simpa using stop
      subst equals
      cases alone

theorem readLong_option {text : String} {name : List Char} (spelled : text.toList = '-' :: '-' :: name) :
    ReadsOption text rest (readLong specs name rest) := by
  rw [readLong]
  split
  · exact readsOption_takeValue ..
  · intro help
    split at help
    · rename_i alone
      have same := eq_help_of_joinedLong? alone.1 (by simpa using alone.2)
      refine .inl (String.toList_injective ?_)
      rw [spelled, same]
      rfl
    · cases help

theorem readShort_option {text : String} {name : Char} {joined : List Char}
    (spelled : text.toList = '-' :: name :: joined) :
    ReadsOption text rest (readShort specs name joined rest) := by
  rw [readShort]
  split
  · exact readsOption_takeValue ..
  · intro help
    split at help
    · rename_i same
      exact .inr ⟨joined, by rw [spelled, same]⟩
    · cases help

/-- What reading an argument can give, as long as options may stand there. -/
def ReadsArgument (text : String) (rest : List String) :
    Except Halt (Option (Argument × Bool × List String)) → Prop
  | .error halt => halt = .help → AsksHelp text
  | .ok none => rest = []
  | .ok (some (.word _, _, _)) => True
  | .ok (some (.option _ _, ended, rest')) => ended = false ∧ LeftBy rest rest'

theorem ReadsOption.argument {text : String} {result : Except Halt (Argument × List String)}
    (reads : ReadsOption text rest result) :
    ReadsArgument text rest (result.map fun (argument, rest) => some (argument, false, rest)) := by
  match result, reads with
  | .error _, reads => exact reads
  | .ok (.option _ _, _), reads => exact ⟨rfl, reads⟩

theorem readNext_reads (specs : List OptionSpec) (text : String) (rest : List String) :
    ReadsArgument text rest (readNext specs false (text :: rest)) := by
  unfold readNext
  simp only [Bool.false_eq_true, if_false]
  split
  · split
    · exact rfl
    · trivial
  · rename_i name _ spelled
    exact (readLong_option spelled).argument
  · rename_i name joined _ _ spelled
    exact (readShort_option spelled).argument
  · trivial

/-! ## Taking in what was read -/

theorem bind_error {α β : Type} {x : Except Halt α} {f : α → Except Halt β} (failed : x >>= f = .error halt) :
    x = .error halt ∨ ∃ a, x = .ok a ∧ f a = .error halt := by
  cases x with
  | error other =>
      cases failed
      exact .inl rfl
  | ok a => exact .inr ⟨a, rfl, failed⟩

/-- A failure that does not ask for help. -/
def OnlyRefuses {α : Type} (result : Except Halt α) : Prop := ∀ halt, result = .error halt → halt = .refused

theorem OnlyRefuses.bind {α β : Type} {x : Except Halt α} {f : α → Except Halt β} (first : OnlyRefuses x)
    (second : ∀ a, OnlyRefuses (f a)) : OnlyRefuses (x >>= f) := by
  intro halt failed
  rcases bind_error failed with failed | ⟨a, -, failed⟩
  · exact first halt failed
  · exact second a halt failed

theorem onlyRefuses_pure {α : Type} (a : α) : OnlyRefuses (pure a : Except Halt α) := by rintro _ ⟨⟩

theorem onlyRefuses_setOnce {α : Type} (old : Option α) (value : α) : OnlyRefuses (setOnce old value) := by
  intro halt failed
  unfold setOnce at failed
  split at failed <;> cases failed
  rfl

theorem onlyRefuses_path (value? : Option String) : OnlyRefuses (path value?) := by
  intro halt failed
  unfold path at failed
  split at failed
  · split at failed <;> cases failed
    rfl
  · cases failed
    rfl

theorem onlyRefuses_flag (value? : Option String) : OnlyRefuses (flag value?) := by
  intro halt failed
  unfold flag at failed
  split at failed <;> cases failed
  rfl

theorem onlyRefuses_step (words : Nat) (given : Given) (argument : Argument) :
    OnlyRefuses (given.step words argument) := by
  cases argument with
  | word text =>
      intro halt failed
      unfold Given.step at failed
      dsimp only at failed
      split at failed <;> cases failed
      rfl
  | option long value? =>
      unfold Given.step
      dsimp only
      split
      · exact (onlyRefuses_path _).bind fun _ => (onlyRefuses_setOnce _ _).bind fun _ => onlyRefuses_pure _
      · exact (onlyRefuses_path _).bind fun _ => onlyRefuses_pure _
      · exact (onlyRefuses_flag _).bind fun _ => (onlyRefuses_setOnce _ _).bind fun _ => onlyRefuses_pure _
      · exact (onlyRefuses_flag _).bind fun _ => (onlyRefuses_setOnce _ _).bind fun _ => onlyRefuses_pure _
      · exact (onlyRefuses_setOnce _ _).bind fun _ => onlyRefuses_pure _

/-! ## Flags that cannot be read -/

/-- The texts that give an option a value. -/
inductive Gives (long value : String) : List String → Prop
  | joined : Gives long value ["--" ++ long ++ "=" ++ value]
  | apart (proper : isValue value = true) : Gives long value ["--" ++ long, value]

def flagNames : List String := ["delete", "mark"]

variable {long value : String} {given before after : List String}

theorem readNext_long {text : String} {c : Char} {more : List Char} (spelled : text.toList = '-' :: '-' :: c :: more) :
    readNext specs false (text :: rest) =
      (readLong specs (c :: more) rest).map fun (argument, rest) => some (argument, false, rest) := by
  unfold readNext
  simp only [Bool.false_eq_true, if_false, spelled]

theorem readLong_joined (known : long ∈ flagNames) :
    readLong scanSpecs (long.toList ++ '=' :: value.toList) after = .ok (.option long (some value), after) := by
  simp only [flagNames, List.mem_cons, List.not_mem_nil, or_false] at known
  rcases known with rfl | rfl
  all_goals
    change Except.ok (Argument.option _ (some (String.ofList value.toList)), after) = _
    rw [String.ofList_toList]

theorem readLong_apart (known : long ∈ flagNames) (proper : isValue value = true) :
    readLong scanSpecs long.toList (value :: after) = .ok (.option long (some value), after) := by
  simp only [flagNames, List.mem_cons, List.not_mem_nil, or_false] at known
  rcases known with rfl | rfl
  all_goals
    change (takeValue .possible none (value :: after)).map _ = _
    rw [takeValue, if_pos proper]
    rfl

theorem readNext_flag (known : long ∈ flagNames) (gives : Gives long value given) :
    readNext scanSpecs false (given ++ after) = .ok (some (.option long (some value), false, after)) := by
  obtain ⟨c, more, spelled⟩ : ∃ c more, long.toList = c :: more := by
    simp only [flagNames, List.mem_cons, List.not_mem_nil, or_false] at known
    rcases known with rfl | rfl <;> exact ⟨_, _, rfl⟩
  cases gives with
  | joined =>
      have text : ("--" ++ long ++ "=" ++ value).toList = '-' :: '-' :: c :: (more ++ '=' :: value.toList) := by
        simp [String.toList_append, spelled]
      have read : readLong scanSpecs (long.toList ++ '=' :: value.toList) after = _ := readLong_joined known
      rw [spelled, List.cons_append] at read
      rw [List.cons_append, List.nil_append, readNext_long text, read]
      rfl
  | apart proper =>
      have text : ("--" ++ long).toList = '-' :: '-' :: c :: more := by
        simp [String.toList_append, spelled]
      have read : readLong scanSpecs long.toList (value :: after) = _ := readLong_apart known proper
      rw [spelled] at read
      rw [List.cons_append, List.cons_append, List.nil_append, readNext_long text, read]
      rfl

theorem Gives.not_value (gives : Gives long value given) {text : String} {rest : List String}
    (split : given ++ after = text :: rest) : isValue text = false := by
  have dashed (text : String) : isValue ("--" ++ text) = false := by
    simp [isValue, ← String.toList_inj]
  cases gives with
  | joined =>
      obtain ⟨rfl, -⟩ := List.cons.inj split
      rw [String.append_assoc, String.append_assoc, dashed]
  | apart =>
      obtain ⟨rfl, -⟩ := List.cons.inj split
      exact dashed long

theorem step_flag (known : long ∈ flagNames) (bad : Flag.parse? value = none) (state : Given) :
    state.step 0 (.option long (some value)) = .error .refused := by
  have unread : flag (some value) = .error .refused := by rw [flag, Option.getD_some, bad]
  simp only [flagNames, List.mem_cons, List.not_mem_nil, or_false] at known
  rcases known with rfl | rfl <;> simp [Given.step, unread, bind, Except.bind]

theorem readAll_flag (known : long ∈ flagNames) (bad : Flag.parse? value = none) (gives : Gives long value given)
    (noHelp : ∀ text ∈ before, ¬ AsksHelp text) (state : Given) {bound : Nat}
    (enough : (before ++ (given ++ after)).length < bound) :
    readAll scanSpecs (Given.step 0) state false (before ++ (given ++ after)) bound = .error .refused := by
  induction bound generalizing before state with
  | zero => omega
  | succ bound ih =>
      rw [readAll]
      cases before with
      | nil => simp [readNext_flag known gives, step_flag known bad, bind, Except.bind]
      | cons text before =>
          obtain ⟨here, later⟩ := List.forall_mem_cons.1 noHelp
          have reads := readNext_reads scanSpecs text (before ++ (given ++ after))
          rw [List.cons_append, List.length_cons] at enough
          rw [List.cons_append]
          generalize readNext scanSpecs false (text :: (before ++ (given ++ after))) = result at reads ⊢
          rcases result with halt | _ | ⟨argument, ended, rest⟩
          · cases halt with
            | refused => rfl
            | help => exact absurd (reads rfl) here
          · cases gives <;> simp [ReadsArgument] at reads
          · cases argument with
            | word word => rfl
            | option other value? =>
                obtain ⟨rfl, left⟩ := reads
                change (state.step 0 (.option other value?) >>= fun state =>
                  readAll scanSpecs (Given.step 0) state false rest bound) = _
                cases stepped : state.step 0 (.option other value?) with
                | error halt => rw [onlyRefuses_step 0 state _ halt stepped]; rfl
                | ok next =>
                    -- The text that the option may have taken is not the flag.
                    rcases left with rfl | ⟨taken, split, proper⟩
                    · exact ih later next (by omega)
                    · cases before with
                      | nil =>
                          rw [gives.not_value split] at proper
                          cases proper
                      | cons first before =>
                          obtain ⟨rfl, rfl⟩ := List.cons.inj split
                          rw [List.cons_append, List.length_cons] at enough
                          exact ih (List.forall_mem_cons.1 later).2 next (by omega)

/-- What follows the options that some arguments begin with. -/
inductive Behind (specs : List OptionSpec) : List String → List String → Prop
  | here (arguments : List String) : Behind specs arguments arguments
  | option {arguments rest final : List String} {long : String} {value? : Option String} {ended : Bool}
    (read : readNext specs false arguments = .ok (some (.option long value?, ended, rest)))
    (behind : Behind specs rest final) : Behind specs arguments final

theorem length_readNext {arguments : List String} {long : String} {value? : Option String} {ended : Bool}
    (read : readNext specs false arguments = .ok (some (.option long value?, ended, rest))) :
    rest.length < arguments.length := by
  cases arguments with
  | nil => cases read
  | cons text texts =>
      have reads := readNext_reads specs text texts
      rw [read] at reads
      obtain ⟨-, rfl | ⟨_, rfl, -⟩⟩ := reads <;> simp only [List.length_cons] <;> omega

theorem onlyRefuses_project (project? value? : Option String) :
    OnlyRefuses (path value? >>= setOnce project?) :=
  (onlyRefuses_path value?).bind fun _ => onlyRefuses_setOnce project? _

theorem parse_flag (known : long ∈ flagNames) (bad : Flag.parse? value = none) (gives : Gives long value given)
    (noHelp : ∀ text ∈ before, ¬ AsksHelp text) {arguments : List String}
    (behind : Behind [projectSpec] arguments ("parse" :: (before ++ (given ++ after)))) :
    parse arguments = .error .refused := by
  have scan : readCommand "parse" (before ++ (given ++ after)) = .error .refused := by
    rw [readCommand, readGiven, readAll_flag known bad gives noHelp _ (Nat.lt_succ_self _)]
    rfl
  suffices refused : ∀ bound project?, arguments.length < bound →
      readLine project? arguments bound = .error .refused from refused _ _ (Nat.lt_succ_self _)
  generalize followed : "parse" :: (before ++ (given ++ after)) = final at behind
  intro bound
  induction behind generalizing bound with
  | here arguments =>
      subst followed
      intro project? enough
      cases bound with
      | zero => omega
      | succ bound =>
          have word : readNext [projectSpec] false ("parse" :: (before ++ (given ++ after))) =
              .ok (some (.word "parse", false, before ++ (given ++ after))) := rfl
          rw [readLine, word]
          change (readCommand "parse" (before ++ (given ++ after)) >>= _) = _
          rw [scan]
          rfl
  | option read behind ih =>
      intro project? enough
      cases bound with
      | zero => omega
      | succ bound =>
          rename_i value? _
          have shorter := length_readNext read
          rw [readLine, read]
          change (path value? >>= fun value => setOnce project? value >>= fun next =>
            readLine next _ bound) = _
          rw [← bind_assoc]
          cases set : path value? >>= setOnce project? with
          | error halt => rw [onlyRefuses_project project? value? halt set]; rfl
          | ok next => exact ih followed bound next (by omega)

end CommandLine

namespace Workspace

open CommandLine

variable {workspace : Workspace} {arguments : List String} {environment : Environment} {now : Instant}

/-! ## Runs -/

theorem run_of_refused (refused : parse arguments = .error .refused) :
    workspace.run arguments environment now = (workspace, .refused) := by
  rw [run, refused]

theorem carryOut_of_settings {project : String} {cause : SettingError}
    (failed : workspace.settings project environment = .error cause) (command : Command) :
    workspace.carryOut project environment now command =
      (workspace, .error (.settings (Path.join project Settings.path) cause)) := by
  have stopped {α : Type} (action : Settings → Workspace → Catalogue → Catalogue × α) :
      workspace.withCatalogue project environment action =
        (workspace, .error (.settings (Path.join project Settings.path) cause)) := by
    rw [withCatalogue, failed]
  cases command with
  | scan roots delete? mark? => rw [carryOut, scan, stopped]; rfl
  | tables => rw [carryOut, stopped]
  | load locale group scope? => simp only [carryOut, stopped]

theorem exit_run_eq_two : (workspace.run arguments environment now).2.exit = 2 ↔
    parse arguments = .error .refused := by
  constructor
  · intro two
    unfold run at two
    split at two
    · assumption
    · cases two
    · dsimp only at two
      split at two <;> cases two
  · intro refused
    rw [run_of_refused refused]
    rfl

/-- A command line that is refused, and only such a one, ends with exit code 2; settings that cannot be loaded end
with exit code 1. Either way the workspace is what it was. Refused are in particular flags of a scan that cannot be
read, however they are written and whatever stands before and after them. -/
theorem run_rejected (workspace : Workspace) (arguments : List String) (environment : Environment) (now : Instant) :
    ((workspace.run arguments environment now).2.exit = 2 ↔ parse arguments = .error .refused) ∧
      (parse arguments = .error .refused →
        workspace.run arguments environment now = (workspace, ⟨2, "", none⟩)) ∧
      (∀ long value given before after, long ∈ flagNames → Flag.parse? value = none → Gives long value given →
        (∀ text ∈ before, ¬ AsksHelp text) →
        Behind [projectSpec] arguments ("parse" :: (before ++ (given ++ after))) →
        parse arguments = .error .refused) ∧
      ∀ invocation cause, parse arguments = .ok invocation →
        workspace.settings (invocation.project?.getD workspace.directory) environment = .error cause →
        workspace.run arguments environment now = (workspace, ⟨1, "", some ("Error: failed to load " ++
          Path.join (invocation.project?.getD workspace.directory) Settings.path)⟩) := by
  refine ⟨exit_run_eq_two, run_of_refused, fun long value given before after known bad gives noHelp behind =>
    parse_flag known bad gives noHelp behind, fun invocation cause accepted failed => ?_⟩
  rw [run, accepted]
  simp only [carryOut_of_settings failed]
  rfl

theorem run_rejected_maybe :
    (⟨"site", .directory []⟩ : Workspace).run ["-p", "site", "parse", "--root", "app", "--delete", "maybe", "--mark"]
        [("TRANSCAT_SOURCE_LOCALE", " ")] ⟨0, 0⟩ = (⟨"site", .directory []⟩, ⟨2, "", none⟩) ∧
      (⟨"site", .directory []⟩ : Workspace).run ["tables"] [("TRANSCAT_SOURCE_LOCALE", " ")] ⟨0, 0⟩ =
        (⟨"site", .directory []⟩, ⟨1, "", some "Error: failed to load site/.transcat/config.toml"⟩) := by
  have flag : parse ["-p", "site", "parse", "--root", "app", "--delete", "maybe", "--mark"] = .error .refused :=
    (run_rejected ⟨"site", .directory []⟩ _ [] ⟨0, 0⟩).2.2.1 "delete" "maybe" ["--delete", "maybe"] ["--root", "app"]
      ["--mark"] (by decide) (by decide) (.apart (by decide)) (by simp [AsksHelp])
      (.option rfl (.here _))
  have nothing : (Entry.directory []).exists? [".transcat", "config.toml"] = false := by
    simp [Entry.exists?, Entry.find, Entry.locate, Entry.follow, Entry.at?, Entry.entries, bind, Except.bind,
      Except.toBool]
  have file : (⟨"site", .directory []⟩ : Workspace).settingsFile "site/.transcat/config.toml" = .absent := by
    have place : (⟨"site", .directory []⟩ : Workspace).steps "site/.transcat/config.toml" =
        .ok [".transcat", "config.toml"] := by
      decide +kernel
    simp only [settingsFile, place, nothing, Bool.false_eq_true, if_false]
  have settings : (⟨"site", .directory []⟩ : Workspace).settings "site" [("TRANSCAT_SOURCE_LOCALE", " ")] =
      .error .emptyLocale := by
    have path : Path.join "site" Settings.path = "site/.transcat/config.toml" := by decide
    rw [Workspace.settings, path, file]
    decide +kernel
  exact ⟨(run_rejected _ _ _ _).2.1 flag, (run_rejected _ _ _ _).2.2.2 ⟨none, .tables⟩ .emptyLocale rfl settings⟩

end Workspace

end Phrasebook
