import Phrasebook.Proofs.Template.Tags

namespace Phrasebook.Template

inductive Region
  | plain (text : List Char) (inert : text.all isInert = true)
  /-- A name behind a word, whatever the name means elsewhere. -/
  | address (word name : List Char) (some : word ≠ []) (isWord : word.all isWordChar = true)
      (names : name.all isAsciiWordChar = true)
  | doubled (name : List Char) (names : name.all isAsciiWordChar = true)
  | unknown (name : String) (list : Option (List Char)) (isName : isDirectiveName name = true)
      (isUnknown : takesArguments name = false) (inert : (list.getD []).all isInert = true)
  | verbatim (body : List Char) (whole : ¬ "@endverbatim".toList <:+: body)
      (apart : body.head?.any isAsciiWordChar = false)
  | braces (content : List Char) (inert : content.all isInert = true)

namespace Region

def listSource (list : Option (List Char)) : List Char := (list.map fun code => '(' :: (code ++ [')'])).getD []

def source : Region → List Char
  | plain text _ => text
  | address word name _ _ _ => word ++ '@' :: name
  | doubled name _ => "@@".toList ++ name
  | unknown name list _ _ _ => '@' :: name.toList ++ listSource list
  | verbatim body _ _ => "@verbatim".toList ++ body ++ "@endverbatim".toList
  | braces content _ => "@\x7b\x7b".toList ++ (content ++ "\x7d\x7d".toList)

def rendering : Region → List Char
  | doubled name _ => '@' :: name
  | verbatim body _ _ => body
  | braces content _ => "\x7b\x7b".toList ++ (content ++ "\x7d\x7d".toList)
  | region => region.source

end Region

section Steps

variable {previous : Option Char} {loops : Loops} {text : List Char}

theorem step_glued (glued : previous.any isWordChar = true) (noBrace : text.head? ≠ some '\x7b') :
    step previous loops ('@' :: text) = .copy ['@'] loops := by
  have noBraces : begins "\x7b\x7b".toList text = false := by
    cases text with
    | nil => rfl
    | cons c text => exact begins_cons_of_ne fun same => noBrace (by rw [← same]; rfl)
  exact (step_at noBraces).trans (if_pos glued)

theorem step_doubled (apart : previous.any isWordChar = false) :
    step previous loops ("@@".toList ++ text) = .taking 2 "@".toList loops :=
  (@step_at _ _ ('@' :: text) rfl).trans (if_neg (Bool.eq_false_iff.1 apart))

theorem step_unknown {name : String} (isName : isDirectiveName name = true) (isUnknown : takesArguments name = false)
    (apart : previous.any isWordChar = false) (ends : text.head?.any isAsciiWordChar = false) :
    step previous loops ('@' :: (name.toList ++ text)) = .copy ('@' :: name.toList) loops := by
  rw [step_name isName apart ends]
  simp only [directive?_eq_none isUnknown]
  split <;> rfl

end Steps

section Passing

variable {previous : Option Char} {loops : Loops} {text name rest : List Char}

theorem compileFrom_blank (ends : ∀ c ∈ rest.head?, c = ' ') :
    compileFrom previous loops rest = compileFrom none loops rest := by
  cases rest with
  | nil => rw [compileFrom, compileFrom]
  | cons c rest =>
      rw [ends c rfl]
      have copied (previous : Option Char) : compileFrom previous loops ([' '] ++ rest) = _ := compileFrom_inert rfl
      exact (copied previous).trans (copied none).symm

theorem compileFrom_inert_blank (inert : text.all isInert = true) (ends : ∀ c ∈ rest.head?, c = ' ') :
    compileFrom previous loops (text ++ rest) = text ++ compileFrom none loops rest := by
  rw [compileFrom_inert inert, compileFrom_blank ends]

theorem head?_append {p : Char → Bool} (all : text.all p = true) (ends : ∀ c ∈ rest.head?, c = ' ') :
    ∀ c ∈ (text ++ rest).head?, p c = true ∨ c = ' ' := by
  cases text with
  | nil => exact fun c here => .inr (ends c here)
  | cons d text =>
      rintro c ⟨⟩
      rw [List.all_cons, Bool.and_eq_true] at all
      exact .inl all.1

theorem isInert_names (names : name.all isAsciiWordChar = true) : name.all isInert = true :=
  all_isInert (by decide) names

theorem compileFrom_address {word : List Char} (some : word ≠ []) (isWord : word.all isWordChar = true)
    (names : name.all isAsciiWordChar = true) (ends : ∀ c ∈ rest.head?, c = ' ') :
    compileFrom previous loops (word ++ '@' :: name ++ rest) = word ++ '@' :: name ++ compileFrom none loops rest := by
  have glued : (lastOf previous word).any isWordChar = true := by
    rw [lastOf, List.getLast?_eq_some_getLast some, Option.some_or, Option.any_some]
    exact List.all_eq_true.1 isWord _ (List.getLast_mem some)
  have noBrace : (name ++ rest).head? ≠ Option.some '\x7b' := by
    intro here
    rcases head?_append names ends _ here with letter | blank
    · exact absurd letter (by decide)
    · exact absurd blank (by decide)
  have sign : compileFrom (lastOf previous word) loops (['@'] ++ (name ++ rest)) = _ :=
    compileFrom_taking (List.cons_ne_nil _ _) (step_glued glued noBrace)
  rw [List.append_assoc, compileFrom_inert (all_isInert (by decide +kernel) isWord), List.append_assoc]
  refine congrArg (word ++ ·) (sign.trans ?_)
  rw [compileFrom_inert_blank (isInert_names names) ends]
  rfl

theorem compileFrom_doubled (apart : previous.any isWordChar = false) (names : name.all isAsciiWordChar = true)
    (ends : ∀ c ∈ rest.head?, c = ' ') :
    compileFrom previous loops ("@@".toList ++ name ++ rest) = '@' :: name ++ compileFrom none loops rest := by
  have sign : compileFrom previous loops ("@@".toList ++ (name ++ rest)) = _ :=
    compileFrom_taking (List.cons_ne_nil _ _) (step_doubled apart)
  rw [List.append_assoc, sign, compileFrom_inert_blank (isInert_names names) ends]
  rfl

theorem compileFrom_unknown {name : String} {list : Option (List Char)} (apart : previous.any isWordChar = false)
    (isName : isDirectiveName name = true) (isUnknown : takesArguments name = false)
    (inert : (list.getD []).all isInert = true) (ends : ∀ c ∈ rest.head?, c = ' ') :
    compileFrom previous loops ('@' :: name.toList ++ Region.listSource list ++ rest) =
      '@' :: name.toList ++ Region.listSource list ++ compileFrom none loops rest := by
  have inertList : (Region.listSource list).all isInert = true := by
    cases list with
    | none => rfl
    | some code =>
        have inner : code.all isInert = true := inert
        simp only [Region.listSource, Option.map_some, Option.getD_some, List.all_cons, List.all_append, inner]
        rfl
  have behind : (Region.listSource list ++ rest).head?.any isAsciiWordChar = false := by
    cases list with
    | some code => rfl
    | none =>
        cases rest with
        | nil => rfl
        | cons c rest => rw [ends c rfl]; rfl
  -- The name is copied in one step, its list as plain text behind it.
  have copied : step previous loops ('@' :: name.toList ++ (Region.listSource list ++ rest)) =
      .copy ('@' :: name.toList) loops := step_unknown isName isUnknown apart behind
  rw [List.append_assoc, compileFrom_taking (List.cons_ne_nil _ _) copied, compileFrom_inert_blank inertList ends,
    List.append_assoc]

theorem compileFrom_verbatim {body : List Char} (apart : previous.any isWordChar = false)
    (whole : ¬ "@endverbatim".toList <:+: body) (noName : body.head?.any isAsciiWordChar = false)
    (ends : ∀ c ∈ rest.head?, c = ' ') :
    compileFrom previous loops ("@verbatim".toList ++ body ++ "@endverbatim".toList ++ rest) =
      body ++ compileFrom none loops rest := by
  have closed : find? "@endverbatim".toList (body ++ ("@endverbatim".toList ++ rest)) = some body.length :=
    find?_of_unbordered rest (by decide) whole
  have noName : (body ++ ("@endverbatim".toList ++ rest)).head?.any isAsciiWordChar = false := by
    cases body with
    | nil => rfl
    | cons c body => exact noName
  have taken : step previous loops ("@verbatim".toList ++ body ++ "@endverbatim".toList ++ rest) =
      .taking ("@verbatim".toList ++ body ++ "@endverbatim".toList).length body loops := by
    have step := @step_verbatim _ loops _ apart noName
    simp only [← List.append_assoc] at step
    rw [step, block_source rest closed, List.nil_append, List.append_nil]
  rw [compileFrom_taking (by simp) taken, compileFrom_blank ends]

theorem compileFrom_braces {content : List Char} (inert : content.all isInert = true)
    (ends : ∀ c ∈ rest.head?, c = ' ') :
    compileFrom previous loops ("@\x7b\x7b".toList ++ (content ++ "\x7d\x7d".toList) ++ rest) =
      "\x7b\x7b".toList ++ (content ++ "\x7d\x7d".toList) ++ compileFrom none loops rest := by
  have taken : compileFrom previous loops ("@\x7b\x7b".toList ++ (content ++ "\x7d\x7d".toList ++ rest)) =
      "\x7b\x7b".toList ++ compileFrom "@\x7b\x7b".toList.getLast? loops (content ++ "\x7d\x7d".toList ++ rest) :=
    compileFrom_taking (List.cons_ne_nil _ _) rfl
  have inertBraces : (content ++ "\x7d\x7d".toList).all isInert = true := by
    rw [List.all_append, inert]
    rfl
  rw [List.append_assoc, taken, compileFrom_inert_blank inertBraces ends]
  simp only [List.append_assoc]

end Passing

theorem Region.compileFrom_source (region : Region) (loops : Loops) {rest : List Char}
    (ends : ∀ c ∈ rest.head?, c = ' ') :
    compileFrom none loops (region.source ++ rest) = region.rendering ++ compileFrom none loops rest := by
  cases region with
  | plain text inert => exact compileFrom_inert_blank inert ends
  | address word name some isWord names => exact compileFrom_address some isWord names ends
  | doubled name names => exact compileFrom_doubled rfl names ends
  | unknown name list isName isUnknown inert => exact compileFrom_unknown rfl isName isUnknown inert ends
  | verbatim body whole apart => exact compileFrom_verbatim rfl whole apart ends
  | braces content inert => exact compileFrom_braces inert ends

/-- A template of regions with single blanks between them is compiled to what they stand for. -/
theorem compile_regions (regions : List Region) :
    compile (String.ofList ([' '].intercalate (regions.map (·.source)))) =
      String.ofList ([' '].intercalate (regions.map (·.rendering))) := by
  have passed (first : Region) (others : List Region) :
      compileFrom none .none ([' '].intercalate ((first :: others).map (·.source))) =
        [' '].intercalate ((first :: others).map (·.rendering)) := by
    induction others generalizing first with
    | nil =>
        have alone := @Region.compileFrom_source first .none [] nofun
        rw [List.append_nil, compileFrom, List.append_nil] at alone
        simpa using alone
    | cons second others ih =>
        have blank : compileFrom none .none ([' '] ++ [' '].intercalate ((second :: others).map (·.source))) =
            [' '] ++ compileFrom (some ' ') .none ([' '].intercalate ((second :: others).map (·.source))) :=
          compileFrom_inert rfl
        rw [compileFrom_some (by decide +kernel), ih] at blank
        simp only [List.map_cons, List.intercalate_cons_cons, List.append_assoc] at blank ⊢
        rw [first.compileFrom_source .none (by simp), blank]
  rw [compile, String.toList_ofList]
  cases regions with
  | nil => rw [List.map_nil, List.map_nil, List.intercalate_nil, compileFrom]
  | cons first others => rw [passed]

example : [' '].intercalate ([Region.address "me".toList "endif".toList (by decide) (by decide +kernel) (by decide),
      .doubled "if".toList (by decide), .unknown "media" (some "print".toList) (by decide) (by decide) (by decide),
      .verbatim "\x7b\x7b $a \x7d\x7d @if".toList (by decide) (by decide),
      .braces " b ".toList (by decide)].map (·.source)) =
    "me@endif @@if @media(print) @verbatim\x7b\x7b $a \x7d\x7d @if@endverbatim @\x7b\x7b b \x7d\x7d".toList ∧
    compile "me@endif @@if @media(print) @verbatim\x7b\x7b $a \x7d\x7d @if@endverbatim @\x7b\x7b b \x7d\x7d" =
      "me@endif @if @media(print) \x7b\x7b $a \x7d\x7d @if \x7b\x7b b \x7d\x7d" := by
  decide +kernel

end Phrasebook.Template
