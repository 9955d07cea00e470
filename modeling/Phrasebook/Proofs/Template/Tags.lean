import Phrasebook.Proofs.Template.Pieces
import Phrasebook.Proofs.Template.Copying

/-!
# The tags of a template

A template seen as plain texts with echoes and directives between them, and how the compiler passes it: it copies
the plain texts and replaces the tags one after the other.
-/

namespace Phrasebook.Template

open Php

/-! ## Plain text -/

theorem isText_of_isPlain {text : List Char} (plain : isPlain text = true) : IsText text := by
  induction text with
  | nil => decide
  | cons c text ih =>
      simp only [isPlain, Bool.and_eq_true, bne_iff_ne, Bool.not_eq_true'] at plain
      obtain ⟨⟨⟨⟨⟨noAt, noEcho⟩, noRaw⟩, noTag⟩, _⟩, others⟩ := plain
      have noOpener : ∀ opener ∈ openers, begins opener (c :: text) = false := by
        have directive : begins "@".toList (c :: text) = false := begins_cons_of_ne (Ne.symm noAt)
        have php : begins "<?php".toList (c :: text) = false := begins_of_shorter noTag
        have short : begins "<?=".toList (c :: text) = false := begins_of_shorter noTag
        simp only [openers, List.forall_mem_cons]
        exact ⟨directive, noEcho, noRaw, php, short, List.forall_mem_nil _⟩
      intro opener opens
      rw [List.infix_cons_iff, not_or]
      exact ⟨begins_eq_false_iff.1 (noOpener opener opens), ih others opener opens⟩

theorem getLast?_of_isPlain {text : List Char} (plain : isPlain text = true) : text.getLast? ≠ some '\x7b' := by
  induction text with
  | nil => nofun
  | cons c text ih =>
      simp only [isPlain, Bool.and_eq_true] at plain
      cases text with
      | nil => simpa using plain.1.2
      | cons d text => simpa [List.getLast?_cons_cons] using ih plain.2

theorem compileFrom_plain {previous : Option Char} {loops : Loops} {text rest : List Char}
    (plain : isPlain text = true) (follows : ∀ d ∈ rest.head?, d = '@' ∨ d = '\x7b') :
    compileFrom previous loops (text ++ rest) = text ++ compileFrom (lastOf previous text) loops rest :=
  compileFrom_text (isText_of_isPlain plain) (not_opensAcross_brace (getLast?_of_isPlain plain) follows)

/-! ## Echoes and directives -/

theorem closing?_append {state : Nesting} {text : List Char} {n : Nat} (rest : List Char)
    (closes : closing? state text = some n) : closing? state (text ++ rest) = some n := by
  fun_induction closing? state text generalizing n with
  | case1 => cases closes
  | case2 state c quoted => cases closes
  | case3 state c quoted d text ih =>
      obtain ⟨m, here, rfl⟩ := Option.map_eq_some_iff.1 closes
      rw [List.cons_append, List.cons_append, closing?.eq_def]
      simp [quoted, ih here]
  | case4 state c text plain next =>
      rw [List.cons_append, closing?.eq_def]
      simpa [plain, next] using closes
  | case5 state c text plain state' next ih =>
      obtain ⟨m, here, rfl⟩ := Option.map_eq_some_iff.1 closes
      rw [List.cons_append, closing?.eq_def]
      simp [plain, next, ih here]

/-- The code in the parentheses of a directive, with the spaces and tabs before them. -/
structure Arguments where
  gap : List Char
  code : List Char
  blanks : gap.all (fun c => c == ' ' || c == '\t') = true
  balanced : closing? ⟨1, none⟩ (code ++ [')']) = some code.length

namespace Arguments

def source (self : Arguments) : List Char := self.gap ++ '(' :: (self.code ++ [')'])

def isBlank (self : Arguments) : Bool := (trimBlanks self.code).isEmpty

theorem arguments?_source (self : Arguments) (rest : List Char) :
    arguments? (self.source ++ rest) = some (self.code, self.source.length) := by
  have list : self.source ++ rest = self.gap ++ '(' :: (self.code ++ [')'] ++ rest) := by simp [source]
  have gap : (self.source ++ rest).takeWhile (fun c => c == ' ' || c == '\t') = self.gap := by
    rw [list]
    exact takeWhile_append_of_head self.blanks rfl
  have closes : matching? ('(' :: (self.code ++ [')'] ++ rest)) = some (self.code.length + 1) := by
    rw [matching?, closing?_append rest self.balanced]
    rfl
  simp only [arguments?, gap]
  rw [list, List.drop_left, closes]
  simp [source, Nat.add_assoc]

end Arguments

inductive Marks
  | escaped
  | tripled
  | raw
  deriving DecidableEq, Repr

namespace Marks

def opener : Marks → List Char
  | escaped => ['\x7b', '\x7b']
  | tripled => ['\x7b', '\x7b', '\x7b']
  | raw => ['\x7b', '!', '!']

def closer : Marks → List Char
  | escaped => ['\x7d', '\x7d']
  | tripled => ['\x7d', '\x7d', '\x7d']
  | raw => ['!', '!', '\x7d']

end Marks

structure Echo where
  marks : Marks
  content : List Char
  closed : find? marks.closer (content ++ marks.closer) = some content.length
  opens : marks = .escaped →
    begins ['\x7b'] (content ++ marks.closer) = false ∧ begins ['-', '-'] (content ++ marks.closer) = false

namespace Echo

def source (self : Echo) : List Char := self.marks.opener ++ self.content ++ self.marks.closer

def isEscaped (self : Echo) : Bool := self.marks ≠ .raw

def code (self : Echo) : List Char := trimBlanks self.content

end Echo

def isDirectiveName (name : String) : Bool :=
  !name.toList.isEmpty && name.toList.all isAsciiWordChar && name != "verbatim" && name != "php"

def takesArguments (name : String) : Bool :=
  (closers.lookup name).isSome || (wrappers.lookup name).isSome || name == "forelse" ||
    argumentDirectives.contains name

inductive Tag
  | echo (this : Echo)
  | directive (name : String) (arguments? : Option Arguments)

namespace Tag

def source : Tag → List Char
  | echo this => this.source
  | directive name arguments? => '@' :: name.toList ++ (arguments?.map Arguments.source).getD []

def output (loops : Loops) : Tag → List Char × Loops
  | echo this => (echoCode this.isEscaped this.code, loops)
  | directive name arguments? =>
    (directive? loops name (arguments?.map Arguments.code) ((arguments?.map Arguments.isBlank).getD true)).getD
      ('@' :: name.toList, loops)

/-- The name of a directive is one, and is not left with its arguments as text. -/
def isKnown : Tag → Bool
  | echo _ => true
  | directive name arguments? => isDirectiveName name && (arguments?.isNone || takesArguments name)

/-- A tag is where it begins if `previous` stands before it and `rest` after it: no word runs into a directive, and
no word or list in parentheses goes on with one that has no arguments. -/
def stands (previous : Option Char) (rest : List Char) : Tag → Bool
  | echo _ => true
  | directive _ (some _) => !previous.any isWordChar
  | directive _ none => !previous.any isWordChar && !rest.head?.any isAsciiWordChar &&
      (rest.dropWhile fun c => c == ' ' || c == '\t').head? != some '('

end Tag

def tagsSource : List (Tag × Plain) → List Char
  | [] => []
  | (tag, text) :: tags => tag.source ++ (text.1 ++ tagsSource tags)

def standApart (previous : Option Char) : List (Tag × Plain) → Bool
  | [] => true
  | (tag, text) :: tags =>
    tag.stands previous (text.1 ++ tagsSource tags) && standApart (lastOf tag.source.getLast? text.1) tags

def outputOf (loops : Loops) : List (Tag × Plain) → List Char
  | [] => []
  | (tag, text) :: tags => (tag.output loops).1 ++ (text.1 ++ outputOf (tag.output loops).2 tags)

/-! ## One step -/

section Steps

variable {previous : Option Char} {loops loops' : Loops} {text rest out : List Char}

theorem echo_source {opener content closer : List Char} (escaped : Bool)
    (closed : find? closer (content ++ closer) = some content.length) :
    Template.echo opener closer escaped loops (opener ++ content ++ closer ++ rest) =
      .taking (opener ++ content ++ closer).length (echoCode escaped (trimBlanks content)) loops := by
  have body : (opener ++ content ++ closer ++ rest).drop opener.length = content ++ closer ++ rest := by
    rw [List.append_assoc, List.append_assoc, List.drop_left, List.append_assoc]
  simp only [Template.echo, body, find?_append rest closed]
  rw [List.append_assoc, List.take_left, List.length_append, List.length_append]

theorem block_source {opener body terminator before after : List Char} (rest : List Char)
    (closed : find? terminator (body ++ (terminator ++ rest)) = some body.length) :
    block terminator before after opener.length loops (opener ++ body ++ terminator ++ rest) =
      .taking (opener ++ body ++ terminator).length (before ++ body ++ after) loops := by
  have inside : (opener ++ body ++ terminator ++ rest).drop opener.length = body ++ (terminator ++ rest) := by
    rw [List.append_assoc, List.append_assoc, List.drop_left]
  simp only [block, inside, closed, List.take_left, List.length_append]

theorem step_braces (noBrace : begins ['\x7b'] text = false) (noComment : begins ['-', '-'] text = false) :
    step previous loops ('\x7b' :: '\x7b' :: text) =
      Template.echo "\x7b\x7b".toList "\x7d\x7d".toList true loops ('\x7b' :: '\x7b' :: text) := by
  have comment : begins "\x7b\x7b--".toList ('\x7b' :: '\x7b' :: text) = false := noComment
  have tripled : begins "\x7b\x7b\x7b".toList ('\x7b' :: '\x7b' :: text) = false := noBrace
  have braces : begins "\x7b\x7b".toList ('\x7b' :: '\x7b' :: text) = true := rfl
  unfold step
  rw [if_neg (by exact of_decide_eq_false rfl), if_neg (by exact Bool.eq_false_iff.1 comment),
    if_neg (by exact Bool.eq_false_iff.1 rfl), if_neg (by exact Bool.eq_false_iff.1 rfl),
    if_neg (by exact Bool.eq_false_iff.1 tripled), if_pos (by exact braces)]

theorem step_echo (echo : Echo) :
    step previous loops (echo.source ++ rest) =
      .taking echo.source.length (echoCode echo.isEscaped echo.code) loops := by
  obtain ⟨marks, content, closed, opens⟩ := echo
  cases marks with
  | raw => exact echo_source false closed
  | tripled => exact echo_source true closed
  | escaped =>
      obtain ⟨noBrace, noComment⟩ := opens rfl
      have room : 2 ≤ (content ++ Marks.escaped.closer).length := by simp [Marks.closer]
      have split : Marks.escaped.opener ++ content ++ Marks.escaped.closer ++ rest =
          '\x7b' :: '\x7b' :: (content ++ Marks.escaped.closer ++ rest) := by
        rw [List.append_assoc, List.append_assoc, ← List.append_assoc content]
        rfl
      have taken := @echo_source loops rest Marks.escaped.opener content Marks.escaped.closer true closed
      have brace : begins ['\x7b'] (content ++ Marks.escaped.closer ++ rest) = _ :=
        begins_append rest (Nat.le_of_succ_le room)
      have dashes : begins ['-', '-'] (content ++ Marks.escaped.closer ++ rest) = _ := begins_append rest room
      rw [Echo.source, split, step_braces (brace.trans noBrace) (dashes.trans noComment), ← split]
      exact taken

theorem drop_length_takeWhile {α : Type} (p : α → Bool) (items : List α) :
    items.drop (items.takeWhile p).length = items.dropWhile p := by
  induction items with
  | nil => rfl
  | cons item items ih => cases here : p item <;> simp [here, ih]

theorem arguments?_none (closed : (rest.dropWhile fun c => c == ' ' || c == '\t').head? ≠ some '(') :
    arguments? rest = none := by
  have list := drop_length_takeWhile (fun c => c == ' ' || c == '\t') rest
  simp only [arguments?, list]
  rw [Option.map_eq_none_iff]
  unfold matching?
  split
  · rename_i tail same
    rw [same] at closed
    exact absurd rfl closed
  · rfl

theorem directive?_isSome {name : String} (takes : takesArguments name = true) (code : List Char) (blank : Bool) :
    (directive? loops name (some code) blank).isSome = true := by
  simp only [takesArguments, Bool.or_eq_true, beq_iff_eq] at takes
  unfold directive?
  split
  · rfl
  · rename_i noCloser
    dsimp only
    split
    · rfl
    · rename_i noWrapper
      rcases takes with ((closer | wrapper) | forelse) | argument
      · rw [noCloser] at closer
        cases closer
      · rw [noWrapper] at wrapper
        cases wrapper
      · rw [if_pos forelse]
        rfl
      · split
        · rfl
        · rfl

theorem directive?_eq_none {name : String} (unknown : takesArguments name = false) (arguments? : Option (List Char))
    (blank : Bool) : directive? loops name arguments? blank = none := by
  simp only [takesArguments, Bool.or_eq_false_iff, Option.isSome_eq_false_iff, Option.isNone_iff_eq_none,
    beq_eq_false_iff_ne] at unknown
  obtain ⟨⟨⟨noCloser, noWrapper⟩, noLoop⟩, noArgument⟩ := unknown
  have noEmpty : name ≠ "empty" := by
    rintro rfl
    exact absurd noWrapper (by decide)
  unfold directive?
  rw [noCloser]
  cases arguments? with
  | none => exact if_neg noEmpty
  | some code =>
      dsimp only
      rw [noWrapper]
      exact (if_neg noLoop).trans (if_neg (Bool.eq_false_iff.1 noArgument))

theorem isAsciiWordChar_ne {c d : Char} (word : isAsciiWordChar c = true) (other : isAsciiWordChar d = false) :
    c ≠ d := by
  rintro rfl
  rw [word] at other
  cases other

theorem Arguments.head_source (self : Arguments) (rest : List Char) :
    (self.source ++ rest).head?.any isAsciiWordChar = false := by
  have blanks := self.blanks
  unfold source
  cases same : self.gap with
  | nil => rfl
  | cons c gap =>
      rw [same, List.all_cons, Bool.and_eq_true, Bool.or_eq_true, beq_iff_eq, beq_iff_eq] at blanks
      rcases blanks.1 with rfl | rfl <;> rfl

theorem step_at (noBraces : begins "\x7b\x7b".toList text = false) :
    step previous loops ('@' :: text) =
      if previous.any isWordChar then .copy ['@'] loops else atSign loops ('@' :: text) := by
  have literal : begins "@\x7b\x7b".toList ('@' :: text) = false := noBraces
  have sign : begins "@".toList ('@' :: text) = true := rfl
  unfold step
  rw [if_neg (by exact of_decide_eq_false rfl), if_neg (by exact Bool.eq_false_iff.1 rfl),
    if_neg (by exact Bool.eq_false_iff.1 literal), if_neg (by exact Bool.eq_false_iff.1 rfl),
    if_neg (by exact Bool.eq_false_iff.1 rfl), if_neg (by exact Bool.eq_false_iff.1 rfl)]
  simp only [sign, true_and, ite_not]
  rfl

theorem step_atSign {c : Char} (begin : isAsciiWordChar c = true) (apart : previous.any isWordChar = false) :
    step previous loops ('@' :: c :: text) = atSign loops ('@' :: c :: text) := by
  have noBraces : begins "\x7b\x7b".toList (c :: text) = false :=
    begins_cons_of_ne (isAsciiWordChar_ne begin rfl).symm
  exact (step_at noBraces).trans (if_neg (Bool.eq_false_iff.1 apart))

theorem step_named {name : String} {tail : List Char} (nonempty : name.toList ≠ [])
    (names : name.toList.all isAsciiWordChar = true)
    (apart : previous.any isWordChar = false) (ends : tail.head?.any isAsciiWordChar = false) :
    step previous loops ('@' :: (name.toList ++ tail)) =
      if name.toList = "verbatim".toList then
        block "@endverbatim".toList [] [] (1 + name.toList.length) loops ('@' :: (name.toList ++ tail))
      else if name.toList = "php".toList ∧ (arguments? tail).isNone then
        block "@endphp".toList "<?php".toList "?>".toList (1 + name.toList.length) loops ('@' :: (name.toList ++ tail))
      else
        match arguments? tail with
        | some (args, count) =>
          match directive? loops name (some args) (trimBlanks args).isEmpty with
          | some (out, loops) => .taking (1 + name.toList.length + count) out loops
          | none => .copy ('@' :: name.toList) loops
        | none =>
          match directive? loops name none true with
          | some (out, loops) => .taking (1 + name.toList.length) out loops
          | none => .copy ('@' :: name.toList) loops := by
  obtain ⟨c, cs, same⟩ := List.exists_cons_of_ne_nil nonempty
  have begin : isAsciiWordChar c = true := by
    rw [same, List.all_cons, Bool.and_eq_true] at names
    exact names.1
  have noEscape : begins "@@".toList ('@' :: (name.toList ++ tail)) = false := by
    have other : c ≠ '@' := isAsciiWordChar_ne begin rfl
    have second : begins ['@'] (c :: (cs ++ tail)) = false := begins_cons_of_ne other.symm
    rw [same]
    exact second
  have read : (name.toList ++ tail).takeWhile isAsciiWordChar = name.toList := takeWhile_append_of_head names ends
  have dropped : ('@' :: (name.toList ++ tail)).drop (1 + name.toList.length) = tail := by
    rw [Nat.add_comm, List.drop_succ_cons, List.drop_left]
  have taken : ('@' :: (name.toList ++ tail)).take (1 + name.toList.length) = '@' :: name.toList := by
    rw [Nat.add_comm, List.take_succ_cons, List.take_left]
  have start : step previous loops ('@' :: (name.toList ++ tail)) = atSign loops ('@' :: (name.toList ++ tail)) := by
    rw [same]
    exact step_atSign begin apart
  rw [start]
  simp only [atSign, List.drop_succ_cons, List.drop_zero, read, dropped, taken, String.ofList_toList]
  exact (if_neg (by rw [noEscape]; simp)).trans (if_neg (by simpa using nonempty))

theorem step_word {name : String} {tail : List Char} (nonempty : name.toList ≠ [])
    (names : name.toList.all isAsciiWordChar = true) (noVerbatim : name ≠ "verbatim")
    (apart : previous.any isWordChar = false) (ends : tail.head?.any isAsciiWordChar = false) :
    step previous loops ('@' :: (name.toList ++ tail)) =
      if name.toList = "php".toList ∧ (arguments? tail).isNone then
        block "@endphp".toList "<?php".toList "?>".toList (1 + name.toList.length) loops ('@' :: (name.toList ++ tail))
      else
        match arguments? tail with
        | some (args, count) =>
          match directive? loops name (some args) (trimBlanks args).isEmpty with
          | some (out, loops) => .taking (1 + name.toList.length + count) out loops
          | none => .copy ('@' :: name.toList) loops
        | none =>
          match directive? loops name none true with
          | some (out, loops) => .taking (1 + name.toList.length) out loops
          | none => .copy ('@' :: name.toList) loops :=
  (step_named nonempty names apart ends).trans (if_neg fun this => noVerbatim (String.toList_injective this))

theorem step_verbatim {tail : List Char} (apart : previous.any isWordChar = false)
    (ends : tail.head?.any isAsciiWordChar = false) :
    step previous loops ("@verbatim".toList ++ tail) =
      block "@endverbatim".toList [] [] "@verbatim".toList.length loops ("@verbatim".toList ++ tail) :=
  (@step_named _ _ "verbatim" tail (by decide) (by decide) apart ends).trans (if_pos rfl)

theorem step_php {tail : List Char} (apart : previous.any isWordChar = false)
    (ends : tail.head?.any isAsciiWordChar = false) (noArguments : arguments? tail = none) :
    step previous loops ("@php".toList ++ tail) =
      block "@endphp".toList "<?php".toList "?>".toList "@php".toList.length loops ("@php".toList ++ tail) :=
  (@step_word _ _ "php" tail (by decide) (by decide) (by decide) apart ends).trans (if_pos ⟨rfl, by rw [noArguments]; rfl⟩)

theorem step_name {name : String} {tail : List Char} (isName : isDirectiveName name = true)
    (apart : previous.any isWordChar = false) (ends : tail.head?.any isAsciiWordChar = false) :
    step previous loops ('@' :: (name.toList ++ tail)) =
      match arguments? tail with
      | some (args, count) =>
        match directive? loops name (some args) (trimBlanks args).isEmpty with
        | some (out, loops) => .taking (1 + name.toList.length + count) out loops
        | none => .copy ('@' :: name.toList) loops
      | none =>
        match directive? loops name none true with
        | some (out, loops) => .taking (1 + name.toList.length) out loops
        | none => .copy ('@' :: name.toList) loops := by
  simp only [isDirectiveName, Bool.and_eq_true, Bool.not_eq_true', bne_iff_ne, ne_eq] at isName
  obtain ⟨⟨⟨nonempty, names⟩, noVerbatim⟩, noPhp⟩ := isName
  rw [step_word (by simpa using nonempty) names noVerbatim apart ends]
  exact if_neg fun both => noPhp (String.toList_injective both.1)

theorem step_directive {name : String} {arguments : Option Arguments}
    (known : (Tag.directive name arguments).isKnown = true)
    (stands : (Tag.directive name arguments).stands previous rest = true) :
    step previous loops ((Tag.directive name arguments).source ++ rest) =
      .taking (Tag.directive name arguments).source.length ((Tag.directive name arguments).output loops).1
        ((Tag.directive name arguments).output loops).2 := by
  simp only [Tag.isKnown, Bool.and_eq_true, Bool.or_eq_true] at known
  obtain ⟨isName, takes⟩ := known
  cases arguments with
  | none =>
      simp only [Tag.stands, Bool.and_eq_true, bne_iff_ne, Bool.not_eq_true'] at stands
      have source : (Tag.directive name none).source ++ rest = '@' :: (name.toList ++ rest) := by simp [Tag.source]
      rw [source, step_name isName stands.1.1 stands.1.2, arguments?_none stands.2]
      cases compiled : directive? loops name none true with
      | some result => simp [Tag.source, Tag.output, compiled, Nat.add_comm]
      | none => simp [Tag.source, Tag.output, compiled, Step.copy]
  | some arguments =>
      have apart : previous.any isWordChar = false := by simpa [Tag.stands] using stands
      have source : (Tag.directive name (some arguments)).source ++ rest =
          '@' :: (name.toList ++ (arguments.source ++ rest)) := by simp [Tag.source]
      have count : 1 + name.toList.length + arguments.source.length =
          (Tag.directive name (some arguments)).source.length := by
        simp only [Tag.source, Option.map_some, Option.getD_some, List.length_append, List.length_cons]
        omega
      have takes : takesArguments name = true := by simpa using takes
      obtain ⟨result, compiled⟩ := Option.isSome_iff_exists.1
        (directive?_isSome takes arguments.code (trimBlanks arguments.code).isEmpty)
      have output : (Tag.directive name (some arguments)).output loops = result := by
        change (directive? loops name (some arguments.code) (trimBlanks arguments.code).isEmpty).getD _ = result
        rw [compiled]
        rfl
      rw [source, step_name isName apart (arguments.head_source rest), arguments.arguments?_source rest, output]
      dsimp only
      rw [compiled]
      dsimp only
      rw [count]

end Steps

/-! ## All steps -/

theorem Tag.source_ne_nil (tag : Tag) : tag.source ≠ [] := by
  cases tag with
  | echo this =>
      obtain ⟨marks, content, _, _⟩ := this
      cases marks <;> exact List.cons_ne_nil _ _
  | directive name arguments => exact List.cons_ne_nil _ _

theorem head_tagsSource (tags : List (Tag × Plain)) : ∀ d ∈ (tagsSource tags).head?, d = '@' ∨ d = '\x7b' := by
  intro d here
  cases tags with
  | nil => cases here
  | cons first tags =>
      obtain ⟨tag, text⟩ := first
      cases tag with
      | directive name arguments =>
          cases here
          exact Or.inl rfl
      | echo this =>
          obtain ⟨marks, content, _, _⟩ := this
          cases marks <;> (cases here; exact Or.inr rfl)

theorem compileFrom_tags {tags : List (Tag × Plain)} (known : ∀ tag ∈ tags, tag.1.isKnown = true)
    {previous : Option Char} (apart : standApart previous tags = true) (loops : Loops) :
    compileFrom previous loops (tagsSource tags) = outputOf loops tags := by
  induction tags generalizing previous loops with
  | nil => rw [tagsSource, compileFrom, outputOf]
  | cons first tags ih =>
      obtain ⟨tag, text⟩ := first
      rw [standApart, Bool.and_eq_true] at apart
      have step : step previous loops (tag.source ++ (text.1 ++ tagsSource tags)) =
          .taking tag.source.length (tag.output loops).1 (tag.output loops).2 := by
        cases tag with
        | echo this => exact step_echo this
        | directive name arguments => exact step_directive (known _ (List.mem_cons_self ..)) apart.1
      rw [tagsSource, compileFrom_taking tag.source_ne_nil step, compileFrom_plain text.2 (head_tagsSource tags),
        ih (fun tag mem => known tag (List.mem_cons_of_mem _ mem)) apart.2, outputOf]

theorem compile_tags {tags : List (Tag × Plain)} (known : ∀ tag ∈ tags, tag.1.isKnown = true) (text : Plain)
    (apart : standApart (lastOf none text.1) tags = true) :
    compile (String.ofList (text.1 ++ tagsSource tags)) = String.ofList (text.1 ++ outputOf Loops.none tags) := by
  rw [compile, String.toList_ofList, compileFrom_plain text.2 (head_tagsSource tags), compileFrom_tags known apart]

end Phrasebook.Template
