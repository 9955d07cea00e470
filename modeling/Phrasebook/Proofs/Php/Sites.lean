import Mathlib.Data.List.Forall2
import Phrasebook.Proofs.Php.Heredocs
import Phrasebook.Proofs.Php.LiteralCalls
import Phrasebook.Proofs.Php.Shapes

/-!
# Which calls are found

What is extracted from a source are the calls in its tree that name a function of the table and have a literal at the
index of that function. Each gives one occurrence, in the order in which the calls start, an outer call before the calls
in it.
-/

namespace Phrasebook.Php

open Node

/-! ## Callees and arguments -/

inductive Names : Node → String → Prop
  | plain {parts : List Node} : Names (.branch .name parts) (String.ofList (Node.branch .name parts).text)
  | qualified {parts : List Node} {slashes path : List Char}
      (text : (Node.branch .qualifiedName parts).text = slashes ++ path) (leading : ∀ c ∈ slashes, c = '\\')
      (first : path.head? ≠ some '\\') :
      Names (.branch .qualifiedName parts) (String.ofList (path.filter (!isBlank ·)))

theorem calleeName?_eq_some {callee : Node} {name : String} : calleeName? callee = some name ↔ Names callee name := by
  constructor
  · intro named
    unfold calleeName? at named
    split at named
    · cases named
      exact .plain
    · rename_i parts
      cases named
      refine .qualified (List.takeWhile_append_dropWhile (p := (· == '\\'))).symm (fun c mem => ?_) fun first => ?_
      · simpa using List.all_eq_true.1 List.all_takeWhile c mem
      · have stops := List.head?_dropWhile_not (· == '\\') (Node.branch .qualifiedName parts).text
        rw [first] at stops
        cases stops
    · cases named
  · intro names
    cases names with
    | plain => rfl
    | @qualified parts slashes path text leading first =>
        have stripped : (slashes ++ path).dropWhile (· == '\\') = path := by
          rw [List.dropWhile_append_of_pos fun c mem => by simpa using leading c mem]
          cases path with
          | nil => rfl
          | cons c path => exact List.dropWhile_cons_of_neg (by simpa using first)
        rw [calleeName?, text, stripped]

def isBranch : Node → Bool
  | .branch _ _ => true
  | _ => false

/-- The places that some parts of an argument list take: one for each argument, and one for each stretch of markup before
a part. -/
def places : List Node → Nat
  | [] => 0
  | part :: parts => markupBefore part + (isBranch part).toNat + places parts

/-- The value of the argument at an index: the last part of the argument that has so many places before it. -/
def ArgumentAt (arguments : Node) (index : Nat) (value : Node) : Prop :=
  ∃ opening before parts after, arguments.children = opening :: (before ++ .branch .argument parts :: after) ∧
    parts.getLast? = some value ∧ index = places before + markupBefore (.branch .argument parts)

section Arguments

variable {node value : Node} {nodes : List Node} {index : Nat}

def ownValues : Node → List (Option Node)
  | .branch .argument parts => [parts.getLast?]
  | .branch _ _ => [none]
  | _ => []

theorem argumentValues_cons (node : Node) (nodes : List Node) : argumentValues (node :: nodes) =
    List.replicate (markupBefore node) none ++ ownValues node ++ argumentValues nodes := by
  cases node with
  | branch kind parts => cases kind <;> rfl
  | leaf | missing => rfl

theorem argumentValues_append (nodes others : List Node) :
    argumentValues (nodes ++ others) = argumentValues nodes ++ argumentValues others := by
  induction nodes with
  | nil => rfl
  | cons node nodes ih =>
      rw [List.cons_append, argumentValues_cons, argumentValues_cons, ih]
      simp only [List.append_assoc]

theorem length_ownValues (node : Node) : (ownValues node).length = (isBranch node).toNat := by
  cases node with
  | branch kind parts => cases kind <;> rfl
  | leaf | missing => rfl

theorem length_argumentValues (nodes : List Node) : (argumentValues nodes).length = places nodes := by
  induction nodes with
  | nil => rfl
  | cons node nodes ih =>
      rw [argumentValues_cons, places, List.length_append, List.length_append, ih, length_ownValues,
        List.length_replicate]

theorem getElem?_ownValues (found : (ownValues node)[index]? = some (some value)) :
    index = 0 ∧ ∃ parts, node = .branch .argument parts ∧ parts.getLast? = some value := by
  have zero : index = 0 := by
    have less := (List.getElem?_eq_some_iff.1 found).1
    rw [length_ownValues] at less
    have most := Bool.toNat_le (isBranch node)
    omega
  subst zero
  unfold ownValues at found
  split at found
  · exact ⟨rfl, _, rfl, by simpa using found⟩
  · cases found
  · cases found

theorem getElem?_argumentValues (found : (argumentValues nodes)[index]? = some (some value)) :
    ∃ before parts after, nodes = before ++ .branch .argument parts :: after ∧ parts.getLast? = some value ∧
      index = places before + markupBefore (.branch .argument parts) := by
  induction nodes generalizing index with
  | nil => simp [argumentValues] at found
  | cons node nodes ih =>
      -- The place lies in the markup before the first part, at this part, or further on.
      rw [argumentValues_cons, List.append_assoc, List.getElem?_append] at found
      split at found
      · rw [List.getElem?_replicate] at found
        split at found <;> cases found
      rename_i far
      rw [List.length_replicate] at far found
      rw [List.getElem?_append] at found
      split at found
      · obtain ⟨zero, parts, rfl, last⟩ := getElem?_ownValues found
        exact ⟨[], parts, nodes, rfl, last, by simp [places]; omega⟩
      · rename_i further
        rw [length_ownValues] at further found
        obtain ⟨before, parts, after, rfl, last, same⟩ := ih found
        exact ⟨node :: before, parts, after, rfl, last, by rw [places]; omega⟩

theorem nthArgument?_eq_some {arguments : Node} :
    nthArgument? arguments index = some value ↔ ArgumentAt arguments index value := by
  rw [nthArgument?, Option.join_eq_some_iff]
  constructor
  · intro found
    obtain ⟨before, parts, after, split, last, rfl⟩ := getElem?_argumentValues found
    cases same : arguments.children with
    | nil => simp [same] at split
    | cons opening others =>
        rw [same, List.drop_one, List.tail_cons] at split
        exact ⟨opening, before, parts, after, by rw [same, split], last, rfl⟩
  · rintro ⟨opening, before, parts, after, same, last, rfl⟩
    rw [same, List.drop_one, List.tail_cons, argumentValues_append, argumentValues_cons, ← length_argumentValues,
      List.getElem?_append_right (by omega)]
    simp [ownValues, last]

end Arguments

structure Requests (table : FunctionTable) (call : Node) (name : String) (value : Node) : Prop where
  isCall : call.isKind .call = true
  named : ∃ callee, call.children.head? = some callee ∧ Names callee name
  given : ∃ arguments function, call.children.getLast? = some arguments ∧ table.get? name = some function ∧
    ArgumentAt arguments function.argument value

/-! ## Literals -/

def IsLiteral : Node → Prop
  | .branch .string _ => True
  | .branch .encapsed parts => ∀ part ∈ parts, part.isKind .substitution = false
  | .branch .nowdoc parts => '\n' ∈ (Node.branch .nowdoc parts).text
  | .branch .heredoc parts => (∀ part ∈ parts, part.isKind .substitution = false) ∧
      '\n' ∈ (Node.branch .heredoc parts).text
  | _ => False

def IsQuoted (quote : Char) (text : List Char) : Prop :=
  ∃ mark inner, (mark = [] ∨ mark = ['b'] ∨ mark = ['B']) ∧ text = mark ++ quote :: (inner ++ [quote])

/-- A node as it is in a tree of PHP: a call has a callee and arguments, a string has its quotes, and what may have
substitutions has nothing but these and text between its marks. -/
def WellFormed : Node → Prop
  | .branch .call parts => ∃ callee inner, parts = [callee, .branch .arguments inner]
  | .branch .string parts => IsQuoted '\'' (Node.branch .string parts).text
  | .branch .encapsed parts => (∀ part ∈ parts, isPlainPart part = true ∨ part.isKind .substitution = true) ∧
      ((∀ part ∈ parts, part.isKind .substitution = false) → IsQuoted '"' (Node.branch .encapsed parts).text)
  | .branch .heredoc parts => ∀ part ∈ parts, isPlainPart part = true ∨ part.isKind .substitution = true
  | _ => True

theorem isQuoted_of_isSome {quote : Char} {text : List Char} (some : (unquote? quote text).isSome = true) :
    IsQuoted quote text := by
  unfold unquote? at some
  dsimp only at some
  split at some
  · rename_i c inner same
    split at some
    · rename_i both
      obtain ⟨rfl, last⟩ := both
      obtain ⟨inner, rfl⟩ := List.getLast?_eq_some_iff.1 last
      split at same
      · rename_i marked
        rcases marked with marked | marked
        · obtain ⟨rest, rfl⟩ := begins_iff.1 marked
          exact ⟨['b'], inner, .inr (.inl rfl), congrArg ('b' :: ·) same⟩
        · obtain ⟨rest, rfl⟩ := begins_iff.1 marked
          exact ⟨['B'], inner, .inr (.inr rfl), congrArg ('B' :: ·) same⟩
      · exact ⟨[], inner, .inl rfl, same⟩
    · cases some
  · cases some

theorem isSome_unquote?_of_isQuoted {quote : Char} {text : List Char} (other : quote ≠ 'b' ∧ quote ≠ 'B')
    (quoted : IsQuoted quote text) : (unquote? quote text).isSome = true := by
  obtain ⟨mark, inner, rfl | rfl | rfl, rfl⟩ := quoted
  · simp [unquote?, begins, other.1.symm, other.2.symm]
  · simp [unquote?, begins]
  · simp [unquote?, begins]

theorem isSome_heredocBody? {text : List Char} : (heredocBody? text).isSome = true ↔ '\n' ∈ text := by
  by_cases mem : '\n' ∈ text
  · obtain ⟨line, rest, rfl, oneLine⟩ := List.eq_append_cons_of_mem mem
    obtain ⟨second, others, same⟩ := List.exists_cons_of_ne_nil (lines_ne_nil rest)
    rw [heredocBody?, lines_append oneLine, same]
    exact iff_of_true rfl mem
  · rw [heredocBody?, lines_of_oneLine mem]
    exact iff_of_false (fun some => by cases some) mem

section Strings

variable {parts : List Node} {tokens : List Token}

theorem isPlainOr_of_isInterpolated {opens : Lexeme → Prop} (shaped : IsInterpolated opens parts) :
    ∀ part ∈ parts, isPlainPart part = true ∨ part.isKind .substitution = true := by
  obtain ⟨opener, inner, closer, rfl, _, _, all⟩ := shaped
  intro part mem
  simp only [List.mem_cons, List.mem_append, List.not_mem_nil, or_false] at mem
  rcases mem with rfl | mem | rfl
  · exact .inl rfl
  · cases all part mem with
    | chunk => exact .inl rfl
    | substitution => exact .inr rfl
  · exact .inl rfl

theorem all_isPlainPart (shaped : ∀ part ∈ parts, isPlainPart part = true ∨ part.isKind .substitution = true) :
    parts.all isPlainPart = true ↔ ∀ part ∈ parts, part.isKind .substitution = false := by
  rw [List.all_eq_true]
  refine forall₂_congr fun part mem => ⟨fun plain => ?_, fun other => (shaped part mem).resolve_right (by simp [other])⟩
  cases part with
  | leaf => rfl
  | branch | missing => cases plain

theorem closer_of_closesQuotes {quote : Char} {closer : Token} {others : List Token}
    (chunks : ∀ token ∈ tokens, token.lexeme.kind = .chunk) (kind : closer.lexeme.kind = .closer)
    (closes : closesQuotes (some quote) (tokens ++ closer :: others) = true) : closer.lexeme.text = [quote] := by
  induction tokens with
  | nil =>
      simp only [List.nil_append, closesQuotes, kind, Bool.and_eq_true, Option.all_some, beq_iff_eq] at closes
      exact closes.1
  | cons token tokens ih =>
      obtain ⟨here, there⟩ := List.forall_mem_cons.1 chunks
      rw [List.cons_append, closesQuotes, here] at closes
      exact ih there closes

theorem closesQuotes_of_append {front back : List Token} {quote? : Option Char}
    (closes : closesQuotes quote? (front ++ back) = true) : ∃ other, closesQuotes other back = true := by
  induction front generalizing quote? with
  | nil => exact ⟨quote?, closes⟩
  | cons token front ih =>
      rw [List.cons_append, closesQuotes] at closes
      split at closes
      · exact ih closes
      · rw [Bool.and_eq_true] at closes
        exact ih closes.2
      · exact ih closes

theorem exists_chunks (all : ∀ part ∈ parts, IsStringPart part) (plain : parts.all isPlainPart = true) :
    ∃ chunks : List Token, parts = chunks.map .leaf ∧ ∀ token ∈ chunks, token.lexeme.kind = .chunk := by
  induction parts with
  | nil => exact ⟨[], rfl, fun _ mem => absurd mem List.not_mem_nil⟩
  | cons part parts ih =>
      obtain ⟨here, there⟩ := List.forall_mem_cons.1 all
      rw [List.all_cons, Bool.and_eq_true] at plain
      obtain ⟨chunks, rfl, isChunk⟩ := ih there plain.2
      cases here with
      | @chunk token kind => exact ⟨token :: chunks, rfl, List.forall_mem_cons.2 ⟨kind, isChunk⟩⟩
      | substitution => cases plain.1

theorem isSome_unquote? {quote : Char} (shaped : IsInterpolated (·.openQuote? = some quote) parts)
    (plain : parts.all isPlainPart = true) {kind : Kind}
    (inside : (Node.branch kind parts).tokens <:+: tokens) (quoted : ∀ token ∈ tokens, token.lexeme.Quoted)
    (closes : closesQuotes none tokens = true) : (unquote? quote (Node.branch kind parts).text).isSome = true := by
  obtain ⟨opener, inner, closer, rfl, opened, closed, all⟩ := shaped
  obtain ⟨chunks, rfl, isChunk⟩ : ∃ chunks : List Token, inner = chunks.map .leaf ∧
      ∀ token ∈ chunks, token.lexeme.kind = .chunk := by
    simp only [List.all_cons, List.all_append, Bool.and_eq_true] at plain
    exact exists_chunks all plain.2.1
  have whole : (Node.branch kind (.leaf opener :: (chunks.map .leaf ++ [.leaf closer]))).tokens =
      opener :: (chunks ++ [closer]) := by
    simp [listTokens_map_leaf, Node.tokens]
  rw [whole] at inside
  obtain ⟨front, back, split⟩ := inside
  rw [← split, List.append_assoc] at closes
  obtain ⟨quote?, closes⟩ := closesQuotes_of_append closes
  have isOpener : opener.lexeme.kind = .opener := by
    by_contra other
    rw [openQuote?_of_kind other] at opened
    cases opened
  simp only [List.cons_append, List.append_assoc, List.nil_append, closesQuotes, isOpener, opened] at closes
  have quote? := closer_of_closesQuotes isChunk closed closes
  have mem : opener ∈ tokens := by simp [← split]
  have isSome := (quoted opener mem).opener quote opened (chunks.flatMap Token.source ++ closer.gap)
  rw [Node.text, whole]
  simpa [Token.source, quote?] using isSome

theorem wellFormed_of_shaped {node : Node} (shaped : Shaped node) (inside : node.tokens <:+: tokens)
    (quoted : ∀ token ∈ tokens, token.lexeme.Quoted) (closes : closesQuotes none tokens = true) : WellFormed node := by
  unfold Shaped at shaped
  split at shaped
  · exact shaped
  · obtain ⟨token, rfl, kind⟩ := shaped
    have mem : token ∈ tokens := inside.subset (by simp [Node.tokens])
    have text : (Node.branch .string [.leaf token]).text = token.lexeme.text := by simp [Node.text, Node.tokens]
    rw [WellFormed, text]
    exact isQuoted_of_isSome ((quoted token mem).single kind)
  · have parts := isPlainOr_of_isInterpolated shaped
    exact ⟨parts, fun plain => isQuoted_of_isSome
      (isSome_unquote? shaped ((all_isPlainPart parts).2 plain) inside quoted closes)⟩
  · exact isPlainOr_of_isInterpolated shaped
  · rename_i noCall noString noEncapsed noHeredoc
    unfold WellFormed
    split
    · exact absurd rfl (noCall _)
    · exact absurd rfl (noString _)
    · exact absurd rfl (noEncapsed _)
    · exact absurd rfl (noHeredoc _)
    · trivial

theorem wellFormed_parse (source : List Char) : (parse source).All WellFormed := fun node mem =>
  wellFormed_of_shaped (shaped_parse source node mem) (tokens_parse source ▸ Node.tokens_infix mem) (quoted_lex source)
    (closesQuotes_lex source)

theorem isSome_literal? {node : Node} (wellFormed : WellFormed node) :
    (literal? node).isSome = true ↔ IsLiteral node := by
  -- One case for each kind of literal; what is no literal has no value by definition.
  unfold literal?
  split
  · rw [Option.isSome_map, isSome_unquote?_of_isQuoted (by decide) wellFormed]
    exact iff_of_true rfl trivial
  · obtain ⟨parts, quoted⟩ := wellFormed
    split
    · rename_i plain
      have none := (all_isPlainPart parts).1 plain
      rw [Option.isSome_map, isSome_unquote?_of_isQuoted (by decide) (quoted none)]
      exact iff_of_true rfl none
    · rename_i some
      exact iff_of_false (fun isSome => by cases isSome) fun none => some ((all_isPlainPart parts).2 none)
  · exact isSome_heredocBody?
  · have plain := all_isPlainPart wellFormed
    split
    · rename_i all
      rw [Option.isSome_map, isSome_heredocBody?]
      exact (and_iff_right (plain.1 all)).symm
    · rename_i some
      exact iff_of_false (fun isSome => by cases isSome) fun both => some (plain.2 both.1)
  · rename_i noString noEncapsed noNowdoc noHeredoc
    refine iff_of_false (fun isSome => by cases isSome) fun literal => ?_
    unfold IsLiteral at literal
    split at literal
    · exact noString _ rfl
    · exact noEncapsed _ rfl
    · exact noNowdoc _ rfl
    · exact noHeredoc _ rfl
    · exact literal

end Strings

/-! ## The calls of a source -/

section Source

variable {table : FunctionTable}

theorem requests_iff {callee value : Node} {inner : List Node} {name : String} :
    Requests table (.branch .call [callee, .branch .arguments inner]) name value ↔
      Names callee name ∧ ∃ function, table.get? name = some function ∧
        ArgumentAt (.branch .arguments inner) function.argument value := by
  constructor
  · rintro ⟨_, ⟨_, callee?, named⟩, _, function, arguments?, function?, argument⟩
    cases callee?
    cases arguments?
    exact ⟨named, function, function?, argument⟩
  · rintro ⟨named, function, function?, argument⟩
    exact ⟨rfl, ⟨callee, rfl, named⟩, _, function, rfl, function?, argument⟩

theorem occurrence?_eq_some {node : Node} (wellFormed : WellFormed node) {occurrence : Occurrence} :
    occurrence? table node = some occurrence ↔
      ∃ value, Requests table node occurrence.function value ∧ literal? value = some occurrence.value.toList := by
  by_cases call : node.isKind .call = true
  · obtain ⟨children, rfl⟩ : ∃ children, node = .branch .call children := by
      cases node with
      | branch kind children => exact ⟨children, by rw [isKind, beq_iff_eq] at call; rw [call]⟩
      | leaf | missing => cases call
    obtain ⟨callee, inner, rfl⟩ := wellFormed
    simp only [requests_iff, occurrence?, callParts?, Option.bind_eq_bind, Option.bind_some,
      Option.bind_eq_some_iff, calleeName?_eq_some, nthArgument?_eq_some]
    constructor
    · rintro ⟨name, named, function, function?, value, argument, text, decoded, ⟨⟩⟩
      exact ⟨value, ⟨named, function, function?, argument⟩, by rw [decoded, String.toList_ofList]⟩
    · rintro ⟨value, ⟨named, function, function?, argument⟩, decoded⟩
      exact ⟨_, named, function, function?, value, argument, _, decoded, by simp⟩
  · constructor
    · intro some
      have none : callParts? node = none := by
        unfold callParts?
        split
        · exact absurd rfl call
        · rfl
      rw [occurrence?, none] at some
      cases some
    · rintro ⟨value, requests, _⟩
      exact absurd requests.isCall call

theorem Requests.value_all {holds : Node → Prop} {call value : Node} {name : String}
    (requests : Requests table call name value) (all : call.All holds) : holds value := by
  obtain ⟨_, _, arguments, function, last, _, opening, before, parts, after, same, value?, _⟩ := requests
  have argument : .branch .argument parts ∈ arguments.children := by simp [same]
  exact (((all.child (List.mem_of_getLast? last)).child argument).child (List.mem_of_getLast? value?)).here

theorem Requests.known {call literal : Node} {name : String} (requests : Requests table call name literal) :
    ∃ function ∈ table.functions, function.name = name ∧ table.get? name = some function := by
  obtain ⟨_, function, _, function?, _⟩ := requests.given
  exact ⟨function, List.mem_of_find?_eq_some function?, by simpa using List.find?_some function?, function?⟩

theorem isSome_occurrence? {root node : Node} {address : List Nat} (wellFormed : root.All WellFormed)
    (node? : root.at? address = some node) :
    (occurrence? table node).isSome = true ↔ ∃ name value, Requests table node name value ∧ IsLiteral value := by
  have below := wellFormed.at node?
  have isSome {name : String} {value : Node} (requests : Requests table node name value) :
      (literal? value).isSome = true ↔ IsLiteral value := isSome_literal? (requests.value_all below)
  rw [Option.isSome_iff_exists]
  constructor
  · rintro ⟨occurrence, some⟩
    obtain ⟨value, requests, decoded⟩ := (occurrence?_eq_some below.here).1 some
    exact ⟨_, value, requests, (isSome requests).1 (by rw [decoded]; rfl)⟩
  · rintro ⟨name, value, requests, isLiteral⟩
    obtain ⟨text, decoded⟩ := Option.isSome_iff_exists.1 ((isSome requests).2 isLiteral)
    exact ⟨⟨name, String.ofList text⟩,
      (occurrence?_eq_some below.here).2 ⟨value, requests, by rw [decoded, String.toList_ofList]⟩⟩

theorem mem_occurrences {code : List Char} {occurrence : Occurrence} :
    occurrence ∈ occurrences table (parse code) ↔ ∃ address call literal,
      (parse code).at? address = some call ∧ Requests table call occurrence.function literal ∧
        literal? literal = some occurrence.value.toList := by
  rw [occurrences, ← Node.map_snd_addressed, List.filterMap_map, List.mem_filterMap]
  constructor
  · rintro ⟨⟨address, call⟩, mem, yields⟩
    have call? := Node.mem_addressed.1 mem
    obtain ⟨literal, requests, decoded⟩ := (occurrence?_eq_some ((wellFormed_parse code).at call?).here).1 yields
    exact ⟨address, call, literal, call?, requests, decoded⟩
  · rintro ⟨address, call, literal, call?, requests, decoded⟩
    exact ⟨⟨address, call⟩, Node.mem_addressed.2 call?,
      (occurrence?_eq_some ((wellFormed_parse code).at call?).here).2 ⟨literal, requests, decoded⟩⟩

end Source

def sites (table : FunctionTable) (root : Node) : List (List Nat) :=
  (root.addressed.filter fun (_, node) => (occurrence? table node).isSome).map Prod.fst

theorem forall₂_sites (table : FunctionTable) (root : Node) :
    List.Forall₂ (fun address occurrence => ∃ node, root.at? address = some node ∧
      occurrence? table node = some occurrence) (sites table root) (occurrences table root) := by
  have all : ∀ entry ∈ root.addressed, root.at? entry.1 = some entry.2 := fun entry mem => mem_addressed.1 mem
  rw [sites, occurrences, ← map_snd_addressed, List.filterMap_map]
  revert all
  generalize root.addressed = entries
  intro all
  induction entries with
  | nil => exact .nil
  | cons entry entries ih =>
      obtain ⟨here, there⟩ := List.forall_mem_cons.1 all
      rw [List.filter_cons, List.filterMap_cons]
      cases found : occurrence? table entry.2 with
      | none =>
          rw [if_neg (by simp [found])]
          simpa [found] using ih there
      | some occurrence =>
          rw [if_pos (by simp [found])]
          simp only [Function.comp_apply, found]
          exact .cons ⟨_, here, found⟩ (ih there)

theorem mem_sites {table : FunctionTable} {root : Node} {address : List Nat} :
    address ∈ sites table root ↔ ∃ node, root.at? address = some node ∧ (occurrence? table node).isSome = true := by
  simp only [sites, List.mem_map, List.mem_filter, Prod.exists, mem_addressed]
  constructor
  · rintro ⟨_, node, some, rfl⟩
    exact ⟨node, some⟩
  · rintro ⟨node, some⟩
    exact ⟨address, node, some, rfl⟩

theorem pairwise_sites (table : FunctionTable) (root : Node) : (sites table root).Pairwise (· < ·) :=
  (pairwise_addressed root).sublist (List.filter_sublist.map Prod.fst)

theorem eq_occurrences_of_extract {compiler : TemplateCompiler} {table : FunctionTable} {kind : FileKind}
    {source : String} {found : List Occurrence} (functions : table.isEmpty = false)
    (extracted : extract compiler table kind source = .ok found) :
    found = occurrences table (parse (kind.toCode compiler source).toList) := by
  rw [extract, if_neg (by simp [functions])] at extracted
  dsimp only at extracted
  split at extracted
  · cases extracted
  · exact (Except.ok.inj extracted).symm

/-- The addresses of the calls in a tree that name a function of a table and have a literal at its index, with what
they yield. They are in the order in which these calls start, an outer call before the calls in it. -/
structure AreSites (table : FunctionTable) (root : Node) (sites : List (List Nat)) (found : List Occurrence) : Prop where
  matched : List.Forall₂ (fun address occurrence => ∃ call value, root.at? address = some call ∧
    Requests table call occurrence.function value ∧ literal? value = some occurrence.value.toList) sites found
  all : ∀ address, address ∈ sites ↔
    ∃ call name value, root.at? address = some call ∧ Requests table call name value ∧ IsLiteral value
  ordered : sites.Pairwise fun address other => root.start address ≤ root.start other ∧ ¬ other <+: address

theorem areSites {table : FunctionTable} {root : Node} (wellFormed : root.All WellFormed) :
    AreSites table root (sites table root) (occurrences table root) where
  matched := (forall₂_sites table root).imp fun _ _ ⟨call, call?, yields⟩ => by
    obtain ⟨value, requests, decoded⟩ := (occurrence?_eq_some (wellFormed.at call?).here).1 yields
    exact ⟨call, value, call?, requests, decoded⟩
  all address := by
    rw [mem_sites]
    constructor
    · rintro ⟨call, call?, some⟩
      obtain ⟨name, value, requests⟩ := (isSome_occurrence? wellFormed call?).1 some
      exact ⟨call, name, value, call?, requests⟩
    · rintro ⟨call, name, value, call?, requests⟩
      exact ⟨call, call?, (isSome_occurrence? wellFormed call?).2 ⟨name, value, requests⟩⟩
  ordered := (pairwise_sites table root).imp_of_mem fun {_ _} here there less => by
    obtain ⟨call, call?, _⟩ := mem_sites.1 here
    obtain ⟨call', call'?, _⟩ := mem_sites.1 there
    exact ⟨start_mono less call? call'?, fun inside => not_lt_of_prefix inside less⟩

/-- The occurrences in a tree match the calls in it that name a function of the table and have a literal at its index.
What is extracted from a source are those of its tree. -/
theorem extract_sites {table : FunctionTable} (functions : table.isEmpty = false) :
    (∀ root : Node, root.All WellFormed → ∃ sites, AreSites table root sites (occurrences table root)) ∧
      ∀ (compiler : TemplateCompiler) (kind : FileKind) (source : String) (found : List Occurrence),
        extract compiler table kind source = .ok found →
          (parse (kind.toCode compiler source).toList).All WellFormed ∧
            ∃ sites, AreSites table (parse (kind.toCode compiler source).toList) sites found := by
  refine ⟨fun root wellFormed => ⟨_, areSites wellFormed⟩, fun compiler kind source found extracted => ?_⟩
  have wellFormed := wellFormed_parse (kind.toCode compiler source).toList
  rw [eq_occurrences_of_extract functions extracted]
  exact ⟨wellFormed, _, areSites wellFormed⟩

/-! ## Two sources -/

section Examples

def opening : List Skipped := [⟨.markup, "<?php".toList⟩, ⟨.blank, [' ']⟩]

theorem lex_call (text : List Char) : lex ("<?php __(".toList ++ text) =
    .word opening "__" :: .symbol [] "(" :: lexFrom [] [] text := by
  calc lex ("<?php __(".toList ++ text)
    _ = lexFrom [] [⟨.markup, "<?php".toList⟩] (' ' :: ("__".toList ++ ("(".toList ++ text))) :=
      lex_markup _ (show isMarkup [] = true from rfl)
    _ = .word opening "__" :: lexFrom [] [] ("(".toList ++ text) :=
      (lexFrom_blank _ _).trans (lexFrom_word "__" opening _ rfl rfl)
    _ = _ := by rw [lexFrom_symbol "(" _ _ (by decide) rfl rfl]

theorem lexFrom_stop : lexFrom [] [] ");".toList = [.symbol [] ")", .symbol [] ";", ⟨[], ⟨.finish, []⟩⟩] := by
  calc lexFrom [] [] ");".toList
    _ = .symbol [] ")" :: lexFrom [] [] (";".toList ++ []) := lexFrom_symbol ")" [] _ (by decide) rfl rfl
    _ = _ := by rw [lexFrom_symbol ";" _ _ (by decide) rfl rfl, lexFrom_nil]

def callTree (parts : List Node) : Node :=
  .branch .program [.branch .statement [.branch .call [.branch .name [.leaf (.word opening "__")],
    .branch .arguments (.leaf (.symbol [] "(") :: (parts ++ [.leaf (.symbol [] ")")]))], .leaf (.symbol [] ";")],
    .leaf ⟨[], ⟨.finish, []⟩⟩]

theorem parse_nested : parse "<?php __('a',trans('b'));".toList = callTree
    [stringArgument "'a'".toList, .leaf (.symbol [] ","), .branch .argument [.branch .call
      [.branch .name [.leaf (.word [] "trans")], .branch .arguments
        [.leaf (.symbol [] "("), stringArgument "'b'".toList, .leaf (.symbol [] ")")]]]] := by
  have stop : lexFrom [] [] "));".toList = .symbol [] ")" :: lexFrom [] [] ");".toList :=
    lexFrom_symbol ")" [] _ (by decide) rfl rfl
  have inner : lexFrom [] [] ("trans".toList ++ ("(".toList ++ '\'' :: ("b".toList ++ '\'' :: "));".toList))) =
      [.word [] "trans", .symbol [] "(", .single "'b'".toList, .symbol [] ")", .symbol [] ")", .symbol [] ";",
        ⟨[], ⟨.finish, []⟩⟩] := by
    rw [lexFrom_word "trans" _ _ rfl rfl, lexFrom_symbol "(" _ _ (by decide) rfl rfl, lexFrom_single _ rfl, stop,
      lexFrom_stop]
    rfl
  have whole : lex "<?php __('a',trans('b'));".toList = .word opening "__" :: .symbol [] "(" ::
      lexFrom [] [] ('\'' :: ("a".toList ++ '\'' :: (",".toList ++ ("trans".toList ++ ("(".toList ++
        '\'' :: ("b".toList ++ '\'' :: "));".toList)))))) := lex_call _
  rw [lexFrom_single _ rfl, lexFrom_symbol "," _ _ (by decide) rfl rfl, inner] at whole
  rw [parse, whole]
  rfl

theorem extract_sites_nested :
    extract Template.compile .standard .code "<?php __('a',trans('b'));" = .ok [⟨"__", "a"⟩, ⟨"trans", "b"⟩] ∧
      (parse "<?php __('a',trans('b'));".toList).All WellFormed ∧
      ∃ sites, AreSites .standard (parse "<?php __('a',trans('b'));".toList) sites
        [⟨"__", "a"⟩, ⟨"trans", "b"⟩] := by
  have root : parse (FileKind.code.toCode Template.compile "<?php __('a',trans('b'));").toList = _ := parse_nested
  have extracted : extract Template.compile .standard .code "<?php __('a',trans('b'));" =
      .ok [⟨"__", "a"⟩, ⟨"trans", "b"⟩] := by
    rw [extract_of_faultless rfl (by rw [root]; rfl), root]
    exact congrArg _ (by decide +kernel)
  exact ⟨extracted, (extract_sites rfl).2 Template.compile .code _ _ extracted⟩

def returned : Node := .branch .nowdoc [.leaf ⟨[], ⟨.nowdoc, "<<<'A'\rx\rA".toList⟩⟩]

theorem parse_returned :
    parse "<?php __(<<<'A'\rx\rA);".toList = callTree [.branch .argument [returned]] := by
  have nowdoc : lexFrom [] [] ('<' :: "<<'A'\rx\rA);".toList) =
      ⟨[], ⟨.nowdoc, "<<<'A'\rx\rA".toList⟩⟩ :: lexFrom [] [] ("<<'A'\rx\rA);".toList.drop 9) :=
    lexFrom_lexeme [] rfl rfl
  have rest : "<<'A'\rx\rA);".toList.drop 9 = ");".toList := rfl
  have whole : lex "<?php __(<<<'A'\rx\rA);".toList =
      .word opening "__" :: .symbol [] "(" :: lexFrom [] [] ('<' :: "<<'A'\rx\rA);".toList) := lex_call _
  rw [nowdoc, rest, lexFrom_stop] at whole
  rw [parse, whole]
  rfl

/-- A nowdoc without a line feed is not found. -/
theorem extract_returned : extract Template.compile .standard .code "<?php __(<<<'A'\rx\rA);" = .ok [] ∧
    ∃ address call, (parse "<?php __(<<<'A'\rx\rA);".toList).at? address = some call ∧
      Requests .standard call "__" returned := by
  have root : parse (FileKind.code.toCode Template.compile "<?php __(<<<'A'\rx\rA);").toList = _ := parse_returned
  refine ⟨?_, [0, 0], _, by rw [parse_returned]; rfl, ?_⟩
  · rw [extract_of_faultless rfl (by rw [root]; rfl), root]
    exact congrArg _ (by decide +kernel)
  · exact requests_iff.2 ⟨.plain, ⟨"__", 0, .text⟩, rfl, .leaf (.symbol [] "("), [], _, _, rfl, rfl, rfl⟩

end Examples

end Phrasebook.Php
