import Phrasebook.Template.Compile
import Phrasebook.Proofs.Template.Matching

/-!
# Positions of the compiler

The compiler can be run by an offset into the bytes of a template. Every turn looks at the text from there on, and takes
parts of the template between offsets that are worked out from the places of ASCII marks and from the lengths of marks.
A part that does not begin and end between two characters cannot be taken.

* `Cursor.turn_eq`: a turn takes only parts that can be taken, and does what a step on characters does.
* `Cursor.Stands.run`: what a run keeps true.
* `compile_positions`: the run ends, after at most one turn for each byte, with what the compiler gives.
-/

namespace Phrasebook.Template

open Utf8

/-- The offset at which the compiler stands, and what it has written. -/
structure Cursor where
  pos : Nat
  out : List Char
  loops : Loops
  deriving DecidableEq, Repr

namespace Cursor

def start : Cursor := ⟨0, [], Loops.none⟩

/-! ## Turns -/

section Turns

variable (source : List Char) (cursor : Cursor)

def copyChar : Checked Cursor := do
  match ← sliceFrom source cursor.pos with
  | [] => return cursor
  | c :: _ => return { cursor with pos := cursor.pos + (encodeChar c).length, out := cursor.out ++ [c] }

def copyRest : Checked Cursor := do
  let rest ← sliceFrom source cursor.pos
  return { cursor with pos := byteLength source, out := cursor.out ++ rest }

def rawSection : Checked Cursor := do
  match offset? "?>".toList (← sliceFrom source cursor.pos) with
  | some n =>
    let part ← slice source cursor.pos (cursor.pos + n + 2)
    return { cursor with pos := cursor.pos + n + 2, out := cursor.out ++ part }
  | none => cursor.copyRest source

def comment : Checked Cursor := do
  match offset? "--\x7d\x7d".toList (← sliceFrom source (cursor.pos + 4)) with
  | some n => return { cursor with pos := cursor.pos + (4 + n + 4) }
  | none => cursor.copyRest source

/-- Writes what `write` makes of the text from an offset up to a mark, and goes on behind the mark. -/
def takeUntil (mark : List Char) (write : List Char → List Char) (first : Nat) : Checked Cursor := do
  match offset? mark (← sliceFrom source first) with
  | some n =>
    let body ← slice source first (first + n)
    return { cursor with pos := first + n + byteLength mark, out := cursor.out ++ write body }
  | none => cursor.copyRest source

def echo (opener closer : List Char) (escaped : Bool) : Checked Cursor :=
  cursor.takeUntil source closer (fun body => echoCode escaped (trimBlanks body)) (cursor.pos + byteLength opener)

def block (terminator before after : List Char) (first : Nat) : Checked Cursor :=
  cursor.takeUntil source terminator (fun body => before ++ body ++ after) first

def listAt? (first : Nat) : Checked (Option (List Char × Nat)) := do
  if begins "(".toList (← sliceFrom source first) then
    match ← closingParenthesis? (encode source) first with
    | some close =>
      let args ← slice source (first + 1) close
      return some (args, close + 1)
    | none => return none
  else return none

def argumentsFrom? (nameEnd : Nat) : Checked (Option (List Char × Nat)) := do
  let behind ← sliceFrom source nameEnd
  let left ← difference (byteLength source) nameEnd
  listAt? source (nameEnd + (firstOffset? (fun c => c != ' ' && c != '\t') behind).getD left)

def word (name : List Char) (nameEnd : Nat) (args? : Option (List Char × Nat)) : Cursor :=
  let blank := args?.all fun (args, _) => (trimBlanks args).isEmpty
  match directive? cursor.loops (String.ofList name) (args?.map Prod.fst) blank with
  | some (out, loops) => ⟨(args?.map Prod.snd).getD nameEnd, cursor.out ++ out, loops⟩
  | none => { cursor with pos := nameEnd, out := cursor.out ++ '@' :: name }

def named (name : List Char) (nameEnd : Nat) : Checked Cursor := do
  let args? ← argumentsFrom? source nameEnd
  if name = "verbatim".toList then cursor.block source "@endverbatim".toList [] [] nameEnd
  else if name = "php".toList ∧ args?.isNone then
    cursor.block source "@endphp".toList "<?php".toList "?>".toList nameEnd
  else return cursor.word name nameEnd args?

def directive : Checked Cursor := do
  let rest ← sliceFrom source (cursor.pos + 1)
  if begins "@".toList rest then return { cursor with pos := cursor.pos + 2, out := cursor.out ++ "@".toList }
  else
    let length := (firstOffset? (fun c => !isAsciiWordChar c) rest).getD (byteLength rest)
    if length = 0 then cursor.copyChar source
    else
      let name ← slice rest 0 length
      cursor.named source name (cursor.pos + 1 + length)

def turn : Checked Cursor := do
  let rest ← sliceFrom source cursor.pos
  if begins "<?php".toList rest ∨ begins "<?=".toList rest then cursor.rawSection source
  else if begins "\x7b\x7b--".toList rest then cursor.comment source
  else if begins "@\x7b\x7b".toList rest then
    return { cursor with pos := cursor.pos + 3, out := cursor.out ++ "\x7b\x7b".toList }
  else if begins "\x7b!!".toList rest then cursor.echo source "\x7b!!".toList "!!\x7d".toList false
  else if begins "\x7b\x7b\x7b".toList rest then cursor.echo source "\x7b\x7b\x7b".toList "\x7d\x7d\x7d".toList true
  else if begins "\x7b\x7b".toList rest then cursor.echo source "\x7b\x7b".toList "\x7d\x7d".toList true
  else if begins "@".toList rest then
    let before ← slice source 0 cursor.pos
    if before.getLast?.any isWordChar then cursor.copyChar source else cursor.directive source
  else cursor.copyChar source

def run (turns : Nat) : Checked Cursor := loop pos (byteLength source) (turn source) turns cursor

end Turns

/-! ## A turn is a step -/

def past (front text out : List Char) (s : Step) : Cursor :=
  ⟨byteLength front + byteLength (text.take (s.more + 1)), out ++ s.out, s.loops⟩

section Turns

variable {front text lead body mark out output : List Char} {loops loops' : Loops} {count : Nat}

theorem past_taking (positive : 1 ≤ count) :
    past front text out (.taking count output loops) =
      ⟨byteLength front + byteLength (text.take count), out ++ output, loops⟩ := by
  rw [past, Step.taking, Nat.sub_add_cancel positive]

theorem past_copy (nonempty : text ≠ []) (front body out : List Char) (loops : Loops) :
    past front (text ++ body) out (.copy text loops) = ⟨byteLength front + byteLength text, out ++ text, loops⟩ := by
  rw [Step.copy, past_taking (List.length_pos_iff.2 nonempty), List.take_left]

theorem copyRest_eq (nonempty : text ≠ []) :
    copyRest (front ++ text) ⟨byteLength front, out, loops⟩ = .ok (past front text out (.copy text loops)) := by
  have whole := past_copy nonempty front [] out loops
  rw [List.append_nil] at whole
  rw [copyRest, sliceFrom_front, ok_bind, whole, byteLength_append]
  rfl

theorem copyChar_eq (c : Char) (text : List Char) :
    copyChar (front ++ c :: text) ⟨byteLength front, out, loops⟩ =
      .ok (past front (c :: text) out (.copy [c] loops)) := by
  have one : byteLength [c] = (encodeChar c).length := byteLength_cons c []
  have here := past_copy (List.cons_ne_nil c []) front text out loops
  rw [List.singleton_append, one] at here
  rw [copyChar, sliceFrom_front, ok_bind, here]
  rfl

theorem offset?_eq_some {n : Nat} (found : find? mark text = some n) :
    offset? mark text = some (byteLength (text.take n)) := by rw [offset?, found, Option.map_some]

theorem rawSection_eq (nonempty : text ≠ []) :
    rawSection (front ++ text) ⟨byteLength front, out, loops⟩ =
      .ok (past front text out (Template.rawSection loops text)) := by
  rw [rawSection, Template.rawSection, sliceFrom_front, ok_bind]
  cases found : find? "?>".toList text with
  | none =>
      rw [offset?, found]
      exact copyRest_eq nonempty
  | some n =>
      have part : text.take (n + 2) = text.take n ++ "?>".toList := take_of_find? found
      have marked : text.take (n + 2) ≠ [] := by simp [part]
      have length : byteLength (text.take (n + 2)) = byteLength (text.take n) + 2 := by
        rw [part, byteLength_append]
        rfl
      have taken := slice_between front (text.take (n + 2)) (text.drop (n + 2))
      have here := past_copy marked front (text.drop (n + 2)) out loops
      rw [List.take_append_drop, length, ← Nat.add_assoc] at taken here
      rw [offset?_eq_some found]
      dsimp only
      rw [taken, ok_bind, here]
      rfl

theorem past_mark {n : Nat} (found : find? mark body = some n) (nonempty : lead ≠ []) :
    past front (lead ++ body) out (.taking (lead.length + n + mark.length) output loops) =
      ⟨byteLength front + byteLength lead + byteLength (body.take n) + byteLength mark, out ++ output, loops⟩ := by
  have positive := List.length_pos_iff.2 nonempty
  rw [past_taking (by omega), Nat.add_assoc, List.take_length_add_append, take_of_find? found, byteLength_append,
    byteLength_append, Nat.add_assoc, Nat.add_assoc]

theorem comment_eq (body : List Char) :
    comment (front ++ ("\x7b\x7b--".toList ++ body)) ⟨byteLength front, out, loops⟩ =
      .ok (past front ("\x7b\x7b--".toList ++ body) out (Template.comment loops ("\x7b\x7b--".toList ++ body))) := by
  have first : sliceFrom (front ++ ("\x7b\x7b--".toList ++ body)) (byteLength front + 4) = .ok body := by
    have behind := sliceFrom_front (front ++ "\x7b\x7b--".toList) body
    rwa [byteLength_append, List.append_assoc] at behind
  rw [comment, Template.comment, first, ok_bind, List.drop_left' (by rfl)]
  cases found : find? "--\x7d\x7d".toList body with
  | none =>
      rw [offset?, found]
      exact copyRest_eq (List.cons_ne_nil _ _)
  | some n =>
      have here : past front ("\x7b\x7b--".toList ++ body) out (.taking (4 + n + 4) [] loops) = _ :=
        past_mark found (List.cons_ne_nil _ _)
      have index : byteLength front + (4 + byteLength (body.take n) + 4) =
          byteLength front + 4 + byteLength (body.take n) + 4 := by omega
      rw [offset?_eq_some found, here, List.append_nil]
      exact congrArg (fun pos => Except.ok (⟨pos, out, loops⟩ : Cursor)) index

theorem takeUntil_eq (write : List Char → List Char) (nonempty : lead ≠ []) (body : List Char) :
    takeUntil (front ++ (lead ++ body)) ⟨byteLength front, out, loops⟩ mark write (byteLength front + byteLength lead) =
      .ok (past front (lead ++ body) out (match find? mark body with
        | some n => .taking (lead.length + n + mark.length) (write (body.take n)) loops
        | none => .copy (lead ++ body) loops)) := by
  have split : front ++ (lead ++ body) = (front ++ lead) ++ body := (List.append_assoc ..).symm
  have first : sliceFrom (front ++ (lead ++ body)) (byteLength front + byteLength lead) = .ok body := by
    rw [split, ← byteLength_append]
    exact sliceFrom_front _ _
  rw [takeUntil, first, ok_bind]
  cases found : find? mark body with
  | none =>
      rw [offset?, found]
      exact copyRest_eq (List.append_ne_nil_of_left_ne_nil nonempty body)
  | some n =>
      have taken := slice_between (front ++ lead) (body.take n) (body.drop n)
      rw [List.take_append_drop, ← split, byteLength_append] at taken
      rw [offset?_eq_some found, past_mark found nonempty]
      dsimp only
      rw [taken, ok_bind]
      rfl

theorem echo_eq (opener closer : List Char) (escaped : Bool) (nonempty : opener ≠ []) (body : List Char) :
    echo (front ++ (opener ++ body)) ⟨byteLength front, out, loops⟩ opener closer escaped =
      .ok (past front (opener ++ body) out (Template.echo opener closer escaped loops (opener ++ body))) := by
  rewrite [echo, takeUntil_eq _ nonempty, Template.echo, List.drop_left]
  rfl

theorem block_eq (terminator before after : List Char) (nonempty : lead ≠ []) (body : List Char) :
    block (front ++ (lead ++ body)) ⟨byteLength front, out, loops⟩ terminator before after
        (byteLength front + byteLength lead) =
      .ok (past front (lead ++ body) out
        (Template.block terminator before after lead.length loops (lead ++ body))) := by
  rewrite [block, takeUntil_eq _ nonempty, Template.block, List.drop_left]
  rfl

/-! ### Directives -/

theorem split_of_matching? {rest : List Char} {n : Nat} (closes : matching? ('(' :: rest) = some n) :
    ∃ inside after, rest = inside ++ ')' :: after ∧ n = inside.length + 1 := by
  obtain ⟨m, found, rfl⟩ := Option.map_eq_some_iff.1 closes
  obtain ⟨inside, after, balanced, rfl⟩ := exists_balanced (by rw [found]; rfl)
  rw [closing?_balanced balanced, closing?_last] at found
  cases found
  exact ⟨inside, after, rfl, congrArg (· + 1) (Nat.zero_add _)⟩

theorem listAt?_eq (front list : List Char) :
    listAt? (front ++ list) (byteLength front) =
      .ok ((matching? list).map fun n =>
        ((list.take n).drop 1, byteLength front + byteLength (list.take (n + 1)))) := by
  rw [listAt?, sliceFrom_front, ok_bind]
  match list with
  | [] => rfl
  | c :: rest =>
      by_cases opens : c = '('
      · subst opens
        have opening : begins "(".toList ('(' :: rest) = true := begins_iff.2 ⟨rest, rfl⟩
        rw [if_pos opening, closingParenthesis?_opening, ok_bind]
        cases closes : matching? ('(' :: rest) with
        | none => rfl
        | some n =>
            obtain ⟨inside, after, rfl, rfl⟩ := split_of_matching? closes
            have upTo : ('(' :: (inside ++ ')' :: after)).take (inside.length + 1) = '(' :: inside :=
              @List.take_left _ ('(' :: inside) _
            have within : ('(' :: (inside ++ ')' :: after)).take (inside.length + 1 + 1) = '(' :: inside ++ [')'] :=
              @List.take_length_add_append _ ('(' :: inside) _ 1
            have opened : byteLength front + 1 = byteLength (front ++ ['(']) := (@byteLength_append front ['(']).symm
            have close : byteLength front + byteLength ('(' :: inside) =
                byteLength (front ++ ['(']) + byteLength inside := by
              rw [← byteLength_append, ← byteLength_append, List.append_assoc, List.singleton_append]
            have taken := slice_between (front ++ ['(']) inside (')' :: after)
            rw [← close, ← opened, List.append_assoc, List.singleton_append] at taken
            rw [Option.map_some, Option.map_some, inBytes, upTo, within]
            dsimp only
            rw [taken, ok_bind, byteLength_append, ← Nat.add_assoc]
            rfl
      · have other : begins "(".toList (c :: rest) = false := begins_cons_of_ne (Ne.symm opens)
        have unmatched : matching? (c :: rest) = none := by
          rw [matching?]
          rintro inner ⟨⟩
          exact opens rfl
        rw [if_neg (Bool.eq_false_iff.1 other), unmatched]
        rfl

theorem argumentsFrom?_eq (front text : List Char) :
    argumentsFrom? (front ++ text) (byteLength front) =
      .ok ((arguments? text).map fun (args, count) => (args, byteLength front + byteLength (text.take count))) := by
  have first : (firstOffset? (fun c => c != ' ' && c != '\t') text).getD (byteLength text) =
      byteLength (text.takeWhile fun c => c == ' ' || c == '\t') := by
    rw [firstOffset?_getD]
    simp [bne]
  rw [argumentsFrom?, sliceFrom_front, ok_bind, byteLength_append, difference_of_add, ok_bind, first, arguments?]
  -- The list begins behind the blanks, so its position is that of the blanks and what is in front of them.
  generalize blanks : text.takeWhile (fun c => c == ' ' || c == '\t') = gap
  obtain ⟨list, rfl⟩ : gap <+: text := blanks ▸ List.takeWhile_prefix _
  have behind := listAt?_eq (front ++ gap) list
  rw [List.append_assoc, byteLength_append] at behind
  dsimp only
  rw [behind, List.drop_left, Option.map_map]
  congr 2
  funext n
  simp only [Function.comp, Nat.add_assoc, List.take_length_add_append, byteLength_append]

theorem past_word {name rest : List Char} (count : Nat) (output? : Option (List Char × Loops)) :
    past front ('@' :: (name ++ rest)) out (match output? with
        | some (output, loops') => .taking (1 + name.length + count) output loops'
        | none => .copy (('@' :: (name ++ rest)).take (1 + name.length)) loops) =
      match output? with
        | some (output, loops') =>
          ⟨byteLength front + byteLength ('@' :: name) + byteLength (rest.take count), out ++ output, loops'⟩
        | none => ⟨byteLength front + byteLength ('@' :: name), out ++ '@' :: name, loops⟩ := by
  have split : '@' :: (name ++ rest) = '@' :: name ++ rest := rfl
  have length : 1 + name.length = ('@' :: name).length := Nat.add_comm ..
  rw [split, length]
  cases output? with
  | none =>
      dsimp only
      rw [List.take_left, past_copy (List.cons_ne_nil _ _)]
  | some result =>
      have positive : 1 ≤ ('@' :: name).length + count := by
        rw [← length]
        omega
      dsimp only
      rw [past_taking positive, List.take_length_add_append, byteLength_append, Nat.add_assoc]

theorem named_eq {name rest : List Char} (word : (name ++ rest).takeWhile isAsciiWordChar = name)
    (nonempty : name ≠ []) (single : begins "@@".toList ('@' :: (name ++ rest)) = false) :
    named (front ++ '@' :: (name ++ rest)) ⟨byteLength front, out, loops⟩ name
        (byteLength front + byteLength ('@' :: name)) =
      .ok (past front ('@' :: (name ++ rest)) out (atSign loops ('@' :: (name ++ rest)))) := by
  have length : 1 + name.length = ('@' :: name).length := Nat.add_comm ..
  have behind : ('@' :: (name ++ rest)).drop ('@' :: name).length = rest := @List.drop_left _ ('@' :: name) rest
  have args := argumentsFrom?_eq (front ++ '@' :: name) rest
  rw [List.append_assoc, List.cons_append, byteLength_append] at args
  rw [atSign, if_neg (Bool.eq_false_iff.1 single), List.drop_one, List.tail_cons, word]
  dsimp only
  rw [if_neg (by simpa using nonempty), named, args, ok_bind]
  -- Two names open blocks; all others are words, with or without arguments.
  by_cases verbatim : name = "verbatim".toList
  · rw [if_pos verbatim, if_pos verbatim, length]
    exact block_eq _ _ _ (List.cons_ne_nil _ _) rest
  rw [if_neg verbatim, if_neg verbatim, Option.isNone_map, length, behind]
  by_cases php : name = "php".toList ∧ (arguments? rest).isNone = true
  · rw [if_pos php, if_pos php]
    exact block_eq _ _ _ (List.cons_ne_nil _ _) rest
  rw [if_neg php, if_neg php, ← length]
  cases arguments? rest with
  | none => exact congrArg Except.ok (past_word 0 (directive? loops (String.ofList name) none true)).symm
  | some found =>
      exact congrArg Except.ok (past_word found.2 (directive? loops (String.ofList name) (some found.1) _)).symm

theorem directive_eq (tail : List Char) :
    directive (front ++ '@' :: tail) ⟨byteLength front, out, loops⟩ =
      .ok (past front ('@' :: tail) out (atSign loops ('@' :: tail))) := by
  have doubled : begins "@@".toList ('@' :: tail) = begins "@".toList tail := by simp [begins]
  rw [directive, sliceFrom_behind (by decide), ok_bind]
  cases again : begins "@".toList tail with
  | true =>
      obtain ⟨rest, rfl⟩ := begins_iff.1 again
      rw [if_pos rfl, atSign, if_pos (doubled.trans again), past_taking (by decide)]
      rfl
  | false =>
      rw [if_neg Bool.false_ne_true, firstOffset?_getD]
      simp only [Bool.not_not]
      generalize word : tail.takeWhile isAsciiWordChar = name
      obtain ⟨rest, rfl⟩ : name <+: tail := word ▸ List.takeWhile_prefix _
      by_cases empty : name = []
      · have copied : atSign loops ('@' :: (name ++ rest)) = .copy ['@'] loops := by
          rw [atSign, if_neg (Bool.eq_false_iff.1 (doubled.trans again)), List.drop_one, List.tail_cons, word, empty]
          rfl
        have noBytes : byteLength ([] : List Char) = 0 := rfl
        rw [copied, empty, if_pos noBytes]
        exact copyChar_eq '@' rest
      · have positive := byteLength_pos empty
        have nameEnd : byteLength front + 1 + byteLength name = byteLength front + byteLength ('@' :: name) := by
          rw [byteLength_cons '@', Nat.add_assoc]
          rfl
        rw [if_neg (by omega), slice_front, ok_bind, nameEnd]
        exact named_eq word empty (doubled.trans again)

/-! ### All texts -/

theorem turn_eq (front : List Char) (nonempty : text ≠ []) :
    turn (front ++ text) ⟨byteLength front, out, loops⟩ =
      .ok (past front text out (step front.getLast? loops text)) := by
  obtain ⟨c, rest, same⟩ := List.exists_cons_of_ne_nil nonempty
  rw [turn, sliceFrom_front, ok_bind, step]
  -- A turn asks what a step asks, in the same order.
  by_cases raw : begins "<?php".toList text = true ∨ begins "<?=".toList text = true
  · rw [if_pos raw, if_pos raw]
    exact rawSection_eq nonempty
  rw [if_neg raw, if_neg raw]
  by_cases comments : begins "\x7b\x7b--".toList text = true
  · obtain ⟨body, rfl⟩ := begins_iff.1 comments
    rw [if_pos comments, if_pos comments]
    exact comment_eq body
  rw [if_neg comments, if_neg comments]
  by_cases literal : begins "@\x7b\x7b".toList text = true
  · obtain ⟨body, rfl⟩ := begins_iff.1 literal
    rw [if_pos literal, if_pos literal, past_taking (by decide)]
    rfl
  rw [if_neg literal, if_neg literal]
  by_cases unescaped : begins "\x7b!!".toList text = true
  · obtain ⟨body, rfl⟩ := begins_iff.1 unescaped
    rw [if_pos unescaped, if_pos unescaped]
    exact echo_eq _ _ _ (List.cons_ne_nil _ _) body
  rw [if_neg unescaped, if_neg unescaped]
  by_cases tripled : begins "\x7b\x7b\x7b".toList text = true
  · obtain ⟨body, rfl⟩ := begins_iff.1 tripled
    rw [if_pos tripled, if_pos tripled]
    exact echo_eq _ _ _ (List.cons_ne_nil _ _) body
  rw [if_neg tripled, if_neg tripled]
  by_cases escaped : begins "\x7b\x7b".toList text = true
  · obtain ⟨body, rfl⟩ := begins_iff.1 escaped
    rw [if_pos escaped, if_pos escaped]
    exact echo_eq _ _ _ (List.cons_ne_nil _ _) body
  rw [if_neg escaped, if_neg escaped]
  subst same
  by_cases sign : begins "@".toList (c :: rest) = true
  · rw [if_pos sign, slice_front, ok_bind]
    by_cases word : front.getLast?.any isWordChar = true
    · rw [if_pos word, if_neg (fun both => both.2 word)]
      exact copyChar_eq c rest
    · obtain ⟨tail, at_sign⟩ := begins_iff.1 sign
      obtain ⟨rfl, rfl⟩ := List.cons.inj at_sign
      rw [if_neg word, if_pos ⟨sign, word⟩]
      exact directive_eq rest
  · rw [if_neg sign, if_neg (fun both => sign both.1)]
    exact copyChar_eq c rest

end Turns

/-! ## Runs -/

section Runs

variable {source : List Char} {cursor : Cursor}

/-- Between two characters, with what compiling the rest still has to write. -/
def Stands (source : List Char) (cursor : Cursor) : Prop :=
  ∃ front rest, source = front ++ rest ∧ cursor.pos = byteLength front ∧
    cursor.out ++ compileFrom front.getLast? cursor.loops rest = compileFrom none Loops.none source

theorem start_stands (source : List Char) : start.Stands source := ⟨[], source, rfl, rfl, rfl⟩

theorem Stands.isBoundary (stands : cursor.Stands source) : IsBoundary source cursor.pos := by
  obtain ⟨front, rest, rfl, place, -⟩ := stands
  exact place ▸ isBoundary_front front rest

theorem Stands.turn (stands : cursor.Stands source) (inside : cursor.pos < byteLength source) :
    ∃ next, cursor.turn source = .ok next ∧ next.Stands source ∧ cursor.pos < next.pos := by
  obtain ⟨front, rest, rfl, place, written⟩ := stands
  obtain ⟨pos, out, loops⟩ := cursor
  dsimp only at place inside written ⊢
  subst place
  have nonempty : rest ≠ [] := by
    rintro rfl
    rw [List.append_nil] at inside
    exact absurd inside (Nat.lt_irrefl _)
  obtain ⟨c, cs, rfl⟩ := List.exists_cons_of_ne_nil nonempty
  -- The turn is a step on `rest`; its characters move from `rest` to what is in front.
  refine ⟨_, turn_eq front nonempty, ?_, ?_⟩
  · generalize taken : step front.getLast? loops (c :: cs) = s
    have later : compileFrom front.getLast? loops (c :: cs) =
        s.out ++ compileFrom (c :: cs.take s.more).getLast? s.loops (cs.drop s.more) := by rw [compileFrom, taken]
    refine ⟨front ++ c :: cs.take s.more, cs.drop s.more, by simp, byteLength_append.symm, ?_⟩
    rw [later, ← List.append_assoc] at written
    rwa [List.getLast?_append_of_ne_nil _ (List.cons_ne_nil _ _)]
  · exact Nat.lt_add_of_pos_right (byteLength_pos (by simp))

theorem Stands.run (turns : Nat) (stands : cursor.Stands source) :
    ∃ last, cursor.run source turns = .ok last ∧ last.Stands source ∧
      (last.pos = byteLength source ∨ cursor.pos + turns ≤ last.pos) :=
  exists_loop (fun _ stands => stands.isBoundary.le) (fun _ stands => stands.turn) turns stands

theorem Stands.out_eq (stands : cursor.Stands source) (last : cursor.pos = byteLength source) :
    cursor.out = compileFrom none Loops.none source := by
  obtain ⟨front, rest, rfl, place, written⟩ := stands
  have empty : rest = [] := by
    by_contra nonempty
    have positive := byteLength_pos nonempty
    rw [byteLength_append] at last
    omega
  rwa [empty, compileFrom, List.append_nil, ← empty] at written

end Runs

end Cursor

/-- Parts of a text are taken between characters only, and no turn takes another part: each of them begins at a
character, goes on at a later one, and after at most as many turns as there are bytes the whole template is compiled. -/
theorem compile_positions (template : String) :
    (∀ text start stop, (∃ part, slice text start stop = .ok part) ↔
      start ≤ stop ∧ stop ≤ byteLength text ∧ IsBoundary text start ∧ IsBoundary text stop) ∧
    (∀ turns, ∃ cursor, Cursor.start.run template.toList turns = .ok cursor ∧
      IsBoundary template.toList cursor.pos ∧ cursor.pos ≤ byteLength template.toList ∧
      (cursor.pos < byteLength template.toList →
        ∃ next, cursor.turn template.toList = .ok next ∧ cursor.pos < next.pos)) ∧
    ∃ turns ≤ byteLength template.toList, ∃ cursor, Cursor.start.run template.toList turns = .ok cursor ∧
      cursor.pos = byteLength template.toList ∧ String.ofList cursor.out = compile template := by
  refine ⟨fun _ _ _ => exists_slice_iff, fun turns => ?_, byteLength template.toList, Nat.le_refl _, ?_⟩
  · obtain ⟨cursor, ends, stands, -⟩ := (Cursor.start_stands template.toList).run turns
    refine ⟨cursor, ends, stands.isBoundary, stands.isBoundary.le, fun inside => ?_⟩
    obtain ⟨next, here, -, advances⟩ := stands.turn inside
    exact ⟨next, here, advances⟩
  · obtain ⟨cursor, ends, stands, last⟩ := exists_loop_limit (fun _ stands => stands.isBoundary.le)
      (fun _ stands => stands.turn) (Cursor.start_stands template.toList)
    exact ⟨cursor, ends, last, congrArg String.ofList (stands.out_eq last)⟩

end Phrasebook.Template
