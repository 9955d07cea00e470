import Phrasebook.Proofs.Php.Escapes
import Phrasebook.Proofs.Template.Balance
import Phrasebook.Proofs.Text.Offsets

/-!
# The closing parenthesis among the bytes

The end of a list of arguments can be searched for among the bytes of a template, by an index that goes on by one byte,
or by two where a backslash hides the next byte. This byte may be the first one of a longer character.
-/

namespace Phrasebook.Template

open Utf8 Php

/-! ## The search -/

structure ByteNesting where
  depth : Nat
  quote : Option UInt8
  deriving DecidableEq, Repr

def isQuoteByte (b : UInt8) : Bool := b == byteOf '\'' || b == byteOf '"'

inductive Turn
  | closed
  | goesOn (hidden : Nat) (nesting : ByteNesting)
  deriving DecidableEq, Repr

def ByteNesting.turn (nesting : ByteNesting) (b : UInt8) : Checked Turn :=
  match nesting.quote with
  | some quote =>
    if b = byteOf '\\' then .ok (.goesOn 1 nesting)
    else if b = quote then .ok (.goesOn 0 { nesting with quote := none })
    else .ok (.goesOn 0 nesting)
  | none =>
    if isQuoteByte b then .ok (.goesOn 0 { nesting with quote := some b })
    else if b = byteOf '(' then .ok (.goesOn 0 { nesting with depth := nesting.depth + 1 })
    else if b = byteOf ')' then do
      let depth ← difference nesting.depth 1
      return if depth = 0 then .closed else .goesOn 0 { nesting with depth := depth }
    else .ok (.goesOn 0 nesting)

def closingFrom? (bytes : List UInt8) (nesting : ByteNesting) (i : Nat) : Checked (Option Nat) :=
  if inside : i < bytes.length then
    match nesting.turn bytes[i] with
    | .error fault => .error fault
    | .ok .closed => .ok (some i)
    | .ok (.goesOn hidden next) => closingFrom? bytes next (i + hidden + 1)
  else .ok none
termination_by bytes.length - i

def closingParenthesis? (bytes : List UInt8) (start : Nat) : Checked (Option Nat) :=
  closingFrom? bytes ⟨0, none⟩ start

/-! ## Bytes outside of strings -/

/-- Where a byte stands: outside of strings, in a string, or behind a backslash in it. -/
inductive Place
  | code
  | quoted (quote : UInt8)
  | hidden (quote : UInt8)
  deriving DecidableEq, Repr

def Place.after : Place → UInt8 → Place
  | code, b => if isQuoteByte b then quoted b else code
  | quoted quote, b => if b = byteOf '\\' then hidden quote else if b = quote then code else quoted quote
  | hidden quote, _ => quoted quote

def placeAfter (bytes : List UInt8) : Place := bytes.foldl Place.after .code

def codeFrom (place : Place) : List UInt8 → List UInt8
  | [] => []
  | b :: bytes => if place = .code then b :: codeFrom (place.after b) bytes else codeFrom (place.after b) bytes

def depthAfter (bytes : List UInt8) : Int :=
  (codeFrom .code bytes).count (byteOf '(') - (codeFrom .code bytes).count (byteOf ')')

def between (bytes : List UInt8) (start stop : Nat) : List UInt8 := (bytes.take stop).drop start

structure ClosesAt (bytes : List UInt8) (start i : Nat) : Prop where
  behind : start ≤ i
  parenthesis : bytes[i]? = some (byteOf ')')
  outside : placeAfter (between bytes start i) = .code
  depth : depthAfter (between bytes start (i + 1)) = 0

section Bytes

variable {bytes : List UInt8} {start i j : Nat} {b : UInt8}

theorem placeAfter_concat (bytes : List UInt8) (b : UInt8) :
    placeAfter (bytes ++ [b]) = (placeAfter bytes).after b := by
  rw [placeAfter, List.foldl_append]
  rfl

theorem codeFrom_append (place : Place) (bytes rest : List UInt8) :
    codeFrom place (bytes ++ rest) = codeFrom place bytes ++ codeFrom (bytes.foldl Place.after place) rest := by
  induction bytes generalizing place with
  | nil => rfl
  | cons b bytes ih =>
      rw [List.cons_append, codeFrom, codeFrom, ih, List.foldl_cons]
      split <;> rfl

def change (b : UInt8) : Place → Int
  | .code => if b = byteOf '(' then 1 else if b = byteOf ')' then -1 else 0
  | _ => 0

theorem count_codeFrom_single (b : UInt8) (place : Place) :
    ((codeFrom place [b]).count (byteOf '(') : Int) - (codeFrom place [b]).count (byteOf ')') = change b place := by
  cases place with
  | code =>
      rw [codeFrom, if_pos rfl, codeFrom, change, List.count_singleton, List.count_singleton]
      by_cases opening : b = byteOf '('
      · subst opening
        rfl
      · by_cases closing : b = byteOf ')'
        · subst closing
          rfl
        · simp [opening, closing]
  | quoted quote => rfl
  | hidden quote => rfl

theorem depthAfter_concat (bytes : List UInt8) (b : UInt8) :
    depthAfter (bytes ++ [b]) = depthAfter bytes + change b (placeAfter bytes) := by
  have last : codeFrom .code (bytes ++ [b]) = codeFrom .code bytes ++ codeFrom (placeAfter bytes) [b] :=
    codeFrom_append .code bytes [b]
  rw [depthAfter, last, List.count_append, List.count_append, depthAfter, ← count_codeFrom_single]
  omega

theorem between_succ (behind : start ≤ i) (here : bytes[i]? = some b) :
    between bytes start (i + 1) = between bytes start i ++ [b] := by
  obtain ⟨inside, same⟩ := List.getElem?_eq_some_iff.1 here
  rw [between, List.take_add_one, here, List.drop_append_of_le_length (by rw [List.length_take]; omega)]
  rfl

theorem between_self (bytes : List UInt8) (start : Nat) : between bytes start start = [] := by
  rw [between, List.drop_eq_nil_iff, List.length_take]
  exact Nat.min_le_left _ _

end Bytes

/-! ## What the search keeps true -/

def OpenUpTo (bytes : List UInt8) (start i : Nat) : Prop :=
  ∀ j, start < j → j ≤ i → j ≤ bytes.length → 1 ≤ depthAfter (between bytes start j)

theorem OpenUpTo.not_closesAt {bytes : List UInt8} {start i j : Nat} (isOpen : OpenUpTo bytes start i)
    (before : j < i) :
    ¬ ClosesAt bytes start j := by
  intro closes
  have inside := (List.getElem?_eq_some_iff.1 closes.parenthesis).1
  have deep := isOpen (j + 1) (Nat.lt_succ_of_le closes.behind) before inside
  rw [closes.depth] at deep
  omega

/-- What the search knows when it comes to an index. Behind the last byte it need not know anything. -/
structure ScannedTo (bytes : List UInt8) (start i : Nat) (place : Place) (depth : Nat) : Prop where
  started : start < i
  isOpen : OpenUpTo bytes start i
  placed : i ≤ bytes.length → placeAfter (between bytes start i) = place
  deep : i ≤ bytes.length → depthAfter (between bytes start i) = depth
  positive : 1 ≤ depth

def ByteNesting.place (nesting : ByteNesting) : Place :=
  match nesting.quote with
  | none => .code
  | some quote => .quoted quote

section Turns

variable {bytes : List UInt8} {start i depth more : Nat} {b : UInt8} {place other : Place} {nesting : ByteNesting}

theorem ScannedTo.opening (opens : bytes[start]? = some (byteOf '(')) : ScannedTo bytes start (start + 1) .code 1 := by
  have inside := (List.getElem?_eq_some_iff.1 opens).1
  have single : between bytes start (start + 1) = [byteOf '('] := by
    rw [between_succ (Nat.le_refl start) opens, between_self, List.nil_append]
  refine ⟨Nat.lt_succ_self start, ?_, fun _ => by rw [single]; rfl, fun _ => by rw [single]; rfl, Nat.le_refl 1⟩
  intro j started upTo _
  obtain rfl : j = start + 1 := by omega
  rw [single]
  decide

theorem ScannedTo.depth_succ (scanned : ScannedTo bytes start i place depth) (here : bytes[i]? = some b) :
    depthAfter (between bytes start (i + 1)) = depth + change b place := by
  have inside := (List.getElem?_eq_some_iff.1 here).1
  rw [between_succ scanned.started.le here, depthAfter_concat, scanned.placed inside.le, scanned.deep inside.le]

theorem ScannedTo.succ (scanned : ScannedTo bytes start i place depth) (here : bytes[i]? = some b)
    (changed : depth + change b place = more) (positive : 1 ≤ more) :
    ScannedTo bytes start (i + 1) (place.after b) more := by
  have inside := (List.getElem?_eq_some_iff.1 here).1
  have behind : depthAfter (between bytes start (i + 1)) = more := (scanned.depth_succ here).trans changed
  refine ⟨Nat.lt_succ_of_lt scanned.started, ?_, fun _ => ?_, fun _ => behind, positive⟩
  · intro j started upTo within
    rcases Nat.lt_or_eq_of_le upTo with before | rfl
    · exact scanned.isOpen j started (Nat.lt_succ_iff.1 before) within
    · rw [behind]
      exact_mod_cast positive
  · rw [between_succ scanned.started.le here, placeAfter_concat, scanned.placed inside.le]

theorem ScannedTo.keep (scanned : ScannedTo bytes start i place depth) (here : bytes[i]? = some b)
    (same : change b place = 0) : ScannedTo bytes start (i + 1) (place.after b) depth :=
  scanned.succ here (by rw [same, Int.add_zero]) scanned.positive

theorem ScannedTo.beyond (scanned : ScannedTo bytes start i place depth) (last : bytes.length ≤ i) :
    ScannedTo bytes start (i + 1) other depth := by
  refine ⟨Nat.lt_succ_of_lt scanned.started, ?_, fun _ => by omega, fun _ => by omega, scanned.positive⟩
  intro j started _ within
  exact scanned.isOpen j started (within.trans last) within

def Turn.Holds (bytes : List UInt8) (start i : Nat) : Turn → Prop
  | closed => ClosesAt bytes start i
  | goesOn hidden next => ScannedTo bytes start (i + hidden + 1) next.place next.depth

theorem ScannedTo.turn_quoted {quote : UInt8} (scanned : ScannedTo bytes start i (.quoted quote) depth)
    (here : bytes[i]? = some b) :
    ∃ turn, ByteNesting.turn ⟨depth, some quote⟩ b = .ok turn ∧ turn.Holds bytes start i := by
  have next : ScannedTo bytes start (i + 1) ((Place.quoted quote).after b) depth := scanned.keep here rfl
  by_cases escape : b = byteOf '\\'
  · have place : (Place.quoted quote).after b = .hidden quote := if_pos escape
    rw [place] at next
    refine ⟨.goesOn 1 ⟨depth, some quote⟩, if_pos escape, ?_⟩
    cases hidden : bytes[i + 1]? with
    | some c => exact next.keep hidden rfl
    | none => exact next.beyond (List.getElem?_eq_none_iff.1 hidden)
  · by_cases ends : b = quote
    · have place : (Place.quoted quote).after b = .code := (if_neg escape).trans (if_pos ends)
      rw [place] at next
      exact ⟨.goesOn 0 ⟨depth, none⟩, (if_neg escape).trans (if_pos ends), next⟩
    · have place : (Place.quoted quote).after b = .quoted quote := (if_neg escape).trans (if_neg ends)
      rw [place] at next
      exact ⟨.goesOn 0 ⟨depth, some quote⟩, (if_neg escape).trans (if_neg ends), next⟩

theorem ScannedTo.turn_code (scanned : ScannedTo bytes start i .code depth) (here : bytes[i]? = some b) :
    ∃ turn, ByteNesting.turn ⟨depth, none⟩ b = .ok turn ∧ turn.Holds bytes start i := by
  cases quotes : isQuoteByte b with
  | true =>
      have same : change b .code = 0 := by
        simp only [isQuoteByte, Bool.or_eq_true, beq_iff_eq] at quotes
        rcases quotes with rfl | rfl <;> rfl
      have next := scanned.keep here same
      have place : Place.code.after b = .quoted b := if_pos quotes
      rw [place] at next
      exact ⟨.goesOn 0 ⟨depth, some b⟩, if_pos quotes, next⟩
  -- Only a parenthesis moves the depth here, so each kind of byte has its own equation for `change`.
  | false =>
      have plain := Bool.eq_false_iff.1 quotes
      have place : Place.code.after b = .code := if_neg plain
      by_cases opening : b = byteOf '('
      · have deeper : depth + change b .code = (depth + 1 : Nat) := by
          rw [change, if_pos opening]
          rfl
        have next := scanned.succ here deeper (Nat.le_add_left 1 depth)
        rw [place] at next
        exact ⟨.goesOn 0 ⟨depth + 1, none⟩, (if_neg plain).trans (if_pos opening), next⟩
      by_cases closing : b = byteOf ')'
      · obtain ⟨rest, rfl⟩ := Nat.exists_eq_add_of_le scanned.positive
        have minus : change b .code = -1 := (if_neg opening).trans (if_pos closing)
        have less : ByteNesting.turn ⟨1 + rest, none⟩ b =
            .ok (if rest = 0 then .closed else .goesOn 0 ⟨rest, none⟩) := by
          rw [ByteNesting.turn, if_neg plain, if_neg opening, if_pos closing, difference_of_add]
          rfl
        refine ⟨_, less, ?_⟩
        split
        · rename_i last
          have inside := (List.getElem?_eq_some_iff.1 here).1
          refine ⟨scanned.started.le, closing ▸ here, scanned.placed inside.le, ?_⟩
          rw [scanned.depth_succ here, minus, last]
          rfl
        · rename_i inner
          have lower : (1 + rest : Nat) + change b .code = rest := by
            rw [minus]
            omega
          have next := scanned.succ here lower (Nat.one_le_iff_ne_zero.2 inner)
          rw [place] at next
          exact next
      · have next := scanned.keep here ((if_neg opening).trans (if_neg closing))
        rw [place] at next
        exact ⟨.goesOn 0 ⟨depth, none⟩, (if_neg plain).trans ((if_neg opening).trans (if_neg closing)), next⟩

theorem ScannedTo.turn (scanned : ScannedTo bytes start i nesting.place nesting.depth) (here : bytes[i]? = some b) :
    ∃ turn, nesting.turn b = .ok turn ∧ turn.Holds bytes start i := by
  obtain ⟨depth, quote | quote⟩ := nesting
  · exact scanned.turn_code here
  · exact scanned.turn_quoted here

theorem closingFrom?_exact (bytes : List UInt8) (nesting : ByteNesting) (i : Nat)
    (scanned : ScannedTo bytes start i nesting.place nesting.depth) :
    ∃ result, closingFrom? bytes nesting i = .ok result ∧ (∀ found ∈ result, ClosesAt bytes start found) ∧
      OpenUpTo bytes start (result.getD bytes.length) := by
  rw [closingFrom?]
  split
  · rename_i inside
    have here : bytes[i]? = some bytes[i] := List.getElem?_eq_getElem inside
    obtain ⟨turn, taken, holds⟩ := scanned.turn here
    rw [taken]
    cases turn with
    | closed =>
        refine ⟨some i, rfl, ?_, scanned.isOpen⟩
        rintro found ⟨⟩
        exact holds
    | goesOn hidden next => exact closingFrom?_exact bytes next (i + hidden + 1) holds
  · rename_i outside
    refine ⟨none, rfl, nofun, fun j started _ within => ?_⟩
    exact scanned.isOpen j started (within.trans (Nat.le_of_not_lt outside)) within
termination_by bytes.length - i

end Turns

/-! ## Bytes and characters -/

section Characters

variable {bytes front tail : List UInt8} {b : UInt8} {hidden depth : Nat} {nesting next : ByteNesting}
  {quote : Option Char} {c : Char} {text : List Char}

theorem closingFrom?_goesOn (rest : List UInt8) (taken : nesting.turn b = .ok (.goesOn hidden next)) :
    closingFrom? (front ++ b :: rest) nesting front.length =
      closingFrom? (front ++ b :: rest) next (front.length + hidden + 1) := by
  have inside : front.length < (front ++ b :: rest).length := by simp
  have here : (front ++ b :: rest)[front.length] = b := by simp
  rw [closingFrom?, dif_pos inside, here, taken]

theorem closingFrom?_closed (rest : List UInt8) (taken : nesting.turn b = .ok .closed) :
    closingFrom? (front ++ b :: rest) nesting front.length = .ok (some front.length) := by
  have inside : front.length < (front ++ b :: rest).length := by simp
  have here : (front ++ b :: rest)[front.length] = b := by simp
  rw [closingFrom?, dif_pos inside, here, taken]

def Nesting.toBytes (nesting : Nesting) : ByteNesting := ⟨nesting.depth, nesting.quote.map byteOf⟩

def Nesting.IsProper (nesting : Nesting) : Prop := ∀ quote ∈ nesting.quote, isQuote quote = true

theorem Nesting.isProper_code (depth : Nat) : IsProper ⟨depth, none⟩ := by
  rintro quote ⟨⟩

theorem isQuote_ascii (quotes : isQuote c = true) : c.toNat < 128 := by
  simp only [isQuote, Bool.or_eq_true, beq_iff_eq] at quotes
  rcases quotes with rfl | rfl <;> decide

theorem byteOf_inj {c d : Char} (ascii : c.toNat < 128) (other : d.toNat < 128) : byteOf c = byteOf d ↔ c = d := by
  constructor
  · intro same
    rw [← charOf_byteOf ascii, same, charOf_byteOf other]
  · rintro rfl
    rfl

theorem turn_high {nesting : Nesting} (proper : nesting.IsProper) (high : 128 ≤ b.toNat) :
    nesting.toBytes.turn b = .ok (.goesOn 0 nesting.toBytes) := by
  have other (c : Char) (ascii : c.toNat < 128) : b ≠ byteOf c := by
    rintro rfl
    rw [byteOf, toNat_ofNat (by omega)] at high
    omega
  obtain ⟨depth, quote⟩ := nesting
  cases quote with
  | none =>
      simp [Nesting.toBytes, ByteNesting.turn, isQuoteByte, other '\'' (by decide), other '"' (by decide),
        other '(' (by decide), other ')' (by decide)]
  | some quote =>
      simp [Nesting.toBytes, ByteNesting.turn, other '\\' (by decide), other quote (isQuote_ascii (proper quote rfl))]

theorem closingFrom?_high {nesting : Nesting} (proper : nesting.IsProper) (front rest : List UInt8)
    (high : ∀ b ∈ tail, 128 ≤ b.toNat) :
    closingFrom? (front ++ (tail ++ rest)) nesting.toBytes front.length =
      closingFrom? (front ++ (tail ++ rest)) nesting.toBytes (front ++ tail).length := by
  induction tail generalizing front with
  | nil => rw [List.append_nil]
  | cons b tail ih =>
      rw [List.forall_mem_cons] at high
      have later := @ih (front ++ [b]) high.2
      rw [List.append_assoc, List.append_assoc, List.length_append] at later
      rw [List.cons_append, closingFrom?_goesOn _ (turn_high proper high.1)]
      exact later

theorem turn_ascii {nesting : Nesting} (proper : nesting.IsProper) (positive : 1 ≤ nesting.depth)
    (ascii : c.toNat < 128) (noEscape : ¬ (nesting.quote.isSome ∧ c = '\\')) :
    nesting.toBytes.turn (byteOf c) = .ok (match nesting.next? c with
      | none => .closed
      | some next => .goesOn 0 next.toBytes) := by
  have same (d : Char) (other : d.toNat < 128) : byteOf c = byteOf d ↔ c = d := byteOf_inj ascii other
  obtain ⟨depth, quote⟩ := nesting
  cases quote with
  | some quote =>
      have plain : byteOf c ≠ byteOf '\\' := fun escape => noEscape ⟨rfl, (same '\\' (by decide)).1 escape⟩
      have quotes := same quote (isQuote_ascii (proper quote rfl))
      simp only [Nesting.toBytes, ByteNesting.turn, Nesting.next?, Option.map_some, plain, if_false, quotes]
      split <;> rfl
  | none =>
      obtain ⟨rest, rfl⟩ := Nat.exists_eq_add_of_le positive
      simp only [Nesting.toBytes, ByteNesting.turn, Nesting.next?, Option.map_none, isQuoteByte, Bool.or_eq_true,
        beq_iff_eq, same '\'' (by decide), same '"' (by decide), same '(' (by decide), same ')' (by decide)]
      split
      · rfl
      · split
        · rfl
        · split
          · rw [difference_of_add, Nat.add_sub_cancel_left]
            cases rest with
            | zero => rfl
            | succ rest =>
                rw [if_neg (by omega)]
                rfl
          · rfl

theorem Nesting.next?_proper {nesting next : Nesting} (proper : nesting.IsProper) (positive : 1 ≤ nesting.depth)
    (goesOn : nesting.next? c = some next) : next.IsProper ∧ 1 ≤ next.depth := by
  rw [Nesting.next?] at goesOn
  split at goesOn
  · cases goesOn
    split
    · exact ⟨isProper_code _, positive⟩
    · exact ⟨proper, positive⟩
  · split at goesOn
    · rename_i quotes
      cases goesOn
      refine ⟨?_, positive⟩
      rintro quote ⟨⟩
      rcases quotes with rfl | rfl <;> rfl
    · split at goesOn
      · cases goesOn
        exact ⟨proper, Nat.le_succ_of_le positive⟩
      · split at goesOn
        · split at goesOn
          · cases goesOn
          · cases goesOn
            exact ⟨proper, by dsimp only; omega⟩
        · cases goesOn
          exact ⟨proper, positive⟩

theorem next?_high {nesting : Nesting} (proper : nesting.IsProper) (high : 128 ≤ c.toNat) :
    nesting.next? c = some nesting := by
  have other (d : Char) (ascii : d.toNat < 128) : c ≠ d := by
    rintro rfl
    omega
  obtain ⟨depth, quote⟩ := nesting
  cases quote with
  | none =>
      simp [Nesting.next?, other '\'' (by decide), other '"' (by decide), other '(' (by decide), other ')' (by decide)]
  | some quote => simp [Nesting.next?, other quote (isQuote_ascii (proper quote rfl))]

theorem encodeChar_eq_cons (c : Char) : ∃ lead tail, encodeChar c = lead :: tail ∧ ∀ b ∈ tail, 128 ≤ b.toNat := by
  by_cases ascii : c.toNat < 128
  · exact ⟨_, [], encodeChar_ascii ascii, nofun⟩
  · obtain ⟨lead, tail, bytes, -⟩ := next_encodeChar c
    refine ⟨lead, tail, bytes, fun b mem => ?_⟩
    exact high_of_mem_encodeChar (Nat.le_of_not_lt ascii) (bytes ▸ List.mem_cons_of_mem lead mem)

theorem turn_escape {nesting : Nesting} (quoted : nesting.quote.isSome = true) :
    nesting.toBytes.turn (byteOf '\\') = .ok (.goesOn 1 nesting.toBytes) := by
  obtain ⟨quote, same⟩ := Option.isSome_iff_exists.1 quoted
  simp [Nesting.toBytes, ByteNesting.turn, same]

theorem encode_cons_eq (c : Char) (text : List Char) : encode (c :: text) = encodeChar c ++ encode text := rfl

theorem closingFrom?_end {nesting : ByteNesting} {i : Nat} (last : bytes.length ≤ i) :
    closingFrom? bytes nesting i = .ok none := by
  rw [closingFrom?, dif_neg (Nat.not_lt.2 last)]

theorem closingFrom?_encode (nesting : Nesting) (front : List UInt8) (text : List Char) (proper : nesting.IsProper)
    (positive : 1 ≤ nesting.depth) :
    closingFrom? (front ++ encode text) nesting.toBytes front.length =
      .ok ((closing? nesting text).map (inBytes front.length text)) := by
  match text with
  | [] => exact closingFrom?_end (by simp [encode])
  | c :: text =>
      by_cases escape : nesting.quote.isSome ∧ c = '\\'
      · obtain ⟨quoted, rfl⟩ := escape
        rw [closing?.eq_def]
        dsimp only
        rw [if_pos ⟨quoted, rfl⟩, encode_cons (by decide), closingFrom?_goesOn _ (turn_escape quoted)]
        match text with
        | [] => exact closingFrom?_end (by simp [encode])
        | d :: text =>
            -- The backslash hides the first byte of a character; the others, if any, are passed one by one.
            obtain ⟨lead, tail, bytes, high⟩ := encodeChar_eq_cons d
            have split : front ++ byteOf '\\' :: encode (d :: text) =
                (front ++ [byteOf '\\', lead]) ++ (tail ++ encode text) := by
              rw [encode_cons_eq, bytes]
              simp
            have place : front.length + byteLength ['\\', d] = (front ++ [byteOf '\\', lead] ++ tail).length := by
              rw [byteLength_cons, byteLength_cons, encodeChar_ascii (by decide), bytes]
              simp [byteLength, encode]
              omega
            have moved := map_inBytes front.length ['\\', d] text (closing? nesting text)
            have later := closingFrom?_encode nesting (front ++ [byteOf '\\', lead] ++ tail) text proper positive
            rw [← place, List.append_assoc _ tail] at later
            rw [split, show front.length + 1 + 1 = (front ++ [byteOf '\\', lead]).length by simp]
            refine (closingFrom?_high proper (front ++ [byteOf '\\', lead]) (encode text) high).trans ?_
            rw [← place]
            exact later.trans (congrArg Except.ok moved.symm)
      · have place : front.length + byteLength [c] = (front ++ encodeChar c).length := by
          rw [List.length_append, byteLength_cons]
          rfl
        have moved (found : Option Nat) := map_inBytes front.length [c] text found
        rw [closing?.eq_def]
        dsimp only
        rw [if_neg escape]
        by_cases ascii : c.toNat < 128
        · have turn := turn_ascii proper positive ascii escape
          rw [encode_cons ascii]
          cases goesOn : nesting.next? c with
          | none =>
              rw [goesOn] at turn
              exact closingFrom?_closed _ turn
          | some next =>
              rw [goesOn] at turn
              obtain ⟨properly, more⟩ := Nesting.next?_proper proper positive goesOn
              have later := closingFrom?_encode next (front ++ [byteOf c]) text properly more
              rw [List.append_assoc] at later
              rw [closingFrom?_goesOn _ turn, show front.length + 0 + 1 = (front ++ [byteOf c]).length by simp]
              refine Eq.trans later (congrArg Except.ok ?_)
              have same : front.length + byteLength [c] = (front ++ [byteOf c]).length := by
                rw [place, encodeChar_ascii ascii]
                rfl
              exact (same ▸ moved _).symm
        · have high : ∀ b ∈ encodeChar c, 128 ≤ b.toNat :=
            fun b mem => high_of_mem_encodeChar (Nat.le_of_not_lt ascii) mem
          have later := closingFrom?_encode nesting (front ++ encodeChar c) text proper positive
          rw [List.append_assoc, ← place] at later
          rw [next?_high proper (Nat.le_of_not_lt ascii), encode_cons_eq]
          refine (closingFrom?_high proper _ (encode text) high).trans ?_
          rw [← place]
          exact later.trans (congrArg Except.ok (moved _).symm)
termination_by text.length

end Characters

/-! ## The parenthesis that closes -/

section Parentheses

variable {text : List Char} {start i : Nat}

theorem closingParenthesis?_opening (front rest : List Char) :
    closingParenthesis? (encode (front ++ '(' :: rest)) (byteLength front) =
      .ok ((matching? ('(' :: rest)).map (inBytes (byteLength front) ('(' :: rest))) := by
  have opening : ByteNesting.turn ⟨0, none⟩ (byteOf '(') = .ok (.goesOn 0 (Nesting.toBytes ⟨1, none⟩)) := rfl
  -- The search goes on behind the parenthesis, with one byte more in front of it.
  have later := closingFrom?_encode ⟨1, none⟩ (encode front ++ [byteOf '(']) rest (Nesting.isProper_code 1) (Nat.le_refl 1)
  rw [List.append_assoc] at later
  have moved := map_inBytes (byteLength front) ['('] rest (closing? ⟨1, none⟩ rest)
  have place : byteLength front + byteLength ['('] = (encode front ++ [byteOf '(']).length := by
    have one : byteLength ['('] = 1 := byteLength_ascii (List.forall_mem_singleton.2 (by decide))
    rw [List.length_append, one]
    rfl
  rw [closingParenthesis?, encode_append, encode_cons (by decide)]
  refine (closingFrom?_goesOn _ opening).trans (Eq.trans ?_ (congrArg Except.ok moved.symm))
  rw [place, ← later]
  simp

theorem ClosesAt.isBoundary (closes : ClosesAt (encode text) start i) :
    IsBoundary text i ∧ IsBoundary text (i + 1) := by
  obtain ⟨front, c, back, rfl, rfl, same⟩ := exists_char_of_ascii closes.parenthesis (by decide)
  refine ⟨isBoundary_front front (c :: back), front ++ [c], by simp, ?_⟩
  have ascii : c.toNat < 128 := same ▸ by decide
  have one : byteLength [c] = 1 := byteLength_ascii (List.forall_mem_singleton.2 ascii)
  rw [byteLength_append, one]

/-- The search never fails. It finds the first closing parenthesis outside of strings that brings the depth to zero, if
there is one; up to there the depth is positive. This parenthesis is a character of the text, and it is the one that
matches among the characters. -/
theorem closingParenthesis?_exact (opens : (encode text)[start]? = some (byteOf '(')) :
    ∃ result, closingParenthesis? (encode text) start = .ok result ∧
      (∀ i, result = some i ↔ ClosesAt (encode text) start i ∧ ∀ j < i, ¬ ClosesAt (encode text) start j) ∧
      (result = none ↔ ∀ i, ¬ ClosesAt (encode text) start i) ∧
      OpenUpTo (encode text) start (result.getD (byteLength text)) ∧
      (∀ i ∈ result, IsBoundary text i ∧ IsBoundary text (i + 1)) ∧
      ∃ front rest, text = front ++ '(' :: rest ∧ byteLength front = start ∧
        result = (matching? ('(' :: rest)).map (inBytes start ('(' :: rest)) := by
  have inside := (List.getElem?_eq_some_iff.1 opens).1
  have opening : ByteNesting.turn ⟨0, none⟩ (encode text)[start] = .ok (.goesOn 0 ⟨1, none⟩) := by
    rw [(List.getElem?_eq_some_iff.1 opens).2]
    rfl
  obtain ⟨result, ends, closes, isOpen⟩ :=
    closingFrom?_exact (encode text) ⟨1, none⟩ (start + 0 + 1) (ScannedTo.opening opens)
  have search : closingParenthesis? (encode text) start = .ok result := by
    rw [closingParenthesis?, closingFrom?, dif_pos inside, opening]
    exact ends
  refine ⟨result, search, ?_, ?_, isOpen, fun i mem => (closes i mem).isBoundary, ?_⟩
  · intro i
    constructor
    · rintro rfl
      exact ⟨closes i rfl, fun j before => isOpen.not_closesAt before⟩
    · rintro ⟨here, first⟩
      cases result with
      | none => exact absurd here (isOpen.not_closesAt (List.getElem?_eq_some_iff.1 here.parenthesis).1)
      | some found =>
          rcases Nat.lt_trichotomy found i with before | same | behind
          · exact absurd (closes found rfl) (first found before)
          · rw [same]
          · exact absurd here (isOpen.not_closesAt behind)
  · constructor
    · rintro rfl i here
      exact isOpen.not_closesAt (List.getElem?_eq_some_iff.1 here.parenthesis).1 here
    · intro never
      cases result with
      | none => rfl
      | some found => exact absurd (closes found rfl) (never found)
  · obtain ⟨front, c, rest, rfl, rfl, same⟩ := exists_char_of_ascii opens (by decide)
    obtain rfl : c = '(' := Char.toNat_inj.1 same
    refine ⟨front, rest, rfl, rfl, ?_⟩
    rw [closingParenthesis?_opening] at search
    exact (Except.ok.inj search).symm

end Parentheses

def escapedAccent : List Char := "é('\\é)', (\"(\"))]".toList

theorem closingParenthesis?_exact_accent :
    (encode escapedAccent)[2]? = some (byteOf '(') ∧ closingParenthesis? (encode escapedAccent) 2 = .ok (some 16) ∧
      ClosesAt (encode escapedAccent) 2 16 ∧ IsBoundary escapedAccent 16 ∧ IsBoundary escapedAccent 17 := by
  have opens : (encode escapedAccent)[2]? = some (byteOf '(') := by decide +kernel
  have found : closingParenthesis? (encode escapedAccent) 2 = .ok (some 16) := by decide +kernel
  obtain ⟨result, search, first, -, -, boundaries, -⟩ := closingParenthesis?_exact opens
  rw [found] at search
  cases search
  exact ⟨opens, found, ((first 16).1 rfl).1, boundaries 16 rfl⟩

end Phrasebook.Template
