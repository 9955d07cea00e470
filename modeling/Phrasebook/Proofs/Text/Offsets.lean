import Mathlib.Data.List.Infix
import Mathlib.Data.List.TakeWhile
import Phrasebook.Proofs.Text.Utf8
import Phrasebook.Proofs.Text.Search

namespace Phrasebook.Utf8

inductive Fault
  | slice (start stop : Nat)
  | index (offset : Nat)
  | underflow
  deriving DecidableEq, Repr

abbrev Checked := Except Fault

theorem ok_bind {α β : Type} (a : α) (f : α → Checked β) : (Except.ok a >>= f) = f a := rfl

def difference (n m : Nat) : Checked Nat := if m ≤ n then .ok (n - m) else .error .underflow

theorem difference_of_add (n m : Nat) : difference (n + m) n = .ok m := by
  rw [difference, if_pos (Nat.le_add_right n m), Nat.add_sub_cancel_left]

section Loops

variable {State : Type} {position : State → Nat} {limit : Nat} {turn : State → Checked State} {holds : State → Prop}

/-- At most so many turns, as long as the position is below a limit. -/
def loop (position : State → Nat) (limit : Nat) (turn : State → Checked State) : Nat → State → Checked State
  | 0, state => .ok state
  | turns + 1, state =>
    if position state < limit then do loop position limit turn turns (← turn state) else .ok state

theorem exists_loop (within : ∀ state, holds state → position state ≤ limit)
    (advance : ∀ state, holds state → position state < limit →
      ∃ next, turn state = .ok next ∧ holds next ∧ position state < position next)
    (turns : Nat) {state : State} (here : holds state) :
    ∃ last, loop position limit turn turns state = .ok last ∧ holds last ∧
      (position last = limit ∨ position state + turns ≤ position last) := by
  induction turns generalizing state with
  | zero => exact ⟨state, rfl, here, .inr (Nat.le_refl _)⟩
  | succ turns ih =>
      by_cases below : position state < limit
      · obtain ⟨next, goes, later, further⟩ := advance state here below
        obtain ⟨last, ends, still, far⟩ := ih later
        refine ⟨last, ?_, still, far.imp_right fun far => by omega⟩
        rw [loop, if_pos below, goes, ok_bind, ends]
      · refine ⟨state, ?_, here, .inl (Nat.le_antisymm (within state here) (Nat.le_of_not_lt below))⟩
        rw [loop, if_neg below]

theorem exists_loop_limit (within : ∀ state, holds state → position state ≤ limit)
    (advance : ∀ state, holds state → position state < limit →
      ∃ next, turn state = .ok next ∧ holds next ∧ position state < position next)
    {state : State} (here : holds state) :
    ∃ last, loop position limit turn limit state = .ok last ∧ holds last ∧ position last = limit := by
  obtain ⟨last, ends, still, at_limit | far⟩ := exists_loop within advance limit here
  · exact ⟨last, ends, still, at_limit⟩
  · exact ⟨last, ends, still, Nat.le_antisymm (within last still) (Nat.le_of_add_left_le far)⟩

end Loops

section Lengths

variable {front back text : List Char}

def byteLength (text : List Char) : Nat := (encode text).length

theorem byteLength_append : byteLength (front ++ back) = byteLength front + byteLength back := by
  rw [byteLength, encode_append, List.length_append]
  rfl

theorem byteLength_cons (c : Char) (text : List Char) :
    byteLength (c :: text) = (encodeChar c).length + byteLength text := by
  rw [byteLength, encode, List.flatMap_cons, List.length_append]
  rfl

theorem encodeChar_length_pos (c : Char) : 0 < (encodeChar c).length := by
  obtain ⟨lead, tail, bytes, -⟩ := next_encodeChar c
  rw [bytes]
  exact Nat.succ_pos _

theorem byteLength_pos (some : text ≠ []) : 0 < byteLength text := by
  obtain ⟨c, text, rfl⟩ := List.exists_cons_of_ne_nil some
  rw [byteLength_cons]
  exact Nat.add_pos_left (encodeChar_length_pos c) _

theorem byteLength_ascii (ascii : ∀ c ∈ text, c.toNat < 128) : byteLength text = text.length := by
  induction text with
  | nil => rfl
  | cons c text ih =>
      rw [List.forall_mem_cons] at ascii
      rw [byteLength_cons, encodeChar_ascii ascii.1, ih ascii.2, List.length_cons, Nat.add_comm]
      rfl

theorem byteLength_le_of_prefix (lead : front <+: text) : byteLength front ≤ byteLength text := by
  obtain ⟨back, rfl⟩ := lead
  rw [byteLength_append]
  exact Nat.le_add_right _ _

theorem prefix_of_byteLength_le {other : List Char} (lead : front <+: text) (other_lead : other <+: text)
    (shorter : byteLength front ≤ byteLength other) : front <+: other := by
  rcases List.prefix_or_prefix_of_prefix lead other_lead with here | ⟨more, rfl⟩
  · exact here
  · have empty : more = [] := by
      by_contra some
      have pos := byteLength_pos some
      rw [byteLength_append] at shorter
      omega
    rw [empty, List.append_nil]

end Lengths

section Slices

variable {text front part back : List Char} {start stop offset : Nat}

/-- A place between two characters of a text, or one of its ends. -/
def IsBoundary (text : List Char) (offset : Nat) : Prop := ∃ front, front <+: text ∧ byteLength front = offset

theorem IsBoundary.le (boundary : IsBoundary text offset) : offset ≤ byteLength text := by
  obtain ⟨front, lead, rfl⟩ := boundary
  exact byteLength_le_of_prefix lead

theorem isBoundary_front (front back : List Char) : IsBoundary (front ++ back) (byteLength front) :=
  ⟨front, List.prefix_append front back, rfl⟩

def splitAt? : Nat → List Char → Option (List Char × List Char)
  | 0, text => some ([], text)
  | _ + 1, [] => none
  | offset + 1, c :: text =>
    if offset + 1 < (encodeChar c).length then none
    else (splitAt? (offset + 1 - (encodeChar c).length) text).map fun (front, back) => (c :: front, back)

theorem splitAt?_front (front back : List Char) : splitAt? (byteLength front) (front ++ back) = some (front, back) := by
  induction front with
  | nil => cases back <;> rfl
  | cons c front ih =>
      have pos := encodeChar_length_pos c
      obtain ⟨offset, more⟩ : ∃ offset, byteLength (c :: front) = offset + 1 :=
        Nat.exists_eq_succ_of_ne_zero (by rw [byteLength_cons]; omega)
      have width := more
      rw [byteLength_cons] at width
      rw [more, List.cons_append, splitAt?, if_neg (by omega), ← width, Nat.add_sub_cancel_left, ih]
      rfl

theorem splitAt?_eq_some (split : splitAt? offset text = some (front, back)) :
    text = front ++ back ∧ byteLength front = offset := by
  induction text generalizing offset front with
  | nil =>
      cases offset with
      | zero =>
          cases split
          exact ⟨rfl, rfl⟩
      | succ offset => cases split
  | cons c text ih =>
      cases offset with
      | zero =>
          cases split
          exact ⟨rfl, rfl⟩
      | succ offset =>
          rw [splitAt?] at split
          split at split
          · cases split
          · obtain ⟨⟨lead, rest⟩, found, same⟩ := Option.map_eq_some_iff.1 split
            cases same
            obtain ⟨rfl, length⟩ := ih found
            refine ⟨rfl, ?_⟩
            rw [byteLength_cons, length]
            omega

def slice (text : List Char) (start stop : Nat) : Checked (List Char) :=
  match splitAt? start text, splitAt? stop text with
  | some (front, _), some (most, _) =>
    if start ≤ stop then .ok (most.drop front.length) else .error (.slice start stop)
  | _, _ => .error (.slice start stop)

def sliceFrom (text : List Char) (start : Nat) : Checked (List Char) := slice text start (byteLength text)

theorem slice_between (front part back : List Char) :
    slice (front ++ (part ++ back)) (byteLength front) (byteLength front + byteLength part) = .ok part := by
  have most := splitAt?_front (front ++ part) back
  rw [byteLength_append, List.append_assoc] at most
  rw [slice, splitAt?_front, most]
  dsimp only
  rw [if_pos (Nat.le_add_right _ _), List.drop_left]

theorem sliceFrom_front (front back : List Char) : sliceFrom (front ++ back) (byteLength front) = .ok back := by
  have whole := slice_between front back []
  rwa [List.append_nil, ← byteLength_append] at whole

theorem slice_front (front back : List Char) : slice (front ++ back) 0 (byteLength front) = .ok front := by
  have taken := slice_between [] front back
  rwa [List.nil_append, show byteLength [] = 0 from rfl, Nat.zero_add] at taken

theorem sliceFrom_behind {c : Char} (ascii : c.toNat < 128) (front back : List Char) :
    sliceFrom (front ++ c :: back) (byteLength front + 1) = .ok back := by
  have one : byteLength [c] = 1 := byteLength_ascii (by simpa using ascii)
  have behind := sliceFrom_front (front ++ [c]) back
  rwa [List.append_assoc, List.singleton_append, byteLength_append, one] at behind

theorem slice_eq_ok_iff :
    slice text start stop = .ok part ↔
      ∃ front back, text = front ++ (part ++ back) ∧ byteLength front = start ∧ start + byteLength part = stop := by
  constructor
  · intro taken
    rw [slice] at taken
    split at taken
    · rename_i before behind most rest first second
      obtain ⟨rfl, rfl⟩ := splitAt?_eq_some first
      obtain ⟨split, rfl⟩ := splitAt?_eq_some second
      split at taken
      · rename_i order
        have inside : before <+: most :=
          prefix_of_byteLength_le (List.prefix_append before behind) ⟨rest, split.symm⟩ order
        obtain ⟨between, rfl⟩ := inside
        rw [List.drop_left] at taken
        cases taken
        exact ⟨before, rest, by rw [split, List.append_assoc], rfl, byteLength_append.symm⟩
      · cases taken
    · cases taken
  · rintro ⟨front, back, rfl, rfl, rfl⟩
    exact slice_between front part back

theorem exists_slice_iff :
    (∃ part, slice text start stop = .ok part) ↔
      start ≤ stop ∧ stop ≤ byteLength text ∧ IsBoundary text start ∧ IsBoundary text stop := by
  constructor
  · rintro ⟨part, taken⟩
    obtain ⟨front, back, rfl, rfl, rfl⟩ := slice_eq_ok_iff.1 taken
    have last : IsBoundary (front ++ (part ++ back)) (byteLength front + byteLength part) := by
      rw [← byteLength_append, ← List.append_assoc]
      exact isBoundary_front _ _
    exact ⟨Nat.le_add_right _ _, last.le, isBoundary_front _ _, last⟩
  · rintro ⟨order, -, ⟨front, lead, rfl⟩, ⟨most, longer, rfl⟩⟩
    obtain ⟨part, rfl⟩ := prefix_of_byteLength_le lead longer order
    obtain ⟨back, rfl⟩ := longer
    rw [List.append_assoc, byteLength_append]
    exact ⟨part, slice_between front part back⟩

end Slices

section Searches

variable {needle text : List Char} {n : Nat}

def inBytes (place : Nat) (text : List Char) (n : Nat) : Nat := place + byteLength (text.take n)

theorem map_inBytes (place : Nat) (front text : List Char) (found : Option Nat) :
    (found.map (· + front.length)).map (inBytes place (front ++ text)) =
      found.map (inBytes (place + byteLength front) text) := by
  rw [Option.map_map]
  congr 1
  funext n
  simp only [Function.comp, inBytes, Nat.add_comm n, List.take_length_add_append, byteLength_append, Nat.add_assoc]

def offset? (needle text : List Char) : Option Nat := (find? needle text).map fun n => byteLength (text.take n)

theorem take_of_find? (found : find? needle text = some n) :
    text.take (n + needle.length) = text.take n ++ needle := by
  obtain ⟨rest, here⟩ := begins_iff.1 (begins_drop_of_find? found)
  rw [List.take_add, here, List.take_left]

theorem exists_cut {α : Type} {p : α → Bool} {items : List α} {n : Nat} (found : items.findIdx? p = some n) :
    ∃ inside b after, items = inside ++ b :: after ∧ inside.length = n ∧ p b = true ∧ ∀ c ∈ inside, p c = false := by
  obtain ⟨within, here, before⟩ := List.findIdx?_eq_some_iff_getElem.1 found
  refine ⟨items.take n, items[n], items.drop (n + 1), ?_, List.length_take_of_le within.le, here, fun c mem => ?_⟩
  · rw [← List.drop_eq_getElem_cons within, List.take_append_drop]
  · obtain ⟨j, bound, rfl⟩ := List.mem_take_iff_getElem.1 mem
    exact Bool.eq_false_iff.2 (before j (by omega))

def firstOffset? (p : Char → Bool) (text : List Char) : Option Nat :=
  (text.findIdx? p).map fun n => byteLength (text.take n)

theorem firstOffset?_getD (p : Char → Bool) (text : List Char) :
    (firstOffset? p text).getD (byteLength text) = byteLength (text.takeWhile fun c => !p c) := by
  cases found : text.findIdx? p with
  | none =>
      have all : ∀ c ∈ text, (!p c) = true := by simpa using List.findIdx?_eq_none_iff.1 found
      rw [firstOffset?, found, List.takeWhile_eq_self_iff.2 all]
      rfl
  | some n =>
      have index := (List.findIdx?_eq_some_iff_findIdx_eq.1 found).2
      rw [firstOffset?, found, List.takeWhile_eq_take_findIdx_not]
      simp only [Bool.not_not, index]
      rfl

def lastOffset? (c : Char) : List Char → Option Nat
  | [] => none
  | d :: text =>
    match lastOffset? c text with
    | some n => some (byteLength [d] + n)
    | none => if d = c then some 0 else none

theorem lastOffset?_cases (c : Char) (text : List Char) :
    lastOffset? c text = none ∧ c ∉ text ∨
      ∃ front back, text = front ++ c :: back ∧ c ∉ back ∧ lastOffset? c text = some (byteLength front) := by
  induction text with
  | nil => exact .inl ⟨rfl, List.not_mem_nil⟩
  | cons d text ih =>
      rcases ih with ⟨none, other⟩ | ⟨front, back, rfl, last, found⟩
      · by_cases same : d = c
        · subst same
          exact .inr ⟨[], text, rfl, other, by rw [lastOffset?, none]; exact if_pos rfl⟩
        · refine .inl ⟨by rw [lastOffset?, none]; exact if_neg same, ?_⟩
          rw [List.mem_cons, not_or]
          exact ⟨Ne.symm same, other⟩
      · have whole : byteLength (d :: front) = byteLength [d] + byteLength front := @byteLength_append [d] front
        exact .inr ⟨d :: front, back, rfl, last, by rw [lastOffset?, found, whole]⟩

end Searches

theorem exists_char_of_ascii {text : List Char} {offset : Nat} {b : UInt8} (byte : (encode text)[offset]? = some b)
    (ascii : b.toNat < 128) :
    ∃ front c back, text = front ++ c :: back ∧ byteLength front = offset ∧ c.toNat = b.toNat := by
  induction text generalizing offset with
  | nil => cases byte
  | cons c text ih =>
      rw [encode, List.flatMap_cons] at byte
      by_cases inside : offset < (encodeChar c).length
      · rw [List.getElem?_append_left inside] at byte
        have mem : b ∈ encodeChar c := List.mem_of_getElem? byte
        by_cases small : c.toNat < 128
        · rw [encodeChar_ascii small] at byte inside
          obtain rfl : offset = 0 := Nat.lt_one_iff.1 inside
          cases byte
          exact ⟨[], c, text, rfl, rfl, (toNat_ofNat (by omega)).symm⟩
        · exact absurd (high_of_mem_encodeChar (Nat.le_of_not_lt small) mem) (by omega)
      · rw [List.getElem?_append_right (Nat.le_of_not_lt inside)] at byte
        obtain ⟨front, d, back, rfl, length, same⟩ := ih byte
        refine ⟨c :: front, d, back, rfl, ?_, same⟩
        rw [byteLength_cons, length]
        omega

end Phrasebook.Utf8
