import Phrasebook.Proofs.Php.Lookahead

namespace Phrasebook.Php

def Frame.isString : Frame → Bool
  | .quoted _ => true
  | .heredoc _ => true
  | _ => false

def depth (frames : List Frame) : Nat := frames.countP Frame.isString

def openers (lexemes : List Lexeme) : Nat := lexemes.countP (·.kind == .opener)

def closers (lexemes : List Lexeme) : Nat := lexemes.countP (·.kind == .closer)

theorem depth_string {frame : Frame} (isString : frame.isString = true) (frames : List Frame) :
    depth (frame :: frames) = depth frames + 1 := List.countP_cons_of_pos isString

theorem inCode_of_depth {frames : List Frame} (outside : depth frames = 0) : inCode frames = true := by
  unfold inCode
  split
  · rw [depth_string rfl] at outside
    cases outside
  · rw [depth_string rfl] at outside
    cases outside
  · rfl

theorem depth_pos {frames : List Frame} (inside : inCode frames = false) : 0 < depth frames := by
  refine Nat.pos_of_ne_zero fun outside => ?_
  rw [inCode_of_depth outside] at inside
  cases inside

theorem openers_plain {lexemes : List Lexeme} (plain : ∀ lexeme ∈ lexemes, lexeme.isPlain = true) :
    openers lexemes = 0 := by
  refine List.countP_eq_zero.2 fun lexeme mem opens => ?_
  have kind := Lexeme.isPlain_iff.1 (plain lexeme mem)
  rw [beq_iff_eq.1 opens] at kind
  simp at kind

theorem closers_plain {lexemes : List Lexeme} (plain : ∀ lexeme ∈ lexemes, lexeme.isPlain = true) :
    closers lexemes = 0 := by
  refine List.countP_eq_zero.2 fun lexeme mem closes => ?_
  have kind := Lexeme.isPlain_iff.1 (plain lexeme mem)
  rw [beq_iff_eq.1 closes] at kind
  simp at kind

/-- The labels of the heredocs that are open. -/
def Labelled (frames : List Frame) : Prop := ∀ label, .heredoc label ∈ frames → IsLabel label

structure Reading.Proper (frames : List Frame) (reading : Reading) : Prop where
  count : depth reading.frames + closers reading.lexemes = depth frames + openers reading.lexemes
  labelled : Labelled frames → Labelled reading.frames

section Readings

variable {frames : List Frame} {text : List Char}

theorem proper_one {kind : LexemeKind} (noOpener : kind ≠ .opener) (noCloser : kind ≠ .closer) (count : Nat) :
    (Reading.one kind frames count text).Proper frames where
  count := by simp [Reading.one, openers, closers, noOpener, noCloser]
  labelled := id

theorem framesAfter_cases (symbol : List Char) (frames : List Frame) :
    framesAfter symbol frames = .braces :: frames ∨ framesAfter symbol frames = frames ∨
      ∃ frame, frame.isString = false ∧ frames = frame :: framesAfter symbol frames := by
  unfold framesAfter
  split
  · exact .inl rfl
  · split
    · split
      · exact .inr (.inr ⟨.braces, rfl, rfl⟩)
      · exact .inr (.inl rfl)
    · split
      · exact .inr (.inr ⟨.index, rfl, rfl⟩)
      · exact .inr (.inl rfl)
    · exact .inr (.inl rfl)

theorem Labelled.cons {frame : Frame} (other : frame.isString = false) (labelled : Labelled frames) :
    Labelled (frame :: frames) := by
  intro label mem
  rcases List.mem_cons.1 mem with rfl | mem
  · cases other
  · exact labelled label mem

theorem proper_readSymbol : (readSymbol frames text).Proper frames := by
  rw [readSymbol]
  split
  · rename_i symbol _
    refine ⟨?_, fun labelled => ?_⟩
    · have same : depth (framesAfter symbol frames) = depth frames := by
        rcases framesAfter_cases symbol frames with same | same | ⟨frame, other, same⟩
        · rw [same]
          rfl
        · rw [same]
        · conv => rhs; rw [same]
          simp [depth, other]
      simp [openers, closers, same]
    · rcases framesAfter_cases symbol frames with same | same | ⟨frame, other, same⟩
      · rw [same]
        exact labelled.cons rfl
      · rwa [same]
      · rw [same] at labelled
        exact fun label mem => labelled label (List.mem_cons_of_mem _ mem)
  · exact proper_one (by simp) (by simp) _

theorem proper_opener {frame : Frame} (isString : frame.isString = true)
    (isLabel : ∀ label, frame = .heredoc label → IsLabel label) (count : Nat) :
    (Reading.one .opener (frame :: frames) count text).Proper frames where
  count := by simp [Reading.one, depth, openers, closers, isString]
  labelled labelled label mem := by
    rcases List.mem_cons.1 mem with same | mem
    · exact isLabel label same.symm
    · exact labelled label mem

theorem proper_readQuote {mark : Nat} : (readQuote frames mark text).Proper frames := by
  rw [readQuote]
  split
  · split <;> exact proper_one (by simp) (by simp) _
  · exact proper_opener rfl (fun _ same => by cases same) _
  · exact proper_one (by simp) (by simp) _

theorem proper_readCode : (readCode frames text).Proper frames := by
  rw [readCode]
  split
  · split
    · exact proper_readQuote
    · exact proper_one (by simp) (by simp) _
  · split
    · exact proper_one (by simp) (by simp) _
    · split
      · exact proper_readQuote
      · split
        · split
          · rename_i n label found
            refine proper_opener rfl (fun other same => ?_) _
            obtain ⟨header, rest, split⟩ := exists_header found
            have whole := header?_text header rest
            rw [← split] at found
            have label? := (Prod.mk.inj (Prod.mk.inj (Option.some.inj (found.symm.trans whole))).2).1
            rw [← Frame.heredoc.inj same, label?]
            exact header.isLabel
          · split <;> exact proper_one (by simp) (by simp) _
          · exact proper_readSymbol
        · exact proper_readSymbol

theorem frames_readVariable (name : Lexeme) (tail : List Char) :
    (readVariable frames name tail).frames = .index :: frames ∨ (readVariable frames name tail).frames = frames := by
  rw [readVariable]
  split
  · exact .inl rfl
  · split <;> exact .inr rfl

theorem proper_readSubstitution (begun : substitution text = true) : (readSubstitution frames text).Proper frames := by
  have plain := @isPlain_readSubstitution frames _ begun
  rcases substitution_cases begun with ⟨rest, rfl⟩ | ⟨rest, rfl⟩ | ⟨c, rest, rfl, other, _⟩
  · exact ⟨rfl, fun labelled => labelled.cons rfl⟩
  · exact ⟨rfl, fun labelled => labelled.cons rfl⟩
  · rw [readSubstitution_variable rest other] at plain ⊢
    have opens := openers_plain plain
    have closes := closers_plain plain
    rcases @frames_readVariable frames _ _ with same | same
    · exact ⟨by rw [opens, closes, same]; rfl, fun labelled => same ▸ labelled.cons rfl⟩
    · exact ⟨by rw [opens, closes, same], fun labelled => by rwa [same]⟩

theorem Labelled.outer {frame : Frame} (labelled : Labelled (frame :: frames)) : Labelled frames :=
  fun label mem => labelled label (List.mem_cons_of_mem _ mem)

theorem proper_closer {frame : Frame} {outer : List Frame} (isString : frame.isString = true) {lexemes : List Lexeme}
    (opens : openers lexemes = 0) (closes : closers lexemes = 1) (more : Nat) :
    Reading.Proper (frame :: outer) ⟨lexemes, outer, more⟩ where
  count := by
    dsimp only
    rw [opens, closes, depth_string isString]
  labelled := Labelled.outer

theorem proper_read : (read frames text).Proper frames := by
  unfold read
  split
  · split
    · exact proper_closer rfl rfl rfl _
    · split
      · rename_i begun
        exact proper_readSubstitution begun
      · exact proper_one (by simp) (by simp) _
  · split
    · rename_i begun
      exact proper_readSubstitution begun
    · split
      · exact proper_closer rfl rfl rfl _
      · exact proper_one (by simp) (by simp) _
  · exact proper_readCode

end Readings

theorem closers_eq_zero {lexemes : List Lexeme} (none : ∀ lexeme ∈ lexemes, lexeme.kind ≠ .closer) :
    closers lexemes = 0 := by
  rw [closers, List.countP_eq_zero]
  exact fun lexeme mem closes => none lexeme mem (by simpa using closes)

theorem Reading.Form.closers_le {frames : List Frame} {reading : Reading} (form : reading.Form frames) :
    closers reading.lexemes ≤ depth frames := by
  cases form with
  | code inside ofCode =>
      have kind := ofCode.kind
      rw [ofCode.one, closers_eq_zero]
      · exact Nat.zero_le _
      · intro lexeme mem closes
        rw [List.mem_singleton.1 mem] at closes
        rw [closes] at kind
        cases kind
  | substitution inside some plain =>
      rw [closers_eq_zero]
      · exact Nat.zero_le _
      · intro lexeme mem closes
        have kind := plain lexeme mem
        rw [Lexeme.isPlain, closes] at kind
        cases kind
  | chunk inside => exact Nat.zero_le _
  | quote top => exact top ▸ Nat.succ_le_of_lt (depth_pos rfl)
  | label top => exact top ▸ Nat.succ_le_of_lt (depth_pos rfl)

theorem lexemes_tokens (reading : Reading) (before : List Skipped) :
    (reading.tokens before).map (·.lexeme) = reading.lexemes := by
  rw [Reading.tokens]
  split
  · rename_i none
    rw [none]
    rfl
  · rename_i some
    rw [some, List.map_cons, List.map_map]
    exact congrArg _ (List.map_id _)

theorem closers_le_lexFrom (frames : List Frame) (before : List Skipped) (text : List Char) {tokens : List Token}
    (front : tokens <+: lexFrom frames before text) :
    closers (tokens.map (·.lexeme)) ≤ openers (tokens.map (·.lexeme)) + depth frames := by
  refine lexFrom_induction (motive := fun frames _ _ all => ∀ tokens, tokens <+: all →
    closers (tokens.map (·.lexeme)) ≤ openers (tokens.map (·.lexeme)) + depth frames) ?_ ?_ frames before text tokens front
  · intro frames before text _ tokens front
    rw [closers_eq_zero]
    · exact Nat.zero_le _
    · intro lexeme mem closes
      obtain ⟨token, inside, rfl⟩ := List.mem_map.1 mem
      rw [List.mem_singleton.1 (front.subset inside)] at closes
      cases closes
  · rintro frames before text c rest others _ ih tokens ⟨more, split⟩
    have form := (read_form frames c rest).closers_le
    have proper := (@proper_read frames (c :: rest)).count
    rcases List.append_eq_append_iff.1 split with ⟨left, whole, _⟩ | ⟨left, whole, same⟩
    · have part : closers (tokens.map (·.lexeme)) ≤ closers (read frames (c :: rest)).lexemes := by
        rw [← lexemes_tokens _ (before ++ separatorsIn frames text), whole, List.map_append]
        exact (List.sublist_append_left _ _).countP_le
      omega
    · have further := ih left ⟨more, same.symm⟩
      rw [whole, List.map_append, lexemes_tokens, closers, openers, List.countP_append, List.countP_append]
      simp only [closers, openers] at *
      omega

theorem closers_le_lex {source : List Char} {tokens : List Token} (front : tokens <+: lex source) :
    closers (tokens.map (·.lexeme)) ≤ openers (tokens.map (·.lexeme)) := by
  rw [lex] at front
  split at front
  · exact closers_le_lexFrom [] _ _ front
  · rw [closers_eq_zero]
    · exact Nat.zero_le _
    · intro lexeme mem closes
      obtain ⟨token, inside, rfl⟩ := List.mem_map.1 mem
      rcases List.mem_cons.1 (front.subset inside) with rfl | last
      · cases closes
      · rw [List.mem_singleton.1 last] at closes
        cases closes

end Phrasebook.Php
