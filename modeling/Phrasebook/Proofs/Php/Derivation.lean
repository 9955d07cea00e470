import Phrasebook.Php.Rule

/-!
# What a grammar derives

`Derives` says how following a rule ends, with no bound on nesting or repetition. Its derivations have the shape
of the rules, so that a fact about how a source is read can be put together from facts about its parts.

* `Derives.shorter`: what is left is no longer than what was there, and shorter if a token was read.
* `Derives.follow`: a reader with enough depth ends as the derivation says. What is enough is counted from the
  tokens that are left, and from a rank of the symbols, which falls along calls before a token is read.
-/

namespace Phrasebook.Php

variable {σ : Type} {grammar : σ → Rule σ}

inductive Derives (grammar : σ → Rule σ) : Rule σ → List Node → List Token → Outcome → Prop
  | skip {frame tokens} : Derives grammar .skip frame tokens (.done false frame tokens)
  | lexeme {test token frame rest} (passes : test token.lexeme = true) :
      Derives grammar (.lexeme test) frame (token :: rest) (.done true (.leaf token :: frame) rest)
  | lexemeStuck {test frame tokens} (fails : ∀ token ∈ tokens.head?, test token.lexeme = false) :
      Derives grammar (.lexeme test) frame tokens (.stuck false tokens)
  | markup {token frame rest} (marked : token.afterMarkup = true) :
      Derives grammar .markup frame (token :: rest) (.done false frame (token :: rest))
  | markupStuck {frame tokens} (fails : ∀ token ∈ tokens.head?, token.afterMarkup = false) :
      Derives grammar .markup frame tokens (.stuck false tokens)
  | seq {first second frame tokens moved frame' rest out}
      (one : Derives grammar first frame tokens (.done moved frame' rest))
      (two : Derives grammar second frame' rest out) :
      Derives grammar (.seq first second) frame tokens (out.after moved)
  | seqStuck {first second frame tokens moved rest}
      (one : Derives grammar first frame tokens (.stuck moved rest)) :
      Derives grammar (.seq first second) frame tokens (.stuck moved rest)
  | altFirst {first second frame tokens moved frame' rest}
      (one : Derives grammar first frame tokens (.done moved frame' rest)) :
      Derives grammar (.alt first second) frame tokens (.done moved frame' rest)
  | altSecond {first second frame tokens moved rest out}
      (one : Derives grammar first frame tokens (.stuck moved rest))
      (two : Derives grammar second frame tokens out) :
      Derives grammar (.alt first second) frame tokens (out.farther moved rest)
  | manyStep {rule frame tokens frame' rest out}
      (one : Derives grammar rule frame tokens (.done true frame' rest))
      (others : Derives grammar (.many rule) frame' rest out) :
      Derives grammar (.many rule) frame tokens (out.after true)
  | manyStill {rule frame tokens frame' rest}
      (one : Derives grammar rule frame tokens (.done false frame' rest)) :
      Derives grammar (.many rule) frame tokens (.done false frame tokens)
  | manyEnd {rule frame tokens rest} (one : Derives grammar rule frame tokens (.stuck false rest)) :
      Derives grammar (.many rule) frame tokens (.done false frame tokens)
  | manyStuck {rule frame tokens rest} (one : Derives grammar rule frame tokens (.stuck true rest)) :
      Derives grammar (.many rule) frame tokens (.stuck true rest)
  | option {rule frame tokens moved frame' rest}
      (one : Derives grammar rule frame tokens (.done moved frame' rest)) :
      Derives grammar (.option rule) frame tokens (.done moved frame' rest)
  | optionNone {rule frame tokens rest} (one : Derives grammar rule frame tokens (.stuck false rest)) :
      Derives grammar (.option rule) frame tokens (.done false frame tokens)
  | optionStuck {rule frame tokens rest} (one : Derives grammar rule frame tokens (.stuck true rest)) :
      Derives grammar (.option rule) frame tokens (.stuck true rest)
  | attempt {rule frame tokens moved frame' rest}
      (one : Derives grammar rule frame tokens (.done moved frame' rest)) :
      Derives grammar (.attempt rule) frame tokens (.done moved frame' rest)
  | attemptStuck {rule frame tokens moved rest}
      (one : Derives grammar rule frame tokens (.stuck moved rest)) :
      Derives grammar (.attempt rule) frame tokens (.stuck false tokens)
  | node {kind rule frame tokens moved nodes rest}
      (one : Derives grammar rule [] tokens (.done moved nodes rest)) :
      Derives grammar (.node kind rule) frame tokens (.done moved (.branch kind nodes.reverse :: frame) rest)
  | nodeStuck {kind rule frame tokens moved rest} (one : Derives grammar rule [] tokens (.stuck moved rest)) :
      Derives grammar (.node kind rule) frame tokens (.stuck moved rest)
  | extend {kind rule newest frame tokens moved nodes rest}
      (one : Derives grammar rule [newest] tokens (.done moved nodes rest)) :
      Derives grammar (.extend kind rule) (newest :: frame) tokens
        (.done moved (.branch kind nodes.reverse :: frame) rest)
  | extendStuck {kind rule newest frame tokens moved rest}
      (one : Derives grammar rule [newest] tokens (.stuck moved rest)) :
      Derives grammar (.extend kind rule) (newest :: frame) tokens (.stuck moved rest)
  | extendNone {kind rule tokens} : Derives grammar (.extend kind rule) [] tokens (.stuck false tokens)
  | given {test newest frame tokens} (passes : test newest = true) :
      Derives grammar (.given test) (newest :: frame) tokens (.done false (newest :: frame) tokens)
  | givenStuck {test frame tokens} (fails : ∀ newest ∈ frame.head?, test newest = false) :
      Derives grammar (.given test) frame tokens (.stuck false tokens)
  | ahead {rule frame tokens moved frame' rest}
      (one : Derives grammar rule frame tokens (.done moved frame' rest)) :
      Derives grammar (.ahead rule) frame tokens (.done false frame tokens)
  | aheadStuck {rule frame tokens moved rest} (one : Derives grammar rule frame tokens (.stuck moved rest)) :
      Derives grammar (.ahead rule) frame tokens (.stuck false tokens)
  | apart {rule frame tokens moved rest} (one : Derives grammar rule frame tokens (.stuck moved rest)) :
      Derives grammar (.apart rule) frame tokens (.done false frame tokens)
  | apartStuck {rule frame tokens moved frame' rest}
      (one : Derives grammar rule frame tokens (.done moved frame' rest)) :
      Derives grammar (.apart rule) frame tokens (.stuck false tokens)
  | call {symbol frame tokens out} (one : Derives grammar (grammar symbol) frame tokens out) :
      Derives grammar (.call symbol) frame tokens out

/-! ## What is left -/

namespace Outcome

def left : Outcome → Nat
  | .done moved _ rest => rest.length + moved.toNat
  | .stuck moved rest => rest.length + moved.toNat

def rest : Outcome → List Token
  | .done _ _ rest => rest
  | .stuck _ rest => rest

theorem after_after (out : Outcome) (first second : Bool) :
    (out.after first).after second = out.after (second || first) := by
  cases out <;> simp [after, Bool.or_assoc]

theorem after_false (out : Outcome) : out.after false = out := by
  cases out <;> simp [after]

theorem left_after {out : Outcome} {moved : Bool} {rest tokens : List Token} (one : out.left ≤ rest.length)
    (two : rest.length + moved.toNat ≤ tokens.length) : (out.after moved).left ≤ tokens.length := by
  cases out with
  | done m frame r =>
      simp only [after, left] at one ⊢
      cases moved <;> cases m <;> simp only [Bool.or_self, Bool.or_true, Bool.or_false, Bool.toNat_true,
        Bool.toNat_false] at one two ⊢ <;> omega
  | stuck m r =>
      simp only [after, left] at one ⊢
      cases moved <;> cases m <;> simp only [Bool.or_self, Bool.or_true, Bool.or_false, Bool.toNat_true,
        Bool.toNat_false] at one two ⊢ <;> omega

theorem left_farther {out : Outcome} {moved : Bool} {rest tokens : List Token}
    (one : out.left ≤ tokens.length) (two : rest.length + moved.toNat ≤ tokens.length) :
    (out.farther moved rest).left ≤ tokens.length := by
  cases out with
  | done m frame r => exact one
  | stuck m r =>
      simp only [farther]
      split
      · exact one
      · split
        · exact two
        · split
          · exact one
          · exact two

theorem rest_farther (out : Outcome) (moved : Bool) (rest : List Token) :
    (out.farther moved rest).rest = out.rest ∨ (out.farther moved rest).rest = rest := by
  cases out with
  | done => exact .inl rfl
  | stuck m rest' =>
      simp only [farther]
      split
      · exact .inl rfl
      · split
        · exact .inr rfl
        · split
          · exact .inl rfl
          · exact .inr rfl

theorem done_of_farther {out : Outcome} {moved m : Bool} {frame : List Node} {rest rest' : List Token}
    (ends : out.farther moved rest = .done m frame rest') : out = .done m frame rest' := by
  cases out with
  | done => exact ends
  | stuck =>
      simp only [farther] at ends
      split at ends
      · cases ends
      · split at ends
        · cases ends
        · split at ends <;> cases ends

end Outcome

theorem Derives.shorter {rule : Rule σ} {frame : List Node} {tokens : List Token} {out : Outcome}
    (derives : Derives grammar rule frame tokens out) : out.left ≤ tokens.length := by
  induction derives with
  | seq one two ih₁ ih₂ => exact Outcome.left_after ih₂ ih₁
  | altSecond one two ih₁ ih₂ => exact Outcome.left_farther ih₂ ih₁
  | manyStep one others ih₁ ih₂ => exact Outcome.left_after ih₂ ih₁
  | lexeme | lexemeStuck | skip | markup | markupStuck | manyStill | manyEnd | optionNone | attemptStuck
  | extendNone | given | givenStuck | ahead | aheadStuck | apart | apartStuck => simp [Outcome.left]
  | seqStuck _ ih | altFirst _ ih | manyStuck _ ih | option _ ih | optionStuck _ ih | attempt _ ih
  | node _ ih | nodeStuck _ ih | extend _ ih | extendStuck _ ih | call _ ih => exact ih

theorem Derives.suffix {rule : Rule σ} {frame : List Node} {tokens : List Token} {out : Outcome}
    (derives : Derives grammar rule frame tokens out) : out.rest <:+ tokens := by
  induction derives with
  | lexeme => exact List.suffix_cons _ _
  | skip | lexemeStuck | markup | markupStuck | manyStill | manyEnd | optionNone | attemptStuck | extendNone | given
  | givenStuck | ahead | aheadStuck | apart | apartStuck => exact List.suffix_refl _
  | @seq _ _ _ _ _ _ _ out one two ih₁ ih₂ | @manyStep _ _ _ _ _ out one two ih₁ ih₂ =>
      cases out <;> exact ih₂.trans ih₁
  | @altSecond _ _ _ _ moved rest out one two ih₁ ih₂ =>
      rcases out.rest_farther moved rest with same | same <;> rw [same]
      · exact ih₂
      · exact ih₁
  | seqStuck _ ih | altFirst _ ih | manyStuck _ ih | option _ ih | optionStuck _ ih | attempt _ ih
  | node _ ih | nodeStuck _ ih | extend _ ih | extendStuck _ ih | call _ ih => exact ih

/-! ## Ranks -/

namespace Rule

/-- Whether a rule that succeeds has read a token, given the symbols of which that is known. -/
def moves (known : σ → Bool) : Rule σ → Bool
  | .lexeme _ => true
  | .seq first second => first.moves known || second.moves known
  | .alt first second => first.moves known && second.moves known
  | .attempt rule => rule.moves known
  | .node _ rule => rule.moves known
  | .extend _ rule => rule.moves known
  | .call symbol => known symbol
  | _ => false

/-- Whether the symbols that a rule calls before it has read a token have ranks below `bar`. The others have
ranks below `limit`. -/
def callsBelow (known : σ → Bool) (rank : σ → Nat) (limit : Nat) : (bar : Nat) → Rule σ → Bool
  | bar, .seq first second =>
    first.callsBelow known rank limit bar &&
      second.callsBelow known rank limit (if first.moves known then limit else bar)
  | bar, .alt first second => first.callsBelow known rank limit bar && second.callsBelow known rank limit bar
  | bar, .many rule => rule.callsBelow known rank limit bar
  | bar, .option rule => rule.callsBelow known rank limit bar
  | bar, .attempt rule => rule.callsBelow known rank limit bar
  | bar, .node _ rule => rule.callsBelow known rank limit bar
  | bar, .extend _ rule => rule.callsBelow known rank limit bar
  | bar, .ahead rule => rule.callsBelow known rank limit bar
  | bar, .apart rule => rule.callsBelow known rank limit bar
  | bar, .call symbol => rank symbol < bar
  | _, _ => true

theorem callsBelow_mono {known : σ → Bool} {rank : σ → Nat} {limit low high : Nat} (le : low ≤ high)
    {rule : Rule σ} (below : rule.callsBelow known rank limit low = true) :
    rule.callsBelow known rank limit high = true := by
  induction rule generalizing low high with
  | seq first second ih₁ ih₂ =>
      simp only [Rule.callsBelow, Bool.and_eq_true] at below ⊢
      refine ⟨ih₁ le below.1, ih₂ ?_ below.2⟩
      split
      · exact Nat.le_refl _
      · exact le
  | alt first second ih₁ ih₂ =>
      simp only [Rule.callsBelow, Bool.and_eq_true] at below ⊢
      exact ⟨ih₁ le below.1, ih₂ le below.2⟩
  | call symbol =>
      simp only [Rule.callsBelow, decide_eq_true_eq] at below ⊢
      omega
  | many rule ih | option rule ih | attempt rule ih | node _ rule ih | extend _ rule ih | ahead rule ih
  | apart rule ih => exact ih le below
  | skip | lexeme | markup | given => rfl

end Rule

/-- Ranks of symbols that fall along calls before a token is read. -/
structure Ranked (grammar : σ → Rule σ) (known : σ → Bool) (rank : σ → Nat) (limit : Nat) : Prop where
  moves : ∀ symbol, known symbol = true → (grammar symbol).moves known = true
  below : ∀ symbol, (grammar symbol).callsBelow known rank limit (rank symbol) = true
  lt : ∀ symbol, rank symbol < limit

section Depth

variable {known : σ → Bool} {rank : σ → Nat} {limit : Nat}

theorem Derives.moved {rule : Rule σ} {frame : List Node} {tokens : List Token} {out : Outcome}
    (derives : Derives grammar rule frame tokens out) (ranked : Ranked grammar known rank limit)
    (moves : rule.moves known = true) {moved : Bool} {frame' : List Node} {rest : List Token}
    (ends : out = .done moved frame' rest) : moved = true := by
  -- A repetition and an option need not read a token, so `moves` is false of them; what gets stuck is not done.
  induction derives generalizing moved frame' rest with
  | @seq _ _ _ _ m _ _ out one two ih₁ ih₂ =>
      cases out with
      | stuck => cases ends
      | done m' _ _ =>
          simp only [Outcome.after, Outcome.done.injEq] at ends
          simp only [Rule.moves, Bool.or_eq_true] at moves
          rcases moves with first | second
          · simp [← ends.1, ih₁ first rfl]
          · simp [← ends.1, ih₂ second rfl]
  | altFirst one ih =>
      simp only [Rule.moves, Bool.and_eq_true] at moves
      exact ih moves.1 ends
  | altSecond one two ih₁ ih₂ =>
      simp only [Rule.moves, Bool.and_eq_true] at moves
      exact ih₂ moves.2 (Outcome.done_of_farther ends)
  | attempt one ih => exact ih moves ends
  | node one ih =>
      cases ends
      exact ih moves rfl
  | extend one ih =>
      cases ends
      exact ih moves rfl
  | call one ih => exact ih (ranked.moves _ moves) ends
  | lexeme =>
      cases ends
      rfl
  | skip | markup | manyStep | manyStill | manyEnd | manyStuck | option | optionNone | optionStuck | given
  | ahead | apart => cases moves
  | lexemeStuck | markupStuck | seqStuck | attemptStuck | nodeStuck | extendStuck | extendNone | givenStuck
  | aheadStuck | apartStuck => cases ends

theorem Derives.room_of_moved {rule : Rule σ} {frame frame' : List Node} {tokens rest : List Token}
    (derives : Derives grammar rule frame tokens (.done true frame' rest)) {bar depth : Nat}
    (deep : limit * tokens.length + bar ≤ depth) : limit * rest.length + limit ≤ depth := by
  have shorter := derives.shorter
  simp only [Outcome.left, Bool.toNat_true] at shorter
  have less : limit * (rest.length + 1) ≤ limit * tokens.length := Nat.mul_le_mul_left _ shorter
  rw [Nat.mul_add, Nat.mul_one] at less
  omega

theorem Derives.room {rule : Rule σ} {frame frame' : List Node} {tokens rest : List Token} {moved : Bool}
    (derives : Derives grammar rule frame tokens (.done moved frame' rest)) (ranked : Ranked grammar known rank limit)
    {bar depth : Nat} (deep : limit * tokens.length + bar ≤ depth) :
    limit * rest.length + (if rule.moves known then limit else bar) ≤ depth := by
  split
  · rename_i moves
    have did := derives.moved ranked moves rfl
    subst did
    exact derives.room_of_moved deep
  · have shorter := derives.shorter
    simp only [Outcome.left] at shorter
    have less : limit * rest.length ≤ limit * tokens.length := Nat.mul_le_mul_left _ (by omega)
    omega

/-! ## Following derivations -/

def Rule.isMany : Rule σ → Bool
  | .many _ => true
  | _ => false

structure Follows (grammar : σ → Rule σ) (bound depth : Nat) (rule : Rule σ) (frame : List Node)
    (tokens : List Token) (out : Outcome) : Prop where
  follow : rule.follow (readSymbolOf grammar bound depth) bound frame tokens = out
  iterate : ∀ repeated, rule = .many repeated → ∀ count, tokens.length ≤ count → ∀ moved,
    Reader.iterate (repeated.follow (readSymbolOf grammar bound depth) bound) count moved frame tokens =
      out.after moved

namespace Follows

variable {bound depth : Nat} {rule : Rule σ} {frame frame' : List Node} {tokens rest : List Token} {out : Outcome}

theorem of_follow (other : rule.isMany = false)
    (follow : rule.follow (readSymbolOf grammar bound depth) bound frame tokens = out) :
    Follows grammar bound depth rule frame tokens out := by
  refine ⟨follow, fun repeated same => ?_⟩
  subst same
  cases other

theorem of_iterate (fits : tokens.length ≤ bound)
    (steps : ∀ count, tokens.length ≤ count → ∀ moved,
      Reader.iterate (rule.follow (readSymbolOf grammar bound depth) bound) count moved frame tokens =
        out.after moved) :
    Follows grammar bound depth (.many rule) frame tokens out := by
  refine ⟨?_, fun repeated same => ?_⟩
  · rw [Rule.follow, steps bound fits false, Outcome.after_false]
  · cases same
    exact steps

theorem many_end (fits : tokens.length ≤ bound)
    (ends : (∃ frame' rest,
        rule.follow (readSymbolOf grammar bound depth) bound frame tokens = .done false frame' rest) ∨
      ∃ rest, rule.follow (readSymbolOf grammar bound depth) bound frame tokens = .stuck false rest) :
    Follows grammar bound depth (.many rule) frame tokens (.done false frame tokens) := by
  refine of_iterate fits fun count _ moved => ?_
  rcases ends with ⟨_, _, read⟩ | ⟨_, read⟩ <;> cases count <;> simp [Reader.iterate, read, Outcome.after]

theorem many_step (fits : tokens.length ≤ bound) (shorter : rest.length < tokens.length)
    (read : rule.follow (readSymbolOf grammar bound depth) bound frame tokens = .done true frame' rest)
    (others : Follows grammar bound depth (.many rule) frame' rest out) :
    Follows grammar bound depth (.many rule) frame tokens (out.after true) := by
  refine of_iterate fits fun count enough moved => ?_
  cases count with
  | zero => omega
  | succ count =>
      rw [Reader.iterate, read]
      simp only [others.iterate rule rfl count (by omega) true]
      rw [Outcome.after_after, Bool.or_true]

theorem many_stuck (fits : tokens.length ≤ bound) (some : 0 < tokens.length)
    (read : rule.follow (readSymbolOf grammar bound depth) bound frame tokens = .stuck true rest) :
    Follows grammar bound depth (.many rule) frame tokens (.stuck true rest) := by
  refine of_iterate fits fun count enough moved => ?_
  cases count with
  | zero => omega
  | succ count => simp [Reader.iterate, read, Outcome.after]

end Follows

/-- With enough depth, reading ends as the derivation says. -/
theorem Derives.follows {rule : Rule σ} {frame : List Node} {tokens : List Token} {out : Outcome}
    (derives : Derives grammar rule frame tokens out) (ranked : Ranked grammar known rank limit)
    {bar : Nat} (below : rule.callsBelow known rank limit bar = true) (le : bar ≤ limit) {bound depth : Nat}
    (fits : tokens.length ≤ bound) (deep : limit * tokens.length + bar ≤ depth) :
    Follows grammar bound depth rule frame tokens out := by
  -- The invariant is the depth: the limit for each token that is left, and the bar besides. A token that was read
  -- pays for a bar that rises to the limit.
  induction derives generalizing bar depth with
  | skip => exact .of_follow rfl rfl
  | lexeme passes => exact .of_follow rfl (by simp [Rule.follow, passes])
  | @lexemeStuck _ _ tokens fails =>
      refine .of_follow rfl ?_
      cases tokens with
      | nil => rfl
      | cons token rest => simp [Rule.follow, fails token rfl]
  | markup marked => exact .of_follow rfl (by simp [Rule.follow, marked])
  | @markupStuck _ tokens fails =>
      refine .of_follow rfl ?_
      cases tokens with
      | nil => rfl
      | cons token rest => simp [Rule.follow, fails token rfl]
  | @seq first second _ tokens moved _ rest _ one two ih₁ ih₂ =>
      simp only [Rule.callsBelow, Bool.and_eq_true] at below
      have most : (if first.moves known then limit else bar) ≤ limit := by
        split
        · exact Nat.le_refl _
        · exact le
      have shorter := one.shorter
      simp only [Outcome.left] at shorter
      have read := (ih₁ below.1 le fits deep).follow
      have further := (ih₂ below.2 most (by omega) (one.room ranked deep)).follow
      exact .of_follow rfl (by simp [Rule.follow, read, further])
  | seqStuck one ih =>
      simp only [Rule.callsBelow, Bool.and_eq_true] at below
      exact .of_follow rfl (by simp [Rule.follow, (ih below.1 le fits deep).follow])
  | altFirst one ih =>
      simp only [Rule.callsBelow, Bool.and_eq_true] at below
      exact .of_follow rfl (by simp [Rule.follow, (ih below.1 le fits deep).follow])
  | altSecond one two ih₁ ih₂ =>
      simp only [Rule.callsBelow, Bool.and_eq_true] at below
      have first := (ih₁ below.1 le fits deep).follow
      have second := (ih₂ below.2 le fits deep).follow
      exact .of_follow rfl (by simp [Rule.follow, first, second])
  | @manyStep rule frame tokens _ rest out one others ih₁ ih₂ =>
      have shorter := one.shorter
      simp only [Outcome.left, Bool.toNat_true] at shorter
      exact .many_step fits (by omega) (ih₁ below le fits deep).follow
        (ih₂ (Rule.callsBelow_mono le below) (Nat.le_refl _) (by omega) (one.room_of_moved deep))
  | manyStill one ih => exact .many_end fits (.inl ⟨_, _, (ih below le fits deep).follow⟩)
  | manyEnd one ih => exact .many_end fits (.inr ⟨_, (ih below le fits deep).follow⟩)
  | manyStuck one ih =>
      have shorter := one.shorter
      simp only [Outcome.left, Bool.toNat_true] at shorter
      exact .many_stuck fits (by omega) (ih below le fits deep).follow
  | option one ih | optionNone one ih | optionStuck one ih | attempt one ih | attemptStuck one ih
  | node one ih | nodeStuck one ih | extend one ih | extendStuck one ih | ahead one ih | aheadStuck one ih
  | apart one ih | apartStuck one ih =>
      exact .of_follow rfl (by simp [Rule.follow, (ih below le fits deep).follow])
  | extendNone => exact .of_follow rfl rfl
  | given passes => exact .of_follow rfl (by simp [Rule.follow, passes])
  | @givenStuck _ frame _ fails =>
      refine .of_follow rfl ?_
      cases frame with
      | nil => rfl
      | cons newest frame => simp [Rule.follow, fails newest rfl]
  | @call symbol _ _ _ one ih =>
      simp only [Rule.callsBelow, decide_eq_true_eq] at below
      refine .of_follow rfl ?_
      cases depth with
      | zero => omega
      | succ depth =>
          rw [Rule.follow, readSymbolOf]
          exact (ih (ranked.below symbol) (Nat.le_of_lt (ranked.lt symbol)) fits (by omega)).follow

theorem Derives.follow {rule : Rule σ} {frame : List Node} {tokens : List Token} {out : Outcome}
    (derives : Derives grammar rule frame tokens out) (ranked : Ranked grammar known rank limit)
    {bar : Nat} (below : rule.callsBelow known rank limit bar = true) (le : bar ≤ limit) {bound depth : Nat}
    (fits : tokens.length ≤ bound) (deep : limit * tokens.length + bar ≤ depth) :
    rule.follow (readSymbolOf grammar bound depth) bound frame tokens = out :=
  (derives.follows ranked below le fits deep).follow

end Depth

end Phrasebook.Php
