import Phrasebook.Proofs.Php.Reading

namespace Phrasebook.Php

section Ranks

variable {σ : Type} {grammar : σ → Rule σ} {known : σ → Bool} {rank : σ → Nat} {limit : Nat}

/-- A call leads to a lower rank, and a rule that has read a token may call anything on the tokens that are left. -/
theorem exists_derives (ranked : Ranked grammar known rank limit) (rule : Rule σ) (bar : Nat)
    (below : rule.callsBelow known rank limit bar = true) (le : bar ≤ limit) (frame : List Node)
    (tokens : List Token) : ∃ out, Derives grammar rule frame tokens out := by
  -- By recursion on the tokens, the bar and the rule. Whatever comes after a token that was read has fewer tokens
  -- before it, so there the bar may rise to the limit again.
  match rule with
  | .skip => exact ⟨_, .skip⟩
  | .lexeme test =>
      cases tokens with
      | nil => exact ⟨_, .lexemeStuck (by simp)⟩
      | cons token rest =>
          by_cases passes : test token.lexeme = true
          · exact ⟨_, .lexeme passes⟩
          · exact ⟨_, .lexemeStuck (by simpa using passes)⟩
  | .markup =>
      cases tokens with
      | nil => exact ⟨_, .markupStuck (by simp)⟩
      | cons token rest =>
          by_cases marked : token.afterMarkup = true
          · exact ⟨_, .markup marked⟩
          · exact ⟨_, .markupStuck (by simpa using marked)⟩
  | .seq first second =>
      simp only [Rule.callsBelow, Bool.and_eq_true] at below
      obtain ⟨out, one⟩ := exists_derives ranked first bar below.1 le frame tokens
      cases out with
      | stuck moved rest => exact ⟨_, .seqStuck one⟩
      | done moved frame' rest =>
          have shorter := one.shorter
          simp only [Outcome.left] at shorter
          -- Either the first rule has read a token, or it need not read one and the second rule is under the same
          -- bar.
          by_cases less : rest.length < tokens.length
          · have mono : second.callsBelow known rank limit limit = true := by
              refine Rule.callsBelow_mono ?_ below.2
              split
              · exact Nat.le_refl _
              · exact le
            obtain ⟨out, two⟩ := exists_derives ranked second limit mono (Nat.le_refl _) frame' rest
            exact ⟨_, .seq one two⟩
          · have still : first.moves known ≠ true := fun moves => by
              have did := one.moved ranked moves rfl
              rw [did, Bool.toNat_true] at shorter
              omega
            have same : rest.length = tokens.length := by omega
            rw [if_neg still] at below
            obtain ⟨out, two⟩ := exists_derives ranked second bar below.2 le frame' rest
            exact ⟨_, .seq one two⟩
  | .alt first second =>
      simp only [Rule.callsBelow, Bool.and_eq_true] at below
      obtain ⟨out, one⟩ := exists_derives ranked first bar below.1 le frame tokens
      cases out with
      | done moved frame' rest => exact ⟨_, .altFirst one⟩
      | stuck moved rest =>
          obtain ⟨out, two⟩ := exists_derives ranked second bar below.2 le frame tokens
          exact ⟨_, .altSecond one two⟩
  | .many rule =>
      obtain ⟨out, one⟩ := exists_derives ranked rule bar below le frame tokens
      rcases out with ⟨_ | _, frame', rest⟩ | ⟨_ | _, rest⟩
      · exact ⟨_, .manyStill one⟩
      · have shorter : rest.length + 1 ≤ tokens.length := one.shorter
        obtain ⟨out, others⟩ := exists_derives ranked (.many rule) limit (Rule.callsBelow_mono le below)
          (Nat.le_refl _) frame' rest
        exact ⟨_, .manyStep one others⟩
      · exact ⟨_, .manyEnd one⟩
      · exact ⟨_, .manyStuck one⟩
  | .option rule =>
      obtain ⟨out, one⟩ := exists_derives ranked rule bar below le frame tokens
      rcases out with ⟨_, frame', rest⟩ | ⟨_ | _, rest⟩
      · exact ⟨_, .option one⟩
      · exact ⟨_, .optionNone one⟩
      · exact ⟨_, .optionStuck one⟩
  | .attempt rule =>
      obtain ⟨out, one⟩ := exists_derives ranked rule bar below le frame tokens
      cases out with
      | done moved frame' rest => exact ⟨_, .attempt one⟩
      | stuck moved rest => exact ⟨_, .attemptStuck one⟩
  | .node kind rule =>
      obtain ⟨out, one⟩ := exists_derives ranked rule bar below le [] tokens
      cases out with
      | done moved frame' rest => exact ⟨_, .node one⟩
      | stuck moved rest => exact ⟨_, .nodeStuck one⟩
  | .extend kind rule =>
      cases frame with
      | nil => exact ⟨_, .extendNone⟩
      | cons newest frame =>
          obtain ⟨out, one⟩ := exists_derives ranked rule bar below le [newest] tokens
          cases out with
          | done moved frame' rest => exact ⟨_, .extend one⟩
          | stuck moved rest => exact ⟨_, .extendStuck one⟩
  | .given test =>
      by_cases fails : ∀ newest ∈ frame.head?, test newest = false
      · exact ⟨_, .givenStuck fails⟩
      · cases frame with
        | nil => exact absurd (by simp) fails
        | cons newest frame => exact ⟨_, .given (by simpa using fails)⟩
  | .ahead rule =>
      obtain ⟨out, one⟩ := exists_derives ranked rule bar below le frame tokens
      cases out with
      | done moved frame' rest => exact ⟨_, .ahead one⟩
      | stuck moved rest => exact ⟨_, .aheadStuck one⟩
  | .apart rule =>
      obtain ⟨out, one⟩ := exists_derives ranked rule bar below le frame tokens
      cases out with
      | done moved frame' rest => exact ⟨_, .apartStuck one⟩
      | stuck moved rest => exact ⟨_, .apart one⟩
  | .call symbol =>
      have lower : rank symbol < bar := by simpa [Rule.callsBelow] using below
      obtain ⟨out, one⟩ := exists_derives ranked (grammar symbol) (rank symbol) (ranked.below symbol)
        (Nat.le_of_lt (ranked.lt symbol)) frame tokens
      exact ⟨_, .call one⟩
termination_by (tokens.length, bar, sizeOf rule)
decreasing_by
  all_goals simp_wf
  all_goals simp only [Prod.lex_def, true_and]
  all_goals omega

end Ranks

theorem readProgram_eq (tokens : List Token) :
    ∃ out, Derives grammar (.call .program) [] tokens out ∧ readProgram tokens =
      match out with
      | .done _ (root :: _) _ => .ok root
      | .done _ [] rest => .error rest
      | .stuck _ rest => .error rest := by
  obtain ⟨out, derives⟩ := exists_derives grammar_ranked (.call .program) phraseCount rfl (Nat.le_refl _) [] tokens
  refine ⟨out, derives, ?_⟩
  rcases out with ⟨_, _ | _, _⟩ | _ <;> rw [readProgram, readSymbolOf_program derives]

theorem derives_of_readProgram {tokens : List Token} {root : Node} (read : readProgram tokens = .ok root) :
    ∃ moved frame rest, Derives grammar (.call .program) [] tokens (.done moved (root :: frame) rest) := by
  obtain ⟨out, derives, same⟩ := readProgram_eq tokens
  rw [read] at same
  match out, derives with
  | .stuck _ _, _ => cases same
  | .done _ [] _, _ => cases same
  | .done moved (newest :: frame) rest, derives =>
      cases same
      exact ⟨moved, frame, rest, derives⟩

theorem suffix_of_readProgram {tokens rest : List Token} (read : readProgram tokens = .error rest) :
    rest <:+ tokens := by
  obtain ⟨out, derives, same⟩ := readProgram_eq tokens
  rw [read] at same
  match out, derives with
  | .stuck _ _, derives =>
      cases same
      exact derives.suffix
  | .done _ [] _, derives =>
      cases same
      exact derives.suffix
  | .done _ (_ :: _) _, _ => cases same

end Phrasebook.Php
