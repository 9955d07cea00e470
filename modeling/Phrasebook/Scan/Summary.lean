import Phrasebook.Catalogue.Plan

namespace Phrasebook

structure Summary where
  filesScanned : Nat
  sourcesFound : Nat
  outcome : Outcome
  policy : MissingPolicy
  deriving DecidableEq, Repr

namespace Summary

def foundLine (summary : Summary) : String :=
  if summary.sourcesFound = 0 then "No source string found."
  else if 0 < summary.outcome.inserted then s!"Inserted {summary.outcome.inserted} new sources."
  else "No new sources found."

def renewedLine? (summary : Summary) : Option String :=
  if 0 < summary.outcome.renewed then some s!"Renewed {summary.outcome.renewed} sources." else none

def capitalized (word : String) : String :=
  match word.toList with
  | [] => ""
  | c :: rest => String.ofList (c.toUpper :: rest)

def missingLine? (summary : Summary) : Option String :=
  let word := summary.policy.actionWord
  match summary.policy, summary.outcome.missingActed with
  | .keep, _ => none
  | _, 0 => some s!"No sources were {word}."
  | _, n => some s!"{capitalized word} {n} sources."

def lines (summary : Summary) : List String :=
  summary.foundLine :: (summary.renewedLine?.toList ++ summary.missingLine?.toList)

end Summary

end Phrasebook
