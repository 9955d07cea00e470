import Phrasebook.Php.Literal
import Phrasebook.Proofs.Php.Lexing
import Phrasebook.Proofs.Text.Utf8

namespace Phrasebook.Php

theorem unescape_append {bytes : List UInt8} (inHeredoc : Bool) (rest : List UInt8)
    (plain : ∀ b ∈ bytes, b ≠ byteOf '\\') :
    unescape inHeredoc (bytes ++ rest) = bytes ++ unescape inHeredoc rest := by
  induction bytes with
  | nil => rfl
  | cons b bytes ih =>
      rw [List.forall_mem_cons] at plain
      rw [List.cons_append, unescape, if_neg plain.1, ih plain.2, List.cons_append]

theorem encodeChar_plain {c : Char} (plain : c ≠ '\\') : ∀ b ∈ Utf8.encodeChar c, b ≠ byteOf '\\' := by
  rintro b member rfl
  by_cases ascii : c.toNat < 128
  · rw [Utf8.encodeChar_ascii ascii, List.mem_singleton, ← UInt8.toNat_inj, Utf8.toNat_ofNat (by omega)] at member
    exact plain (Char.toNat_inj.1 member.symm)
  · exact absurd (Utf8.high_of_mem_encodeChar (Nat.le_of_not_lt ascii) member) (by decide)

inductive Quoting
  | single
  | double
  deriving DecidableEq, Repr

namespace Quoting

def quote : Quoting → Char
  | single => '\''
  | double => '"'

def escapes : Quoting → Char → Bool
  | single, c => c == '\\' || c == '\''
  | double, c => c == '\\' || c == '"' || c == '$'

def escape (quoting : Quoting) : List Char → List Char
  | [] => []
  | c :: text => if quoting.escapes c then '\\' :: c :: escape quoting text else c :: escape quoting text

def literal (quoting : Quoting) (value : List Char) : List Char :=
  quoting.quote :: (quoting.escape value ++ [quoting.quote])

theorem decodeSingle_cons {c : Char} (text : List Char) (plain : c ≠ '\\') :
    decodeSingle (c :: text) = c :: decodeSingle text := by
  cases text with
  | nil => simp [decodeSingle]
  | cons next rest => simp [decodeSingle, plain]

theorem decodeSingle_escape (value : List Char) : decodeSingle (single.escape value) = value := by
  induction value with
  | nil => rfl
  | cons c value ih =>
      by_cases special : single.escapes c = true
      · have escaped : c = '\\' ∨ c = '\'' := by simpa [escapes] using special
        rw [escape, if_pos special]
        simp [decodeSingle, escaped, ih]
      · have plain : c ≠ '\\' := by
          rintro rfl
          exact special rfl
        rw [escape, if_neg special, decodeSingle_cons _ plain, ih]

theorem unescape_escape (value : List Char) :
    unescape false (Utf8.encode (double.escape value)) = Utf8.encode value := by
  induction value with
  | nil => rw [escape, Utf8.encode, List.flatMap_nil, unescape]
  | cons c value ih =>
      by_cases special : double.escapes c = true
      · have escaped : c = '\\' ∨ c = '"' ∨ c = '$' := by simpa [escapes, or_assoc] using special
        have ascii : c.toNat < 128 := by rcases escaped with rfl | rfl | rfl <;> decide
        have known : escape? false (UInt8.ofNat c.toNat :: Utf8.encode (double.escape value)) =
            some ([UInt8.ofNat c.toNat], 1) := by
          rcases escaped with rfl | rfl | rfl <;> rfl
        have bytes : Utf8.encode ('\\' :: c :: double.escape value) =
            byteOf '\\' :: UInt8.ofNat c.toNat :: Utf8.encode (double.escape value) := by
          rw [Utf8.encode, List.flatMap_cons, List.flatMap_cons, Utf8.encodeChar_ascii ascii]
          rfl
        rw [escape, if_pos special, bytes, unescape, if_pos rfl, known]
        simp only [List.drop_succ_cons, List.drop_zero, ih]
        rw [Utf8.encode, Utf8.encode, List.flatMap_cons, Utf8.encodeChar_ascii ascii]
      · have plain : c ≠ '\\' := by
          rintro rfl
          exact special rfl
        rw [escape, if_neg special, Utf8.encode, List.flatMap_cons, unescape_append _ _ (encodeChar_plain plain)]
        exact congrArg (Utf8.encodeChar c ++ ·) ih

theorem decodeDouble_escape (value : List Char) : decodeDouble false (double.escape value) = value := by
  rw [decodeDouble, unescape_escape, Utf8.decodeLossy_encode]

theorem singleLength_escape {value : List Char} (rest : List Char) (noNul : nul ∉ value) :
    singleLength (single.escape value ++ '\'' :: rest) = some ((single.escape value).length + 1) := by
  induction value with
  | nil =>
      rw [escape, List.nil_append, singleLength.eq_def]
      rfl
  | cons c value ih =>
      rw [List.mem_cons, not_or] at noNul
      have other : c ≠ nul := Ne.symm noNul.1
      by_cases special : single.escapes c = true
      · rw [escape, if_pos special, List.cons_append, List.cons_append, singleLength.eq_def]
        simp [other, ih noNul.2, show '\\' ≠ nul by decide]
      · have plain : c ≠ '\\' ∧ c ≠ '\'' := by simpa [escapes] using special
        rw [escape, if_neg special, List.cons_append, singleLength.eq_def]
        simp [other, ih noNul.2, plain]

theorem substitution_eq_false {c : Char} {text : List Char} (here : c ≠ '$') (next : text.head? ≠ some '$') :
    substitution (c :: text) = false := by
  unfold substitution
  split
  · rename_i same
    exact absurd (List.cons.inj same).1 here
  · rename_i same
    exact absurd (congrArg List.head? (List.cons.inj same).2) next
  · rfl

theorem escape_cons (c : Char) (value : List Char) :
    ∃ first others, double.escape (c :: value) = first :: others ∧ first ≠ '"' ∧ first ≠ '$' := by
  by_cases special : double.escapes c = true
  · rw [escape, if_pos special]
    exact ⟨'\\', _, rfl, by decide, by decide⟩
  · have plain : c ≠ '\\' ∧ c ≠ '"' ∧ c ≠ '$' := by simpa [escapes, and_assoc] using special
    rw [escape, if_neg special]
    exact ⟨c, _, rfl, plain.2⟩

theorem head?_escape (value rest : List Char) : (double.escape value ++ '"' :: rest).head? ≠ some '$' := by
  cases value with
  | nil => simp [escape]
  | cons c value =>
      obtain ⟨first, others, same, -, plain⟩ := escape_cons c value
      simpa [same] using plain

theorem substitution_escape (value rest : List Char) : substitution (double.escape value ++ '"' :: rest) = false := by
  cases value with
  | nil => rfl
  | cons c value =>
      by_cases special : double.escapes c = true
      · rw [escape, if_pos special]
        rfl
      · have plain : c ≠ '\\' ∧ c ≠ '"' ∧ c ≠ '$' := by simpa [escapes, and_assoc] using special
        rw [escape, if_neg special]
        exact substitution_eq_false plain.2.2 (head?_escape value rest)

theorem quotedLength_escape (value rest : List Char) :
    quotedLength '"' (double.escape value ++ '"' :: rest) = (double.escape value).length := by
  induction value with
  | nil =>
      rw [escape, List.nil_append, quotedLength.eq_def]
      rfl
  | cons c value ih =>
      by_cases special : double.escapes c = true
      · have none : substitution ('\\' :: c :: (double.escape value ++ '"' :: rest)) = false := rfl
        rw [escape, if_pos special, List.cons_append, List.cons_append, quotedLength.eq_def]
        simp only [none, ih, List.length_cons]
        simp
        omega
      · have plain : c ≠ '\\' ∧ c ≠ '"' ∧ c ≠ '$' := by simpa [escapes, and_assoc] using special
        have none := substitution_eq_false plain.2.2 (head?_escape value rest)
        rw [escape, if_neg special, List.cons_append, quotedLength.eq_def]
        simp [none, ih, plain, Nat.add_comm]

def tokens (quoting : Quoting) (before : List Skipped) (value : List Char) : List Token :=
  match quoting with
  | single => [⟨before, ⟨.single, single.literal value⟩⟩]
  | double => ⟨before, ⟨.opener, ['"']⟩⟩ ::
      ((if value = [] then [] else [⟨[], ⟨.chunk, double.escape value⟩⟩]) ++ [⟨[], ⟨.closer, ['"']⟩⟩])

theorem lexFrom_quoted {c : Char} {text : List Char} {lexeme : Lexeme} {frames : List Frame} {more : Nat}
    (here : read [.quoted '"'] (c :: text) = ⟨[lexeme], frames, more⟩) :
    lexFrom [.quoted '"'] [] (c :: text) = ⟨[], lexeme⟩ :: lexFrom frames [] (text.drop more) := by
  rw [lexFrom_eq]
  simp [separatorsIn, inCode, lengthOf, here, Reading.tokens]

theorem lexFrom_closer (text : List Char) :
    lexFrom [.quoted '"'] [] ('"' :: text) = ⟨[], ⟨.closer, ['"']⟩⟩ :: lexFrom [] [] text := by
  have here : read [.quoted '"'] ('"' :: text) = ⟨[⟨.closer, ['"']⟩], [], 0⟩ := rfl
  exact lexFrom_quoted here

theorem lexFrom_chunk {value : List Char} (some : value ≠ []) (text : List Char) :
    lexFrom [.quoted '"'] [] (double.escape value ++ '"' :: text) =
      ⟨[], ⟨.chunk, double.escape value⟩⟩ :: lexFrom [.quoted '"'] [] ('"' :: text) := by
  have length := quotedLength_escape value text
  have start := substitution_escape value text
  obtain ⟨c, value, rfl⟩ := List.exists_cons_of_ne_nil some
  obtain ⟨first, others, same, noQuote, -⟩ := escape_cons c value
  rw [same, List.cons_append] at length start
  have here : read [.quoted '"'] (first :: (others ++ '"' :: text)) =
      ⟨[⟨.chunk, first :: others⟩], [.quoted '"'], others.length⟩ := by
    simp [read, start, length, Reading.one, begins, List.isPrefixOf, Ne.symm noQuote]
  rw [same, List.cons_append, lexFrom_quoted here, List.drop_left]

theorem lexFrom_opener (before : List Skipped) (text : List Char) :
    lexFrom [] before ('"' :: text) = ⟨before, ⟨.opener, ['"']⟩⟩ :: lexFrom [.quoted '"'] [] text := by
  have here : readCode [] ('"' :: text) = ⟨[⟨.opener, ['"']⟩], [.quoted '"'], 0⟩ := rfl
  exact lexFrom_lexeme before rfl here

theorem lexFrom_literal (quoting : Quoting) (before : List Skipped) {value : List Char} (text : List Char)
    (noNul : nul ∉ value) :
    lexFrom [] before (quoting.literal value ++ text) =
      quoting.tokens before value ++ lexFrom [] [] text := by
  have split : quoting.literal value ++ text = quoting.quote :: (quoting.escape value ++ quoting.quote :: text) := by
    simp [literal]
  rw [split]
  cases quoting with
  | single => exact lexFrom_single_of_length before text (singleLength_escape text noNul)
  | double =>
      rw [quote, lexFrom_opener, tokens]
      by_cases empty : value = []
      · subst empty
        rw [escape, List.nil_append, lexFrom_closer]
        rfl
      · rw [lexFrom_chunk empty, lexFrom_closer, if_neg empty]
        rfl

def kind : Quoting → Kind
  | single => .string
  | double => .encapsed

def node (quoting : Quoting) (before : List Skipped) (value : List Char) : Node :=
  .branch quoting.kind ((quoting.tokens before value).map .leaf)

theorem unquote?_literal (quoting : Quoting) (value : List Char) :
    unquote? quoting.quote (quoting.literal value) = some (quoting.escape value) := by
  cases quoting <;> simp [unquote?, literal, quote, begins, List.isPrefixOf]

theorem text_node (quoting : Quoting) (before : List Skipped) (value : List Char) :
    (quoting.node before value).text = quoting.literal value := by
  cases quoting with
  | single => simp [Node.text, node, tokens, Node.tokens, Node.tokens.listTokens]
  | double =>
      by_cases empty : value = []
      · subst empty
        rfl
      · simp [Node.text, node, tokens, empty, Node.tokens, Node.tokens.listTokens, Token.source, Token.gap, literal,
          quote]

theorem literal?_node (quoting : Quoting) (before : List Skipped) (value : List Char) :
    literal? (quoting.node before value) = some value := by
  have unquoted := unquote?_literal quoting value
  rw [← text_node quoting before value] at unquoted
  cases quoting with
  | single =>
      change (unquote? '\'' (single.node before value).text).map decodeSingle = _
      rw [show '\'' = single.quote from rfl, unquoted, Option.map_some, decodeSingle_escape]
  | double =>
      have plain : ((double.tokens before value).map Node.leaf).all isPlainPart = true := by
        simp [isPlainPart]
      change (if _ then (unquote? '"' (double.node before value).text).map (decodeDouble false) else none) = _
      rw [if_pos plain, show '"' = double.quote from rfl, unquoted, Option.map_some, decodeDouble_escape]

end Quoting

end Phrasebook.Php
