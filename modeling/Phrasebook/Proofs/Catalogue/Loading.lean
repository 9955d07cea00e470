import Mathlib.Data.List.Induction
import Phrasebook.Catalogue.Load
import Phrasebook.Proofs.Catalogue.Consistency

/-!
# What loading gives

`Dictionary.Serves` says which messages count for a key, and that the dictionary has the last of them. The
pattern of a group selects all its sources, and what it selects besides has no key in the group.

* `Pattern.selects_group`: no source of a group is lost to its pattern.
* `Dictionary.ofPairs_serves`: of pairs in the order of their messages, the last for each key stays.
* `Catalogue.load_serves`: what a catalogue loads, whatever operations have led to it.
-/

namespace Phrasebook

/-! ## Patterns -/

namespace Pattern

theorem escape_cons (c : Char) (text : List Char) :
    escape (c :: text) = (if c ∈ ['%', '_', '\\'] then ['\\', c] else [c]) ++ escape text := rfl

theorem parts?_cons {c : Char} (plain : c ∉ ['%', '_', '\\']) (rest : List Char) :
    parts? (c :: rest) = (parts? rest).map (.char c :: ·) := by
  simp only [List.mem_cons, List.not_mem_nil, or_false, not_or] at plain
  rw [parts?.eq_def]
  simp [plain]

theorem parts?_escape (text rest : List Char) :
    parts? (escape text ++ rest) = (parts? rest).map (text.map .char ++ ·) := by
  induction text with
  | nil => simp [escape]
  | cons c text ih =>
      rw [escape_cons]
      by_cases special : c ∈ ['%', '_', '\\']
      · simp [special, parts?, ih, Function.comp_def]
      · rw [if_neg special, List.append_assoc, List.singleton_append, parts?_cons special, ih]
        simp [Function.comp_def]

theorem fits_chars (text : List Char) (parts : List Part) (rest : List Char) :
    fits (text.map .char ++ parts) (text ++ rest) = fits parts rest := by
  induction text with
  | nil => rfl
  | cons c text ih => simp [fits, ih]

theorem fits_many (text : List Char) : fits [.many] text = true := by
  rw [fits, List.any_eq_true]
  exact ⟨text.length, by simp, by simp [fits]⟩

theorem beforeNul_append {text : List Char} (rest : List Char) (none : '\x00' ∉ text) :
    beforeNul (text ++ rest) = text ++ beforeNul rest := by
  refine List.takeWhile_append_of_pos fun c member => ?_
  rw [decide_eq_true_iff]
  rintro rfl
  exact none member

theorem nul_not_mem_escape {text : List Char} (none : '\x00' ∉ text) : '\x00' ∉ escape text := by
  intro member
  obtain ⟨c, listed, here⟩ := List.mem_flatMap.1 member
  have other : c ≠ '\x00' := fun same => none (same ▸ listed)
  split at here <;> simp [other.symm] at here

theorem selects_group (group : String) (key : List Char) :
    selects (Catalogue.groupPattern group) (group.toList ++ '.' :: key) = true := by
  by_cases nul : '\x00' ∈ group.toList
  · obtain ⟨lead, rest, split, none⟩ := List.eq_append_cons_of_mem nul
    have pattern : beforeNul (Catalogue.groupPattern group) = escape lead ++ [] := by
      rw [Catalogue.groupPattern, split, escape, List.flatMap_append, List.append_assoc]
      exact beforeNul_append _ (nul_not_mem_escape none)
    have text : beforeNul (group.toList ++ '.' :: key) = lead ++ [] := by
      rw [split, List.append_assoc]
      exact beforeNul_append _ none
    rw [selects, pattern, text, parts?_escape]
    exact fits_chars lead [] []
  · have pattern : beforeNul (Catalogue.groupPattern group) = escape group.toList ++ ".%".toList :=
      beforeNul_append _ (nul_not_mem_escape nul)
    have text : beforeNul (group.toList ++ '.' :: key) = group.toList ++ '.' :: beforeNul key :=
      beforeNul_append _ nul
    rw [selects, pattern, text, parts?_escape]
    refine (fits_chars group.toList [.char '.', .many] ('.' :: beforeNul key)).trans ?_
    rw [fits, fits_many, beq_self_eq_true, Bool.true_and]

end Pattern

/-! ## Dictionaries -/

/-- The messages that count for each key are the `offered` ones; the last of them is the value. -/
structure Dictionary.Serves (dictionary : Dictionary) (offered : String → MessageRow → Prop) : Prop where
  ascending : (dictionary.map (·.1)).Pairwise (· < ·)
  keys : ∀ key, key ∈ dictionary.map (·.1) ↔ ∃ message, offered key message
  values : ∀ key value, (key, value) ∈ dictionary ↔
    ∃ message, offered key message ∧ message.message = value ∧
      ∀ other, offered key other → other.id ≤ message.id

namespace Dictionary

variable {dictionary : Dictionary} {key value : String}

theorem mem_set (ascending : (dictionary.map (·.1)).Pairwise (· < ·)) {other old : String} :
    (other, old) ∈ dictionary.set key value ↔
      other = key ∧ old = value ∨ other ≠ key ∧ (other, old) ∈ dictionary := by
  -- The entries are in the order of their keys, so behind a greater key the key does not occur.
  induction dictionary with
  | nil => simp [set]
  | cons entry rest ih =>
      obtain ⟨first, stored⟩ := entry
      rw [List.map_cons, List.pairwise_cons] at ascending
      obtain ⟨least, ascending⟩ := ascending
      have later (known : (other, old) ∈ rest) : first < other := least other (List.mem_map_of_mem known)
      unfold set
      split
      · rename_i before
        have fresh (known : (other, old) ∈ (first, stored) :: rest) : other ≠ key := by
          rintro rfl
          rcases List.mem_cons.1 known with here | there
          · cases here
            exact String.lt_irrefl _ before
          · exact String.lt_asymm before (later there)
        rw [List.mem_cons, Prod.mk.injEq]
        exact or_congr_right ⟨fun known => ⟨fresh known, known⟩, And.right⟩
      · split
        · rename_i same
          subst same
          have apart (known : (other, old) ∈ rest) : other ≠ key := by
            rintro rfl
            exact String.lt_irrefl _ (later known)
          simp only [List.mem_cons, Prod.mk.injEq]
          grind
        · rename_i differ
          simp only [List.mem_cons, Prod.mk.injEq, ih ascending]
          grind

theorem mem_keys_set (ascending : (dictionary.map (·.1)).Pairwise (· < ·)) {other : String} :
    other ∈ (dictionary.set key value).map (·.1) ↔ other = key ∨ other ∈ dictionary.map (·.1) := by
  simp only [List.mem_map, Prod.exists, mem_set ascending]
  grind

theorem set_ascending (ascending : (dictionary.map (·.1)).Pairwise (· < ·)) :
    ((dictionary.set key value).map (·.1)).Pairwise (· < ·) := by
  induction dictionary with
  | nil => exact List.pairwise_singleton _ _
  | cons entry rest ih =>
      obtain ⟨first, stored⟩ := entry
      obtain ⟨least, others⟩ := List.pairwise_cons.1 ascending
      unfold set
      split
      · rename_i before
        refine List.pairwise_cons.2 ⟨fun other known => ?_, ascending⟩
        rcases List.mem_cons.1 known with rfl | there
        · exact before
        · exact String.lt_trans before (least other there)
      · rename_i notBefore
        split
        · rename_i same
          subst same
          exact ascending
        · rename_i differ
          refine List.pairwise_cons.2 ⟨fun other known => ?_, ih others⟩
          rcases (mem_keys_set others).1 known with rfl | there
          · exact Std.lt_of_le_of_ne (String.not_lt.1 notBefore) (Ne.symm differ)
          · exact least other there

namespace Serves

variable {offered offered' : String → MessageRow → Prop} {message : MessageRow}

theorem congr (serves : dictionary.Serves offered) (same : ∀ key message, offered key message ↔ offered' key message) :
    dictionary.Serves offered' := by
  have equal : offered = offered' := by
    funext key message
    exact propext (same key message)
  exact equal ▸ serves

theorem set (serves : dictionary.Serves offered) (key : String)
    (later : ∀ key other, offered key other → other.id < message.id) :
    (dictionary.set key message.message).Serves fun other offer =>
      offered other offer ∨ other = key ∧ offer = message where
  ascending := set_ascending serves.ascending
  keys := by
    intro other
    rw [mem_keys_set serves.ascending, serves.keys]
    by_cases here : other = key
    · simp [here]
    · simp [here]
  values := by
    intro other value
    rw [mem_set serves.ascending, serves.values]
    by_cases here : other = key
    · subst here
      simp only [true_and, ne_eq, not_true_eq_false, false_and, or_false]
      constructor
      · rintro rfl
        refine ⟨message, Or.inr rfl, rfl, ?_⟩
        rintro offer (old | rfl)
        · exact Int.le_of_lt (later _ offer old)
        · exact Int.le_refl _
      · rintro ⟨offer, old | rfl, text, last⟩
        · exact absurd (last message (Or.inr rfl)) (Int.not_le.2 (later _ offer old))
        · exact text.symm
    · simp [here]

end Serves

theorem ofPairs_serves {messages : List MessageRow} (ascending : (messages.map (·.id)).Pairwise (· < ·))
    (key? : MessageRow → Option String) :
    (ofPairs (messages.filterMap fun message => (key? message).map (·, message.message))).Serves
      fun key message => message ∈ messages ∧ key? message = some key := by
  -- From the last message: its id is greater than all before, so its entry is the one that counts.
  induction messages using List.reverseRecOn with
  | nil => exact ⟨.nil, by simp [ofPairs], by simp [ofPairs]⟩
  | append_singleton messages message ih =>
      rw [List.map_append, List.pairwise_append] at ascending
      obtain ⟨ascending, -, below⟩ := ascending
      have later (other : MessageRow) (member : other ∈ messages) : other.id < message.id :=
        below _ (List.mem_map_of_mem member) _ (List.mem_singleton_self _)
      rw [List.filterMap_append]
      cases keyed : key? message with
      | none =>
          simp only [List.filterMap_cons, keyed, Option.map_none, List.filterMap_nil, List.append_nil]
          refine (ih ascending).congr fun key other => ?_
          simp only [List.mem_append, List.mem_singleton, or_and_right, iff_self_or]
          rintro ⟨rfl, other⟩
          rw [keyed] at other
          cases other
      | some key =>
          simp only [List.filterMap_cons, keyed, Option.map_some, List.filterMap_nil, ofPairs,
            List.foldl_append, List.foldl_cons, List.foldl_nil]
          refine ((ih ascending).set key fun _ other offer => later other offer.1).congr fun other offer => ?_
          simp only [List.mem_append, List.mem_singleton, or_and_right]
          refine or_congr_right ⟨?_, ?_⟩
          · rintro ⟨rfl, rfl⟩
            exact ⟨rfl, keyed⟩
          · rintro ⟨rfl, same⟩
            exact ⟨Option.some.inj (same.symm.trans keyed), rfl⟩

end Dictionary

/-! ## Joining -/

def MessageRow.Translates (message : MessageRow) (rows : List SourceRow) (kind : SourceKind) (locale : String)
    (test : SourceRow → Prop) : Prop :=
  message.locale = locale ∧ ∃ row ∈ rows, message.RefersTo kind row.id ∧ test row

def MessageRow.row? (message : MessageRow) (rows : List SourceRow) (kind : SourceKind) : Option SourceRow :=
  (message.sourceId? kind).bind fun id => rows.find? (·.id == id)

namespace Catalogue

namespace Sound

variable {c : Catalogue} {sources : SourceKind → Table} {messages : Table}

theorem refersTo_iff (sound : c.Sound sources messages) {message : MessageRow}
    (stored : message ∈ messages.messages) {kind : SourceKind} {id : Int} :
    message.RefersTo kind id ↔ message.sourceId? kind = some id := by
  refine ⟨fun refers => refers.set, fun set => ⟨set, ?_⟩⟩
  obtain ⟨owner, row, -, refers⟩ := sound.attached message stored
  by_cases same : kind = owner
  · exact same ▸ refers.alone
  · rw [refers.alone kind same] at set
    cases set

theorem row?_eq_some (sound : c.Sound sources messages) {message : MessageRow}
    (stored : message ∈ messages.messages) {kind : SourceKind} {row : SourceRow} :
    message.row? (sources kind).sources kind = some row ↔
      row ∈ (sources kind).sources ∧ message.RefersTo kind row.id := by
  rw [MessageRow.row?, Option.bind_eq_some_iff, sound.refersTo_iff stored]
  constructor
  · rintro ⟨id, set, found⟩
    have same : row.id = id := by simpa using List.find?_some found
    exact ⟨List.mem_of_find?_eq_some found, same ▸ set⟩
  · rintro ⟨member, set⟩
    refine ⟨row.id, set, ?_⟩
    obtain ⟨other, found⟩ := Option.isSome_iff_exists.1
      (List.find?_isSome (p := (·.id == row.id)).2 ⟨row, member, beq_self_eq_true row.id⟩)
    have same : other.id = row.id := by simpa using List.find?_some found
    rw [found, (sound.sound kind).eq_of_id (List.mem_of_find?_eq_some found) member same]

theorem joined_eq (sound : c.Sound sources messages) (apart : c.names.Apart) (kind : SourceKind)
    (locale : String) :
    c.joined kind locale = .ok ((messages.messages.filter (·.locale == locale)).filterMap fun message =>
      (message.row? (sources kind).sources kind).map (·, message.message)) := by
  have column : (sources kind).lacking? ["source"] = none := by
    rw [Table.lacking?, sound.laid.sourceShape]
    cases kind <;> rfl
  have reference (message : MessageRow) :
      (if kind = .grouped then message.groupedId else message.textId) = message.sourceId? kind := by
    cases kind <;> rfl
  simp only [joined, sound.laid.table_source apart, sound.messages_eq apart, bind, Except.bind, column,
    Option.isSome_none, Bool.false_eq_true, ↓reduceIte, reference, pure, Except.pure, MessageRow.row?]

theorem joined_serves (sound : c.Sound sources messages) (kind : SourceKind) (locale : String)
    (key? : SourceRow → Option String) :
    (Dictionary.ofPairs (((messages.messages.filter (·.locale == locale)).filterMap fun message =>
        (message.row? (sources kind).sources kind).map (·, message.message)).filterMap fun (row, text) =>
          (key? row).map (·, text))).Serves fun key message =>
      message ∈ messages.messages ∧
        message.Translates (sources kind).sources kind locale fun row => key? row = some key := by
  have keyed (message : MessageRow) :
      (((message.row? (sources kind).sources kind).map (·, message.message)).bind fun (row, text) =>
        (key? row).map (·, text)) =
      ((message.row? (sources kind).sources kind).bind key?).map (·, message.message) := by
    cases message.row? (sources kind).sources kind <;> rfl
  rw [List.filterMap_filterMap]
  simp only [keyed]
  have ascending : ((messages.messages.filter (·.locale == locale)).map (·.id)).Pairwise (· < ·) :=
    sound.messagesAscending.sublist (List.filter_sublist.map _)
  refine (Dictionary.ofPairs_serves ascending _).congr fun key message => ?_
  rw [List.mem_filter, beq_iff_eq, Option.bind_eq_some_iff, and_assoc]
  refine and_congr_right fun stored => and_congr_right fun _ => ?_
  simp only [sound.row?_eq_some stored, and_assoc]

end Sound

/-! ## Loading -/

theorem keyIn?_eq_some {group source key : String} :
    keyIn? group source = some key ↔ source = group ++ "." ++ key := by
  have whole : (group ++ "." ++ key).toList = group.toList ++ ['.'] ++ key.toList := by simp
  rw [← String.toList_inj, whole, keyIn?]
  split
  · rename_i leads
    obtain ⟨rest, split⟩ := begins_iff.1 leads
    rw [Option.some.injEq, split, List.drop_left, List.append_cancel_left_eq, ← String.toList_inj,
      String.toList_ofList]
  · rename_i other
    refine iff_of_false (fun none => nomatch none) fun same => other ?_
    exact begins_iff.2 ⟨key.toList, same⟩

namespace Sound

variable {c : Catalogue} {sources : SourceKind → Table} {messages : Table}

theorem loadTexts_serves (sound : c.Sound sources messages) (apart : c.names.Apart) (locale : String) :
    ∃ dictionary, c.loadTexts locale = .ok dictionary ∧ dictionary.Serves fun key message =>
      message ∈ messages.messages ∧
        message.Translates (sources .text).sources .text locale fun row => row.source = key := by
  have serves := sound.joined_serves .text locale fun row => some row.source
  simp only [Option.map_some, Option.some.injEq, List.filterMap_eq_map'] at serves
  refine ⟨_, ?_, serves⟩
  simp only [loadTexts, sound.joined_eq apart, bind, Except.bind, pure, Except.pure]

theorem loadGroup_serves (sound : c.Sound sources messages) (apart : c.names.Apart) (locale group : String)
    (scope? : Option String) (short : (Utf8.encode (groupPattern group)).length ≤ patternLimit) :
    ∃ dictionary, c.loadGroup locale group scope? = .ok dictionary ∧ dictionary.Serves fun key message =>
      message ∈ messages.messages ∧ message.Translates (sources .grouped).sources .grouped locale fun row =>
        row.source = group ++ "." ++ key ∧ (scope? = none ∨ row.scope? = scope?) := by
  let admits (row : SourceRow) : Bool :=
    Pattern.selects (groupPattern group) row.source.toList && (scope?.isNone || row.scope? == scope?)
  have serves := sound.joined_serves .grouped locale fun row =>
    if admits row then keyIn? group row.source else none
  have keyed (row : SourceRow) (key : String) :
      (if admits row then keyIn? group row.source else none) = some key ↔
        row.source = group ++ "." ++ key ∧ (scope? = none ∨ row.scope? = scope?) := by
    rw [Option.ite_none_right_eq_some, keyIn?_eq_some, and_comm]
    refine and_congr_right fun source => ?_
    -- The pattern takes away no source that has a key in the group.
    have selected : Pattern.selects (groupPattern group) row.source.toList = true := by
      rw [source]
      simpa using Pattern.selects_group group key.toList
    simp [admits, selected]
  simp only [keyed] at serves
  refine ⟨_, ?_, serves⟩
  simp only [loadGroup, sound.joined_eq apart, bind, Except.bind, Nat.not_lt.2 short, and_false, ↓reduceIte,
    pure, Except.pure]
  rw [List.filterMap_filter]
  refine congrArg (Except.ok ∘ Dictionary.ofPairs) (List.filterMap_congr fun pair _ => ?_)
  rw [apply_ite (Option.map _)]
  rfl

end Sound

/-- What a catalogue loads, whatever operations have led to it: nothing in the source locale; for the group and the
namespace `*` the texts with a message in the locale; and for any other group and namespace the keys of the grouped
sources with one. Each key has the last message of all rows that give the key. -/
theorem load_serves {names : TableNames} (apart : names.Apart) {db : Database} {c : Catalogue}
    (opened : openWith names .empty = (db, .ok c)) (operations : List Operation) :
    ∃ rows messages, (c.performAll operations).Consistent rows messages ∧
      ∀ sourceLocale locale group scope?,
        (locale = sourceLocale → (c.performAll operations).load sourceLocale locale group scope? = .ok []) ∧
        (locale ≠ sourceLocale → group = "*" ∧ scope? = some "*" → ∃ dictionary,
          (c.performAll operations).load sourceLocale locale group scope? = .ok dictionary ∧
          dictionary.Serves fun key message => message ∈ messages ∧
            message.Translates (rows .text) .text locale fun row => row.source = key) ∧
        (locale ≠ sourceLocale → ¬ (group = "*" ∧ scope? = some "*") →
          (Utf8.encode (groupPattern group)).length ≤ 50000 → ∃ dictionary,
            (c.performAll operations).load sourceLocale locale group scope? = .ok dictionary ∧
            dictionary.Serves fun key message => message ∈ messages ∧
              message.Translates (rows .grouped) .grouped locale fun row =>
                row.source = group ++ "." ++ key ∧
                  (scope? = none ∨ scope? = some "*" ∨ row.scope? = scope?)) := by
  obtain ⟨sameNames, sources, messages, sound⟩ := performAll_sound apart opened operations
  have apart' : (c.performAll operations).names.Apart := by rwa [sameNames]
  refine ⟨_, _, sound.consistent apart', fun sourceLocale locale group scope? => ⟨?_, ?_, ?_⟩⟩
  · intro same
    rw [load, if_pos same]
  · intro other texts
    obtain ⟨dictionary, loaded, serves⟩ := sound.loadTexts_serves apart' locale
    refine ⟨dictionary, ?_, serves⟩
    rw [load, if_neg other, if_pos (by exact texts), loaded]
  -- The namespace `*` stands for all of them.
  · intro other grouped short
    obtain ⟨dictionary, loaded, serves⟩ := sound.loadGroup_serves apart' locale group
      (if scope? = some wildcard then none else scope?) short
    refine ⟨dictionary, ?_, serves.congr fun key message => ?_⟩
    · rw [load, if_neg other, if_neg (by exact grouped), loaded]
    · by_cases any : scope? = some wildcard
      · have all : scope? = some "*" := any
        simp [all, wildcard]
      · have some : scope? ≠ some "*" := any
        simp [any, some]

def lookalikes : List Operation :=
  [.insertSource .grouped none "a_b.x" "en" ⟨10, 0⟩, .insertSource .grouped (some "app") "a_b.x" "en" ⟨10, 0⟩,
    .insertSource .grouped none "A_B.x" "en" ⟨10, 0⟩, .insertMessage .grouped 1 "de" "eins",
    .insertMessage .grouped 2 "de" "zwei", .insertMessage .grouped 3 "de" "drei"]

theorem load_serves_lookalikes : TableNames.brief.Apart ∧
    openWith .brief .empty = (briefDatabase, .ok briefCatalogue) ∧ ∃ dictionary,
      (briefCatalogue.performAll lookalikes).load "en" "de" "a_b" none = .ok dictionary ∧
        ("x", "zwei") ∈ dictionary := by
  obtain ⟨rows, messages, consistent, loads⟩ := load_serves brief_apart brief_opens lookalikes
  obtain ⟨-, -, loads⟩ := loads "en" "de" "a_b" none
  obtain ⟨dictionary, loaded, serves⟩ := loads (by decide) (by decide) (by decide)
  have grouped : (briefCatalogue.performAll lookalikes).records .grouped =
      .ok [⟨1, "en", none, "a_b.x", false, ⟨10, 0⟩, none⟩, ⟨2, "en", some "app", "a_b.x", false, ⟨10, 0⟩, none⟩,
        ⟨3, "en", none, "A_B.x", false, ⟨10, 0⟩, none⟩] := by decide +kernel
  have stored : (briefCatalogue.performAll lookalikes).messages =
      .ok [⟨1, some 1, none, "de", "eins", false⟩, ⟨2, some 2, none, "de", "zwei", false⟩,
        ⟨3, some 3, none, "de", "drei", false⟩] := by decide +kernel
  have rowsGrouped := Except.ok.inj (grouped.symm.trans (consistent.records .grouped))
  obtain rfl := Except.ok.inj (stored.symm.trans consistent.stored)
  rw [← rowsGrouped] at serves
  refine ⟨brief_apart, brief_opens, dictionary, loaded, (serves.values "x" "zwei").2 ?_⟩
  refine ⟨⟨2, some 2, none, "de", "zwei", false⟩, ⟨by simp, rfl,
    ⟨2, "en", some "app", "a_b.x", false, ⟨10, 0⟩, none⟩, by simp, ⟨rfl, ?_⟩, rfl, Or.inl rfl⟩, rfl, ?_⟩
  · intro other apart
    cases other with
    | grouped => exact absurd rfl apart
    | text => rfl
  · rintro other ⟨listed, -, row, member, refers, source, -⟩
    have set := refers.set
    simp only [List.mem_cons, List.not_mem_nil, or_false] at member listed
    rcases listed with rfl | rfl | rfl
    · decide
    · decide
    · rcases member with rfl | rfl | rfl
      · cases set
      · cases set
      · exact absurd source (by decide)

end Catalogue

end Phrasebook
