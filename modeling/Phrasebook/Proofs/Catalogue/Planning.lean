import Mathlib.Data.List.Nodup
import Phrasebook.Catalogue.Plan
import Phrasebook.Distinct

namespace Phrasebook

section Firsts

variable {α : Type} [DecidableEq α]

theorem mem_firsts {seen values : List α} {value : α} :
    value ∈ firsts seen values ↔ value ∈ values ∧ value ∉ seen := by
  induction values generalizing seen with
  | nil => simp [firsts]
  | cons head tail ih =>
      unfold firsts
      split
      · rename_i known
        rw [ih, List.mem_cons]
        constructor
        · rintro ⟨member, fresh⟩
          exact ⟨Or.inr member, fresh⟩
        · rintro ⟨rfl | member, fresh⟩
          · exact absurd known fresh
          · exact ⟨member, fresh⟩
      · rename_i fresh
        rw [List.mem_cons, ih, List.mem_cons, List.mem_cons]
        constructor
        · rintro (rfl | ⟨member, apart⟩)
          · exact ⟨Or.inl rfl, fresh⟩
          · exact ⟨Or.inr member, fun known => apart (Or.inr known)⟩
        · rintro ⟨rfl | member, unseen⟩
          · exact Or.inl rfl
          · by_cases same : value = head
            · exact Or.inl same
            · exact Or.inr ⟨member, fun known => known.elim same unseen⟩

theorem firsts_nodup (seen values : List α) : (firsts seen values).Nodup := by
  induction values generalizing seen with
  | nil => exact .nil
  | cons head tail ih =>
      unfold firsts
      split
      · exact ih seen
      · refine List.nodup_cons.2 ⟨fun member => ?_, ih _⟩
        exact (mem_firsts.1 member).2 (List.mem_cons_self ..)

theorem firsts_congr {seen seen' : List α} (same : ∀ value, value ∈ seen ↔ value ∈ seen')
    (values : List α) : firsts seen values = firsts seen' values := by
  induction values generalizing seen seen' with
  | nil => rfl
  | cons head tail ih =>
      have further : ∀ value, value ∈ head :: seen ↔ value ∈ head :: seen' := by simp [same]
      simp only [firsts, same, ih same, ih further]

theorem firsts_append (seen values others : List α) :
    firsts seen (values ++ others) = firsts seen values ++ firsts (values ++ seen) others := by
  induction values generalizing seen with
  | nil => rfl
  | cons value values ih =>
      have same {met : List α} (met_iff : ∀ other, other ∈ met ↔ other = value ∨ other ∈ seen) :
          firsts (values ++ met) others = firsts (value :: values ++ seen) others :=
        firsts_congr (fun other => by simp [met_iff, or_left_comm]) others
      rw [List.cons_append, firsts, firsts]
      split
      · rename_i known
        rw [ih, same fun other => by simp only [iff_or_self]; rintro rfl; exact known]
      · rw [ih, same fun other => List.mem_cons]
        rfl

theorem firsts_eq_filter (seen values : List α) : firsts seen values = (firsts [] values).filter (· ∉ seen) := by
  suffices more : ∀ met, firsts (seen ++ met) values = (firsts met values).filter (· ∉ seen) by
    simpa using more []
  induction values with
  | nil => exact fun met => rfl
  | cons value values ih =>
      intro met
      simp only [firsts, List.mem_append]
      by_cases known : value ∈ met
      · rw [if_pos known, if_pos (Or.inr known), ih]
      · rw [if_neg known, List.filter_cons, ← ih]
        have same : firsts (seen ++ value :: met) values = firsts (value :: (seen ++ met)) values :=
          firsts_congr (fun other => by simp [or_left_comm]) values
        by_cases before : value ∈ seen
        · have again : firsts (value :: (seen ++ met)) values = firsts (seen ++ met) values :=
            firsts_congr (fun other => by grind) values
          simp [before, same, again]
        · simp [before, known, same]

theorem firsts_of_nodup {seen values : List α} (nodup : values.Nodup) (fresh : ∀ value ∈ values, value ∉ seen) :
    firsts seen values = values := by
  induction values generalizing seen with
  | nil => rfl
  | cons value values ih =>
      obtain ⟨once, nodup⟩ := List.nodup_cons.1 nodup
      rw [firsts, if_neg (fresh value (List.mem_cons_self ..)), ih nodup]
      intro other member
      have apart : other ≠ value := fun same => once (same ▸ member)
      simp [apart, fresh other (List.mem_cons_of_mem _ member)]

end Firsts

theorem find?_key_eq_some {α : Type} {items : List α} {key : α → String} (distinct : (items.map key).Nodup)
    {item : α} {value : String} :
    items.find? (fun item => key item == value) = some item ↔ item ∈ items ∧ key item = value := by
  constructor
  · intro found
    exact ⟨List.mem_of_find?_eq_some found, by simpa using List.find?_some found⟩
  · rintro ⟨member, rfl⟩
    have present : (items.find? fun other => key other == key item).isSome :=
      List.find?_isSome.2 ⟨item, member, by simp⟩
    obtain ⟨other, found⟩ := Option.isSome_iff_exists.1 present
    have same : key other = key item := by simpa using List.find?_some found
    rw [found, List.inj_on_of_nodup_map distinct (List.mem_of_find?_eq_some found) member same]

namespace Plan

def renewal? (snapshot : Snapshot) (value : String) : Option Int :=
  (snapshot.find? value).bind fun entry => if entry.missing then some entry.id else none

def unfound (snapshot : Snapshot) (values : List String) : List Int :=
  (snapshot.filter fun entry => entry.value ∉ values).map (·.id)

theorem find?_filter_of_not_mem {snapshot : Snapshot} {met : List String} {value : String}
    (fresh : value ∉ met) :
    Snapshot.find? value (snapshot.filter fun entry => entry.value ∉ met) = snapshot.find? value := by
  rw [Snapshot.find?, Snapshot.find?, List.find?_filter]
  congr 1
  funext entry
  by_cases same : entry.value = value
  · simp [same, fresh]
  · simp [same]

theorem find?_filter_of_mem {snapshot : Snapshot} {met : List String} {value : String}
    (known : value ∈ met) :
    Snapshot.find? value (snapshot.filter fun entry => entry.value ∉ met) = none := by
  rw [Snapshot.find?, List.find?_eq_none]
  intro entry member same
  obtain ⟨-, apart⟩ := List.mem_filter.1 member
  rw [beq_iff_eq] at same
  simp [same, known] at apart

theorem without_filter (snapshot : Snapshot) (met : List String) (value : String) :
    Snapshot.without value (snapshot.filter fun entry => entry.value ∉ met) =
      snapshot.filter fun entry => entry.value ∉ value :: met := by
  rw [Snapshot.without, List.filter_filter]
  apply List.filter_congr
  intro entry _
  rw [Bool.eq_iff_iff]
  simp

/-- The invariant of the pass: what waits are the entries for values not met so far. -/
theorem makeFrom_eq (snapshot : Snapshot) (met values : List String) :
    makeFrom (snapshot.filter fun entry => entry.value ∉ met) met values =
      ⟨(firsts met values).filter fun value => (snapshot.find? value).isNone,
        (firsts met values).filterMap (renewal? snapshot),
        (unfound snapshot (met ++ values)).mergeSort (· ≤ ·)⟩ := by
  induction values generalizing met with
  | nil => simp [makeFrom, firsts, unfound]
  | cons value values ih =>
      have waiting : unfound snapshot (value :: met ++ values) = unfound snapshot (met ++ value :: values) := by
        simp only [unfound, List.cons_append, List.mem_append, List.mem_cons, or_left_comm]
      simp only [makeFrom, without_filter, ih, waiting]
      by_cases known : value ∈ met
      · have again : firsts (value :: met) values = firsts met values :=
          firsts_congr (fun other => by simp only [List.mem_cons, or_iff_right_iff_imp]; rintro rfl; exact known)
            values
        rw [find?_filter_of_mem known, firsts, if_pos known, again]
        simp [known]
      · have first : firsts met (value :: values) = value :: firsts (value :: met) values := by
          rw [firsts, if_neg known]
        rw [find?_filter_of_not_mem known, first]
        cases found : snapshot.find? value with
        | none => simp [known, found, renewal?]
        | some entry =>
            by_cases missing : entry.missing
            · simp [found, renewal?, missing]
            · simp [found, renewal?, missing]

theorem make_eq (snapshot : Snapshot) (found : List String) :
    make snapshot found =
      ⟨(firsts [] found).filter fun value => (snapshot.find? value).isNone,
        (firsts [] found).filterMap (renewal? snapshot),
        (unfound snapshot found).mergeSort (· ≤ ·)⟩ := by
  have pass := makeFrom_eq snapshot [] found
  simpa [make] using pass

end Plan

end Phrasebook
