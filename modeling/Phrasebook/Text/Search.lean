namespace Phrasebook

def find? (needle : List Char) : List Char → Option Nat
  | [] => if needle.isEmpty then some 0 else none
  | c :: text =>
    if needle.isPrefixOf (c :: text) then some 0 else (find? needle text).map (· + 1)

def begins (lead text : List Char) : Bool := lead.isPrefixOf text

theorem begins_iff {lead text : List Char} : begins lead text = true ↔ ∃ rest, text = lead ++ rest := by
  rw [begins, List.isPrefixOf_iff_prefix]
  exact ⟨fun ⟨rest, h⟩ => ⟨rest, h.symm⟩, fun ⟨rest, h⟩ => ⟨rest, h.symm⟩⟩

theorem begins_drop_of_find? {needle text : List Char} {n : Nat} (h : find? needle text = some n) :
    begins needle (text.drop n) = true := by
  induction text generalizing n with
  | nil =>
    unfold find? at h
    split at h
    · next empty => simp_all [begins, List.isEmpty_iff]
    · cases h
  | cons c text ih =>
    unfold find? at h
    split at h
    · next here => cases h; exact here
    · obtain ⟨m, hm, rfl⟩ := Option.map_eq_some_iff.1 h
      simpa using ih hm

theorem not_begins_drop_of_lt_find? {needle text : List Char} {n m : Nat}
    (h : find? needle text = some n) (hm : m < n) : begins needle (text.drop m) = false := by
  induction text generalizing n m with
  | nil =>
    unfold find? at h
    split at h
    · cases h; omega
    · cases h
  | cons c text ih =>
    unfold find? at h
    split at h
    · cases h; omega
    · next elsewhere =>
      obtain ⟨k, hk, rfl⟩ := Option.map_eq_some_iff.1 h
      cases m with
      | zero => exact Bool.eq_false_iff.2 elsewhere
      | succ m => simpa using ih hk (by omega)

end Phrasebook
