import Phrasebook.Extraction
import Phrasebook.Proofs.Php.Places

namespace Phrasebook.Php

namespace Node

/-- A node and all below it in the order of `preorder`, each with the offset at which its source begins. -/
def located (offset : Nat) : Node → List (Nat × Node)
  | .leaf token => [(offset, .leaf token)]
  | .missing => [(offset, .missing)]
  | .branch kind children => (offset, .branch kind children) :: listLocated offset children
where
  listLocated (offset : Nat) : List Node → List (Nat × Node)
    | [] => []
    | child :: children => child.located offset ++ listLocated (offset + child.source.length) children

mutual

theorem map_snd_located (node : Node) (offset : Nat) : (node.located offset).map Prod.snd = node.preorder := by
  cases node with
  | leaf token => rfl
  | missing => rfl
  | branch kind children =>
      rw [located, preorder, List.map_cons, map_snd_listLocated children offset]

theorem map_snd_listLocated (nodes : List Node) (offset : Nat) :
    (located.listLocated offset nodes).map Prod.snd = preorder.listPreorder nodes := by
  cases nodes with
  | nil => rfl
  | cons node nodes =>
      rw [located.listLocated, preorder.listPreorder, List.map_append, map_snd_located node offset,
        map_snd_listLocated nodes _]

end

def sourceOf (nodes : List Node) : List Char := (tokens.listTokens nodes).flatMap Token.source

theorem sourceOf_cons (node : Node) (nodes : List Node) :
    sourceOf (node :: nodes) = node.source ++ sourceOf nodes := by
  rw [sourceOf, listTokens_cons, List.flatMap_append]
  rfl

theorem source_branch (kind : Kind) (children : List Node) :
    (Node.branch kind children).source = sourceOf children := by
  rw [source, tokens_branch, sourceOf]

mutual

theorem source_at_located {node found : Node} {offset place : Nat} (mem : (place, found) ∈ node.located offset) :
    ∃ front back, node.source = front ++ found.source ++ back ∧ place = offset + front.length := by
  cases node with
  | leaf token =>
      obtain ⟨rfl, rfl⟩ := Prod.mk.inj (List.mem_singleton.1 mem)
      exact ⟨[], [], by simp, rfl⟩
  | missing =>
      obtain ⟨rfl, rfl⟩ := Prod.mk.inj (List.mem_singleton.1 mem)
      exact ⟨[], [], by simp, rfl⟩
  | branch kind children =>
      rw [located, List.mem_cons] at mem
      rcases mem with here | below
      · obtain ⟨rfl, rfl⟩ := Prod.mk.inj here
        exact ⟨[], [], by simp, rfl⟩
      · rw [source_branch]
        exact source_at_listLocated below

theorem source_at_listLocated {nodes : List Node} {found : Node} {offset place : Nat}
    (mem : (place, found) ∈ located.listLocated offset nodes) :
    ∃ front back, sourceOf nodes = front ++ found.source ++ back ∧ place = offset + front.length := by
  cases nodes with
  | nil => cases mem
  | cons node nodes =>
      rw [located.listLocated, List.mem_append] at mem
      rw [sourceOf_cons]
      rcases mem with here | later
      · obtain ⟨front, back, split, same⟩ := source_at_located here
        exact ⟨front, back ++ sourceOf nodes, by rw [split]; simp, same⟩
      · obtain ⟨front, back, split, same⟩ := source_at_listLocated later
        refine ⟨node.source ++ front, back, by rw [split]; simp, ?_⟩
        rw [same, List.length_append, Nat.add_assoc]

end

def IsFaulty (node : Node) : Prop := ∃ fault ∈ node.preorder, fault.isFault = true

def firstIn (nodes : List (Nat × Node)) : Option (Nat × Node) := nodes.find? (·.2.isFault)

theorem firstIn_cons {node : Node} (offset : Nat) (nodes : List (Nat × Node)) :
    firstIn ((offset, node) :: nodes) = if node.isFault then some (offset, node) else firstIn nodes := by
  rw [firstIn, List.find?_cons]
  cases node.isFault <;> rfl

theorem firstIn_append (nodes others : List (Nat × Node)) :
    firstIn (nodes ++ others) = (firstIn nodes).or (firstIn others) := List.find?_append

theorem isFaulty_iff {node : Node} (offset : Nat) :
    node.IsFaulty ↔ (firstIn (node.located offset)).isSome = true := by
  rw [IsFaulty, ← map_snd_located node offset, firstIn, List.find?_isSome]
  simp only [List.mem_map]
  constructor
  · rintro ⟨_, ⟨place, mem, rfl⟩, fault⟩
    exact ⟨place, mem, fault⟩
  · rintro ⟨place, mem, fault⟩
    exact ⟨place.2, ⟨place, mem, rfl⟩, fault⟩

theorem isFault_branch {kind : Kind} (children : List Node) :
    (Node.branch kind children).isFault = decide (kind = .error) := by
  cases kind <;> rfl

mutual

theorem findFault_eq (node : Node) (offset : Nat) :
    findFault offset node = match firstIn (node.located offset) with
      | some (place, fault) => .inl (place + fault.leadingGap.length, fault)
      | none => .inr (offset + node.source.length) := by
  cases node with
  | leaf token => simp [findFault, located, firstIn, isFault, source, tokens]
  | missing => rfl
  | branch kind children =>
      rw [findFault, located, firstIn_cons, isFault_branch, source_branch]
      by_cases error : kind = .error
      · simp [error]
      · simp [error, findFaultIn_eq children offset]

theorem findFaultIn_eq (nodes : List Node) (offset : Nat) :
    findFaultIn offset nodes = match firstIn (located.listLocated offset nodes) with
      | some (place, fault) => .inl (place + fault.leadingGap.length, fault)
      | none => .inr (offset + (sourceOf nodes).length) := by
  cases nodes with
  | nil => rfl
  | cons node nodes =>
      rw [findFaultIn, findFault_eq node offset, located.listLocated, firstIn_append, sourceOf_cons]
      cases first : firstIn (node.located offset) with
      | some fault => rfl
      | none =>
          simp only [Option.none_or, List.length_append, ← Nat.add_assoc]
          exact findFaultIn_eq nodes _

end

theorem firstFault?_eq (root : Node) : root.firstFault? =
    (firstIn (root.located 0)).map fun (place, fault) => (place + fault.leadingGap.length, fault) := by
  rw [firstFault?, findFault_eq]
  cases firstIn (root.located 0) <;> rfl

mutual

/-- Looks for the first fault under the flag. A tree with the flag that is no fault and has none in its children is
taken for the fault. -/
def flaggedFault? (flag : Node → Bool) (offset : Nat) : Node → Option (Nat × Node)
  | .leaf token => if flag (.leaf token) then some (offset, .leaf token) else none
  | .missing => if flag .missing then some (offset, .missing) else none
  | .branch kind children =>
    if !flag (.branch kind children) then none
    else if kind = .error then some (offset, .branch kind children)
    else some ((flaggedFaultIn? flag offset children).getD (offset, .branch kind children))

def flaggedFaultIn? (flag : Node → Bool) (offset : Nat) : List Node → Option (Nat × Node)
  | [] => none
  | child :: children =>
    match flaggedFault? flag offset child with
    | some fault => some fault
    | none => flaggedFaultIn? flag (offset + child.source.length) children

end

def Flagged (flag : Node → Bool) (root : Node) : Prop :=
  ∀ node ∈ root.preorder, flag node = true ↔ node.IsFaulty

variable {flag : Node → Bool}

theorem self_mem_preorder (node : Node) : node ∈ node.preorder := by
  cases node <;> rw [preorder] <;> exact List.mem_cons_self

theorem Flagged.children {kind : Kind} {children : List Node} (flagged : Flagged flag (.branch kind children)) :
    ∀ child ∈ children, Flagged flag child := by
  intro child member node below
  refine flagged node ?_
  rw [preorder]
  exact List.mem_cons_of_mem _ (mem_listPreorder.2 ⟨child, member, below⟩)

theorem Flagged.none {node : Node} (flagged : Flagged flag node) (lowered : flag node = false) (offset : Nat) :
    firstIn (node.located offset) = none := by
  have sound : ¬ node.IsFaulty := by
    rw [← flagged node (self_mem_preorder node), lowered]
    exact Bool.false_ne_true
  rwa [isFaulty_iff offset, Option.not_isSome_iff_eq_none] at sound

theorem Flagged.isSome {node : Node} (flagged : Flagged flag node) (raised : flag node = true) (offset : Nat) :
    (firstIn (node.located offset)).isSome = true :=
  (isFaulty_iff offset).1 ((flagged node (self_mem_preorder node)).1 raised)

mutual

theorem flaggedFault?_eq (node : Node) (flagged : Flagged flag node) (offset : Nat) :
    node.flaggedFault? flag offset = firstIn (node.located offset) := by
  cases raised : flag node with
  | false =>
      rw [flagged.none raised offset]
      cases node <;> simp [flaggedFault?, raised]
  | true =>
      have found := flagged.isSome raised offset
      cases node with
      | leaf token => cases found
      | missing => simp [flaggedFault?, raised, located, firstIn_cons, isFault]
      | branch kind children =>
          rw [located, firstIn_cons, isFault_branch] at found ⊢
          by_cases error : kind = .error
          · subst error
            simp [flaggedFault?, raised]
          · -- The flag leads to a child, so the fallback is not needed.
            have inner := flaggedFaultIn?_eq children flagged.children offset
            simp only [error, decide_false, Bool.false_eq_true, if_false] at found ⊢
            obtain ⟨fault, found⟩ := Option.isSome_iff_exists.1 found
            simp [flaggedFault?, raised, error, inner, found]

theorem flaggedFaultIn?_eq (nodes : List Node) (flagged : ∀ node ∈ nodes, Flagged flag node) (offset : Nat) :
    flaggedFaultIn? flag offset nodes = firstIn (located.listLocated offset nodes) := by
  cases nodes with
  | nil => rfl
  | cons node nodes =>
      obtain ⟨here, later⟩ := List.forall_mem_cons.1 flagged
      rw [flaggedFaultIn?, located.listLocated, firstIn_append, flaggedFault?_eq node here offset]
      cases firstIn (node.located offset) with
      | some fault => rfl
      | none => exact flaggedFaultIn?_eq nodes later _

end

example (token : Token) : (Node.leaf token).flaggedFault? (fun _ => true) 0 = some (0, .leaf token) := rfl

theorem firstIn_eq_some {root fault : Node} {offset place : Nat}
    (found : firstIn (root.located offset) = some (place, fault)) :
    fault.isFault = true ∧
      (∃ before after, root.preorder = before ++ fault :: after ∧ ∀ node ∈ before, node.isFault = false) ∧
      ∃ front back, root.source = front ++ fault.source ++ back ∧ place = offset + front.length := by
  obtain ⟨faulty, before, after, split, sound⟩ := List.find?_eq_some_iff_append.1 found
  refine ⟨faulty, ⟨before.map Prod.snd, after.map Prod.snd, ?_, ?_⟩, source_at_located (split ▸ by simp)⟩
  · rw [← map_snd_located root offset, split, List.map_append, List.map_cons]
  · intro node mem
    obtain ⟨other, earlier, rfl⟩ := List.mem_map.1 mem
    simpa using sound other earlier

theorem isSome_firstFault? {root : Node} : root.firstFault?.isSome = true ↔ root.IsFaulty := by
  rw [firstFault?_eq, Option.isSome_map, isFaulty_iff 0]

end Node

open Node

/-- A search by flags that say the truth, and the search without them, find the first fault in preorder where it
stands, and none if there is none. A source is refused if its tree has a fault, and only then; so no occurrence
comes from such a tree. -/
theorem first_fault_exact (root : Node) :
    (∀ flag, Flagged flag root → root.flaggedFault? flag 0 = firstIn (root.located 0)) ∧
      root.firstFault? =
        (firstIn (root.located 0)).map (fun (place, fault) => (place + fault.leadingGap.length, fault)) ∧
      (firstIn (root.located 0) = none ↔ ¬ root.IsFaulty) ∧
      (∀ place fault, firstIn (root.located 0) = some (place, fault) → fault.isFault = true ∧
        (∃ before after, root.preorder = before ++ fault :: after ∧ ∀ node ∈ before, node.isFault = false) ∧
        ∃ front back, root.source = front ++ fault.source ++ back ∧ place = front.length) ∧
      ∀ compiler table kind source, FunctionTable.isEmpty table = false →
        (extract compiler table kind source = .error .malformed ↔
          (parse (kind.toCode compiler source).toList).IsFaulty) ∧
        ∀ found, extract compiler table kind source = .ok found →
          ¬ (parse (kind.toCode compiler source).toList).IsFaulty := by
  refine ⟨fun flag flagged => flaggedFault?_eq root flagged 0, firstFault?_eq root, ?_,
    fun place fault found => ?_, fun compiler table kind source some => ?_⟩
  · rw [isFaulty_iff 0, Option.not_isSome_iff_eq_none]
  · simpa only [Nat.zero_add] using firstIn_eq_some found
  · rw [extract, if_neg (by simp [some])]
    by_cases faulty : (parse (kind.toCode compiler source).toList).IsFaulty
    · simp [isSome_firstFault?.2 faulty, faulty]
    · have sound := mt isSome_firstFault?.1 faulty
      simp [sound, faulty]

def nestedFaults : Node :=
  let word : Node := .leaf ⟨[], ⟨.word, "a".toList⟩⟩
  .branch .program [word, .branch .statement [word, .missing, .branch .error [.branch .error [word], .missing]], word]

theorem first_fault_exact_nested :
    Flagged (fun node => node.preorder.any isFault) nestedFaults ∧
      nestedFaults.flaggedFault? (fun node => node.preorder.any isFault) 0 = some (2, .missing) ∧
      nestedFaults.firstFault? = some (2, .missing) := by
  have flagged : Flagged (fun node => node.preorder.any isFault) nestedFaults :=
    fun node _ => List.any_eq_true
  obtain ⟨byFlags, without, -⟩ := first_fault_exact nestedFaults
  exact ⟨flagged, (byFlags _ flagged).trans rfl, without.trans rfl⟩

end Phrasebook.Php
