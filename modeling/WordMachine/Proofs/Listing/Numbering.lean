import Mathlib.Data.List.Nodup
import WordMachine.Proofs.Listing.Naming
import WordMachine.Proofs.Listing.Tiling

/-!
# How labels are numbered

`references` are the jumps and calls of a program to places that can be named, in the order of the
lines, and `firstReferences` those among them that no other in front has the same target as. Naming
goes over the references with a table and two counters, and `Naming.Numbers` says what the table
and the counters are at any time: those of the first references so far. So the label of an address
is a matter of its place among the first references (`label?_eq_jump_iff`, `label?_eq_call_iff`), and
there is one exactly if the address is referred to and can be named (`exists_label?_iff`).

From this, a label stands where it can be defined (`start_of_label?`), and no two addresses have the
same (`label?_inj`).
-/

namespace WordMachine

/-- The jump or call on a line: its opcode and the word it goes to. -/
def Line.branch? (line : Line) : Option (Opcode × Word) :=
  match line.content with
  | .data _ => none
  | .instruction instruction =>
    match instruction.opcode, instruction.operands.toList with
    | .jmp, [target] => some (.jmp, target)
    | .jt, [_, target] => some (.jt, target)
    | .jf, [_, target] => some (.jf, target)
    | .call, [target] => some (.call, target)
    | _, _ => none

namespace Listing

/-- A line starts at the address, or the program ends there. -/
def IsStart (lines : List Line) (size address : Nat) : Prop :=
  address = size ∨ ∃ line ∈ lines, line.address = address

/-! ## References -/

/-- A line mentions the target of its jump or call, and nothing else. -/
theorem mentions_eq (line : Line) : mentions line = line.branch?.toList := by
  obtain ⟨address, content⟩ := line
  cases content with
  | data word => rfl
  | instruction instruction =>
    obtain ⟨opcode, operands⟩ := instruction
    have hlength : operands.toList.length = opcode.arity := operands.length_toList
    simp only [mentions, Line.branch?, Instruction.targets, Instruction.operandsWithRoles]
    generalize operands.toList = words at hlength
    -- An opcode takes three operands at most, and the number of them decides the lists below.
    rcases words with _ | ⟨first, _ | ⟨second, _ | ⟨third, rest⟩⟩⟩ <;> cases opcode <;>
      first | rfl | cases hlength

instance (lines : List Line) (size address : Nat) : Decidable (IsStart lines size address) :=
  inferInstanceAs (Decidable (address = size ∨ ∃ line ∈ lines, line.address = address))

/-- The jumps and calls to addresses where a line starts or the program ends, in order. -/
def references (lines : List Line) (size : Nat) : List (Opcode × Word) :=
  (lines.filterMap Line.branch?).filter fun (_, target) => IsStart lines size target.toNat

/-- Those whose target is not the target of one in front. -/
def firsts (references : List (Opcode × Word)) : List (Opcode × Word) :=
  references.eraseDupsBy fun reference other => reference.2 == other.2

/-- Naming goes over the references. -/
theorem name_eq (lines : List Line) (size : Nat) :
    name lines size = (references lines size).foldl
      (fun naming reference => naming.mention reference.1 reference.2) .empty := by
  have hmentions : lines.flatMap mentions = lines.filterMap Line.branch? := by
    rw [List.filterMap_eq_flatMap_toList]
    exact congrArg (lines.flatMap ·) (funext mentions_eq)
  unfold name references
  simp only [hmentions, List.foldl_filter]
  congr 1
  funext naming ⟨opcode, target⟩
  have hstart : (decide (target.toNat = size) ||
      (Std.HashSet.ofList (lines.map Line.address)).contains target.toNat) =
        decide (IsStart lines size target.toNat) := by
    rw [Bool.eq_iff_iff, Bool.or_eq_true, decide_eq_true_eq, decide_eq_true_eq,
      Std.HashSet.contains_ofList, List.contains_iff_mem, List.mem_map]
    rfl
  simp only [hstart]

/-! ## First references -/

/-- The targets of jumps, conditional or not. -/
def jumped (references : List (Opcode × Word)) : List Word :=
  (references.filter (·.1 ≠ .call)).map Prod.snd

/-- The targets of calls. -/
def called (references : List (Opcode × Word)) : List Word :=
  (references.filter (·.1 = .call)).map Prod.snd

section Firsts

variable (references : List (Opcode × Word)) (opcode : Opcode) (target : Word)

@[simp] theorem jumped_append_singleton : jumped (references ++ [(opcode, target)]) =
    jumped references ++ if opcode = .call then [] else [target] := by
  unfold jumped
  split <;> simp [*]

@[simp] theorem called_append_singleton : called (references ++ [(opcode, target)]) =
    called references ++ if opcode = .call then [target] else [] := by
  unfold called
  split <;> simp [*]

/-- Targets are targets of jumps or of calls. -/
theorem mem_map_snd_iff :
    target ∈ references.map Prod.snd ↔ target ∈ jumped references ∨ target ∈ called references := by
  unfold jumped called
  simp only [List.mem_map, List.mem_filter, decide_eq_true_eq]
  constructor
  · rintro ⟨reference, hmem, htarget⟩
    by_cases hcall : reference.1 = .call
    · exact .inr ⟨reference, ⟨hmem, hcall⟩, htarget⟩
    · exact .inl ⟨reference, ⟨hmem, hcall⟩, htarget⟩
  · rintro (⟨reference, ⟨hmem, -⟩, htarget⟩ | ⟨reference, ⟨hmem, -⟩, htarget⟩) <;>
      exact ⟨reference, hmem, htarget⟩

/-- Behind the first reference to a target no other counts. -/
theorem firsts_cons : firsts ((opcode, target) :: references) =
    (opcode, target) :: firsts (references.filter (·.2 ≠ target)) := by
  unfold firsts
  rw [List.eraseDupsBy_cons]
  congr 2
  refine List.filter_congr fun reference _ => ?_
  simp

/-- Leaving out what is not first loses no target. -/
theorem mem_map_snd_firsts :
    target ∈ (firsts references).map Prod.snd ↔ target ∈ references.map Prod.snd := by
  induction hlength : references.length using Nat.strongRecOn generalizing references with
  | ind n ih =>
    subst hlength
    match references with
    | [] => rfl
    | (opcode, other) :: rest =>
      have hshorter : (rest.filter (·.2 ≠ other)).length < ((opcode, other) :: rest).length :=
        Nat.lt_succ_of_le (List.length_filter_le _ _)
      rw [firsts_cons, List.map_cons, List.mem_cons, ih _ hshorter _ rfl, List.map_cons,
        List.mem_cons]
      by_cases heq : target = other
      · simp [heq]
      · simp [heq]

/-- A jump to where a call goes already does not count, and the other way round. -/
example : firsts [(.jmp, 8), (.call, 4), (.jt, 4), (.call, 8), (.jf, 2)] =
    [(.jmp, 8), (.call, 4), (.jf, 2)] := by
  decide

end Firsts

/-! ## Counting -/

/-- The labels are those of the first references so far, and the counters are the numbers of these
references. -/
structure Naming.Numbers (naming : Naming) (firsts : List (Opcode × Word)) : Prop where
  jumps : naming.jumps = (jumped firsts).length
  calls : naming.calls = (called firsts).length
  jump : ∀ number target,
    naming.table[target]? = some (Label.jump number) ↔ (jumped firsts)[number]? = some target
  call : ∀ number target,
    naming.table[target]? = some (Label.call number) ↔ (called firsts)[number]? = some target

namespace Naming

variable {naming : Naming} {found : List (Opcode × Word)}

theorem numbers_empty : empty.Numbers [] where
  jumps := rfl
  calls := rfl
  jump number target := by simp [empty, jumped]
  call number target := by simp [empty, called]

/-- The targets of the first references are in the table. -/
theorem Numbers.contains_iff (h : naming.Numbers found) (target : Word) :
    naming.table.contains target = true ↔ target ∈ found.map Prod.snd := by
  rw [← Std.HashMap.isSome_getElem?_eq_contains, Option.isSome_iff_exists, mem_map_snd_iff,
    List.mem_iff_getElem?, List.mem_iff_getElem?]
  constructor
  · rintro ⟨label, hlabel⟩
    cases label with
    | jump number => exact .inl ⟨number, (h.jump number target).mp hlabel⟩
    | call number => exact .inr ⟨number, (h.call number target).mp hlabel⟩
  · rintro (⟨number, hnumber⟩ | ⟨number, hnumber⟩)
    · exact ⟨_, (h.jump number target).mpr hnumber⟩
    · exact ⟨_, (h.call number target).mpr hnumber⟩

/-- A reference to a target that has a label changes nothing. -/
theorem mention_of_mem (h : naming.Numbers found) (opcode : Opcode) {target : Word}
    (htarget : target ∈ found.map Prod.snd) : naming.mention opcode target = naming :=
  if_pos ((h.contains_iff target).mpr htarget)

/-- A target at the end of others has a place there that no other target has. -/
theorem getElem?_append_singleton_iff {targets : List Word} {target : Word}
    (hnew : target ∉ targets) (number : Nat) (other : Word) :
    (targets ++ [target])[number]? = some other ↔
      if target = other then number = targets.length else targets[number]? = some other := by
  rw [List.getElem?_append, List.getElem?_singleton]
  split
  · next hlt =>
    split
    · next heq =>
      subst heq
      refine iff_of_false (fun hmem => hnew (List.mem_of_getElem? hmem)) (Nat.ne_of_lt hlt)
    · rfl
  · next hge =>
    rw [List.getElem?_eq_none (Nat.le_of_not_lt hge)]
    split <;> simp <;> omega

/-- The first reference to a target is counted. -/
theorem Numbers.mention (h : naming.Numbers found) (opcode : Opcode) {target : Word}
    (htarget : target ∉ found.map Prod.snd) :
    (naming.mention opcode target).Numbers (found ++ [(opcode, target)]) := by
  have htable : naming.table.contains target = false := by
    rwa [← Bool.not_eq_true, h.contains_iff]
  have hnone : naming.table[target]? = none :=
    Std.HashMap.getElem?_eq_none_of_contains_eq_false htable
  have hinsert (label : Label) (other : Word) :
      (naming.table.insert target label)[other]? =
        if target = other then some label else naming.table[other]? := by
    rw [Std.HashMap.getElem?_insert]
    simp only [beq_iff_eq]
  rw [mem_map_snd_iff, not_or] at htarget
  unfold Naming.mention
  rw [if_neg (by simp [htable])]
  by_cases hcall : opcode = .call
  · simp only [if_pos hcall]
    refine ⟨by simpa [hcall] using h.jumps, by simpa [hcall] using h.calls, ?_, ?_⟩
    · -- The new label is none of a jump, and the target had no label.
      intro number other
      rw [hinsert, jumped_append_singleton, if_pos hcall, List.append_nil, ← h.jump]
      split
      · next heq => simp [← heq, hnone]
      · rfl
    · intro number other
      rw [hinsert, called_append_singleton, if_pos hcall,
        getElem?_append_singleton_iff htarget.2, ← h.call, ← h.calls]
      split
      · simp [eq_comm]
      · rfl
  · simp only [if_neg hcall]
    refine ⟨by simpa [hcall] using h.jumps, by simpa [hcall] using h.calls, ?_, ?_⟩
    · intro number other
      rw [hinsert, jumped_append_singleton, if_neg hcall,
        getElem?_append_singleton_iff htarget.1, ← h.jump, ← h.jumps]
      split
      · simp [eq_comm]
      · rfl
    · intro number other
      rw [hinsert, called_append_singleton, if_neg hcall, List.append_nil, ← h.call]
      split
      · next heq => simp [← heq, hnone]
      · rfl

/-- Going over references counts the first references to targets without a label. -/
theorem Numbers.foldl_mention (h : naming.Numbers found) (references : List (Opcode × Word)) :
    (references.foldl (fun naming reference => naming.mention reference.1 reference.2)
      naming).Numbers
      (found ++ firsts (references.filter fun reference => reference.2 ∉ found.map Prod.snd)) := by
  induction references generalizing naming found with
  | nil => simpa [firsts] using h
  | cons reference references ih =>
    obtain ⟨opcode, target⟩ := reference
    rw [List.foldl_cons]
    by_cases htarget : target ∈ found.map Prod.snd
    · rw [mention_of_mem h opcode htarget, List.filter_cons_of_neg (by simpa using htarget)]
      exact ih h
    · have hrest := ih (h.mention opcode htarget)
      have hfilter : references.filter
            (fun other => other.2 ∉ (found ++ [(opcode, target)]).map Prod.snd) =
          (references.filter (fun other => other.2 ∉ found.map Prod.snd)).filter
            (·.2 ≠ target) := by
        rw [List.filter_filter]
        refine List.filter_congr fun other _ => ?_
        simp only [List.map_append, List.mem_append, List.map_singleton, List.mem_singleton]
        rw [← Bool.decide_and, decide_eq_decide, not_or, and_comm]
      rw [List.filter_cons_of_pos (by simpa using htarget), firsts_cons, ← hfilter]
      rwa [List.append_assoc, List.singleton_append] at hrest

end Naming

/-! ## The labels of a listing -/

variable {words : List Word} {address : Nat}

/-- The first references of a list of words, in the order of its lines. -/
def firstReferences (words : List Word) : List (Opcode × Word) :=
  firsts (references (Line.sweep 0 words) words.length)

/-- The labels of a listing are those of its first references. -/
theorem numbers_name (words : List Word) :
    (ofWords words).naming.Numbers (firstReferences words) := by
  have h := Naming.numbers_empty.foldl_mention (references (Line.sweep 0 words) words.length)
  rw [← name_eq, List.nil_append, List.filter_eq_self.mpr (by simp)] at h
  exact h

/-- The label of an address is the one that its word has in the table. -/
theorem label?_eq_some_iff {label : Label} {listing : Listing} :
    listing.label? address = some label ↔
      ∃ word : Word, word.toNat = address ∧ listing.naming.table[word]? = some label := by
  unfold label?
  constructor
  · intro h
    split at h
    · next hlt => exact ⟨_, UInt16.toNat_ofNat_of_lt hlt, h⟩
    · cases h
  · rintro ⟨word, rfl, h⟩
    rw [if_pos word.toNat_lt, UInt16.ofNat_toNat]
    exact h

/-- Jumps number the labels of the targets that they refer to first. -/
theorem label?_eq_jump_iff {number : Nat} :
    (ofWords words).label? address = some (.jump number) ↔
      ((jumped (firstReferences words)).map UInt16.toNat)[number]? = some address := by
  rw [label?_eq_some_iff, List.getElem?_map, Option.map_eq_some_iff]
  simp only [(numbers_name words).jump, and_comm]

/-- Calls number the labels of the targets that they refer to first. -/
theorem label?_eq_call_iff {number : Nat} :
    (ofWords words).label? address = some (.call number) ↔
      ((called (firstReferences words)).map UInt16.toNat)[number]? = some address := by
  rw [label?_eq_some_iff, List.getElem?_map, Option.map_eq_some_iff]
  simp only [(numbers_name words).call, and_comm]

/-- An address has a label exactly if a jump or call goes to it, and a line starts or the program
ends there. -/
theorem exists_label?_iff : (∃ label, (ofWords words).label? address = some label) ↔
    (∃ line ∈ Line.sweep 0 words, ∃ opcode target,
      line.branch? = some (opcode, target) ∧ target.toNat = address) ∧
      IsStart (Line.sweep 0 words) words.length address := by
  have htable (target : Word) : (∃ label, (ofWords words).naming.table[target]? = some label) ↔
      target ∈ (references (Line.sweep 0 words) words.length).map Prod.snd := by
    rw [← Option.isSome_iff_exists, Std.HashMap.isSome_getElem?_eq_contains,
      (numbers_name words).contains_iff, firstReferences, mem_map_snd_firsts]
  have hlabel : (∃ label, (ofWords words).label? address = some label) ↔
      ∃ target : Word, target.toNat = address ∧
        target ∈ (references (Line.sweep 0 words) words.length).map Prod.snd := by
    simp only [label?_eq_some_iff, ← htable]
    constructor
    · rintro ⟨label, target, htarget, hlabel⟩
      exact ⟨target, htarget, label, hlabel⟩
    · rintro ⟨target, htarget, label, hlabel⟩
      exact ⟨label, target, htarget, hlabel⟩
  rw [hlabel]
  constructor
  · rintro ⟨target, rfl, hmem⟩
    obtain ⟨⟨opcode, target⟩, href, rfl⟩ := List.mem_map.mp hmem
    obtain ⟨hbranch, hstart⟩ := List.mem_filter.mp href
    obtain ⟨line, hline, hbranch⟩ := List.mem_filterMap.mp hbranch
    exact ⟨⟨line, hline, opcode, target, hbranch, rfl⟩, of_decide_eq_true hstart⟩
  · rintro ⟨⟨line, hline, opcode, target, hbranch, rfl⟩, hstart⟩
    refine ⟨target, rfl, List.mem_map.mpr ⟨(opcode, target), List.mem_filter.mpr ⟨?_, ?_⟩, rfl⟩⟩
    · exact List.mem_filterMap.mpr ⟨line, hline, hbranch⟩
    · exact decide_eq_true hstart

/-- A label is defined where a line starts or the program ends. -/
theorem start_of_label? {label : Label} (h : (ofWords words).label? address = some label) :
    IsStart (Line.sweep 0 words) words.length address :=
  (exists_label?_iff.mp ⟨label, h⟩).2

/-- No two addresses have the same label. -/
theorem label?_inj {other : Nat} {label : Label} (h : (ofWords words).label? address = some label)
    (hother : (ofWords words).label? other = some label) : address = other := by
  cases label with
  | jump number =>
    rw [label?_eq_jump_iff] at h hother
    exact Option.some.inj (h.symm.trans hother)
  | call number =>
    rw [label?_eq_call_iff] at h hother
    exact Option.some.inj (h.symm.trans hother)

/-- No name is the name of two labels, at the starts of the lines and at the end of the program. -/
theorem nodup_names (words : List Word) :
    (((Line.sweep 0 words).map Line.address ++ [words.length]).filterMap fun address =>
      ((ofWords words).label? address).map Label.name).Nodup := by
  have htiles := Line.tiles_sweep 0 words
  have hstarts : ((Line.sweep 0 words).map Line.address ++ [words.length]).Nodup := by
    refine List.nodup_append.mpr ⟨?_, List.nodup_singleton _, ?_⟩
    · exact htiles.pairwise_address.imp fun hlt => Nat.ne_of_lt hlt
    · intro start hstart size hsize
      obtain ⟨line, hline, rfl⟩ := List.mem_map.mp hstart
      obtain rfl := List.mem_singleton.mp hsize
      have hlt := (htiles.address_mem line hline).2
      omega
  refine hstarts.filterMap fun address other name haddress hother => ?_
  obtain ⟨label, hlabel, rfl⟩ := Option.map_eq_some_iff.mp haddress
  obtain ⟨label', hlabel', heq⟩ := Option.map_eq_some_iff.mp hother
  rw [Label.name_inj heq] at hlabel'
  exact label?_inj hlabel hlabel'

end Listing

end WordMachine
