import Mathlib.Data.List.Nodup
import Mathlib.Data.List.SplitBy
import WordMachine.PrintedText

/-!
# The texts of a list of words

A hit is a place at which `19`, the opcode of `out`, stands in front of a printable character. The
scan goes on behind the character of a hit and so does not look at the place in between, but no hit
is lost there: `19` is no printable character itself (`not_isHit_succ`).

The scan therefore comes by all hits, and cuts them where one does not follow the other at a
distance of two (`find_eq_map_splitBy`). `finds_maximal_runs` says what this means for the texts.
-/

namespace WordMachine

namespace PrintedText

/-- At the place stands `19`, and behind it a printable ASCII character or white space. -/
def IsHit (words : List Word) (place : Nat) : Prop :=
  words[place]? = some 19 ∧ ∃ value ∈ words[place + 1]?,
    (32 ≤ value.toNat ∧ value.toNat ≤ 126) ∨ (9 ≤ value.toNat ∧ value.toNat ≤ 13)

instance (words : List Word) (place : Nat) : Decidable (IsHit words place) :=
  inferInstanceAs (Decidable (_ ∧ _))

/-- The hits from a place on, in order. -/
def hitsFrom (words : List Word) (start : Nat) : List Nat :=
  (List.range' start (words.length - start)).filter (IsHit words ·)

/-- All hits, in order. -/
def hits (words : List Word) : List Nat :=
  (List.range words.length).filter (IsHit words ·)

/-- The character behind a place. -/
def characterBehind (words : List Word) (place : Nat) : Char :=
  Char.ofNat (words[place + 1]?.getD 0).toNat

/-- The text of a run of hits. -/
def runText (words : List Word) (run : List Nat) : String :=
  String.ofList (run.map (characterBehind words))

/-- The second place is the one behind the character of the first. -/
def follows (first second : Nat) : Bool := second == first + 2

theorem hits_eq_hitsFrom (words : List Word) : hits words = hitsFrom words 0 := by
  rw [hits, hitsFrom, Nat.sub_zero, List.range_eq_range']

variable {words rest : List Word} {start : Nat}

/-! ## Hits -/

/-- The first of the words from a place on is the word at the place. -/
theorem drop_eq_cons {word : Word} (h : words.drop start = word :: rest) :
    words[start]? = some word ∧ words.drop (start + 1) = rest := by
  constructor
  · rw [← List.head?_drop, h, List.head?_cons]
  · rw [← List.drop_drop, h, List.drop_one, List.tail_cons]

/-- Whether there is a hit shows in the two words at the place. -/
theorem isHit_iff {word value : Word} (h : words.drop start = word :: value :: rest) :
    IsHit words start ↔ word = 19 ∧ value.isPrintable = true := by
  obtain ⟨hword, hbehind⟩ := drop_eq_cons h
  obtain ⟨hvalue, -⟩ := drop_eq_cons hbehind
  rw [IsHit, hword, hvalue, Word.isPrintable_iff]
  simp

/-- There is no hit at the last word. -/
theorem lt_of_isHit {place : Nat} (h : IsHit words place) : place + 1 < words.length := by
  obtain ⟨-, value, hvalue, -⟩ := h
  exact (List.getElem?_eq_some_iff.mp hvalue).1

/-- The character of a hit is not the start of another one. -/
theorem not_isHit_succ (h : IsHit words start) : ¬ IsHit words (start + 1) := by
  rintro ⟨hword, -⟩
  obtain ⟨-, value, hvalue, hprintable⟩ := h
  obtain rfl := Option.some.inj (hword.symm.trans hvalue)
  revert hprintable
  decide

/-- Behind the last word there are no hits. -/
theorem hitsFrom_of_length_le (h : words.length ≤ start) : hitsFrom words start = [] := by
  rw [hitsFrom, Nat.sub_eq_zero_of_le h]
  rfl

/-- The hits from a place on are that place, if it is one, and the hits from the next place on. -/
theorem hitsFrom_eq (words : List Word) (start : Nat) :
    hitsFrom words start =
      if IsHit words start then start :: hitsFrom words (start + 1)
      else hitsFrom words (start + 1) := by
  rcases Nat.lt_or_ge start words.length with hlt | hge
  · obtain ⟨count, hcount⟩ := Nat.exists_eq_add_of_lt hlt
    have hhere : words.length - start = count + 1 := by omega
    have hbehind : words.length - (start + 1) = count := by omega
    rw [hitsFrom, hitsFrom, hhere, hbehind, List.range'_succ, List.filter_cons]
    simp only [decide_eq_true_eq]
  · have hnone : ¬ IsHit words start := fun h => by
      have hlt := lt_of_isHit h
      omega
    rw [if_neg hnone, hitsFrom_of_length_le hge, hitsFrom_of_length_le (Nat.le_succ_of_le hge)]

/-- Where there is a hit, the next one can only be behind its character. -/
theorem hitsFrom_of_isHit (h : IsHit words start) :
    hitsFrom words start = start :: hitsFrom words (start + 2) := by
  rw [hitsFrom_eq, if_pos h, hitsFrom_eq, if_neg (not_isHit_succ h)]

theorem le_of_mem_hitsFrom {place : Nat} (h : place ∈ hitsFrom words start) : start ≤ place :=
  (List.mem_range'_1.mp (List.mem_of_mem_filter h)).1

/-! ## The scan -/

/-- The hits in a row that have been scanned so far, up to the given place. -/
structure IsRun (run : List Nat) (start : Nat) : Prop where
  isChain : run.IsChain fun first second => follows first second = true
  getLast : ∀ last ∈ run.getLast?, follows last start = true

theorem isRun_nil (start : Nat) : IsRun [] start := ⟨List.isChain_nil, nofun⟩

variable {run : List Nat}

/-- A hit at the place goes on with the run. -/
theorem IsRun.append (h : IsRun run start) : IsRun (run ++ [start]) (start + 2) where
  isChain := by
    refine List.isChain_append.mpr ⟨h.isChain, List.isChain_singleton _, ?_⟩
    intro last hlast first hfirst
    obtain rfl := Option.some.inj hfirst
    exact h.getLast last hlast
  getLast last hlast := by
    rw [List.getLast?_append, List.getLast?_singleton, Option.some_or] at hlast
    obtain rfl := Option.some.inj hlast
    exact beq_self_eq_true _

/-- A run is a text if it is not empty. -/
theorem reverse_close (h : IsRun run start) (found : List String) :
    (close (run.map (characterBehind words)).reverse found).reverse =
      found.reverse ++ (run.splitBy follows).map (runText words) := by
  by_cases hne : run = []
  · subst hne
    exact (List.append_nil found.reverse).symm
  · have hfull : (run.map (characterBehind words)).reverse.isEmpty = false := by
      simpa using hne
    rw [close, hfull, List.splitBy_of_isChain hne h.isChain, List.reverse_reverse]
    simp [runText]

/-- A run that the place does not go on with is cut off from the hits behind it. -/
theorem splitBy_append_hitsFrom (h : IsRun run start) :
    (run ++ hitsFrom words (start + 1)).splitBy follows =
      run.splitBy follows ++ (hitsFrom words (start + 1)).splitBy follows := by
  apply List.splitBy_append
  intro last hlast first hfirst
  have hle : start + 1 ≤ first := le_of_mem_hitsFrom (List.mem_of_mem_head? hfirst)
  have hlast := h.getLast last hlast
  simp only [follows, beq_iff_eq, beq_eq_false_iff_ne] at hlast ⊢
  omega

/-- The scan from a place on, with a run that goes on up to there, finds the runs of that run and
the hits to come. -/
theorem reverse_findOnto {found : List String} {current : List Char}
    (hrest : words.drop start = rest) (hrun : IsRun run start)
    (hcurrent : (run.map (characterBehind words)).reverse = current) :
    (findOnto found current rest).reverse =
      found.reverse ++ ((run ++ hitsFrom words start).splitBy follows).map (runText words) := by
  fun_induction findOnto found current rest generalizing start run with
  | case1 found current word value rest hhit ih =>
    rw [Bool.and_eq_true, decide_eq_true_eq] at hhit
    have hhit : IsHit words start := (isHit_iff hrest).mpr hhit
    obtain ⟨-, hbehind⟩ := drop_eq_cons hrest
    obtain ⟨hvalue, hbehind⟩ := drop_eq_cons hbehind
    have hcharacter : ((run ++ [start]).map (characterBehind words)).reverse =
        Char.ofNat value.toNat :: current := by
      rw [List.map_append, List.reverse_append, hcurrent]
      simp [characterBehind, hvalue]
    rw [ih hbehind hrun.append hcharacter, hitsFrom_of_isHit hhit, List.append_assoc,
      List.singleton_append]
  | case2 found current word value rest hmiss ih =>
    rw [Bool.and_eq_true, decide_eq_true_eq] at hmiss
    have hmiss : ¬ IsHit words start := fun h => hmiss ((isHit_iff hrest).mp h)
    obtain ⟨-, hbehind⟩ := drop_eq_cons hrest
    rw [ih hbehind (isRun_nil _) rfl, ← hcurrent, reverse_close hrun, hitsFrom_eq words start,
      if_neg hmiss, splitBy_append_hitsFrom hrun, List.map_append, List.nil_append,
      List.append_assoc]
  | case3 rest found current hshort =>
    -- At most one word is left, and a hit takes two.
    have hlength : words.length ≤ start + 1 := by
      rw [← Nat.sub_le_iff_le_add', ← List.length_drop, hrest]
      match rest, hshort with
      | [], _ => exact Nat.zero_le 1
      | [_], _ => exact Nat.le_refl 1
      | word :: value :: rest, hshort => exact absurd rfl (hshort word value rest)
    have hmiss : ¬ IsHit words start := fun h => Nat.not_lt_of_le hlength (lt_of_isHit h)
    rw [hitsFrom_eq, if_neg hmiss, hitsFrom_of_length_le hlength, List.append_nil, ← hcurrent,
      reverse_close hrun]

/-- The texts are the hits, cut where one does not follow the other. -/
theorem find_eq_map_splitBy (words : List Word) :
    find words = ((hits words).splitBy follows).map (runText words) := by
  rw [hits_eq_hitsFrom]
  exact reverse_findOnto List.drop_zero (isRun_nil 0) rfl

/-! ## The runs -/

/-- In a list without duplicates, neighbours are in one of the pieces exactly if the list is not cut
between them. -/
theorem isChain_mem_splitBy_iff {α : Type} {items : List α} (related : α → α → Bool)
    (hnodup : items.Nodup) :
    items.IsChain fun first second =>
      (∃ piece ∈ items.splitBy related, first ∈ piece ∧ second ∈ piece) ↔
        related first second = true := by
  have hdisjoint : (items.splitBy related).Pairwise List.Disjoint := by
    rw [← List.flatten_splitBy related items, List.nodup_flatten] at hnodup
    exact hnodup.2
  conv => arg 2; rw [← List.flatten_splitBy related items]
  refine (List.isChain_flatten (List.nil_notMem_splitBy related items)).mpr ⟨?_, ?_⟩
  · intro piece hpiece
    refine (List.isChain_of_mem_splitBy hpiece).imp_of_mem_imp ?_
    intro first second hfirst hsecond hrelated
    exact iff_of_true ⟨piece, hpiece, hfirst, hsecond⟩ hrelated
  · rw [List.isChain_iff_forall_rel_of_append_cons_cons]
    intro piece next front back hpieces first hlast second hhead
    have hcut := List.isChain_getLast_head_splitBy related items
    rw [List.isChain_iff_forall_rel_of_append_cons_cons] at hcut
    obtain ⟨hne, hne', hrelated⟩ := hcut hpieces
    rw [List.getLast_of_mem_getLast? hlast, List.head_of_mem_head? hhead] at hrelated
    refine iff_of_false ?_ (Bool.eq_false_iff.mp hrelated)
    rintro ⟨other, hother, hfirst, hsecond⟩
    have hpiece : piece ∈ items.splitBy related := by simp [hpieces]
    have hapart : piece.Disjoint next := by
      rw [hpieces, List.pairwise_append] at hdisjoint
      exact (List.pairwise_cons.mp hdisjoint.2.1).1 next List.mem_cons_self
    have hsame : other = piece := by
      by_contra hdiffers
      have hsymm : Std.Symm (@List.Disjoint α) := ⟨fun _ _ => List.disjoint_symm⟩
      have hother := hdisjoint.forall hother hpiece hdiffers
      exact hother hfirst (List.mem_of_mem_getLast? hlast)
    exact hapart (hsame ▸ hsecond) (List.mem_of_mem_head? hhead)

/-- The texts are the longest runs of hits. None is empty, one after the other they are the
characters of all hits in order, and two neighbouring hits are in one text exactly if the second is
the place behind the character of the first. -/
theorem finds_maximal_runs (words : List Word) :
    "" ∉ find words ∧
      (find words).flatMap String.toList = (hits words).map (characterBehind words) ∧
      ∃ runs : List (List Nat), find words = runs.map (runText words) ∧
        runs.flatten = hits words ∧
        (hits words).IsChain fun first second =>
          (∃ run ∈ runs, first ∈ run ∧ second ∈ run) ↔ second = first + 2 := by
  have hfind := find_eq_map_splitBy words
  have hflatten := List.flatten_splitBy follows (hits words)
  refine ⟨?_, ?_, _, hfind, hflatten, ?_⟩
  · rw [hfind, List.mem_map]
    rintro ⟨run, hrun, hempty⟩
    have hnil : run = [] := by simpa [runText] using hempty
    exact List.nil_notMem_splitBy follows (hits words) (hnil ▸ hrun)
  · conv_rhs => rw [← hflatten, List.map_flatten, ← List.flatMap_def]
    rw [hfind, List.flatMap_map]
    simp only [runText, String.toList_ofList]
  · have hnodup : (hits words).Nodup := List.nodup_range.filter _
    refine (isChain_mem_splitBy_iff follows hnodup).imp fun first second h => ?_
    rw [h, follows, beq_iff_eq]

end PrintedText

end WordMachine
