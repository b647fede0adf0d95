import WordMachine.Proofs.Assembly.Passes

/-!
# What is accepted and what is reported

The passes of the assembler find what a reading finds, each its own part. They are put one behind
the other and sorted by line, and `Reading.isReport` says that nothing is lost or reordered by this
but what has to be: `filter_mergeSort_of_pairwise` is the reason.

`accepts_or_reports` puts this together: which texts are accepted, with which words, and what is
reported of all others.
-/

namespace WordMachine.Assembly

/-- The tokens of a text that is accepted. -/
structure IsAccepted (all : List Token) : Prop where
  closed : ∀ text, .malformed text ∉ all
  named : ∀ name ∈ labelNames all, IsLabelName name
  definedOnce : (labelNames all).Nodup
  /-- Every word token has a value. -/
  meant : ∀ text, .word text ∈ all → ∃ word, Means all (.word text) word
  small : ∀ value, .character value ∈ all → value.toNat ≤ 32775
  fits : all.countP Token.hasWord ≤ 32768

/-- The diagnostics of a text are all that were found, each as often as it was found: by line, on
one line by pass, and beyond that in the order of the text. -/
structure IsReport (found diagnostics : List Diagnostic) : Prop where
  perm : diagnostics.Perm found
  sorted : diagnostics.Pairwise fun first second =>
    first.line < second.line ∨
      first.line = second.line ∧ first.cause.pass ≤ second.cause.pass
  stable : ∀ pass, diagnostics.filter (·.cause.pass = pass) = found.filter (·.cause.pass = pass)

/-! ## Sorting -/

/-- Entries that are in order among themselves are sorted into the order that they have. -/
theorem filter_mergeSort_of_pairwise {α : Type} {le : α → α → Bool}
    (htrans : ∀ a b c, le a b = true → le b c = true → le a c = true)
    (htotal : ∀ a b, (le a b || le b a) = true) {entries : List α} {p : α → Bool}
    (h : (entries.filter p).Pairwise fun a b => le a b = true) :
    (entries.mergeSort le).filter p = entries.filter p := by
  have hsorted : (entries.filter p).Sublist (entries.mergeSort le) :=
    List.sublist_mergeSort htrans htotal h List.filter_sublist
  have hkept : (entries.filter p).Sublist ((entries.mergeSort le).filter p) := by
    simpa [List.filter_filter] using hsorted.filter p
  have hlength := ((List.mergeSort_perm entries le).filter p).length_eq
  exact (hkept.eq_of_length hlength.symm).symm

namespace Diagnostic

/-- Diagnostics are sorted by their lines. -/
def precedes (first second : Diagnostic) : Bool := first.line ≤ second.line

variable {listed : List Diagnostic}

theorem precedes_iff {first second : Diagnostic} :
    first.precedes second = true ↔ first.line ≤ second.line := decide_eq_true_iff

theorem precedes_trans (first second third : Diagnostic) (h : first.precedes second = true)
    (h' : second.precedes third = true) : first.precedes third = true :=
  precedes_iff.mpr (Nat.le_trans (precedes_iff.mp h) (precedes_iff.mp h'))

theorem precedes_total (first second : Diagnostic) :
    (first.precedes second || second.precedes first) = true := by
  rw [Bool.or_eq_true, precedes_iff, precedes_iff]
  exact Nat.le_total _ _

/-- What is listed by pass and then sorted by line is listed by line and on one line by pass. -/
theorem pairwise_mergeSort
    (h : listed.Pairwise fun first second => first.cause.pass ≤ second.cause.pass) :
    (listed.mergeSort precedes).Pairwise fun first second =>
      first.line < second.line ∨
        first.line = second.line ∧ first.cause.pass ≤ second.cause.pass := by
  rw [List.pairwise_iff_forall_sublist]
  intro first second hpair
  have hline : first.line ≤ second.line := precedes_iff.mp <|
    List.pairwise_iff_forall_sublist.mp
      (List.pairwise_mergeSort precedes_trans precedes_total listed) hpair
  rcases Nat.lt_or_eq_of_le hline with hlt | heq
  · exact .inl hlt
  · -- What is on one line is left in its order.
    have hsame : (listed.mergeSort precedes).filter (·.line = first.line) =
        listed.filter (·.line = first.line) := by
      refine filter_mergeSort_of_pairwise precedes_trans precedes_total ?_
      rw [List.pairwise_filter]
      refine List.pairwise_of_forall fun a b ha hb => ?_
      rw [precedes_iff]
      rw [decide_eq_true_eq] at ha hb
      omega
    have hkept := hpair.filter (·.line = first.line)
    rw [hsame] at hkept
    simp only [decide_true, heq, List.filter_cons_of_pos, List.filter_nil] at hkept
    exact .inr ⟨heq, List.pairwise_iff_forall_sublist.mp (h.filter _) hkept⟩

end Diagnostic

/-! ## The report -/

/-- Lists that agree on every pass hold the same diagnostics. -/
theorem perm_of_filter_pass {listed listed' : List Diagnostic}
    (h : ∀ pass, listed.filter (·.cause.pass = pass) = listed'.filter (·.cause.pass = pass)) :
    listed.Perm listed' := by
  rw [List.perm_iff_count]
  intro fault
  have hcount (list : List Diagnostic) :
      (list.filter (·.cause.pass = fault.cause.pass)).count fault = list.count fault :=
    List.count_filter (decide_eq_true rfl)
  rw [← hcount, h, hcount]

/-- What there is to say about the size of a program. -/
def sizeFaults (placed : List PlacedToken) (words : List Word) : List Diagnostic :=
  if 32768 < words.length then [⟨lastLine placed, .tooManyWords words.length⟩] else []

theorem pass_of_mem_sizeFaults {placed : List PlacedToken} {words : List Word} {fault : Diagnostic}
    (h : fault ∈ sizeFaults placed words) : fault.cause.pass = 3 := by
  unfold sizeFaults at h
  split at h
  · rw [List.mem_singleton.mp h]
    rfl
  · exact absurd h List.not_mem_nil

theorem length_sizeFaults_le (placed : List PlacedToken) (words : List Word) :
    (sizeFaults placed words).length ≤ 1 := by
  unfold sizeFaults
  split <;> simp

/-- The diagnostics of one pass behind those of the other. -/
def byPass (listed : List Diagnostic) : List Diagnostic :=
  [0, 1, 2, 3].flatMap fun pass => listed.filter (·.cause.pass = pass)

section ByPass

variable {listed found size : List Diagnostic}

theorem pass_of_mem_filter {pass : Nat} {fault : Diagnostic}
    (h : fault ∈ listed.filter (·.cause.pass = pass)) : fault.cause.pass = pass :=
  of_decide_eq_true (List.mem_filter.mp h).2

/-- Putting passes one behind the other changes the order of none of them. -/
theorem filter_byPass (pass : Nat) :
    (byPass listed).filter (·.cause.pass = pass) = listed.filter (·.cause.pass = pass) := by
  have hfilter (other : Nat) :
      (listed.filter (·.cause.pass = other)).filter (·.cause.pass = pass) =
        if other = pass then listed.filter (·.cause.pass = pass) else [] := by
    split
    · next heq => simp [heq]
    · next hne =>
      rw [List.filter_eq_nil_iff]
      intro fault hfault hpass
      exact hne ((pass_of_mem_filter hfault).symm.trans (of_decide_eq_true hpass))
  simp only [byPass, List.filter_flatMap, hfilter]
  match pass with
  | 0 | 1 | 2 | 3 => simp
  | pass + 4 =>
    have hnone : listed.filter (·.cause.pass = pass + 4) = [] := by
      rw [List.filter_eq_nil_iff]
      intro fault _ heq
      have hle := fault.cause.pass_le
      rw [of_decide_eq_true heq] at hle
      omega
    simp [hnone]

/-- Passes put one behind the other are in the order of the passes. -/
theorem pairwise_byPass :
    (byPass listed).Pairwise fun first second => first.cause.pass ≤ second.cause.pass := by
  unfold byPass
  rw [List.pairwise_flatMap]
  refine ⟨fun pass _ => ?_, ?_⟩
  · refine List.pairwise_of_forall_mem_list fun first hfirst second hsecond => ?_
    exact Nat.le_of_eq ((pass_of_mem_filter hfirst).trans (pass_of_mem_filter hsecond).symm)
  · have hpasses : [0, 1, 2, 3].Pairwise (· < ·) := by decide
    refine hpasses.imp fun hlt first hfirst second hsecond => ?_
    rw [pass_of_mem_filter hfirst, pass_of_mem_filter hsecond]
    exact Nat.le_of_lt hlt

/-- The passes of a reading, and the size of the program behind them. -/
theorem byPass_append (hfound : ∀ fault ∈ found, fault.cause.pass < 3)
    (hsize : ∀ fault ∈ size, fault.cause.pass = 3) :
    byPass (found ++ size) =
      found.filter (·.cause.pass = 0) ++ found.filter (·.cause.pass = 1) ++
        found.filter (·.cause.pass = 2) ++ size := by
  have hbefore {pass : Nat} (hpass : pass ≠ 3) : size.filter (·.cause.pass = pass) = [] := by
    rw [List.filter_eq_nil_iff]
    intro fault hfault heq
    exact hpass ((of_decide_eq_true heq).symm.trans (hsize fault hfault))
  have hlast : found.filter (·.cause.pass = 3) = [] := by
    rw [List.filter_eq_nil_iff]
    intro fault hfault heq
    exact absurd (of_decide_eq_true heq) (Nat.ne_of_lt (hfound fault hfault))
  have hall : size.filter (·.cause.pass = 3) = size :=
    List.filter_eq_self.mpr fun fault hfault => decide_eq_true (hsize fault hfault)
  simp [byPass, hbefore, hlast, hall]

/-- What a pass has found is in the order of the lines, if all that was found in the text is. -/
theorem pairwise_filter_pass (hfound : ∀ fault ∈ found, fault.cause.pass < 3)
    (hsize : ∀ fault ∈ size, fault.cause.pass = 3)
    (hlines : (found.map Diagnostic.line).Pairwise (· ≤ ·)) (hone : size.length ≤ 1) (pass : Nat) :
    ((found ++ size).filter (·.cause.pass = pass)).Pairwise fun first second =>
      first.precedes second = true := by
  simp only [List.pairwise_filter, List.pairwise_append, Diagnostic.precedes_iff]
  refine ⟨?_, ?_, ?_⟩
  · exact (List.pairwise_map.mp hlines).imp fun hle _ _ => hle
  · match size with
    | [] => exact .nil
    | [fault] => exact List.pairwise_singleton _ _
  · intro first hfirst second hsecond hpass hpass'
    have hlt := hfound first hfirst
    have heq := hsize second hsecond
    rw [decide_eq_true_eq] at hpass hpass'
    omega

end ByPass

/-- What the assembler reports is what a reading finds, and the size of the program. -/
theorem Reading.isReport {placed : List PlacedToken} {words : List Word} {found : List Diagnostic}
    (h : Reading (placed.map PlacedToken.token) [] placed words found)
    (hlines : (placed.map PlacedToken.line).Pairwise (· ≤ ·)) :
    IsReport (found ++ sizeFaults placed words) (ofTokens placed).diagnostics := by
  have hfaults := h.faults_eq List.map_nil
  obtain ⟨hwords, hwordFaults⟩ := h.words_eq_and_wordFaults_eq
  have hsize : ∀ fault ∈ sizeFaults placed words, fault.cause.pass = 3 :=
    fun fault => pass_of_mem_sizeFaults
  have hdiagnostics : (ofTokens placed).diagnostics =
      (byPass (found ++ sizeFaults placed words)).mergeSort Diagnostic.precedes := by
    change (placed.filterMap PlacedToken.unclosed? ++
      (placed.foldl Labels.note (Labels.ofTokens [])).faults.reverse ++
      (Labels.ofTokens placed).wordFaults placed ++
        sizeFaults placed ((placed.filterMap (Labels.ofTokens placed).tokenWord?).filterMap
          Except.toOption)).mergeSort Diagnostic.precedes = _
    rw [h.unclosed_eq, hfaults, hwordFaults, hwords, List.reverse_append, List.reverse_reverse,
      byPass_append h.pass_lt hsize]
    rfl
  have hstable (pass : Nat) : ((ofTokens placed).diagnostics).filter (·.cause.pass = pass) =
      (found ++ sizeFaults placed words).filter (·.cause.pass = pass) := by
    rw [hdiagnostics, filter_mergeSort_of_pairwise Diagnostic.precedes_trans
      Diagnostic.precedes_total]
    · exact filter_byPass pass
    rw [filter_byPass]
    exact pairwise_filter_pass h.pass_lt hsize (hlines.sublist h.sublist_line)
      (length_sizeFaults_le placed words) pass
  refine ⟨perm_of_filter_pass hstable, ?_, hstable⟩
  rw [hdiagnostics]
  exact Diagnostic.pairwise_mergeSort pairwise_byPass

/-! ## Acceptance -/

section Acceptance

variable {placed : List PlacedToken} {words : List Word}

/-- A token that is read as a word means the word. -/
theorem means_of_read {token : Token} {word : Word} (hne : token ≠ .word "")
    (h : (Labels.ofTokens placed).read token = some (.ok word)) :
    Means (placed.map PlacedToken.token) token word := by
  have hword : token.hasWord = true := by
    rw [← Labels.isSome_read (Labels.ofTokens placed), h]
    rfl
  rcases exists_means_or_offends (placed.map PlacedToken.token) [] hword hne with
    ⟨other, hmeans⟩ | ⟨cause, hoffends⟩
  · rw [read_of_means hmeans] at h
    rwa [← Except.ok.inj (Option.some.inj h)]
  · rw [read_of_offends hoffends hword] at h
    cases h

/-- Words are what the tokens that should have one mean, in order. -/
theorem forall₂_means_of_emits {part : List Token} (hne : .word "" ∉ part)
    (h : (Labels.ofTokens placed).Emits part words) :
    List.Forall₂ (Means (placed.map PlacedToken.token)) (part.filter Token.hasWord) words := by
  unfold Labels.Emits at h
  induction part generalizing words with
  | nil =>
    obtain rfl := List.map_eq_nil_iff.mp h.symm
    exact .nil
  | cons token part ih =>
    rw [List.mem_cons, not_or] at hne
    rw [List.filterMap_cons] at h
    by_cases hword : token.hasWord = true
    · rw [← Labels.isSome_read (Labels.ofTokens placed)] at hword
      obtain ⟨reading, hread⟩ := Option.isSome_iff_exists.mp hword
      simp only [hread] at h
      obtain ⟨word, words, rfl, hok, hrest⟩ := List.map_eq_cons_iff.mp h.symm
      subst hok
      rw [Labels.isSome_read] at hword
      rw [List.filter_cons_of_pos hword]
      exact .cons (means_of_read (Ne.symm hne.1) hread) (ih hne.2 hrest.symm)
    · have hread : (Labels.ofTokens placed).read token = none := by
        rwa [← Labels.isSome_read (Labels.ofTokens placed), Bool.not_eq_true,
          Option.isSome_eq_false_iff, Option.isNone_iff_eq_none] at hword
      rw [hread] at h
      rw [List.filter_cons_of_neg hword]
      exact ih hne.2 h

/-- The tokens are accepted exactly if every token is in order by itself and they fit into
memory. -/
theorem exists_result_eq_ok_iff (hne : .word "" ∉ placed.map PlacedToken.token) :
    (∃ words, (ofTokens placed).result = .ok words) ↔ IsAccepted (placed.map PlacedToken.token) := by
  simp only [result_ofTokens_eq_ok_iff, Labels.faults_ofTokens_eq_nil_iff, isName_iff]
  constructor
  · rintro ⟨words, hclosed, ⟨hnames, hnodup⟩, hread, hfits⟩
    have hmeans {token : Token} (htoken : token ∈ placed.map PlacedToken.token)
        (hword : token.hasWord = true) : ∃ word, Means (placed.map PlacedToken.token) token word := by
      refine (exists_means_or_offends _ [] hword fun h => hne (h ▸ htoken)).resolve_right ?_
      rintro ⟨cause, hoffends⟩
      exact ((eq_map_ok_iff _ _).mp hread).1 cause
        (List.mem_filterMap.mpr ⟨token, htoken, read_of_offends hoffends hword⟩)
    refine ⟨hclosed, hnames, hnodup, fun text htext => hmeans htext rfl, ?_, ?_⟩
    · intro value hvalue
      obtain ⟨word, hword⟩ := hmeans hvalue rfl
      cases hword with
      | character hsmall => exact hsmall
    · rw [← Labels.Emits.length_eq hread]
      exact hfits
  · intro h
    have hok : ∀ cause, .error cause ∉
        (placed.map PlacedToken.token).filterMap (Labels.ofTokens placed).read := by
      intro cause hcause
      obtain ⟨token, htoken, hread⟩ := List.mem_filterMap.mp hcause
      have hmeans : ∃ word, Means (placed.map PlacedToken.token) token word := by
        cases token with
        | word text => exact h.meant text htoken
        | character value => exact ⟨_, .character (h.small value htoken)⟩
        | label | malformed => cases hread
      obtain ⟨word, hword⟩ := hmeans
      rw [read_of_means hword] at hread
      cases hread
    have hread := (eq_map_ok_iff _ _).mpr ⟨hok, rfl⟩
    refine ⟨_, h.closed, ⟨h.named, h.definedOnce⟩, hread, ?_⟩
    rw [Labels.Emits.length_eq hread]
    exact h.fits

end Acceptance

/-- A text assembles exactly if it is in the language of the assembler. It has a reading; if it
assembles, its words are those of the reading, one for each token that should have one and what the
token means; and if it does not, what is reported is what the reading finds and the size of the
program. -/
theorem accepts_or_reports (text : String) :
    ((∃ program, assemble text = .ok program) ↔ IsAccepted (tokens text.toList)) ∧
      (∃ words found, Reading (tokens text.toList) [] (scan text.toList) words found) ∧
      ∀ words found, Reading (tokens text.toList) [] (scan text.toList) words found →
        (∀ program, assemble text = .ok program → program = words ∧
          List.Forall₂ (Means (tokens text.toList)) ((tokens text.toList).filter Token.hasWord)
            program) ∧
        ∀ diagnostics, assemble text = .error diagnostics →
          IsReport (found ++ sizeFaults (scan text.toList) words) diagnostics := by
  have hne : .word "" ∉ tokens text.toList := word_empty_not_mem_scanFrom 1 text.toList
  refine ⟨exists_result_eq_ok_iff hne, exists_reading _ _ hne, fun words found h => ⟨?_, ?_⟩⟩
  · intro program hprogram
    obtain ⟨-, -, hread, -⟩ := (result_ofTokens_eq_ok_iff _ _).mp hprogram
    refine ⟨?_, forall₂_means_of_emits hne hread⟩
    rw [← filterMap_tokenWord?_eq_iff, eq_map_ok_iff] at hread
    exact hread.2.symm.trans h.words_eq_and_wordFaults_eq.1
  · intro diagnostics hdiagnostics
    have hlines := (pairwise_line_scanFrom 1 text.toList).1
    have hreport := h.isReport (List.pairwise_map.mpr hlines)
    unfold assemble ofText result at hdiagnostics
    split at hdiagnostics
    · cases hdiagnostics
    · rwa [Except.error.inj hdiagnostics] at hreport

end WordMachine.Assembly
