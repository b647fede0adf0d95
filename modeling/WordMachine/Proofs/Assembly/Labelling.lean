import WordMachine.Assembly.Labels

/-!
# What labels stand for

The pass that collects labels, read off its tokens. `table_ofTokens` says which names have an
address and which: the number of words in front of the first definition of the name, cut off at
the last cell. `faults_ofTokens_eq_nil_iff` says when no definition is refused: the names are
well formed and no two definitions share one.
-/

namespace WordMachine.Assembly

/-- The token becomes a word of the program. -/
def Token.hasWord : Token → Bool
  | .word _ | .character _ => true
  | .label _ | .malformed _ => false

/-- The name that the token defines. -/
def Token.labelName? : Token → Option String
  | .label name => some name
  | .word _ | .character _ | .malformed _ => none

/-- The number of words in front of the first definition of a name. -/
def wordsBefore (name : String) (tokens : List Token) : Nat :=
  (tokens.takeWhile (· != .label name)).countP Token.hasWord

/-- The names that tokens define, in order. -/
def labelNames (tokens : List Token) : List String := tokens.filterMap Token.labelName?

@[simp] theorem labelNames_nil : labelNames [] = [] := rfl

@[simp] theorem labelNames_append (front back : List Token) :
    labelNames (front ++ back) = labelNames front ++ labelNames back :=
  List.filterMap_append

/-- A name is defined by a token that defines it. -/
theorem mem_labelNames {name : String} {tokens : List Token} :
    name ∈ labelNames tokens ↔ .label name ∈ tokens := by
  rw [labelNames, List.mem_filterMap]
  constructor
  · rintro ⟨token, htoken, hname⟩
    cases token with
    | label other =>
      obtain rfl := Option.some.inj hname
      exact htoken
    | _ => cases hname
  · intro h
    exact ⟨_, h, rfl⟩

/-- Nothing stands in front of a definition at the start. -/
@[simp] theorem wordsBefore_cons_self (name : String) (rest : List Token) :
    wordsBefore name (.label name :: rest) = 0 := by
  simp [wordsBefore]

/-- A token that does not define the name counts if it has a word. -/
theorem wordsBefore_cons_of_ne {name : String} {token : Token} (h : token ≠ .label name)
    (rest : List Token) :
    wordsBefore name (token :: rest) = wordsBefore name rest + if token.hasWord then 1 else 0 := by
  rw [wordsBefore, List.takeWhile_cons_of_pos (by simpa using h), List.countP_cons, wordsBefore]

/-- Up to the first definition of the name every word counts. -/
theorem wordsBefore_append_of_not_mem {name : String} {front : List Token}
    (h : name ∉ labelNames front) (back : List Token) :
    wordsBefore name (front ++ .label name :: back) = front.countP Token.hasWord := by
  have hfront : ∀ token ∈ front, (token != .label name) = true := by
    intro token htoken
    rw [bne_iff_ne]
    rintro rfl
    exact h (mem_labelNames.mpr htoken)
  rw [wordsBefore, List.takeWhile_append_of_pos hfront, List.takeWhile_cons_of_neg (by simp),
    List.append_nil]

namespace Labels

/-! ## The table -/

/-- The address for a name in a list of tokens that starts behind `address` words. -/
def addressIn? (address : Nat) (name : String) (tokens : List Token) : Option Word :=
  if isName name ∧ .label name ∈ tokens then
    some (UInt16.ofNat (min (address + wordsBefore name tokens) (memorySize - 1)))
  else none

/-- A token that does not define a name is passed over by the search for its address. -/
theorem addressIn?_cons_of_ne {name : String} {token : Token} (h : token ≠ .label name)
    (address : Nat) (rest : List Token) :
    addressIn? address name (token :: rest) =
      addressIn? (address + if token.hasWord then 1 else 0) name rest := by
  have hmem : .label name ∈ token :: rest ↔ .label name ∈ rest := by simp [h.symm]
  have hcount : address + wordsBefore name (token :: rest) =
      address + (if token.hasWord then 1 else 0) + wordsBefore name rest := by
    rw [wordsBefore_cons_of_ne h]
    omega
  simp only [addressIn?, hmem, hcount]

/-- What is in the table stays there, and other names get the address of their first definition
among the tokens that follow. -/
theorem table_foldl_note (labels : Labels) (placed : List PlacedToken) (name : String) :
    (placed.foldl note labels).table[name]? =
      labels.table[name]?.or (addressIn? labels.address name (placed.map PlacedToken.token)) := by
  induction placed generalizing labels with
  | nil => simp [addressIn?]
  | cons first placed ih =>
    obtain ⟨line, token⟩ := first
    rw [List.foldl_cons, ih, List.map_cons]
    by_cases hdef : token = .label name
    · -- The definition is refused, or it comes second, or it is entered.
      subst hdef
      by_cases hname : isName name = true
      · by_cases hold : labels.table.contains name = true
        · obtain ⟨value, hvalue⟩ := Option.isSome_iff_exists.mp
            (Std.HashMap.isSome_getElem?_eq_contains.trans hold)
          simp [note, hname, hold, hvalue]
        · have hnone : labels.table[name]? = none :=
            Std.HashMap.getElem?_eq_none_of_contains_eq_false (by simpa using hold)
          simp [note, hname, hold, hnone, addressIn?]
      · simp [note, hname, addressIn?]
    · rw [addressIn?_cons_of_ne hdef]
      cases token with
      | word text => rfl
      | character value => rfl
      | malformed text => rfl
      | label other =>
        have hne : (other == name) = false := by simpa using hdef
        by_cases hname : isName other = true <;>
          by_cases hold : labels.table.contains other = true <;>
          simp [note, hname, hold, Token.hasWord, Std.HashMap.getElem?_insert, hne]

/-- A name has an address exactly if it is well formed and defined: the number of words in front
of its first definition, cut off at the last cell. -/
theorem table_ofTokens (placed : List PlacedToken) (name : String) :
    (ofTokens placed).table[name]? = addressIn? 0 name (placed.map PlacedToken.token) := by
  rw [ofTokens, table_foldl_note]
  simp [empty]

/-! ## The faults -/

/-- Nothing new is refused exactly if the names that follow are well formed, not in the table and
different from each other. -/
theorem faults_foldl_note_eq_nil_iff (labels : Labels) (placed : List PlacedToken) :
    (placed.foldl note labels).faults = [] ↔
      labels.faults = [] ∧
        (∀ name ∈ labelNames (placed.map PlacedToken.token),
          isName name = true ∧ labels.table.contains name = false) ∧
        (labelNames (placed.map PlacedToken.token)).Nodup := by
  induction placed generalizing labels with
  | nil => simp
  | cons first placed ih =>
    obtain ⟨line, token⟩ := first
    rw [List.foldl_cons, ih, List.map_cons]
    cases token with
    | word text => rfl
    | character value => rfl
    | malformed text => rfl
    | label name =>
      have hnames : labelNames (.label name :: placed.map PlacedToken.token) =
          name :: labelNames (placed.map PlacedToken.token) := rfl
      rw [hnames, List.nodup_cons, List.forall_mem_cons]
      by_cases hname : isName name = true
      · by_cases hold : labels.table.contains name = true
        · simp [note, hname, hold]
        · rw [Bool.not_eq_true] at hold
          simp only [note, hname, hold, Bool.not_true, Bool.false_eq_true, if_false,
            Std.HashMap.contains_insert, Bool.or_eq_false_iff, beq_eq_false_iff_ne]
          constructor
          · rintro ⟨hfaults, hrest, hnodup⟩
            exact ⟨hfaults, ⟨by simp, fun other h => ⟨(hrest other h).1, (hrest other h).2.2⟩⟩,
              fun h => (hrest name h).2.1 rfl, hnodup⟩
          · rintro ⟨hfaults, ⟨-, hrest⟩, hnew, hnodup⟩
            refine ⟨hfaults, fun other h => ⟨(hrest other h).1, ?_, (hrest other h).2⟩, hnodup⟩
            rintro rfl
            exact hnew h
      · simp [note, hname]

/-- No definition is refused exactly if the names are well formed and different from each
other. -/
theorem faults_ofTokens_eq_nil_iff (placed : List PlacedToken) :
    (ofTokens placed).faults = [] ↔
      (∀ name ∈ labelNames (placed.map PlacedToken.token), isName name = true) ∧
        (labelNames (placed.map PlacedToken.token)).Nodup := by
  rw [ofTokens, faults_foldl_note_eq_nil_iff]
  simp [empty]

end Labels

end WordMachine.Assembly
