import BlocTrust.Crm.AccountNumbers

/-!
The length of a redacted reason.
The second pattern takes the words of eight or more digits; the mark of an account number has no
such word, so that these are the words of the entered text outside its account numbers.
-/
namespace BlocTrust.Crm

open Patterns

section Texts

/-- What `VerifyBankAccountDto` accepts as a reason or as a reference to evidence. -/
def isVerificationText (s : Text) : Bool := decide (trim s = s) && decide (s.length ≤ 500)

/-- What `RevealBankAccountDto` accepts as a reason. -/
def isRevealReason (s : Text) : Bool := decide (10 ≤ s.length) && isVerificationText s

/-- Eight or more digits. -/
def isNumber (w : Text) : Bool := w.all isDigit && decide (8 ≤ w.length)

/-- The words of a text that are numbers. -/
def numberWords (t : Text) : List Text := (t.splitOnP fun c => !isWordChar c).filter isNumber

/-- The numbers of a text outside its account numbers. -/
def numbersIn (s : Text) : List Text := numberWords (betweenAccounts s)

end Texts

section Numbers

variable {g x : Text} {p : Place}

theorem digits_behind (hx : ClearBehind isWordChar x) :
    (g ++ x).takeWhile isDigit = g.takeWhile isDigit ∧
      (g ++ x).dropWhile isDigit = g.dropWhile isDigit ++ x := by
  induction g with
  | nil =>
      cases x with
      | nil => exact ⟨rfl, rfl⟩
      | cons c x =>
          have hc : isDigit c = false := by
            cases hdigit : isDigit c with
            | false => rfl
            | true =>
                have hword := hx c rfl
                rw [isPlain_word (isDigit_plain hdigit)] at hword
                cases hword
          simp [hc]
  | cons c g ih =>
      rw [List.cons_append, List.takeWhile_cons, List.takeWhile_cons, List.dropWhile_cons,
        List.dropWhile_cons, ih.1, ih.2]
      by_cases hc : isDigit c = true
      · rw [if_pos hc, if_pos hc, if_pos hc]
        exact ⟨rfl, rfl⟩
      · rw [if_neg hc, if_neg hc, if_neg hc]
        exact ⟨rfl, rfl⟩

theorem clearBehind_of_any (h : x.head?.any isWordChar = false) : ClearBehind isWordChar x := by
  intro c hc
  rw [hc] at h
  exact h

/-- The number pattern matches the digits that begin here, if there are eight and no word
character is next to them. -/
theorem first_number (p : Place) : first isWordChar (bounded number) p =
    if p.prev.any isWordChar = false ∧ 8 ≤ (p.rest.takeWhile isDigit).length ∧
      (p.rest.dropWhile isDigit).head?.any isWordChar = false
    then some ⟨(p.rest.takeWhile isDigit).getLast?, p.rest.dropWhile isDigit⟩ else none := by
  cases hnext : first isWordChar (bounded number) p with
  | some q =>
      obtain ⟨m, hdigits, height, hrest, hprev, hbefore, hbehind⟩ := next_number hnext
      obtain ⟨htake, hdrop⟩ := digits_behind (g := m) (clearBehind_of_any hbehind)
      have hall : m.takeWhile isDigit = m := by
        simpa using @List.takeWhile_append_of_pos _ isDigit m [] hdigits
      have hnone : m.dropWhile isDigit = [] := by
        simpa using @List.dropWhile_append_of_pos _ isDigit m [] hdigits
      rw [← hrest, hall] at htake
      rw [← hrest, hnone, List.nil_append] at hdrop
      rw [htake, hdrop, if_pos ⟨hbefore, height, hbehind⟩, ← hprev]
  | none =>
      symm
      refine if_neg ?_
      rintro ⟨hbefore, height, hbehind⟩
      have hdigits : ∀ c ∈ p.rest.takeWhile isDigit, isDigit c = true :=
        List.all_eq_true.mp List.all_takeWhile
      have hne : p.rest.takeWhile isDigit ≠ [] := by
        intro hnil
        rw [hnil] at height
        exact absurd height (by decide)
      have hword : ∀ c ∈ p.rest.takeWhile isDigit, isWordChar c = true :=
        fun c hc => isPlain_word (isDigit_plain (hdigits c hc))
      refine @first_bounded_ne_none isWordChar number ⟨trivial, ?_⟩ p.prev
        (p.rest.takeWhile isDigit) (p.rest.dropWhile isDigit)
        (lang_one_times.mpr ⟨hdigits, height, ?_⟩) ?_ ?_ ?_
      · rintro - m ⟨c, rfl, -⟩
        exact List.cons_ne_nil _ _
      · intro n hn
        cases hn
      · obtain ⟨c, m, hm⟩ := List.exists_cons_of_ne_nil hne
        unfold atBoundary
        rw [hbefore, hm, List.cons_append, List.head?_cons, Option.any_some,
          hword c (by rw [hm]; exact List.mem_cons_self ..)]
        rfl
      · unfold atBoundary Place.after
        rw [hbehind, List.getLast?_eq_some_getLast hne, Option.some_or, Option.any_some,
          hword _ (List.getLast_mem hne)]
        rfl
      · rw [List.takeWhile_append_dropWhile]
        exact hnext

/-- Before a character of no word, the number pattern matches a word that is a number. -/
theorem first_number_word {prev : Option Char} (hprev : prev.any isWordChar = false) {w x : Text}
    (hw : ∀ c ∈ w, isWordChar c = true) (hx : ClearBehind isWordChar x) :
    first isWordChar (bounded number) ⟨prev, w ++ x⟩ =
      if isNumber w then some ⟨w.getLast?, x⟩ else none := by
  obtain ⟨htake, hdrop⟩ := digits_behind (g := w) hx
  have hnext : (w.dropWhile isDigit ++ x).head?.any isWordChar = false ↔
      w.dropWhile isDigit = [] := by
    cases hrest : w.dropWhile isDigit with
    | nil =>
        cases x with
        | nil => simp
        | cons c x => simp [hx c rfl]
    | cons c u =>
        have hmem : c ∈ w := List.dropWhile_sublist isDigit |>.subset (by rw [hrest]; simp)
        simp [hw c hmem]
  have hsplit := @List.takeWhile_append_dropWhile _ isDigit w
  rw [first_number]
  simp only [htake, hdrop, hprev, true_and, hnext]
  by_cases hnone : w.dropWhile isDigit = []
  · rw [hnone, List.append_nil] at hsplit
    have hall : w.all isDigit = true := by
      rw [← hsplit]
      exact List.all_takeWhile
    rw [hsplit, hnone, List.nil_append, isNumber, hall]
    simp
  · have hall : w.all isDigit = false := by
      rw [← Bool.not_eq_true, List.all_eq_true]
      intro hdigits
      exact hnone (by simpa using @List.dropWhile_append_of_pos _ isDigit w [] hdigits)
    rw [isNumber, hall]
    simp [hnone]

/-- No number begins inside a word. -/
theorem first_number_inside {c : Char} (hc : isWordChar c = true) (rest : Text) :
    first isWordChar (bounded number) ⟨some c, rest⟩ = none := by
  rw [first_number, Option.any_some, hc]
  simp

/-- The rest of a word is copied. -/
theorem word_copied (sub : Text) {w x : Text} (hw : ∀ c ∈ w, isWordChar c = true) {c : Char}
    (hc : isWordChar c = true) {fuel : Nat} (hfuel : (w ++ x).length < fuel) :
    ∃ (fuel' : Nat) (prev : Char), x.length < fuel' ∧
      replaceLoop (first isWordChar (bounded number)) sub fuel ⟨some c, w ++ x⟩ =
        w ++ replaceLoop (first isWordChar (bounded number)) sub fuel' ⟨some prev, x⟩ := by
  induction w generalizing c fuel with
  | nil => exact ⟨fuel, c, hfuel, rfl⟩
  | cons d w ih =>
      obtain ⟨n, rfl⟩ := Nat.exists_eq_succ_of_ne_zero (by omega : fuel ≠ 0)
      obtain ⟨hd, hw⟩ := List.forall_mem_cons.mp hw
      rw [List.cons_append, List.length_cons] at hfuel
      obtain ⟨fuel', prev, hlength, heq⟩ := ih hw hd (by omega : (w ++ x).length < n)
      refine ⟨fuel', prev, hlength, ?_⟩
      rw [List.cons_append, replaceLoop_cons (first_number_inside hc _), heq]
      rfl

/-- A word is replaced if it is a number, and copied otherwise. -/
theorem word_replaced (sub : Text) {prev : Option Char} (hprev : prev.any isWordChar = false)
    {w x : Text} (hw : ∀ c ∈ w, isWordChar c = true) (hx : ClearBehind isWordChar x) {fuel : Nat}
    (hfuel : (w ++ x).length < fuel) : ∃ (fuel' : Nat) (prev' : Option Char), x.length < fuel' ∧
      replaceLoop (first isWordChar (bounded number)) sub fuel ⟨prev, w ++ x⟩ =
        (if isNumber w then sub else w) ++
          replaceLoop (first isWordChar (bounded number)) sub fuel' ⟨prev', x⟩ := by
  obtain ⟨n, rfl⟩ := Nat.exists_eq_succ_of_ne_zero (by omega : fuel ≠ 0)
  have hfirst := first_number_word hprev hw hx
  by_cases hnumber : isNumber w = true
  · rw [if_pos hnumber] at hfirst ⊢
    have height : 8 ≤ w.length := of_decide_eq_true (Bool.and_eq_true_iff.mp hnumber).2
    rw [List.length_append] at hfuel
    exact ⟨n, w.getLast?, by omega, replaceLoop_some hfirst⟩
  · rw [if_neg hnumber] at hfirst ⊢
    cases w with
    | nil => exact ⟨n + 1, prev, hfuel, rfl⟩
    | cons c w =>
        obtain ⟨hc, hw⟩ := List.forall_mem_cons.mp hw
        rw [List.cons_append, List.length_cons] at hfuel
        obtain ⟨fuel', prev', hlength, heq⟩ :=
          word_copied sub hw hc (by omega : (w ++ x).length < n)
        refine ⟨fuel', some prev', hlength, ?_⟩
        rw [List.cons_append] at hfirst ⊢
        rw [replaceLoop_cons hfirst, heq]
        rfl

theorem numberWords_cons {w : Text} (hw : ∀ c ∈ w, isWordChar c = true) {c : Char}
    (hc : isWordChar c = false) (x : Text) :
    numberWords (w ++ c :: x) = (if isNumber w then [w] else []) ++ numberWords x := by
  unfold numberWords
  rw [List.splitOnP_append_cons_of_forall_mem (fun d hd => by rw [hw d hd]; rfl) c
    (by rw [hc]; rfl), List.filter_cons]
  split
  · rfl
  · rfl

theorem numberWords_word {w : Text} (hw : ∀ c ∈ w, isWordChar c = true) :
    numberWords w = if isNumber w then [w] else [] := by
  unfold numberWords
  rw [List.splitOnP_eq_singleton (fun d hd => by rw [hw d hd]; rfl), List.filter_cons]
  split
  · rfl
  · rfl

/-- A character of no word parts the numbers before it from those behind it. -/
theorem numberWords_append {c : Char} (hc : isWordChar c = false) (a x : Text) :
    numberWords (a ++ c :: x) = numberWords a ++ numberWords x := by
  unfold numberWords
  rw [List.splitOnP_append_cons a x (by rw [hc]; rfl), List.filter_append]

theorem number_none {prev : Option Char} {x : Text} (hx : ∀ c ∈ x.head?, isDigit c = false) :
    first isWordChar (bounded number) ⟨prev, x⟩ = none := by
  rw [first_number]
  cases x with
  | nil => simp
  | cons c x => simp [hx c rfl]

theorem not_digit {c : Char} (h : isWordChar c = false) : isDigit c = false := by
  rw [← Bool.not_eq_true] at h ⊢
  exact fun hdigit => h (isPlain_word (isDigit_plain hdigit))

/-- Every number gives way to a mark. -/
theorem length_replaceNumbers (sub : Text) (k : Nat) (t : Text) (hk : t.length ≤ k)
    {prev : Option Char} (hprev : prev.any isWordChar = false) {fuel : Nat}
    (hfuel : t.length < fuel) :
    (replaceLoop (first isWordChar (bounded number)) sub fuel ⟨prev, t⟩).length +
      (numberWords t).flatten.length = t.length + sub.length * (numberWords t).length := by
  induction k using Nat.strong_induction_on generalizing t prev fuel with
  | _ k ih =>
      have hone : ∀ w : Text, (if isNumber w then sub else w).length +
          (if isNumber w then [w] else []).flatten.length =
            w.length + sub.length * (if isNumber w then [w] else []).length := by
        intro w
        split
        · simp [Nat.add_comm]
        · simp
      have hword : ∀ c ∈ t.takeWhile isWordChar, isWordChar c = true :=
        List.all_eq_true.mp List.all_takeWhile
      have hclear : ClearBehind isWordChar (t.dropWhile isWordChar) := by
        intro c hc
        have hnot := List.head?_dropWhile_not isWordChar t
        rw [hc] at hnot
        exact hnot
      have hsplit := @List.takeWhile_append_dropWhile _ isWordChar t
      generalize t.takeWhile isWordChar = w at hword hsplit
      generalize t.dropWhile isWordChar = x at hclear hsplit
      subst hsplit
      obtain ⟨fuel', prev', hlength, heq⟩ := word_replaced sub hprev hword hclear hfuel
      have hw := hone w
      obtain ⟨n, rfl⟩ := Nat.exists_eq_succ_of_ne_zero (by omega : fuel' ≠ 0)
      rw [heq]
      cases x with
      | nil =>
          rw [replaceLoop_nil (number_none fun c hc => by cases hc), List.append_nil,
            List.append_nil, numberWords_word hword]
          exact hw
      | cons c x =>
          have hc := hclear c rfl
          have hnone : first isWordChar (bounded number) ⟨prev', c :: x⟩ = none :=
            number_none fun d hd => by
              cases hd
              exact not_digit hc
          rw [List.length_cons] at hlength
          rw [List.length_append, List.length_cons] at hk
          have hx := ih x.length (by omega) x (Nat.le_refl _)
            (show (some c).any isWordChar = false from hc) (by omega : x.length < n)
          rw [replaceLoop_cons hnone, numberWords_cons hword hc, List.flatten_append]
          simp only [List.length_append, List.length_cons, Nat.mul_add]
          omega

theorem length_redactNumbers (t : Text) :
    (redactNumbers t).length + (numberWords t).flatten.length =
      t.length + "[REDACTED_NUMBER]".toList.length * (numberWords t).length :=
  length_replaceNumbers _ _ t (Nat.le_refl _) rfl (Nat.lt_succ_self _)

/-- The mark of an account number has no number in it. -/
theorem numberWords_shown (a : Text) (ps : List Piece) :
    numberWords (a ++ ps.flatMap (Piece.shown "[REDACTED_ACCOUNT]".toList)) =
      numberWords (a ++ ps.flatMap (Piece.shown [' '])) := by
  have hmark : "[REDACTED_ACCOUNT]".toList = '[' :: ("REDACTED_ACCOUNT".toList ++ [']']) := by
    simp
  have hword : ∀ c ∈ "REDACTED_ACCOUNT".toList, isWordChar c = true :=
    List.all_eq_true.mp (by simp; decide)
  have hnone : isNumber "REDACTED_ACCOUNT".toList = false := by simp; decide
  have hparts : ∀ a x : Text, numberWords (a ++ ("[REDACTED_ACCOUNT]".toList ++ x)) =
      numberWords a ++ numberWords x := by
    intro a x
    rw [hmark, List.cons_append, numberWords_append (by decide), List.append_assoc,
      List.singleton_append, numberWords_cons hword (by decide), hnone]
    rfl
  induction ps generalizing a with
  | nil => rfl
  | cons p ps ih =>
      rw [List.flatMap_cons, List.flatMap_cons]
      cases p with
      | plain c =>
          have hstep := ih (a ++ [c])
          rw [List.append_assoc, List.append_assoc] at hstep
          exact hstep
      | account m =>
          have hrest := ih []
          rw [List.nil_append, List.nil_append] at hrest
          show numberWords (a ++ ("[REDACTED_ACCOUNT]".toList ++ _)) = numberWords (a ++ ' ' :: _)
          rw [hparts, numberWords_append (by decide), hrest]
          rfl

theorem numberWords_redacted (s : Text) : numberWords (redactAccounts s) = numbersIn s := by
  have hshown := numberWords_shown [] (pieces s)
  rw [List.nil_append, List.nil_append] at hshown
  rw [redactAccounts_pieces, hshown]
  rfl

end Numbers

section Ends

variable {s : Text}

theorem head?_dropWhile (t : Text) : ∀ c ∈ (t.dropWhile isTrimmed).head?, isTrimmed c = false := by
  intro c hc
  have hnot := List.head?_dropWhile_not isTrimmed t
  rw [hc] at hnot
  exact hnot

/-- A trimmed text has no spaces at its ends. -/
theorem ends_of_trim (h : trim s = s) : (∀ c ∈ s.head?, isTrimmed c = false) ∧
    ∀ c ∈ s.getLast?, isTrimmed c = false := by
  unfold trim at h
  have hlength := congrArg List.length h
  have hinner := (List.dropWhile_sublist isTrimmed (l := s)).length_le
  have houter :=
    (List.dropWhile_sublist isTrimmed (l := (s.dropWhile isTrimmed).reverse)).length_le
  rw [List.length_reverse] at hlength houter
  have hfront : s.dropWhile isTrimmed = s :=
    (List.dropWhile_sublist isTrimmed).eq_of_length (by omega)
  have hback : s.reverse.dropWhile isTrimmed = s.reverse := by
    rw [hfront] at h
    rw [← List.reverse_inj, List.reverse_reverse]
    exact h
  constructor
  · rw [← hfront]
    exact head?_dropWhile s
  · rw [← List.head?_reverse, ← hback]
    exact head?_dropWhile s.reverse

theorem trim_of_ends (hhead : ∀ c ∈ s.head?, isTrimmed c = false)
    (hlast : ∀ c ∈ s.getLast?, isTrimmed c = false) : trim s = s := by
  unfold trim
  rw [dropWhile_of_head hhead, dropWhile_of_head (by rw [List.head?_reverse]; exact hlast),
    List.reverse_reverse]

/-- What the patterns leave of a trimmed text is trimmed. -/
theorem trim_redacted (h : trim s = s) :
    trim (redactNumbers (redactAccounts s)) = redactNumbers (redactAccounts s) := by
  obtain ⟨hhead, hlast⟩ := ends_of_trim h
  have haccount : ∃ w, "[REDACTED_ACCOUNT]".toList = '[' :: (w ++ [']']) :=
    ⟨"REDACTED_ACCOUNT".toList, by simp⟩
  have hnumber : ∃ w, "[REDACTED_NUMBER]".toList = '[' :: (w ++ [']']) :=
    ⟨"REDACTED_NUMBER".toList, by simp⟩
  have hfront : ∀ {sub w : Text}, sub = '[' :: (w ++ [']']) → sub ≠ [] ∧
      (∀ c ∈ sub.head?, isTrimmed c = false) ∧ ∀ c ∈ sub.getLast?, isTrimmed c = false := by
    rintro sub w rfl
    refine ⟨List.cons_ne_nil _ _, ?_, ?_⟩
    · rintro c hc
      cases hc
      decide
    · rintro c hc
      rw [← List.cons_append, List.getLast?_concat] at hc
      cases hc
      decide
  obtain ⟨w, hw⟩ := haccount
  obtain ⟨w', hw'⟩ := hnumber
  obtain ⟨hne, hopen, hclose⟩ := hfront hw
  obtain ⟨hne', hopen', hclose'⟩ := hfront hw'
  have hhead' : ∀ c ∈ (redactAccounts s).head?, isTrimmed c = false :=
    head?_replaceLoop hne hopen _ hhead
  have hlast' : ∀ c ∈ (redactAccounts s).getLast?, isTrimmed c = false :=
    getLast?_replaceLoop account_replacer.progress hne hclose _ ⟨none, s⟩ hlast
  exact trim_of_ends (head?_replaceLoop hne' hopen' _ hhead')
    (getLast?_replaceLoop number_replacer.progress hne' hclose' _ ⟨none, redactAccounts s⟩ hlast')

end Ends

section Lengths

variable {s : Text}

/-- Every account number adds 18 characters and takes its own away, every number adds 17. -/
theorem length_redactAuditReason (h : trim s = s) :
    (redactAuditReason s).length + (accountsIn s).flatten.length + (numbersIn s).flatten.length =
      s.length + 18 * (accountsIn s).length + 17 * (numbersIn s).length := by
  have haccount := length_shown "[REDACTED_ACCOUNT]".toList (pieces s)
  have hnumber := length_redactNumbers (redactAccounts s)
  have hmarks : "[REDACTED_ACCOUNT]".toList.length = 18 ∧
      "[REDACTED_NUMBER]".toList.length = 17 := by simp
  rw [← redactAccounts_pieces, entered_pieces, hmarks.1] at haccount
  rw [numberWords_redacted, hmarks.2] at hnumber
  unfold redactAuditReason accountsIn
  rw [trim_redacted h]
  omega

/-- A redacted reason fits its column exactly when the marks for its account numbers, and for the
numbers of eight or more digits outside them, add no more than is left of 500 characters. -/
theorem redactAuditReason_fits (h : isVerificationText s = true ∨ isRevealReason s = true) :
    (redactAuditReason s).length ≤ 500 ↔
      s.length + 18 * (accountsIn s).length + 17 * (numbersIn s).length ≤
        500 + (accountsIn s).flatten.length + (numbersIn s).flatten.length := by
  have htrim : trim s = s := by
    unfold isRevealReason isVerificationText at h
    simp only [Bool.and_eq_true, decide_eq_true_eq] at h
    rcases h with h | h
    · exact h.1
    · exact h.2.1
  have hlength := length_redactAuditReason htrim
  omega

theorem redactAuditReason_fits_sample :
    isRevealReason "Confirmed MD24AG000000000000000001 by callback".toList = true ∧
    (redactAuditReason "Confirmed MD24AG000000000000000001 by callback".toList).length ≤ 500 := by
  -- one account number of 24 characters
  have h : isRevealReason "Confirmed MD24AG000000000000000001 by callback".toList = true ∧
      (accountsIn "Confirmed MD24AG000000000000000001 by callback".toList).map List.length =
        [24] ∧
      numbersIn "Confirmed MD24AG000000000000000001 by callback".toList = [] := by
    decide +kernel
  obtain ⟨haccepted, haccounts, hnumbers⟩ := h
  have hone := congrArg List.length haccounts
  rw [List.length_map] at hone
  refine ⟨haccepted, (redactAuditReason_fits (.inr haccepted)).mpr ?_⟩
  have hlength : "Confirmed MD24AG000000000000000001 by callback".toList.length = 46 := by simp
  rw [hone, hnumbers, hlength, List.length_singleton, List.length_nil, List.flatten_nil]
  omega

/-- Twenty-eight numbers of eight digits are 251 characters with the spaces between them, and 503
after the redaction. -/
theorem redactAuditReason_overflows : ¬ ∀ s : Text,
    isVerificationText s = true ∨ isRevealReason s = true →
      (redactAuditReason s).length ≤ 500 := by
  intro h
  have hlong : isRevealReason (List.intercalate [' '] (List.replicate 28 "12345678".toList)) = true ∧
      (redactAuditReason (List.intercalate [' '] (List.replicate 28 "12345678".toList))).length =
        503 := by
    decide +kernel
  have hfits := h _ (.inr hlong.1)
  rw [hlong.2] at hfits
  omega

end Lengths

end BlocTrust.Crm
