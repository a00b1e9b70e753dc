import BlocTrust.Domain
import BlocTrust.Patterns

/-!
Redaction of the reasons that people enter.
The account pattern ignores case under Unicode folding, so that its letters and its word
characters include the long s and the Kelvin sign; the number pattern does not.  The pattern
takes groups of four and a tail of at most two, so a run whose length is 3 modulo 4 is passed over.
-/
namespace BlocTrust.Crm

open Patterns

section Patterns

def isDigit (c : Char) : Bool := decide (48 ≤ c.toNat) && decide (c.toNat ≤ 57)

def isLetter (c : Char) : Bool :=
  (decide (65 ≤ c.toNat) && decide (c.toNat ≤ 90)) ||
    (decide (97 ≤ c.toNat) && decide (c.toNat ≤ 122))

/-- The long s and the Kelvin sign, which fold to letters. -/
def isFolded (c : Char) : Bool := c.toNat == 0x17F || c.toNat == 0x212A

/-- A letter or digit of ASCII. -/
def isPlain (c : Char) : Bool := isLetter c || isDigit c

/-- `\w` -/
def isWordChar (c : Char) : Bool := isPlain c || c == '_'

/-- `\w` with the flags `iu` -/
def isFoldedWord (c : Char) : Bool := isWordChar c || isFolded c

/-- `[A-Z]` and `[A-Z0-9]` with the flags `iu` -/
def isFoldedLetter (c : Char) : Bool := isLetter c || isFolded c
def isFoldedAlnum (c : Char) : Bool := isPlain c || isFolded c

/-- `(?: ?[A-Z0-9]{4})` -/
def accountGroup : Regex :=
  .seq (.times (.one (· == ' ')) 0 (some 1)) (.times (.one isFoldedAlnum) 4 (some 4))

/-- `[A-Z]{2}\d{2}(?: ?[A-Z0-9]{4}){2,7}[A-Z0-9]{0,2}` -/
def account : Regex :=
  .seq (.times (.one isFoldedLetter) 2 (some 2)) (.seq (.times (.one isDigit) 2 (some 2))
    (.seq (.times accountGroup 2 (some 7)) (.times (.one isFoldedAlnum) 0 (some 2))))

/-- `\d{8,}` -/
def number : Regex := .times (.one isDigit) 8 none

def redactAccounts (reason : Text) : Text :=
  replaceAll isFoldedWord (bounded account) "[REDACTED_ACCOUNT]".toList reason

def redactNumbers (reason : Text) : Text :=
  replaceAll isWordChar (bounded number) "[REDACTED_NUMBER]".toList reason

def redactAuditReason (reason : Text) : Text := trim (redactNumbers (redactAccounts reason))

end Patterns

section Characters

variable {c : Char}

theorem isPlain_word (h : isPlain c = true) : isWordChar c = true := by
  unfold isWordChar
  rw [h]
  rfl

theorem isPlain_folded (h : isPlain c = true) : isFoldedWord c = true := by
  unfold isFoldedWord
  rw [isPlain_word h]
  rfl

theorem isDigit_plain (h : isDigit c = true) : isPlain c = true := by
  unfold isPlain
  rw [h, Bool.or_true]

theorem isLetter_plain (h : isLetter c = true) : isPlain c = true := by
  unfold isPlain
  rw [h, Bool.true_or]

theorem isFoldedLetter_alnum (h : isFoldedLetter c = true) : isFoldedAlnum c = true := by
  unfold isFoldedLetter at h
  unfold isFoldedAlnum isPlain
  rcases Bool.or_eq_true_iff.mp h with h | h <;> rw [h] <;> simp

theorem isFoldedAlnum_word (h : isFoldedAlnum c = true) : isFoldedWord c = true := by
  unfold isFoldedAlnum at h
  unfold isFoldedWord isWordChar
  rcases Bool.or_eq_true_iff.mp h with h | h <;> rw [h] <;> simp

theorem isPlain_alnum (h : isPlain c = true) : isFoldedAlnum c = true := by
  unfold isFoldedAlnum
  rw [h]
  rfl

theorem isFoldedAlnum_ne_space (h : isFoldedAlnum c = true) : c ≠ ' ' := by
  rintro rfl
  exact absurd h (by decide)

end Characters

section Languages

variable {m : Text}

theorem lang_one_times {p : Char → Bool} {least : Nat} {most : Option Nat} :
    Lang (.times (.one p) least most) m ↔
      (∀ c ∈ m, p c = true) ∧ least ≤ m.length ∧ ∀ n ∈ most, m.length ≤ n := by
  constructor
  · rintro ⟨ms, rfl, hms, hleast, hmost⟩
    have hflat : ∀ ms : List Text, (∀ a ∈ ms, Lang (.one p) a) →
        (∀ c ∈ ms.flatten, p c = true) ∧ ms.flatten.length = ms.length := by
      intro ms
      induction ms with
      | nil => exact fun _ => ⟨by simp, rfl⟩
      | cons a ms ih =>
          intro h
          obtain ⟨⟨x, rfl, hx⟩, hrest⟩ := List.forall_mem_cons.mp h
          obtain ⟨hall, hlength⟩ := ih hrest
          refine ⟨List.forall_mem_cons.mpr ⟨hx, hall⟩, ?_⟩
          show ms.flatten.length + 1 = ms.length + 1
          rw [hlength]
    obtain ⟨hall, hlength⟩ := hflat ms hms
    rw [hlength]
    exact ⟨hall, hleast, hmost⟩
  · rintro ⟨hall, hleast, hmost⟩
    have hjoin : ∀ m : Text, (m.map fun c => [c]).flatten = m := by
      intro m
      induction m with
      | nil => rfl
      | cons c m ih =>
          rw [List.map_cons, List.flatten_cons, ih]
          rfl
    refine ⟨m.map fun c => [c], (hjoin m).symm, ?_, by simpa using hleast, by simpa using hmost⟩
    intro a ha
    obtain ⟨c, hc, rfl⟩ := List.mem_map.mp ha
    exact ⟨c, rfl, hall c hc⟩

/-- The groups of an account begin at multiples of four, counted from the last space. -/
def Aligned : Nat → Text → Prop
  | n, [] => n % 4 ≠ 3
  | n, c :: cs => if c = ' ' then n % 4 = 0 ∧ Aligned 0 cs else Aligned (n + 1) cs

theorem aligned_append {x : Text} (hx : ∀ c ∈ x, c ≠ ' ') (n : Nat) (y : Text) :
    Aligned n (x ++ y) ↔ Aligned (n + x.length) y := by
  induction x generalizing n with
  | nil => rfl
  | cons c x ih =>
      obtain ⟨hc, hx⟩ := List.forall_mem_cons.mp hx
      rw [List.cons_append, Aligned, if_neg hc, ih hx, List.length_cons]
      rw [show n + 1 + x.length = n + (x.length + 1) by omega]

theorem Aligned.behind_space {x y : Text} {n : Nat} (h : Aligned n (x ++ ' ' :: y)) :
    Aligned 0 y := by
  induction x generalizing n with
  | nil =>
      rw [List.nil_append, Aligned, if_pos rfl] at h
      exact h.2
  | cons c x ih =>
      rw [List.cons_append, Aligned] at h
      split at h
      · exact ih h.2
      · exact ih h

theorem lang_group : Lang accountGroup m ↔
    ∃ s x, m = s ++ x ∧ (s = [] ∨ s = [' ']) ∧ (∀ c ∈ x, isFoldedAlnum c = true) ∧ x.length = 4 := by
  have hspace : ∀ s : Text, Lang (.times (.one (· == ' ')) 0 (some 1)) s ↔ s = [] ∨ s = [' '] := by
    intro s
    rw [lang_one_times]
    constructor
    · rintro ⟨hall, -, hlength⟩
      have hle := hlength 1 rfl
      cases s with
      | nil => exact .inl rfl
      | cons c s =>
          have hc : c = ' ' := by simpa using hall c (List.mem_cons_self ..)
          have hs : s = [] := List.length_eq_zero_iff.mp (by rw [List.length_cons] at hle; omega)
          exact .inr (by rw [hc, hs])
    · rintro (rfl | rfl)
      · exact ⟨by simp, by simp, by simp⟩
      · exact ⟨by simp, by simp, by simp⟩
  constructor
  · rintro ⟨s, x, rfl, hs, hx⟩
    obtain ⟨hall, hleast, hmost⟩ := lang_one_times.mp hx
    have hmost := hmost 4 rfl
    exact ⟨s, x, rfl, (hspace s).mp hs, hall, by omega⟩
  · rintro ⟨s, x, rfl, hs, hall, hlength⟩
    refine ⟨s, x, rfl, (hspace s).mpr hs, lang_one_times.mpr ⟨hall, by omega, ?_⟩⟩
    rintro n hn
    cases hn
    omega

theorem aligned_groups {ms : List Text} (h : ∀ a ∈ ms, Lang accountGroup a) {t : Text}
    (ht : ∀ c ∈ t, isFoldedAlnum c = true) (hlength : t.length ≤ 2) (n : Nat) (hn : n % 4 = 0) :
    Aligned n (ms.flatten ++ t) := by
  induction ms generalizing n with
  | nil =>
      have hend := aligned_append (fun c hc => isFoldedAlnum_ne_space (ht c hc)) n []
      rw [List.append_nil] at hend
      rw [List.flatten_nil, List.nil_append, hend]
      show (n + t.length) % 4 ≠ 3
      omega
  | cons a ms ih =>
      obtain ⟨ha, hrest⟩ := List.forall_mem_cons.mp h
      obtain ⟨s, x, rfl, hs, hx, hfour⟩ := lang_group.mp ha
      have hstep : ∀ n, n % 4 = 0 → Aligned n (x ++ (ms.flatten ++ t)) := by
        intro n hn
        rw [aligned_append (fun c hc => isFoldedAlnum_ne_space (hx c hc))]
        exact ih hrest (n + x.length) (by omega)
      rw [List.flatten_cons, List.append_assoc, List.append_assoc]
      rcases hs with rfl | rfl
      · exact hstep n hn
      · rw [List.singleton_append, Aligned, if_pos rfl]
        exact ⟨hn, hstep 0 rfl⟩

theorem getLast?_append_word {u w : Text} (h : ∃ c ∈ w.getLast?, isFoldedWord c = true) :
    ∃ c ∈ (u ++ w).getLast?, isFoldedWord c = true := by
  obtain ⟨c, hc, hword⟩ := h
  refine ⟨c, ?_, hword⟩
  rw [List.getLast?_append, hc]
  rfl

theorem getLast?_alnum {w : Text} (h : ∀ c ∈ w, isFoldedAlnum c = true) (hne : w ≠ []) :
    ∃ c ∈ w.getLast?, isFoldedWord c = true :=
  ⟨w.getLast hne, List.getLast?_eq_some_getLast hne,
    isFoldedAlnum_word (h _ (List.getLast_mem hne))⟩

theorem groups_chars {ms : List Text} (h : ∀ a ∈ ms, Lang accountGroup a) :
    ∀ c ∈ ms.flatten, isFoldedWord c = true ∨ c = ' ' := by
  intro c hc
  obtain ⟨a, ha, hca⟩ := List.mem_flatten.mp hc
  obtain ⟨s, x, rfl, hs, hx, -⟩ := lang_group.mp (h a ha)
  rcases List.mem_append.mp hca with hc | hc
  · rcases hs with rfl | rfl
    · cases hc
    · exact .inr (List.mem_singleton.mp hc)
  · exact .inl (isFoldedAlnum_word (hx c hc))

theorem groups_last {ms : List Text} (h : ∀ a ∈ ms, Lang accountGroup a) (hne : ms ≠ []) :
    ∃ c ∈ ms.flatten.getLast?, isFoldedWord c = true := by
  have hlast := h _ (List.getLast_mem hne)
  obtain ⟨s, x, heq, -, hx, hfour⟩ := lang_group.mp hlast
  have hx' : x ≠ [] := by
    rintro rfl
    cases hfour
  rw [← List.dropLast_concat_getLast hne, List.flatten_append, List.flatten_singleton, heq]
  exact getLast?_append_word (getLast?_append_word (getLast?_alnum hx hx'))

/-- What the account pattern matches: a first letter, characters of words and spaces, and a last
character of a word, in aligned groups. -/
structure AccountText (m : Text) : Prop where
  aligned : Aligned 0 m
  chars : ∀ c ∈ m, isFoldedWord c = true ∨ c = ' '
  head : ∃ c ∈ m.head?, isFoldedWord c = true
  last : ∃ c ∈ m.getLast?, isFoldedWord c = true

theorem accountText (h : Lang account m) : AccountText m := by
  obtain ⟨a, b, rfl, ha, d, b, rfl, hd, g, t, rfl, hg, ht⟩ := h
  obtain ⟨hletters, htwo, htwo'⟩ := lang_one_times.mp ha
  obtain ⟨hdigits, hdtwo, hdtwo'⟩ := lang_one_times.mp hd
  obtain ⟨htail, -, htail'⟩ := lang_one_times.mp ht
  obtain ⟨ms, rfl, hms, hleast, hmost⟩ := hg
  replace htwo' := htwo' 2 rfl
  replace hdtwo' := hdtwo' 2 rfl
  replace htail' := htail' 2 rfl
  have ha' : ∀ c ∈ a, isFoldedAlnum c = true := fun c hc => isFoldedLetter_alnum (hletters c hc)
  have hd' : ∀ c ∈ d, isFoldedAlnum c = true :=
    fun c hc => isPlain_alnum (isDigit_plain (hdigits c hc))
  constructor
  · rw [aligned_append (fun c hc => isFoldedAlnum_ne_space (ha' c hc)),
      aligned_append (fun c hc => isFoldedAlnum_ne_space (hd' c hc))]
    exact aligned_groups hms htail htail' _ (by omega)
  · intro c hc
    simp only [List.mem_append] at hc
    rcases hc with hc | hc | hc | hc
    · exact .inl (isFoldedAlnum_word (ha' c hc))
    · exact .inl (isFoldedAlnum_word (hd' c hc))
    · exact groups_chars hms c hc
    · exact .inl (isFoldedAlnum_word (htail c hc))
  · cases a with
    | nil => exact absurd htwo (by decide)
    | cons c a => exact ⟨c, rfl, isFoldedAlnum_word (ha' c (List.mem_cons_self ..))⟩
  · have hne : ms ≠ [] := by
      rintro rfl
      exact absurd hleast (by decide)
    refine getLast?_append_word (getLast?_append_word ?_)
    by_cases hnil : t = []
    · rw [hnil, List.append_nil]
      exact groups_last hms hne
    · exact getLast?_append_word (getLast?_alnum htail hnil)

end Languages

section Replacers

variable {p q : Place}

theorem next_account (h : first isFoldedWord (bounded account) p = some q) :
    ∃ m, AccountText m ∧ p.rest = m ++ q.rest ∧ q.prev = m.getLast? ∧
      p.prev.any isFoldedWord = false ∧ q.rest.head?.any isFoldedWord = false := by
  obtain ⟨hp, ⟨m, hrest, hplace, hlang⟩, hq⟩ := first_bounded h
  have hm := accountText hlang
  obtain ⟨c, hc, hword⟩ := hm.head
  obtain ⟨d, hd, hword'⟩ := hm.last
  have hprev : q.prev = some d := by
    rw [hplace]
    show m.getLast?.or p.prev = some d
    rw [hd]
    rfl
  have hhead : p.rest.head? = some c := by
    rw [hrest, List.head?_append, hc]
    rfl
  unfold atBoundary at hp hq
  rw [hhead, Option.any_some, hword] at hp
  rw [hprev, Option.any_some, hword'] at hq
  refine ⟨m, hm, hrest, by rw [hprev, hd], ?_, ?_⟩
  · simpa using hp
  · simpa using hq

theorem accountText_ne_nil {m : Text} (h : AccountText m) : m ≠ [] := by
  rintro rfl
  obtain ⟨c, hc, -⟩ := h.head
  cases hc

theorem account_replacer : Replacer isFoldedWord isPlain (first isFoldedWord (bounded account))
    "[REDACTED_ACCOUNT]".toList where
  progress p q h := by
    obtain ⟨m, hm, hrest, hprev, -⟩ := next_account h
    exact ⟨m, accountText_ne_nil hm, hrest, hprev⟩
  inside c rest hc := by
    cases hnext : first isFoldedWord (bounded account) ⟨some c, rest⟩ with
    | none => rfl
    | some q =>
        obtain ⟨-, -, -, -, hclear, -⟩ := next_account hnext
        rw [Option.any_some, isPlain_folded hc] at hclear
        cases hclear
  stops p q h c hc := by
    obtain ⟨-, -, -, -, -, hclear⟩ := next_account h
    rw [hc, Option.any_some] at hclear
    cases hplain : isPlain c with
    | false => rfl
    | true =>
        rw [isPlain_folded hplain] at hclear
        cases hclear
  mark := ⟨'[', "REDACTED_ACCOUNT".toList, ']', by simp, by decide, by decide,
    List.all_eq_true.mp (by simp; decide), '_', by simp, by decide⟩
  plain c := isPlain_folded

theorem next_number (h : first isWordChar (bounded number) p = some q) :
    ∃ m, (∀ c ∈ m, isDigit c = true) ∧ 8 ≤ m.length ∧ p.rest = m ++ q.rest ∧
      q.prev = m.getLast? ∧ p.prev.any isWordChar = false ∧
      q.rest.head?.any isWordChar = false := by
  obtain ⟨hp, ⟨m, hrest, hplace, hlang⟩, hq⟩ := first_bounded h
  obtain ⟨hdigits, height, -⟩ := lang_one_times.mp hlang
  have hne : m ≠ [] := by
    rintro rfl
    exact absurd height (by decide)
  have hword : ∀ c ∈ m, isWordChar c = true :=
    fun c hc => isPlain_word (isDigit_plain (hdigits c hc))
  obtain ⟨c, m', rfl⟩ := List.exists_cons_of_ne_nil hne
  have hlast := List.getLast?_eq_some_getLast hne
  have hprev : q.prev = some ((c :: m').getLast hne) := by
    rw [hplace]
    show (c :: m').getLast?.or p.prev = _
    rw [hlast]
    rfl
  have hhead : p.rest.head? = some c := by rw [hrest]; rfl
  unfold atBoundary at hp hq
  rw [hhead, Option.any_some, hword c (List.mem_cons_self ..)] at hp
  rw [hprev, Option.any_some, hword _ (List.getLast_mem hne)] at hq
  refine ⟨c :: m', hdigits, height, hrest, by rw [hprev, hlast], ?_, ?_⟩
  · simpa using hp
  · simpa using hq

theorem number_replacer : Replacer isFoldedWord isPlain (first isWordChar (bounded number))
    "[REDACTED_NUMBER]".toList where
  progress p q h := by
    obtain ⟨m, -, height, hrest, hprev, -⟩ := next_number h
    refine ⟨m, ?_, hrest, hprev⟩
    rintro rfl
    exact absurd height (by decide)
  inside c rest hc := by
    cases hnext : first isWordChar (bounded number) ⟨some c, rest⟩ with
    | none => rfl
    | some q =>
        obtain ⟨-, -, -, -, -, hclear, -⟩ := next_number hnext
        rw [Option.any_some, isPlain_word hc] at hclear
        cases hclear
  stops p q h c hc := by
    obtain ⟨-, -, -, -, -, -, hclear⟩ := next_number h
    rw [hc, Option.any_some] at hclear
    cases hplain : isPlain c with
    | false => rfl
    | true =>
        rw [isPlain_word hplain] at hclear
        cases hclear
  mark := ⟨'[', "REDACTED_NUMBER".toList, ']', by simp, by decide, by decide,
    List.all_eq_true.mp (by simp; decide), '_', by simp, by decide⟩
  plain c := isPlain_folded

end Replacers

section Ibans

/-- Two letters, two digits and 11 to 30 letters or digits. -/
def isIban : Text → Bool
  | a :: b :: c :: d :: tail => isLetter a && isLetter b && isDigit c && isDigit d &&
      tail.all isPlain && decide (11 ≤ tail.length) && decide (tail.length ≤ 30)
  | _ => false

variable {r : Text}

theorem isIban_parts (h : isIban r = true) : ∃ a b c d tail, r = a :: b :: c :: d :: tail ∧
    isLetter a = true ∧ isLetter b = true ∧ isDigit c = true ∧ isDigit d = true ∧
    (∀ e ∈ tail, isPlain e = true) ∧ 11 ≤ tail.length ∧ tail.length ≤ 30 := by
  unfold isIban at h
  split at h
  · rename_i a b c d tail
    simp only [Bool.and_eq_true, decide_eq_true_eq, List.all_eq_true] at h
    obtain ⟨⟨⟨⟨⟨⟨ha, hb⟩, hc⟩, hd⟩, htail⟩, hleast⟩, hmost⟩ := h
    exact ⟨a, b, c, d, tail, rfl, ha, hb, hc, hd, htail, hleast, hmost⟩
  · cases h

theorem isIban_plain (h : isIban r = true) : ∀ e ∈ r, isPlain e = true := by
  obtain ⟨a, b, c, d, tail, rfl, ha, hb, hc, hd, htail, -⟩ := isIban_parts h
  simp only [List.forall_mem_cons]
  exact ⟨isLetter_plain ha, isLetter_plain hb, isDigit_plain hc, isDigit_plain hd, htail⟩

theorem isIban_ne_nil (h : isIban r = true) : r ≠ [] := by
  obtain ⟨a, b, c, d, tail, rfl, -⟩ := isIban_parts h
  exact List.cons_ne_nil _ _

/-- Letters and digits can be cut into groups of four. -/
theorem exists_groups (n : Nat) (x : Text) (hx : ∀ e ∈ x, isFoldedAlnum e = true)
    (hlength : x.length = 4 * n) : ∃ ms : List Text, x = ms.flatten ∧
      (∀ a ∈ ms, Lang accountGroup a) ∧ ms.length = n := by
  induction n generalizing x with
  | zero =>
      rw [List.length_eq_zero_iff.mp (by omega : x.length = 0)]
      exact ⟨[], rfl, by simp, rfl⟩
  | succ n ih =>
      obtain ⟨ms, hms, hlang, hcount⟩ := ih (x.drop 4) (fun e he => hx e (List.mem_of_mem_drop he))
        (by rw [List.length_drop]; omega)
      refine ⟨x.take 4 :: ms, ?_, ?_, by rw [List.length_cons, hcount]⟩
      · rw [List.flatten_cons, ← hms, List.take_append_drop]
      · refine List.forall_mem_cons.mpr
          ⟨lang_group.mpr ⟨[], x.take 4, rfl, .inl rfl, ?_, ?_⟩, hlang⟩
        · exact fun e he => hx e (List.mem_of_mem_take he)
        · rw [List.length_take]
          omega

/-- A run is matched whole unless its length is 3 modulo 4. -/
theorem lang_account (h : isIban r = true) (hlength : r.length % 4 ≠ 3) : Lang account r := by
  obtain ⟨a, b, c, d, tail, rfl, ha, hb, hc, hd, htail, hleast, hmost⟩ := isIban_parts h
  have htail' : ∀ e ∈ tail, isFoldedAlnum e = true := fun e he => isPlain_alnum (htail e he)
  have hfolded : ∀ e, isLetter e = true → isFoldedLetter e = true := by
    intro e he
    unfold isFoldedLetter
    rw [he, Bool.true_or]
  simp only [List.length_cons] at hlength
  obtain ⟨ms, hms, hlang, hcount⟩ := exists_groups (tail.length / 4)
    (tail.take (4 * (tail.length / 4)))
    (fun e he => htail' e (List.mem_of_mem_take he)) (by rw [List.length_take]; omega)
  refine ⟨[a, b], c :: d :: tail, rfl, lang_one_times.mpr ⟨?_, by simp, by simp⟩,
    [c, d], tail, rfl, lang_one_times.mpr ⟨?_, by simp, by simp⟩,
    ms.flatten, tail.drop (4 * (tail.length / 4)), ?_, ⟨ms, rfl, hlang, by omega, ?_⟩,
    lang_one_times.mpr ⟨?_, by simp, ?_⟩⟩
  · simp [hfolded a ha, hfolded b hb]
  · simp [hc, hd]
  · rw [← hms, List.take_append_drop]
  · rintro n hn
    cases hn
    omega
  · exact fun e he => htail' e (List.mem_of_mem_drop he)
  · rintro n hn
    cases hn
    rw [List.length_drop]
    omega

theorem plain_account : Plain account :=
  ⟨⟨trivial, fun h => by cases h⟩, ⟨trivial, fun h => by cases h⟩,
    ⟨⟨⟨trivial, fun h => by cases h⟩, ⟨trivial, fun h => by cases h⟩⟩, fun h => by cases h⟩,
    ⟨trivial, fun h => by cases h⟩⟩

/-- Where such a run begins, the pattern matches. -/
theorem first_account_ne_none (h : isIban r = true) (hlength : r.length % 4 ≠ 3)
    {prev : Option Char} {u v : Text} (hu : ClearBefore isFoldedWord prev u)
    (hv : ClearBehind isFoldedWord v) :
    first isFoldedWord (bounded account) ⟨u.getLast?.or prev, r ++ v⟩ ≠ none := by
  have hplain := isIban_plain h
  have hne := isIban_ne_nil h
  have hword : ∀ e ∈ r, isFoldedWord e = true := fun e he => isPlain_folded (hplain e he)
  have hclear : ∀ o : Option Char, (∀ c ∈ o, isFoldedWord c = false) →
      o.any isFoldedWord = false := by
    intro o ho
    cases o with
    | none => rfl
    | some c => exact ho c rfl
  refine first_bounded_ne_none plain_account (lang_account h hlength) ?_ ?_
  · obtain ⟨a, r', rfl⟩ := List.exists_cons_of_ne_nil hne
    unfold atBoundary
    rw [hclear _ hu, List.cons_append, List.head?_cons, Option.any_some,
      hword a (List.mem_cons_self ..)]
    rfl
  · unfold atBoundary Place.after
    rw [hclear _ hv, List.getLast?_eq_some_getLast hne, Option.some_or, Option.any_some,
      hword _ (List.getLast_mem hne)]
    rfl

/-- No match of the account pattern reaches into a run whose length is 3 modulo 4. -/
theorem account_skips (h : isIban r = true) (hlength : r.length % 4 = 3) {prev : Option Char}
    {u v : Text} {q : Place} (hu : ClearBefore isFoldedWord prev u)
    (hv : ClearBehind isFoldedWord v)
    (hnext : first isFoldedWord (bounded account) ⟨prev, u ++ r ++ v⟩ = some q) :
    (r ++ v).length ≤ q.rest.length := by
  obtain ⟨m, hm, hrest, -, -, hstop⟩ := next_account hnext
  have hplain := isIban_plain h
  replace hrest : u ++ (r ++ v) = m ++ q.rest := by rw [← List.append_assoc]; exact hrest
  rcases List.append_eq_append_iff.mp hrest with ⟨x, rfl, hx⟩ | ⟨x, -, hx⟩
  · by_cases hnil : x = []
    · exact Nat.le_of_eq (by rw [hx, hnil, List.nil_append])
    · exfalso
      -- the match begins a group with the run
      have haligned : Aligned 0 x := by
        rcases List.eq_nil_or_concat u with rfl | ⟨u', c, rfl⟩
        · exact hm.aligned
        · rw [List.concat_eq_append] at hu hm
          have hc : c = ' ' := by
            have hmem := hm.chars c (by simp)
            have hclear := hu c (by rw [List.getLast?_concat]; rfl)
            rw [hclear] at hmem
            simpa using hmem
          have hall := hm.aligned
          rw [hc, List.append_assoc, List.singleton_append] at hall
          exact hall.behind_space
      have hspace : ∀ e ∈ r, e ≠ ' ' :=
        fun e he => isFoldedAlnum_ne_space (isPlain_alnum (hplain e he))
      rcases List.append_eq_append_iff.mp hx with ⟨y, hy, hy'⟩ | ⟨y, hy, hy'⟩
      · -- it takes the whole run
        rw [hy, aligned_append hspace, Nat.zero_add] at haligned
        cases y with
        | nil => exact haligned hlength
        | cons c y =>
            have hclear := hv c (by rw [hy']; rfl)
            have hmem := hm.chars c (by rw [hy]; simp)
            rw [hclear] at hmem
            have hc : c = ' ' := by simpa using hmem
            rw [Aligned, if_pos hc] at haligned
            omega
      · cases y with
        | nil =>
            rw [List.append_nil] at hy
            have hrun := haligned
            rw [← hy, ← List.append_nil r, aligned_append hspace, Nat.zero_add] at hrun
            exact hrun hlength
        | cons c y =>
            have hc := isPlain_folded (hplain c (by rw [hy]; simp))
            rw [hy', List.cons_append, List.head?_cons, Option.any_some, hc] at hstop
            cases hstop
  · rw [hx]
    simp only [List.length_append]
    omega

/-- Nor does one of the number pattern, since the run begins with a letter. -/
theorem number_skips (h : isIban r = true) {prev : Option Char} {u v : Text} {q : Place}
    (hnext : first isWordChar (bounded number) ⟨prev, u ++ r ++ v⟩ = some q) :
    (r ++ v).length ≤ q.rest.length := by
  obtain ⟨m, hdigits, -, hrest, -⟩ := next_number hnext
  obtain ⟨a, b, c, d, tail, rfl, ha, -⟩ := isIban_parts h
  replace hrest : u ++ (a :: b :: c :: d :: tail ++ v) = m ++ q.rest := by
    rw [← List.append_assoc]
    exact hrest
  rcases List.append_eq_append_iff.mp hrest with ⟨x, rfl, hx⟩ | ⟨x, -, hx⟩
  · cases x with
    | nil => exact Nat.le_of_eq (by rw [hx, List.nil_append])
    | cons e x =>
        have he : a = e := (List.cons.inj hx).1
        have hdigit := hdigits e (by simp)
        rw [← he] at hdigit
        unfold isLetter at ha
        unfold isDigit at hdigit
        simp only [Bool.or_eq_true, Bool.and_eq_true, decide_eq_true_eq] at ha hdigit
        omega
  · rw [hx]
    simp only [List.length_append]
    omega

end Ibans

section Trimming

variable {r : Text}

theorem isTrimmed_not_word {c : Char} (h : isTrimmed c = true) : isFoldedWord c = false := by
  have hunderscore : c ≠ '_' := by
    rintro rfl
    exact absurd h (by decide)
  unfold isTrimmed at h
  unfold isFoldedWord isWordChar isPlain isLetter isDigit isFolded
  simp only [List.contains_eq_mem, List.mem_cons, List.not_mem_nil, or_false, Bool.or_eq_true,
    Bool.and_eq_true, decide_eq_true_eq] at h
  simp only [Bool.or_eq_false_iff, Bool.and_eq_false_iff, decide_eq_false_iff_not,
    beq_eq_false_iff_ne, ne_eq, hunderscore, not_false_eq_true, and_true]
  omega

/-- Spaces at the ends of a text stand beside a run, not in it. -/
theorem containsRun_framed {a t b : Text} (hplain : ∀ e ∈ r, isPlain e = true) (hne : r ≠ [])
    (ha : ∀ c ∈ a, isTrimmed c = true) (hb : ∀ c ∈ b, isTrimmed c = true) :
    ContainsRun isFoldedWord (a ++ t ++ b) r ↔ ContainsRun isFoldedWord t r := by
  have hnot : ∀ c, isTrimmed c = true → c ∉ r := by
    intro c hc hmem
    have hword := isPlain_folded (hplain c hmem)
    rw [isTrimmed_not_word hc] at hword
    cases hword
  constructor
  · rintro ⟨u, v, heq, hu, hv⟩
    have hfront : ∃ x, u = a ++ x ∧ t ++ b = x ++ (r ++ v) := by
      rw [List.append_assoc, List.append_assoc] at heq
      rcases List.append_eq_append_iff.mp heq with ⟨x, hx, hx'⟩ | ⟨x, hx, hx'⟩
      · exact ⟨x, hx, hx'⟩
      · cases x with
        | nil => exact ⟨[], by rw [hx, List.append_nil, List.append_nil], hx'.symm⟩
        | cons c x =>
            obtain ⟨d, r', rfl⟩ := List.exists_cons_of_ne_nil hne
            have hcd : d = c := (List.cons.inj hx').1
            exact absurd (hcd ▸ List.mem_cons_self ..) (hnot c (ha c (by rw [hx]; simp)))
    obtain ⟨x, rfl, hrest⟩ := hfront
    have hback : ∃ y, v = y ++ b ∧ t = x ++ r ++ y := by
      rw [← List.append_assoc] at hrest
      rcases List.append_eq_append_iff.mp hrest with ⟨y, hy, hy'⟩ | ⟨y, hy, hy'⟩
      · rcases List.eq_nil_or_concat y with rfl | ⟨y, c, rfl⟩
        · refine ⟨[], ?_, ?_⟩
          · rw [hy', List.nil_append, List.nil_append]
          · rw [hy, List.append_nil, List.append_nil]
        · -- the last character of the run would be a space
          rw [List.concat_eq_append] at hy hy'
          obtain ⟨r', d, rfl⟩ : ∃ r' d, r = r' ++ [d] :=
            ⟨r.dropLast, r.getLast hne, (List.dropLast_concat_getLast hne).symm⟩
          rw [← List.append_assoc, ← List.append_assoc] at hy
          have hcd := (List.append_inj' hy rfl).2
          have hmem : c ∈ r' ++ [d] := by
            rw [hcd]
            simp
          exact absurd hmem (hnot c (hb c (by rw [hy']; simp)))
      · exact ⟨y, hy', hy⟩
    obtain ⟨y, rfl, ht⟩ := hback
    refine ⟨x, y, ht, ?_, ?_⟩
    · intro c hc
      refine hu c ?_
      rw [List.getLast?_append]
      cases hlast : x.getLast? with
      | none =>
          rw [hlast] at hc
          cases hc
      | some e =>
          rw [hlast] at hc
          exact hc
    · intro c hc
      refine hv c ?_
      rw [List.head?_append, hc]
      rfl
  · rintro ⟨u, v, rfl, hu, hv⟩
    refine ⟨a ++ u, v ++ b, by simp only [List.append_assoc], ?_, ?_⟩
    · intro c hc
      rw [List.getLast?_append] at hc
      cases hlast : u.getLast? with
      | some e =>
          rw [hlast] at hc
          exact hu c (by rw [hlast]; exact hc)
      | none =>
          rw [hlast] at hc
          have hmem : c ∈ a.getLast? := by simpa using hc
          exact isTrimmed_not_word (ha c (List.mem_of_getLast? hmem))
    · intro c hc
      cases v with
      | cons d v => exact hv c hc
      | nil => exact isTrimmed_not_word (hb c (List.mem_of_mem_head? hc))

theorem trim_frame (t : Text) : ∃ a b, t = a ++ trim t ++ b ∧ (∀ c ∈ a, isTrimmed c = true) ∧
    ∀ c ∈ b, isTrimmed c = true := by
  refine ⟨t.takeWhile isTrimmed, ((t.dropWhile isTrimmed).reverse.takeWhile isTrimmed).reverse,
    ?_, ?_, ?_⟩
  · unfold trim
    rw [List.append_assoc, ← List.reverse_append, List.takeWhile_append_dropWhile,
      List.reverse_reverse, List.takeWhile_append_dropWhile]
  · exact List.all_eq_true.mp List.all_takeWhile
  · intro c hc
    exact List.all_eq_true.mp List.all_takeWhile c (List.mem_reverse.mp hc)

theorem containsRun_trim {t : Text} (hplain : ∀ e ∈ r, isPlain e = true) (hne : r ≠ []) :
    ContainsRun isFoldedWord (trim t) r ↔ ContainsRun isFoldedWord t r := by
  obtain ⟨a, b, heq, ha, hb⟩ := trim_frame t
  have hframe := containsRun_framed (t := trim t) hplain hne ha hb
  rw [← heq] at hframe
  exact hframe.symm

end Trimming

section Redaction

variable {s r : Text}

/-- A text is a run of its own. -/
theorem containsRun_self (r : Text) : ContainsRun isFoldedWord r r := by
  refine ⟨[], [], by simp, ?_, ?_⟩
  · intro c hc
    cases hc
  · intro c hc
    cases hc

/-- The account pattern removes a run exactly when its length is not 3 modulo 4. -/
theorem redactAccounts_run (h : isIban r = true) (hs : ContainsRun isFoldedWord s r) :
    ContainsRun isFoldedWord (redactAccounts s) r ↔ r.length % 4 = 3 := by
  have hplain := isIban_plain h
  have hne := isIban_ne_nil h
  constructor
  · rintro ⟨u, v, heq, hu, hv⟩
    refine Decidable.byContradiction fun hlength => ?_
    obtain ⟨u', v', -, hbefore, hbehind, hnone⟩ := run_was_there account_replacer hplain hne
      (s.length + 1) ⟨none, s⟩ u v (Nat.lt_succ_self _) heq hu hv
    exact first_account_ne_none h hlength hbefore hbehind hnone
  · intro hlength
    obtain ⟨u, v, rfl, hu, hv⟩ := hs
    exact run_kept account_replacer hplain hne
      (fun prev u v q hu hv hnext => account_skips h hlength hu hv hnext)
      ((u ++ r ++ v).length + 1) none u v (Nat.lt_succ_self _) hu hv

theorem redactNumbers_run {t : Text} (h : isIban r = true) :
    ContainsRun isFoldedWord (redactNumbers t) r ↔ ContainsRun isFoldedWord t r := by
  have hplain := isIban_plain h
  have hne := isIban_ne_nil h
  constructor
  · rintro ⟨u, v, heq, hu, hv⟩
    obtain ⟨u', v', hrest, hbefore, hbehind, -⟩ := run_was_there number_replacer hplain hne
      (t.length + 1) ⟨none, t⟩ u v (Nat.lt_succ_self _) heq hu hv
    exact ⟨u', v', hrest, hbefore, hbehind⟩
  · rintro ⟨u, v, rfl, hu, hv⟩
    exact run_kept number_replacer hplain hne
      (fun prev u v q _ _ hnext => number_skips h hnext)
      ((u ++ r ++ v).length + 1) none u v (Nat.lt_succ_self _) hu hv

/-- A run is removed exactly when its length is not 3 modulo 4. -/
theorem redactAuditReason_removes (h : isIban r = true) (hs : ContainsRun isFoldedWord s r) :
    ¬ ContainsRun isFoldedWord (redactAuditReason s) r ↔ r.length % 4 ≠ 3 := by
  unfold redactAuditReason
  rw [containsRun_trim (isIban_plain h) (isIban_ne_nil h), redactNumbers_run h,
    redactAccounts_run h hs]

theorem redactAuditReason_removes_sample :
    isIban "MD24AG000000000000000001".toList = true ∧
    ¬ ContainsRun isFoldedWord (redactAuditReason "MD24AG000000000000000001".toList)
      "MD24AG000000000000000001".toList := by
  have h : isIban "MD24AG000000000000000001".toList = true := by simp; decide
  exact ⟨h, (redactAuditReason_removes h (containsRun_self _)).mpr (by simp)⟩

/-- A Norwegian account number has 15 characters, and is stored as it was entered. -/
theorem redactAuditReason_keeps : ¬ ∀ s r : Text, isIban r = true →
    ContainsRun isFoldedWord s r → ¬ r <:+: redactAuditReason s := by
  intro h
  have hiban : isIban "NO9386011117947".toList = true := by simp; decide
  have hsame : redactAuditReason "NO9386011117947".toList = "NO9386011117947".toList := by
    decide +kernel
  refine h _ _ hiban (containsRun_self _) ⟨[], [], ?_⟩
  rw [List.nil_append, List.append_nil, hsame]

end Redaction

end BlocTrust.Crm
