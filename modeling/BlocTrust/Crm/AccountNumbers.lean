import BlocTrust.Crm.AuditRedaction
import Mathlib.Data.List.Basic
import Mathlib.Data.Nat.Find

/-!
The account numbers in a reason.
An account number begins with two letters and two digits and has 8 to 30 characters behind them, in
groups of four between single spaces, the last of which may be up to two characters longer.  The
account pattern takes the longest one that stands at the beginning of a word and ends with a word.
-/
namespace BlocTrust.Crm

open Patterns

section Shapes

/-- Behind `n` characters without a space: groups of four, and up to two characters after them. -/
def grouped : Nat → Text → Bool
  | n, [] => decide (4 ≤ n) && decide (n % 4 ≠ 3)
  | n, c :: cs =>
      if c = ' ' then decide (4 ≤ n) && decide (n % 4 = 0) && grouped 0 cs
      else isFoldedAlnum c && grouped (n + 1) cs

/-- The characters of a text that are no spaces. -/
def solid (t : Text) : Nat := t.countP (· ≠ ' ')

def isAccount : Text → Bool
  | a :: b :: c :: d :: body => isFoldedLetter a && isFoldedLetter b && isDigit c && isDigit d &&
      grouped 4 body && decide (8 ≤ solid body) && decide (solid body ≤ 30)
  | _ => false

theorem solid_append (a b : Text) : solid (a ++ b) = solid a + solid b := List.countP_append

theorem solid_of_alnum {x : Text} (h : ∀ c ∈ x, isFoldedAlnum c = true) : solid x = x.length :=
  List.countP_eq_length.mpr fun c hc => decide_eq_true (isFoldedAlnum_ne_space (h c hc))

theorem grouped_append {x : Text} (hx : ∀ c ∈ x, isFoldedAlnum c = true) (n : Nat) (y : Text) :
    grouped n (x ++ y) = grouped (n + x.length) y := by
  induction x generalizing n with
  | nil => rfl
  | cons c x ih =>
      obtain ⟨hc, hx⟩ := List.forall_mem_cons.mp hx
      rw [List.cons_append, grouped, if_neg (isFoldedAlnum_ne_space hc), hc, Bool.true_and, ih hx,
        List.length_cons, Nat.add_right_comm, Nat.add_assoc]

/-- Groups and a short tail are grouped, and their number counts their characters. -/
theorem grouped_of_groups {ms : List Text} (h : ∀ a ∈ ms, Lang accountGroup a) {t : Text}
    (ht : ∀ c ∈ t, isFoldedAlnum c = true) (hlength : t.length ≤ 2) (n : Nat) (hn : n % 4 = 0)
    (hfour : 4 ≤ n) : grouped n (ms.flatten ++ t) = true ∧
      solid (ms.flatten ++ t) = 4 * ms.length + t.length := by
  induction ms generalizing n with
  | nil =>
      rw [List.flatten_nil, List.nil_append]
      refine ⟨?_, by rw [solid_of_alnum ht, List.length_nil, Nat.mul_zero, Nat.zero_add]⟩
      rw [← List.append_nil t, grouped_append ht]
      simp only [grouped, Bool.and_eq_true, decide_eq_true_eq]
      omega
  | cons a ms ih =>
      obtain ⟨ha, hrest⟩ := List.forall_mem_cons.mp h
      obtain ⟨s, x, rfl, hs, hx, hlen⟩ := lang_group.mp ha
      have hspaces : solid s = 0 := by
        rcases hs with rfl | rfl <;> rfl
      obtain ⟨-, hsolid⟩ := ih hrest n hn hfour
      refine ⟨?_, ?_⟩
      · rw [List.flatten_cons, List.append_assoc, List.append_assoc]
        rcases hs with rfl | rfl
        · rw [List.nil_append, grouped_append hx]
          exact (ih hrest (n + x.length) (by omega) (by omega)).1
        · rw [List.singleton_append, grouped, if_pos rfl, grouped_append hx,
            (ih hrest (0 + x.length) (by omega) (by omega)).1]
          simp [hn, hfour]
      · rw [List.flatten_cons, List.append_assoc, solid_append, solid_append, hspaces,
          solid_of_alnum hx, hsolid, List.length_cons]
        omega

/-- Inside a group the text ends as a tail, or goes on with a character. -/
theorem grouped_next {n : Nat} {t : Text} (h : grouped n t = true) (hn : n < 4 ∨ n % 4 ≠ 0) :
    (t = [] ∧ 4 ≤ n ∧ n % 4 ≠ 3) ∨
      ∃ c cs, t = c :: cs ∧ isFoldedAlnum c = true ∧ grouped (n + 1) cs = true := by
  cases t with
  | nil =>
      simp only [grouped, Bool.and_eq_true, decide_eq_true_eq] at h
      exact .inl ⟨rfl, h⟩
  | cons c cs =>
      rw [grouped] at h
      split at h
      · simp only [Bool.and_eq_true, decide_eq_true_eq] at h
        omega
      · obtain ⟨hc, h⟩ := Bool.and_eq_true_iff.mp h
        exact .inr ⟨c, cs, rfl, hc, h⟩

/-- Behind a space comes a whole group. -/
theorem grouped_space {t : Text} (h : grouped 0 t = true) : ∃ x cs, t = x ++ cs ∧ x.length = 4 ∧
    (∀ c ∈ x, isFoldedAlnum c = true) ∧ grouped 4 cs = true := by
  have hmore : ∀ {n : Nat} {t : Text}, n < 4 → grouped n t = true →
      ∃ c cs, t = c :: cs ∧ isFoldedAlnum c = true ∧ grouped (n + 1) cs = true :=
    fun hn h => (grouped_next h (.inl hn)).resolve_left fun hnil => by omega
  obtain ⟨a, t₁, rfl, ha, h⟩ := hmore (by decide) h
  obtain ⟨b, t₂, rfl, hb, h⟩ := hmore (by decide) h
  obtain ⟨d, t₃, rfl, hd, h⟩ := hmore (by decide) h
  obtain ⟨e, t₄, rfl, he, h⟩ := hmore (by decide) h
  exact ⟨[a, b, d, e], t₄, rfl, rfl, by simp [ha, hb, hd, he], h⟩

/-- What is grouped can be cut into groups and a short tail. -/
theorem groups_of_grouped (k : Nat) (t : Text) (hk : t.length ≤ k) (n : Nat) (hn : n % 4 = 0)
    (hfour : 4 ≤ n) (h : grouped n t = true) : ∃ (ms : List Text) (tail : Text),
      t = ms.flatten ++ tail ∧ (∀ a ∈ ms, Lang accountGroup a) ∧
      (∀ c ∈ tail, isFoldedAlnum c = true) ∧ tail.length ≤ 2 := by
  induction k using Nat.strong_induction_on generalizing t n with
  | _ k ih =>
      have hgroup : ∀ (s x cs : Text) (n' : Nat), t = s ++ (x ++ cs) → (s = [] ∨ s = [' ']) →
          x.length = 4 → (∀ c ∈ x, isFoldedAlnum c = true) → n' % 4 = 0 → 4 ≤ n' →
          grouped n' cs = true → ∃ (ms : List Text) (tail : Text), t = ms.flatten ++ tail ∧
            (∀ a ∈ ms, Lang accountGroup a) ∧ (∀ c ∈ tail, isFoldedAlnum c = true) ∧
            tail.length ≤ 2 := by
        rintro s x cs n' rfl hs hx halnum hn' hfour' hgrouped
        rw [List.length_append, List.length_append, hx] at hk
        obtain ⟨ms, tail, rfl, hms, htail⟩ := ih cs.length (by omega) cs (Nat.le_refl _) n' hn'
          hfour' hgrouped
        refine ⟨(s ++ x) :: ms, tail, by simp, ?_, htail⟩
        exact List.forall_mem_cons.mpr ⟨lang_group.mpr ⟨s, x, rfl, hs, halnum, hx⟩, hms⟩
      cases t with
      | nil => exact ⟨[], [], rfl, by simp, by simp, by simp⟩
      | cons c cs =>
          rw [grouped] at h
          split at h
          · rename_i hc
            obtain ⟨x, cs, rfl, hx, halnum, h⟩ :=
              grouped_space (Bool.and_eq_true_iff.mp h).2
            exact hgroup [' '] x cs 4 (by rw [hc]; rfl) (.inr rfl) hx halnum rfl (by decide) h
          · obtain ⟨hc, h⟩ := Bool.and_eq_true_iff.mp h
            rcases grouped_next h (.inr (by omega)) with ⟨rfl, -⟩ | ⟨b, t₂, rfl, hb, h⟩
            · exact ⟨[], [c], rfl, by simp, by simp [hc], by simp⟩
            rcases grouped_next h (.inr (by omega)) with ⟨rfl, -⟩ | ⟨d, t₃, rfl, hd, h⟩
            · exact ⟨[], [c, b], rfl, by simp, by simp [hc, hb], by simp⟩
            -- three characters are too many for a tail
            rcases grouped_next h (.inr (by omega)) with ⟨-, -, hmod⟩ | ⟨e, t₄, rfl, he, h⟩
            · omega
            exact hgroup [] [c, b, d, e] t₄ _ rfl (.inl rfl) rfl (by simp [hc, hb, hd, he])
              (by omega) (by omega) h

/-- The account pattern matches the account numbers. -/
theorem lang_account_iff {m : Text} : Lang account m ↔ isAccount m = true := by
  constructor
  · rintro ⟨a, b, rfl, ha, d, b, rfl, hd, g, t, rfl, ⟨ms, rfl, hms, hleast, hmost⟩, ht⟩
    obtain ⟨hletters, htwo, htwo'⟩ := lang_one_times.mp ha
    obtain ⟨hdigits, hdtwo, hdtwo'⟩ := lang_one_times.mp hd
    obtain ⟨htail, -, htail'⟩ := lang_one_times.mp ht
    replace htwo' := htwo' 2 rfl
    replace hdtwo' := hdtwo' 2 rfl
    replace htail' := htail' 2 rfl
    replace hmost := hmost 7 rfl
    obtain ⟨x, y, rfl⟩ := List.length_eq_two.mp (Nat.le_antisymm htwo' htwo)
    obtain ⟨z, w, rfl⟩ := List.length_eq_two.mp (Nat.le_antisymm hdtwo' hdtwo)
    obtain ⟨hgrouped, hsolid⟩ := grouped_of_groups hms htail htail' 4 rfl (Nat.le_refl _)
    have hleast' : 8 ≤ solid (ms.flatten ++ t) ∧ solid (ms.flatten ++ t) ≤ 30 := by omega
    simp only [List.forall_mem_cons, List.cons_append, List.nil_append] at hletters hdigits ⊢
    simp [isAccount, hletters, hdigits, hgrouped, hleast']
  · intro h
    unfold isAccount at h
    split at h
    · rename_i a b c d body
      simp only [Bool.and_eq_true, decide_eq_true_eq] at h
      obtain ⟨⟨⟨⟨⟨⟨ha, hb⟩, hc⟩, hd⟩, hgrouped⟩, hleast⟩, hmost⟩ := h
      obtain ⟨ms, tail, rfl, hms, htail, hlength⟩ :=
        groups_of_grouped _ body (Nat.le_refl _) 4 rfl (Nat.le_refl _) hgrouped
      have hsolid := (grouped_of_groups hms htail hlength 4 rfl (Nat.le_refl _)).2
      refine ⟨[a, b], _, rfl, lang_one_times.mpr ⟨by simp [ha, hb], by simp, by simp⟩,
        [c, d], _, rfl, lang_one_times.mpr ⟨by simp [hc, hd], by simp, by simp⟩,
        ms.flatten, tail, rfl, ⟨ms, rfl, hms, by omega, ?_⟩,
        lang_one_times.mpr ⟨htail, by simp, ?_⟩⟩
      · rintro n hn
        cases hn
        omega
      · rintro n hn
        cases hn
        exact hlength
    · cases h

end Shapes

section Longest

variable {p q : Place}

/-- A text of the language that begins here is one way. -/
theorem way_of_lang {r : Regex} (hr : Plain r) {m rest : Text} (h : Lang r m)
    (hp : p.rest = m ++ rest) : Place.after p.prev m rest ∈ ways isFoldedWord r p := by
  have hway := @ways_complete isFoldedWord r hr p.prev m rest h
  rw [← hp] at hway
  exact hway

theorem one_single (c : Char → Bool) (p : Place) : (ways isFoldedWord (.one c) p).length ≤ 1 := by
  unfold ways
  split
  · exact Nat.zero_le _
  · split
    · exact Nat.le_refl _
    · exact Nat.zero_le _

theorem one_gap (c : Char → Bool) (p : Place) : ∀ q ∈ ways isFoldedWord (.one c) p,
    q.rest.length + 1 ≤ p.rest.length := by
  intro q hq
  obtain ⟨m, hrest, -, x, rfl, -⟩ := ways_sound _ p q hq
  rw [hrest]
  exact Nat.le_refl _

/-- A group begins with a space if there is one. -/
theorem group_single (p : Place) : (ways isFoldedWord accountGroup p).length ≤ 1 := by
  have hfour : ∀ q, (ways isFoldedWord (.times (.one isFoldedAlnum) 4 (some 4)) q).length ≤ 1 :=
    rounds_single (one_single _) 4
  obtain ⟨prev, rest⟩ := p
  unfold accountGroup
  rw [ways]
  cases rest with
  | nil =>
      simp only [ways, rounds, Option.getD_some, List.flatMap_nil, List.nil_append, if_true,
        List.flatMap_cons, List.append_nil]
      exact Nat.zero_le _
  | cons c rest =>
      have hspace : ways isFoldedWord (.times (.one (· == ' ')) 0 (some 1)) ⟨prev, c :: rest⟩ =
          (if c == ' ' then [⟨some c, rest⟩] else []) ++ [⟨prev, c :: rest⟩] := by
        simp only [ways, rounds, Option.getD_some, if_true]
        split
        · rfl
        · rfl
      rw [hspace]
      split
      · rename_i hc
        have hnone : ways isFoldedWord (.times (.one isFoldedAlnum) 4 (some 4))
            ⟨prev, c :: rest⟩ = [] := by
          have hfalse : isFoldedAlnum c = false := by
            rw [beq_iff_eq.mp hc]
            decide
          simp [ways, rounds, hfalse]
        rw [List.singleton_append, List.flatMap_cons, List.flatMap_cons, List.flatMap_nil, hnone,
          List.append_nil, List.append_nil]
        exact hfour _
      · rw [List.nil_append, List.flatMap_cons, List.flatMap_nil, List.append_nil]
        exact hfour _

theorem group_gap (p : Place) : ∀ q ∈ ways isFoldedWord accountGroup p,
    q.rest.length + 4 ≤ p.rest.length := by
  intro q hq
  obtain ⟨m, hrest, -, hlang⟩ := ways_sound _ p q hq
  obtain ⟨s, x, rfl, -, -, hx⟩ := lang_group.mp hlang
  rw [hrest, List.length_append, List.length_append, hx]
  omega

/-- The account pattern prefers the longer match. -/
theorem account_descending (p : Place) : Descending 0 (ways isFoldedWord account p) := by
  unfold account
  refine .seq_single (rounds_single (one_single _) 2 p) fun q => ?_
  refine .seq_single (rounds_single (one_single _) 2 q) fun o => ?_
  unfold ways
  refine (rounds_descending group_single group_gap 2 7 o).1.flatMap (fun q _ => ?_)
    fun q _ o ho => ?_
  · exact (rounds_descending (one_single _) (one_gap _) 0 2 q).1.weaken
  · obtain ⟨m, hrest, -, hlang⟩ := ways_sound _ q o ho
    obtain ⟨-, -, htwo⟩ := lang_one_times.mp hlang
    have hm := htwo 2 rfl
    rw [hrest, List.length_append]
    omega

/-- The length of the longest account number at the beginning of a text that ends with a word, or
zero if there is none. -/
def accountLead (t : Text) : Nat :=
  Nat.findGreatest (fun n => isAccount (t.take n) = true ∧
    (t.drop n).head?.any isFoldedWord = false) t.length

theorem isAccount_take_pos {t : Text} {n : Nat} (h : isAccount (t.take n) = true) : 0 < n := by
  cases n with
  | zero => cases h
  | succ n => exact Nat.succ_pos n

/-- An account number begins and ends with a character of a word. -/
theorem isAccount_ends {m : Text} (h : isAccount m = true) :
    m.head?.any isFoldedWord = true ∧ m.getLast?.any isFoldedWord = true := by
  have htext := accountText (lang_account_iff.mpr h)
  obtain ⟨c, hc, hword⟩ := htext.head
  obtain ⟨d, hd, hword'⟩ := htext.last
  rw [hc, hd]
  exact ⟨hword, hword'⟩

/-- Behind an account number that ends with a word there is a boundary. -/
theorem atBoundary_behind {prev : Option Char} {m rest : Text} (h : isAccount m = true) :
    atBoundary isFoldedWord (Place.after prev m rest) = true ↔
      rest.head?.any isFoldedWord = false := by
  obtain ⟨-, hlast⟩ := isAccount_ends h
  have hprev : (m.getLast?.or prev).any isFoldedWord = true := by
    cases hm : m.getLast? with
    | none =>
        rw [hm] at hlast
        cases hlast
    | some c =>
        rw [hm] at hlast
        exact hlast
  unfold atBoundary Place.after
  rw [hprev]
  simp

theorem atBoundary_before {prev : Option Char} {m rest : Text} (h : isAccount m = true) :
    atBoundary isFoldedWord ⟨prev, m ++ rest⟩ = true ↔ prev.any isFoldedWord = false := by
  obtain ⟨hhead, -⟩ := isAccount_ends h
  have hnext : (m ++ rest).head?.any isFoldedWord = true := by
    cases m with
    | nil => cases hhead
    | cons c m => exact hhead
  unfold atBoundary
  rw [hnext]
  simp

theorem accountLead_spec {t : Text} (h : accountLead t ≠ 0) :
    isAccount (t.take (accountLead t)) = true ∧
      (t.drop (accountLead t)).head?.any isFoldedWord = false :=
  Nat.findGreatest_of_ne_zero rfl h

theorem le_accountLead {t : Text} {n : Nat} (hn : n ≤ t.length)
    (h : isAccount (t.take n) = true ∧ (t.drop n).head?.any isFoldedWord = false) :
    n ≤ accountLead t :=
  Nat.le_findGreatest hn h

/-- What the account pattern matches begins with a word and is the longest account number. -/
theorem first_account_some {p q : Place} (hfirst : first isFoldedWord (bounded account) p = some q) :
    p.prev.any isFoldedWord = false ∧ ∃ m, p.rest = m ++ q.rest ∧
      q = Place.after p.prev m q.rest ∧ isAccount m = true ∧ accountLead p.rest = m.length := by
  obtain ⟨hbefore, ⟨m, hrest, hplace, hlang⟩, hend⟩ := first_bounded hfirst
  have haccount := lang_account_iff.mp hlang
  have htake : p.rest.take m.length = m := by rw [hrest, List.take_left]
  have hdrop : p.rest.drop m.length = q.rest := by rw [hrest, List.drop_left]
  have hclear : p.prev.any isFoldedWord = false := by
    have hstart : atBoundary isFoldedWord ⟨p.prev, m ++ q.rest⟩ = true := by
      rw [← hrest]
      exact hbefore
    exact (atBoundary_before haccount).mp hstart
  have hbehind : q.rest.head?.any isFoldedWord = false := by
    rw [hplace] at hend
    exact (atBoundary_behind haccount).mp hend
  have hlength := congrArg List.length hrest
  rw [List.length_append] at hlength
  have hle : m.length ≤ accountLead p.rest := by
    refine le_accountLead (by omega) ?_
    rw [htake, hdrop]
    exact ⟨haccount, hbehind⟩
  have hpos : 0 < m.length := isAccount_take_pos (by rw [htake]; exact haccount)
  have hlead : accountLead p.rest ≠ 0 := by omega
  -- the longest account number is a way that ends no earlier
  have hge : accountLead p.rest ≤ m.length := by
    obtain ⟨haccount', hbehind'⟩ := accountLead_spec hlead
    have hway := way_of_lang plain_account (p := p) (lang_account_iff.mpr haccount')
      (List.take_append_drop _ _).symm
    have hlongest := first_longest (account_descending p) hfirst hway
      ((atBoundary_behind haccount').mpr hbehind')
    replace hlongest : q.rest.length ≤ (p.rest.drop (accountLead p.rest)).length := hlongest
    have hbound : accountLead p.rest ≤ p.rest.length := Nat.findGreatest_le _
    rw [List.length_drop] at hlongest
    omega
  exact ⟨hclear, m, hrest, hplace, haccount, Nat.le_antisymm hge hle⟩

/-- The account pattern matches the longest account number at the beginning of a word. -/
theorem first_account (p : Place) : first isFoldedWord (bounded account) p =
    if p.prev.any isFoldedWord = false ∧ accountLead p.rest ≠ 0 then
      some ⟨(p.rest.take (accountLead p.rest)).getLast?, p.rest.drop (accountLead p.rest)⟩
    else none := by
  cases hfirst : first isFoldedWord (bounded account) p with
  | none =>
      symm
      refine if_neg ?_
      rintro ⟨hclear, hlead⟩
      obtain ⟨haccount, hbehind⟩ := accountLead_spec hlead
      refine @first_bounded_ne_none isFoldedWord account plain_account p.prev _
        (p.rest.drop (accountLead p.rest)) (lang_account_iff.mpr haccount)
        ((atBoundary_before haccount).mpr hclear) ((atBoundary_behind haccount).mpr hbehind) ?_
      rw [List.take_append_drop]
      exact hfirst
  | some q =>
      obtain ⟨hclear, m, hrest, hplace, haccount, hlead⟩ := first_account_some hfirst
      obtain ⟨-, hlast⟩ := isAccount_ends haccount
      cases hm : m.getLast? with
      | none =>
          rw [hm] at hlast
          cases hlast
      | some c =>
          have htake : p.rest.take m.length = m := by rw [hrest, List.take_left]
          have hdrop : p.rest.drop m.length = q.rest := by rw [hrest, List.drop_left]
          have hne : m.length ≠ 0 := by
            rw [Nat.ne_zero_iff_zero_lt, List.length_pos_iff]
            rintro rfl
            cases hm
          rw [hlead, if_pos ⟨hclear, hne⟩, htake, hdrop, hplace, hm]
          unfold Place.after
          rw [hm]
          rfl

end Longest

section Reading

/-- A piece of a text that is read from left to right. -/
inductive Piece
  | account (number : Text)
  | plain (c : Char)
  deriving DecidableEq, Repr

/-- The text in pieces: at the beginning of a word the longest account number, if there is one, and
else a character.  `skip` characters belong to the piece before, and `inWord` says whether a
character of a word has been read last. -/
def scan : Nat → Bool → Text → List Piece
  | _, _, [] => []
  | skip + 1, _, c :: rest => scan skip (isFoldedWord c) rest
  | 0, inWord, c :: rest =>
      let n := if inWord then 0 else accountLead (c :: rest)
      if n = 0 then .plain c :: scan 0 (isFoldedWord c) rest
      else .account ((c :: rest).take n) :: scan (n - 1) (isFoldedWord c) rest

def pieces (s : Text) : List Piece := scan 0 false s

/-- The text of a piece, with `mark` for an account number. -/
def Piece.shown (mark : Text) : Piece → Text
  | .account _ => mark
  | .plain c => [c]

def Piece.entered : Piece → Text
  | .account m => m
  | .plain c => [c]

def Piece.number? : Piece → Option Text
  | .account m => some m
  | .plain _ => none

/-- The account numbers of a text. -/
def accountsIn (s : Text) : List Text := (pieces s).filterMap Piece.number?

/-- The text with a blank for every account number. -/
def betweenAccounts (s : Text) : Text := (pieces s).flatMap (Piece.shown [' '])

theorem scan_skip (n : Nat) (inWord : Bool) (t : Text) (hn : n ≤ t.length) :
    scan n inWord t = scan 0 (((t.take n).getLast?.map isFoldedWord).getD inWord) (t.drop n) := by
  induction n generalizing inWord t with
  | zero => rfl
  | succ n ih =>
      cases t with
      | nil => cases hn
      | cons c t =>
          rw [scan, ih (isFoldedWord c) t (Nat.le_of_succ_le_succ hn), List.take_succ_cons,
            List.drop_succ_cons]
          cases htake : t.take n with
          | nil => rfl
          | cons d u =>
              rw [List.getLast?_cons_cons]
              cases hlast : (d :: u).getLast? with
              | none => cases List.getLast?_eq_none_iff.mp hlast
              | some e => rfl

theorem scan_next {inWord : Bool} {c : Char} {t : Text}
    (h : inWord = true ∨ accountLead (c :: t) = 0) :
    scan 0 inWord (c :: t) = .plain c :: scan 0 (isFoldedWord c) t := by
  have hzero : (if inWord then 0 else accountLead (c :: t)) = 0 := by
    split
    · rfl
    · rename_i hword
      exact h.resolve_left hword
  rw [scan]
  simp only [hzero, if_true]

/-- Behind an account number the text is scanned from a character of a word on. -/
theorem scan_account {c : Char} {t : Text} (h : accountLead (c :: t) ≠ 0) :
    scan 0 false (c :: t) = .account ((c :: t).take (accountLead (c :: t))) ::
      scan 0 true ((c :: t).drop (accountLead (c :: t))) := by
  obtain ⟨haccount, -⟩ := accountLead_spec h
  obtain ⟨n, hn⟩ := Nat.exists_eq_succ_of_ne_zero h
  have hbound : accountLead (c :: t) ≤ (c :: t).length := Nat.findGreatest_le _
  obtain ⟨-, hlast⟩ := isAccount_ends haccount
  rw [scan]
  simp only [Bool.false_eq_true, if_false, if_neg h]
  rw [hn] at hbound hlast ⊢
  refine congrArg _ ?_
  rw [Nat.succ_sub_one, scan_skip n _ t (Nat.le_of_succ_le_succ hbound), List.drop_succ_cons]
  refine congrArg (fun b => scan 0 b (t.drop n)) ?_
  rw [List.take_succ_cons] at hlast
  cases htake : t.take n with
  | nil =>
      rw [htake] at hlast
      exact hlast
  | cons d u =>
      rw [htake, List.getLast?_cons_cons] at hlast
      cases hl : (d :: u).getLast? with
      | none => cases List.getLast?_eq_none_iff.mp hl
      | some e =>
          rw [hl] at hlast
          exact hlast

/-- The account pattern replaces the account numbers of the scanned text. -/
theorem replaceLoop_scan (mark : Text) (fuel : Nat) (prev : Option Char) (t : Text)
    (hfuel : t.length < fuel) :
    replaceLoop (first isFoldedWord (bounded account)) mark fuel ⟨prev, t⟩ =
      (scan 0 (prev.any isFoldedWord) t).flatMap (Piece.shown mark) := by
  induction fuel generalizing prev t with
  | zero => omega
  | succ fuel ih =>
      have hfirst := first_account ⟨prev, t⟩
      cases t with
      | nil =>
          have hnil : accountLead [] = 0 := Nat.le_zero.mp (Nat.findGreatest_le _)
          rw [if_neg fun h => h.2 hnil] at hfirst
          exact replaceLoop_nil hfirst
      | cons c t =>
          rw [List.length_cons] at hfuel
          by_cases hlead : prev.any isFoldedWord = false ∧ accountLead (c :: t) ≠ 0
          · rw [if_pos hlead] at hfirst
            have hlength : ((c :: t).drop (accountLead (c :: t))).length < fuel := by
              rw [List.length_drop, List.length_cons]
              have hpos := Nat.pos_of_ne_zero hlead.2
              omega
            rw [replaceLoop_some hfirst, ih _ _ hlength, hlead.1, scan_account hlead.2,
              (isAccount_ends (accountLead_spec hlead.2).1).2, List.flatMap_cons]
            rfl
          · have hnext : prev.any isFoldedWord = true ∨ accountLead (c :: t) = 0 := by
              cases hprev : prev.any isFoldedWord with
              | true => exact .inl rfl
              | false => exact .inr (Decidable.byContradiction fun h => hlead ⟨hprev, h⟩)
            rw [if_neg hlead] at hfirst
            rw [replaceLoop_cons hfirst, ih _ _ (by omega), scan_next hnext, List.flatMap_cons]
            rfl

theorem redactAccounts_pieces (s : Text) :
    redactAccounts s = (pieces s).flatMap (Piece.shown "[REDACTED_ACCOUNT]".toList) :=
  replaceLoop_scan _ _ none s (Nat.lt_succ_self _)

/-- The pieces make up the text. -/
theorem entered_scan (k : Nat) (inWord : Bool) (t : Text) (hk : t.length ≤ k) :
    (scan 0 inWord t).flatMap Piece.entered = t := by
  induction k generalizing inWord t with
  | zero =>
      rw [List.length_eq_zero_iff.mp (by omega : t.length = 0)]
      rfl
  | succ k ih =>
      cases t with
      | nil => rfl
      | cons c t =>
          rw [List.length_cons] at hk
          by_cases hlead : inWord = true ∨ accountLead (c :: t) = 0
          · rw [scan_next hlead, List.flatMap_cons, ih _ t (by omega)]
            rfl
          · rw [not_or, Bool.not_eq_true] at hlead
            have hlength : ((c :: t).drop (accountLead (c :: t))).length ≤ k := by
              rw [List.length_drop, List.length_cons]
              have hpos := Nat.pos_of_ne_zero hlead.2
              omega
            rw [hlead.1, scan_account hlead.2, List.flatMap_cons, ih _ _ hlength]
            exact List.take_append_drop _ _

theorem entered_pieces (s : Text) : (pieces s).flatMap Piece.entered = s :=
  entered_scan _ false s (Nat.le_refl _)

/-- Every account number gives way to a mark. -/
theorem length_shown (mark : Text) (ps : List Piece) :
    (ps.flatMap (Piece.shown mark)).length + (ps.filterMap Piece.number?).flatten.length =
      (ps.flatMap Piece.entered).length + mark.length * (ps.filterMap Piece.number?).length := by
  induction ps with
  | nil => rfl
  | cons p ps ih =>
      rw [List.flatMap_cons, List.flatMap_cons, List.length_append, List.length_append]
      cases p with
      | account m =>
          rw [show (Piece.account m :: ps).filterMap Piece.number? =
            m :: ps.filterMap Piece.number? from rfl, List.flatten_cons, List.length_append,
            List.length_cons, Nat.mul_succ]
          show mark.length + _ + (m.length + _) = m.length + _ + _
          omega
      | plain c =>
          rw [show (Piece.plain c :: ps).filterMap Piece.number? = ps.filterMap Piece.number?
            from rfl]
          show 1 + _ + _ = 1 + _ + _
          omega

end Reading

end BlocTrust.Crm
