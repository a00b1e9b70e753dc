import Mathlib.Init

/-!
Backtracking regular expressions.
`ways` lists the positions at which a match may end, the preferred one first; a bounded or greedy
repetition prefers more rounds.  Up to its word boundaries an expression matches exactly the
texts of its language, whatever surrounds them.
-/
namespace BlocTrust.Patterns

/-- A place in a text: the character before it and what follows. -/
structure Place where
  prev : Option Char
  rest : List Char
  deriving DecidableEq, Repr

/-- `most` is `none` for a repetition without an upper bound. -/
inductive Regex
  | boundary
  | one (p : Char → Bool)
  | seq (r s : Regex)
  | times (r : Regex) (least : Nat) (most : Option Nat)

section Matching

variable (isWord : Char → Bool)

/-- `\b` -/
def atBoundary (p : Place) : Bool := p.prev.any isWord != p.rest.head?.any isWord

/-- Up to `most` rounds of `f`, and no fewer than `least`. -/
def rounds (f : Place → List Place) : Nat → Nat → Place → List Place
  | least, 0, p => if least = 0 then [p] else []
  | least, most + 1, p =>
      (f p).flatMap (rounds f (least - 1) most) ++ if least = 0 then [p] else []

/-- Each unbounded round consumes a character, so that the length bounds their number. -/
def ways : Regex → Place → List Place
  | .boundary, p => if atBoundary isWord p then [p] else []
  | .one c, p =>
      match p.rest with
      | [] => []
      | x :: xs => if c x then [⟨some x, xs⟩] else []
  | .seq r s, p => (ways r p).flatMap (ways s)
  | .times r least most, p => rounds (ways r) least (most.getD p.rest.length) p

/-- Where the match that begins here ends. -/
def first (r : Regex) (p : Place) : Option Place := (ways isWord r p).head?

end Matching

section Language

/-- Texts that an expression matches when its boundaries are ignored. -/
def Lang : Regex → List Char → Prop
  | .boundary, m => m = []
  | .one c, m => ∃ x, m = [x] ∧ c x = true
  | .seq r s, m => ∃ a b, m = a ++ b ∧ Lang r a ∧ Lang s b
  | .times r least most, m => ∃ ms : List (List Char), m = ms.flatten ∧ (∀ a ∈ ms, Lang r a) ∧
      least ≤ ms.length ∧ ∀ n ∈ most, ms.length ≤ n

/-- The place behind a text. -/
def Place.after (prev : Option Char) (m rest : List Char) : Place := ⟨m.getLast?.or prev, rest⟩

/-- An expression without boundaries, whose unbounded repetitions consume characters. -/
def Plain : Regex → Prop
  | .boundary => False
  | .one _ => True
  | .seq r s => Plain r ∧ Plain s
  | .times r _ most => Plain r ∧ (most = none → ∀ m, Lang r m → m ≠ [])

variable {isWord : Char → Bool} {r : Regex}

theorem after_append (prev : Option Char) (a b rest : List Char) :
    Place.after (a.getLast?.or prev) b rest = Place.after prev (a ++ b) rest := by
  unfold Place.after
  rw [List.getLast?_append, Option.or_assoc]

@[simp] theorem after_nil (prev : Option Char) (rest : List Char) :
    Place.after prev [] rest = ⟨prev, rest⟩ := rfl

/-- What a way has consumed belongs to the language. -/
def Consumes (r : Regex) (p q : Place) : Prop :=
  ∃ m, p.rest = m ++ q.rest ∧ q = Place.after p.prev m q.rest ∧ Lang r m

theorem rounds_sound {f : Place → List Place} (hf : ∀ p, ∀ q ∈ f p, Consumes r p q)
    (least most : Nat) (p q : Place) (hq : q ∈ rounds f least most p) :
    ∃ ms : List (List Char), p.rest = ms.flatten ++ q.rest ∧
      q = Place.after p.prev ms.flatten q.rest ∧ (∀ a ∈ ms, Lang r a) ∧ least ≤ ms.length ∧
      ms.length ≤ most := by
  induction most generalizing least p with
  | zero =>
      unfold rounds at hq
      split at hq
      · rename_i hleast
        rw [List.mem_singleton] at hq
        subst hq
        exact ⟨[], rfl, rfl, by simp, by simp [hleast], by simp⟩
      · cases hq
  | succ most ih =>
      unfold rounds at hq
      rcases List.mem_append.mp hq with hmore | hstop
      · obtain ⟨o, ho, hq⟩ := List.mem_flatMap.mp hmore
        obtain ⟨a, hrest, hplace, hlang⟩ := hf p o ho
        obtain ⟨ms, hrest', hplace', hlangs, hleast, hmost⟩ := ih (least - 1) o hq
        refine ⟨a :: ms, ?_, ?_, ?_, ?_, ?_⟩
        · rw [hrest, hrest', List.flatten_cons, List.append_assoc]
        · rw [hplace'] at *
          have hprev : o.prev = a.getLast?.or p.prev := congrArg Place.prev hplace
          rw [hprev, after_append, List.flatten_cons]
          rfl
        · exact List.forall_mem_cons.mpr ⟨hlang, hlangs⟩
        · rw [List.length_cons]
          omega
        · rw [List.length_cons]
          omega
      · split at hstop
        · rename_i hleast
          rw [List.mem_singleton] at hstop
          subst hstop
          exact ⟨[], rfl, rfl, by simp, by simp [hleast], by simp⟩
        · cases hstop

theorem ways_sound (r : Regex) (p q : Place) (hq : q ∈ ways isWord r p) : Consumes r p q := by
  induction r generalizing p q with
  | boundary =>
      unfold ways at hq
      split at hq
      · rw [List.mem_singleton] at hq
        subst hq
        exact ⟨[], rfl, rfl, rfl⟩
      · cases hq
  | one c =>
      unfold ways at hq
      split at hq
      · cases hq
      · rename_i x xs hrest
        split at hq
        · rename_i hx
          rw [List.mem_singleton] at hq
          subst hq
          exact ⟨[x], hrest, rfl, x, rfl, hx⟩
        · cases hq
  | seq r s ihr ihs =>
      unfold ways at hq
      obtain ⟨o, ho, hq⟩ := List.mem_flatMap.mp hq
      obtain ⟨a, hrest, hplace, hlang⟩ := ihr p o ho
      obtain ⟨b, hrest', hplace', hlang'⟩ := ihs o q hq
      refine ⟨a ++ b, ?_, ?_, a, b, rfl, hlang, hlang'⟩
      · rw [hrest, hrest', List.append_assoc]
      · have hprev : o.prev = a.getLast?.or p.prev := congrArg Place.prev hplace
        rw [← after_append, ← hprev]
        exact hplace'
  | times r least most ih =>
      unfold ways at hq
      obtain ⟨ms, hrest, hplace, hlangs, hleast, hmost⟩ := rounds_sound ih _ _ p q hq
      refine ⟨ms.flatten, hrest, hplace, ms, rfl, hlangs, hleast, fun n hn => ?_⟩
      cases hn
      exact hmost

theorem rounds_complete {f : Place → List Place}
    (hf : ∀ prev m rest, Lang r m → Place.after prev m rest ∈ f ⟨prev, m ++ rest⟩)
    (ms : List (List Char)) (hms : ∀ a ∈ ms, Lang r a) (least most : Nat)
    (hleast : least ≤ ms.length) (hmost : ms.length ≤ most) (prev : Option Char)
    (rest : List Char) :
    Place.after prev ms.flatten rest ∈ rounds f least most ⟨prev, ms.flatten ++ rest⟩ := by
  induction ms generalizing least most prev with
  | nil =>
      have hzero : least = 0 := by simpa using hleast
      cases most <;> simp [rounds, hzero]
  | cons a ms ih =>
      obtain ⟨ha, hms⟩ := List.forall_mem_cons.mp hms
      rw [List.length_cons] at hleast hmost
      obtain ⟨n, rfl⟩ := Nat.exists_eq_succ_of_ne_zero (by omega : most ≠ 0)
      unfold rounds
      refine List.mem_append_left _ (List.mem_flatMap.mpr
        ⟨Place.after prev a (ms.flatten ++ rest), ?_, ?_⟩)
      · rw [List.flatten_cons, List.append_assoc]
        exact hf prev a (ms.flatten ++ rest) ha
      · have hnext := ih hms (least - 1) n (by omega) (by omega) (a.getLast?.or prev)
        rw [after_append] at hnext
        exact hnext

theorem ways_complete (hr : Plain r) (prev : Option Char) (m rest : List Char)
    (h : Lang r m) : Place.after prev m rest ∈ ways isWord r ⟨prev, m ++ rest⟩ := by
  induction r generalizing prev m rest with
  | boundary => exact absurd hr id
  | one c =>
      obtain ⟨x, rfl, hx⟩ := h
      simp [ways, hx, Place.after]
  | seq r s ihr ihs =>
      obtain ⟨a, b, rfl, ha, hb⟩ := h
      unfold ways
      refine List.mem_flatMap.mpr ⟨Place.after prev a (b ++ rest), ?_, ?_⟩
      · rw [List.append_assoc]
        exact ihr hr.1 prev a (b ++ rest) ha
      · have hnext := ihs hr.2 (a.getLast?.or prev) b rest hb
        rw [after_append] at hnext
        exact hnext
  | times r least most ih =>
      obtain ⟨ms, rfl, hms, hleast, hmost⟩ := h
      unfold ways
      refine rounds_complete (fun prev m rest hm => ih hr.1 prev m rest hm) ms hms least _ hleast ?_
        prev rest
      cases most with
      | some n => exact hmost n rfl
      | none =>
          -- every round has consumed a character
          have hlength : ∀ ms : List (List Char), (∀ a ∈ ms, a ≠ []) →
              ms.length ≤ ms.flatten.length := by
            intro ms
            induction ms with
            | nil => simp
            | cons a ms ih =>
                intro hne
                obtain ⟨ha, hms⟩ := List.forall_mem_cons.mp hne
                have hpos := List.length_pos_iff.mpr ha
                have hrest := ih hms
                rw [List.length_cons, List.flatten_cons, List.length_append]
                omega
          have hne := hlength ms fun a ha => hr.2 rfl a (hms a ha)
          show ms.length ≤ (ms.flatten ++ rest).length
          rw [List.length_append]
          omega

/-- An expression between two boundaries. -/
def bounded (r : Regex) : Regex := .seq .boundary (.seq r .boundary)

theorem mem_ways_bounded {p q : Place} : q ∈ ways isWord (bounded r) p ↔
    atBoundary isWord p = true ∧ q ∈ ways isWord r p ∧ atBoundary isWord q = true := by
  unfold bounded
  simp only [ways, List.mem_flatMap]
  constructor
  · rintro ⟨o, ho, o', ho', hq⟩
    split at ho
    · rename_i hp
      rw [List.mem_singleton] at ho
      subst ho
      split at hq
      · rename_i hb
        rw [List.mem_singleton] at hq
        subst hq
        exact ⟨hp, ho', hb⟩
      · cases hq
    · cases ho
  · rintro ⟨hp, hq, hb⟩
    exact ⟨p, by simp [hp], q, hq, by simp [hb]⟩

/-- A match begins and ends at a boundary. -/
theorem first_bounded {p q : Place} (h : first isWord (bounded r) p = some q) :
    atBoundary isWord p = true ∧ Consumes r p q ∧ atBoundary isWord q = true := by
  obtain ⟨hp, hq, hb⟩ := mem_ways_bounded.mp (List.mem_of_mem_head? h)
  exact ⟨hp, ways_sound r p q hq, hb⟩

/-- A text of the language between two boundaries is not passed over. -/
theorem first_bounded_ne_none (hr : Plain r) {prev : Option Char} {m rest : List Char}
    (h : Lang r m) (hp : atBoundary isWord ⟨prev, m ++ rest⟩ = true)
    (hq : atBoundary isWord (Place.after prev m rest) = true) :
    first isWord (bounded r) ⟨prev, m ++ rest⟩ ≠ none := by
  intro hnone
  have hmem := mem_ways_bounded.mpr ⟨hp, @ways_complete isWord r hr prev m rest h, hq⟩
  have hnil := List.head?_eq_none_iff.mp hnone
  rw [hnil] at hmem
  cases hmem

end Language

section Longest

/-- The ways from the longest to the shortest, each leaving at least `gap` characters more than the
one before it. -/
def Descending (gap : Nat) (ps : List Place) : Prop :=
  ps.Pairwise fun q q' => q.rest.length + gap ≤ q'.rest.length

variable {isWord : Char → Bool} {r s : Regex} {p q : Place} {gap : Nat}

theorem Descending.weaken {ps : List Place} (h : Descending gap ps) : Descending 0 ps :=
  List.Pairwise.imp (fun hle => Nat.le_trans (Nat.le_add_right _ gap) hle) h

/-- Rounds that can go on in one way only, and consume `gap` characters each. -/
theorem rounds_descending {f : Place → List Place} (hone : ∀ p, (f p).length ≤ 1)
    (hgap : ∀ p, ∀ q ∈ f p, q.rest.length + gap ≤ p.rest.length) (least most : Nat) (p : Place) :
    Descending gap (rounds f least most p) ∧
      ∀ q ∈ rounds f least most p, q.rest.length ≤ p.rest.length := by
  induction most generalizing least p with
  | zero =>
      unfold rounds
      split
      · exact ⟨List.pairwise_singleton _ _, by simp⟩
      · exact ⟨.nil, by simp⟩
  | succ most ih =>
      unfold rounds
      have hstop : ∀ q ∈ (if least = 0 then [p] else []), q.rest.length = p.rest.length := by
        intro q hq
        split at hq
        · rw [List.mem_singleton.mp hq]
        · cases hq
      have hlast : Descending gap (if least = 0 then [p] else []) := by
        split
        · exact List.pairwise_singleton _ _
        · exact .nil
      cases hf : f p with
      | nil =>
          rw [List.flatMap_nil, List.nil_append]
          exact ⟨hlast, fun q hq => Nat.le_of_eq (hstop q hq)⟩
      | cons o os =>
          have hos : os = [] := by
            have hlength := hone p
            rw [hf, List.length_cons] at hlength
            exact List.length_eq_zero_iff.mp (by omega)
          have ho := hgap p o (by rw [hf]; exact List.mem_cons_self ..)
          rw [hos, List.flatMap_cons, List.flatMap_nil, List.append_nil]
          obtain ⟨hdescending, hle⟩ := ih (least - 1) o
          refine ⟨List.pairwise_append.mpr ⟨hdescending, hlast, fun q hq q' hq' => ?_⟩,
            fun q hq => ?_⟩
          · have hq := hle q hq
            have hq' := hstop q' hq'
            omega
          · rcases List.mem_append.mp hq with hq | hq
            · have hq := hle q hq
              omega
            · exact Nat.le_of_eq (hstop q hq)

/-- As many rounds as there must be. -/
theorem rounds_single {f : Place → List Place} (hone : ∀ p, (f p).length ≤ 1) (n : Nat)
    (p : Place) : (rounds f n n p).length ≤ 1 := by
  induction n generalizing p with
  | zero => exact Nat.le_refl _
  | succ n ih =>
      unfold rounds
      rw [if_neg (Nat.succ_ne_zero n), List.append_nil]
      cases hf : f p with
      | nil => exact Nat.zero_le _
      | cons o os =>
          have hlength := hone p
          rw [hf, List.length_cons] at hlength
          rw [List.length_eq_zero_iff.mp (by omega : os.length = 0), List.flatMap_cons,
            List.flatMap_nil, List.append_nil]
          exact ih o

/-- What follows in each way consumes less than the ways are apart. -/
theorem Descending.flatMap {ps : List Place} {g : Place → List Place} (h : Descending gap ps)
    (hg : ∀ q ∈ ps, Descending 0 (g q)) (hslack : ∀ q ∈ ps, ∀ o ∈ g q,
      o.rest.length ≤ q.rest.length ∧ q.rest.length ≤ o.rest.length + gap) :
    Descending 0 (ps.flatMap g) := by
  refine List.pairwise_flatMap.mpr ⟨hg, List.Pairwise.imp_of_mem ?_ h⟩
  intro q q' hq hq' hle o ho o' ho'
  have hfirst := (hslack q hq o ho).1
  have hsecond := (hslack q' hq' o' ho').2
  omega

theorem Descending.seq_single (hone : (ways isWord r p).length ≤ 1)
    (h : ∀ q, Descending gap (ways isWord s q)) : Descending gap (ways isWord (.seq r s) p) := by
  unfold ways
  cases hr : ways isWord r p with
  | nil => exact .nil
  | cons q qs =>
      rw [hr, List.length_cons] at hone
      rw [List.length_eq_zero_iff.mp (by omega : qs.length = 0), List.flatMap_cons,
        List.flatMap_nil, List.append_nil]
      exact h q

theorem ways_bounded (p : Place) : ways isWord (bounded r) p =
    if atBoundary isWord p then (ways isWord r p).filter (atBoundary isWord) else [] := by
  have hends : ∀ ps : List Place, (ps.flatMap fun o =>
      if atBoundary isWord o then [o] else []) = ps.filter (atBoundary isWord) := by
    intro ps
    induction ps with
    | nil => rfl
    | cons o ps ih =>
        rw [List.flatMap_cons, ih, List.filter_cons]
        split
        · rfl
        · rfl
  unfold bounded
  simp only [ways]
  split
  · rw [List.flatMap_cons, List.flatMap_nil, List.append_nil, hends]
  · rfl

/-- Between two boundaries the longest way is taken. -/
theorem first_longest (h : Descending 0 (ways isWord r p))
    (hfirst : first isWord (bounded r) p = some q) {q' : Place} (hq' : q' ∈ ways isWord r p)
    (hend : atBoundary isWord q' = true) : q.rest.length ≤ q'.rest.length := by
  have hboundary := (first_bounded hfirst).1
  unfold first at hfirst
  rw [ways_bounded, if_pos hboundary] at hfirst
  have hmem := List.mem_filter.mpr ⟨hq', hend⟩
  have hdescending := List.Pairwise.filter (atBoundary isWord) h
  cases hends : (ways isWord r p).filter (atBoundary isWord) with
  | nil =>
      rw [hends] at hmem
      cases hmem
  | cons o os =>
      rw [hends] at hfirst hmem hdescending
      cases hfirst
      rcases List.mem_cons.mp hmem with rfl | hmem
      · exact Nat.le_refl _
      · exact (List.pairwise_cons.mp hdescending).1 q' hmem

end Longest

section Replacing

/-- The text with every match replaced; matches are looked for from left to right, behind the one
before. -/
def replaceLoop (next : Place → Option Place) (sub : List Char) : Nat → Place → List Char
  | 0, p => p.rest
  | fuel + 1, p =>
      match next p with
      | some q => sub ++ replaceLoop next sub fuel q
      | none =>
          match p.rest with
          | [] => []
          | c :: rest => c :: replaceLoop next sub fuel ⟨some c, rest⟩

def replaceAll (isWord : Char → Bool) (r : Regex) (sub t : List Char) : List Char :=
  replaceLoop (first isWord r) sub (t.length + 1) ⟨none, t⟩

variable {next : Place → Option Place} {sub : List Char} {p q : Place} {fuel : Nat}

theorem replaceLoop_some (h : next p = some q) :
    replaceLoop next sub (fuel + 1) p = sub ++ replaceLoop next sub fuel q := by
  rw [replaceLoop, h]

theorem replaceLoop_nil {prev : Option Char} (h : next ⟨prev, []⟩ = none) :
    replaceLoop next sub (fuel + 1) ⟨prev, []⟩ = [] := by
  rw [replaceLoop, h]

theorem replaceLoop_cons {prev : Option Char} {c : Char} {rest : List Char}
    (h : next ⟨prev, c :: rest⟩ = none) : replaceLoop next sub (fuel + 1) ⟨prev, c :: rest⟩ =
      c :: replaceLoop next sub fuel ⟨some c, rest⟩ := by
  rw [replaceLoop, h]

end Replacing

section Runs

variable (isWord isPlain : Char → Bool)

/-- No word character stands before a place that is reached through `u`. -/
def ClearBefore (prev : Option Char) (u : List Char) : Prop :=
  ∀ c ∈ u.getLast?.or prev, isWord c = false

def ClearBehind (v : List Char) : Prop := ∀ c ∈ v.head?, isWord c = false

/-- A text contains a run, with no word character next to it. -/
def ContainsRun (t r : List Char) : Prop :=
  ∃ u v, t = u ++ r ++ v ∧ ClearBefore isWord none u ∧ ClearBehind isWord v

/-- Matches neither begin behind a plain character nor end before one, and what they are replaced
by is a word with a character that is not plain, between two that are no word characters. -/
structure Replacer (next : Place → Option Place) (sub : List Char) : Prop where
  progress : ∀ p q, next p = some q →
    ∃ m, m ≠ [] ∧ p.rest = m ++ q.rest ∧ q.prev = m.getLast?
  inside : ∀ c rest, isPlain c = true → next ⟨some c, rest⟩ = none
  stops : ∀ p q, next p = some q → ∀ c ∈ q.rest.head?, isPlain c = false
  mark : ∃ a w b, sub = a :: (w ++ [b]) ∧ isWord a = false ∧ isWord b = false ∧
    (∀ c ∈ w, isWord c = true) ∧ ∃ c ∈ w, isPlain c = false
  plain : ∀ c, isPlain c = true → isWord c = true

variable {isWord isPlain} {next : Place → Option Place} {sub : List Char}

theorem last_cons (c : Char) (u : List Char) (prev : Option Char) :
    (c :: u).getLast?.or prev = u.getLast?.or (some c) := by
  cases u with
  | nil => rfl
  | cons d u => rfl

/-- Behind a match, what stands before the match is forgotten. -/
theorem last_behind {m : List Char} {prev' : Option Char} (hm : m ≠ []) (h : prev' = m.getLast?)
    (u : List Char) (prev : Option Char) : (m ++ u).getLast?.or prev = u.getLast?.or prev' := by
  rw [List.getLast?_append, Option.or_assoc, h, List.getLast?_eq_some_getLast hm, Option.some_or]

theorem clearBefore_append {prev : Option Char} {u w : List Char} :
    ClearBefore isWord prev (u ++ w) ↔ ClearBefore isWord (u.getLast?.or prev) w := by
  unfold ClearBefore
  rw [List.getLast?_append, Option.or_assoc]

/-- A run of plain characters that stands in a replaced text stands behind the mark. -/
theorem run_behind_mark (h : Replacer isWord isPlain next sub) {r x u v : List Char}
    {prev : Option Char} (hr : ∀ c ∈ r, isPlain c = true) (hne : r ≠ [])
    (heq : sub ++ x = u ++ r ++ v) (hu : ClearBefore isWord prev u) (hv : ClearBehind isWord v) :
    ∃ u', u = sub ++ u' ∧ x = u' ++ r ++ v := by
  obtain ⟨a, w, b, rfl, ha, hb, hw, c, hc, hplain⟩ := h.mark
  have hword : ∀ d ∈ r, isWord d = true := fun d hd => h.plain d (hr d hd)
  obtain ⟨d, r', rfl⟩ := List.exists_cons_of_ne_nil hne
  rw [List.append_assoc] at heq
  rcases List.append_eq_append_iff.mp heq with ⟨u', hu', hx⟩ | ⟨t, hsub, ht⟩
  · exact ⟨u', hu', by rw [hx, List.append_assoc]⟩
  · cases t with
    | nil =>
        rw [List.append_nil] at hsub
        exact ⟨[], by rw [hsub, List.append_nil], by rw [← List.nil_append x, ← ht]; rfl⟩
    | cons e t =>
        -- the run would begin inside the mark
        exfalso
        obtain ⟨rfl, htail⟩ := List.cons.inj ht
        replace htail : r' ++ v = t ++ x := htail
        have hd := hword d (List.mem_cons_self ..)
        cases u with
        | nil =>
            rw [(List.cons.inj hsub).1, hd] at ha
            cases ha
        | cons a' u =>
            rw [List.cons_append] at hsub
            obtain ⟨rfl, hinner⟩ := List.cons.inj hsub
            have hu' : ∀ o ∈ u.getLast?, isWord o = false := by
              intro o ho
              refine hu o ?_
              rw [show a :: u = [a] ++ u from rfl, List.getLast?_append, ho]
              rfl
            rcases List.append_eq_append_iff.mp hinner with ⟨s, hs, hs'⟩ | ⟨s, hs, hs'⟩
            · -- it would begin at the closing bracket
              cases s with
              | nil =>
                  rw [(List.cons.inj hs').1, hd] at hb
                  cases hb
              | cons o s =>
                  have hlength := congrArg List.length hs'
                  simp at hlength
            · cases s with
              | nil =>
                  rw [← (List.cons.inj hs').1, hd] at hb
                  cases hb
              | cons o s =>
                  cases hlast : u.getLast? with
                  | some z =>
                      have hz := hw z (by
                        rw [hs]
                        exact List.mem_append_left _ (List.mem_of_getLast? hlast))
                      rw [hu' z hlast] at hz
                      cases hz
                  | none =>
                      -- it would begin with the word, which is not plain
                      rw [List.getLast?_eq_none_iff.mp hlast, List.nil_append] at hs
                      rw [List.cons_append] at hs'
                      obtain ⟨rfl, rfl⟩ := List.cons.inj hs'
                      rw [List.append_assoc] at htail
                      rcases List.append_eq_append_iff.mp htail with ⟨y, hy, hy'⟩ | ⟨y, hy, hy'⟩
                      · cases y with
                        | nil =>
                            rw [List.append_nil] at hy
                            rw [hs, hy] at hc
                            rw [hr c hc] at hplain
                            cases hplain
                        | cons z y =>
                            have hz := hw z (by rw [hs, hy]; simp)
                            rw [hv z (by rw [hy']; rfl)] at hz
                            cases hz
                      · rw [hs] at hc
                        have hmem : c ∈ d :: r' := by
                          rw [hy]
                          rcases List.mem_cons.mp hc with rfl | hc
                          · exact List.mem_cons_self ..
                          · exact .tail _ (List.mem_append_left _ hc)
                        rw [hr c hmem] at hplain
                        cases hplain

/-- Behind a plain character the text goes on as it is, as long as plain characters come out. -/
theorem plain_copied (h : Replacer isWord isPlain next sub) {r : List Char} {c : Char}
    (hc : isPlain c = true) (hr : ∀ d ∈ r, isPlain d = true) (fuel : Nat) (rest v : List Char)
    (hfuel : rest.length < fuel)
    (heq : replaceLoop next sub fuel ⟨some c, rest⟩ = r ++ v) (hv : ClearBehind isWord v) :
    ∃ v', rest = r ++ v' ∧ ClearBehind isWord v' := by
  induction r generalizing c fuel rest with
  | nil =>
      refine ⟨rest, rfl, ?_⟩
      obtain ⟨n, rfl⟩ := Nat.exists_eq_succ_of_ne_zero (by omega : fuel ≠ 0)
      cases rest with
      | nil => exact fun d hd => by cases hd
      | cons d rest =>
          rw [replaceLoop_cons (h.inside c _ hc), List.nil_append] at heq
          intro e he
          cases he
          exact hv d (by rw [← heq]; rfl)
  | cons d r ih =>
      obtain ⟨n, rfl⟩ := Nat.exists_eq_succ_of_ne_zero (by omega : fuel ≠ 0)
      obtain ⟨hd, hr'⟩ := List.forall_mem_cons.mp hr
      cases rest with
      | nil =>
          rw [replaceLoop_nil (h.inside c _ hc)] at heq
          cases heq
      | cons e rest =>
          rw [replaceLoop_cons (h.inside c _ hc)] at heq
          obtain ⟨rfl, htail⟩ := List.cons.inj heq
          rw [List.length_cons] at hfuel
          obtain ⟨v', hrest, hclear⟩ := ih hd hr' n rest (by omega) htail
          exact ⟨v', by rw [hrest]; rfl, hclear⟩

/-- A run that comes out was there, and no match began at it. -/
theorem run_was_there (h : Replacer isWord isPlain next sub) {r : List Char}
    (hr : ∀ c ∈ r, isPlain c = true) (hne : r ≠ []) (fuel : Nat) (p : Place) (u v : List Char)
    (hfuel : p.rest.length < fuel) (heq : replaceLoop next sub fuel p = u ++ r ++ v)
    (hu : ClearBefore isWord p.prev u) (hv : ClearBehind isWord v) :
    ∃ u' v', p.rest = u' ++ r ++ v' ∧ ClearBefore isWord p.prev u' ∧ ClearBehind isWord v' ∧
      next ⟨u'.getLast?.or p.prev, r ++ v'⟩ = none := by
  induction fuel generalizing p u with
  | zero => omega
  | succ fuel ih =>
      cases hnext : next p with
      | some q =>
          obtain ⟨m, hm, hrest, hprev⟩ := h.progress p q hnext
          rw [replaceLoop_some hnext] at heq
          obtain ⟨u', rfl, heq'⟩ := run_behind_mark h hr hne heq hu hv
          have hlength : q.rest.length < fuel := by
            have hpos := List.length_pos_iff.mpr hm
            rw [hrest, List.length_append] at hfuel
            omega
          have hu' : u' ≠ [] := by
            -- what follows the match does not begin with a plain character
            rintro rfl
            obtain ⟨d, r', rfl⟩ := List.exists_cons_of_ne_nil hne
            have hd := hr d (List.mem_cons_self ..)
            obtain ⟨n, rfl⟩ := Nat.exists_eq_succ_of_ne_zero (by omega : fuel ≠ 0)
            cases hq : next q with
            | some o =>
                obtain ⟨a, w, b, rfl, ha, -⟩ := h.mark
                rw [replaceLoop_some hq] at heq'
                have hhead : a = d := (List.cons.inj heq').1
                rw [hhead, h.plain d hd] at ha
                cases ha
            | none =>
                obtain ⟨prev, rest⟩ := q
                cases rest with
                | nil =>
                    rw [replaceLoop_nil hq] at heq'
                    cases heq'
                | cons e rest =>
                    rw [replaceLoop_cons hq] at heq'
                    have hhead : e = d := (List.cons.inj heq').1
                    have hstop := h.stops p _ hnext e rfl
                    rw [hhead, hd] at hstop
                    cases hstop
          have hclear : ClearBefore isWord q.prev u' := by
            intro c hc
            refine hu c ?_
            rw [List.getLast?_append]
            cases hlast : u'.getLast? with
            | none => exact absurd (List.getLast?_eq_none_iff.mp hlast) hu'
            | some e =>
                rw [hlast] at hc
                exact hc
          obtain ⟨u₂, v', hrest', hbefore, hbehind, hnone⟩ := ih q u' hlength heq' hclear
          have hplace := last_behind hm hprev u₂ p.prev
          refine ⟨m ++ u₂, v', ?_, ?_, hbehind, ?_⟩
          · rw [hrest, hrest', List.append_assoc, List.append_assoc, List.append_assoc]
          · intro c hc
            rw [hplace] at hc
            exact hbefore c hc
          · rw [hplace]
            exact hnone
      | none =>
          obtain ⟨prev, rest⟩ := p
          cases rest with
          | nil =>
              rw [replaceLoop_nil hnext] at heq
              have hlength := congrArg List.length heq
              have hpos := List.length_pos_iff.mpr hne
              rw [List.length_append, List.length_append, List.length_nil] at hlength
              omega
          | cons c rest =>
              rw [replaceLoop_cons hnext] at heq
              simp only [List.length_cons] at hfuel
              cases u with
              | nil =>
                  obtain ⟨d, r', rfl⟩ := List.exists_cons_of_ne_nil hne
                  obtain ⟨rfl, htail⟩ := List.cons.inj heq
                  obtain ⟨hc, hr'⟩ := List.forall_mem_cons.mp hr
                  obtain ⟨v', hrest, hclear⟩ :=
                    plain_copied h hc hr' fuel rest v (by omega) htail hv
                  subst hrest
                  exact ⟨[], v', rfl, hu, hclear, hnext⟩
              | cons d u =>
                  obtain ⟨rfl, htail⟩ := List.cons.inj heq
                  have hstep : ClearBefore isWord (some c) u :=
                    clearBefore_append (u := [c]).mp hu
                  obtain ⟨u', v', hrest, hbefore, hbehind, hnone⟩ :=
                    ih ⟨some c, rest⟩ u (by simpa using by omega) htail hstep
                  refine ⟨c :: u', v', ?_, clearBefore_append (u := [c]).mpr hbefore, hbehind, ?_⟩
                  · rw [show rest = u' ++ r ++ v' from hrest]
                    rfl
                  · rw [last_cons]
                    exact hnone

/-- Plain characters behind a plain character are copied. -/
theorem plain_kept (h : Replacer isWord isPlain next sub) {r : List Char} {c : Char}
    (hc : isPlain c = true) (hr : ∀ d ∈ r, isPlain d = true) (fuel : Nat) (v : List Char)
    (hfuel : (r ++ v).length < fuel) (hv : ClearBehind isWord v) :
    ∃ v', replaceLoop next sub fuel ⟨some c, r ++ v⟩ = r ++ v' ∧ ClearBehind isWord v' := by
  induction r generalizing c fuel with
  | nil =>
      obtain ⟨n, rfl⟩ := Nat.exists_eq_succ_of_ne_zero (by omega : fuel ≠ 0)
      cases v with
      | nil => exact ⟨[], replaceLoop_nil (h.inside c _ hc), hv⟩
      | cons d v =>
          refine ⟨_, replaceLoop_cons (h.inside c _ hc), ?_⟩
          intro e he
          cases he
          exact hv d rfl
  | cons d r ih =>
      obtain ⟨n, rfl⟩ := Nat.exists_eq_succ_of_ne_zero (by omega : fuel ≠ 0)
      obtain ⟨hd, hr'⟩ := List.forall_mem_cons.mp hr
      rw [List.cons_append, List.length_cons] at hfuel
      obtain ⟨v', heq, hclear⟩ := ih hd hr' n (by omega)
      refine ⟨v', ?_, hclear⟩
      rw [List.cons_append, replaceLoop_cons (h.inside c _ hc), heq]
      rfl

/-- A run that no match reaches stays. -/
theorem run_kept (h : Replacer isWord isPlain next sub) {r : List Char}
    (hr : ∀ c ∈ r, isPlain c = true) (hne : r ≠ [])
    (hskip : ∀ prev u v q, ClearBefore isWord prev u → ClearBehind isWord v →
      next ⟨prev, u ++ r ++ v⟩ = some q → (r ++ v).length ≤ q.rest.length)
    (fuel : Nat) (prev : Option Char) (u v : List Char)
    (hfuel : (u ++ r ++ v).length < fuel) (hu : ClearBefore isWord prev u)
    (hv : ClearBehind isWord v) :
    ∃ u' v', replaceLoop next sub fuel ⟨prev, u ++ r ++ v⟩ = u' ++ r ++ v' ∧
      ClearBefore isWord prev u' ∧ ClearBehind isWord v' := by
  induction fuel generalizing prev u with
  | zero => omega
  | succ fuel ih =>
      cases hnext : next ⟨prev, u ++ r ++ v⟩ with
      | some q =>
          obtain ⟨m, hm, hrest, hprev⟩ := h.progress _ q hnext
          have hreach := hskip prev u v q hu hv hnext
          replace hrest : u ++ (r ++ v) = m ++ q.rest := by rw [← List.append_assoc]; exact hrest
          have hmatch : ∃ u', u = m ++ u' ∧ q.rest = u' ++ (r ++ v) := by
            rcases List.append_eq_append_iff.mp hrest with ⟨x, hx, hx'⟩ | ⟨x, hx, hx'⟩
            · rw [hx', List.length_append] at hreach
              have hnil : x = [] := List.length_eq_zero_iff.mp (by omega)
              subst hnil
              exact ⟨[], by rw [hx, List.append_nil, List.append_nil], hx'.symm⟩
            · exact ⟨x, hx, hx'⟩
          obtain ⟨u', rfl, hq⟩ := hmatch
          have hplace := last_behind hm hprev u' prev
          have hclear : ClearBefore isWord q.prev u' := by
            intro c hc
            rw [← hplace] at hc
            exact hu c hc
          have hpos := List.length_pos_iff.mpr hm
          obtain ⟨u₂, v', heq, hbefore, hbehind⟩ := ih q.prev u'
            (by simp only [List.length_append] at hfuel ⊢; omega) hclear
          rw [replaceLoop_some hnext]
          obtain ⟨qprev, qrest⟩ := q
          simp only at hq heq
          rw [hq, ← List.append_assoc, heq]
          refine ⟨sub ++ u₂, v', by simp only [List.append_assoc], ?_, hbehind⟩
          obtain ⟨a, w, b, rfl, -, hb, -⟩ := h.mark
          intro c hc
          rw [List.getLast?_append] at hc
          cases hlast : u₂.getLast? with
          | some e =>
              rw [hlast] at hc
              refine hbefore c ?_
              rw [hlast]
              exact hc
          | none =>
              rw [hlast] at hc
              have hc' : c ∈ (a :: (w ++ [b])).getLast?.or prev := hc
              rw [← List.cons_append, List.getLast?_append] at hc'
              cases hc'
              exact hb
      | none =>
          cases u with
          | nil =>
              obtain ⟨c, r', rfl⟩ := List.exists_cons_of_ne_nil hne
              obtain ⟨hc, hr'⟩ := List.forall_mem_cons.mp hr
              simp only [List.nil_append, List.cons_append, List.length_cons] at hfuel
              obtain ⟨v', heq, hclear⟩ := plain_kept h hc hr' fuel v (by omega) hv
              refine ⟨[], v', ?_, hu, hclear⟩
              rw [List.nil_append, List.cons_append] at hnext ⊢
              rw [replaceLoop_cons hnext, heq]
              rfl
          | cons c u =>
              have hstep : ClearBefore isWord (some c) u := clearBefore_append (u := [c]).mp hu
              simp only [List.cons_append, List.length_cons] at hfuel
              obtain ⟨u', v', heq, hbefore, hbehind⟩ := ih (some c) u (by omega) hstep
              refine ⟨c :: u', v', ?_, clearBefore_append (u := [c]).mpr hbefore, hbehind⟩
              rw [List.cons_append, List.cons_append] at hnext ⊢
              rw [replaceLoop_cons hnext, heq]
              rfl

end Runs

section Ends

/-- Every match is a text before the place where it ends. -/
def Progress (next : Place → Option Place) : Prop := ∀ p q, next p = some q →
  ∃ m, m ≠ [] ∧ p.rest = m ++ q.rest ∧ q.prev = m.getLast?

variable {next : Place → Option Place} {sub : List Char}

theorem replaceLoop_ne_nil (hne : sub ≠ []) (fuel : Nat) {p : Place} (hp : p.rest ≠ []) :
    replaceLoop next sub fuel p ≠ [] := by
  cases fuel with
  | zero => exact hp
  | succ fuel =>
      rw [replaceLoop]
      split
      · exact List.append_ne_nil_of_left_ne_nil hne _
      · split
        · rename_i hnil
          exact absurd hnil hp
        · exact List.cons_ne_nil _ _

/-- A replaced text begins as the text does or with the mark. -/
theorem head?_replaceLoop {T : Char → Prop} (hne : sub ≠ []) (hsub : ∀ c ∈ sub.head?, T c)
    (fuel : Nat) {p : Place} (hp : ∀ c ∈ p.rest.head?, T c) :
    ∀ c ∈ (replaceLoop next sub fuel p).head?, T c := by
  intro c hc
  cases fuel with
  | zero => exact hp c hc
  | succ fuel =>
      rw [replaceLoop] at hc
      split at hc
      · obtain ⟨d, w, rfl⟩ := List.exists_cons_of_ne_nil hne
        exact hsub c hc
      · split at hc
        · cases hc
        · rename_i d rest hrest
          rw [hrest] at hp
          exact hp c hc

/-- It also ends so. -/
theorem getLast?_replaceLoop {T : Char → Prop} (h : Progress next) (hne : sub ≠ [])
    (hsub : ∀ c ∈ sub.getLast?, T c) (fuel : Nat) (p : Place)
    (hp : ∀ c ∈ p.rest.getLast?, T c) : ∀ c ∈ (replaceLoop next sub fuel p).getLast?, T c := by
  induction fuel generalizing p with
  | zero => exact hp
  | succ fuel ih =>
      intro c hc
      cases hnext : next p with
      | some q =>
          obtain ⟨m, -, hrest, -⟩ := h p q hnext
          rw [replaceLoop_some hnext, List.getLast?_append] at hc
          have hq : ∀ d ∈ q.rest.getLast?, T d := by
            intro d hd
            refine hp d ?_
            rw [hrest, List.getLast?_append, hd]
            rfl
          cases hlast : (replaceLoop next sub fuel q).getLast? with
          | some d =>
              rw [hlast] at hc
              exact ih q hq c (hlast.trans hc)
          | none =>
              rw [hlast] at hc
              exact hsub c hc
      | none =>
          obtain ⟨prev, rest⟩ := p
          cases rest with
          | nil =>
              rw [replaceLoop_nil hnext] at hc
              cases hc
          | cons d rest =>
              rw [replaceLoop_cons hnext] at hc
              cases rest with
              | nil =>
                  have hcopy := ih ⟨some d, []⟩ (by simp)
                  rw [List.getLast?_cons] at hc
                  cases hlast : (replaceLoop next sub fuel ⟨some d, []⟩).getLast? with
                  | some e =>
                      rw [hlast] at hc
                      exact hcopy c (hlast.trans hc)
                  | none =>
                      rw [hlast] at hc
                      exact hp c hc
              | cons e rest =>
                  have hcopy := @replaceLoop_ne_nil next sub hne fuel
                    ⟨some d, e :: rest⟩ (List.cons_ne_nil _ _)
                  obtain ⟨f, t, ht⟩ := List.exists_cons_of_ne_nil hcopy
                  rw [ht, List.getLast?_cons_cons, ← ht] at hc
                  rw [List.getLast?_cons_cons] at hp
                  exact ih ⟨some d, e :: rest⟩ hp c hc

end Ends

end BlocTrust.Patterns
