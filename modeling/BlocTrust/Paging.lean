import Mathlib.Init

/-!
Reading a table page by page.
A listing has rows with identifiers, an order, a scope and a filter.  A page is read with one
row more than its limit, and the next one begins behind the last row that was kept.  The pages
are the rows of the scope that pass the filter, in their order, cut into pieces of the limit.
-/
namespace BlocTrust.Paging

/-- Rows can be compared: the order is total and transitive. -/
structure RowOrder {α : Type} (order : α → α → Ordering) : Prop where
  swap : ∀ a b, order b a = (order a b).swap
  trans : ∀ a b c, order a b ≠ .gt → order b c ≠ .gt → order a c ≠ .gt

section Orders

variable {α β : Type} {order order' : α → α → Ordering}

theorem rowOrder_compare : RowOrder (fun a b : Nat => compare a b) where
  swap a b := (Nat.compare_swap a b).symm
  trans a b c hab hbc := by
    rw [Nat.compare_ne_gt] at *
    omega

theorem RowOrder.comap (h : RowOrder order) (f : β → α) :
    RowOrder fun a b => order (f a) (f b) :=
  ⟨fun a b => h.swap (f a) (f b), fun a b c => h.trans (f a) (f b) (f c)⟩

theorem RowOrder.reverse (h : RowOrder order) : RowOrder fun a b => order b a :=
  ⟨fun a b => h.swap b a, fun a b c hab hbc => h.trans c b a hbc hab⟩

theorem RowOrder.eq_of_le (h : RowOrder order) {a b : α} (hab : order a b ≠ .gt)
    (hba : order b a ≠ .gt) : order a b = .eq := by
  rw [h.swap a b] at hba
  cases hcompare : order a b with
  | lt => simp [hcompare] at hba
  | eq => rfl
  | gt => exact absurd hcompare hab

/-- Rows that one column does not tell apart are compared by the next. -/
theorem RowOrder.then (h : RowOrder order) (h' : RowOrder order') :
    RowOrder fun a b => (order a b).then (order' a b) := by
  constructor
  · intro a b
    rw [h.swap a b, h'.swap a b]
    cases order a b <;> rfl
  · intro a b c hab hbc
    have hle : ∀ {x y}, (order x y).then (order' x y) ≠ .gt → order x y ≠ .gt := by
      intro x y hxy hgt
      rw [hgt] at hxy
      exact hxy rfl
    have hac := h.trans a b c (hle hab) (hle hbc)
    cases hcompare : order a c with
    | lt => exact fun hlt => by cases hlt
    | gt => exact absurd hcompare hac
    | eq =>
        -- all three are equal in the first column
        have hca : order c a ≠ .gt := by
          rw [h.swap a c, hcompare]
          decide
        have hab' := h.eq_of_le (hle hab) (h.trans b c a (hle hbc) hca)
        have hbc' := h.eq_of_le (hle hbc) (h.trans c a b hca (hle hab))
        rw [hab'] at hab
        rw [hbc'] at hbc
        exact h'.trans a b c hab hbc

end Orders

section Listings

structure Page (α ι : Type) where
  data : List α
  nextCursor : Option ι
  deriving DecidableEq, Repr

structure Listing (α ι : Type) where
  rows : List α
  id : α → ι
  order : α → α → Ordering
  scope : α → Bool
  filter : α → Bool

variable {α ι : Type} [DecidableEq ι]

namespace Listing

variable (L : Listing α ι)

/-- The rows of the scope that pass the filter, in their order. -/
def matching : List α :=
  (L.rows.filter fun r => L.scope r && L.filter r).mergeSort fun a b => L.order a b != .gt

def findRow (c : ι) : Option α := L.rows.find? fun r => L.id r = c

/-- At most `take` of the matching rows; with a cursor those strictly behind its row. -/
def findMany (take : Nat) : Option ι → List α
  | none => L.matching.take take
  | some c =>
      match L.findRow c with
      | none => []
      | some row => (L.matching.filter fun r => L.order row r == .lt).take take

/-- The page that is cut from `limit + 1` rows. -/
def page (rows : List α) (limit : Nat) : Page α ι :=
  if limit < rows.length then
    { data := rows.take limit, nextCursor := (rows.take limit).getLast?.map L.id }
  else { data := rows, nextCursor := none }

/-- `none` when the cursor names no row of the scope. -/
def list (limit : Nat) (cursor : Option ι) : Option (Page α ι) :=
  if cursor.all fun c => (L.rows.find? fun r => decide (L.id r = c) && L.scope r).isSome then
    some (L.page (L.findMany (limit + 1) cursor) limit)
  else none

/-- The identifiers are unique, and the order tells rows of different identifiers apart. -/
structure Lawful : Prop where
  nodup : (L.rows.map L.id).Nodup
  order : RowOrder L.order
  separates : ∀ a b, L.order a b = .eq → L.id a = L.id b

end Listing

/-- The pages that calls return, each with the cursor of the one before, until there is none;
`none` when a call fails or `fuel` calls are not enough. -/
def traverse (call : Nat → Option ι → Option (Page α ι)) : Nat → Nat → Option ι →
    Option (List (Page α ι))
  | 0, _, _ => none
  | fuel + 1, n, cursor =>
      (call n cursor).bind fun p =>
        match p.nextCursor with
        | none => some [p]
        | some c => (traverse call fuel (n + 1) (some c)).map (p :: ·)

end Listings

section Traversal

variable {α ι : Type} {L : Listing α ι}

theorem matching_perm : L.matching.Perm (L.rows.filter fun r => L.scope r && L.filter r) :=
  List.mergeSort_perm _ _

theorem mem_matching {r : α} (h : r ∈ L.matching) : r ∈ L.rows ∧ L.scope r = true := by
  have hmem := List.mem_filter.mp (matching_perm.subset h)
  simp only [Bool.and_eq_true] at hmem
  exact ⟨hmem.1, hmem.2.1⟩

/-- The matching rows stand in their order, no two of them alike. -/
theorem matching_sorted (h : L.Lawful) : L.matching.Pairwise fun a b => L.order a b = .lt := by
  have hle : L.matching.Pairwise fun a b => (L.order a b != .gt) = true := by
    refine List.pairwise_mergeSort ?_ ?_ _
    · intro a b c hab hbc
      simp only [bne_iff_ne] at *
      exact h.order.trans a b c hab hbc
    · intro a b
      rw [h.order.swap a b]
      cases L.order a b <;> rfl
  have hdistinct : L.matching.Pairwise fun a b => L.id a ≠ L.id b := by
    have hrows : (L.rows.filter fun r => L.scope r && L.filter r).Pairwise
        fun a b => L.id a ≠ L.id b :=
      (List.pairwise_map.mp h.nodup).sublist List.filter_sublist
    exact (matching_perm.pairwise_iff fun hab => hab.symm).mpr hrows
  refine hle.imp₂ ?_ hdistinct
  intro a b hab hid
  simp only [bne_iff_ne] at hab
  cases hcompare : L.order a b with
  | lt => rfl
  | eq => exact absurd (h.separates a b hcompare) hid
  | gt => exact absurd hcompare hab

/-- Behind the last row of a first part stands the rest. -/
theorem filter_after (h : L.Lawful) {pre post : List α} {r : α}
    (hsplit : L.matching = pre ++ r :: post) :
    L.matching.filter (fun x => L.order r x == .lt) = post := by
  have hsorted := matching_sorted h
  rw [hsplit] at hsorted ⊢
  obtain ⟨-, hrest, hcross⟩ := List.pairwise_append.mp hsorted
  obtain ⟨hpost, -⟩ := List.pairwise_cons.mp hrest
  have hself : L.order r r ≠ .lt := by
    intro hlt
    have hswap := h.order.swap r r
    rw [hlt] at hswap
    cases hswap
  have hbefore : pre.filter (fun x => L.order r x == .lt) = [] := by
    refine List.filter_eq_nil_iff.mpr fun x hx => ?_
    rw [h.order.swap x r, hcross x hx r (List.mem_cons_self ..)]
    decide
  have hbehind : post.filter (fun x => L.order r x == .lt) = post :=
    List.filter_eq_self.mpr fun x hx => by simpa using hpost x hx
  rw [List.filter_append, hbefore, List.filter_cons_of_neg (by simpa using hself), hbehind,
    List.nil_append]

/-- A page is the rest, or exactly `limit` rows of it and the last of them as the cursor. -/
theorem page_cases {post : List α} {limit : Nat} (hlimit : 0 < limit) :
    (post.length ≤ limit ∧ L.page (post.take (limit + 1)) limit = ⟨post, none⟩) ∨
    (limit < post.length ∧ ∃ r, (post.take limit).getLast? = some r ∧
      L.page (post.take (limit + 1)) limit = ⟨post.take limit, some (L.id r)⟩) := by
  by_cases hmore : limit < post.length
  · right
    have hne : post.take limit ≠ [] := by
      intro hnil
      have hlength := congrArg List.length hnil
      rw [List.length_take, List.length_nil] at hlength
      omega
    have hlast := List.getLast?_eq_some_getLast hne
    refine ⟨hmore, _, hlast, ?_⟩
    unfold Listing.page
    rw [List.length_take, if_pos (by omega), List.take_take, show min limit (limit + 1) = limit by
      omega, hlast]
    rfl
  · left
    refine ⟨by omega, ?_⟩
    unfold Listing.page
    rw [List.take_of_length_le (by omega), if_neg hmore]

variable [DecidableEq ι]

theorem findRow_eq (h : L.Lawful) {r : α} (hr : r ∈ L.rows) : L.findRow (L.id r) = some r := by
  have hfind : ∀ rows : List α, (rows.map L.id).Nodup → r ∈ rows →
      rows.find? (fun x => decide (L.id x = L.id r)) = some r := by
    intro rows
    induction rows with
    | nil => exact fun _ hmem => absurd hmem List.not_mem_nil
    | cons x rows ih =>
        intro hnodup hmem
        obtain ⟨hnot, hnodup⟩ := List.nodup_cons.mp hnodup
        by_cases hx : L.id x = L.id r
        · rw [List.find?_cons_of_pos (by simpa using hx)]
          rcases List.mem_cons.mp hmem with rfl | hmem
          · rfl
          · exact absurd (hx ▸ List.mem_map_of_mem hmem) hnot
        · rw [List.find?_cons_of_neg (by simpa using hx)]
          rcases List.mem_cons.mp hmem with rfl | hmem
          · exact absurd rfl hx
          · exact ih hnodup hmem
  exact hfind L.rows h.nodup hr

/-- A call whose cursor is the last row of a first part returns the beginning of the rest. -/
theorem list_eq (h : L.Lawful) {pre post : List α} (hsplit : L.matching = pre ++ post)
    (limit : Nat) : L.list limit (pre.getLast?.map L.id) =
      some (L.page (post.take (limit + 1)) limit) := by
  rcases List.eq_nil_or_concat pre with rfl | ⟨pre, r, rfl⟩
  · show L.list limit none = _
    unfold Listing.list Listing.findMany
    rw [Option.all_none, if_pos rfl, hsplit, List.nil_append]
  · rw [List.concat_eq_append, List.append_assoc, List.singleton_append] at hsplit
    obtain ⟨hr, hscope⟩ := mem_matching (L := L) (r := r) (by simp [hsplit])
    have hfound : (L.rows.find? fun x => decide (L.id x = L.id r) && L.scope x).isSome = true := by
      rw [List.find?_isSome]
      exact ⟨r, hr, by simp [hscope]⟩
    have hrows : L.findMany (limit + 1) (some (L.id r)) = post.take (limit + 1) := by
      unfold Listing.findMany
      simp only [findRow_eq h hr, filter_after h hsplit]
    have hlast : (pre.concat r).getLast?.map L.id = some (L.id r) := by simp
    unfold Listing.list
    rw [hlast, Option.all_some, if_pos hfound, hrows]

/-- From any place on, the calls return what is left, in pages of the limit. -/
theorem traverse_from (h : L.Lawful) {limit : Nat} (hlimit : 0 < limit)
    {call : Nat → Option ι → Option (Page α ι)} (hcall : ∀ n c, call n c = L.list limit c)
    (fuel n : Nat) (pre post : List α) (hsplit : L.matching = pre ++ post)
    (hfuel : post.length < fuel) :
    ∃ pages, traverse call fuel n (pre.getLast?.map L.id) = some pages ∧
      pages.flatMap (·.data) = post ∧ ∀ p ∈ pages.dropLast, p.data.length = limit := by
  induction fuel generalizing n pre post with
  | zero => omega
  | succ fuel ih =>
      rw [traverse, hcall, list_eq h hsplit, Option.bind_some]
      rcases @page_cases α ι L post limit hlimit with ⟨-, hpage⟩ | ⟨hmore, r, hlast, hpage⟩
      · rw [hpage]
        exact ⟨_, rfl, by simp, by simp⟩
      · rw [hpage]
        have hsplit' : L.matching = (pre ++ post.take limit) ++ post.drop limit := by
          rw [List.append_assoc, List.take_append_drop, hsplit]
        have hcursor : (pre ++ post.take limit).getLast?.map L.id = some (L.id r) := by
          rw [List.getLast?_append, hlast]
          rfl
        obtain ⟨pages, hpages, hdata, hfull⟩ := ih (n + 1) _ _ hsplit'
          (by rw [List.length_drop]; omega)
        rw [hcursor] at hpages
        refine ⟨⟨post.take limit, some (L.id r)⟩ :: pages, ?_, ?_, ?_⟩
        · show (traverse call fuel (n + 1) (some (L.id r))).map _ = _
          rw [hpages]
          rfl
        · rw [List.flatMap_cons, hdata, List.take_append_drop]
        · intro p hp
          have hne : pages ≠ [] := by
            rintro rfl
            rw [List.flatMap_nil] at hdata
            have hlength := congrArg List.length hdata
            rw [List.length_nil, List.length_drop] at hlength
            omega
          rw [List.dropLast_cons_of_ne_nil hne] at hp
          rcases List.mem_cons.mp hp with rfl | hp
          · show (post.take limit).length = limit
            rw [List.length_take]
            omega
          · exact hfull p hp

/-- The calls come to an end without a failure, and return every matching row once, in order. -/
theorem traverse_spec (h : L.Lawful) {limit : Nat} (hlimit : 0 < limit)
    {call : Nat → Option ι → Option (Page α ι)} (hcall : ∀ n c, call n c = L.list limit c) :
    ∃ pages, traverse call (L.matching.length + 1) 0 none = some pages ∧
      pages.flatMap (·.data) = L.matching ∧ ∀ p ∈ pages.dropLast, p.data.length = limit :=
  traverse_from h hlimit hcall (L.matching.length + 1) 0 [] L.matching rfl (Nat.lt_succ_self _)

end Traversal

end BlocTrust.Paging
