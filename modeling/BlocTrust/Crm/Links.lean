import BlocTrust.Crm.System
import BlocTrust.ReadCommitted.Rely

/-!
What an update may do to its entity while others commit.
Committed logs evolve by versions: an entity whose version has not changed has not changed, nor
have its building links.  What a transaction has read of its entity therefore holds at its
version check, if it holds that the expected version was committed before.
-/
namespace BlocTrust.Crm

open ReadCommitted

/-- The organization of a building link of an entity, if there is such a link. -/
def link (db : Db) : Key → Id → Option Id
  | .vendor v, b => db.vendorBuilding v b
  | .contract c, b => db.contractBuilding c b
  | _, _ => none

/-- The entity that a row belongs to. -/
def owner : Key → Option Key
  | .building id => some (.building id)
  | .vendor id => some (.vendor id)
  | .contract id => some (.contract id)
  | .vendorBuilding v _ => some (.vendor v)
  | .contractBuilding c _ => some (.contract c)
  | _ => none

theorem owner_versioned {k : Key} (h : k.versioned = true) : owner k = some k := by
  cases k with
  | building id => rfl
  | vendor id => rfl
  | contract id => rfl
  | _ => cases h

/-- Committed logs evolve by versions. -/
def Evolves (b b' : Db) : Prop :=
  ∀ k, k.versioned = true → ∀ row, Log.row k b = some row → ∃ row', Log.row k b' = some row' ∧
    version k row ≤ version k row' ∧
      (version k row' = version k row → row' = row ∧ ∀ x, link b' k x = link b k x)

section Links

variable {db b b' w rows : Db} {k : Key} {org x y : Id}

theorem evolves_relied : Relied Evolves where
  refl _ k _ row hrow := ⟨row, hrow, Nat.le_refl _, fun _ => ⟨rfl, fun _ => rfl⟩⟩
  trans a b c h h' k hk row hrow := by
    obtain ⟨row', hrow', hle, hsame⟩ := h k hk row hrow
    obtain ⟨row'', hrow'', hle', hsame'⟩ := h' k hk row' hrow'
    refine ⟨row'', hrow'', Nat.le_trans hle hle', fun heq => ?_⟩
    obtain ⟨hrow₁, hlinks₁⟩ := hsame' (by omega)
    obtain ⟨hrow₂, hlinks₂⟩ := hsame (by omega)
    exact ⟨hrow₁.trans hrow₂, fun x => (hlinks₁ x).trans (hlinks₂ x)⟩

/-- Rows of others do not change the links of an entity. -/
theorem link_append (h : ∀ key ∈ rows.keys, owner key = some k → key = k) :
    link (rows ++ db) k x = link db k x := by
  cases k with
  | vendor v =>
      have hkey : Key.vendorBuilding v x ∉ rows.keys := fun hmem => by cases h _ hmem rfl
      simp only [link, Db.vendorBuilding, Log.row_append_of_not_mem _ hkey]
  | contract c =>
      have hkey : Key.contractBuilding c x ∉ rows.keys := fun hmem => by cases h _ hmem rfl
      simp only [link, Db.contractBuilding, Log.row_append_of_not_mem _ hkey]
  | _ => rfl

theorem link_over (h : link b' k x = link b k x) : link (w ++ b') k x = link (w ++ b) k x := by
  cases k with
  | vendor v =>
      simp only [link, Db.vendorBuilding, Log.row_append] at h ⊢
      cases Log.row (Key.vendorBuilding v x) w with
      | none => exact h
      | some o => rfl
  | contract c =>
      simp only [link, Db.contractBuilding, Log.row_append] at h ⊢
      cases Log.row (Key.contractBuilding c x) w with
      | none => exact h
      | some o => rfl
  | _ => rfl

/-- What a read of the links finds. -/
theorem mem_buildingLinks {choice : Nat} {links : List Id}
    (h : answer choice db (.buildingLinks k org) = some links) :
    x ∈ links ↔ link db k x = some org := by
  have hperm : links.Perm (buildingLinks db org k) :=
    List.mem_permutations.mp (List.mem_of_getElem? h)
  rw [hperm.mem_iff]
  cases k with
  | vendor v =>
      simp only [buildingLinks, List.mem_map, List.mem_filter, decide_eq_true_eq, Prod.exists,
        Db.mem_vendorBuildings, link, Db.vendorBuilding]
      constructor
      · rintro ⟨v', b, o, ⟨hrow, rfl, rfl⟩, rfl⟩
        rw [hrow]
        rfl
      · intro hlink
        exact ⟨v, x, some org, ⟨Option.join_eq_some_iff.mp hlink, rfl, rfl⟩, rfl⟩
  | contract c =>
      simp only [buildingLinks, List.mem_map, List.mem_filter, decide_eq_true_eq, Prod.exists,
        Db.mem_contractBuildings, link, Db.contractBuilding]
      constructor
      · rintro ⟨c', b, o, ⟨hrow, rfl, rfl⟩, rfl⟩
        rw [hrow]
        rfl
      · intro hlink
        exact ⟨c, x, some org, ⟨Option.join_eq_some_iff.mp hlink, rfl, rfl⟩, rfl⟩
  | _ => simp [buildingLinks, link]

/-- The links of an entity without one of the organization. -/
def dropLink (org x : Id) (links : Id → Option Id) : Id → Option Id :=
  fun y => if y = x ∧ links y = some org then none else links y

def addLink (org x : Id) (links : Id → Option Id) : Id → Option Id :=
  fun y => if y = x then some org else links y

/-- A statement on a link writes that link only. -/
structure WritesLink (k : Key) (rows : Db) : Prop where
  owned : ∀ key ∈ rows.keys, owner key = some k
  row : k ∉ rows.keys

theorem deleteLink_ok {n : Nat} (h : deleteLink db org x k = .ok (n, rows)) :
    WritesLink k rows ∧ ∀ y, link (rows ++ db) k y = dropLink org x (link db k) y := by
  have hnothing : (∀ y, y = x → link db k y ≠ some org) →
      WritesLink k [] ∧ ∀ y, link ([] ++ db) k y = dropLink org x (link db k) y := by
    refine fun hnone => ⟨⟨by simp, by simp⟩, fun y => ?_⟩
    rw [dropLink, if_neg fun hy => hnone y hy.1 hy.2]
    rfl
  cases k with
  | vendor v =>
      simp only [deleteLink] at h
      split at h
      · rename_i hpresent
        split at h
        · cases h
        · cases h
          refine ⟨⟨by simp [List.keys, owner], by simp [List.keys]⟩, fun y => ?_⟩
          by_cases hy : y = x
          · subst hy
            rw [dropLink, if_pos ⟨rfl, hpresent⟩]
            simp [link, Db.vendorBuilding]
          · rw [dropLink, if_neg fun h => hy h.1]
            simp only [link, Db.vendorBuilding, List.singleton_append]
            rw [Log.row_cons_ne _ _ (by simpa using hy)]
      · rename_i habsent
        cases h
        exact hnothing fun y hy => by rw [hy]; exact habsent
  | contract c =>
      simp only [deleteLink] at h
      split at h
      · rename_i hpresent
        cases h
        refine ⟨⟨by simp [List.keys, owner], by simp [List.keys]⟩, fun y => ?_⟩
        by_cases hy : y = x
        · subst hy
          rw [dropLink, if_pos ⟨rfl, hpresent⟩]
          simp [link, Db.contractBuilding]
        · rw [dropLink, if_neg fun h => hy h.1]
          simp only [link, Db.contractBuilding, List.singleton_append]
          rw [Log.row_cons_ne _ _ (by simpa using hy)]
      · rename_i habsent
        cases h
        exact hnothing fun y hy => by rw [hy]; exact habsent
  | _ =>
      cases h
      exact hnothing fun y _ => by simp [link]

theorem insertLink_ok {u : Unit} (h : insertLink db org x k = .ok (u, rows)) :
    WritesLink k rows ∧ ∀ y, link (rows ++ db) k y = addLink org x (link db k) y := by
  cases k with
  | vendor v =>
      simp only [insertLink] at h
      split at h
      · cases h
      · split at h
        · cases h
          refine ⟨⟨by simp [List.keys, owner], by simp [List.keys]⟩, fun y => ?_⟩
          by_cases hy : y = x
          · subst hy
            simp [link, Db.vendorBuilding, addLink]
          · rw [addLink, if_neg hy]
            simp only [link, Db.vendorBuilding, List.singleton_append]
            rw [Log.row_cons_ne _ _ (by simpa using hy)]
        · cases h
  | contract c =>
      simp only [insertLink] at h
      split at h
      · cases h
      · split at h
        · cases h
        · split at h
          · cases h
            refine ⟨⟨by simp [List.keys, owner], by simp [List.keys]⟩, fun y => ?_⟩
            by_cases hy : y = x
            · subst hy
              simp [link, Db.contractBuilding, addLink]
            · rw [addLink, if_neg hy]
              simp only [link, Db.contractBuilding, List.singleton_append]
              rw [Log.row_cons_ne _ _ (by simpa using hy)]
          · cases h
  | _ => cases h

/-- An update on the expected version writes its row and takes entries of unique indexes. -/
theorem updateRow_ok {org expected : Nat} {c : Change k}
    (h : updateRow db k org expected c = .ok (1, rows)) : ∃ old entries,
      Log.row k db = some old ∧ version k old = expected ∧
        rows = ⟨k, apply k c old⟩ :: entries ∧ ∀ key ∈ entries.keys, owner key = none := by
  unfold updateRow at h
  split at h
  · cases h
  · rename_i old hrow
    split at h
    · rename_i happlies
      cases hentries : admitUpdate db k c old (apply k c old) with
      | error e =>
          rw [hentries] at h
          cases h
      | ok entries =>
          rw [hentries] at h
          cases h
          refine ⟨old, entries, hrow, happlies.2, rfl, ?_⟩
          cases k with
          | building id =>
              simp only [admitUpdate] at hentries
              split at hentries
              · cases hentries
              · split at hentries
                · cases hentries
                  simp
                · split at hentries
                  · cases hentries
                  · cases hentries
                    simp [List.keys, owner]
          | vendor id =>
              simp only [admitUpdate] at hentries
              split at hentries
              · cases hentries
              · cases hentries
                simp
          | contract id =>
              simp only [admitUpdate] at hentries
              split at hentries
              · cases hentries
              · split at hentries
                · cases hentries
                · split at hentries
                  · cases hentries
                  · split at hentries
                    · cases hentries
                      simp
                    · split at hentries
                      · cases hentries
                      · cases hentries
                        simp [List.keys, owner]
          | _ => exact c.elim
    · cases h

end Links
end BlocTrust.Crm
