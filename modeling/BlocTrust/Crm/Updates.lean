import BlocTrust.Crm.Links

/-!
What an update guarantees.
An update commits only on the version it expects, it raises that version by one, and it leaves
the row and the links as its request changes those that it found at that version.
-/
namespace BlocTrust.Crm

open ReadCommitted Prog

namespace Op

def auth : Op → AuthContext
  | updateBuilding auth _ _ _ | updateVendor auth _ _ _ | updateContract auth _ _ _ => auth

def entity : Op → Key
  | updateBuilding _ id _ _ => .building id
  | updateVendor _ id _ _ => .vendor id
  | updateContract _ id _ _ => .contract id

def expected : Op → Nat
  | updateBuilding _ _ version _ | updateVendor _ _ version _ | updateContract _ _ version _ => version

/-- The columns that the request assigns to its entity. -/
def edit (cfg : Config) : (op : Op) → Val op.entity → Except Failure (Change op.entity)
  | updateBuilding _ _ _ dto, _ => BuildingsService.buildingEdit dto
  | updateVendor _ _ _ dto, _ => VendorsService.vendorEdit cfg dto
  | updateContract _ _ _ dto, before => ContractsService.contractEdit dto before

/-- The buildings that the request asks for, if it does. -/
def requested : Op → Option (List Id)
  | updateBuilding _ _ _ _ => none
  | updateVendor _ _ _ dto => (givenList dto.buildingIds).map List.eraseDups
  | updateContract _ _ _ dto => (givenList dto.buildingIds).map List.eraseDups

/-- The links become the requested ones; the foreign keys exclude links of other organizations,
which would stay. -/
def relinked (op : Op) (links : Id → Option Id) : Id → Option Id :=
  match op.requested with
  | none => links
  | some buildings => fun x =>
      if x ∈ buildings then some op.auth.organizationId
      else if links x = some op.auth.organizationId then none else links x

theorem entity_versioned (op : Op) : op.entity.versioned = true := by
  cases op <;> rfl

end Op

/-- The effect of an update on its entity. -/
structure Effects (cfg : Config) (op : Op) (b b' : Db) : Prop where
  row : ∃ row c, Log.row op.entity b = some row ∧ version op.entity row = op.expected ∧
    op.edit cfg row = .ok c ∧ Log.row op.entity b' = some (apply op.entity c row)
  links : ∀ x, link b' op.entity x = op.relinked (link b op.entity) x
  others : ∀ k, k.versioned = true → k ≠ op.entity →
    Log.row k b' = Log.row k b ∧ ∀ x, link b' k x = link b k x

theorem Effects.evolves {cfg : Config} {op : Op} {b b' : Db} (h : Effects cfg op b b') :
    Evolves b b' := by
  intro k hk row hrow
  by_cases hentity : k = op.entity
  · subst hentity
    obtain ⟨row₀, c, hrow₀, -, -, hrow'⟩ := h.row
    have hsame : row₀ = row := Option.some.inj (hrow₀.symm.trans hrow)
    subst hsame
    refine ⟨_, hrow', by simp, fun heq => ?_⟩
    rw [version_apply] at heq
    omega
  · obtain ⟨hsame, hlinks⟩ := h.others k hk hentity
    exact ⟨row, hsame.trans hrow, Nat.le_refl _, fun _ => ⟨rfl, hlinks⟩⟩

/-- The expected version has been committed. -/
def Expected (op : Op) (b : Db) : Prop :=
  ∃ row, Log.row op.entity b = some row ∧ op.expected ≤ version op.entity row

/-- What is known of the entity should it still have the expected version. -/
def AtVersion (op : Op) (b : Db) (P : Prop) : Prop :=
  ∀ row, Log.row op.entity b = some row → version op.entity row = op.expected → P

section Knowledge

variable {cfg : Config} {op : Op} {b b' w rows : Db} {before : Val op.entity}
  {found links : Id → Option Id} {P : Prop}

theorem Expected.forth (h : Expected op b) (hb : Evolves b b') : Expected op b' := by
  obtain ⟨row, hrow, hle⟩ := h
  obtain ⟨row', hrow', hle', -⟩ := hb _ op.entity_versioned row hrow
  exact ⟨row', hrow', Nat.le_trans hle hle'⟩

/-- The entity has not changed if it still has the expected version. -/
theorem Expected.unchanged (h : Expected op b) (hb : Evolves b b') :
    AtVersion op b' (Log.row op.entity b = Log.row op.entity b' ∧
      (∀ row, Log.row op.entity b = some row → version op.entity row = op.expected) ∧
      ∀ x, link b' op.entity x = link b op.entity x) := by
  intro row' hrow' hversion
  obtain ⟨row, hrow, hle⟩ := h
  obtain ⟨row'', hrow'', hle', hsame⟩ := hb _ op.entity_versioned row hrow
  have heq : row'' = row' := Option.some.inj (hrow''.symm.trans hrow')
  subst heq
  obtain ⟨hrows, hlinks⟩ := hsame (by omega)
  subst hrows
  refine ⟨hrow.trans hrow'.symm, fun row₁ hrow₁ => ?_, hlinks⟩
  have heq : row₁ = row'' := Option.some.inj (hrow₁.symm.trans hrow)
  rw [heq]
  exact hversion

theorem AtVersion.forth (h : AtVersion op b P) (hexpected : Expected op b) (hb : Evolves b b') :
    AtVersion op b' P := by
  intro row' hrow' hversion
  obtain ⟨hrow, hsame, -⟩ := hexpected.unchanged hb row' hrow' hversion
  obtain ⟨row, hrow₀, -⟩ := hexpected
  exact h row hrow₀ (hsame row hrow₀)

/-- The open writes `w` of an update over the committed log `b`: the row and the links it has
found, and the links as it has made them. -/
structure Tracks (op : Op) (before : Val op.entity) (found links : Id → Option Id) (w b : Db) :
    Prop where
  expected : Expected op b
  focused : ∀ key ∈ w.keys, ∀ k, owner key = some k → k = op.entity
  known : AtVersion op b (Log.row op.entity b = some before ∧
    (∀ x, link b op.entity x = found x) ∧ ∀ x, link (w ++ b) op.entity x = links x)

theorem Tracks.start (hexpected : Expected op b) (hrow : Log.row op.entity b = some before) :
    Tracks op before (link b op.entity) (link b op.entity) [] b where
  expected := hexpected
  focused _ hkey := absurd hkey List.not_mem_nil
  known _ _ _ := ⟨hrow, fun _ => rfl, fun _ => rfl⟩

theorem Tracks.forth (h : Tracks op before found links w b) (hb : Onward Evolves w b b') :
    Tracks op before found links w b' where
  expected := h.expected.forth hb.rely
  focused := h.focused
  known := by
    intro row' hrow' hversion
    obtain ⟨hrow, -, hlinks⟩ := h.expected.unchanged hb.rely row' hrow' hversion
    obtain ⟨hbefore, hfound, hview⟩ := h.known.forth h.expected hb.rely row' hrow' hversion
    exact ⟨hrow.symm.trans hbefore, fun x => (hlinks x).trans (hfound x),
      fun x => (link_over (hlinks x)).trans (hview x)⟩

/-- A statement on a link changes that link only. -/
theorem Tracks.write (h : Tracks op before found links w b) (hrows : WritesLink op.entity rows)
    {f : (Id → Option Id) → Id → Option Id}
    (hf : ∀ x, link (rows ++ (w ++ b)) op.entity x = f (link (w ++ b) op.entity) x) :
    Tracks op before found (f links) (rows ++ w) b where
  expected := h.expected
  focused := by
    intro key hkey k hk
    rw [Log.keys_append] at hkey
    rcases List.mem_append.mp hkey with hkey | hkey
    · exact Option.some.inj (hk.symm.trans (hrows.owned key hkey))
    · exact h.focused key hkey k hk
  known := by
    intro row hrow hversion
    obtain ⟨hbefore, hfound, hview⟩ := h.known row hrow hversion
    refine ⟨hbefore, hfound, fun x => ?_⟩
    rw [List.append_assoc, hf x, funext hview]

/-- Rows that belong to no entity do not matter. -/
theorem Tracks.neutral (h : Tracks op before found links w b)
    (hrows : ∀ key ∈ rows.keys, owner key = none) : Tracks op before found links (rows ++ w) b where
  expected := h.expected
  focused := by
    intro key hkey k hk
    rw [Log.keys_append] at hkey
    rcases List.mem_append.mp hkey with hkey | hkey
    · rw [hrows key hkey] at hk
      cases hk
    · exact h.focused key hkey k hk
  known := by
    intro row hrow hversion
    obtain ⟨hbefore, hfound, hview⟩ := h.known row hrow hversion
    refine ⟨hbefore, hfound, fun x => ?_⟩
    rw [List.append_assoc, link_append]
    · exact hview x
    · intro key hkey hk
      rw [hrows key hkey] at hk
      cases hk

/-- The version check has succeeded. -/
structure Changed (cfg : Config) (op : Op) (before : Val op.entity) (found links : Id → Option Id)
    (w b : Db) : Prop extends Tracks op before found links w b where
  base : Log.row op.entity b = some before
  versions : version op.entity before = op.expected
  edited : ∃ c, op.edit cfg before = .ok c ∧
    Log.row op.entity w = some (apply op.entity c before)

theorem Changed.forth (h : Changed cfg op before found links w b) (hb : Onward Evolves w b b') :
    Changed cfg op before found links w b' where
  toTracks := h.toTracks.forth hb
  base := by
    obtain ⟨c, -, hrow⟩ := h.edited
    rw [← hb.held _ (Log.mem_keys_of_row hrow)]
    exact h.base
  versions := h.versions
  edited := h.edited

theorem Changed.write (h : Changed cfg op before found links w b)
    (hrows : WritesLink op.entity rows) {f : (Id → Option Id) → Id → Option Id}
    (hf : ∀ x, link (rows ++ (w ++ b)) op.entity x = f (link (w ++ b) op.entity) x) :
    Changed cfg op before found (f links) (rows ++ w) b where
  toTracks := h.toTracks.write hrows hf
  base := h.base
  versions := h.versions
  edited := by
    obtain ⟨c, hedit, hrow⟩ := h.edited
    exact ⟨c, hedit, (Log.row_append_of_not_mem _ hrows.row).trans hrow⟩

theorem Changed.neutral (h : Changed cfg op before found links w b)
    (hrows : ∀ key ∈ rows.keys, owner key = none) :
    Changed cfg op before found links (rows ++ w) b where
  toTracks := h.toTracks.neutral hrows
  base := h.base
  versions := h.versions
  edited := by
    obtain ⟨c, hedit, hrow⟩ := h.edited
    refine ⟨c, hedit, (Log.row_append_of_not_mem _ fun hmem => ?_).trans hrow⟩
    have hnone := hrows _ hmem
    rw [owner_versioned op.entity_versioned] at hnone
    cases hnone

/-- Committed, the changes are the effect of the update. -/
theorem Changed.effects (h : Changed cfg op before found links w b)
    (hlinks : ∀ x, links x = op.relinked found x) : Effects cfg op b (w ++ b) := by
  obtain ⟨-, hfound, hview⟩ := h.known before h.base h.versions
  obtain ⟨c, hedit, hrow⟩ := h.edited
  refine ⟨⟨before, c, h.base, h.versions, hedit, Log.row_append_of_row _ hrow⟩, fun x => ?_,
    fun k hk hne => ⟨Log.row_append_of_not_mem _ fun hmem => ?_, fun x => link_append
      fun key hkey howner => ?_⟩⟩
  · rw [hview, hlinks, funext hfound]
  · exact hne (h.focused k hmem k (owner_versioned hk))
  · exact absurd (h.focused key hkey k howner) hne

end Knowledge
end BlocTrust.Crm
