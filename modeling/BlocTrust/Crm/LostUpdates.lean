import BlocTrust.Crm.Guarantees

/-!
No lost updates.
The updates of an entity that have committed can be put in a row, by their expected versions, so
that one after another they turn the entity as it was at the start of a run into what it is.
-/
namespace BlocTrust.Crm

open ReadCommitted Prog

/-- An update takes an entity, at the version it expects, to its next version. -/
inductive Performs (cfg : Config) (op : Op) :
    (k : Key) → Val k → (Id → Option Id) → Val k → (Id → Option Id) → Prop
  | intro {row : Val op.entity} {links : Id → Option Id} {c : Change op.entity}
      (hversion : version op.entity row = op.expected) (hedit : op.edit cfg row = .ok c) :
      Performs cfg op op.entity row links (apply op.entity c row) (op.relinked links)

/-- Updates of an entity, one after another. -/
inductive Serial (cfg : Config) (k : Key) (row₀ : Val k) (links₀ : Id → Option Id) :
    List Op → Val k → (Id → Option Id) → Prop
  | nil : Serial cfg k row₀ links₀ [] row₀ links₀
  | snoc {ops row links row' links'} (op : Op) (h : Serial cfg k row₀ links₀ ops row links)
      (hop : Performs cfg op k row links row' links') :
      Serial cfg k row₀ links₀ (ops ++ [op]) row' links'

section Serial

variable {cfg : Config} {op : Op} {k : Key} {row₀ row row' : Val k}
  {links₀ links links' : Id → Option Id} {ops : List Op}

theorem Performs.versions (h : Performs cfg op k row links row' links') :
    op.expected = version k row ∧ version k row' = version k row + 1 := by
  cases h with
  | intro hversion hedit => exact ⟨hversion.symm, version_apply _ _ _⟩

/-- Each of them finds the version that it expects, and raises it by one. -/
theorem Serial.versions (h : Serial cfg k row₀ links₀ ops row links) :
    version k row = version k row₀ + ops.length ∧
      ops.map Op.expected = List.range' (version k row₀) ops.length := by
  induction h with
  | nil => exact ⟨rfl, rfl⟩
  | snoc op h hop ih =>
      obtain ⟨hexpected, hnext⟩ := hop.versions
      rw [List.length_append, List.length_singleton]
      refine ⟨by omega, ?_⟩
      rw [List.map_append, ih.2, List.range'_concat, List.map_singleton, hexpected, ih.1,
        Nat.one_mul]

theorem Effects.performs {b b' : Db} (h : Effects cfg op b b') {row : Val op.entity}
    (hrow : Log.row op.entity b = some row) : ∃ row', Log.row op.entity b' = some row' ∧
      Performs cfg op op.entity row (link b op.entity) row' (link b' op.entity) := by
  obtain ⟨row₁, c, hrow₁, hversion, hedit, hrow'⟩ := h.row
  have hsame : row₁ = row := Option.some.inj (hrow₁.symm.trans hrow)
  subst hsame
  refine ⟨_, hrow', ?_⟩
  rw [funext h.links]
  exact .intro hversion hedit

end Serial

/-- Each call starts when the version it expects has been committed. -/
def committedVersions (s : System) : SystemAction → Prop
  | .start op => Expected op s.db
  | _ => True

/-- Update `i` of the entity has committed. -/
def Succeeded (s : System) (k : Key) (i : Nat) : Prop :=
  ∃ p, s.procs[i]? = some p ∧ p.op.entity = k ∧ p.past ≠ []

section Runs

variable {cfg : Config} {s₀ s : System} {k : Key}

/-- Grants and audit events belong to no entity. -/
theorem unowned_of_external {b rows : Db} (h : (machine cfg).external b rows) {key : Key}
    (hkey : key ∈ rows.keys) : owner key = none := by
  obtain ⟨s, hs, rfl⟩ := List.mem_map.mp hkey
  have houtside := h s hs
  cases hk : s.1 <;> rw [hk] at houtside <;> first | rfl | cases houtside

theorem external_entity {b rows : Db} (h : (machine cfg).external b rows)
    (hk : k.versioned = true) : Log.row k (rows ++ b) = Log.row k b ∧
      ∀ x, link (rows ++ b) k x = link b k x := by
  refine ⟨Log.row_append_of_not_mem _ fun hmem => ?_, fun x => link_append fun key hkey howner => ?_⟩
  · have hnone := unowned_of_external h hmem
    rw [owner_versioned hk] at hnone
    cases hnone
  · rw [unowned_of_external h hkey] at howner
    cases howner

theorem serving (cfg : Config) :
    Serving (machine cfg) committedVersions Evolves (Effects cfg) Expected where
  relied := evolves_relied
  start _ _ hok := hok
  program op _ hready := program_serves op hready
  guarantee _ _ _ h := h.evolves
  external b rows h k hk row hrow := by
    obtain ⟨hsame, hlinks⟩ := external_entity h hk
    exact ⟨row, hsame.trans hrow, Nat.le_refl _, fun _ => ⟨rfl, hlinks⟩⟩

theorem program_commits (op : Op) : (program cfg op).Commits := by
  cases op with
  | _ => exact (commits_transaction _).bind _

theorem not_effects_self (op : Op) (b : Db) : ¬ Effects cfg op b b := by
  intro h
  obtain ⟨row, c, hrow, -, -, hrow'⟩ := h.row
  have hsame := congrArg (version op.entity) (Option.some.inj (hrow.symm.trans hrow'))
  rw [version_apply] at hsame
  omega

/-- The committed updates of an entity in their order, and what they have made of it. -/
structure History (cfg : Config) (s₀ : System) (k : Key) (row₀ : Val k) (s : System)
    (is : List Nat) (ops : List Op) (row : Val k) : Prop where
  once : is.Nodup
  succeeded : ∀ i, i ∈ is ↔ Succeeded s k i
  calls : is.map (fun i => s.procs[i]?.map Proc.op) = ops.map some
  current : Log.row k s.db = some row
  serial : Serial cfg k row₀ (link s₀.db k) ops row (link s.db k)

variable {row₀ : Val k}

/-- Steps that leave the entity alone, and the updates of it. -/
theorem History.idle {s' : System} {is : List Nat} {ops : List Op} {row : Val k}
    (h : History cfg s₀ k row₀ s is ops row) (hrow : Log.row k s'.db = Log.row k s.db)
    (hlinks : ∀ x, link s'.db k x = link s.db k x)
    (hsucceeded : ∀ i, Succeeded s' k i ↔ Succeeded s k i)
    (hops : ∀ (i : Nat) p, s.procs[i]? = some p → ∃ p', s'.procs[i]? = some p' ∧ p'.op = p.op) :
    History cfg s₀ k row₀ s' is ops row where
  once := h.once
  succeeded i := (h.succeeded i).trans (hsucceeded i).symm
  calls := by
    rw [← h.calls]
    refine List.map_congr_left fun i hi => ?_
    obtain ⟨p, hp, -⟩ := (h.succeeded i).mp hi
    obtain ⟨p', hp', hop⟩ := hops i p hp
    rw [hp, hp', Option.map_some, Option.map_some, hop]
  current := hrow.trans h.current
  serial := by
    rw [funext hlinks]
    exact h.serial

/-- The next committed update comes after those before it. -/
theorem History.snoc {s' : System} {is : List Nat} {ops : List Op} {row row' : Val k}
    (h : History cfg s₀ k row₀ s is ops row) {i : Nat} {p : Process} (hp : s.procs[i]? = some p)
    (hperforms : Performs cfg p.op k row (link s.db k) row' (link s'.db k))
    (hrow : Log.row k s'.db = some row')
    (hsucceeded : ∀ j, Succeeded s' k j ↔ Succeeded s k j ∨ j = i)
    (hops : ∀ (j : Nat) q, s.procs[j]? = some q → ∃ q', s'.procs[j]? = some q' ∧ q'.op = q.op) :
    History cfg s₀ k row₀ s' (is ++ [i]) (ops ++ [p.op]) row' := by
  have hkept : ∀ j ∈ is ++ [i], s'.procs[j]?.map Proc.op = s.procs[j]?.map Proc.op := by
    intro j hj
    have hq : ∃ q, s.procs[j]? = some q := by
      rcases List.mem_append.mp hj with hj | hj
      · obtain ⟨q, hq, -⟩ := (h.succeeded j).mp hj
        exact ⟨q, hq⟩
      · rw [List.mem_singleton.mp hj]
        exact ⟨p, hp⟩
    obtain ⟨q, hq⟩ := hq
    obtain ⟨q', hq', hop⟩ := hops j q hq
    rw [hq, hq', Option.map_some, Option.map_some, hop]
  obtain ⟨hversion, hexpected⟩ := h.serial.versions
  have hfresh : i ∉ is := by
    intro hi
    have hmem : some p.op ∈ is.map (fun i => s.procs[i]?.map Proc.op) :=
      List.mem_map.mpr ⟨i, hi, by rw [hp, Option.map_some]⟩
    rw [h.calls] at hmem
    obtain ⟨op, hop, heq⟩ := List.mem_map.mp hmem
    cases heq
    have hrange : p.op.expected ∈ List.range' (version k row₀) ops.length := by
      rw [← hexpected]
      exact List.mem_map_of_mem hop
    have hnow := hperforms.versions.1
    rw [List.mem_range'_1] at hrange
    omega
  refine ⟨?_, fun j => ?_, ?_, hrow, .snoc p.op h.serial hperforms⟩
  · rw [List.nodup_append]
    refine ⟨h.once, List.nodup_singleton i, fun a ha b hb => ?_⟩
    rw [List.mem_singleton.mp hb]
    intro heq
    exact hfresh (heq ▸ ha)
  · rw [List.mem_append, List.mem_singleton, hsucceeded j, h.succeeded j]
  · rw [List.map_congr_left hkept, List.map_append, h.calls, List.map_append, List.map_singleton,
      List.map_singleton, hp, Option.map_some]

/-- One step of a run. -/
theorem History.step {a : SystemAction} {s' : System} {is : List Nat} {ops : List Op} {row : Val k}
    (h : History cfg s₀ k row₀ s is ops row) (h₀ : s₀.procs = [])
    (hrun : Run (machine cfg) committedVersions s₀ s) (hk : k.versioned = true)
    (hs : Step (machine cfg) s a s') :
    ∃ is' ops' row', History cfg s₀ k row₀ s' is' ops' row' := by
  have hcalls : ∀ (i : Nat) p, s.procs[i]? = some p →
      ∃ p', s'.procs[i]? = some p' ∧ p'.op = p.op := by
    intro i p hp
    obtain ⟨p', hp', hop, -⟩ := hs.past_subset hp
    exact ⟨p', hp', hop⟩
  -- a transaction that has committed stays committed
  have hkept : ∀ i, Succeeded s k i → Succeeded s' k i := by
    rintro i ⟨p, hp, hentity, hpast⟩
    obtain ⟨p', hp', hop, hsubset⟩ := hs.past_subset hp
    refine ⟨p', hp', by rw [hop, hentity], fun hnil => hpast ?_⟩
    rw [hnil] at hsubset
    exact List.subset_nil.mp hsubset
  have hunchanged : (∀ (i : Nat) p', s'.procs[i]? = some p' → p'.past = [] ∨
      ∃ p, s.procs[i]? = some p ∧ p'.op = p.op ∧ p'.past = p.past) →
        ∀ i, Succeeded s' k i ↔ Succeeded s k i := by
    refine fun hprocs i => ⟨?_, hkept i⟩
    rintro ⟨p', hp', hentity, hpast⟩
    rcases hprocs i p' hp' with hnil | ⟨p, hp, hop, hsame⟩
    · exact absurd hnil hpast
    · exact ⟨p, hp, by rw [← hop, hentity], by rwa [← hsame]⟩
  cases hs.effect with
  | quiet hdb hprocs =>
      refine ⟨is, ops, row, h.idle (by rw [hdb]) (by simp [hdb]) (hunchanged ?_) hcalls⟩
      intro i p' hp'
      rcases hprocs i p' hp' with hold | ⟨-, ⟨op, -, rfl⟩ | hold⟩
      · exact .inr ⟨p', hold, rfl, rfl⟩
      · exact .inl rfl
      · exact .inr hold
  | answered i c p q next out rows hp hq hanswer =>
      refine ⟨is, ops, row, h.idle rfl (fun _ => rfl) (hunchanged fun j p' hj => ?_) hcalls⟩
      rcases getElem?_set_cases hj with ⟨rfl, rfl⟩ | ⟨-, hold⟩
      · exact .inr ⟨p, hp, rfl, rfl⟩
      · exact .inr ⟨p', hold, rfl, rfl⟩
  | committed i c p next hp hq =>
      have heffects : Effects cfg p.op s.db (p.writes ++ s.db) :=
        hrun.guarantees (serving cfg) h₀ hp hq
      have hlt := (List.getElem?_eq_some_iff.mp hp).1
      by_cases hentity : p.op.entity = k
      · subst hentity
        obtain ⟨row', hrow', hperforms⟩ := heffects.performs h.current
        have hpast : p.calls ++ p.past ≠ [] := by
          intro hnil
          have hcurrent : p.current = [] :=
            List.map_eq_nil_iff.mp (List.append_eq_nil_iff.mp hnil).1
          rw [Proc.writes, hcurrent] at heffects
          exact not_effects_self _ _ heffects
        refine ⟨_, _, row', h.snoc hp hperforms hrow' (fun j => ⟨?_, ?_⟩) hcalls⟩
        · rintro ⟨p', hp', hentity, hpast'⟩
          rcases getElem?_set_cases hp' with ⟨rfl, rfl⟩ | ⟨-, hold⟩
          · exact .inr rfl
          · exact .inl ⟨p', hold, hentity, hpast'⟩
        · rintro (hj | rfl)
          · exact hkept j hj
          · exact ⟨_, List.getElem?_set_self hlt, rfl, hpast⟩
      · obtain ⟨hrow, hlinks⟩ := heffects.others k hk (Ne.symm hentity)
        refine ⟨is, ops, row, h.idle hrow hlinks (fun j => ⟨?_, hkept j⟩) hcalls⟩
        rintro ⟨p', hp', hother, hpast⟩
        rcases getElem?_set_cases hp' with ⟨rfl, rfl⟩ | ⟨-, hold⟩
        · exact absurd hother hentity
        · exact ⟨p', hold, hother, hpast⟩
  | outside rows hext =>
      obtain ⟨hrow, hlinks⟩ := external_entity hext hk
      exact ⟨is, ops, row, h.idle hrow hlinks
        (hunchanged fun i p' hp' => .inr ⟨p', hp', rfl, rfl⟩) hcalls⟩

/-- In every run of updates that expect committed versions, those that have committed on an entity
have, in the order of these versions and one after another, made of it what it is, row and links;
they include all that have returned, no two expect the same version, and each raises it by one. -/
theorem no_lost_updates (cfg : Config) {s₀ s : System} (h₀ : s₀.procs = [])
    (hrun : Run (machine cfg) committedVersions s₀ s) {k : Key} (hk : k.versioned = true)
    {row₀ : Val k} (hrow₀ : Log.row k s₀.db = some row₀) :
    ∃ is ops row, History cfg s₀ k row₀ s is ops row ∧
      ops.map Op.expected = List.range' (version k row₀) ops.length ∧
      version k row = version k row₀ + ops.length ∧
      ∀ (i : Nat) p, s.procs[i]? = some p → p.op.entity = k → p.prog.returned = true → i ∈ is := by
  have hhistory : ∃ is ops row, History cfg s₀ k row₀ s is ops row := by
    refine hrun.invariant (I := fun s => ∃ is ops row, History cfg s₀ k row₀ s is ops row)
      ⟨[], [], row₀, ?_⟩ fun u a v hu h _ hs => ?_
    · exact ⟨List.nodup_nil, fun i => by simp [Succeeded, h₀], rfl, hrow₀, .nil⟩
    · obtain ⟨is, ops, row, h⟩ := h
      exact h.step h₀ hu hk hs
  obtain ⟨is, ops, row, h⟩ := hhistory
  obtain ⟨hversion, hexpected⟩ := h.serial.versions
  refine ⟨is, ops, row, h, hexpected, hversion, fun i p hp hentity hreturned => ?_⟩
  refine (h.succeeded i).mpr ⟨p, hp, hentity, ?_⟩
  rcases hrun.committed (serving cfg) program_commits not_effects_self h₀ i p hp with hpast | hcommits
  · exact hpast
  · cases hprog : p.prog with
    | ret r =>
        rw [hprog] at hcommits
        exact hcommits.elim
    | _ =>
        rw [hprog] at hreturned
        cases hreturned

end Runs

section Sample

def sampleConfig : Config := ⟨id⟩

def sampleBuilding (name : Char) : Building where
  organizationId := 1
  name := [name]
  addressLine1 := ['1']
  addressLine2 := none
  city := ['B']
  postalCode := ['1']
  countryCode := ['R', 'O']
  version := 1

def sampleVendor : Vendor where
  organizationId := 1
  legalName := ['V']
  tradingName := none
  registrationNumber := none
  taxId := none
  email := none
  phone := none
  status := .draft
  tags := []
  internalNotes := none
  version := 1

/-- Vendor 4 works in building 2, and could work in building 3. -/
def sampleStart : System where
  db := [⟨.vendorBuilding 4 2, some 1⟩, ⟨.vendor 4, sampleVendor⟩, ⟨.building 3, sampleBuilding 'b'⟩,
    ⟨.building 2, sampleBuilding 'a'⟩]
  procs := []

/-- An update of the vendor at version 1 that asks for building `b`. -/
def sampleUpdate (status : VendorStatus) (b : Id) : Op :=
  .updateVendor ⟨7, 1, .owner⟩ 4 1
    { legalName := .absent
      tradingName := .absent
      registrationNumber := .absent
      taxId := .absent
      email := .absent
      phone := .absent
      status := .given status
      tags := .absent
      internalNotes := .absent
      buildingIds := .given [b] }

/-- Updates whose expected version has been committed. -/
def ready (s : System) : SystemAction → Bool
  | .start op => (Log.row op.entity s.db).any fun row => op.expected ≤ version op.entity row
  | _ => true

theorem committedVersions_of_ready (s : System) (a : SystemAction) (h : ready s a = true) :
    committedVersions s a := by
  cases a with
  | start op =>
      obtain ⟨row, hrow, hle⟩ := (Option.any_eq_true _ _).mp h
      exact ⟨row, hrow, of_decide_eq_true hle⟩
  | _ => trivial

/-- Two updates read the vendor and its links at version 1, then the first one moves the vendor to
building 3 and the second one finds that its version is stale. -/
theorem no_lost_updates_sample : ∃ (s : System) (is : List Nat) (ops : List Op) (v : Vendor),
    History sampleConfig sampleStart (.vendor 4) sampleVendor s is ops v ∧
      ops.map Op.expected = [1] ∧ v.version = 2 ∧ link s.db (.vendor 4) 3 = some 1 := by
  obtain ⟨s, hrun, hcheck⟩ := exists_run (M := machine sampleConfig) (s := sampleStart)
    (.start (sampleUpdate .active 3) :: .start (sampleUpdate .suspended 2) ::
      [0, 1, 0, 1, 0, 1, 0, 1, 0, 0, 0, 0, 0, 0, 0, 1, 1].map fun i => .exec i 0)
    (fun s => (s.procs.map fun p => p.prog.returned) = [true, false] ∧
      (Log.row (.vendor 4) s.db).map (version (.vendor 4)) = some 2 ∧
      link s.db (.vendor 4) 3 = some 1)
    committedVersions_of_ready (by decide +kernel)
  obtain ⟨hreturned, hversion, hlink⟩ := of_decide_eq_true hcheck
  have hstart : Log.row (Key.vendor 4) sampleStart.db = some sampleVendor := by decide +kernel
  obtain ⟨is, ops, v, h, hexpected, hlength, -⟩ :=
    no_lost_updates sampleConfig rfl hrun rfl hstart
  have hv : v.version = 2 := by
    rw [h.current, Option.map_some] at hversion
    exact Option.some.inj hversion
  have hone : ops.length = 1 := by
    have hsum : v.version = 1 + ops.length := hlength
    omega
  refine ⟨s, is, ops, v, h, ?_, hv, hlink⟩
  rw [hexpected, hone]
  rfl

end Sample
end BlocTrust.Crm
