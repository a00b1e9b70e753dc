import BlocTrust.Identity.Conduct

/-!
The calls keep their conduct.
Before a revocation a transaction has only looked at rows; what a revocation adds are its two
scans and an update for each row that they found.
-/
namespace BlocTrust.Identity

open ReadCommitted Tables Prog

variable {cfg : Config} {op : Op} {past cur : Calls Out}

section Looking

/-- Only queries, but no scan of a revocation, and updates that found no row. -/
structure Looking (cur : Calls Out) : Prop where
  silent : Silent cur
  sessions : ∀ scope ids, ¬ Saw cur (.unrevokedSessions scope) ids
  tokens : ∀ scope hashes, ¬ Saw cur (.unrevokedTokens scope) hashes

theorem looking_nil : Looking [] := ⟨silent_nil, by simp, by simp⟩

theorem Looking.read (h : Looking cur) (q : Query) (out : q.Out)
    (hsessions : ∀ scope, q ≠ .unrevokedSessions scope)
    (htokens : ∀ scope, q ≠ .unrevokedTokens scope) : Looking (⟨.read q, out⟩ :: cur) := by
  refine ⟨h.silent.read q out, fun scope ids hsaw => ?_, fun scope hashes hsaw => ?_⟩
  · rcases List.mem_cons.mp hsaw with heq | hold
    · have hq := congrArg Sigma.fst heq
      exact hsessions scope (Stmt.read.inj hq).symm
    · exact h.sessions scope ids hold
  · rcases List.mem_cons.mp hsaw with heq | hold
    · have hq := congrArg Sigma.fst heq
      exact htokens scope (Stmt.read.inj hq).symm
    · exact h.tokens scope hashes hold

theorem Looking.missed (h : Looking cur) (k : Key) (c : Change k) :
    Looking (⟨.update k c, (0 : Nat)⟩ :: cur) :=
  ⟨h.silent.missed k c, fun scope ids hsaw => h.sessions scope ids (by simpa using hsaw),
    fun scope hashes hsaw => h.tokens scope hashes (by simpa using hsaw)⟩

theorem Looking.due (h : Looking cur) : Due cur where
  created _ s hmade := absurd hmade ((h.silent.untouched _).made s)
  consumed _ _ hdid := absurd ((h.silent.untouched _).did _ _ hdid) Nat.one_ne_zero
  rotated _ _ _ _ _ hdid := absurd ((h.silent.untouched _).did _ _ hdid) Nat.one_ne_zero
  revoked scope ids hsaw := absurd hsaw (h.sessions scope ids)
  verified _ _ _ hdid := absurd ((h.silent.untouched _).did _ _ hdid) Nat.one_ne_zero

end Looking

section Autocommit

/-- Queries and calls only. -/
def Looked (past : Calls Out) : Prop :=
  ∀ call ∈ past, (∃ q out, call = ⟨.read q, out⟩) ∨ ∃ x out, call = ⟨.call x, out⟩

theorem looked_nil : Looked [] := fun _ h => absurd h List.not_mem_nil

theorem Looked.not_did (h : Looked past) (k : Key) (c : Change k) (n : Nat) : ¬ Did past k c n := by
  intro hdid
  rcases h _ hdid with ⟨q, out, heq⟩ | ⟨x, out, heq⟩ <;> cases heq

theorem Looked.not_yields (h : Looked past) : ∀ call ∈ past, ¬ Yields call := by
  intro call hcall
  rcases h call hcall with ⟨q, out, rfl⟩ | ⟨x, out, rfl⟩ <;> exact id

theorem external_wp {x : External} {Q : x.Out → Calls Out → Calls Out → Prop}
    (hlooked : Looked past)
    (hQ : ∀ out past', Looked past' → past ⊆ past' → Q out past' []) :
    (external x).wp (conduct cfg op) Q (fun _ _ _ => True) past [] := by
  refine ⟨⟨trivial, trivial⟩, fun out _ => ⟨?_, hQ out _ ?_ ?_, fun _ => trivial⟩, fun _ => trivial⟩
  · constructor <;> simp
  · intro call hcall
    rcases List.mem_cons.mp hcall with rfl | hold
    · exact .inr ⟨x, out, rfl⟩
    · exact hlooked call hold
  · exact List.subset_cons_self _ _

theorem read_wp {q : Query} {Q : q.Out → Calls Out → Calls Out → Prop}
    (hlooked : Looked past) (hbefore : before cfg op past [] (.read q))
    (hscan : ∀ scope, q ≠ .unrevokedSessions scope)
    (hQ : ∀ out past', Looked past' → past ⊆ past' → Saw past' q out → Q out past' []) :
    (read q).wp (conduct cfg op) Q (fun _ _ _ => True) past [] := by
  refine ⟨⟨trivial, hbefore⟩, fun out _ => ⟨?_, hQ out _ ?_ ?_ List.mem_cons_self,
    fun _ => trivial⟩, fun _ => trivial⟩
  · constructor
    · simp
    · simp
    · simp
    · intro scope ids hsaw
      have hq := congrArg Sigma.fst (List.mem_singleton.mp hsaw)
      exact absurd (Stmt.read.inj hq).symm (hscan scope)
    · simp
  · intro call hcall
    rcases List.mem_cons.mp hcall with rfl | hold
    · exact .inl ⟨q, out, rfl⟩
    · exact hlooked call hold
  · exact List.subset_cons_self _ _

end Autocommit

section Statements

theorem query_wp {q : Query} {Q : q.Out → Calls Out → Calls Out → Prop}
    (hbefore : before cfg op past cur (.read q))
    (hQ : ∀ out, Answers (.read q) out → Q out past (⟨.read q, out⟩ :: cur)) :
    (query q).wp (conduct cfg op) Q (fun _ _ _ => True) past cur :=
  ⟨⟨trivial, hbefore⟩, hQ, fun _ => trivial⟩

theorem call_wp {x : External} {Q : x.Out → Calls Out → Calls Out → Prop}
    (hQ : ∀ out, Q out past (⟨.call x, out⟩ :: cur)) :
    (call x).wp (conduct cfg op) Q (fun _ _ _ => True) past cur :=
  ⟨⟨trivial, trivial⟩, fun out _ => hQ out, fun _ => trivial⟩

theorem insert_wp {k : Key} {v : Val k} {Q : Unit → Calls Out → Calls Out → Prop}
    (hbefore : before cfg op past cur (.insert k v)) (hQ : Q () past (⟨.insert k v, ()⟩ :: cur)) :
    (insert k v).wp (conduct cfg op) Q (fun _ _ _ => True) past cur :=
  ⟨⟨trivial, hbefore⟩, fun _ _ => hQ, fun _ => trivial⟩

theorem update_wp {k : Key} {c : Change k} {Q : Nat → Calls Out → Calls Out → Prop}
    (hu : Untouched cur k) (hbefore : before cfg op past cur (.update k c))
    (hmissed : Q (0 : Nat) past (⟨.update k c, (0 : Nat)⟩ :: cur))
    (hdone : Q (1 : Nat) past (⟨.update k c, (1 : Nat)⟩ :: cur)) :
    (update k c).wp (conduct cfg op) Q (fun _ _ _ => True) past cur := by
  refine ⟨⟨hu, hbefore⟩, fun n hn => ?_, fun _ => trivial⟩
  rcases hn with rfl | rfl
  · exact hmissed
  · exact hdone

theorem updateFound_wp {k : Key} {c : Change k} {Q : Unit → Calls Out → Calls Out → Prop}
    (hu : Untouched cur k) (hbefore : before cfg op past cur (.update k c))
    (hQ : Q () past (⟨.update k c, (1 : Nat)⟩ :: cur)) :
    (updateFound k c).wp (conduct cfg op) Q (fun _ _ _ => True) past cur := by
  rw [updateFound, wp_bind]
  refine update_wp hu hbefore ?_ ?_
  · rw [wp_require]
    exact ⟨fun h => absurd rfl h, fun _ => trivial⟩
  · rw [wp_require]
    exact ⟨fun _ => hQ, fun _ => trivial⟩

end Statements

section Revocation

/-- A transaction that has looked, scanned the sessions of `scope`, and revoked what it found. -/
structure RevokedSessions (scope : Scope) (cur cur₁ : Calls Out) (ids : List Id) : Prop where
  looking : Looking cur
  scan : Saw cur₁ (.unrevokedSessions scope) ids
  all : ∀ id ∈ ids, ∃ now n, Did cur₁ (.session id) (.revoked now) n
  only : ∀ call ∈ cur₁, call ∈ cur ∨ call = ⟨.read (.unrevokedSessions scope), ids⟩ ∨
    ∃ id now, ∃ n : Nat, call = ⟨.update (.session id) (.revoked now), n⟩

theorem RevokedSessions.revoked {scope : Scope} {cur₁ : Calls Out} {ids : List Id}
    (h : RevokedSessions scope cur cur₁ ids) : SessionsRevoked cur₁ scope := ⟨ids, h.scan, h.all⟩

theorem revokedSessions_of_rounds {scope : Scope} {now : Time} {cur₁ : Calls Out} {ids : List Id}
    (hl : Looking cur)
    (h : Rounds Key.session (fun _ => SessionChange.revoked now)
      (⟨.read (.unrevokedSessions scope), ids⟩ :: cur) cur₁ ids) :
    RevokedSessions scope cur cur₁ ids where
  looking := hl
  scan := h.sub List.mem_cons_self
  all id hid := ⟨now, h.all id hid⟩
  only call hcall := by
    rcases h.only call hcall with hold | ⟨id, -, n, heq⟩
    · rcases List.mem_cons.mp hold with heq | hold
      · exact .inr (.inl heq)
      · exact .inl hold
    · exact .inr (.inr ⟨id, now, n, heq⟩)

theorem RevokedSessions.untouched {scope : Scope} {cur₁ : Calls Out} {ids : List Id}
    (h : RevokedSessions scope cur cur₁ ids) (hash : Digest) : Untouched cur₁ (.token hash) := by
  constructor
  · intro t hmade
    rcases h.only _ hmade with hold | heq | ⟨id, now, n, heq⟩
    · exact (h.looking.silent.untouched _).made t hold
    · cases heq
    · cases heq
  · intro c n hdid
    rcases h.only _ hdid with hold | heq | ⟨id, now, n, heq⟩
    · exact (h.looking.silent.untouched _).did c n hold
    · cases heq
    · cases heq

theorem RevokedSessions.due {scope : Scope} {now : Time} {cur₁ cur₂ : Calls Out} {ids : List Id}
    {hashes : List Digest} (h : RevokedSessions scope cur cur₁ ids)
    (h₂ : Rounds Key.token (fun _ => TokenChange.revoked now)
      (⟨.read (.unrevokedTokens scope), hashes⟩ :: cur₁) cur₂ hashes) : Due cur₂ := by
  have honly : ∀ call ∈ cur₂, call ∈ cur ∨ call = ⟨.read (.unrevokedSessions scope), ids⟩ ∨
      call = ⟨.read (.unrevokedTokens scope), hashes⟩ ∨
      (∃ id now, ∃ n : Nat, call = ⟨.update (.session id) (.revoked now), n⟩) ∨
      ∃ hash now, ∃ n : Nat, call = ⟨.update (.token hash) (.revoked now), n⟩ := by
    intro call hcall
    rcases h₂.only call hcall with hold | ⟨hash, -, n, heq⟩
    · rcases List.mem_cons.mp hold with heq | hold
      · exact .inr (.inr (.inl heq))
      · rcases h.only call hold with hold | heq | hupdate
        · exact .inl hold
        · exact .inr (.inl heq)
        · exact .inr (.inr (.inr (.inl hupdate)))
    · exact .inr (.inr (.inr (.inr ⟨hash, now, n, heq⟩)))
  have hdue := h.looking.due
  constructor
  · intro id s hmade
    rcases honly _ hmade with hold | heq | heq | ⟨_, _, _, heq⟩ | ⟨_, _, _, heq⟩
    · exact absurd hold ((h.looking.silent.untouched _).made s)
    all_goals cases heq
  · intro hash at_ hdid
    rcases honly _ hdid with hold | heq | heq | ⟨_, _, _, heq⟩ | ⟨_, _, _, heq⟩
    · exact absurd ((h.looking.silent.untouched _).did _ _ hold) Nat.one_ne_zero
    all_goals cases heq
  · intro id hash csrf at_ metadata hdid
    rcases honly _ hdid with hold | heq | heq | ⟨_, _, _, heq⟩ | ⟨_, _, _, heq⟩
    · exact absurd ((h.looking.silent.untouched _).did _ _ hold) Nat.one_ne_zero
    all_goals cases heq
  · intro scope' ids' hsaw
    rcases honly _ hsaw with hold | heq | heq | ⟨_, _, _, heq⟩ | ⟨_, _, _, heq⟩
    · exact absurd hold (h.looking.sessions scope' ids')
    · cases heq
      refine ⟨⟨ids, ?_, fun id hid => ?_⟩, hashes, h₂.sub List.mem_cons_self, fun hash hmem => ?_⟩
      · exact h₂.sub (List.mem_cons_of_mem _ h.scan)
      · obtain ⟨at_, n, hdid⟩ := h.all id hid
        exact ⟨at_, n, h₂.sub (List.mem_cons_of_mem _ hdid)⟩
      · exact ⟨now, h₂.all hash hmem⟩
    all_goals cases heq
  · intro id first used hdid
    rcases honly _ hdid with hold | heq | heq | ⟨_, _, _, heq⟩ | ⟨_, _, _, heq⟩
    · exact absurd ((h.looking.silent.untouched _).did _ _ hold) Nat.one_ne_zero
    all_goals cases heq

theorem revokeScope_wp {scope : Scope} {now : Time} {Q : Unit → Calls Out → Calls Out → Prop}
    (hl : Looking cur) (hrevokes : Revokes cfg op past cur scope)
    (hQ : ∀ cur', Due cur' → Q () past cur') :
    (SessionService.revokeScope scope now).wp (conduct cfg op) Q (fun _ _ _ => True) past cur := by
  rw [SessionService.revokeScope, wp_bind]
  refine query_wp ⟨hrevokes, hl.silent, hl.sessions⟩ fun ids hids => ?_
  rw [wp_bind]
  refine updateEach_wp hids ?_ (fun _ => trivial) fun counts cur₁ h₁ => ?_
  · intro id hid done cur' hfresh hsub hrounds
    have hdone := hrounds.only
    refine ⟨⟨fun s hmade => ?_, fun c n hdid => ?_⟩,
      ⟨scope, ids, hrounds.sub List.mem_cons_self, hid⟩, fun scope' hashes hsaw => ?_⟩
    · rcases hdone _ hmade with hold | ⟨i, hi, n, heq⟩
      · exact ((hl.silent.read _ _).untouched _).made s hold
      · cases heq
    · rcases hdone _ hdid with hold | ⟨i, hi, m, heq⟩
      · exact ((hl.silent.read _ _).untouched _).did c n hold
      · cases heq
        exact absurd hi hfresh
    · rcases hdone _ hsaw with hold | ⟨i, hi, n, heq⟩
      · rcases List.mem_cons.mp hold with heq | hold
        · cases heq
        · exact hl.tokens scope' hashes hold
      · cases heq
  · have hsessions := revokedSessions_of_rounds hl h₁
    rw [wp_bind]
    refine query_wp hsessions.revoked fun hashes hhashes => ?_
    rw [wp_bind]
    refine updateEach_wp hhashes ?_ (fun _ => trivial) fun counts' cur₂ h₂ => ?_
    · intro hash hmem done cur' hfresh hsub hrounds
      refine ⟨⟨fun t hmade => ?_, fun c n hdid => ?_⟩, scope, hashes,
        hrounds.sub List.mem_cons_self, hmem⟩
      · rcases hrounds.only _ hmade with hold | ⟨i, hi, n, heq⟩
        · rcases List.mem_cons.mp hold with heq | hold
          · cases heq
          · exact (hsessions.untouched hash).made t hold
        · cases heq
      · rcases hrounds.only _ hdid with hold | ⟨i, hi, m, heq⟩
        · rcases List.mem_cons.mp hold with heq | hold
          · cases heq
          · exact (hsessions.untouched hash).did c n hold
        · cases heq
          exact absurd hi hfresh
    · exact hQ cur₂ (hsessions.due h₂)

end Revocation

section Sessions

theorem bundle_wp {sessionId userId organizationId : Id} {refreshToken csrfToken : Nat}
    {refreshExpiresAt : Time} :
    (SessionService.bundle cfg sessionId userId organizationId refreshToken csrfToken
      refreshExpiresAt).wp (conduct cfg op) (fun _ _ _ => True) (fun _ _ _ => True) past [] := by
  rw [SessionService.bundle, wp_bind]
  refine ⟨⟨trivial, trivial⟩, fun now _ => ⟨?_, trivial, fun _ => trivial⟩, fun _ => trivial⟩
  constructor <;> simp

theorem createStored_wp {userId organizationId : Id} {metadata : RequestMetadata} {now : Time}
    {refreshTokenHash csrfTokenHash : Digest} (hop : op = .create userId organizationId metadata) :
    (SessionService.createStored cfg userId organizationId metadata now refreshTokenHash
      csrfTokenHash).wp (conduct cfg op) (fun _ _ cur => Due cur) (fun _ _ _ => True) past [] := by
  rw [SessionService.createStored, wp_bind]
  refine call_wp fun tokenFamilyId => ?_
  rw [wp_bind]
  refine call_wp fun id => ?_
  rw [wp_bind]
  refine call_wp fun createdAt => ?_
  rw [wp_bind]
  refine insert_wp ⟨⟨metadata, hop⟩, ⟨rfl, rfl, rfl⟩, by simp, by simp⟩ ?_
  rw [wp_bind]
  refine insert_wp ⟨rfl, rfl, .inl ⟨_, List.mem_cons_self, rfl⟩, by simp⟩ ?_
  refine ⟨?_, by simp, by simp, by simp, by simp⟩
  intro id' s hmade
  simp only [List.mem_cons, Sigma.mk.injEq, Stmt.insert.injEq, reduceCtorEq, false_and, or_false,
    false_or, Key.session.injEq, List.not_mem_nil] at hmade
  obtain ⟨⟨rfl, heq⟩, -⟩ := hmade
  cases heq
  exact ⟨_, List.mem_cons_self, rfl⟩

/-- Continue with something that keeps its conduct from wherever the transaction ended. -/
theorem transaction_wp {α : Type} {p : Program α} {Q : α → Calls Out → Calls Out → Prop}
    (h : p.wp (conduct cfg op) (fun _ _ cur => Due cur) (fun _ _ _ => True) past [])
    (hQ : ∀ a past', Q a past' []) :
    (transaction p).wp (conduct cfg op) Q (fun _ _ _ => True) past [] := by
  rw [wp_transaction]
  exact wp_mono (fun a _ _ hdue => ⟨hdue, hQ a _, fun _ => trivial⟩) (fun _ _ _ _ => trivial) h

theorem create_wp {userId organizationId : Id} {metadata : RequestMetadata}
    (hop : op = .create userId organizationId metadata) :
    (SessionService.create cfg userId organizationId metadata).wp (conduct cfg op)
      (fun _ _ _ => True) (fun _ _ _ => True) [] [] := by
  rw [SessionService.create, wp_bind]
  refine external_wp looked_nil fun now past₁ h₁ _ => ?_
  rw [wp_bind]
  refine external_wp h₁ fun refreshToken past₂ h₂ _ => ?_
  rw [wp_bind]
  refine external_wp h₂ fun csrfToken past₃ h₃ _ => ?_
  rw [wp_bind]
  exact transaction_wp (createStored_wp hop) fun _ _ => bundle_wp

section Rotate

variable {suppliedHash newRefreshHash newCsrfHash : Digest} {metadata : RequestMetadata}
  {now : Time} {t : SessionRefreshToken} {s : Session}

/-- The token of a rotation and its session, before anything else has been done about them. -/
structure Found (cur : Calls Out) (hash : Digest) (t : SessionRefreshToken) (s : Session) :
    Prop where
  looking : Looking cur
  token : Saw cur (.findToken hash) (some t)
  session : Saw cur (.findSession t.sessionId) (some s)

theorem Found.read {hash : Digest} (h : Found cur hash t s) (q : Query) (out : q.Out)
    (hsessions : ∀ scope, q ≠ .unrevokedSessions scope)
    (htokens : ∀ scope, q ≠ .unrevokedTokens scope) : Found (⟨.read q, out⟩ :: cur) hash t s :=
  ⟨h.looking.read q out hsessions htokens, List.mem_cons_of_mem _ h.token,
    List.mem_cons_of_mem _ h.session⟩

theorem Found.missed {hash : Digest} (h : Found cur hash t s) (k : Key) (c : Change k) :
    Found (⟨.update k c, (0 : Nat)⟩ :: cur) hash t s :=
  ⟨h.looking.missed k c, List.mem_cons_of_mem _ h.token, List.mem_cons_of_mem _ h.session⟩

theorem Found.revokes {refreshToken : Nat} (h : Found cur (cfg.hashOpaqueToken refreshToken) t s)
    (hop : op = .rotate refreshToken metadata) :
    Revokes cfg op past cur (.family s.tokenFamilyId) := by
  rw [hop]
  exact ⟨t, s, h.token, h.session, rfl⟩

theorem consume_wp {refreshToken : Nat} (hop : op = .rotate refreshToken metadata)
    (hfound : Found cur (cfg.hashOpaqueToken refreshToken) t s) (hlive : s.revokedAt = none) :
    (SessionService.consume (cfg.hashOpaqueToken refreshToken) newRefreshHash newCsrfHash metadata
      now t.sessionId s).wp (conduct cfg op) (fun _ _ cur => Due cur) (fun _ _ _ => True)
      past cur := by
  have hl := hfound.looking
  have hp : Presented cfg op cur (cfg.hashOpaqueToken refreshToken) t s :=
    ⟨⟨refreshToken, metadata, hop, rfl⟩, hfound.token, hfound.session, hlive⟩
  rw [SessionService.consume, wp_bind]
  refine update_wp (hl.silent.untouched _) ⟨⟨t, s, hp⟩, hl.silent, hl.sessions⟩ ?_ ?_
  · rw [wp_ite]
    refine ⟨fun h => absurd h.symm Nat.one_ne_zero, fun _ => ?_⟩
    rw [wp_bind]
    exact revokeScope_wp (hl.missed _ _) ((hfound.missed _ _).revokes hop) fun _ hdue => hdue
  · rw [wp_ite]
    refine ⟨fun _ => ?_, fun h => absurd rfl h⟩
    have hmade : ∀ k v, ¬ Made cur k v := fun k v => (hl.silent.untouched k).made v
    have hdid : ∀ k c, ¬ Did cur k c 1 := fun k c hd =>
      Nat.one_ne_zero ((hl.silent.untouched k).did c 1 hd)
    have hp' : Presented cfg op (⟨.update (.token (cfg.hashOpaqueToken refreshToken))
        (.consumed now), (1 : Nat)⟩ :: cur) (cfg.hashOpaqueToken refreshToken) t s :=
      ⟨hp.op, List.mem_cons_of_mem _ hp.token, List.mem_cons_of_mem _ hp.session, hp.unrevoked⟩
    rw [wp_bind]
    refine updateFound_wp ⟨fun v => by simpa using hmade _ v, fun c n h => ?_⟩
      ⟨_, t, s, hp', rfl, List.mem_cons_self, fun k v => by simpa using hmade k v⟩ ?_
    · rcases List.mem_cons.mp h with heq | hold
      · cases heq
      · exact (hl.silent.untouched _).did c n hold
    rw [wp_bind]
    refine insert_wp ⟨rfl, rfl, .inr ?_, ?_⟩ ?_
    · refine ⟨cfg.hashOpaqueToken refreshToken, t, s, now, newCsrfHash, metadata, ?_, rfl, ?_,
        List.mem_cons_self⟩
      · exact ⟨hp'.op, List.mem_cons_of_mem _ hp'.token, List.mem_cons_of_mem _ hp'.session,
          hp'.unrevoked⟩
      · exact List.mem_cons_of_mem _ List.mem_cons_self
    · intro hash' t' h
      exact hmade _ _ (by simpa using h)
    · refine ⟨?_, ?_, ?_, ?_, ?_⟩
      · intro id s' h
        exact absurd (by simpa using h) (hmade (.session id) s')
      · intro hash at_ h
        rcases List.mem_cons.mp h with heq | h
        · cases heq
        rcases List.mem_cons.mp h with heq | h
        · cases heq
        rcases List.mem_cons.mp h with heq | h
        · cases heq
          exact ⟨t.sessionId, newRefreshHash, newCsrfHash, metadata,
            List.mem_cons_of_mem _ List.mem_cons_self⟩
        · exact absurd h (hdid _ _)
      · intro id hash csrf at_ metadata' h
        rcases List.mem_cons.mp h with heq | h
        · cases heq
        rcases List.mem_cons.mp h with heq | h
        · cases heq
          exact ⟨_, List.mem_cons_self, rfl⟩
        rcases List.mem_cons.mp h with heq | h
        · cases heq
        · exact absurd h (hdid _ _)
      · intro scope ids h
        exact absurd (by simpa using h) (hl.sessions scope ids)
      · intro id first used h
        exact absurd (by simpa using h) (hdid (.challenge id) (.consumed first used))

theorem rotateStored_wp {refreshToken : Nat} (hop : op = .rotate refreshToken metadata) :
    (SessionService.rotateStored (cfg.hashOpaqueToken refreshToken) newRefreshHash newCsrfHash
      metadata now).wp (conduct cfg op) (fun _ _ cur => Due cur) (fun _ _ _ => True) past [] := by
  rw [SessionService.rotateStored, wp_bind]
  refine query_wp trivial fun found _ => ?_
  have hl₁ := looking_nil.read (.findToken (cfg.hashOpaqueToken refreshToken)) found (by simp)
    (by simp)
  cases found with
  | none => exact hl₁.due
  | some t =>
      simp only
      rw [wp_bind]
      refine query_wp ⟨hl₁.silent, fun r m h => ⟨t, ?_, rfl⟩⟩ fun found _ => ?_
      · rw [hop] at h
        cases h
        exact List.mem_cons_self
      rw [wp_bind, wp_orThrow]
      refine ⟨fun s hs => ?_, fun _ => trivial⟩
      subst hs
      have hl₂ := hl₁.read (.findSession t.sessionId) (some s) (by simp) (by simp)
      have hfound : Found _ (cfg.hashOpaqueToken refreshToken) t s :=
        ⟨hl₂, List.mem_cons_of_mem _ List.mem_cons_self, List.mem_cons_self⟩
      rw [wp_ite]
      refine ⟨fun _ => ?_, fun _ => ?_⟩
      · rw [wp_bind]
        exact revokeScope_wp hl₂ (hfound.revokes hop) fun _ h => h
      rw [wp_ite]
      refine ⟨fun _ => ?_, fun hlive => ?_⟩
      · rw [wp_bind]
        exact revokeScope_wp hl₂ (hfound.revokes hop) fun _ h => h
      rw [wp_bind]
      refine query_wp trivial fun membership _ => ?_
      rw [wp_bind]
      refine query_wp trivial fun user _ => ?_
      have hfound₄ := (hfound.read (.findMembership s.organizationId s.userId) membership (by simp)
        (by simp)).read (.findUser s.userId) user (by simp) (by simp)
      cases SessionService.admits now user membership with
      | none =>
          simp only
          rw [wp_bind]
          exact revokeScope_wp hfound₄.looking (hfound₄.revokes hop) fun _ h => h
      | some _ =>
          simp only
          exact consume_wp hop hfound₄ (Decidable.not_not.mp fun h => hlive (.inl h))

theorem rotate_wp {refreshToken : Nat} (hop : op = .rotate refreshToken metadata) :
    (SessionService.rotate cfg refreshToken metadata).wp (conduct cfg op)
      (fun _ _ _ => True) (fun _ _ _ => True) [] [] := by
  rw [SessionService.rotate, wp_bind]
  refine external_wp looked_nil fun newRefreshToken past₁ h₁ _ => ?_
  rw [wp_bind]
  refine external_wp h₁ fun newCsrfToken past₂ h₂ _ => ?_
  rw [wp_bind]
  refine external_wp h₂ fun now past₃ h₃ _ => ?_
  rw [wp_bind]
  refine transaction_wp (rotateStored_wp hop) fun result past' => ?_
  cases result with
  | invalid => trivial
  | reused => trivial
  | rotated sessionId session => exact bundle_wp

end Rotate

theorem revoke_wp {sessionId : Id} (hop : op = .revoke sessionId) :
    (SessionService.revoke sessionId).wp (conduct cfg op)
      (fun _ _ _ => True) (fun _ _ _ => True) [] [] := by
  rw [SessionService.revoke, wp_bind]
  refine external_wp looked_nil fun now past₁ h₁ _ => ?_
  rw [wp_bind]
  refine read_wp h₁ ⟨silent_nil, fun r m h => ?_⟩ (by simp) fun found past₂ h₂ _ hseen => ?_
  · rw [hop] at h
    cases h
  cases found with
  | none => trivial
  | some s =>
      refine transaction_wp (revokeScope_wp looking_nil ?_ fun _ h => h) fun _ _ => trivial
      rw [hop]
      exact ⟨s, hseen, rfl⟩

theorem revokeAll_wp {userId : Id} (hop : op = .revokeAll userId) :
    (SessionService.revokeAll userId).wp (conduct cfg op)
      (fun _ _ _ => True) (fun _ _ _ => True) [] [] := by
  rw [SessionService.revokeAll, wp_bind]
  refine external_wp looked_nil fun now past₁ h₁ _ => ?_
  refine transaction_wp (revokeScope_wp looking_nil ?_ fun _ h => h) fun _ _ => trivial
  rw [hop]
  exact rfl

end Sessions

section Passkeys

open PasskeyService

variable {auth : AuthContext} {s : Session}

theorem Authenticated.extend {past' : Calls Out} (h : Authenticated cfg op past auth s)
    (hsub : past ⊆ past') : Authenticated cfg op past' auth s :=
  ⟨h.token, hsub h.session, h.unrevoked, h.userId, h.stepUpVerifiedAt⟩

theorem authenticate_wp {accessToken : Text} {Q : AuthContext → Calls Out → Calls Out → Prop}
    (hop : op.accessToken = some accessToken)
    (hrotate : ∀ refreshToken metadata, op ≠ .rotate refreshToken metadata)
    (hQ : ∀ auth s past', Looked past' → Authenticated cfg op past' auth s → Q auth past' []) :
    (SessionService.authenticateAccessToken cfg accessToken).wp (conduct cfg op) Q
      (fun _ _ _ => True) [] [] := by
  rw [SessionService.authenticateAccessToken, SessionService.verifyAccessToken, wp_bind, wp_bind,
    wp_orThrow]
  refine ⟨fun payload hpayload => ?_, fun _ => trivial⟩
  rw [wp_bind]
  refine external_wp looked_nil fun now past₁ h₁ _ => ?_
  rw [wp_bind, wp_require]
  refine ⟨fun _ => ?_, fun _ => trivial⟩
  show (read (.findSession payload.sessionId) >>= _).wp _ _ _ _ _
  rw [wp_bind]
  refine read_wp h₁ ⟨silent_nil, fun r m h => absurd h (hrotate r m)⟩ (by simp)
    fun found past₂ h₂ _ hseen => ?_
  rw [wp_bind, wp_orThrow]
  refine ⟨fun s hs => ?_, fun _ => trivial⟩
  rw [wp_bind]
  refine external_wp h₂ fun now past₃ h₃ hsub₃ => ?_
  rw [wp_bind, wp_require]
  refine ⟨fun hlive => ?_, fun _ => trivial⟩
  rw [wp_bind]
  refine read_wp h₃ trivial (by simp) fun user past₄ h₄ hsub₄ _ => ?_
  rw [wp_bind]
  refine read_wp h₄ trivial (by simp) fun membership past₅ h₅ hsub₅ _ => ?_
  rw [wp_bind]
  refine external_wp h₅ fun now past₆ h₆ hsub₆ => ?_
  rw [wp_bind, wp_orThrow]
  refine ⟨fun membership _ => hQ _ s past₆ h₆ ?_, fun _ => trivial⟩
  rw [hs] at hseen
  exact ⟨⟨accessToken, payload, hop, hpayload, rfl⟩, hsub₆ (hsub₅ (hsub₄ (hsub₃ hseen))),
    hlive.2.2.1, rfl, rfl⟩

theorem assertRegistrationAuthorized_wp {count : Nat} {Q : Unit → Calls Out → Calls Out → Prop}
    (hlooked : Looked past)
    (hQ : ∀ past', Looked past' → past ⊆ past' → (0 < count → auth.stepUpVerifiedAt ≠ none) →
      Q () past' []) :
    (assertRegistrationAuthorized auth count).wp (conduct cfg op) Q (fun _ _ _ => True) past [] := by
  rw [assertRegistrationAuthorized, wp_bind]
  refine external_wp hlooked fun now past₁ h₁ hsub₁ => ?_
  rw [wp_bind]
  refine external_wp h₁ fun now' past₂ h₂ hsub₂ => ?_
  rw [wp_require]
  refine ⟨fun hauthorized => hQ past₂ h₂ (fun _ h => hsub₂ (hsub₁ h)) fun hcount hnone => ?_,
    fun _ => trivial⟩
  refine hauthorized (.inl ⟨hcount, ?_⟩)
  rw [hnone]
  rfl

theorem replaceChallenge_wp {purpose : PasskeyChallengePurpose} {challenge : Nat}
    (hlooked : Looked past)
    (hnew : ∀ past', past ⊆ past' → ∀ expiresAt createdAt, NewChallenge cfg op past'
      ⟨auth.userId, auth.sessionId, purpose, challenge, expiresAt, none, createdAt⟩) :
    (replaceChallenge auth purpose challenge).wp (conduct cfg op) (fun _ _ _ => True)
      (fun _ _ _ => True) past [] := by
  rw [replaceChallenge, wp_bind]
  refine external_wp hlooked fun now past₁ h₁ hsub₁ => ?_
  refine transaction_wp ?_ fun _ _ => trivial
  rw [wp_bind]
  refine query_wp trivial fun open_ hopen => ?_
  rw [wp_bind]
  refine updateEach_wp hopen ?_ (fun _ => trivial) fun counts cur h => ?_
  · intro id hid done cur' hfresh hsub hrounds
    refine ⟨⟨fun c hmade => ?_, fun c n hdid => ?_⟩, auth.sessionId, purpose, open_,
      hrounds.sub List.mem_cons_self, hid⟩
    · rcases hrounds.only _ hmade with hold | ⟨i, hi, n, heq⟩
      · simp at hold
      · cases heq
    · rcases hrounds.only _ hdid with hold | ⟨i, hi, m, heq⟩
      · simp at hold
      · cases heq
        exact absurd hi hfresh
  · have honly : ∀ call ∈ cur, call = ⟨.read (.openChallenges auth.sessionId purpose), open_⟩ ∨
        ∃ id, ∃ n : Nat, call = ⟨.update (.challenge id) (.replaced now), n⟩ := by
      intro call hcall
      rcases h.only call hcall with hold | ⟨i, hi, n, heq⟩
      · exact .inl (List.mem_singleton.mp hold)
      · exact .inr ⟨i, n, heq⟩
    rw [wp_bind]
    refine call_wp fun id => ?_
    rw [wp_bind]
    refine call_wp fun createdAt => insert_wp ⟨hnew _ hsub₁ _ _, fun id c hmade => ?_⟩ ?_
    · rcases honly _ (by simpa using hmade) with heq | ⟨i, n, heq⟩ <;> cases heq
    · refine ⟨fun id s hmade => ?_, fun hash at_ hdid => ?_, fun id hash csrf at_ metadata hdid => ?_,
        fun scope ids hsaw => ?_, fun id first used hdid => ?_⟩
      · rcases honly _ (by simpa using hmade) with heq | ⟨i, n, heq⟩ <;> cases heq
      · rcases honly _ (by simpa using hdid) with heq | ⟨i, n, heq⟩ <;> cases heq
      · rcases honly _ (by simpa using hdid) with heq | ⟨i, n, heq⟩ <;> cases heq
      · rcases honly _ (by simpa using hsaw) with heq | ⟨i, n, heq⟩ <;> cases heq
      · rcases honly _ (by simpa using hdid) with heq | ⟨i, n, heq⟩ <;> cases heq

theorem registrationOptions_wp {accessToken : Text} (hop : op = .registrationOptions accessToken)
    (hlooked : Looked past) (ha : Authenticated cfg op past auth s) :
    (registrationOptions auth).wp (conduct cfg op) (fun _ _ _ => True) (fun _ _ _ => True)
      past [] := by
  rw [registrationOptions, wp_bind]
  refine read_wp hlooked trivial (by simp) fun found past₁ h₁ hsub₁ _ => ?_
  rw [wp_bind, wp_orThrow]
  refine ⟨fun user _ => ?_, fun _ => trivial⟩
  rw [wp_bind]
  refine read_wp h₁ rfl (by simp) fun credentials past₂ h₂ hsub₂ hseen => ?_
  rw [wp_bind]
  refine assertRegistrationAuthorized_wp h₂ fun past₃ h₃ hsub₃ hstep => ?_
  rw [wp_bind]
  refine external_wp h₃ fun challenge past₄ h₄ hsub₄ => ?_
  rw [wp_bind]
  have hold : ∀ past', past₄ ⊆ past' → past ⊆ past' := fun past' h _ hm =>
    h (hsub₄ (hsub₃ (hsub₂ (hsub₁ hm))))
  refine wp_mono (fun _ _ _ _ => trivial) (fun _ _ _ _ => trivial)
    (replaceChallenge_wp h₄ fun past' hsub expiresAt createdAt => ?_)
  refine ⟨auth, s, ha.extend (hold past' hsub), rfl, rfl, rfl, .inl ⟨accessToken, credentials, hop,
    rfl, hsub (hsub₄ (hsub₃ hseen)), fun hne => hstep ?_⟩⟩
  exact List.length_pos_iff.mpr hne

theorem stepUpOptions_wp {accessToken : Text} (hop : op = .stepUpOptions accessToken)
    (hlooked : Looked past) (ha : Authenticated cfg op past auth s) :
    (stepUpOptions auth).wp (conduct cfg op) (fun _ _ _ => True) (fun _ _ _ => True) past [] := by
  rw [stepUpOptions, wp_bind]
  refine read_wp hlooked rfl (by simp) fun credentials past₁ h₁ hsub₁ _ => ?_
  rw [wp_bind, wp_require]
  refine ⟨fun _ => ?_, fun _ => trivial⟩
  rw [wp_bind]
  refine external_wp h₁ fun challenge past₂ h₂ hsub₂ => ?_
  rw [wp_bind]
  refine wp_mono (fun _ _ _ _ => trivial) (fun _ _ _ _ => trivial)
    (replaceChallenge_wp h₂ fun past' hsub expiresAt createdAt => ?_)
  exact ⟨auth, s, ha.extend fun _ hm => hsub (hsub₂ (hsub₁ hm)), rfl, rfl, rfl,
    .inr ⟨accessToken, hop, rfl⟩⟩

theorem activeChallenge_wp {purpose : PasskeyChallengePurpose}
    {Q : Id × PasskeyChallenge → Calls Out → Calls Out → Prop} (hlooked : Looked past)
    (ha : Authenticated cfg op past auth s)
    (hQ : ∀ found past', Looked past' → past ⊆ past' →
      Chosen cfg op past' purpose auth s found.1 found.2 → Q found past' []) :
    (activeChallenge auth purpose).wp (conduct cfg op) Q (fun _ _ _ => True) past [] := by
  rw [activeChallenge, wp_bind]
  refine external_wp hlooked fun now past₁ h₁ hsub₁ => ?_
  rw [wp_bind]
  refine read_wp h₁ rfl (by simp) fun found past₂ h₂ hsub₂ hseen => ?_
  rw [wp_orThrow]
  refine ⟨fun a hsome => ?_, fun _ => trivial⟩
  have hsub : past ⊆ past₂ := fun _ hm => hsub₂ (hsub₁ hm)
  refine hQ a past₂ h₂ hsub ⟨ha.extend hsub, now, ?_⟩
  rw [hsome] at hseen
  exact hseen

theorem verifyRegistration_wp {accessToken : Text} {response : RegistrationResponse}
    {deviceName : Option Text} (hop : op = .verifyRegistration accessToken response deviceName)
    (hlooked : Looked past) (ha : Authenticated cfg op past auth s) :
    (verifyRegistration cfg auth response deviceName).wp (conduct cfg op) (fun _ _ _ => True)
      (fun _ _ _ => True) past [] := by
  rw [verifyRegistration, wp_bind]
  refine activeChallenge_wp hlooked ha fun found past₁ h₁ hsub₁ hchosen => ?_
  rw [wp_bind, wp_orThrow]
  refine ⟨fun info hinfo => ?_, fun _ => trivial⟩
  have hregisters : Registers cfg op past₁ auth s found.1 found.2 info :=
    ⟨hchosen, accessToken, response, deviceName, hop, hinfo⟩
  rw [wp_bind]
  refine transaction_wp ?_ fun consumed _ => ?_
  · rw [storeCredential, wp_bind]
    refine call_wp fun first => ?_
    rw [wp_bind]
    refine call_wp fun used => ?_
    rw [wp_bind]
    refine update_wp ⟨by simp, by simp⟩ ⟨.inl ⟨auth, s, found.2, info, hregisters⟩, by simp,
      fun id c n => h₁.not_did _ _ _⟩ ?_ ?_
    · rw [wp_ite]
      refine ⟨fun _ => ?_, fun h => absurd Nat.zero_ne_one h⟩
      constructor <;> simp
    · rw [wp_ite]
      refine ⟨fun h => absurd rfl h, fun _ => ?_⟩
      rw [wp_bind]
      refine insert_wp ⟨auth, s, found.1, found.2, info, first, used, hregisters,
        List.mem_cons_self, rfl, rfl, fun call hcall => ?_⟩ ?_
      · rcases List.mem_append.mp hcall with hcur | hpast
        · simp only [List.mem_cons, List.not_mem_nil, or_false] at hcur
          rcases hcur with rfl | rfl | rfl <;> exact id
        · exact h₁.not_yields call hpast
      · refine ⟨by simp, by simp, by simp, by simp, fun id at_ at' _ => .inl ?_⟩
        exact ⟨info.credentialId, _, List.mem_cons_self⟩
  · rw [wp_orThrow]
    exact ⟨fun _ _ => trivial, fun _ => trivial⟩

theorem verifyStepUp_wp {accessToken : Text} {response : AuthenticationResponse}
    (hop : op = .verifyStepUp accessToken response) (hlooked : Looked past)
    (ha : Authenticated cfg op past auth s) :
    (verifyStepUp cfg auth response).wp (conduct cfg op) (fun _ _ _ => True)
      (fun _ _ _ => True) past [] := by
  rw [verifyStepUp, wp_bind]
  refine activeChallenge_wp hlooked ha fun found past₁ h₁ hsub₁ hchosen => ?_
  rw [wp_bind]
  refine read_wp h₁ rfl (by simp) fun stored past₂ h₂ hsub₂ hseen => ?_
  rw [wp_bind, wp_orThrow]
  refine ⟨fun x hx => ?_, fun _ => trivial⟩
  rw [wp_bind, wp_require]
  refine ⟨fun howner => ?_, fun _ => trivial⟩
  rw [wp_bind, wp_require]
  refine ⟨fun _ => ?_, fun _ => trivial⟩
  rw [wp_bind, wp_orThrow]
  refine ⟨fun info hinfo => ?_, fun _ => trivial⟩
  rw [wp_bind, wp_require]
  refine ⟨fun _ => ?_, fun _ => trivial⟩
  rw [wp_bind]
  refine external_wp h₂ fun verifiedAt past₃ h₃ hsub₃ => ?_
  rw [hx] at hseen
  have hstep : StepsUp cfg op past₃ auth s found.1 found.2 response.id x info :=
    ⟨⟨ha.extend fun _ hm => hsub₃ (hsub₂ (hsub₁ hm)), hchosen.active.imp fun now hnow =>
      hsub₃ (hsub₂ hnow)⟩, ⟨accessToken, response, hop, rfl, hinfo⟩, hsub₃ hseen, howner⟩
  rw [wp_bind]
  refine transaction_wp ?_ fun consumed _ => ?_
  · rw [recordStepUp, wp_bind]
    refine update_wp ⟨by simp, by simp⟩ ⟨.inr ⟨auth, s, found.2, response.id, x, info, hstep⟩,
      by simp, fun id c n => h₃.not_did _ _ _⟩ ?_ ?_
    · rw [wp_ite]
      refine ⟨fun _ => ?_, fun h => absurd Nat.zero_ne_one h⟩
      constructor <;> simp
    · rw [wp_ite]
      refine ⟨fun h => absurd rfl h, fun _ => ?_⟩
      rw [wp_bind]
      refine updateFound_wp ⟨by simp, by simp⟩ ⟨auth, s, found.1, found.2, x, info, hstep,
        List.mem_cons_self, rfl⟩ ?_
      rw [wp_bind]
      refine updateFound_wp ⟨by simp, by simp⟩ ⟨auth, s, found.1, found.2, response.id, x, info,
        info.newCounter, info.credentialBackedUp, verifiedAt, hstep, rfl,
        List.mem_cons_of_mem _ List.mem_cons_self, List.mem_cons_self, fun call hcall => ?_⟩ ?_
      · rcases List.mem_append.mp hcall with hcur | hpast
        · simp only [List.mem_cons, List.not_mem_nil, or_false] at hcur
          rcases hcur with rfl | rfl <;> exact id
        · exact h₃.not_yields call hpast
      · refine ⟨by simp, by simp, by simp, by simp, fun id at_ at' _ => .inr ?_⟩
        exact ⟨auth.sessionId, verifiedAt, List.mem_cons_self⟩
  · rw [wp_bind, wp_require]
    exact ⟨fun _ => trivial, fun _ => trivial⟩

end Passkeys

section Machine

theorem authenticated_wp {accessToken : Text} {handler : AuthContext → Program Response}
    (hop : op.accessToken = some accessToken)
    (hrotate : ∀ refreshToken metadata, op ≠ .rotate refreshToken metadata)
    (h : ∀ auth s past', Looked past' → Authenticated cfg op past' auth s →
      (handler auth).wp (conduct cfg op) (fun _ _ _ => True) (fun _ _ _ => True) past' []) :
    (authenticated cfg accessToken handler).wp (conduct cfg op) (fun _ _ _ => True)
      (fun _ _ _ => True) [] [] := by
  rw [authenticated, wp_bind]
  exact authenticate_wp hop hrotate h

/-- Every call keeps its conduct. -/
theorem program_wp (op : Op) : (program cfg op).wp (conduct cfg op) (fun _ _ _ => True)
    (fun _ _ _ => True) [] [] := by
  cases op with
  | create userId organizationId metadata => exact (wp_bind _ _).mpr (create_wp rfl)
  | authenticate accessToken =>
      exact (wp_bind _ _).mpr (authenticate_wp rfl (by simp) fun _ _ _ _ _ => trivial)
  | rotate refreshToken metadata => exact (wp_bind _ _).mpr (rotate_wp rfl)
  | revoke sessionId => exact (wp_bind _ _).mpr (revoke_wp rfl)
  | revokeAll userId => exact (wp_bind _ _).mpr (revokeAll_wp rfl)
  | registrationOptions accessToken =>
      exact authenticated_wp rfl (by simp) fun _ _ _ hlooked ha =>
        (wp_bind _ _).mpr (registrationOptions_wp rfl hlooked ha)
  | verifyRegistration accessToken response deviceName =>
      exact authenticated_wp rfl (by simp) fun _ _ _ hlooked ha =>
        (wp_bind _ _).mpr (verifyRegistration_wp rfl hlooked ha)
  | stepUpOptions accessToken =>
      exact authenticated_wp rfl (by simp) fun _ _ _ hlooked ha =>
        (wp_bind _ _).mpr (stepUpOptions_wp rfl hlooked ha)
  | verifyStepUp accessToken response =>
      exact authenticated_wp rfl (by simp) fun _ _ _ hlooked ha =>
        (wp_bind _ _).mpr (verifyStepUp_wp rfl hlooked ha)

theorem careful (op : Op) : Careful tables (conduct cfg op) where
  insert past cur k v hbefore := by
    cases k with
    | session id => rfl
    | token hash => rfl
    | challenge id => rfl
    | credential credentialId => rfl
    | user id => exact hbefore.2.elim
    | membership organizationId userId => exact hbefore.2.elim
    | refreshTokenHash hash => exact hbefore.2.elim
    | challengeText challenge => exact hbefore.2.elim
    | drawn id => exact hbefore.2.elim
  update past cur k c hbefore := by
    refine ⟨?_, hbefore.1⟩
    cases k with
    | refreshTokenHash hash => exact c.elim
    | challengeText challenge => exact c.elim
    | drawn id => exact c.elim
    | _ => rfl

theorem nodup_arrange {α β : Type} {choice : Nat} {rows : List (α × β)}
    (h : (rows.map Prod.fst).Nodup) (keep : α × β → Bool) :
    (arrange choice ((rows.filter keep).map Prod.fst)).Nodup := by
  refine (arrange_perm choice _).nodup_iff.mpr ?_
  exact (List.filter_sublist.map Prod.fst).nodup h

theorem answers_of_ran {view rows : Db} {s : Stmt} {out : Out s}
    (h : Ran tables client view s out rows) : Answers s out := by
  cases h with
  | inserted hfresh hentries hcheck => trivial
  | missed h => exact .inl rfl
  | updated old hrow happlies hcheck => exact .inr rfl
  | called choice h => trivial
  | @read q out choice h =>
      have h : answer choice view q = some out := h
      cases q with
      | unrevokedSessions scope =>
          cases h
          exact nodup_arrange (Log.nodup_table ..) _
      | unrevokedTokens scope =>
          cases h
          exact nodup_arrange (Log.nodup_table ..) _
      | openChallenges sessionId purpose =>
          cases h
          exact nodup_arrange (Log.nodup_table ..) _
      | _ => trivial

theorem setup : Setup tables client (machine cfg) (conduct cfg) :=
  Tables.setup client_internal careful

theorem discipline : Discipline (machine cfg) (conduct cfg) Legal :=
  Tables.discipline client_internal program_wp fun _ _ _ _ _ h => answers_of_ran h

end Machine
end BlocTrust.Identity
