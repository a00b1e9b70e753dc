import BlocTrust.Statements

/-!
What the services share: the authenticated caller, statements as programs, and the
audit trail.
-/
namespace BlocTrust

open ReadCommitted

abbrev Program := Prog Out Failure

structure AuthContext where
  userId : Id
  membershipId : Id
  sessionId : Id
  organizationId : Id
  role : MembershipRole
  deriving DecidableEq, Repr

def query (q : Query) : Program q.Out := Prog.sql (Stmt.read q)

def update (u : Update) : Program u.Out := Prog.sql (Stmt.write u)

/-- `Date.now()`, read in the middle of a transaction. -/
def now : Program Time := Prog.sql (Stmt.call .clock)

/-- A call outside the database; it stands by itself. -/
def external (c : External) : Program c.Out := Prog.auto (Stmt.call c)

def writeAudit (auth : AuthContext) (action entityType : String) (entityId : Id)
    (reason : Option Text) : Program Unit :=
  update (.insertAudit
    { organizationId := auth.organizationId
      actorMembershipId := some auth.membershipId
      action := action
      entityType := entityType
      entityId := entityId
      reason := reason })

end BlocTrust
