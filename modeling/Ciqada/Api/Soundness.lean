import Ciqada.Api.Consistency
import Ciqada.Foundation.Run

/-!
# Password soundness of a node

Every operation keeps the four copies of a credential in agreement, except that
a replicated record replaces a row of the user table without touching the
verifier of the old one, and a snapshot does so without touching the caches
either.  Under the condition that what is left behind fits the new record, an
accepted password is the one the current record was made from.
-/

namespace Ciqada
namespace Api

open Foundation Broker

theorem nulFree_of_validUsername {u : String} (hu : validUsername u = true) : NulFree u := by
  intro hnul
  unfold validUsername at hu
  simp only [Bool.and_eq_true, List.all_eq_true] at hu
  have hgraphic := hu.right _ hnul
  revert hgraphic
  decide

/-!
## Credentials of accepted names

A password may contain the separator, an accepted name cannot.  Collisions of
the primitives are excluded under each key on its own.
-/

section Credentials

variable {c : Crypto} {u u' p p' : String}

theorem computeVerifier_eq_iff {pepper : List UInt8}
    (hhmac : Function.Injective (c.hmacSha256 pepper)) (hu : validUsername u = true)
    (hu' : validUsername u' = true) :
    c.computeVerifier pepper u p = c.computeVerifier pepper u' p' <-> u = u' ∧ p = p' := by
  constructor
  · intro h
    exact frame_inj (nulFree_of_validUsername hu) (nulFree_of_validUsername hu') (hhmac h)
  · rintro ⟨rfl, rfl⟩
    rfl

theorem authKey_eq_iff (hsha : Function.Injective c.sha256) (hu : validUsername u = true)
    (hu' : validUsername u' = true) :
    c.authKey u p = c.authKey u' p' <-> u = u' ∧ p = p' := by
  constructor
  · intro h
    exact frame_inj (nulFree_of_validUsername hu) (nulFree_of_validUsername hu') (hsha h)
  · rintro ⟨rfl, rfl⟩
    rfl

end Credentials

theorem credential_framing_unambiguous (c : Crypto) (pepper : List UInt8)
    (hsha : Function.Injective c.sha256) (hhmac : Function.Injective (c.hmacSha256 pepper))
    (u u' p p' : String) (hu : validUsername u = true) (hu' : validUsername u' = true) :
    (forall s, c.verifyFast pepper u p s = true <-> s = c.computeVerifier pepper u p) ∧
      (c.verifyFast pepper u p (c.computeVerifier pepper u' p') = true <-> u = u' ∧ p = p') ∧
      (c.authKey u p = c.authKey u' p' <-> u = u' ∧ p = p') := by
  refine ⟨c.verifyFast_iff pepper u p, ?_, authKey_eq_iff hsha hu hu'⟩
  rw [c.verifyFast_iff, computeVerifier_eq_iff hhmac hu' hu]
  constructor
  · rintro ⟨hname, hpassword⟩
    exact ⟨hname.symm, hpassword.symm⟩
  · rintro ⟨hname, hpassword⟩
    exact ⟨hname.symm, hpassword.symm⟩

/-- The separator inside a password does not make one account look like another. -/
theorem credential_framing_unambiguous_separator :
    Crypto.transparent.verifyFast [7] "a" "b\x00c"
        (Crypto.transparent.computeVerifier [7] "a" "b\x00c") = true ∧
      Crypto.transparent.verifyFast [7] "a" "b\x00c"
        (Crypto.transparent.computeVerifier [7] "ab" "c") = false ∧
      Crypto.transparent.authKey "a" "b\x00c" ≠ Crypto.transparent.authKey "ab" "c" := by
  have hhmac : Function.Injective (Crypto.transparent.hmacSha256 [7]) := by
    intro m m' h
    exact Crypto.transparent_laws.hmac_inj _ _ m m' h
  have hsha : Function.Injective Crypto.transparent.sha256 := by
    intro m m' h
    exact h
  have hsame := credential_framing_unambiguous Crypto.transparent [7] hsha hhmac "a" "a" "b\x00c"
    "b\x00c" (by decide) (by decide)
  have hother := credential_framing_unambiguous Crypto.transparent [7] hsha hhmac "a" "ab"
    "b\x00c" "c" (by decide) (by decide)
  refine ⟨hsame.right.left.mpr ⟨rfl, rfl⟩, ?_, ?_⟩
  · apply Bool.eq_false_iff.mpr
    intro h
    exact absurd (hother.right.left.mp h).left (by decide)
  · intro h
    exact absurd (hother.right.right.mp h).left (by decide)

theorem nulFree_of_accepted {req : CreateUser} (hreq : req.refusal = none) :
    NulFree req.username := by
  apply nulFree_of_validUsername
  unfold CreateUser.refusal at hreq
  cases hvalid : validUsername req.username with
  | true => rfl
  | false => simp [hvalid] at hreq

section Operations

variable {c : Crypto} {s : AppState}

/-!
## Writing a new user
-/

/-- A name without a record has no live copy anywhere. -/
theorem Consistent.insertUser (h : Consistent c s) {user : NewUser}
    (hname : NulFree user.username) (hnone : s.db.users.lookup user.username = none) :
    Consistent c { s with db := s.db.upsertUser user } := by
  have hkeep : forall u r, s.db.users.lookup u = some r ->
      (s.db.upsertUser user).users.lookup u = some r := by
    intro u r hlookup
    show (s.db.users.insert user.username user.toRecord).lookup u = some r
    rw [Table.lookup_insert_if, if_neg]
    · exact hlookup
    · intro hu
      rw [hu, hnone] at hlookup
      cases hlookup
  have hholds : forall u p, Holds c s.db u p -> Holds c (s.db.upsertUser user) u p := by
    intro u p hp
    rcases hp with ⟨r, hlookup, hmade⟩
    exact ⟨r, hkeep u r hlookup, hmade⟩
  constructor
  · exact h.enabled
  · intro u r hlookup
    change (s.db.users.insert user.username user.toRecord).lookup u = some r at hlookup
    rw [Table.lookup_insert_if] at hlookup
    by_cases hu : u = user.username
    · rw [hu]
      exact hname
    · rw [if_neg hu] at hlookup
      exact h.names u r hlookup
  · intro u r hget
    exact hkeep u r (h.cached u r hget)
  · intro key su hget
    rcases h.remembered key su hget with ⟨u, p, hkey, hp⟩
    exact ⟨u, p, hkey, hholds u p hp⟩
  · intro u v hv
    rcases h.verifiers u v hv with ⟨pepper, p, hv', hp⟩
    exact ⟨pepper, p, hv', hholds u p hp⟩

theorem holds_upsertUser (req : CreateUser) (salt : String) :
    Holds c (s.db.upsertUser (req.record (c.hashPassword salt req.password)).toNewUser)
      req.username req.password := by
  refine ⟨req.record (c.hashPassword salt req.password), ?_, ⟨salt, rfl⟩⟩
  show (s.db.users.insert req.username _).lookup req.username = some _
  rw [Finmap.lookup_insert]
  rfl

theorem createUser_consistent (h : Consistent c s) (f : Faults) (req : CreateUser)
    (salt : String) : Consistent c (s.createUser c f req salt).1 := by
  by_cases hok : f Call.hashPassword = false ∧ f Call.insertUser = false ∧ req.Accepted s
  · rcases hok with ⟨hhash, hinsert, haccepted⟩
    rw [createUser_accepted hhash hinsert haccepted]
    have hname : NulFree req.username := nulFree_of_accepted haccepted.left
    exact (h.insertUser hname haccepted.right).storeVerifier (holds_upsertUser req salt) f
  · rw [(createUser_unchanged hok salt).left]
    exact h

/-!
## Deleting a user
-/

theorem holds_deleteUser {db : RedbStore} {u v p : String} (hne : v ≠ u)
    (hholds : Holds c db v p) : Holds c (db.deleteUser u).1 v p := by
  rcases hholds with ⟨r, hlookup, hmade⟩
  refine ⟨r, ?_, hmade⟩
  show (db.users.erase u).lookup v = some r
  rw [Table.lookup_erase_if, if_neg hne]
  exact hlookup

theorem lookup_of_deleteUser {db : RedbStore} {u v : String} {r : UserRecord}
    (hlookup : (db.deleteUser u).1.users.lookup v = some r) :
    v ≠ u ∧ db.users.lookup v = some r := by
  change (db.users.erase u).lookup v = some r at hlookup
  rw [Table.lookup_erase_if] at hlookup
  by_cases hv : v = u
  · rw [if_pos hv] at hlookup
    cases hlookup
  · rw [if_neg hv] at hlookup
    exact ⟨hv, hlookup⟩

theorem verifiers_of_deleteUser {db : RedbStore} {u v : String} {w : List UInt8}
    (hw : (db.deleteUser u).1.verifiers v = some w) : v ≠ u ∧ db.verifiers v = some w := by
  change Function.update db.verifiers u none v = some w at hw
  by_cases hv : v = u
  · rw [hv, Function.update_self] at hw
    cases hw
  · rw [Function.update_of_ne hv] at hw
    exact ⟨hv, hw⟩

theorem Consistent.deleteVerifier (h : Consistent c s) (u : String) {v : String}
    {w : List UInt8} (hw : (s.db.deleteUser u).1.verifiers v = some w) :
    exists pepper p, w = c.computeVerifier pepper v p ∧
      Holds c (s.db.deleteUser u).1 v p := by
  rcases verifiers_of_deleteUser hw with ⟨hv, hw'⟩
  rcases h.verifiers v w hw' with ⟨pepper, p, heq, hholds⟩
  exact ⟨pepper, p, heq, holds_deleteUser hv hholds⟩

/-- Deleting with both purges leaves no copy of the user. -/
theorem Consistent.deletePurged (h : Consistent c s) (u : String) :
    Consistent c (AppState.purge { s with db := (s.db.deleteUser u).1 } u) where
  enabled := h.enabled
  names := by
    intro v r hlookup
    exact h.names v r (lookup_of_deleteUser hlookup).right
  cached := by
    intro v r hget
    by_cases hv : v = u
    · change (s.users.purge u).get s.now v = some r at hget
      rw [hv, TtlCache.get_purge_self] at hget
      cases hget
    · change (s.users.purge u).get s.now v = some r at hget
      rw [TtlCache.get_purge_of_ne _ _ hv] at hget
      show (s.db.users.erase u).lookup v = some r
      rw [Table.lookup_erase_if, if_neg hv]
      exact h.cached v r hget
  remembered := by
    intro key su hget
    cases hget
  verifiers := by
    intro v w hw
    exact h.deleteVerifier u hw

/-- Deleting an unknown user leaves the copies of the others. -/
theorem Consistent.deleteUnknown (h : Consistent c s) {u : String}
    (hnone : s.db.users.lookup u = none) :
    Consistent c { s with db := (s.db.deleteUser u).1 } := by
  have hother : forall v p, Holds c s.db v p -> v ≠ u := by
    intro v p hp hv
    rcases hp with ⟨r, hlookup, _⟩
    rw [hv, hnone] at hlookup
    cases hlookup
  constructor
  · exact h.enabled
  · intro v r hlookup
    exact h.names v r (lookup_of_deleteUser hlookup).right
  · intro v r hget
    have hlookup := h.cached v r hget
    show (s.db.users.erase u).lookup v = some r
    rw [Table.lookup_erase_if, if_neg]
    · exact hlookup
    · intro hv
      rw [hv, hnone] at hlookup
      cases hlookup
  · intro key su hget
    rcases h.remembered key su hget with ⟨v, p, hkey, hp⟩
    exact ⟨v, p, hkey, holds_deleteUser (hother v p hp) hp⟩
  · intro v w hw
    exact h.deleteVerifier u hw

theorem deleteUser_consistent (h : Consistent c s) (f : Faults) (u : String) :
    Consistent c (s.deleteUser f u).1 := by
  cases hfault : f Call.deleteUser with
  | true =>
      rw [deleteUser_failed hfault]
      exact h
  | false =>
      cases hlookup : s.db.users.lookup u with
      | none =>
          rw [deleteUser_missing hfault hlookup]
          exact h.deleteUnknown hlookup
      | some r =>
          rw [deleteUser_found hfault hlookup]
          exact h.deletePurged u

/-!
## Replicated records

The conditions under which a record may replace a row.
-/

/-- The verifier under the record's name, if any, belongs to its password. -/
def VerifierFits (c : Crypto) (s : AppState) (r : UserRecord) : Prop :=
  forall pepper p, s.db.verifiers r.username =
      some (c.computeVerifier pepper r.username p) ->
    c.MadeFrom r.passwordHash p

/-- What the caches show under the record's name agrees with it. -/
def CachesFit (c : Crypto) (s : AppState) (r : UserRecord) : Prop :=
  (forall r', s.users.get s.now r.username = some r' -> r' = r) ∧
    forall p, s.cacheHit c r.username p = true -> c.MadeFrom r.passwordHash p

/-- Replacing a row with both purges needs the old verifier to fit the new record. -/
theorem Consistent.upsertPurged (h : Consistent c s) {r : UserRecord}
    (hname : NulFree r.username) (hfits : VerifierFits c s r) :
    Consistent c (AppState.purge { s with db := s.db.upsertUser r.toNewUser } r.username) where
  enabled := h.enabled
  names := by
    intro u r' hlookup
    change (s.db.users.insert r.username r).lookup u = some r' at hlookup
    rw [Table.lookup_insert_if] at hlookup
    by_cases hu : u = r.username
    · rw [hu]
      exact hname
    · rw [if_neg hu] at hlookup
      exact h.names u r' hlookup
  cached := by
    intro u r' hget
    change (s.users.purge r.username).get s.now u = some r' at hget
    by_cases hu : u = r.username
    · rw [hu, TtlCache.get_purge_self] at hget
      cases hget
    · rw [TtlCache.get_purge_of_ne _ _ hu] at hget
      show (s.db.users.insert r.username r).lookup u = some r'
      rw [Table.lookup_insert_if, if_neg hu]
      exact h.cached u r' hget
  remembered := by
    intro key su hget
    cases hget
  verifiers := by
    intro u v hv
    change s.db.verifiers u = some v at hv
    rcases h.verifiers u v hv with ⟨pepper, p, heq, hp⟩
    refine ⟨pepper, p, heq, ?_⟩
    by_cases hu : u = r.username
    · rw [hu] at hv heq ⊢
      exact ⟨r, Finmap.lookup_insert _, hfits pepper p (by rw [hv, heq])⟩
    · rcases hp with ⟨r', hlookup, hmade⟩
      refine ⟨r', ?_, hmade⟩
      show (s.db.users.insert r.username r).lookup u = some r'
      rw [Table.lookup_insert_if, if_neg hu]
      exact hlookup

theorem replicate_consistent (h : Consistent c s) {f : Faults} {op : ReplOp}
    (hop : forall r, op = ReplOp.upsert r -> f Call.upsertUser = false ->
      NulFree r.username ∧ VerifierFits c s r) :
    Consistent c (s.replicate f op).1 := by
  cases op with
  | delete u =>
      unfold AppState.replicate
      dsimp only
      split
      · exact h
      · exact h.deletePurged u
  | upsert r =>
      unfold AppState.replicate
      dsimp only
      split
      · exact h
      · rename_i hfault
        rcases hop r rfl (by simpa using hfault) with ⟨hname, hfits⟩
        exact h.upsertPurged hname hfits

/-- A snapshot whose records all fit keeps the copies in agreement. -/
theorem applySnapshot_consistent (h : Consistent c s) {f : Faults}
    {users : List UserRecord}
    (hfit : f Call.upsertMany = false -> forall r, r ∈ users ->
      NulFree r.username ∧ VerifierFits c s r ∧ CachesFit c s r) :
    Consistent c (s.applySnapshot f users) := by
  unfold AppState.applySnapshot
  split
  · exact h
  · rename_i hfault
    have hfit' := hfit (by simpa using hfault)
    have hrows : users.map (NewUser.toRecord ∘ UserRecord.toNewUser) = users := by
      simp [Function.comp_def]
    have hcases : forall u,
        (s.db.upsertMany (users.map UserRecord.toNewUser)).users.lookup u =
            s.db.users.lookup u ∨
          exists r, r ∈ users ∧ r.username = u ∧
            (s.db.upsertMany (users.map UserRecord.toNewUser)).users.lookup u = some r := by
      intro u
      rw [RedbStore.upsertMany_users, List.map_map, hrows]
      exact Table.lookup_insertAll_cases UserRecord.username s.db.users users u
    constructor
    · exact h.enabled
    · intro u r hlookup
      change (s.db.upsertMany (users.map UserRecord.toNewUser)).users.lookup u = some r
        at hlookup
      rcases hcases u with hsame | hnew
      · rw [hsame] at hlookup
        exact h.names u r hlookup
      · rcases hnew with ⟨r', hr', hu, _⟩
        rw [← hu]
        exact (hfit' r' hr').left
    · intro u r hget
      show (s.db.upsertMany (users.map UserRecord.toNewUser)).users.lookup u = some r
      rcases hcases u with hsame | hnew
      · rw [hsame]
        exact h.cached u r hget
      · rcases hnew with ⟨r', hr', hu, hlookup⟩
        rw [hlookup, (hfit' r' hr').right.right.left r (by rw [hu]; exact hget)]
    · intro key su hget
      rcases h.remembered key su hget with ⟨u, p, hkey, hp⟩
      refine ⟨u, p, hkey, ?_⟩
      rcases hcases u with hsame | hnew
      · rcases hp with ⟨r, hlookup, hmade⟩
        exact ⟨r, by rw [← hlookup]; exact hsame, hmade⟩
      · rcases hnew with ⟨r', hr', hu, hlookup⟩
        refine ⟨r', hlookup, (hfit' r' hr').right.right.right p ?_⟩
        rw [hu]
        unfold AppState.cacheHit
        rw [← hkey]
        exact Option.isSome_iff_exists.mpr ⟨su, hget⟩
    · intro u v hv
      change (s.db.upsertMany (users.map UserRecord.toNewUser)).verifiers u = some v at hv
      rw [RedbStore.upsertMany_verifiers] at hv
      rcases h.verifiers u v hv with ⟨pepper, p, heq, hp⟩
      refine ⟨pepper, p, heq, ?_⟩
      rcases hcases u with hsame | hnew
      · rcases hp with ⟨r, hlookup, hmade⟩
        exact ⟨r, by rw [← hlookup]; exact hsame, hmade⟩
      · rcases hnew with ⟨r', hr', hu, hlookup⟩
        refine ⟨r', hlookup, (hfit' r' hr').right.left pepper p ?_⟩
        rw [hu, hv, heq]

/-!
## Authentication
-/

/-- The ways an authentication can go, with the state it leaves. -/
inductive AuthOutcome (c : Crypto) (f : Faults) (s : AppState) (ci : ConnectInfo) :
    AppState × AuthResult -> Prop where
  | anonymous :
      AppState.credentials ci = none ->
      AuthOutcome c f s ci (s, AuthResult.badUsernameOrPassword)
  | failed (u p : String) (e : Response) :
      AppState.credentials ci = some (u, p) ->
      (s.lookupUser f u).2 = Except.error e ->
      AuthOutcome c f s ci ((s.lookupUser f u).1, AuthResult.notAuthorized)
  | unknown (u p : String) :
      AppState.credentials ci = some (u, p) ->
      (s.lookupUser f u).2 = Except.ok none ->
      AuthOutcome c f s ci ((s.lookupUser f u).1, AuthResult.badUsernameOrPassword)
  | accepted (u p : String) (r : UserRecord) :
      AppState.credentials ci = some (u, p) ->
      (s.lookupUser f u).2 = Except.ok (some r) ->
      ((s.lookupUser f u).1.checkPassword c f r u p).2 = true ->
      AuthOutcome c f s ci
        (((s.lookupUser f u).1.checkPassword c f r u p).1,
         AuthResult.allow r.superuser (some (buildAuthInfo r s.acl ci)))
  | refused (u p : String) (r : UserRecord) :
      AppState.credentials ci = some (u, p) ->
      (s.lookupUser f u).2 = Except.ok (some r) ->
      ((s.lookupUser f u).1.checkPassword c f r u p).2 = false ->
      AuthOutcome c f s ci
        (((s.lookupUser f u).1.checkPassword c f r u p).1,
         AuthResult.badUsernameOrPassword)

theorem verdict_of_true {r : UserRecord} {ci : ConnectInfo} {x : AppState × Bool}
    (hx : x.2 = true) :
    AppState.verdict ci r x =
      (x.1, AuthResult.allow r.superuser (some (buildAuthInfo r x.1.acl ci))) := by
  rcases x with ⟨t, ok⟩
  cases hx
  rfl

theorem verdict_of_false {r : UserRecord} {ci : ConnectInfo} {x : AppState × Bool}
    (hx : x.2 = false) :
    AppState.verdict ci r x = (x.1, AuthResult.badUsernameOrPassword) := by
  rcases x with ⟨t, ok⟩
  cases hx
  rfl

theorem authenticate_outcome (henabled : s.authDisabled = false) (f : Faults)
    (ci : ConnectInfo) : AuthOutcome c f s ci (s.authenticate c f ci) := by
  unfold AppState.authenticate
  rw [henabled]
  simp only [Bool.false_eq_true, if_false]
  cases hcred : AppState.credentials ci with
  | none => exact AuthOutcome.anonymous hcred
  | some up =>
      rcases up with ⟨u, p⟩
      dsimp only
      split
      · rename_i t e hlookup
        have hfailed := @AuthOutcome.failed c f s ci u p e hcred
        rw [hlookup] at hfailed
        exact hfailed rfl
      · rename_i t hlookup
        have hunknown := @AuthOutcome.unknown c f s ci u p hcred
        rw [hlookup] at hunknown
        exact hunknown rfl
      · rename_i t r hlookup
        have haccepted := @AuthOutcome.accepted c f s ci u p r hcred
        have hrefused := @AuthOutcome.refused c f s ci u p r hcred
        have hacl := lookupUser_acl (s := s) f u
        rw [hlookup] at haccepted hrefused hacl
        dsimp only at hacl
        cases hcheck : (t.checkPassword c f r u p).2 with
        | true =>
            rw [verdict_of_true hcheck, checkPassword_acl, hacl]
            exact haccepted rfl hcheck
        | false =>
            rw [verdict_of_false hcheck]
            exact hrefused rfl hcheck

/-- A record that a lookup answers with is the one in the table. -/
theorem lookup_of_answer (h : Consistent c s) {f : Faults} {u : String} {r : UserRecord}
    (hanswer : (s.lookupUser f u).2 = Except.ok (some r)) :
    s.db.users.lookup u = some r := by
  rcases lookupUser_answer h f u with hok | herr
  · rw [hanswer] at hok
    exact (Except.ok.inj hok).symm
  · rw [hanswer] at herr
    cases herr.right

theorem authenticate_consistent (hc : c.Laws) (h : Consistent c s) (f : Faults)
    (ci : ConnectInfo) : Consistent c (s.authenticate c f ci).1 := by
  have houtcome := authenticate_outcome (c := c) h.enabled f ci
  generalize s.authenticate c f ci = result at houtcome
  cases houtcome with
  | anonymous _ => exact h
  | failed u p e _ _ => exact lookupUser_consistent h f u
  | unknown u p _ _ => exact lookupUser_consistent h f u
  | accepted u p r _ hanswer _ =>
      apply checkPassword_consistent hc (lookupUser_consistent h f u)
      rw [lookupUser_db]
      exact lookup_of_answer h hanswer
  | refused u p r _ hanswer _ =>
      apply checkPassword_consistent hc (lookupUser_consistent h f u)
      rw [lookupUser_db]
      exact lookup_of_answer h hanswer

/-- What an accepting answer says about the current table. -/
def Justified (c : Crypto) (s : AppState) (ci : ConnectInfo) (superuser : Bool)
    (authInfo : Option Acl.AuthInfo) : Prop :=
  exists u p r, AppState.credentials ci = some (u, p) ∧
    s.db.users.lookup u = some r ∧ c.MadeFrom r.passwordHash p ∧
    superuser = r.superuser ∧ authInfo = some (buildAuthInfo r s.acl ci)

theorem authenticate_justified (hc : c.Laws) (h : Consistent c s) {f : Faults}
    {ci : ConnectInfo} {superuser : Bool}
    {authInfo : Option Acl.AuthInfo}
    (hallow : (s.authenticate c f ci).2 = AuthResult.allow superuser authInfo) :
    Justified c s ci superuser authInfo := by
  have houtcome := authenticate_outcome (c := c) h.enabled f ci
  generalize s.authenticate c f ci = result at houtcome hallow
  cases houtcome with
  | anonymous _ => cases hallow
  | failed u p e _ _ => cases hallow
  | unknown u p _ _ => cases hallow
  | refused u p r _ _ _ => cases hallow
  | accepted u p r hcred hanswer haccept =>
      have hlookup := lookup_of_answer h hanswer
      have hmade : c.MadeFrom r.passwordHash p := by
        apply checkPassword_sound hc (lookupUser_consistent h f u) _ haccept
        rw [lookupUser_db]
        exact hlookup
      rcases AuthResult.allow.inj hallow with ⟨hsuper, hinfo⟩
      exact ⟨u, p, r, hcred, hlookup, hmade, hsuper.symm, hinfo.symm⟩

end Operations

/-!
## Runs
-/

/-- A replicated record, and every record of an applied snapshot, fits. -/
def FittingStep (c : Crypto) (s : AppState) (req : Request) : Prop :=
  match req.op with
  | Op.replicate (ReplOp.upsert r) =>
      req.faults Call.upsertUser = false -> NulFree r.username ∧ VerifierFits c s r
  | Op.catchUp answers =>
      forall users, AppState.firstSnapshot answers s.peers 30 0 = some users ->
        req.faults Call.upsertMany = false -> forall r, r ∈ users ->
          NulFree r.username ∧ VerifierFits c s r ∧ CachesFit c s r
  | _ => True

theorem next_consistent {c : Crypto} (hc : c.Laws) {s : AppState} (h : Consistent c s)
    {req : Request} (hfits : FittingStep c s req) : Consistent c (s.next c req) := by
  rcases req with ⟨f, op⟩
  cases op with
  | createUser req salt => exact createUser_consistent h f req salt
  | deleteUser u => exact deleteUser_consistent h f u
  | replicate op =>
      apply replicate_consistent h
      intro r hr hfault
      subst hr
      exact hfits hfault
  | catchUp answers =>
      show Consistent c (AppState.catchUp f s answers)
      unfold AppState.catchUp
      cases hsnapshot : AppState.firstSnapshot answers s.peers 30 0 with
      | none => exact h
      | some users => exact applySnapshot_consistent h (hfits users hsnapshot)
  | authenticate ci => exact authenticate_consistent hc h f ci
  | sweepAuthCache => exact h.sweepAuthCache
  | sweepUserCache => exact h.sweepUserCache
  | tick d => exact h.tick d
  | restart settings => exact h.restart settings

/-- An accepting answer is justified by the current record. -/
def PasswordSound (c : Crypto) (s : AppState) : Prop :=
  forall (f : Faults) (ci : ConnectInfo) (superuser : Bool) (authInfo : Option Acl.AuthInfo),
    (s.authenticate c f ci).2 = AuthResult.allow superuser authInfo ->
      Justified c s ci superuser authInfo

theorem passwordSound_of_run {c : Crypto} (hc : c.Laws) {settings : AppState.Settings}
    {now : Nat} {reqs : List Request} {s : AppState}
    (hrun : Run (AppState.step c) (FittingStep c)
      (AppState.start settings RedbStore.empty now) reqs s) :
    PasswordSound c s := by
  have hconsistent : Consistent c s := by
    apply hrun.invariant (Consistent.start_empty settings now)
    intro s req t hs hmeets hstep
    rw [← Option.some.inj hstep]
    exact next_consistent hc hs hmeets
  intro f ci superuser authInfo hallow
  exact authenticate_justified hc hconsistent hallow

/-!
## A user on two nodes

A user is created here and later replaced by a record replicated from a peer.
-/

open Sample

/-- A run that meets the condition and ends in an accepted password. -/
theorem passwordSound_of_run_replaced :
    PasswordSound Crypto.transparent (after [create "one", remove, receive "two"]) ∧
      ((after [create "one", remove, receive "two"]).authenticate Crypto.transparent noFaults
        (login "alice" "two")).2 =
          AuthResult.allow false (some (buildAuthInfo (aliceRecord "two") AclConfig.default
            (login "alice" "two"))) := by
  constructor
  · refine @passwordSound_of_run _ Crypto.transparent_laws settings 0
      [create "one", remove, receive "two"] _ ?_
    refine Run.cons trivial rfl (Run.cons trivial rfl (Run.cons ?_ rfl (Run.nil _)))
    intro _
    refine ⟨by unfold NulFree; decide, ?_⟩
    intro pepper p hverifier
    have hnone : (after [create "one", remove]).db.verifiers "alice" = none := by
      decide +kernel
    exact absurd (hnone.symm.trans hverifier) (by simp)
  · decide +kernel

/-- The old password still passes after a replicated record replaced it. -/
theorem passwordSound_fails :
    Crypto.transparent.Laws ∧
      Run (AppState.step Crypto.transparent) Always initial
        [create "one", receive "two"] (after [create "one", receive "two"]) ∧
      ¬ PasswordSound Crypto.transparent (after [create "one", receive "two"]) := by
  refine ⟨Crypto.transparent_laws,
    Run.cons trivial rfl (Run.cons trivial rfl (Run.nil _)), ?_⟩
  intro hsound
  have hallow : ((after [create "one", receive "two"]).authenticate Crypto.transparent
      noFaults (login "alice" "one")).2 =
        AuthResult.allow false (some (buildAuthInfo (aliceRecord "two") AclConfig.default
          (login "alice" "one"))) := by
    decide +kernel
  rcases hsound _ _ _ _ hallow with ⟨u, p, r, hcred, hlookup, hmade, _⟩
  have hcred' : AppState.credentials (login "alice" "one") = some ("alice", "one") := by
    decide +kernel
  have hlookup' : (after [create "one", receive "two"]).db.users.lookup "alice" =
      some (aliceRecord "two") := by
    decide +kernel
  rw [hcred'] at hcred
  rcases Prod.mk.inj (Option.some.inj hcred) with ⟨hu, hp⟩
  rw [← hu, hlookup'] at hlookup
  rw [← Option.some.inj hlookup, ← hp] at hmade
  have hsame := Crypto.transparent_laws.madeFrom_unique hmade ⟨"salt", rfl⟩
  revert hsame
  decide

end Api
end Ciqada
