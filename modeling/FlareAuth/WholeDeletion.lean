import FlareAuth.UserDeletion

/-!
# Which deletions of a User are whole

A deletion that a foreign key stops has already ended the sessions of the User,
and one that succeeds takes the memberships along without looking at who else
owns the Organization. Outside of these two cases it is whole.
-/

namespace FlareAuth.UserDeletion

open Concurrent Relational

/-- The row is the User, or a session, a membership or a linked account of the User. -/
def isRecord (userId : Id) (r : Record) : Bool :=
  isUser userId r || belongs .session userId r || belongs .member userId r ||
    belongs .account userId r

def isOwner (organizationId : Id) (r : Record) : Bool :=
  r.table = .member && r.get .organizationId = some organizationId &&
    (r.get .role).any fun role => (Membership.deserializeRoles role).contains "owner"

def Unchanged (userId : Id) (before after : Database) : Prop :=
  ∀ r, isRecord userId r = true → (r ∈ after ↔ r ∈ before)

def KeepsOwners (before after : Database) : Prop :=
  ∀ organizationId, before.any (isOwner organizationId) = true →
    after.any (isOwner organizationId) = true

/-- All or nothing, and no Organization loses its last owner. -/
def Whole (userId : Id) (before : Database) (run : Except Failure Unit × Database) : Prop :=
  (∃ e, run.1 = .error e ∧ Unchanged userId before run.2) ∨
    hasUser userId run.2 = false ∧ KeepsOwners before run.2

def withoutSessions (userId : Id) (db : Database) : Database :=
  (deleteWhere schema db (belongs .session userId)).getD db

/-- The request ends before the first statement that deletes. -/
def Refused (b : Boundary) (actor : Option Id) (userId : Id) (db : Database) : Prop :=
  (∃ e, b.authorizePlatformOrganization db = .error e) ∨ actor = some userId ∨
    hasUser userId db = false

/-- What the two statements must find: a User without sessions where a foreign key stops the
second of them, and another owner in every Organization with an owner where none does. -/
structure Clear (userId : Id) (db : Database) : Prop where
  stopped : restricted schema (withoutSessions userId db) (isUser userId) = true →
    ∀ r ∈ db, belongs .session userId r = false
  completed : restricted schema (withoutSessions userId db) (isUser userId) = false →
    ∀ organizationId, db.any (isOwner organizationId) = true →
      ∃ r ∈ db, isOwner organizationId r = true ∧ r.get .userId ≠ some userId

section Effects

variable {userId : Id} {db left : Database} {p : Record → Bool} {r : Record}

theorem isUser_iff : isUser userId r = true ↔ r.table = .user ∧ r.get .id = some userId := by
  rw [isUser, Bool.and_eq_true, decide_eq_true_eq, decide_eq_true_eq]

theorem belongs_iff {table : Table} :
    belongs table userId r = true ↔ r.table = table ∧ r.get .userId = some userId := by
  rw [belongs, Bool.and_eq_true, decide_eq_true_eq, decide_eq_true_eq]

theorem isRecord_iff : isRecord userId r = true ↔
    ((isUser userId r = true ∨ belongs .session userId r = true) ∨
      belongs .member userId r = true) ∨
      belongs .account userId r = true := by
  simp only [isRecord, Bool.or_eq_true]

theorem table_of_isOwner {organizationId : Id} (h : isOwner organizationId r = true) :
    r.table = .member := by
  simp only [isOwner, Bool.and_eq_true, decide_eq_true_eq] at h
  exact h.1.1

/-- The tables of the records have no reference that is set to null. -/
theorem mem_left (h : deleteWhere schema db p = some left)
    (htable : r.table ∈ [Table.user, .session, .member, .account]) :
    r ∈ left ↔ r ∈ db ∧ doomed schema db p r = false := by
  apply mem_deleteWhere h
  have hnone : ∀ t ∈ [Table.user, .session, .member, .account], ∀ f ∈ schema,
      f.onDelete = .setNull → f.child ≠ t := by decide
  exact hnone r.table htable

theorem table_of_isRecord (h : isRecord userId r = true) :
    r.table ∈ [Table.user, .session, .member, .account] := by
  simp only [isRecord_iff, isUser_iff, belongs_iff] at h
  rcases h with ((⟨h, -⟩ | ⟨h, -⟩) | ⟨h, -⟩) | ⟨h, -⟩ <;> simp [h]

theorem linked_iff {action : OnDelete} {q : Record} : linked schema action r q = true ↔
    ∃ f ∈ schema, f.onDelete = action ∧ r.table = f.child ∧ q.table = f.parent ∧
      (r.get f.column).isSome = true ∧ r.get f.column = q.get f.key := by
  simp only [linked, Reference.links, List.any_eq_true, Bool.and_eq_true,
    decide_eq_true_eq, and_assoc]

/-- Nothing cascades from a session. -/
theorem doomed_sessions :
    doomed schema db (belongs .session userId) = belongs .session userId := by
  apply doomed_eq_of_leaf
  have hleaf : ∀ f ∈ schema, f.onDelete = .cascade → Table.session ≠ f.parent := by decide
  intro f hf hcascade q hq
  rw [(belongs_iff.mp hq).1]
  exact hleaf f hf hcascade

theorem deleteWhere_sessions :
    deleteWhere schema db (belongs .session userId) = some (withoutSessions userId db) := by
  have hfree : deleteWhere schema db (belongs .session userId) ≠ none := by
    rw [ne_eq, deleteWhere_eq_none, Bool.not_eq_true, restricted_eq_false, doomed_sessions]
    intro r _ q _ hq
    by_contra hlinked
    obtain ⟨f, hf, hrestrict, -, hparent, -⟩ := linked_iff.mp (Bool.not_eq_false _ ▸ hlinked)
    have hleaf : ∀ f ∈ schema, f.onDelete = .restrict → Table.session ≠ f.parent := by decide
    exact hleaf f hf hrestrict ((belongs_iff.mp hq).1.symm.trans hparent)
  obtain ⟨left, hleft⟩ := Option.ne_none_iff_exists'.mp hfree
  rw [withoutSessions, hleft, Option.getD_some]

theorem mem_withoutSessions (htable : r.table ∈ [Table.user, .session, .member, .account]) :
    r ∈ withoutSessions userId db ↔ r ∈ db ∧ belongs .session userId r = false := by
  rw [mem_left deleteWhere_sessions htable, doomed_sessions]

/-- A row of a table that cascades from no other goes only when it is deleted itself. -/
theorem doomed_root (hroot : ∀ f ∈ schema, f.onDelete = .cascade → f.child ≠ r.table)
    (h : doomed schema db p r = true) : p r = true := by
  rcases doomed_cases h with hp | ⟨q, -, -, hlink⟩
  · exact hp
  · obtain ⟨f, hf, hcascade, hchild, -⟩ := linked_iff.mp hlink
    exact absurd hchild.symm (hroot f hf hcascade)

theorem doomed_user (h : r.table = .user) :
    doomed schema db (isUser userId) r = isUser userId r := by
  rw [Bool.eq_iff_iff]
  refine ⟨doomed_root ?_, doomed_of⟩
  rw [h]
  decide

/-- Of the memberships those of the User go, and they all do. -/
theorem doomed_member (huser : hasUser userId db = true) (hr : r ∈ db)
    (htable : r.table = .member) :
    doomed schema db (isUser userId) r = true ↔ r.get .userId = some userId := by
  rw [doomed_iff hr]
  constructor
  · rintro (h | ⟨q, -, hq, hlink⟩)
    · rw [isUser_iff, htable] at h
      cases h.1
    · obtain ⟨f, hf, hcascade, hchild, hparent, -, hkey⟩ := linked_iff.mp hlink
      have hmember : ∀ f ∈ schema, f.onDelete = .cascade → f.child = .member →
          f = ⟨.member, .organizationId, .organization, .id, .cascade⟩ ∨
            f = ⟨.member, .userId, .user, .id, .cascade⟩ := by decide
      rcases hmember f hf hcascade (hchild.symm.trans htable) with rfl | rfl
      · have hroot := doomed_root (by rw [hparent]; decide) hq
        rw [isUser_iff, hparent] at hroot
        cases hroot.1
      · rw [doomed_user hparent, isUser_iff] at hq
        exact hkey.trans hq.2
  · intro h
    obtain ⟨q, hq, hisUser⟩ := List.any_eq_true.mp huser
    obtain ⟨hqtable, hid⟩ := isUser_iff.mp hisUser
    refine .inr ⟨q, hq, doomed_of hisUser, linked_iff.mpr ?_⟩
    exact ⟨⟨.member, .userId, .user, .id, .cascade⟩, by decide, rfl, htable, hqtable, by simp [h],
      h.trans hid.symm⟩

theorem hasUser_left (h : deleteWhere schema db (isUser userId) = some left) :
    hasUser userId left = false := by
  rw [hasUser, List.any_eq_false]
  intro r hr hisUser
  have htable := (isUser_iff.mp hisUser).1
  have hstays := ((mem_left h (by simp [htable])).mp hr).2
  rw [doomed_user htable, hisUser] at hstays
  cases hstays

end Effects

section Run

variable {b : Boundary} {actor : Option Id} {userId : Id} {db left : Database} {p : Record → Bool}

theorem deleteRows_of_some (h : deleteWhere schema db p = some left) :
    deleteRows p db = (.ok (), left) := by
  rw [deleteRows, Command.read_bind, Command.bind_of_ok (Command.orThrow_eq_ok.mpr ⟨h, rfl⟩)]
  rfl

theorem deleteRows_of_none (h : deleteWhere schema db p = none) :
    ∃ e, deleteRows p db = (.error e, db) := by
  rw [deleteRows, Command.read_bind, h]
  exact ⟨_, rfl⟩

theorem findUser_of (h : hasUser userId db = true) : findUser userId db = (.ok (), db) := by
  rw [findUser, Command.read_bind]
  exact Command.require_of h

theorem hasUser_withoutSessions : hasUser userId (withoutSessions userId db) =
    hasUser userId db := by
  rw [Bool.eq_iff_iff, hasUser, hasUser, List.any_eq_true, List.any_eq_true]
  apply exists_congr
  intro r
  rw [and_congr_left_iff]
  intro hisUser
  have htable := (isUser_iff.mp hisUser).1
  rw [mem_withoutSessions (by simp [htable]), and_iff_left]
  simp [belongs, htable]

/-- A request that is not refused comes to the statement that deletes the User. -/
theorem deleteUser_of_not_refused (h : ¬Refused b actor userId db) : deleteUser b actor userId db =
    (do deleteRows (isUser userId); publish b : Management Unit) (withoutSessions userId db) := by
  simp only [Refused, not_or, not_exists, Bool.not_eq_false] at h
  obtain ⟨hallowed, hactor, huser⟩ := h
  have hok : b.authorizePlatformOrganization db = .ok () := by
    cases hresult : b.authorizePlatformOrganization db with
    | ok => rfl
    | error e => exact absurd hresult (hallowed e)
  rw [deleteUser, Command.read_bind, Command.bind_of_ok (Command.ofExcept_eq_ok.mpr ⟨hok, rfl⟩),
    Command.bind_of_ok (Command.require_of hactor), Command.bind_of_ok (findUser_of huser),
    deleteManagedUser, bind_assoc, Command.bind_of_ok (findUser_of huser), bind_assoc,
    Command.bind_of_ok (deleteRows_of_some deleteWhere_sessions)]

theorem deleteUser_of_refused (h : Refused b actor userId db) :
    ∃ e, deleteUser b actor userId db = (.error e, db) := by
  rw [deleteUser, Command.read_bind]
  cases hallowed : b.authorizePlatformOrganization db with
  | error e => exact ⟨e, rfl⟩
  | ok =>
    rw [Command.bind_of_ok (Command.ofExcept_eq_ok.mpr ⟨rfl, rfl⟩)]
    by_cases hactor : actor = some userId
    · exact ⟨_, Command.bind_of_error (Command.require_of_not (not_not.mpr hactor))⟩
    · rw [Command.bind_of_ok (Command.require_of hactor)]
      have huser : hasUser userId db = false := by
        rcases h with ⟨e, he⟩ | h | h
        · rw [hallowed] at he
          cases he
        · exact absurd h hactor
        · exact h
      have hfind : findUser userId db = (.error (notFound "User not found."), db) := by
        rw [findUser, Command.read_bind]
        exact Command.require_of_not (by simp [huser])
      exact ⟨_, Command.bind_of_error hfind⟩

end Run

section Outcome

variable {userId : Id} {db left : Database} {a : Announcement} {r : Record}

theorem mem_append_deliveries (htable : r.table ∈ [Table.user, .session, .member, .account]) :
    r ∈ left ++ a.deliveries ↔ r ∈ left := by
  rw [List.mem_append, or_iff_left]
  intro h
  simp only [Announcement.deliveries, List.mem_append, List.mem_map] at h
  rcases h with ⟨_, -, rfl⟩ | ⟨_, -, rfl⟩
  · simp at htable
  · simp at htable

/-- A deletion that stops has ended the sessions, so it is whole only if there were none. -/
theorem whole_stopped_iff {e : Failure} (huser : hasUser userId db = true) :
    Whole userId db (.error e, withoutSessions userId db) ↔
      ∀ r ∈ db, belongs .session userId r = false := by
  constructor
  · rintro (⟨e, -, hunchanged⟩ | ⟨hgone, -⟩)
    · intro r hr
      by_contra hsession
      rw [Bool.not_eq_false] at hsession
      have hrecord : isRecord userId r = true := isRecord_iff.mpr (.inl (.inl (.inr hsession)))
      have hkept := (hunchanged r hrecord).mpr hr
      rw [mem_withoutSessions (table_of_isRecord hrecord), hsession] at hkept
      cases hkept.2
    · rw [hasUser_withoutSessions, huser] at hgone
      cases hgone
  · intro hnone
    refine .inl ⟨e, rfl, ?_⟩
    intro r hrecord
    rw [mem_withoutSessions (table_of_isRecord hrecord)]
    exact ⟨And.left, fun hr => ⟨hr, hnone r hr⟩⟩

/-- Of the memberships a completed deletion takes those of the User and no others. -/
theorem mem_completed (huser : hasUser userId db = true)
    (hleft : deleteWhere schema (withoutSessions userId db) (isUser userId) = some left)
    (htable : r.table = .member) :
    r ∈ left ++ a.deliveries ↔ r ∈ db ∧ r.get .userId ≠ some userId := by
  have htables : r.table ∈ [Table.user, .session, .member, .account] := by simp [htable]
  have hsession : belongs .session userId r = false := by simp [belongs, htable]
  rw [mem_append_deliveries htables, mem_left hleft htables]
  have hiff : r ∈ withoutSessions userId db ↔ r ∈ db := by
    rw [mem_withoutSessions htables, and_iff_left hsession]
  rw [← Bool.not_eq_true, ← hiff, and_congr_right_iff]
  intro hr
  rw [doomed_member (hasUser_withoutSessions.trans huser) hr htable]

theorem whole_completed_iff {result : Except Failure Unit} (huser : hasUser userId db = true)
    (hleft : deleteWhere schema (withoutSessions userId db) (isUser userId) = some left) :
    Whole userId db (result, left ++ a.deliveries) ↔
      ∀ organizationId, db.any (isOwner organizationId) = true →
        ∃ r ∈ db, isOwner organizationId r = true ∧ r.get .userId ≠ some userId := by
  have hgone : hasUser userId (left ++ a.deliveries) = false := by
    rw [hasUser, List.any_eq_false]
    intro r hr hisUser
    have htable := (isUser_iff.mp hisUser).1
    rw [mem_append_deliveries (by simp [htable])] at hr
    have hnone := hasUser_left hleft
    rw [hasUser, List.any_eq_false] at hnone
    exact hnone r hr hisUser
  have howners : ∀ organizationId, (left ++ a.deliveries).any (isOwner organizationId) = true ↔
      ∃ r ∈ db, isOwner organizationId r = true ∧ r.get .userId ≠ some userId := by
    intro organizationId
    rw [List.any_eq_true]
    apply exists_congr
    intro r
    constructor
    · rintro ⟨hr, howner⟩
      have hr := (mem_completed huser hleft (table_of_isOwner howner)).mp hr
      exact ⟨hr.1, howner, hr.2⟩
    · rintro ⟨hr, howner, hother⟩
      exact ⟨(mem_completed huser hleft (table_of_isOwner howner)).mpr ⟨hr, hother⟩, howner⟩
  constructor
  · rintro (⟨e, -, hunchanged⟩ | ⟨-, hkeeps⟩)
    · obtain ⟨r, hr, hisUser⟩ := List.any_eq_true.mp huser
      have hkept := (hunchanged r (isRecord_iff.mpr (.inl (.inl (.inl hisUser))))).mpr hr
      rw [hasUser, List.any_eq_false] at hgone
      exact absurd hisUser (hgone r hkept)
    · intro organizationId howner
      exact (howners organizationId).mp (hkeeps organizationId howner)
  · intro hothers
    refine .inr ⟨hgone, ?_⟩
    intro organizationId howner
    exact (howners organizationId).mpr (hothers organizationId howner)

end Outcome

/-- A deletion is whole exactly when it is refused at once or its two statements find the
database clear for them. -/
theorem deleteUser_whole_iff (b : Boundary) (actor : Option Id) (userId : Id) (db : Database) :
    Whole userId db (deleteUser b actor userId db) ↔ Refused b actor userId db ∨
      Clear userId db := by
  by_cases hrefused : Refused b actor userId db
  · obtain ⟨e, hrun⟩ := deleteUser_of_refused hrefused
    rw [hrun]
    exact iff_of_true (.inl ⟨e, rfl, fun _ _ => Iff.rfl⟩) (.inl hrefused)
  · have huser : hasUser userId db = true := by
      by_contra hmissing
      exact hrefused (.inr (.inr (Bool.not_eq_true _ ▸ hmissing)))
    rw [or_iff_right hrefused, deleteUser_of_not_refused hrefused]
    cases hleft : deleteWhere schema (withoutSessions userId db) (isUser userId) with
    | none =>
      have hstopped := deleteWhere_eq_none.mp hleft
      obtain ⟨e, he⟩ := deleteRows_of_none hleft
      rw [Command.bind_of_error he, whole_stopped_iff huser]
      constructor
      · intro hnone
        exact ⟨fun _ => hnone, fun h => absurd (hstopped.symm.trans h) (by decide)⟩
      · exact fun hclear => hclear.stopped hstopped
    | some left =>
      have hcompleted : restricted schema (withoutSessions userId db) (isUser userId) = false := by
        by_contra h
        rw [deleteWhere_eq_none.mpr (Bool.not_eq_false _ ▸ h)] at hleft
        cases hleft
      rw [Command.bind_of_ok (deleteRows_of_some hleft)]
      refine (whole_completed_iff huser hleft).trans ⟨fun hothers => ?_, fun hclear => ?_⟩
      · exact ⟨fun h => absurd (hcompleted.symm.trans h) (by decide), fun _ => hothers⟩
      · exact hclear.completed hcompleted

namespace Sample

def boundary : Boundary where
  authorizePlatformOrganization _ := .ok ()
  publishWebhookEvent _ := ⟨[], [], .ok ()⟩

/-- A signed in User who owns an Agent. -/
def agentOwner : Database :=
  [⟨.user, [(.id, "user-1")]⟩, ⟨.session, [(.id, "session-1"), (.userId, "user-1")]⟩,
    ⟨.agentIdentity, [(.id, "agent-1"), (.ownerUserId, "user-1")]⟩]

def soleOwner : Database :=
  [⟨.user, [(.id, "user-1")]⟩, ⟨.organization, [(.id, "org-1")]⟩,
    ⟨.member, [(.id, "member-1"), (.organizationId, "org-1"), (.userId, "user-1"),
      (.role, "owner")]⟩]

end Sample

/-- The Agent keeps the User but not the session, and the Organization is left without an owner. -/
theorem deletion_not_whole :
    ¬Whole "user-1" Sample.agentOwner (deleteUser Sample.boundary
      (some "admin") "user-1" Sample.agentOwner) ∧
      ¬Whole "user-1" Sample.soleOwner
        (deleteUser Sample.boundary (some "admin") "user-1" Sample.soleOwner) := by
  constructor
  · have hrun : (deleteUser Sample.boundary (some "admin") "user-1" Sample.agentOwner).2 =
        [⟨.user, [(.id, "user-1")]⟩,
          ⟨.agentIdentity, [(.id, "agent-1"), (.ownerUserId, "user-1")]⟩] := by decide
    rw [Whole, hrun]
    rintro (⟨e, -, hunchanged⟩ | ⟨hgone, -⟩)
    · have hkept := hunchanged ⟨.session, [(.id, "session-1"), (.userId, "user-1")]⟩ (by decide)
      exact absurd (hkept.mpr (by decide)) (by decide)
    · exact absurd hgone (by decide)
  · have hrun : (deleteUser Sample.boundary (some "admin") "user-1" Sample.soleOwner).2 =
        [⟨.organization, [(.id, "org-1")]⟩] := by decide
    rw [Whole, hrun]
    rintro (⟨e, -, hunchanged⟩ | ⟨-, hkeeps⟩)
    · have hkept := hunchanged ⟨.user, [(.id, "user-1")]⟩ (by decide)
      exact absurd (hkept.mpr (by decide)) (by decide)
    · exact absurd (hkeeps "org-1" (by decide)) (by decide)

end FlareAuth.UserDeletion
