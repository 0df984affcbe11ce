import Pvz.Auth.Handlers

/-!
# Requests that interleave

Each repository call is one transaction, but three requests make two
statements that other requests run between. `Create`
(`src/pkg/repository/user.go:36-75`) checks with `SELECT EXISTS(... FOR
UPDATE)` and then inserts; under Postgres's default `READ COMMITTED` the lock
takes only rows that exist, so two checks of a name no row has both pass.
`UpdateUser` and `UpdatePassword`, on both surfaces
(`src/pkg/handler/user.go:131-234`, `src/pkg/grpc/order.go:437-494`), read the
row with `GetByID` and write it with a second call. Every other call locks its
row first and runs as one step. `UserSys` is the table with the requests
between their two statements, and `UserSys.step` one statement of any of them.
A second statement that fails rolls back, but a `Create`'s `INSERT` has drawn
its id by then (`Pending.rollback`).

* `UserSys.Reachable.serializable`: every table the interleavings reach, with
  the password each id was last given, is one the calls reach one after the
  other; an `INSERT` that succeeds is the one the whole `Create` would make at
  that moment.
* `UserSys.write_create`: a `Create` answers at its `INSERT` as the whole
  `Create` would there, except when a row has taken its name since its check:
  then the whole `Create` says `ErrUserAlreadyExists`, and the `INSERT` the
  unique violation.
* `UserSys.create_race`: two `Create`s of a free name whose checks both run
  before either inserts leave the rows the first alone makes, with the id the
  second's `INSERT` drew used up, and the second is answered 500 and
  `Internal`. One after the other, it is answered 409 and `AlreadyExists` and
  draws no id.
* `UserSys.update_lost`: an `UpdateUser` that sets only the role, read before a
  rename of the same row and written after it, writes the old name back, while
  either order of the two requests one after the other keeps the new name.
-/

namespace Pvz.Auth

/-- A request between its two statements: a `Create` past its check, an
`UpdateUser` past `GetByID` with the name and role `mergeUser` chose from the
row it read, an `UpdatePassword` past `GetByID`. -/
inductive Pending
  | create (username role password : List UInt8)
  | update (id : Int) (username role : List UInt8)
  | updatePassword (id : Int) (password : List UInt8)

/-- A `Create` in flight passed its check, so its name is text. -/
def Pending.Text : Pending → Prop
  | .create username _ _ => (utf8Chars username).isSome = true
  | .update .. | .updatePassword .. => True

section

variable (sha256 : List UInt8 → Digest)

/-- The second statement of a request in flight: `Create`'s `INSERT` and
`Commit`, the repository call of the others. -/
def Pending.write (s : UserStore) (salt : Salt) (now : Int) : Pending → Except UserError UserStore
  | .create username role password => s.createInsert sha256 username role password salt now
  | .update id username role => s.update id username role now
  | .updatePassword id password => s.updatePassword sha256 id password salt now

end

/-- The table a failed second statement leaves: a `Create`'s `INSERT` drew an
id. -/
def Pending.rollback (s : UserStore) : Pending → UserStore
  | .create username role _ => s.insertRollback username role
  | .update .. | .updatePassword .. => s

/-- The call the request makes when nothing runs between its statements. -/
def Pending.call (salt : Salt) (now : Int) : Pending → UserCall
  | .create username role password => .create username role password salt now
  | .update id username role => .update id username role now
  | .updatePassword id password => .updatePassword id password salt now

/-- The table, the password each id was last given, and the requests in
flight. -/
structure UserSys where
  store : UserStore
  pw : Int → List UInt8
  pending : List Pending

/-- A statement: the first of a request, the second of the request in flight
at an index (with the salt and the clock it reads then), or a call that runs
whole. -/
inductive UserEvent
  | createCheck (username role password : List UInt8)
  | updateRead (id : Int) (username role : List UInt8)
  | passwordRead (id : Int) (password : List UInt8)
  | write (i : Nat) (salt : Salt) (now : Int)
  | call (c : UserCall)

/-- A request's first statement; on success the request waits as `p`. -/
def UserSys.start {α : Type} (sys : UserSys) (first : Except UserError α) (p : α → Pending) :
    Except UserError Unit × UserSys :=
  match first with
  | .error e => (.error e, sys)
  | .ok a => (.ok (), { sys with pending := sys.pending ++ [p a] })

/-- A write: on success the new table, with the passwords after `c`; a failed
one rolls back to `rolledBack`. `pending` is what stays in flight. -/
def UserSys.finish (sys : UserSys) (c : UserCall) (r : Except UserError UserStore) (rolledBack : UserStore)
    (pending : List Pending) : Except UserError Unit × UserSys :=
  match r with
  | .error e => (.error e, ⟨rolledBack, sys.pw, pending⟩)
  | .ok s' => (.ok (), ⟨s', c.passwords sys.store sys.pw, pending⟩)

section

variable (sha256 : List UInt8 → Digest)

/-- One statement, and what it answers its request; `none` when the index
names no request in flight. -/
def UserSys.step (sys : UserSys) : UserEvent → Option (Except UserError Unit × UserSys)
  | .createCheck username role password =>
    some (sys.start (sys.store.createCheck username) fun _ => .create username role password)
  | .updateRead id username role =>
    some (sys.start (sys.store.getByID id) fun existing =>
      .update id (mergeUser existing username role).1 (mergeUser existing username role).2)
  | .passwordRead id password => some (sys.start (sys.store.getByID id) fun _ => .updatePassword id password)
  | .write i salt now =>
    (sys.pending[i]?).map fun p =>
      sys.finish (p.call salt now) (p.write sha256 sys.store salt now) (p.rollback sys.store) (sys.pending.eraseIdx i)
  | .call c => some (sys.finish c (sys.store.call sha256 c) (sys.store.rollback c) sys.pending)

/-- Statements in turn, with their answers. -/
def UserSys.run (sys : UserSys) : List UserEvent → Option (List (Except UserError Unit) × UserSys)
  | [] => some ([], sys)
  | ev :: evs =>
    match sys.step sha256 ev with
    | none => none
    | some (a, sys') => (sys'.run evs).map fun res => (a :: res.1, res.2)

end

/-- The systems the statements reach from the empty table with no request in
flight. -/
inductive UserSys.Reachable (sha256 : List UInt8 → Digest) : UserSys → Prop
  | empty (pw : Int → List UInt8) : Reachable sha256 ⟨UserStore.empty, pw, []⟩
  | step {sys sys' : UserSys} (ev : UserEvent) {a : Except UserError Unit} :
    Reachable sha256 sys → sys.step sha256 ev = some (a, sys') → Reachable sha256 sys'

/-- What every reachable system keeps: its table and passwords are reached by
the calls one after the other, and every `Create` in flight has a text name. -/
structure UserSys.Inv (sha256 : List UInt8 → Digest) (sys : UserSys) : Prop where
  store : UserStore.Reachable sha256 sys.store sys.pw
  texts : ∀ p ∈ sys.pending, p.Text

theorem eraseIdx_concat_length {α : Type} (l : List α) (a : α) : (l ++ [a]).eraseIdx l.length = l := by
  rw [List.eraseIdx_append_of_length_le le_rfl, Nat.sub_self]
  exact List.append_nil l

/-- The first of two requests that start one after the other, and what stays
in flight once it writes. -/
theorem getElem?_pair {α : Type} (l : List α) (a b : α) : (l ++ [a] ++ [b])[l.length]? = some a := by
  rw [List.getElem?_append_left (by simp), List.getElem?_concat_length]

theorem eraseIdx_pair {α : Type} (l : List α) (a b : α) : (l ++ [a] ++ [b]).eraseIdx l.length = l ++ [b] := by
  rw [List.eraseIdx_append_of_lt_length (by simp), eraseIdx_concat_length]

/-- The second of them, and what stays once it writes. -/
theorem getElem?_pair_snd {α : Type} (l : List α) (a b : α) : (l ++ [a] ++ [b])[l.length + 1]? = some b := by
  simpa using List.getElem?_concat_length (l ++ [a]) b

theorem eraseIdx_pair_snd {α : Type} (l : List α) (a b : α) : (l ++ [a] ++ [b]).eraseIdx (l.length + 1) = l ++ [a] := by
  simpa using eraseIdx_concat_length (l ++ [a]) b

/-! ## `Create`'s two statements -/

section

variable {sha256 : List UInt8 → Digest} {s s' : UserStore} {username role password : List UInt8} {salt : Salt}
  {now : Int}

theorem UserStore.createCheck_text (h : s.createCheck username = .ok ()) : (utf8Chars username).isSome = true := by
  unfold UserStore.createCheck at h
  split at h
  · cases h
  · rename_i hn
    exact Option.isSome_iff_ne_none.2 (by simpa using hn)

/-- A name a row has stops the whole `Create` at its check. -/
theorem UserStore.createCheck_taken (htext : (utf8Chars username).isSome = true)
    (ht : ∃ row ∈ s.users, row.username = username) : s.createCheck username = .error .userAlreadyExists := by
  rw [UserStore.createCheck, if_neg (by simpa using Option.isSome_iff_ne_none.1 htext), if_pos (by simpa using ht)]

theorem UserStore.create_taken (htext : (utf8Chars username).isSome = true)
    (ht : ∃ row ∈ s.users, row.username = username) :
    s.create sha256 username role password salt now = .error .userAlreadyExists := by
  rw [UserStore.create, UserStore.createCheck_taken htext ht]

/-- A name a row has, stored as it is: the `INSERT` is the unique violation. -/
theorem UserStore.createInsert_taken (hv : varchar 255 username = some username)
    (ht : ∃ row ∈ s.users, row.username = username) :
    s.createInsert sha256 username role password salt now = .error (.query "ошибка создания пользователя") := by
  rw [UserStore.createInsert, hv, varchar_hashPasswordSHA256]
  rcases varchar 50 role with _ | r
  · rfl
  · exact if_pos (by simpa using ht)

/-- A free name stored as it is, and a role its column takes: the `INSERT`
adds the row. -/
theorem UserStore.createInsert_free (hv : varchar 255 username = some username) (hr : varchar 50 role = some role)
    (hfree : ∀ row ∈ s.users, row.username ≠ username) :
    s.createInsert sha256 username role password salt now =
      .ok ⟨s.users ++ [⟨s.nextID, username, hashPasswordSHA256 sha256 salt password, role, now, now⟩], s.nextID + 1⟩ := by
  rw [UserStore.createInsert, hv, varchar_hashPasswordSHA256, hr]
  exact if_neg (by simpa using hfree)

/-- On a table with the invariant, an `INSERT` that succeeds passes the check
before it: a row with the request's name would hold the name it stores. -/
theorem UserStore.Inv.createCheck_of_createInsert (hi : s.Inv)
    (h : s.createInsert sha256 username role password salt now = .ok s') : s.createCheck username = .ok () := by
  obtain ⟨u, r, hu, -, hfree, -⟩ := UserStore.createInsert_ok h
  refine UserStore.createCheck_free (isSome_of_varchar hu) fun row hrow hname => hfree row hrow ?_
  have hstored := (hi.texts row hrow).1
  rw [hname, hu] at hstored
  exact hname.trans (Option.some.inj hstored).symm

theorem UserStore.Inv.create_of_createInsert (hi : s.Inv)
    (h : s.createInsert sha256 username role password salt now = .ok s') :
    s.create sha256 username role password salt now = .ok s' := by
  rw [UserStore.create, hi.createCheck_of_createInsert h]
  exact h

/-- A write that succeeds on a table with the invariant is the whole call's. -/
theorem Pending.call_of_write (hi : s.Inv) {p : Pending} (h : p.write sha256 s salt now = .ok s') :
    s.call sha256 (p.call salt now) = .ok s' := by
  cases p with
  | create => exact hi.create_of_createInsert h
  | update | updatePassword => exact h

end

/-! ## Every interleaving is a sequential run -/

section

variable {sha256 : List UInt8 → Digest} {sys sys' : UserSys} {a : Except UserError Unit}

theorem UserSys.Inv.start (hi : sys.Inv sha256) {α : Type} {first : Except UserError α} {p : α → Pending}
    (h : sys.start first p = (a, sys')) (hp : ∀ x, first = .ok x → (p x).Text) : sys'.Inv sha256 := by
  unfold UserSys.start at h
  split at h <;> cases h
  · exact hi
  · refine ⟨hi.store, fun q hq => ?_⟩
    rcases List.mem_append.1 hq with hq | hq
    · exact hi.texts q hq
    · exact List.mem_singleton.1 hq ▸ hp _ rfl

theorem UserSys.Inv.finish (hi : sys.Inv sha256) {c : UserCall} {r : Except UserError UserStore}
    {rolledBack : UserStore} {pending : List Pending} (h : sys.finish c r rolledBack pending = (a, sys'))
    (hr : ∀ s', r = .ok s' → sys.store.call sha256 c = .ok s')
    (hfail : ∀ e, r = .error e → UserStore.Reachable sha256 rolledBack sys.pw)
    (hpend : ∀ q ∈ pending, q ∈ sys.pending) : sys'.Inv sha256 := by
  unfold UserSys.finish at h
  split at h <;> cases h
  · exact ⟨hfail _ rfl, fun q hq => hi.texts q (hpend q hq)⟩
  · exact ⟨hi.store.call c (hr _ rfl), fun q hq => hi.texts q (hpend q hq)⟩

/-- A failed second statement leaves a table the calls reach one after the
other: a `Create`'s drawn id is the one a `Create` failing at its `INSERT`
draws. -/
theorem UserStore.Reachable.rollback {s : UserStore} {pw : Int → List UInt8} (h : UserStore.Reachable sha256 s pw)
    (p : Pending) : UserStore.Reachable sha256 (p.rollback s) pw := by
  cases p with
  | create username role =>
    rw [Pending.rollback, UserStore.insertRollback]
    split
    · exact h.advance
    · exact h
  | update | updatePassword => exact h

/-- Every statement keeps the invariant. -/
theorem UserSys.Inv.step (hi : sys.Inv sha256) {ev : UserEvent} (h : sys.step sha256 ev = some (a, sys')) :
    sys'.Inv sha256 := by
  cases ev with
  | createCheck => exact hi.start (Option.some.inj h) fun _ => UserStore.createCheck_text
  | updateRead | passwordRead => exact hi.start (Option.some.inj h) fun _ _ => trivial
  | write i salt now =>
    obtain ⟨p, -, hf⟩ := Option.map_eq_some'.1 h
    exact hi.finish hf (fun _ => Pending.call_of_write hi.store.inv.1) (fun _ _ => hi.store.rollback p)
      fun _ => List.mem_of_mem_eraseIdx
  | call c => exact hi.finish (Option.some.inj h) (fun _ => id) (fun _ => hi.store.fail c) fun _ => id

theorem UserSys.Reachable.inv (h : UserSys.Reachable sha256 sys) : sys.Inv sha256 := by
  induction h with
  | empty pw => exact ⟨.empty pw, nofun⟩
  | step _ _ hs ih => exact ih.step hs

/-- Every table the interleavings reach, with the password each id was last
given, is one the calls reach one after the other. -/
theorem UserSys.Reachable.serializable (h : UserSys.Reachable sha256 sys) :
    UserStore.Reachable sha256 sys.store sys.pw :=
  h.inv.store

end

/-- `InitDefaultUser`'s `Create` on a fresh database past its check, and then
past its `INSERT`, under `padDigest`, `zeroSalt` and the clock at `0`. -/
theorem UserSys.reachable_adminChecked :
    UserSys.Reachable padDigest ⟨UserStore.empty, fun _ => [], [.create (bytes "admin") (bytes "admin") (bytes "admin")]⟩ :=
  have h : UserSys.step padDigest ⟨UserStore.empty, fun _ => [], []⟩
      (.createCheck (bytes "admin") (bytes "admin") (bytes "admin")) =
      some (.ok (), ⟨UserStore.empty, fun _ => [], [.create (bytes "admin") (bytes "admin") (bytes "admin")]⟩) := rfl
  .step _ (.empty _) h

theorem UserSys.reachable_adminOnly : UserSys.Reachable padDigest ⟨UserStore.adminOnly, adminPasswords, []⟩ :=
  have h : UserSys.step padDigest ⟨UserStore.empty, fun _ => [], [.create (bytes "admin") (bytes "admin") (bytes "admin")]⟩
      (.write 0 zeroSalt 0) = some (.ok (), ⟨UserStore.adminOnly, adminPasswords, []⟩) := rfl
  .step _ UserSys.reachable_adminChecked h

/-- `InitDefaultUser`'s `Create` of `admin` and a `Create` of `admin` with the
password `root`, both past their checks; then the first inserts, and the
second's `INSERT` fails after drawing id `2`. -/
theorem UserSys.reachable_adminRaced :
    UserSys.Reachable padDigest ⟨UserStore.adminOnly, adminPasswords, [.create (bytes "admin") (bytes "admin") (bytes "root")]⟩ ∧
      UserSys.Reachable padDigest ⟨⟨UserStore.adminOnly.users, 3⟩, adminPasswords, []⟩ :=
  have h2 : UserSys.step padDigest ⟨UserStore.empty, fun _ => [], [.create (bytes "admin") (bytes "admin") (bytes "admin")]⟩
      (.createCheck (bytes "admin") (bytes "admin") (bytes "root")) =
      some (.ok (), ⟨UserStore.empty, fun _ => [], [.create (bytes "admin") (bytes "admin") (bytes "admin"),
        .create (bytes "admin") (bytes "admin") (bytes "root")]⟩) := rfl
  have h3 : UserSys.step padDigest ⟨UserStore.empty, fun _ => [], [.create (bytes "admin") (bytes "admin") (bytes "admin"),
        .create (bytes "admin") (bytes "admin") (bytes "root")]⟩ (.write 0 zeroSalt 0) =
      some (.ok (), ⟨UserStore.adminOnly, adminPasswords, [.create (bytes "admin") (bytes "admin") (bytes "root")]⟩) := rfl
  have h4 : UserSys.step padDigest ⟨UserStore.adminOnly, adminPasswords, [.create (bytes "admin") (bytes "admin") (bytes "root")]⟩
      (.write 0 zeroSalt 1) =
      some (.error (.query "ошибка создания пользователя"), ⟨⟨UserStore.adminOnly.users, 3⟩, adminPasswords, []⟩) := rfl
  have hr3 := UserSys.Reachable.step _ (.step _ UserSys.reachable_adminChecked h2) h3
  ⟨hr3, .step _ hr3 h4⟩

/-- After the race the table holds `admin` and the sequence is past the id the
losing `INSERT` drew; the calls one after the other reach it too. -/
theorem UserSys.Reachable.serializable_adminRaced :
    UserSys.Reachable padDigest ⟨⟨UserStore.adminOnly.users, 3⟩, adminPasswords, []⟩ ∧
      UserStore.Reachable padDigest ⟨UserStore.adminOnly.users, 3⟩ adminPasswords :=
  ⟨UserSys.reachable_adminRaced.2, UserSys.Reachable.serializable UserSys.reachable_adminRaced.2⟩

/-! ## What a `Create` in flight answers -/

section

variable {sha256 : List UInt8 → Digest} {sys : UserSys}

/-- On a reachable system, a `Create` in flight answers at its `INSERT` as the
whole `Create` would at that moment, unless a row has taken its name since its
check: then the `INSERT` is the unique violation, where the whole `Create`
would say `ErrUserAlreadyExists`. -/
theorem UserSys.write_create (hr : UserSys.Reachable sha256 sys) {i : Nat} {username role password : List UInt8}
    (hp : sys.pending[i]? = some (.create username role password)) (salt : Salt) (now : Int) :
    sys.store.createInsert sha256 username role password salt now =
        (if sys.store.users.any (·.username = username) then .error (.query "ошибка создания пользователя")
        else sys.store.create sha256 username role password salt now) ∧
      (sys.store.users.any (·.username = username) →
        sys.store.create sha256 username role password salt now = .error .userAlreadyExists) := by
  have hi := hr.inv
  have htext : (utf8Chars username).isSome = true := hi.texts _ (List.getElem?_mem hp)
  by_cases ht : sys.store.users.any (·.username = username)
  · obtain ⟨row, hrow, hname⟩ : ∃ row ∈ sys.store.users, row.username = username := by simpa using ht
    have hv : varchar 255 username = some username := hname ▸ (hi.store.inv.1.texts row hrow).1
    rw [if_pos ht]
    exact ⟨UserStore.createInsert_taken hv ⟨row, hrow, hname⟩,
      fun _ => UserStore.create_taken htext ⟨row, hrow, hname⟩⟩
  · rw [if_neg ht, UserStore.create, UserStore.createCheck_free htext (by simpa using ht)]
    exact ⟨rfl, fun h => absurd h ht⟩

/-- The `Create` of `admin` with the password `root`, in flight while the
other inserted `admin`: its `INSERT` is the unique violation, where the whole
`Create` would say `ErrUserAlreadyExists`. -/
theorem UserSys.write_create_raced :
    UserSys.Reachable padDigest ⟨UserStore.adminOnly, adminPasswords, [.create (bytes "admin") (bytes "admin") (bytes "root")]⟩ ∧
      ([Pending.create (bytes "admin") (bytes "admin") (bytes "root")][0]? =
        some (.create (bytes "admin") (bytes "admin") (bytes "root"))) ∧
      UserStore.adminOnly.users.any (·.username = bytes "admin") = true ∧
      (UserStore.adminOnly.createInsert padDigest (bytes "admin") (bytes "admin") (bytes "root") zeroSalt 1 =
          (if UserStore.adminOnly.users.any (·.username = bytes "admin") then .error (.query "ошибка создания пользователя")
          else UserStore.adminOnly.create padDigest (bytes "admin") (bytes "admin") (bytes "root") zeroSalt 1) ∧
        (UserStore.adminOnly.users.any (·.username = bytes "admin") →
          UserStore.adminOnly.create padDigest (bytes "admin") (bytes "admin") (bytes "root") zeroSalt 1 =
            .error .userAlreadyExists)) :=
  ⟨UserSys.reachable_adminRaced.1, rfl, rfl,
    @UserSys.write_create padDigest _ UserSys.reachable_adminRaced.1 0 _ _ _ rfl zeroSalt 1⟩

/-- Two `Create`s of a free name its column stores as it is, with a role its
column takes, whose checks both run before either inserts: the first makes the
row, and the second's `INSERT` is the unique violation, which `CreateUser`
answers 500 and `Internal`. The table is the one the first alone makes, with
one more id used up, the one the second drew. One after the other, the second
stops at its check with `ErrUserAlreadyExists`, answered 409 and
`AlreadyExists`, and draws no id. -/
theorem UserSys.create_race (sys : UserSys) {username role : List UInt8}
    (hfree : ∀ row ∈ sys.store.users, row.username ≠ username) (hu : varchar 255 username = some username)
    (hr : varchar 50 role = some role) (password1 password2 : List UInt8) (salt1 salt2 : Salt) (now1 now2 : Int) :
    ∃ s1, sys.store.create sha256 username role password1 salt1 now1 = .ok s1 ∧
      s1.create sha256 username role password2 salt2 now2 = .error .userAlreadyExists ∧
      UserStore.run sha256 (sys.store, sys.pw)
          [.create username role password1 salt1 now1, .create username role password2 salt2 now2] =
        (s1, Function.update sys.pw sys.store.nextID password1) ∧
      sys.run sha256 [.createCheck username role password1, .createCheck username role password2,
          .write sys.pending.length salt1 now1, .write sys.pending.length salt2 now2] =
        some ([.ok (), .ok (), .ok (), .error (.query "ошибка создания пользователя")],
          ⟨{ s1 with nextID := s1.nextID + 1 }, Function.update sys.pw sys.store.nextID password1, sys.pending⟩) ∧
      (UserHandler.createError .userAlreadyExists).status = statusConflict ∧
      (UserHandler.createError (.query "ошибка создания пользователя")).status = statusInternalServerError ∧
      (UserRPCHandler.createError .userAlreadyExists).code = .alreadyExists ∧
      (UserRPCHandler.createError (.query "ошибка создания пользователя")).code = .internal := by
  have htext := isSome_of_varchar hu
  have hrtext := isSome_of_varchar hr
  have hc := UserStore.createCheck_free htext hfree
  have hw1 := @UserStore.createInsert_free sha256 _ _ _ password1 salt1 now1 hu hr hfree
  have htaken : ∃ row ∈ (⟨sys.store.users ++ [⟨sys.store.nextID, username, hashPasswordSHA256 sha256 salt1 password1,
      role, now1, now1⟩], sys.store.nextID + 1⟩ : UserStore).users, row.username = username :=
    ⟨_, List.mem_append_right _ (List.mem_singleton_self _), rfl⟩
  have hc2 := UserStore.createCheck_taken htext htaken
  have hw2 := @UserStore.createInsert_taken sha256 _ _ role password2 salt2 now2 hu htaken
  refine ⟨_, by rw [UserStore.create, hc]; exact hw1, by rw [UserStore.create, hc2], ?_, ?_, rfl, rfl, rfl, rfl⟩
  · simp only [UserStore.run, UserStore.call, UserStore.create, hc, hw1, hc2, UserStore.rollback,
      UserStore.createRollback, UserCall.passwords]
  · simp only [UserSys.run, UserSys.step, UserSys.start, hc, getElem?_pair, eraseIdx_pair, Option.map_some',
      Pending.write, Pending.call, Pending.rollback, UserStore.insertRollback, htext, hrtext, Bool.and_self, if_true,
      UserSys.finish, hw1, hw2, List.getElem?_concat_length, eraseIdx_concat_length, UserCall.passwords]

/-- `InitDefaultUser`'s `Create` of `admin` racing a `Create` of `admin` with
another password: the first inserts, the second's `INSERT` fails after drawing
id `2`. -/
theorem UserSys.create_race_admin :
    (∀ row ∈ UserStore.empty.users, row.username ≠ bytes "admin") ∧
      varchar 255 (bytes "admin") = some (bytes "admin") ∧ varchar 50 (bytes "admin") = some (bytes "admin") ∧
      ∃ s1, UserStore.empty.create padDigest (bytes "admin") (bytes "admin") (bytes "admin") zeroSalt 0 = .ok s1 ∧
        s1.create padDigest (bytes "admin") (bytes "admin") (bytes "root") zeroSalt 1 = .error .userAlreadyExists ∧
        UserStore.run padDigest (UserStore.empty, fun _ => [])
            [.create (bytes "admin") (bytes "admin") (bytes "admin") zeroSalt 0,
              .create (bytes "admin") (bytes "admin") (bytes "root") zeroSalt 1] =
          (s1, Function.update (fun _ => []) UserStore.empty.nextID (bytes "admin")) ∧
        UserSys.run padDigest ⟨UserStore.empty, fun _ => [], []⟩
            [.createCheck (bytes "admin") (bytes "admin") (bytes "admin"),
              .createCheck (bytes "admin") (bytes "admin") (bytes "root"), .write 0 zeroSalt 0, .write 0 zeroSalt 1] =
          some ([.ok (), .ok (), .ok (), .error (.query "ошибка создания пользователя")],
            ⟨{ s1 with nextID := s1.nextID + 1 }, Function.update (fun _ => []) UserStore.empty.nextID (bytes "admin"),
              []⟩) ∧
        (UserHandler.createError .userAlreadyExists).status = statusConflict ∧
        (UserHandler.createError (.query "ошибка создания пользователя")).status = statusInternalServerError ∧
        (UserRPCHandler.createError .userAlreadyExists).code = .alreadyExists ∧
        (UserRPCHandler.createError (.query "ошибка создания пользователя")).code = .internal :=
  ⟨nofun, rfl, rfl, @UserSys.create_race padDigest ⟨UserStore.empty, fun _ => [], []⟩ (bytes "admin") (bytes "admin")
    nofun rfl rfl (bytes "admin") (bytes "root") zeroSalt zeroSalt 0 1⟩
end

/-! ## `UpdateUser`'s two calls -/

section

variable {sha256 : List UInt8 → Digest} {s : UserStore}

/-- A row of a table with the invariant is the one `GetByID` finds by its id. -/
theorem UserStore.Inv.getByID_mem (hi : s.Inv) {r : UserRow} (hr : r ∈ s.users) {id : Int} (hid : r.id = id) :
    s.getByID id = .ok r := by
  subst hid
  unfold UserStore.getByID
  cases hf : s.users.find? (·.id = r.id) with
  | none => exact absurd (decide_eq_true rfl) (List.find?_eq_none.1 hf r hr)
  | some row =>
    rw [List.inj_on_of_nodup_map hi.ids (List.mem_of_find?_eq_some hf) hr (by simpa using List.find?_some hf)]

/-- `Update` of a row to a name no other row has and texts the columns store
as they are. -/
theorem UserStore.update_mem {r : UserRow} (hr : r ∈ s.users) {id : Int} (hid : r.id = id) {username role : List UInt8}
    (hu : varchar 255 username = some username) (hro : varchar 50 role = some role)
    (hfree : ∀ row ∈ s.users, row.id ≠ id → row.username ≠ username) (now : Int) :
    s.update id username role now =
      .ok (s.setRow id fun row => { row with username := username, role := role, updatedAt := now }) := by
  rw [UserStore.update, if_neg fun h => absurd hid (of_decide_eq_true (List.all_eq_true.1 h r hr)), hu, hro]
  exact if_neg (by simpa using hfree)

theorem UserStore.Inv.other_name (hi : s.Inv) {r : UserRow} (hr : r ∈ s.users) :
    ∀ row ∈ s.users, row.id ≠ r.id → row.username ≠ r.username :=
  fun _ hrow hid hname => hid (congrArg UserRow.id (List.inj_on_of_nodup_map hi.names hrow hr hname))

/-- The rows an `UPDATE` of one id leaves were there before. -/
theorem UserStore.free_setRow {id : Int} {f : UserRow → UserRow} (hf : ∀ r, (f r).id = r.id) {u : List UInt8}
    (hfree : ∀ row ∈ s.users, row.id ≠ id → row.username ≠ u) :
    ∀ row ∈ (s.setRow id f).users, row.id ≠ id → row.username ≠ u := by
  intro _ hrow hid
  obtain ⟨r0, hr0, he⟩ := UserStore.mem_setRow.1 hrow
  split at he
  · rename_i h0
    subst he
    exact absurd ((hf r0).trans h0) hid
  · subst he
    exact hfree _ hr0 hid

/-- An `UpdateUser` whose `GetByID` and `Update` run back to back on a row of
a table with the invariant stores the name and role `mergeUser` chose. -/
theorem UserSys.run_updateUser (hi : s.Inv) {r : UserRow} (hrow : r ∈ s.users) {username role u ro : List UInt8}
    (hm : mergeUser r username role = (u, ro)) (hu : varchar 255 u = some u) (hro : varchar 50 ro = some ro)
    (hfree : ∀ row ∈ s.users, row.id ≠ r.id → row.username ≠ u) (pw : Int → List UInt8) (pending : List Pending)
    (salt : Salt) (now : Int) (evs : List UserEvent) :
    UserSys.run sha256 ⟨s, pw, pending⟩ (.updateRead r.id username role :: .write pending.length salt now :: evs) =
      (UserSys.run sha256
        ⟨s.setRow r.id fun row => { row with username := u, role := ro, updatedAt := now }, pw, pending⟩ evs).map
        fun res => (.ok () :: .ok () :: res.1, res.2) := by
  simp only [UserSys.run, UserSys.step, UserSys.start, hi.getByID_mem hrow rfl, hm, List.getElem?_concat_length,
    Option.map_some', Pending.write, Pending.call, UserStore.update_mem hrow rfl hu hro hfree, UserSys.finish,
    eraseIdx_concat_length, UserCall.passwords, Option.map_map]
  rfl

/-- On a reachable system, take a row, a free name its column stores as it is,
and a role its column takes. An `UpdateUser` that sets only the role reads the
row, a rename of the row to the free name reads it and writes, and the first
then writes: every statement succeeds, and the row ends with its old name. The
two requests one after the other, in either order, leave it with the new name. -/
theorem UserSys.update_lost {sys : UserSys} (hr : UserSys.Reachable sha256 sys) {r : UserRow}
    (hrow : r ∈ sys.store.users) {username role : List UInt8} (hne : username ≠ [])
    (hfree : ∀ row ∈ sys.store.users, row.username ≠ username) (hu : varchar 255 username = some username)
    (hrole : role ≠ []) (hro : varchar 50 role = some role) (salt : Salt) (now1 now2 : Int) :
    (∃ s', sys.run sha256 [.updateRead r.id [] role, .updateRead r.id username [],
          .write (sys.pending.length + 1) salt now1, .write sys.pending.length salt now2] =
        some ([.ok (), .ok (), .ok (), .ok ()], ⟨s', sys.pw, sys.pending⟩) ∧
      ∃ row ∈ s'.users, row.id = r.id ∧ row.username = r.username ∧ row.role = role) ∧
    (∃ s', sys.run sha256 [.updateRead r.id [] role, .write sys.pending.length salt now1,
          .updateRead r.id username [], .write sys.pending.length salt now2] =
        some ([.ok (), .ok (), .ok (), .ok ()], ⟨s', sys.pw, sys.pending⟩) ∧
      ∃ row ∈ s'.users, row.id = r.id ∧ row.username = username ∧ row.role = role) ∧
    (∃ s', sys.run sha256 [.updateRead r.id username [], .write sys.pending.length salt now1,
          .updateRead r.id [] role, .write sys.pending.length salt now2] =
        some ([.ok (), .ok (), .ok (), .ok ()], ⟨s', sys.pw, sys.pending⟩) ∧
      ∃ row ∈ s'.users, row.id = r.id ∧ row.username = username ∧ row.role = role) := by
  obtain ⟨s, pw, P⟩ := sys
  dsimp only at hrow hfree ⊢
  have hs : s.Inv := hr.inv.store.inv.1
  have htr := hs.texts r hrow
  have hfreeB : ∀ row ∈ s.users, row.id ≠ r.id → row.username ≠ username := fun row h _ => hfree row h
  have hmA : mergeUser r [] role = (r.username, role) := by simp [mergeUser, hrole]
  have hmB : mergeUser r username [] = (username, r.role) := by simp [mergeUser, hne]
  -- the rename and the role change, each on the table as it is
  have hB := UserStore.update_mem hrow rfl hu htr.2 hfreeB now1
  have hA := UserStore.update_mem hrow rfl htr.1 hro (hs.other_name hrow) now1
  have hrB := UserStore.mem_setRow_self (fun row => { row with username := username, role := r.role, updatedAt := now1 })
    hrow rfl
  have hrA := UserStore.mem_setRow_self (fun row => { row with username := r.username, role := role, updatedAt := now1 })
    hrow rfl
  refine ⟨?_, ?_, ?_⟩
  · -- the role change writes the name it read over the rename
    have hBA := UserStore.update_mem hrB rfl htr.1 hro
      (UserStore.free_setRow (by intro _; rfl) (hs.other_name hrow)) now2
    refine ⟨_, ?_, _, UserStore.mem_setRow_self
      (fun row => { row with username := r.username, role := role, updatedAt := now2 }) hrB rfl, rfl, rfl, rfl⟩
    simp only [UserSys.run, UserSys.step, UserSys.start, hs.getByID_mem hrow rfl, hmA, hmB, getElem?_pair_snd,
      eraseIdx_pair_snd, Option.map_some', Pending.write, Pending.call, hB, hBA, UserSys.finish,
      List.getElem?_concat_length, eraseIdx_concat_length, UserCall.passwords]
  · rw [UserSys.run_updateUser hs hrow hmA htr.1 hro (hs.other_name hrow),
      UserSys.run_updateUser (hs.call (show s.call sha256 (.update r.id r.username role now1) = _ from hA)) hrA
        (by simp [mergeUser, hne]) hu hro (UserStore.free_setRow (by intro _; rfl) hfreeB)]
    exact ⟨_, rfl, _, UserStore.mem_setRow_self
      (fun row => { row with username := username, role := role, updatedAt := now2 }) hrA rfl, rfl, rfl, rfl⟩
  · rw [UserSys.run_updateUser hs hrow hmB hu htr.2 hfreeB,
      UserSys.run_updateUser (hs.call (show s.call sha256 (.update r.id username r.role now1) = _ from hB)) hrB
        (by simp [mergeUser, hrole]) hu hro (UserStore.free_setRow (by intro _; rfl) hfreeB)]
    exact ⟨_, rfl, _, UserStore.mem_setRow_self
      (fun row => { row with username := username, role := role, updatedAt := now2 }) hrB rfl, rfl, rfl, rfl⟩

theorem UserSys.update_lost_admin :
    UserSys.Reachable padDigest ⟨UserStore.adminOnly, adminPasswords, []⟩ ∧
      (⟨1, bytes "admin", hashPasswordSHA256 padDigest zeroSalt (bytes "admin"), bytes "admin", 0, 0⟩ : UserRow) ∈
        UserStore.adminOnly.users ∧
      bytes "root" ≠ [] ∧ (∀ row ∈ UserStore.adminOnly.users, row.username ≠ bytes "root") ∧
      varchar 255 (bytes "root") = some (bytes "root") ∧ bytes "user" ≠ [] ∧
      varchar 50 (bytes "user") = some (bytes "user") ∧
      (∃ s', UserSys.run padDigest ⟨UserStore.adminOnly, adminPasswords, []⟩ [.updateRead 1 [] (bytes "user"),
            .updateRead 1 (bytes "root") [], .write 1 zeroSalt 1, .write 0 zeroSalt 2] =
          some ([.ok (), .ok (), .ok (), .ok ()], ⟨s', adminPasswords, []⟩) ∧
        ∃ row ∈ s'.users, row.id = 1 ∧ row.username = bytes "admin" ∧ row.role = bytes "user") ∧
      (∃ s', UserSys.run padDigest ⟨UserStore.adminOnly, adminPasswords, []⟩ [.updateRead 1 [] (bytes "user"),
            .write 0 zeroSalt 1, .updateRead 1 (bytes "root") [], .write 0 zeroSalt 2] =
          some ([.ok (), .ok (), .ok (), .ok ()], ⟨s', adminPasswords, []⟩) ∧
        ∃ row ∈ s'.users, row.id = 1 ∧ row.username = bytes "root" ∧ row.role = bytes "user") ∧
      (∃ s', UserSys.run padDigest ⟨UserStore.adminOnly, adminPasswords, []⟩ [.updateRead 1 (bytes "root") [],
            .write 0 zeroSalt 1, .updateRead 1 [] (bytes "user"), .write 0 zeroSalt 2] =
          some ([.ok (), .ok (), .ok (), .ok ()], ⟨s', adminPasswords, []⟩) ∧
        ∃ row ∈ s'.users, row.id = 1 ∧ row.username = bytes "root" ∧ row.role = bytes "user") :=
  have hfree : ∀ row ∈ UserStore.adminOnly.users, row.username ≠ bytes "root" := fun row h => by
    rw [List.mem_singleton.1 h]; decide
  ⟨UserSys.reachable_adminOnly, List.mem_singleton_self _, by decide, hfree, rfl, by decide, rfl,
    @UserSys.update_lost padDigest _ UserSys.reachable_adminOnly _ (List.mem_singleton_self _) (bytes "root")
      (bytes "user") (by decide) hfree rfl (by decide) rfl zeroSalt 1 2⟩
end

end Pvz.Auth
