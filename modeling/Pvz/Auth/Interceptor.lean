import Pvz.Auth.Users

/-!
# `BasicAuthInterceptor`

The gRPC server (`src/pkg/grpc/server.go:23-51`) runs every unary call through
`UnaryInterceptor` and every stream through `StreamInterceptor`
(`src/pkg/grpc/server.go:101-168`). Both take the same steps, `authenticate`
here: the incoming metadata, its first `authorization` value, `parseBasicAuth`,
then `CheckPassword` on the user table; the handler then runs with the name in
its context. `UnaryInterceptor` alone lets `CreateUser` through with no
credentials at all.

* `authenticate_eq_ok_iff`: on every table the repository's calls reach, a
  request is let in as `username` exactly when its first `authorization` value
  parses to `username` and a password, a row has that name, and the password
  hashes under the row's salt like the password last given to the row.
* `authenticate_basic`: a user whose name and current password hold no `:` is
  let in with the header a client builds from them.
* `authenticate_after_delete`: once `Delete` removes a row, no request is let in
  under its name.
-/

namespace Pvz.Auth

/-- The gRPC codes of the user service and its interceptors. -/
inductive StatusCode
  | invalidArgument
  | notFound
  | alreadyExists
  | internal
  | unauthenticated
  deriving DecidableEq, Repr

/-- `status.Errorf(code, ...)`. -/
structure Status where
  code : StatusCode
  message : String
  deriving DecidableEq

/-- `"/proto.UserRPCHandler/CreateUser"`, the method `UnaryInterceptor` lets
through. -/
def createUserMethod : String := "/proto.UserRPCHandler/CreateUser"

section

variable (sha256 : List UInt8 → Digest)

/-- The steps both interceptors take, on the incoming metadata given by its
`authorization` values (`none` when the context has no metadata, `[]` when the
key is missing): the name the handler then sees in its context. -/
def authenticate (s : UserStore) : Option (List (List UInt8)) → Except Status (List UInt8)
  | none => .error ⟨.unauthenticated, "метаданные не найдены"⟩
  | some [] => .error ⟨.unauthenticated, "требуется авторизация"⟩
  | some (authHeader :: _) =>
    match parseBasicAuth authHeader with
    | none => .error ⟨.unauthenticated, "некорректный формат заголовка авторизации"⟩
    | some (username, password) =>
      if s.checkPassword sha256 username password then .ok username
      else .error ⟨.unauthenticated, "неверные учетные данные"⟩

/-- `UnaryInterceptor`: `CreateUser` runs with no name in its context, every
other method after `authenticate`. -/
def unaryInterceptor {α : Type} (s : UserStore) (fullMethod : String) (md : Option (List (List UInt8)))
    (handler : Option (List UInt8) → Except Status α) : Except Status α :=
  if fullMethod = createUserMethod then handler none
  else match authenticate sha256 s md with
    | .ok username => handler (some username)
    | .error e => .error e

/-- `StreamInterceptor`: every stream after `authenticate`. -/
def streamInterceptor (s : UserStore) (md : Option (List (List UInt8)))
    (handler : Option (List UInt8) → Except Status Unit) : Except Status Unit :=
  match authenticate sha256 s md with
  | .ok username => handler (some username)
  | .error e => .error e

end

section

variable {sha256 : List UInt8 → Digest} {s : UserStore} {pw : Int → List UInt8}

/-- What `authenticate` lets in: the first value parses, and `CheckPassword`
accepts the credentials. -/
theorem authenticate_eq_ok {md : Option (List (List UInt8))} {username : List UInt8} :
    authenticate sha256 s md = .ok username ↔
      ∃ header rest password, md = some (header :: rest) ∧ parseBasicAuth header = some (username, password) ∧
        s.checkPassword sha256 username password = true := by
  constructor
  · intro h
    rcases md with _ | _ | ⟨header, rest⟩
    · cases h
    · cases h
    · rw [authenticate] at h
      split at h
      · cases h
      · rename_i u p hparse
        split at h
        · cases h
          exact ⟨header, rest, p, rfl, hparse, ‹_›⟩
        · cases h
  · rintro ⟨header, rest, password, rfl, hparse, hcheck⟩
    rw [authenticate, hparse]
    exact if_pos hcheck

/-- On a reachable table, a request is let in as `username` exactly when its
first `authorization` value parses to `username` and a password, a row has
the name, and the password hashes under the row's salt like the one last
given to the row. -/
theorem authenticate_eq_ok_iff (hr : UserStore.Reachable sha256 s pw) (md : Option (List (List UInt8)))
    (username : List UInt8) :
    authenticate sha256 s md = .ok username ↔
      ∃ header rest password, md = some (header :: rest) ∧ parseBasicAuth header = some (username, password) ∧
        ∃ r ∈ s.users, r.username = username ∧ ∃ salt : Salt,
          r.passwordHash = hashPasswordSHA256 sha256 salt (pw r.id) ∧
          sha256 (salt.bytes ++ password) = sha256 (salt.bytes ++ pw r.id) := by
  obtain ⟨hi, hh⟩ := hr.inv
  simp only [authenticate_eq_ok, hi.checkPassword_eq_true hh]

/-- `admin:admin` and `admin:root` against the table `InitDefaultUser` makes:
the right password hashes like the stored one, the wrong one does not. -/
theorem authenticate_eq_ok_iff_admin :
    UserStore.Reachable padDigest UserStore.adminOnly adminPasswords ∧
      (authenticate padDigest UserStore.adminOnly (some [bytes "Basic YWRtaW46YWRtaW4="]) = .ok (bytes "admin") ↔
        ∃ header rest password, some [bytes "Basic YWRtaW46YWRtaW4="] = some (header :: rest) ∧
          parseBasicAuth header = some (bytes "admin", password) ∧
          ∃ r ∈ UserStore.adminOnly.users, r.username = bytes "admin" ∧ ∃ salt : Salt,
            r.passwordHash = hashPasswordSHA256 padDigest salt (adminPasswords r.id) ∧
            padDigest (salt.bytes ++ password) = padDigest (salt.bytes ++ adminPasswords r.id)) ∧
      (authenticate padDigest UserStore.adminOnly (some [bytes "Basic YWRtaW46cm9vdA=="]) = .ok (bytes "admin") ↔
        ∃ header rest password, some [bytes "Basic YWRtaW46cm9vdA=="] = some (header :: rest) ∧
          parseBasicAuth header = some (bytes "admin", password) ∧
          ∃ r ∈ UserStore.adminOnly.users, r.username = bytes "admin" ∧ ∃ salt : Salt,
            r.passwordHash = hashPasswordSHA256 padDigest salt (adminPasswords r.id) ∧
            padDigest (salt.bytes ++ password) = padDigest (salt.bytes ++ adminPasswords r.id)) ∧
      parseBasicAuth (bytes "Basic YWRtaW46cm9vdA==") = some (bytes "admin", bytes "root") ∧
      padDigest (zeroSalt.bytes ++ bytes "root") ≠ padDigest (zeroSalt.bytes ++ bytes "admin") :=
  ⟨UserStore.reachable_adminOnly, authenticate_eq_ok_iff UserStore.reachable_adminOnly _ _,
    authenticate_eq_ok_iff UserStore.reachable_adminOnly _ _, by decide,
    fun he => absurd (congrArg Digest.bytes he) (by decide)⟩

/-- On a reachable table, a user whose name and current password hold no `:`
is let in with the header built from them, whatever values follow it. -/
theorem authenticate_basic (hr : UserStore.Reachable sha256 s pw) {r : UserRow} (hrow : r ∈ s.users)
    (hu : (58 : UInt8) ∉ r.username) (hp : (58 : UInt8) ∉ pw r.id) (rest : List (List UInt8)) :
    authenticate sha256 s (some ((basicPrefix ++ Base64.encodeToString (r.username ++ 58 :: pw r.id)) :: rest)) =
      .ok r.username := by
  obtain ⟨hi, hh⟩ := hr.inv
  exact authenticate_eq_ok.2 ⟨_, rest, pw r.id, rfl, parseBasicAuth_encode hu hp, hi.checkPassword_row hh hrow⟩

theorem authenticate_basic_admin :
    UserStore.Reachable padDigest UserStore.adminOnly adminPasswords ∧
      (⟨1, bytes "admin", hashPasswordSHA256 padDigest zeroSalt (bytes "admin"), bytes "admin", 0, 0⟩ : UserRow) ∈
        UserStore.adminOnly.users ∧
      (58 : UInt8) ∉ bytes "admin" ∧ (58 : UInt8) ∉ adminPasswords 1 ∧
      authenticate padDigest UserStore.adminOnly
          (some [basicPrefix ++ Base64.encodeToString (bytes "admin" ++ 58 :: adminPasswords 1)]) = .ok (bytes "admin") :=
  ⟨UserStore.reachable_adminOnly, List.mem_singleton_self _, by decide, by decide,
    authenticate_basic UserStore.reachable_adminOnly (List.mem_singleton_self _) (by decide) (by decide) []⟩

/-- On a reachable table, once `Delete` removes a row no request is let in
under its name. -/
theorem authenticate_after_delete (hr : UserStore.Reachable sha256 s pw) {id : Int} {s' : UserStore}
    (h : s.delete id = .ok s') {r : UserRow} (hrow : r ∈ s.users) (hid : r.id = id)
    (md : Option (List (List UInt8))) : authenticate sha256 s' md ≠ .ok r.username := by
  obtain ⟨hi, -⟩ := hr.inv
  obtain ⟨-, rfl⟩ := UserStore.delete_ok h
  have hgone : ∀ row ∈ (s.users.filter (·.id ≠ id)), row.username ≠ r.username := by
    intro row hrow' hname
    have hmem := List.mem_filter.1 hrow'
    exact of_decide_eq_true hmem.2 (List.inj_on_of_nodup_map hi.names hmem.1 hrow hname ▸ hid)
  intro hok
  obtain ⟨-, -, password, -, -, hcheck⟩ := authenticate_eq_ok.1 hok
  rw [UserStore.checkPassword_absent hgone] at hcheck
  cases hcheck

theorem authenticate_after_delete_admin :
    UserStore.Reachable padDigest UserStore.adminOnly adminPasswords ∧
      UserStore.adminOnly.delete 1 = .ok ⟨[], 2⟩ ∧
      (⟨1, bytes "admin", hashPasswordSHA256 padDigest zeroSalt (bytes "admin"), bytes "admin", 0, 0⟩ : UserRow) ∈
        UserStore.adminOnly.users ∧
      authenticate padDigest ⟨[], 2⟩ (some [bytes "Basic YWRtaW46YWRtaW4="]) ≠ .ok (bytes "admin") :=
  have h : UserStore.adminOnly.delete 1 = .ok ⟨[], 2⟩ := rfl
  ⟨UserStore.reachable_adminOnly, h, List.mem_singleton_self _,
    authenticate_after_delete UserStore.reachable_adminOnly h (List.mem_singleton_self _) rfl _⟩

end

end Pvz.Auth
