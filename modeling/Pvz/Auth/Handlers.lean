import Pvz.Auth.Interceptor
import Pvz.Order.Errors

/-!
# The user handlers of both surfaces

`UserHandler` answers the HTTP routes of `src/unnamed/part_008:85-112`
(`src/pkg/handler/user.go:43-261`), `UserRPCHandler` the gRPC methods
(`src/pkg/grpc/order.go:370-513`); both call the same repository. The HTTP id
is the route's text, read by `parseUserIDFromParams`
(`src/pkg/handler/user.go:496-512`) through `strconv.ParseInt`; the gRPC id is
an `int64`. `InitDefaultUser` (`src/pkg/utils/admin.go:16-42`) creates the
`admin` user on an empty table at startup.

* `parseUserIDFromParams_eq_ok`: the route's text is accepted exactly when it
  is decimal digits, with at most a `+` before them, of a value in
  `1 .. 2^63 - 1`.
* `userSurfaces_agree`: for a request with the same fields, the HTTP and the
  gRPC handler leave the same table and answer the same outcome, the HTTP
  status standing for the gRPC code, although the HTTP handlers tell the
  repository's errors apart by their text and the gRPC ones by identity.
-/

namespace Pvz.Strconv

/-- A byte `'0'..'9'`. -/
def isDigit (c : UInt8) : Bool := 48 ≤ c.toNat && c.toNat ≤ 57

/-- The value of decimal digits. -/
def digitsValue (ds : List UInt8) : Nat := ds.foldl (fun n c => n * 10 + (c.toNat - 48)) 0

/-- `ParseUint(s, 10, 64)` before its range check: digits only, at least one. -/
def parseUint (s : List UInt8) : Option Nat := if s ≠ [] ∧ s.all isDigit then some (digitsValue s) else none

/-- `strconv.ParseInt(s, 10, 64)`: an optional sign, then digits of a value
that fits `int64`; `none` for its `ErrSyntax` and its `ErrRange`, which
`parseUserIDFromParams` does not tell apart. -/
def parseInt (s : List UInt8) : Option Int :=
  match s with
  | [] => none
  | c :: t =>
    if c = 45 then
      match parseUint t with
      | some un => if un ≤ 9223372036854775808 then some (-(un : Int)) else none
      | none => none
    else
      match parseUint (if c = 43 then t else c :: t) with
      | some un => if un < 9223372036854775808 then some (un : Int) else none
      | none => none

end Pvz.Strconv

namespace Pvz.Auth

/-- `fiber.StatusOK` and `fiber.StatusCreated`. -/
def statusOK : Nat := 200
def statusCreated : Nat := 201

/-- `ErrInvalidUserID`, `ErrUserIDMustBePositive`, `ErrEmptyUsername` and
`ErrEmptyPassword`: the texts `err.Error()` puts in the HTTP body. -/
def errInvalidUserID : String := "неверный формат ID пользователя"
def errUserIDMustBePositive : String := "ID пользователя должен быть положительным числом"
def errEmptyUsername : String := "имя пользователя не может быть пустым"
def errEmptyPassword : String := "пароль не может быть пустым"

/-- `parseUserIDFromParams`. -/
def parseUserIDFromParams (idParam : List UInt8) : Except String Int :=
  if idParam = [] then .error errInvalidUserID
  else match Strconv.parseInt idParam with
    | none => .error errInvalidUserID
    | some id => if id ≤ 0 then .error errUserIDMustBePositive else .ok id

theorem Strconv.parseUint_eq_some {s : List UInt8} {n : Nat} :
    Strconv.parseUint s = some n ↔ s ≠ [] ∧ s.all Strconv.isDigit = true ∧ Strconv.digitsValue s = n := by
  unfold Strconv.parseUint
  split_ifs with h
  · exact ⟨fun e => ⟨h.1, h.2, Option.some_inj.1 e⟩, fun e => congrArg some e.2.2⟩
  · exact ⟨nofun, fun e => h ⟨e.1, e.2.1⟩⟩

/-- `ParseInt` of text that does not start with `-`. -/
theorem Strconv.parseInt_unsigned {c : UInt8} (h45 : c ≠ 45) (t : List UInt8) {i : Int} :
    Strconv.parseInt (c :: t) = some i ↔
      ∃ un, Strconv.parseUint (if c = 43 then t else c :: t) = some un ∧ un < 9223372036854775808 ∧ (un : Int) = i := by
  rw [Strconv.parseInt, if_neg h45]
  cases Strconv.parseUint (if c = 43 then t else c :: t) with
  | none => simp
  | some un => by_cases h : un < 9223372036854775808 <;> simp [h]

/-- `ParseInt` of text that starts with `-` is never positive. -/
theorem Strconv.parseInt_neg_nonpos {t : List UInt8} {i : Int} (h : Strconv.parseInt (45 :: t) = some i) : i ≤ 0 := by
  rw [Strconv.parseInt, if_pos rfl] at h
  split at h
  · split_ifs at h
    cases h
    omega
  · cases h

theorem parseUserIDFromParams_eq_ok_iff {idParam : List UInt8} {id : Int} :
    parseUserIDFromParams idParam = .ok id ↔ Strconv.parseInt idParam = some id ∧ 0 < id := by
  unfold parseUserIDFromParams
  split_ifs with h0
  · subst h0; exact ⟨nofun, fun h => nomatch h.1⟩
  · cases Strconv.parseInt idParam with
    | none => exact ⟨nofun, fun h => nomatch h.1⟩
    | some i =>
      dsimp only
      split_ifs with hi
      · exact ⟨nofun, fun h => by cases Option.some_inj.1 h.1; omega⟩
      · exact ⟨fun h => by cases h; exact ⟨rfl, by omega⟩, fun h => by cases Option.some_inj.1 h.1; rfl⟩

/-- `parseUserIDFromParams` accepts exactly decimal digits, with at most a `+`
before them, of a value in `1 .. 2^63 - 1`: no `-`, no blank, no other base. -/
theorem parseUserIDFromParams_eq_ok {idParam : List UInt8} {id : Int} :
    parseUserIDFromParams idParam = .ok id ↔
      ∃ ds, ds ≠ [] ∧ ds.all Strconv.isDigit = true ∧ (idParam = ds ∨ idParam = 43 :: ds) ∧
        (Strconv.digitsValue ds : Int) = id ∧ 0 < id ∧ id < 9223372036854775808 := by
  rw [parseUserIDFromParams_eq_ok_iff]
  have hsign : ∀ {c : UInt8} {ds : List UInt8}, c = 43 ∨ c = 45 → (c :: ds).all Strconv.isDigit ≠ true := by
    rintro c ds (rfl | rfl) <;>
    · intro h
      rw [List.all_cons, Bool.and_eq_true] at h
      exact absurd h.1 (by decide)
  rcases idParam with _ | ⟨c, t⟩
  · simp only [Strconv.parseInt, reduceCtorEq, false_and, false_iff, not_exists, not_and]
    rintro ds hne - (h | h) <;> simp_all
  by_cases h45 : c = 45
  · subst h45
    refine iff_of_false (fun h => by have := Strconv.parseInt_neg_nonpos h.1; omega) ?_
    rintro ⟨ds, -, hdig, (rfl | h), -⟩
    · exact hsign (.inr rfl) hdig
    · exact absurd (List.cons.inj h).1 (by decide)
  -- the digits `ParseUint` reads: the text after a `+`, or the whole text
  have hbody : ∀ ds, ds.all Strconv.isDigit = true →
      (c :: t = ds ∨ c :: t = 43 :: ds ↔ ds = if c = 43 then t else c :: t) := by
    intro ds hdig
    by_cases h43 : c = 43
    · subst h43
      rw [if_pos rfl]
      exact ⟨fun h => h.elim (fun h => absurd (h ▸ hdig) (hsign (.inl rfl))) fun h => (List.cons.inj h).2.symm,
        fun h => .inr (by rw [h])⟩
    · rw [if_neg h43]
      exact ⟨fun h => h.elim Eq.symm fun h => absurd (List.cons.inj h).1 h43, fun h => .inl h.symm⟩
  rw [Strconv.parseInt_unsigned h45]
  simp only [Strconv.parseUint_eq_some]
  constructor
  · rintro ⟨⟨un, ⟨hne, hdig, hval⟩, hlt, rfl⟩, hpos⟩
    exact ⟨_, hne, hdig, (hbody _ hdig).2 rfl, by rw [hval], hpos, by omega⟩
  · rintro ⟨ds, hne, hdig, hsh, hval, hpos, hlt⟩
    obtain rfl := (hbody ds hdig).1 hsh
    exact ⟨⟨_, ⟨hne, hdig, rfl⟩, by omega, hval⟩, hpos⟩

/-- The body of an HTTP answer: `fiber.Map{"error": ...}`,
`fiber.Map{"message": ...}`, or a user as `JSON(user)` writes it. -/
inductive HttpBody
  | error (msg : String)
  | message (msg : String)
  | user (row : UserRow)

/-- An HTTP answer. -/
structure HttpResponse where
  status : Nat
  body : HttpBody

/-- `сreateUserRequest`, and `pb.CreateUserRequest` with the same fields. -/
structure CreateUserRequest where
  username : List UInt8
  password : List UInt8
  role : List UInt8

/-- `validateCreateUserRequest`. -/
def validateCreateUserRequest (req : CreateUserRequest) : Except String Unit :=
  if req.username = [] then .error errEmptyUsername
  else if req.password = [] then .error errEmptyPassword
  else .ok ()

/-- `validatePasswordRequest`. -/
def validatePasswordRequest (password : List UInt8) : Except String Unit :=
  if password = [] then .error errEmptyPassword else .ok ()

/-- The role a new user gets: the request's, `"user"` when it has none. -/
def defaultRole (role : List UInt8) : List UInt8 := if role = [] then bytes "user" else role

/-- The name and role `UpdateUser` stores: the request's where it has one, the
row's where not. -/
def mergeUser (existing : UserRow) (username role : List UInt8) : List UInt8 × List UInt8 :=
  (if username ≠ [] then username else existing.username, if role ≠ [] then role else existing.role)

/-! ## `UserHandler` -/

section

variable (sha256 : List UInt8 → Digest)

/-- The answer to `GetByID`'s error, which `err.Error()` compares with
`ErrUserNotFound`'s text. -/
def UserHandler.getError (e : UserError) : HttpResponse :=
  if e.text = UserError.userNotFound.text then ⟨statusNotFound, .error "Пользователь не найден"⟩
  else ⟨statusInternalServerError, .error "Ошибка при получении пользователя"⟩

/-- The answer to `Create`'s error, which `err.Error()` compares with
`ErrUserAlreadyExists`'s text. -/
def UserHandler.createError (e : UserError) : HttpResponse :=
  if e.text = UserError.userAlreadyExists.text then ⟨statusConflict, .error "Пользователь с таким именем уже существует"⟩
  else ⟨statusInternalServerError, .error "Ошибка при создании пользователя"⟩

/-- `CreateUser`, with `none` for a body `BodyParser` refuses. -/
def UserHandler.createUser (s : UserStore) (req : Option CreateUserRequest) (salt : Salt) (now : Int) :
    HttpResponse × UserStore :=
  match req with
  | none => (⟨statusBadRequest, .error "Ошибка при разборе запроса"⟩, s)
  | some req =>
    match validateCreateUserRequest req with
    | .error msg => (⟨statusBadRequest, .error msg⟩, s)
    | .ok () =>
      match s.create sha256 req.username (defaultRole req.role) req.password salt now with
      | .ok s' => (⟨statusCreated, .message "Пользователь успешно создан"⟩, s')
      | .error e => (UserHandler.createError e, s.createRollback req.username (defaultRole req.role))

/-- `GetUser`. -/
def UserHandler.getUser (s : UserStore) (idParam : List UInt8) : HttpResponse :=
  match parseUserIDFromParams idParam with
  | .error msg => ⟨statusBadRequest, .error msg⟩
  | .ok id =>
    match s.getByID id with
    | .error e => UserHandler.getError e
    | .ok row => ⟨statusOK, .user row⟩

/-- `UpdateUser`, with `none` for a body `BodyParser` refuses. -/
def UserHandler.updateUser (s : UserStore) (idParam : List UInt8) (req : Option (List UInt8 × List UInt8))
    (now : Int) : HttpResponse × UserStore :=
  match parseUserIDFromParams idParam with
  | .error msg => (⟨statusBadRequest, .error msg⟩, s)
  | .ok id =>
    match req with
    | none => (⟨statusBadRequest, .error "Ошибка при разборе запроса"⟩, s)
    | some (username, role) =>
      match s.getByID id with
      | .error e => (UserHandler.getError e, s)
      | .ok existing =>
        match s.update id (mergeUser existing username role).1 (mergeUser existing username role).2 now with
        | .ok s' => (⟨statusOK, .message "Пользователь успешно обновлен"⟩, s')
        | .error _ => (⟨statusInternalServerError, .error "Ошибка при обновлении пользователя"⟩, s)

/-- `UpdatePassword`, with `none` for a body `BodyParser` refuses. -/
def UserHandler.updatePassword (s : UserStore) (idParam : List UInt8) (req : Option (List UInt8)) (salt : Salt)
    (now : Int) : HttpResponse × UserStore :=
  match parseUserIDFromParams idParam with
  | .error msg => (⟨statusBadRequest, .error msg⟩, s)
  | .ok id =>
    match req with
    | none => (⟨statusBadRequest, .error "Ошибка при разборе запроса"⟩, s)
    | some password =>
      match validatePasswordRequest password with
      | .error msg => (⟨statusBadRequest, .error msg⟩, s)
      | .ok () =>
        match s.getByID id with
        | .error e => (UserHandler.getError e, s)
        | .ok _ =>
          match s.updatePassword sha256 id password salt now with
          | .ok s' => (⟨statusOK, .message "Пароль успешно обновлен"⟩, s')
          | .error _ => (⟨statusInternalServerError, .error "Ошибка при обновлении пароля"⟩, s)

/-- `DeleteUser`. -/
def UserHandler.deleteUser (s : UserStore) (idParam : List UInt8) : HttpResponse × UserStore :=
  match parseUserIDFromParams idParam with
  | .error msg => (⟨statusBadRequest, .error msg⟩, s)
  | .ok id =>
    match s.delete id with
    | .ok s' => (⟨statusOK, .message "Пользователь успешно удален"⟩, s')
    | .error e =>
      if e.text = UserError.userNotFound.text then (⟨statusNotFound, .error "Пользователь не найден"⟩, s)
      else (⟨statusInternalServerError, .error "Ошибка при удалении пользователя"⟩, s)

end

/-! ## `UserRPCHandler` -/

/-- `pb.User`, which `convertModelsUserToProto` fills without the hash. -/
structure PbUser where
  id : Int
  username : List UInt8
  role : List UInt8
  createdAt : Int
  updatedAt : Int

/-- `convertModelsUserToProto`. -/
def convertModelsUserToProto (row : UserRow) : PbUser := ⟨row.id, row.username, row.role, row.createdAt, row.updatedAt⟩

section

variable (sha256 : List UInt8 → Digest)

/-- The status of `GetByID`'s error, which the handler compares with
`ErrUserNotFound` itself. -/
def UserRPCHandler.getError (e : UserError) : Status :=
  if e = .userNotFound then ⟨.notFound, "пользователь не найден"⟩
  else ⟨.internal, "ошибка при получении пользователя: " ++ e.text⟩

/-- The status of `Create`'s error, which the handler compares with
`ErrUserAlreadyExists` itself. -/
def UserRPCHandler.createError (e : UserError) : Status :=
  if e = .userAlreadyExists then ⟨.alreadyExists, "пользователь с таким именем уже существует"⟩
  else ⟨.internal, "ошибка при создании пользователя: " ++ e.text⟩

/-- `CreateUser`. -/
def UserRPCHandler.createUser (s : UserStore) (req : CreateUserRequest) (salt : Salt) (now : Int) :
    Except Status String × UserStore :=
  if req.username = [] then (.error ⟨.invalidArgument, "имя пользователя не может быть пустым"⟩, s)
  else if req.password = [] then (.error ⟨.invalidArgument, "пароль не может быть пустым"⟩, s)
  else
    match s.create sha256 req.username (defaultRole req.role) req.password salt now with
    | .ok s' => (.ok "Пользователь успешно создан", s')
    | .error e => (.error (UserRPCHandler.createError e), s.createRollback req.username (defaultRole req.role))

/-- `GetUser`. -/
def UserRPCHandler.getUser (s : UserStore) (id : Int) : Except Status PbUser :=
  if id ≤ 0 then .error ⟨.invalidArgument, "ID пользователя должен быть положительным числом"⟩
  else match s.getByID id with
    | .error e => .error (UserRPCHandler.getError e)
    | .ok row => .ok (convertModelsUserToProto row)

/-- `UpdateUser`. -/
def UserRPCHandler.updateUser (s : UserStore) (id : Int) (username role : List UInt8) (now : Int) :
    Except Status String × UserStore :=
  if id ≤ 0 then (.error ⟨.invalidArgument, "ID пользователя должен быть положительным числом"⟩, s)
  else match s.getByID id with
    | .error e => (.error (UserRPCHandler.getError e), s)
    | .ok existing =>
      match s.update id (mergeUser existing username role).1 (mergeUser existing username role).2 now with
      | .ok s' => (.ok "Пользователь успешно обновлен", s')
      | .error e => (.error ⟨.internal, "ошибка при обновлении пользователя: " ++ e.text⟩, s)

/-- `UpdatePassword`. -/
def UserRPCHandler.updatePassword (s : UserStore) (id : Int) (password : List UInt8) (salt : Salt) (now : Int) :
    Except Status String × UserStore :=
  if id ≤ 0 then (.error ⟨.invalidArgument, "ID пользователя должен быть положительным числом"⟩, s)
  else if password = [] then (.error ⟨.invalidArgument, "пароль не может быть пустым"⟩, s)
  else match s.getByID id with
    | .error e => (.error (UserRPCHandler.getError e), s)
    | .ok _ =>
      match s.updatePassword sha256 id password salt now with
      | .ok s' => (.ok "Пароль успешно обновлен", s')
      | .error e => (.error ⟨.internal, "ошибка при обновлении пароля: " ++ e.text⟩, s)

/-- `DeleteUser`. -/
def UserRPCHandler.deleteUser (s : UserStore) (id : Int) : Except Status String × UserStore :=
  if id ≤ 0 then (.error ⟨.invalidArgument, "ID пользователя должен быть положительным числом"⟩, s)
  else match s.delete id with
    | .ok s' => (.ok "Пользователь успешно удален", s')
    | .error e =>
      if e = .userNotFound then (.error ⟨.notFound, "пользователь не найден"⟩, s)
      else (.error ⟨.internal, "ошибка при удалении пользователя: " ++ e.text⟩, s)

/-- `InitDefaultUser`: on a table `List(ctx, "")` finds empty, `Create` of
`admin` with password `admin` and role `admin`; a failure is only logged. -/
def initDefaultUser (s : UserStore) (salt : Salt) (now : Int) : UserStore :=
  if s.listAll.length = 0 then
    match s.create sha256 (bytes "admin") (bytes "admin") (bytes "admin") salt now with
    | .ok s' => s'
    | .error _ => s.createRollback (bytes "admin") (bytes "admin")
  else s

end

/-! ## The two surfaces agree -/

/-- The HTTP status that stands for a gRPC outcome, `okStatus` for success. -/
def httpStatusOf {α : Type} (okStatus : Nat) : Except Status α → Nat
  | .ok _ => okStatus
  | .error e =>
    match e.code with
    | .invalidArgument => statusBadRequest
    | .notFound => statusNotFound
    | .alreadyExists => statusConflict
    | .internal => statusInternalServerError
    | .unauthenticated => 401

/-- Two answers to one request agree: the same table after them, and the HTTP
status standing for the gRPC outcome. -/
structure Agree {α : Type} (okStatus : Nat) (http : HttpResponse × UserStore) (rpc : Except Status α × UserStore) :
    Prop where
  table : http.2 = rpc.2
  status : http.1.status = httpStatusOf okStatus rpc.1

section

variable {sha256 : List UInt8 → Digest} {s : UserStore}

/-- The errors `Create` returns. -/
theorem UserStore.create_error {username role password : List UInt8} {salt : Salt} {now : Int} {e : UserError}
    (h : s.create sha256 username role password salt now = .error e) :
    e = .query "ошибка проверки существования пользователя" ∨ e = .userAlreadyExists ∨
      e = .query "ошибка создания пользователя" := by
  unfold UserStore.create at h
  split at h
  · rename_i hc
    cases h
    unfold UserStore.createCheck at hc
    split at hc
    · cases hc; exact .inl rfl
    split at hc
    · cases hc; exact .inr (.inl rfl)
    · cases hc
  · unfold UserStore.createInsert at h
    split at h
    · split at h
      · cases h; exact .inr (.inr rfl)
      · cases h
    · cases h; exact .inr (.inr rfl)

theorem UserStore.getByID_error {id : Int} {e : UserError} (h : s.getByID id = .error e) : e = .userNotFound := by
  unfold UserStore.getByID at h
  split at h
  · cases h
  · cases h; rfl

theorem UserStore.delete_error {id : Int} {e : UserError} (h : s.delete id = .error e) : e = .userNotFound := by
  unfold UserStore.delete at h
  split at h
  · cases h; rfl
  · cases h

theorem parseUserIDFromParams_pos {idParam : List UInt8} {id : Int} (h : parseUserIDFromParams idParam = .ok id) :
    0 < id := by
  unfold parseUserIDFromParams at h
  split at h
  · cases h
  split at h
  · cases h
  split at h
  · cases h
  · cases h; omega

theorem createUser_agree (req : CreateUserRequest) (salt : Salt) (now : Int) :
    Agree statusCreated (UserHandler.createUser sha256 s (some req) salt now)
      (UserRPCHandler.createUser sha256 s req salt now) := by
  unfold UserHandler.createUser UserRPCHandler.createUser validateCreateUserRequest
  by_cases hu : req.username = []
  · simp only [hu, if_true]; exact ⟨rfl, rfl⟩
  by_cases hp : req.password = []
  · simp only [hu, hp, if_true, if_false]; exact ⟨rfl, rfl⟩
  simp only [hu, hp, if_false]
  cases hc : s.create sha256 req.username (defaultRole req.role) req.password salt now with
  | ok s' => exact ⟨rfl, rfl⟩
  | error e => rcases UserStore.create_error hc with rfl | rfl | rfl <;> exact ⟨rfl, rfl⟩

section

variable {idParam : List UInt8} {id : Int} (hid : parseUserIDFromParams idParam = .ok id)
include hid

theorem getUser_agree : (UserHandler.getUser s idParam).status = httpStatusOf statusOK (UserRPCHandler.getUser s id) := by
  unfold UserHandler.getUser UserRPCHandler.getUser
  rw [hid, if_neg (not_le.2 (parseUserIDFromParams_pos hid))]
  dsimp only
  cases hg : s.getByID id with
  | error e => cases UserStore.getByID_error hg; rfl
  | ok row => rfl

theorem updateUser_agree (username role : List UInt8) (now : Int) :
    Agree statusOK (UserHandler.updateUser s idParam (some (username, role)) now)
      (UserRPCHandler.updateUser s id username role now) := by
  unfold UserHandler.updateUser UserRPCHandler.updateUser
  rw [hid, if_neg (not_le.2 (parseUserIDFromParams_pos hid))]
  dsimp only
  cases hg : s.getByID id with
  | error e => cases UserStore.getByID_error hg; exact ⟨rfl, rfl⟩
  | ok existing =>
    dsimp only
    cases s.update id (mergeUser existing username role).1 (mergeUser existing username role).2 now <;>
      exact ⟨rfl, rfl⟩

theorem updatePassword_agree (password : List UInt8) (salt : Salt) (now : Int) :
    Agree statusOK (UserHandler.updatePassword sha256 s idParam (some password) salt now)
      (UserRPCHandler.updatePassword sha256 s id password salt now) := by
  unfold UserHandler.updatePassword UserRPCHandler.updatePassword validatePasswordRequest
  rw [hid, if_neg (not_le.2 (parseUserIDFromParams_pos hid))]
  dsimp only
  by_cases hp : password = []
  · simp only [hp, if_true]; exact ⟨rfl, rfl⟩
  simp only [hp, if_false]
  cases hg : s.getByID id with
  | error e => cases UserStore.getByID_error hg; exact ⟨rfl, rfl⟩
  | ok existing =>
    dsimp only
    cases s.updatePassword sha256 id password salt now <;> exact ⟨rfl, rfl⟩

theorem deleteUser_agree : Agree statusOK (UserHandler.deleteUser s idParam) (UserRPCHandler.deleteUser s id) := by
  unfold UserHandler.deleteUser UserRPCHandler.deleteUser
  rw [hid, if_neg (not_le.2 (parseUserIDFromParams_pos hid))]
  dsimp only
  cases hd : s.delete id with
  | error e => cases UserStore.delete_error hd; exact ⟨rfl, rfl⟩
  | ok s' => exact ⟨rfl, rfl⟩

end

/-- For requests with the same fields, and an HTTP id the route's text gives,
the HTTP and the gRPC user handlers leave the same table and answer the same
outcome. -/
theorem userSurfaces_agree {idParam : List UInt8} {id : Int} (hid : parseUserIDFromParams idParam = .ok id)
    (req : CreateUserRequest) (username role password : List UInt8) (salt : Salt) (now : Int) :
    Agree statusCreated (UserHandler.createUser sha256 s (some req) salt now)
        (UserRPCHandler.createUser sha256 s req salt now) ∧
      (UserHandler.getUser s idParam).status = httpStatusOf statusOK (UserRPCHandler.getUser s id) ∧
      Agree statusOK (UserHandler.updateUser s idParam (some (username, role)) now)
        (UserRPCHandler.updateUser s id username role now) ∧
      Agree statusOK (UserHandler.updatePassword sha256 s idParam (some password) salt now)
        (UserRPCHandler.updatePassword sha256 s id password salt now) ∧
      Agree statusOK (UserHandler.deleteUser s idParam) (UserRPCHandler.deleteUser s id) :=
  ⟨createUser_agree req salt now, getUser_agree hid, updateUser_agree hid username role now,
    updatePassword_agree hid password salt now, deleteUser_agree hid⟩

theorem userSurfaces_agree_admin :
    parseUserIDFromParams (bytes "1") = .ok 1 ∧
      Agree statusCreated (UserHandler.createUser padDigest UserStore.adminOnly
          (some ⟨bytes "admin", bytes "pw", []⟩) zeroSalt 1)
        (UserRPCHandler.createUser padDigest UserStore.adminOnly ⟨bytes "admin", bytes "pw", []⟩ zeroSalt 1) ∧
      (UserHandler.getUser UserStore.adminOnly (bytes "1")).status =
        httpStatusOf statusOK (UserRPCHandler.getUser UserStore.adminOnly 1) ∧
      Agree statusOK (UserHandler.updateUser UserStore.adminOnly (bytes "1") (some ([], bytes "user")) 1)
        (UserRPCHandler.updateUser UserStore.adminOnly 1 [] (bytes "user") 1) ∧
      Agree statusOK (UserHandler.updatePassword padDigest UserStore.adminOnly (bytes "1") (some []) zeroSalt 1)
        (UserRPCHandler.updatePassword padDigest UserStore.adminOnly 1 [] zeroSalt 1) ∧
      Agree statusOK (UserHandler.deleteUser UserStore.adminOnly (bytes "1")) (UserRPCHandler.deleteUser UserStore.adminOnly 1) :=
  have hid : parseUserIDFromParams (bytes "1") = .ok 1 := rfl
  ⟨hid, userSurfaces_agree hid _ _ _ _ _ _⟩

end

end Pvz.Auth
